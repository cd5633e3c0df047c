import Mathlib.Data.List.Perm.Subperm
import Mathlib.Data.List.InsertIdx

/-! Messages on their way. Each belongs to a lane; a lane may keep its order or not, and may
lose messages or not. -/
namespace Spitfire.Transition
variable {κ β : Type} [DecidableEq κ]

/-- The messages of one lane. -/
def lane (k : κ) (xs : List (κ × β)) : List β := (xs.filter fun x => x.1 = k).map Prod.snd

theorem lane_append (k : κ) (xs ys : List (κ × β)) : lane k (xs ++ ys) = lane k xs ++ lane k ys := by
  simp [lane]

theorem lane_singleton (k k' : κ) (b : β) : lane k [(k', b)] = if k' = k then [b] else [] := by
  by_cases h : k' = k <;> simp [lane, h]

/-- A lane is seen through a renaming that does not take another for it. -/
theorem lane_map {κ' : Type} [DecidableEq κ'] (f : κ → κ') {k : κ} {xs : List (κ × β)}
    (h : ∀ k', f k' = f k → k' = k) :
    lane (f k) (xs.map fun x => (f x.1, x.2)) = lane k xs := by
  have hiff : ∀ x : κ × β, f x.1 = f k ↔ x.1 = k := fun x => ⟨h x.1, congrArg f⟩
  simp [lane, List.filter_map, Function.comp_def, hiff]

/-- What is left of the other lanes, and of its own, when a message is taken out. -/
theorem lane_eraseIdx {xs : List (κ × β)} {i : Nat} {k : κ} {b : β} (h : xs[i]? = some (k, b))
    (k' : κ) : lane k' xs = lane k' (xs.take i) ++ lane k' [(k, b)] ++ lane k' (xs.drop (i + 1)) ∧
      lane k' (xs.eraseIdx i) = lane k' (xs.take i) ++ lane k' (xs.drop (i + 1)) := by
  obtain ⟨hi, hx⟩ := List.getElem?_eq_some_iff.mp h
  constructor
  · rw [← lane_append, ← lane_append, List.append_assoc, ← hx, List.singleton_append,
      List.getElem_cons_drop, List.take_append_drop]
  · rw [List.eraseIdx_eq_take_drop_succ, lane_append]

/-- How the lanes treat their messages. -/
structure Policy (κ : Type) where
  ordered : κ → Bool
  reliable : κ → Bool

structure Carrier (κ β : Type) where
  sent : List (κ × β) := []
  flying : List (κ × β) := []
  arrived : List (κ × β) := []

inductive Carriage (κ β : Type) where
  | send (k : κ) (b : β)
  | arrive (i : Nat)
  | lose (i : Nat)

namespace Carrier

/-- In an ordered lane nothing overtakes, in a reliable one nothing is lost. -/
def next (p : Policy κ) (c : Carrier κ β) : Carriage κ β → Option (Carrier κ β)
  | .send k b => some { c with sent := c.sent ++ [(k, b)], flying := c.flying ++ [(k, b)] }
  | .arrive i => match c.flying[i]? with
    | none => none
    | some (k, b) =>
      if p.ordered k && (lane k (c.flying.take i)).length != 0 then none
      else some { c with flying := c.flying.eraseIdx i, arrived := c.arrived ++ [(k, b)] }
  | .lose i => match c.flying[i]? with
    | none => none
    | some (k, _) => if p.reliable k then none else some { c with flying := c.flying.eraseIdx i }

end Carrier

/-- What has arrived in each lane, followed by what is on its way there, is part of what was
sent: in any order, and in an ordered lane in the same one; in a reliable lane it is all. -/
structure Carried (p : Policy κ) (c : Carrier κ β) (k : κ) : Prop where
  part : (lane k c.arrived ++ lane k c.flying).Subperm (lane k c.sent)
  ordered : p.ordered k = true → (lane k c.arrived ++ lane k c.flying).Sublist (lane k c.sent)
  reliable : p.reliable k = true → (lane k c.arrived ++ lane k c.flying).Perm (lane k c.sent)

variable {p : Policy κ} {c c' : Carrier κ β}

theorem carried_empty (p : Policy κ) (k : κ) : Carried p ({} : Carrier κ β) k :=
  ⟨.refl _, fun _ => .refl _, fun _ => .refl _⟩

/-- An ordered and reliable lane has lost, repeated and overtaken nothing. -/
theorem Carried.eq {k : κ} (h : Carried p c k) (hordered : p.ordered k = true)
    (hreliable : p.reliable k = true) : lane k c.arrived ++ lane k c.flying = lane k c.sent :=
  (h.ordered hordered).eq_of_length (h.reliable hreliable).length_eq

theorem carried_send {k : κ} (h : Carried p c k) (x : κ × β) :
    Carried p { c with sent := c.sent ++ [x], flying := c.flying ++ [x] } k := by
  obtain ⟨hpart, hordered, hreliable⟩ := h
  constructor
  · simp only [lane_append, ← List.append_assoc]
    exact hpart.append (.refl _)
  · intro hk
    simp only [lane_append, ← List.append_assoc]
    exact (hordered hk).append_right _
  · intro hk
    simp only [lane_append, ← List.append_assoc]
    exact (hreliable hk).append_right _

theorem carried_arrive {k k' : κ} {i : Nat} {b : β} (h : Carried p c k)
    (hi : c.flying[i]? = some (k', b))
    (hfirst : p.ordered k' = true → lane k' (c.flying.take i) = []) :
    Carried p { c with flying := c.flying.eraseIdx i, arrived := c.arrived ++ [(k', b)] } k := by
  obtain ⟨hpart, hordered, hreliable⟩ := h
  obtain ⟨hflying, herased⟩ := lane_eraseIdx hi k
  rw [hflying] at hpart hordered hreliable
  have hperm : (lane k (c.arrived ++ [(k', b)]) ++ lane k (c.flying.eraseIdx i)).Perm
      (lane k c.arrived ++ (lane k (c.flying.take i) ++ lane k [(k', b)] ++
        lane k (c.flying.drop (i + 1)))) := by
    rw [lane_append, herased, List.append_assoc, ← List.append_assoc (lane k [(k', b)])]
    exact (List.perm_append_comm.append_right _).append_left _
  refine ⟨hperm.subperm.trans hpart, fun hk => ?_, fun hk => hperm.trans (hreliable hk)⟩
  have hsame : lane k (c.flying.take i) ++ lane k [(k', b)] =
      lane k [(k', b)] ++ lane k (c.flying.take i) := by
    by_cases hkk : k' = k
    · subst hkk
      rw [hfirst hk, List.nil_append, List.append_nil]
    · rw [lane_singleton, if_neg hkk, List.nil_append, List.append_nil]
  have hordered := hordered hk
  rw [hsame, List.append_assoc, ← List.append_assoc] at hordered
  rw [lane_append, herased]
  exact hordered

theorem carried_lose {k k' : κ} {i : Nat} {b : β} (h : Carried p c k)
    (hi : c.flying[i]? = some (k', b)) (hk' : p.reliable k' = false) :
    Carried p { c with flying := c.flying.eraseIdx i } k := by
  obtain ⟨hpart, hordered, hreliable⟩ := h
  obtain ⟨hflying, herased⟩ := lane_eraseIdx hi k
  have hsub : (lane k c.arrived ++ lane k (c.flying.eraseIdx i)).Sublist
      (lane k c.arrived ++ lane k c.flying) := by
    rw [hflying, herased]
    exact ((List.sublist_append_left _ _).append_right _).append_left _
  refine ⟨hsub.subperm.trans hpart, fun hk => hsub.trans (hordered hk), fun hk => ?_⟩
  have hne : k' ≠ k := by
    rintro rfl
    rw [hk'] at hk
    cases hk
  rw [lane_singleton, if_neg hne, List.append_nil] at hflying
  have hreliable := hreliable hk
  rw [hflying, ← herased] at hreliable
  exact hreliable

theorem of_arrive {i : Nat} {x : κ × β} (hi : c.flying[i]? = some x)
    (hnext : c.next p (.arrive i) = some c') : c'.sent = c.sent ∧ c'.arrived = c.arrived ++ [x] := by
  simp only [Carrier.next, hi] at hnext
  split at hnext
  · cases hnext
  · cases hnext
    exact ⟨rfl, rfl⟩

theorem of_lose {i : Nat} (hnext : c.next p (.lose i) = some c') :
    c'.sent = c.sent ∧ c'.arrived = c.arrived := by
  dsimp only [Carrier.next] at hnext
  split at hnext
  · cases hnext
  · split at hnext
    · cases hnext
    · cases hnext
      exact ⟨rfl, rfl⟩

theorem carried_next (k : κ) {a : Carriage κ β} (h : Carried p c k) (hnext : c.next p a = some c') :
    Carried p c' k := by
  cases a with
  | send k' b =>
    cases hnext
    exact carried_send h _
  | arrive i =>
    dsimp only [Carrier.next] at hnext
    split at hnext
    · cases hnext
    · rename_i k' b hi
      split at hnext
      · cases hnext
      · rename_i hfree
        cases hnext
        refine carried_arrive h hi fun hk => ?_
        simpa [hk] using hfree
  | lose i =>
    dsimp only [Carrier.next] at hnext
    split at hnext
    · cases hnext
    · rename_i k' b hi
      split at hnext
      · cases hnext
      · rename_i hk
        cases hnext
        exact carried_lose h hi (Bool.eq_false_iff.mpr hk)

end Spitfire.Transition
