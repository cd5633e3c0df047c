import Spitfire.Regex.Language

/-! What the matcher spends: the matcher again, with the number of looks at the input beside
whether it succeeds. Where it fails it has gone every way there is. -/
namespace Spitfire.Regex
variable {α : Type}

/-- A look at the end of the input counts as well. -/
structure Effort where
  found : Bool
  looks : Nat
  deriving DecidableEq, Repr

namespace Effort

/-- The second only if the first fails. -/
def orElse (x y : Effort) : Effort := if x.found then x else ⟨y.found, x.looks + y.looks⟩

def after (n : Nat) (x : Effort) : Effort := ⟨x.found, n + x.looks⟩

@[simp] theorem orElse_found (x y : Effort) : (x.orElse y).found = (x.found || y.found) := by
  unfold orElse
  cases h : x.found <;> simp [h]

theorem orElse_looks {x : Effort} (h : x.found = false) (y : Effort) :
    (x.orElse y).looks = x.looks + y.looks := by
  simp [orElse, h]

theorem le_orElse_looks (x y : Effort) : x.looks ≤ (x.orElse y).looks := by
  unfold orElse
  split <;> simp

end Effort

open Effort

/-- The characters that a greedy loop looks at on its way out. -/
def loopLooks (p : α → Bool) : Option Nat → List α → Nat
  | _, [] => 1
  | max, a :: s =>
    if max = some 0 then 0 else if p a then 1 + loopLooks p (max.map (· - 1)) s else 1

def iterateEffort (body : (Groups α → List α → Effort) → Groups α → List α → Effort)
    (k : Groups α → List α → Effort) : Nat → Groups α → List α → Effort
  | 0, g, s => body k g s
  | n + 1, g, s => body (fun g' t =>
      if t.length < s.length then (iterateEffort body k n g' t).orElse (k g' t) else k g' t) g s

def effort : Pattern α → (Groups α → List α → Effort) → Groups α → List α → Effort
  | .empty, k, g, s => k g s
  | .set _, _, _, [] => ⟨false, 1⟩
  | .set p, k, g, a :: s => if p a then (k g s).after 1 else ⟨false, 1⟩
  | .seq a b, k, g, s => effort a (effort b k) g s
  | .alt a b, k, g, s => (effort a k g s).orElse (effort b k g s)
  | .opt a, k, g, s => (effort a k g s).orElse (k g s)
  | .setLoop p min max, k, g, s =>
    ((loopRests p min max s).foldr (fun t x => (k g t).orElse x) ⟨false, 0⟩).after
      (loopLooks p max s)
  | .plus a, k, g, s => iterateEffort (effort a) k s.length g s
  | .group n a, k, g, s => effort a (fun g' t =>
      k (Function.update g' n (some ⟨s.take (s.length - t.length), t⟩)) t) g s

/-- The effort of a search, from one starting point to the next. -/
def searchEffort (r : Pattern α) : List α → Effort
  | [] => effort r (fun _ _ => ⟨true, 0⟩) (fun _ => none) []
  | a :: s => (effort r (fun _ _ => ⟨true, 0⟩) (fun _ => none) (a :: s)).orElse (searchEffort r s)

/-- The looks of what comes after each of these ways. -/
def looksAfter (k : Groups α → List α → Effort) : List (Groups α × List α) → Nat
  | [] => 0
  | x :: xs => (k x.1 x.2).looks + looksAfter k xs

def Fails (k : Groups α → List α → Effort) (xs : List (Groups α × List α)) : Prop :=
  ∀ x ∈ xs, (k x.1 x.2).found = false

/-- The effort of a matcher that goes these ways. -/
structure Goes (all : Groups α → List α → List (Groups α × List α))
    (spend : (Groups α → List α → Effort) → Groups α → List α → Effort) : Prop where
  found : ∀ k g s, (spend k g s).found = (all g s).any fun x => (k x.1 x.2).found
  looks : ∀ k g s, Fails k (all g s) → looksAfter k (all g s) ≤ (spend k g s).looks

section
variable {k : Groups α → List α → Effort} {xs ys : List (Groups α × List α)}

@[simp] theorem looksAfter_nil : looksAfter k [] = 0 := rfl

@[simp] theorem looksAfter_cons (x : Groups α × List α) :
    looksAfter k (x :: xs) = (k x.1 x.2).looks + looksAfter k xs := rfl

@[simp] theorem looksAfter_append : looksAfter k (xs ++ ys) = looksAfter k xs + looksAfter k ys := by
  induction xs with
  | nil => simp
  | cons x xs ih => rw [List.cons_append, looksAfter_cons, looksAfter_cons, ih, Nat.add_assoc]

theorem looksAfter_map (f : Groups α × List α → Groups α × List α) :
    looksAfter k (xs.map f) = looksAfter (fun g s => k (f (g, s)).1 (f (g, s)).2) xs := by
  induction xs with
  | nil => rfl
  | cons x xs ih => rw [List.map_cons, looksAfter_cons, looksAfter_cons, ih]

theorem fails_append : Fails k (xs ++ ys) ↔ Fails k xs ∧ Fails k ys := by
  simp [Fails, or_imp, forall_and]

theorem fails_flatMap {f : Groups α × List α → List (Groups α × List α)} :
    Fails k (xs.flatMap f) ↔ ∀ x ∈ xs, Fails k (f x) := by
  simp only [Fails, List.mem_flatMap]
  exact ⟨fun h x hx y hy => h y ⟨x, hx, hy⟩, fun h y ⟨x, hx, hy⟩ => h x hx y hy⟩

/-- Looks add up along the ways. -/
theorem looksAfter_flatMap_le {f : Groups α × List α → List (Groups α × List α)}
    {j : Groups α → List α → Effort}
    (h : ∀ x ∈ xs, looksAfter k (f x) ≤ (j x.1 x.2).looks) :
    looksAfter k (xs.flatMap f) ≤ looksAfter j xs := by
  induction xs with
  | nil => exact Nat.le_refl 0
  | cons x xs ih =>
    rw [List.flatMap_cons, looksAfter_append, looksAfter_cons]
    exact Nat.add_le_add (h x (by simp)) (ih fun y hy => h y (by simp [hy]))

theorem any_eq_false_of_fails (h : Fails k xs) : (xs.any fun x => (k x.1 x.2).found) = false := by
  simpa [Fails] using h

end

section
variable {all all' : Groups α → List α → List (Groups α × List α)}
  {spend spend' : (Groups α → List α → Effort) → Groups α → List α → Effort}

/-- One after the other. -/
theorem Goes.seq (h : Goes all spend) (h' : Goes all' spend') :
    Goes (fun g s => (all g s).flatMap fun x => all' x.1 x.2) (fun k => spend (spend' k)) where
  found k g s := by
    simp only [h.found, h'.found, List.any_flatMap]
  looks k g s hfails := by
    rw [fails_flatMap] at hfails
    have hfails' : Fails (spend' k) (all g s) := fun x hx => by
      rw [h'.found]
      exact any_eq_false_of_fails (hfails x hx)
    exact Nat.le_trans (looksAfter_flatMap_le fun x hx => h'.looks k x.1 x.2 (hfails x hx))
      (h.looks _ g s hfails')

theorem Goes.alt (h : Goes all spend) (h' : Goes all' spend') :
    Goes (fun g s => all g s ++ all' g s)
      (fun k g s => (spend k g s).orElse (spend' k g s)) where
  found k g s := by simp only [orElse_found, h.found, h'.found, List.any_append]
  looks k g s hfails := by
    obtain ⟨hleft, hright⟩ := fails_append.mp hfails
    have hfound : (spend k g s).found = false := by
      rw [h.found]
      exact any_eq_false_of_fails hleft
    rw [looksAfter_append, orElse_looks hfound]
    exact Nat.add_le_add (h.looks k g s hleft) (h'.looks k g s hright)

theorem goes_here : Goes (fun g s => [(g, s)]) (fun (k : Groups α → List α → Effort) g s => k g s) where
  found k g s := by simp
  looks k g s _ := by simp

/-- A step that is taken before each way. -/
theorem Goes.iterate (h : Goes all spend) (n : Nat) :
    Goes (iteratePaths all n) (fun k g s => iterateEffort spend k n g s) := by
  induction n with
  | zero => exact h
  | succ n ih =>
    have hnext (length : Nat) : Goes
        (fun g t => if t.length < length then iteratePaths all n g t ++ [(g, t)] else [(g, t)])
        (fun k g t =>
          if t.length < length then (iterateEffort spend k n g t).orElse (k g t) else k g t) := by
      have hmore := ih.alt goes_here
      constructor
      · intro k g t
        split
        · exact hmore.found k g t
        · simp
      · intro k g t hfails
        split
        · rename_i hlt
          rw [if_pos hlt] at hfails
          exact hmore.looks k g t hfails
        · simp
    exact ⟨fun k g s => (h.seq (hnext s.length)).found k g s,
      fun k g s => (h.seq (hnext s.length)).looks k g s⟩

end

theorem goes_setLoop (p : α → Bool) (min : Nat) (max : Option Nat) :
    Goes (paths (.setLoop p min max)) (effort (.setLoop p min max)) := by
  have hfound (k : Groups α → List α → Effort) (g : Groups α) (ts : List (List α)) :
      (ts.foldr (fun t x => (k g t).orElse x) ⟨false, 0⟩).found = ts.any fun t => (k g t).found := by
    induction ts with
    | nil => rfl
    | cons t ts ih => rw [List.foldr_cons, orElse_found, ih, List.any_cons]
  have hlooks (k : Groups α → List α → Effort) (g : Groups α) (ts : List (List α))
      (hfails : Fails k (ts.map fun t => (g, t))) : looksAfter k (ts.map fun t => (g, t)) ≤
        (ts.foldr (fun t x => (k g t).orElse x) ⟨false, 0⟩).looks := by
    induction ts with
    | nil => exact Nat.le_refl 0
    | cons t ts ih =>
      rw [List.map_cons, looksAfter_cons, List.foldr_cons, orElse_looks (hfails (g, t) (by simp))]
      exact Nat.add_le_add_left (ih fun x hx => hfails x (by simp [hx])) _
  constructor
  · intro k g s
    rw [paths, List.any_map]
    exact hfound k g _
  · intro k g s hfails
    exact Nat.le_trans (hlooks k g _ hfails) (Nat.le_add_left _ _)

/-- The effort is that of the matcher: it succeeds where the matcher does, and where all ways
fail it has gone them all. -/
theorem goes_paths (r : Pattern α) : Goes (paths r) (effort r) := by
  induction r with
  | empty => exact goes_here
  | set p =>
    constructor
    · intro k g s
      cases s with
      | nil => rfl
      | cons a s => cases hp : p a <;> simp [effort, paths, hp, after]
    · intro k g s _
      cases s with
      | nil => exact Nat.zero_le _
      | cons a s => cases hp : p a <;> simp [effort, paths, hp, after]
  | seq a b ia ib => exact ia.seq ib
  | alt a b ia ib => exact ia.alt ib
  | opt a ia => exact ia.alt goes_here
  | setLoop p min max => exact goes_setLoop p min max
  | plus a ia =>
    exact ⟨fun k g s => (ia.iterate s.length).found k g s,
      fun k g s => (ia.iterate s.length).looks k g s⟩
  | group n a ia =>
    constructor
    · intro k g s
      rw [effort, ia.found, paths, List.any_map]
      rfl
    · intro k g s hfails
      have hlooks := ia.looks (fun g' t =>
        k (Function.update g' n (some ⟨s.take (s.length - t.length), t⟩)) t) g s
        (fun x hx => hfails _ (List.mem_map.mpr ⟨x, hx, rfl⟩))
      rw [effort, paths, looksAfter_map]
      exact hlooks

theorem searchEffort_found (r : Pattern α) (s : List α) :
    (searchEffort r s).found = (search r s).isSome := by
  have hhere (s : List α) : (effort r (fun _ _ => ⟨true, 0⟩) (fun _ => none) s).found =
      (matchHere r s).isSome := by
    rw [(goes_paths r).found, matchHere_eq_head]
    cases paths r (fun _ => none) s <;> simp
  induction s with
  | nil => exact hhere []
  | cons a s ih => rw [searchEffort, search, orElse_found, hhere, ih, Option.isSome_or]

theorem effort_le_searchEffort (r : Pattern α) (s : List α) :
    (effort r (fun _ _ => ⟨true, 0⟩) (fun _ => none) s).looks ≤ (searchEffort r s).looks := by
  cases s with
  | nil => exact Nat.le_refl _
  | cons a s => exact le_orElse_looks _ _

section
variable {k : Groups α → List α → Effort} {xs : List (Groups α × List α)}

theorem looks_le_looksAfter {x : Groups α × List α} (hx : x ∈ xs) :
    (k x.1 x.2).looks ≤ looksAfter k xs := by
  induction xs with
  | nil => cases hx
  | cons y xs ih =>
    rw [looksAfter_cons]
    rcases List.mem_cons.mp hx with rfl | hx
    · exact Nat.le_add_right _ _
    · exact Nat.le_trans (ih hx) (Nat.le_add_left _ _)

theorem length_le_looksAfter (h : ∀ g s, 0 < (k g s).looks) : xs.length ≤ looksAfter k xs := by
  induction xs with
  | nil => exact Nat.le_refl 0
  | cons x xs ih =>
    have hx := h x.1 x.2
    rw [looksAfter_cons, List.length_cons]
    omega

end

open Pattern

theorem effort_seqs_append (as bs : List (Pattern α)) (k : Groups α → List α → Effort)
    (g : Groups α) (s : List α) :
    effort (seqs (as ++ bs)) k g s = effort (seqs as) (effort (seqs bs) k) g s := by
  induction as generalizing g s with
  | nil => rfl
  | cons a as ih =>
    have hrest : effort (seqs (as ++ bs)) k = effort (seqs as) (effort (seqs bs) k) :=
      funext fun g => funext fun s => ih g s
    rw [List.cons_append, seqs, seqs, effort, effort, hrest]

theorem paths_seqs_append (as bs : List (Pattern α)) (g : Groups α) (s : List α) :
    paths (seqs (as ++ bs)) g s =
      (paths (seqs as) g s).flatMap fun x => paths (seqs bs) x.1 x.2 := by
  induction as generalizing g s with
  | nil => simp [seqs, paths]
  | cons a as ih => simp only [List.cons_append, seqs, paths, ih, List.flatMap_assoc]

theorem self_sublist_loopRests (p : α → Bool) (max : Option Nat) (s : List α) :
    [s].Sublist (loopRests p 0 max s) := by
  cases s with
  | nil => exact .refl _
  | cons a s => exact List.sublist_append_right _ _

theorem paths_seqs_singleton (r : Pattern α) (g : Groups α) (s : List α) :
    paths (seqs [r]) g s = paths r g s := by
  simp [seqs, paths]

/-- What is optional can be left out. -/
theorem paths_sublist_of_opt (a b : Pattern α) (g : Groups α) (s : List α) :
    (paths b g s).Sublist (paths (seqs [.opt a, b]) g s) := by
  rw [seqs, paths, paths, List.flatMap_append, List.flatMap_singleton, paths_seqs_singleton]
  exact List.sublist_append_right _ _

theorem paths_of_unmatched {r : Pattern α} {s : List α} (h : search r s = none) :
    paths r (fun _ => none) s = [] := by
  refine List.eq_nil_iff_forall_not_mem.mpr fun x hx => ?_
  obtain ⟨w, hw, hs⟩ := paths_sound r _ s x hx
  have hsome := search_isSome_iff.mpr ⟨w, hw, [], x.2, hs.symm⟩
  rw [h] at hsome
  cases hsome

/-- Where the whole fails, all of what comes after some part is spent on every way through
that part. -/
theorem looks_of_fails {as bs : List (Pattern α)} (k : Groups α → List α → Effort)
    {g : Groups α} {s : List α} (h : paths (seqs (as ++ bs)) g s = []) :
    looksAfter (effort (seqs bs) k) (paths (seqs as) g s) ≤ (effort (seqs (as ++ bs)) k g s).looks := by
  rw [paths_seqs_append, List.flatMap_eq_nil_iff] at h
  rw [effort_seqs_append]
  refine (goes_paths (seqs as)).looks _ g s fun x hx => ?_
  rw [(goes_paths (seqs bs)).found, h x hx]
  rfl

end Spitfire.Regex
