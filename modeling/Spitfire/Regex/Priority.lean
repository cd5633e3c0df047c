import Mathlib.Data.List.TakeWhile
import Spitfire.Regex.Language

/-! What the matcher tries first. Greedy loops take as much as they can when the rest
of the expression cannot fail, and an option is skipped only where it cannot match. -/
namespace Spitfire.Regex
variable {α : Type}
open Pattern

/-- A loop over the class `p` that took `w` before `t` could not have taken more. -/
def Longest (p : α → Bool) (max : Option Nat) (w t : List α) : Prop :=
  (∀ c ∈ t.head?, p c = false) ∨ max = some w.length

/-- The expression matches at the start of every input. -/
def Total (r : Pattern α) : Prop := ∀ g s, paths r g s ≠ []

theorem total_seqs {rs : List (Pattern α)} (h : ∀ r ∈ rs, Total r) : Total (seqs rs) := by
  induction rs with
  | nil => exact fun g s => List.cons_ne_nil _ _
  | cons r rs ih =>
    intro g s hnil
    obtain ⟨y, hy⟩ := List.exists_mem_of_ne_nil _ (h r (by simp) g s)
    have htail := ih (fun q hq => h q (by simp [hq])) y.1 y.2
    exact htail (List.flatMap_eq_nil_iff.mp hnil y hy)

theorem total_opt (r : Pattern α) : Total (.opt r) := by
  intro g s
  simp [paths]

private theorem head_flatMap {β γ : Type} {l : List β} {f : β → List γ} {x : γ}
    (h : (l.flatMap f).head? = some x) : ∃ y ∈ l, (f y).head? = some x := by
  induction l with
  | nil => cases h
  | cons y l ih =>
    rw [List.flatMap_cons] at h
    cases hy : f y with
    | nil =>
      rw [hy, List.nil_append] at h
      obtain ⟨z, hz, hx⟩ := ih h
      exact ⟨z, by simp [hz], hx⟩
    | cons z zs =>
      rw [hy] at h
      exact ⟨y, by simp, by rw [hy]; exact h⟩

theorem first_of_seqs_append {rs qs : List (Pattern α)} {g : Groups α} {s : List α}
    {x : Groups α × List α} (h : (paths (seqs (rs ++ qs)) g s).head? = some x) :
    ∃ y ∈ paths (seqs rs) g s, (paths (seqs qs) y.1 y.2).head? = some x := by
  induction rs generalizing g s with
  | nil => exact ⟨(g, s), by simp [seqs, paths], h⟩
  | cons r rs ih =>
    obtain ⟨y, hy, hx⟩ := head_flatMap h
    obtain ⟨z, hz, hx⟩ := ih hx
    exact ⟨z, mem_paths_seqs_cons.mpr ⟨y, hy, hz⟩, hx⟩

/-- Before a rest that cannot fail, the first way is the first way of the first part. -/
theorem first_of_seqs_cons {r : Pattern α} {rs : List (Pattern α)} (hrs : Total (seqs rs))
    {g : Groups α} {s : List α} {x : Groups α × List α}
    (h : (paths (seqs (r :: rs)) g s).head? = some x) :
    ∃ y, (paths r g s).head? = some y ∧ (paths (seqs rs) y.1 y.2).head? = some x := by
  change ((paths r g s).flatMap fun y => paths (seqs rs) y.1 y.2).head? = some x at h
  cases hr : paths r g s with
  | nil =>
    rw [hr] at h
    cases h
  | cons y ys =>
    refine ⟨y, rfl, ?_⟩
    obtain ⟨z, zs, hz⟩ := List.exists_cons_of_ne_nil (hrs y.1 y.2)
    rw [hr, List.flatMap_cons, hz] at h
    rw [hz]
    exact h

theorem first_of_opt {r : Pattern α} {g : Groups α} {s : List α} {x : Groups α × List α}
    (h : (paths (.opt r) g s).head? = some x) :
    (paths r g s).head? = some x ∨ paths r g s = [] ∧ x = (g, s) := by
  change (paths r g s ++ [(g, s)]).head? = some x at h
  cases hr : paths r g s with
  | nil =>
    rw [hr] at h
    exact Or.inr ⟨rfl, (Option.some.inj h).symm⟩
  | cons y ys =>
    rw [hr] at h
    exact Or.inl h

theorem self_mem_loopRests (p : α → Bool) (max : Option Nat) (s : List α) :
    s ∈ loopRests p 0 max s :=
  mem_loopRests.mpr ⟨[], by simp, rfl⟩

theorem first_of_loopRests {p : α → Bool} {min : Nat} {max : Option Nat} {s t : List α}
    (h : (loopRests p min max s).head? = some t) :
    ∃ w, s = w ++ t ∧ Longest p max w t := by
  induction s generalizing min max with
  | nil =>
    obtain ⟨w, _, hs⟩ := mem_loopRests.mp (List.mem_of_mem_head? h)
    obtain ⟨rfl, rfl⟩ := List.append_eq_nil_iff.mp hs.symm
    exact ⟨[], rfl, Or.inl (by simp)⟩
  | cons a s ih =>
    rw [loopRests] at h
    by_cases ha : (p a && max != some 0) = true
    · rw [if_pos ha] at h
      simp only [Bool.and_eq_true, bne_iff_ne] at ha
      cases hr : loopRests p (min - 1) (max.map (· - 1)) s with
      | nil =>
        -- The loop may stop here only when no further character is required.
        rw [hr, List.nil_append] at h
        have hmin : min = 0 := by
          by_contra hmin
          rw [if_neg hmin] at h
          cases h
        subst hmin
        have := self_mem_loopRests p (max.map (· - 1)) s
        rw [hr] at this
        cases this
      | cons u us =>
        rw [hr] at h
        obtain rfl : u = t := Option.some.inj h
        obtain ⟨w, rfl, hw⟩ := ih (by rw [hr]; rfl)
        refine ⟨a :: w, rfl, hw.imp_right ?_⟩
        intro hmax
        obtain ⟨m, rfl, hm⟩ := Option.map_eq_some_iff.mp hmax
        have : m ≠ 0 := fun h0 => ha.2 (congrArg some h0)
        rw [List.length_cons, ← hm]
        congr 1
        omega
    · rw [if_neg ha, List.nil_append] at h
      have ht : a :: s = t := by
        by_cases hmin : min = 0
        · rw [if_pos hmin] at h
          exact Option.some.inj h
        · rw [if_neg hmin] at h
          cases h
      refine ⟨[], ht, ?_⟩
      subst ht
      by_cases hp : p a = true
      · refine Or.inr ?_
        simpa [hp] using ha
      · exact Or.inl (by simpa using hp)

/-- No reading of a loop is longer than a greedy one at the same place. -/
theorem longest_le {p : α → Bool} {min : Nat} {max : Option Nat} {w w' t t' : List α}
    (hw' : w' ∈ (setLoop p min max).language) (hl : Longest p max w t)
    (h : w ++ t = w' ++ t') : w'.length ≤ w.length := by
  by_contra hlt
  rcases hl with hl | hl
  · -- The longer one has a character of the class where the greedy one stops.
    obtain ⟨z, rfl⟩ : w <+: w' :=
      List.prefix_of_prefix_length_le ⟨t, h⟩ (List.prefix_append w' t') (by omega)
    rw [List.append_assoc, List.append_cancel_left_eq] at h
    cases z with
    | nil => simp at hlt
    | cons c z =>
      have hc := hw'.1 c (by simp)
      rw [hl c (by rw [h]; rfl)] at hc
      cases hc
  · have := hw'.2.2 w.length (by rw [hl]; rfl)
    omega

theorem longest_unique {p : α → Bool} {min : Nat} {max : Option Nat} {w w' t t' : List α}
    (hw : w ∈ (setLoop p min max).language) (hw' : w' ∈ (setLoop p min max).language)
    (hl : Longest p max w t) (hl' : Longest p max w' t') (h : w ++ t = w' ++ t') :
    w = w' ∧ t = t' := by
  have hlen := le_antisymm (longest_le hw hl' h.symm) (longest_le hw' hl h)
  exact List.append_inj h hlen

/-- How far a greedy loop goes into a text. -/
def longestRun (p : α → Bool) (max : Option Nat) (w : List α) : List α :=
  match max with
  | none => w.takeWhile p
  | some m => (w.takeWhile p).take m

theorem longestRun_mem {p : α → Bool} {max : Option Nat} {w : List α}
    (h : longestRun p max w ≠ []) : longestRun p max w ∈ (setLoop p 1 max).language := by
  refine ⟨?_, List.length_pos_iff.mpr h, ?_⟩
  · intro c hc
    cases max with
    | none => exact List.mem_takeWhile_imp hc
    | some m => exact List.mem_takeWhile_imp (List.mem_of_mem_take hc)
  · rintro m rfl
    exact List.length_take_le _ _

theorem longestRun_ne_nil {p : α → Bool} {max : Option Nat} (hmax : max ≠ some 0) {c : α}
    (hc : p c = true) (w : List α) : longestRun p max (c :: w) ≠ [] := by
  cases max with
  | none => simp [longestRun, hc]
  | some m =>
    have hm : m ≠ 0 := fun h => hmax (congrArg some h)
    simp [longestRun, hc, hm]

/-- Before a text that goes on with something else, the run is the longest. -/
theorem longest_longestRun (p : α → Bool) (max : Option Nat) (w : List α) {t : List α}
    (ht : ∀ c ∈ t.head?, p c = false) :
    ∃ r, w = longestRun p max w ++ r ∧ Longest p max (longestRun p max w) (r ++ t) := by
  have hrest : ∀ c ∈ (w.dropWhile p ++ t).head?, p c = false := by
    intro c hc
    cases hd : w.dropWhile p with
    | nil =>
      rw [hd] at hc
      exact ht c hc
    | cons d r =>
      have hne : w.dropWhile p ≠ [] := by rw [hd]; exact List.cons_ne_nil d r
      have hhead := List.head_dropWhile_not p hne
      obtain rfl : d = c := by simpa [hd] using hc
      simpa [hd] using hhead
  cases max with
  | none => exact ⟨w.dropWhile p, List.takeWhile_append_dropWhile.symm, Or.inl hrest⟩
  | some m =>
    refine ⟨(w.takeWhile p).drop m ++ w.dropWhile p, ?_, ?_⟩
    · rw [longestRun, ← List.append_assoc, List.take_append_drop, List.takeWhile_append_dropWhile]
    · by_cases hm : m ≤ (w.takeWhile p).length
      · exact Or.inr (by rw [longestRun, List.length_take, Nat.min_eq_left hm])
      · -- The loop was not stopped by its bound.
        rw [List.drop_of_length_le (by omega), List.nil_append]
        exact Or.inl hrest

/-- A group that the expression does not contain keeps its capture. -/
theorem paths_other_group {r : Pattern α} {n : Nat} (hn : n ∉ r.groupNumbers) {g : Groups α}
    {s : List α} {x : Groups α × List α} (hx : x ∈ paths r g s) : x.1 n = g n := by
  induction r generalizing g s x with
  | empty =>
    obtain rfl : x = (g, s) := by simpa [paths] using hx
    rfl
  | set p =>
    cases s with
    | nil => cases hx
    | cons a s =>
      rw [paths] at hx
      split at hx
      · obtain rfl := List.mem_singleton.mp hx
        rfl
      · cases hx
  | seq a b ia ib =>
    simp only [groupNumbers, List.mem_append, not_or] at hn
    obtain ⟨y, hy, hx⟩ := List.mem_flatMap.mp hx
    rw [ib hn.2 hx, ia hn.1 hy]
  | alt a b ia ib =>
    simp only [groupNumbers, List.mem_append, not_or] at hn
    rcases List.mem_append.mp hx with hx | hx
    · exact ia hn.1 hx
    · exact ib hn.2 hx
  | opt a ia =>
    rcases mem_paths_opt.mp hx with hx | rfl
    · exact ia hn hx
    · rfl
  | setLoop p min max =>
    obtain ⟨t, _, rfl⟩ := List.mem_map.mp hx
    rfl
  | plus a ia =>
    rw [paths] at hx
    generalize s.length = k at hx
    induction k generalizing g s with
    | zero => exact ia hn hx
    | succ k ik =>
      obtain ⟨y, hy, hx⟩ := List.mem_flatMap.mp hx
      have hstep := ia hn hy
      split at hx
      · rcases List.mem_append.mp hx with hx | hx
        · rw [ik hx, hstep]
        · rw [List.mem_singleton.mp hx, hstep]
      · rw [List.mem_singleton.mp hx, hstep]
  | group m a ia =>
    simp only [groupNumbers, List.mem_cons, not_or] at hn
    obtain ⟨y, hy, rfl⟩ := List.mem_map.mp hx
    exact (Function.update_of_ne hn.1 _ _).trans (ia hn.2 hy)

/-- The leftmost occurrence of the expression's form, and the longest one there. -/
structure LeftmostLongest (r : Pattern α) (s p w t : List α) : Prop where
  split : s = p ++ (w ++ t)
  mem : w ∈ r.language
  first : ∀ p' w' t', s = p' ++ (w' ++ t') → w' ∈ r.language → p.length ≤ p'.length
  longest : ∀ w' t', s = p ++ (w' ++ t') → w' ∈ r.language → w'.length ≤ w.length

theorem leftmostLongest_unique {r : Pattern α} {s p p' w w' t t' : List α}
    (h : LeftmostLongest r s p w t) (h' : LeftmostLongest r s p' w' t') :
    p = p' ∧ w = w' ∧ t = t' := by
  have hlen : p.length = p'.length :=
    le_antisymm (h.first p' w' t' h'.split h'.mem) (h'.first p w t h.split h.mem)
  obtain ⟨rfl, hrest⟩ := List.append_inj (h.split.symm.trans h'.split) hlen
  have hlen : w.length = w'.length :=
    le_antisymm (h'.longest w t h.split h.mem) (h.longest w' t' h'.split h'.mem)
  obtain ⟨rfl, rfl⟩ := List.append_inj hrest hlen
  exact ⟨rfl, rfl, rfl⟩

end Spitfire.Regex
