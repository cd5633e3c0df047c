import Mathlib.Logic.Function.Iterate

/-! Singly linked lists whose links are kept in the elements themselves. An element has one
link, so an element that is put into the list a second time closes a ring. -/
namespace Spitfire.Buffer

structure Links (ι : Type) where
  head : Option ι
  next : ι → Option ι

variable {ι : Type}

/-- The elements passed on the way from `p` to the end of the list, if no more than `n`
links have to be followed. -/
def walkFrom (next : ι → Option ι) : Nat → Option ι → Option (List ι)
  | _, none => some []
  | 0, some _ => none
  | n + 1, some k => (walkFrom next n (next k)).map (k :: ·)

namespace Links

/-- The walk from the head. -/
def walk (l : Links ι) (n : Nat) : Option (List ι) := walkFrom l.next n l.head

/-- The walk ends, and passes `k` at most once. -/
def EndsWithin [DecidableEq ι] (l : Links ι) (k : ι) : Prop :=
  ∃ n ks, l.walk n = some ks ∧ ks.count k ≤ 1

/-- The element is the head and its own successor. -/
def Looped (k : ι) (l : Links ι) : Prop := l.head = some k ∧ l.next k = some k

end Links

/-- From an element that is its own successor the walk does not end. -/
theorem walkFrom_selfLoop {next : ι → Option ι} {k : ι} (h : next k = some k) (n : Nat) :
    walkFrom next n (some k) = none := by
  induction n with
  | zero => rfl
  | succ n ih => rw [walkFrom, h, ih, Option.map_none]

theorem Links.Looped.walk_eq_none {k : ι} {l : Links ι} (h : l.Looped k) (n : Nat) :
    l.walk n = none := by
  rw [walk, h.1]
  exact walkFrom_selfLoop h.2 n

variable [DecidableEq ι]

/-- The link of an element that is not passed does not matter. -/
theorem walkFrom_update {next : ι → Option ι} {k : ι} (q : Option ι) {n : Nat} {p : Option ι}
    {ks : List ι} (h : walkFrom next n p = some ks) (hk : k ∉ ks) :
    walkFrom (Function.update next k q) n p = some ks := by
  induction n generalizing p ks with
  | zero =>
    cases p with
    | none => exact h
    | some j => cases h
  | succ n ih =>
    cases p with
    | none => exact h
    | some j =>
      obtain ⟨js, hjs, rfl⟩ := Option.map_eq_some_iff.mp h
      rw [List.mem_cons, not_or] at hk
      rw [walkFrom, Function.update_of_ne (Ne.symm hk.1), ih hjs hk.2, Option.map_some]

namespace Links

/-- The element becomes the head and links to what was the head before. -/
def push (k : ι) (l : Links ι) : Links ι := ⟨some k, Function.update l.next k l.head⟩

theorem walk_push {l : Links ι} {k : ι} {n : Nat} {ks : List ι} (h : l.walk n = some ks)
    (hk : k ∉ ks) : (l.push k).walk (n + 1) = some (k :: ks) := by
  have hrest := walkFrom_update l.head h hk
  have hnext : (l.push k).next k = l.head := Function.update_self ..
  change (walkFrom (l.push k).next n ((l.push k).next k)).map (k :: ·) = _
  rw [hnext]
  exact congrArg (Option.map (k :: ·)) hrest

theorem looped_push {k : ι} {l : Links ι} (h : l.head = some k) : (l.push k).Looped k :=
  ⟨rfl, (Function.update_self ..).trans h⟩

theorem Looped.not_endsWithin {k j : ι} {l : Links ι} (h : l.Looped k) : ¬ l.EndsWithin j := by
  rintro ⟨n, ks, hwalk, _⟩
  rw [h.walk_eq_none] at hwalk
  cases hwalk

theorem looped_iterate_push (k : ι) (l : Links ι) (i : Nat) : ((push k)^[i + 2] l).Looped k := by
  rw [Function.iterate_succ_apply', Function.iterate_succ_apply']
  exact looped_push rfl

/-- An element that is not in the list can be put into it once. -/
theorem endsWithin_iterate_push_iff {k : ι} {l : Links ι} {n : Nat} {ks : List ι}
    (h : l.walk n = some ks) (hk : k ∉ ks) (i : Nat) :
    ((push k)^[i] l).EndsWithin k ↔ i ≤ 1 := by
  have hcount : ks.count k = 0 := List.count_eq_zero.mpr hk
  match i with
  | 0 => exact iff_of_true ⟨n, ks, h, by omega⟩ (by omega)
  | 1 =>
    have honce : (k :: ks).count k ≤ 1 := by
      rw [List.count_cons_self]
      omega
    exact iff_of_true ⟨n + 1, k :: ks, walk_push h hk, honce⟩ (Nat.le_refl 1)
  | i + 2 => exact iff_of_false (looped_iterate_push k l i).not_endsWithin (by omega)

end Links
end Spitfire.Buffer
