import Mathlib.Computability.Language
import Spitfire.Regex.Matcher

/-! The language of a pattern, and that the ways the matcher can take through it
are exactly its prefixes in that language. Captures do not influence matching. -/
namespace Spitfire.Regex
open Computability
variable {α : Type}

namespace Pattern

def language : Pattern α → Language α
  | .empty => 1
  | .set p => {w | ∃ a, p a = true ∧ w = [a]}
  | .seq a b => a.language * b.language
  | .alt a b => a.language + b.language
  | .opt a => a.language + 1
  | .setLoop p min max => {w | (∀ a ∈ w, p a = true) ∧ min ≤ w.length ∧ ∀ m ∈ max, w.length ≤ m}
  | .plus a => a.language * a.language∗
  | .group _ a => a.language

/-- The expression sets no group. -/
def captureFree : Pattern α → Bool
  | .empty | .set _ | .setLoop _ _ _ => true
  | .seq a b | .alt a b => a.captureFree && b.captureFree
  | .opt a | .plus a => a.captureFree
  | .group _ _ => false

@[simp] theorem mem_language_set {p : α → Bool} {w : List α} :
    w ∈ (set p).language ↔ ∃ a, p a = true ∧ w = [a] := Iff.rfl

@[simp] theorem mem_language_setLoop {p : α → Bool} {min : Nat} {max : Option Nat} {w : List α} :
    w ∈ (setLoop p min max).language ↔
      (∀ a ∈ w, p a = true) ∧ min ≤ w.length ∧ ∀ m ∈ max, w.length ≤ m := Iff.rfl

/-- A check of a loop's form that can be evaluated. -/
theorem mem_setLoop_of_all {p : α → Bool} {min : Nat} {max : Option Nat} {w : List α}
    (h : (w.all p && decide (min ≤ w.length) && max.all fun m => decide (w.length ≤ m)) = true) :
    w ∈ (setLoop p min max).language := by
  simp only [Bool.and_eq_true, decide_eq_true_eq] at h
  obtain ⟨⟨hall, hmin⟩, hmax⟩ := h
  refine ⟨List.all_eq_true.mp hall, hmin, ?_⟩
  rintro m rfl
  simpa using hmax

theorem mem_language_seq {a b : Pattern α} {w : List α} :
    w ∈ (seq a b).language ↔ ∃ u ∈ a.language, ∃ v ∈ b.language, u ++ v = w :=
  Language.mem_mul

theorem mem_language_alt {a b : Pattern α} {w : List α} :
    w ∈ (alt a b).language ↔ w ∈ a.language ∨ w ∈ b.language := Iff.rfl

theorem mem_language_opt {a : Pattern α} {w : List α} :
    w ∈ (opt a).language ↔ w ∈ a.language ∨ w = [] := Iff.rfl

theorem mem_language_seqs_cons {r : Pattern α} {rs : List (Pattern α)} {w : List α} :
    w ∈ (seqs (r :: rs)).language ↔ ∃ u ∈ r.language, ∃ v ∈ (seqs rs).language, u ++ v = w :=
  mem_language_seq

theorem mem_language_seqs_nil {w : List α} : w ∈ (seqs []).language ↔ w = [] := Iff.rfl

theorem mem_language_plus {a : Pattern α} {w : List α} : w ∈ (plus a).language ↔
    ∃ p ps, (∀ v ∈ p :: ps, v ∈ a.language) ∧ w = (p :: ps).flatten := by
  constructor
  · intro ⟨u, hu, v, hv, huv⟩
    obtain ⟨ps, rfl, hps⟩ := Language.mem_kstar.mp hv
    exact ⟨u, ps, by simpa using ⟨hu, hps⟩, huv.symm⟩
  · intro ⟨p, ps, h, hw⟩
    refine ⟨p, h p (by simp), ps.flatten, Language.mem_kstar.mpr ⟨ps, rfl, ?_⟩, hw.symm⟩
    intro v hv
    exact h v (by simp [hv])

@[simp] theorem mem_language_literal [DecidableEq α] {v w : List α} :
    v ∈ (literal w).language ↔ v = w := by
  induction w generalizing v with
  | nil => rfl
  | cons a w ih =>
    simp only [literal, mem_language_seq, mem_language_set, ih]
    constructor
    · rintro ⟨_, ⟨b, hb, rfl⟩, _, rfl, rfl⟩
      rw [decide_eq_true_iff.mp hb]
      rfl
    · rintro rfl
      exact ⟨[a], ⟨a, by simp, rfl⟩, w, rfl, rfl⟩

theorem captureFree_literal [DecidableEq α] (w : List α) : (literal w).captureFree = true := by
  induction w with
  | nil => rfl
  | cons a w ih => simpa [literal, captureFree] using ih

end Pattern
open Pattern

theorem mem_loopRests {p : α → Bool} {min : Nat} {max : Option Nat} {s t : List α} :
    t ∈ loopRests p min max s ↔ ∃ w ∈ (setLoop p min max).language, s = w ++ t := by
  simp only [mem_language_setLoop]
  induction s generalizing min max with
  | nil =>
    constructor
    · intro h
      rw [loopRests] at h
      split at h
      · obtain rfl : t = [] := by simpa using h
        exact ⟨[], by simp_all, rfl⟩
      · cases h
    · rintro ⟨w, ⟨_, hmin, _⟩, he⟩
      obtain ⟨rfl, rfl⟩ := List.append_eq_nil_iff.mp he.symm
      have : min = 0 := by simpa using hmin
      simp [loopRests, this]
  | cons a s ih =>
    simp only [loopRests, List.mem_append, List.mem_ite_nil_right, ih, Bool.and_eq_true, bne_iff_ne,
      List.mem_singleton]
    constructor
    · rintro (⟨⟨ha, hmax⟩, w, ⟨hw, hmin, hlen⟩, rfl⟩ | ⟨rfl, rfl⟩)
      · refine ⟨a :: w, ⟨?_, ?_, ?_⟩, rfl⟩
        · simpa [ha] using hw
        · simp only [List.length_cons]; omega
        · intro m hm
          have := hlen (m - 1) (by rw [Option.mem_def] at hm ⊢; simp [hm])
          have : m ≠ 0 := by rintro rfl; exact hmax hm
          simp only [List.length_cons]; omega
      · exact ⟨[], by simp, rfl⟩
    · rintro ⟨w, ⟨hw, hmin, hlen⟩, he⟩
      cases w with
      | nil => exact Or.inr ⟨by simpa using hmin, by simpa using he.symm⟩
      | cons b w =>
        obtain ⟨rfl, rfl⟩ : a = b ∧ s = w ++ t := by simpa using he
        refine Or.inl ⟨⟨hw a (by simp), ?_⟩, w, ⟨fun c hc => hw c (by simp [hc]), ?_, ?_⟩, rfl⟩
        · rintro rfl
          simpa using hlen 0 rfl
        · simp only [List.length_cons] at hmin; omega
        · intro m hm
          obtain ⟨n, rfl, rfl⟩ : ∃ n, max = some n ∧ n - 1 = m := by simpa using hm
          have := hlen n rfl
          simp only [List.length_cons] at this; omega

private theorem iteratePaths_sound {all : Groups α → List α → List (Groups α × List α)}
    {l : Language α} (h : ∀ g s x, x ∈ all g s → ∃ w ∈ l, s = w ++ x.2)
    (n : Nat) (g : Groups α) (s : List α) (x : Groups α × List α)
    (hx : x ∈ iteratePaths all n g s) : ∃ w ∈ l * l∗, s = w ++ x.2 := by
  have once {g s x} (hx : x ∈ all g s) : ∃ w ∈ l * l∗, s = w ++ x.2 := by
    obtain ⟨w, hw, he⟩ := h g s x hx
    exact ⟨w, Language.mem_mul.mpr ⟨w, hw, [], Language.nil_mem_kstar l, by simp⟩, he⟩
  induction n generalizing g s with
  | zero => exact once hx
  | succ n ih =>
    obtain ⟨y, hy, hx⟩ := List.mem_flatMap.mp hx
    split at hx
    · rcases List.mem_append.mp hx with hx | hx
      · obtain ⟨u, hu, hs⟩ := h g s y hy
        obtain ⟨v, hv, he⟩ := ih y.1 y.2 hx
        refine ⟨u ++ v, ?_, by rw [hs, he, List.append_assoc]⟩
        have hstar : l * l∗ ≤ l∗ := mul_kstar_le_kstar
        exact Language.append_mem_mul hu (hstar hv)
      · exact once (List.mem_singleton.mp hx ▸ hy)
    · exact once (List.mem_singleton.mp hx ▸ hy)

/-- Whatever the matcher consumes lies in the language. -/
theorem paths_sound (r : Pattern α) (g : Groups α) (s : List α) (x : Groups α × List α)
    (hx : x ∈ paths r g s) : ∃ w ∈ r.language, s = w ++ x.2 := by
  induction r generalizing g s x with
  | empty =>
    obtain rfl : x = (g, s) := by simpa [paths] using hx
    exact ⟨[], rfl, rfl⟩
  | set p =>
    cases s with
    | nil => simp [paths] at hx
    | cons a s =>
      obtain ⟨ha, rfl⟩ : p a = true ∧ x = (g, s) := by simpa [paths] using hx
      exact ⟨[a], ⟨a, ha, rfl⟩, rfl⟩
  | seq a b ia ib =>
    obtain ⟨y, hy, hx⟩ := List.mem_flatMap.mp hx
    obtain ⟨u, hu, hs⟩ := ia g s y hy
    obtain ⟨v, hv, he⟩ := ib y.1 y.2 x hx
    exact ⟨u ++ v, Language.append_mem_mul hu hv, by rw [hs, he, List.append_assoc]⟩
  | alt a b ia ib =>
    rcases List.mem_append.mp hx with hx | hx
    · obtain ⟨w, hw, he⟩ := ia g s x hx
      exact ⟨w, Or.inl hw, he⟩
    · obtain ⟨w, hw, he⟩ := ib g s x hx
      exact ⟨w, Or.inr hw, he⟩
  | opt a ia =>
    rcases List.mem_append.mp hx with hx | hx
    · obtain ⟨w, hw, he⟩ := ia g s x hx
      exact ⟨w, Or.inl hw, he⟩
    · obtain rfl := List.mem_singleton.mp hx
      exact ⟨[], Or.inr rfl, rfl⟩
  | setLoop p min max =>
    obtain ⟨t, ht, rfl⟩ := List.mem_map.mp hx
    exact mem_loopRests.mp ht
  | plus a ia => exact iteratePaths_sound ia s.length g s x hx
  | group n a ia =>
    obtain ⟨y, hy, rfl⟩ := List.mem_map.mp hx
    exact ia g s y hy

/-- Empty pieces of an iterated word are skipped, so each iteration makes progress
and the remaining length bounds the number of iterations. -/
private theorem iteratePaths_complete {all : Groups α → List α → List (Groups α × List α)}
    {l : Language α} (h : ∀ g t w, w ∈ l → ∃ g', (g', t) ∈ all g (w ++ t))
    (pieces : List (List α)) (hp : ∀ v ∈ pieces, v ∈ l) (u t : List α) (hu : u ∈ l)
    (n : Nat) (g : Groups α) (hn : (u ++ pieces.flatten ++ t).length ≤ n) :
    ∃ g', (g', t) ∈ iteratePaths all n g (u ++ pieces.flatten ++ t) := by
  induction pieces generalizing u n g with
  | nil =>
    obtain ⟨g', hg⟩ := h g t u hu
    refine ⟨g', ?_⟩
    simp only [List.flatten_nil, List.append_nil] at hn ⊢
    cases n with
    | zero => exact hg
    | succ n =>
      refine List.mem_flatMap.mpr ⟨_, hg, ?_⟩
      split <;> simp
  | cons v pieces ih =>
    have hv := hp v (by simp)
    have hrest := fun x hx => hp x (List.mem_cons_of_mem v hx)
    cases u with
    | nil => simpa using ih hrest v hv n g (by simpa using hn)
    | cons a u =>
      obtain ⟨m, rfl⟩ : ∃ m, n = m + 1 := ⟨n - 1, by simp at hn; omega⟩
      obtain ⟨g', hg⟩ := h g (v ++ pieces.flatten ++ t) (a :: u) hu
      obtain ⟨g'', hg'⟩ := ih hrest v hv m g' (by simp at hn ⊢; omega)
      refine ⟨g'', ?_⟩
      simp only [List.flatten_cons, List.append_assoc] at hg hg' ⊢
      refine List.mem_flatMap.mpr ⟨_, hg, ?_⟩
      rw [if_pos (by simp only [List.length_append, List.length_cons]; omega)]
      exact List.mem_append_left _ hg'

/-- Every prefix in the language is consumed on some way through the pattern. -/
theorem paths_complete (r : Pattern α) (g : Groups α) (t w : List α) (hw : w ∈ r.language) :
    ∃ g', (g', t) ∈ paths r g (w ++ t) := by
  induction r generalizing g t w with
  | empty =>
    obtain rfl : w = [] := hw
    exact ⟨g, by simp [paths]⟩
  | set p =>
    obtain ⟨a, ha, rfl⟩ := hw
    exact ⟨g, by simp [paths, ha]⟩
  | seq a b ia ib =>
    obtain ⟨u, hu, v, hv, rfl⟩ := mem_language_seq.mp hw
    obtain ⟨g', hg⟩ := ia g (v ++ t) u hu
    obtain ⟨g'', hg'⟩ := ib g' t v hv
    rw [List.append_assoc]
    exact ⟨g'', List.mem_flatMap.mpr ⟨_, hg, hg'⟩⟩
  | alt a b ia ib =>
    rcases hw with hw | hw
    · exact (ia g t w hw).imp fun _ h => List.mem_append_left _ h
    · exact (ib g t w hw).imp fun _ h => List.mem_append_right _ h
  | opt a ia =>
    rcases hw with hw | hw
    · exact (ia g t w hw).imp fun _ h => List.mem_append_left _ h
    · obtain rfl : w = [] := hw
      exact ⟨g, by simp [paths]⟩
  | setLoop p min max =>
    exact ⟨g, List.mem_map.mpr ⟨t, mem_loopRests.mpr ⟨w, hw, rfl⟩, rfl⟩⟩
  | plus a ia =>
    obtain ⟨u, hu, v, hv, rfl⟩ := Language.mem_mul.mp hw
    obtain ⟨pieces, rfl, hp⟩ := Language.mem_kstar.mp hv
    exact iteratePaths_complete ia pieces hp u t hu _ g le_rfl
  | group n a ia =>
    obtain ⟨g', hg⟩ := ia g t w hw
    exact ⟨_, List.mem_map.mpr ⟨_, hg, rfl⟩⟩

private theorem iteratePaths_groups {all : Groups α → List α → List (Groups α × List α)}
    (h : ∀ g s x, x ∈ all g s → x.1 = g) (n : Nat) (g : Groups α) (s : List α)
    (x : Groups α × List α) (hx : x ∈ iteratePaths all n g s) : x.1 = g := by
  induction n generalizing g s with
  | zero => exact h g s x hx
  | succ n ih =>
    obtain ⟨y, hy, hx⟩ := List.mem_flatMap.mp hx
    have hyg := h g s y hy
    split at hx
    · rcases List.mem_append.mp hx with hx | hx
      · exact (ih y.1 y.2 hx).trans hyg
      · exact List.mem_singleton.mp hx ▸ hyg
    · exact List.mem_singleton.mp hx ▸ hyg

theorem paths_groups (r : Pattern α) (hr : r.captureFree = true) (g : Groups α) (s : List α)
    (x : Groups α × List α) (hx : x ∈ paths r g s) : x.1 = g := by
  induction r generalizing g s x with
  | empty => simp_all [paths]
  | set p =>
    cases s with
    | nil => simp [paths] at hx
    | cons a s => simp_all [paths]
  | seq a b ia ib =>
    obtain ⟨ha, hb⟩ := Bool.and_eq_true_iff.mp hr
    obtain ⟨y, hy, hx⟩ := List.mem_flatMap.mp hx
    exact (ib hb y.1 y.2 x hx).trans (ia ha g s y hy)
  | alt a b ia ib =>
    obtain ⟨ha, hb⟩ := Bool.and_eq_true_iff.mp hr
    exact (List.mem_append.mp hx).elim (ia ha g s x) (ib hb g s x)
  | opt a ia =>
    rcases List.mem_append.mp hx with hx | hx
    · exact ia hr g s x hx
    · exact List.mem_singleton.mp hx ▸ rfl
  | setLoop p min max =>
    obtain ⟨t, _, rfl⟩ := List.mem_map.mp hx
    rfl
  | plus a ia => exact iteratePaths_groups (ia hr) s.length g s x hx
  | group n a => cases hr

/-- A pattern without groups only chooses a prefix. -/
theorem mem_paths_of_captureFree {r : Pattern α} (hr : r.captureFree = true) {g : Groups α}
    {s : List α} {x : Groups α × List α} :
    x ∈ paths r g s ↔ x.1 = g ∧ ∃ w ∈ r.language, s = w ++ x.2 := by
  constructor
  · intro hx
    exact ⟨paths_groups r hr g s x hx, paths_sound r g s x hx⟩
  · rintro ⟨hg, w, hw, rfl⟩
    obtain ⟨g', h⟩ := paths_complete r g x.2 w hw
    have he : (g', x.2) = x := Prod.ext ((paths_groups r hr g _ _ h).trans hg.symm) rfl
    rwa [he] at h

theorem mem_paths_group {r : Pattern α} (hr : r.captureFree = true) {n : Nat} {g : Groups α}
    {s : List α} {x : Groups α × List α} :
    x ∈ paths (.group n r) g s ↔
      ∃ w ∈ r.language, s = w ++ x.2 ∧ x.1 = Function.update g n (some ⟨w, x.2⟩) := by
  have cut (w t : List α) : (w ++ t).take ((w ++ t).length - t.length) = w := by simp
  constructor
  · intro hx
    obtain ⟨y, hy, rfl⟩ := List.mem_map.mp hx
    obtain ⟨hg, w, hw, rfl⟩ := (mem_paths_of_captureFree hr).mp hy
    exact ⟨w, hw, rfl, by rw [cut, hg]⟩
  · rintro ⟨w, hw, rfl, hg⟩
    refine List.mem_map.mpr ⟨(g, x.2), (mem_paths_of_captureFree hr).mpr ⟨rfl, w, hw, rfl⟩, ?_⟩
    rw [cut, ← hg]

theorem mem_paths_seqs_nil {g : Groups α} {s : List α} {x : Groups α × List α} :
    x ∈ paths (seqs []) g s ↔ x = (g, s) := List.mem_singleton

theorem mem_paths_seqs_cons {r : Pattern α} {rs : List (Pattern α)} {g : Groups α}
    {s : List α} {x : Groups α × List α} :
    x ∈ paths (seqs (r :: rs)) g s ↔ ∃ y ∈ paths r g s, x ∈ paths (seqs rs) y.1 y.2 :=
  List.mem_flatMap

theorem mem_paths_opt {r : Pattern α} {g : Groups α} {s : List α} {x : Groups α × List α} :
    x ∈ paths (.opt r) g s ↔ x ∈ paths r g s ∨ x = (g, s) := by
  simp [paths]

theorem matchHere_isSome_iff {r : Pattern α} {s : List α} :
    (matchHere r s).isSome = true ↔ ∃ w ∈ r.language, ∃ t, s = w ++ t := by
  rw [matchHere_eq_head, Option.isSome_map, List.isSome_head?]
  constructor
  · intro h
    obtain ⟨x, hx⟩ := List.exists_mem_of_ne_nil _ h
    obtain ⟨w, hw, he⟩ := paths_sound r _ s x hx
    exact ⟨w, hw, x.2, he⟩
  · rintro ⟨w, hw, t, rfl⟩
    obtain ⟨g', h⟩ := paths_complete r (fun _ => none) t w hw
    exact List.ne_nil_of_mem h

theorem exists_path_of_matchHere {r : Pattern α} {s : List α} {g : Groups α}
    (h : matchHere r s = some g) : ∃ t, (g, t) ∈ paths r (fun _ => none) s := by
  rw [matchHere_eq_head] at h
  obtain ⟨x, hx, rfl⟩ := Option.map_eq_some_iff.mp h
  exact ⟨x.2, List.mem_of_mem_head? hx⟩

/-- The match starts somewhere, and no earlier start has a match. -/
theorem search_eq_some {r : Pattern α} {s : List α} {g : Groups α} (h : search r s = some g) :
    ∃ p t, s = p ++ t ∧ matchHere r t = some g ∧
      ∀ u v, s = u ++ v → u.length < p.length → matchHere r v = none := by
  induction s with
  | nil => exact ⟨[], [], rfl, h, by simp⟩
  | cons a s ih =>
    rw [search] at h
    cases hm : matchHere r (a :: s) with
    | some g' =>
      rw [hm, Option.some_or] at h
      exact ⟨[], a :: s, rfl, h ▸ hm, by simp⟩
    | none =>
      rw [hm, Option.none_or] at h
      obtain ⟨p, t, rfl, ht, hmin⟩ := ih h
      refine ⟨a :: p, t, rfl, ht, ?_⟩
      intro u v he hu
      cases u with
      | nil =>
        rw [List.nil_append] at he
        exact he ▸ hm
      | cons b u =>
        have he' : p ++ t = u ++ v := by simpa using (List.cons.inj he).2
        exact hmin u v he' (by simpa using hu)

/-- Matching somewhere is containing a word of the language. -/
theorem search_isSome_iff {r : Pattern α} {s : List α} :
    (search r s).isSome = true ↔ ∃ w ∈ r.language, w <:+: s := by
  induction s with
  | nil =>
    rw [search, matchHere_isSome_iff]
    constructor
    · rintro ⟨w, hw, t, ht⟩
      exact ⟨w, hw, [], t, by simpa using ht.symm⟩
    · rintro ⟨w, hw, u, t, ht⟩
      simp only [List.append_eq_nil_iff] at ht
      exact ⟨w, hw, [], by simp [ht.1.2]⟩
  | cons a s ih =>
    rw [search, Option.isSome_or, Bool.or_eq_true, ih, matchHere_isSome_iff]
    constructor
    · rintro (⟨w, hw, t, ht⟩ | ⟨w, hw, h⟩)
      · exact ⟨w, hw, [], t, by simpa using ht.symm⟩
      · exact ⟨w, hw, List.infix_cons h⟩
    · rintro ⟨w, hw, h⟩
      rcases List.infix_cons_iff.mp h with ⟨t, ht⟩ | h
      · exact Or.inl ⟨w, hw, t, ht.symm⟩
      · exact Or.inr ⟨w, hw, h⟩

end Spitfire.Regex
