import Spitfire.Ice.Reading
import Spitfire.Regex.Effort

/-! How long a rejection can take. In the expression for an address a loop over groups stands
around a loop over hexadecimal digits, so that a run of digits can be cut into groups in many
ways. A line that ends inside its address makes the matcher go all of them. -/
namespace Spitfire.Ice
open Regex Pattern

/-- A candidate line that has come as far as its address. -/
def stalled (n : Nat) : Text := text "candidate:1 1 udp 1 " ++ List.replicate n (unit 'a')

/-- The loop's body in `Ipv6AdresssRegex`. -/
def hexGroup : Pattern CodeUnit :=
  .seq (.setLoop isHexDigit 0 (some 4)) (.opt (.set (· = unit ':')))

theorem ipv6_eq : ipv6AdresssRegex = seqs [.opt (.set (· = unit ':')), .plus hexGroup] := rfl

/-- A group leaves whatever the loop over its digits leaves. -/
theorem loopRests_sublist_paths (g : Groups CodeUnit) (s : Text) :
    ((loopRests isHexDigit 0 (some 4) s).map fun t => (g, t)).Sublist (paths hexGroup g s) := by
  rw [hexGroup, paths, paths]
  generalize (loopRests isHexDigit 0 (some 4) s).map (fun t => (g, t)) = xs
  induction xs with
  | nil => exact .refl _
  | cons x xs ih => exact (List.sublist_append_right _ [x]).append ih

theorem hexGroup_one (g : Groups CodeUnit) (s : Text) :
    [(g, s)].Sublist (paths hexGroup g (unit 'a' :: s)) := by
  refine .trans ?_ (loopRests_sublist_paths g _)
  have hrests : loopRests isHexDigit 0 (some 4) (unit 'a' :: s) =
      loopRests isHexDigit 0 (some 3) s ++ [unit 'a' :: s] := rfl
  rw [hrests]
  exact (((self_sublist_loopRests _ _ s).trans (List.sublist_append_left _ _)).map _)

theorem hexGroup_two (g : Groups CodeUnit) (s : Text) :
    [(g, s), (g, unit 'a' :: s)].Sublist (paths hexGroup g (unit 'a' :: unit 'a' :: s)) := by
  refine .trans ?_ (loopRests_sublist_paths g _)
  have hrests : loopRests isHexDigit 0 (some 4) (unit 'a' :: unit 'a' :: s) =
      loopRests isHexDigit 0 (some 2) s ++ [unit 'a' :: s] ++ [unit 'a' :: unit 'a' :: s] := rfl
  have htwo : [s, unit 'a' :: s].Sublist
      (loopRests isHexDigit 0 (some 2) s ++ [unit 'a' :: s]) :=
    (self_sublist_loopRests _ _ s).append (.refl [unit 'a' :: s])
  rw [hrests]
  exact (htwo.trans (List.sublist_append_left _ _)).map _

/-- Each way through a group that takes something goes on in all the ways of the rest. -/
theorem iteratePaths_sublist {g : Groups CodeUnit} {s : Text} (n : Nat)
    {xs : List (Groups CodeUnit × Text)} (hxs : xs.Sublist (paths hexGroup g s))
    (hshort : ∀ x ∈ xs, x.2.length < s.length) :
    (xs.flatMap fun x => iteratePaths (paths hexGroup) n x.1 x.2).Sublist
      (iteratePaths (paths hexGroup) (n + 1) g s) := by
  rw [iteratePaths]
  generalize paths hexGroup g s = ys at hxs
  induction hxs with
  | slnil => exact .refl _
  | cons y _ ih => exact (ih hshort).trans (List.sublist_append_right _ _)
  | cons_cons x _ ih =>
    rw [List.flatMap_cons, List.flatMap_cons, if_pos (hshort x (by simp))]
    exact (List.sublist_append_left _ _).append (ih fun y hy => hshort y (by simp [hy]))

theorem two_pow_le_iteratePaths (n : Nat) (g : Groups CodeUnit) {m : Nat} (hm : 2 * n ≤ m) :
    2 ^ n ≤ (iteratePaths (paths hexGroup) m g (List.replicate (2 * n) (unit 'a'))).length := by
  induction n generalizing m with
  | zero =>
    cases m with
    | zero => exact Nat.le_refl 1
    | succ m => exact Nat.le_refl 1
  | succ n ih =>
    obtain ⟨m, rfl⟩ : ∃ m', m = m' + 2 := ⟨m - 2, by omega⟩
    have hlong := ih (m := m + 1) (by omega)
    have hshort := ih (m := m) (by omega)
    rw [show 2 * (n + 1) = 2 * n + 1 + 1 by omega, List.replicate_succ, List.replicate_succ]
    generalize List.replicate (2 * n) (unit 'a') = s at hlong hshort ⊢
    have hshorter : ∀ x ∈ [(g, s), (g, unit 'a' :: s)],
        x.2.length < (unit 'a' :: unit 'a' :: s).length := by
      simp only [List.forall_mem_cons, List.length_cons]
      exact ⟨by omega, by omega, nofun⟩
    have hone := (iteratePaths_sublist m (hexGroup_one g s) (by simp)).length_le
    have htwo := (iteratePaths_sublist (m + 1) (hexGroup_two g s) hshorter).length_le
    simp only [List.flatMap_cons, List.flatMap_nil, List.append_nil, List.length_append] at hone htwo
    calc 2 ^ (n + 1) = 2 ^ n + 2 ^ n := Nat.two_pow_succ n
      _ ≤ _ := Nat.add_le_add hlong (hshort.trans hone)
      _ ≤ _ := htwo

theorem two_pow_le_paths (n : Nat) (g : Groups CodeUnit) :
    2 ^ n ≤ (paths connectAddressRegex g (List.replicate (2 * n) (unit 'a'))).length := by
  have hloop := two_pow_le_iteratePaths n g (Nat.le_refl (2 * n))
  have hipv6 := (paths_sublist_of_opt (.set (· = unit ':')) (.plus hexGroup) g
    (List.replicate (2 * n) (unit 'a'))).length_le
  rw [paths, List.length_replicate, ← ipv6_eq] at hipv6
  rw [connectAddressRegex, paths, paths, List.length_append, List.length_append]
  omega

/-- The items of the expression that come after the address. -/
def afterAddress : List (Pattern CodeUnit) :=
  headItems.drop 11 ++ .group 7 tokenRegex :: tailItems

theorem afterAddress_eq :
    afterAddress = space :: (headItems.drop 12 ++ .group 7 tokenRegex :: tailItems) := rfl

theorem master_eq : masterRegex = .group 0 (seqs (headItems.take 10 ++
    .group 5 connectAddressRegex :: afterAddress)) := rfl

theorem head_reached (t : Text) :
    ∃ g, (g, t) ∈ paths (seqs (headItems.take 10)) (fun _ => none)
      (text "candidate:1 1 udp 1 " ++ t) := by
  have hany : ((paths (seqs (headItems.take 10)) (fun _ => none)
      (text "candidate:1 1 udp 1 ")).any fun x => x.2.isEmpty) = true := by decide +kernel
  obtain ⟨x, hx, hempty⟩ := List.any_eq_true.mp hany
  obtain ⟨w, hw, hsplit⟩ := paths_sound _ _ _ _ hx
  rw [List.isEmpty_iff.mp hempty, List.append_nil] at hsplit
  rw [hsplit]
  exact paths_complete _ _ t w hw

/-- The word `typ` of a match does not occur. -/
theorem stalled_unmatched (n : Nat) : search masterRegex (stalled n) = none := by
  have hmissing : unit 'y' ∉ stalled n := by
    have hhead : unit 'y' ∉ text "candidate:1 1 udp 1 " := by decide
    have hne : unit 'y' ≠ unit 'a' := by decide
    simp [stalled, hhead, hne]
  rw [← Option.not_isSome_iff_eq_none, search_isSome_iff]
  rintro ⟨w, hw, hwithin⟩
  obtain ⟨l, _, rfl⟩ := mem_language_master.mp hw
  refine hmissing (hwithin.subset ?_)
  simp [Line.write, Line.fromComponentId, Line.fromTransport, Line.fromPriority, Line.fromAddress,
    Line.fromPort, Line.fromTyp, Field.write, text]

theorem looks_afterAddress (k : Groups CodeUnit → Text → Effort) (g : Groups CodeUnit) (s : Text) :
    0 < (effort (seqs afterAddress) k g s).looks := by
  rw [afterAddress_eq, seqs, effort, space]
  cases s with
  | nil => exact Nat.one_pos
  | cons a s =>
    rw [effort]
    split
    · exact Nat.lt_add_right _ Nat.one_pos
    · exact Nat.one_pos

/-- A text of a few dozen characters is rejected only after more looks at it than can be made:
two more characters double their number. -/
theorem rejection_exponential (n : Nat) :
    (stalled (2 * n)).length = 20 + 2 * n ∧
    parse (stalled (2 * n)) =
      .error (.dataException (text "Failed to parse ICE candidate " ++ stalled (2 * n))) ∧
    (searchEffort masterRegex (stalled (2 * n))).found = false ∧
    2 ^ n ≤ (searchEffort masterRegex (stalled (2 * n))).looks := by
  have hsearch := stalled_unmatched (2 * n)
  refine ⟨by simp [stalled, text]; omega, by rw [parse, hsearch], ?_, ?_⟩
  · rw [searchEffort_found, hsearch]
    rfl
  obtain ⟨g, hreached⟩ := head_reached (List.replicate (2 * n) (unit 'a'))
  have hnone := paths_of_unmatched hsearch
  rw [master_eq, paths, List.map_eq_nil_iff] at hnone
  have hrest : paths (seqs ([.group 5 connectAddressRegex] ++ afterAddress)) g
      (List.replicate (2 * n) (unit 'a')) = [] := by
    rw [paths_seqs_append, List.flatMap_eq_nil_iff] at hnone
    exact hnone _ hreached
  calc 2 ^ n ≤ (paths connectAddressRegex g (List.replicate (2 * n) (unit 'a'))).length :=
        two_pow_le_paths n g
    _ = (paths (seqs [.group 5 connectAddressRegex]) g
          (List.replicate (2 * n) (unit 'a'))).length := by
        rw [paths_seqs_singleton, paths, List.length_map]
    _ ≤ looksAfter (effort (seqs afterAddress) fun _ _ => ⟨true, 0⟩)
          (paths (seqs [.group 5 connectAddressRegex]) g (List.replicate (2 * n) (unit 'a'))) :=
        length_le_looksAfter (looks_afterAddress _)
    _ ≤ (effort (seqs (.group 5 connectAddressRegex :: afterAddress)) (fun _ _ => ⟨true, 0⟩) g
          (List.replicate (2 * n) (unit 'a'))).looks := looks_of_fails _ hrest
    _ ≤ looksAfter (effort (seqs (.group 5 connectAddressRegex :: afterAddress))
          fun _ _ => ⟨true, 0⟩) (paths (seqs (headItems.take 10)) (fun _ => none)
          (stalled (2 * n))) := looks_le_looksAfter hreached
    _ ≤ (effort (seqs (headItems.take 10 ++ .group 5 connectAddressRegex :: afterAddress))
          (fun _ _ => ⟨true, 0⟩) (fun _ => none) (stalled (2 * n))).looks := looks_of_fails _ hnone
    _ = (effort masterRegex (fun _ _ => ⟨true, 0⟩) (fun _ => none) (stalled (2 * n))).looks := by
        rw [master_eq, effort]
    _ ≤ _ := effort_le_searchEffort masterRegex _

end Spitfire.Ice
