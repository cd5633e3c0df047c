import Spitfire.Buffer.Carry
import Spitfire.Utils.DataChannelUtils

/-! The pointer loops against the block copy: the same result between different arrays, and
what the loop does where the block copy is not defined, inside one array. -/
namespace Spitfire.Utils
open Buffer

variable {ρ : Type}

theorem exists_ofNat {i : Int32} (h : 0 ≤ i.toInt) :
    ∃ n : Nat, i = .ofNat n ∧ i.toInt = n ∧ n < 2 ^ 31 := by
  have hlt := Int32.toInt_lt i
  refine ⟨i.toInt.toNat, ?_, by omega, by omega⟩
  apply Int32.toInt_inj.mp
  rw [Int32.toInt_ofNat_of_lt (by omega)]
  omega

/-- A block of bytes that lies inside an array starts at a natural number. -/
theorem exists_offset {m : Memory ρ} {r : ρ} {offset : Int32} {n : Nat} (hn : n ≠ 0)
    (h : InBounds m ⟨r, offset.toInt⟩ n) :
    ∃ s : Nat, offset = .ofNat s ∧ offset.toInt = s ∧ s + n ≤ (m r).bytes.length := by
  obtain ⟨hlow, hhigh⟩ := h.resolve_left hn
  dsimp only at hlow hhigh
  obtain ⟨s, hs, hsInt, _⟩ := exists_ofNat hlow
  exact ⟨s, hs, hsInt, by omega⟩

variable [DecidableEq ρ]

/-- The memory in which the `n` bytes of the source from `s` on, as they were before, have
been written to the target from `t` on. -/
def snapshotCopy (m : Memory ρ) (source : ρ) (s : Nat) (target : ρ) (t n : Nat) : Memory ρ :=
  Function.update m target ((m target).patch t (window (m source).bytes s n))

theorem snapshotCopy_zero (m : Memory ρ) (source : ρ) (s : Nat) (target : ρ) (t : Nat) :
    snapshotCopy m source s target t 0 = m := by
  rw [snapshotCopy, patch_window_zero, Function.update_eq_self]

variable {m : Memory ρ} {source target : ρ}

theorem getElem?_snapshotCopy_inside {s t n i : Nat} (hs : s + n ≤ (m source).bytes.length)
    (ht : t + n ≤ (m target).bytes.length) (hi : i < n) :
    (snapshotCopy m source s target t n target).bytes[t + i]? = (m source).bytes[s + i]? := by
  rw [snapshotCopy, Function.update_self]
  change (patch (m target).bytes t (window (m source).bytes s n))[t + i]? = _
  rw [getElem?_patch_window hs (by omega), if_pos (by omega), Nat.add_sub_cancel_left]

theorem getElem?_snapshotCopy_outside {s t n j : Nat} (hj : j < t ∨ t + n ≤ j) :
    (snapshotCopy m source s target t n target).bytes[j]? = (m target).bytes[j]? := by
  rw [snapshotCopy, Function.update_self]
  change (patch (m target).bytes t (window (m source).bytes s n))[j]? = _
  rw [getElem?_patch, getElem?_window]
  by_cases hle : t ≤ j
  · simp [hle, show ¬ j - t < n by omega]
  · simp [hle]

/-- The loop of the pointer copies with the values of its counter at the tests of its
condition. The body runs after every test but the last. -/
def copyLoopTests (count : Int) : Nat → Int32 → Pointer ρ → Pointer ρ → Memory ρ →
    Except MemoryFault (List Int32 × Memory ρ)
  | 0, _, _, _, _ => .error .outOfBounds
  | fuel + 1, i, ps, pt, m =>
    if i.toInt < count then do
      let b ← load m ps
      let m ← store m pt b
      let rest ← copyLoopTests count fuel (i + 1) (ps.add 1) (pt.add 1) m
      .ok (i :: rest.1, rest.2)
    else .ok ([i], m)

def sliceTests (source : ρ) (sourceOffset : Int32) (target : ρ) (targetOffset : Int32)
    (count : UInt32) (m : Memory ρ) : Except MemoryFault (List Int32 × Memory ρ) :=
  copyLoopTests count.toNat ((m target).bytes.length + 1) 0 ⟨source, sourceOffset.toInt⟩
    ⟨target, targetOffset.toInt⟩ m

/-- Writing the counter down changes nothing else. -/
theorem copyLoopTests_memory (count : Int) (fuel : Nat) (i : Int32) (ps pt : Pointer ρ)
    (m : Memory ρ) :
    (copyLoopTests count fuel i ps pt m).map Prod.snd = copyLoop count fuel i ps pt m := by
  induction fuel generalizing i ps pt m with
  | zero => rfl
  | succ fuel ih =>
    rw [copyLoopTests, copyLoop]
    split
    · cases load m ps with
      | error f => rfl
      | ok b =>
        dsimp only [bind, Except.bind]
        cases store m pt b with
        | error f => rfl
        | ok m' =>
          dsimp only
          rw [← ih]
          cases copyLoopTests count fuel (i + 1) (ps.add 1) (pt.add 1) m' <;> rfl
    · rfl

theorem copyLoopTests_step {count : Int} {fuel s t : Nat} {i : Int32} {b : UInt8}
    (hlt : i.toInt < count) (hb : (m source).bytes[s]? = some b)
    (ht : t < (m target).bytes.length) :
    copyLoopTests count (fuel + 1) i ⟨source, s⟩ ⟨target, t⟩ m =
      (copyLoopTests count fuel (i + 1) ⟨source, (s + 1 : Nat)⟩ ⟨target, (t + 1 : Nat)⟩
        (Function.update m target ((m target).set t b))).map fun rest => (i :: rest.1, rest.2) := by
  rw [copyLoopTests, if_pos hlt, load_ok hb]
  change (do
    let m ← store m ⟨target, t⟩ b
    let rest ← copyLoopTests count fuel (i + 1) ⟨source, (s + 1 : Nat)⟩
      ⟨target, (t + 1 : Nat)⟩ m
    Except.ok (i :: rest.1, rest.2)) = _
  rw [store_ok ht]
  rfl

/-- Inside the bounds of its arrays, different or not, the loop counts up to its bound. -/
theorem copyLoopTests_counts {k n fuel s t : Nat} {i : Int32} {m : Memory ρ}
    (hi : i.toInt = k) (hk : k + n < 2 ^ 31) (hfuel : n < fuel)
    (hs : s + n ≤ (m source).bytes.length) (ht : t + n ≤ (m target).bytes.length) :
    ∃ tests m', copyLoopTests (k + n : Nat) fuel i ⟨source, s⟩ ⟨target, t⟩ m = .ok (tests, m') ∧
      tests.map Int32.toInt = (List.range' k (n + 1)).map Nat.cast := by
  induction n generalizing k fuel s t i m with
  | zero =>
    obtain ⟨fuel, rfl⟩ := Nat.exists_eq_add_of_lt hfuel
    exact ⟨[i], m, by simp [copyLoopTests, hi], by simp [hi]⟩
  | succ n ih =>
    cases fuel with
    | zero => cases hfuel
    | succ fuel =>
      have hbyte : (m source).bytes[s]? = some (m source).bytes[s] :=
        List.getElem?_eq_getElem (by omega)
      have hlt : i.toInt < ((k + (n + 1) : Nat) : Int) := by omega
      have hlength := length_update_set m target t (m source).bytes[s]
      obtain ⟨tests, m', hrest, htests⟩ := ih (k := k + 1) (s := s + 1) (t := t + 1)
        (toInt_succ hi (by omega)) (by omega) (Nat.lt_of_succ_lt_succ hfuel)
        (by rw [hlength]; omega) (by rw [hlength]; omega)
      refine ⟨i :: tests, m', ?_, ?_⟩
      · rw [copyLoopTests_step hlt hbyte (by omega), show k + (n + 1) = k + 1 + n by omega, hrest]
        rfl
      · rw [List.map_cons, htests, hi, List.range'_succ (s := k)]
        rfl

/-- Inside one array the loop carries its block along. -/
theorem copyLoop_carries {a : ρ} {k n fuel s t : Nat} {i : Int32} {m : Memory ρ}
    (hi : i.toInt = k) (hk : k + n < 2 ^ 31) (hfuel : n < fuel)
    (hs : s + n ≤ (m a).bytes.length) (ht : t + n ≤ (m a).bytes.length) :
    ∃ m', copyLoop (k + n : Nat) fuel i ⟨a, s⟩ ⟨a, t⟩ m = .ok m' ∧
      (m' a).bytes = carry s t n (m a).bytes ∧ ∀ r, r ≠ a → m' r = m r := by
  induction n generalizing k fuel s t i m with
  | zero =>
    obtain ⟨fuel, rfl⟩ := Nat.exists_eq_add_of_lt hfuel
    exact ⟨m, by simp [copyLoop, hi], rfl, fun _ _ => rfl⟩
  | succ n ih =>
    cases fuel with
    | zero => cases hfuel
    | succ fuel =>
      have hbyte : (m a).bytes[s]? = some (m a).bytes[s] := List.getElem?_eq_getElem (by omega)
      have hlt : i.toInt < ((k + (n + 1) : Nat) : Int) := by omega
      have hlength := length_update_set m a t (m a).bytes[s]
      obtain ⟨m', hrest, hcarry, hother⟩ := ih (k := k + 1) (s := s + 1) (t := t + 1)
        (toInt_succ hi (by omega)) (by omega) (Nat.lt_of_succ_lt_succ hfuel)
        (by rw [hlength]; omega) (by rw [hlength]; omega)
      refine ⟨m', ?_, ?_, ?_⟩
      · rw [copyLoop_step hlt hbyte (by omega), show k + (n + 1) = k + 1 + n by omega]
        exact hrest
      · rw [hcarry, Function.update_self, carry_succ hbyte]
        rfl
      · intro r hr
        rw [hother r hr, Function.update_of_ne hr]

/-- `Slice` with one array as its source and its target. -/
theorem slice_carries {a : ρ} {s t n : Nat} {m : Memory ρ} (hs : s + n ≤ (m a).bytes.length)
    (ht : t + n ≤ (m a).bytes.length) :
    ∃ m', slice a (.ofNat s) a (.ofNat t) (.ofNat n) m = .ok m' ∧
      (m' a).bytes = carry s t n (m a).bytes ∧ ∀ r, r ≠ a → m' r = m r := by
  have hlength := (m a).length_lt
  rw [slice_eq_copyLoop hs ht]
  exact copyLoop_carries rfl (by omega) (by omega) hs ht

theorem slice_snapshot {a : ρ} {s t n : Nat} {m : Memory ρ} (hs : s + n ≤ (m a).bytes.length)
    (ht : t + n ≤ (m a).bytes.length) (h : n = 0 ∨ t ≤ s ∨ s + n ≤ t) :
    slice a (.ofNat s) a (.ofNat t) (.ofNat n) m = .ok (snapshotCopy m a s a t n) := by
  obtain ⟨m', hslice, hcarry, hother⟩ := slice_carries hs ht
  rw [hslice]
  congr 1
  funext r
  by_cases hr : r = a
  · subst hr
    rw [snapshotCopy, Function.update_self]
    apply ManagedArray.ext
    rw [hcarry, carry_eq_patch hs ht h]
    rfl
  · rw [hother r hr, snapshotCopy, Function.update_of_ne hr]

/-- Where the target begins inside the source, some contents show the difference. -/
theorem exists_slice_ne_snapshot (a : ρ) {len s t n : Nat} (hlen : len < 2 ^ 31)
    (hs : s + n ≤ len) (ht : t + n ≤ len) (hst : s < t) (hts : t < s + n) :
    ∃ m : Memory ρ, (m a).bytes.length = len ∧
      slice a (.ofNat s) a (.ofNat t) (.ofNat n) m ≠ .ok (snapshotCopy m a s a t n) := by
  obtain ⟨xs, hxs, hdiff⟩ := exists_carry_ne_patch (show (0 : UInt8) ≠ 1 by decide) hst hts ht
  let m : Memory ρ := fun _ => ⟨xs, by omega⟩
  refine ⟨m, hxs, ?_⟩
  intro hslice
  obtain ⟨m', hslice', hcarry, _⟩ := slice_carries (m := m) (a := a) (hxs ▸ hs) (hxs ▸ ht)
  have heq := Except.ok.inj (hslice'.symm.trans hslice)
  have hsnapshot : (m' a).bytes = patch xs t (window xs s n) := by
    rw [heq, snapshotCopy, Function.update_self]
    rfl
  exact hdiff (hcarry.symm.trans hsnapshot)

/-- `Slice` inside one array copies a snapshot, whatever the contents, exactly when the
target does not begin inside the source. Where it does, the bytes between the two starts
repeat. Outside of the target nothing changes. -/
theorem slice_in_place (a : ρ) {len s t n : Nat} (hlen : len < 2 ^ 31) (hs : s + n ≤ len)
    (ht : t + n ≤ len) :
    ((∀ m : Memory ρ, (m a).bytes.length = len →
        slice a (.ofNat s) a (.ofNat t) (.ofNat n) m = .ok (snapshotCopy m a s a t n)) ↔
      n = 0 ∨ t ≤ s ∨ s + n ≤ t) ∧
    ∀ m : Memory ρ, (m a).bytes.length = len →
      ∃ m', slice a (.ofNat s) a (.ofNat t) (.ofNat n) m = .ok m' ∧
        (s < t → t < s + n → ∀ i < n, (m' a).bytes[t + i]? = (m a).bytes[s + i % (t - s)]?) ∧
        (∀ j, j < t ∨ t + n ≤ j → (m' a).bytes[j]? = (m a).bytes[j]?) ∧
        (m' a).bytes.length = len ∧ ∀ r, r ≠ a → m' r = m r := by
  refine ⟨⟨?_, ?_⟩, ?_⟩
  · intro hall
    by_contra hne
    obtain ⟨m, hm, hdiff⟩ := exists_slice_ne_snapshot a hlen hs ht (by omega) (by omega)
    exact hdiff (hall m hm)
  · intro h m hm
    exact slice_snapshot (hm ▸ hs) (hm ▸ ht) h
  · intro m hm
    obtain ⟨m', hslice, hcarry, hother⟩ := slice_carries (m := m) (a := a) (hm ▸ hs) (hm ▸ ht)
    refine ⟨m', hslice, ?_, ?_, ?_, hother⟩
    · intro hst _ i hi
      rw [hcarry]
      exact getElem?_carry_forward hst (hm ▸ ht) hi
    · intro j hj
      rw [hcarry]
      exact getElem?_carry_outside _ hj
    · rw [hcarry, length_carry, hm]

/-- Three bytes one place to the right: the first one is repeated. -/
theorem slice_in_place_repeats :
    ∃ m', slice () (.ofNat 0) () (.ofNat 1) (.ofNat 3) (fun _ => ⟨[7, 8, 9, 10], by decide⟩) =
        .ok m' ∧
      ∀ i < 3, (m' ()).bytes[1 + i]? = ([7, 8, 9, 10] : List UInt8)[0 + i % (1 - 0)]? := by
  obtain ⟨m', hslice, hrepeat, _⟩ := (slice_in_place () (show 4 < 2 ^ 31 by decide)
    (show 0 + 3 ≤ 4 by decide) (show 1 + 3 ≤ 4 by decide)).2 (fun _ => ⟨[7, 8, 9, 10], by decide⟩) rfl
  exact ⟨m', hslice, hrepeat (by decide) (by decide)⟩

variable {sourceOffset targetOffset : Int32} {count : UInt32}

/-- Inside the bounds of its arrays `Slice` tests its counter once more than it copies, at
the values from zero to the number of bytes. -/
theorem sliceTests_counts (hs : InBounds m ⟨source, sourceOffset.toInt⟩ count.toNat)
    (ht : InBounds m ⟨target, targetOffset.toInt⟩ count.toNat) :
    ∃ tests m', sliceTests source sourceOffset target targetOffset count m = .ok (tests, m') ∧
      tests.map Int32.toInt = (List.range (count.toNat + 1)).map Nat.cast := by
  rw [sliceTests]
  by_cases hn : count.toNat = 0
  · rw [hn, copyLoopTests, if_neg (by decide)]
    exact ⟨[0], m, rfl, rfl⟩
  · obtain ⟨s, _, hsource, hs⟩ := exists_offset hn hs
    obtain ⟨t, _, htarget, ht⟩ := exists_offset hn ht
    have hlength := (m target).length_lt
    have hfuel : count.toNat < (m target).bytes.length + 1 := by omega
    have hcounts := copyLoopTests_counts (k := 0) (i := 0) rfl (by omega) hfuel hs ht
    rw [hsource, htarget]
    rw [Nat.zero_add, ← List.range_eq_range'] at hcounts
    exact hcounts

theorem slice_eq_snapshotCopy (hne : source ≠ target)
    (hs : InBounds m ⟨source, sourceOffset.toInt⟩ count.toNat)
    (ht : InBounds m ⟨target, targetOffset.toInt⟩ count.toNat) :
    slice source sourceOffset target targetOffset count m = .ok (snapshotCopy m source
      sourceOffset.toInt.toNat target targetOffset.toInt.toNat count.toNat) := by
  by_cases hn : count.toNat = 0
  · rw [slice, hn, snapshotCopy_zero, copyLoop, if_neg (by decide)]
  · obtain ⟨s, hsource, hsInt, hs⟩ := exists_offset hn hs
    obtain ⟨t, htarget, htInt, ht⟩ := exists_offset hn ht
    have hslice := slice_ok hne hs ht
    rw [UInt32.ofNat_toNat, ← hsource, ← htarget] at hslice
    rw [hslice, hsInt, htInt]
    rfl

theorem memorySlice_eq_snapshotCopy (hne : source ≠ target)
    (hs : InBounds m ⟨source, sourceOffset.toInt⟩ count.toNat)
    (ht : InBounds m ⟨target, targetOffset.toInt⟩ count.toNat) :
    memorySlice source sourceOffset target targetOffset count m = .ok (snapshotCopy m source
      sourceOffset.toInt.toNat target targetOffset.toInt.toNat count.toNat) := by
  rw [memorySlice, Native.copy]
  dsimp only
  rw [if_pos ⟨hs, ht⟩, if_neg fun h => hne h.1]
  rfl

/-- The pointer loop and the block copy agree between different arrays, and the loop counts
every byte once: its counter goes from zero to the number of bytes and never wraps around.
The two resizes are the slices without offsets. -/
theorem slice_agrees_memorySlice (hne : source ≠ target)
    (hs : InBounds m ⟨source, sourceOffset.toInt⟩ count.toNat)
    (ht : InBounds m ⟨target, targetOffset.toInt⟩ count.toNat) :
    (∃ m', slice source sourceOffset target targetOffset count m = .ok m' ∧
      memorySlice source sourceOffset target targetOffset count m = .ok m' ∧
      (∀ i < count.toNat, (m' target).bytes[targetOffset.toInt.toNat + i]? =
        (m source).bytes[sourceOffset.toInt.toNat + i]?) ∧
      (∀ j, j < targetOffset.toInt.toNat ∨ targetOffset.toInt.toNat + count.toNat ≤ j →
        (m' target).bytes[j]? = (m target).bytes[j]?) ∧
      (m' target).bytes.length = (m target).bytes.length ∧ (∀ r, r ≠ target → m' r = m r) ∧
      ∃ tests, sliceTests source sourceOffset target targetOffset count m = .ok (tests, m') ∧
        tests.map Int32.toInt = (List.range (count.toNat + 1)).map Nat.cast) ∧
    (∀ count : UInt32,
      memoryResize source target count m = memorySlice source 0 target 0 count m) ∧
    ∀ count : Int32, 0 ≤ count.toInt →
      resize source target count m = slice source 0 target 0 count.toUInt32 m := by
  refine ⟨⟨_, slice_eq_snapshotCopy hne hs ht, memorySlice_eq_snapshotCopy hne hs ht,
    ?_, ?_, ?_, ?_, ?_⟩, ?_, ?_⟩
  · intro i hi
    obtain ⟨s, _, hsInt, hs⟩ := exists_offset (by omega) hs
    obtain ⟨t, _, htInt, ht⟩ := exists_offset (by omega) ht
    rw [hsInt, htInt]
    exact getElem?_snapshotCopy_inside hs ht hi
  · intro j hj
    exact getElem?_snapshotCopy_outside hj
  · rw [snapshotCopy, Function.update_self]
    exact length_patch _ _ _
  · intro r hr
    exact Function.update_of_ne hr _ _
  · obtain ⟨tests, m', htests, hcounts⟩ := sliceTests_counts hs ht
    have hmemory : slice source sourceOffset target targetOffset count m = .ok m' := by
      rw [slice, ← copyLoopTests_memory]
      exact congrArg (Except.map Prod.snd) htests
    rw [slice_eq_snapshotCopy hne hs ht] at hmemory
    rw [Except.ok.inj hmemory]
    exact ⟨tests, htests, hcounts⟩
  · exact fun count => memoryResize_eq count
  · intro count hcount
    obtain ⟨n, rfl, _, hn⟩ := exists_ofNat hcount
    rw [Int32.toUInt32_ofNat']
    exact resize_eq hn

/-- An array of three bytes and one of five. -/
def twoArrays : Memory Bool :=
  fun r => if r then ⟨[1, 1, 1, 1, 1], by decide⟩ else ⟨[7, 8, 9], by decide⟩

theorem slice_agrees_twoArrays :
    ∃ m', slice false 1 true 2 2 twoArrays = .ok m' ∧
      memorySlice false 1 true 2 2 twoArrays = .ok m' ∧
      ∃ tests, sliceTests false 1 true 2 2 twoArrays = .ok (tests, m') ∧
        tests.map Int32.toInt = [0, 1, 2] := by
  obtain ⟨⟨m', hslice, hmemory, _, _, _, _, tests, htests, hcounts⟩, _⟩ :=
    slice_agrees_memorySlice Bool.false_ne_true
      (show InBounds twoArrays ⟨false, Int32.toInt 1⟩ (UInt32.toNat 2) by decide)
      (show InBounds twoArrays ⟨true, Int32.toInt 2⟩ (UInt32.toNat 2) by decide)
  exact ⟨m', hslice, hmemory, tests, htests, hcounts⟩

end Spitfire.Utils
