import Spitfire.Transition.Fallible
import Spitfire.Utils.CopyLoops

/-! Exactly which arguments the four copy functions may be called with. They check nothing, so
that offsets may be negative and counts beyond any array. -/
namespace Spitfire.Utils
open Buffer Transition

variable {ρ : Type}

/-- Nothing has changed but the range of the target that was to be written. -/
structure Confined (m m' : Memory ρ) (p : Pointer ρ) (n : Nat) : Prop where
  others : ∀ r ≠ p.array, m' r = m r
  length : ∀ r, (m' r).bytes.length = (m r).bytes.length
  outside : ∀ j : Nat, (j : Int) < p.offset ∨ p.offset + n ≤ j →
    (m' p.array).bytes[j]? = (m p.array).bytes[j]?

variable {m m' : Memory ρ} {ps pt : Pointer ρ}

theorem Confined.refl (m : Memory ρ) (p : Pointer ρ) (n : Nat) : Confined m m p n :=
  ⟨fun _ _ => rfl, fun _ => rfl, fun _ _ => rfl⟩

theorem inBounds_zero (m : Memory ρ) (p : Pointer ρ) : InBounds m p 0 := Or.inl rfl

theorem inBounds_succ {p : Pointer ρ} {n : Nat} : InBounds m p (n + 1) ↔
    0 ≤ p.offset ∧ p.offset + (n + 1) ≤ (m p.array).bytes.length := by
  simp [InBounds]

/-- One byte and then the rest. -/
theorem inBounds_add_one (hlength : ∀ r, (m' r).bytes.length = (m r).bytes.length)
    {p : Pointer ρ} (hp : InBounds m p 1) (n : Nat) :
    InBounds m' (p.add 1) n ↔ InBounds m p (n + 1) := by
  rw [inBounds_succ] at hp
  rw [inBounds_succ, InBounds, hlength]
  simp only [Pointer.add]
  omega

theorem load_eq_ok_iff : (∃ b, load m ps = .ok b) ↔ InBounds m ps 1 := by
  rw [inBounds_succ, load]
  constructor
  · rintro ⟨b, h⟩
    split at h
    · rename_i hlow
      split at h
      · rename_i c hc
        obtain ⟨hlt, -⟩ := List.getElem?_eq_some_iff.mp hc
        omega
      · cases h
    · cases h
  · rintro ⟨hlow, hhigh⟩
    rw [if_pos hlow, List.getElem?_eq_getElem (by omega)]
    exact ⟨_, rfl⟩

theorem Confined.cons {m₁ : Memory ρ} {n : Nat} (h : Confined m m₁ pt 1)
    (h' : Confined m₁ m' (pt.add 1) n) : Confined m m' pt (n + 1) := by
  refine ⟨fun r hr => (h'.others r hr).trans (h.others r hr),
    fun r => (h'.length r).trans (h.length r), fun j hj => ?_⟩
  refine (h'.outside j ?_).trans (h.outside j ?_)
  · simp only [Pointer.add]
    omega
  · omega

variable [DecidableEq ρ]

theorem store_eq_ok_iff {b : UInt8} : (∃ m', store m pt b = .ok m') ↔ InBounds m pt 1 := by
  rw [store]
  split
  · simp [*]
  · simp [*]

theorem store_confined {b : UInt8} (h : store m pt b = .ok m') : Confined m m' pt 1 := by
  obtain ⟨hin, hlength⟩ := store_eq_ok h
  rw [inBounds_succ] at hin
  unfold store at h
  split at h
  · cases h
    refine ⟨fun r hr => Function.update_of_ne hr _ _, hlength, fun j hj => ?_⟩
    rw [Function.update_self]
    exact List.getElem?_set_ne (by omega)
  · cases h

/-- What the loop returns differs in what it had to write only. -/
theorem copyLoop_confined {k n fuel : Nat} {i : Int32} {m m' : Memory ρ} {ps pt : Pointer ρ}
    (hi : i.toInt = k) (hwrap : 0 ≤ pt.offset → k + (m pt.array).bytes.length - pt.offset < 2 ^ 31)
    (h : copyLoop (k + n : Nat) fuel i ps pt m = .ok m') : Confined m m' pt n := by
  induction fuel generalizing k n i m ps pt with
  | zero => cases h
  | succ fuel ih =>
    rw [copyLoop, hi] at h
    cases n with
    | zero =>
      rw [if_neg (by omega)] at h
      cases h
      exact .refl _ pt 0
    | succ n =>
      rw [if_pos (by omega)] at h
      obtain ⟨b, -, h⟩ := bind_eq_ok.mp h
      obtain ⟨m₁, hstore, h⟩ := bind_eq_ok.mp h
      have hconfined := store_confined hstore
      obtain ⟨hlow, hhigh⟩ := inBounds_succ.mp (store_eq_ok_iff.mp ⟨m₁, hstore⟩)
      have hi' : (i + 1).toInt = (k + 1 : Nat) := toInt_succ hi (by have := hwrap hlow; omega)
      rw [show k + (n + 1) = k + 1 + n by omega] at h
      refine hconfined.cons (ih hi' (fun _ => ?_) h)
      have := hwrap hlow
      simp only [Pointer.add, hconfined.length]
      omega

/-- The loop returns if and only if what it still has to read and to write lies inside. The
counter cannot wrap around before the target ends. -/
theorem copyLoop_returns_iff {k n fuel : Nat} {i : Int32} {m : Memory ρ} {ps pt : Pointer ρ}
    (hi : i.toInt = k) (hpos : 0 < fuel)
    (hfuel : 0 ≤ pt.offset → (m pt.array).bytes.length < pt.offset + fuel)
    (hwrap : 0 ≤ pt.offset → k + (m pt.array).bytes.length - pt.offset < 2 ^ 31) :
    (∃ m', copyLoop (k + n : Nat) fuel i ps pt m = .ok m') ↔ InBounds m ps n ∧ InBounds m pt n := by
  induction fuel generalizing k n i m ps pt with
  | zero => cases hpos
  | succ fuel ih =>
    rw [copyLoop, hi]
    cases n with
    | zero =>
      rw [if_neg (by omega)]
      exact ⟨fun _ => ⟨inBounds_zero m ps, inBounds_zero m pt⟩, fun _ => ⟨m, rfl⟩⟩
    | succ n =>
      rw [if_pos (by omega)]
      have hstep (m₁ : Memory ρ) (b : UInt8) (hload : InBounds m ps 1)
          (hstore : store m pt b = .ok m₁) :
          (∃ m', copyLoop (k + (n + 1) : Nat) fuel (i + 1) (ps.add 1) (pt.add 1) m₁ = .ok m') ↔
            InBounds m ps (n + 1) ∧ InBounds m pt (n + 1) := by
        have hlength := (store_confined hstore).length
        have hin := store_eq_ok_iff.mp ⟨m₁, hstore⟩
        obtain ⟨hlow, hhigh⟩ := inBounds_succ.mp hin
        have hwrap := hwrap hlow
        have hfuel := hfuel hlow
        have hi' : (i + 1).toInt = (k + 1 : Nat) := toInt_succ hi (by omega)
        rw [show k + (n + 1) = k + 1 + n by omega, ih hi' (by omega) (fun _ => ?_) (fun _ => ?_),
          inBounds_add_one hlength hload, inBounds_add_one hlength hin]
        · simp only [Pointer.add, hlength]
          omega
        · simp only [Pointer.add, hlength]
          omega
      constructor
      · rintro ⟨m', h⟩
        obtain ⟨b, hload, h⟩ := bind_eq_ok.mp h
        obtain ⟨m₁, hstore, h⟩ := bind_eq_ok.mp h
        exact (hstep m₁ b (load_eq_ok_iff.mp ⟨b, hload⟩) hstore).mp ⟨m', h⟩
      · rintro ⟨hsource, htarget⟩
        have hone {p : Pointer ρ} (hp : InBounds m p (n + 1)) : InBounds m p 1 := by
          rw [inBounds_succ] at hp ⊢
          omega
        obtain ⟨b, hload⟩ := load_eq_ok_iff.mpr (hone hsource)
        obtain ⟨m₁, hstore⟩ := store_eq_ok_iff.mpr (hone htarget)
        obtain ⟨m', h⟩ := (hstep m₁ b (hone hsource) hstore).mpr ⟨hsource, htarget⟩
        exact ⟨m', bind_eq_ok.mpr ⟨b, hload, bind_eq_ok.mpr ⟨m₁, hstore, h⟩⟩⟩

variable {source target : ρ} {sourceOffset targetOffset : Int32} {count : UInt32}

theorem slice_returns_iff : (∃ m', slice source sourceOffset target targetOffset count m = .ok m') ↔
    InBounds m ⟨source, sourceOffset.toInt⟩ count.toNat ∧
      InBounds m ⟨target, targetOffset.toInt⟩ count.toNat := by
  have hlength := (m target).length_lt
  rw [slice, ← Nat.zero_add count.toNat, copyLoop_returns_iff rfl (Nat.succ_pos _)
    (by dsimp only; omega) (by dsimp only; omega), Nat.zero_add]

theorem slice_confined (h : slice source sourceOffset target targetOffset count m = .ok m') :
    Confined m m' ⟨target, targetOffset.toInt⟩ count.toNat := by
  have hlength := (m target).length_lt
  rw [slice, ← Nat.zero_add count.toNat] at h
  exact copyLoop_confined rfl (by dsimp only; omega) h

/-- The ranges that the block copy is not defined for. -/
def Overlap (ps pt : Pointer ρ) (n : Nat) : Prop :=
  ps.array = pt.array ∧ ps.offset < pt.offset + n ∧ pt.offset < ps.offset + n

instance (ps pt : Pointer ρ) (n : Nat) : Decidable (Overlap ps pt n) :=
  inferInstanceAs (Decidable (_ ∧ _ ∧ _))

theorem memorySlice_eq_ok_iff :
    memorySlice source sourceOffset target targetOffset count m = .ok m' ↔
      (InBounds m ⟨source, sourceOffset.toInt⟩ count.toNat ∧
        InBounds m ⟨target, targetOffset.toInt⟩ count.toNat) ∧
      ¬ Overlap ⟨source, sourceOffset.toInt⟩ ⟨target, targetOffset.toInt⟩ count.toNat ∧
      snapshotCopy m source sourceOffset.toInt.toNat target targetOffset.toInt.toNat count.toNat =
        m' := by
  rw [memorySlice, Native.copy]
  dsimp only
  split
  · rename_i hin
    split
    · rename_i hover
      refine ⟨fun h => ?_, fun h => absurd hover h.2.1⟩
      cases h
    · rename_i hover
      exact ⟨fun h => ⟨hin, hover, Except.ok.inj h⟩, fun h => congrArg Except.ok h.2.2⟩
  · rename_i hout
    refine ⟨fun h => ?_, fun h => absurd h.1 hout⟩
    cases h

/-- Where the ranges do not overlap, the loop copies as from a snapshot: between two arrays and
inside one. -/
theorem slice_eq_snapshotCopy_of_apart
    (hs : InBounds m ⟨source, sourceOffset.toInt⟩ count.toNat)
    (ht : InBounds m ⟨target, targetOffset.toInt⟩ count.toNat)
    (hapart : ¬ Overlap ⟨source, sourceOffset.toInt⟩ ⟨target, targetOffset.toInt⟩ count.toNat) :
    slice source sourceOffset target targetOffset count m = .ok (snapshotCopy m source
      sourceOffset.toInt.toNat target targetOffset.toInt.toNat count.toNat) := by
  by_cases hne : source = target
  · subst hne
    by_cases hn : count.toNat = 0
    · rw [slice, hn, snapshotCopy_zero, copyLoop, if_neg (by decide)]
    · obtain ⟨s, hsource, hsInt, hs⟩ := exists_offset hn hs
      obtain ⟨t, htarget, htInt, ht⟩ := exists_offset hn ht
      have hst : t ≤ s ∨ s + count.toNat ≤ t := by
        simp only [Overlap, hsInt, htInt, true_and] at hapart
        omega
      have hslice := slice_snapshot hs ht (Or.inr hst)
      rw [UInt32.ofNat_toNat, ← hsource, ← htarget] at hslice
      rw [hslice, hsInt, htInt]
      rfl
  · exact slice_eq_snapshotCopy hne hs ht

/-- The block copy is the loop where the ranges do not overlap, and not defined elsewhere. -/
theorem memorySlice_eq_ok_iff_slice :
    memorySlice source sourceOffset target targetOffset count m = .ok m' ↔
      slice source sourceOffset target targetOffset count m = .ok m' ∧
        ¬ Overlap ⟨source, sourceOffset.toInt⟩ ⟨target, targetOffset.toInt⟩ count.toNat := by
  rw [memorySlice_eq_ok_iff]
  constructor
  · rintro ⟨⟨hs, ht⟩, hapart, rfl⟩
    exact ⟨slice_eq_snapshotCopy_of_apart hs ht hapart, hapart⟩
  · rintro ⟨hslice, hapart⟩
    obtain ⟨hs, ht⟩ := slice_returns_iff.mp ⟨m', hslice⟩
    have hsnapshot := slice_eq_snapshotCopy_of_apart hs ht hapart
    exact ⟨⟨hs, ht⟩, hapart, Except.ok.inj (hsnapshot.symm.trans hslice)⟩

/-- A negative size counts as zero. -/
theorem resize_eq_slice (size : Int32) :
    resize source target size m = slice source 0 target 0 (.ofNat size.toInt.toNat) m := by
  by_cases hsize : 0 ≤ size.toInt
  · obtain ⟨n, rfl, hn, hlt⟩ := exists_ofNat hsize
    rw [hn, Int.toNat_natCast]
    exact resize_eq hlt
  · rw [resize_nonpos (by omega), Int.toNat_of_nonpos (by omega), slice, copyLoop, if_neg (by decide)]

/-- The four functions over all arguments, negative offsets and one array for both included.
`Slice` goes through exactly if both ranges lie inside their arrays, and it then leaves all but
the target's range as it was. The block copy is defined exactly where in addition the ranges do
not overlap, and does the same there. The two resizes are their cases without offsets, and
there a negative size is no fault. -/
theorem copies_return_iff (source : ρ) (sourceOffset : Int32) (target : ρ) (targetOffset : Int32)
    (count : UInt32) (m : Memory ρ) :
    ((∃ m', slice source sourceOffset target targetOffset count m = .ok m') ↔
      InBounds m ⟨source, sourceOffset.toInt⟩ count.toNat ∧
        InBounds m ⟨target, targetOffset.toInt⟩ count.toNat) ∧
    (∀ m', slice source sourceOffset target targetOffset count m = .ok m' →
      Confined m m' ⟨target, targetOffset.toInt⟩ count.toNat) ∧
    (∀ m', memorySlice source sourceOffset target targetOffset count m = .ok m' ↔
      slice source sourceOffset target targetOffset count m = .ok m' ∧
        ¬ Overlap ⟨source, sourceOffset.toInt⟩ ⟨target, targetOffset.toInt⟩ count.toNat) ∧
    (∀ m', memoryResize source target count m = .ok m' ↔
      slice source 0 target 0 count m = .ok m' ∧ ¬ (source = target ∧ 0 < count.toNat)) ∧
    ∀ size : Int32,
      resize source target size m = slice source 0 target 0 (.ofNat size.toInt.toNat) m := by
  refine ⟨slice_returns_iff, fun m' => slice_confined, fun m' => memorySlice_eq_ok_iff_slice,
    fun m' => ?_, resize_eq_slice⟩
  have hoverlap : Overlap ⟨source, Int32.toInt 0⟩ ⟨target, Int32.toInt 0⟩ count.toNat ↔
      source = target ∧ 0 < count.toNat := by
    simp [Overlap]
  rw [memoryResize_eq, memorySlice_eq_ok_iff_slice, hoverlap]

end Spitfire.Utils
