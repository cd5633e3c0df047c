import Mathlib.Logic.Function.Basic
import Spitfire.Buffer.Patch

/-! The copy functions for message buffers, over a memory of managed byte arrays that are
reached through unchecked pointers. -/
namespace Spitfire.Utils
open Buffer

/-- A `byte[]`. Its length fits the runtime's `int`. -/
@[ext]
structure ManagedArray where
  bytes : List UInt8
  length_lt : bytes.length < 2 ^ 31
  deriving DecidableEq, Repr

namespace ManagedArray

def set (a : ManagedArray) (i : Nat) (b : UInt8) : ManagedArray :=
  ⟨a.bytes.set i b, by simpa using a.length_lt⟩

def patch (a : ManagedArray) (off : Nat) (bs : List UInt8) : ManagedArray :=
  ⟨Buffer.patch a.bytes off bs, by simpa using a.length_lt⟩

end ManagedArray

/-- The arrays by reference. Two references may be the same array. -/
abbrev Memory (ρ : Type) := ρ → ManagedArray

/-- A `byte*` into a pinned array. -/
structure Pointer (ρ : Type) where
  array : ρ
  offset : Int
  deriving DecidableEq, Repr

def Pointer.add {ρ : Type} (p : Pointer ρ) (n : Int) : Pointer ρ := { p with offset := p.offset + n }

/-- What the runtime does not define. -/
inductive MemoryFault where
  | outOfBounds
  | overlap
  deriving DecidableEq, Repr

variable {ρ : Type}

/-- The `n` bytes from `p` on lie inside the array. -/
def InBounds (m : Memory ρ) (p : Pointer ρ) (n : Nat) : Prop :=
  n = 0 ∨ 0 ≤ p.offset ∧ p.offset + n ≤ (m p.array).bytes.length

instance (m : Memory ρ) (p : Pointer ρ) (n : Nat) : Decidable (InBounds m p n) :=
  inferInstanceAs (Decidable (_ ∨ _ ∧ _))

/-- `*p` -/
def load (m : Memory ρ) (p : Pointer ρ) : Except MemoryFault UInt8 :=
  if 0 ≤ p.offset then
    match (m p.array).bytes[p.offset.toNat]? with
    | some b => .ok b
    | none => .error .outOfBounds
  else .error .outOfBounds

theorem load_ok {m : Memory ρ} {source : ρ} {off : Nat} {b : UInt8}
    (h : (m source).bytes[off]? = some b) : load m ⟨source, off⟩ = .ok b := by
  simp [load, h]

theorem inBounds_of_le {m : Memory ρ} {r : ρ} {off n : Nat}
    (h : off + n ≤ (m r).bytes.length) : InBounds m ⟨r, off⟩ n := by
  have hend : (off : Int) + n ≤ (m r).bytes.length := by omega
  exact Or.inr ⟨Int.natCast_nonneg off, hend⟩

variable [DecidableEq ρ]

/-- `*p = b` -/
def store (m : Memory ρ) (p : Pointer ρ) (b : UInt8) : Except MemoryFault (Memory ρ) :=
  if InBounds m p 1 then
    .ok (Function.update m p.array ((m p.array).set p.offset.toNat b))
  else .error .outOfBounds

/-- `for (var i = 0; i < count; i++)` with its counter at `i`. The counter wraps around; it
is compared with a bound of another type as a wider number. No run of the loop stores more
bytes than the target has, so the first argument does not run out before the loop ends or
leaves the target. -/
def copyLoop (count : Int) : Nat → Int32 → Pointer ρ → Pointer ρ → Memory ρ →
    Except MemoryFault (Memory ρ)
  | 0, _, _, _, _ => .error .outOfBounds
  | fuel + 1, i, ps, pt, m =>
    if i.toInt < count then do
      let b ← load m ps
      let m ← store m pt b
      copyLoop count fuel (i + 1) (ps.add 1) (pt.add 1) m
    else .ok m

/-- `Native.Copy`, the block copy of the runtime: defined for ranges that lie inside their
arrays and do not overlap. -/
def Native.copy (des src : Pointer ρ) (bytes : UInt32) (m : Memory ρ) :
    Except MemoryFault (Memory ρ) :=
  let n := bytes.toNat
  if InBounds m src n ∧ InBounds m des n then
    if src.array = des.array ∧ src.offset < des.offset + n ∧ des.offset < src.offset + n then
      .error .overlap
    else
      .ok (Function.update m des.array ((m des.array).patch des.offset.toNat
        (window (m src.array).bytes src.offset.toNat n)))
  else .error .outOfBounds

def memoryResize (source target : ρ) (count : UInt32) (m : Memory ρ) :
    Except MemoryFault (Memory ρ) :=
  Native.copy ⟨target, 0⟩ ⟨source, 0⟩ count m

def memorySlice (source : ρ) (sourceOffset : Int32) (target : ρ) (targetOffset : Int32)
    (count : UInt32) (m : Memory ρ) : Except MemoryFault (Memory ρ) :=
  Native.copy ⟨target, targetOffset.toInt⟩ ⟨source, sourceOffset.toInt⟩ count m

def resize (source target : ρ) (count : Int32) (m : Memory ρ) : Except MemoryFault (Memory ρ) :=
  copyLoop count.toInt ((m target).bytes.length + 1) 0 ⟨source, 0⟩ ⟨target, 0⟩ m

def slice (source : ρ) (sourceOffset : Int32) (target : ρ) (targetOffset : Int32)
    (count : UInt32) (m : Memory ρ) : Except MemoryFault (Memory ρ) :=
  copyLoop count.toNat ((m target).bytes.length + 1) 0 ⟨source, sourceOffset.toInt⟩
    ⟨target, targetOffset.toInt⟩ m

variable {m : Memory ρ} {source target : ρ}

theorem store_ok {off : Nat} (h : off < (m target).bytes.length) (b : UInt8) :
    store m ⟨target, off⟩ b = .ok (Function.update m target ((m target).set off b)) := by
  rw [store, if_pos (inBounds_of_le h)]
  rfl

/-- Storing a byte leaves every array as long as it was. -/
theorem length_update_set (m : Memory ρ) (target : ρ) (off : Nat) (b : UInt8) (r : ρ) :
    (Function.update m target ((m target).set off b) r).bytes.length = (m r).bytes.length := by
  by_cases hr : r = target
  · subst hr
    rw [Function.update_self]
    exact List.length_set
  · rw [Function.update_of_ne hr]

theorem store_eq_ok {p : Pointer ρ} {b : UInt8} {m' : Memory ρ} (h : store m p b = .ok m') :
    InBounds m p 1 ∧ ∀ r, (m' r).bytes.length = (m r).bytes.length := by
  unfold store at h
  split at h
  · rename_i hin
    cases h
    exact ⟨hin, fun r => length_update_set m p.array _ b r⟩
  · cases h

/-- More fuel than the target has bytes to store to makes no difference. -/
theorem copyLoop_fuel {count : Int} {fuel : Nat} {i : Int32} {ps pt : Pointer ρ} {m : Memory ρ}
    (hpos : 0 < fuel) (h : (m pt.array).bytes.length < pt.offset + fuel) :
    copyLoop count (fuel + 1) i ps pt m = copyLoop count fuel i ps pt m := by
  induction fuel generalizing i ps pt m with
  | zero => cases hpos
  | succ fuel ih =>
    rw [copyLoop, copyLoop]
    split
    · cases load m ps with
      | error f => rfl
      | ok b =>
        dsimp only [bind, Except.bind]
        cases hstore : store m pt b with
        | error f => rfl
        | ok m' =>
          obtain ⟨hin, hlength⟩ := store_eq_ok hstore
          rcases hin with hin | ⟨hlow, hhigh⟩
          · cases hin
          · refine ih (by omega) ?_
            change ((m' pt.array).bytes.length : Int) < pt.offset + 1 + fuel
            rw [hlength]
            omega
    · rfl

/-- The counter does not wrap around below the length of an array. -/
theorem toInt_succ {i : Int32} {k : Nat} (hi : i.toInt = k) (hk : k + 1 < 2 ^ 31) :
    (i + 1).toInt = (k + 1 : Nat) := by
  rw [Int32.toInt_add, hi]
  exact Int.bmod_eq_of_le (by simp; omega) (by simp; omega)

@[simp] theorem patch_window_zero (a : ManagedArray) (off : Nat) (bs : List UInt8) (start : Nat) :
    a.patch off (window bs start 0) = a := by
  simp [ManagedArray.patch, window]

/-- One byte is stored and then the rest of the block. -/
theorem set_patch (a : ManagedArray) (off : Nat) (b : UInt8) (bs : List UInt8) :
    (a.set off b).patch (off + 1) bs = a.patch off (b :: bs) := by
  simp [ManagedArray.set, ManagedArray.patch, patch_set]

/-- One iteration inside the bounds of both arrays. -/
theorem copyLoop_step {count : Int} {fuel s t : Nat} {i : Int32} {b : UInt8}
    (hlt : i.toInt < count) (hb : (m source).bytes[s]? = some b)
    (ht : t < (m target).bytes.length) :
    copyLoop count (fuel + 1) i ⟨source, s⟩ ⟨target, t⟩ m =
      copyLoop count fuel (i + 1) ⟨source, (s + 1 : Nat)⟩ ⟨target, (t + 1 : Nat)⟩
        (Function.update m target ((m target).set t b)) := by
  rw [copyLoop, if_pos hlt, load_ok hb]
  change (do
    let m ← store m ⟨target, t⟩ b
    copyLoop count fuel (i + 1) ⟨source, (s + 1 : Nat)⟩ ⟨target, (t + 1 : Nat)⟩ m) = _
  rw [store_ok ht]
  rfl

/-- Between different arrays the loop copies the rest of its block. -/
theorem copyLoop_copies (hne : source ≠ target) {k n fuel s t : Nat} {i : Int32} {m : Memory ρ}
    (hi : i.toInt = k) (hk : k + n < 2 ^ 31) (hfuel : n < fuel)
    (hs : s + n ≤ (m source).bytes.length) (ht : t + n ≤ (m target).bytes.length) :
    copyLoop (k + n : Nat) fuel i ⟨source, s⟩ ⟨target, t⟩ m =
      .ok (Function.update m target ((m target).patch t (window (m source).bytes s n))) := by
  induction n generalizing k fuel s t i m with
  | zero =>
    obtain ⟨fuel, rfl⟩ := Nat.exists_eq_add_of_lt hfuel
    simp [copyLoop, hi]
  | succ n ih =>
    cases fuel with
    | zero => cases hfuel
    | succ fuel =>
      have hbyte : (m source).bytes[s]? = some (m source).bytes[s] :=
        List.getElem?_eq_getElem (by omega)
      have hlt : i.toInt < ((k + (n + 1) : Nat) : Int) := by omega
      -- The byte that is stored is not one that is still to be read.
      have hsource : Function.update m target ((m target).set t (m source).bytes[s]) source =
          m source := Function.update_of_ne hne _ _
      have htarget : Function.update m target ((m target).set t (m source).bytes[s]) target =
          (m target).set t (m source).bytes[s] := Function.update_self ..
      have hlength := length_update_set m target t (m source).bytes[s]
      have hrest : copyLoop (k + 1 + n : Nat) fuel (i + 1) ⟨source, (s + 1 : Nat)⟩
          ⟨target, (t + 1 : Nat)⟩
          (Function.update m target ((m target).set t (m source).bytes[s])) = _ :=
        ih (toInt_succ hi (by omega)) (by omega) (by omega) (by rw [hlength]; omega)
          (by rw [hlength]; omega)
      rw [hsource, htarget, set_patch, ← window_succ hbyte, Function.update_idem] at hrest
      rw [copyLoop_step hlt hbyte (by omega), show k + (n + 1) = k + 1 + n by omega]
      exact hrest

/-- The loop of `Slice` inside the bounds of its arrays. -/
theorem slice_eq_copyLoop {s t n : Nat} (hs : s + n ≤ (m source).bytes.length)
    (ht : t + n ≤ (m target).bytes.length) :
    slice source (.ofNat s) target (.ofNat t) (.ofNat n) m =
      copyLoop (0 + n : Nat) ((m target).bytes.length + 1) 0 ⟨source, s⟩ ⟨target, t⟩ m := by
  have hsource := (m source).length_lt
  have htarget := (m target).length_lt
  have hcount : (UInt32.ofNat n).toNat = 0 + n := by
    rw [UInt32.toNat_ofNat_of_lt' (by simp [UInt32.size]; omega), Nat.zero_add]
  rw [slice, hcount, Int32.toInt_ofNat_of_lt (by omega), Int32.toInt_ofNat_of_lt (by omega)]

/-- Between different arrays and inside their bounds, `Slice` copies its block. -/
theorem slice_ok (hne : source ≠ target) {s t n : Nat} (hs : s + n ≤ (m source).bytes.length)
    (ht : t + n ≤ (m target).bytes.length) :
    slice source (.ofNat s) target (.ofNat t) (.ofNat n) m =
      .ok (Function.update m target ((m target).patch t (window (m source).bytes s n))) := by
  have htarget := (m target).length_lt
  rw [slice_eq_copyLoop hs ht]
  exact copyLoop_copies hne rfl (by omega) (by omega) hs ht

/-- So does `MemorySlice`. -/
theorem memorySlice_ok (hne : source ≠ target) {s t n : Nat} (hs : s + n ≤ (m source).bytes.length)
    (ht : t + n ≤ (m target).bytes.length) :
    memorySlice source (.ofNat s) target (.ofNat t) (.ofNat n) m =
      .ok (Function.update m target ((m target).patch t (window (m source).bytes s n))) := by
  have hsource := (m source).length_lt
  have htarget := (m target).length_lt
  have hcount : (UInt32.ofNat n).toNat = n :=
    UInt32.toNat_ofNat_of_lt' (by simp [UInt32.size]; omega)
  rw [memorySlice, Native.copy, hcount, Int32.toInt_ofNat_of_lt (by omega),
    Int32.toInt_ofNat_of_lt (by omega)]
  dsimp only
  rw [if_pos ⟨inBounds_of_le hs, inBounds_of_le ht⟩, if_neg fun h => hne h.1]
  rfl

/-- The two resizes are slices from the start of both arrays. -/
theorem memoryResize_eq (count : UInt32) :
    memoryResize source target count m = memorySlice source 0 target 0 count m := rfl

theorem resize_eq {n : Nat} (hn : n < 2 ^ 31) :
    resize source target (.ofNat n) m = slice source 0 target 0 (.ofNat n) m := by
  have hcount : (UInt32.ofNat n).toNat = n :=
    UInt32.toNat_ofNat_of_lt' (by simp [UInt32.size]; omega)
  rw [resize, slice, hcount, Int32.toInt_ofNat_of_lt hn]
  rfl

/-- Only `Resize` takes a count that can be negative, and then it copies nothing. -/
theorem resize_nonpos {count : Int32} (hcount : count.toInt ≤ 0) :
    resize source target count m = .ok m := by
  have hdone : ¬ Int32.toInt 0 < count.toInt := Int.not_lt.mpr hcount
  rw [resize, copyLoop, if_neg hdone]

end Spitfire.Utils
