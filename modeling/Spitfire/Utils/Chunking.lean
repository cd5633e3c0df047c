import Spitfire.Transition.Fallible
import Spitfire.Utils.DataChannelUtils

/-! Messages cut into chunks and put together again, with either of the two copy functions
for every chunk and in any order. -/
namespace Spitfire.Utils
open Buffer Transition

/-- The arrays of a transfer: the message, the chunks, and what is put together from them. -/
inductive Slot where
  | message
  | chunk (j : Nat)
  | assembled
  deriving DecidableEq, Repr

inductive Method where
  | slice | memorySlice
  deriving DecidableEq, Repr

def Method.exec (how : Method) (source : Slot) (sourceOffset : Int32) (target : Slot)
    (targetOffset : Int32) (count : UInt32) (m : Memory Slot) : Except MemoryFault (Memory Slot) :=
  match how with
  | .slice => Utils.slice source sourceOffset target targetOffset count m
  | .memorySlice => Utils.memorySlice source sourceOffset target targetOffset count m

/-- A copy of one chunk, out of the message or back. -/
structure Transfer where
  chunk : Nat
  how : Method
  deriving DecidableEq, Repr

section
variable (sizes : List Nat)

/-- The size of a chunk. -/
def sizeAt (j : Nat) : Nat := sizes.getD j 0

/-- A chunk is copied out of the message into its own array. -/
def cut (m : Memory Slot) (c : Transfer) : Except MemoryFault (Memory Slot) :=
  c.how.exec .message (.ofNat (offsetOf sizes c.chunk)) (.chunk c.chunk) 0
    (.ofNat (sizeAt sizes c.chunk)) m

/-- A chunk is copied to its place. -/
def putBack (m : Memory Slot) (c : Transfer) : Except MemoryFault (Memory Slot) :=
  c.how.exec (.chunk c.chunk) 0 .assembled (.ofNat (offsetOf sizes c.chunk))
    (.ofNat (sizeAt sizes c.chunk)) m

/-- All the cuts and then all the copies back. -/
def transfer (cuts writes : List Transfer) (m : Memory Slot) : Except MemoryFault (Memory Slot) := do
  let m ← cuts.foldlM (cut sizes) m
  writes.foldlM (putBack sizes) m

/-- The copies are of chunks that there are, and of each of them at least one. -/
structure Covers (copies : List Transfer) : Prop where
  only : ∀ c ∈ copies, c.chunk < sizes.length
  every : ∀ j < sizes.length, ∃ c ∈ copies, c.chunk = j

/-- The arrays have the sizes for which the message was divided: those of the chunks add up
to the length of the message. -/
structure Divides (m : Memory Slot) : Prop where
  sum : sizes.sum = (m .message).bytes.length
  chunk : ∀ j < sizes.length, (m (.chunk j)).bytes.length = sizeAt sizes j
  assembled : (m .assembled).bytes.length = (m .message).bytes.length

end

variable {sizes : List Nat} {m : Memory Slot}

theorem Method.exec_ok (how : Method) {source target : Slot} (hne : source ≠ target) {s t n : Nat}
    (hs : s + n ≤ (m source).bytes.length) (ht : t + n ≤ (m target).bytes.length) :
    how.exec source (.ofNat s) target (.ofNat t) (.ofNat n) m =
      .ok (Function.update m target ((m target).patch t (window (m source).bytes s n))) := by
  cases how with
  | slice => exact slice_ok hne hs ht
  | memorySlice => exact memorySlice_ok hne hs ht

theorem sizeAt_eq {j : Nat} (hj : j < sizes.length) : sizes[j]? = some (sizeAt sizes j) := by
  simp [sizeAt, hj]

/-- A chunk lies inside the message. -/
theorem Divides.chunk_le (h : Divides sizes m) {j : Nat} (hj : j < sizes.length) :
    offsetOf sizes j + sizeAt sizes j ≤ (m .message).bytes.length := by
  rw [← h.sum]
  exact offsetOf_add_le (sizeAt_eq hj)

/-- The array of the chunk holds its part of the message. -/
def Filled (sizes : List Nat) (m : Memory Slot) (j : Nat) : Prop :=
  (m (.chunk j)).bytes = window (m .message).bytes (offsetOf sizes j) (sizeAt sizes j)

/-- The chunk is in its place. -/
def InPlace (sizes : List Nat) (m : Memory Slot) (j : Nat) : Prop :=
  ∀ i, offsetOf sizes j ≤ i → i < offsetOf sizes j + sizeAt sizes j →
    (m .assembled).bytes[i]? = (m .message).bytes[i]?

/-- A cut fills its chunk and leaves the message and the other chunks alone. -/
theorem cut_fills (h : Divides sizes m) {c : Transfer} (hc : c.chunk < sizes.length) :
    ∃ m', cut sizes m c = .ok m' ∧ (Divides sizes m' ∧ m' .message = m .message) ∧
      Filled sizes m' c.chunk ∧ ∀ j, Filled sizes m j → Filled sizes m' j := by
  have hle := h.chunk_le hc
  have hsize := h.chunk c.chunk hc
  have hcut : cut sizes m c = .ok (Function.update m (.chunk c.chunk)
      ((m (.chunk c.chunk)).patch 0
        (window (m .message).bytes (offsetOf sizes c.chunk) (sizeAt sizes c.chunk)))) :=
    c.how.exec_ok (by simp) hle (by simpa using Nat.le_of_eq hsize.symm)
  have hbytes : ((m (.chunk c.chunk)).patch 0
      (window (m .message).bytes (offsetOf sizes c.chunk) (sizeAt sizes c.chunk))).bytes =
        window (m .message).bytes (offsetOf sizes c.chunk) (sizeAt sizes c.chunk) :=
    patch_all ((length_window hle).trans hsize.symm)
  refine ⟨_, hcut, ⟨⟨h.sum, ?_, h.assembled⟩, rfl⟩, ?_, ?_⟩
  · intro j hj
    by_cases hjc : j = c.chunk
    · subst hjc
      rw [Function.update_self, hbytes, length_window hle]
    · rw [Function.update_of_ne (by simpa using hjc)]
      exact h.chunk j hj
  · rw [Filled, Function.update_self, hbytes]
    rfl
  · intro j hj
    by_cases hjc : j = c.chunk
    · subst hjc
      rw [Filled, Function.update_self, hbytes]
      rfl
    · rw [Filled, Function.update_of_ne (by simpa using hjc)]
      exact hj

/-- A filled chunk is put in its place, and chunks that are in theirs stay there. -/
theorem putBack_places (h : Divides sizes m) {c : Transfer} (hc : c.chunk < sizes.length)
    (hfilled : Filled sizes m c.chunk) :
    ∃ m', putBack sizes m c = .ok m' ∧ (∀ r ≠ .assembled, m' r = m r) ∧ Divides sizes m' ∧
      InPlace sizes m' c.chunk ∧ ∀ j, InPlace sizes m j → InPlace sizes m' j := by
  have hle := h.chunk_le hc
  have hsize := h.chunk c.chunk hc
  have hput : putBack sizes m c = .ok (Function.update m .assembled
      ((m .assembled).patch (offsetOf sizes c.chunk)
        (window (m (.chunk c.chunk)).bytes 0 (sizeAt sizes c.chunk)))) :=
    c.how.exec_ok (by simp) (by simpa using Nat.le_of_eq hsize.symm) (by rw [h.assembled]; exact hle)
  rw [window_all hsize, hfilled] at hput
  have hagrees {i : Nat} (hi : (m .assembled).bytes[i]? = (m .message).bytes[i]? ∨
      offsetOf sizes c.chunk ≤ i ∧ i < offsetOf sizes c.chunk + sizeAt sizes c.chunk) :
      (patch (m .assembled).bytes (offsetOf sizes c.chunk) (window (m .message).bytes
        (offsetOf sizes c.chunk) (sizeAt sizes c.chunk)))[i]? = (m .message).bytes[i]? :=
    patch_window_agrees h.assembled hle hi
  refine ⟨_, hput, fun r hr => Function.update_of_ne hr _ _, ⟨h.sum, h.chunk, ?_⟩, ?_, ?_⟩
  · rw [Function.update_self]
    exact (length_patch ..).trans h.assembled
  · intro i hi hi'
    rw [Function.update_self]
    exact hagrees (Or.inr ⟨hi, hi'⟩)
  · intro j hj i hi hi'
    rw [Function.update_self]
    exact hagrees (Or.inl (hj i hi hi'))

/-- After the cuts every chunk is filled. -/
theorem cuts_fill (h : Divides sizes m) {cuts : List Transfer} (hcuts : Covers sizes cuts) :
    ∃ m', cuts.foldlM (cut sizes) m = .ok m' ∧ (Divides sizes m' ∧ m' .message = m .message) ∧
      ∀ j < sizes.length, Filled sizes m' j := by
  obtain ⟨m', hrun, hkept, hfilled, -⟩ :
      ∃ m', cuts.foldlM (cut sizes) m = .ok m' ∧ (Divides sizes m' ∧ m' .message = m .message) ∧
        (∀ c ∈ cuts, Filled sizes m' c.chunk) ∧ _ := by
    refine foldlM_collects (I := fun m' => Divides sizes m' ∧ m' .message = m .message)
      (D := fun m' (c : Transfer) => Filled sizes m' c.chunk) ?_ ⟨h, rfl⟩
    rintro c hc m₁ ⟨h₁, hmessage₁⟩
    obtain ⟨m₂, hcut, ⟨h₂, hmessage₂⟩, hfilled, hothers⟩ := cut_fills h₁ (hcuts.only c hc)
    exact ⟨m₂, hcut, ⟨h₂, hmessage₂.trans hmessage₁⟩, hfilled, fun d => hothers d.chunk⟩
  refine ⟨m', hrun, hkept, ?_⟩
  intro j hj
  obtain ⟨c, hc, rfl⟩ := hcuts.every j hj
  exact hfilled c hc

/-- After the copies back every chunk is in its place. -/
theorem writes_place (h : Divides sizes m) (hfilled : ∀ j < sizes.length, Filled sizes m j)
    {writes : List Transfer} (hwrites : Covers sizes writes) :
    ∃ m', writes.foldlM (putBack sizes) m = .ok m' ∧
      (Divides sizes m' ∧ ∀ r ≠ .assembled, m' r = m r) ∧
      ∀ j < sizes.length, InPlace sizes m' j := by
  obtain ⟨m', hrun, hkept, hplaced, -⟩ :
      ∃ m', writes.foldlM (putBack sizes) m = .ok m' ∧
        (Divides sizes m' ∧ ∀ r ≠ .assembled, m' r = m r) ∧
        (∀ c ∈ writes, InPlace sizes m' c.chunk) ∧ _ := by
    refine foldlM_collects (I := fun m' => Divides sizes m' ∧ ∀ r ≠ .assembled, m' r = m r)
      (D := fun m' (c : Transfer) => InPlace sizes m' c.chunk) ?_ ⟨h, fun _ _ => rfl⟩
    rintro c hc m₁ ⟨h₁, hsame₁⟩
    have hfilled₁ : Filled sizes m₁ c.chunk := by
      rw [Filled, hsame₁ _ (by simp), hsame₁ _ (by simp)]
      exact hfilled c.chunk (hwrites.only c hc)
    obtain ⟨m₂, hput, hsame₂, h₂, hplaced, hothers⟩ :=
      putBack_places h₁ (hwrites.only c hc) hfilled₁
    exact ⟨m₂, hput, ⟨h₂, fun r hr => (hsame₂ r hr).trans (hsame₁ r hr)⟩, hplaced,
      fun d => hothers d.chunk⟩
  refine ⟨m', hrun, hkept, ?_⟩
  intro j hj
  obtain ⟨c, hc, rfl⟩ := hwrites.every j hj
  exact hplaced c hc

/-- However a message is divided, whichever function makes each copy and in whatever order
the copies are made: what is put together is the message. -/
theorem chunking_lossless (hdivides : Divides sizes m) {cuts writes : List Transfer}
    (hcuts : Covers sizes cuts) (hwrites : Covers sizes writes) :
    ∃ m', transfer sizes cuts writes m = .ok m' ∧ m' .assembled = m .message := by
  obtain ⟨m₁, hrun₁, ⟨h₁, hmessage₁⟩, hfilled⟩ := cuts_fill hdivides hcuts
  obtain ⟨m₂, hrun₂, ⟨h₂, hsame⟩, hplaced⟩ := writes_place h₁ hfilled hwrites
  have hmessage₂ : m₂ .message = m .message := (hsame _ (by simp)).trans hmessage₁
  refine ⟨m₂, ?_, ?_⟩
  · rw [transfer, hrun₁]
    exact hrun₂
  · have hbytes : (m₂ .assembled).bytes = (m₂ .message).bytes := by
      apply List.ext_getElem?
      intro i
      by_cases hi : i < sizes.sum
      · obtain ⟨j, n, hj, hle, hlt⟩ := exists_part hi
        obtain ⟨hj', rfl⟩ := List.getElem?_eq_some_iff.mp hj
        refine hplaced j hj' i hle ?_
        simpa [sizeAt, hj'] using hlt
      · have hsum := h₂.sum
        have hlength := h₂.assembled
        rw [List.getElem?_eq_none (by omega), List.getElem?_eq_none (by omega)]
    rw [← hmessage₂]
    cases hassembled : m₂ .assembled
    cases hmessage : m₂ .message
    simpa [hassembled, hmessage] using hbytes

private def fiveBytes : Memory Slot
  | .message => ⟨[1, 2, 3, 4, 5], by decide⟩
  | .chunk 2 => ⟨[0], by decide⟩
  | .chunk _ => ⟨[0, 0], by decide⟩
  | .assembled => ⟨[0, 0, 0, 0, 0], by decide⟩

/-- Five bytes in chunks of two, put back out of order and one of them twice. -/
theorem chunking_lossless_five : ∃ m',
    transfer [2, 2, 1] [⟨0, .slice⟩, ⟨1, .memorySlice⟩, ⟨2, .slice⟩]
      [⟨2, .memorySlice⟩, ⟨0, .slice⟩, ⟨1, .slice⟩, ⟨0, .memorySlice⟩] fiveBytes = .ok m' ∧
      (m' .assembled).bytes = [1, 2, 3, 4, 5] := by
  have hdivides : Divides [2, 2, 1] fiveBytes := ⟨rfl, by decide, rfl⟩
  have hcuts : Covers [2, 2, 1] [⟨0, .slice⟩, ⟨1, .memorySlice⟩, ⟨2, .slice⟩] :=
    ⟨by decide, by decide⟩
  have hwrites : Covers [2, 2, 1]
      [⟨2, .memorySlice⟩, ⟨0, .slice⟩, ⟨1, .slice⟩, ⟨0, .memorySlice⟩] := ⟨by decide, by decide⟩
  obtain ⟨m', hrun, hassembled⟩ := chunking_lossless hdivides hcuts hwrites
  exact ⟨m', hrun, congrArg ManagedArray.bytes hassembled⟩

end Spitfire.Utils
