import Spitfire.Conductor.Conversation
import Spitfire.Utils.Chunking
import Spitfire.Utils.CopyLoops

/-! Messages that are too large for one call. They are cut into chunks with the copy functions,
the chunks are sent one by one, and the handlers on the other side copy each payload behind
what has come before. -/
namespace Spitfire.Conductor
open Transition Buffer Utils

/-- Part `j` of a message. -/
def part (sizes : List Nat) (message : List UInt8) (j : Nat) : List UInt8 :=
  window message (offsetOf sizes j) (sizeAt sizes j)

/-- A handler copies what it is given to the end of what it has so far. -/
def receive (r : Nat × Memory Slot) (x : Utils.Method × ManagedArray) :
    Except MemoryFault (Nat × Memory Slot) := do
  let m := Function.update r.2 (.chunk 0) x.2
  let m ← x.1.exec (.chunk 0) 0 .assembled (.ofNat r.1) (.ofNat x.2.bytes.length) m
  return (r.1 + x.2.bytes.length, m)

theorem offsetOf_succ {sizes : List Nat} {j : Nat} (hj : j < sizes.length) :
    offsetOf sizes (j + 1) = offsetOf sizes j + sizeAt sizes j := by
  rw [offsetOf, offsetOf, List.sum_take_succ _ _ hj]
  simp [sizeAt, hj]

variable {sizes : List Nat} {message : List UInt8}

theorem length_part (hsum : sizes.sum = message.length) {j : Nat} (hj : j < sizes.length) :
    (part sizes message j).length = sizeAt sizes j := by
  refine length_window ?_
  rw [← hsum]
  exact offsetOf_add_le (sizeAt_eq hj)

/-- The first bytes are those of the message. -/
def Agreeing (message : List UInt8) (n : Nat) (m : Memory Slot) : Prop :=
  (m .assembled).bytes.length = message.length ∧
    ∀ i < n, (m .assembled).bytes[i]? = message[i]?

theorem receive_part (hsum : sizes.sum = message.length) {j : Nat} (hj : j < sizes.length)
    {m : Memory Slot} (h : Agreeing message (offsetOf sizes j) m) {x : Utils.Method × ManagedArray}
    (hx : x.2.bytes = part sizes message j) :
    ∃ m', receive (offsetOf sizes j, m) x = .ok (offsetOf sizes (j + 1), m') ∧
      Agreeing message (offsetOf sizes (j + 1)) m' := by
  obtain ⟨hlength, hagree⟩ := h
  have hle : offsetOf sizes j + sizeAt sizes j ≤ message.length := by
    rw [← hsum]
    exact offsetOf_add_le (sizeAt_eq hj)
  have hsize : x.2.bytes.length = sizeAt sizes j := by
    rw [hx, length_part hsum hj]
  have hcopy : x.1.exec (.chunk 0) 0 .assembled (.ofNat (offsetOf sizes j))
      (.ofNat x.2.bytes.length) (Function.update m (.chunk 0) x.2) =
      .ok (Function.update (Function.update m (.chunk 0) x.2) .assembled
        ((m .assembled).patch (offsetOf sizes j) (part sizes message j))) := by
    have hok := x.1.exec_ok (m := Function.update m (.chunk 0) x.2) (s := 0)
      (t := offsetOf sizes j) (n := x.2.bytes.length) (show Slot.chunk 0 ≠ .assembled by simp)
      (by simp) (by simpa [hsize, hlength] using hle)
    rw [Function.update_self, window_all rfl, Function.update_of_ne (by simp), hx] at hok
    rw [hx]
    exact hok
  have hreceive : receive (offsetOf sizes j, m) x = .ok (offsetOf sizes (j + 1),
      Function.update (Function.update m (.chunk 0) x.2) .assembled
        ((m .assembled).patch (offsetOf sizes j) (part sizes message j))) := by
    rw [receive, hcopy, offsetOf_succ hj, ← hsize]
    rfl
  refine ⟨_, hreceive, ?_, ?_⟩
  · rw [Function.update_self]
    exact (length_patch ..).trans hlength
  · intro i hi
    rw [Function.update_self]
    refine patch_window_agrees hlength hle ?_
    by_cases hlow : i < offsetOf sizes j
    · exact Or.inl (hagree i hlow)
    · rw [offsetOf_succ hj] at hi
      exact Or.inr ⟨Nat.le_of_not_lt hlow, hi⟩

/-- Parts in a row, from part `j` on. -/
theorem receive_parts (hsum : sizes.sum = message.length) {xs : List (Utils.Method × ManagedArray)}
    {j : Nat} (hle : j + xs.length ≤ sizes.length) {m : Memory Slot}
    (h : Agreeing message (offsetOf sizes j) m)
    (hxs : xs.map (fun x => x.2.bytes) = (List.range' j xs.length).map (part sizes message)) :
    ∃ m', xs.foldlM receive (offsetOf sizes j, m) = .ok (offsetOf sizes (j + xs.length), m') ∧
      Agreeing message (offsetOf sizes (j + xs.length)) m' := by
  induction xs generalizing j m with
  | nil => exact ⟨m, rfl, h⟩
  | cons x xs ih =>
    rw [List.length_cons] at hle hxs
    rw [List.map_cons, List.range'_succ, List.map_cons] at hxs
    obtain ⟨hx, hxs⟩ := List.cons.inj hxs
    obtain ⟨m₁, hreceive, h₁⟩ := receive_part hsum (by omega) h hx
    obtain ⟨m₂, hrest, h₂⟩ := ih (by omega) h₁ hxs
    have hlength : j + (x :: xs).length = j + 1 + xs.length := by
      rw [List.length_cons]
      omega
    rw [hlength, List.foldlM_cons, hreceive]
    exact ⟨m₂, hrest, h₂⟩

theorem Agreeing.eq {m : Memory Slot} {a : ManagedArray} (h : Agreeing a.bytes a.bytes.length m) :
    m .assembled = a := by
  apply ManagedArray.ext
  apply List.ext_getElem?
  intro i
  by_cases hi : i < a.bytes.length
  · exact h.2 i hi
  · rw [List.getElem?_eq_none (by rw [h.1]; omega), List.getElem?_eq_none (by omega)]

variable {M : Type} [DecidableEq M] {marshalling : Marshalling M} {policy : Policy Nat}
  {labelOf : Nat → Label} {nearView farView : Channel → ChannelView} {v : Conversation M}

/-- A beginning of the parts is a number of them. -/
theorem prefix_of_parts {ps : List (List UInt8)} {n : Nat}
    (h : ps <+: (List.range n).map (part sizes message)) :
    ps.length ≤ n ∧ ps = (List.range' 0 ps.length).map (part sizes message) := by
  have hle : ps.length ≤ n := by simpa using h.length_le
  refine ⟨hle, ?_⟩
  rw [← List.range_eq_range']
  conv_lhs => rw [List.prefix_iff_eq_take.mp h]
  rw [← List.map_take, List.take_range, Nat.min_eq_left hle]

/-- A message of any length is cut into chunks with any of the copy functions and its chunks
are sent in order on a channel that is ordered and reliable and takes them, while both sides do
whatever else they do. If marshalling loses no labels, the handlers can at every moment copy what
they have heard without leaving their array, it is then the beginning of the message, and the
message when all has arrived. -/
theorem large_message_arrives (hm : marshalling.Lossless) (sizes : List Nat)
    {m m₁ : Memory Slot} {cuts : List Transfer} (hdivides : Divides sizes m)
    (hcuts : Covers sizes cuts) (hcut : cuts.foldlM (cut sizes) m = .ok m₁)
    {steps : List (ConversationStep M)}
    (hrun : run (Conversation.next marshalling policy labelOf nearView farView) {} steps = some v)
    {c : Nat} (honly : ∀ c', cString (labelOf c') = cString (labelOf c) → c' = c)
    (hordered : policy.ordered c = true) (hreliable : policy.reliable c = true)
    (hsent : lane (labelOf c) v.taken <+:
      (List.range sizes.length).map fun j => ⟨(m₁ (.chunk j)).bytes, true⟩)
    (target : Memory Slot) (htarget : (target .assembled).bytes.length = (m .message).bytes.length)
    (xs : List (Utils.Method × ManagedArray))
    (hxs : xs.map (fun x => x.2.bytes) = (lane (marshalling.ofCString (labelOf c))
      (v.heard.filterMap Notice.read)).map DataBuffer.data) :
    ∃ n m₂, xs.foldlM receive (0, target) = .ok (n, m₂) ∧ Agreeing (m .message).bytes n m₂ ∧
      (xs.length = sizes.length → m₂ .assembled = m .message) := by
  obtain ⟨m', hcut', ⟨-, hmessage⟩, hfilled⟩ := cuts_fill hdivides hcuts
  obtain rfl := Except.ok.inj (hcut'.symm.trans hcut)
  have hchunks : ∀ j ∈ List.range sizes.length, (m' (.chunk j)).bytes =
      part sizes (m .message).bytes j := by
    intro j hj
    rw [hfilled j (List.mem_range.mp hj), hmessage]
    rfl
  have hheard : xs.map (fun x => x.2.bytes) <+:
      (List.range sizes.length).map (part sizes (m .message).bytes) := by
    have hwhole := ((corresponds_run hrun).conveyed hm honly).whole hordered hreliable
    have hbytes := (hwhole.trans hsent).map DataBuffer.data
    rw [List.map_map] at hbytes
    rw [hxs, ← List.map_congr_left hchunks]
    exact hbytes
  obtain ⟨hle, hparts⟩ := prefix_of_parts hheard
  rw [List.length_map] at hle hparts
  have hstart : Agreeing (m .message).bytes (offsetOf sizes 0) target := ⟨htarget, nofun⟩
  obtain ⟨m₂, hreceive, hagree⟩ :=
    receive_parts hdivides.sum (by rw [Nat.zero_add]; exact hle) hstart hparts
  refine ⟨_, m₂, hreceive, hagree, fun hall => Agreeing.eq ?_⟩
  rw [Nat.zero_add, hall, offsetOf, List.take_length, hdivides.sum] at hagree
  exact hagree

private def threeBytes : Memory Slot
  | .message => ⟨[7, 0, 9], by decide⟩
  | .chunk j => if j = 0 then ⟨[1, 1], by decide⟩ else ⟨[1], by decide⟩
  | .assembled => ⟨[1, 1, 1], by decide⟩

/-- Both chunks of a message have arrived; what was sent under a label without a channel has
not been sent. -/
private def inTwoChunks : List (ConversationStep (List UInt8)) :=
  [.near (.initializePeerConnection .succeeds []),
    .far (.initializePeerConnection .succeeds []),
    .near (.channel (.createDataChannel [97] {} (some ⟨0, [97]⟩))),
    .far (.channel (.handleDataChannel ⟨0, [97]⟩)),
    .send (.data [97] [7, 0]) true, .send (.text [98] [1]) true, .send (.data [97] [9]) true,
    .arrive 0, .arrive 0]

private def received : List (Utils.Method × ManagedArray) :=
  [(.slice, ⟨[7, 0], by decide⟩), (.memorySlice, ⟨[9], by decide⟩)]

theorem large_message_arrives_in_two : ∃ n m₂,
    received.foldlM receive (0, threeBytes) = .ok (n, m₂) ∧
      (m₂ .assembled).bytes = [7, 0, 9] := by
  obtain ⟨m₁, hcut, hchunks⟩ : ∃ m₁,
      [⟨1, .slice⟩, ⟨0, .memorySlice⟩].foldlM (cut [2, 1]) threeBytes = .ok m₁ ∧
        ((List.range 2).map fun j => (⟨(m₁ (.chunk j)).bytes, true⟩ : DataBuffer)) =
          [⟨[7, 0], true⟩, ⟨[9], true⟩] := ⟨_, rfl, by decide⟩
  obtain ⟨v, hrun, htaken, hheard⟩ : ∃ v, run (Conversation.next .verbatim
      ⟨fun _ => true, fun _ => true⟩ (fun c => if c = 0 then [97] else [98])
      (fun _ => .ofState .opened) (fun _ => .ofState .opened)) {} inTwoChunks = some v ∧
      lane [97] v.taken = [⟨[7, 0], true⟩, ⟨[9], true⟩] ∧
      lane [97] (v.heard.filterMap Notice.read) = [⟨[7, 0], true⟩, ⟨[9], true⟩] :=
    ⟨_, rfl, rfl, rfl⟩
  have honly : ∀ c', cString (if c' = 0 then [97] else [98]) = cString (if (0 : Nat) = 0 then
      [97] else [98]) → c' = 0 := by
    intro c' hc'
    by_contra hne
    simp [hne, cString] at hc'
  have hsent : lane [97] v.taken <+:
      (List.range 2).map fun j => (⟨(m₁ (.chunk j)).bytes, true⟩ : DataBuffer) :=
    ⟨[], (List.append_nil _).trans (htaken.trans hchunks.symm)⟩
  have hreceived : received.map (fun x => x.2.bytes) =
      (lane [97] (v.heard.filterMap Notice.read)).map DataBuffer.data := by
    rw [hheard]
    rfl
  obtain ⟨n, m₂, hreceive, -, hall⟩ := large_message_arrives Marshalling.verbatim_lossless [2, 1]
    (c := 0) ⟨rfl, by decide, rfl⟩ ⟨by decide, by decide⟩ hcut hrun honly rfl rfl hsent threeBytes
    rfl received hreceived
  exact ⟨n, m₂, hreceive, congrArg ManagedArray.bytes (hall rfl)⟩

end Spitfire.Conductor
