import Spitfire.Ice.Parser
import Spitfire.Regex.Language

/-! The text a match of the master expression consumes, field by field, and what its
groups capture. A line is a way through the expression, whichever way is tried first. -/
namespace Spitfire.Ice
open Regex Pattern

/-- A field value with the blank that ends it. -/
@[ext]
structure Field where
  value : Text
  blank : CodeUnit

/-- An attribute value with the blanks before and after the attribute's name. -/
@[ext]
structure Attribute where
  before : CodeUnit
  between : CodeUnit
  value : Text

structure Line where
  start : Text
  foundation : Field
  componentId : Field
  transport : Field
  priority : Field
  address : Field
  port : Field
  typBlank : CodeUnit
  type : Text
  remote : Option (Attribute × Attribute)
  generation : Option Attribute
  ufrag : Option Attribute
  networkId : Option Attribute
  networkCost : Option Attribute

def Field.Fits (f : Field) (r : Pattern CodeUnit) : Prop :=
  f.value ∈ r.language ∧ isWhiteSpace f.blank = true

def Attribute.Fits (a : Attribute) (r : Pattern CodeUnit) : Prop :=
  isWhiteSpace a.before = true ∧ isWhiteSpace a.between = true ∧ a.value ∈ r.language

def generationRegex : Pattern CodeUnit := .setLoop isDecimalDigit 1 none

structure Line.WellFormed (l : Line) : Prop where
  start : l.start = text "a=" ∨ l.start = []
  foundation : l.foundation.Fits iceRegex
  componentId : l.componentId.Fits componentIdRegex
  transport : l.transport.Fits tokenRegex
  priority : l.priority.Fits priorityRegex
  address : l.address.Fits connectAddressRegex
  port : l.port.Fits portRegex
  typBlank : isWhiteSpace l.typBlank = true
  type : l.type ∈ tokenRegex.language
  remote : ∀ p ∈ l.remote, p.1.Fits connectAddressRegex ∧ p.2.Fits portRegex
  generation : ∀ a ∈ l.generation, a.Fits generationRegex
  ufrag : ∀ a ∈ l.ufrag, a.Fits iceRegex
  networkId : ∀ a ∈ l.networkId, a.Fits priorityRegex
  networkCost : ∀ a ∈ l.networkCost, a.Fits priorityRegex

def Field.write (f : Field) (rest : Text) : Text := f.value ++ f.blank :: rest

def Attribute.write (a : Attribute) (name : String) (rest : Text) : Text :=
  a.before :: (text name ++ a.between :: (a.value ++ rest))

def writeOption (name : String) (o : Option Attribute) (rest : Text) : Text :=
  match o with
  | none => rest
  | some a => a.write name rest

def writeRemote (o : Option (Attribute × Attribute)) (rest : Text) : Text :=
  match o with
  | none => rest
  | some p => p.1.write "raddr" (p.2.write "rport" rest)

namespace Line
variable (l : Line) (t : Text)

def afterNetworkId : Text := writeOption "network-cost" l.networkCost t
def afterUfrag : Text := writeOption "network-id" l.networkId (l.afterNetworkId t)
def afterGeneration : Text := writeOption "ufrag" l.ufrag (l.afterUfrag t)
def afterRemote : Text := writeOption "generation" l.generation (l.afterGeneration t)
def afterType : Text := writeRemote l.remote (l.afterRemote t)

def fromType : Text := l.type ++ l.afterType t
def fromTyp : Text := text "typ" ++ l.typBlank :: l.fromType t
def fromPort : Text := l.port.write (l.fromTyp t)
def fromAddress : Text := l.address.write (l.fromPort t)
def fromPriority : Text := l.priority.write (l.fromAddress t)
def fromTransport : Text := l.transport.write (l.fromPriority t)
def fromComponentId : Text := l.componentId.write (l.fromTransport t)
def write : Text := l.start ++ (text "candidate:" ++ l.foundation.write (l.fromComponentId t))

/-- Every group of the match with the input that follows it. -/
def groups : Groups CodeUnit
  | 0 => some ⟨l.write [], t⟩
  | 1 => some ⟨l.foundation.value, l.foundation.blank :: l.fromComponentId t⟩
  | 2 => some ⟨l.componentId.value, l.componentId.blank :: l.fromTransport t⟩
  | 3 => some ⟨l.transport.value, l.transport.blank :: l.fromPriority t⟩
  | 4 => some ⟨l.priority.value, l.priority.blank :: l.fromAddress t⟩
  | 5 => some ⟨l.address.value, l.address.blank :: l.fromPort t⟩
  | 6 => some ⟨l.port.value, l.port.blank :: l.fromTyp t⟩
  | 7 => some ⟨l.type, l.afterType t⟩
  | 8 => l.remote.map fun p => ⟨p.1.value, p.2.write "rport" (l.afterRemote t)⟩
  | 9 => l.remote.map fun p => ⟨p.2.value, l.afterRemote t⟩
  | 10 => l.generation.map fun a => ⟨a.value, l.afterGeneration t⟩
  | 11 => l.ufrag.map fun a => ⟨a.value, l.afterUfrag t⟩
  | 12 => l.networkId.map fun a => ⟨a.value, l.afterNetworkId t⟩
  | 13 => l.networkCost.map fun a => ⟨a.value, t⟩
  | _ => none

end Line

/-- Set a group unless it took no part. -/
def setOption (g : Groups CodeUnit) (n : Nat) (o : Option (Capture CodeUnit)) : Groups CodeUnit :=
  match o with
  | none => g
  | some c => Function.update g n (some c)

theorem setOption_apply (g : Groups CodeUnit) (n m : Nat) (o : Option (Capture CodeUnit)) :
    setOption g n o m = if m = n then o.or (g n) else g m := by
  cases o with
  | none => by_cases h : m = n <;> simp [setOption, h]
  | some c => simp [setOption, Function.update_apply]

theorem mem_paths_space {rs : List (Pattern CodeUnit)} {g : Groups CodeUnit} {s : Text}
    {x : Groups CodeUnit × Text} :
    x ∈ paths (seqs (space :: rs)) g s ↔
      ∃ b s', isWhiteSpace b = true ∧ s = b :: s' ∧ x ∈ paths (seqs rs) g s' := by
  rw [mem_paths_seqs_cons]
  constructor
  · rintro ⟨y, hy, hx⟩
    obtain ⟨hg, _, ⟨b, hb, rfl⟩, rfl⟩ := (mem_paths_of_captureFree rfl).mp hy
    exact ⟨b, y.2, hb, rfl, hg ▸ hx⟩
  · rintro ⟨b, s', hb, rfl, hx⟩
    exact ⟨(g, s'), (mem_paths_of_captureFree rfl).mpr ⟨rfl, [b], ⟨b, hb, rfl⟩, rfl⟩, hx⟩

theorem mem_paths_literal {w : Text} {rs : List (Pattern CodeUnit)} {g : Groups CodeUnit}
    {s : Text} {x : Groups CodeUnit × Text} :
    x ∈ paths (seqs (literal w :: rs)) g s ↔ ∃ s', s = w ++ s' ∧ x ∈ paths (seqs rs) g s' := by
  rw [mem_paths_seqs_cons]
  constructor
  · rintro ⟨y, hy, hx⟩
    obtain ⟨hg, v, hv, rfl⟩ := (mem_paths_of_captureFree (captureFree_literal w)).mp hy
    obtain rfl : v = w := by simpa using hv
    exact ⟨y.2, rfl, hg ▸ hx⟩
  · rintro ⟨s', rfl, hx⟩
    refine ⟨(g, s'), ?_, hx⟩
    exact (mem_paths_of_captureFree (captureFree_literal w)).mpr ⟨rfl, w, by simp, rfl⟩

theorem mem_paths_captured {r : Pattern CodeUnit} (hr : r.captureFree = true) {n : Nat}
    {rs : List (Pattern CodeUnit)} {g : Groups CodeUnit} {s : Text} {x : Groups CodeUnit × Text} :
    x ∈ paths (seqs (.group n r :: rs)) g s ↔ ∃ w s', w ∈ r.language ∧ s = w ++ s' ∧
      x ∈ paths (seqs rs) (Function.update g n (some ⟨w, s'⟩)) s' := by
  rw [mem_paths_seqs_cons]
  constructor
  · rintro ⟨y, hy, hx⟩
    obtain ⟨w, hw, rfl, hg⟩ := (mem_paths_group hr).mp hy
    exact ⟨w, y.2, hw, rfl, hg ▸ hx⟩
  · rintro ⟨w, s', hw, rfl, hx⟩
    exact ⟨(_, s'), (mem_paths_group hr).mpr ⟨w, hw, rfl, rfl⟩, hx⟩

theorem mem_paths_field {r : Pattern CodeUnit} (hr : r.captureFree = true) {n : Nat}
    {rs : List (Pattern CodeUnit)} {g : Groups CodeUnit} {s : Text} {x : Groups CodeUnit × Text} :
    x ∈ paths (seqs (.group n r :: space :: rs)) g s ↔ ∃ f : Field, ∃ s', f.Fits r ∧
      s = f.write s' ∧
      x ∈ paths (seqs rs) (Function.update g n (some ⟨f.value, f.blank :: s'⟩)) s' := by
  simp only [mem_paths_captured hr, mem_paths_space]
  constructor
  · rintro ⟨w, _, hw, rfl, b, s', hb, rfl, hx⟩
    exact ⟨⟨w, b⟩, s', ⟨hw, hb⟩, rfl, hx⟩
  · rintro ⟨f, s', ⟨hw, hb⟩, rfl, hx⟩
    exact ⟨f.value, _, hw, rfl, f.blank, s', hb, rfl, hx⟩

theorem mem_paths_attribute {r : Pattern CodeUnit} (hr : r.captureFree = true) {n : Nat}
    {name : String} {rs : List (Pattern CodeUnit)} {g : Groups CodeUnit} {s : Text}
    {x : Groups CodeUnit × Text} :
    x ∈ paths (seqs (space :: literal (text name) :: space :: .group n r :: rs)) g s ↔
      ∃ a : Attribute, ∃ s', a.Fits r ∧ s = a.write name s' ∧
        x ∈ paths (seqs rs) (Function.update g n (some ⟨a.value, s'⟩)) s' := by
  simp only [mem_paths_space, mem_paths_literal, mem_paths_captured hr]
  constructor
  · rintro ⟨b, _, hb, rfl, _, rfl, c, _, hc, rfl, w, s', hw, rfl, hx⟩
    exact ⟨⟨b, c, w⟩, s', ⟨hb, hc, hw⟩, rfl, hx⟩
  · rintro ⟨a, s', ⟨hb, hc, hw⟩, rfl, hx⟩
    exact ⟨a.before, _, hb, rfl, _, rfl, a.between, _, hc, rfl, a.value, s', hw, rfl, hx⟩

theorem mem_paths_optional {r : Pattern CodeUnit} (hr : r.captureFree = true) {n : Nat}
    {name : String} {rs : List (Pattern CodeUnit)} {g : Groups CodeUnit} {s : Text}
    {x : Groups CodeUnit × Text} :
    x ∈ paths (seqs (.opt (seqs [space, literal (text name), space, .group n r]) :: rs)) g s ↔
      ∃ o : Option Attribute, ∃ s', (∀ a ∈ o, a.Fits r) ∧ s = writeOption name o s' ∧
        x ∈ paths (seqs rs) (setOption g n (o.map fun a => ⟨a.value, s'⟩)) s' := by
  rw [mem_paths_seqs_cons]
  constructor
  · rintro ⟨y, hy, hx⟩
    rcases mem_paths_opt.mp hy with hy | rfl
    · obtain ⟨a, s', ha, rfl, hz⟩ := (mem_paths_attribute hr).mp hy
      obtain rfl := mem_paths_seqs_nil.mp hz
      exact ⟨some a, s', by simpa using ha, rfl, hx⟩
    · exact ⟨none, s, by simp, rfl, hx⟩
  · rintro ⟨o, s', ho, rfl, hx⟩
    refine ⟨(setOption g n (o.map fun a => ⟨a.value, s'⟩), s'), mem_paths_opt.mpr ?_, hx⟩
    cases o with
    | none => exact Or.inr rfl
    | some a =>
      exact Or.inl ((mem_paths_attribute hr).mpr
        ⟨a, s', ho a rfl, rfl, mem_paths_seqs_nil.mpr rfl⟩)

theorem mem_paths_remote {rs : List (Pattern CodeUnit)} {g : Groups CodeUnit} {s : Text}
    {x : Groups CodeUnit × Text} :
    x ∈ paths (seqs (.opt (seqs [space, literal (text "raddr"), space,
        .group 8 connectAddressRegex, space, literal (text "rport"), space,
        .group 9 portRegex]) :: rs)) g s ↔
      ∃ o : Option (Attribute × Attribute), ∃ s',
        (∀ p ∈ o, p.1.Fits connectAddressRegex ∧ p.2.Fits portRegex) ∧ s = writeRemote o s' ∧
        x ∈ paths (seqs rs) (setOption (setOption g 8
          (o.map fun p => ⟨p.1.value, p.2.write "rport" s'⟩)) 9
          (o.map fun p => ⟨p.2.value, s'⟩)) s' := by
  rw [mem_paths_seqs_cons]
  constructor
  · rintro ⟨y, hy, hx⟩
    rcases mem_paths_opt.mp hy with hy | rfl
    · obtain ⟨a, _, ha, rfl, hz⟩ := (mem_paths_attribute rfl).mp hy
      obtain ⟨p, s', hp, rfl, hz⟩ := (mem_paths_attribute rfl).mp hz
      obtain rfl := mem_paths_seqs_nil.mp hz
      exact ⟨some (a, p), s', by simp [ha, hp], rfl, hx⟩
    · exact ⟨none, s, by simp, rfl, hx⟩
  · rintro ⟨o, s', ho, rfl, hx⟩
    refine ⟨(setOption (setOption g 8 (o.map fun p => ⟨p.1.value, p.2.write "rport" s'⟩)) 9
      (o.map fun p => ⟨p.2.value, s'⟩), s'), mem_paths_opt.mpr ?_, hx⟩
    cases o with
    | none => exact Or.inr rfl
    | some p =>
      obtain ⟨ha, hp⟩ := ho p rfl
      refine Or.inl ((mem_paths_attribute rfl).mpr ⟨p.1, _, ha, rfl, ?_⟩)
      exact (mem_paths_attribute rfl).mpr ⟨p.2, s', hp, rfl, mem_paths_seqs_nil.mpr rfl⟩

theorem writeOption_append (name : String) (o : Option Attribute) (u v : Text) :
    writeOption name o (u ++ v) = writeOption name o u ++ v := by
  cases o with
  | none => rfl
  | some a => simp [writeOption, Attribute.write]

theorem Line.afterRemote_append (l : Line) (t : Text) :
    l.afterRemote t = l.afterRemote [] ++ t := by
  have h := fun name o => writeOption_append name o [] t
  simp only [List.nil_append] at h
  simp only [afterRemote, afterGeneration, afterUfrag, afterNetworkId, h, writeOption_append]

theorem Line.afterType_append (l : Line) (t : Text) : l.afterType t = l.afterType [] ++ t := by
  unfold afterType
  cases l.remote with
  | none => exact l.afterRemote_append t
  | some p => simp [writeRemote, Attribute.write, l.afterRemote_append t]

theorem Line.write_append (l : Line) (t : Text) : l.write t = l.write [] ++ t := by
  simp [write, fromComponentId, fromTransport, fromPriority, fromAddress, fromPort, fromTyp,
    fromType, Field.write, l.afterType_append t]

/-- The groups inside the whole match, set in the order in which they are passed. -/
private def innerGroups (l : Line) (t : Text) : Groups CodeUnit :=
  let g : Groups CodeUnit := fun _ => none
  let g := Function.update g 1 (some ⟨l.foundation.value, l.foundation.blank :: l.fromComponentId t⟩)
  let g := Function.update g 2 (some ⟨l.componentId.value, l.componentId.blank :: l.fromTransport t⟩)
  let g := Function.update g 3 (some ⟨l.transport.value, l.transport.blank :: l.fromPriority t⟩)
  let g := Function.update g 4 (some ⟨l.priority.value, l.priority.blank :: l.fromAddress t⟩)
  let g := Function.update g 5 (some ⟨l.address.value, l.address.blank :: l.fromPort t⟩)
  let g := Function.update g 6 (some ⟨l.port.value, l.port.blank :: l.fromTyp t⟩)
  let g := Function.update g 7 (some ⟨l.type, l.afterType t⟩)
  let g := setOption g 8 (l.remote.map fun p => ⟨p.1.value, p.2.write "rport" (l.afterRemote t)⟩)
  let g := setOption g 9 (l.remote.map fun p => ⟨p.2.value, l.afterRemote t⟩)
  let g := setOption g 10 (l.generation.map fun a => ⟨a.value, l.afterGeneration t⟩)
  let g := setOption g 11 (l.ufrag.map fun a => ⟨a.value, l.afterUfrag t⟩)
  let g := setOption g 12 (l.networkId.map fun a => ⟨a.value, l.afterNetworkId t⟩)
  setOption g 13 (l.networkCost.map fun a => ⟨a.value, t⟩)

private theorem update_innerGroups (l : Line) (t : Text) :
    Function.update (innerGroups l t) 0 (some ⟨l.write [], t⟩) = l.groups t := by
  funext n
  simp only [innerGroups, Function.update_apply, setOption_apply]
  match n with
  | 0 | 1 | 2 | 3 | 4 | 5 | 6 | 7 => simp [Line.groups]
  | 8 | 9 | 10 | 11 | 12 | 13 => simp [Line.groups, Option.or_none]
  | n + 14 => simp [Line.groups]

theorem line_of_mem_paths {s : Text} {x : Groups CodeUnit × Text}
    (hx : x ∈ paths masterRegex (fun _ => none) s) :
    ∃ l : Line, l.WellFormed ∧ s = l.write x.2 ∧ x.1 = l.groups x.2 := by
  obtain ⟨y, hy, rfl⟩ := List.mem_map.mp hx
  obtain ⟨z, hz, h⟩ := mem_paths_seqs_cons.mp hy
  obtain ⟨hzg, start, hstart, hs⟩ := (mem_paths_of_captureFree rfl).mp hz
  rw [hzg] at h
  obtain ⟨s0, h0, h⟩ := mem_paths_literal.mp h
  obtain ⟨f1, s1, hf1, h1, h⟩ := (mem_paths_field rfl).mp h
  obtain ⟨f2, s2, hf2, h2, h⟩ := (mem_paths_field rfl).mp h
  obtain ⟨f3, s3, hf3, h3, h⟩ := (mem_paths_field rfl).mp h
  obtain ⟨f4, s4, hf4, h4, h⟩ := (mem_paths_field rfl).mp h
  obtain ⟨f5, s5, hf5, h5, h⟩ := (mem_paths_field rfl).mp h
  obtain ⟨f6, s6, hf6, h6, h⟩ := (mem_paths_field rfl).mp h
  obtain ⟨s7, h7, h⟩ := mem_paths_literal.mp h
  obtain ⟨b, s8, hb, h8, h⟩ := mem_paths_space.mp h
  obtain ⟨w, s9, hw, h9, h⟩ := (mem_paths_captured rfl).mp h
  obtain ⟨remote, s10, hr, h10, h⟩ := mem_paths_remote.mp h
  obtain ⟨gen, s11, hgen, h11, h⟩ := (mem_paths_optional rfl).mp h
  obtain ⟨ufrag, s12, hu, h12, h⟩ := (mem_paths_optional rfl).mp h
  obtain ⟨nid, s13, hi, h13, h⟩ := (mem_paths_optional rfl).mp h
  obtain ⟨cost, s14, hc, h14, h⟩ := (mem_paths_optional rfl).mp h
  obtain rfl := mem_paths_seqs_nil.mp h
  let l : Line := ⟨start, f1, f2, f3, f4, f5, f6, b, w, remote, gen, ufrag, nid, cost⟩
  have hwrite : s = l.write s14 := by
    subst h14 h13 h12 h11 h10 h9 h8 h7 h6 h5 h4 h3 h2 h1
    rw [hs, h0]
    rfl
  have hcut : s.take (s.length - s14.length) = l.write [] := by
    rw [hwrite, l.write_append s14]
    simp
  refine ⟨l, ⟨?_, hf1, hf2, hf3, hf4, hf5, hf6, hb, hw, hr, hgen, hu, hi, hc⟩, hwrite, ?_⟩
  · rcases mem_language_opt.mp hstart with h | h
    · exact Or.inl (mem_language_literal.mp h)
    · exact Or.inr h
  · subst h14 h13 h12 h11 h10 h9 h8 h7 h6 h5 h4 h3 h2 h1
    rw [← update_innerGroups]
    dsimp only
    rw [hcut]
    rfl

theorem mem_paths_of_line {l : Line} (hl : l.WellFormed) (t : Text) :
    (l.groups t, t) ∈ paths masterRegex (fun _ => none) (l.write t) := by
  rw [← update_innerGroups]
  refine List.mem_map.mpr ⟨(innerGroups l t, t), ?_, by rw [l.write_append t]; simp⟩
  refine mem_paths_seqs_cons.mpr ⟨(_, text "candidate:" ++ l.foundation.write (l.fromComponentId t)),
    (mem_paths_of_captureFree rfl).mpr ⟨rfl, l.start, ?_, rfl⟩, ?_⟩
  · rcases hl.start with h | h
    · exact Or.inl (mem_language_literal.mpr h)
    · exact Or.inr h
  · refine mem_paths_literal.mpr ⟨_, rfl, ?_⟩
    refine (mem_paths_field rfl).mpr ⟨_, _, hl.foundation, rfl, ?_⟩
    refine (mem_paths_field rfl).mpr ⟨_, _, hl.componentId, rfl, ?_⟩
    refine (mem_paths_field rfl).mpr ⟨_, _, hl.transport, rfl, ?_⟩
    refine (mem_paths_field rfl).mpr ⟨_, _, hl.priority, rfl, ?_⟩
    refine (mem_paths_field rfl).mpr ⟨_, _, hl.address, rfl, ?_⟩
    refine (mem_paths_field rfl).mpr ⟨_, _, hl.port, rfl, ?_⟩
    refine mem_paths_literal.mpr ⟨_, rfl, ?_⟩
    refine mem_paths_space.mpr ⟨_, _, hl.typBlank, rfl, ?_⟩
    refine (mem_paths_captured rfl).mpr ⟨_, _, hl.type, rfl, ?_⟩
    refine mem_paths_remote.mpr ⟨_, _, hl.remote, rfl, ?_⟩
    refine (mem_paths_optional rfl).mpr ⟨_, _, hl.generation, rfl, ?_⟩
    refine (mem_paths_optional rfl).mpr ⟨_, _, hl.ufrag, rfl, ?_⟩
    refine (mem_paths_optional rfl).mpr ⟨_, _, hl.networkId, rfl, ?_⟩
    refine (mem_paths_optional rfl).mpr ⟨_, _, hl.networkCost, rfl, ?_⟩
    exact mem_paths_seqs_nil.mpr rfl

end Spitfire.Ice
