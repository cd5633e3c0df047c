import Spitfire.Ice.Serialization

/-! The attributes after the type. The expression has each of them once and in one order, so
they are read from the left as far as the pairs of the line keep to that order; what comes
after the first pair that does not is left unread, and the fields keep their defaults. -/
namespace Spitfire.Ice
open Regex Pattern Buffer

def isToken (w : Text) : Bool := w.all fun c => !isWhiteSpace c

theorem not_space_of_isToken {w : Text} (h : isToken w = true) :
    ∀ c ∈ w, isWhiteSpace c = false := by
  intro c hc
  simpa using List.all_eq_true.mp h c hc

/-- A name and a value, each of them a token after one white space. -/
structure Pair where
  before : CodeUnit
  name : Text
  between : CodeUnit
  value : Text
  before_space : isWhiteSpace before = true
  name_token : isToken name = true
  between_space : isWhiteSpace between = true
  value_token : isToken value = true

def Pair.write (x : Pair) (rest : Text) : Text :=
  x.before :: (x.name ++ x.between :: (x.value ++ rest))

def writePairs : List Pair → Text
  | [] => []
  | x :: xs => x.write (writePairs xs)

/-- The attributes that the expression reads after the addresses. -/
inductive Key where
  | generation
  | ufrag
  | networkId
  | networkCost
deriving DecidableEq

namespace Key

def order : List Key := [.generation, .ufrag, .networkId, .networkCost]

def name : Key → String
  | .generation => "generation"
  | .ufrag => "ufrag"
  | .networkId => "network-id"
  | .networkCost => "network-cost"

/-- The class that the value's loop runs over. -/
def chars : Key → CodeUnit → Bool
  | .generation => isDecimalDigit
  | .ufrag => isIceChar
  | .networkId | .networkCost => isAsciiDigit

def max : Key → Option Nat
  | .generation | .ufrag => none
  | .networkId | .networkCost => some 10

def taken (k : Key) (w : Text) : Text := longestRun k.chars k.max w

theorem name_injective {k k' : Key} (h : text k.name = text k'.name) : k = k' := by
  revert h
  cases k <;> cases k' <;> decide

theorem name_mem (k : Key) : k.name ∈ attributeNames := by
  cases k <;> decide

theorem name_token (k : Key) : isToken (text k.name) = true := by
  cases k <;> decide

theorem chars_not_space (k : Key) (c : CodeUnit) (h : k.chars c = true) :
    isWhiteSpace c = false := by
  cases k with
  | generation => exact not_isWhiteSpace_of_decimalDigit h
  | ufrag => exact iceChar_not_space c h
  | networkId => exact digit_not_space c h
  | networkCost => exact digit_not_space c h

theorem taken_ne_nil (k : Key) {c : CodeUnit} (hc : k.chars c = true) (w : Text) :
    k.taken (c :: w) ≠ [] :=
  longestRun_ne_nil (by cases k <;> simp [max]) hc w

end Key

/-- The pairs read from the left: a key that the next pair does not have, or that takes
nothing of its value, is passed over, and a value that is not taken whole ends the reading. -/
def readInOrder : List Key → List Pair → Key → Option Attribute
  | [], _ => fun _ => none
  | _ :: _, [] => fun _ => none
  | k :: ks, x :: xs =>
    if x.name = text k.name ∧ k.taken x.value ≠ [] then
      Function.update (if k.taken x.value = x.value then readInOrder ks xs else fun _ => none) k
        (some ⟨x.before, x.between, k.taken x.value⟩)
    else readInOrder ks (x :: xs)

/-- From the text `s` the expression reads these attributes, each as far as it goes, and
leaves `t`. -/
def ReadsAttributes : List Key → (Key → Option Attribute) → Text → Text → Prop
  | [], _, s, t => s = t
  | k :: ks, o, s, t => ∃ u, s = writeOption k.name (o k) u ∧
      (∀ a ∈ o k, a.Fits (.setLoop k.chars 1 k.max)) ∧
      TakesOption k.name k.chars k.max (o k) u ∧ ReadsAttributes ks o u t

theorem reads_congr {ks : List Key} {o o' : Key → Option Attribute}
    (h : ∀ k ∈ ks, o k = o' k) {s t : Text} (hr : ReadsAttributes ks o s t) :
    ReadsAttributes ks o' s t := by
  induction ks generalizing s with
  | nil => exact hr
  | cons k ks ih =>
    obtain ⟨u, hs, hfits, htakes, hr⟩ := hr
    rw [h k (by simp)] at hs hfits htakes
    exact ⟨u, hs, hfits, htakes, ih (fun j hj => h j (by simp [hj])) hr⟩

/-- Where no attribute can be read, all of them are passed over. -/
theorem reads_none {s : Text} (h : Stuck attributeNames s) (ks : List Key) :
    ReadsAttributes ks (fun _ => none) s s := by
  induction ks with
  | nil => rfl
  | cons k ks ih =>
    refine ⟨s, rfl, by simp, ?_, ih⟩
    intro a u ha
    exact h k.name k.name_mem a u ha.1 ha.2.1

theorem readInOrder_other {k : Key} {ks : List Key} (hk : k ∉ ks) (xs : List Pair) :
    readInOrder ks xs k = none := by
  induction ks generalizing xs with
  | nil => rfl
  | cons j ks ih =>
    simp only [List.mem_cons, not_or] at hk
    cases xs with
    | nil => rfl
    | cons x xs =>
      rw [readInOrder]
      split
      · rw [Function.update_of_ne hk.1]
        split
        · exact ih hk.2 xs
        · rfl
      · exact ih hk.2 (x :: xs)

theorem endsToken_writePairs (xs : List Pair) : endsToken (writePairs xs) = true := by
  cases xs with
  | nil => rfl
  | cons x xs => exact endsToken_cons x.before_space _

/-- A name that is read at the start of the pairs is the name of the first pair. -/
theorem name_of_write {name : String} (hn : isToken (text name) = true) {x : Pair}
    {a : Attribute} (ha : isWhiteSpace a.between = true) {u v : Text}
    (h : x.write u = a.write name v) : x.name = text name ∧ x.value ++ u = a.value ++ v := by
  obtain ⟨hname, _, hrest⟩ :=
    split_unique (not_space_of_isToken x.name_token) (not_space_of_isToken hn) x.between_space ha
      (List.cons.inj h).2
  exact ⟨hname, hrest⟩

theorem takesOption_skipped {k : Key} {x : Pair} {xs : List Pair}
    (h : ¬ (x.name = text k.name ∧ k.taken x.value ≠ [])) :
    TakesOption k.name k.chars k.max none (writePairs (x :: xs)) := by
  intro a u ha hwrite
  obtain ⟨hname, hrest⟩ := name_of_write k.name_token ha.2.1 hwrite
  obtain ⟨hclass, hlen, _⟩ := ha.2.2
  cases hv : a.value with
  | nil => simp [hv] at hlen
  | cons c v =>
    have hc : k.chars c = true := hclass c (by simp [hv])
    rw [hv] at hrest
    cases hx : x.value with
    | nil =>
      -- The value would begin with the white space before the next pair.
      rw [hx, List.nil_append] at hrest
      have hends := not_class_of_ends k.chars_not_space (endsToken_writePairs xs)
      rw [hends c (by rw [hrest]; rfl)] at hc
      cases hc
    | cons d w =>
      rw [hx] at hrest
      obtain rfl : d = c := (List.cons.inj hrest).1
      exact h ⟨hname, by rw [hx]; exact k.taken_ne_nil hc w⟩

theorem reads_skipped {k : Key} {ks : List Key} (hk : k ∉ ks) {x : Pair} {xs : List Pair}
    (h : ¬ (x.name = text k.name ∧ k.taken x.value ≠ [])) {t : Text}
    (hr : ReadsAttributes ks (readInOrder ks (x :: xs)) (writePairs (x :: xs)) t) :
    ReadsAttributes (k :: ks) (readInOrder ks (x :: xs)) (writePairs (x :: xs)) t := by
  have hnone := readInOrder_other hk (x :: xs)
  refine ⟨writePairs (x :: xs), ?_, ?_, ?_, hr⟩
  · rw [hnone]
    rfl
  · simp [hnone]
  · rw [hnone]
    exact takesOption_skipped h

theorem taken_longest (k : Key) (w : Text) (xs : List Pair) :
    ∃ r, w = k.taken w ++ r ∧ Longest k.chars k.max (k.taken w) (r ++ writePairs xs) :=
  longest_longestRun k.chars k.max w
    (not_class_of_ends k.chars_not_space (endsToken_writePairs xs))

/-- After a value come the next pairs or, where it was not taken whole, the rest of the
token, in which nothing can be read. -/
theorem reads_rest {k : Key} {ks : List Key} {x : Pair} {xs : List Pair} {r : Text}
    (hvalue : x.value = k.taken x.value ++ r)
    (ih : ∃ t, ReadsAttributes ks (readInOrder ks xs) (writePairs xs) t) :
    ∃ t, ReadsAttributes ks (if k.taken x.value = x.value then readInOrder ks xs else fun _ => none)
      (r ++ writePairs xs) t := by
  cases r with
  | nil =>
    rw [List.append_nil] at hvalue
    rw [if_pos hvalue.symm]
    exact ih
  | cons c r =>
    have hpart : k.taken x.value ≠ x.value := by
      intro hwhole
      rw [hwhole] at hvalue
      simpa using congrArg List.length hvalue
    have hc : isWhiteSpace c = false := by
      apply not_space_of_isToken x.value_token
      rw [hvalue]
      simp
    rw [if_neg hpart]
    exact ⟨_, reads_none (stuck_of_not_space hc _ _) ks⟩

theorem reads_taken {k : Key} {ks : List Key} (hk : k ∉ ks) {x : Pair} {xs : List Pair} {r t : Text}
    {o : Key → Option Attribute} (hname : x.name = text k.name) (hne : k.taken x.value ≠ [])
    (hvalue : x.value = k.taken x.value ++ r)
    (hlong : Longest k.chars k.max (k.taken x.value) (r ++ writePairs xs))
    (hr : ReadsAttributes ks o (r ++ writePairs xs) t) :
    ReadsAttributes (k :: ks) (Function.update o k (some ⟨x.before, x.between, k.taken x.value⟩))
      (writePairs (x :: xs)) t := by
  refine ⟨r ++ writePairs xs, ?_, ?_, ?_, reads_congr ?_ hr⟩
  · rw [Function.update_self]
    change x.before :: (x.name ++ x.between :: (x.value ++ writePairs xs)) =
      x.before :: (text k.name ++ x.between :: (k.taken x.value ++ (r ++ writePairs xs)))
    rw [hname, ← List.append_assoc (k.taken x.value), ← hvalue]
  · rw [Function.update_self]
    intro a ha
    obtain rfl := Option.mem_some_iff.mp ha
    exact ⟨x.before_space, x.between_space, longestRun_mem hne⟩
  · rw [Function.update_self]
    exact hlong
  · intro j hj
    have hjk : j ≠ k := fun heq => hk (heq ▸ hj)
    rw [Function.update_of_ne hjk]

/-- The expression reads the pairs in the order of its own attributes. -/
theorem reads_readInOrder {ks : List Key} (hks : ks.Nodup) (xs : List Pair) :
    ∃ t, ReadsAttributes ks (readInOrder ks xs) (writePairs xs) t := by
  induction ks generalizing xs with
  | nil => exact ⟨_, rfl⟩
  | cons k ks ih =>
    obtain ⟨hk, hks⟩ := List.nodup_cons.mp hks
    cases xs with
    | nil => exact ⟨[], reads_none (stuck_nil _) (k :: ks)⟩
    | cons x xs =>
      rw [readInOrder]
      split
      case isTrue htaken =>
        obtain ⟨r, hvalue, hlong⟩ := taken_longest k x.value xs
        obtain ⟨t, ht⟩ := reads_rest hvalue (ih hks xs)
        exact ⟨t, reads_taken hk htaken.1 htaken.2 hvalue hlong ht⟩
      case isFalse hskip =>
        obtain ⟨t, ht⟩ := ih hks (x :: xs)
        exact ⟨t, reads_skipped hk hskip ht⟩

def Line.withAttributes (l : Line) (o : Key → Option Attribute) : Line :=
  { l with
    generation := o .generation
    ufrag := o .ufrag
    networkId := o .networkId
    networkCost := o .networkCost }

/-- The line ends with its type or its related address. -/
def Line.Bare (l : Line) : Prop := l.withAttributes (fun _ => none) = l

section
variable {h : Line} (hh : h.WellFormed) (hbare : h.Bare) {o : Key → Option Attribute} {s t : Text}
  (hr : ReadsAttributes Key.order o s t)
include hr

theorem afterRemote_withAttributes : (h.withAttributes o).afterRemote t = s := by
  obtain ⟨_, h1, _, _, _, h2, _, _, _, h3, _, _, _, h4, _, _, rfl⟩ := hr
  rw [h1, h2, h3, h4]
  rfl

include hbare in
theorem write_withAttributes : h.write s = (h.withAttributes o).write t := by
  rw [← afterRemote_withAttributes (h := h) hr, ← hbare]
  rfl

include hh in
theorem wellFormed_withAttributes : (h.withAttributes o).WellFormed := by
  obtain ⟨_, _, h1, _, _, _, h2, _, _, _, h3, _, _, _, h4, _, _⟩ := hr
  exact { hh with generation := h1, ufrag := h2, networkId := h3, networkCost := h4 }

/-- Before the attributes nothing more can be taken either. -/
theorem greedy_withAttributes (hends : endsToken s = true) (hraddr : Stuck ["raddr"] s)
    (hh : h.WellFormed) : (h.withAttributes o).Greedy t := by
  have hafter := afterRemote_withAttributes (h := h) hr
  have htype : endsToken ((h.withAttributes o).afterType t) = true := by
    unfold Line.afterType
    rw [hafter]
    change endsToken (writeRemote h.remote s) = true
    cases hq : h.remote with
    | none => exact hends
    | some q => exact endsToken_cons (hh.remote q hq).1.1 _
  have hremote : TakesRemote (h.withAttributes o).remote ((h.withAttributes o).afterRemote t) := by
    rw [hafter]
    change TakesRemote h.remote s
    cases h.remote with
    | none => exact fun q u hq => hraddr "raddr" (by simp) q.1 _ hq.1.1 hq.1.2.1
    | some q => exact Or.inl (not_class_of_ends digit_not_space hends)
  obtain ⟨_, _, _, h1, _, h2', _, h2, _, h3', _, h3, _, h4', _, h4, rfl⟩ := hr
  subst h4' h3' h2'
  exact ⟨Or.inl (not_class_of_ends tokenChar_not_space htype), hremote, h1, h2, h3, h4⟩

end

theorem stuck_raddr {xs : List Pair} (h : ∀ x ∈ xs, x.name ≠ text "raddr") :
    Stuck ["raddr"] (writePairs xs) := by
  intro name hname a u _ hbetween hwrite
  obtain rfl := List.mem_singleton.mp hname
  cases xs with
  | nil => cases hwrite
  | cons x xs => exact h x (by simp) (name_of_write (by decide) hbetween hwrite).1

/-- What the parser makes of a line that ends with such pairs. -/
theorem parse_pairs {h : Line} (hh : h.WellFormed) (hbare : h.Bare) {xs : List Pair}
    (hxs : ∀ x ∈ xs, x.name ≠ text "raddr") {c : IceCandidate} :
    parse (h.write (writePairs xs)) = .ok c ↔
      (h.FieldsConvert ∧ (h.withAttributes (readInOrder Key.order xs)).AttributesConvert) ∧
        c = (h.withAttributes (readInOrder Key.order xs)).candidate := by
  obtain ⟨t, hr⟩ := reads_readInOrder (show Key.order.Nodup by decide) xs
  have hl := wellFormed_withAttributes hh hr
  have hg := greedy_withAttributes hr (endsToken_writePairs xs) (stuck_raddr hxs) hh
  have hs : h.write (writePairs xs) = [] ++ _ := write_withAttributes hbare hr
  rw [parse_of_reading hl hg hs (by simp), convertGroups_eq_ok_iff hl, acceptable_groups_iff]
  rfl

/-- Extension pairs put in anywhere, and the pairs in another order. -/
def Rearranged (tail tail' : List Pair) : Prop :=
  ∃ ext : List Pair, (∀ x ∈ ext, ∀ name ∈ attributeNames, x.name ≠ text name) ∧
    tail'.Perm (ext ++ tail)

/-- The four fields that are set from these attributes. -/
def reported (o : Key → Option Attribute) : Nat × Option Text × Int × Int :=
  (((o .generation).map fun a => decimalValue a.value).getD 0,
    (o .ufrag).map fun a => a.value,
    ((o .networkId).map fun a => (decimalValue a.value : Int)).getD 0,
    ((o .networkCost).map fun a => (decimalValue a.value : Int)).getD 0)

/-- Neither the line nor its rearrangement goes on with a related address. -/
theorem Rearranged.not_raddr {tail tail' : List Pair} (hrearranged : Rearranged tail tail')
    (htail : ∀ x ∈ tail, ∃ k : Key, x.name = text k.name) :
    (∀ x ∈ tail, x.name ≠ text "raddr") ∧ ∀ x ∈ tail', x.name ≠ text "raddr" := by
  have hraddr : ∀ x ∈ tail, x.name ≠ text "raddr" := by
    intro x hx
    obtain ⟨k, hk⟩ := htail x hx
    rw [hk]
    cases k <;> decide
  refine ⟨hraddr, fun x hx => ?_⟩
  obtain ⟨ext, hext, hperm⟩ := hrearranged
  rcases List.mem_append.mp (hperm.mem_iff.mp hx) with hx | hx
  · exact hext x hx "raddr" (by decide)
  · exact hraddr x hx

/-- A rearranged line reports the same attributes exactly when the pairs at its start that
keep to the order of the expression carry the same values, and those can be converted. -/
theorem attributes_kept_iff {h : Line} (hh : h.WellFormed) (hbare : h.Bare)
    {tail tail' : List Pair} (htail : ∀ x ∈ tail, ∃ k : Key, x.name = text k.name)
    (hrearranged : Rearranged tail tail') {c : IceCandidate}
    (hc : parse (h.write (writePairs tail)) = .ok c) :
    (∃ c', parse (h.write (writePairs tail')) = .ok c' ∧ c'.generation = c.generation ∧
      c'.uFrag = c.uFrag ∧ c'.networkId = c.networkId ∧ c'.networkCost = c.networkCost) ↔
    (h.withAttributes (readInOrder Key.order tail')).AttributesConvert ∧
      reported (readInOrder Key.order tail') = reported (readInOrder Key.order tail) := by
  obtain ⟨hraddr, hraddr'⟩ := hrearranged.not_raddr htail
  obtain ⟨⟨hfields, _⟩, rfl⟩ := (parse_pairs hh hbare hraddr).mp hc
  simp only [parse_pairs hh hbare hraddr', reported, Prod.mk.injEq]
  constructor
  · rintro ⟨_, ⟨⟨_, hconvert⟩, rfl⟩, hgeneration, hufrag, hid, hcost⟩
    exact ⟨hconvert, hgeneration, hufrag, hid, hcost⟩
  · intro ⟨hconvert, hgeneration, hufrag, hid, hcost⟩
    exact ⟨_, ⟨⟨hfields, hconvert⟩, rfl⟩, hgeneration, hufrag, hid, hcost⟩

theorem readInOrder_nil (ks : List Key) : readInOrder ks [] = fun _ => none := by
  cases ks <;> rfl

/-- Extension pairs after all others are never seen. -/
theorem readInOrder_append {ext : List Pair} (hext : ∀ x ∈ ext, ∀ k : Key, x.name ≠ text k.name)
    (ks : List Key) (xs : List Pair) : readInOrder ks (xs ++ ext) = readInOrder ks xs := by
  induction ks generalizing xs with
  | nil => rfl
  | cons k ks ih =>
    cases xs with
    | nil =>
      have hnil := ih []
      cases ext with
      | nil => rfl
      | cons e ext =>
        have hother : ¬ (e.name = text k.name ∧ k.taken e.value ≠ []) :=
          fun hname => hext e (by simp) k hname.1
        rw [readInOrder_nil, List.nil_append, readInOrder, if_neg hother]
        exact hnil.trans (readInOrder_nil ks)
    | cons x xs =>
      rw [List.cons_append, readInOrder, readInOrder, ih xs]
      split
      · rfl
      · exact ih (x :: xs)

/-- A value that is taken whole and is not the default of its field. -/
structure Key.Shows (k : Key) (w : Text) : Prop where
  taken : k.taken w = w
  nonempty : w ≠ []
  value : k ≠ .ufrag → decimalValue w ≠ 0

/-- Pairs that keep to the order of the keys are all read. -/
theorem readInOrder_whole {K ks : List Key} (hK : K.Nodup) (hks : ks.Sublist K) {xs : List Pair}
    (hnames : xs.map Pair.name = ks.map fun k => text k.name)
    (hshows : ∀ x ∈ xs, ∀ k : Key, x.name = text k.name → k.Shows x.value) {k : Key} (hk : k ∈ ks) :
    ∃ a, readInOrder K xs k = some a ∧ k.Shows a.value := by
  induction K generalizing ks xs with
  | nil =>
    cases hks
    cases hk
  | cons j K ih =>
    obtain ⟨hj, hK⟩ := List.nodup_cons.mp hK
    cases ks with
    | nil => cases hk
    | cons i is =>
      obtain ⟨x, xs, rfl, hname, hrest⟩ := List.map_eq_cons_iff.mp hnames
      cases hks with
      | cons _ hks =>
        have hskip : ¬ (x.name = text j.name ∧ j.taken x.value ≠ []) := by
          rintro ⟨hx, _⟩
          obtain rfl := Key.name_injective (hname.symm.trans hx)
          exact hj (hks.subset List.mem_cons_self)
        rw [readInOrder, if_neg hskip]
        exact ih hK hks hnames hshows hk
      | cons_cons _ hks =>
        have hx := hshows x List.mem_cons_self j hname
        rw [readInOrder, if_pos ⟨hname, by rw [hx.taken]; exact hx.nonempty⟩, if_pos hx.taken]
        rcases List.mem_cons.mp hk with rfl | hk
        · refine ⟨_, Function.update_self .., ?_⟩
          rw [hx.taken]
          exact hx
        · have hne : k ≠ j := fun heq => hj (heq ▸ hks.subset hk)
          rw [Function.update_of_ne hne]
          exact ih hK hks hrest (fun y hy => hshows y (List.mem_cons_of_mem _ hy)) hk

/-- Where all these keys are read and no other key is there, the pairs of these keys stand
first. -/
theorem first_of_read {K ks : List Key} (hK : K.Nodup) (hks : ks.Sublist K) {xs : List Pair}
    (hread : ∀ k ∈ ks, readInOrder K xs k ≠ none)
    (honly : ∀ x ∈ xs, ∀ k ∈ K, x.name = text k.name → k ∈ ks) :
    (ks.map fun k => text k.name) <+: xs.map Pair.name := by
  induction K generalizing ks xs with
  | nil =>
    cases hks
    exact ⟨_, rfl⟩
  | cons j K ih =>
    obtain ⟨hj, hK⟩ := List.nodup_cons.mp hK
    cases xs with
    | nil =>
      cases ks with
      | nil => exact ⟨[], rfl⟩
      | cons i is => exact (hread i List.mem_cons_self rfl).elim
    | cons y ys =>
      by_cases hy : y.name = text j.name ∧ j.taken y.value ≠ []
      · have hmem := honly y List.mem_cons_self j List.mem_cons_self hy.1
        cases hks with
        | cons _ hks => exact (hj (hks.subset hmem)).elim
        | @cons_cons is _ _ hks =>
          have hrest : (is.map fun k => text k.name) <+: ys.map Pair.name := by
            refine ih hK hks (fun k hk hnone => ?_) (fun x hx k hk hname => ?_)
            · have hne : k ≠ j := fun heq => hj (heq ▸ hks.subset hk)
              refine hread k (List.mem_cons_of_mem _ hk) ?_
              rw [readInOrder, if_pos hy, Function.update_of_ne hne]
              split
              · exact hnone
              · rfl
            · have hne : k ≠ j := fun heq => hj (heq ▸ hk)
              exact (List.mem_cons.mp (honly x (List.mem_cons_of_mem _ hx) k
                (List.mem_cons_of_mem _ hk) hname)).resolve_left hne
          rw [List.map_cons, List.map_cons, hy.1]
          exact (List.prefix_cons_inj _).mpr hrest
      · have hskip : readInOrder (j :: K) (y :: ys) = readInOrder K (y :: ys) := if_neg hy
        rw [hskip] at hread
        cases hks with
        | cons _ hks =>
          exact ih hK hks hread fun x hx k hk => honly x hx k (List.mem_cons_of_mem _ hk)
        | cons_cons _ hks =>
          exact (hread j List.mem_cons_self (readInOrder_other hj _)).elim

theorem read_of_reported {o o' : Key → Option Attribute} (h : reported o' = reported o) {k : Key}
    {a : Attribute} (ha : o k = some a) (hshows : k.Shows a.value) : o' k ≠ none := by
  intro hnone
  have hvalue := hshows.value
  simp only [reported, Prod.mk.injEq] at h
  obtain ⟨hgeneration, hufrag, hid, hcost⟩ := h
  cases k with
  | generation =>
    rw [ha, hnone] at hgeneration
    exact hvalue (by decide) hgeneration.symm
  | ufrag =>
    rw [ha, hnone] at hufrag
    cases hufrag
  | networkId =>
    rw [ha, hnone] at hid
    exact hvalue (by decide) (Int.ofNat.inj hid).symm
  | networkCost =>
    rw [ha, hnone] at hcost
    exact hvalue (by decide) (Int.ofNat.inj hcost).symm

/-- Pairs with different names are told by their names. -/
theorem eq_of_names {xs ys : List Pair} (hnodup : (ys.map Pair.name).Nodup) (hsub : xs ⊆ ys)
    (hnames : xs.map Pair.name = ys.map Pair.name) : xs = ys := by
  have hlength : xs.length = ys.length := by simpa using congrArg List.length hnames
  refine List.ext_getElem hlength fun i hi hi' => ?_
  refine List.inj_on_of_nodup_map hnodup (hsub (List.getElem_mem hi)) (List.getElem_mem hi') ?_
  have hget := List.getElem_of_eq hnames (show i < (xs.map Pair.name).length by simpa using hi)
  simpa using hget

/-- A pair with a known name is one of those that were there before. -/
theorem Rearranged.mem_of_name {tail tail' : List Pair} (h : Rearranged tail tail') {x : Pair}
    (hx : x ∈ tail') {k : Key} (hname : x.name = text k.name) : x ∈ tail := by
  obtain ⟨ext, hext, hperm⟩ := h
  rcases List.mem_append.mp (hperm.mem_iff.mp hx) with hx | hx
  · exact (hext x hx k.name k.name_mem hname).elim
  · exact hx

theorem key_of_names {ks : List Key} {xs : List Pair}
    (hnames : xs.map Pair.name = ks.map fun k => text k.name) {x : Pair} (hx : x ∈ xs) :
    ∃ k ∈ ks, x.name = text k.name := by
  obtain ⟨k, hk, hname⟩ := List.mem_map.mp (hnames ▸ List.mem_map_of_mem hx)
  exact ⟨k, hk, hname.symm⟩

theorem first_of_reported {ks : List Key} (hks : ks.Sublist Key.order) {tail tail' : List Pair}
    (hnames : tail.map Pair.name = ks.map fun k => text k.name)
    (hshows : ∀ x ∈ tail, ∀ k : Key, x.name = text k.name → k.Shows x.value)
    (hrearranged : Rearranged tail tail')
    (hsame : reported (readInOrder Key.order tail') = reported (readInOrder Key.order tail)) :
    tail.map Pair.name <+: tail'.map Pair.name := by
  rw [hnames]
  refine first_of_read (by decide) hks (fun k hk => ?_) (fun x hx k _ hname => ?_)
  · obtain ⟨a, ha, hshow⟩ := readInOrder_whole (by decide) hks hnames hshows hk
    exact read_of_reported hsame ha hshow
  · obtain ⟨j, hj, hname'⟩ := key_of_names hnames (hrearranged.mem_of_name hx hname)
    rwa [Key.name_injective (hname.symm.trans hname')]

theorem readInOrder_of_first {ks : List Key} (hks : ks.Sublist Key.order) {tail tail' : List Pair}
    (hnames : tail.map Pair.name = ks.map fun k => text k.name)
    (hrearranged : Rearranged tail tail')
    (hfirst : tail.map Pair.name <+: tail'.map Pair.name) :
    readInOrder Key.order tail' = readInOrder Key.order tail := by
  obtain ⟨names, hstart⟩ := hfirst
  obtain ⟨first, last, rfl, hfirst, -⟩ := List.map_eq_append_iff.mp hstart.symm
  have hnodup : (tail.map Pair.name).Nodup := by
    rw [hnames]
    exact (hks.nodup (by decide)).map fun _ _ => Key.name_injective
  have hsub : first ⊆ tail := by
    intro x hx
    obtain ⟨y, hy, hxy⟩ := List.mem_map.mp (hfirst ▸ List.mem_map_of_mem hx)
    obtain ⟨k, -, hname⟩ := key_of_names hnames hy
    exact hrearranged.mem_of_name (List.mem_append_left _ hx) (hxy.symm.trans hname)
  obtain rfl := eq_of_names hnodup hsub hfirst
  obtain ⟨ext, hext, hperm⟩ := hrearranged
  have hlast : last.Perm ext :=
    (List.perm_append_left_iff first).mp (hperm.trans List.perm_append_comm)
  exact readInOrder_append (fun x hx k => hext x (hlast.mem_iff.mp hx) k.name k.name_mem) _ _

/-- The pairs of a line keep to the order of the expression and all of them show. Then a
rearranged line reports the same attributes exactly when these names, in this order, still
stand first. -/
theorem attributes_kept_iff_first {h : Line} (hh : h.WellFormed) (hbare : h.Bare) {ks : List Key}
    (hks : ks.Sublist Key.order) {tail tail' : List Pair}
    (hnames : tail.map Pair.name = ks.map fun k => text k.name)
    (hshows : ∀ x ∈ tail, ∀ k : Key, x.name = text k.name → k.Shows x.value)
    (hrearranged : Rearranged tail tail') {c : IceCandidate}
    (hc : parse (h.write (writePairs tail)) = .ok c) :
    (∃ c', parse (h.write (writePairs tail')) = .ok c' ∧ c'.generation = c.generation ∧
      c'.uFrag = c.uFrag ∧ c'.networkId = c.networkId ∧ c'.networkCost = c.networkCost) ↔
    tail.map Pair.name <+: tail'.map Pair.name := by
  obtain ⟨hraddr, hraddr'⟩ := hrearranged.not_raddr fun x hx =>
    (key_of_names hnames hx).imp fun _ hk => hk.2
  obtain ⟨hconvert, rfl⟩ := (parse_pairs hh hbare hraddr).mp hc
  constructor
  · rintro ⟨_, hparse, hgeneration, hufrag, hid, hcost⟩
    obtain ⟨-, rfl⟩ := (parse_pairs hh hbare hraddr').mp hparse
    refine first_of_reported hks hnames hshows hrearranged ?_
    simp only [reported, Prod.mk.injEq]
    exact ⟨hgeneration, hufrag, hid, hcost⟩
  · intro hfirst
    have hread := readInOrder_of_first hks hnames hrearranged hfirst
    refine ⟨_, (parse_pairs hh hbare hraddr').mpr ⟨?_, rfl⟩, ?_⟩
    · rw [hread]
      exact hconvert
    · rw [hread]
      exact ⟨rfl, rfl, rfl, rfl⟩

/-- `candidate:1 1 tcp 1 :: 9 typ host` -/
def tcpLine : Line where
  start := []
  foundation := ⟨text "1", unit ' '⟩
  componentId := ⟨text "1", unit ' '⟩
  transport := ⟨text "tcp", unit ' '⟩
  priority := ⟨text "1", unit ' '⟩
  address := ⟨text "::", unit ' '⟩
  port := ⟨text "9", unit ' '⟩
  typBlank := unit ' '
  type := text "host"
  remote := none
  generation := none
  ufrag := none
  networkId := none
  networkCost := none

theorem tcpLine_wellFormed : tcpLine.WellFormed where
  start := Or.inr rfl
  foundation := ⟨mem_setLoop_of_all (by decide), by decide⟩
  componentId := ⟨mem_setLoop_of_all (by decide), by decide⟩
  transport := ⟨mem_setLoop_of_all (by decide), by decide⟩
  priority := ⟨mem_setLoop_of_all (by decide), by decide⟩
  address := ⟨address_of_written (Or.inr (Or.inl (Or.inr ⟨[], [], by simp, by decide, by decide⟩))),
    by decide⟩
  port := ⟨mem_setLoop_of_all (by decide), by decide⟩
  typBlank := by decide
  type := mem_setLoop_of_all (by decide)
  remote := by simp [tcpLine]
  generation := by simp [tcpLine]
  ufrag := by simp [tcpLine]
  networkId := by simp [tcpLine]
  networkCost := by simp [tcpLine]

def generationPair : Pair :=
  ⟨unit ' ', text "generation", unit ' ', text "5", by decide, by decide, by decide, by decide⟩

def tcptypePair : Pair :=
  ⟨unit ' ', text "tcptype", unit ' ', text "active", by decide, by decide, by decide, by decide⟩

theorem attributes_kept_before_extension :
    ∃ c c', parse (tcpLine.write (writePairs [generationPair])) = .ok c ∧
      parse (tcpLine.write (writePairs [generationPair, tcptypePair])) = .ok c' ∧
      c'.generation = c.generation := by
  have hparse : parse (tcpLine.write (writePairs [generationPair])) =
      .ok { raw := some (text "candidate:1 1 tcp 1 :: 9 typ host generation 5"), foundation := 1
            componentId := 1, transport := .tcp, priority := 1, localIp := some (text "::")
            localPort := 9, generation := 5 } := by
    decide +kernel
  have htail : ∀ x ∈ [generationPair], ∃ k : Key, x.name = text k.name := by
    intro x hx
    obtain rfl := List.mem_singleton.mp hx
    exact ⟨.generation, rfl⟩
  have hext : ∀ x ∈ [tcptypePair], ∀ name ∈ attributeNames, x.name ≠ text name := by
    intro x hx
    obtain rfl := List.mem_singleton.mp hx
    decide
  have hrearranged : Rearranged [generationPair] [generationPair, tcptypePair] :=
    ⟨[tcptypePair], hext, List.Perm.swap _ _ _⟩
  have hsame : readInOrder Key.order ([generationPair] ++ [tcptypePair]) =
      readInOrder Key.order [generationPair] :=
    readInOrder_append (fun x hx k => hext x hx k.name k.name_mem) _ _
  have hraddr : ∀ x ∈ [generationPair], x.name ≠ text "raddr" := by
    intro x hx
    obtain rfl := List.mem_singleton.mp hx
    decide
  have hconvert : (tcpLine.withAttributes
      (readInOrder Key.order ([generationPair] ++ [tcptypePair]))).AttributesConvert := by
    rw [hsame]
    exact ((parse_pairs tcpLine_wellFormed rfl hraddr).mp hparse).1.2
  obtain ⟨c', hc', hgeneration, _⟩ := (attributes_kept_iff tcpLine_wellFormed rfl htail
    hrearranged hparse).mpr ⟨hconvert, congrArg reported hsame⟩
  exact ⟨_, c', hparse, hc', hgeneration⟩

/-- The type of a TCP candidate hides the attributes after it, and so does another order. -/
theorem attributes_lost :
    (parse (text "candidate:1 1 tcp 1 :: 9 typ host generation 5")).map
      IceCandidate.generation = .ok 5 ∧
    (parse (text "candidate:1 1 tcp 1 :: 9 typ host tcptype active generation 5")).map
      IceCandidate.generation = .ok 0 ∧
    (parse (text "candidate:1 1 tcp 1 :: 9 typ host generation 5 ufrag x")).map
      IceCandidate.generation = .ok 5 ∧
    (parse (text "candidate:1 1 tcp 1 :: 9 typ host ufrag x generation 5")).map
      IceCandidate.generation = .ok 0 := by
  decide +kernel

end Spitfire.Ice
