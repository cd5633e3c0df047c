import Spitfire.Buffer.Patch
import Spitfire.Ice.Acceptance
import Spitfire.Ice.Address
import Spitfire.Regex.Priority

/-! The one reading of a line that the matcher returns. Up to the type the text leaves
no choice; from the type on the matcher takes the longest tokens and every attribute it
can, and that makes its match the longest one at its place. -/
namespace Spitfire.Ice
open Regex Pattern Buffer

/-- An attribute is read as far as its loop can go, or it is not there to be read. -/
def TakesOption (name : String) (p : CodeUnit → Bool) (max : Option Nat) (o : Option Attribute)
    (rest : Text) : Prop :=
  match o with
  | some a => Longest p max a.value rest
  | none => ∀ (a : Attribute) (u : Text), a.Fits (.setLoop p 1 max) → rest ≠ a.write name u

def TakesRemote (o : Option (Attribute × Attribute)) (rest : Text) : Prop :=
  match o with
  | some q => Longest isAsciiDigit (some 5) q.2.value rest
  | none => ∀ (q : Attribute × Attribute) (u : Text),
      q.1.Fits connectAddressRegex ∧ q.2.Fits portRegex → rest ≠ writeRemote (some q) u

/-- The reading takes as much as it can, from left to right. -/
structure Line.Greedy (l : Line) (t : Text) : Prop where
  type : Longest isTokenChar none l.type (l.afterType t)
  remote : TakesRemote l.remote (l.afterRemote t)
  generation : TakesOption "generation" isDecimalDigit none l.generation (l.afterGeneration t)
  ufrag : TakesOption "ufrag" isIceChar none l.ufrag (l.afterUfrag t)
  networkId : TakesOption "network-id" isAsciiDigit (some 10) l.networkId (l.afterNetworkId t)
  networkCost : TakesOption "network-cost" isAsciiDigit (some 10) l.networkCost t

theorem total_tail {rs : List (Pattern CodeUnit)} (h : rs <:+ tailItems) : Total (seqs rs) := by
  apply total_seqs
  intro r hr
  have hmem := h.subset hr
  simp only [tailItems, List.mem_cons, List.not_mem_nil, or_false] at hmem
  rcases hmem with rfl | rfl | rfl | rfl | rfl <;> exact total_opt _

/-- The first way through a loop inside a group. -/
theorem first_of_captured {p : CodeUnit → Bool} {max : Option Nat} {n : Nat}
    {g : Groups CodeUnit} {s : Text} {x : Groups CodeUnit × Text}
    (h : (paths (.group n (.setLoop p 1 max)) g s).head? = some x) :
    ∃ w, x.1 = Function.update g n (some ⟨w, x.2⟩) ∧ s = w ++ x.2 ∧ Longest p max w x.2 := by
  simp only [paths, List.head?_map, Option.map_map, Option.map_eq_some_iff] at h
  obtain ⟨t, ht, rfl⟩ := h
  obtain ⟨w, rfl, hw⟩ := first_of_loopRests ht
  exact ⟨w, by simp, rfl, hw⟩

theorem first_of_last {rs : List (Pattern CodeUnit)} {p : CodeUnit → Bool} {max : Option Nat}
    {n : Nat} {g : Groups CodeUnit} {s : Text} {x : Groups CodeUnit × Text}
    (h : (paths (seqs (rs ++ [.group n (.setLoop p 1 max)])) g s).head? = some x) :
    ∃ w, x.1 n = some ⟨w, x.2⟩ ∧ Longest p max w x.2 := by
  obtain ⟨y, _, hy⟩ := first_of_seqs_append h
  obtain ⟨z, hz, hx⟩ := first_of_seqs_cons (total_seqs (by simp)) hy
  obtain rfl : z = x := Option.some.inj hx
  obtain ⟨w, hw, _, hlong⟩ := first_of_captured hz
  exact ⟨w, by rw [hw]; simp, hlong⟩

/-- One option of the tail: it is taken as far as it goes, or it cannot be taken. -/
theorem first_of_option (rs : List (Pattern CodeUnit)) {qs : List (Pattern CodeUnit)}
    {p : CodeUnit → Bool} {max : Option Nat} {n : Nat} (hqs : Total (seqs qs))
    (hn : n ∉ (seqs qs).groupNumbers)
    {g : Groups CodeUnit} (hg : g n = none) {s : Text} {x : Groups CodeUnit × Text}
    (h : (paths (seqs (.opt (seqs (rs ++ [.group n (.setLoop p 1 max)])) :: qs)) g s).head? =
      some x) :
    (∃ w y, x.1 n = some ⟨w, y.2⟩ ∧ Longest p max w y.2 ∧
      y ∈ paths (seqs (rs ++ [.group n (.setLoop p 1 max)])) g s ∧
      (paths (seqs qs) y.1 y.2).head? = some x) ∨
    x.1 n = none ∧ paths (seqs (rs ++ [.group n (.setLoop p 1 max)])) g s = [] ∧
      (paths (seqs qs) g s).head? = some x := by
  obtain ⟨y, hy, hx⟩ := first_of_seqs_cons hqs h
  have hkeep := paths_other_group hn (List.mem_of_mem_head? hx)
  rcases first_of_opt hy with hy | ⟨hnil, rfl⟩
  · obtain ⟨w, hw, hlong⟩ := first_of_last hy
    exact Or.inl ⟨w, y, hkeep.trans hw, hlong, List.mem_of_mem_head? hy, hx⟩
  · exact Or.inr ⟨hkeep.trans hg, hnil, hx⟩

/-- The same for an attribute that sets one group, matched against what the line
says of it. -/
theorem takesOption_of_first {qs : List (Pattern CodeUnit)} {name : String}
    {p : CodeUnit → Bool} {max : Option Nat} {n : Nat} (hqs : Total (seqs qs))
    (hn : n ∉ (seqs qs).groupNumbers) {g : Groups CodeUnit} {s : Text}
    {x : Groups CodeUnit × Text} {o : Option Attribute} {rest : Text}
    (hs : s = writeOption name o rest)
    (h : (paths (seqs (.opt (seqs [space, literal (text name), space,
      .group n (.setLoop p 1 max)]) :: qs)) g s).head? = some x)
    (hg : ∀ m, n ≤ m → g m = none) (hx : x.1 n = o.map fun a => ⟨a.value, rest⟩) :
    TakesOption name p max o rest ∧
      ∃ g', (paths (seqs qs) g' rest).head? = some x ∧ ∀ m, n < m → g' m = none := by
  rcases first_of_option [space, literal (text name), space] hqs hn (hg n (le_refl n)) h with
    ⟨w, y, hw, hlong, hy, hnext⟩ | ⟨hnone, hnil, hnext⟩
  · cases o with
    | none =>
      rw [hw] at hx
      cases hx
    | some a =>
      obtain ⟨rfl, rfl⟩ : w = a.value ∧ y.2 = rest := by simpa [hw] using hx
      refine ⟨hlong, y.1, hnext, ?_⟩
      intro m hm
      have hm' : m ∉ (seqs ([space, literal (text name), space] ++
          [.group n (.setLoop p 1 max)])).groupNumbers := by
        simp only [List.cons_append, List.nil_append, seqs, groupNumbers, space,
          groupNumbers_literal, List.mem_singleton, List.append_nil]
        omega
      rw [paths_other_group hm' hy, hg m (by omega)]
  · cases o with
    | some a =>
      rw [hnone] at hx
      cases hx
    | none =>
      obtain rfl : s = rest := hs
      refine ⟨?_, g, hnext, fun m hm => hg m (by omega)⟩
      intro a u ha hs
      have hmem : (Function.update g n (some ⟨a.value, u⟩), u) ∈
          paths (seqs [space, literal (text name), space, .group n (.setLoop p 1 max)]) g s :=
        (mem_paths_attribute rfl).mpr ⟨a, u, ha, hs, mem_paths_seqs_nil.mpr rfl⟩
      rw [show paths (seqs [space, literal (text name), space, .group n (.setLoop p 1 max)]) g s = []
        from hnil] at hmem
      cases hmem

theorem takesRemote_of_first {qs : List (Pattern CodeUnit)} (hqs : Total (seqs qs))
    (hn : 9 ∉ (seqs qs).groupNumbers) {g : Groups CodeUnit} {s : Text}
    {x : Groups CodeUnit × Text} {o : Option (Attribute × Attribute)} {rest : Text}
    (hs : s = writeRemote o rest)
    (h : (paths (seqs (.opt (seqs [space, literal (text "raddr"), space,
      .group 8 connectAddressRegex, space, literal (text "rport"), space,
      .group 9 portRegex]) :: qs)) g s).head? = some x)
    (hg : ∀ m, 8 ≤ m → g m = none) (hx : x.1 9 = o.map fun q => ⟨q.2.value, rest⟩) :
    TakesRemote o rest ∧
      ∃ g', (paths (seqs qs) g' rest).head? = some x ∧ ∀ m, 9 < m → g' m = none := by
  rcases first_of_option [space, literal (text "raddr"), space, .group 8 connectAddressRegex,
      space, literal (text "rport"), space] hqs hn (hg 9 (by decide)) h with
    ⟨w, y, hw, hlong, hy, hnext⟩ | ⟨hnone, hnil, hnext⟩
  · cases o with
    | none =>
      rw [hw] at hx
      cases hx
    | some q =>
      obtain ⟨rfl, rfl⟩ : w = q.2.value ∧ y.2 = rest := by simpa [hw] using hx
      refine ⟨hlong, y.1, hnext, ?_⟩
      intro m hm
      have hm' : m ∉ [8, 9] := by
        simp only [List.mem_cons, List.not_mem_nil, or_false]
        omega
      rw [paths_other_group hm' hy, hg m (by omega)]
  · cases o with
    | some q =>
      rw [hnone] at hx
      cases hx
    | none =>
      obtain rfl : s = rest := hs
      refine ⟨?_, g, hnext, fun m hm => hg m (by omega)⟩
      intro q u hq hs
      have hport {g'} : ∃ y, y ∈ paths (seqs [space, literal (text "rport"), space,
          .group 9 portRegex]) g' (q.2.write "rport" u) :=
        ⟨_, (mem_paths_attribute rfl).mpr ⟨q.2, u, hq.2, rfl, mem_paths_seqs_nil.mpr rfl⟩⟩
      obtain ⟨y, hy⟩ := hport
      have hmem : y ∈ paths (seqs [space, literal (text "raddr"), space,
          .group 8 connectAddressRegex, space, literal (text "rport"), space,
          .group 9 portRegex]) g s :=
        (mem_paths_attribute rfl).mpr ⟨q.1, _, hq.1, hs, hy⟩
      have hempty : y ∈ ([] : List (Groups CodeUnit × Text)) := hnil ▸ hmem
      cases hempty

/-- The line of the first way through the expression is read greedily. -/
theorem greedy_of_first {s : Text} {x : Groups CodeUnit × Text} {l : Line}
    (h : (paths masterRegex (fun _ => none) s).head? = some x) (hx : x.1 = l.groups x.2) :
    l.Greedy x.2 := by
  rw [masterRegex, paths, List.head?_map, Option.map_eq_some_iff] at h
  obtain ⟨x', h, rfl⟩ := h
  have hgroup (n : Nat) (hn : n ≠ 0) : x'.1 n = l.groups x'.2 n := by
    rw [← hx]
    exact (Function.update_of_ne hn _ _).symm
  obtain ⟨y, hy, h⟩ := first_of_seqs_append h
  have hhead (n : Nat) (hn : 8 ≤ n) : y.1 n = none := by
    have hn' : n ∉ [1, 2, 3, 4, 5, 6] := by
      simp only [List.mem_cons, List.not_mem_nil, or_false]
      omega
    exact paths_other_group hn' hy
  obtain ⟨z, hz, h⟩ := first_of_seqs_cons (total_tail List.suffix_rfl) h
  obtain ⟨w, hzg, _, hw⟩ := first_of_captured hz
  have htype : some ⟨w, z.2⟩ = some (⟨l.type, l.afterType x'.2⟩ : Capture CodeUnit) := by
    have hkeep : x'.1 7 = z.1 7 :=
      paths_other_group (show 7 ∉ [8, 9, 10, 11, 12, 13] by decide) (List.mem_of_mem_head? h)
    rw [hzg, Function.update_self, hgroup 7 (by decide)] at hkeep
    exact hkeep.symm
  obtain ⟨rfl, hrest⟩ : w = l.type ∧ z.2 = l.afterType x'.2 := by simpa using htype
  have hznone (m : Nat) (hm : 8 ≤ m) : z.1 m = none := by
    rw [hzg, Function.update_of_ne (by omega)]
    exact hhead m hm
  obtain ⟨hremote, _, h, hnone⟩ := takesRemote_of_first (total_tail ⟨tailItems.take 1, rfl⟩)
    (show 9 ∉ [10, 11, 12, 13] by decide) hrest h hznone (hgroup 9 (by decide))
  obtain ⟨hgeneration, _, h, hnone⟩ := takesOption_of_first (total_tail ⟨tailItems.take 2, rfl⟩)
    (show 10 ∉ [11, 12, 13] by decide) rfl h hnone (hgroup 10 (by decide))
  obtain ⟨hufrag, _, h, hnone⟩ := takesOption_of_first (total_tail ⟨tailItems.take 3, rfl⟩)
    (show 11 ∉ [12, 13] by decide) rfl h hnone (hgroup 11 (by decide))
  obtain ⟨hid, _, h, hnone⟩ := takesOption_of_first (total_tail ⟨tailItems.take 4, rfl⟩)
    (show 12 ∉ [13] by decide) rfl h hnone (hgroup 12 (by decide))
  obtain ⟨hcost, _, _, _⟩ := takesOption_of_first (total_tail (List.nil_suffix))
    (show 13 ∉ [] by decide) rfl h hnone (hgroup 13 (by decide))
  exact ⟨hrest ▸ hw, hremote, hgeneration, hufrag, hid, hcost⟩

/-- A text is cut in one way only at its first white space without a digit after it. -/
theorem calm_split_unique {w w' u u' : Text} {b b' n n' : CodeUnit} (hw : calm w = true)
    (hw' : calm w' = true) (hb : isWhiteSpace b = true) (hb' : isWhiteSpace b' = true)
    (hn : isAsciiDigit n = false) (hn' : isAsciiDigit n' = false)
    (h : w ++ b :: n :: u = w' ++ b' :: n' :: u') : w = w' ∧ b = b' ∧ n :: u = n' :: u' := by
  -- Inside a calm text such a white space has a digit after it.
  have inside {v x y : Text} {b c n : CodeUnit} (hv : calm (c :: v) = true)
      (hb : isWhiteSpace b = true) (hn : isAsciiDigit n = false)
      (h : b :: n :: x = c :: v ++ y) : False := by
    obtain ⟨rfl, ht⟩ := List.cons.inj h
    rw [calm, hb, Bool.and_eq_true] at hv
    cases v with
    | nil => simp at hv
    | cons d v =>
      have hd : n = d := (List.cons.inj ht).1
      simp [← hd, hn] at hv
  induction w generalizing w' with
  | nil =>
    cases w' with
    | nil => simpa using h
    | cons c w' => exact (inside hw' hb hn h).elim
  | cons c w ih =>
    cases w' with
    | nil => exact (inside hw hb' hn' h.symm).elim
    | cons c' w' =>
      obtain ⟨rfl, ht⟩ := List.cons.inj h
      rw [calm, Bool.and_eq_true] at hw hw'
      obtain ⟨rfl, hu⟩ := ih hw.2 hw'.2 ht
      exact ⟨rfl, hu⟩

theorem field_unique {r : Pattern CodeUnit} {f f' : Field} {u u' : Text}
    (hr : ∀ w ∈ r.language, ∀ c ∈ w, isWhiteSpace c = false) (hf : f.Fits r) (hf' : f'.Fits r)
    (h : f.write u = f'.write u') : f = f' ∧ u = u' := by
  obtain ⟨hv, hb, hu⟩ := split_unique (hr _ hf.1) (hr _ hf'.1) hf.2 hf'.2 h
  exact ⟨Field.ext hv hb, hu⟩

theorem iceRegex_not_space {w : Text} (hw : w ∈ iceRegex.language) :
    ∀ c ∈ w, isWhiteSpace c = false := fun c hc => iceChar_not_space c (hw.1 c hc)

theorem tokenRegex_not_space {w : Text} (hw : w ∈ tokenRegex.language) :
    ∀ c ∈ w, isWhiteSpace c = false := fun c hc => tokenChar_not_space c (hw.1 c hc)

theorem digits_not_space {max : Option Nat} {w : Text}
    (hw : w ∈ (setLoop isAsciiDigit 1 max).language) : ∀ c ∈ w, isWhiteSpace c = false :=
  fun c hc => digit_not_space c (hw.1 c hc)

/-- The address and the port after it: the blank before `typ` is the first one that
no digit follows, and the last one before that separates the two. -/
theorem address_port_unique {a a' p p' : Field} {u u' : Text} (ha : a.Fits connectAddressRegex)
    (ha' : a'.Fits connectAddressRegex) (hp : p.Fits portRegex) (hp' : p'.Fits portRegex)
    (h : a.write (p.write (text "typ" ++ u)) = a'.write (p'.write (text "typ" ++ u'))) :
    a = a' ∧ p = p' ∧ u = u' := by
  have hcalm {a p : Field} (ha : a.Fits connectAddressRegex) (hp : p.Fits portRegex) :
      calm (a.value ++ a.blank :: p.value) = true := by
    rw [calm_append (address_calm ha.1)]
    exact calm_digits hp.1 a.blank
  have hwrite (a p : Field) (u : Text) : a.write (p.write (text "typ" ++ u)) =
      (a.value ++ a.blank :: p.value) ++ p.blank :: unit 't' :: (text "yp" ++ u) := by
    simp [Field.write, text]
  have ht : isAsciiDigit (unit 't') = false := by decide
  rw [hwrite, hwrite] at h
  obtain ⟨hboth, hblank, hu⟩ :=
    calm_split_unique (hcalm ha hp) (hcalm ha' hp') hp.2 hp'.2 ht ht h
  -- Seen from the right, the port ends at the first white space.
  have hrev := congrArg List.reverse hboth
  simp only [List.reverse_append, List.reverse_cons, List.append_assoc, List.singleton_append]
    at hrev
  have hrevspace {p : Field} (hp : p.Fits portRegex) :
      ∀ c ∈ p.value.reverse, isWhiteSpace c = false := by
    simpa using digits_not_space hp.1
  obtain ⟨hpv, hab, hav⟩ := split_unique (hrevspace hp) (hrevspace hp') ha.2 ha'.2 hrev
  rw [List.reverse_inj] at hpv hav
  exact ⟨Field.ext hav hab, Field.ext hpv hblank, by simpa [text] using hu⟩

/-- Up to its type a line can be read in one way only. -/
theorem head_unique {l l' : Line} (hl : l.WellFormed) (hl' : l'.WellFormed) {t t' : Text}
    (h : l.write t = l'.write t') :
    (l.start = l'.start ∧ l.foundation = l'.foundation ∧ l.componentId = l'.componentId ∧
      l.transport = l'.transport ∧ l.priority = l'.priority ∧ l.address = l'.address ∧
      l.port = l'.port ∧ l.typBlank = l'.typBlank) ∧ l.fromType t = l'.fromType t' := by
  have hstart : l.start = l'.start := by
    have hhead := congrArg List.head? h
    rcases hl.start with hs | hs <;> rcases hl'.start with hs' | hs' <;>
      simp [Line.write, hs, hs', text] at hhead ⊢
    all_goals exact absurd hhead (by decide)
  rw [Line.write, Line.write, hstart, List.append_cancel_left_eq, List.append_cancel_left_eq] at h
  obtain ⟨hf, h⟩ := field_unique (fun _ => iceRegex_not_space) hl.foundation hl'.foundation h
  obtain ⟨hc, h⟩ := field_unique (fun _ => digits_not_space) hl.componentId hl'.componentId h
  obtain ⟨ht, h⟩ := field_unique (fun _ => tokenRegex_not_space) hl.transport hl'.transport h
  obtain ⟨hp, h⟩ := field_unique (fun _ => digits_not_space) hl.priority hl'.priority h
  obtain ⟨ha, hport, h⟩ := address_port_unique hl.address hl'.address hl.port hl'.port h
  obtain ⟨hb, h⟩ := List.cons.inj h
  exact ⟨⟨hstart, hf, hc, ht, hp, ha, hport, hb⟩, h⟩

theorem attribute_unique {name : String} {a a' : Attribute} {u u' : Text}
    (h : a.write name u = a'.write name u') :
    a.before = a'.before ∧ a.between = a'.between ∧ a.value ++ u = a'.value ++ u' := by
  simpa [Attribute.write] using h

/-- The blank before `rport` is the first one that no digit follows. -/
theorem remote_unique {q q' : Attribute × Attribute} {u u' : Text}
    (hq : q.1.Fits connectAddressRegex ∧ q.2.Fits portRegex)
    (hq' : q'.1.Fits connectAddressRegex ∧ q'.2.Fits portRegex)
    (h : writeRemote (some q) u = writeRemote (some q') u') :
    q.1 = q'.1 ∧ q.2.before = q'.2.before ∧ q.2.between = q'.2.between ∧
      q.2.value ++ u = q'.2.value ++ u' := by
  obtain ⟨hbefore, hbetween, h⟩ := attribute_unique h
  have hr : isAsciiDigit (unit 'r') = false := by decide
  have hwrite (a : Attribute) (u : Text) :
      a.write "rport" u = a.before :: unit 'r' :: (text "port" ++ a.between :: (a.value ++ u)) := by
    simp [Attribute.write, text]
  rw [hwrite, hwrite] at h
  obtain ⟨hvalue, hblank, hu⟩ := calm_split_unique (address_calm hq.1.2.2) (address_calm hq'.1.2.2)
    hq.2.1 hq'.2.1 hr hr h
  obtain ⟨hb, hu⟩ : q.2.between = q'.2.between ∧ q.2.value ++ u = q'.2.value ++ u' := by
    simpa using hu
  exact ⟨Attribute.ext hbefore hbetween hvalue, hblank, hb, hu⟩

theorem option_unique {name : String} {p : CodeUnit → Bool} {max : Option Nat}
    {o o' : Option Attribute} {u u' : Text} (ho : ∀ a ∈ o, a.Fits (.setLoop p 1 max))
    (ho' : ∀ a ∈ o', a.Fits (.setLoop p 1 max)) (hg : TakesOption name p max o u)
    (hg' : TakesOption name p max o' u') (h : writeOption name o u = writeOption name o' u') :
    o = o' ∧ u = u' := by
  cases o with
  | none =>
    cases o' with
    | none => exact ⟨rfl, h⟩
    | some a' => exact (hg a' u' (ho' a' rfl) h).elim
  | some a =>
    cases o' with
    | none => exact (hg' a u (ho a rfl) h.symm).elim
    | some a' =>
      obtain ⟨hbefore, hbetween, h⟩ := attribute_unique h
      obtain ⟨hvalue, hu⟩ := longest_unique (ho a rfl).2.2 (ho' a' rfl).2.2 hg hg' h
      exact ⟨congrArg some (Attribute.ext hbefore hbetween hvalue), hu⟩

theorem remote_option_unique {o o' : Option (Attribute × Attribute)} {u u' : Text}
    (ho : ∀ q ∈ o, q.1.Fits connectAddressRegex ∧ q.2.Fits portRegex)
    (ho' : ∀ q ∈ o', q.1.Fits connectAddressRegex ∧ q.2.Fits portRegex)
    (hg : TakesRemote o u) (hg' : TakesRemote o' u') (h : writeRemote o u = writeRemote o' u') :
    o = o' ∧ u = u' := by
  cases o with
  | none =>
    cases o' with
    | none => exact ⟨rfl, h⟩
    | some q' => exact (hg q' u' (ho' q' rfl) h).elim
  | some q =>
    cases o' with
    | none => exact (hg' q u (ho q rfl) h.symm).elim
    | some q' =>
      obtain ⟨hfirst, hbefore, hbetween, h⟩ := remote_unique (ho q rfl) (ho' q' rfl) h
      obtain ⟨hvalue, hu⟩ := longest_unique (ho q rfl).2.2.2 (ho' q' rfl).2.2.2 hg hg' h
      exact ⟨congrArg some (Prod.ext hfirst (Attribute.ext hbefore hbetween hvalue)), hu⟩

/-- A text has at most one greedy reading. -/
theorem greedy_unique {l l' : Line} (hl : l.WellFormed) (hl' : l'.WellFormed) {t t' : Text}
    (hg : l.Greedy t) (hg' : l'.Greedy t') (h : l.write t = l'.write t') : l = l' ∧ t = t' := by
  obtain ⟨⟨hstart, hf, hc, ht, hp, ha, hport, hb⟩, h⟩ := head_unique hl hl' h
  obtain ⟨htype, h⟩ := longest_unique hl.type hl'.type hg.type hg'.type h
  obtain ⟨hremote, h⟩ := remote_option_unique hl.remote hl'.remote hg.remote hg'.remote h
  obtain ⟨hgen, h⟩ := option_unique hl.generation hl'.generation hg.generation hg'.generation h
  obtain ⟨hufrag, h⟩ := option_unique hl.ufrag hl'.ufrag hg.ufrag hg'.ufrag h
  obtain ⟨hid, h⟩ := option_unique hl.networkId hl'.networkId hg.networkId hg'.networkId h
  obtain ⟨hcost, h⟩ := option_unique hl.networkCost hl'.networkCost hg.networkCost hg'.networkCost h
  refine ⟨?_, h⟩
  cases l
  cases l'
  simp_all

/-- No attribute of these names can be read at the start of the text. -/
def Stuck (names : List String) (u : Text) : Prop :=
  ∀ name ∈ names, ∀ (a : Attribute) (v : Text), isWhiteSpace a.before = true →
    isWhiteSpace a.between = true → u ≠ a.write name v

theorem stuck_of_not_space {c : CodeUnit} (hc : isWhiteSpace c = false) (names : List String)
    (u : Text) : Stuck names (c :: u) := by
  intro name _ a v hb _ h
  rw [← (List.cons.inj h).1, hc] at hb
  cases hb

theorem stuck_nil (names : List String) : Stuck names [] := by
  intro name _ a u _ _ h
  cases h

def attributeNames : List String := ["raddr", "generation", "ufrag", "network-id", "network-cost"]

/-- Two attribute names are never confused: they have no white space, and white space
follows them. -/
theorem name_unique {n m : String} (hn : n ∈ attributeNames) (hm : m ∈ attributeNames)
    {a b : Attribute} {u v : Text} (ha : isWhiteSpace a.between = true)
    (hb : isWhiteSpace b.between = true) (h : a.write n u = b.write m v) : n = m := by
  have hnames : ∀ n ∈ attributeNames, (text n).all (fun c => !isWhiteSpace c) = true := by decide
  have hspace : ∀ n ∈ attributeNames, ∀ c ∈ text n, isWhiteSpace c = false := by
    intro n hn c hc
    simpa using List.all_eq_true.mp (hnames n hn) c hc
  have hinj : ∀ n ∈ attributeNames, ∀ m ∈ attributeNames, text n = text m → n = m := by decide
  obtain ⟨heq, _⟩ := split_unique (hspace n hn) (hspace m hm) ha hb (List.cons.inj h).2
  exact hinj n hn m hm heq

theorem stuck_of_name {n : String} {names : List String} (hn : n ∈ attributeNames)
    (hnames : ∀ m ∈ names, m ∈ attributeNames ∧ m ≠ n) {a : Attribute}
    (ha : isWhiteSpace a.between = true) (u : Text) : Stuck names (a.write n u) := by
  intro m hm b v _ hb h
  exact (hnames m hm).2 (name_unique hn (hnames m hm).1 ha hb h).symm

/-- Where a greedy loop and another reading of it part, the other one is stuck. -/
theorem loop_stage {p : CodeUnit → Bool} {max : Option Nat} {w w' u u' : Text}
    (names : List String) (hp : ∀ c, p c = true → isWhiteSpace c = false)
    (hw : w ∈ (setLoop p 1 max).language) (hw' : w' ∈ (setLoop p 1 max).language)
    (hl : Longest p max w u) (h : w ++ u = w' ++ u') :
    u = u' ∨ u.length ≤ u'.length ∧ Stuck names u' := by
  have hle := longest_le hw' hl h
  obtain ⟨z, rfl⟩ : w' <+: w :=
    List.prefix_of_prefix_length_le ⟨u', h.symm⟩ (List.prefix_append w u) hle
  rw [List.append_assoc, List.append_cancel_left_eq] at h
  subst h
  cases z with
  | nil => exact Or.inl rfl
  | cons c z =>
    refine Or.inr ⟨by simp; omega, ?_⟩
    exact stuck_of_not_space (hp c (hw.1 c (by simp))) names _

theorem length_le_writeOption (name : String) (o : Option Attribute) (u : Text) :
    u.length ≤ (writeOption name o u).length := by
  cases o with
  | none => exact le_refl _
  | some a =>
    simp only [writeOption, Attribute.write, List.length_cons, List.length_append]
    omega

theorem option_stage {name : String} {p : CodeUnit → Bool} {max : Option Nat}
    {o o' : Option Attribute} {u u' : Text} (names : List String) (hn : name ∈ attributeNames)
    (hnames : ∀ m ∈ names, m ∈ attributeNames ∧ m ≠ name)
    (hp : ∀ c, p c = true → isWhiteSpace c = false)
    (ho : ∀ a ∈ o, a.Fits (.setLoop p 1 max)) (ho' : ∀ a ∈ o', a.Fits (.setLoop p 1 max))
    (hg : TakesOption name p max o u) (h : writeOption name o u = writeOption name o' u') :
    u = u' ∨ u.length ≤ u'.length ∧ Stuck names u' := by
  cases o with
  | none =>
    cases o' with
    | none => exact Or.inl h
    | some a' => exact (hg a' u' (ho' a' rfl) h).elim
  | some a =>
    cases o' with
    | none =>
      refine Or.inr ?_
      rw [← show writeOption name (some a) u = u' from h]
      exact ⟨length_le_writeOption name (some a) u, stuck_of_name hn hnames (ho a rfl).2.1 u⟩
    | some a' =>
      exact loop_stage names hp (ho a rfl).2.2 (ho' a' rfl).2.2 hg (attribute_unique h).2.2

theorem remote_stage {o o' : Option (Attribute × Attribute)} {u u' : Text} (names : List String)
    (hnames : ∀ m ∈ names, m ∈ attributeNames ∧ m ≠ "raddr")
    (ho : ∀ q ∈ o, q.1.Fits connectAddressRegex ∧ q.2.Fits portRegex)
    (ho' : ∀ q ∈ o', q.1.Fits connectAddressRegex ∧ q.2.Fits portRegex)
    (hg : TakesRemote o u) (h : writeRemote o u = writeRemote o' u') :
    u = u' ∨ u.length ≤ u'.length ∧ Stuck names u' := by
  cases o with
  | none =>
    cases o' with
    | none => exact Or.inl h
    | some q' => exact (hg q' u' (ho' q' rfl) h).elim
  | some q =>
    cases o' with
    | none =>
      refine Or.inr ?_
      rw [← show writeRemote (some q) u = u' from h]
      refine ⟨?_, stuck_of_name (by decide) hnames (ho q rfl).1.2.1 _⟩
      simp only [writeRemote, Attribute.write, List.length_cons, List.length_append]
      omega
    | some q' =>
      exact loop_stage names digit_not_space (ho q rfl).2.2.2 (ho' q' rfl).2.2.2 hg
        (remote_unique (ho q rfl) (ho' q' rfl) h).2.2.2

theorem writeOption_of_stuck {name : String} {names : List String} {r : Pattern CodeUnit}
    {o : Option Attribute} {u : Text} (ho : ∀ a ∈ o, a.Fits r)
    (h : Stuck (name :: names) (writeOption name o u)) :
    writeOption name o u = u ∧ Stuck names u := by
  cases o with
  | none => exact ⟨rfl, fun m hm => h m (by simp [hm])⟩
  | some a => exact (h name (by simp) a u (ho a rfl).1 (ho a rfl).2.1 rfl).elim

section
variable {l : Line} (hl : l.WellFormed) {t : Text}
include hl

theorem afterNetworkId_of_stuck (h : Stuck ["network-cost"] (l.afterNetworkId t)) :
    l.afterNetworkId t = t :=
  (writeOption_of_stuck hl.networkCost h).1

theorem afterUfrag_of_stuck (h : Stuck ["network-id", "network-cost"] (l.afterUfrag t)) :
    l.afterUfrag t = t := by
  obtain ⟨heq, h⟩ := writeOption_of_stuck hl.networkId h
  exact heq.trans (afterNetworkId_of_stuck hl h)

theorem afterGeneration_of_stuck
    (h : Stuck ["ufrag", "network-id", "network-cost"] (l.afterGeneration t)) :
    l.afterGeneration t = t := by
  obtain ⟨heq, h⟩ := writeOption_of_stuck hl.ufrag h
  exact heq.trans (afterUfrag_of_stuck hl h)

theorem afterRemote_of_stuck
    (h : Stuck ["generation", "ufrag", "network-id", "network-cost"] (l.afterRemote t)) :
    l.afterRemote t = t := by
  obtain ⟨heq, h⟩ := writeOption_of_stuck hl.generation h
  exact heq.trans (afterGeneration_of_stuck hl h)

theorem afterType_of_stuck (h : Stuck attributeNames (l.afterType t)) : l.afterType t = t := by
  unfold Line.afterType at h ⊢
  cases hr : l.remote with
  | none =>
    rw [hr] at h
    exact afterRemote_of_stuck hl fun m hm => h m (List.mem_cons_of_mem _ hm)
  | some q =>
    obtain ⟨hq, _⟩ := hl.remote q hr
    rw [hr] at h
    exact (h "raddr" (by decide) q.1 _ hq.1 hq.2.1 rfl).elim

end

section
variable {l l' : Line} (hl : l.WellFormed) (hl' : l'.WellFormed) {t t' : Text} (hg : l.Greedy t)
include hl hl' hg

private theorem longest_afterNetworkId (h : l.afterNetworkId t = l'.afterNetworkId t') :
    t.length ≤ t'.length := by
  rcases option_stage [] (by decide) (by decide) digit_not_space hl.networkCost hl'.networkCost
    hg.networkCost h with h | ⟨hle, _⟩
  · rw [h]
  · exact hle

private theorem longest_afterUfrag (h : l.afterUfrag t = l'.afterUfrag t') :
    t.length ≤ t'.length := by
  rcases option_stage ["network-cost"] (by decide) (by decide) digit_not_space hl.networkId
    hl'.networkId hg.networkId h with h | ⟨hle, hs⟩
  · exact longest_afterNetworkId hl hl' hg h
  · rw [afterNetworkId_of_stuck hl' hs] at hle
    exact (length_le_writeOption _ _ _).trans hle

private theorem longest_afterGeneration (h : l.afterGeneration t = l'.afterGeneration t') :
    t.length ≤ t'.length := by
  rcases option_stage ["network-id", "network-cost"] (by decide) (by decide) iceChar_not_space
    hl.ufrag hl'.ufrag hg.ufrag h with h | ⟨hle, hs⟩
  · exact longest_afterUfrag hl hl' hg h
  · rw [afterUfrag_of_stuck hl' hs] at hle
    exact (length_le_writeOption _ _ _).trans ((length_le_writeOption _ _ _).trans hle)

private theorem longest_afterRemote (h : l.afterRemote t = l'.afterRemote t') :
    t.length ≤ t'.length := by
  rcases option_stage ["ufrag", "network-id", "network-cost"] (by decide) (by decide)
    (fun _ => not_isWhiteSpace_of_decimalDigit) hl.generation hl'.generation hg.generation h
    with h | ⟨hle, hs⟩
  · exact longest_afterGeneration hl hl' hg h
  · rw [afterGeneration_of_stuck hl' hs] at hle
    exact (length_le_writeOption _ _ _).trans ((length_le_writeOption _ _ _).trans
      ((length_le_writeOption _ _ _).trans hle))

private theorem longest_afterType (h : l.afterType t = l'.afterType t') :
    t.length ≤ t'.length := by
  rcases remote_stage ["generation", "ufrag", "network-id", "network-cost"] (by decide) hl.remote
    hl'.remote hg.remote h with h | ⟨hle, hs⟩
  · exact longest_afterRemote hl hl' hg h
  · rw [afterRemote_of_stuck hl' hs, l.afterRemote_append t, List.length_append] at hle
    omega

/-- A greedy reading leaves no more than any other reading of the same text. -/
theorem greedy_longest (h : l.write t = l'.write t') : t.length ≤ t'.length := by
  obtain ⟨_, h⟩ := head_unique hl hl' h
  rcases loop_stage attributeNames tokenChar_not_space hl.type hl'.type hg.type h with h | ⟨hle, hs⟩
  · exact longest_afterType hl hl' hg h
  · rw [afterType_of_stuck hl' hs, l.afterType_append t, List.length_append] at hle
    omega

end

theorem mem_language_master {w : Text} :
    w ∈ masterRegex.language ↔ ∃ l : Line, l.WellFormed ∧ w = l.write [] := by
  constructor
  · intro hw
    obtain ⟨g, hg⟩ := paths_complete masterRegex (fun _ => none) [] w hw
    obtain ⟨l, hl, hs, _⟩ := line_of_mem_paths hg
    exact ⟨l, hl, by simpa using hs⟩
  · intro ⟨l, hl, hw⟩
    obtain ⟨v, hv, hs⟩ := paths_sound _ _ _ _ (mem_paths_of_line hl [])
    rw [hw, hs]
    simpa using hv

/-- The leftmost match reads the leftmost and there longest occurrence of the
expression's form, and reads it greedily. -/
theorem reading_of_search {s : Text} {g : Groups CodeUnit} (h : search masterRegex s = some g) :
    ∃ (l : Line) (p t : Text), l.WellFormed ∧ l.Greedy t ∧ g = l.groups t ∧
      LeftmostLongest masterRegex s p (l.write []) t := by
  obtain ⟨p, u, hs, hm, hfirst⟩ := search_eq_some h
  rw [matchHere_eq_head] at hm
  obtain ⟨x, hx, rfl⟩ := Option.map_eq_some_iff.mp hm
  obtain ⟨l, hl, hu, hg⟩ := line_of_mem_paths (List.mem_of_mem_head? hx)
  have hgreedy := greedy_of_first hx hg
  refine ⟨l, p, x.2, hl, hgreedy, hg, ?_, mem_language_master.mpr ⟨l, hl, rfl⟩, ?_, ?_⟩
  · rw [← l.write_append, ← hu, hs]
  · intro p' w' t' hs' hw'
    by_contra hlt
    have hnone := hfirst p' (w' ++ t') hs' (by omega)
    have hsome := matchHere_isSome_iff.mpr ⟨w', hw', t', rfl⟩
    rw [hnone] at hsome
    cases hsome
  · intro w' t' hs' hw'
    obtain ⟨l', hl', rfl⟩ := mem_language_master.mp hw'
    have heq : l.write x.2 = l'.write t' := by
      rw [← hu, l'.write_append]
      exact List.append_cancel_left (hs.symm.trans hs')
    have hle := greedy_longest hl hl' hgreedy heq
    have hlen := congrArg List.length heq
    rw [l.write_append, l'.write_append, List.length_append, List.length_append] at hlen
    omega

end Spitfire.Ice
