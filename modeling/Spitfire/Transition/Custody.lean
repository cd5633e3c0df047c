import Mathlib.Data.List.Basic

/-! Linear ownership. A ledger says in order what a program has done with the objects that
became its own; objects that are never mixed up can be accounted for separately. -/
namespace Spitfire.Transition

inductive Handling where
  | acquired | read | handedOver | released
  deriving DecidableEq, Repr

def Handling.givesUp : Handling → Bool
  | handedOver | released => true
  | acquired | read => false

variable {κ : Type} [DecidableEq κ]

/-- How often an object has been given up. -/
def surrenders (o : κ) (ledger : List (κ × Handling)) : Nat :=
  ledger.countP fun e => e.1 = o ∧ e.2.givesUp = true

/-- Every object that was acquired has been given up once, and nothing is done with an
object after that. -/
structure Linear (ledger : List (κ × Handling)) : Prop where
  once : ∀ o, (o, .acquired) ∈ ledger → surrenders o ledger = 1
  last : ledger.Pairwise fun e e' => e.1 = e'.1 → e.2.givesUp = false

/-- The same for what was done with one object. -/
structure Discharged (hs : List Handling) : Prop where
  once : .acquired ∈ hs → hs.countP Handling.givesUp = 1
  last : hs.Pairwise fun h _ => h.givesUp = false

instance Discharged.decidable (hs : List Handling) : Decidable (Discharged hs) :=
  decidable_of_iff ((.acquired ∈ hs → hs.countP Handling.givesUp = 1) ∧
    hs.Pairwise fun h _ => h.givesUp = false) ⟨fun h => ⟨h.1, h.2⟩, fun h => ⟨h.once, h.last⟩⟩

theorem linear_nil : Linear ([] : List (κ × Handling)) :=
  ⟨fun _ h => (List.not_mem_nil h).elim, List.Pairwise.nil⟩

theorem linear_entries_iff (o : κ) (hs : List Handling) :
    Linear (hs.map fun h => (o, h)) ↔ Discharged hs := by
  have hcount : surrenders o (hs.map fun h => (o, h)) = hs.countP Handling.givesUp := by
    simp [surrenders, List.countP_map, Function.comp_def]
  constructor
  · intro h
    refine ⟨fun hacquired => ?_, ?_⟩
    · rw [← hcount]
      exact h.once o (List.mem_map.mpr ⟨_, hacquired, rfl⟩)
    · exact (List.pairwise_map.mp h.last).imp fun hlast => hlast rfl
  · intro h
    refine ⟨fun o' hacquired => ?_, ?_⟩
    · obtain ⟨h', hh', heq⟩ := List.mem_map.mp hacquired
      cases heq
      rw [hcount]
      exact h.once hh'
    · rw [List.pairwise_map]
      refine h.last.imp ?_
      intro h₁ h₂ hlast _
      exact hlast

theorem surrenders_eq_zero {o : κ} {ledger : List (κ × Handling)}
    (h : ∀ e ∈ ledger, e.1 ≠ o) : surrenders o ledger = 0 := by
  rw [surrenders, List.countP_eq_zero]
  intro e he
  simp [h e he]

/-- Ledgers about different objects do not interfere. -/
theorem linear_append_iff {l l' : List (κ × Handling)} (hapart : ∀ e ∈ l, ∀ e' ∈ l', e.1 ≠ e'.1) :
    Linear (l ++ l') ↔ Linear l ∧ Linear l' := by
  have hcount (o : κ) : surrenders o (l ++ l') = surrenders o l + surrenders o l' :=
    List.countP_append
  have hleft {o : κ} (ho : (o, .acquired) ∈ l) : surrenders o l' = 0 :=
    surrenders_eq_zero fun e' he' heq => hapart _ ho e' he' heq.symm
  have hright {o : κ} (ho : (o, .acquired) ∈ l') : surrenders o l = 0 :=
    surrenders_eq_zero fun e he heq => hapart e he _ ho heq
  constructor
  · intro h
    obtain ⟨hl, hl', _⟩ := List.pairwise_append.mp h.last
    refine ⟨⟨fun o ho => ?_, hl⟩, ⟨fun o ho => ?_, hl'⟩⟩
    · have honce := h.once o (List.mem_append_left _ ho)
      rw [hcount, hleft ho] at honce
      exact honce
    · have honce := h.once o (List.mem_append_right _ ho)
      rw [hcount, hright ho] at honce
      omega
  · rintro ⟨hl, hl'⟩
    refine ⟨fun o ho => ?_, List.pairwise_append.mpr ⟨hl.last, hl'.last, ?_⟩⟩
    · rw [hcount]
      rcases List.mem_append.mp ho with ho | ho
      · rw [hl.once o ho, hleft ho]
      · rw [hl'.once o ho, hright ho]
    · exact fun e he e' he' heq => (hapart e he e' he' heq).elim

end Spitfire.Transition
