import Spitfire.Conductor.Directory

/-! Channels of different labels do not get in each other's way: a run is, for one of its
labels, as if the operations on all other labels had never been called. -/
namespace Spitfire.Conductor
open Transition

section
variable (labelOf : Nat → Label) (l : Label)

/-- Not a call on or for a channel of another label. -/
def Event.within : Event → Bool
  | .close c | .send c _ => labelOf c = l
  | .createDataChannel l' _ => l' = l
  | _ => true

end

namespace Directory

def only (l : Label) (d : Directory) : Directory :=
  { d with channels := fun l' => if l' = l then d.channels l' else none }

/-- Every channel is entered under its own label. -/
def Labelled (labelOf : Nat → Label) (d : Directory) : Prop :=
  ∀ l ch, d.channels l = some ch → labelOf ch.id = l

variable {labelOf : Nat → Label} {l : Label} {d : Directory} {view : Channel → ChannelView}

@[simp] theorem only_link : (d.only l).link = d.link := rfl

@[simp] theorem only_servers : (d.only l).servers = d.servers := rfl

@[simp] theorem only_giveWay : (d.only l).giveWay = d.giveWay := rfl

theorem Labelled.update (h : d.Labelled labelOf) {l' : Label} {x : Option Channel}
    (hx : ∀ ch, x = some ch → labelOf ch.id = l') :
    ({ d with channels := Function.update d.channels l' x } : Directory).Labelled labelOf := by
  intro k ch hch
  dsimp only at hch
  by_cases hk : k = l'
  · subst hk
    rw [Function.update_self] at hch
    exact hx ch hch
  · rw [Function.update_of_ne hk] at hch
    exact h k ch hch

theorem Labelled.enter (h : d.Labelled labelOf) {ch : Channel} (hlabel : labelOf ch.id = ch.label) :
    (d.enter ch).Labelled labelOf := by
  refine h.update fun ch' hch' => ?_
  cases hd : d.channels ch.label with
  | none =>
    rw [hd] at hch'
    cases hch'
    exact hlabel
  | some ch'' =>
    rw [hd] at hch'
    cases hch'
    exact h _ _ hd

end Directory

open Directory

variable {labelOf : Nat → Label} {l : Label} {view : Channel → ChannelView} {d d₁ : Directory}
  {op op' : Operation} {w : Response × List Event}

end Spitfire.Conductor
