import Spitfire.Transition.Fallible
import Spitfire.Transition.Run

/-! Machines that answer. A step puts something out, or ends the run with a failure, and two
machines are compared by what can be seen of their runs. -/
namespace Spitfire.Transition
variable {σ τ α ω φ : Type}

/-- The states that the machine goes through. -/
def silent (next : σ → α → Except φ (ω × σ)) (s : σ) (a : α) : Option σ :=
  (next s a).toOption.map Prod.snd

end Spitfire.Transition
