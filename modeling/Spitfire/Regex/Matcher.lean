import Mathlib.Logic.Function.Basic

/-! Backtracking regular expressions with greedy quantifiers and captures.
The matcher passes the rest of the expression as a continuation and returns its
first success, so the order in which alternatives are tried decides the captures. -/
namespace Spitfire.Regex

/-- A captured text, with the input that follows it. -/
structure Capture (α : Type) where
  value : List α
  rest : List α
  deriving DecidableEq, Repr

/-- The last capture of every group; `none` for a group that took no part. -/
abbrev Groups (α : Type) := Nat → Option (Capture α)

inductive Pattern (α : Type) where
  | empty
  | set (p : α → Bool)
  | seq (a b : Pattern α)
  | alt (a b : Pattern α)
  | opt (a : Pattern α)
  | setLoop (p : α → Bool) (min : Nat) (max : Option Nat)
  | plus (a : Pattern α)
  | group (n : Nat) (a : Pattern α)

variable {α β : Type}

namespace Pattern

def literal [DecidableEq α] : List α → Pattern α
  | [] => .empty
  | a :: w => .seq (.set fun b => b = a) (literal w)

def seqs : List (Pattern α) → Pattern α
  | [] => .empty
  | a :: as => .seq a (seqs as)

/-- The groups of the expression, from left to right. -/
def groupNumbers : Pattern α → List Nat
  | .empty | .set _ | .setLoop _ _ _ => []
  | .seq a b | .alt a b => a.groupNumbers ++ b.groupNumbers
  | .opt a | .plus a => a.groupNumbers
  | .group n a => n :: a.groupNumbers

@[simp] theorem groupNumbers_literal [DecidableEq α] (w : List α) :
    (literal w).groupNumbers = [] := by
  induction w with
  | nil => rfl
  | cons a w ih => simp [literal, groupNumbers, ih]

end Pattern

/-- What a greedy loop over one character class can leave, longest match first. -/
def loopRests (p : α → Bool) : Nat → Option Nat → List α → List (List α)
  | min, _, [] => if min = 0 then [[]] else []
  | min, max, a :: s =>
    (if p a && max != some 0 then loopRests p (min - 1) (max.map (· - 1)) s else []) ++
      if min = 0 then [a :: s] else []

/-- One more iteration is tried only after an iteration that consumed input;
after an empty one the loop is left at once. -/
def iterate (body : (Groups α → List α → Option β) → Groups α → List α → Option β)
    (k : Groups α → List α → Option β) : Nat → Groups α → List α → Option β
  | 0, g, s => body k g s
  | n + 1, g, s => body (fun g' t =>
      if t.length < s.length then (iterate body k n g' t).or (k g' t) else k g' t) g s

def exec : Pattern α → (Groups α → List α → Option β) → Groups α → List α → Option β
  | .empty, k, g, s => k g s
  | .set _, _, _, [] => none
  | .set p, k, g, a :: s => if p a then k g s else none
  | .seq a b, k, g, s => exec a (exec b k) g s
  | .alt a b, k, g, s => (exec a k g s).or (exec b k g s)
  | .opt a, k, g, s => (exec a k g s).or (k g s)
  | .setLoop p min max, k, g, s => (loopRests p min max s).findSome? (k g)
  | .plus a, k, g, s => iterate (exec a) k s.length g s
  | .group n a, k, g, s => exec a (fun g' t =>
      k (Function.update g' n (some ⟨s.take (s.length - t.length), t⟩)) t) g s

/-- Match at the very start of the input. -/
def matchHere (r : Pattern α) (s : List α) : Option (Groups α) :=
  exec r (fun g _ => some g) (fun _ => none) s

/-- Leftmost match: later starting points are tried only when all earlier ones fail. -/
def search (r : Pattern α) : List α → Option (Groups α)
  | [] => matchHere r []
  | a :: s => (matchHere r (a :: s)).or (search r s)

def iteratePaths (body : Groups α → List α → List (Groups α × List α)) :
    Nat → Groups α → List α → List (Groups α × List α)
  | 0, g, s => body g s
  | n + 1, g, s => (body g s).flatMap fun x =>
      if x.2.length < s.length then iteratePaths body n x.1 x.2 ++ [x] else [x]

/-- All ways through the expression, in the order in which the matcher tries them. -/
def paths : Pattern α → Groups α → List α → List (Groups α × List α)
  | .empty, g, s => [(g, s)]
  | .set _, _, [] => []
  | .set p, g, a :: s => if p a then [(g, s)] else []
  | .seq a b, g, s => (paths a g s).flatMap fun x => paths b x.1 x.2
  | .alt a b, g, s => paths a g s ++ paths b g s
  | .opt a, g, s => paths a g s ++ [(g, s)]
  | .setLoop p min max, g, s => (loopRests p min max s).map fun t => (g, t)
  | .plus a, g, s => iteratePaths (paths a) s.length g s
  | .group n a, g, s => (paths a g s).map fun x =>
      (Function.update x.1 n (some ⟨s.take (s.length - x.2.length), x.2⟩), x.2)

private theorem findSome_flatMap {γ : Type} (f : α → List β) (k : β → Option γ) (l : List α) :
    (l.flatMap f).findSome? k = l.findSome? fun x => (f x).findSome? k := by
  induction l with
  | nil => rfl
  | cons x l ih =>
    rw [List.flatMap_cons, List.findSome?_append, ih, List.findSome?_cons]
    cases (f x).findSome? k <;> rfl

private theorem iterate_eq
    (body : (Groups α → List α → Option β) → Groups α → List α → Option β)
    (all : Groups α → List α → List (Groups α × List α))
    (h : ∀ k g s, body k g s = (all g s).findSome? fun x => k x.1 x.2)
    (k : Groups α → List α → Option β) (n : Nat) (g : Groups α) (s : List α) :
    iterate body k n g s = (iteratePaths all n g s).findSome? fun x => k x.1 x.2 := by
  induction n generalizing g s with
  | zero => exact h k g s
  | succ n ih =>
    rw [iterate, iteratePaths, h, findSome_flatMap]
    congr 1
    funext x
    split
    · rw [List.findSome?_append, ih]
      simp
    · simp

/-- The matcher returns the first way through that its continuation accepts. -/
theorem exec_eq_findSome (r : Pattern α) (k : Groups α → List α → Option β)
    (g : Groups α) (s : List α) :
    exec r k g s = (paths r g s).findSome? fun x => k x.1 x.2 := by
  induction r generalizing k g s with
  | empty => simp [exec, paths]
  | set p =>
    cases s with
    | nil => rfl
    | cons a s => simp only [exec, paths]; split <;> simp
  | seq a b ia ib =>
    rw [exec, paths, findSome_flatMap, ia]
    congr 1
    funext x
    exact ib k x.1 x.2
  | alt a b ia ib => rw [exec, paths, List.findSome?_append, ia, ib]
  | opt a ia =>
    rw [exec, paths, List.findSome?_append, ia]
    simp
  | setLoop p min max =>
    rw [exec, paths, List.findSome?_map]
    rfl
  | plus a ia => exact iterate_eq (exec a) (paths a) ia k s.length g s
  | group n a ia =>
    rw [exec, paths, List.findSome?_map, ia]
    rfl

theorem matchHere_eq_head (r : Pattern α) (s : List α) :
    matchHere r s = (paths r (fun _ => none) s).head?.map Prod.fst := by
  rw [matchHere, exec_eq_findSome]
  cases paths r (fun _ => none) s <;> rfl

end Spitfire.Regex
