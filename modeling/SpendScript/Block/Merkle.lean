/-!
# SpendScript.Block.Merkle

The hash tree over a list. Every level is half as long as the one below it: neighbours are hashed
together, and a last one without a neighbour is hashed with itself.
-/

namespace SpendScript.Merkle

variable {α : Type}

/-- The level above a level. -/
def pairUp (hash : α → α → α) : List α → List α
  | [] => []
  | [a] => [hash a a]
  | a :: b :: rest => hash a b :: pairUp hash rest

theorem length_pairUp (hash : α → α → α) (level : List α) :
    (pairUp hash level).length = (level.length + 1) / 2 := by
  fun_induction pairUp hash level with
  | case1 => simp
  | case2 a => simp
  | case3 a b rest ih =>
    simp only [List.length_cons, ih]
    omega

/-- The top of the tree over a level; an empty level has none. -/
def root? (hash : α → α → α) : List α → Option α
  | [] => none
  | [a] => some a
  | a :: b :: rest => root? hash (pairUp hash (a :: b :: rest))
termination_by level => level.length
decreasing_by
  rw [length_pairUp]
  simp only [List.length_cons]
  omega

end SpendScript.Merkle
