import SpendScript.Eval.Number

/-!
# SpendScript.Eval.Stack

A stack of byte strings, top first, and the operations on it. An operation that finds too few items
fails and names the first place it missed, counted from the top.
-/

namespace SpendScript

abbrev Stack := List Bytes

namespace Stack

def depth (s : Stack) : Nat := s.length

/-- The item at a place, the top being place 0. -/
def peek (i : Nat) (s : Stack) : Except Fault Bytes :=
  match s[i]? with
  | some x => .ok x
  | none => .error (.badIndex i s.length)

/-- Takes the item at a place off the stack. -/
def removeAt (i : Nat) (s : Stack) : Except Fault (Bytes × Stack) :=
  match s[i]? with
  | some x => .ok (x, s.eraseIdx i)
  | none => .error (.badIndex i s.length)

def pop : Stack → Except Fault (Bytes × Stack)
  | [] => .error (.badIndex 0 0)
  | x :: s => .ok (x, s)

/-- The top `n` items, topmost first, and the rest. -/
def popMany (n : Nat) (s : Stack) : Except Fault (List Bytes × Stack) :=
  if n ≤ s.length then .ok (s.take n, s.drop n) else .error (.badIndex 0 0)

def popNumber (rule : NumberRule) (s : Stack) : Except Fault (Int × Stack) :=
  match s.pop with
  | .error e => .error e
  | .ok (x, s') =>
    match Number.decode rule x with
    | .error e => .error e
    | .ok n => .ok (n, s')

def peekNumber (rule : NumberRule) (i : Nat) (s : Stack) : Except Fault Int :=
  match s.peek i with
  | .error e => .error e
  | .ok x => Number.decode rule x

def popBool (s : Stack) : Except Fault (Bool × Stack) :=
  match s.pop with
  | .error e => .error e
  | .ok (x, s') => .ok (Number.truth x, s')

def pushNumber (n : Int) (s : Stack) : Stack := Number.encode n :: s

def pushBool (b : Bool) (s : Stack) : Stack := Number.ofBool b :: s

/-- `x1 x2` becomes `x2 x1 x2`, the top being last. -/
def tuck : Stack → Except Fault Stack
  | a :: b :: s => .ok (a :: b :: a :: s)
  | _ => .error (.badIndex 0 0)

def dropN (n : Nat) (s : Stack) : Except Fault Stack :=
  if n ≤ s.length then .ok (s.drop n) else .error (.badIndex (n - 1) s.length)

def pick (i : Nat) (s : Stack) : Except Fault Stack :=
  match s.peek i with
  | .error e => .error e
  | .ok x => .ok (x :: s)

def roll (i : Nat) (s : Stack) : Except Fault Stack :=
  match s.removeAt i with
  | .error e => .error e
  | .ok (x, s') => .ok (x :: s')

/-- Repeats an operation up to the first time that it fails; with the outcome comes the stack as it
is left then. -/
def repeated (op : Stack → Except Fault Stack) : Nat → Stack → Stack × Except Fault Unit
  | 0, s => (s, .ok ())
  | n + 1, s =>
    match op s with
    | .error e => (s, .error e)
    | .ok s' => repeated op n s'

/-- The stack that is left, unless there is a fault. -/
def settled : Stack × Except Fault Unit → Except Fault Stack
  | (s, .ok _) => .ok s
  | (_, .error e) => .error e

/-- Copies the top group of `n` items to the top. Each round finds the next item of the group at the
same place, and so does each round of the operations below. -/
def dupGroup (n : Nat) : Stack → Stack × Except Fault Unit := repeated (pick (n - 1)) n

/-- Swaps the two top groups of `n` items. -/
def swapGroups (n : Nat) : Stack → Stack × Except Fault Unit := repeated (roll (2 * n - 1)) n

/-- Copies the second group of `n` items to the top. -/
def overGroup (n : Nat) : Stack → Stack × Except Fault Unit := repeated (pick (2 * n - 1)) n

/-- Moves the third group of `n` items to the top. -/
def rotGroups (n : Nat) : Stack → Stack × Except Fault Unit := repeated (roll (3 * n - 1)) n

def dupN (n : Nat) (s : Stack) : Except Fault Stack := settled (s.dupGroup n)

def swapN (n : Nat) (s : Stack) : Except Fault Stack := settled (s.swapGroups n)

def overN (n : Nat) (s : Stack) : Except Fault Stack := settled (s.overGroup n)

def rotN (n : Nat) (s : Stack) : Except Fault Stack := settled (s.rotGroups n)

/-- Takes an item off below the top. -/
def nip (s : Stack) : Except Fault Stack :=
  match s.removeAt 1 with
  | .error e => .error e
  | .ok (_, s') => .ok s'

def ifDup (s : Stack) : Except Fault Stack :=
  match s.peek 0 with
  | .error e => .error e
  | .ok x => .ok (if Number.truth x then x :: s else s)

/-- Takes the top number for a place on the stack below it. -/
def popPlace (rule : NumberRule) (s : Stack) : Except Fault (Nat × Stack) :=
  match s.popNumber rule with
  | .error e => .error e
  | .ok (n, s') =>
    let place := Number.clamp32 n
    if place < 0 then .error (.negativeIndex place) else .ok (place.toNat, s')

def pickTop (rule : NumberRule) (s : Stack) : Except Fault Stack :=
  match s.popPlace rule with
  | .error e => .error e
  | .ok (i, s') => s'.pick i

def rollTop (rule : NumberRule) (s : Stack) : Except Fault Stack :=
  match s.popPlace rule with
  | .error e => .error e
  | .ok (i, s') => s'.roll i

def size (s : Stack) : Except Fault Stack :=
  match s.peek 0 with
  | .error e => .error e
  | .ok x => .ok (s.pushNumber x.length)

/-- Replaces the two top items by whether they are equal. -/
def equal : Stack → Except Fault Stack
  | a :: b :: s => .ok (pushBool (a == b) s)
  | _ => .error (.badIndex 0 0)

def digest {n : Nat} (hash : Bytes → Digest n) : Stack → Except Fault Stack
  | [] => .error (.badIndex 0 0)
  | x :: s => .ok ((hash x).bytes :: s)

/-- Pushes a number that must fit 64 bits. -/
def pushFitting (n : Int) (s : Stack) : Except Fault Stack :=
  if Number.fits n then .ok (s.pushNumber n) else .error .overflow

def unary (rule : NumberRule) (f : Int → Int) (s : Stack) : Except Fault Stack :=
  match s.popNumber rule with
  | .error e => .error e
  | .ok (a, s') => s'.pushFitting (f a)

/-- The two top numbers, the lower one first, and the rest. -/
def popTwo (rule : NumberRule) (s : Stack) : Except Fault (Int × Int × Stack) :=
  match s.popNumber rule with
  | .error e => .error e
  | .ok (b, s') =>
    match s'.popNumber rule with
    | .error e => .error e
    | .ok (a, s'') => .ok (a, b, s'')

/-- Replaces the numbers `a` and `b`, the latter on top, by `f a b`. -/
def binary (rule : NumberRule) (f : Int → Int → Int) (s : Stack) : Except Fault Stack :=
  match s.popTwo rule with
  | .error e => .error e
  | .ok (a, b, s') => s'.pushFitting (f a b)

/-- Replaces the numbers `a` and `b`, the latter on top, by whether `f a b`. -/
def compare (rule : NumberRule) (f : Int → Int → Bool) (s : Stack) : Except Fault Stack :=
  match s.popTwo rule with
  | .error e => .error e
  | .ok (a, b, s') => .ok (s'.pushBool (f a b))

/-- Replaces `x`, `low` and `high`, the last on top, by whether `low ≤ x < high`. -/
def within (rule : NumberRule) (s : Stack) : Except Fault Stack :=
  match s.popTwo rule with
  | .error e => .error e
  | .ok (low, high, s') =>
    match s'.popNumber rule with
    | .error e => .error e
    | .ok (x, s'') => .ok (s''.pushBool (low ≤ x && x < high))

end Stack

end SpendScript
