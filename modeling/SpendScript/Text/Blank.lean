/-!
# SpendScript.Text.Blank

The white space of Unicode (the property `White_Space`), and the two ways it is used here: text
is cut into words at it, and taken off at both ends.
-/

namespace SpendScript.Text

/-- The 25 characters with the Unicode property `White_Space`. -/
def isBlank (c : Char) : Bool :=
  (0x9 ≤ c.toNat && c.toNat ≤ 0xd) || c.toNat == 0x20 || c.toNat == 0x85 || c.toNat == 0xa0 ||
  c.toNat == 0x1680 || (0x2000 ≤ c.toNat && c.toNat ≤ 0x200a) || c.toNat == 0x2028 ||
  c.toNat == 0x2029 || c.toNat == 0x202f || c.toNat == 0x205f || c.toNat == 0x3000

def trim (cs : List Char) : List Char :=
  ((cs.dropWhile isBlank).reverse.dropWhile isBlank).reverse

/-- Puts `c` in front of the first word of a list of words. -/
def extendFirst (c : Char) : List (List Char) → List (List Char)
  | [] => [[c]]
  | w :: ws => (c :: w) :: ws

/-- The maximal runs of non-blank characters; an empty first entry stands for a blank that has
just been passed. -/
def wordsAux : List Char → List (List Char)
  | [] => [[]]
  | c :: cs => if isBlank c then [] :: wordsAux cs else extendFirst c (wordsAux cs)

/-- The maximal runs of non-blank characters of a text, in order. -/
def words (cs : List Char) : List (List Char) := (wordsAux cs).filter (fun w => !w.isEmpty)

end SpendScript.Text
