/-!
# SpendScript.Text.Quoted

A character inside single quotes, as error texts show it. Control characters, the no-break
space and the soft hyphen are written as escapes, so that a message stays on one line and shows
what it names.
-/

namespace SpendScript.Text.Quoted

/-- The lower-case hexadecimal digits of `n`, without leading zeros. -/
def hexNumber (n : Nat) : String := String.ofList (Nat.toDigits 16 n)

/-- A character of the first 256 code points that has no visible form of its own. -/
def isInvisible (c : Char) : Bool :=
  c.toNat < 0x20 || (0x7f ≤ c.toNat && c.toNat ≤ 0xa0) || c.toNat == 0xad

/-- The text of `c` between the quotes. -/
def escape (c : Char) : String :=
  if c = '\x00' then "\\0"
  else if c = '\t' then "\\t"
  else if c = '\n' then "\\n"
  else if c = '\r' then "\\r"
  else if c.toNat = 0x27 then "\\'"
  else if c.toNat = 0x5c then "\\\\"
  else if isInvisible c then "\\u\x7b" ++ hexNumber c.toNat ++ "\x7d"
  else String.singleton c

/-- `c` between single quotes; meant for the first 256 code points. -/
def char (c : Char) : String := "'" ++ escape c ++ "'"

end SpendScript.Text.Quoted
