/-!
# Quoted characters

A character in a message stands between apostrophes.  The apostrophe, the backslash and the
control characters are escaped: some by a letter, the others by their code in hexadecimal.
Characters beyond ASCII stand for themselves.
-/

namespace OfficeMath

/-- The digits of `n` in lower-case hexadecimal. -/
def hexadecimal (n : Nat) : String := String.ofList (Nat.toDigits 16 n)

/-- The escape of a character inside apostrophes. -/
def escapedChar (c : Char) : String :=
  if c = '\x00' then "\\0"
  else if c = '\t' then "\\t"
  else if c = '\r' then "\\r"
  else if c = '\n' then "\\n"
  else if c = '\x27' then "\\'"
  else if c = '\\' then "\\\\"
  else if c.toNat < 0x20 || c.toNat = 0x7F then "\\u\x7b" ++ hexadecimal c.toNat ++ "\x7d"
  else String.ofList [c]

/-- A character between apostrophes. -/
def quoted (c : Char) : String := "'" ++ escapedChar c ++ "'"

end OfficeMath
