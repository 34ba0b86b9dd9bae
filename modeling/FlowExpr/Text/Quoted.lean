import FlowExpr.Text.Class

/-!
# Quoted texts

How a text is shown inside double quotes when a tree is printed: the quote, the backslash and
the usual controls have two-character escapes, and every other unprintable character is
written by its number, as a backslash, `u` and the hexadecimal digits in braces.
-/

namespace FlowExpr.Text

/-- Number of a character in lower-case hexadecimal digits. -/
def hexDigits (c : Char) : List Char := Nat.toDigits 16 c.toNat

/-- How one character is shown inside double quotes. -/
def showChar (c : Char) : List Char :=
  if c = '"' then ['\\', '"']
  else if c = '\\' then ['\\', '\\']
  else if c = '\n' then ['\\', 'n']
  else if c = '\r' then ['\\', 'r']
  else if c = '\t' then ['\\', 't']
  else if c = '\x00' then ['\\', '0']
  else if isUnprintable c then ['\\', 'u', '{'] ++ hexDigits c ++ ['}']
  else [c]

/-- The text in double quotes. -/
def quoted (text : String) : String :=
  String.ofList ('"' :: text.toList.flatMap showChar ++ ['"'])

end FlowExpr.Text
