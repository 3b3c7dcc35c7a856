import LuaKernel.Text.Printable

/-!
# Quoted strings

A string shown to a reader of a log stands between double quotes.  Quotes and backslashes inside it
are written behind a backslash, the usual controls by their letter, and every other character that
would leave no mark by its number.
-/

namespace LuaKernel.Quoted

/-- A character by its number. -/
def numbered (c : Char) : List Char :=
  '\\' :: 'u' :: '\x7b' :: Nat.toDigits 16 c.toNat ++ ['\x7d']

/-- How a character stands between the quotes. -/
def escape (c : Char) : List Char :=
  if c = '"' then ['\\', '"']
  else if c = '\\' then ['\\', '\\']
  else if c = '\x00' then ['\\', '0']
  else if c = '\t' then ['\\', 't']
  else if c = '\n' then ['\\', 'n']
  else if c = '\r' then ['\\', 'r']
  else if Printable.isShown c then [c]
  else numbered c

/-- A string between quotes. -/
def quote (s : String) : String := String.ofList ('"' :: s.toList.flatMap escape ++ ['"'])

end LuaKernel.Quoted
