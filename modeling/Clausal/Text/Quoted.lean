import Clausal.Text.Visible

/-!
# Quoted text

A text is shown between double quotes, with a backslash before a quote or a backslash, short escapes
for the common control characters, and the code point in braces for any other character that cannot
be seen.
-/

namespace Clausal.Quoted

/-- The escape of a character inside quotes. -/
def escape (c : Char) : List Char :=
  match c with
  | '"' => ['\\', '"']
  | '\\' => ['\\', '\\']
  | '\n' => ['\\', 'n']
  | '\r' => ['\\', 'r']
  | '\t' => ['\\', 't']
  | c =>
    if c.toNat = 0 then ['\\', '0']
    else if Visible.isVisible c then [c]
    else "\\u\x7b".toList ++ Nat.toDigits 16 c.toNat ++ "\x7d".toList

def write (s : String) : String := String.ofList ('"' :: s.toList.flatMap escape ++ ['"'])

end Clausal.Quoted
