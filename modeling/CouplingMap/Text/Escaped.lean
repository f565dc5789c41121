import CouplingMap.Text.Hidden

/-!
# Strings in messages

* `escaped`: a string in double quotes, in which every character can be told from the others.
-/

namespace CouplingMap.Text

/-- A character inside of double quotes. One that does not show is given by its code point. -/
def escapedChar (c : Char) : List Char :=
  match c with
  | '\x00' => ['\\', '0']
  | '\t' => ['\\', 't']
  | '\r' => ['\\', 'r']
  | '\n' => ['\\', 'n']
  | '"' => ['\\', '"']
  | '\\' => ['\\', '\\']
  | c =>
    if isHidden c then ['\\', 'u', '\x7b'] ++ Nat.toDigits 16 c.toNat ++ ['\x7d'] else [c]

/-- A string in double quotes, with escapes. -/
def escaped (s : String) : String :=
  String.ofList ('"' :: s.toList.flatMap escapedChar ++ ['"'])

end CouplingMap.Text
