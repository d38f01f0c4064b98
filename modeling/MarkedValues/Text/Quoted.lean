import MarkedValues.Unicode.Property

/-!
Text in double quotes as messages show it. Characters with a visible form stand as they are; the
quote, the backslash and common controls have short escapes, all others a hexadecimal one.
-/
namespace MarkedValues.Text

/-- An escape by code point, `\u` with the number in braces. -/
def hexEscape (c : Char) : List Char := ['\\', 'u', '\x7b'] ++ Nat.toDigits 16 c.toNat ++ ['\x7d']

def quotedChar (c : Char) : List Char :=
  match c with
  | '\x00' => ['\\', '0']
  | '\t' => ['\\', 't']
  | '\r' => ['\\', 'r']
  | '\n' => ['\\', 'n']
  | '"' => ['\\', '"']
  | '\\' => ['\\', '\\']
  | c => if Unicode.standsAlone c then [c] else hexEscape c

def quoted (s : String) : String :=
  String.ofList (['"'] ++ s.toList.flatMap quotedChar ++ ['"'])

example : ['a', '"', '\\', '\n'].flatMap quotedChar = ['a', '\\', '"', '\\', '\\', '\\', 'n'] := by
  decide +kernel

end MarkedValues.Text
