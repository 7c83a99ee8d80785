/-
Text in quotation marks, for error messages.

* `quoted s` — `s` between double quotes; a quote, a backslash and the usual control
  characters have short escapes, every other hidden character is `\u{…}` with its code point.
-/
import LeaseKeeper.Text.Hidden

namespace LeaseKeeper.Text

/-- One character as it stands between the quotes. -/
def quotedChar : Char → List Char
  | '"' => ['\\', '"']
  | '\\' => ['\\', '\\']
  | '\n' => ['\\', 'n']
  | '\r' => ['\\', 'r']
  | '\t' => ['\\', 't']
  | '\x00' => ['\\', '0']
  | c =>
    if isHidden c then ['\\', 'u', '\x7b'] ++ Nat.toDigits 16 c.toNat ++ ['\x7d'] else [c]

/-- `s` in double quotes, with everything escaped that a reader could not see. -/
def quoted (s : String) : String :=
  String.ofList ('"' :: s.toList.flatMap quotedChar ++ ['"'])

end LeaseKeeper.Text
