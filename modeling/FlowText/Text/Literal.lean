import FlowText.Text.Printable

/-!
# Double-quoted literals

The form in which diagnostics show a name: between double quotes, with the usual marks for the line
endings, the tabulator and the null character, and the code point in hexadecimal for any other
character that cannot be shown.
-/

namespace FlowText.Literal

/-- The written form of one character of a literal. -/
def encodeChar (c : Char) : List Char :=
  match c with
  | '\x00' => ['\\', '0']
  | '\t' => ['\\', 't']
  | '\r' => ['\\', 'r']
  | '\n' => ['\\', 'n']
  | '\\' => ['\\', '\\']
  | '\x22' => ['\\', '\x22']
  | _ =>
    if isPrintable c then [c]
    else ['\\', 'u', '\x7b'] ++ Nat.toDigits 16 c.toNat ++ ['\x7d']

/-- **Encode.** The literal that holds a text. -/
def encode (text : String) : String :=
  String.ofList ('\x22' :: text.toList.flatMap encodeChar ++ ['\x22'])

end FlowText.Literal
