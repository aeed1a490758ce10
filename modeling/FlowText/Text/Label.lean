/-!
# Text inside a drawing's label

A label stands between double quotes, and angle brackets and braces have a meaning of their own in
it. So each of these characters, and the backslash, is written behind a backslash. A line feed
becomes the mark for a left-aligned line end, and a carriage return is left out.
-/

namespace FlowText.Label

/-- The written form of one character. -/
def escapeChar (c : Char) : List Char :=
  match c with
  | '\n' => ['\\', 'l']
  | '\r' => []
  | '\\' | '\x22' | '<' | '>' | '\x7b' | '\x7d' => ['\\', c]
  | _ => [c]

/-- **Escape.** The written form of a text: the written forms of its characters, in order. -/
def escape (text : String) : String := String.ofList (text.toList.flatMap escapeChar)

theorem toList_escape (text : String) : (escape text).toList = text.toList.flatMap escapeChar := by
  simp [escape]

/-- Escaping works piece by piece. -/
theorem escape_append (s t : String) : escape (s ++ t) = escape s ++ escape t := by
  apply String.ext
  simp [toList_escape]

end FlowText.Label
