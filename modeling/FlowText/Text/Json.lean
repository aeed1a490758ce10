/-!
# JSON documents

Documents are written over several lines: each item of a list and each member of an object stands on
a line of its own, two blanks further in. What is empty is written without a line end.

* `Json` — the documents.
* `Json.escapeChar` — how a character of a text is written.
* `Json.text` — the written form of a document.
-/

namespace FlowText

/-- A document. Numbers are natural, and the members of an object are in order. -/
inductive Json where
  | text (s : String)
  | number (n : Nat)
  | bool (b : Bool)
  | list (items : List Json)
  | object (members : List (String × Json))

namespace Json

/-- The written form of one character of a text. -/
def escapeChar (c : Char) : List Char :=
  match c with
  | '\x22' => ['\\', '\x22']
  | '\\' => ['\\', '\\']
  | '\x08' => ['\\', 'b']
  | '\x0c' => ['\\', 'f']
  | '\n' => ['\\', 'n']
  | '\r' => ['\\', 'r']
  | '\t' => ['\\', 't']
  | _ =>
    if c.toNat < 0x20 then ['\\', 'u', '0', '0', (c.toNat / 16).digitChar, (c.toNat % 16).digitChar]
    else [c]

/-- The written form of a text. -/
def quote (s : String) : String :=
  String.ofList ('\x22' :: s.toList.flatMap escapeChar ++ ['\x22'])

/-- Parts between two marks, each on a line of its own. -/
def spread (depth : Nat) (opening closing : String) (parts : List String) : String :=
  let margin n := String.ofList (List.replicate (2 * n) ' ')
  match parts with
  | [] => opening ++ closing
  | _ =>
    opening ++ "\n" ++ ",\n".intercalate (parts.map (margin (depth + 1) ++ ·)) ++ "\n" ++
      margin depth ++ closing

mutual

/-- The written form of a document that starts behind `depth` steps of indentation. -/
def write (depth : Nat) : Json → String
  | text s => quote s
  | number n => toString n
  | bool b => toString b
  | list items => spread depth "[" "]" (writeItems (depth + 1) items)
  | object members => spread depth "\x7b" "\x7d" (writeMembers (depth + 1) members)

/-- The written forms of the items of a list. -/
def writeItems (depth : Nat) : List Json → List String
  | [] => []
  | item :: rest => write depth item :: writeItems depth rest

/-- The written forms of the members of an object. -/
def writeMembers (depth : Nat) : List (String × Json) → List String
  | [] => []
  | (key, value) :: rest => (quote key ++ ": " ++ write depth value) :: writeMembers depth rest

end

/-- **Written form** of a whole document. -/
def print (j : Json) : String := j.write 0

end Json

end FlowText
