/-!
# Lines of a text

A line ends at a line feed, and a carriage return directly before the line feed belongs to the
ending. Any other carriage return is ordinary text. The part after the last line feed is a line of
its own unless it is empty.
-/

namespace FlowText

/-- The lines of the text behind a character, together with whether that text starts with a line
feed: a carriage return read before it is then part of a line ending. -/
structure Lines where
  /-- the lines, each without its ending -/
  lines : List (List Char) := []
  /-- the text starts with a line feed -/
  feed : Bool := false

namespace Lines

/-- Puts one character in front of a text that is already cut into lines. -/
def cons (c : Char) (rest : Lines) : Lines :=
  if c = '\n' then ⟨[] :: rest.lines, true⟩
  else if c = '\r' ∧ rest.feed then ⟨rest.lines, false⟩
  else match rest.lines with
    | [] => ⟨[[c]], false⟩
    | line :: more => ⟨(c :: line) :: more, false⟩

/-- Cuts a text into its lines. -/
def ofText (cs : List Char) : Lines := cs.foldr cons {}

@[simp] theorem ofText_nil : ofText [] = {} := rfl

@[simp] theorem ofText_cons (c : Char) (cs : List Char) :
    ofText (c :: cs) = cons c (ofText cs) := rfl

end Lines

/-- The lines of a text, each without its ending. -/
def lines (text : List Char) : List (List Char) := (Lines.ofText text).lines

end FlowText
