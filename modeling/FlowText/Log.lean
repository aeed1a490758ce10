/-!
# Log lines

What a run tells about itself, in the order in which it happened.
-/

namespace FlowText

/-- How important a log line is. -/
inductive Level where
  | debug
  | info
  deriving DecidableEq, Repr

/-- The level in front of a log line. -/
def Level.text : Level → String
  | debug => "DEBUG"
  | info => "INFO"

/-- A log line. -/
structure LogLine where
  level : Level
  message : String
  deriving DecidableEq, Repr

/-- The log line with its level in front. -/
def LogLine.text (l : LogLine) : String := l.level.text ++ " " ++ l.message

/-- Log lines, the oldest first. -/
abbrev Log := Array LogLine

/-- A line that only a close look needs. -/
def debug (message : String) : LogLine := ⟨.debug, message⟩

/-- A line that tells what was done. -/
def info (message : String) : LogLine := ⟨.info, message⟩

end FlowText
