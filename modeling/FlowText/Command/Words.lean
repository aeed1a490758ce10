/-!
# Words of a command line

Options are written `--long` or `-s`. The value of an option is the next word, or it follows an
equals sign; behind a short name it may also follow directly. Short names may be joined, as in
`-vo out`. All words behind `--` are operands.

* `Key` — the options.
* `Scope` — which options and how many operands a command takes.
* `scan` — reads the words of one command.
-/

namespace FlowText.Command

/-- An option. -/
inductive Key where
  /-- output as a JSON document -/
  | json
  /-- tell more about the run -/
  | verbose
  /-- tell how the command is used, and do nothing else -/
  | help
  /-- tell the version, and do nothing else -/
  | version
  /-- instructions in their diagnostic form -/
  | diagnostic
  /-- leave out dead instructions -/
  | omitDead
  /-- a script to run -/
  | script
  /-- how many rounds of the script may be run -/
  | rounds
  /-- where the dump goes -/
  | output
  /-- where a drawing goes -/
  | drawing
  deriving DecidableEq, Repr

namespace Key

/-- The name behind two dashes. -/
def long : Key → String
  | json => "json"
  | verbose => "verbose"
  | help => "help"
  | version => "version"
  | diagnostic => "repr"
  | omitDead => "no-dead"
  | script => "script"
  | rounds => "iterations"
  | output => "output"
  | drawing => "dot"

/-- The name behind one dash. -/
def short? : Key → Option Char
  | verbose => some 'v'
  | help => some 'h'
  | version => some 'V'
  | output => some 'o'
  | _ => none

/-- The option has a value. -/
def hasValue : Key → Bool
  | script | rounds | output | drawing => true
  | _ => false

end Key

/-- A command whose words are read. -/
inductive Scope where
  /-- in front of the name of a command -/
  | top
  /-- reads a dump, and writes it again -/
  | dump
  /-- lists the passes -/
  | passes
  deriving DecidableEq, Repr

namespace Scope

/-- The options of a command. -/
def keys : Scope → List Key
  | top => [.json, .verbose, .help, .version]
  | dump => [.json, .verbose, .help, .diagnostic, .omitDead, .script, .rounds, .output, .drawing]
  | passes => [.json, .verbose, .help]

/-- How many operands a command takes. -/
def operands : Scope → Nat
  | dump => 1
  | top | passes => 0

/-- The option with a given long name. -/
def long? (s : Scope) (name : String) : Option Key := s.keys.find? (·.long == name)

/-- The option with a given short name. -/
def short? (s : Scope) (name : Char) : Option Key := s.keys.find? (·.short? == some name)

end Scope

/-- Why the words of a command line do not fit. -/
inductive UsageError where
  | unknownOption (word : String)
  | missingValue (key : Key)
  /-- a value for an option that has none -/
  | strayValue (key : Key)
  | repeatedOption (key : Key)
  | badValue (key : Key) (value : String)
  | strayOperand (word : String)
  | missingOperand
  | emptyOperand
  | unknownCommand (word : String)
  | missingCommand
  deriving DecidableEq, Repr

/-- What is wrong, in words. -/
def UsageError.message : UsageError → String
  | unknownOption word => s!"unknown option '{word}'"
  | missingValue key => s!"option '--{key.long}' needs a value"
  | strayValue key => s!"option '--{key.long}' has no value"
  | repeatedOption key => s!"option '--{key.long}' is given twice"
  | badValue key value => s!"'{value}' is no value for '--{key.long}'"
  | strayOperand word => s!"unexpected word '{word}'"
  | missingOperand => "a file is missing"
  | emptyOperand => "a file without a name"
  | unknownCommand word => s!"unknown command '{word}'"
  | missingCommand => "a command is missing"

/-- Why the words of a command line are not read to their end. -/
inductive Stop where
  /-- the user asks how a command is used -/
  | help (s : Scope)
  /-- the user asks for the version -/
  | version
  | usage (e : UsageError)
  deriving DecidableEq, Repr

/-- What was found among the words of a command. -/
structure Found where
  /-- the options with their values; one that has none has the empty text here -/
  options : List (Key × String) := []
  operands : List String := []
  deriving DecidableEq, Repr

namespace Found

/-- The option was given. -/
def has (f : Found) (key : Key) : Bool := f.options.any (·.1 == key)

/-- The value that an option was given. -/
def value? (f : Found) (key : Key) : Option String :=
  (f.options.find? (·.1 == key)).map Prod.snd

/-- Adds an option. Each may be given once, and `accepts` decides on its value. -/
def addOption (accepts : Key → String → Bool) (s : Scope) (f : Found) (key : Key) (value : String) :
    Except Stop Found :=
  if key = .help then .error (.help s)
  else if key = .version then .error .version
  else if key.hasValue ∧ accepts key value = false then .error (.usage (.badValue key value))
  else if f.has key then .error (.usage (.repeatedOption key))
  else .ok { f with options := f.options ++ [(key, value)] }

/-- Adds an operand. -/
def addOperand (s : Scope) (f : Found) (word : String) : Except Stop Found :=
  if s.operands ≤ f.operands.length then .error (.usage (.strayOperand word))
  else if word = "" then .error (.usage .emptyOperand)
  else .ok { f with operands := f.operands ++ [word] }

end Found

section Scan

variable (accepts : Key → String → Bool) (s : Scope)

/-- Reads a long option. If its value is still to come, its key is given as well. -/
def scanLong (f : Found) (body : List Char) : Except Stop (Found × Option Key) :=
  let name := String.ofList (body.takeWhile (· ≠ '='))
  match s.long? name, body.dropWhile (· ≠ '=') with
  | none, _ => .error (.usage (.unknownOption ("--" ++ name)))
  | some key, [] =>
    if key.hasValue then .ok (f, some key) else (f.addOption accepts s key "").map (·, none)
  | some key, _ :: value =>
    if key.hasValue then (f.addOption accepts s key (String.ofList value)).map (·, none)
    else .error (.usage (.strayValue key))

/-- Reads joined short options. If the value of the last one is still to come, its key is given as
well. -/
def scanShort (f : Found) : List Char → Except Stop (Found × Option Key)
  | [] => .ok (f, none)
  | name :: rest =>
    match s.short? name with
    | none => .error (.usage (.unknownOption (String.ofList ['-', name])))
    | some key =>
      if key.hasValue then
        match rest with
        | [] => .ok (f, some key)
        | '=' :: value | value => (f.addOption accepts s key (String.ofList value)).map (·, none)
      else
        match f.addOption accepts s key "" with
        | .error e => .error e
        | .ok f =>
          if rest.head? = some '=' then .error (.usage (.strayValue key)) else scanShort f rest

/-- The word starts like an option. A single dash does not. -/
def isDashed (word : String) : Bool :=
  match word.toList with
  | '-' :: _ :: _ => true
  | _ => false

/-- **Scan.** Reads the words of a command, where `pending` waits for its value. In front of a
command's name, the first operand ends the reading and starts what is left. -/
def scan (pending : Option Key) (f : Found) : List String → Except Stop (Found × List String)
  | [] =>
    match pending with
    | some key => .error (.usage (.missingValue key))
    | none => .ok (f, [])
  | word :: rest =>
    match pending with
    | some key =>
      if isDashed word then .error (.usage (.missingValue key))
      else match f.addOption accepts s key word with
        | .error e => .error e
        | .ok f => scan none f rest
    | none =>
      match word.toList with
      | ['-', '-'] => (rest.foldlM (Found.addOperand s) f).map (·, [])
      | '-' :: '-' :: body =>
        match scanLong accepts s f body with
        | .error e => .error e
        | .ok (f, pending) => scan pending f rest
      | '-' :: name :: more =>
        match scanShort accepts s f (name :: more) with
        | .error e => .error e
        | .ok (f, pending) => scan pending f rest
      | _ =>
        if s = .top then .ok (f, word :: rest)
        else match f.addOperand s word with
          | .error e => .error e
          | .ok f => scan none f rest

end Scan

end FlowText.Command
