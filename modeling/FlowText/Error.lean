import FlowText.Defect
import FlowText.Digraph.Id
import FlowText.Token

/-!
# Errors

Every error is a cause; its wording stands in one function beside it.

* `GrammarError`, `TextError` — a text is no expression, condition or instruction.
* `ExitsError`, `DumpError`, `ScriptError` — a line of a dump or of a script is not what it should
  be.
* `GraphError`, `FileError` — a graph or a file does not admit an operation.
* `Error` — all of them; `Error.message` is what a user reads.
-/

namespace FlowText

/-- What a reader needs next. -/
inductive Expectation where
  | expression
  | typeOpen
  | typeName
  | typeStar
  | typeClose
  | offset
  | baseClose
  | condOpen
  | connective
  | comparison
  | condClose
  | argsOpen
  | argsNext
  | updateAssign
  | assign
  | operatorOrEnd
  | endOfInput
  deriving DecidableEq, Repr

/-- The needed thing, in words. -/
def Expectation.text : Expectation → String
  | expression => "expression"
  | typeOpen => "'(' of memory type"
  | typeName => "memory type"
  | typeStar => "'*' of memory type"
  | typeClose => "')' of memory type"
  | offset => "memory offset"
  | baseClose => "')' after memory base"
  | condOpen => "'(' of condition"
  | connective => "connective"
  | comparison => "comparison"
  | condClose => "')' of condition"
  | argsOpen => "'(' of argument list"
  | argsNext => "',' or ')'"
  | updateAssign => "'=' of compound assignment"
  | assign => "'='"
  | operatorOrEnd => "operator or end of input"
  | endOfInput => "end of input"

/-- Why tokens do not form what was to be read. -/
inductive GrammarError where
  /-- another token was found than needed, or none at all -/
  | expected (what : Expectation) (found : Option Token)
  /-- a number beyond the signed 64-bit range -/
  | outOfRange
  /-- a symbol that is no binary operator, where one is needed -/
  | unknownOperator (s : Symbol)
  /-- a symbol or word that is none of a vocabulary -/
  | vocabulary (d : Defect)
  deriving DecidableEq, Repr

/-- How a broken shape rule is reported. -/
def Defect.report (d : Defect) : String := "Malformed IR - " ++ d.message

/-- What is wrong with the text `input`, in words. -/
def GrammarError.message (input : String) : GrammarError → String
  | expected what (some token) => s!"Expected {what.text} but found {token.inspect} in '{input}'"
  | expected what none => s!"Expected {what.text} at end of '{input}'"
  | outOfRange => s!"Value out of range in '{input}'"
  | unknownOperator s => s!"Unknown operator '{s.text}' in '{input}'"
  | vocabulary d => d.report

/-- Why a text is not what was to be read. -/
inductive TextError where
  /-- the text cannot be cut into tokens -/
  | lexical (e : LexError)
  /-- the tokens do not form what was to be read -/
  | grammar (e : GrammarError)
  deriving DecidableEq, Repr

/-- What is wrong with the text `input`, in words. -/
def TextError.message (input : String) : TextError → String
  | lexical e => e.message input
  | grammar e => e.message input

/-- Why a text is no list of exits. -/
inductive ExitsError where
  /-- something else stands at a place than the text that belongs there -/
  | expected (wanted rest : String)
  /-- a literal without its closing quote -/
  | unterminated
  /-- text behind the list -/
  | trailing (rest : String)
  deriving DecidableEq, Repr

/-- What is wrong, in words. -/
def ExitsError.message : ExitsError → String
  | expected wanted rest => s!"Expected '{wanted}' at '{rest}'"
  | unterminated => "Unterminated string literal"
  | trailing rest => s!"Unexpected trailing text '{rest}'"

/-- Why a line does not fit into a dump. -/
inductive DumpError where
  /-- a postorder number that is no number -/
  | badNumber (text : String)
  /-- a line between two entries that is no label -/
  | notLabel (line : String)
  /-- a line behind the placeholder of a missing block -/
  | afterPlaceholder (addr : String)
  /-- a malformed list of exits -/
  | exits (e : ExitsError)
  /-- a label that an earlier entry has -/
  | duplicateLabel (addr : String)
  /-- the text ends inside the entry that starts at the line `start` -/
  | noExits (addr : String) (start : Nat)
  deriving DecidableEq, Repr

/-- What is wrong, in words. -/
def DumpError.message : DumpError → String
  | badNumber text => s!"Bad DFS number '{text}'"
  | notLabel line => s!"Expected a block label, found '{line}'"
  | afterPlaceholder addr => s!"Instruction after the empty placeholder of {addr}"
  | exits e => e.message
  | duplicateLabel addr => s!"Duplicate block label {addr}"
  | noExits addr start => s!"Block {addr} (line {start}) has no Exits line"

/-- Why a line does not fit into a script. -/
inductive ScriptError where
  /-- a line without a colon -/
  | noColon (line : String)
  /-- an unknown word before the colon -/
  | unknownKeyword (word : String)
  /-- no name, or one with a blank in it, behind the colon -/
  | badName (name : String)
  deriving DecidableEq, Repr

/-- What is wrong, in words. -/
def ScriptError.message : ScriptError → String
  | noColon line => s!"expected 'keyword: name', got '{line}'"
  | unknownKeyword word => s!"unknown script keyword '{word}'"
  | badName name => s!"invalid pass name '{name}'"

/-- What was wrong with a line that was read. -/
inductive ParseError where
  /-- the text `input`, a line or a part of one, is not what was to be read -/
  | text (input : String) (e : TextError)
  /-- the line does not fit into a dump -/
  | dump (e : DumpError)
  /-- the line does not fit into a script -/
  | script (e : ScriptError)
  deriving DecidableEq, Repr

/-- What is wrong, in words. -/
def ParseError.message : ParseError → String
  | text input e => e.message input
  | dump e => e.message
  | script e => e.message

/-- Why a graph does not admit an operation. -/
inductive GraphError where
  /-- an edge from a node that the graph lacks -/
  | noSource (node : NodeId) (count : Nat)
  /-- an edge to a node that the graph lacks -/
  | noTarget (node : NodeId) (count : Nat)
  /-- a second block for one address -/
  | duplicateBlock (addr : String)
  /-- no edge leads from one address to the other -/
  | noEdge (source target : String)
  /-- an address that the graph lacks -/
  | unknownAddr (addr : String)
  /-- an address that the graph lacks, wanted as its entry -/
  | unknownEntry (addr : String)
  deriving DecidableEq, Repr

/-- What is wrong, in words. -/
def GraphError.message : GraphError → String
  | noSource node count => s!"source node {node.text} does not exist in graph with {count} nodes"
  | noTarget node count => s!"target node {node.text} does not exist in graph with {count} nodes"
  | duplicateBlock addr => s!"Duplicate block at address {addr}"
  | noEdge source target => s!"No edge {source} -> {target}"
  | unknownAddr addr => s!"Unknown address {addr}"
  | unknownEntry addr => s!"Unknown entry address {addr}"

/-- Why a file does not take what is written to it. -/
inductive FileError where
  /-- the file takes no further byte and does not say why -/
  | writeZero
  /-- the file reports a reason of its own -/
  | reported (text : String)
  deriving DecidableEq, Repr

/-- What is wrong, in words. -/
def FileError.message : FileError → String
  | writeZero => "failed to write whole buffer"
  | reported text => text

/-- **Error.** All that can go wrong. -/
inductive Error where
  /-- a shape rule is broken -/
  | malformed (d : Defect)
  /-- no order is defined between two operands, given in their diagnostic forms -/
  | unordered (left right : String)
  /-- no pass of this kind and name is registered; `line` is where a script asks for it -/
  | unknownPass (keyword name : String) (line : Option Nat)
  /-- a line could not be read -/
  | parse (line : Nat) (e : ParseError)
  /-- a graph does not admit an operation -/
  | graph (e : GraphError)
  /-- a renderer or pass gave up, for a reason of its own -/
  | refused (reason : String)
  /-- a sink took no further character -/
  | format
  /-- a file could not be written -/
  | file (e : FileError)
  deriving DecidableEq, Repr

/-- What is wrong, in words. -/
def Error.message : Error → String
  | malformed d => d.report
  | unordered left right => s!"No order is defined between {left} and {right}"
  | unknownPass keyword name none => s!"Unknown transformation - {keyword}: {name}"
  | unknownPass keyword name (some line) =>
    s!"Unknown transformation - {keyword}: {name} (script line {line})"
  | parse line e => s!"Parse error at line {line}: {e.message}"
  | graph e => e.message
  | refused reason => reason
  | format => "an error occurred when formatting an argument"
  | file e => e.message

end FlowText
