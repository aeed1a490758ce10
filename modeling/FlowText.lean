import FlowText.Dump.Save
import FlowText.Expr.Order
import FlowText.Main
import FlowText.Proofs.Acting
import FlowText.Proofs.AddrMap
import FlowText.Proofs.BlockLines
import FlowText.Proofs.Building
import FlowText.Proofs.BuiltMap
import FlowText.Proofs.Characters
import FlowText.Proofs.Complement
import FlowText.Proofs.Connecting
import FlowText.Proofs.Construction
import FlowText.Proofs.Courses
import FlowText.Proofs.DepthFirst
import FlowText.Proofs.DumpEntries
import FlowText.Proofs.DumpLines
import FlowText.Proofs.DumpText
import FlowText.Proofs.EdgeIds
import FlowText.Proofs.Edits
import FlowText.Proofs.EntryChoice
import FlowText.Proofs.EntryGraph
import FlowText.Proofs.EntryLines
import FlowText.Proofs.ExitsText
import FlowText.Proofs.Grammar.Cond
import FlowText.Proofs.Grammar.Expr
import FlowText.Proofs.Grammar.Inst
import FlowText.Proofs.Grammar.Tree
import FlowText.Proofs.Grammar.Unique
import FlowText.Proofs.InstLines
import FlowText.Proofs.Legible
import FlowText.Proofs.Lexing
import FlowText.Proofs.LineReader
import FlowText.Proofs.Links
import FlowText.Proofs.LocatedErrors
import FlowText.Proofs.Mirrors
import FlowText.Proofs.NameOrder
import FlowText.Proofs.NodeChanges
import FlowText.Proofs.Normalising
import FlowText.Proofs.Numerals
import FlowText.Proofs.Outline
import FlowText.Proofs.PassCalls
import FlowText.Proofs.Printable
import FlowText.Proofs.ReadBack
import FlowText.Proofs.ReadEntries
import FlowText.Proofs.ReadGraph
import FlowText.Proofs.Readable
import FlowText.Proofs.Refinement
import FlowText.Proofs.RoundTrip
import FlowText.Proofs.Rounds
import FlowText.Proofs.Scripts
import FlowText.Proofs.SecondDump
import FlowText.Proofs.Sections
import FlowText.Proofs.Settling
import FlowText.Proofs.Spelling
import FlowText.Proofs.Stable
import FlowText.Proofs.StockPasses
import FlowText.Proofs.TextGraph
import FlowText.Proofs.TextLines
import FlowText.Proofs.Writing
import FlowText.Proofs.ExprOrder
import FlowText.Proofs.DumpCommand
import FlowText.Proofs.PostorderLoop
import FlowText.Proofs.PostorderNumbers
import FlowText.Proofs.ExprSorting
import FlowText.Proofs.HiddenDead
import FlowText.Proofs.NameRuns
import FlowText.Proofs.NaturalSort
import FlowText.Proofs.Results
import FlowText.Proofs.Showing
import FlowText.Proofs.Sameness
import FlowText.Proofs.WellShaped
import FlowText.Proofs.Pieces
import FlowText.Proofs.LimitedSinks
import FlowText.Proofs.Labels
import FlowText.Proofs.Sketches
import FlowText.Proofs.Drawings
import FlowText.Proofs.ScriptLines
import FlowText.Proofs.OpcodeTags
import FlowText.Proofs.Alternation
import FlowText.Proofs.PlainConds
import FlowText.Proofs.EdgeLists
import FlowText.Proofs.Adjacency
import FlowText.Proofs.Escaping
import FlowText.Proofs.Respacing
import FlowText.Proofs.ExactNumbers
import FlowText.Proofs.CursorReading
import FlowText.Proofs.AddrIndex
import FlowText.Proofs.RunScanner
