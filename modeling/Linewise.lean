import Linewise.CommandLine
import Linewise.Main
import Linewise.Outline
import Linewise.Proofs.Parsing.Run
import Linewise.Proofs.Parsing.Progress
import Linewise.Proofs.Parsing.Loops
import Linewise.Proofs.Parsing.GrammarProgress
import Linewise.Proofs.Parsing.Endings
import Linewise.Proofs.Ast.Spans
import Linewise.Proofs.Parsing.Change
import Linewise.Proofs.Parsing.Simulation
import Linewise.Proofs.Parsing.SimulationLoops
import Linewise.Proofs.Parsing.GrammarSimulation
import Linewise.Proofs.Parsing.Items
import Linewise.Proofs.Parsing.Sources
import Linewise.Proofs.Parsing.Changes
import Linewise.Proofs.Fallthrough
import Linewise.Proofs.Lexing.Lexemes
import Linewise.Proofs.Lexing.Placement
import Linewise.Proofs.Lexing.Lookback
import Linewise.Proofs.Lexing.Language
import Linewise.Proofs.Lexing.LongestMatch
import Linewise.Proofs.Lexing.Lossless
import Linewise.Proofs.LayoutIndependence
import Linewise.Proofs.Ast.Nesting
import Linewise.Proofs.Parsing.Triple
import Linewise.Proofs.Parsing.Accepts
import Linewise.Proofs.Parsing.GrammarNesting
import Linewise.Proofs.Nesting
import Linewise.Proofs.Ast.Gaps
import Linewise.Proofs.Parsing.Beginnings
import Linewise.Proofs.Parsing.Telling
import Linewise.Proofs.Parsing.GrammarTelling
import Linewise.Proofs.Separation
import Linewise.Proofs.Lexing.Concatenation
import Linewise.Proofs.Lexing.Reading
import Linewise.Proofs.Parsing.TypeSpans
import Linewise.Proofs.Ast.Places
import Linewise.Proofs.Ast.Placed
import Linewise.Proofs.Parsing.Standing
import Linewise.Proofs.Parsing.Laying
import Linewise.Proofs.Parsing.GrammarLaying
import Linewise.Proofs.TokenSpans
import Linewise.Proofs.Ast.OpenEnds
import Linewise.Proofs.Parsing.Following
import Linewise.Proofs.Parsing.GrammarFollowing
import Linewise.Proofs.Parsing.Concatenation
import Linewise.Proofs.Texts
import Linewise.Proofs.Concatenation
import Linewise.Proofs.Parsing.Atoms
import Linewise.Proofs.Frames
import Linewise.Proofs.BlockBodies
import Linewise.Proofs.CaseLists
import Linewise.Proofs.Parsing.Ceiling
import Linewise.Proofs.Parsing.GrammarCeiling
import Linewise.Proofs.FaultCount
import Linewise.Proofs.Lexing.Faults
import Linewise.Proofs.Lexing.Composition
import Linewise.Proofs.Lexing.LineEndings
import Linewise.Proofs.LineEndings
import Linewise.Proofs.Ast.Words
import Linewise.Proofs.Parsing.Gathering
import Linewise.Proofs.Parsing.GrammarGathering
import Linewise.Proofs.Words
import Linewise.Proofs.Streams
import Linewise.Proofs.EndOfInput
import Linewise.Proofs.Parsing.FaultOrder
import Linewise.Proofs.Parsing.GrammarFaultOrder
import Linewise.Proofs.FaultOrder
import Linewise.Proofs.Ast.Types
import Linewise.Proofs.Ast.TypeParts
import Linewise.Proofs.Ast.Spelling
import Linewise.Proofs.Ast.Marks
import Linewise.Proofs.Lexing.Parted
import Linewise.Proofs.Parsing.GrammarTypes
import Linewise.Proofs.Parsing.Takes
import Linewise.Proofs.Parsing.GrammarTakes
import Linewise.Proofs.TypeTexts
import Linewise.Proofs.Lexing.Decoding
import Linewise.Proofs.StringValues
import Linewise.Proofs.Escapes
import Linewise.Proofs.Recovery
import Linewise.Proofs.Ast.Operators
import Linewise.Proofs.Parsing.Properties
import Linewise.Proofs.Parsing.GrammarOperators
import Linewise.Proofs.Operators
import Linewise.Proofs.Preceding
import Linewise.Proofs.LiteralTexts
import Linewise.Proofs.Parsing.Matching
import Linewise.Proofs.Parsing.GrammarMatching
import Linewise.Proofs.FunctionHeaders
import Linewise.Proofs.Lexing.FaultPlaces
import Linewise.Proofs.Lexing.Blanks
import Linewise.Proofs.Pushes
import Linewise.Proofs.Quotes
import Linewise.Proofs.Listings
import Linewise.Proofs.Parsing.Trace
import Linewise.Proofs.Parsing.GrammarTrace
import Linewise.Proofs.ReaderStates
