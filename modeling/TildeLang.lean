import TildeLang.Text.Position
import TildeLang.Text.Ranges
import TildeLang.Text.Blank
import TildeLang.Text.Word
import TildeLang.Text.Hidden
import TildeLang.Text.Escape
import TildeLang.Token.Kind
import TildeLang.Token.Basic
import TildeLang.Token.Shape
import TildeLang.Token.Table
import TildeLang.Error
import TildeLang.Token.Stream
import TildeLang.Tree
import TildeLang.Parse.Basic
import TildeLang.Parse.Expr
import TildeLang.Parse.Stmt
import TildeLang.Parse.Source
import TildeLang.Log
import TildeLang.Diagnostic
import TildeLang.Json
import TildeLang.Token.Json
import TildeLang.Tree.Json
import TildeLang.CommandLine.Arguments
import TildeLang.CommandLine.Directory
import TildeLang.CommandLine.Run
import TildeLang.Main
import TildeLang.Proofs.Outlook
import TildeLang.Proofs.Trace
import TildeLang.Proofs.Outcome
import TildeLang.Proofs.Grammar
import TildeLang.Proofs.Reading
import TildeLang.Proofs.ReadingRules
import TildeLang.Proofs.Following
import TildeLang.Proofs.FollowingRules
import TildeLang.Proofs.Recognition
import TildeLang.Proofs.Vocabulary
import TildeLang.Proofs.Location
import TildeLang.Proofs.Lexicon
import TildeLang.Proofs.Parts
import TildeLang.Proofs.Printing
import TildeLang.Proofs.PrintedTokens
import TildeLang.Proofs.Derivations
import TildeLang.Proofs.WellFormed
import TildeLang.Proofs.RoundTrip
import TildeLang.Proofs.Limit
import TildeLang.Proofs.Sentences
import TildeLang.Proofs.FirstOffence
import TildeLang.Proofs.Calls
import TildeLang.Proofs.Lossless
import TildeLang.Proofs.Agreement
import TildeLang.Proofs.Positions
import TildeLang.Proofs.Unlimited
import TildeLang.Proofs.Levels
import TildeLang.Proofs.NestingLimit
import TildeLang.Proofs.Siblings
import TildeLang.Proofs.Walk
import TildeLang.Proofs.Layout
import TildeLang.Proofs.Respelling
import TildeLang.Proofs.Spelled
import TildeLang.Proofs.Splicing
import TildeLang.Proofs.RowOrder
import TildeLang.Proofs.Height
import TildeLang.Proofs.Conservation
import TildeLang.Proofs.WrittenValues
import TildeLang.Proofs.WrittenTrees
import TildeLang.Proofs.Counter
import TildeLang.Proofs.Reuse
import TildeLang.Proofs.EntryPoints
import TildeLang.Proofs.Lines
import TildeLang.Proofs.Wording
import TildeLang.Proofs.Excerpt
import TildeLang.Proofs.TokenValues
import TildeLang.Proofs.Slashes
import TildeLang.Proofs.LongestMatch
import TildeLang.Proofs.LexicalErrors
import TildeLang.Proofs.Hints
import TildeLang.Proofs.Balance
import TildeLang.Proofs.Targets
import TildeLang.Proofs.Begun
import TildeLang.Proofs.Record
