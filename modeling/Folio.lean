import Folio.Budget
import Folio.Command
import Folio.Command.Options
import Folio.Course
import Folio.Decimal.Binary
import Folio.Decimal.Digits
import Folio.Decimal.Integer
import Folio.Decimal.Reader
import Folio.Decimal.Shortest
import Folio.Digest
import Folio.Document
import Folio.Document.Outline
import Folio.Document.Paged
import Folio.Document.Plain
import Folio.Document.Slides
import Folio.Document.Word
import Folio.Evaluation
import Folio.Fault
import Folio.FileTree
import Folio.Index.Embedding
import Folio.Index.Extract
import Folio.Index.Listing
import Folio.Index.Prepare
import Folio.Index.Record
import Folio.Index.Search
import Folio.Index.Store
import Folio.Json
import Folio.Json.Parser
import Folio.Main
import Folio.Numeral
import Folio.Path
import Folio.Pattern.Basic
import Folio.Pattern.CharTest
import Folio.Pattern.Flaw
import Folio.Pattern.Matcher
import Folio.Pattern.Parser
import Folio.Program
import Folio.Shelf.Basic
import Folio.Shelf.Contents
import Folio.Shelf.Directory
import Folio.Shelf.File
import Folio.Shelf.Reading
import Folio.Shelf.TreeView
import Folio.Source.Expr
import Folio.Source.Expr.Parser
import Folio.Source.Line
import Folio.Source.Location
import Folio.Source.Refusal
import Folio.Source.Statement
import Folio.Source.Statement.Parser
import Folio.Source.Token
import Folio.Source.Token.Lexer
import Folio.Text.Basic
import Folio.Text.Case
import Folio.Text.CharClass
import Folio.Text.CharName
import Folio.Text.Identifier
import Folio.Text.NormalForm
import Folio.Text.Normalize
import Folio.Text.Quoted
import Folio.Text.Ranges
import Folio.Text.Utf8
import Folio.Value.Arguments
import Folio.Value.Arithmetic
import Folio.Value.Basic
import Folio.Value.Call
import Folio.Value.Compare
import Folio.Value.HandleMethods
import Folio.Value.ListMethods
import Folio.Value.Misuse
import Folio.Value.Show
import Folio.Value.Template
import Folio.Value.TextMethods
import Folio.Xml
import Folio.Proofs.Phrase
import Folio.Proofs.PhraseReading
import Folio.Proofs.PhraseUniqueness
import Folio.Proofs.ExpressionGrammar
import Folio.Proofs.Spelling
import Folio.Proofs.WrittenExpression
import Folio.Proofs.WrittenLine
import Folio.Proofs.WrittenProgram
import Folio.Proofs.ProgramRoundTrip
import Folio.Proofs.CourseEnding
import Folio.Proofs.JsonRoundTrip
import Folio.Proofs.SoundTree
import Folio.Proofs.IndexRecords
import Folio.Proofs.PreparedIndex
import Folio.Proofs.IndexedReading
import Folio.Proofs.TreeListing
import Folio.Proofs.StoredIndex
import Folio.Proofs.IndexedListing
import Folio.Proofs.TimeLimit
import Folio.Proofs.CalmActions
import Folio.Proofs.GuardedShelf
import Folio.Proofs.GuardedValues
import Folio.Proofs.GuardedRun
import Folio.Proofs.ResolvedPath
import Folio.Proofs.TextLines
import Folio.Proofs.BlockReading
import Folio.Proofs.BlockStructure
import Folio.Proofs.LexemeSequence
import Folio.Proofs.ProgramAppend
import Folio.Proofs.AssignmentSign
import Folio.Proofs.Clauses
import Folio.Proofs.SourceLayout
import Folio.Proofs.DecimalReading
import Folio.Proofs.TreePlaces
import Folio.Proofs.RepairedIndex
import Folio.Proofs.OneLineStatements
import Folio.Proofs.FailedPreparation
import Folio.Proofs.NestedIndexes
import Folio.Proofs.NearestDouble
import Folio.Proofs.InterruptedWriting
import Folio.Proofs.TokenPieces
import Folio.Proofs.SourcePlaces
import Folio.Proofs.SourceRefusals
import Folio.Proofs.ProgramForm
import Folio.Proofs.PreparedSearch
import Folio.Proofs.SteadyVectors
import Folio.Proofs.TextVectors
import Folio.Proofs.CutListing
import Folio.Proofs.TextPages
import Folio.Proofs.WordPages
import Folio.Proofs.PageReading
import Folio.Proofs.PatternMatches
import Folio.Proofs.FoundPages
import Folio.Proofs.DisplayedPath
import Folio.Proofs.CleanText
import Folio.Proofs.DottedContents
import Folio.Proofs.SealedSandbox
import Folio.Proofs.TokensReadBack
