import Folio.FileTree
import Folio.Json.Parser
import Folio.Pattern.Flaw
import Folio.Source.Refusal
import Folio.Value.Misuse

/-!
# Faults

The source of a program may be refused. A complaint is what the library itself has to say: a wrong
argument, a missing file, a pattern that is none. A failure comes from below, and inside a program
becomes a complaint at the place where it happened.
-/

namespace Folio

inductive Failure where
  | system (e : SystemError)
  | decoding (flaw : Text.Utf8.Flaw)
  | json (source : Text) (e : Json.ReadError)
  | linkCircle (path : Path)
  | nullInPath
  | notBelow (path base : Path)
  | pageSize
  /-- A pattern with a number or setting that is refused. -/
  | pattern (source : Text) (flaw : Pattern.Flaw)
  | number (flaw : Decimal.NumberFlaw)
  | numberTooLong
  | operand (e : OperandMistake)
  | template (e : TemplateMistake)
  | argument (e : ArgumentMistake)
  | item (e : ItemMistake)

def Failure.message : Failure → Text
  | .system e => e.message
  | .decoding flaw => flaw.message.toList
  | .json source e => e.message source
  | .linkCircle path => "Symlink loop from ".toList ++ Text.quoted path.text
  | .nullInPath => "embedded null byte".toList
  | .notBelow path base =>
    Text.quoted path.text ++ " is not in the subpath of ".toList ++ Text.quoted base.text
      ++ " OR one path is relative and the other is absolute.".toList
  | .pageSize => "range() arg 3 must not be zero".toList
  | .pattern source flaw => flaw.message source
  | .number flaw => flaw.message
  | .numberTooLong => Decimal.tooLongMessage
  | .operand e => e.message
  | .template e => e.message
  | .argument e => e.message
  | .item e => e.message

def Failure.isTypeMistake : Failure → Bool
  | .operand e => e.kind == .type
  | .template e => e.kind == .type
  | .argument _ => true
  | _ => false

inductive DocumentKind where
  | pdf
  | word
  | slides
deriving DecidableEq, Repr

def DocumentKind.title : DocumentKind → String
  | .pdf => "PDF"
  | .word => "DOCX"
  | .slides => "PPTX"

def DocumentKind.reader : DocumentKind → String × String
  | .pdf => ("PyMuPDF", "pymupdf")
  | .word => ("python-docx", "python-docx")
  | .slides => ("python-pptx", "python-pptx")

inductive Complaint where
  | blankQuery
  | badLimit
  | recursiveNotBool
  | noIndex (shown : Text)
  | noCollection
  | recordsCorrupt
  | vectorsCorrupt
  | folderMissing (shown : Text)
  | notDirectory (shown : Text)
  | directoryMissing (shown : Text)
  | fileMissing (shown : Text)
  | notFile (shown : Text)
  | accessDenied (shown root : Text)
  | pathNotText (constructor : String)
  | directoryRecursive
  | patternNotText
  | badPattern (source : Text) (flaw : Pattern.Flaw)
  | badMaxItems
  | badMaxResults
  | badContext
  | badDepth
  | badEntries
  | badScope
  | pagesShape
  | pagesMember
  | pageRange (shown name : Text) (total : Nat)
  | readerMissing (kind : DocumentKind)
  | unreadable (kind : DocumentKind) (outline : Bool) (name detail : Text)
  | undefinedVariable (name : String)
  | strayRange
  | noAttribute (type : TypeName) (name : String)
  | notCallable
  | notIterable
  | rangeBounds
  | negation
  | unsupportedUnary (op : Text)
  | unsupportedBinary (op : Text)
  | unsupportedComparison (op : Text)
  | unsupportedExpression
  | unsupportedStatement
  | callFailed (failure : Failure)
  | failed (failure : Failure)

def Complaint.message : Complaint → Text
  | .blankQuery => "query must be a non-empty string".toList
  | .badLimit => "top_k must be a positive integer".toList
  | .recursiveNotBool => "recursive must be a boolean".toList
  | .noIndex shown =>
    "No semantic index found for ".toList ++ shown
      ++ ". Run 'uv run fdsl prepare <folder>' first.".toList
  | .noCollection =>
    ("No prepared semantic index collection found. "
      ++ "Run 'uv run fdsl prepare <folder>' first.").toList
  | .recordsCorrupt => "Semantic records database is corrupted.".toList
  | .vectorsCorrupt => "Semantic vectors database is corrupted.".toList
  | .folderMissing shown => "Folder does not exist: ".toList ++ shown
  | .notDirectory shown => "Path is not a directory: ".toList ++ shown
  | .directoryMissing shown => "Directory does not exist: ".toList ++ shown
  | .fileMissing shown => "File does not exist: ".toList ++ shown
  | .notFile shown => "Path is not a file: ".toList ++ shown
  | .accessDenied shown root =>
    "Access denied. '".toList ++ shown ++ "' is outside sandbox root '".toList ++ root ++ ['\'']
  | .pathNotText constructor => constructor.toList ++ "(path) expects a string path".toList
  | .directoryRecursive => "Directory(..., recursive=...) expects a boolean".toList
  | .patternNotText => "Regex pattern must be a string".toList
  | .badPattern source flaw => "Invalid regex pattern: ".toList ++ flaw.message source
  | .badMaxItems => "max_items must be a positive integer".toList
  | .badMaxResults => "max_results must be a positive integer".toList
  | .badContext => "context_chars must be a non-negative integer".toList
  | .badDepth => "max_depth must be a non-negative integer".toList
  | .badEntries => "max_entries must be a positive integer".toList
  | .badScope => "scope must be one of: 'name', 'content', 'both'".toList
  | .pagesShape => "pages must be an integer or a list of integers".toList
  | .pagesMember => "pages list must contain only integers".toList
  | .pageRange shown name total =>
    "Page ".toList ++ shown ++ " is out of range for ".toList ++ name ++ " (1..".toList
      ++ Text.ofNat total ++ [')']
  | .readerMissing kind =>
    let (reader, package) := kind.reader
    reader.toList ++ " is required to read ".toList ++ kind.title.toList
      ++ " files. Install dependency ".toList ++ inQuotes package ++ ['.']
  | .unreadable kind outline name detail =>
    "Failed to read ".toList ++ kind.title.toList ++ (if outline then " outline" else "").toList
      ++ " '".toList ++ name ++ "': ".toList ++ detail
  | .undefinedVariable name => "Undefined variable ".toList ++ inQuotes name
  | .strayRange => "Range syntax is only valid inside list literals".toList
  | .noAttribute type name =>
    "Object of type ".toList ++ inQuotes type ++ " has no attribute ".toList ++ inQuotes name
  | .notCallable => "Attempted to call a non-callable value".toList
  | .notIterable => "for-loop target is not iterable".toList
  | .rangeBounds => "Range bounds must be integers".toList
  | .negation => "Unary '-' expects an integer".toList
  | .unsupportedUnary op => "Unsupported unary operator '".toList ++ op ++ ['\'']
  | .unsupportedBinary op => "Unsupported binary operator '".toList ++ op ++ ['\'']
  | .unsupportedComparison op => "Unsupported comparison operator '".toList ++ op ++ ['\'']
  | .unsupportedExpression => "Unsupported expression".toList
  | .unsupportedStatement => "Unsupported statement".toList
  | .callFailed failure => "Call failed: ".toList ++ failure.message
  | .failed failure => failure.message

structure Place where
  location : Source.Location
  sourceLine : Text
deriving DecidableEq, Repr

inductive Fault where
  | refusal (reason : Source.Refusal) (place : Place)
  | complaint (what : Complaint) (place : Option Place)
  | failure (what : Failure)

def Complaint.fault (c : Complaint) : Fault :=
  .complaint c none

def Fault.ofSource : Source.SourceError → Fault
  | .refused reason location sourceLine => .refusal reason ⟨location, sourceLine⟩
  | .number flaw => .failure (.number flaw)

def Place.report (message : Text) (place : Option Place) : Source.Report where
  message := message
  line := place.map (·.location.line)
  column := place.map (·.location.column)
  sourceLine := place.map (·.sourceLine)

def Fault.report : Fault → Source.Report
  | .refusal reason place => Place.report reason.message (some place)
  | .complaint what place => Place.report what.message place
  | .failure what => Place.report what.message none

def Fault.heading : Fault → String
  | .refusal _ _ => "SyntaxError"
  | _ => "RuntimeError"

def Fault.text (f : Fault) : Text :=
  f.report.format f.heading

end Folio
