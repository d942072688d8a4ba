import Folio.Decimal.Binary
import Folio.Text.Quoted

/-!
# Misuse of values

What can go wrong with operators, templates and built-in functions, with its wording.
-/

namespace Folio

abbrev TypeName := String

def inQuotes (name : String) : Text :=
  '\'' :: name.toList ++ ['\'']

inductive MistakeKind where
  | type
  | value
  | index
  | zeroDivision
  | overflow
  | memory
deriving DecidableEq, Repr

inductive OperandMistake where
  | unsupported (symbol : String) (left right : TypeName)
  | concatenation (sequence other : TypeName)
  | repetition (other : TypeName)
  | indexTooLarge
  | repeatedTextTooLong
  | noMemory
  | incomparable (symbol : String) (left right : TypeName)
  | notIterable (type : TypeName)
  | textMember (left : TypeName)
  | nameMember (container left : TypeName)
  | divisionByZero
  | moduloByZero
  | floatDivisionByZero
  | floatModulo
  | intTooLarge
  | quotientTooLarge
  | infinityToInt
  | nanToInt
deriving DecidableEq, Repr

def OperandMistake.kind : OperandMistake → MistakeKind
  | .indexTooLarge => .overflow
  | .repeatedTextTooLong => .overflow
  | .noMemory => .memory
  | .divisionByZero => .zeroDivision
  | .moduloByZero => .zeroDivision
  | .floatDivisionByZero => .zeroDivision
  | .floatModulo => .zeroDivision
  | .intTooLarge => .overflow
  | .quotientTooLarge => .overflow
  | .infinityToInt => .overflow
  | .nanToInt => .value
  | _ => .type

def OperandMistake.message : OperandMistake → Text
  | .unsupported symbol left right =>
    "unsupported operand type(s) for ".toList ++ symbol.toList ++ ": ".toList ++ inQuotes left
      ++ " and ".toList ++ inQuotes right
  | .concatenation sequence other =>
    "can only concatenate ".toList ++ sequence.toList ++ " (not \"".toList ++ other.toList
      ++ "\") to ".toList ++ sequence.toList
  | .repetition other =>
    "can't multiply sequence by non-int of type ".toList ++ inQuotes other
  | .indexTooLarge => "cannot fit 'int' into an index-sized integer".toList
  | .repeatedTextTooLong => "repeated string is too long".toList
  | .noMemory => []
  | .incomparable symbol left right =>
    inQuotes symbol ++ " not supported between instances of ".toList ++ inQuotes left
      ++ " and ".toList ++ inQuotes right
  | .notIterable type => "argument of type ".toList ++ inQuotes type ++ " is not iterable".toList
  | .textMember left =>
    "'in <string>' requires string as left operand, not ".toList ++ left.toList
  | .nameMember container left =>
    "'in ".toList ++ container.toList ++ "(...)' requires string left operand, not ".toList
      ++ left.toList
  | .divisionByZero => "division by zero".toList
  | .moduloByZero => "integer modulo by zero".toList
  | .floatDivisionByZero => "float division by zero".toList
  | .floatModulo => "float modulo".toList
  | .intTooLarge => "int too large to convert to float".toList
  | .quotientTooLarge => "integer division result too large for a float".toList
  | .infinityToInt => "cannot convert float infinity to integer".toList
  | .nanToInt => "cannot convert float NaN to integer".toList

def wholePart (x : Float) : Except OperandMistake Int :=
  match Decimal.parts x with
  | .nan => .error .nanToInt
  | .infinite _ => .error .infinityToInt
  | .finite _ _ => .ok ((Decimal.truncate? x).getD 0)

inductive TemplateMistake where
  | notEnough
  | notAllConverted
  | incomplete
  | incompleteKey
  | needsMapping
  | listKey
  | needsWholeStar
  | widthTooBig
  | precisionTooBig
  | unsupportedCharacter (c : Char) (index : Nat)
  | needsNumber (letter : Char) (type : TypeName)
  | needsWhole (letter : Char) (type : TypeName)
  | needsReal (type : TypeName)
  | needsCharacter
  | characterRange
  | intTooLarge
deriving DecidableEq, Repr

def TemplateMistake.kind : TemplateMistake → MistakeKind
  | .incomplete => .value
  | .incompleteKey => .value
  | .widthTooBig => .value
  | .precisionTooBig => .value
  | .unsupportedCharacter _ _ => .value
  | .characterRange => .overflow
  | .intTooLarge => .overflow
  | _ => .type

def TemplateMistake.message : TemplateMistake → Text
  | .notEnough => "not enough arguments for format string".toList
  | .notAllConverted => "not all arguments converted during string formatting".toList
  | .incomplete => "incomplete format".toList
  | .incompleteKey => "incomplete format key".toList
  | .needsMapping => "format requires a mapping".toList
  | .listKey => "list indices must be integers or slices, not str".toList
  | .needsWholeStar => "* wants int".toList
  | .widthTooBig => "width too big".toList
  | .precisionTooBig => "precision too big".toList
  | .unsupportedCharacter c index =>
    "unsupported format character '".toList
      ++ (if 31 < c.toNat && c.toNat < 127 then [c] else ['?'])
      ++ "' (0x".toList ++ Nat.toDigits 16 c.toNat ++ ") at index ".toList ++ Text.ofNat index
  | .needsNumber letter type =>
    '%' :: letter :: " format: a real number is required, not ".toList ++ type.toList
  | .needsWhole letter type =>
    '%' :: letter :: " format: an integer is required, not ".toList ++ type.toList
  | .needsReal type => "must be real number, not ".toList ++ type.toList
  | .needsCharacter => "%c requires int or char".toList
  | .characterRange => "%c arg not in range(0x110000)".toList
  | .intTooLarge => "int too large to convert to float".toList

/-- What is wrong with the arguments of a call. `name` is what the messages call the function. -/
inductive ArgumentMistake where
  | missing (name : String) (parameters : List String)
  | tooMany (name : String) (least most given : Nat)
  | unexpected (name keyword : String)
  | repeated (name keyword : String)
  | exactlyOne (name : String) (given : Nat)
  | noArguments (name : String) (given : Nat)
  | noKeywords (name : String)
  | atLeast (name : String) (least given : Nat)
  | atMost (name : String) (most given : Nat)
  | expectedAtLeast (name : String) (least given : Nat)
  | expectedAtMost (name : String) (most given : Nat)
  | expectedExactly (name : String) (count given : Nat)
  | invalidKeyword (name keyword : String)
  | givenTwice (name parameter : String) (position : Nat)
  | atMostKeywords (name : String) (most given : Nat)
  | noPositional (name : String)
  | noLength (type : TypeName)
  | notIterable (type : TypeName)
  | onlyIterables
  | itemNotText (index : Nat) (type : TypeName)
  | notText (type : TypeName)
  | notTextOrNone (type : TypeName)
  | argumentNotText (name : String) (position : Nat) (type : TypeName)
  | stripArgument (name : String)
  | affixArgument (name : String) (type : TypeName)
  | notIndex (type : TypeName)
  | sliceIndex
  | plainSliceIndex
  | notCallable (type : TypeName)
  | unhashable (type : TypeName)
  | floatArgument (type : TypeName)
deriving DecidableEq, Repr

def listedParameters : List String → Text
  | [] => []
  | [a] => inQuotes a
  | [a, b] => inQuotes a ++ " and ".toList ++ inQuotes b
  | names =>
    Text.joinWith ", ".toList ((names.dropLast).map inQuotes) ++ ", and ".toList
      ++ inQuotes (names.getLast?.getD "")

def counted (n : Nat) (noun : String) : Text :=
  Text.ofNat n ++ ' ' :: noun.toList ++ (if n == 1 then [] else ['s'])

def ArgumentMistake.message : ArgumentMistake → Text
  | .missing name parameters =>
    name.toList ++ "() missing ".toList
      ++ counted parameters.length "required positional argument" ++ ": ".toList
      ++ listedParameters parameters
  | .tooMany name least most given =>
    name.toList ++ "() takes ".toList
      ++ (if least == most then counted most "positional argument"
        else "from ".toList ++ Text.ofNat least ++ " to ".toList
          ++ counted most "positional argument")
      ++ " but ".toList ++ Text.ofNat given
      ++ (if given == 1 then " was given" else " were given").toList
  | .unexpected name keyword =>
    name.toList ++ "() got an unexpected keyword argument ".toList ++ inQuotes keyword
  | .repeated name keyword =>
    name.toList ++ "() got multiple values for argument ".toList ++ inQuotes keyword
  | .exactlyOne name given =>
    name.toList ++ "() takes exactly one argument (".toList ++ Text.ofNat given ++ " given)".toList
  | .noArguments name given =>
    name.toList ++ "() takes no arguments (".toList ++ Text.ofNat given ++ " given)".toList
  | .noKeywords name => name.toList ++ "() takes no keyword arguments".toList
  | .atLeast name least given =>
    name.toList ++ "() takes at least ".toList ++ counted least "argument" ++ " (".toList
      ++ Text.ofNat given ++ " given)".toList
  | .atMost name most given =>
    name.toList ++ "() takes at most ".toList ++ counted most "argument" ++ " (".toList
      ++ Text.ofNat given ++ " given)".toList
  | .expectedAtLeast name least given =>
    name.toList ++ " expected at least ".toList ++ counted least "argument" ++ ", got ".toList
      ++ Text.ofNat given
  | .expectedAtMost name most given =>
    name.toList ++ " expected at most ".toList ++ counted most "argument" ++ ", got ".toList
      ++ Text.ofNat given
  | .expectedExactly name count given =>
    name.toList ++ " expected ".toList ++ counted count "argument" ++ ", got ".toList
      ++ Text.ofNat given
  | .invalidKeyword name keyword =>
    inQuotes keyword ++ " is an invalid keyword argument for ".toList ++ name.toList
      ++ "()".toList
  | .givenTwice name parameter position =>
    "argument for ".toList ++ name.toList ++ "() given by name (".toList ++ inQuotes parameter
      ++ ") and position (".toList ++ Text.ofNat position ++ [')']
  | .atMostKeywords name most given =>
    name.toList ++ "() takes at most ".toList ++ counted most "keyword argument" ++ " (".toList
      ++ Text.ofNat given ++ " given)".toList
  | .noPositional name => name.toList ++ "() takes no positional arguments".toList
  | .noLength type => "object of type ".toList ++ inQuotes type ++ " has no len()".toList
  | .notIterable type => inQuotes type ++ " object is not iterable".toList
  | .onlyIterables => "can only join an iterable".toList
  | .itemNotText index type =>
    "sequence item ".toList ++ Text.ofNat index ++ ": expected str instance, ".toList
      ++ type.toList ++ " found".toList
  | .notText type => "must be str, not ".toList ++ type.toList
  | .notTextOrNone type => "must be str or None, not ".toList ++ type.toList
  | .argumentNotText name position type =>
    name.toList ++ "() argument ".toList ++ Text.ofNat position ++ " must be str, not ".toList
      ++ type.toList
  | .stripArgument name => name.toList ++ " arg must be None or str".toList
  | .affixArgument name type =>
    name.toList ++ " first arg must be str or a tuple of str, not ".toList ++ type.toList
  | .notIndex type => inQuotes type ++ " object cannot be interpreted as an integer".toList
  | .sliceIndex => "slice indices must be integers or None or have an __index__ method".toList
  | .plainSliceIndex => "slice indices must be integers or have an __index__ method".toList
  | .notCallable type => inQuotes type ++ " object is not callable".toList
  | .unhashable type => "unhashable type: ".toList ++ inQuotes type
  | .floatArgument type =>
    "float() argument must be a string or a real number, not ".toList ++ inQuotes type

inductive ItemMistake where
  | emptySeparator
  | popFromEmpty
  | popRange
  | notInList (shown : Text)
  | removeMissing
  | changedWhileSorting
  | notFloat (shown : Text)
  | wordRange (word : String)
deriving DecidableEq, Repr

def ItemMistake.kind : ItemMistake → MistakeKind
  | .popFromEmpty => .index
  | .popRange => .index
  | .wordRange _ => .overflow
  | _ => .value

def ItemMistake.message : ItemMistake → Text
  | .emptySeparator => "empty separator".toList
  | .popFromEmpty => "pop from empty list".toList
  | .popRange => "pop index out of range".toList
  | .notInList shown => shown ++ " is not in list".toList
  | .removeMissing => "list.remove(x): x not in list".toList
  | .changedWhileSorting => "list modified during sort".toList
  | .notFloat shown => "could not convert string to float: ".toList ++ shown
  | .wordRange word => "Python int too large to convert to C ".toList ++ word.toList

end Folio
