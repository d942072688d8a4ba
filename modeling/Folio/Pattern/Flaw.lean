import Folio.Decimal.Integer
import Folio.Pattern.Basic

/-!
# Patterns that are refused

The reasons for which a text is no pattern, with their wording.
-/

namespace Folio.Pattern

inductive Problem where
  | escapeAtEnd
  | incompleteEscape (escape : Text)
  | badEscape (escape : Text)
  | octalRange (escape : Text)
  | missingBrace
  | undefinedName (name : Text)
  | missingName (what : Text)
  | unterminatedName (terminator : Char)
  | badGroupName (name : Text)
  | unknownGroupName (name : Text)
  | groupNameTaken (name : Text) (group earlier : Nat)
  | badGroupNumber
  | openGroup
  | groupInSameLook
  | invalidReference (group : Nat)
  | unterminatedSet
  | badRange (first last : Text)
  | repeatOrder
  | nothingToRepeat
  | multipleRepeat
  | unexpectedEnd
  | unknownExtension (extension : Text)
  | unterminatedComment
  | unterminatedGroup
  | tooManyBranches
  | lateFlags
  | localeFlag
  | alphabetFlags
  | missingFlagEnd
  | unknownFlag
  | missingFlag
  | missingColon
  | globalFlagOn
  | globalFlagOff
  | alphabetFlagOff
  | flagOnAndOff
  | unbalanced
deriving DecidableEq, Repr

def Problem.message : Problem → Text
  | .escapeAtEnd => "bad escape (end of pattern)".toList
  | .incompleteEscape escape => "incomplete escape ".toList ++ escape
  | .badEscape escape => "bad escape ".toList ++ escape
  | .octalRange escape =>
    "octal escape value ".toList ++ escape ++ " outside of range 0-0o377".toList
  | .missingBrace => "missing \x7b".toList
  | .undefinedName name => "undefined character name ".toList ++ Text.quoted name
  | .missingName what => "missing ".toList ++ what
  | .unterminatedName terminator => "missing ".toList ++ terminator :: ", unterminated name".toList
  | .badGroupName name => "bad character in group name ".toList ++ Text.quoted name
  | .unknownGroupName name => "unknown group name ".toList ++ Text.quoted name
  | .groupNameTaken name group earlier =>
    "redefinition of group name ".toList ++ Text.quoted name ++ " as group ".toList
      ++ Text.ofNat group ++ "; was group ".toList ++ Text.ofNat earlier
  | .badGroupNumber => "bad group number".toList
  | .openGroup => "cannot refer to an open group".toList
  | .groupInSameLook => "cannot refer to group defined in the same lookbehind subpattern".toList
  | .invalidReference group => "invalid group reference ".toList ++ Text.ofNat group
  | .unterminatedSet => "unterminated character set".toList
  | .badRange first last => "bad character range ".toList ++ first ++ '-' :: last
  | .repeatOrder => "min repeat greater than max repeat".toList
  | .nothingToRepeat => "nothing to repeat".toList
  | .multipleRepeat => "multiple repeat".toList
  | .unexpectedEnd => "unexpected end of pattern".toList
  | .unknownExtension extension => "unknown extension ?".toList ++ extension
  | .unterminatedComment => "missing ), unterminated comment".toList
  | .unterminatedGroup => "missing ), unterminated subpattern".toList
  | .tooManyBranches => "conditional backref with more than two branches".toList
  | .lateFlags => "global flags not at the start of the expression".toList
  | .localeFlag => "bad inline flags: cannot use 'L' flag with a str pattern".toList
  | .alphabetFlags => "bad inline flags: flags 'a', 'u' and 'L' are incompatible".toList
  | .missingFlagEnd => "missing -, : or )".toList
  | .unknownFlag => "unknown flag".toList
  | .missingFlag => "missing flag".toList
  | .missingColon => "missing :".toList
  | .globalFlagOn => "bad inline flags: cannot turn on global flag".toList
  | .globalFlagOff => "bad inline flags: cannot turn off global flag".toList
  | .alphabetFlagOff => "bad inline flags: cannot turn off flags 'a', 'u' and 'L'".toList
  | .flagOnAndOff => "bad inline flags: flag turned on and off".toList
  | .unbalanced => "unbalanced parenthesis".toList

inductive Flaw where
  | problem (what : Problem) (position : Nat)
  | looseLookBehind
  | farLookBehind
  | repeatRefused (greed : Greed)
  | repeatTooLarge
  | number (flaw : Decimal.NumberFlaw)
  | alphabets
deriving DecidableEq, Repr

def Greed.keyword : Greed → String
  | .greedy => "MAX_REPEAT"
  | .reluctant => "MIN_REPEAT"
  | .possessive => "POSSESSIVE_REPEAT"

def lineText (pattern : Text) (position : Nat) : Text :=
  if pattern.contains '\n' then
    let before := pattern.take position
    let column := (before.reverse.takeWhile (· != '\n')).length + 1
    " (line ".toList ++ Text.ofNat (before.count '\n' + 1) ++ ", column ".toList
      ++ Text.ofNat column ++ [')']
  else []

def Flaw.message (pattern : Text) : Flaw → Text
  | .problem what position =>
    what.message ++ " at position ".toList ++ Text.ofNat position ++ lineText pattern position
  | .looseLookBehind => "look-behind requires fixed-width pattern".toList
  | .farLookBehind => "looks too much behind".toList
  | .repeatRefused greed =>
    "internal: unsupported template operator ".toList ++ greed.keyword.toList
  | .repeatTooLarge => "the repetition number is too large".toList
  | .number flaw => flaw.message
  | .alphabets => "ASCII and UNICODE flags are incompatible".toList

/-- Is it the pattern that is wrong, and not a number or a setting in it? -/
def Flaw.isRefusal : Flaw → Bool
  | .repeatTooLarge => false
  | .number _ => false
  | .alphabets => false
  | _ => true

end Folio.Pattern
