import Folio.Text.Basic
import Folio.Text.NormalForm

/-!
# Text as it is shown

Extracted text is brought to compatibility form, its line ends become newlines, other blanks become
spaces, and invisible characters are dropped.
-/

namespace Folio.Text

/-- What a character of extracted text is shown as. Newlines and tabs stay. -/
def shown? (c : Char) : Option Char :=
  if c == '\n' || c == '\t' then some c
  else if isSpace c then some ' '
  else if isControl c || isFormat c then none
  else some c

def normalize (t : Text) : Text :=
  (unixNewlines (compatibilityForm t)).filterMap shown?

end Folio.Text
