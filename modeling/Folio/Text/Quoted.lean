import Folio.Text.Basic

/-!
# Quoted text

Text inside a list is shown in quotes: single ones, unless it has single quotes and no double ones.
The quote, the backslash and characters that cannot be shown are escaped.
-/

namespace Folio.Text

def hexPadded (width n : Nat) : Text :=
  padLeft '0' width (Nat.toDigits 16 n)

def escapeChar (quote c : Char) : Text :=
  if c == quote || c == '\\' then ['\\', c]
  else if c == '\n' then ['\\', 'n']
  else if c == '\r' then ['\\', 'r']
  else if c == '\t' then ['\\', 't']
  else if isPrintable c then [c]
  else if c.toNat < 0x100 then '\\' :: 'x' :: hexPadded 2 c.toNat
  else if c.toNat < 0x10000 then '\\' :: 'u' :: hexPadded 4 c.toNat
  else '\\' :: 'U' :: hexPadded 8 c.toNat

def quoteFor (t : Text) : Char :=
  if t.contains '\'' && !t.contains '"' then '"' else '\''

def quoted (t : Text) : Text :=
  let quote := quoteFor t
  quote :: t.flatMap (escapeChar quote) ++ [quote]

end Folio.Text
