import Folio.Text.CharClass

/-!
# Identifiers

Characters that can start an identifier and those that can follow, in version 14 of the character
database. Letters and the low line start an identifier; marks, digits and connectors follow.
-/

namespace Folio.Text

/-- Characters that start identifiers although they are no letters, most of them numerals. -/
def otherStartRanges : Ranges := Ranges.ofLines [
  "++1Wg3+6W2+ZN1L1nZ24+xq1P9E3++7tzA++60ur+7Q181+2A5++28o+1n"]

/-- Letters that start no identifier, since their normal form starts none. -/
def unstableLetterRanges : Ranges := Ranges.ofLines [
  "+EM1+iG1+231++25z1++DjK6+6Y2+1s111111111111111+4d2"]

/-- The characters beyond ASCII that can stand in an identifier but not start it. -/
def identifierOnlyInsideRanges : Ranges := Ranges.ofLines [
  "+2x1+9Q+1oN1+435+4Hj11121211+1ABmV61+1d72622142AN1UR+1TBFAX991O4191315h3y8gO1Xs31I17A22AH3u117",
  "222391A22AE123u115422331KC31B3u1181313K22AA613u117222373A22AI1x5331491EAG5t117131472B22AH3u117",
  "131472B22AG4t217131491A22AH3+1814611186A22z118C81A+1P11AB62A+1026AB1111142nK125B1a91+1cK1AC443",
  "132734DC1F+BL399+Ey4S3T2U2+12W912AX31B+2J1+1uC4CAA+24By5vA1T2B6AME1Gn5lHBAH9C3UD2AiEmK8A6A+1u3",
  "1L416123+3C+12+9H2J1+1zD413C+nW3+2H1+1YW+8w6+1h2++7pFA+1714AW2+1I2+4O13141N541+1L2oIAA6IDBS8PD",
  "i4lEFAB1AAlEC1822AX3o113225211f552+3o8122A++5Gm1+BtGGG32O3+36Ab1+1W2+9l1+3e1+2P5+4jA+M331254e3",
  "41+2f2+9F48A+5x2+2TBn4+1y3rFVB22A4jB71jA63aE1A52i1C3mE841C+1KC61+2aC5A64t217222391A22735+36I9A",
  "41+1JKCA+3R729R2+1KHFA+1JD8A+1LF4A+3uF+2fA+18612241112CA+1v72731SAe714819BkG+6X818GAuM1E+1y631",
  "1217118Am512158A+5J4++51NA+1OAc5x7PA+GL11t74+1J1B2++56Z2++1Dtk2N+8k5368827U4+2O3+Mro+8Gt4o81E1",
  "M51F+Lw71H271215+4D79A+5k1zE+O67+1l75A++1EkA+++3Iv8+3s"]

def isIdentifierStart (c : Char) : Bool :=
  if c.toNat < 128 then c.isAlpha || c == '_'
  else
    (isLetter c && !unstableLetterRanges.contains c.toNat) || otherStartRanges.contains c.toNat

def isIdentifierPart (c : Char) : Bool :=
  isIdentifierStart c || (if c.toNat < 128 then c.isDigit else
    identifierOnlyInsideRanges.contains c.toNat)

def isIdentifier : List Char → Bool
  | [] => false
  | c :: rest => isIdentifierStart c && rest.all isIdentifierPart

end Folio.Text
