import Folio.Text.CharClass

/-!
# Letter case

Upper, lower and title case of text. A character may have several characters as its other case,
and a capital sigma becomes the final form at the end of a word.
-/

namespace Folio.Text

/-- A case rule: characters from `first` to `last`, `step` apart, move by `shift`. -/
structure CaseShift where
  first : Nat
  last : Nat
  step : Nat
  shift : Int

def CaseShift.covers (rule : CaseShift) (n : Nat) : Bool :=
  rule.first ≤ n && n ≤ rule.last && (n - rule.first) % rule.step == 0

structure CaseMap where
  shifts : Array CaseShift
  longer : List (Nat × List Nat)

/-- Splits a word such as `41-5A+20`, `100-12E/2+1` or `FF~79` into a rule. -/
def CaseShift.ofWord (word : List Char) : CaseShift :=
  let (range, shift) := word.span fun c => c != '+' && c != '~'
  let (first, rest) := range.span (· != '-')
  let (last, step) := (rest.drop 1).span (· != '/')
  let amount : Int := hexValue (shift.drop 1)
  { first := hexValue first
    last := if rest.isEmpty then hexValue first else hexValue last
    step := if step.isEmpty then 1 else 2
    shift := if shift.head? == some '~' then -amount else amount }

def CaseShift.back (rule : CaseShift) : CaseShift where
  first := (rule.first + rule.shift).toNat
  last := (rule.last + rule.shift).toNat
  step := rule.step
  shift := -rule.shift

def rulesOf (lines : List String) : List CaseShift :=
  (wordsOf lines).map CaseShift.ofWord

/-- Splits a word such as `DF=53,53` into a character and its replacement; the characters of
`1F80-1F87=1F08,399` move along with the first of theirs. -/
def CaseMap.longerOfWord (word : List Char) : List (Nat × List Nat) :=
  let (chars, rest) := word.span (· != '=')
  let (first, last) := chars.span (· != '-')
  let count := if last.isEmpty then 1 else hexValue (last.drop 1) + 1 - hexValue first
  let replacement := (splitAll ',' (rest.drop 1)).map hexValue
  (List.range count).map fun i => (hexValue first + i, replacement.modifyHead (· + i))

def CaseMap.ofRules (rules : List CaseShift) (longer : List String) : CaseMap where
  shifts := (rules.mergeSort fun a b => a.first ≤ b.first).toArray
  longer := (wordsOf longer).flatMap CaseMap.longerOfWord

/-- The rule for a character: the last one that starts no later, if it covers the character. -/
def CaseMap.shift? (m : CaseMap) (n : Nat) : Option CaseShift :=
  let i := lastIndex (fun rule : CaseShift => rule.first ≤ n) m.shifts
  match m.shifts[i]? with
  | some rule => if rule.covers n then some rule else none
  | none => none

def CaseMap.mapped? (m : CaseMap) (n : Nat) : Option (List Nat) :=
  match m.shift? n with
  | some rule => some [((n : Int) + rule.shift).toNat]
  | none => m.longer.lookup n

def CaseMap.apply (m : CaseMap) (n : Nat) : List Nat :=
  (m.mapped? n).getD [n]

/-- The rules from capitals to small letters that also lead back. -/
def casePairs : List String := [
  "41-5A+20 C0-D6+20 D8-DE+20 100-12E/2+1 132-136/2+1 139-147/2+1 14A-176/2+1 178~79 179-17D/2+1",
  "181+D2 182-184/2+1 186+CE 187+1 189-18A+CD 18B+1 18E+4F 18F+CA 190+CB 191+1 193+CD 194+CF",
  "196+D3 197+D1 198+1 19C+D3 19D+D5 19F+D6 1A0-1A4/2+1 1A6+DA 1A7+1 1A9+DA 1AC+1 1AE+DA 1AF+1",
  "1B1-1B2+D9 1B3-1B5/2+1 1B7+DB 1B8+1 1BC+1 1C4+2 1C7+2 1CA+2 1CD-1DB/2+1 1DE-1EE/2+1 1F1+2 1F4+1",
  "1F6~61 1F7~38 1F8-21E/2+1 220~82 222-232/2+1 23A+2A2B 23B+1 23D~A3 23E+2A28 241+1 243~C3 244+45",
  "245+47 246-24E/2+1 370-372/2+1 376+1 37F+74 386+26 388-38A+25 38C+40 38E-38F+3F 391-3A1+20",
  "3A3-3AB+20 3CF+8 3D8-3EE/2+1 3F7+1 3F9~7 3FA+1 3FD-3FF~82 400-40F+50 410-42F+20 460-480/2+1",
  "48A-4BE/2+1 4C0+F 4C1-4CD/2+1 4D0-52E/2+1 531-556+30 10A0-10C5+1C60 10C7+1C60 10CD+1C60",
  "13A0-13EF+97D0 13F0-13F5+8 1C90-1CBA~BC0 1CBD-1CBF~BC0 1E00-1E94/2+1 1EA0-1EFE/2+1 1F08-1F0F~8",
  "1F18-1F1D~8 1F28-1F2F~8 1F38-1F3F~8 1F48-1F4D~8 1F59-1F5F/2~8 1F68-1F6F~8 1FB8-1FB9~8",
  "1FBA-1FBB~4A 1FC8-1FCB~56 1FD8-1FD9~8 1FDA-1FDB~64 1FE8-1FE9~8 1FEA-1FEB~70 1FEC~7 1FF8-1FF9~80",
  "1FFA-1FFB~7E 2132+1C 2160-216F+10 2183+1 24B6-24CF+1A 2C00-2C2F+30 2C60+1 2C62~29F7 2C63~EE6",
  "2C64~29E7 2C67-2C6B/2+1 2C6D~2A1C 2C6E~29FD 2C6F~2A1F 2C70~2A1E 2C72+1 2C75+1 2C7E-2C7F~2A3F",
  "2C80-2CE2/2+1 2CEB-2CED/2+1 2CF2+1 A640-A66C/2+1 A680-A69A/2+1 A722-A72E/2+1 A732-A76E/2+1",
  "A779-A77B/2+1 A77D~8A04 A77E-A786/2+1 A78B+1 A78D~A528 A790-A792/2+1 A796-A7A8/2+1 A7AA~A544",
  "A7AB~A54F A7AC~A54B A7AD~A541 A7AE~A544 A7B0~A512 A7B1~A52A A7B2~A515 A7B3+3A0 A7B4-A7C2/2+1",
  "A7C4~30 A7C5~A543 A7C6~8A38 A7C7-A7C9/2+1 A7D0+1 A7D6-A7D8/2+1 A7F5+1 FF21-FF3A+20",
  "10400-10427+28 104B0-104D3+28 10570-1057A+27 1057C-1058A+27 1058C-10592+27 10594-10595+27",
  "10C80-10CB2+40 118A0-118BF+20 16E40-16E5F+20 1E900-1E921+22"]

def lowerMap : CaseMap := CaseMap.ofRules (rulesOf casePairs ++ rulesOf [
  "1C5+1 1C8+1 1CB+1 1F2+1 3F4~3C 1E9E~1DBF 1F88-1F8F~8 1F98-1F9F~8 1FA8-1FAF~8 1FBC~9 1FCC~9",
  "1FFC~9 2126~1D5D 212A~20BF 212B~2046"])
  ["130=69,307"]

def upperMap : CaseMap := CaseMap.ofRules ((rulesOf casePairs).map CaseShift.back ++ rulesOf [
  "B5+2E7 131~E8 17F~12C 1C5~1 1C8~1 1CB~1 1F2~1 345+54 3C2~1F 3D0~3E 3D1~39 3D5~2F 3D6~36 3F0~56",
  "3F1~50 3F5~60 1C80~186E 1C81~186D 1C82~1864 1C83-1C84~1862 1C85~1863 1C86~185C 1C87~1825",
  "1C88+89C2 1E9B~3B 1FBE~1C25"]) [
  "DF=53,53 149=2BC,4E 1F0=4A,30C 390=399,308,301 3B0=3A5,308,301 587=535,552 1E96=48,331",
  "1E97=54,308 1E98=57,30A 1E99=59,30A 1E9A=41,2BE 1F50=3A5,313 1F52=3A5,313,300 1F54=3A5,313,301",
  "1F56=3A5,313,342 1F80-1F87=1F08,399 1F88-1F8F=1F08,399 1F90-1F97=1F28,399 1F98-1F9F=1F28,399",
  "1FA0-1FA7=1F68,399 1FA8-1FAF=1F68,399 1FB2=1FBA,399 1FB3=391,399 1FB4=386,399 1FB6=391,342",
  "1FB7=391,342,399 1FBC=391,399 1FC2=1FCA,399 1FC3=397,399 1FC4=389,399 1FC6=397,342",
  "1FC7=397,342,399 1FCC=397,399 1FD2=399,308,300 1FD3=399,308,301 1FD6=399,342 1FD7=399,308,342",
  "1FE2=3A5,308,300 1FE3=3A5,308,301 1FE4=3A1,313 1FE6=3A5,342 1FE7=3A5,308,342 1FF2=1FFA,399",
  "1FF3=3A9,399 1FF4=38F,399 1FF6=3A9,342 1FF7=3A9,342,399 1FFC=3A9,399 FB00=46,46 FB01=46,49",
  "FB02=46,4C FB03=46,46,49 FB04=46,46,4C FB05=53,54 FB06=53,54 FB13=544,546 FB14=544,535",
  "FB15=544,53B FB16=54E,546 FB17=544,53D"]

def titleMap : CaseMap := CaseMap.ofRules (rulesOf [
  "1C4+1 1C5+0 1C6~1 1C7+1 1C8+0 1C9~1 1CA+1 1CB+0 1CC~1 1F1+1 1F2+0 1F3~1 10D0-10FA+0 10FD-10FF+0",
  "1F80-1F87+8 1F88-1F8F+0 1F90-1F97+8 1F98-1F9F+0 1FA0-1FA7+8 1FA8-1FAF+0 1FB3+9 1FBC+0 1FC3+9",
  "1FCC+0 1FF3+9 1FFC+0"]) [
  "DF=53,73 587=535,582 1FB2=1FBA,345 1FB4=386,345 1FB7=391,342,345 1FC2=1FCA,345 1FC4=389,345",
  "1FC7=397,342,345 1FF2=1FFA,345 1FF4=38F,345 1FF7=3A9,342,345 FB00=46,66 FB01=46,69 FB02=46,6C",
  "FB03=46,66,69 FB04=46,66,6C FB05=53,74 FB06=53,74 FB13=544,576 FB14=544,565 FB15=544,56B",
  "FB16=54E,576 FB17=544,56D"]

def casedRanges : Ranges := Ranges.ofLines [
  "+13Q6Ql1A1415N1V1+39144+3M1a72U5+1Y1g42224116113111K1+1L1+2F8+2g1c9f+jnc11512h23+Aq+1O26+Z897h",
  "23+12+36+12+4U262c26281111111V2r1711331734264D5317+1s1D1GD+1d1412A1135611111141641245541HW32",
  "+DBq+TG+3h6432Cc1151++83ukIU+28+1e341x521115R213+DFh1D7+1I++5HE7C5+GfQ6Q+JB+1I+1Ya4a+1sB1F1712",
  "1B1F1712+7H1231g19+JhpDp+mD+12++5gW+12++6l6+1N1+19122122241C11171+131428171S141511371+5U2P1P1V",
  "1P1V1P1V1P1V1P18+TkA1K+en+16+WiQ6Q6Q"]

/-- Characters that are passed over when the end of a word is looked for. -/
def caseIgnorableRanges : Ranges := Ranges.ofLines [
  "d161B1Z111+19141114122+87+3642419211+437+3L151nj11121211i1B6AB11Z1ALG1+1d81A14X111UR+1TBwB4121",
  "OOh3i17268fwt111484137A2D1F1w14481K2Q122v142422331U231B2v1451241K2M611w121148172B2U1z1C1o131t1",
  "13531472B2T1w1216152K2S2v24481K2T1+1A17311+1S127B9+1a1299116+1C2R11111tE15125B1a91+1e4161222P2",
  "43G4D12261F1+1W1+9o3+FG3T2U2U2+12217812B3151j5p1+132Y1+1u3429163+3X221w1171111286A21d18Vn4m115",
  "1151e9C2W42213u1123113w822+126+1K31D17416132o+11D1Y+1d+7B113B3D3D3D2C582A12125n51A11D1GDpX+lf2",
  "+1p3+211F1+1YWl1+7Z1a43551+1V6+1V3++7Og1+KA6+4M1+1a41A11S4+1I2EY+1G1N3+1f332813141P251+2R2QID1",
  "c8PBk3m12422H1L2+1462222C181Z1B1p113225211R1E25211+1c593+1x12141++5Gy1+2NH+9FG31CGY121+2j17161",
  "B1Z111l1j2+151L3+8H1+3e1+2P5+Gb61g19+9O31254e341+2f2+9F4+6F2+2TBn4+1z1sFf122A3n4222141A1o3a518",
  "+101C2q9A421+1X3211261+2a138L2v231b735+3982311N1+1M6114212+3q46212R2+1N82112+1i1112611+1d32415",
  "+4B912+4821141+2K42241WAe624819623kD12+6Y71611+1KM271212+1y631121711+1A23111+5b2++1Pf9++3dv5x7",
  "94+Gh1+11H+12212++4GR41712+q6214++1Dok2N+8m39G27U4+2O3+Vvt4o81E1M51F+Lw71H271215+4DE+5w1z4+OG7",
  "+1l8+i75+++3JNx1U+1Y+24+3s"]

def lowerChar (c : Char) : List Char :=
  (lowerMap.apply c.toNat).map Char.ofNat

def upperChar (c : Char) : List Char :=
  (upperMap.apply c.toNat).map Char.ofNat

def titleChar (c : Char) : List Char :=
  match titleMap.mapped? c.toNat with
  | some replacement => replacement.map Char.ofNat
  | none => upperChar c

def foldChar (c : Char) : Char :=
  if c.toNat < 128 then c.toLower else (lowerChar c).headD c

def raiseChar (c : Char) : Char :=
  if c.toNat < 128 then c.toUpper else (upperChar c).headD c

def isCased (c : Char) : Bool :=
  casedRanges.contains c.toNat

def isCaseIgnorable (c : Char) : Bool :=
  caseIgnorableRanges.contains c.toNat

/-- A capital sigma is final if a cased character stands before it and none after it. -/
def isFinalSigma (before after : List Char) : Bool :=
  ((before.dropWhile isCaseIgnorable).head?.map isCased).getD false
    && !((after.dropWhile isCaseIgnorable).head?.map isCased).getD false

/-- The lower-case form of a character between its reversed left and its right context. -/
def lowerIn (before : List Char) (c : Char) (after : List Char) : List Char :=
  if c.toNat < 128 then [c.toLower]
  else if c == 'Σ' then [if isFinalSigma before after then 'ς' else 'σ']
  else lowerChar c

def lower (cs : List Char) : List Char :=
  go [] [] cs
where
  go (before done : List Char) : List Char → List Char
    | [] => done.reverse
    | c :: rest => go (c :: before) ((lowerIn before c rest).reverse ++ done) rest

def upper (cs : List Char) : List Char :=
  cs.flatMap upperChar

def title (cs : List Char) : List Char :=
  go [] [] false cs
where
  go (before done : List Char) (inWord : Bool) : List Char → List Char
    | [] => done.reverse
    | c :: rest =>
      let piece := if inWord then lowerIn before c rest else titleChar c
      go (c :: before) (piece.reverse ++ done) (isCased c) rest

end Folio.Text
