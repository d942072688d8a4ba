import Folio.Text.Ranges

/-!
# Classes of characters

The classes of the character database of version 14 that decide how text is cut into tokens, words
and lines, and what of it can be shown. Every class answers by a plain rule below code point 128.
-/

namespace Folio.Text

/-- Blank characters: the separators, the tabs and line ends, and the four information
separators. -/
def isSpace (c : Char) : Bool :=
  let n := c.toNat
  (9 ≤ n && n ≤ 13) || (28 ≤ n && n ≤ 32) || n == 0x85 || n == 0xA0 || n == 0x1680
    || (0x2000 ≤ n && n ≤ 0x200A) || n == 0x2028 || n == 0x2029 || n == 0x202F || n == 0x205F
    || n == 0x3000

def isLineEnd (c : Char) : Bool :=
  let n := c.toNat
  (10 ≤ n && n ≤ 13) || (28 ≤ n && n ≤ 30) || n == 0x85 || n == 0x2028 || n == 0x2029

def decimalRanges : Ranges := Ranges.ofRuns [
  1632, 10, 134, 10, 198, 10, 412, 10, 118, 10, 118, 10, 118, 10, 118, 10, 118, 10, 118, 10, 118,
  10, 118, 10, 118, 10, 96, 10, 118, 10, 70, 10, 278, 10, 70, 10, 1862, 10, 38, 10, 300, 10, 128,
  10, 166, 10, 6, 10, 182, 10, 86, 10, 134, 10, 6, 10, 35270, 10, 678, 10, 38, 10, 198, 10, 22, 10,
  86, 10, 406, 10, 21270, 10, 1414, 10, 2182, 10, 812, 10, 128, 10, 60, 10, 144, 10, 278, 10, 342,
  10, 118, 10, 374, 10, 102, 10, 102, 10, 422, 10, 102, 10, 758, 10, 246, 10, 70, 10, 19638, 10, 86,
  10, 134, 10, 27764, 50, 2368, 10, 422, 10, 1622, 10, 4758, 10]

def otherDigitRanges : Ranges := ⟨#[
  (0xB2, 0xB3), (0xB9, 0xB9), (0x1369, 0x1371), (0x19DA, 0x19DA), (0x2070, 0x2070),
  (0x2074, 0x2079), (0x2080, 0x2089), (0x2460, 0x2468), (0x2474, 0x247C), (0x2488, 0x2490),
  (0x24EA, 0x24EA), (0x24F5, 0x24FD), (0x24FF, 0x24FF), (0x2776, 0x277E), (0x2780, 0x2788),
  (0x278A, 0x2792), (0x10A40, 0x10A43), (0x10E60, 0x10E68), (0x11052, 0x1105A), (0x1F100, 0x1F10A)]⟩

def letterRanges : Ranges := Ranges.ofNumbers [
  0x13C9123C3D5D443B7891D6126C16CA0939A13A914A1113116114221518A111756949429F17B17A51412912DA,
  0x11716A2220940A7929712A136E2F2D1A610B53971B7A13119146A5142191C0B1391B95B6B110A12329272791,
  0x26B135121716A222093917A27912A135121716A131190A33A1147B212121716A2246091292693125910A1343,
  0x121D131191A2792127B13512917A13109416B221232B130A17A131094E16A493332321112341336111A17931,
  0x134460A14A3D3E953B4C1097F10C45A115211921291110B1511122F749210E2F72111910B32A560B3093510A,
  0x639952B11A24D993626A90A0A5C3892411F1792411172411C2411D24111724159D13D215116C1A1495943723,
  0x96B6E091A7D5B912A95E197A6E2B44D39526B1E7B296895112C2571B93891413C4E793159692A693A592A709,
  0x4E971355946243713311715E27B1111111092626C2626AC08908B513216141D323D71924C2931D4C2B4D2925,
  0xA9717171717171717197A0A170F215116C4923465CB3F9D24E1455423914111111653112921415C9590A1591,
  0x92191E68927B0A7D4A2290A359C26D38959ABD08908FC908890A0E0C1A6B913D5412B91366A942552D25AF10,
  0x223112E3137A4A09137A1D152929150A14B7D75B1B7A294B39211366F2E694E5B7A141310A0B51112508927C,
  0xC4D91212111515912911554976C2D926DD48C8A1E47A494CEDA5B3E966913D17171962626493739230B11125,
  0xC60914A590C7D1E35B58E3F92C692791213A12B1493C326262631B9392B62B4C78A154E9490D6E20892A3DD1,
  0x213214D11265891912D160B09296A197EC3892171791391217179139494E090D44C44C2A6BA0E0944C26B296,
  0x3E593E7E1996D92A593A296A296E3B4B1093C5B35B2D5B1314791089260F6892B296A29213A1897B197A297A,
  0xA91B12A3C1115A4690E49133C091215B4C2B1B0C5D591221F5E497A3B5A6D2A2D6A091295B699262D4BD4C59,
  0x75C3B7891593D3F14A0E4C41D7D0FA1124A0E6B34A42A5E6BA54912A135121716A222096C7D7291791411174,
  0x2170E96B1E11A5C11978C1992A13A6D3915A170D2914B1110A7C2096B9111790B12109212097B0894E94D1FA,
  0x40A0E2A6B1A7991A7B71F891FE8A78991AFF7D8A791C9499D48B6CB2BE979915FA3A78D1690C12161B15A6C1,
  0x1935953D948CC49E0941A35D3CC1217147CB9A192D6ABA090FFB94B112089592891539908A0890EA93A55A7B,
  0x911B17B11B17B11B17B11B17B11B11B24AD1731151414B17109241189171114914222122178915A96CDB9297,
  0x2112131111114161111412911211213B144EAA174893F58B1791214174EBA4D2A6B18D10A7295D1CF7B4ECB0,
  0x39D992CFA6B897B8E1ECE96928AB926BB71F8890C0CBBA948D891A151351A129111414171421121111111111]

def numeralRanges : Ranges := Ranges.ofRuns [
  188, 3, 2357, 6, 376, 6, 120, 3, 133, 7, 217, 7, 17, 9, 433, 10, 1086, 11, 881, 3, 255, 10, 2390,
  51, 2, 5, 735, 11, 9, 11, 9, 11, 79, 10, 9, 1, 640, 1, 9, 1, 9, 1, 1385, 1, 777, 1, 25, 9, 14, 3,
  343, 4, 138, 10, 30, 8, 1, 15, 32, 10, 39, 15, 29734, 10, 320, 6, 22737, 45, 12, 57, 17, 2, 341,
  27, 36, 4, 29, 1, 8, 1, 134, 5, 1154, 8, 25, 7, 39, 9, 75, 5, 22, 6, 160, 2, 2, 16, 2, 46, 68, 5,
  52, 2, 30, 3, 75, 5, 104, 8, 24, 8, 41, 7, 330, 6, 361, 22, 158, 10, 42, 4, 112, 7, 143, 11, 379,
  20, 1349, 2, 430, 9, 871, 19, 851, 21, 1067, 111, 18156, 7, 798, 23, 25673, 20, 108, 25, 5454, 9,
  929, 59, 1, 3, 1, 4, 76, 45, 1, 15, 973, 2]

def formatRanges : Ranges := ⟨#[
  (0xAD, 0xAD), (0x600, 0x605), (0x61C, 0x61C), (0x6DD, 0x6DD), (0x70F, 0x70F), (0x890, 0x891),
  (0x8E2, 0x8E2), (0x180E, 0x180E), (0x200B, 0x200F), (0x202A, 0x202E), (0x2060, 0x2064),
  (0x2066, 0x206F), (0xFEFF, 0xFEFF), (0xFFF9, 0xFFFB), (0x110BD, 0x110BD), (0x110CD, 0x110CD),
  (0x13430, 0x13438), (0x1BCA0, 0x1BCA3), (0x1D173, 0x1D17A), (0xE0001, 0xE0001),
  (0xE0020, 0xE007F)]⟩

def hiddenRanges : Ranges := Ranges.ofLines [
  "+24XC1+BW2647111K1+6P1c2o231t8R46HM1+361m2x2+1dEx2n2F1S211B5V9+1C1+2b18222M1711342922248142152",
  "P2316422M17121212211542233174117HA319131M1712152A131321F42C771318222M1712152922237342152IA2163",
  "31432111232333C4533142161EL5D131N1G291314721321242A7M131N1A152913147262142A12DD131p13164G2Q131",
  "I3O191127314611186A23Cw4Tb211151O111N2511162A24W+1A1a4d1a1F1Db+3C11512+65142711142f142X1427111",
  "42F1v142+152W3Q6+1O262+AK1S3+1R7M9O9KCD1312C+1W2A6A6E1B6+1R7h5+18AV1C4C413g25Bi4Q6B3+102+131T2",
  "B6A6E2Vn+1F3l1+1s8y3F3y7h2B8h5+8c262c26281111111V2r1F1E261J2319HO8lH22R1D3XFXF+2G4+AhPBL+TE2W1",
  "+5d5j11512u72EO97171717171717171+22YQ1+1RC+3SQC5+111+1O2+1f5h1+1W1+1MCl1++7cT3t9+5cK+2y8+3H521",
  "115Ox3A6u8+188C6+1sBU3+1G1B4X1t9E2A2+1fOSA6262697171y4+222A6++2uCCN4n4+X2++1fE+5u2+1ic7C55Q151",
  "112121+21G+7B2s71Wg6p1J14451+2B4+34362626233717D22C1Q1J121F2EY+1z534j3+1Q1D31lk+26T3nFS4a9U5h5",
  "U1b4Eg+2Y2A6a4a4e8qBC1F17121B1F1712+15+519MA8O61g19+176211i12312N1+1A89mJ125X3R51+12u4K2o12581",
  "31T234A797+12Wd4C9s3T2R5Q74C7+1I+1BtpDp7k8A+4kV1g1322+1Ge8gMQcSKN9+1G4a9+1015DP7A6r1I8d9+1Y1KB",
  "I1i+13711141F1B6x5A6418222M1712151A22232161572735+2F+1U15U+1A8A+2gs2cY+17BA6DJw6AsR2F4N+2zy+1c",
  "+1LC82128121U122C9A+1882k2BR+1A8+1LD+1B+4F91j1EAT3W2M1E+1B7121i3112198A66121b12167A+50P+2x1FoD",
  "+Et+1e+1n15B+3A+gW+1bD+HH++13J+9P++2FF+9B7V1A4+1J1A6U26A+18AA171L5J+B6+1T+1d+1D4v7H+125B2E",
  "++1ay8+Jyg9++2K7417121+4hj3H48+6O+bE+1j5D397A24++1Dsk2N9+1sy+3yAd2+1C8+1oL+18+2UKC+1P9P+2B+1N1",
  "+19122122241C11171+131428171S141511371+5U2+4i2+BKF51F+HoV+3d71H271215+3Rj3E2A42+5AVHw51+K87141",
  "21F1+3B2Gf+1E4A42+Cf+16+1Ez+3841R1211211A141111614111111312112111111111121124171414111A1H53151",
  "Hq2+4Mi4+1cCF2F1F1bA+2ouTDi4972E6+2U+Fs5G3D3+1sC+1R7C41FC4u8A6e8U22+1G+5UCE2535379T3B56AA68879",
  "+2N1tbA+Gc++B72W++14z7+3a2++1UwE++1wX+o3+8k+OI++1Hf+++30Jp+3s++p16"]

def isDecimal (c : Char) : Bool :=
  if c.toNat < 128 then c.isDigit else decimalRanges.contains c.toNat

def decimalValue? (c : Char) : Option Nat :=
  if c.toNat < 128 then
    if c.isDigit then some (c.toNat - '0'.toNat) else none
  else
    (decimalRanges.find? c.toNat).map fun range => (c.toNat - range.1) % 10

def isDigit (c : Char) : Bool :=
  isDecimal c || otherDigitRanges.contains c.toNat

def isLetter (c : Char) : Bool :=
  if c.toNat < 128 then c.isAlpha else letterRanges.contains c.toNat

def isAlphanumeric (c : Char) : Bool :=
  isLetter c || isDigit c || numeralRanges.contains c.toNat

def isWord (c : Char) : Bool :=
  isAlphanumeric c || c == '_'

def isControl (c : Char) : Bool :=
  c.toNat < 32 || (127 ≤ c.toNat && c.toNat < 160)

def isFormat (c : Char) : Bool :=
  formatRanges.contains c.toNat

def isPrintable (c : Char) : Bool :=
  if c.toNat < 128 then 32 ≤ c.toNat && c.toNat < 127 else !hiddenRanges.contains c.toNat

end Folio.Text
