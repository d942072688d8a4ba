import Folio.Text.Ranges

/-!
# Names of characters

The names by which a pattern can ask for a character: those of the Latin, Greek and basic Cyrillic
letters, of punctuation, currency signs, arrows, operators, box parts and common symbols, and the
aliases of the control characters. Ideographs are named by their number.
-/

namespace Folio.Text

/-- Words that many names share, each after the letter or sign that stands for it. -/
def partLines : List String := [
  "a WITH |b LETTER |c ARROW|dRIGHTWARDS|eRIGHT|f AND |gCAPITAL|hDOUBLE|iHORIZONTAL|jVERTICAL|",
  "kHEAVY|lWHITE |m SIGN|nBLACK|oLEFT|p EQUAL TO|qLIGHT|rSMALL|sPOINTING |t SYMBOL|uED |",
  "vLEFTWARDS|wLATIN |xSTROKE|yTRIANGLE|z FACE|! ORNAMENT|#ING|$DOWN|%LOWER |'TWO|(SINGLE|)UP |",
  "*UPPER |+ONE|, OR|.SQUARE|/NOT|:LINE|<DOT|>OUT|? OF|@CIRCLE|[ MARK|]ALL|^STAR|_ACUTE|`EIGHT|",
  "~ BAR|àGREEK|áMULTIPLICATION|âINFORMATION|ã BUT NOT|äEQUAL|åELEMENT|æPRECEDE|çMINUS|èBREVE|",
  "é CIRCULAR ARC|êDIAERESIS|ëFOUR|ìHEAD|íREVERSED|îCOMMA|ïQUADRANT|ðSUCCEEDS|ñSUPERSET|òUPWARDS|",
  "óEQUIVALENT TO|ôOVER|õQUADRUPLE|öSMIL|øUKRAINIAN I|ùON PEDESTAL|úSHOGI PIECE|ûHEART|üEPSILON|",
  "ýINVERTED |þNORMAL SUBGROUP|ÿDIVISION|αSHADOWED |βTEARDROP-SPOKED |γ BRACKET|δ LUNATE SIGMA|",
  "ε BLOCK|ζEXCLAMATION|η SEPARATOR|θ OPERATOR|ι QUOTATION MARK|κGRAVE|λCROSS|μGREATER-THAN|",
  "νDOT ABOVE|ξCARON|οDIAGONAL |π TABULATION|ρLESS-THAN|ςTURNED |σ DASH|τASTERISK|υCONTAIN|",
  "φMACRON|χCHARACTER|ψDOES NOT |ωCIRCUMFLEX|аANGLE|бPOINT|вSANS-SERIF |гDEVICE CONTROL |дTHREE|",
  "еTONOS|ж SEMIDIRECT PRODUCT|з PARENTHESIS|иDOWNWARDS|йCEDILLA|кOPEN CENTRE |лQUESTION|мTILDE|",
  "н SPACE|оINTEGRAL|пBAT NEGATIVE CIRCL|рPUNCTUATION|сMEDIUM |тSCRIPT |уHALF |фAPPROXIMATELY|",
  "хDIALYTIKA|ц-STRUCK |ч HARPOON|ш PLASTICS|щQUARTER|ъHOOK|ыUPSILON|ьBULLET|эTRIPLE|юCLOCKWISE |",
  "яDIAMOND"]

def nameParts : List (Char × List Char) :=
  (splitAll '|' (partLines.flatMap String.toList)).filterMap fun
    | code :: part => some (code, part)
    | [] => none

/-- Names of characters, in entries that end with a semicolon. An entry has the common beginning of
some names and the ends of the names of successive characters. It starts with the number of the
first one, unless it goes on after the entry before it. A name with `&` is that of a capital letter
and of the small letter after it. -/
def nameLines : List String := [
  "20=|SPACE|ζ[|QUOTATION[|NUMBERm|DOLLARm|PERCENTm|AMPERSAND|APOSTROPHE|oз|eз|τ|PLUSm|î|HYPHEN-ç|",
  "FULL STOP|SOLIDUS;DIGIT |ZERO|+|'|д|ë|FIVE|SIX|SEVEN|`|NINE;|COLON|SEMICOLON|ρm|äSm|μm|л[|",
  "COMMERCIAL AT;wgb|A|B|C|D|E|F|G|H|I|J|K|L|M|N|O|P|Q|R|S|T|U|V|W|X|Y|Z;|o .γ|REVERSE SOLIDUS|",
  "e .γ|ω ACCENT|LOW :|κ ACCENT;wrb|A|B|C|D|E|F|G|H|I|J|K|L|M|N|O|P|Q|R|S|T|U|V|W|X|Y|Z;|o CURLYγ|",
  "j :|e CURLYγ|м;A0=|NO-BREAKн|ýζ[|CENTm|POUNDm|CURRENCYm|YENm|BROKEN~|SECTIONm|ê|COPYRIGHTm|",
  "FEMININE,DINAL INDICATOR|o-sh аι|/m|SOFT HYPHEN|REGISTEREDm|φ|DEGREEm|PLUS-çm;SUPERт|'|д;|",
  "_ ACCENT|MICROm|PILCROWm|MIDDLE <|й|SUPERт+|MASCU:,DINAL INDICATOR|e-sh аι;VULGAR FRACTION |",
  "+ щ|+ HALF|д щS;|ýл[;wgbAa|κ|_|ω|м|ê|R# ABOVE;wgb|AE|Caй|Eaκ|Ea_|Eaω|Eaê|Iaκ|Ia_|Iaω|Iaê|ETH|",
  "Naм;wgbOa|κ|_|ω|м|ê;|ám;wgb|Oax|Uaκ|Ua_|Uaω|Uaê|Ya_|THORN;|wrbSHARP S;wrbAa|κ|_|ω|м|ê|R# ABOVE;",
  "wrb|AE|Caй|Eaκ|Ea_|Eaω|Eaê|Iaκ|Ia_|Iaω|Iaê|ETH|Naм;wrbOa|κ|_|ω|м|ê;|ÿm;wrb|Oax|Uaκ|Ua_|Uaω|Uaê|",
  "Ya_|THORN|Yaê;w&bAa|φ|è|OG+K;w&bCa|_|ω|ν|ξ;w&bDa|ξ|x;w&bEa|φ|è|ν|OG+K|ξ;w&bGa|ω|è|ν|й;w&bHa|ω|",
  "x;w&bIa|м|φ|è|OG+K;w|gbIaν|rb<LESS I|& LIGATURE IJ|&bJaω|&bKaй|rbKRA;w&bLa|_|й|ξ|MIDDLE <|x;",
  "w&bNa|_|й|ξ;w|rbN PRECEDuBY APOSTROPHE|&bENG;w&bOa|φ|è|h _;|w& LIGATURE OE;w&bRa|_|й|ξ;w&bSa|_|",
  "ω|й|ξ;w&bTa|й|ξ|x;w&bUa|м|φ|è|R# ABOVE|h _|OG+K;w|&bWaω|&bYaω|gbYaê;w&bZa|_|ν|ξ;w|rbLONG S|",
  "rbBax|gbBaъ|&bBaTOPBAR|&bT+ SIX|gbOPEN O|&bCaъ|gbAFRICAN D|gbDaъ|&bDaTOPBAR|rbςDELTA|gbí E|",
  "gbSCHWA|gbOPEN E|&bFaъ|gbGaъ|gbGAMMA|rbHV|gbIOTA|gbIax|&bKaъ|rbLaBAR|rbLAMBDAax|gbςM|gbNao ъ|",
  "rbNaLONG e LEG|gbOaMIDDLE м;w&b|OaHORN|OI|Paъ;|LATINbYR|w&bT+ '|wgbESH|LATINbí ESH LOOP;w|",
  "rbTaPALATAL ъ|&bTaъ|gbTaRETROFLEX ъ|&bUaHORN|gbы|gbVaъ|&bYaъ|&bZax|gbEZH|&bEZH í|rbEZHaTAIL;|",
  "LATINb'ax|w&bT+ FIVE;LATINb|ýGLOTTAL STOPax|WYNN|DENTAL CLICK|LATERAL CLICK|ALVEOLAR CLICK|",
  "RETROFLEX CLICK;w|gbDZaξ|gbDarbZaξ|rbDZaξ|gbLJ|gbLarbJ|rbLJ|gbNJ|gbNarbJ|rbNJ;w&b|Aaξ|Iaξ|Oaξ|",
  "Uaξ;w&bUaêf|φ|_|ξ|κ;|wrbςE;w&b|Aaêfφ|Aaνfφ|AEaφ|Gax|Gaξ|Kaξ|OaOG+K|OaOG+Kfφ|EZHaξ;w|rbJaξ|gbDZ|",
  "gbDarbZ|rbDZ|&bGa_|gbHWAIR|gbWYNN;w&b|Naκ|AaR# ABOVEf_|AEa_|Oaxf_|Aah κ|Aaýè|Eah κ|Eaýè|Iah κ|",
  "Iaýè|Oah κ|Oaýè|Rah κ|Raýè|Uah κ|Uaýè|Saî BELOW|Taî BELOW|YOGH|Haξ;w|gbNaLONG e LEG|rbDaCURL;",
  "w&b|OU|Zaъ|Aaν|Eaй|Oaêfφ|Oaмfφ|Oaν|Oaνfφ|Yaφ;wrb|LaCURL|NaCURL|TaCURL|<LESS J|DB DIGRAPH|",
  "QP DIGRAPH;w|gbAax|&bCax|gbLaBAR|gbTaοx|rbSaSWASH TAIL|rbZaSWASH TAIL|&bGLOTTAL STOP|gbBax|",
  "gbU~|gbςV|&bEax|&bJax|gbr Qaъ TAIL|rbQaъ TAIL|&bRax|&bYax;370=à |&bHETA|&bARCHAIC SAMPI|",
  "NUMERALm|%NUMERALm|&bPAMPHYLIAN DIGAMMA;37A=à |YPOGEGRAMMENI|r íδt|r <TEDδt|r í <TEDδt|л[|",
  "gbYOT;384=à |е|х е|gbALPHAaе|ANO TELEIA;à gb|üaе|ETAaе|IOTAaе;38C=|à gbOMICRONaе;38E=à |gbыaе|",
  "gbOMEGAaе|rbIOTAaхfе;à gb|ALPHA|BETA|GAMMA|DELTA|ü|ZETA|ETA|THETA|IOTA|KAPPA|LAMDA|MU|NU|XI|",
  "OMICRON|PI|RHO;3A3=à gb|SIGMA|TAU|ы|PHI|CHI|PSI|OMEGA|IOTAaх|ыaх;à rb|ALPHAaе|üaе|ETAaе|IOTAaе|",
  "ыaхfе|ALPHA|BETA|GAMMA|DELTA|ü|ZETA|ETA|THETA|IOTA|KAPPA|LAMDA|MU|NU|XI|OMICRON|PI|RHO|",
  "FINAL SIGMA|SIGMA|TAU|ы|PHI|CHI|PSI|OMEGA|IOTAaх|ыaх|OMICRONaе|ыaе|OMEGAaе;à |g KAIt|BETAt|",
  "THETAt;à ыa|ъt|_fъt|êfъt;à| PHIt| PIt| KAIt|bARCHAIC KOPPA| rbARCHAIC KOPPA|bSTIGMA| rbSTIGMA|",
  "bDIGAMMA| rbDIGAMMA|bKOPPA| rbKOPPA|bSAMPI| rbSAMPI;COPTIC &b|SHEI|FEI|KHEI|HORI|GANGIA|SHIMA|",
  "DEI;à| KAPPAt| RHOt|δt|bYOT;à |g THETAt|LUNATE üt|í LUNATE üt|&bSHO|gδt|&bSAN|RHOaxt;à g |íδt|",
  "<TEDδt|í <TEDδt;CYRILLIC gb|IEaκ|IO|DJE|GJE|øE|DZE|BYELORUSSIAN-ø|YI|JE|LJE|NJE|TSHE|KJE|Iaκ|",
  "SHORT U|DZHE|A|BE|VE|GHE|DE|IE|ZHE|ZE|I|SHORT I|KA|EL|EM|EN|O|PE|ER|ES|TE|U|EF|HA|TSE|CHE|SHA|",
  "SHCHA|HARDm|YERU|SOFTm|E|YU|YA;CYRILLIC rb|A|BE|VE|GHE|DE|IE|ZHE|ZE|I|SHORT I|KA|EL|EM|EN|O|PE|",
  "ER|ES|TE|U|EF|HA|TSE|CHE|SHA|SHCHA|HARDm|YERU|SOFTm|E|YU|YA|IEaκ|IO|DJE|GJE|øE|DZE|",
  "BYELORUSSIAN-ø|YI|JE|LJE|NJE|TSHE|KJE|Iaκ|SHORT U|DZHE;2000=|EN QUAD|EM QUAD|ENн|EMн|д-PER-EMн|",
  "ë-PER-EMн|SIX-PER-EMн|FIGUREн|рн|THINн|HAIRн;ZERO WIDTH |SPACE|NON-JOINER|JOINER;|o-TO-e[|",
  "e-TO-o[|HYPHEN|NON-BREAK# HYPHEN|FIGUREσ|ENσ|EMσ|i~|h j :|h LOW :|o (ι|e (ι|( LOW-9ι|",
  "( HIGH-í-9ι|o hι|e hι|h LOW-9ι|h HIGH-í-9ι|DAGGER|h DAGGER|ь|TRIANGULAR ь|+ < LEADER|",
  "' < LEADER|i ELLIPSIS|HYPHENATION б|:η|PARAGRAPHη|o-TO-e EMBEDD#|e-TO-o EMBEDD#|",
  "POP DIRECTIONAL FORMATT#|o-TO-e ôRIDE|e-TO-o ôRIDE|NARROW NO-BREAKн;PER |MILLEm|TEN THOUSANDm;|",
  "PRIME|h PRIME|э PRIME;í |PRIME|h PRIME|э PRIME;|CARET|( o-sаι|( e-sаι|REFERENCE[|h ζ[|",
  "INTERROBANG|ô:|UNDERTIE|χ TIE|CARET INSERTION б|ASTERISM|HYPHEN ь|FRACTION SLASH|o .γaQUILL|",
  "e .γaQUILL|h л[|л ζ[|ζ л[|TIRONIANm ET|í PILCROWm|n v ь|n d ь|LOW τ|í SEMICOLON|CLOSE UP|",
  "' ASTERISKS ALIGNuVERTIC]Y|COMMERCIAL çm|SWUNGσ|ýUNDERTIE|FLOWER р[|д < р|õ PRIME|ë < р|",
  "FIVE < р|' < р|ë <[|<Tuλ|TRICOLON|j ë <S|сMATHEMATICALн|WORD JOINER|FUNCTION APPLICATION;",
  "INVISIBLE |TIMES|SEPARATOR|PLUS;2066=|o-TO-e ISOLATE|e-TO-o ISOLATE|FIRST STRONG ISOLATE|",
  "POP DIRECTIONAL ISOLATE|INHIBIT SYMMETRIC SWAPP#|ACTIVATE SYMMETRIC SWAPP#|",
  "INHIBIT ARABIC FORM SHAP#|ACTIVATE ARABIC FORM SHAP#|NATIONAL DIGIT SHAPES|",
  "NOMINAL DIGIT SHAPES;20A0=|EURO-CURRENCYm|COLONm|CRUZEIROm|FRENCH FRANCm|LIRAm|MILLm|NAIRAm|",
  "PESETAm|RUPEEm|WONm|NEW SHEQELm|DONGm|EUROm|KIPm|TUGRIKm|DRACHMAm|GERMAN PENNYm|PESOm|GUARANIm|",
  "AUSTRALm|HRYVNIAm|CEDIm|LIVRE TOURNOISm|SPEöOm|TENGEm|INDIAN RUPEEm|TURKISH LIRAm|NORDIC[m|",
  "MANATm|RUBLEm|LARIm|BITCOINm|SOMm;2100=|ACCOUNT?|ADDRESSuTO THE SUBJECT|hцg C|DEGREE CELSIUS|",
  "CENTRE :t|CARE?|CADA UNA|EULER CONSTANT|SCRUPLE|DEGREE FAHRENHEIT;т|r G|g H;|n-LETTER g H|",
  "hцg H;PLANCK |CONSTANT|CONSTANT ô ' PI;|тg I|n-LETTER g I|т& L|L B~t|hцg N|NUMEROm|",
  "SOUND RECORD# COPYRIGHT|тg P;hцg |P|Q;|тg R|n-LETTER g R|hцg R|PRESCRIPTION TAKE|RESPONSE|",
  "SERVICE[|TELEPH+m|TRADE[m|VERSICLE|hцg Z|OUNCEm|OHMm|ýOHMm|n-LETTER g Z|ςà rbIOTA|KELVINm|",
  "ANGSTROMm|тg B|n-LETTER g C|ESTIMATEDt;т|r E|g E|g F;|ςg F;т|g M|r O;|ALEFt|BETt|GIMELt|DALETt|",
  "â SOURCE|ROTATug Q|FACSIMILEm;hц|r PI|r GAMMA|g GAMMA|g PI|N-ARY SUMMATION;ςвg |G|L;|í вg L|",
  "ςвg Y;hцITALIC |& D|r E|r I|r J;|PROPERTY :|ςAMPERSAND|PERm|AKTIESELSKAB|ςr F|",
  "SYMBOL FOR SAMARITAN SOURCE;2190=|vc|òc|dc|иc|o ec|)$c;NORTH |WESTc|EASTc;S>H |EASTc|WESTc;|",
  "vcax|dcax|v WAVEc|d WAVEc|v ' ìEDc|ò ' ìEDc|d ' ìEDc|и ' ìEDc|vcaTAIL|dcaTAIL|vc FROM~|",
  "òc FROM~|dc FROM~|иc FROM~|)$caBASE|vcaъ|dcaъ|vcaLOOP|dcaLOOP;o e| WAVEc|cax;|и ZIGZAGc;",
  "òcaTIP |v|d;иcaTIP |v|d;|dcaCORNER и|иcaCORNER v|ANTIюTOP SEMICIRCLEc|юTOP SEMICIRCLEc|",
  "NORTH WESTc TO LONG~|vc TO~ ô dc TO~|ANTIюOPEN @c|юOPEN @c;vчaBARB |ò|и;òчaBARB |d|v;dчaBARB |",
  "ò|и;ичaBARB |d|v;|dc ô vc|òc v? иc|vc ô dc|v PAIRuARROWS|ò PAIRuARROWS|d PAIRuARROWS|",
  "и PAIRuARROWS|vч ô dч|dч ô vч|v hcax|o e hcax|d hcax|v hc|ò hc|d hc|и hc|o e hc|)$ hc;NORTH |",
  "WEST hc|EAST hc;S>H |EAST hc|WEST hc;|v эc|d эc|v SQUIGGLEc|d SQUIGGLEc|òcah x|иcah x|vσEDc|",
  "òσEDc|dσEDc|иσEDc|vc TO~|dc TO~|v WHITEc|ò WHITEc|d WHITEc|и WHITEc;ò WHITEc |FROM~|ù|ùai~|",
  "ùaj~;ò lhc|| ù;|d WHITEc FROM W]|NORTH WESTc TO CORNER|S>H EASTc TO CORNER|)$ WHITEc|ecar @|",
  "иc v? òc|д d ARROWS|vcaj x|dcaj x|o ecaj x|vcah j x|dcah j x|o ecah j x|v OPEN-ìEDc|",
  "d OPEN-ìEDc|o e OPEN-ìEDc|FOR ]|COMPLEMENT|PARTIAL DIFFERENTIAL;THERE |EXISTS|ψEXIST;|",
  "EMPTY SET|INCREMENT|NABLA|å?|/ AN å?|r å?|υS AS MEMBER|ψυ AS MEMBER|r υS AS MEMBER|END? PROOF;",
  "N-ARY |PRODUCT|COPRODUCT|SUMMATION;|çm|ç-OR-PLUSm|< PLUS|ÿ SLASH|SET ç|τθ|R#θ|ьθ|. ROOT|",
  "CUBE ROOT|ëTH ROOT|PROPORTIONAL TO|INFINITY|e а|а|MEASURuа|SPHERICAL а|DIVIDES|ψDIVIDE|",
  "PAR]EL TO|/ PAR]EL TO;LOGICAL |AND|OR;|INTERSECTION|UNION|о|h о|э о|CONTOUR о|SURFACE о|",
  "VOLUME о;ю|о|CONTOUR о;|ANTIюCONTOUR о|THEREFORE|BECAUSE|RATIO|PROPORTION|< ç|EXCESS|",
  "GEOMETRIC PROPORTION|HOMOTHETIC|мθ|í м|ýLAZY S|SINE WAVE|WREATH PRODUCT|/ м|ç м|ASYMPTOTIC]Yp|",
  "/ ASYMPTOTIC]Yp|фp|фã ACTU]Yp|NEITHER ф NOR ACTU]Yp|ALMOSTp|/ ALMOSTp|ALMOST ä,p|э м|]p|ó|",
  "GEOMETRIC]Y ó|DIFFERENCE BETWEEN|APPROACHES THE LIMIT|GEOMETRIC]Yp|фp, THE IMAGE?|IMAGE?, фp|",
  "COLON äS|äS COLON|R# INp|R#p|CORRESPONDS TO|ESTIMATES|EQUIANGULAR TO|^ äS|DELTAp|",
  "ä TO BY DEFINITION|MEASURuBY|лEDp|/p|IDENTICAL TO|/ IDENTICAL TO|STRICTLY ó|ρ,p|μ,p|ρ ôp|μ ôp|",
  "ρãp|μãp;MUCH |ρ|μ;|BETWEEN;/ |ó|ρ|μ;NEITHER |ρ NORp|μ NORp;|ρ, ó|μ, ó;NEITHER |ρ NOR ó|μ NOR ó;",
  "|ρ, μ|μ, ρ;NEITHER |ρ NOR μ|μ NOR ρ;|æS|ð|æS,p|ð,p|æS, ó|ð, ó;ψ|æ|SUCCEED;|SUBSET?|ñ?;/ A |",
  "SUBSET?|ñ?;|SUBSET?,p|ñ?,p;NEITHER A |SUBSET? NORp|ñ? NORp;|SUBSET?a/p|ñ?a/p|MULTISET;",
  "MULTISET |á|UNION;. |IMAGE?|ORIGINAL?|IMAGE?,p|ORIGINAL?,p|CAP|CUP;CIRCLu|PLUS|ç|TIMES|ÿ SLASH|",
  "<θ|R#θ|τθ|äS|DASH;SQUARu|PLUS|ç|TIMES|<θ;|e TACK|o TACK|$ TACK|)TACK|ASSERTION|MODELS|TRUE|",
  "FORCES|э j~ e TURNSTILE|h j~ h e TURNSTILE|ψPROVE|/ TRUE|ψFORCE|NEGATuh j~ h e TURNSTILE|",
  "æS UNDER RELATION|ð UNDER RELATION|þ?|υS AS þ|þ?,p|υS AS þ,p|ORIGINAL?|IMAGE?|MULTIMAP|",
  "HERMITIAN CONJUGATE MATRIX|INTERCALATE|XOR|NAND|NOR;e |аaARC|y;N-ARY LOGICAL |AND|OR;N-ARY |",
  "INTERSECTION|UNION;|яθ|<θ|^θ|ÿ TIMES|BOWTIE|o NORMAL FACTORж|e NORMAL FACTORж|oж|eж|í м äS;",
  "CURLY LOGICAL |OR|AND;h |SUBSET|ñ|INTERSECTION|UNION;|PITCHFORK|äfPAR]EL TO|ρa<|μa<;VERY MUCH |",
  "ρ|μ;|ρp, μ|μp, ρ;ä TO, |ρ|μ|æS|ð;ψ|æ, ä|SUCCEuOR ä;/ . |IMAGE?,p|ORIGINAL?,p;. |IMAGE?, /p|",
  "ORIGINAL?, /p;|ρã ó|μã ó|æSã ó|ðã ó|/ þ?|ψυ AS þ|/ þ?,p|ψυ AS þ, ä|j ELLIPSIS|MID: i ELLIPSIS|",
  ")e οELLIPSIS|$ e οELLIPSIS;å?a|LONG i x|j~ AT END? i x;|r å?aj~ AT END? i x;å?a|ν|ôBAR;|",
  "r å?aôBAR;å?a|UNDERBAR|' i STROKES;υSa|LONG i x|j~ AT END? i x;|r υSaj~ AT END? i x|υSaôBAR|",
  "r υSaôBAR|Z /ATION BAG MEMBERSHIP;2500=BOX DRAW#S |q i|k i|q j|k j|q эσ i|k эσ i|q эσ j|k эσ j|",
  "q õσ i|k õσ i|q õσ j|k õσ j|q $fe|$ qfe k|$ kfe q|k $fe|q $fo|$ qfo k|$ kfo q|k $fo|q UPfe|",
  ")qfe k|)kfe q|k UPfe|q UPfo|)qfo k|)kfo q|k UPfo|q jfe|j qfe k|)kfe $ q|$ kfe )q|j kfe q|",
  "$ qfe )k|)qfe $ k|k jfe|q jfo|j qfo k|)kfo $ q|$ kfo )q|j kfo q|$ qfo )k|)qfo $ k|k jfo|q $fi|",
  "o kfe $ q|e kfo $ q|$ qfi k;BOX DRAW#S |$ kfi q|e qfo $ k|o qfe $ k|k $fi|q UPfi|o kfe )q|",
  "e kfo )q|)qfi k|)kfi q|e qfo )k|o qfe )k|k UPfi|q jfi|o kfe j q|e kfo j q|j qfi k|)kf$ i q|",
  "$ kf)i q|j kfi q|o )kfe $ q|e )kfo $ q|o $ kfe )q|e $ kfo )q|$ qf)i k|)qf$ i k|e qfo j k|",
  "o qfe j k|k jfi|q hσ i|k hσ i|q hσ j|k hσ j|h i|h j|$ (fe h|$ hfe (|h $fe|$ (fo h|$ hfo (|",
  "h $fo|)(fe h|)hfe (|h UPfe|)(fo h|)hfo (|h UPfo|j (fe h|j hfe (|h jfe|j (fo h|j hfo (|h jfo|",
  "$ (fi h|$ hfi (|h $fi|)(fi h|)hfi (|h UPfi|j (fi h|j hfi (|h jfi|q ARC $fe|q ARC $fo|",
  "q ARC UPfo|q ARC UPfe|q ο*e TO %o|q ο*o TO %e|q ολ|q o|q UP|q e|q $|k o|k UP|k e|k $|q ofk e|",
  "q UPfk $|k ofq e|k UPfq $;|*HALFε;%+ |`Hε|щε;%|д `HSε|HALFε|FIVE `HSε|д щSε|SEVEN `HSε;|FULLε;",
  "o |SEVEN `HSε|д щSε|FIVE `HSε|HALFε|д `HSε;o + |щε|`Hε;|e HALFε|q SHADE|сSHADE|DARK SHADE|",
  "*+ `Hε|e + `Hε;ï %|o|e;ï *o||f%of%e|f%e|f*ef%o|f*ef%e;ï *e||f%o|f%of%e;|n .;l.||aROUNDuCORNERS|",
  " υ# n r .;.a|i FILL|j FILL|ORTHOGONAL λHATCH FILL|*o TO %e FILL|*e TO %o FILL|ολHATCH FILL;|",
  "n r .|lr .|n RECTа|lRECTа|n j RECTа|lj RECTа|n PAR]ELOGRAM|lPAR]ELOGRAM|n UP-sy|lUP-sy|",
  "n UP-sr y|lUP-sr y|n e-sy|le-sy|n e-sr y|le-sr y|n e-sбER|le-sбER|n $-sy|l$-sy|n $-sr y|",
  "l$-sr y|n o-sy|lo-sy|n o-sr y|lo-sr y|n o-sбER|lo-sбER|n я|lя|lя υ# n r я|FISHEYE|LOZENGE|l@|",
  "<Tu@|@aj FILL|BULLSEYE|n @;@a|o уn|e уn|%уn|*уn|*e ï n|] BUT *o ï n;|o уn @|e уn @;INVERSE |ь|",
  "l@;|*уINVERSE l@|%уINVERSE l@|*o ïé|*e ïé|%e ïé|%o ïé|*у@|%у@;n |%e y|%o y|*o y|*e y;|lь;.a|",
  "o уn|e уn|*o οуn|%e οуn;l|.aj BISECT# :|UP-sya<;UP-sya|o уn|e уn;|LARGE @;l.a|*o ï|%o ï|%e ï|",
  "*e ï;l@a|*o ï|%o ï|%e ï|*e ï;|*o y|*e y|%o y|lс.|n с.|lсr .|n сr .|%e y|n SUNaRAYS|CLOUD|",
  "UMBRELLA|SNOWMAN|COMET|n ^|l^|LIGHTN#|THUNDERSTORM|SUN|ASCEND# NODE|DESCEND# NODE|CONJUNCTION|",
  "OPPOSITION|n TELEPH+|lTELEPH+;B]OT |BOX|BOXaCHECK|BOXaX;|SALTIRE|UMBRELLAaRAIN DROPS|",
  "HOT BEVERAGE|lú|n ú|SHAMROCK|í ROTATuFLORAL û ь;n |o sINDEX|e sINDEX;l|o sINDEX|)sINDEX|",
  "e sINDEX|$ sINDEX;|SKULLfλB+S|CAUTIONm|RADIOACTIVEm|BIOHAZARDm|CADUCEUS|ANKH|ORTHODOX λ|",
  "CHI RHO;λ? |LORRAINE|JERUSALEM;|^fCRESCENT|FARSIt|ADI SHAKTI|HAMMERfSICKLE|PEACEt|YIN YANG;",
  "TRIGRAM FOR |HEAVEN|LAKE|FIRE|THUNDER|WIND|WATER|MOUNTAIN|EARTH;|WHEEL? DHARMA|lFROWN#z|lö#z|",
  "n ö#z|lSUNaRAYS|FIRST щ MOON|LAST щ MOON|MERCURY|FEMALEm|EARTH|MALEm|JUPITER|SATURN|URANUS|",
  "NEPTUNE|PLUTO|ARIES|TAURUS|GEMINI|CANCER|LEO|VIRGO|LIBRA|SCORPIUS|SAGITTARIUS|CAPRICORN|",
  "AQUARIUS|PISCES;lCHESS |K#|QUEEN|ROOK|BISHOP|KNIGHT|PAWN;n CHESS |K#|QUEEN|ROOK|BISHOP|KNIGHT|",
  "PAWN;|n SPADE SUIT|lû SUIT|lя SUIT|n CLUB SUIT|lSPADE SUIT|n û SUIT|n я SUIT|lCLUB SUIT|",
  "HOT SPR#S|щ /E|`H /E;BEAMu|`H /ES|SIXTEENTH /ES;MUSIC |FLATm|NATURALm|SHARPm;|WEST SYRIAC λ|",
  "EAST SYRIAC λ|UNIVERSAL RECYCL#t;RECYCL#t FOR TYPE-|1ш|2ш|3ш|4ш|5ш|6ш|7ш;|",
  "RECYCL#t FOR GENERIC MATERIALS|n UNIVERSAL RECYCL#t|RECYCLuPAPERt|PARTI]Y-RECYCLuPAPERt|",
  "PERMANENT PAPERm|WHEELCHAIRt;DIEz-|1|2|3|4|5|6;l@a|< e|' <S;n @a|l< e|' l<S;MONOGRAM FOR |YANG|",
  "YIN;DIGRAM FOR |GREATER YANG|LESSER YIN|LESSER YANG|GREATER YIN;|lFLAG|n FLAG|HAMMERfPICK|",
  "ANCHOR|λuSWORDS|STAFF? AESCULAPIUS|SCALES|ALEMBIC|FLOWER|GEAR|STAFF? HERMES|ATOMt|FLEUR-DE-LIS|",
  ">:D l^;д :S CONVERG# |e|o;|WARN#m|HIGH VOLTAGEm;DOUBLu|FEMALEm|MALEm;|INTERLOCKuFEMALEfMALEm|",
  "MALEfFEMALEm;MALEax|m|fMALEfFEMALEm;|j MALEaxm|i MALEaxm;с|l@|n @|r l@;|MARRIAGEt|DIVORCEt|",
  "UNMARRIuPARTNERSHIPt|COFFIN|FUNERAL URN|NEUTER|CERES|P]AS|JUNO|VESTA|CHIRON|n MOON LILITH|",
  "SEXTILE|SEMISEXTILE|QUINCUNX|SESQUIQUADRATE|SOCCER B]|BASEB]|SQUARuKEY;lDRAUGHTS |MAN|K#;",
  "n DRAUGHTS |MAN|K#;|SNOWMAN WITH> SNOW|SUN BEHIND CLOUD|RAIN|n SNOWMAN|THUNDER CLOUDfRAIN;ς|lú|",
  "n ú;|lя IN .|λ# LANES|DISABLuCAR|OPHIUCHUS|PICK|CAR SLID#|HELMETalλ|CIRCLuλ# LANES|CHAINS|",
  "NO ENTRY|ALTERNATE +-WAY o WAY TRAFFIC|n '-WAY o WAY TRAFFIC|l'-WAY o WAY TRAFFIC|",
  "n o LANE MERGE|lo LANE MERGE|DRIVE SLOWm|k l$-sy|o CLOSuENTRY|SQUARuSALTIRE|F]# οIN l@ IN n .|",
  "n TRUCK;RESTRICTuo ENTRY-|1|2;|ASTRONOMICALt FOR URANUS|k @axf' <S ABOVE|PENTAGRAM|",
  "e-HANDuINTERLACuPENTAGRAM|o-HANDuINTERLACuPENTAGRAM|ýPENTAGRAM|n λ ON SHIELD|SHINTO SHRINE|",
  "CHURCH|CASTLE|HISTORIC SITE|GEAR WITH> HUB|GEARaHANDLES|MAPt FOR LIGHTHOUSE|MOUNTAIN|",
  "UMBRELLA ON GROUND|FOUNTAIN|FLAG IN HOLE|FERRY|SAILBOAT|. ë CORNERS|SKIER|ICE SKATE|PERSONaB]|",
  "TENT|JAPANESE BANKt|ìST+ κYARDt|FUEL PUMP|C)ON n .|lFLAGai MIDDLE n STRIPE|n SAFETY SCISSORS|",
  "*BLADE SCISSORS|n SCISSORS|%BLADE SCISSORS|lSCISSORS|lk CHECK[|TELEPH+ LOCATIONm|TAPE DRIVE|",
  "AIRPLANE|ENVELOPE;RAISu|FIST|HAND;|VICTORY HAND|WRIT# HAND|%e PENCIL|PENCIL|*e PENCIL|lNIB|",
  "n NIB|CHECK[|k CHECK[|á X|k á X|B]OT X|k B]OT X|>:D à λ|k à λ|кλ|k кλ|wλ|αlwλ|>:D wλ|MALTESE λ|",
  "^? DAVID;ë |βτ|B]OON-SPOKuτ;|k ë B]OON-SPOKuτ|ë CLUB-SPOKuτ|n ë бu^|lë бu^|SPARKLES|",
  "STRESS >:D l^|CIRCLul^|кn ^|n CENTRE l^|>:D n ^|k >:D n ^|PINWHEEL ^|αl^|k τ|кτ|` SPOKuτ;` бu|",
  "n ^|PINWHEEL ^;|SIX бun ^|` бuRECTI:AR n ^|k ` бuRECTI:AR n ^|TWELVE бun ^|SIXTEEN бuτ|βτ|кβτ|",
  "k βτ|SIX PET]unflFLORETTE|n FLORETTE|lFLORETTE|` PET]u>:D n FLORETTE|CIRCLuк` бu^|",
  "k βPINWHEEL τ|SNOWFLAKE|TIGHT TRIFOLIATE SNOWFLAKE|k CHEVRON SNOWFLAKE|SPARKLE|k SPARKLE|",
  "B]OON-SPOKuτ|` βPROPELLER τ|k ` βPROPELLER τ|λ[|αl@|NEGATIVE SQUARuλ[|%e DROP-αl.|*e DROP-αl.|",
  "%e αl.|*e αl.|n л[!|lл[!|lζ[!|n я ç lX|k ζ[t|q j~|сj~;k |j~|( ςîι!|( îι!|h ςîι!|h îι!;k LOW |",
  "( îι!|h îι!;|CURVuSTEM PARAGRAPHm!;k |ζ[!|û ζ[!|n û;|ROTATuk n û ь|FLORAL û|ROTATuFLORAL û ь;с|",
  "oз!|eз!|FLATTENuoз!|FLATTENueз!|o-sаγ!|e-sаγ!;k |o-sаι!|e-sаι!|o-sаγ!|e-sаγ!;q |",
  "o TORTOISE SHELLγ!|e TORTOISE SHELLγ!;с|o CURLYγ!|e CURLYγ!;D#пuDIGIT |+|'|д|ë|FIVE|SIX|SEVEN|",
  "`|NINE;|D#пuNUMBER TEN;D#BAT CIRCLuвDIGIT |+|'|д|ë|FIVE|SIX|SEVEN|`|NINE;|",
  "D#BAT CIRCLuвNUMBER TEN;D#пuвDIGIT |+|'|д|ë|FIVE|SIX|SEVEN|`|NINE;|D#пuвNUMBER TEN;k |",
  "WIDE-ìudc|PLUSm|çm|ÿm|S>H EASTc|dc|NORTH EASTc;|DRAFT# б dc|k ROUND-TIPPudc|y-ìudc|k y-ìudc|",
  "DASHuy-ìudc|kσuy-ìudc|n dc;д-D |TOP-LIGHTud ARROWì|BOTTOM-LIGHTud ARROWì;|n d ARROWì;k n CURVu|",
  "иfdc|òfdc;|SQUAT n dc|k CONCAVE-бun dc|e-SHADuldc|o-SHADuldc|BACK-TILTuαldc|FRONT-TILTuαldc|",
  "k %e-αldc|k *e-αldc|/CHu%e-αldc|CURLY LOOP|/CHu*e-αldc|CIRCLuk ldc|WHITE-FEATHERudc;n-FEATHERu|",
  "S>H EASTc|dc|NORTH EASTc;k n-FEATHERu|S>H EASTc|dc|NORTH EASTc;|TEARDROP-BARBudc|",
  "k TEARDROP-SHANKudc|WEDGE-TAILudc|k WEDGE-TAILudc|OPEN->:D dc|h CURLY LOOP;FB00=wr LIGATURE |",
  "FF|FI|FL|FFI|FFL|LONG S T|ST;FEFF=|ZERO WIDTH NO-BREAKн;FFFD=|REPLACEMENT χ;1F600=GRINN#z||",
  "aö# EYES;|FACEaTEARS? JOY;ö#zaOPEN |M>H|M>Hfö# EYES|M>HfCOLD SWEAT|M>HfTIGHTLY-CLOSuEYES;ö#za|",
  "HALO|HORNS;|WINK#z|ö#zaö# EYES|FACE SAVOUR# DELICIOUS FOOD|RELIEVEDz;ö#za|û-SHAPuEYES|",
  "SUNGLASSES;|SMIRK#z|NEUTRALz|EXPRESSIONLESSz|UNAMUSEDz|FACEaCOLD SWEAT|PENSIVEz|CONFUSEDz|",
  "CONFOUNDEDz|KISS#z|FACE THROW# A KISS;KISS#za|ö# EYES|CLOSuEYES;FACEaSTUCK-> |TONGUE|",
  "TONGUEfWINK# EYE|TONGUEfTIGHTLY-CLOSuEYES;|DISAPбEDz|WORRIEDz|ANGRYz|P>#z|CRY#z|PERSEVER#z|",
  "FACEaLOOK? TRIUMPH|DISAPбuBUT RELIEVEDz|FROWN#zaOPEN M>H|ANGUISHEDz|FEARFULz|WEARYz|SLEEPYz|",
  "TIREDz|GRIMAC#z|LOUDLY CRY#z|FACEaOPEN M>H|HUSHEDz|FACEaOPEN M>HfCOLD SWEAT|",
  "FACE SCREAM# IN FEAR|ASTONISHEDz|FLUSHEDz|SLEEP#z|DIZZYz|FACE WITH> M>H|FACEaMEDICAL MASK|",
  "GRINN# CATzaö# EYES|CATzaTEARS? JOY;ö# CATza|OPEN M>H|û-SHAPuEYES;|CATzaWRY öE|",
  "KISS# CATzaCLOSuEYES|P># CATz|CRY# CATz|WEARY CATz;SLIGHTLY |FROWN#z|ö#z;|UPSIDE-$z;FACEa|",
  "ROLL# EYES|NO GOOD GESTURE|OK GESTURE;|PERSON BOW# DEEPLY|SEE-NO-EVIL MONKEY|",
  "HEAR-NO-EVIL MONKEY|SPEAK-NO-EVIL MONKEY|HAPPY PERSON RAIS# + HAND;PERSON |",
  "RAIS# BOTH HANDS IN CELEBRATION|FROWN#;PERSONa|P>#z|FOLDuHANDS;0=|NULL;0=|NUL|^T? ì#;1=|SOH|",
  "^T? TEXT;2=|STX|END? TEXT;3=|ETX|END? TRANSMISSION;4=|EOT|ENQUIRY;5=|ENQ|ACKNOWLEDGE;6=|ACK|",
  "ALERT;7=|BEL|BACKSPACE;8=|BS|χπ;9=|iπ;9=|HT;9=|TAB|: FEED;A=|NEW :;A=|END? :;A=|LF;A=|NL;A=|",
  "EOL|:π;B=|jπ;B=|VT|FORM FEED;C=|FF|CARRIAGE RETURN;D=|CR|SHIFT >;E=|LOCK#-SHIFT +;E=|SO|",
  "SHIFT IN;F=|LOCK#-SHIFT ZERO;F=|SI|DATA LINK ESCAPE;10=|DLE|г+;11=|DC1|г';12=|DC2|гд;13=|DC3|",
  "гë;14=|DC4|NEGATIVE ACKNOWLEDGE;15=|NAK|SYNCHRONOUS IDLE;16=|SYN|END? TRANSMISSIONε;17=|ETB|",
  "CANCEL;18=|CAN|END? MEDIUM;19=|EOM|SUBSTITUTE;1A=|SUB|ESCAPE;1B=|ESC|âη ë;1C=|FILEη;1C=|FS|",
  "âη д;1D=|GROUPη;1D=|GS|âη ';1E=|RECORDη;1E=|RS|âη +;1F=|UNITη;1F=|US|SP;7F=|DELETE;7F=|DEL|",
  "PADD# χ;80=|PAD|HIGH OCTET PRESET;81=|HOP|BREAK PERMITTuHERE;82=|BPH|NO BREAK HERE;83=|NBH|",
  "INDEX;84=|IND|NEXT :;85=|NEL|^T? SELECTuAREA;86=|SSA|END? SELECTuAREA;87=|ESA|χπ SET;88=|",
  "iπ SET;88=|HTS|χπaJUSTIFICATION;89=|HTJ|:π SET;8A=|VTS|PARTIAL : FORWARD;8B=|PLD|",
  "PARTIAL : BACKWARD;8C=|PLU|REVERSE : FEED;8D=|REVERSE INDEX;8D=|RI|( SHIFT ';8E=|(-SHIFT-2;8E=|",
  "SS2|( SHIFT д;8F=|(-SHIFT-3;8F=|SS3|гSTR#;90=|DCS|PRIVATE USE +;91=|PU1|PRIVATE USE ';92=|PU2|",
  "SET TRANSMIT STATE;93=|STS|CANCEL χ;94=|CCH|MESSAGE WAIT#;95=|MW|^T? GUARDuAREA;96=|SPA|",
  "END? GUARDuAREA;97=|EPA|^T? STR#;98=|SOS|( GRAPHIC χ INTRODUCER;99=|SGC|( χ INTRODUCER;9A=|SCI|",
  "CONTROL SEQUENCE INTRODUCER;9B=|CSI|STR# TERMINATOR;9C=|ST|OPERAT# SYSTEM îND;9D=|OSC|",
  "PRIVACY MESSAGE;9E=|PM|APPLICATION PROGRAM îND;9F=|APC|NBSP;AD=|SHY;34F=|CGJ;200B=|ZWSP|ZWNJ|",
  "ZWJ|LRM|RLM;202A=|LRE|RLE|PDF|LRO|RLO|NNBSP;205F=|MMSP|WJ;2066=|LRI|RLI|FSI|PDI;FEFF=|ZWNBSP;",
  "FEFF=|BYTE,DER[;FEFF=|BOM"]

def namesOf (written : List Char) : List (List Char) :=
  match written.span (· != '&') with
  | (_, []) => [written]
  | (before, _ :: after) =>
    [before ++ "CAPITAL".toList ++ after, before ++ "SMALL".toList ++ after]

def readEntry (entry : List Char) : Option Nat × List (List Char) :=
  let (number?, written) := match entry.span (· != '=') with
    | (_, []) => (none, entry)
    | (number, _ :: written) => (some (hexValue number), written)
  let full := written.flatMap fun c => (nameParts.lookup c).getD [c]
  match splitAll '|' full with
  | start :: ends => (number?, ends.flatMap fun rest => namesOf (start ++ rest))
  | [] => (number?, [])

def nameEntries : List (Option Nat × List (List Char)) :=
  (splitAll ';' (nameLines.flatMap String.toList)).map readEntry

def findName? (name : List Char) (next : Nat) : List (Option Nat × List (List Char)) → Option Nat
  | [] => none
  | (number?, names) :: entries =>
    let first := number?.getD next
    match names.findIdx? (· == name) with
    | some i => some (first + i)
    | none => findName? name (first + names.length) entries

def listedName? (name : List Char) : Option Nat :=
  findName? name 0 nameEntries

def ideographRanges : Ranges := ⟨#[
  (0x3400, 0x4DBF), (0x4E00, 0x9FFF), (0x20000, 0x2A6DF), (0x2A700, 0x2B738), (0x2B740, 0x2B81D),
  (0x2B820, 0x2CEA1), (0x2CEB0, 0x2EBE0), (0x30000, 0x3134A)]⟩

def ideographStart : List Char := "CJK UNIFIED IDEOGRAPH-".toList

def ideograph? (name : List Char) : Option Nat :=
  if ideographStart.isPrefixOf name then
    let digits := name.drop ideographStart.length
    if (digits.length == 4 || digits.length == 5)
        && digits.all (fun c => c.isDigit || ('A' ≤ c ∧ c ≤ 'F'))
        && ideographRanges.contains (hexValue digits) then
      some (hexValue digits)
    else none
  else none

/-- The number of the character with a name; small letters count as capitals, except in the names
of ideographs. -/
def charNamed? (name : List Char) : Option Nat :=
  match ideograph? name with
  | some n => some n
  | none => listedName? (name.map Char.toUpper)

end Folio.Text
