import Folio.Text.Ranges

/-!
# Compatibility normal form

Every character is replaced by its full compatibility decomposition, the marks after a character are
put in the order of their combining classes, and marks are composed with the character before them
where nothing between blocks them. Hangul syllables are taken apart and put together by arithmetic.
-/

namespace Folio.Text

def lookupSorted (table : Array (Nat × α)) (key : Nat) : Option α :=
  match table[lastIndex (fun entry => entry.1 ≤ key) table]? with
  | some (found, value) => if found == key then some value else none
  | none => none

structure Composite where
  first : Char
  second : Char
  result : Char

/-- The composites: for each second character, pairs of a first character and the result. -/
def compositePairs : List (Nat × String) := [

  (0x300, "AÀEÈIÌNǸOÒUÙWẀYỲaàeèiìnǹoòuùwẁyỳ¨῭ÂẦÊỀÔỒÜǛâầêềôồüǜĂẰăằĒḔēḕŌṐōṑƠỜơờƯỪưừΑᾺΕῈΗῊΙῚΟῸΥῪΩῺαὰ"),
  (0x300, "εὲηὴιὶοὸυὺωὼϊῒϋῢЕЀИЍеѐиѝἀἂἁἃἈἊἉἋἐἒἑἓἘἚἙἛἠἢἡἣἨἪἩἫἰἲἱἳἸἺἹἻὀὂὁὃὈὊὉὋὐὒὑὓὙὛὠὢὡὣὨὪὩὫ᾿῍῾῝"),
  (0x301, "AÁCĆEÉGǴIÍKḰLĹMḾNŃOÓPṔRŔSŚUÚWẂYÝZŹaácćeégǵiíkḱlĺmḿnńoópṕrŕsśuúwẃyýzź¨΅ÂẤÅǺÆǼÇḈÊẾÏḮÔỐÕṌ"),
  (0x301, "ØǾÜǗâấåǻæǽçḉêếïḯôốõṍøǿüǘĂẮăắĒḖēḗŌṒōṓŨṸũṹƠỚơớƯỨưứΑΆΕΈΗΉΙΊΟΌΥΎΩΏαάεέηήιίοόυύωώϊΐϋΰϒϓГЃКЌ"),
  (0x301, "гѓкќἀἄἁἅἈἌἉἍἐἔἑἕἘἜἙἝἠἤἡἥἨἬἩἭἰἴἱἵἸἼἹἽὀὄὁὅὈὌὉὍὐὔὑὕὙὝὠὤὡὥὨὬὩὭ᾿῎῾῞"),
  (0x302, "AÂCĈEÊGĜHĤIÎJĴOÔSŜUÛWŴYŶZẐaâcĉeêgĝhĥiîjĵoôsŝuûwŵyŷzẑẠẬạậẸỆẹệỌỘọộ"),
  (0x303, "AÃEẼIĨNÑOÕUŨVṼYỸaãeẽiĩnñoõuũvṽyỹÂẪÊỄÔỖâẫêễôỗĂẴăẵƠỠơỡƯỮưữ"),
  (0x304, "AĀEĒGḠIĪOŌUŪYȲaāeēgḡiīoōuūyȳÄǞÆǢÕȬÖȪÜǕäǟæǣõȭöȫüǖǪǬǫǭȦǠȧǡȮȰȯȱΑᾹΙῙΥῩαᾱιῑυῡИӢУӮиӣуӯḶḸḷḹṚṜ"),
  (0x304, "ṛṝ"), (0x306, "AĂEĔGĞIĬOŎUŬaăeĕgğiĭoŏuŭȨḜȩḝΑᾸΙῘΥῨαᾰιῐυῠАӐЕӖЖӁИЙУЎаӑеӗжӂийуўẠẶạặ"),
  (0x307, "AȦBḂCĊDḊEĖFḞGĠHḢIİMṀNṄOȮPṖRṘSṠTṪWẆXẊYẎZŻaȧbḃcċdḋeėfḟgġhḣmṁnṅoȯpṗrṙsṡtṫwẇxẋyẏzżŚṤśṥŠṦšṧ"),
  (0x307, "ſẛṢṨṣṩ"),
  (0x308, "AÄEËHḦIÏOÖUÜWẄXẌYŸaäeëhḧiïoötẗuüwẅxẍyÿÕṎõṏŪṺūṻΙΪΥΫιϊυϋϒϔІЇАӒЕЁЖӜЗӞИӤОӦУӰЧӴЫӸЭӬаӓеёжӝзӟ"),
  (0x308, "иӥоӧуӱчӵыӹэӭіїӘӚәӛӨӪөӫ"), (0x309, "AẢEẺIỈOỎUỦYỶaảeẻiỉoỏuủyỷÂẨÊỂÔỔâẩêểôổĂẲăẳƠỞơởƯỬưử"),
  (0x30A, "AÅUŮaåuůwẘyẙ"), (0x30B, "OŐUŰoőuűУӲуӳ"),
  (0x30C, "AǍCČDĎEĚGǦHȞIǏKǨLĽNŇOǑRŘSŠTŤUǓZŽaǎcčdďeěgǧhȟiǐjǰkǩlľnňoǒrřsštťuǔzžÜǙüǚƷǮʒǯ"),
  (0x30F, "AȀEȄIȈOȌRȐUȔaȁeȅiȉoȍrȑuȕѴѶѵѷ"), (0x311, "AȂEȆIȊOȎRȒUȖaȃeȇiȋoȏrȓuȗ"),
  (0x313, "ΑἈΕἘΗἨΙἸΟὈΩὨαἀεἐηἠιἰοὀρῤυὐωὠ"), (0x314, "ΑἉΕἙΗἩΙἹΟὉΡῬΥὙΩὩαἁεἑηἡιἱοὁρῥυὑωὡ"),
  (0x31B, "OƠUƯoơuư"),
  (0x323, "AẠBḄDḌEẸHḤIỊKḲLḶMṂNṆOỌRṚSṢTṬUỤVṾWẈYỴZẒaạbḅdḍeẹhḥiịkḳlḷmṃnṇoọrṛsṣtṭuụvṿwẉyỵzẓƠỢơợƯỰưự"),
  (0x324, "UṲuṳ"), (0x325, "AḀaḁ"), (0x326, "SȘTȚsștț"),
  (0x327, "CÇDḐEȨGĢHḨKĶLĻNŅRŖSŞTŢcçdḑeȩgģhḩkķlļnņrŗsştţ"), (0x328, "AĄEĘIĮOǪUŲaąeęiįoǫuų"),
  (0x32D, "DḒEḘLḼNṊTṰUṶdḓeḙlḽnṋtṱuṷ"), (0x32E, "HḪhḫ"), (0x330, "EḚIḬUṴeḛiḭuṵ"),
  (0x331, "BḆDḎKḴLḺNṈRṞTṮZẔbḇdḏhẖkḵlḻnṉrṟtṯzẕ"),
  (0x338, "<≮=≠>≯←↚→↛↔↮⇐⇍⇒⇏⇔⇎∃∄∈∉∋∌∣∤∥∦∼≁≃≄≅≇≈≉≍≭≡≢≤≰≥≱≲≴≳≵≶≸≷≹≺⊀≻⊁≼⋠≽⋡⊂⊄⊃⊅⊆⊈⊇⊉⊑⋢⊒⋣⊢⊬⊨⊭⊩⊮⊫⊯⊲⋪⊳⋫⊴⋬"),
  (0x338, "⊵⋭"), (0x342, "¨῁αᾶηῆιῖυῦωῶϊῗϋῧἀἆἁἇἈἎἉἏἠἦἡἧἨἮἩἯἰἶἱἷἸἾἹἿὐὖὑὗὙὟὠὦὡὧὨὮὩὯ᾿῏῾῟"),
  (0x345, "ΑᾼΗῌΩῼάᾴήῄαᾳηῃωῳώῴἀᾀἁᾁἂᾂἃᾃἄᾄἅᾅἆᾆἇᾇἈᾈἉᾉἊᾊἋᾋἌᾌἍᾍἎᾎἏᾏἠᾐἡᾑἢᾒἣᾓἤᾔἥᾕἦᾖἧᾗἨᾘἩᾙἪᾚἫᾛἬᾜἭᾝἮᾞἯᾟὠᾠὡᾡ"),
  (0x345, "ὢᾢὣᾣὤᾤὥᾥὦᾦὧᾧὨᾨὩᾩὪᾪὫᾫὬᾬὭᾭὮᾮὯᾯὰᾲὴῂὼῲᾶᾷῆῇῶῷ"), (0x653, "اآ"), (0x654, "اأوؤيئہۂےۓەۀ"),
  (0x655, "اإ"), (0x93C, "नऩरऱळऴ"), (0x9BE, "েো"), (0x9D7, "েৌ"), (0xB3E, "େୋ"), (0xB56, "େୈ"),
  (0xB57, "େୌ"), (0xBBE, "ெொேோ"), (0xBD7, "ஒஔெௌ"), (0xC56, "ెై"), (0xCC2, "ೆೊ"), (0xCD5, "ಿೀೆೇೊೋ"),
  (0xCD6, "ೆೈ"), (0xD3E, "െൊേോ"), (0xD57, "െൌ"), (0xDCA, "ෙේොෝ"), (0xDCF, "ෙො"), (0xDDF, "ෙෞ"),
  (0x102E, "ဥဦ"), (0x1B35, "ᬅᬆᬇᬈᬉᬊᬋᬌᬍᬎᬑᬒᬺᬻᬼᬽᬾᭀᬿᭁᭂᭃ"),
  (0x3099, "うゔかがきぎくぐけげこごさざしじすずせぜそぞただちぢつづてでとどはばひびふぶへべほぼゝゞウヴカガキギクグケゲコゴサザシジスズセゼソゾタダチヂツヅテデトドハバヒビフブヘベホボ"),
  (0x3099, "ワヷヰヸヱヹヲヺヽヾ"), (0x309A, "はぱひぴふぷへぺほぽハパヒピフプヘペホポ"), (0x110BA, "𑂙𑂚𑂛𑂜𑂥𑂫"), (0x11127, "𑄱𑄮𑄲𑄯"),
  (0x1133E, "𑍇𑍋"), (0x11357, "𑍇𑍌"), (0x114B0, "𑒹𑒼"), (0x114BA, "𑒹𑒻"), (0x114BD, "𑒹𑒾"),
  (0x115AF, "𑖸𑖺𑖹𑖻"), (0x11930, "𑤵𑤸")]

def Composite.ofPairs (second : Char) : List Char → List Composite
  | first :: result :: pairs => ⟨first, second, result⟩ :: Composite.ofPairs second pairs
  | _ => []

def composites : List Composite :=
  compositePairs.flatMap fun (second, pairs) => Composite.ofPairs (Char.ofNat second) pairs.toList

def pairKey (first second : Char) : Nat :=
  second.toNat * 0x110000 + first.toNat

def compositesByParts : Array (Nat × Char) :=
  ((composites.map fun c => (pairKey c.first c.second, c.result)).mergeSort
    fun a b => a.1 ≤ b.1).toArray

def compositesByResult : Array (Nat × Char × Char) :=
  ((composites.map fun c => (c.result.toNat, c.first, c.second)).mergeSort
    fun a b => a.1 ≤ b.1).toArray

def composite? (first second : Char) : Option Char :=
  if second.toNat < 0x300 then none else lookupSorted compositesByParts (pairKey first second)

/-- Consecutive characters with their decompositions: the first one has `target`, and if there are
several each of them moves to a single character by the same distance. -/
structure Decomposition where
  first : Nat
  last : Nat
  target : List Char

/-- Reads a word about characters from `next` on or from a number on: `FB00=ff` or `ff` about one
character, `1D7CE-1D7D7=0` about characters that move together and `2F00:一丨丶` about characters
with a decomposition of one character each. -/
def Decomposition.ofWord (next : Nat) (word : List Char) : List Decomposition :=
  match word.span fun c => c != '=' && c != ':' with
  | (_, []) => [⟨next, next, word⟩]
  | (number, sign :: targets) =>
    let (start, rest) := number.span (· != '-')
    let first := if start.isEmpty then next else hexValue start
    if sign == ':' then targets.mapIdx fun i target => ⟨first + i, first + i, [target]⟩
    else [⟨first, if rest.isEmpty then first else hexValue (rest.drop 1), targets⟩]

def Decomposition.ofWords (next : Nat) : List (List Char) → List Decomposition
  | [] => []
  | word :: words =>
    let entries := Decomposition.ofWord next word
    let last := (entries.getLast?.map Decomposition.last).getD next
    entries ++ Decomposition.ofWords (last + 1) words

/-- The full compatibility decompositions of the characters that are no composites, in increasing
order. An open box stands for a space. -/
def decompositionWords : List String := [
  "A0:␣ A8=␣̈ AA:a AF=␣̄ B2:23 ␣́ :μ B8=␣̧ :1o BC=1⁄4 1⁄2 3⁄4 132=IJ ij 13F=L· l· 149=ʼn 17F:s",
  "1C4=DŽ Dž dž LJ Lj lj NJ Nj nj 1F1=DZ Dz dz 2B0:hɦjrɹɻʁwy 2D8=␣̆ ␣̇ ␣̊ ␣̨ ␣̃ ␣̋ 2E0:ɣlsxʕ",
  "340:̀́ 343:̓ ̈́ 374:ʹ 37A=␣ͅ 37E:; 384=␣́ 387:· 3D0:βθΥ 3D5:φπ 3F0:κρς 3F4:Θε 3F9:Σ 587=եւ",
  "675=اٴ وٴ ۇٴ يٴ 958=क़ ख़ ग़ ज़ ड़ ढ़ फ़ य़ 9DC=ড় ঢ় 9DF=য় A33=ਲ਼ A36=ਸ਼ A59=ਖ਼ ਗ਼ ਜ਼ A5E=ਫ਼",
  "B5C=ଡ଼ ଢ଼ E33=ํา EB3=ໍາ EDC=ຫນ ຫມ F0C:་ F43=གྷ F4D=ཌྷ F52=དྷ F57=བྷ F5C=ཛྷ F69=ཀྵ F73=ཱི F75=ཱུ",
  "ྲྀ ྲཱྀ ླྀ ླཱྀ F81=ཱྀ F93=ྒྷ F9D=ྜྷ FA2=ྡྷ FA7=ྦྷ FAC=ྫྷ FB9=ྐྵ 10FC:ნ 1D2C:AÆB 1D30:DEƎ",
  "1D33-1D3A=G 1D3C:OȢPRTUWaɐɑᴂbdeəɛɜg 1D4F:kmŋoɔᴖᴗptuᴝɯvᴥβγδφχiruvβγρφχ 1D78:н 1D9B:ɒcɕðɜfɟɡɥɨɩɪᵻ",
  ":ʝɭᶅʟɱɰɲɳɴɵɸʂʃƫʉʊᴜʋʌzʐʑʒθ 1E9A=aʾ 1F71=ά 1F73=έ 1F75=ή 1F77=ί 1F79=ό 1F7B=ύ 1F7D=ώ",
  "1FBB=Ά 1FBD=␣̓ :ι ␣̓ ␣͂ 1FC9=Έ 1FCB=Ή 1FD3=ΐ 1FDB=Ί 1FE3=ΰ 1FEB=Ύ 1FEE=␣̈́ :` 1FF9=Ό",
  "1FFB=Ώ 1FFD=␣́ ␣̔ 2000:␣␣␣␣␣␣␣␣␣␣␣ 2011:‐ 2017=␣̳ 2024:. .. ... 202F:␣ 2033=′′ ′′′ 2036=‵‵ ‵‵‵",
  "203C=!! 203E=␣̅ 2047=?? ?! !? 2057=′′′′ 205F:␣ 2070:0i 2074-2079=4 :+−=()n 2080-2089=0 :+−=()",
  "2090:aeoxəhklmnpst 20A8=Rs 2100=a/c a/s :C °C 2105=c/o c/u :Ɛ 2109=°F :gHHHhħIILl 2115:N No",
  "2119:PQRRR 2120=SM TEL TM 2124:Z 2126:Ω 2128:Z 212A:K Å :BC 212F:eEF 2133:Moאבגדi 213B=FAX",
  ":πγΓΠ∑ 2145:Ddeij 2150=1⁄7 1⁄9 1⁄10 1⁄3 2⁄3 1⁄5 2⁄5 3⁄5 4⁄5 1⁄6 5⁄6 1⁄8 3⁄8 5⁄8 7⁄8 1⁄ :I II",
  "III IV :V VI VII VIII IX :X XI XII :LCDMi ii iii iv :v vi vii viii ix :x xi xii :lcdm 2189=0⁄3",
  "222C=∫∫ ∫∫∫ 222F=∮∮ ∮∮∮ 2329:〈〉 2460-2468=1 10 11 12 13 14 15 16 17 18 19 20 (1) (2) (3) (4)",
  "(5) (6) (7) (8) (9) (10) (11) (12) (13) (14) (15) (16) (17) (18) (19) (20) 1. 2. 3. 4. 5. 6. 7.",
  "8. 9. 10. 11. 12. 13. 14. 15. 16. 17. 18. 19. 20. (a) (b) (c) (d) (e) (f) (g) (h) (i) (j) (k)",
  "(l) (m) (n) (o) (p) (q) (r) (s) (t) (u) (v) (w) (x) (y) (z) 24B6-24CF=A 24D0-24E9=a :0",
  "2A0C=∫∫∫∫ 2A74=::= === ==== 2ADC=⫝̸ 2C7C:jV 2D6F:ⵡ 2E9F:母 2EF3:龟 2F00:一丨丶丿乙亅二亠人儿入八冂冖冫几凵刀力勹匕匚匸十卜",
  ":卩厂厶又口囗土士夂夊夕大女子宀寸小尢尸屮山巛工己巾干幺广廴廾弋弓彐彡彳心戈戶手支攴文斗斤方无日曰月木欠止歹殳毋比毛氏气水火爪父爻爿片牙牛犬玄玉瓜瓦甘生用田疋疒癶白皮皿目矛矢石示禸禾穴立竹米",
  ":糸缶网羊羽老而耒耳聿肉臣自至臼舌舛舟艮色艸虍虫血行衣襾見角言谷豆豕豸貝赤走足身車辛辰辵邑酉釆里金長門阜隶隹雨靑非面革韋韭音頁風飛食首香馬骨高髟鬥鬯鬲鬼魚鳥鹵鹿麥麻黃黍黑黹黽鼎鼓鼠鼻齊齒龍龜",
  ":龠 3000:␣ 3036:〒 3038:十卄卅 309B=␣゙ ␣゚ 309F=より 30FF=コト 3131:ᄀᄁᆪᄂᆬᆭᄃᄄᄅ 313A-313F=ᆰ :ᄚᄆᄇᄈᄡ",
  "3145-314E=ᄉ 314F-3163=ᅡ :ᅠᄔᄕᇇᇈᇌᇎᇓᇗᇙᄜᇝᇟᄝᄞᄠᄢᄣᄧᄩ 3178-317C=ᄫ :ᄲᄶᅀᅇᅌᇱᇲᅗᅘᅙᆄᆅᆈᆑᆒᆔᆞᆡ 3192:一二三四上中下甲乙丙丁天",
  ":地人 3200=(ᄀ) (ᄂ) (ᄃ) (ᄅ) (ᄆ) (ᄇ) (ᄉ) (ᄋ) (ᄌ) (ᄎ) (ᄏ) (ᄐ) (ᄑ) (ᄒ) (가) (나) (다) (라) (마) (바)",
  "(사) (아) (자) (차) (카) (타) (파) (하) (주) (오전) (오후) 3220=(一) (二) (三) (四) (五) (六) (七)",
  "(八) (九) (十) (月) (火) (水) (木) (金) (土) (日) (株) (有) (社) (名) (特) (財) (祝) (労) (代) (呼) (学) (監) (企) (資)",
  "(協) (祭) (休) (自) (至) :問幼文箏 3250=PTE 21 22 23 24 25 26 27 28 29 30 31 32 33 34 35 :ᄀᄂᄃᄅᄆᄇᄉᄋᄌ",
  "3269-326D=ᄎ 가 나 다 라 마 바 사 아 자 차 카 타 파 하 참고 주의 우 3280:一二三四五六七八九十月火水木金土日株有社名特",
  ":財祝労秘男女適優印注項休写正上中下左右医宗学監企資協夜 36 37 38 39 40 41 42 43 44 45 46 47 48 49 50 1月 2月 3月 4月 5月 6月 7月",
  "8月 9月 10月 11月 12月 Hg erg eV LTD :アイウエオカキクケコサシスセソタチツテト 32E4-32E9=ナ :ヒフヘホ 32EE-32F2=マ :ヤユ",
  "32F5-32FA=ヨ :ワヰヱヲ 令和 アパート アルファ アンペア アール イニング インチ ウォン エスクード エーカー オンス オーム カイリ カラット カロリー ガロン",
  "ガンマ ギガ ギニー キュリー ギルダー キロ キログラム キロメートル キロワット グラム グラムトン クルゼイロ クローネ ケース コルナ コーポ サイクル",
  "サンチーム シリング センチ セント ダース デシ ドル トン ナノ ノット ハイツ パーセント パーツ バーレル ピアストル ピクル ピコ ビル ファラッド",
  "フィート ブッシェル フラン ヘクタール ペソ ペニヒ ヘルツ ペンス ページ ベータ ポイント ボルト ホン ポンド ホール ホーン マイクロ マイル マッハ マルク",
  "マンション ミクロン ミリ ミリバール メガ メガトン メートル ヤード ヤール ユアン リットル リラ ルピー ルーブル レム レントゲン ワット 0点 1点 2点 3点",
  "4点 5点 6点 7点 8点 9点 10点 11点 12点 13点 14点 15点 16点 17点 18点 19点 20点 21点 22点 23点 24点 hPa da AU bar oV",
  "pc dm dm2 dm3 IU 平成 昭和 大正 明治 株式会社 pA nA μA mA kA KB MB GB cal kcal pF nF μF μg mg kg Hz kHz MHz",
  "GHz THz μl ml dl kl fm nm μm mm cm km mm2 cm2 m2 km2 mm3 cm3 m3 km3 m∕s m∕s2 Pa kPa MPa GPa rad",
  "rad∕s rad∕s2 ps ns μs ms pV nV μV mV kV MV pW nW μW mW kW MW kΩ MΩ a.m. Bq cc cd C∕kg Co. dB Gy",
  "ha HP in KK KM kt lm ln log lx mb mil mol PH p.m. PPM PR sr Sv Wb V∕m A∕m 1日 2日 3日 4日 5日 6日 7日",
  "8日 9日 10日 11日 12日 13日 14日 15日 16日 17日 18日 19日 20日 21日 22日 23日 24日 25日 26日 27日 28日 29日 30日 31日",
  "gal A69C:ъь A770:ꝯ A7F2:CFQ A7F8:Ħœ AB5C:ꜧꬷɫꭒ AB69:ʍ F900:豈更車賈滑串句龜龜契金喇奈懶癩羅蘿螺裸邏樂洛烙珞落酪駱亂卵欄爛蘭鸞嵐濫藍襤",
  ":拉臘蠟廊朗浪狼郎來冷勞擄櫓爐盧老蘆虜路露魯鷺碌祿綠菉錄鹿論壟弄籠聾牢磊賂雷壘屢樓淚漏累縷陋勒肋凜凌稜綾菱陵讀拏樂諾丹寧怒率異北磻便復不泌數索參塞省葉說殺辰沈拾若掠略亮兩凉梁糧良諒量勵呂女廬",
  ":旅濾礪閭驪麗黎力曆歷轢年憐戀撚漣煉璉秊練聯輦蓮連鍊列劣咽烈裂說廉念捻殮簾獵令囹寧嶺怜玲瑩羚聆鈴零靈領例禮醴隸惡了僚寮尿料樂燎療蓼遼龍暈阮劉杻柳流溜琉留硫紐類六戮陸倫崙淪輪律慄栗率隆利吏履易",
  ":李梨泥理痢罹裏裡里離匿溺吝燐璘藺隣鱗麟林淋臨立笠粒狀炙識什茶刺切度拓糖宅洞暴輻行降見廓兀嗀 FA10:塚 FA12:晴 FA15:凞猪益礼神祥福靖精羽 FA20:蘒 FA22:諸",
  "FA25:逸都 FA2A:飯飼館鶴郞隷侮僧免勉勤卑喝嘆器塀墨層屮悔慨憎懲敏既暑梅海渚漢煮爫琢碑社祉祈祐祖祝禍禎穀突節練縉繁署者臭艹艹著褐視謁謹賓贈辶逸難響頻恵𤋮舘 FA70:並况全侀充冀勇勺",
  ":喝啕喙嗢塚墳奄奔婢嬨廒廙彩徭惘慎愈憎慠懲戴揄搜摒敖晴朗望杖歹殺流滛滋漢瀞煮瞧爵犯猪瑱甆画瘝瘟益盛直睊着磌窱節类絛練缾者荒華蝹襁覆視調諸請謁諾諭謹變贈輸遲醙鉶陼難靖韛響頋頻鬒龜𢡊𢡄𣏕㮝䀘䀹𥉉",
  ":𥳐𧻓齃龎 FB00=ff fi fl ffi ffl st st FB13=մն մե մի վն մխ FB1D=יִ FB1F=ײַ :עאדהכלםרת+ שׁ שׂ שּׁ שּׂ",
  "אַ אָ אּ בּ גּ דּ הּ וּ זּ FB38=טּ יּ ךּ כּ לּ FB3E=מּ FB40=נּ סּ FB43=ףּ פּ FB46=צּ קּ רּ שּ",
  "תּ וֹ בֿ כֿ פֿ אל :ٱٱٻٻٻٻپپپپڀڀڀڀٺٺٺٺٿٿٿٿٹٹٹٹڤڤڤڤڦڦڦڦڄڄڄڄڃڃڃڃچچچچڇڇڇڇڍڍڌڌڎڎڈڈژژڑڑککککگگگگڳڳڳڳڱڱ",
  ":ڱڱںںڻڻڻڻ ۀ ۀ :ہہہہھھھھےے ۓ ۓ FBD3:ڭڭڭڭۇۇۆۆۈۈ ۇٴ :ۋۋۅۅۉۉېېېېىى ئا ئا ئە ئە ئو ئو ئۇ",
  "ئۇ ئۆ ئۆ ئۈ ئۈ ئې ئې ئې ئى ئى ئى :یییی ئج ئح ئم ئى ئي بج بح بخ بم بى بي تج تح",
  "تخ تم تى تي ثج ثم ثى ثي جح جم حج حم خج خح خم سج سح سخ سم صح صم ضج ضح ضخ ضم طح طم ظم عج عم غج غم",
  "فج فح فخ فم فى في قح قم قى قي كا كج كح كخ كل كم كى كي لج لح لخ لم لى لي مج مح مخ مم مى مي نج نح",
  "نخ نم نى ني هج هم هى هي يج يح يخ يم يى يي ذٰ رٰ ىٰ ␣ٌّ ␣ٍّ ␣َّ ␣ُّ ␣ِّ ␣ّٰ ئر ئز ئم ئن ئى",
  "ئي بر بز بم بن بى بي تر تز تم تن تى تي ثر ثز ثم ثن ثى ثي فى في قى قي كا كل كم كى كي لم لى لي",
  "ما مم نر نز نم نن نى ني ىٰ ير يز يم ين يى يي ئج ئح ئخ ئم ئه بج بح بخ بم به تج تح تخ تم ته",
  "ثم جح جم حج حم خج خم سج سح سخ سم صح صخ صم ضج ضح ضخ ضم طح ظم عج عم غج غم فج فح فخ فم قح قم كج كح",
  "كخ كل كم لج لح لخ لم له مج مح مخ مم نج نح نخ نم نه هج هم هٰ يج يح يخ يم يه ئم ئه بم به تم ته",
  "ثم ثه سم سه شم شه كل كم لم نم نه يم يه ـَّ ـُّ ـِّ طى طي عى عي غى غي سى سي شى شي حى حي جى جي خى",
  "خي صى صي ضى ضي شج شح شخ شم شر سر صر ضر طى طي عى عي غى غي سى سي شى شي حى حي جى جي خى خي صى صي ضى",
  "ضي شج شح شخ شم شر سر صر ضر شج شح شخ شم سه شه طم سج سح سخ شج شح شخ طم ظم اً اً FD50=تجم تحج تحج",
  "تحم تخم تمج تمح تمخ جمح جمح حمي حمى سحج سجح سجى سمح سمح سمج سمم سمم صحح صحح صمم شحم شحم شجي شمخ",
  "شمخ شمم شمم ضحى ضخم ضخم طمح طمح طمم طمي عجم عمم عمم عمى غمم غمي غمى فخم فخم قمح قمم لحم لحي لحى",
  "لجج لجج لخم لخم لمح لمح محج محم محي مجح مجم مخج مخم FD92=مجخ همج همم نحم نحى نجم نجم نجى نمي",
  "نمى يمم يمم بخي تجي تجى تخي تخى تمي تمى جمي جحى جمى سخى صحي شحي ضحي لجي لمي يحي يجي يمي ممي قمي",
  "نحي قمح لحم عمي كمي نجح مخي لجم كمم لجم نجح جحي حجي مجي فمي بحي كمم عجم صمم سخي نجي FDF0=صلے",
  "قلے الله اكبر محمد صلعم رسول عليه وسلم صلى صلى␣الله␣عليه␣وسلم جل␣جلاله ریال FE10:,、。:;!?〖〗 ...",
  "FE30=.. :—–__()\x7b\x7d〔〕【】《》〈〉「」『』 FE47:[] ␣̅ ␣̅ ␣̅ ␣̅ :___,、. FE54:;:?!—()\x7b\x7d〔〕#&*+-<>=",
  "FE68:\\$%@ FE70=␣ً ـً ␣ٌ FE74=␣ٍ FE76=␣َ ـَ ␣ُ ـُ ␣ِ ـِ ␣ّ ـّ ␣ْ ـْ :ء آ آ أ أ ؤ ؤ إ إ",
  "ئ ئ ئ ئ :ااببببةةتتتتثثثثججججححححخخخخددذذررززسسسسششششصصصصضضضضططططظظظظععععغغغغففففققققككككلل",
  ":للممممننننههههووىىيييي لآ لآ لأ لأ لإ لإ لا لا FF01-FF5E=! :⦅⦆。「」、・ヲァィゥェォャュョッーアイウエオカキクケコ",
  ":サシスセソタチツテト FF85-FF8A=ナ :ヒフヘホ FF8F-FF93=マ :ヤユ FF96-FF9B=ヨ :ワン゙゚ᅠᄀᄁᆪᄂᆬᆭᄃᄄᄅ FFAA-FFAF=ᆰ :ᄚᄆᄇᄈᄡ",
  "FFB5-FFBE=ᄉ FFC2-FFC7=ᅡ FFCA-FFCF=ᅧ FFD2-FFD7=ᅭ FFDA:ᅳᅴᅵ FFE0:¢£¬ ␣̄ :¦¥₩ FFE8:│←↑→↓■○",
  "10781:ːˑæʙɓ 10787:ʣꭦʥʤɖɗᶑɘɞʩɤɢɠʛħʜɧʄʪʫɬ𝼄ꞎɮ𝼅ʎ𝼆øɶɷqɺ𝼈ɽɾʀʨʦꭧʧʈⱱ 107B2:ʏʡʢʘǀǁǂ𝼊𝼞 1D15E=𝅗𝅥 𝅘𝅥 𝅘𝅥𝅮",
  "𝅘𝅥𝅯 𝅘𝅥𝅰 𝅘𝅥𝅱 𝅘𝅥𝅲 1D1BB=𝆹𝅥 𝆺𝅥 𝆹𝅥𝅮 𝆺𝅥𝅮 𝆹𝅥𝅯 𝆺𝅥𝅯 1D400-1D419=A 1D41A-1D433=a 1D434-1D44D=A",
  "1D44E-1D454=a 1D456-1D467=i 1D468-1D481=A 1D482-1D49B=a :A 1D49E:CD 1D4A2:G 1D4A5:JK",
  "1D4A9-1D4AC=N 1D4AE-1D4B5=S 1D4B6-1D4B9=a 1D4BB:f 1D4BD-1D4C3=h 1D4C5-1D4CF=p 1D4D0-1D4E9=A",
  "1D4EA-1D503=a :AB 1D507-1D50A=D 1D50D-1D514=J 1D516-1D51C=S 1D51E-1D537=a :AB 1D53B-1D53E=D",
  "1D540-1D544=I 1D546:O 1D54A-1D550=S 1D552-1D56B=a 1D56C-1D585=A 1D586-1D59F=a 1D5A0-1D5B9=A",
  "1D5BA-1D5D3=a 1D5D4-1D5ED=A 1D5EE-1D607=a 1D608-1D621=A 1D622-1D63B=a 1D63C-1D655=A",
  "1D656-1D66F=a 1D670-1D689=A 1D68A-1D6A3=a :ıȷ 1D6A8-1D6B8=Α :Θ 1D6BA-1D6C0=Σ :∇ 1D6C2-1D6DA=α",
  ":∂εθκφρπ 1D6E2-1D6F2=Α :Θ 1D6F4-1D6FA=Σ :∇ 1D6FC-1D714=α :∂εθκφρπ 1D71C-1D72C=Α :Θ",
  "1D72E-1D734=Σ :∇ 1D736-1D74E=α :∂εθκφρπ 1D756-1D766=Α :Θ 1D768-1D76E=Σ :∇ 1D770-1D788=α",
  ":∂εθκφρπ 1D790-1D7A0=Α :Θ 1D7A2-1D7A8=Σ :∇ 1D7AA-1D7C2=α :∂εθκφρπϜϝ 1D7CE-1D7D7=0 1D7D8-1D7E1=0",
  "1D7E2-1D7EB=0 1D7EC-1D7F5=0 1D7F6-1D7FF=0 1EE00:ابجد 1EE05:وزحطي 1EE0A-1EE0D=ك :سعفصقرشتثخذضظغٮ",
  ":ںڡٯ 1EE21:بج 1EE24:ه 1EE27:ح 1EE29:ي 1EE2A-1EE2D=ك :سعفصق 1EE34:شتثخ 1EE39:ض 1EE3B:غ 1EE42:ج",
  "1EE47:ح 1EE49:ي 1EE4B:ل 1EE4D:نسع 1EE51:صق 1EE54:ش 1EE57:خ 1EE59:ض 1EE5B:غ 1EE5D:ں 1EE5F:ٯ",
  "1EE61:بج 1EE64:ه 1EE67:حطيك 1EE6C:منسعفصق 1EE74:شتثخ 1EE79:ضظغٮ 1EE7E:ڡ 1EE80:ابجدهوزحطي",
  "1EE8B:لمنسعفصقرشتثخذضظغ 1EEA1:بجد 1EEA5:وزحطي 1EEAB:لمنسعفصقرشتثخذضظغ 1F100=0. 0, 1, 2, 3, 4,",
  "5, 6, 7, 8, 9, 1F110=(A) (B) (C) (D) (E) (F) (G) (H) (I) (J) (K) (L) (M) (N) (O) (P) (Q) (R)",
  "(S) (T) (U) (V) (W) (X) (Y) (Z) 〔S〕 :CR CD WZ 1F130-1F149=A HV MV SD SS PPV WC 1F16A=MC MD MR",
  "1F190=DJ 1F200=ほか ココ :サ 1F210:手字双 デ :二多解天交映無料前後再新初終生販声吹演投捕一三遊左中右指走打禁空合満有月申割営配 1F240=〔本〕 〔三〕",
  "〔二〕 〔安〕 〔点〕 〔打〕 〔盗〕 〔勝〕 〔敗〕 1F250:得可 1FBF0-1FBF9=0 2F800:丽丸乁𠄢你侮侻倂偺備僧像㒞𠘺免兔兤具𠔜㒹內再𠕋冗冤仌冬况𩇟凵刃㓟刻剆割剷㔕勇",
  ":勉勤勺包匆北卉卑博即卽卿卿卿𠨬灰及叟𠭣叫叱吆咞吸呈周咢哶唐啓啣善善喙喫喳嗂圖嘆圗噑噴切壮城埴堍型堲報墬𡓤売壷夆多夢奢𡚨𡛪姬娛娧姘婦㛮㛼嬈嬾嬾𡧈寃寘寧寳𡬘寿将当尢㞁屠屮峀岍𡷤嵃𡷦嵮嵫嵼巡巢㠯",
  ":巽帨帽幩㡢𢆃㡼庰庳庶廊𪎒廾𢌱𢌱舁弢弢㣇𣊸𦇚形彫㣣徚忍志忹悁㤺㤜悔𢛔惇慈慌慎慌慺憎憲憤憯懞懲懶成戛扝抱拔捐𢬌挽拼捨掃揤𢯱搢揅掩㨮摩摾撝摷㩬敏敬𣀊旣書晉㬙暑㬈㫤冒冕最暜肭䏙朗望朡杞杓𣏃㭉柺枅桒",
  ":梅𣑭梎栟椔㮝楂榣槪檨𣚣櫛㰘次𣢧歔㱎歲殟殺殻𣪍𡴋𣫺汎𣲼沿泍汧洖派海流浩浸涅𣴞洴港湮㴳滋滇𣻑淹潮𣽞𣾎濆瀹瀞瀛㶖灊災灷炭𠔥煅𤉣熜𤎫爨爵牐𤘈犀犕𤜵𤠔獺王㺬玥㺸㺸瑇瑜瑱璅瓊㼛甤𤰶甾𤲒異𢆟瘐𤾡𤾸𥁄㿼䀈",
  ":直𥃳𥃲𥄙𥄳眞真真睊䀹瞋䁆䂖𥐝硎碌磌䃣𥘦祖𥚚𥛅福秫䄯穀穊穏𥥼𥪧𥪧竮䈂𥮫篆築䈧𥲀糒䊠糨糣紀𥾆絣䌁緇縂繅䌴𦈨𦉇䍙𦋙罺𦌾羕翺者𦓚𦔣聠𦖨聰𣍟䏕育脃䐋脾媵𦞧𦞵𣎓𣎜舁舄辞䑫芑芋芝劳花芳芽苦𦬼若茝荣莭茣莽",
  ":菧著荓菊菌菜𦰶𦵫𦳕䔫蓱蓳蔖𧏊蕤𦼬䕝䕡𦾱𧃒䕫虐虜虧虩蚩蚈蜎蛢蝹蜨蝫螆䗗蟡蠁䗹衠衣𧙧裗裞䘵裺㒻𧢮𧥦䚾䛇誠諭變豕𧲨貫賁贛起𧼯𠠄跋趼跰𠣞軔輸𨗒𨗭邔郱鄑𨜮鄛鈸鋗鋘鉼鏹鐕𨯺開䦕閷𨵷䧦雃嶲霣𩅅𩈚䩮䩶韠𩐊",
  ":䪲𩒖頋頋頩𩖶飢䬳餩馧駂駾䯎𩬰鬒鱀鳽䳎䳭鵧𪃎䳸𪄅𪈎𪊑麻䵖黹黾鼅鼏鼖鼻𪘀"]

def decompositions : Array Decomposition :=
  let words := (wordsOf decompositionWords).map fun word =>
    word.map fun c => if c == '␣' then ' ' else c
  (Decomposition.ofWords 0 words).toArray

def tableDecomposition (c : Char) : List Char :=
  let n := c.toNat
  match decompositions[lastIndex (fun entry => entry.first ≤ n) decompositions]? with
  | none => [c]
  | some entry =>
    if entry.first ≤ n && n ≤ entry.last then
      match entry.target with
      | [target] => [Char.ofNat (target.toNat + (n - entry.first))]
      | targets => targets
    else [c]

/-- Takes a composite apart, and its parts again; `depth` bounds how often. -/
def decomposeComposite : Nat → Char → List Char
  | 0, c => [c]
  | depth + 1, c =>
    match lookupSorted compositesByResult c.toNat with
    | some (first, second) => decomposeComposite depth first ++ decomposeComposite depth second
    | none => tableDecomposition c

def hangulBase : Nat := 0xAC00
def leadBase : Nat := 0x1100
def vowelBase : Nat := 0x1161
def trailBase : Nat := 0x11A7
def vowelCount : Nat := 21
def trailCount : Nat := 28

def decomposeHangul (n : Nat) : List Nat :=
  let s := n - hangulBase
  let lead := leadBase + s / (vowelCount * trailCount)
  let vowel := vowelBase + s % (vowelCount * trailCount) / trailCount
  let trail := s % trailCount
  if trail == 0 then [lead, vowel] else [lead, vowel, trailBase + trail]

/-- The full compatibility decomposition of a character. A composite has no more than four marks. -/
def decomposeChar (c : Char) : List Char :=
  let n := c.toNat
  if n < 0xA0 then [c]
  else if hangulBase ≤ n && n < 0xD7A4 then (decomposeHangul n).map Char.ofNat
  else decomposeComposite 5 c

def markRuns : List (Nat × List String) := [
  (1, ["+DE5++1hj1D7+G9243A232++FXJ1++6RK5++5RB1++1No3"]), (6, ["++OVE2"]),
  (7, [
    "+c81+231+231+231+231+471+231+EM1+jM1+2r1+1I1++9QB1++6rO1+2y1+1O1+1j1+2s1+1J2+4H1+201+441+3y1",
    "+6E1+4G1+GU1++DaR1"]),
  (8, ["++3Ef2"]),
  (9, [
    "+cP1+231+231+231+231+231+231+231+1l2G1+201+1n1+231+3F1+2u2+SH2U1+2X1+AX1+3f1+1d2+182++1AR1",
    "++89u1b1+2R1+2I1+1k1+4z1+3y1++6HR1+Os1f1E1v1+1x2+2F1+1s1+2u1+1a1+3w1+231+441+231+1u1+1s1+4L1",
    "+4B2+2b1+1L1I1+1J1+6n1+4C2+1J1"]),
  (10, ["+NU1"]), (11, ["+NV1"]), (12, ["+NW1"]), (13, ["+NX1"]), (14, ["+NY1"]), (15, ["+NZ1"]),
  (16, ["+Na1"]), (17, ["+Nb1"]), (18, ["+Nc1E1"]), (19, ["+Nd2"]), (20, ["+Nf1"]), (21, ["+Ng1"]),
  (22, ["+Nh1"]), (23, ["+Nj1"]), (24, ["+Nl1"]), (25, ["+Nm1"]), (26, ["++Gis1"]),
  (27, ["+Pz1+Au1"]), (28, ["+Q01+Au1"]), (29, ["+Q11+Au1"]), (30, ["+PA1r1"]), (31, ["+PB1r1"]),
  (32, ["+PC1r1"]), (33, ["+Q51"]), (34, ["+Q61"]), (35, ["+Qa1"]), (36, ["+TB1"]), (84, ["+ov1"]),
  (91, ["+ow1"]), (103, ["+wi2"]), (107, ["+wy4"]), (118, ["+ym2"]), (122, ["+z24"]),
  (129, ["++11l1"]), (130, ["++11m17421"]), (132, ["++11o1"]), (202, ["+Cv242++1m31"]),
  (214, ["++1z41"]), (216, ["+Cp1+o11++Tyl275"]), (218, ["++1zm1++1D51"]),
  (220, [
    "+Ck425242B54A3324422+98141416621Q1+2J25121+2716121+1512123121131111111+2j1A1+1T3z3p5F1212133",
    "6122+1P1+Np2R111+2I1+3C1+Zp1+3Y1+1e1r621122251+2b1+5o524D1+3Q17141f13111+C0134++94V3+6I1",
    "++5YY7+Fj1+3e1+Tc1i1+2l1+I323114o111++Cur872++1Y47"]),
  (222, ["+N81I1++1Ih1++1Wl1"]), (224, ["++3Cw2"]), (226, ["++Uzl1"]),
  (228, ["+NS1++1GM1+Lt2++1D81"]),
  (230, [
    "+COLe811333341317D+4R5+4I41326621221K1+1D8x22512+1v724112222+151121231211311111112+2a711Y419",
    "1315+1i134g55E221213631225+1J112+2j1+Ml222+Fp3+IX1+5c1+3Y1+1V8p562422514+2W117+5c37241J132",
    "+3C217124b5121+Bd2243241511161+nW3+3qW++81H14AW2+1I2+7yI+7C112325211++5YE772+Lm5+RA1e1+2m1",
    "+9G4+6F2+2V311r111+673+9r735+3l1++5mT7++6oQ5W4+2O3+uh71H271215+4D7+631z4+Q86"]),
  (232, ["+Cj141z1++1lt1++1DB1"]), (233, ["+Ds12121++1lp1"]), (234, ["+Dt212++1l51"]),
  (240, ["+DV1"])]

def marks : List (Nat × Ranges) :=
  markRuns.map fun (k, runs) => (k, Ranges.ofLines runs)

def combiningClass (c : Char) : Nat :=
  if c.toNat < 0x300 then 0
  else ((marks.find? fun (_, ranges) => ranges.contains c.toNat).map (·.1)).getD 0

def placeMark (k : Nat) (c : Char) : List Char → List Char
  | [] => [c]
  | d :: before => if k < combiningClass d then d :: placeMark k c before else c :: d :: before

def orderMarks (cs : List Char) : List Char :=
  (cs.foldl (fun done c =>
    let k := combiningClass c
    if k == 0 then c :: done else placeMark k c done) []).reverse

/-- Composes `c` with the characters after it. `blocker` is the combining class of the last mark that
was passed over, `passed` holds what was passed over in reverse. -/
def absorbMarks (c : Char) (blocker : Nat) (passed : List Char) : List Char → Char × List Char
  | [] => (c, passed.reverse)
  | d :: rest =>
    let k := combiningClass d
    if blocker != 0 && k == 0 then (c, passed.reverseAux (d :: rest))
    else if blocker != 0 && k ≤ blocker then absorbMarks c blocker (d :: passed) rest
    else
      match composite? c d with
      | some c' => absorbMarks c' blocker passed rest
      | none =>
        if k == 0 then (c, passed.reverseAux (d :: rest))
        else absorbMarks c k (d :: passed) rest

def composeHangul? : List Char → Option (Char × List Char)
  | lead :: vowel :: rest =>
    let l := lead.toNat
    let v := vowel.toNat
    if leadBase ≤ l && l < leadBase + 19 && vowelBase ≤ v && v < vowelBase + vowelCount then
      let s := hangulBase + ((l - leadBase) * vowelCount + (v - vowelBase)) * trailCount
      match rest with
      | trail :: rest' =>
        let t := trail.toNat
        if trailBase < t && t < trailBase + trailCount then
          some (Char.ofNat (s + (t - trailBase)), rest')
        else some (Char.ofNat s, rest)
      | [] => some (Char.ofNat s, [])
    else none
  | _ => none

/-- Composes from left to right; every step uses up at least one character of the text, so its
length is enough fuel. -/
def composeMarks : Nat → List Char → List Char → List Char
  | 0, done, cs => done.reverseAux cs
  | _ + 1, done, [] => done.reverse
  | fuel + 1, done, c :: rest =>
    match composeHangul? (c :: rest) with
    | some (s, rest') => composeMarks fuel (s :: done) rest'
    | none =>
      let (c', rest') := absorbMarks c 0 [] rest
      composeMarks fuel (c' :: done) rest'

def compatibilityForm (cs : List Char) : List Char :=
  let marked := orderMarks (cs.flatMap decomposeChar)
  composeMarks marked.length [] marked

end Folio.Text
