import Folio.Proofs.OneLineStatements

/-!
# The pieces of a text that are tokens

Every token is read from a piece of its text that starts at the column of the
token.  A piece writes the lexeme of its token, and the pieces do not overlap.

The scans of a line look at its characters without cutting it into tokens.  Here
what they find is compared with the tokens: the brackets that are counted are
the tokens of brackets, a comment starts where no token can, and the sign of an
assignment that is found is a token and no part of a string.
-/

namespace Folio.Source

open Text

variable {value rest text front : Text} {column : Nat} {tokens : List Token}

/-! ## Written lexemes -/

/-- A text is what follows the opening quote of a string, up to its closing
quote. -/
inductive Literal (quote : Char) : Text → Text → Prop
  | close : Literal quote [quote] []
  | escape (c : Char) {body value : Text} (rest : Literal quote body value) :
      Literal quote ('\\' :: c :: body) (unescape c :: value)
  | plain {c : Char} {body value : Text} (unescaped : c ≠ '\\')
      (inside : c ≠ quote) (rest : Literal quote body value) :
      Literal quote (c :: body) (c :: value)

/-- A text writes a lexeme. -/
inductive Spelled : Lexeme → Text → Prop
  | symbol (symbol : Symbol) : Spelled (.symbol symbol) symbol.spelling
  | number {digits : Text} (nonempty : digits ≠ []) (digit : ∀ c ∈ digits, isDigit c = true) :
      Spelled (.number digits) digits
  | word {c : Char} {more : Text} (start : isLetter c = true ∨ c = '_')
      (letters : ∀ d ∈ more, isWordChar d = true) : Spelled (wordLexeme (c :: more)) (c :: more)
  | string {quote : Char} {body value : Text} (quoted : quote = '\'' ∨ quote = '"')
      (literal : Literal quote body value) : Spelled (.string value) (quote :: body)

theorem Literal.unique {quote : Char} (hquote : quote ≠ '\\') {body other read after : Text}
    (hbody : Literal quote body value) (hother : Literal quote other read)
    (hsame : body ++ rest = other ++ after) : body = other := by
  induction hbody generalizing other read with
  | close =>
    cases hother with
    | close => rfl
    | escape c _ => exact absurd (List.cons.inj hsame).1 hquote
    | plain _ hinside _ => exact absurd (List.cons.inj hsame).1.symm hinside
  | escape c _ ih =>
    cases hother with
    | close => exact absurd (List.cons.inj hsame).1.symm hquote
    | escape d hrest =>
      obtain ⟨-, hbehind⟩ := List.cons.inj hsame
      obtain ⟨rfl, htails⟩ := List.cons.inj hbehind
      rw [ih hrest htails]
    | plain hunescaped _ _ => exact absurd (List.cons.inj hsame).1.symm hunescaped
  | plain hunescaped hinside _ ih =>
    cases hother with
    | close => exact absurd (List.cons.inj hsame).1 hinside
    | escape d _ => exact absurd (List.cons.inj hsame).1 hunescaped
    | plain _ _ hrest =>
      obtain ⟨rfl, htails⟩ := List.cons.inj hsame
      rw [ih hrest htails]

theorem Spelled.exists_literal {piece : Text} (hspelled : Spelled (.string value) piece) :
    ∃ quote body, (quote = '\'' ∨ quote = '"') ∧ piece = quote :: body ∧
      Literal quote body value := by
  generalize hlexeme : Lexeme.string value = lexeme at hspelled
  cases hspelled with
  | symbol | number => cases hlexeme
  | @word c more _ _ =>
    rcases wordLexeme_cases (c :: more) with hname | ⟨keyword, hkeyword⟩
    · rw [hname] at hlexeme
      cases hlexeme
    · rw [hkeyword] at hlexeme
      cases hlexeme
  | string hquoted hliteral =>
    cases hlexeme
    exact ⟨_, _, hquoted, rfl, hliteral⟩

theorem literal_of_readString {quote : Char} {read : Text} {used total : Nat}
    (hread : readString quote value used text = .ok (read, total)) :
    ∃ body rest written, text = body ++ rest ∧ total = used + body.length ∧
      Literal quote body written ∧ read = value.reverse ++ written := by
  fun_induction readString quote value used text with
  | case1 | case2 => cases hread
  | case3 value used c rest ih =>
    obtain ⟨body, after, written, rfl, rfl, hliteral, rfl⟩ := ih hread
    exact ⟨'\\' :: c :: body, after, unescape c :: written, rfl, by simp; omega, .escape c hliteral,
      by simp⟩
  | case4 value used c rest hescape hplain hclose =>
    cases hread
    obtain rfl : c = quote := by simpa using hclose
    exact ⟨[c], rest, [], rfl, rfl, .close, by simp⟩
  | case5 value used c rest hescape hplain hclose ih =>
    obtain ⟨body, after, written, rfl, rfl, hliteral, rfl⟩ := ih hread
    have hc : c ≠ '\\' := by
      rintro rfl
      cases body <;> cases after <;> simp_all
    exact ⟨c :: body, after, c :: written, rfl, by simp; omega,
      .plain hc (by simpa using hclose) hliteral, by simp⟩

theorem Cut.spelled {c : Char} {lexeme : Lexeme} {more : Nat}
    (hcut : Cut c rest lexeme more) : Spelled lexeme (c :: rest.take more) := by
  cases hcut with
  | @pair symbol d tail hnext hspells =>
    subst hnext
    have hspelling : symbol.spelling = [c, d] := by
      unfold Symbol.ofPair? at hspells
      split at hspells <;> cases hspells <;> rfl
    have hspelled := Spelled.symbol symbol
    rwa [hspelling] at hspelled
  | @single symbol _ hspells =>
    have hspelling : symbol.spelling = [c] := by
      unfold Symbol.ofChar? at hspells
      split at hspells <;> cases hspells <;> rfl
    have hspelled := Spelled.symbol symbol
    rwa [hspelling] at hspelled
  | number hdigit =>
    rw [take_length_takeWhile]
    refine .number (List.cons_ne_nil _ _) (List.forall_mem_cons.mpr ⟨hdigit, ?_⟩)
    exact fun d hd => List.mem_takeWhile_imp hd
  | string hquote hread =>
    obtain ⟨body, after, written, rfl, rfl, hliteral, rfl⟩ := literal_of_readString hread
    rw [Nat.zero_add, List.take_left]
    exact .string hquote hliteral
  | word hstart =>
    rw [take_length_takeWhile]
    exact .word hstart fun d hd => List.mem_takeWhile_imp hd

/-! ## Tokens at their columns -/

/-- A token takes up a piece of a text that has the position `i` in it. -/
def Token.Covers (text : Text) (token : Token) (i : Nat) : Prop :=
  ∃ lead piece rest, text = lead ++ (piece ++ rest) ∧
    lead.length = token.column ∧ Spelled token.lexeme piece ∧
      token.column ≤ i ∧ i < token.column + piece.length

theorem le_column_of_tokenize
    (htokens : tokenize column text = .ok tokens) : ∀ token ∈ tokens, column ≤ token.column := by
  fun_induction tokenize column text generalizing tokens with
  | case1 column =>
    cases htokens
    simp
  | case2 column c rest hspace ih =>
    exact fun token htoken => by
      have := ih htokens token htoken
      omega
  | case3 | case4 => cases htokens
  | case5 column c rest hspace lexeme more hread tokens htail ih =>
    cases htokens
    refine List.forall_mem_cons.mpr ⟨le_refl column, ?_⟩
    intro token htoken
    have := ih htail token htoken
    omega

/-- A token starts at its column with a piece that writes its lexeme.  The
tokens before it start before it, and those behind it where it has ended. -/
theorem exists_piece {before after : List Token} {token : Token}
    (htokens : tokenize column text = .ok tokens) (hsplit : tokens = before ++ token :: after)
    (hmark : token.lexeme ≠ .finish) : ∃ lead piece rest, text = lead ++ (piece ++ rest) ∧
      token.column = column + lead.length ∧ Spelled token.lexeme piece ∧
      (∀ other ∈ before, other.column < token.column) ∧
      ∀ other ∈ after, token.column + piece.length ≤ other.column := by
  fun_induction tokenize column text generalizing tokens before with
  | case1 column =>
    cases htokens
    cases before with
    | nil =>
      cases hsplit
      exact absurd rfl hmark
    | cons first before => simp at hsplit
  | case2 column c rest hspace ih =>
    obtain ⟨lead, piece, behind, rfl, hcolumn, hfacts⟩ := ih htokens hsplit
    exact ⟨c :: lead, piece, behind, rfl, by rw [hcolumn, List.length_cons]; omega, hfacts⟩
  | case3 | case4 => cases htokens
  | case5 column c rest hspace lexeme more hread tokens htail ih =>
    cases htokens
    have hcut := cut_of_readLexeme hread
    have hpiece : c :: rest = c :: rest.take more ++ rest.drop more := by simp
    have hlength : (c :: rest.take more).length = 1 + more := by
      rw [List.length_cons, List.length_take, min_eq_left hcut.piece.1, Nat.add_comm]
    have hbehind := le_column_of_tokenize htail
    cases before with
    | nil =>
      cases hsplit
      refine ⟨[], c :: rest.take more, rest.drop more, hpiece, rfl, hcut.spelled, by simp, ?_⟩
      intro other hother
      rw [hlength, ← Nat.add_assoc]
      exact hbehind other hother
    | cons first before =>
      obtain ⟨rfl, hothers⟩ := List.cons.inj hsplit
      obtain ⟨lead, piece, behind, hrest, hcolumn, hspelled, hfirst, hlast⟩ := ih htail hothers
      refine ⟨c :: rest.take more ++ lead, piece, behind, ?_, ?_, hspelled,
        List.forall_mem_cons.mpr ⟨?_, hfirst⟩, hlast⟩
      · rw [List.append_assoc, ← hrest]
        exact hpiece
      · rw [hcolumn, List.length_append, hlength]
        omega
      · change column < token.column
        omega

theorem not_covers_of_mem {token other : Token} (htokens : tokenize 0 text = .ok tokens)
    (htoken : token ∈ tokens) (hstring : token.lexeme = .string value) (hother : other ∈ tokens)
    (hne : other ≠ token) : ¬ token.Covers text other.column := by
  rintro ⟨lead, piece, rest, htext, hlead, hspelled, hleast, hmost⟩
  obtain ⟨before, after, hsplit⟩ := List.append_of_mem htoken
  obtain ⟨front, found, behind, htext', hcolumn, hfound, hfirst, hlast⟩ :=
    exists_piece htokens hsplit (by simp [hstring])
  rw [hsplit] at hother
  rcases List.mem_append.mp hother with hbefore | hother
  · have := hfirst other hbefore
    omega
  · rcases List.mem_cons.mp hother with rfl | hafter
    · exact hne rfl
    · have hpiece : piece = found := by
        obtain ⟨-, hsame⟩ := List.append_inj (htext.symm.trans htext') (by omega)
        rw [hstring] at hspelled hfound
        obtain ⟨quote, body, hquoted, rfl, hbody⟩ := hspelled.exists_literal
        obtain ⟨_, others, -, rfl, hothers⟩ := hfound.exists_literal
        obtain ⟨rfl, htails⟩ := List.cons.inj hsame
        have hquote : quote ≠ '\\' := by rcases hquoted with rfl | rfl <;> decide
        rw [hbody.unique hquote hothers htails]
      have := hlast other hafter
      rw [hpiece] at hmost
      omega

/-! ## Brackets -/

def Lexeme.isOpening (lexeme : Lexeme) : Bool :=
  lexeme == .symbol .openParen || lexeme == .symbol .openBracket

def Lexeme.isClosing (lexeme : Lexeme) : Bool :=
  lexeme == .symbol .closeParen || lexeme == .symbol .closeBracket

theorem Lexeme.enclose_one (lexeme : Lexeme) : ∃ depth, lexeme.enclose 1 = some depth ∧
      (depth : Int) + lexeme.isClosing.toNat = 1 + lexeme.isOpening.toNat := by
  cases lexeme with
  | symbol symbol => cases symbol <;> exact ⟨_, rfl, by decide⟩
  | _ => exact ⟨1, rfl, rfl⟩

theorem balance_of_lexemes {lexemes : List Lexeme} (hlexemes : lexemes? text = some lexemes) :
    balance text = (lexemes.countP Lexeme.isOpening : Int) - lexemes.countP Lexeme.isClosing := by
  have hcut := cutInto_of_lexemes hlexemes
  clear hlexemes
  induction hcut with
  | nil => rfl
  | @blank c rest _ hspace _ ih =>
    have hblank : ∀ d ∈ [c], isSpace d = true := by simpa using hspace
    have hflat : balance [c] = 0 := balanceFrom_of_blank hblank _
    rw [← List.singleton_append, balance_append (endsOutside_of_blank hblank), hflat, Int.zero_add]
    exact ih
  | @lexeme c rest lexeme more others _ hread _ _ hrest =>
    have hscans := (cut_of_readLexeme hread).scans
    have hpiece : c :: rest = c :: rest.take more ++ rest.drop more := by simp
    obtain ⟨depth, hdepth, hcount⟩ := lexeme.enclose_one
    have hone := hscans.deepens 1 depth hdepth
    rw [hpiece, balance_append hscans.ends, List.countP_cons, List.countP_cons]
    cases hopening : lexeme.isOpening <;> cases hclosing : lexeme.isClosing <;>
      simp [hopening, hclosing] at hcount ⊢ <;> omega

/-! ## The sign of an assignment -/

/-- Text that starts inside of quotes and is hidden up to its end is outside of
them at its end only. -/
theorem Hidden.not_outside {quoting : Quoting} {back : Text}
    (hhidden : Hidden quoting (front ++ back)) (hback : back ≠ []) :
    front.foldl Quoting.step quoting ≠ .outside := by
  induction front generalizing quoting with
  | nil =>
    obtain ⟨c, rest, rfl⟩ := List.exists_cons_of_ne_nil hback
    exact hhidden.1
  | cons c front ih => exact ih hhidden.2

theorem Cut.no_sign_inside {c : Char} {lexeme : Lexeme} {more : Nat} (hcut : Cut c rest lexeme more)
    {back : Text} (hpiece : rest.take more = front ++ '=' :: back)
    (houtside : EndsOutside (c :: front))
    (hcompares : (c :: front).getLast?.any comparesBefore = false) : False := by
  have hsign : isWordChar '=' = false := by decide
  have hrun : ∀ p : Char → Bool, (∀ d, p d = true → isWordChar d = true) →
      rest.takeWhile p = front ++ '=' :: back → False := by
    intro p hp heq
    have hmem : '=' ∈ rest.takeWhile p := by simp [heq]
    have hword := hp '=' (List.mem_takeWhile_imp hmem)
    rw [hsign] at hword
    cases hword
  cases hcut with
  | pair hnext hspells =>
    subst hnext
    obtain ⟨hbefore, -, rfl⟩ := unmarked_of_ofPair? hspells
    cases front with
    | nil => simp [hbefore] at hcompares
    | cons d front => simp at hpiece
  | single _ _ => simp at hpiece
  | number _ =>
    rw [take_length_takeWhile] at hpiece
    exact hrun isDigit (fun d => isWordChar_of_isDigit) hpiece
  | string hquote hread =>
    have hne : c ≠ '\\' := by rcases hquote with rfl | rfl <;> decide
    have hopen : Quoting.outside.step c = .inside c := by rcases hquote with rfl | rfl <;> rfl
    obtain ⟨body, after, rfl, rfl, hhidden, -, -⟩ := readString_eq_ok hne hread
    rw [Nat.zero_add, List.take_left] at hpiece
    rw [hpiece] at hhidden
    rw [EndsOutside, List.foldl_cons, hopen] at houtside
    exact hhidden.not_outside (List.cons_ne_nil _ _) houtside
  | word _ =>
    rw [take_length_takeWhile] at hpiece
    exact hrun isWordChar (fun d => id) hpiece

theorem mem_tokens_of_sign (htokens : tokenize column text = .ok tokens)
    (htext : text = front ++ '=' :: rest) (houtside : EndsOutside front)
    (hcompares : front.getLast?.any comparesBefore = false) (hnext : rest.head? ≠ some '=') :
    ⟨.symbol .assign, column + front.length⟩ ∈ tokens := by
  fun_induction tokenize column text generalizing tokens front with
  | case1 column => simp at htext
  | case2 column c after hspace ih =>
    cases front with
    | nil =>
      obtain ⟨rfl, -⟩ := List.cons.inj htext
      exact absurd hspace (by decide)
    | cons d front =>
      obtain ⟨rfl, hafter⟩ := List.cons.inj htext
      have hblank : ∀ d ∈ [c], isSpace d = true := by simpa using hspace
      rw [List.length_cons, Nat.add_comm front.length, ← Nat.add_assoc]
      refine ih htokens hafter ((endsOutside_of_blank hblank).append.mp houtside) ?_
      cases front with
      | nil => rfl
      | cons e front => simpa using hcompares
  | case3 | case4 => cases htokens
  | case5 column c after hspace lexeme more hread tokens htail ih =>
    cases htokens
    have hcut := cut_of_readLexeme hread
    cases front with
    | nil =>
      obtain ⟨rfl, rfl⟩ := List.cons.inj htext
      cases hcut with
      | pair hsecond hspells =>
        obtain ⟨-, -, rfl⟩ := unmarked_of_ofPair? hspells
        rw [hsecond] at hnext
        exact absurd rfl hnext
      | single _ hspells =>
        cases hspells
        exact .head _
      | number hdigit => exact absurd hdigit (by decide)
      | string hquote _ => rcases hquote with hquote | hquote <;> cases hquote
      | word hstart =>
        rcases hstart with hletter | hline
        · exact absurd hletter (by decide)
        · cases hline
    | cons d front =>
      obtain ⟨rfl, hafter⟩ := List.cons.inj htext
      obtain ⟨hmore, hends⟩ := hcut.piece
      by_cases hinside : front.length < more
      · -- the sign would stand in the piece of this token
        have hpiece : after.take more = front ++ '=' :: rest.take (more - front.length - 1) := by
          obtain ⟨k, rfl⟩ : ∃ k, more = front.length + (k + 1) :=
            ⟨more - front.length - 1, by omega⟩
          rw [hafter, List.append_eq, List.take_length_add_append, List.take_succ_cons]
          congr 3
          omega
        exact (hcut.no_sign_inside hpiece houtside hcompares).elim
      · have hfront : front = after.take more ++ front.drop more := by
          rw [hafter, List.append_eq, List.take_append_of_le_length (by omega),
            List.take_append_drop]
        have hrest : after.drop more = front.drop more ++ '=' :: rest := by
          rw [hafter, List.append_eq, List.drop_append_of_le_length (by omega)]
        have hmem := ih htail hrest (by
            rw [hfront, ← List.cons_append] at houtside
            exact hends.append.mp houtside) (by
            cases hdrop : front.drop more with
            | nil => rfl
            | cons e others =>
              rwa [hfront, hdrop, ← List.cons_append,
                List.getLast?_append_of_ne_nil _ (List.cons_ne_nil _ _)] at hcompares)
        have hcolumn : column + 1 + more + (front.drop more).length =
            column + (c :: front).length := by
          rw [List.length_drop, List.length_cons]
          omega
        rw [hcolumn] at hmem
        exact .tail _ hmem

/-! ## Scans and tokens -/

/-- On a text that has tokens, the scans agree with them: the balance of its
brackets is that of its tokens, it has no comment and ends where one can start,
and the sign of an assignment that is found is a token that no string covers. -/
theorem scans_agree_with_tokens {text : Text} {tokens : List Token}
    (htokens : tokenize 0 text = .ok tokens) :
    balance text = (tokens.countP (·.lexeme.isOpening) : Int) -
        tokens.countP (·.lexeme.isClosing) ∧
      stripComment text = text ∧
      (∀ comment, stripComment (text ++ '#' :: comment) = text) ∧
      ∀ i, findAssignment text = some i →
        ⟨.symbol .assign, i⟩ ∈ tokens ∧
          ∀ token ∈ tokens, ∀ value, token.lexeme = .string value →
            ¬ token.Covers text i := by
  obtain ⟨before, last, rfl, hlexemes⟩ := tokenize_eq_ok htokens
  have hscans := scansAll_of_lexemes hlexemes
  refine ⟨?_, hscans.code, ?_, ?_⟩
  · rw [balance_of_lexemes hlexemes, List.countP_map, List.countP_map,
      List.countP_append, List.countP_append]
    rfl
  · intro comment
    rw [stripComment_append hscans.code hscans.ends]
    exact List.append_nil text
  · intro i hfound
    obtain ⟨front, rest, htext, hi, hstate, hcompares, hnext⟩ :=
      exists_sign_of_assignmentFrom hfound
    have hsign := mem_tokens_of_sign htokens htext hstate
      (by simpa using hcompares) hnext
    rw [← hi] at hsign
    refine ⟨hsign, ?_⟩
    intro token htoken value hstring
    refine not_covers_of_mem htokens htoken hstring hsign ?_
    rintro rfl
    cases hstring

/-- A list that is left open, with brackets, marks and an escaped quote in its
strings. -/
def openList : Text :=
  "x = [f(\"#=(\\\"\"), y == '='".toList

theorem openList_scanned_as_tokens :
    ∃ tokens, tokenize 0 openList = .ok tokens ∧
      ⟨.string "#=(\"".toList, 7⟩ ∈ tokens ∧ findAssignment openList = some 2 ∧
      (1 : Int) = (tokens.countP (·.lexeme.isOpening) : Int) -
        tokens.countP (·.lexeme.isClosing) ∧
      stripComment (openList ++ "# )".toList) = openList ∧
      ⟨.symbol .assign, 2⟩ ∈ tokens ∧
      ∀ token ∈ tokens, ∀ value, token.lexeme = .string value →
        ¬ token.Covers openList 2 := by
  have hstring : (tokenize 0 openList).toOption.map
      (·.contains ⟨.string "#=(\"".toList, 7⟩) = some true := by
    decide +kernel
  have hfound : findAssignment openList = some 2 := by decide
  have hbalance : balance openList = 1 := by decide
  cases htokens : tokenize 0 openList with
  | error flaw =>
      rw [htokens] at hstring
      cases hstring
  | ok tokens =>
      rw [htokens] at hstring
      obtain ⟨hcount, -, hcomment, hsign⟩ := scans_agree_with_tokens htokens
      obtain ⟨hmem, hcovers⟩ := hsign 2 hfound
      exact ⟨tokens, rfl, List.contains_iff_mem.mp (Option.some.inj hstring), hfound,
        hbalance.symm.trans hcount, hcomment _, hmem, hcovers⟩

end Folio.Source
