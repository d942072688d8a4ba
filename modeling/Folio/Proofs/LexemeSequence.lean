import Folio.Proofs.WrittenLine

/-!
# The lexemes of a text

What an expression means depends on the lexemes of its text and not on the
columns at which they stand.  A blank outside quotes cuts a text into two whose
lexemes are those of the whole, one after the other.  So the lexemes of a text
in pieces are known from those of the pieces, wherever the blanks between them
were taken from.
-/

namespace Folio.Source

variable {c blank : Char} {rest text blanks : Text} {lexeme : Lexeme} {more : Nat}

def lexemesAfter : Nat → Text → Option (List Lexeme)
  | _, [] => some []
  | skip + 1, _ :: rest => lexemesAfter skip rest
  | 0, c :: rest =>
    if Text.isSpace c then lexemesAfter 0 rest
    else
      match readLexeme c rest with
      | .error _ => none
      | .ok (lexeme, more) => (lexemesAfter more rest).map (lexeme :: ·)

/-- The lexemes of a text, if it can be cut into lexemes. -/
def lexemes? (text : Text) : Option (List Lexeme) :=
  lexemesAfter 0 text

theorem lexemesAfter_eq (skip : Nat) (text : Text) :
    lexemesAfter skip text = lexemes? (text.drop skip) := by
  induction text generalizing skip with
  | nil => rw [List.drop_nil, lexemes?, lexemesAfter, lexemesAfter]
  | cons c rest ih =>
    cases skip with
    | zero => rfl
    | succ skip =>
      rw [lexemesAfter, List.drop_succ_cons]
      exact ih skip

theorem lexemes?_nil : lexemes? [] = some [] := rfl

theorem lexemes?_blank (hspace : Text.isSpace c = true)
    (rest : Text) : lexemes? (c :: rest) = lexemes? rest := by
  rw [lexemes?, lexemesAfter, if_pos hspace]
  rfl

theorem lexemes?_of_error {reason : Refusal} (hspace : ¬Text.isSpace c = true)
    (hread : readLexeme c rest = .error reason) : lexemes? (c :: rest) = none := by
  rw [lexemes?, lexemesAfter, if_neg hspace, hread]

theorem lexemes?_of_ok
    (hspace : ¬Text.isSpace c = true) (hread : readLexeme c rest = .ok (lexeme, more)) :
    lexemes? (c :: rest) = (lexemes? (rest.drop more)).map (lexeme :: ·) := by
  rw [lexemes?, lexemesAfter, if_neg hspace, hread, ← lexemesAfter_eq]

@[elab_as_elim]
theorem lexingInduction {motive : Text → Prop} (nil : motive [])
    (blank : ∀ c rest, Text.isSpace c = true → motive rest → motive (c :: rest))
    (error : ∀ c rest reason, ¬Text.isSpace c = true →
      readLexeme c rest = .error reason → motive (c :: rest))
    (ok : ∀ c rest lexeme more, ¬Text.isSpace c = true →
      readLexeme c rest = .ok (lexeme, more) → motive (rest.drop more) →
      motive (c :: rest)) (text : Text) : motive text := by
  match text with
  | [] => exact nil
  | c :: rest =>
    by_cases hspace : Text.isSpace c = true
    · exact blank c rest hspace (lexingInduction nil blank error ok rest)
    · cases hread : readLexeme c rest with
      | error reason => exact error c rest reason hspace hread
      | ok read =>
        exact ok c rest read.1 read.2 hspace hread
          (lexingInduction nil blank error ok (rest.drop read.2))
termination_by text.length

/-- A text that is cut into lexemes, with blanks between them. -/
inductive CutInto : Text → List Lexeme → Prop
  | nil : CutInto [] []
  | blank {c : Char} {rest : Text} {lexemes : List Lexeme} (space : Text.isSpace c = true)
      (tail : CutInto rest lexemes) : CutInto (c :: rest) lexemes
  | lexeme {c : Char} {rest : Text} {lexeme : Lexeme} {more : Nat} {lexemes : List Lexeme}
      (solid : ¬Text.isSpace c = true) (read : readLexeme c rest = .ok (lexeme, more))
      (others : lexemes? (rest.drop more) = some lexemes)
      (tail : CutInto (rest.drop more) lexemes) : CutInto (c :: rest) (lexeme :: lexemes)

theorem cutInto_of_lexemes {lexemes : List Lexeme} (hlexemes : lexemes? text = some lexemes) :
    CutInto text lexemes := by
  induction text using lexingInduction generalizing lexemes with
  | nil =>
    cases hlexemes
    exact .nil
  | blank c rest hspace ih =>
    rw [lexemes?_blank hspace] at hlexemes
    exact .blank hspace (ih hlexemes)
  | error c rest reason hspace hread =>
    rw [lexemes?_of_error hspace hread] at hlexemes
    cases hlexemes
  | ok c rest lexeme more hspace hread ih =>
    rw [lexemes?_of_ok hspace hread] at hlexemes
    obtain ⟨others, hothers, rfl⟩ := Option.map_eq_some_iff.mp hlexemes
    exact .lexeme hspace hread hothers (ih hothers)

/-! ## One lexeme -/

/-- The ways to read a lexeme. -/
inductive Cut (c : Char) (rest : Text) : Lexeme → Nat → Prop
  | pair {symbol : Symbol} {d : Char} {tail : Text} (next : rest = d :: tail)
      (spells : Symbol.ofPair? c d = some symbol) : Cut c rest (.symbol symbol) 1
  | single {symbol : Symbol} (alone : rest.head?.bind (Symbol.ofPair? c) = none)
      (spells : Symbol.ofChar? c = some symbol) : Cut c rest (.symbol symbol) 0
  | number (digit : Text.isDigit c = true) : Cut c rest (.number (c :: rest.takeWhile Text.isDigit))
        (rest.takeWhile Text.isDigit).length
  | string {value : Text} {used : Nat} (quote : c = '\'' ∨ c = '"')
      (read : readString c [] 0 rest = .ok (value, used)) : Cut c rest (.string value) used
  | word (start : Text.isLetter c = true ∨ c = '_') :
      Cut c rest (wordLexeme (c :: rest.takeWhile isWordChar)) (rest.takeWhile isWordChar).length

theorem cut_of_readLexeme
    (hread : readLexeme c rest = .ok (lexeme, more)) : Cut c rest lexeme more := by
  unfold readLexeme at hread
  split at hread
  · rename_i symbol hpair
    obtain ⟨d, hd, hspells⟩ := Option.bind_eq_some_iff.mp hpair
    obtain ⟨tail, rfl⟩ := List.head?_eq_some_iff.mp hd
    cases hread
    exact .pair rfl hspells
  · rename_i halone
    split at hread
    · rename_i symbol hspells
      cases hread
      exact .single halone hspells
    · split at hread
      · rename_i hdigit
        cases hread
        exact .number hdigit
      · split at hread
        · rename_i hquote
          cases hstring : readString c [] 0 rest with
          | error reason =>
            rw [hstring] at hread
            cases hread
          | ok read =>
            rw [hstring] at hread
            cases hread
            exact .string (by simpa using hquote) hstring
        · split at hread
          · rename_i hstart
            cases hread
            exact .word (by simpa using hstart)
          · cases hread

theorem wordLexeme_cases (word : Text) : wordLexeme word = .name word ∨
      ∃ keyword, wordLexeme word = .keyword keyword word := by
  unfold wordLexeme
  cases Keyword.ofSpelling? word with
  | none => exact .inl rfl
  | some keyword => exact .inr ⟨keyword, rfl⟩

theorem Cut.ne_finish (hcut : Cut c rest lexeme more) : lexeme ≠ .finish := by
  cases hcut with
  | word _ =>
    rcases wordLexeme_cases (c :: rest.takeWhile isWordChar) with
      hname | ⟨keyword, hkeyword⟩
    · simp [hname]
    · simp [hkeyword]
  | _ => simp

/-! ## Tokens and their lexemes -/

theorem tokenize_eq_ok {column : Nat} {tokens : List Token}
    (htokens : tokenize column text = .ok tokens) :
    ∃ before last, tokens = before ++ [⟨.finish, last⟩] ∧
      lexemes? text = some (before.map Token.lexeme) := by
  fun_induction tokenize column text generalizing tokens with
  | case1 column =>
    cases htokens
    exact ⟨[], column, rfl, lexemes?_nil⟩
  | case2 column c rest hspace ih =>
    rw [lexemes?_blank hspace]
    exact ih htokens
  | case3 | case4 => cases htokens
  | case5 column c rest hspace lexeme more hread tokens htail ih =>
    cases htokens
    obtain ⟨before, last, rfl, hlexemes⟩ := ih htail
    refine ⟨⟨lexeme, column⟩ :: before, last, rfl, ?_⟩
    rw [lexemes?_of_ok hspace hread, hlexemes]
    rfl

theorem exists_tokenize {lexemes : List Lexeme} (hlexemes : lexemes? text = some lexemes)
    (column : Nat) : ∃ before last, tokenize column text = .ok (before ++ [⟨.finish, last⟩]) ∧
        before.map Token.lexeme = lexemes := by
  have hcut := cutInto_of_lexemes hlexemes
  clear hlexemes
  induction hcut generalizing column with
  | nil => exact ⟨[], column, by rw [tokenize]; rfl, rfl⟩
  | blank hspace _ ih =>
    rw [tokenize, if_pos hspace]
    exact ih (column + 1)
  | @lexeme c rest lexeme more _ hspace hread _ _ ih =>
    obtain ⟨before, last, htail, hmap⟩ := ih (column + 1 + more)
    refine ⟨⟨lexeme, column⟩ :: before, last, ?_, by rw [List.map_cons, hmap]⟩
    rw [tokenize, if_neg hspace, hread]
    simp only [htail, List.cons_append]

theorem ne_finish_of_lexemes {lexemes : List Lexeme}
    (hlexemes : lexemes? text = some lexemes) : ∀ lexeme ∈ lexemes, lexeme ≠ .finish := by
  have hcut := cutInto_of_lexemes hlexemes
  clear hlexemes
  induction hcut with
  | nil => simp
  | blank _ _ ih => exact ih
  | lexeme _ hread _ _ ih =>
    exact List.forall_mem_cons.mpr ⟨(cut_of_readLexeme hread).ne_finish, ih⟩

theorem parseExpr_eq_ok_iff {origin : Location} {e : Expr} : parseExpr origin text = .ok e ↔
      ∃ tokens last, tokenize 0 text = .ok (tokens ++ [⟨.finish, last⟩]) ∧
        ∃ phrase : Phrase .disjunction, phrase.tokens = tokens ∧ phrase.expr origin = e := by
  have hmark {tokens : List Token} {last : Nat}
      (htokens : tokenize 0 text = .ok (tokens ++ [⟨.finish, last⟩])) :
      ∀ token ∈ tokens, token.lexeme ≠ .finish := by
    obtain ⟨before, column, heq, hlexemes⟩ := tokenize_eq_ok htokens
    obtain ⟨rfl, -⟩ := List.append_inj' heq rfl
    intro token htoken
    exact ne_finish_of_lexemes hlexemes _ (List.mem_map_of_mem htoken)
  rw [parseExpr, bind_eq_ok_iff]
  constructor
  · rintro ⟨tokens, htokens, hread⟩
    obtain ⟨before, last, rfl, -⟩ := tokenize_eq_ok htokens
    exact ⟨before, last, htokens, (parseTokens_eq_ok_iff (hmark htokens)).mp hread⟩
  · rintro ⟨tokens, last, htokens, hphrase⟩
    exact ⟨_, htokens, (parseTokens_eq_ok_iff (hmark htokens)).mpr hphrase⟩

/-! ## Quotes -/

def EndsOutside (text : Text) : Prop :=
  text.foldl Quoting.step .outside = .outside

theorem EndsOutside.append (htext : EndsOutside text) :
    EndsOutside (text ++ rest) ↔ EndsOutside rest := by
  rw [EndsOutside, List.foldl_append, htext, EndsOutside]

theorem readString_cons (hc : c ≠ '\\') (quote : Char) (value rest : Text) (used : Nat) :
    readString quote value used (c :: rest) = if c == quote then .ok (value.reverse, used + 1)
      else readString quote (c :: value) (used + 1) rest := by
  rw [readString]
  · intro hescape
    exact absurd hescape hc
  · intro d tail hescape
    exact absurd hescape hc

/-- A string that was read ends with its quote, and what follows it does not
matter. -/
theorem readString_eq_ok {quote : Char} (hquote : quote ≠ '\\') {value read : Text}
    {used total : Nat} (hread : readString quote value used text = .ok (read, total)) :
    ∃ body rest, text = body ++ rest ∧ total = used + body.length ∧ Hidden (.inside quote) body ∧
      body.foldl Quoting.step (.inside quote) = .outside ∧
      ∀ other, readString quote value used (body ++ other) = .ok (read, total) := by
  fun_induction readString quote value used text with
  | case1 | case2 => cases hread
  | case3 value used c rest ih =>
    obtain ⟨body, after, rfl, rfl, hhidden, hstate, hother⟩ := ih hread
    refine ⟨'\\' :: c :: body, after, rfl, by simp; omega, ?_, ?_, ?_⟩
    · simpa [Hidden, Quoting.step] using hhidden
    · simpa [Quoting.step] using hstate
    · intro other
      rw [List.cons_append, List.cons_append, readString]
      exact hother other
  | case4 value used c rest hescape hplain hclose =>
    cases hread
    have hc : c = quote := by simpa using hclose
    subst hc
    refine ⟨[c], rest, rfl, rfl, by simp [Hidden], ?_, ?_⟩
    · simp [Quoting.step, hquote]
    · intro other
      rw [List.singleton_append, readString_cons hquote, if_pos hclose]
  | case5 value used c rest hescape hplain hclose ih =>
    obtain ⟨body, after, rfl, rfl, hhidden, hstate, hother⟩ := ih hread
    have hc : c ≠ '\\' := by
      rintro rfl
      cases body <;> cases after <;> simp_all
    have hne : c ≠ quote := by simpa using hclose
    refine ⟨c :: body, after, rfl, by simp; omega, ?_, ?_, ?_⟩
    · simpa [Hidden, Quoting.step, hc, hne] using hhidden
    · simpa [Quoting.step, hc, hne] using hstate
    · intro other
      rw [List.cons_append, readString_cons hc, if_neg hclose]
      exact hother other

theorem exists_readString {quote : Char}
    (hends : text.foldl Quoting.step (.inside quote) = .outside) (value : Text) (used : Nat) :
    ∃ read total, readString quote value used text = .ok (read, total) := by
  fun_induction readString quote value used text with
  | case1 | case2 => simp [Quoting.step] at hends
  | case3 value used c rest ih =>
    apply ih
    simpa [Quoting.step] using hends
  | case4 => exact ⟨_, _, rfl⟩
  | case5 value used c rest hescape hplain hclose ih =>
    apply ih
    have hc : c ≠ '\\' := by
      rintro rfl
      cases rest <;> simp_all
    have hne : c ≠ quote := by simpa using hclose
    simpa [Quoting.step, hc, hne] using hends

theorem isWordChar_of_isDigit (hdigit : Text.isDigit c = true) : isWordChar c = true := by
  simp [isWordChar, Text.isAlphanumeric, hdigit]

theorem isWordChar_of_start (hstart : Text.isLetter c = true ∨ c = '_') : isWordChar c = true := by
  rcases hstart with hletter | rfl
  · simp [isWordChar, Text.isAlphanumeric, hletter]
  · decide

theorem endsOutside_of_unmarked (htext : ∀ c ∈ text, Unmarked c) : EndsOutside text := by
  induction text with
  | nil => rfl
  | cons c text ih =>
    rw [EndsOutside, List.foldl_cons, Quoting.step_outside (htext c (by simp))]
    exact ih fun d hd => htext d (by simp [hd])

theorem unmarked_of_isSpace (hspace : Text.isSpace c = true) : Unmarked c := by
  refine ⟨?_, ?_, ?_⟩ <;> rintro rfl <;> exact absurd hspace (by decide)

theorem unmarked_of_ofPair? {d : Char} {symbol : Symbol}
    (hspells : Symbol.ofPair? c d = some symbol) :
    comparesBefore c = true ∧ Unmarked c ∧ d = '=' := by
  unfold Symbol.ofPair? at hspells
  split at hspells <;> simp_all [comparesBefore, Unmarked]

theorem unmarked_of_ofChar? {symbol : Symbol}
    (hspells : Symbol.ofChar? c = some symbol) : Unmarked c := by
  unfold Symbol.ofChar? at hspells
  split at hspells <;> simp_all [Unmarked]

theorem take_length_takeWhile (p : Char → Bool) (text : Text) :
    text.take (text.takeWhile p).length = text.takeWhile p :=
  (List.prefix_iff_eq_take.mp (List.takeWhile_prefix p)).symm

theorem takeWhile_append_drop (p : Char → Bool) (text : Text) :
    text.takeWhile p ++ text.drop (text.takeWhile p).length = text := by
  have htake := List.take_append_drop (text.takeWhile p).length text
  rwa [take_length_takeWhile] at htake

theorem endsOutside_run {p : Char → Bool} (hp : ∀ c, p c = true → isWordChar c = true)
    (hc : isWordChar c = true) (rest : Text) :
    EndsOutside (c :: rest.take (rest.takeWhile p).length) := by
  rw [take_length_takeWhile]
  apply endsOutside_of_unmarked
  intro d hd
  rcases List.mem_cons.mp hd with rfl | hd
  · exact (scan_wordChar hc).1
  · exact (scan_wordChar (hp d (List.mem_takeWhile_imp hd))).1

theorem Cut.piece
    (hcut : Cut c rest lexeme more) : more ≤ rest.length ∧ EndsOutside (c :: rest.take more) := by
  cases hcut with
  | @pair symbol d tail hnext hspells =>
    subst hnext
    obtain ⟨-, hc, rfl⟩ := unmarked_of_ofPair? hspells
    refine ⟨by simp, endsOutside_of_unmarked ?_⟩
    simpa [Unmarked] using hc
  | single _ hspells =>
    refine ⟨by simp, endsOutside_of_unmarked ?_⟩
    simpa using unmarked_of_ofChar? hspells
  | number hdigit =>
    refine ⟨(List.takeWhile_sublist _).length_le, ?_⟩
    exact endsOutside_run (fun d => isWordChar_of_isDigit) (isWordChar_of_isDigit hdigit) rest
  | string hquote hread =>
    have hne : c ≠ '\\' := by rcases hquote with rfl | rfl <;> decide
    obtain ⟨body, after, rfl, rfl, -, hstate, -⟩ := readString_eq_ok hne hread
    have hopen : Quoting.outside.step c = .inside c := by rcases hquote with rfl | rfl <;> rfl
    refine ⟨by simp, ?_⟩
    simpa [EndsOutside, hopen] using hstate
  | word hstart =>
    refine ⟨(List.takeWhile_sublist _).length_le, ?_⟩
    exact endsOutside_run (fun d => id) (isWordChar_of_start hstart) rest

/-! ## Texts in pieces -/

theorem takeWhile_append_blank {p : Char → Bool} (hblank : p blank = false) (text rest : Text) :
    (text ++ blank :: rest).takeWhile p = text.takeWhile p := by
  induction text with
  | nil => simp [hblank]
  | cons c text ih => simp [List.takeWhile_cons, ih]

theorem readLexeme_append (hends : EndsOutside (c :: text)) (hblank : Text.isSpace blank = true)
    (rest : Text) : readLexeme c (text ++ blank :: rest) = readLexeme c text := by
  have hword := isWordChar_eq_false_of_isSpace hblank
  have hdigit : Text.isDigit blank = false := by
    rw [Bool.eq_false_iff]
    intro hdigit
    simp [isWordChar_of_isDigit hdigit] at hword
  have hpair : (text ++ blank :: rest).head?.bind (Symbol.ofPair? c) =
      text.head?.bind (Symbol.ofPair? c) := by
    cases text with
    | cons d text => rfl
    | nil =>
      cases hspells : Symbol.ofPair? c blank with
      | none => simpa using hspells
      | some symbol =>
        obtain ⟨-, -, rfl⟩ := unmarked_of_ofPair? hspells
        exact absurd hblank (by decide)
  have hstring : c = '\'' ∨ c = '"' →
      readString c [] 0 (text ++ blank :: rest) = readString c [] 0 text := by
    intro hquote
    have hne : c ≠ '\\' := by rcases hquote with rfl | rfl <;> decide
    have hopen : Quoting.outside.step c = .inside c := by rcases hquote with rfl | rfl <;> rfl
    rw [EndsOutside, List.foldl_cons, hopen] at hends
    obtain ⟨read, total, hread⟩ := exists_readString hends [] 0
    obtain ⟨body, after, rfl, -, -, -, hother⟩ := readString_eq_ok hne hread
    rw [hread, List.append_assoc, hother]
  unfold readLexeme
  rw [hpair, takeWhile_append_blank hdigit, takeWhile_append_blank hword]
  split
  · rfl
  split
  · rfl
  split
  · rfl
  split
  · rename_i hquote
    rw [hstring (by simpa using hquote)]
  · rfl

theorem lexemes?_append (hends : EndsOutside text) (hblank : Text.isSpace blank = true)
    (rest : Text) : lexemes? (text ++ blank :: rest) =
      Option.map₂ (· ++ ·) (lexemes? text) (lexemes? rest) := by
  induction text using lexingInduction with
  | nil =>
    rw [List.nil_append, lexemes?_blank hblank, lexemes?_nil]
    cases lexemes? rest <;> rfl
  | blank c text hspace ih =>
    rw [EndsOutside, List.foldl_cons, Quoting.step_outside (unmarked_of_isSpace hspace)] at hends
    rw [List.cons_append, lexemes?_blank hspace, lexemes?_blank hspace]
    exact ih hends
  | error c text reason hspace hread =>
    have hwhole := (readLexeme_append hends hblank rest).trans hread
    rw [List.cons_append, lexemes?_of_error hspace hwhole, lexemes?_of_error hspace hread]
    rfl
  | ok c text lexeme more hspace hread ih =>
    obtain ⟨hmore, hpiece⟩ := (cut_of_readLexeme hread).piece
    have hrest : EndsOutside (text.drop more) := by
      rw [← hpiece.append, List.cons_append, List.take_append_drop]
      exact hends
    have hwhole := (readLexeme_append hends hblank rest).trans hread
    rw [List.cons_append, lexemes?_of_ok hspace hwhole, lexemes?_of_ok hspace hread,
      List.drop_append_of_le_length hmore, ih hrest]
    cases lexemes? (text.drop more) <;> cases lexemes? rest <;> rfl

theorem lexemes?_blank_append (hblanks : ∀ c ∈ blanks, Text.isSpace c = true) (text : Text) :
    lexemes? (blanks ++ text) = lexemes? text := by
  induction blanks with
  | nil => rfl
  | cons c blanks ih =>
    rw [List.cons_append, lexemes?_blank (hblanks c (by simp))]
    exact ih fun d hd => hblanks d (by simp [hd])

theorem lexemes?_of_blank (hblanks : ∀ c ∈ blanks, Text.isSpace c = true) :
    lexemes? blanks = some [] := by
  have happend := lexemes?_blank_append hblanks []
  rw [List.append_nil] at happend
  rw [happend, lexemes?_nil]

theorem map₂_append_nil (lexemes : Option (List Lexeme)) :
    Option.map₂ (· ++ ·) lexemes (some []) = lexemes := by
  cases lexemes <;> simp

theorem lexemes?_append_blank (hends : EndsOutside text)
    (hblanks : ∀ c ∈ blanks, Text.isSpace c = true) :
    lexemes? (text ++ blanks) = lexemes? text := by
  cases blanks with
  | nil => rw [List.append_nil]
  | cons blank blanks =>
    obtain ⟨hblank, hblanks⟩ := List.forall_mem_cons.mp hblanks
    rw [lexemes?_append hends hblank, lexemes?_of_blank hblanks, map₂_append_nil]

/-! ## Phrases at other columns -/

mutual

/-- Tokens with the lexemes of a phrase are a phrase with the same meaning, up
to places. -/
theorem Phrase.exists_moved {level : Level} (phrase : Phrase level) {tokens : List Token}
    (htokens : tokens.map Token.lexeme = phrase.tokens.map Token.lexeme) :
    ∃ other : Phrase level, other.tokens = tokens ∧ ∀ origin start,
      (other.expr origin).unplaced = (phrase.expr start).unplaced := by
  match phrase with
  | .row hjoins first rest =>
    rw [Phrase.tokens, List.map_append] at htokens
    obtain ⟨front, back, rfl, hfront, hback⟩ := List.map_eq_append_iff.mp htokens
    obtain ⟨first', rfl, hfirst⟩ := first.exists_moved hfront
    obtain ⟨rest', rfl, hrest⟩ := rest.exists_moved hback
    exact ⟨.row hjoins first' rest', rfl, fun origin start =>
      hrest origin start (hfirst origin start)⟩
  | .deny spelling column operand =>
    obtain ⟨⟨_, place⟩, back, rfl, rfl, hback⟩ := List.map_eq_cons_iff.mp htokens
    obtain ⟨operand', rfl, hoperand⟩ := operand.exists_moved hback
    refine ⟨.deny spelling place operand', rfl, fun origin start => ?_⟩
    simp only [Phrase.expr, Expr.unplaced, hoperand origin start]
  | .affirm operand =>
    obtain ⟨operand', rfl, hoperand⟩ := operand.exists_moved htokens
    exact ⟨.affirm operand', rfl, hoperand⟩
  | .negate column operand =>
    obtain ⟨⟨_, place⟩, back, rfl, rfl, hback⟩ := List.map_eq_cons_iff.mp htokens
    obtain ⟨operand', rfl, hoperand⟩ := operand.exists_moved hback
    refine ⟨.negate place operand', rfl, fun origin start => ?_⟩
    simp only [Phrase.expr, Expr.unplaced, hoperand origin start]
  | .keepSign operand =>
    obtain ⟨operand', rfl, hoperand⟩ := operand.exists_moved htokens
    exact ⟨.keepSign operand', rfl, hoperand⟩
  | .suffixed head suffixes =>
    rw [Phrase.tokens, List.map_append] at htokens
    obtain ⟨front, back, rfl, hfront, hback⟩ := List.map_eq_append_iff.mp htokens
    obtain ⟨head', rfl, hhead⟩ := head.exists_moved hfront
    obtain ⟨suffixes', rfl, hsuffixes⟩ := suffixes.exists_moved hback
    exact ⟨.suffixed head' suffixes', rfl, fun origin start =>
      hsuffixes origin start (hhead origin start)⟩
  | .number digits numeral column =>
    obtain ⟨⟨_, place⟩, rfl, rfl⟩ := List.map_eq_singleton_iff.mp htokens
    exact ⟨.number digits numeral place, rfl, fun _ _ => rfl⟩
  | .string value column =>
    obtain ⟨⟨_, place⟩, rfl, rfl⟩ := List.map_eq_singleton_iff.mp htokens
    exact ⟨.string value place, rfl, fun _ _ => rfl⟩
  | .yes spelling column =>
    obtain ⟨⟨_, place⟩, rfl, rfl⟩ := List.map_eq_singleton_iff.mp htokens
    exact ⟨.yes spelling place, rfl, fun _ _ => rfl⟩
  | .no spelling column =>
    obtain ⟨⟨_, place⟩, rfl, rfl⟩ := List.map_eq_singleton_iff.mp htokens
    exact ⟨.no spelling place, rfl, fun _ _ => rfl⟩
  | .name spelling column =>
    obtain ⟨⟨_, place⟩, rfl, rfl⟩ := List.map_eq_singleton_iff.mp htokens
    exact ⟨.name spelling place, rfl, fun _ _ => rfl⟩
  | .parentheses opened inner closed =>
    rw [Phrase.tokens, List.map_cons, List.map_append] at htokens
    obtain ⟨⟨_, place⟩, back, rfl, rfl, hback⟩ := List.map_eq_cons_iff.mp htokens
    obtain ⟨middle, last, rfl, hmiddle, hlast⟩ := List.map_eq_append_iff.mp hback
    obtain ⟨⟨_, final⟩, rfl, rfl⟩ := List.map_eq_singleton_iff.mp hlast
    obtain ⟨inner', rfl, hinner⟩ := inner.exists_moved hmiddle
    exact ⟨.parentheses place inner' final, rfl, hinner⟩
  | .emptyList opened closed =>
    obtain ⟨⟨_, place⟩, back, rfl, rfl, hback⟩ := List.map_eq_cons_iff.mp htokens
    obtain ⟨⟨_, final⟩, rfl, rfl⟩ := List.map_eq_singleton_iff.mp hback
    exact ⟨.emptyList place final, rfl, fun _ _ => rfl⟩
  | .list opened items closed =>
    rw [Phrase.tokens, List.map_cons, List.map_append] at htokens
    obtain ⟨⟨_, place⟩, back, rfl, rfl, hback⟩ := List.map_eq_cons_iff.mp htokens
    obtain ⟨middle, last, rfl, hmiddle, hlast⟩ := List.map_eq_append_iff.mp hback
    obtain ⟨⟨_, final⟩, rfl, rfl⟩ := List.map_eq_singleton_iff.mp hlast
    obtain ⟨items', rfl, hitems⟩ := items.exists_moved hmiddle
    refine ⟨.list place items' final, rfl, fun origin start => ?_⟩
    simp only [Phrase.expr, Expr.unplaced, hitems origin start]

theorem Links.exists_moved {level : Level} (links : Links level) {tokens : List Token}
    (htokens : tokens.map Token.lexeme = links.tokens.map Token.lexeme) :
    ∃ other : Links level, other.tokens = tokens ∧
      ∀ origin start {left before : Expr}, left.unplaced = before.unplaced →
        (other.expr origin left).unplaced = (links.expr start before).unplaced := by
  match links with
  | .done =>
    obtain rfl := List.map_eq_nil_iff.mp htokens
    exact ⟨.done, rfl, fun _ _ _ _ => id⟩
  | .more op token hspells operand rest =>
    rw [Links.tokens, List.map_cons, List.map_append] at htokens
    obtain ⟨place, back, rfl, hplace, hback⟩ := List.map_eq_cons_iff.mp htokens
    obtain ⟨middle, last, rfl, hmiddle, hlast⟩ := List.map_eq_append_iff.mp hback
    obtain ⟨operand', rfl, hoperand⟩ := operand.exists_moved hmiddle
    obtain ⟨rest', rfl, hrest⟩ := rest.exists_moved hlast
    refine ⟨.more op place (hplace ▸ hspells) operand' rest', rfl, ?_⟩
    intro origin start left before hleft
    apply hrest origin start
    cases op with
    | binary op | compare op =>
      simp only [Operator.apply, Expr.unplaced, hleft, hoperand origin start]

theorem Suffixes.exists_moved (suffixes : Suffixes) {tokens : List Token}
    (htokens : tokens.map Token.lexeme = suffixes.tokens.map Token.lexeme) :
    ∃ other : Suffixes, other.tokens = tokens ∧
      ∀ origin start {e before : Expr}, e.unplaced = before.unplaced →
        (other.expr origin e).unplaced = (suffixes.expr start before).unplaced := by
  match suffixes with
  | .done =>
    obtain rfl := List.map_eq_nil_iff.mp htokens
    exact ⟨.done, rfl, fun _ _ _ _ => id⟩
  | .member dot name column rest =>
    obtain ⟨⟨_, place⟩, back, rfl, rfl, hback⟩ := List.map_eq_cons_iff.mp htokens
    obtain ⟨⟨_, next⟩, last, rfl, rfl, hlast⟩ := List.map_eq_cons_iff.mp hback
    obtain ⟨rest', rfl, hrest⟩ := rest.exists_moved hlast
    refine ⟨.member place name next rest', rfl, ?_⟩
    intro origin start e before he
    apply hrest origin start
    simp only [Expr.unplaced, he]
  | .emptyCall opened closed rest =>
    obtain ⟨⟨_, place⟩, back, rfl, rfl, hback⟩ := List.map_eq_cons_iff.mp htokens
    obtain ⟨⟨_, final⟩, last, rfl, rfl, hlast⟩ := List.map_eq_cons_iff.mp hback
    obtain ⟨rest', rfl, hrest⟩ := rest.exists_moved hlast
    refine ⟨.emptyCall place final rest', rfl, ?_⟩
    intro origin start e before he
    apply hrest origin start
    simp only [Expr.unplaced, he]
  | .call opened arguments closed rest =>
    rw [Suffixes.tokens, List.map_cons, List.map_append] at htokens
    obtain ⟨⟨_, place⟩, back, rfl, rfl, hback⟩ := List.map_eq_cons_iff.mp htokens
    obtain ⟨middle, last, rfl, hmiddle, hlast⟩ := List.map_eq_append_iff.mp hback
    obtain ⟨⟨_, final⟩, more, rfl, rfl, hmore⟩ := List.map_eq_cons_iff.mp hlast
    obtain ⟨arguments', rfl, harguments⟩ := arguments.exists_moved hmiddle
    obtain ⟨rest', rfl, hrest⟩ := rest.exists_moved hmore
    refine ⟨.call place arguments' final rest', rfl, ?_⟩
    intro origin start e before he
    obtain ⟨hvalues, hnamed⟩ := harguments origin start
    apply hrest origin start
    simp only [Expr.unplaced, he, hvalues, hnamed]

theorem ArgumentList.exists_moved {taken : List Text} (arguments : ArgumentList taken)
    {tokens : List Token} (htokens : tokens.map Token.lexeme = arguments.tokens.map Token.lexeme) :
    ∃ other : ArgumentList taken, other.tokens = tokens ∧ ∀ origin start,
      unplacedAll (other.values origin) = unplacedAll (arguments.values start) ∧
      unplacedNamed (other.namedValues origin) = unplacedNamed (arguments.namedValues start) := by
  match arguments with
  | .positional value rest =>
    rw [ArgumentList.tokens, List.map_append] at htokens
    obtain ⟨front, back, rfl, hfront, hback⟩ := List.map_eq_append_iff.mp htokens
    obtain ⟨value', rfl, hvalue⟩ := value.exists_moved hfront
    obtain ⟨rest', rfl, hrest⟩ := rest.exists_moved hback
    refine ⟨.positional value' rest', rfl, fun origin start => ?_⟩
    obtain ⟨hvalues, hnamed⟩ := hrest origin start
    simp only [ArgumentList.values, ArgumentList.namedValues, unplacedAll, hvalue origin start,
      hvalues, hnamed, and_self]
  | .named key column sign hfresh value rest =>
    rw [ArgumentList.tokens, List.map_cons, List.map_cons, List.map_append] at htokens
    obtain ⟨⟨_, place⟩, back, rfl, rfl, hback⟩ := List.map_eq_cons_iff.mp htokens
    obtain ⟨⟨_, next⟩, last, rfl, rfl, hlast⟩ := List.map_eq_cons_iff.mp hback
    obtain ⟨middle, more, rfl, hmiddle, hmore⟩ := List.map_eq_append_iff.mp hlast
    obtain ⟨value', rfl, hvalue⟩ := value.exists_moved hmiddle
    obtain ⟨rest', rfl, hrest⟩ := rest.exists_moved hmore
    refine ⟨.named key place next hfresh value' rest', rfl, fun origin start => ?_⟩
    obtain ⟨hvalues, hnamed⟩ := hrest origin start
    simp only [ArgumentList.values, ArgumentList.namedValues, unplacedNamed, hvalue origin start,
      hvalues, hnamed, and_self]

theorem ArgumentTail.exists_moved {taken : List Text} (tail : ArgumentTail taken)
    {tokens : List Token} (htokens : tokens.map Token.lexeme = tail.tokens.map Token.lexeme) :
    ∃ other : ArgumentTail taken, other.tokens = tokens ∧ ∀ origin start,
      unplacedAll (other.values origin) = unplacedAll (tail.values start) ∧
      unplacedNamed (other.namedValues origin) = unplacedNamed (tail.namedValues start) := by
  match tail with
  | .done =>
    obtain rfl := List.map_eq_nil_iff.mp htokens
    exact ⟨.done, rfl, fun _ _ => ⟨rfl, rfl⟩⟩
  | .comma column =>
    obtain ⟨⟨_, place⟩, rfl, rfl⟩ := List.map_eq_singleton_iff.mp htokens
    exact ⟨.comma place, rfl, fun _ _ => ⟨rfl, rfl⟩⟩
  | .more column rest =>
    obtain ⟨⟨_, place⟩, back, rfl, rfl, hback⟩ := List.map_eq_cons_iff.mp htokens
    obtain ⟨rest', rfl, hrest⟩ := rest.exists_moved hback
    exact ⟨.more place rest', rfl, hrest⟩

theorem ItemList.exists_moved (items : ItemList) {tokens : List Token}
    (htokens : tokens.map Token.lexeme = items.tokens.map Token.lexeme) :
    ∃ other : ItemList, other.tokens = tokens ∧ ∀ origin start,
      unplacedAll (other.exprs origin) = unplacedAll (items.exprs start) := by
  match items with
  | .item value rest =>
    rw [ItemList.tokens, List.map_append] at htokens
    obtain ⟨front, back, rfl, hfront, hback⟩ := List.map_eq_append_iff.mp htokens
    obtain ⟨value', rfl, hvalue⟩ := value.exists_moved hfront
    obtain ⟨rest', rfl, hrest⟩ := rest.exists_moved hback
    refine ⟨.item value' rest', rfl, fun origin start => ?_⟩
    simp only [ItemList.exprs, unplacedAll, hvalue origin start, hrest origin start]
  | .range first colon last rest =>
    rw [ItemList.tokens, List.map_append, List.map_cons, List.map_append] at htokens
    obtain ⟨front, back, rfl, hfront, hback⟩ := List.map_eq_append_iff.mp htokens
    obtain ⟨⟨_, place⟩, more, rfl, rfl, hmore⟩ := List.map_eq_cons_iff.mp hback
    obtain ⟨middle, end_, rfl, hmiddle, hend⟩ := List.map_eq_append_iff.mp hmore
    obtain ⟨first', rfl, hfirst⟩ := first.exists_moved hfront
    obtain ⟨last', rfl, hlast⟩ := last.exists_moved hmiddle
    obtain ⟨rest', rfl, hrest⟩ := rest.exists_moved hend
    refine ⟨.range first' place last' rest', rfl, fun origin start => ?_⟩
    simp only [ItemList.exprs, unplacedAll, Expr.unplaced, hfirst origin start, hlast origin start,
      hrest origin start]

theorem ItemTail.exists_moved (tail : ItemTail) {tokens : List Token}
    (htokens : tokens.map Token.lexeme = tail.tokens.map Token.lexeme) :
    ∃ other : ItemTail, other.tokens = tokens ∧ ∀ origin start,
      unplacedAll (other.exprs origin) = unplacedAll (tail.exprs start) := by
  match tail with
  | .done =>
    obtain rfl := List.map_eq_nil_iff.mp htokens
    exact ⟨.done, rfl, fun _ _ => rfl⟩
  | .comma column =>
    obtain ⟨⟨_, place⟩, rfl, rfl⟩ := List.map_eq_singleton_iff.mp htokens
    exact ⟨.comma place, rfl, fun _ _ => rfl⟩
  | .more column rest =>
    obtain ⟨⟨_, place⟩, back, rfl, rfl, hback⟩ := List.map_eq_cons_iff.mp htokens
    obtain ⟨rest', rfl, hrest⟩ := rest.exists_moved hback
    exact ⟨.more place rest', rfl, hrest⟩

end

def Means (lexemes : List Lexeme) (e : Expr) : Prop :=
  ∃ phrase : Phrase .disjunction, phrase.tokens.map Token.lexeme = lexemes ∧
    (phrase.expr ⟨1, 1⟩).unplaced = e.unplaced

theorem exists_parseExpr_iff {origin : Location} {e : Expr} :
    (∃ read, parseExpr origin text = .ok read ∧ read.unplaced = e.unplaced) ↔
      ∃ lexemes, lexemes? text = some lexemes ∧ Means lexemes e := by
  constructor
  · rintro ⟨read, hread, hsame⟩
    obtain ⟨tokens, last, htokens, phrase, hphrase, rfl⟩ := parseExpr_eq_ok_iff.mp hread
    obtain ⟨before, column, heq, hlexemes⟩ := tokenize_eq_ok htokens
    obtain ⟨rfl, -⟩ := List.append_inj' heq rfl
    obtain ⟨other, hother, hmeans⟩ := phrase.exists_moved rfl
    refine ⟨_, hlexemes, other, by rw [hother, hphrase], ?_⟩
    rw [hmeans ⟨1, 1⟩ origin, hsame]
  · rintro ⟨lexemes, hlexemes, phrase, hphrase, hsame⟩
    obtain ⟨before, last, htokens, hmap⟩ := exists_tokenize hlexemes 0
    obtain ⟨other, hother, hmeans⟩ := phrase.exists_moved (hmap.trans hphrase.symm)
    refine ⟨other.expr origin, ?_, ?_⟩
    · exact parseExpr_eq_ok_iff.mpr ⟨before, last, htokens, other, hother, rfl⟩
    · rw [hmeans origin ⟨1, 1⟩, hsame]

end Folio.Source
