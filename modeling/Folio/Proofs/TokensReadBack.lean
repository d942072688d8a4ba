import Folio.Proofs.TokenPieces

/-!
# Tokens written back

The pieces of its tokens cover a text up to the blanks in it.  A token is
written back as the piece that it was read from, and a string in either kind of
quotes.  With a blank between them, the tokens are read again as they were.
-/

namespace Folio.Source

open Text

variable {value text rest piece : Text} {column more : Nat} {tokens : List Token}
  {lexeme : Lexeme} {c quote : Char}

/-! ## Pieces of a text -/

theorem columns_increase (htokens : tokenize column text = .ok tokens) :
    (tokens.map Token.column).Pairwise (· < ·) := by
  fun_induction tokenize column text generalizing tokens with
  | case1 column =>
    cases htokens
    exact List.pairwise_singleton _ _
  | case2 column c rest hspace ih => exact ih htokens
  | case3 | case4 => cases htokens
  | case5 column c rest hspace lexeme more hread tokens htail ih =>
    cases htokens
    refine List.pairwise_cons.mpr ⟨?_, ih htail⟩
    intro other hother
    obtain ⟨token, htoken, rfl⟩ := List.mem_map.mp hother
    have := le_column_of_tokenize htail token htoken
    change column < token.column
    omega

/-- Only strings are not written as their values. -/
theorem Spelled.eq_value (hspelled : Spelled lexeme piece)
    (hstring : ∀ value, lexeme ≠ .string value) : piece = lexeme.value := by
  cases hspelled with
  | symbol | number => rfl
  | @word c more _ _ =>
    rcases wordLexeme_cases (c :: more) with hname | ⟨keyword, hkeyword⟩
    · rw [hname, Lexeme.value]
    · rw [hkeyword, Lexeme.value]
  | string => exact absurd rfl (hstring _)

theorem slice_eq_value {token : Token} (htokens : tokenize 0 text = .ok tokens)
    (htoken : token ∈ tokens) (hstring : ∀ value, token.lexeme ≠ .string value) :
    slice text token.column (token.column + token.lexeme.value.length) = token.lexeme.value := by
  by_cases hmark : token.lexeme = .finish
  · simp [hmark, Lexeme.value, slice]
  · obtain ⟨before, after, hsplit⟩ := List.append_of_mem htoken
    obtain ⟨lead, piece, rest, rfl, hcolumn, hspelled, -, -⟩ :=
      exists_piece htokens hsplit hmark
    rw [← hspelled.eq_value hstring, hcolumn, Nat.zero_add, slice, List.drop_left,
      Nat.add_sub_cancel_left, List.take_left]

/-- What is in no piece is blank. -/
theorem covers_or_blank (htokens : tokenize column text = .ok tokens) {i : Nat}
    (hi : text[i]? = some c) : isSpace c = true ∨ ∃ token ∈ tokens, ∃ lead piece rest,
      text = lead ++ (piece ++ rest) ∧ token.column = column + lead.length ∧
        Spelled token.lexeme piece ∧ lead.length ≤ i ∧ i < lead.length + piece.length := by
  fun_induction tokenize column text generalizing tokens i with
  | case1 column => simp at hi
  | case2 column d rest hspace ih =>
    cases i with
    | zero =>
      obtain rfl : d = c := by simpa using hi
      exact .inl hspace
    | succ i =>
      refine (ih htokens (by simpa using hi)).imp_right ?_
      rintro ⟨token, htoken, lead, piece, behind, rfl, hcolumn, hspelled, hleast, hmost⟩
      exact ⟨token, htoken, d :: lead, piece, behind, rfl,
        by rw [hcolumn, List.length_cons]; omega, hspelled, Nat.succ_le_succ hleast,
        by rw [List.length_cons]; omega⟩
  | case3 | case4 => cases htokens
  | case5 column d rest hspace lexeme more hread tokens htail ih =>
    cases htokens
    have hcut := cut_of_readLexeme hread
    have hpiece : d :: rest = d :: rest.take more ++ rest.drop more := by simp
    have hlength : (d :: rest.take more).length = 1 + more := by
      rw [List.length_cons, List.length_take, min_eq_left hcut.piece.1, Nat.add_comm]
    by_cases hinside : i < 1 + more
    · exact .inr ⟨_, .head _, [], _, _, hpiece, rfl, hcut.spelled, Nat.zero_le i,
        by rw [hlength]; exact Nat.lt_add_left _ hinside⟩
    · obtain ⟨j, rfl⟩ : ∃ j, i = 1 + more + j := ⟨i - (1 + more), by omega⟩
      rw [hpiece, ← hlength, List.getElem?_append_right (Nat.le_add_right _ _),
        Nat.add_sub_cancel_left] at hi
      refine (ih htail hi).imp_right ?_
      rintro ⟨token, htoken, lead, piece, behind, hrest, hcolumn, hspelled, hleast, hmost⟩
      refine ⟨token, .tail _ htoken, d :: rest.take more ++ lead, piece, behind, ?_, ?_, hspelled,
        ?_, ?_⟩
      · rw [List.append_assoc, ← hrest]
        exact hpiece
      all_goals
        rw [List.length_append, hlength]
        omega

/-! ## Strings in quotes -/

/-- A string in quotes, with the quote and the backslash escaped. -/
def quotedIn (quote : Char) (value : Text) : Text :=
  quote :: (value.flatMap (fun c => if c = '\\' ∨ c = quote then ['\\', c] else [c]) ++ [quote])

def IsQuote (quote : Char) : Prop :=
  quote = '\'' ∨ quote = '"'

theorem IsQuote.ne_escape (hquote : IsQuote quote) : quote ≠ '\\' := by
  rcases hquote with rfl | rfl <;> decide

theorem IsQuote.not_space (hquote : IsQuote quote) : ¬isSpace quote = true := by
  rcases hquote with rfl | rfl <;> decide

theorem literal_quotedIn (hquote : IsQuote quote) (value : Text) :
    Literal quote (quotedIn quote value).tail value := by
  induction value with
  | nil => exact .close
  | cons c value ih =>
    rw [quotedIn, List.flatMap_cons, List.tail_cons, List.append_assoc]
    split
    · rename_i hescaped
      have hkept : unescape c = c := by
        rcases hescaped with rfl | rfl
        · rfl
        · rcases hquote with rfl | rfl <;> rfl
      have hliteral := Literal.escape c ih
      rwa [hkept] at hliteral
    · rename_i hplain
      obtain ⟨hescape, hinside⟩ := not_or.mp hplain
      exact .plain hescape hinside ih

/-- A literal is read as what it stands for. -/
theorem Literal.readString_eq {body : Text} (hliteral : Literal quote body value)
    (hquote : quote ≠ '\\') (read rest : Text) (used : Nat) :
    readString quote read used (body ++ rest) =
      .ok (read.reverse ++ value, used + body.length) := by
  induction hliteral generalizing read used with
  | close =>
    rw [List.singleton_append, readString_cons hquote, if_pos (beq_self_eq_true quote),
      List.append_nil]
    rfl
  | escape c _ ih =>
    rw [List.cons_append, List.cons_append, readString, ih, List.reverse_cons, List.append_assoc,
      List.length_cons, List.length_cons, Nat.add_assoc, Nat.add_comm 2]
    rfl
  | plain hunescaped hinside _ ih =>
    rw [List.cons_append, readString_cons hunescaped, if_neg (by simpa using hinside), ih,
      List.reverse_cons, List.append_assoc, List.length_cons, Nat.add_assoc, Nat.add_comm 1]
    rfl

theorem readLexeme_quotedIn (hquote : IsQuote quote) (value : Text) :
    readLexeme quote (quotedIn quote value).tail =
      .ok (.string value, (quotedIn quote value).tail.length) := by
  have hread := (literal_quotedIn hquote value).readString_eq hquote.ne_escape [] [] 0
  rw [List.append_nil, Nat.zero_add] at hread
  have hpair : (quotedIn quote value).tail.head?.bind (Symbol.ofPair? quote) = none := by
    rcases hquote with rfl | rfl <;> cases (quotedIn _ value).tail <;> rfl
  have hrest : Symbol.ofChar? quote = none ∧ isDigit quote = false ∧
      (quote == '\'' || quote == '"') = true := by
    rcases hquote with rfl | rfl <;> exact ⟨rfl, by decide, rfl⟩
  unfold readLexeme
  rw [hpair, hrest.1]
  simp only [hrest.2, hread, Bool.false_eq_true, if_false, if_true]
  rfl

/-! ## Reading again -/

/-- How a lexeme is written: a string in quotes, and anything else as it is. -/
def Lexeme.written (quote : Char) : Lexeme → Text
  | .string value => quotedIn quote value
  | lexeme => lexeme.value

/-- A lexeme that is no string is read again from its piece alone. -/
theorem readLexeme_take (hread : readLexeme c rest = .ok (lexeme, more))
    (hstring : ∀ value, lexeme ≠ .string value) :
    readLexeme c (rest.take more) = .ok (lexeme, more) := by
  unfold readLexeme at hread
  split at hread
  · rename_i symbol hpair
    cases hread
    rw [readLexeme, List.head?_take, if_neg one_ne_zero, hpair]
  · rename_i halone
    have halone' (k : Nat) : (rest.take k).head?.bind (Symbol.ofPair? c) = none := by
      rw [List.head?_take]
      split
      · rfl
      · exact halone
    rw [readLexeme, halone']
    split at hread
    · cases hread
      rfl
    · split at hread
      · rename_i hdigit
        cases hread
        rw [if_pos hdigit, take_length_takeWhile, List.takeWhile_idem]
      · rename_i hdigit
        rw [if_neg hdigit]
        split at hread
        · cases hvalue : readString c [] 0 rest with
          | error reason =>
            rw [hvalue] at hread
            cases hread
          | ok read =>
            rw [hvalue] at hread
            cases hread
            exact absurd rfl (hstring read.1)
        · rename_i hquote
          rw [if_neg hquote]
          split at hread
          · rename_i hstart
            cases hread
            rw [if_pos hstart, take_length_takeWhile, List.takeWhile_idem]
          · cases hread

theorem lexemes?_written (hspace : ¬isSpace c = true) (hquote : IsQuote quote)
    (hread : readLexeme c rest = .ok (lexeme, more)) :
    lexemes? (lexeme.written quote) = some [lexeme] ∧ EndsOutside (lexeme.written quote) := by
  have hpiece {first : Char} {body : Text} (hfirst : ¬isSpace first = true)
      (hbody : readLexeme first body = .ok (lexeme, body.length)) :
      lexemes? (first :: body) = some [lexeme] ∧ EndsOutside (first :: body) := by
    have hends := (cut_of_readLexeme hbody).piece.2
    rw [List.take_length] at hends
    rw [lexemes?_of_ok hfirst hbody, List.drop_length, lexemes?_nil]
    exact ⟨rfl, hends⟩
  by_cases hstring : ∃ value, lexeme = .string value
  · obtain ⟨value, rfl⟩ := hstring
    exact hpiece hquote.not_space (readLexeme_quotedIn hquote value)
  · have hcut := cut_of_readLexeme hread
    have hvalue := not_exists.mp hstring
    have hwritten : lexeme.written quote = lexeme.value := by
      cases lexeme with
      | string value => exact absurd rfl (hvalue value)
      | _ => rfl
    rw [hwritten, ← hcut.spelled.eq_value hvalue]
    refine hpiece hspace ?_
    rw [List.length_take, min_eq_left hcut.piece.1]
    exact readLexeme_take hread hvalue

/-- Tokens with blanks between them, each string in the quotes chosen for it. -/
def writtenTokens (quote : Token → Char) (tokens : List Token) : Text :=
  joinWith [' '] (tokens.map fun token => token.lexeme.written (quote token))

theorem lexemes?_writtenTokens {quote : Token → Char} (hquote : ∀ token, IsQuote (quote token))
    (htokens : tokenize column text = .ok tokens) :
    ∃ before last, tokens = before ++ [⟨.finish, last⟩] ∧
      lexemes? (writtenTokens quote tokens) = some (before.map Token.lexeme) := by
  fun_induction tokenize column text generalizing tokens with
  | case1 column =>
    cases htokens
    exact ⟨[], column, rfl, rfl⟩
  | case2 column c rest hspace ih => exact ih htokens
  | case3 | case4 => cases htokens
  | case5 column c rest hspace lexeme more hread tokens htail ih =>
    cases htokens
    obtain ⟨before, last, rfl, hlexemes⟩ := ih htail
    obtain ⟨hfirst, hends⟩ := lexemes?_written hspace (hquote ⟨lexeme, column⟩) hread
    refine ⟨⟨lexeme, column⟩ :: before, last, rfl, ?_⟩
    have hjoined : writtenTokens quote (⟨lexeme, column⟩ :: (before ++ [⟨.finish, last⟩])) =
        lexeme.written (quote ⟨lexeme, column⟩) ++
          ' ' :: writtenTokens quote (before ++ [⟨.finish, last⟩]) := by
      cases before <;> simp [writtenTokens, joinWith, List.intercalate]
    rw [hjoined, lexemes?_append hends (by decide), hfirst, hlexemes]
    rfl

/-- The columns of tokens increase.  A token that is no string is the slice of the
text at its column, and what is in the piece of no token is blank.  Written with
blanks between them, the tokens are read again as they were; and any string is
what its literal is read as. -/
theorem tokens_read_back {text : Text} {tokens : List Token}
    (htokens : tokenize 0 text = .ok tokens) :
    (tokens.map Token.column).Pairwise (· < ·) ∧
      (∀ token ∈ tokens, (∀ value, token.lexeme ≠ .string value) →
        slice text token.column (token.column + token.lexeme.value.length) =
          token.lexeme.value) ∧
      (∀ i c, text[i]? = some c → (∀ token ∈ tokens, ¬token.Covers text i) →
        isSpace c = true) ∧
      (∀ quote : Token → Char, (∀ token, IsQuote (quote token)) →
        ∃ again, tokenize 0 (writtenTokens quote tokens) = .ok again ∧
          again.map Token.lexeme = tokens.map Token.lexeme) ∧
      ∀ (value : Text) (quote : Char), IsQuote quote →
        tokenize 0 (quotedIn quote value) =
          .ok [⟨.string value, 0⟩, ⟨.finish, (quotedIn quote value).length⟩] := by
  refine ⟨columns_increase htokens, fun token => slice_eq_value htokens, ?_, ?_, ?_⟩
  · intro i c hi hnone
    refine (covers_or_blank htokens hi).resolve_right ?_
    rintro ⟨token, htoken, lead, piece, rest, htext, hcolumn, hspelled, hleast, hmost⟩
    rw [Nat.zero_add] at hcolumn
    exact hnone token htoken ⟨lead, piece, rest, htext, hcolumn.symm, hspelled,
      hcolumn ▸ hleast, hcolumn ▸ hmost⟩
  · intro quote hquote
    obtain ⟨before, last, rfl, hlexemes⟩ := lexemes?_writtenTokens hquote htokens
    obtain ⟨again, final, hagain, hsame⟩ := exists_tokenize hlexemes 0
    refine ⟨_, hagain, ?_⟩
    rw [List.map_append, List.map_append, hsame]
    rfl
  · intro value quote hquote
    have hread := readLexeme_quotedIn hquote value
    rw [quotedIn, List.tail_cons] at hread
    rw [quotedIn, tokenize, if_neg hquote.not_space, hread]
    dsimp only
    rw [List.drop_length, tokenize, List.length_cons, Nat.zero_add, Nat.add_comm 1]

/-- Tokens without blanks between them, and a string with quotes and escapes. -/
def closeTokens : Text :=
  "not a>=0²['\\x\\'\"\\\\']".toList

theorem closeTokens_read_back :
    ∃ tokens, tokenize 0 closeTokens = .ok tokens ∧
      ⟨.string "x'\"\\".toList, 10⟩ ∈ tokens ∧
      (tokens.map Token.column).Pairwise (· < ·) ∧
      ∃ again, tokenize 0 (writtenTokens (fun _ => '"') tokens) = .ok again ∧
        again.map Token.lexeme = tokens.map Token.lexeme := by
  have hstring : (tokenize 0 closeTokens).toOption.map
      (·.contains ⟨.string "x'\"\\".toList, 10⟩) = some true := by
    decide +kernel
  cases htokens : tokenize 0 closeTokens with
  | error flaw =>
    rw [htokens] at hstring
    cases hstring
  | ok tokens =>
    rw [htokens] at hstring
    obtain ⟨hcolumns, -, -, hagain, -⟩ := tokens_read_back htokens
    exact ⟨tokens, rfl, List.contains_iff_mem.mp (Option.some.inj hstring), hcolumns,
      hagain (fun _ => '"') fun _ => .inr rfl⟩

end Folio.Source
