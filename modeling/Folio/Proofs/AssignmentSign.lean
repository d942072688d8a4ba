import Folio.Proofs.BlockReading
import Folio.Proofs.LexemeSequence

/-!
# The sign of an assignment

A statement without a block is cut at the sign of an assignment before its
lexemes are looked at.  The cut agrees with the lexemes: an assignment has a
name and the sign as its first lexemes, and an expression has the sign inside
brackets only, where arguments have names.
-/

namespace Folio.Source

variable {depth i : Nat} {rest text : Text} {c : Char} {symbol : Symbol}

variable {content name value : Text}

/-! ## Signs in brackets -/

/-- The depth of brackets after a lexeme.  There is none if the lexeme closes a
bracket that is not open, or is the sign of an assignment outside brackets. -/
def Lexeme.enclose : Lexeme → Nat → Option Nat
  | .symbol .openParen, depth => some (depth + 1)
  | .symbol .openBracket, depth => some (depth + 1)
  | .symbol .closeParen, 0 => none
  | .symbol .closeParen, depth + 1 => some depth
  | .symbol .closeBracket, 0 => none
  | .symbol .closeBracket, depth + 1 => some depth
  | .symbol .assign, 0 => none
  | _, depth => some depth

def enclosed (depth : Nat) : List Lexeme → Option Nat
  | [] => some depth
  | lexeme :: rest => (lexeme.enclose depth).bind fun depth => enclosed depth rest

theorem enclosed_append (depth : Nat) (lexemes others : List Lexeme) :
    enclosed depth (lexemes ++ others) =
      (enclosed depth lexemes).bind fun depth => enclosed depth others := by
  induction lexemes generalizing depth with
  | nil => rfl
  | cons lexeme lexemes ih =>
    rw [List.cons_append, enclosed, enclosed]
    cases lexeme.enclose depth with
    | none => rfl
    | some depth => exact ih depth

theorem Spells.enclose {level : Level} {lexeme : Lexeme} {op : Operator}
    (hspells : Spells level lexeme op) (depth : Nat) : lexeme.enclose depth = some depth := by
  cases hspells <;> rfl

/-- The lexemes of tokens keep the depth of brackets that they start at. -/
def Keeps (depth : Nat) (tokens : List Token) : Prop :=
  enclosed depth (tokens.map Token.lexeme) = some depth

theorem Keeps.append {tokens others : List Token} (htokens : Keeps depth tokens)
    (hothers : Keeps depth others) : Keeps depth (tokens ++ others) := by
  rw [Keeps, List.map_append, enclosed_append, htokens]
  exact hothers

theorem Keeps.cons {depth : Nat} {token : Token} {tokens : List Token}
    (htoken : token.lexeme.enclose depth = some depth)
    (htokens : Keeps depth tokens) : Keeps depth (token :: tokens) := by
  rw [Keeps, List.map_cons, enclosed, htoken]
  exact htokens

theorem Keeps.within {opening closing : Token} {tokens rest : List Token}
    (hopening : opening.lexeme.enclose depth = some (depth + 1))
    (htokens : Keeps (depth + 1) tokens)
    (hclosing : closing.lexeme.enclose (depth + 1) = some depth) (hrest : Keeps depth rest) :
    Keeps depth (opening :: (tokens ++ closing :: rest)) := by
  rw [Keeps, List.map_cons, List.map_append, enclosed, hopening, Option.bind_some, enclosed_append,
    htokens, Option.bind_some, List.map_cons, enclosed, hclosing]
  exact hrest

mutual

theorem Phrase.keeps {level : Level} (phrase : Phrase level) (depth : Nat) :
    Keeps depth phrase.tokens := by
  match phrase with
  | .row _ first rest => exact (first.keeps depth).append (rest.keeps depth)
  | .deny _ _ operand | .negate _ operand => exact .cons rfl (operand.keeps depth)
  | .affirm operand | .keepSign operand => exact operand.keeps depth
  | .suffixed head suffixes => exact (head.keeps depth).append (suffixes.keeps depth)
  | .number _ _ _ | .string _ _ | .yes _ _ | .no _ _ | .name _ _ => rfl
  | .parentheses _ inner _ => exact .within rfl (inner.keeps _) rfl rfl
  | .emptyList _ _ => rfl
  | .list _ items _ => exact .within rfl (items.keeps _) rfl rfl

theorem Links.keeps {level : Level} (links : Links level) (depth : Nat) :
    Keeps depth links.tokens := by
  match links with
  | .done => rfl
  | .more _ _ hspells operand rest =>
    exact .cons (hspells.enclose depth) ((operand.keeps depth).append (rest.keeps depth))

theorem Suffixes.keeps (suffixes : Suffixes) (depth : Nat) : Keeps depth suffixes.tokens := by
  match suffixes with
  | .done => rfl
  | .member _ _ _ rest => exact .cons rfl (.cons rfl (rest.keeps depth))
  | .emptyCall _ _ rest =>
    exact .within rfl (show Keeps (depth + 1) [] from rfl) rfl (rest.keeps depth)
  | .call _ arguments _ rest => exact .within rfl (arguments.keeps depth) rfl (rest.keeps depth)

theorem ArgumentList.keeps {taken : List Text} (arguments : ArgumentList taken)
    (depth : Nat) : Keeps (depth + 1) arguments.tokens := by
  match arguments with
  | .positional value rest => exact (value.keeps _).append (rest.keeps depth)
  | .named _ _ _ _ value rest =>
    exact .cons rfl (.cons rfl ((value.keeps _).append (rest.keeps depth)))

theorem ArgumentTail.keeps {taken : List Text} (tail : ArgumentTail taken)
    (depth : Nat) : Keeps (depth + 1) tail.tokens := by
  match tail with
  | .done | .comma _ => rfl
  | .more _ rest => exact .cons rfl (rest.keeps depth)

theorem ItemList.keeps (items : ItemList) (depth : Nat) : Keeps depth items.tokens := by
  match items with
  | .item value rest => exact (value.keeps depth).append (rest.keeps depth)
  | .range first _ last rest =>
    exact (first.keeps depth).append (.cons rfl ((last.keeps depth).append (rest.keeps depth)))

theorem ItemTail.keeps (tail : ItemTail) (depth : Nat) : Keeps depth tail.tokens := by
  match tail with
  | .done | .comma _ => rfl
  | .more _ rest => exact .cons rfl (rest.keeps depth)

end

theorem Means.enclosed {lexemes : List Lexeme} {e : Expr}
    (hmeans : Means lexemes e) : Source.enclosed 0 lexemes = some 0 := by
  obtain ⟨phrase, rfl, -⟩ := hmeans
  exact phrase.keeps 0

/-! ## Scans and lexemes -/

/-- Characters that mean nothing to the search for the sign. -/
structure Plain (c : Char) : Prop where
  unmarked : Unmarked c
  flat : bracketChange c = 0
  apart : comparesBefore c = false

theorem Plain.of_isWordChar (hword : isWordChar c = true) : Plain c := by
  obtain ⟨hmark, hflat, -⟩ := scan_wordChar hword
  refine ⟨hmark, hflat, ?_⟩
  simp only [comparesBefore, Bool.or_eq_false_iff, beq_eq_false_iff_ne]
  refine ⟨⟨⟨?_, ?_⟩, ?_⟩, ?_⟩ <;> exact ne_of_isWordChar hword (by decide) (by decide)

theorem Plain.of_isSpace (hspace : Text.isSpace c = true) : Plain c := by
  have hne : ∀ d, Text.isSpace d = false → c ≠ d := by
    rintro d hd rfl
    rw [hspace] at hd
    cases hd
  refine ⟨unmarked_of_isSpace hspace, ?_, ?_⟩
  · unfold bracketChange
    split
    · exact absurd rfl (hne _ (by decide))
    · exact absurd rfl (hne _ (by decide))
    · exact absurd rfl (hne _ (by decide))
    · exact absurd rfl (hne _ (by decide))
    · rfl
  · simp only [comparesBefore, Bool.or_eq_false_iff, beq_eq_false_iff_ne]
    refine ⟨⟨⟨?_, ?_⟩, ?_⟩, ?_⟩ <;> exact hne _ (by decide)

theorem Plain.ne_assign (hplain : Plain c) : c ≠ '=' := by
  rintro rfl
  exact absurd hplain.apart (by decide)

theorem assignmentFrom_cons_of_ne (hc : c ≠ '=') (rest : Text) (i : Nat) (before : Option Char)
    (depth : Nat) : assignmentFrom i before depth .outside (c :: rest) =
      assignmentFrom (i + 1) (some c) (deepen depth c) (Quoting.outside.step c) rest := by
  simp [assignmentFrom, hc]

theorem assignmentFrom_plain (htext : ∀ c ∈ text, Plain c) (rest : Text) (i : Nat)
    (before : Option Char) (depth : Nat) : ∃ last,
      (before.any comparesBefore = false → last.any comparesBefore = false) ∧
      assignmentFrom i before depth .outside (text ++ rest) =
        assignmentFrom (i + text.length) last depth .outside rest := by
  induction text generalizing i before with
  | nil => exact ⟨before, id, rfl⟩
  | cons c text ih =>
    obtain ⟨hc, htext⟩ := List.forall_mem_cons.mp htext
    have hdepth : deepen depth c = depth := by simp [deepen, hc.flat]
    obtain ⟨last, hlast, hscan⟩ := ih htext (i + 1) (some c)
    refine ⟨last, fun _ => hlast hc.apart, ?_⟩
    rw [List.cons_append, assignmentFrom_cons_of_ne hc.ne_assign, hdepth,
      Quoting.step_outside hc.unmarked, hscan, List.length_cons]
    congr 1
    omega

theorem enclose_of_ofChar? (hspells : Symbol.ofChar? c = some symbol) (hc : c ≠ '=') (depth : Nat) :
    (Lexeme.symbol symbol).enclose depth = none ∨
      (Lexeme.symbol symbol).enclose depth = some (deepen depth c) := by
  have hopen : ∀ n : Nat, ((n : Int) + 1 + 1).toNat = n + 1 + 1 := by
    intro n
    omega
  unfold Symbol.ofChar? at hspells
  split at hspells <;> cases hspells <;> cases depth <;>
    simp_all [Lexeme.enclose, deepen, bracketChange]

theorem enclose_of_ofPair? {d : Char} (hspells : Symbol.ofPair? c d = some symbol) (depth : Nat) :
    (Lexeme.symbol symbol).enclose depth = some depth := by
  unfold Symbol.ofPair? at hspells
  split at hspells <;> cases hspells <;> rfl

theorem enclose_wordLexeme (word : Text) (depth : Nat) :
    (wordLexeme word).enclose depth = some depth := by
  rcases wordLexeme_cases word with hname | ⟨keyword, hkeyword⟩
  · rw [hname]
    rfl
  · rw [hkeyword]
    rfl

theorem assignmentFrom_run {p : Char → Bool} (hp : ∀ c, p c = true → isWordChar c = true)
    (hc : isWordChar c = true) (rest : Text) (i : Nat) (before : Option Char) (depth : Nat) :
    ∃ j last, assignmentFrom i before depth .outside (c :: rest) =
      assignmentFrom j last depth .outside (rest.drop (rest.takeWhile p).length) := by
  have hplain : ∀ d ∈ c :: rest.takeWhile p, Plain d := by
    intro d hd
    rcases List.mem_cons.mp hd with rfl | hd
    · exact .of_isWordChar hc
    · exact .of_isWordChar (hp d (List.mem_takeWhile_imp hd))
  obtain ⟨last, -, hscan⟩ := assignmentFrom_plain hplain
    (rest.drop (rest.takeWhile p).length) i before depth
  rw [List.cons_append, takeWhile_append_drop] at hscan
  exact ⟨_, last, hscan⟩

theorem assignmentFrom_pair {d : Char} (hspells : Symbol.ofPair? c d = some symbol) (rest : Text)
    (i : Nat) (before : Option Char)
    (depth : Nat) : assignmentFrom i before depth .outside (c :: d :: rest) =
      assignmentFrom (i + 2) (some d) depth .outside rest := by
  obtain ⟨hcompares, hmark, rfl⟩ := unmarked_of_ofPair? hspells
  have hflat : bracketChange c = 0 := by
    unfold Symbol.ofPair? at hspells
    split at hspells <;> simp_all [bracketChange]
  have hdeepen : deepen depth c = depth := by simp [deepen, hflat]
  have hsign : deepen depth '=' = depth := by simp [deepen, bracketChange]
  have hstep : Quoting.outside.step '=' = .outside := rfl
  simp [assignmentFrom, hcompares, Quoting.step_outside hmark, hstep, hdeepen, hsign]

theorem enclosed_eq_none {j : Nat} {before : Option Char} {lexemes : List Lexeme}
    (hfound : assignmentFrom i before depth .outside text = some j)
    (hlexemes : lexemes? text = some lexemes) : enclosed depth lexemes = none := by
  have hcut := cutInto_of_lexemes hlexemes
  clear hlexemes
  induction hcut generalizing i before depth with
  | nil => cases hfound
  | @blank c rest _ hspace _ ih =>
    have hplain : ∀ d ∈ [c], Plain d := by simpa using Plain.of_isSpace hspace
    obtain ⟨last, -, hscan⟩ := assignmentFrom_plain hplain rest i before depth
    exact ih (hscan.symm.trans hfound)
  | @lexeme c rest lexeme more others _ hread _ _ ih =>
    rw [enclosed]
    cases cut_of_readLexeme hread with
    | pair hnext hspells =>
      subst hnext
      rw [assignmentFrom_pair hspells] at hfound
      rw [enclose_of_ofPair? hspells]
      exact ih hfound
    | single halone hspells =>
      by_cases hc : c = '='
      · subst hc
        cases hspells
        cases depth with
        | zero => rfl
        | succ depth =>
          rw [assignmentFrom_cons_of_deep (by simp [Unmarked])] at hfound
          exact ih hfound
      · rw [assignmentFrom_cons_of_ne hc,
          Quoting.step_outside (unmarked_of_ofChar? hspells)] at hfound
        rcases enclose_of_ofChar? hspells hc depth with hnone | hsome
        · rw [hnone]
          rfl
        · rw [hsome]
          exact ih hfound
    | number hdigit =>
      obtain ⟨k, last, hscan⟩ := assignmentFrom_run
        (fun d => isWordChar_of_isDigit) (isWordChar_of_isDigit hdigit) rest i before depth
      exact ih (hscan.symm.trans hfound)
    | string hquote hstring =>
      have hne : c ≠ '\\' := by rcases hquote with rfl | rfl <;> decide
      have hsign : c ≠ '=' := by rcases hquote with rfl | rfl <;> decide
      have hflat : deepen depth c = depth := by
        rcases hquote with rfl | rfl <;> simp [deepen, bracketChange]
      have hopen : Quoting.outside.step c = .inside c := by rcases hquote with rfl | rfl <;> rfl
      obtain ⟨body, after, rfl, hused, hhidden, hstate, -⟩ := readString_eq_ok hne hstring
      rw [Nat.zero_add] at hused
      subst hused
      obtain ⟨k, last, hscan⟩ := hhidden.assignmentFrom after (i + 1) (some c) depth
      rw [assignmentFrom_cons_of_ne hsign, hflat, hopen, hscan, hstate] at hfound
      rw [List.drop_left] at ih
      exact ih hfound
    | word hstart =>
      obtain ⟨k, last, hscan⟩ := assignmentFrom_run (fun d => id)
        (isWordChar_of_start hstart) rest i before depth
      rw [enclose_wordLexeme]
      exact ih (hscan.symm.trans hfound)

theorem findAssignment_of_means {first more : List Lexeme} {e : Expr}
    (hlexemes : lexemes? content = some first)
    (hmeans : Means (first ++ more) e) : findAssignment content = none := by
  cases hfound : findAssignment content with
  | none => rfl
  | some i =>
    have hnone := enclosed_eq_none hfound hlexemes
    have hsome := hmeans.enclosed
    rw [enclosed_append, hnone] at hsome
    cases hsome

/-! ## The shape of an assignment -/

/-- A content that assigns a value to a name. -/
structure Assigns (content name value : Text) : Prop where
  identifier : isIdentifier name = true
  single : value.head? ≠ some '='
  split : ∃ lead gap, (∀ c ∈ lead, Text.isSpace c = true) ∧ (∀ c ∈ gap, Text.isSpace c = true) ∧
      content = lead ++ (name ++ (gap ++ '=' :: value))

theorem exists_strip (text : Text) : ∃ lead trail, (∀ c ∈ lead, Text.isSpace c = true) ∧
      (∀ c ∈ trail, Text.isSpace c = true) ∧ text = lead ++ (Text.strip text ++ trail) := by
  refine ⟨text.takeWhile Text.isSpace,
    ((text.dropWhile Text.isSpace).reverse.takeWhile Text.isSpace).reverse,
    fun c => List.mem_takeWhile_imp, ?_, ?_⟩
  · intro c hc
    exact List.mem_takeWhile_imp (List.mem_reverse.mp hc)
  · rw [Text.strip, Text.stripBy, Text.stripEnd, Text.stripStart, ← List.reverse_append,
      List.takeWhile_append_dropWhile, List.reverse_reverse, List.takeWhile_append_dropWhile]

theorem strip_around {word lead trail : Text} (hword : ∀ c ∈ word, Text.isSpace c = false)
    (hne : word ≠ []) (hlead : ∀ c ∈ lead, Text.isSpace c = true)
    (htrail : ∀ c ∈ trail, Text.isSpace c = true) :
    Text.strip (lead ++ (word ++ trail)) = word := by
  obtain ⟨first, rest, rfl⟩ := List.exists_cons_of_ne_nil hne
  have hstart : Text.stripStart Text.isSpace
      (lead ++ (first :: rest ++ trail)) = first :: rest ++ trail := by
    rw [Text.stripStart, List.dropWhile_append_of_pos hlead, List.cons_append,
      List.dropWhile_cons_of_neg (by simp [hword first])]
  rw [Text.strip, Text.stripBy, hstart, Text.stripEnd, List.reverse_append,
    List.dropWhile_append_of_pos (by simpa using htrail)]
  have hself := strip_eq_self hword
  rwa [Text.strip, Text.stripBy, Text.stripStart,
    List.dropWhile_cons_of_neg (by simp [hword first])] at hself

theorem exists_cons_of_isIdentifier (hname : isIdentifier name = true) :
    ∃ first rest, name = first :: rest ∧ Text.isDigit first = false ∧
      (Text.isLetter first = true ∨ first = '_') := by
  cases name with
  | nil => cases hname
  | cons first rest =>
    simp only [isIdentifier, Bool.and_eq_true, Bool.or_eq_true, beq_iff_eq] at hname
    refine ⟨first, rest, rfl, ?_⟩
    rcases hname.1 with halpha | rfl
    · exact ⟨isDigit_of_charIsAlpha halpha, .inl (isLetter_of_charIsAlpha halpha)⟩
    · exact ⟨by decide, .inr rfl⟩

theorem lexemes?_word {first : Char} {more : Text} (hdigit : Text.isDigit first = false)
    (hstart : Text.isLetter first = true ∨ first = '_') (hmore : ∀ c ∈ more, isWordChar c = true)
    (hrest : ∀ c, rest.head? = some c → isWordChar c = false) : lexemes? (first :: more ++ rest) =
      (lexemes? rest).map (wordLexeme (first :: more) :: ·) := by
  have hword : Text.isLetter first = true ∨ first = '_' ∨
      first.isDigit = true := hstart.imp_right .inl
  have hrun : (more ++ rest).takeWhile isWordChar = more := by
    rw [List.takeWhile_append_of_pos hmore]
    cases rest with
    | nil => simp
    | cons c rest => simp [hrest c rfl]
  have hread : readLexeme first (more ++ rest) = .ok (wordLexeme (first :: more), more.length) := by
    rw [readLexeme_of_isWord hword, hdigit, hrun]
    rfl
  have hspace := isSpace_eq_false_of_isWord hword
  rw [List.cons_append, lexemes?_of_ok (by simp [hspace]) hread, List.drop_left]

theorem lexemes?_sign (hsingle : value.head? ≠ some '=') :
    lexemes? ('=' :: value) = (lexemes? value).map (.symbol .assign :: ·) := by
  have halone : value.head?.bind (Symbol.ofPair? '=') = none := by
    rw [Option.bind_eq_none_iff]
    intro d hd
    rw [← Option.not_isSome_iff_eq_none, Option.isSome_iff_exists]
    rintro ⟨symbol, hspells⟩
    obtain ⟨-, -, rfl⟩ := unmarked_of_ofPair? hspells
    exact hsingle hd
  have hread : readLexeme '=' value = .ok (.symbol .assign, 0) := by
    unfold readLexeme
    rw [halone]
    rfl
  rw [lexemes?_of_ok (by decide) hread, List.drop_zero]

section Assigns

variable {content name value : Text}

theorem Assigns.lexemes (hassigns : Assigns content name value) :
    lexemes? content = (lexemes? value).map fun lexemes =>
      wordLexeme name :: .symbol .assign :: lexemes := by
  obtain ⟨lead, gap, hlead, hgap, rfl⟩ := hassigns.split
  obtain ⟨first, rest, rfl, hdigit, hstart⟩ := exists_cons_of_isIdentifier hassigns.identifier
  have hword := isWordChar_of_isIdentifier hassigns.identifier
  have hnext : ∀ c, (gap ++ '=' :: value).head? = some c → isWordChar c = false := by
    intro c hc
    cases gap with
    | nil =>
      cases hc
      decide
    | cons d gap =>
      cases hc
      exact isWordChar_eq_false_of_isSpace (hgap c (by simp))
  rw [lexemes?_blank_append hlead,
    lexemes?_word hdigit hstart (fun c hc => hword c (by simp [hc])) hnext,
    lexemes?_blank_append hgap, lexemes?_sign hassigns.single, Option.map_map]
  rfl

theorem Assigns.plain (hassigns : Assigns content name value) :
    ∃ front, (∀ c ∈ front, Plain c) ∧ content = front ++ '=' :: value ∧
      Text.strip front = name := by
  obtain ⟨lead, gap, hlead, hgap, rfl⟩ := hassigns.split
  have hword := isWordChar_of_isIdentifier hassigns.identifier
  refine ⟨lead ++ (name ++ gap), ?_, by simp, ?_⟩
  · intro c hc
    rcases List.mem_append.mp hc with hc | hc
    · exact .of_isSpace (hlead c hc)
    · rcases List.mem_append.mp hc with hc | hc
      · exact .of_isWordChar (hword c hc)
      · exact .of_isSpace (hgap c hc)
  · apply strip_around _ _ hlead hgap
    · intro c hc
      rw [Bool.eq_false_iff]
      intro hspace
      have hfalse := isWordChar_eq_false_of_isSpace hspace
      rw [hword c hc] at hfalse
      cases hfalse
    · rintro rfl
      exact absurd hassigns.identifier (by decide)

theorem Assigns.findAssignment (hassigns : Assigns content name value) :
    ∃ i, Source.findAssignment content = some i ∧
      Text.strip (content.take i) = name ∧ content.drop (i + 1) = value := by
  obtain ⟨front, hplain, rfl, hstrip⟩ := hassigns.plain
  obtain ⟨last, hlast, hscan⟩ := assignmentFrom_plain hplain ('=' :: value) 0 none 0
  refine ⟨front.length, ?_, ?_, ?_⟩
  · rw [Source.findAssignment, hscan]
    simp [assignmentFrom, hlast rfl, hassigns.single]
  · rw [List.take_left, hstrip]
  · rw [List.drop_append, List.drop_eq_nil_of_le (by omega)]
    simp

theorem Assigns.balance (hassigns : Assigns content name value) :
    Source.balance content = Source.balance value := by
  obtain ⟨front, hplain, rfl, -⟩ := hassigns.plain
  rw [Source.balance, balanceFrom_unmarked
    (fun c hc => ⟨(hplain c hc).unmarked, (hplain c hc).flat⟩),
    balanceFrom_cons (by simp [Unmarked])]
  exact Int.zero_add _

theorem Assigns.endsOutside (hassigns : Assigns content name value) :
    EndsOutside content ↔ EndsOutside value := by
  obtain ⟨front, hplain, rfl, -⟩ := hassigns.plain
  have hfront : EndsOutside front := endsOutside_of_unmarked fun c hc => (hplain c hc).unmarked
  have hsign : EndsOutside ['='] := rfl
  rw [hfront.append, ← List.singleton_append, hsign.append]

end Assigns

theorem exists_sign_of_assignmentFrom {j : Nat} {before : Option Char} {quoting : Quoting}
    (hfound : assignmentFrom i before depth quoting text = some j) :
    ∃ front rest, text = front ++ '=' :: rest ∧ j = i + front.length ∧
      front.foldl Quoting.step quoting = .outside ∧
      (front.getLast?.or before).any comparesBefore = false ∧ rest.head? ≠ some '=' := by
  have hlast : ∀ (c : Char) (front : Text) (before : Option Char),
      (c :: front).getLast?.or before = front.getLast?.or (some c) := by
    intro c front before
    rw [List.getLast?_cons]
    cases front.getLast? <;> rfl
  fun_induction assignmentFrom i before depth quoting text with
  | case1 => cases hfound
  | case2 i before depth c rest hsign =>
    simp only [Bool.and_eq_true, beq_iff_eq, bne_iff_ne, Bool.not_eq_true'] at hsign
    obtain ⟨⟨⟨rfl, -⟩, hbefore⟩, hnext⟩ := hsign
    cases hfound
    exact ⟨[], rest, rfl, rfl, rfl, hbefore, hnext⟩
  | case3 i before depth c rest hsign ih =>
    obtain ⟨front, after, rfl, rfl, hstate, hcompares, hnext⟩ := ih hfound
    exact ⟨c :: front, after, rfl, by simp; omega, hstate, (hlast c front before).symm ▸ hcompares,
      hnext⟩
  | case4 i before depth quoting c rest hinside ih =>
    obtain ⟨front, after, rfl, rfl, hstate, hcompares, hnext⟩ := ih hfound
    exact ⟨c :: front, after, rfl, by simp; omega, hstate, (hlast c front before).symm ▸ hcompares,
      hnext⟩

theorem assigns_of_findAssignment (hfound : findAssignment content = some i)
    (hname : isIdentifier (Text.strip (content.take i)) = true) :
    Assigns content (Text.strip (content.take i)) (content.drop (i + 1)) := by
  obtain ⟨front, value, rfl, hi, -, -, hnext⟩ := exists_sign_of_assignmentFrom hfound
  rw [Nat.zero_add] at hi
  subst hi
  have hdrop : (front ++ '=' :: value).drop (front.length + 1) = value := by
    rw [List.drop_append, List.drop_eq_nil_of_le (by omega)]
    simp
  rw [List.take_left] at *
  rw [hdrop]
  obtain ⟨lead, gap, hlead, hgap, hfront⟩ := exists_strip front
  refine ⟨hname, hnext, lead, gap, hlead, hgap, ?_⟩
  conv_lhs => rw [hfront]
  simp

theorem exists_first {lexeme : Lexeme} {lexemes : List Lexeme}
    (hlexemes : lexemes? text = some (lexeme :: lexemes)) :
    ∃ lead c rest more, (∀ d ∈ lead, Text.isSpace d = true) ∧
      text = lead ++ c :: rest ∧ readLexeme c rest = .ok (lexeme, more) ∧
        lexemes? (rest.drop more) = some lexemes := by
  generalize hall : lexeme :: lexemes = all at hlexemes
  have hcut := cutInto_of_lexemes hlexemes
  clear hlexemes
  induction hcut with
  | nil => cases hall
  | @blank c rest _ hspace _ ih =>
    obtain ⟨lead, d, after, more, hlead, rfl, hread, hafter⟩ := ih hall
    refine ⟨c :: lead, d, after, more, ?_, rfl, hread, hafter⟩
    exact List.forall_mem_cons.mpr ⟨hspace, hlead⟩
  | @lexeme c rest _ more _ _ hread hothers =>
    cases hall
    exact ⟨[], c, rest, more, by simp, rfl, hread, hothers⟩

theorem wordLexeme_value (word : Text) : (wordLexeme word).value = word := by
  rcases wordLexeme_cases word with hname | ⟨keyword, hkeyword⟩
  · rw [hname]
    rfl
  · rw [hkeyword]
    rfl

theorem Cut.eq_word {word : Text} {more : Nat}
    (hcut : Cut c rest (wordLexeme word) more) : word = c :: rest.takeWhile isWordChar ∧
      more = (rest.takeWhile isWordChar).length ∧ ∀ d ∈ word, isWordChar d = true := by
  generalize hlexeme : wordLexeme word = lexeme at hcut
  cases hcut with
  | word hstart =>
    have hvalue := congrArg Lexeme.value hlexeme
    rw [wordLexeme_value, wordLexeme_value] at hvalue
    refine ⟨hvalue, rfl, ?_⟩
    rw [hvalue]
    exact List.forall_mem_cons.mpr ⟨isWordChar_of_start hstart, fun d => List.mem_takeWhile_imp⟩
  | _ => rcases wordLexeme_cases word with hname | ⟨keyword, hkeyword⟩ <;> simp_all

theorem Cut.eq_sign {more : Nat}
    (hcut : Cut c rest (.symbol .assign) more) : c = '=' ∧ more = 0 ∧ rest.head? ≠ some '=' := by
  generalize hlexeme : Lexeme.symbol .assign = lexeme at hcut
  cases hcut with
  | pair _ hspells =>
    cases hlexeme
    unfold Symbol.ofPair? at hspells
    split at hspells <;> cases hspells
  | single halone hspells =>
    cases hlexeme
    unfold Symbol.ofChar? at hspells
    split at hspells <;> cases hspells
    refine ⟨rfl, rfl, ?_⟩
    intro hhead
    rw [hhead] at halone
    cases halone
  | word _ =>
    rcases wordLexeme_cases (c :: rest.takeWhile isWordChar) with
      hname | ⟨keyword, hkeyword⟩ <;> simp_all
  | _ => cases hlexeme

theorem assigns_of_lexemes {lexemes : List Lexeme} (hname : isIdentifier name = true)
    (hlexemes : lexemes? content = some (wordLexeme name :: .symbol .assign :: lexemes)) :
    ∃ value, Assigns content name value := by
  obtain ⟨lead, c, rest, more, hlead, rfl, hread, hafter⟩ := exists_first hlexemes
  obtain ⟨rfl, rfl, -⟩ := (cut_of_readLexeme hread).eq_word
  obtain ⟨gap, d, value, more, hgap, hdrop, hsign, -⟩ := exists_first hafter
  obtain ⟨rfl, rfl, hsingle⟩ := (cut_of_readLexeme hsign).eq_sign
  have hrest := takeWhile_append_drop isWordChar rest
  rw [hdrop] at hrest
  refine ⟨value, hname, hsingle, lead, gap, hlead, hgap, ?_⟩
  conv_lhs => rw [← hrest]
  rfl

/-! ## Statements in lexemes -/

/-- Lexemes that are a statement without a block, up to places. -/
inductive Says : List Lexeme → Statement → Prop
  | assign {name : Text} {lexemes : List Lexeme} {e : Expr}
      {loc : Option Location} (identifier : isIdentifier name = true) (value : Means lexemes e) :
      Says (wordLexeme name :: .symbol .assign :: lexemes) (.assign (String.ofList name) e loc)
  | expr {lexemes : List Lexeme} {e : Expr} {loc : Option Location}
      (value : Means lexemes e) : Says lexemes (.expr e loc)

end Folio.Source
