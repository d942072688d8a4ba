import Folio.Proofs.SourcePlaces

/-!
# How source text is refused

Source text that is no program is refused with a place and the line there.  The
one exception are digits that write no number: they are cut out of a line as a
token like any others, and are refused later and without a place.

A reader of tokens refuses the digits of one of its tokens, and a reader of
lines names one of its lines.  Both leave some of what they are given, so the
two facts go through the readers together.
-/

namespace Folio.Source

variable {column : Nat} {text digits : Text} {flaw : Decimal.NumberFlaw} {line : Line}
   {rest : List Line}

/-! ## Readers of tokens -/

/-- What a reader of tokens may answer: it leaves some of its tokens, and digits
that write no number are those of a token. -/
def Draws {α : Type} (tokens : List Token) :
    Except Flaw (α × List Token) → Prop
  | .ok (_, rest) => rest ⊆ tokens
  | .error (.refused _ _) => True
  | .error (.number flaw) => ∃ digits column,
      ⟨.number digits, column⟩ ∈ tokens ∧ Decimal.readNumber digits = .error flaw

section Draws

variable {α β : Type} {tokens others : List Token}

theorem Draws.mono {x : Except Flaw (α × List Token)} (hdraws : Draws tokens x)
    (hsubset : tokens ⊆ others) : Draws others x := match x, hdraws with
  | .ok _, hrest => List.Subset.trans hrest hsubset
  | .error (.refused _ _), _ => trivial
  | .error (.number _), ⟨digits, column, hmem, hflaw⟩ => ⟨digits, column, hsubset hmem, hflaw⟩

theorem Draws.cons {token : Token} {x : Except Flaw (α × List Token)}
    (hdraws : Draws tokens x) : Draws (token :: tokens) x :=
  hdraws.mono (List.subset_cons_self token tokens)

theorem Draws.bind {x : Except Flaw (α × List Token)}
    {f : α × List Token → Except Flaw (β × List Token)} (hdraws : Draws tokens x)
    (hnext : ∀ a rest, Draws rest (f (a, rest))) : Draws tokens (x >>= f) := match x, hdraws with
  | .ok (a, rest), hrest => (hnext a rest).mono hrest
  | .error (.refused _ _), _ => trivial
  | .error (.number _), hnumber => hnumber

theorem draws_ok (a : α) : Draws tokens (.ok (a, tokens)) := List.Subset.refl tokens

theorem draws_expect_bind {symbol : Symbol} {reason : Refusal}
    {f : List Token → Except Flaw (β × List Token)} (hnext : ∀ rest, Draws rest (f rest)) :
    Draws tokens (expect symbol reason tokens >>= f) := by
  cases hexpect : expect symbol reason tokens with
  | ok rest =>
    obtain ⟨column, rfl⟩ := expect_eq_ok_iff.mp hexpect
    exact (hnext rest).cons
  | error flaw =>
    cases flaw with
    | refused _ _ => trivial
    | number _ =>
      unfold expect at hexpect
      split at hexpect
      · split at hexpect <;> cases hexpect
      · cases hexpect

theorem passComma_subset (closing : Symbol) (tokens : List Token) :
    (passComma closing tokens).2 ⊆ tokens := by
  unfold passComma
  split <;> simp

end Draws

/-- The readers of expressions with some fuel answer from their tokens. -/
structure Reading (origin : Location) (fuel : Nat) : Prop where
  level : ∀ level tokens, Draws tokens (parseLevel origin fuel level tokens)
  operators : ∀ level left tokens, Draws tokens (parseOperators origin fuel level left tokens)
  suffixes : ∀ e tokens, Draws tokens (parseSuffixes origin fuel e tokens)
  arguments : ∀ done tokens, Draws tokens (parseArguments origin fuel done tokens)
  argument : ∀ done tokens, Draws tokens (parseArgument origin fuel done tokens)
  atom : ∀ tokens, Draws tokens (parseAtom origin fuel tokens)
  items : ∀ items tokens, Draws tokens (parseItems origin fuel items tokens)
  item : ∀ tokens, Draws tokens (parseItem origin fuel tokens)

section Reading

variable {origin : Location} {fuel : Nat}

section

variable (hreading : Reading origin fuel)

include hreading

theorem Reading.level_succ (level : Level) (tokens : List Token) :
    Draws tokens (parseLevel origin (fuel + 1) level tokens) := by
  by_cases hjoins : level.joins = true
  · rw [parseLevel_row hjoins]
    exact (hreading.level _ _).bind fun e rest => hreading.operators _ e rest
  · cases level with
    | negation =>
      unfold parseLevel
      dsimp only
      split
      · refine Draws.cons ((hreading.level _ _).bind fun operand rest => ?_)
        exact draws_ok _
      · exact hreading.level _ _
    | minus =>
      unfold parseLevel
      dsimp only
      split
      · refine Draws.cons ((hreading.level _ _).bind fun operand rest => ?_)
        exact draws_ok _
      · exact hreading.level _ _
    | suffix =>
      rw [parseLevel]
      exact (hreading.level _ _).bind fun e rest => hreading.suffixes e rest
    | atom =>
      rw [parseLevel]
      exact hreading.atom tokens
    | _ => simp [Level.joins] at hjoins

theorem Reading.operators_succ (level : Level) (left : Expr)
    (tokens : List Token) : Draws tokens (parseOperators origin (fuel + 1) level left tokens) := by
  cases tokens with
  | nil => exact draws_ok left
  | cons token rest =>
    rw [parseOperators]
    split
    · exact draws_ok left
    · refine Draws.cons ((hreading.level _ _).bind fun right rest => ?_)
      exact hreading.operators _ _ rest

theorem Reading.suffixes_succ (e : Expr) (tokens : List Token) :
    Draws tokens (parseSuffixes origin (fuel + 1) e tokens) := by
  unfold parseSuffixes
  split
  · split
    · exact (hreading.suffixes _ _).cons.cons
    · trivial
  · apply Draws.cons
    dsimp only
    split
    · exact (draws_ok _).bind fun arguments rest =>
        draws_expect_bind fun rest => hreading.suffixes _ rest
    · exact (hreading.arguments _ _).bind fun arguments rest =>
        draws_expect_bind fun rest => hreading.suffixes _ rest
  · exact draws_ok e

theorem Reading.arguments_succ (done : Arguments)
    (tokens : List Token) : Draws tokens (parseArguments origin (fuel + 1) done tokens) := by
  rw [parseArguments]
  refine (hreading.argument done tokens).bind fun done rest => ?_
  have hpassed := passComma_subset .closeParen rest
  dsimp only
  split <;> rename_i heq <;> rw [heq] at hpassed
  · exact (hreading.arguments done _).mono hpassed
  · exact (draws_ok done).mono hpassed

theorem Reading.argument_succ (done : Arguments)
    (tokens : List Token) : Draws tokens (parseArgument origin (fuel + 1) done tokens) := by
  unfold parseArgument
  split
  · refine Draws.cons (Draws.cons ((hreading.level _ _).bind fun value rest => ?_))
    dsimp only
    split
    · trivial
    · exact draws_ok _
  · split
    · exact (hreading.level _ _).bind fun value rest => draws_ok _
    · trivial

theorem Reading.atom_succ (tokens : List Token) :
    Draws tokens (parseAtom origin (fuel + 1) tokens) := by
  unfold parseAtom
  split
  · rename_i digits column rest
    split
    · rename_i flaw hflaw
      exact ⟨digits, column, List.mem_cons_self, hflaw⟩
    · exact (draws_ok _).cons
  · exact (draws_ok _).cons
  · exact (draws_ok _).cons
  · exact (draws_ok _).cons
  · exact (draws_ok _).cons
  · refine Draws.cons ((hreading.level _ _).bind fun e rest => ?_)
    exact draws_expect_bind fun rest => draws_ok e
  · apply Draws.cons
    dsimp only
    split
    · exact (draws_ok _).bind fun items rest =>
        draws_expect_bind fun rest => draws_ok _
    · exact (hreading.items _ _).bind fun items rest =>
        draws_expect_bind fun rest => draws_ok _
  · trivial

theorem Reading.items_succ (items : List Expr)
    (tokens : List Token) : Draws tokens (parseItems origin (fuel + 1) items tokens) := by
  rw [parseItems]
  refine (hreading.item tokens).bind fun item rest => ?_
  have hpassed := passComma_subset .closeBracket rest
  dsimp only
  split <;> rename_i heq <;> rw [heq] at hpassed
  · exact (hreading.items _ _).mono hpassed
  · exact (draws_ok _).mono hpassed

theorem Reading.item_succ (tokens : List Token) :
    Draws tokens (parseItem origin (fuel + 1) tokens) := by
  rw [parseItem]
  refine (hreading.level _ tokens).bind fun item rest => ?_
  dsimp only
  split
  · refine Draws.cons ((hreading.level _ _).bind fun last rest => ?_)
    exact draws_ok _
  · exact draws_ok item

end

end Reading

theorem reading (origin : Location) : ∀ fuel, Reading origin fuel
  | 0 => by constructor <;> intros <;> trivial
  | fuel + 1 =>
    let hreading := reading origin fuel
    { level := hreading.level_succ
      operators := hreading.operators_succ
      suffixes := hreading.suffixes_succ
      arguments := hreading.arguments_succ
      argument := hreading.argument_succ
      atom := hreading.atom_succ
      items := hreading.items_succ
      item := hreading.item_succ }

theorem exists_refused_of_tokenize {flaw : Flaw} (htokens : tokenize column text = .error flaw) :
    ∃ reason offset, flaw = .refused reason offset := by
  fun_induction tokenize column text generalizing flaw with
  | case1 => cases htokens
  | case2 column c rest hspace ih => exact ih htokens
  | case3 column c rest hspace reason hread =>
    cases htokens
    exact ⟨reason, column, rfl⟩
  | case4 column c rest hspace lexeme more hread flaw htail ih =>
    cases htokens
    exact ih htail
  | case5 => cases htokens

/-- Digits that write no number, for this reason, stand in a text. -/
structure MisreadIn (text digits : Text) (flaw : Decimal.NumberFlaw) : Prop where
  part : digits <:+: text
  nonempty : digits ≠ []
  digit : ∀ c ∈ digits, Text.isDigit c = true
  flawed : Decimal.readNumber digits = .error flaw

theorem MisreadIn.mono {whole : Text} (hmisread : MisreadIn text digits flaw)
    (htext : text <:+: whole) :
    MisreadIn whole digits flaw := { hmisread with part := hmisread.part.trans htext }

theorem Spelled.number_inv {piece : Text} (hspelled : Spelled (.number digits) piece) :
    piece = digits ∧ digits ≠ [] ∧ ∀ c ∈ digits, Text.isDigit c = true := by
  generalize hlexeme : Lexeme.number digits = lexeme at hspelled
  cases hspelled with
  | symbol | string => cases hlexeme
  | number hnonempty hdigit =>
    cases hlexeme
    exact ⟨rfl, hnonempty, hdigit⟩
  | @word c more _ _ =>
    rcases wordLexeme_cases (c :: more) with hname | ⟨keyword, hkeyword⟩
    · rw [hname] at hlexeme
      cases hlexeme
    · rw [hkeyword] at hlexeme
      cases hlexeme

theorem misread_of_parseExpr {origin : Location}
    (herror : parseExpr origin text = .error (.number flaw)) :
    ∃ digits, MisreadIn text digits flaw := by
  rw [parseExpr] at herror
  cases htokens : tokenize 0 text with
  | error refusal =>
    obtain ⟨reason, offset, rfl⟩ := exists_refused_of_tokenize htokens
    rw [htokens] at herror
    cases herror
  | ok tokens =>
    rw [htokens] at herror
    change parseTokens origin tokens = _ at herror
    have hlevel := (reading origin (12 * tokens.length + 12)).level .disjunction tokens
    rw [parseTokens] at herror
    generalize parseLevel origin (12 * tokens.length + 12) .disjunction tokens
      = answer at hlevel herror
    cases answer with
    | ok read =>
      simp only [bind, Except.bind] at herror
      split at herror <;> cases herror
    | error refusal =>
      cases herror
      obtain ⟨digits, column, hmem, hflaw⟩ := hlevel
      obtain ⟨before, after, hsplit⟩ := List.append_of_mem hmem
      obtain ⟨lead, piece, rest, htext, -, hspelled, -⟩ := exists_piece htokens hsplit (by simp)
      obtain ⟨rfl, hnonempty, hdigit⟩ := hspelled.number_inv
      exact ⟨piece, ⟨⟨lead, rest, by rw [htext, List.append_assoc]⟩, hnonempty, hdigit, hflaw⟩⟩

/-! ## Readers of lines -/

/-- An error that lines account for: a refusal is placed on one of them and
shows it, and digits that write no number stand on one of them. -/
def AccountedBy (lines : List Line) : SourceError → Prop
  | .refused _ location text => ∃ line ∈ lines,
      location.line = line.number ∧ 1 ≤ location.column ∧ text = line.text
  | .number flaw => ∃ line ∈ lines, ∃ digits, MisreadIn line.text digits flaw

/-- What a reader of lines may answer: it leaves some of its lines, and they
account for its errors. -/
def Answers {α : Type} (left : α → List Line) (lines : List Line) :
    Except SourceError α → Prop
  | .ok a => left a ⊆ lines
  | .error e => AccountedBy lines e

/-- Digits of a text that write no number stand on one of some lines. -/
def Covers (lines : List Line) (text : Text) : Prop :=
  ∀ digits flaw, MisreadIn text digits flaw →
    ∃ line ∈ lines, MisreadIn line.text digits flaw

section Answers

variable {α β : Type} {left : α → List Line} {leave : β → List Line} {lines others : List Line}

theorem AccountedBy.mono {e : SourceError} (he : AccountedBy lines e)
    (hsubset : lines ⊆ others) : AccountedBy others e := by
  cases e <;>
  · obtain ⟨line, hmem, hfacts⟩ := he
    exact ⟨line, hsubset hmem, hfacts⟩

theorem Answers.mono {x : Except SourceError α} (hanswers : Answers left lines x)
    (hsubset : lines ⊆ others) : Answers left others x := match x, hanswers with
  | .ok _, hrest => List.Subset.trans hrest hsubset
  | .error _, haccounted => AccountedBy.mono haccounted hsubset

theorem Answers.bind {x : Except SourceError α} {f : α → Except SourceError β}
    (hanswers : Answers left lines x) (hnext : ∀ a, left a ⊆ lines → Answers leave lines (f a)) :
    Answers leave lines (x >>= f) := match x, hanswers with
  | .ok a, hrest => hnext a hrest
  | .error _, haccounted => haccounted

theorem Line.answers_refuse (hline : line ∈ lines) (reason : Refusal) (hcolumn : 1 ≤ column) :
    Answers left lines (line.refuse reason column) :=
  ⟨line, hline, rfl, by simpa using hcolumn, rfl⟩

theorem Line.answers_indent (hline : line ∈ lines) : Answers (fun _ => []) lines line.indent := by
  unfold Line.indent
  split
  · exact List.nil_subset lines
  · rename_i reason column hindent
    apply Line.answers_refuse hline
    rw [indentation] at hindent
    split at hindent
    · cases hindent
      exact Nat.le_add_left 1 _
    · cases hindent

theorem covers_of_infix (hline : line ∈ lines) (hpart : text <:+: line.text) : Covers lines text :=
  fun _ _ hmisread => ⟨line, hline, hmisread.mono hpart⟩

theorem Line.answers_parseExpr (hline : line ∈ lines) (hcovers : Covers lines text)
    (hcolumn : 1 ≤ column) : Answers (fun _ => []) lines (line.parseExpr text column) := by
  unfold Line.parseExpr
  split
  · exact List.nil_subset lines
  · rename_i flaw herror
    cases flaw with
    | refused reason offset =>
      refine ⟨line, hline, rfl, ?_, rfl⟩
      simp only [Location.shift]
      omega
    | number flaw =>
      obtain ⟨digits, hmisread⟩ := misread_of_parseExpr herror
      obtain ⟨found, hfound, hpart⟩ := hcovers digits flaw hmisread
      exact ⟨found, hfound, digits, hpart⟩

/-! ### Continued expressions -/

theorem infix_of_infix_append_cons {front back : Text} {c : Char} (hc : c ∉ digits)
    (hpart : digits <:+: front ++ c :: back) : digits <:+: front ∨ digits <:+: back := by
  obtain ⟨lead, trail, hsplit⟩ := hpart
  rw [List.append_assoc, List.append_eq_append_iff] at hsplit
  rcases hsplit with ⟨behind, rfl, hbehind⟩ | ⟨ahead, rfl, hahead⟩
  · rw [List.append_eq_append_iff] at hbehind
    rcases hbehind with ⟨more, rfl, -⟩ | ⟨more, rfl, hmore⟩
    · exact .inl ⟨lead, more, by simp⟩
    · cases more with
      | nil => exact .inl ⟨lead, [], by simp⟩
      | cons d more =>
        obtain ⟨rfl, -⟩ := List.cons.inj hmore
        exact absurd (by simp) hc
  · cases ahead with
    | nil =>
      cases digits with
      | nil => exact .inl (List.nil_infix)
      | cons d digits =>
        obtain ⟨rfl, -⟩ := List.cons.inj hahead
        exact absurd List.mem_cons_self hc
    | cons d ahead =>
      obtain ⟨-, rfl⟩ := List.cons.inj hahead
      exact .inr ⟨ahead, trail, by simp⟩

theorem MisreadIn.append_cons {front back : Text}
    (hmisread : MisreadIn (front ++ '\n' :: back) digits flaw) :
    MisreadIn front digits flaw ∨ MisreadIn back digits flaw := by
  have hbreak : '\n' ∉ digits := fun hmem =>
    absurd (hmisread.digit _ hmem) (by decide)
  rcases infix_of_infix_append_cons hbreak hmisread.part with hpart | hpart
  · exact .inl { hmisread with part := hpart }
  · exact .inr { hmisread with part := hpart }

/-- The break between two lines is no digit, so digits of an expression that
goes on below its line stand on one line. -/
theorem answers_continued {start : Line} (hstart : start ∈ lines) {open_ : Int}
    (hrest : rest ⊆ lines) (hcovers : Covers lines text) :
    Answers (fun answer => answer.2) lines (continued start text open_ rest) ∧
      ∀ answer, continued start text open_ rest = .ok answer → Covers lines answer.1 := by
  fun_induction continued start text open_ rest with
  | case1 text open_ rest hopen => exact ⟨hrest, fun answer hok => by cases hok; exact hcovers⟩
  | case2 text open_ hopen =>
    exact ⟨Line.answers_refuse hstart _ le_rfl, fun answer hok => by cases hok⟩
  | case3 text open_ hopen line rest more ih =>
    refine ih (fun found hfound => hrest (List.mem_cons_of_mem line hfound)) ?_
    intro digits flaw hmisread
    rcases hmisread.append_cons with hfront | hback
    · exact hcovers digits flaw hfront
    · refine ⟨line, hrest List.mem_cons_self, hback.mono ?_⟩
      exact (strip_isInfix _).trans (beforeComment_isPrefix .outside _).isInfix

theorem answers_collect {start : Line} (hstart : start ∈ lines) (hrest : rest ⊆ lines)
    (hcovers : Covers lines text) {f : Text × List Line → Except SourceError α}
    (hnext : ∀ whole after, after ⊆ lines → Covers lines whole →
      Answers left lines (f (whole, after))) :
    Answers left lines (collect start text rest >>= f) := by
  unfold collect
  obtain ⟨hanswers, hwhole⟩ : Answers (fun answer => answer.2) lines
        (continued start text (balance text) rest) ∧ _ := answers_continued hstart hrest hcovers
  cases hcontinued : continued start text (balance text) rest with
  | ok answer =>
    rw [hcontinued] at hanswers
    exact hnext answer.1 answer.2 hanswers (hwhole answer hcontinued)
  | error e =>
    rw [hcontinued] at hanswers
    exact hanswers

theorem Line.covers_content (hline : line ∈ lines) {indent : Nat} {part : Text}
    (hpart : part <:+: line.content indent) : Covers lines part :=
  covers_of_infix hline (hpart.trans ((line.content_prefix indent).isInfix.trans
    (List.drop_suffix indent line.text).isInfix))

theorem one_le_columnOf (indent : Nat) (content part : Text) : 1 ≤ columnOf indent content part :=
  Nat.le_add_left 1 _

theorem answers_parseSimple (hline : line ∈ lines) (indent : Nat)
    (hrest : rest ⊆ lines) : Answers (fun answer => answer.2) lines
      (parseSimple line indent (line.content indent) rest) := by
  unfold parseSimple
  dsimp only
  split
  · rename_i i hfind
    split
    · exact Line.answers_refuse hline _ (by omega)
    · split
      · exact Line.answers_refuse hline _ (by omega)
      · have hvalue : Text.strip ((line.content indent).drop (i + 1)) <:+: line.content indent :=
          (strip_isInfix _).trans (List.drop_suffix _ _).isInfix
        refine answers_collect hline hrest (line.covers_content hline hvalue) ?_
        intro whole after hafter hcovers
        exact (line.answers_parseExpr hline hcovers (one_le_columnOf _ _ _)).bind fun e _ => hafter
  · refine answers_collect hline hrest (line.covers_content hline List.infix_rfl) ?_
    intro whole after hafter hcovers
    exact (line.answers_parseExpr hline hcovers (by omega)).bind fun e _ => hafter

end Answers

/-! ### Blocks -/

/-- The readers of lines with some fuel answer from their lines. -/
structure Accounts (fuel : Nat) : Prop where
  block : ∀ indent lines, Answers (fun answer => answer.2) lines (parseBlock indent fuel lines)
  statement : ∀ line indent rest, Answers (fun answer => answer.2) (line :: rest)
      (parseStatement fuel line indent rest)
  child : ∀ header indent lines, Answers (fun answer => answer.2) (header :: lines)
      (parseChild fuel header indent lines)
  branches : ∀ indent before lines, Answers (fun answer => answer.2.2) lines
      (parseBranches indent fuel before lines)

section Accounts

variable {fuel : Nat}

theorem Accounts.block_succ (haccounts : Accounts fuel) (indent : Nat) (lines : List Line) :
    Answers (fun answer => answer.2) lines (parseBlock indent (fuel + 1) lines) := by
  cases lines with
  | nil => exact List.nil_subset []
  | cons line rest =>
    have hline : line ∈ line :: rest := List.mem_cons_self
    rw [parseBlock]
    split
    · exact (haccounts.block indent rest).mono (List.subset_cons_self _ _)
    · refine (line.answers_indent hline).bind fun found _ => ?_
      split
      · exact List.Subset.refl _
      · split
        · exact line.answers_refuse hline _ (by omega)
        · refine (haccounts.statement line found rest).bind fun first hfirst => ?_
          refine ((haccounts.block indent first.2).mono hfirst).bind fun others hothers => ?_
          exact hothers

theorem Accounts.statement_succ (haccounts : Accounts fuel) (line : Line) (indent : Nat)
    (rest : List Line) : Answers (fun answer => answer.2) (line :: rest)
      (parseStatement (fuel + 1) line indent rest) := by
  have hline : line ∈ line :: rest := List.mem_cons_self
  rw [parseStatement]
  dsimp only
  split
  · split
    · exact line.answers_refuse hline _ (by omega)
    · rename_i name source hparts
      have hcovers := line.covers_content hline (forParts?_isInfix hparts)
      refine (line.answers_parseExpr hline hcovers (one_le_columnOf _ _ _)).bind fun e _ => ?_
      refine (haccounts.child line indent rest).bind fun body hbody => ?_
      exact hbody
  · split
    · split
      · exact line.answers_refuse hline _ (by omega)
      · rename_i condition hparts
        have hcovers := line.covers_content hline
          ((headerBody?_isInfix hparts).trans (List.drop_suffix _ _).isInfix)
        refine (line.answers_parseExpr hline hcovers (one_le_columnOf _ _ _)).bind fun e _ => ?_
        refine (haccounts.child line indent rest).bind fun body hbody => ?_
        refine ((haccounts.branches indent none body.2).mono hbody).bind
          fun branches hbranches => ?_
        exact hbranches
    · split
      · exact line.answers_refuse hline _ (by omega)
      · split
        · exact line.answers_refuse hline _ (by omega)
        · exact answers_parseSimple hline indent (List.subset_cons_self _ _)

theorem Accounts.child_succ (haccounts : Accounts fuel) (header : Line) (indent : Nat)
    (lines : List Line) : Answers (fun answer => answer.2) (header :: lines)
      (parseChild (fuel + 1) header indent lines) := by
  rw [parseChild]
  have hnext := (skipBlank_suffix lines).subset
  split
  · exact header.answers_refuse List.mem_cons_self _ (by omega)
  · rename_i line rest hskip
    rw [hskip] at hnext
    refine Answers.mono ?_ (List.Subset.trans hnext (List.subset_cons_self _ _))
    have hline : line ∈ line :: rest := List.mem_cons_self
    refine (line.answers_indent hline).bind fun found _ => ?_
    split
    · exact line.answers_refuse hline _ (by omega)
    · exact haccounts.block found (line :: rest)

theorem Accounts.branches_succ (haccounts : Accounts fuel) (indent : Nat)
    (before : Option (List Statement)) (lines : List Line) :
    Answers (fun answer => answer.2.2) lines (parseBranches indent (fuel + 1) before lines) := by
  rw [parseBranches]
  have hnext := (skipBlank_suffix lines).subset
  split
  · exact List.nil_subset lines
  · rename_i line rest hskip
    rw [hskip] at hnext
    refine Answers.mono ?_ hnext
    have hline : line ∈ line :: rest := List.mem_cons_self
    refine (line.answers_indent hline).bind fun found _ => ?_
    dsimp only
    split
    · exact List.Subset.refl _
    · split
      · split
        · exact line.answers_refuse hline _ (by omega)
        · split
          · exact line.answers_refuse hline _ (by omega)
          · rename_i condition hparts
            have hcovers := line.covers_content hline
              ((headerBody?_isInfix hparts).trans (List.drop_suffix _ _).isInfix)
            refine (line.answers_parseExpr hline hcovers (one_le_columnOf _ _ _)).bind fun e _ => ?_
            refine (haccounts.child line found rest).bind fun body hbody => ?_
            refine ((haccounts.branches indent before body.2).mono hbody).bind
              fun branches hbranches => ?_
            exact hbranches
      · split
        · split
          · exact line.answers_refuse hline _ (by omega)
          · refine (haccounts.child line found rest).bind fun body hbody => ?_
            exact (haccounts.branches indent (some body.1) body.2).mono hbody
        · exact List.Subset.refl _

end Accounts

theorem accounts : ∀ fuel, Accounts fuel
  | 0 =>
    { block := fun _ lines => List.Subset.refl lines
      statement := fun line _ _ =>
        line.answers_refuse List.mem_cons_self _ (by omega)
      child := fun header _ _ =>
        header.answers_refuse List.mem_cons_self _ (by omega)
      branches := fun _ _ lines => List.Subset.refl lines }
  | fuel + 1 =>
    let haccounts := accounts fuel
    { block := haccounts.block_succ
      statement := haccounts.statement_succ
      child := haccounts.child_succ
      branches := haccounts.branches_succ }

/-! ## Programs -/

theorem accountedBy_of_parseProgram {source : Text} {e : SourceError}
    (herror : parseProgram source = .error e) : AccountedBy (linesOf source) e := by
  have hblock := (accounts (4 * (linesOf source).length + 4)).block 0 (linesOf source)
  rw [parseProgram] at herror
  cases hanswer : parseBlock 0 (4 * (linesOf source).length + 4) (linesOf source) with
  | ok answer =>
    rw [hanswer] at herror
    cases herror
  | error found =>
    rw [hanswer] at herror hblock
    cases herror
    exact hblock

/-- A place on a line of a source text, and the text of that line. -/
structure PlacedIn (source : Text) (location : Location) (text : Text) : Prop where
  first : 1 ≤ location.line
  line : (Text.splitLines source)[(location.line - 1).toNat]? = some text
  column : 1 ≤ location.column

/-- Source text is a program, or is refused at a place with the line there, or
has on one of its lines digits that write no number. -/
theorem parseProgram_cases (source : Text) :
    (∃ program, parseProgram source = .ok program) ∨
    (∃ reason location text,
      parseProgram source = .error (.refused reason location text) ∧
        PlacedIn source location text) ∨
    ∃ flaw, parseProgram source = .error (.number flaw) ∧
      ∃ text ∈ Text.splitLines source, ∃ digits, MisreadIn text digits flaw := by
  cases hparse : parseProgram source with
  | ok program => exact .inl ⟨program, rfl⟩
  | error e =>
      have haccounted := accountedBy_of_parseProgram hparse
      cases e with
      | refused reason location text =>
          obtain ⟨line, hmem, hnumber, hcolumn, rfl⟩ := haccounted
          obtain ⟨i, hi, htext⟩ := mem_linesOf_iff.mp hmem
          refine .inr (.inl ⟨reason, location, line.text, rfl, ?_, ?_, hcolumn⟩)
          · omega
          · rwa [show (location.line - 1).toNat = i by omega]
      | number flaw =>
          obtain ⟨line, hmem, digits, hmisread⟩ := haccounted
          obtain ⟨i, -, htext⟩ := mem_linesOf_iff.mp hmem
          exact .inr (.inr ⟨flaw, rfl, line.text,
            List.mem_of_getElem? htext, digits, hmisread⟩)

/-- A digit that is no decimal digit is refused without a place. -/
theorem superscript_refused :
    parseProgram ['²'] = .error (.number (.notDecimal ['²'])) := by
  cbv

end Folio.Source
