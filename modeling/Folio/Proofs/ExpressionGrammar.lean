import Folio.Proofs.PhraseUniqueness

/-!
# What the reader of expressions accepts

The tokens of an expression end with a mark.  The reader looks at no token
behind the mark and never runs out of fuel before it, so what it answers
depends on the tokens before the mark alone.  It accepts them if and only if
they are the tokens of a phrase, and there is then one such phrase.
-/

namespace Folio.Source

variable {rest tokens : List Token} {level : Level} {e : Expr} {done : Arguments} {more : Nat}

def Ended (tokens : List Token) : Prop :=
  ∃ before column, tokens = before ++ [⟨.finish, column⟩]

theorem Ended.cons_of_ne_finish {token : Token} (hended : Ended (token :: rest))
    (hlexeme : token.lexeme ≠ .finish) : Ended rest := by
  obtain ⟨before, column, heq⟩ := hended
  cases before with
  | nil => simp_all
  | cons first before => exact ⟨before, column, by simp_all⟩

theorem Ended.exists_cons (hended : Ended tokens) : ∃ token rest, tokens = token :: rest := by
  obtain ⟨before, column, rfl⟩ := hended
  cases before <;> simp

/-- Two answers that differ in the tokens left by `extra` behind the mark. -/
inductive SameUpTo (extra : List Token) {α : Type} :
    Except Flaw (α × List Token) → Except Flaw (α × List Token) → Prop
  | failed (flaw : Flaw) : SameUpTo extra (.error flaw) (.error flaw)
  | read (a : α) {rest : List Token} (ended : Ended rest) :
      SameUpTo extra (.ok (a, rest)) (.ok (a, rest ++ extra))

theorem SameUpTo.bind {extra : List Token} {α β : Type} {x y : Except Flaw (α × List Token)}
    {f g : α × List Token → Except Flaw (β × List Token)} (hsame : SameUpTo extra x y)
    (hnext : ∀ a rest, x = .ok (a, rest) → Ended rest →
      SameUpTo extra (f (a, rest)) (g (a, rest ++ extra))) :
    SameUpTo extra (x >>= f) (y >>= g) := by
  cases hsame with
  | failed flaw => exact .failed flaw
  | read a hended => exact hnext a _ rfl hended

theorem SameUpTo.ended {extra : List Token} {α : Type} {a : α} {x y : Except Flaw (α × List Token)}
    (hsame : SameUpTo extra x y) (hok : x = .ok (a, rest)) : Ended rest := by
  cases hsame with
  | failed flaw => cases hok
  | read a hended =>
    cases hok
    exact hended

theorem SameUpTo.refuse {extra tokens : List Token} {α : Type} (reason : Refusal)
    (hended : Ended tokens) : SameUpTo extra (Source.refuse reason tokens : Except Flaw (α × _))
      (Source.refuse reason (tokens ++ extra)) := by
  obtain ⟨token, rest, rfl⟩ := hended.exists_cons
  exact .failed _

section Steadiness

variable {origin : Location} {extra : List Token} {fuel : Nat}

/-- With enough fuel for the tokens up to the mark, neither more fuel nor more
tokens change the answer of a reader. -/
def SteadyAt {α : Type} (extra : List Token) (cost fuel : Nat)
    (read : Nat → List Token → Except Flaw (α × List Token)) : Prop :=
  ∀ {tokens : List Token} {more : Nat},
    Ended tokens → 12 * tokens.length + cost ≤ fuel → fuel ≤ more →
    SameUpTo extra (read fuel tokens) (read more (tokens ++ extra))

theorem SteadyAt.succ {α : Type} {cost : Nat}
    {read : Nat → List Token → Except Flaw (α × List Token)}
    (hread : ∀ {tokens : List Token} {more : Nat},
      Ended tokens → 12 * tokens.length + cost ≤ fuel + 1 → fuel ≤ more →
      SameUpTo extra (read (fuel + 1) tokens) (read (more + 1) (tokens ++ extra))) :
    SteadyAt extra cost (fuel + 1) read := by
  intro tokens more hended hfuel hmore
  obtain ⟨less, rfl⟩ := Nat.exists_eq_add_of_le' (Nat.le_of_add_left_le hmore)
  exact hread hended hfuel (by omega)

structure Steady (origin : Location) (extra : List Token) (fuel : Nat) : Prop where
  phrase : ∀ level, SteadyAt extra level.rank fuel (parseLevel origin · level ·)
  links : ∀ level left, SteadyAt extra 11 fuel (parseOperators origin · level left ·)
  suffixes : ∀ head, SteadyAt extra 1 fuel (parseSuffixes origin · head ·)
  arguments : ∀ done, SteadyAt extra 12 fuel (parseArguments origin · done ·)
  argument : ∀ done, SteadyAt extra 11 fuel (parseArgument origin · done ·)
  atom : SteadyAt extra 1 fuel (parseAtom origin)
  items : ∀ done, SteadyAt extra 12 fuel (parseItems origin · done ·)
  item : SteadyAt extra 11 fuel (parseItem origin)

theorem length_lt_of_parseLevel (hok : parseLevel origin fuel level tokens = .ok (e, rest)) :
    rest.length < tokens.length := by
  obtain ⟨phrase, rfl, -⟩ := (explains origin fuel).phrase hok
  have := phrase.tokens_length_pos
  simp only [List.length_append]
  omega

theorem length_le_of_parseArguments {all : Arguments}
    (hok : parseArguments origin fuel done tokens = .ok (all, rest)) :
    rest.length ≤ tokens.length := by
  have hnames : done.named.map Prod.fst =
      (done.named.map fun pair => pair.1.toList).map String.ofList := by
    simp
  obtain ⟨arguments, rfl, -⟩ := (explains origin fuel).arguments hnames hok
  simp

theorem length_lt_of_parseArgument {all : Arguments}
    (hok : parseArgument origin fuel done tokens = .ok (all, rest)) :
    rest.length < tokens.length := by
  rcases (explains origin fuel).argument hok with
    ⟨value, -, rfl, -⟩ | ⟨key, column, sign, value, -, rfl, -⟩
  · have := value.tokens_length_pos
    simp only [List.length_append]
    omega
  · simp only [List.length_cons, List.length_append]
    omega

theorem length_lt_of_parseItem
    (hok : parseItem origin fuel tokens = .ok (e, rest)) : rest.length < tokens.length := by
  rcases (explains origin fuel).item hok with
    ⟨value, rfl, -⟩ | ⟨first, colon, last, rfl, -⟩
  · have := value.tokens_length_pos
    simp only [List.length_append]
    omega
  · simp only [List.length_cons, List.length_append]
    omega

theorem passComma_append (extra : List Token) (closing : Symbol) (hended : Ended tokens) :
    ∃ again rest, Ended rest ∧ rest.length ≤ tokens.length ∧
      passComma closing tokens = (again, rest) ∧
      passComma closing (tokens ++ extra) = (again, rest ++ extra) := by
  obtain ⟨⟨lexeme, column⟩, tail, rfl⟩ := hended.exists_cons
  by_cases hcomma : lexeme = .symbol .comma
  · subst hcomma
    have htail := hended.cons_of_ne_finish (by simp)
    obtain ⟨token, rest, rfl⟩ := htail.exists_cons
    exact ⟨token.lexeme != .symbol closing, token :: rest, htail, by simp, rfl, rfl⟩
  · have hpass : ∀ rest, passComma closing (⟨lexeme, column⟩ :: rest) =
        (false, ⟨lexeme, column⟩ :: rest) := by
      intro rest
      unfold passComma
      split <;> simp_all
    exact ⟨false, _, hended, le_rfl, hpass _, hpass _⟩

theorem Steady.phrase_succ (hsteady : Steady origin extra fuel) (level : Level) :
    SteadyAt extra level.rank (fuel + 1) (parseLevel origin · level ·) := by
  apply SteadyAt.succ
  intro tokens more hended hfuel hmore
  by_cases hjoins : level.joins = true
  · have hrank := Level.rank_operand_lt hjoins
    rw [parseLevel_row hjoins, parseLevel_row hjoins]
    refine (hsteady.phrase _ hended (by omega) hmore).bind ?_
    intro e rest hok hrest
    have hlength := length_lt_of_parseLevel hok
    exact hsteady.links _ _ hrest (by omega) hmore
  · obtain ⟨⟨lexeme, column⟩, tail, rfl⟩ := hended.exists_cons
    cases level with
    | negation =>
      simp only [Level.rank, List.length_cons] at hfuel
      have hkeep := hsteady.phrase .comparison hended
        (by simp only [Level.rank, List.length_cons]; omega) hmore
      cases lexeme with
      | keyword word spelling =>
        cases word with
        | not =>
          have htail := hended.cons_of_ne_finish (by simp)
          simp only [List.cons_append, parseLevel]
          refine (hsteady.phrase _ htail (by simp only [Level.rank]; omega) hmore).bind ?_
          intro e rest _ hrest
          exact .read _ hrest
        | _ => simpa only [List.cons_append, parseLevel] using hkeep
      | _ => simpa only [List.cons_append, parseLevel] using hkeep
    | minus =>
      simp only [Level.rank, List.length_cons] at hfuel
      have hkeep := hsteady.phrase .suffix hended
        (by simp only [Level.rank, List.length_cons]; omega) hmore
      cases lexeme with
      | symbol symbol =>
        cases symbol with
        | minus =>
          have htail := hended.cons_of_ne_finish (by simp)
          simp only [List.cons_append, parseLevel]
          refine (hsteady.phrase _ htail (by simp only [Level.rank]; omega) hmore).bind ?_
          intro e rest _ hrest
          exact .read _ hrest
        | _ => simpa only [List.cons_append, parseLevel] using hkeep
      | _ => simpa only [List.cons_append, parseLevel] using hkeep
    | suffix =>
      simp only [Level.rank] at hfuel
      rw [parseLevel, parseLevel]
      refine (hsteady.phrase _ hended (by simp only [Level.rank]; omega) hmore).bind ?_
      intro e rest hok hrest
      have hlength := length_lt_of_parseLevel hok
      exact hsteady.suffixes _ hrest (by omega) hmore
    | atom =>
      simp only [Level.rank] at hfuel
      rw [parseLevel, parseLevel]
      exact hsteady.atom hended (by omega) hmore
    | _ => simp [Level.joins] at hjoins

theorem Steady.links_succ (hsteady : Steady origin extra fuel) (level : Level) (left : Expr) :
    SteadyAt extra 11 (fuel + 1) (parseOperators origin · level left ·) := by
  apply SteadyAt.succ
  intro tokens more hended hfuel hmore
  obtain ⟨token, tail, rfl⟩ := hended.exists_cons
  rw [List.cons_append, parseOperators, parseOperators]
  cases hop : level.operator? token.lexeme with
  | none => exact .read left hended
  | some op =>
    have htail : Ended tail := by
      refine hended.cons_of_ne_finish ?_
      intro hfinish
      simp [hfinish, Level.operator?] at hop
    have hrank : level.next.rank ≤ 11 := by cases level <;> decide
    simp only [List.length_cons] at hfuel
    refine (hsteady.phrase _ htail (by omega) hmore).bind ?_
    intro e rest hok hrest
    have hlength := length_lt_of_parseLevel hok
    exact hsteady.links _ _ hrest (by omega) hmore

theorem SameUpTo.expect {α : Type} {symbol : Symbol} {reason : Refusal}
    {f g : List Token → Except Flaw (α × List Token)} (hended : Ended tokens)
    (hnext : ∀ rest, rest.length < tokens.length → Ended rest →
      SameUpTo extra (f rest) (g (rest ++ extra))) :
    SameUpTo extra (Source.expect symbol reason tokens >>= f)
      (Source.expect symbol reason (tokens ++ extra) >>= g) := by
  obtain ⟨⟨lexeme, column⟩, tail, rfl⟩ := hended.exists_cons
  cases lexeme with
  | symbol other =>
    have htail := hended.cons_of_ne_finish (by simp)
    by_cases hsymbol : other = symbol
    · subst hsymbol
      simpa [Source.expect, Bind.bind, Except.bind] using hnext tail (by simp) htail
    · simpa [Source.expect, hsymbol, Bind.bind, Except.bind] using SameUpTo.failed _
  | _ => exact .failed _

section

variable (hsteady : Steady origin extra fuel)

include hsteady

theorem Steady.call (head : Expr) (column : Nat) (hended : Ended tokens)
    (hfuel : 12 * tokens.length + 12 ≤ fuel) (hmore : fuel ≤ more) : SameUpTo extra (do
        let (arguments, rest) ← parseArguments origin fuel ⟨[], []⟩ tokens
        let rest ← Source.expect .closeParen .expectedCallEnd rest
        parseSuffixes origin fuel (.call head arguments.positional.reverse arguments.named.reverse
            (some (origin.shift column))) rest) (do
        let (arguments, rest) ← parseArguments origin more ⟨[], []⟩ (tokens ++ extra)
        let rest ← Source.expect .closeParen .expectedCallEnd rest
        parseSuffixes origin more (.call head arguments.positional.reverse arguments.named.reverse
            (some (origin.shift column))) rest) := by
  refine (hsteady.arguments _ hended hfuel hmore).bind ?_
  intro arguments rest hok hrest
  have hlength := length_le_of_parseArguments hok
  refine SameUpTo.expect hrest ?_
  intro last hlast hended
  exact hsteady.suffixes _ hended (by omega) hmore

theorem Steady.suffixes_succ (head : Expr) :
    SteadyAt extra 1 (fuel + 1) (parseSuffixes origin · head ·) := by
  apply SteadyAt.succ
  intro tokens more hended hfuel hmore
  obtain ⟨⟨lexeme, column⟩, tail, rfl⟩ := hended.exists_cons
  simp only [List.length_cons] at hfuel
  cases lexeme with
  | symbol symbol =>
    have htail := hended.cons_of_ne_finish (by simp)
    cases symbol with
    | dot =>
      obtain ⟨⟨lexeme, place⟩, rest, rfl⟩ := htail.exists_cons
      simp only [List.length_cons] at hfuel
      cases lexeme with
      | name name =>
        have hrest := htail.cons_of_ne_finish (by simp)
        simp only [List.cons_append, parseSuffixes]
        exact hsteady.suffixes _ hrest (by omega) hmore
      | _ => exact .refuse .expectedAttribute htail
    | openParen =>
      obtain ⟨⟨lexeme, place⟩, rest, rfl⟩ := htail.exists_cons
      have hcall := hsteady.call head column htail (by omega) hmore
      cases lexeme with
      | symbol symbol =>
        cases symbol with
        | closeParen =>
          have hrest := htail.cons_of_ne_finish (by simp)
          simp only [List.length_cons] at hfuel
          simp only [List.cons_append, parseSuffixes, bind, Except.bind, Source.expect,
            beq_self_eq_true, if_true]
          exact hsteady.suffixes _ hrest (by omega) hmore
        | _ => simpa only [List.cons_append, parseSuffixes] using hcall
      | _ => simpa only [List.cons_append, parseSuffixes] using hcall
    | _ =>
      simp only [List.cons_append, parseSuffixes]
      exact .read head hended
  | _ =>
    simp only [List.cons_append, parseSuffixes]
    exact .read head hended

theorem Steady.arguments_succ (done : Arguments) :
    SteadyAt extra 12 (fuel + 1) (parseArguments origin · done ·) := by
  apply SteadyAt.succ
  intro tokens more hended hfuel hmore
  rw [parseArguments, parseArguments]
  refine (hsteady.argument _ hended (by omega) hmore).bind ?_
  intro all rest hok hrest
  have hlength := length_lt_of_parseArgument hok
  obtain ⟨again, last, hlast, hle, hpass, hextra⟩ := passComma_append extra .closeParen hrest
  simp only [hpass, hextra]
  cases again with
  | false => exact .read all hlast
  | true => exact hsteady.arguments _ hlast (by omega) hmore

theorem Steady.argument_succ (done : Arguments) :
    SteadyAt extra 11 (fuel + 1) (parseArgument origin · done ·) := by
  apply SteadyAt.succ
  intro tokens more hended hfuel hmore
  by_cases hnamed : ∃ key column sign rest,
      tokens = ⟨.name key, column⟩ :: ⟨.symbol .assign, sign⟩ :: rest
  · obtain ⟨key, column, sign, rest, rfl⟩ := hnamed
    have hrest := (hended.cons_of_ne_finish (by simp)).cons_of_ne_finish (by simp)
    simp only [List.length_cons] at hfuel
    simp only [List.cons_append, parseArgument]
    refine (hsteady.phrase _ hrest (by simp only [Level.rank]; omega) hmore).bind ?_
    intro value last _ hlast
    dsimp only
    split
    · exact .refuse (.duplicateKeyword key) hlast
    · exact .read _ hlast
  · have hmoreNamed : ¬ ∃ key column sign rest, tokens ++ extra =
        ⟨.name key, column⟩ :: ⟨.symbol .assign, sign⟩ :: rest := by
      rintro ⟨key, column, sign, rest, heq⟩
      obtain ⟨token, tail, rfl⟩ := hended.exists_cons
      obtain ⟨rfl, htokens⟩ := List.cons.inj heq
      have htail := hended.cons_of_ne_finish (by simp)
      obtain ⟨next, last, rfl⟩ := htail.exists_cons
      obtain ⟨rfl, -⟩ := List.cons.inj htokens
      exact hnamed ⟨key, column, sign, last, rfl⟩
    rw [parseArgument, parseArgument]
    split
    · refine (hsteady.phrase _ hended (by simp only [Level.rank]; omega) hmore).bind ?_
      intro value last _ hlast
      exact .read _ hlast
    · exact .refuse .positionalAfterKeyword hended
    all_goals simp_all

theorem Steady.items_succ (done : List Expr) :
    SteadyAt extra 12 (fuel + 1) (parseItems origin · done ·) := by
  apply SteadyAt.succ
  intro tokens more hended hfuel hmore
  rw [parseItems, parseItems]
  refine (hsteady.item hended (by omega) hmore).bind ?_
  intro item rest hok hrest
  have hlength := length_lt_of_parseItem hok
  obtain ⟨again, last, hlast, hle, hpass, hextra⟩ := passComma_append extra .closeBracket hrest
  simp only [hpass, hextra]
  cases again with
  | false => exact .read _ hlast
  | true => exact hsteady.items _ hlast (by omega) hmore

theorem Steady.item_succ : SteadyAt extra 11 (fuel + 1) (parseItem origin) := by
  apply SteadyAt.succ
  intro tokens more hended hfuel hmore
  rw [parseItem, parseItem]
  refine (hsteady.phrase _ hended (by simp only [Level.rank]; omega) hmore).bind ?_
  intro item rest hok hrest
  have hlength := length_lt_of_parseLevel hok
  obtain ⟨⟨lexeme, column⟩, tail, rfl⟩ := hrest.exists_cons
  by_cases hcolon : lexeme = .symbol .colon
  · subst hcolon
    have htail := hrest.cons_of_ne_finish (by simp)
    simp only [List.length_cons] at hlength
    simp only [List.cons_append]
    refine (hsteady.phrase _ htail (by simp only [Level.rank]; omega) hmore).bind ?_
    intro last after _ hafter
    exact .read _ hafter
  · cases lexeme with
    | symbol symbol => cases symbol <;> first | exact .read _ hrest | simp at hcolon
    | _ => exact .read _ hrest

theorem Steady.list (column : Nat) (hended : Ended tokens) (hfuel : 12 * tokens.length + 12 ≤ fuel)
    (hmore : fuel ≤ more) : SameUpTo extra (do
        let (items, rest) ← parseItems origin fuel [] tokens
        let rest ← Source.expect .closeBracket .expectedListEnd rest
        return (Expr.list items.reverse (some (origin.shift column)), rest)) (do
        let (items, rest) ← parseItems origin more [] (tokens ++ extra)
        let rest ← Source.expect .closeBracket .expectedListEnd rest
        return (Expr.list items.reverse (some (origin.shift column)), rest)) := by
  refine (hsteady.items _ hended hfuel hmore).bind ?_
  intro items rest _ hrest
  refine SameUpTo.expect hrest ?_
  intro last _ hlast
  exact .read _ hlast

theorem Steady.atom_succ : SteadyAt extra 1 (fuel + 1) (parseAtom origin) := by
  apply SteadyAt.succ
  intro tokens more hended hfuel hmore
  obtain ⟨⟨lexeme, column⟩, tail, rfl⟩ := hended.exists_cons
  simp only [List.length_cons] at hfuel
  cases lexeme with
  | number digits =>
    have htail := hended.cons_of_ne_finish (by simp)
    simp only [List.cons_append, parseAtom]
    cases Decimal.readNumber digits with
    | error flaw => exact .failed _
    | ok n => exact .read _ htail
  | string value => exact .read _ (hended.cons_of_ne_finish (by simp))
  | name name => exact .read _ (hended.cons_of_ne_finish (by simp))
  | keyword word spelling =>
    have htail := hended.cons_of_ne_finish (by simp)
    cases word with
    | yes => exact .read _ htail
    | no => exact .read _ htail
    | _ => exact .failed _
  | finish => exact .failed _
  | symbol symbol =>
    have htail := hended.cons_of_ne_finish (by simp)
    cases symbol with
    | openParen =>
      simp only [List.cons_append, parseAtom]
      refine (hsteady.phrase _ htail (by simp only [Level.rank]; omega) hmore).bind ?_
      intro inner rest _ hrest
      refine SameUpTo.expect hrest ?_
      intro last _ hlast
      exact .read _ hlast
    | openBracket =>
      obtain ⟨⟨lexeme, place⟩, rest, rfl⟩ := htail.exists_cons
      have hlist := hsteady.list column htail (by omega) hmore
      cases lexeme with
      | symbol symbol =>
        cases symbol with
        | closeBracket => exact .read _ (htail.cons_of_ne_finish (by simp))
        | _ => simpa only [List.cons_append, parseAtom] using hlist
      | _ => simpa only [List.cons_append, parseAtom] using hlist
    | _ => exact .failed _

end

theorem steady (origin : Location) (extra : List Token) (fuel : Nat) :
    Steady origin extra fuel := by
  induction fuel with
  | zero =>
    constructor
    · intro level tokens more hended hfuel
      obtain ⟨token, rest, rfl⟩ := hended.exists_cons
      simp at hfuel
    all_goals
      simp only [SteadyAt]
      intros
      omega
  | succ fuel hsteady =>
    exact ⟨hsteady.phrase_succ, hsteady.links_succ, hsteady.suffixes_succ, hsteady.arguments_succ,
      hsteady.argument_succ, hsteady.atom_succ, hsteady.items_succ, hsteady.item_succ⟩

theorem parseTokens_append (hended : Ended tokens) :
    parseTokens origin (tokens ++ extra) = parseTokens origin tokens := by
  have hsame : SameUpTo extra (parseLevel origin (12 * tokens.length + 12) .disjunction tokens)
      (parseLevel origin (12 * (tokens ++ extra).length + 12) .disjunction (tokens ++ extra)) :=
    (steady origin extra _).phrase _ hended (by simp only [Level.rank]; omega)
      (by simp only [List.length_append]; omega)
  unfold parseTokens
  generalize parseLevel origin (12 * tokens.length + 12) .disjunction tokens = x at hsame ⊢
  generalize parseLevel origin (12 * (tokens ++ extra).length + 12)
    .disjunction (tokens ++ extra) = y at hsame ⊢
  cases hsame with
  | failed flaw => rfl
  | read e hrest =>
    obtain ⟨⟨lexeme, column⟩, rest, rfl⟩ := hrest.exists_cons
    cases lexeme <;> rfl

end Steadiness

theorem ended_of_parseLevel {origin : Location} {fuel : Nat} (hended : Ended tokens)
    (hfuel : 12 * tokens.length + level.rank ≤ fuel)
    (hok : parseLevel origin fuel level tokens = .ok (e, rest)) : Ended rest := by
  exact ((steady origin [] fuel).phrase level hended hfuel le_rfl).ended hok

theorem parseTokens_eq_ok_iff {origin : Location} {column : Nat}
    (hmark : ∀ token ∈ tokens, token.lexeme ≠ .finish) :
    parseTokens origin (tokens ++ [⟨.finish, column⟩]) = .ok e ↔ ∃ phrase : Phrase .disjunction,
        phrase.tokens = tokens ∧ phrase.expr origin = e := by
  constructor
  · intro hok
    rw [parseTokens, bind_eq_ok_iff] at hok
    obtain ⟨⟨value, rest⟩, hlevel, hok⟩ := hok
    have hrest := ended_of_parseLevel ⟨tokens, column, rfl⟩
      (by simp only [Level.rank]; omega) hlevel
    obtain ⟨phrase, htokens, rfl⟩ := (explains origin _).phrase hlevel
    obtain ⟨⟨lexeme, place⟩, after, rfl⟩ := hrest.exists_cons
    cases lexeme with
    | finish =>
      -- A mark before the last token would be one of `tokens`.
      rcases List.eq_nil_or_concat after with rfl | ⟨between, last, rfl⟩
      · cases hok
        exact ⟨phrase, (List.append_inj' htokens rfl).1.symm, rfl⟩
      · rw [List.concat_eq_append, ← List.cons_append, ← List.append_assoc] at htokens
        have heq := (List.append_inj' htokens rfl).1
        exact absurd rfl (hmark ⟨.finish, place⟩ (by simp [heq]))
    | _ => simp at hok
  · rintro ⟨phrase, rfl, rfl⟩
    have hread := (reads origin (12 * (phrase.tokens ++ [(⟨.finish, column⟩ : Token)]).length +
        12)).phrase phrase [⟨.finish, column⟩]
      (by simp only [List.length_append, Level.rank]; omega) (Level.stops_of_joint_none rfl)
    rw [parseTokens, hread]
    rfl

/-- The reader accepts exactly the phrases.  A list of tokens that ends with
its only mark is accepted with the meaning of its only derivation, or refused if
it has none, and nothing behind the mark is looked at. -/
theorem parseTokens_accepts_phrases (origin : Location) (tokens : List Token)
    (column : Nat) (hmark : ∀ token ∈ tokens, token.lexeme ≠ .finish) :
    (∀ e, parseTokens origin (tokens ++ [⟨.finish, column⟩]) = .ok e ↔
      ∃ phrase : Phrase .disjunction,
        phrase.tokens = tokens ∧ phrase.expr origin = e) ∧
    (∀ phrase other : Phrase .disjunction,
      phrase.tokens = tokens → other.tokens = tokens → phrase = other) ∧
    ((∀ phrase : Phrase .disjunction, phrase.tokens ≠ tokens) →
      ∃ flaw, parseTokens origin (tokens ++ [⟨.finish, column⟩]) =
        .error flaw) ∧
    ∀ extra, parseTokens origin (tokens ++ ⟨.finish, column⟩ :: extra) =
      parseTokens origin (tokens ++ [⟨.finish, column⟩]) := by
  refine ⟨fun e => parseTokens_eq_ok_iff hmark, ?_, ?_, ?_⟩
  · intro phrase other htokens hother
    have heq : phrase.tokens ++ [] = other.tokens ++ [] := by
      rw [htokens, hother]
    exact (phrase.unique other heq trivial trivial).1
  · intro hnone
    cases hresult : parseTokens origin (tokens ++ [⟨.finish, column⟩]) with
    | error flaw => exact ⟨flaw, rfl⟩
    | ok e =>
        obtain ⟨phrase, htokens, -⟩ := (parseTokens_eq_ok_iff hmark).mp hresult
        exact absurd htokens (hnone phrase)
  · intro extra
    have hended : Ended (tokens ++ [⟨.finish, column⟩]) :=
      ⟨tokens, column, rfl⟩
    rw [← parseTokens_append hended, List.append_assoc,
      List.singleton_append]

def callTokens : List Token :=
  [⟨.name ['f'], 0⟩, ⟨.symbol .openParen, 1⟩, ⟨.name ['x'], 2⟩,
    ⟨.symbol .comma, 3⟩, ⟨.name ['k'], 5⟩, ⟨.symbol .assign, 6⟩,
    ⟨.symbol .openBracket, 7⟩, ⟨.number ['1'], 8⟩, ⟨.symbol .colon, 9⟩,
    ⟨.number ['2'], 10⟩, ⟨.symbol .comma, 11⟩, ⟨.symbol .closeBracket, 12⟩,
    ⟨.symbol .comma, 13⟩, ⟨.symbol .closeParen, 14⟩, ⟨.symbol .less, 16⟩,
    ⟨.symbol .minus, 18⟩, ⟨.name ['y'], 19⟩]

theorem callTokens_have_one_phrase :
    (∀ token ∈ callTokens, token.lexeme ≠ .finish) ∧
    ∃! phrase : Phrase .disjunction, phrase.tokens = callTokens := by
  have hmark : ∀ token ∈ callTokens, token.lexeme ≠ .finish := by decide
  obtain ⟨haccepts, hunique, -, -⟩ :=
    parseTokens_accepts_phrases ⟨1, 1⟩ callTokens 20 hmark
  have hok : ∃ e,
      parseTokens ⟨1, 1⟩ (callTokens ++ [⟨.finish, 20⟩]) = .ok e :=
    ⟨_, rfl⟩
  obtain ⟨e, hok⟩ := hok
  obtain ⟨phrase, htokens, -⟩ := (haccepts e).mp hok
  exact ⟨hmark, phrase, htokens,
    fun other hother => hunique other phrase hother htokens⟩

end Folio.Source
