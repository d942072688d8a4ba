import Folio.Proofs.Phrase
import Mathlib.Data.List.TakeWhile

/-!
# Reading phrases

The reader of expressions and the grammar agree in both directions.  What the
reader returns is the meaning of a phrase whose tokens it has used up, and a
phrase is read from its tokens if what follows cannot lengthen it.

The second direction needs enough fuel.  Twelve for every token and the rank of
the level are enough, since a level that uses up no token hands on to a level
of smaller rank.
-/

namespace Folio.Source

variable {level : Level} {rest tokens : List Token} {taken : List Text} {closing : Symbol}
   {e : Expr}

theorem bind_eq_ok_iff {ε α β : Type} {x : Except ε α} {f : α → Except ε β}
    {b : β} : (x >>= f) = .ok b ↔ ∃ a, x = .ok a ∧ f a = .ok b := by
  cases x <;> simp [bind, Except.bind]

theorem readNumber_eq_ok_iff {digits : Text} {n : Nat} : Decimal.readNumber digits = .ok n ↔
      IsNumeral digits ∧ n = numeralValue digits := by
  have hlength : (digits.takeWhile Text.isDecimal).length ≤ digits.length :=
    (List.takeWhile_sublist _).length_le
  have hall : (∀ c ∈ digits, Text.isDecimal c = true) ↔
      ¬ (digits.takeWhile Text.isDecimal).length < digits.length := by
    constructor
    · intro hdecimal
      rw [List.takeWhile_eq_self_iff.mpr hdecimal]
      omega
    · intro hlong
      have heq : digits.takeWhile Text.isDecimal = digits :=
        (List.takeWhile_prefix _).eq_of_length (by omega)
      exact List.takeWhile_eq_self_iff.mp heq
  unfold Decimal.readNumber
  constructor
  · intro hread
    dsimp only at hread
    split at hread
    · simp at hread
    · rename_i hshort
      split at hread
      · simp at hread
      · rename_i hwhole
        simp only [Bool.or_eq_true, List.isEmpty_iff, decide_eq_true_eq, not_or] at hwhole
        refine ⟨⟨hwhole.1, hall.mpr hwhole.2, by omega⟩, ?_⟩
        simpa [numeralValue] using hread.symm
  · rintro ⟨hnumeral, rfl⟩
    have hself := List.takeWhile_eq_self_iff.mpr hnumeral.decimal
    have hshort : ¬ Decimal.maxDigits < digits.length := by
      have := hnumeral.short
      omega
    simp [hself, hshort, hnumeral.nonempty, numeralValue]

section Completeness

section

variable (origin : Location) (fuel : Nat)

def ReadsPhrases : Prop :=
  ∀ {level : Level} (phrase : Phrase level) (rest : List Token),
    12 * phrase.tokens.length + level.rank ≤ fuel → level.Stops rest →
    parseLevel origin fuel level (phrase.tokens ++ rest) = .ok (phrase.expr origin, rest)

def ReadsLinks : Prop :=
  ∀ {level : Level} (links : Links level) (left : Expr) (rest : List Token), level.joins = true →
    12 * links.tokens.length + 1 ≤ fuel → level.Stops rest →
    parseOperators origin fuel level left (links.tokens ++ rest) =
      .ok (links.expr origin left, rest)

def ReadsSuffixes : Prop :=
  ∀ (suffixes : Suffixes) (e : Expr) (rest : List Token),
    12 * suffixes.tokens.length + 1 ≤ fuel → Level.suffix.Stops rest →
    parseSuffixes origin fuel e (suffixes.tokens ++ rest) = .ok (suffixes.expr origin e, rest)

def ReadsArguments : Prop :=
  ∀ {taken : List Text} (arguments : ArgumentList taken) (done : Arguments) (closed : Nat)
      (rest : List Token),
    12 * arguments.tokens.length + 12 ≤ fuel → done.named.map Prod.fst = taken.map String.ofList →
    parseArguments origin fuel done (arguments.tokens ++ ⟨.symbol .closeParen, closed⟩ :: rest) =
      .ok (⟨(arguments.values origin).reverse ++ done.positional,
          (arguments.namedValues origin).reverse ++ done.named⟩,
        ⟨.symbol .closeParen, closed⟩ :: rest)

def ReadsPositional : Prop :=
  ∀ (value : Phrase .disjunction) (done : Arguments) (rest : List Token),
    12 * value.tokens.length + 11 ≤ fuel → done.named = [] →
    Level.disjunction.Stops rest → NotNext .assign rest →
    parseArgument origin fuel done (value.tokens ++ rest) =
      .ok ({ done with positional := value.expr origin :: done.positional }, rest)

def ReadsNamed : Prop :=
  ∀ {taken : List Text} (key : Text) (column sign : Nat) (value : Phrase .disjunction)
      (done : Arguments) (rest : List Token), 12 * (value.tokens.length + 2) + 11 ≤ fuel →
    done.named.map Prod.fst = taken.map String.ofList → key ∉ taken → Level.disjunction.Stops rest →
    parseArgument origin fuel done (⟨.name key, column⟩ :: ⟨.symbol .assign, sign⟩ ::
          (value.tokens ++ rest)) = .ok ({ done with
        named := (String.ofList key, value.expr origin) :: done.named }, rest)

def ReadsAtoms : Prop :=
  ∀ (phrase : Phrase .atom) (rest : List Token), 12 * phrase.tokens.length + 1 ≤ fuel →
    parseAtom origin fuel (phrase.tokens ++ rest) = .ok (phrase.expr origin, rest)

def ReadsItems : Prop :=
  ∀ (items : ItemList) (done : List Expr) (closed : Nat) (rest : List Token),
    12 * items.tokens.length + 12 ≤ fuel → parseItems origin fuel done
        (items.tokens ++ ⟨.symbol .closeBracket, closed⟩ :: rest) =
      .ok ((items.exprs origin).reverse ++ done, ⟨.symbol .closeBracket, closed⟩ :: rest)

def ReadsItem : Prop :=
  ∀ (value : Phrase .disjunction) (rest : List Token), 12 * value.tokens.length + 11 ≤ fuel →
    Level.disjunction.Stops rest → NotNext .colon rest →
    parseItem origin fuel (value.tokens ++ rest) = .ok (value.expr origin, rest)

def ReadsRange : Prop :=
  ∀ (first : Phrase .disjunction) (colon : Nat) (last : Phrase .disjunction) (rest : List Token),
    12 * (first.tokens.length + 1 + last.tokens.length) + 11 ≤ fuel → Level.disjunction.Stops rest →
    parseItem origin fuel (first.tokens ++ ⟨.symbol .colon, colon⟩ :: (last.tokens ++ rest)) =
      .ok (.range (first.expr origin) (last.expr origin) (some (origin.shift colon)), rest)

/-- What is read with an amount of fuel. -/
structure Reads : Prop where
  phrase : ReadsPhrases origin fuel
  links : ReadsLinks origin fuel
  suffixes : ReadsSuffixes origin fuel
  arguments : ReadsArguments origin fuel
  positional : ReadsPositional origin fuel
  named : ReadsNamed origin fuel
  atom : ReadsAtoms origin fuel
  items : ReadsItems origin fuel
  item : ReadsItem origin fuel
  range : ReadsRange origin fuel

end

variable {origin : Location} {fuel : Nat}

theorem Phrase.tokens_length_pos (phrase : Phrase level) : 0 < phrase.tokens.length := by
  obtain ⟨tail, htail⟩ := phrase.tokens_eq_head_cons
  simp [htail]

theorem operator?_eq_some_iff {lexeme : Lexeme} {op : Operator} :
    level.operator? lexeme = some op ↔ Spells level lexeme op := by
  constructor
  · intro hop
    unfold Level.operator? at hop
    split at hop <;> cases hop <;> constructor
  · intro hspells
    cases hspells <;> rfl

theorem Level.Stops.operator?_eq_none {token : Token} (hstops : level.Stops (token :: rest)) :
    level.operator? token.lexeme = none := by
  cases hop : level.operator? token.lexeme with
  | none => rfl
  | some op => exact absurd (operator?_eq_some_iff.mp hop) hstops.not_spells

theorem Level.next_eq_operand (hjoins : level.joins = true) : level.next = level.operand := by
  cases level <;> simp_all [Level.joins, Level.next, Level.operand]

theorem parseLevel_row (hjoins : level.joins = true) (tokens : List Token) :
    parseLevel origin (fuel + 1) level tokens = (do
      let (e, rest) ← parseLevel origin fuel level.operand tokens
      parseOperators origin fuel level e rest) := by
  rw [← Level.next_eq_operand hjoins]
  cases level <;> simp_all [parseLevel, Level.joins]

theorem parseLevel_affirm (hopens : ∃ token rest, tokens = token :: rest ∧
      Level.comparison.opens token.lexeme = true) : parseLevel origin (fuel + 1) .negation tokens =
      parseLevel origin fuel .comparison tokens := by
  obtain ⟨token, rest, rfl, hopens⟩ := hopens
  rw [parseLevel]
  intros
  simp_all [Level.opens, Level.rank]

theorem parseLevel_keepSign (hopens : ∃ token rest, tokens = token :: rest ∧
      Level.suffix.opens token.lexeme = true) : parseLevel origin (fuel + 1) .minus tokens =
      parseLevel origin fuel .suffix tokens := by
  obtain ⟨token, rest, rfl, hopens⟩ := hopens
  rw [parseLevel]
  intros
  simp_all [Level.opens, Level.rank]

theorem Phrase.opens_append (phrase : Phrase level) (rest : List Token) :
    ∃ token more, phrase.tokens ++ rest = token :: more ∧ level.opens token.lexeme = true := by
  obtain ⟨tail, htail⟩ := phrase.tokens_eq_head_cons
  exact ⟨phrase.head, tail ++ rest, by simp [htail], phrase.opens_head⟩

theorem ItemList.opens_append (items : ItemList) (rest : List Token) :
    ∃ token more, items.tokens ++ rest = token :: more ∧
      Level.disjunction.opens token.lexeme = true := by
  cases items with
  | item value tail => simpa [ItemList.tokens] using value.opens_append (tail.tokens ++ rest)
  | range first colon last tail =>
    simpa [ItemList.tokens] using first.opens_append
      (⟨.symbol .colon, colon⟩ :: (last.tokens ++ (tail.tokens ++ rest)))

theorem ArgumentList.opens_append {taken : List Text} (arguments : ArgumentList taken)
    (rest : List Token) : ∃ token more, arguments.tokens ++ rest = token :: more ∧
      Level.disjunction.opens token.lexeme = true := by
  cases arguments with
  | positional value tail =>
    simpa [ArgumentList.tokens] using value.opens_append (tail.tokens ++ rest)
  | named key column sign hfresh value tail => simp [ArgumentList.tokens, Level.opens]

theorem ItemTail.stops_append (tail : ItemTail)
    (hstops : level.Stops rest) : level.Stops (tail.tokens ++ rest) := by
  cases tail with
  | done => simpa [ItemTail.tokens] using hstops
  | comma column => exact Level.stops_of_joint_none rfl
  | more column items => exact Level.stops_of_joint_none rfl

theorem ArgumentTail.stops_append (tail : ArgumentTail taken)
    (hstops : level.Stops rest) : level.Stops (tail.tokens ++ rest) := by
  cases tail with
  | done => simpa [ArgumentTail.tokens] using hstops
  | comma column => exact Level.stops_of_joint_none rfl
  | more column items => exact Level.stops_of_joint_none rfl

theorem Links.stops_append (links : Links level) (hjoins : level.joins = true)
    (hstops : level.Stops rest) : level.operand.Stops (links.tokens ++ rest) := by
  cases links with
  | done => simpa [Links.tokens] using hstops.mono (Level.rank_operand_lt hjoins).le
  | more op token hspells operand more => exact hspells.stops_operand

theorem Level.stops_atom (tokens : List Token) : Level.atom.Stops tokens := by
  cases tokens with
  | nil => trivial
  | cons token rest =>
    intro other hjoint
    unfold Lexeme.joint? at hjoint
    split at hjoint <;> cases hjoint <;> decide

section

variable (hreads : Reads origin fuel)

include hreads

theorem Reads.phrase_succ : ReadsPhrases origin (fuel + 1) := by
  intro level phrase rest hfuel hstops
  cases phrase with
  | row hjoins first links =>
    have hrank := Level.rank_operand_lt hjoins
    have hpos := first.tokens_length_pos
    simp only [Phrase.tokens, List.length_append] at hfuel
    have hfirst := hreads.phrase first (links.tokens ++ rest) (by omega)
      (links.stops_append hjoins hstops)
    have hlinks := hreads.links links (first.expr origin) rest hjoins (by omega) hstops
    rw [parseLevel_row hjoins, Phrase.tokens, List.append_assoc, hfirst]
    simpa [bind, Except.bind, Phrase.expr] using hlinks
  | deny spelling column operand =>
    simp only [Phrase.tokens, List.length_cons] at hfuel
    have hoperand := hreads.phrase operand rest (by omega) hstops
    simp [Phrase.tokens, parseLevel, hoperand, bind, Except.bind, pure, Except.pure, Phrase.expr]
  | affirm operand =>
    simp only [Phrase.tokens, Level.rank] at hfuel
    have hoperand := hreads.phrase operand rest
      (by simp only [Level.rank]; omega) (hstops.mono (by decide))
    rw [Phrase.tokens, parseLevel_affirm (operand.opens_append rest), hoperand, Phrase.expr]
  | negate column operand =>
    simp only [Phrase.tokens, List.length_cons] at hfuel
    have hoperand := hreads.phrase operand rest (by omega) hstops
    simp [Phrase.tokens, parseLevel, hoperand, bind, Except.bind, pure, Except.pure, Phrase.expr]
  | keepSign operand =>
    simp only [Phrase.tokens, Level.rank] at hfuel
    have hoperand := hreads.phrase operand rest
      (by simp only [Level.rank]; omega) (hstops.mono (by decide))
    rw [Phrase.tokens, parseLevel_keepSign (operand.opens_append rest), hoperand, Phrase.expr]
  | suffixed head suffixes =>
    have hpos := head.tokens_length_pos
    simp only [Phrase.tokens, List.length_append, Level.rank] at hfuel
    have hhead := hreads.phrase head (suffixes.tokens ++ rest) (by simp only [Level.rank]; omega)
      (Level.stops_atom _)
    have hsuffixes := hreads.suffixes suffixes (head.expr origin) rest (by omega) hstops
    rw [Phrase.tokens, List.append_assoc, parseLevel, hhead]
    simpa [bind, Except.bind, Phrase.expr] using hsuffixes
  | _ =>
    have hatom := hreads.atom _ rest (by
      simp only [Level.rank] at hfuel
      exact Nat.le_of_succ_le_succ hfuel)
    rwa [parseLevel]

theorem Reads.links_succ : ReadsLinks origin (fuel + 1) := by
  intro level links left rest hjoins hfuel hstops
  cases links with
  | done =>
    cases rest with
    | nil => simp [Links.tokens, parseOperators, Links.expr]
    | cons token more => simp [Links.tokens, parseOperators, Links.expr, hstops.operator?_eq_none]
  | more op token hspells operand links =>
    simp only [Links.tokens, List.length_cons, List.length_append] at hfuel
    have hrank : level.operand.rank ≤ 10 := by cases level <;> decide
    have hoperand := hreads.phrase operand (links.tokens ++ rest) (by omega)
      (links.stops_append hjoins hstops)
    have hlinks := hreads.links links
      (op.apply left (operand.expr origin) (origin.shift token.column)) rest
      hjoins (by omega) hstops
    simp [Links.tokens, parseOperators, operator?_eq_some_iff.mpr hspells,
      Level.next_eq_operand hjoins, hoperand, hlinks, bind, Except.bind, Links.expr]

theorem Reads.atom_succ : ReadsAtoms origin (fuel + 1) := by
  intro phrase rest hfuel
  cases phrase with
  | row hjoins => simp [Level.joins] at hjoins
  | number digits hnumeral column =>
    have hread := readNumber_eq_ok_iff.mpr ⟨hnumeral, rfl⟩
    simp [Phrase.tokens, parseAtom, hread, Phrase.expr]
  | string | yes | no | name => simp [Phrase.tokens, parseAtom, Phrase.expr]
  | parentheses opened inner closed =>
    simp only [Phrase.tokens, List.length_cons, List.length_append, List.length_nil] at hfuel
    have hinner := hreads.phrase inner (⟨.symbol .closeParen, closed⟩ :: rest)
      (by simp only [Level.rank]; omega) (Level.stops_of_joint_none rfl)
    simp [Phrase.tokens, parseAtom, hinner, expect, bind, Except.bind, pure, Except.pure,
      Phrase.expr]
  | emptyList opened closed =>
    simp [Phrase.tokens, parseAtom, expect, bind, Except.bind, pure, Except.pure, Phrase.expr]
  | list opened items closed =>
    simp only [Phrase.tokens, List.length_cons, List.length_append, List.length_nil] at hfuel
    have hitems := hreads.items items [] closed rest (by omega)
    obtain ⟨token, more, htokens, hopens⟩ :=
      items.opens_append (⟨.symbol .closeBracket, closed⟩ :: rest)
    simp only [Phrase.tokens, List.cons_append, List.append_assoc, List.nil_append, parseAtom]
    rw [htokens] at hitems ⊢
    split
    · simp_all [Level.opens]
    · simp [hitems, expect, bind, Except.bind, pure, Except.pure, Phrase.expr]

theorem Reads.suffixes_succ : ReadsSuffixes origin (fuel + 1) := by
  intro suffixes e rest hfuel hstops
  cases suffixes with
  | done =>
    simp only [Suffixes.tokens, List.nil_append, Suffixes.expr, parseSuffixes]
    split
    · have := hstops .suffix rfl
      omega
    · have := hstops .suffix rfl
      omega
    · rfl
  | member dot name column suffixes =>
    simp only [Suffixes.tokens, List.length_cons] at hfuel
    have hsuffixes := hreads.suffixes suffixes
      (.attribute e (String.ofList name) (some (origin.shift dot))) rest (by omega) hstops
    simpa [Suffixes.tokens, parseSuffixes, Suffixes.expr] using hsuffixes
  | emptyCall opened closed suffixes =>
    simp only [Suffixes.tokens, List.length_cons] at hfuel
    have hsuffixes := hreads.suffixes suffixes
      (.call e [] [] (some (origin.shift opened))) rest (by omega) hstops
    simpa [Suffixes.tokens, parseSuffixes, expect, bind, Except.bind, Suffixes.expr] using hsuffixes
  | call opened arguments closed suffixes =>
    simp only [Suffixes.tokens, List.length_cons, List.length_append] at hfuel
    have harguments := hreads.arguments arguments ⟨[], []⟩ closed
      (suffixes.tokens ++ rest) (by omega) rfl
    have hsuffixes := hreads.suffixes suffixes
      (.call e (arguments.values origin) (arguments.namedValues origin)
        (some (origin.shift opened))) rest (by omega) hstops
    obtain ⟨token, more, htokens, hopens⟩ := arguments.opens_append
      (⟨.symbol .closeParen, closed⟩ :: (suffixes.tokens ++ rest))
    simp only [Suffixes.tokens, List.cons_append, List.append_assoc, parseSuffixes]
    rw [htokens] at harguments ⊢
    split
    · simp_all [Level.opens]
    · simpa [harguments, expect, bind, Except.bind, Suffixes.expr] using hsuffixes

end

theorem passComma_opens {column : Nat}
    (hclosing : Level.disjunction.opens (.symbol closing) = false)
    (hopens : ∃ token rest, tokens = token :: rest ∧ Level.disjunction.opens token.lexeme = true) :
    passComma closing (⟨.symbol .comma, column⟩ :: tokens) = (true, tokens) := by
  obtain ⟨token, rest, rfl, hopens⟩ := hopens
  have hne : token.lexeme ≠ .symbol closing := by
    intro heq
    simp [heq, hclosing] at hopens
  simp [passComma, hne]

section

variable (hreads : Reads origin fuel)

include hreads

theorem Reads.item_succ : ReadsItem origin (fuel + 1) := by
  intro value rest hfuel hstops hnext
  have hvalue := hreads.phrase value rest (by simp only [Level.rank]; omega) hstops
  rw [parseItem, hvalue]
  simp only [bind, Except.bind]
  split
  · simp [NotNext] at hnext
  · rfl

theorem Reads.range_succ : ReadsRange origin (fuel + 1) := by
  intro first colon last rest hfuel hstops
  have hfirst := hreads.phrase first (⟨.symbol .colon, colon⟩ :: (last.tokens ++ rest))
    (by simp only [Level.rank]; omega) (Level.stops_of_joint_none rfl)
  have hlast := hreads.phrase last rest (by simp only [Level.rank]; omega) hstops
  rw [parseItem, hfirst]
  simp [bind, Except.bind, hlast]

theorem Reads.itemTail (tail : ItemTail) (done : List Expr)
    (closed : Nat) (rest : List Token) (hfuel : 12 * tail.tokens.length ≤ fuel) :
    (match passComma .closeBracket (tail.tokens ++ ⟨.symbol .closeBracket, closed⟩ :: rest) with
      | (true, rest) => parseItems origin fuel done rest
      | (false, rest) => .ok (done, rest)) =
      .ok ((tail.exprs origin).reverse ++ done, ⟨.symbol .closeBracket, closed⟩ :: rest) := by
  cases tail with
  | done => simp [ItemTail.tokens, passComma, ItemTail.exprs]
  | comma column => simp [ItemTail.tokens, passComma, ItemTail.exprs]
  | more column items =>
    simp only [ItemTail.tokens, List.length_cons] at hfuel
    have hitems := hreads.items items done closed rest (by omega)
    simp only [ItemTail.tokens, List.cons_append, ItemTail.exprs]
    rw [passComma_opens rfl (items.opens_append _)]
    exact hitems

theorem Reads.items_succ : ReadsItems origin (fuel + 1) := by
  intro items done closed rest hfuel
  rw [parseItems]
  cases items with
  | item value tail =>
    simp only [ItemList.tokens, List.length_append] at hfuel
    have hitem := hreads.item value
      (tail.tokens ++ ⟨.symbol .closeBracket, closed⟩ :: rest) (by omega)
      (tail.stops_append (Level.stops_of_joint_none rfl))
      (by cases tail <;> simp [ItemTail.tokens, NotNext])
    have htail := hreads.itemTail tail (value.expr origin :: done) closed rest (by omega)
    simp only [ItemList.tokens, List.append_assoc, hitem, bind, Except.bind]
    refine htail.trans ?_
    simp [ItemList.exprs]
  | range first colon last tail =>
    simp only [ItemList.tokens, List.length_append, List.length_cons] at hfuel
    have hitem := hreads.range first colon last
      (tail.tokens ++ ⟨.symbol .closeBracket, closed⟩ :: rest) (by omega)
      (tail.stops_append (Level.stops_of_joint_none rfl))
    have htail := hreads.itemTail tail (.range (first.expr origin) (last.expr origin)
        (some (origin.shift colon)) :: done) closed rest (by omega)
    simp only [ItemList.tokens, List.append_assoc, List.cons_append, hitem, bind, Except.bind]
    refine htail.trans ?_
    simp [ItemList.exprs]

theorem Reads.positional_succ : ReadsPositional origin (fuel + 1) := by
  intro value done rest hfuel hnamed hstops hnext
  have hvalue := hreads.phrase value rest (by simp only [Level.rank]; omega) hstops
  rw [parseArgument]
  · simp [hnamed, hvalue, bind, Except.bind]
  · intro key column sign more
    exact value.append_ne_named hnext

theorem Reads.named_succ : ReadsNamed origin (fuel + 1) := by
  intro taken key column sign value done rest hfuel hnamed hfresh hstops
  have hvalue := hreads.phrase value rest (by simp only [Level.rank]; omega) hstops
  have hnew : done.named.any (·.1 == String.ofList key) = false := by
    rw [List.any_eq_false]
    intro pair hpair heq
    have hmem : pair.1 ∈ taken.map String.ofList := hnamed ▸ List.mem_map_of_mem hpair
    obtain ⟨other, hother, hspelled⟩ := List.mem_map.mp hmem
    have : other = key := by
      have := congrArg String.toList (hspelled.trans (beq_iff_eq.mp heq))
      simpa using this
    exact hfresh (this ▸ hother)
  rw [parseArgument]
  simp [hvalue, hnew, bind, Except.bind]

theorem Reads.argumentTail (tail : ArgumentTail taken)
    (done : Arguments) (closed : Nat) (rest : List Token) (hfuel : 12 * tail.tokens.length ≤ fuel)
    (hnamed : done.named.map Prod.fst = taken.map String.ofList) : (match passComma .closeParen
        (tail.tokens ++ ⟨.symbol .closeParen, closed⟩ :: rest) with
      | (true, rest) => parseArguments origin fuel done rest
      | (false, rest) => .ok (done, rest)) =
      .ok (⟨(tail.values origin).reverse ++ done.positional,
          (tail.namedValues origin).reverse ++ done.named⟩,
        ⟨.symbol .closeParen, closed⟩ :: rest) := by
  cases tail with
  | done => simp [ArgumentTail.tokens, passComma, ArgumentTail.values, ArgumentTail.namedValues]
  | comma column =>
    simp [ArgumentTail.tokens, passComma, ArgumentTail.values, ArgumentTail.namedValues]
  | more column arguments =>
    simp only [ArgumentTail.tokens, List.length_cons] at hfuel
    have harguments := hreads.arguments arguments done closed rest (by omega) hnamed
    simp only [ArgumentTail.tokens, List.cons_append, ArgumentTail.values, ArgumentTail.namedValues]
    rw [passComma_opens rfl (arguments.opens_append _)]
    exact harguments

theorem Reads.arguments_succ : ReadsArguments origin (fuel + 1) := by
  intro taken arguments done closed rest hfuel hnamed
  rw [parseArguments]
  cases arguments with
  | positional value tail =>
    simp only [ArgumentList.tokens, List.length_append] at hfuel
    have hargument := hreads.positional value done
      (tail.tokens ++ ⟨.symbol .closeParen, closed⟩ :: rest) (by omega) (by simpa using hnamed)
      (tail.stops_append (Level.stops_of_joint_none rfl))
      (by cases tail <;> simp [ArgumentTail.tokens, NotNext])
    have htail := hreads.argumentTail tail
      { done with positional := value.expr origin :: done.positional } closed rest (by omega) hnamed
    simp only [ArgumentList.tokens, List.append_assoc, hargument, bind, Except.bind]
    refine htail.trans ?_
    simp [ArgumentList.values, ArgumentList.namedValues]
  | named key column sign hfresh value tail =>
    simp only [ArgumentList.tokens, List.length_append, List.length_cons] at hfuel
    have hargument := hreads.named key column sign value done
      (tail.tokens ++ ⟨.symbol .closeParen, closed⟩ :: rest) (by omega)
      hnamed hfresh (tail.stops_append (Level.stops_of_joint_none rfl))
    have htail := hreads.argumentTail tail { done with
        named := (String.ofList key, value.expr origin) :: done.named }
      closed rest (by omega) (by simp [hnamed])
    simp only [ArgumentList.tokens, List.append_assoc, List.cons_append, hargument, bind,
      Except.bind]
    refine htail.trans ?_
    simp [ArgumentList.values, ArgumentList.namedValues]

end

theorem reads (origin : Location) (fuel : Nat) : Reads origin fuel := by
  induction fuel with
  | zero =>
    constructor
    · intro level phrase rest hfuel
      have := phrase.tokens_length_pos
      omega
    all_goals
      simp only [ReadsLinks, ReadsSuffixes, ReadsArguments, ReadsPositional, ReadsNamed, ReadsAtoms,
        ReadsItems, ReadsItem, ReadsRange]
      intros
      omega
  | succ fuel hreads =>
    exact ⟨hreads.phrase_succ, hreads.links_succ, hreads.suffixes_succ, hreads.arguments_succ,
      hreads.positional_succ, hreads.named_succ, hreads.atom_succ, hreads.items_succ,
      hreads.item_succ, hreads.range_succ⟩

end Completeness

section Soundness

section

variable (origin : Location) (fuel : Nat)

def ExplainsPhrases : Prop :=
  ∀ {level : Level} {tokens rest : List Token} {e : Expr},
    parseLevel origin fuel level tokens = .ok (e, rest) → ∃ phrase : Phrase level,
      tokens = phrase.tokens ++ rest ∧ e = phrase.expr origin

def ExplainsLinks : Prop :=
  ∀ {level : Level} {left e : Expr} {tokens rest : List Token},
    parseOperators origin fuel level left tokens = .ok (e, rest) → ∃ links : Links level,
      tokens = links.tokens ++ rest ∧ e = links.expr origin left

def ExplainsSuffixes : Prop :=
  ∀ {head e : Expr} {tokens rest : List Token},
    parseSuffixes origin fuel head tokens = .ok (e, rest) → ∃ suffixes : Suffixes,
      tokens = suffixes.tokens ++ rest ∧ e = suffixes.expr origin head

def ExplainsArguments : Prop :=
  ∀ {taken : List Text} {done all : Arguments} {tokens rest : List Token},
    done.named.map Prod.fst = taken.map String.ofList →
    parseArguments origin fuel done tokens = .ok (all, rest) →
    ∃ arguments : ArgumentList taken, tokens = arguments.tokens ++ rest ∧
      all = ⟨(arguments.values origin).reverse ++ done.positional,
        (arguments.namedValues origin).reverse ++ done.named⟩

def ExplainsArgument : Prop :=
  ∀ {done more : Arguments} {tokens rest : List Token},
    parseArgument origin fuel done tokens = .ok (more, rest) →
    (∃ value : Phrase .disjunction, done.named = [] ∧ tokens = value.tokens ++ rest ∧ more =
        { done with positional := value.expr origin :: done.positional }) ∨
    (∃ (key : Text) (column sign : Nat) (value : Phrase .disjunction),
      String.ofList key ∉ done.named.map Prod.fst ∧
      tokens = ⟨.name key, column⟩ :: ⟨.symbol .assign, sign⟩ :: (value.tokens ++ rest) ∧
      more = { done with
        named := (String.ofList key, value.expr origin) :: done.named })

def ExplainsAtoms : Prop :=
  ∀ {tokens rest : List Token} {e : Expr}, parseAtom origin fuel tokens = .ok (e, rest) →
    ∃ phrase : Phrase .atom, tokens = phrase.tokens ++ rest ∧ e = phrase.expr origin

def ExplainsItems : Prop :=
  ∀ {done all : List Expr} {tokens rest : List Token},
    parseItems origin fuel done tokens = .ok (all, rest) →
    ∃ items : ItemList, tokens = items.tokens ++ rest ∧ all = (items.exprs origin).reverse ++ done

def ExplainsItem : Prop :=
  ∀ {e : Expr} {tokens rest : List Token}, parseItem origin fuel tokens = .ok (e, rest) →
    (∃ value : Phrase .disjunction, tokens = value.tokens ++ rest ∧ e = value.expr origin) ∨
    (∃ (first : Phrase .disjunction) (colon : Nat) (last : Phrase .disjunction),
      tokens = first.tokens ++ ⟨.symbol .colon, colon⟩ :: (last.tokens ++ rest) ∧
      e = .range (first.expr origin) (last.expr origin) (some (origin.shift colon)))

/-- What was read with an amount of fuel. -/
structure Explains : Prop where
  phrase : ExplainsPhrases origin fuel
  links : ExplainsLinks origin fuel
  suffixes : ExplainsSuffixes origin fuel
  arguments : ExplainsArguments origin fuel
  argument : ExplainsArgument origin fuel
  atom : ExplainsAtoms origin fuel
  items : ExplainsItems origin fuel
  item : ExplainsItem origin fuel

end

variable {origin : Location} {fuel : Nat}

theorem expect_eq_ok_iff {symbol : Symbol} {reason : Refusal} :
    expect symbol reason tokens = .ok rest ↔
      ∃ column, tokens = ⟨.symbol symbol, column⟩ :: rest := by
  unfold expect
  split
  · split <;> simp_all
  · simp_all [refuse]

theorem passComma_eq_true (hpass : passComma closing tokens = (true, rest)) :
    ∃ column, tokens = ⟨.symbol .comma, column⟩ :: rest := by
  unfold passComma at hpass
  split at hpass <;> simp_all

theorem eq_of_passComma_eq_false (hpass : passComma closing tokens = (false, rest)) :
    tokens = rest ∨ ∃ column, tokens = ⟨.symbol .comma, column⟩ :: rest := by
  unfold passComma at hpass
  split at hpass <;> simp_all

section

variable (hread : Explains origin fuel)

include hread

theorem Explains.phrase_succ : ExplainsPhrases origin (fuel + 1) := by
  intro level tokens rest e hok
  by_cases hjoins : level.joins = true
  · rw [parseLevel_row hjoins, bind_eq_ok_iff] at hok
    obtain ⟨⟨left, middle⟩, hfirst, hlinks⟩ := hok
    obtain ⟨first, rfl, rfl⟩ := hread.phrase hfirst
    obtain ⟨links, rfl, rfl⟩ := hread.links hlinks
    exact ⟨.row hjoins first links, by simp [Phrase.tokens], rfl⟩
  · cases level with
    | negation =>
      unfold parseLevel at hok
      dsimp only at hok
      split at hok
      · rename_i spelling column more
        simp only [bind_eq_ok_iff] at hok
        obtain ⟨⟨operand, middle⟩, hoperand, hpure⟩ := hok
        obtain ⟨operand, rfl, rfl⟩ := hread.phrase hoperand
        cases hpure
        exact ⟨.deny spelling column operand, rfl, rfl⟩
      · obtain ⟨operand, rfl, rfl⟩ := hread.phrase hok
        exact ⟨.affirm operand, rfl, rfl⟩
    | minus =>
      unfold parseLevel at hok
      dsimp only at hok
      split at hok
      · rename_i column more
        simp only [bind_eq_ok_iff] at hok
        obtain ⟨⟨operand, middle⟩, hoperand, hpure⟩ := hok
        obtain ⟨operand, rfl, rfl⟩ := hread.phrase hoperand
        cases hpure
        exact ⟨.negate column operand, rfl, rfl⟩
      · obtain ⟨operand, rfl, rfl⟩ := hread.phrase hok
        exact ⟨.keepSign operand, rfl, rfl⟩
    | suffix =>
      rw [parseLevel, bind_eq_ok_iff] at hok
      obtain ⟨⟨head, middle⟩, hhead, hsuffixes⟩ := hok
      obtain ⟨head, rfl, rfl⟩ := hread.phrase hhead
      obtain ⟨suffixes, rfl, rfl⟩ := hread.suffixes hsuffixes
      exact ⟨.suffixed head suffixes, by simp [Phrase.tokens], rfl⟩
    | atom =>
      rw [parseLevel] at hok
      exact hread.atom hok
    | _ => simp [Level.joins] at hjoins

theorem Explains.links_succ : ExplainsLinks origin (fuel + 1) := by
  intro level left e tokens rest hok
  cases tokens with
  | nil =>
    simp only [parseOperators, Except.ok.injEq, Prod.mk.injEq] at hok
    obtain ⟨rfl, rfl⟩ := hok
    exact ⟨.done, rfl, rfl⟩
  | cons token more =>
    rw [parseOperators] at hok
    split at hok
    · cases hok
      exact ⟨.done, rfl, rfl⟩
    · rename_i op hop
      have hspells := operator?_eq_some_iff.mp hop
      rw [Level.next_eq_operand hspells.joins] at hok
      simp only [bind_eq_ok_iff] at hok
      obtain ⟨⟨right, middle⟩, hoperand, hlinks⟩ := hok
      obtain ⟨operand, rfl, rfl⟩ := hread.phrase hoperand
      obtain ⟨links, rfl, rfl⟩ := hread.links hlinks
      exact ⟨.more op token hspells operand links, by simp [Links.tokens], rfl⟩

theorem Explains.suffixes_succ : ExplainsSuffixes origin (fuel + 1) := by
  intro head e tokens rest hok
  unfold parseSuffixes at hok
  split at hok
  · rename_i dot more
    split at hok
    · rename_i name column more
      obtain ⟨suffixes, rfl, rfl⟩ := hread.suffixes hok
      exact ⟨.member dot name column suffixes, by simp [Suffixes.tokens], rfl⟩
    · simp [refuse] at hok
  · rename_i opened more
    split at hok
    · rename_i closed last
      simp only [bind, Except.bind, expect, beq_self_eq_true, if_true] at hok
      obtain ⟨suffixes, rfl, rfl⟩ := hread.suffixes hok
      exact ⟨.emptyCall opened closed suffixes, by simp [Suffixes.tokens], rfl⟩
    · simp only [bind_eq_ok_iff] at hok
      obtain ⟨⟨arguments, middle⟩, harguments, after, hexpect, hok⟩ := hok
      obtain ⟨arguments, rfl, rfl⟩ : ∃ given : ArgumentList [], _ := hread.arguments rfl harguments
      obtain ⟨closed, rfl⟩ := expect_eq_ok_iff.mp hexpect
      obtain ⟨suffixes, rfl, rfl⟩ := hread.suffixes hok
      exact ⟨.call opened arguments closed suffixes, by simp [Suffixes.tokens],
        by simp [Suffixes.expr]⟩
  · cases hok
    exact ⟨.done, rfl, rfl⟩

theorem Explains.atom_succ : ExplainsAtoms origin (fuel + 1) := by
  intro tokens rest e hok
  unfold parseAtom at hok
  split at hok
  · rename_i digits column more
    split at hok
    · simp at hok
    · rename_i n hnumber
      obtain ⟨hnumeral, rfl⟩ := readNumber_eq_ok_iff.mp hnumber
      cases hok
      exact ⟨.number digits hnumeral column, rfl, rfl⟩
  · rename_i value column more
    cases hok
    exact ⟨.string value column, rfl, rfl⟩
  · rename_i spelling column more
    cases hok
    exact ⟨.yes spelling column, rfl, rfl⟩
  · rename_i spelling column more
    cases hok
    exact ⟨.no spelling column, rfl, rfl⟩
  · rename_i spelling column more
    cases hok
    exact ⟨.name spelling column, rfl, rfl⟩
  · rename_i opened more
    simp only [bind_eq_ok_iff] at hok
    obtain ⟨⟨inner, middle⟩, hinner, after, hexpect, hpure⟩ := hok
    obtain ⟨inner, rfl, rfl⟩ := hread.phrase hinner
    obtain ⟨closed, rfl⟩ := expect_eq_ok_iff.mp hexpect
    cases hpure
    exact ⟨.parentheses opened inner closed, by simp [Phrase.tokens], rfl⟩
  · rename_i opened more
    split at hok
    · rename_i closed last
      simp only [bind, Except.bind, expect, beq_self_eq_true, if_true] at hok
      cases hok
      exact ⟨.emptyList opened closed, by simp [Phrase.tokens], rfl⟩
    · simp only [bind_eq_ok_iff] at hok
      obtain ⟨⟨items, middle⟩, hitems, after, hexpect, hpure⟩ := hok
      obtain ⟨items, rfl, rfl⟩ := hread.items hitems
      obtain ⟨closed, rfl⟩ := expect_eq_ok_iff.mp hexpect
      cases hpure
      exact ⟨.list opened items closed, by simp [Phrase.tokens], by simp [Phrase.expr]⟩
  · simp [refuse] at hok

theorem Explains.item_succ : ExplainsItem origin (fuel + 1) := by
  intro e tokens rest hok
  rw [parseItem, bind_eq_ok_iff] at hok
  obtain ⟨⟨item, middle⟩, hitem, hok⟩ := hok
  obtain ⟨value, rfl, rfl⟩ := hread.phrase hitem
  dsimp only at hok
  split at hok
  · rename_i colon more
    simp only [bind_eq_ok_iff] at hok
    obtain ⟨⟨last, after⟩, hlast, hpure⟩ := hok
    obtain ⟨last, rfl, rfl⟩ := hread.phrase hlast
    cases hpure
    exact Or.inr ⟨value, colon, last, rfl, rfl⟩
  · cases hok
    exact Or.inl ⟨value, rfl, rfl⟩

theorem Explains.items_succ : ExplainsItems origin (fuel + 1) := by
  intro done all tokens rest hok
  rw [parseItems, bind_eq_ok_iff] at hok
  obtain ⟨⟨item, middle⟩, hitem, hok⟩ := hok
  have htail : ∃ tail : ItemTail, middle = tail.tokens ++ rest ∧
      all = (tail.exprs origin).reverse ++ item :: done := by
    dsimp only at hok
    split at hok
    · rename_i more hpass
      obtain ⟨column, rfl⟩ := passComma_eq_true hpass
      obtain ⟨items, rfl, rfl⟩ := hread.items hok
      exact ⟨.more column items, by simp [ItemTail.tokens], rfl⟩
    · rename_i more hpass
      cases hok
      rcases eq_of_passComma_eq_false hpass with rfl | ⟨column, rfl⟩
      · exact ⟨.done, rfl, rfl⟩
      · exact ⟨.comma column, rfl, rfl⟩
  obtain ⟨tail, rfl, rfl⟩ := htail
  rcases hread.item hitem with
    ⟨value, rfl, rfl⟩ | ⟨first, colon, last, rfl, rfl⟩
  · exact ⟨.item value tail, by simp [ItemList.tokens], by simp [ItemList.exprs]⟩
  · exact ⟨.range first colon last tail, by simp [ItemList.tokens], by simp [ItemList.exprs]⟩

theorem Explains.argument_succ : ExplainsArgument origin (fuel + 1) := by
  intro done more tokens rest hok
  unfold parseArgument at hok
  split at hok
  · rename_i key column sign after
    simp only [bind_eq_ok_iff] at hok
    obtain ⟨⟨value, middle⟩, hvalue, hok⟩ := hok
    obtain ⟨value, rfl, rfl⟩ := hread.phrase hvalue
    dsimp only at hok
    split at hok
    · simp [refuse] at hok
    · rename_i hnew
      cases hok
      refine Or.inr ⟨key, column, sign, value, ?_, rfl, rfl⟩
      intro hmem
      obtain ⟨pair, hpair, hname⟩ := List.mem_map.mp hmem
      exact hnew (List.any_eq_true.mpr ⟨pair, hpair, by simp [hname]⟩)
  · split at hok
    · rename_i hempty
      simp only [bind_eq_ok_iff] at hok
      obtain ⟨⟨value, middle⟩, hvalue, hpure⟩ := hok
      obtain ⟨value, rfl, rfl⟩ := hread.phrase hvalue
      cases hpure
      exact Or.inl ⟨value, List.isEmpty_iff.mp hempty, rfl, rfl⟩
    · simp [refuse] at hok

theorem Explains.arguments_succ : ExplainsArguments origin (fuel + 1) := by
  intro taken done all tokens rest hnamed hok
  rw [parseArguments, bind_eq_ok_iff] at hok
  obtain ⟨⟨more, middle⟩, hargument, hok⟩ := hok
  have htail : ∀ names : List Text, more.named.map Prod.fst = names.map String.ofList →
      ∃ tail : ArgumentTail names, middle = tail.tokens ++ rest ∧
        all = ⟨(tail.values origin).reverse ++ more.positional,
          (tail.namedValues origin).reverse ++ more.named⟩ := by
    intro names hnames
    dsimp only at hok
    split at hok
    · rename_i after hpass
      obtain ⟨column, rfl⟩ := passComma_eq_true hpass
      obtain ⟨arguments, rfl, rfl⟩ := hread.arguments hnames hok
      exact ⟨.more column arguments, by simp [ArgumentTail.tokens], rfl⟩
    · rename_i after hpass
      cases hok
      rcases eq_of_passComma_eq_false hpass with rfl | ⟨column, rfl⟩
      · exact ⟨.done, rfl, rfl⟩
      · exact ⟨.comma column, rfl, rfl⟩
  rcases hread.argument hargument with
    ⟨value, hnone, rfl, rfl⟩ | ⟨key, column, sign, value, hfresh, rfl, rfl⟩
  · have htaken : taken = [] := by simpa [hnone] using hnamed.symm
    subst htaken
    obtain ⟨tail, rfl, rfl⟩ := htail [] hnamed
    exact ⟨.positional value tail, by simp [ArgumentList.tokens],
      by simp [ArgumentList.values, ArgumentList.namedValues]⟩
  · have hnew : key ∉ taken := by
      intro hmem
      exact hfresh (hnamed ▸ List.mem_map_of_mem hmem)
    obtain ⟨tail, rfl, rfl⟩ := htail (key :: taken) (by simp [hnamed])
    exact ⟨.named key column sign hnew value tail, by simp [ArgumentList.tokens],
      by simp [ArgumentList.values, ArgumentList.namedValues]⟩

end

theorem explains (origin : Location) (fuel : Nat) : Explains origin fuel := by
  induction fuel with
  | zero =>
    constructor <;> simp [ExplainsPhrases, ExplainsLinks, ExplainsSuffixes, ExplainsArguments,
      ExplainsArgument, ExplainsAtoms, ExplainsItems, ExplainsItem, parseLevel, parseOperators,
      parseSuffixes, parseArguments, parseArgument, parseAtom, parseItems, parseItem, refuse]
  | succ fuel hread =>
    exact ⟨hread.phrase_succ, hread.links_succ, hread.suffixes_succ, hread.arguments_succ,
      hread.argument_succ, hread.atom_succ, hread.items_succ, hread.item_succ⟩

end Soundness

end Folio.Source
