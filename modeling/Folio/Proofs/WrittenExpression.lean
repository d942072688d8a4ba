import Folio.Proofs.ExpressionGrammar
import Folio.Proofs.Spelling

/-!
# Expressions in writing

A well-formed expression is written as a list of lexemes in which every operand
stands in parentheses and every item of a list and every argument of a call is
followed by a comma.  The lexemes have a derivation that means the expression
again, up to the places of its nodes.
-/

namespace Folio.Source

/-! ## Expressions without their places -/

mutual

def Expr.unplaced : Expr → Expr
  | .constant value _ => .constant value none
  | .name identifier _ => .name identifier none
  | .range first last _ => .range first.unplaced last.unplaced none
  | .list items _ => .list (unplacedAll items) none
  | .attribute object name _ => .attribute object.unplaced name none
  | .call callee args named _ => .call callee.unplaced (unplacedAll args) (unplacedNamed named) none
  | .unary op operand _ => .unary op operand.unplaced none
  | .binary op left right _ => .binary op left.unplaced right.unplaced none
  | .compare op left right _ => .compare op left.unplaced right.unplaced none
  | .misplaced _ => .misplaced none

def unplacedAll : List Expr → List Expr
  | [] => []
  | e :: rest => e.unplaced :: unplacedAll rest

def unplacedNamed : List (String × Expr) → List (String × Expr)
  | [] => []
  | (key, e) :: rest => (key, e.unplaced) :: unplacedNamed rest

end

/-! ## Well-formed expressions -/

def Constant.WellFormed : Constant → Prop
  | .bool _ => True
  | .int n => 0 ≤ n ∧ (Text.ofNat n.toNat).length ≤ Decimal.maxDigits
  | .text value => ∀ c ∈ value, Text.isLineEnd c = true → c = '\n' ∨ c = '\r'
  | .none => False
  | .float _ => False

mutual

/-- Expressions of the language.  A range is one only as an item of a list. -/
def Expr.WellFormed : Expr → Prop
  | .constant value _ => value.WellFormed
  | .name identifier _ => IsName identifier.toList
  | .range _ _ _ => False
  | .list items _ => ItemsWellFormed items
  | .attribute object name _ => object.WellFormed ∧ IsName name.toList
  | .call callee args named _ =>
    callee.WellFormed ∧ AllWellFormed args ∧ NamedWellFormed named ∧
      (named.map Prod.fst).Nodup
  | .unary op operand _ => (∀ spelling, op ≠ .other spelling) ∧ operand.WellFormed
  | .binary op left right _ =>
    (∀ spelling, op ≠ .other spelling) ∧ left.WellFormed ∧ right.WellFormed
  | .compare op left right _ =>
    (∀ spelling, op ≠ .other spelling) ∧ left.WellFormed ∧ right.WellFormed
  | .misplaced _ => False

def ItemsWellFormed : List Expr → Prop
  | [] => True
  | .range first last _ :: rest => first.WellFormed ∧ last.WellFormed ∧ ItemsWellFormed rest
  | item :: rest => item.WellFormed ∧ ItemsWellFormed rest

def AllWellFormed : List Expr → Prop
  | [] => True
  | e :: rest => e.WellFormed ∧ AllWellFormed rest

def NamedWellFormed : List (String × Expr) → Prop
  | [] => True
  | (key, e) :: rest => IsName key.toList ∧ e.WellFormed ∧ NamedWellFormed rest

end

/-! ## Lexemes of expressions -/

def Constant.lexemes : Constant → List Lexeme
  | .bool true => [.keyword .yes Keyword.yes.word]
  | .bool false => [.keyword .no Keyword.no.word]
  | .int n => [.number (Text.ofNat n.toNat)]
  | .text value => [.string value]
  | .none => []
  | .float _ => []

def UnaryOp.lexeme : UnaryOp → Lexeme
  | .not => .keyword .not Keyword.not.word
  | .negate => .symbol .minus
  | .other spelling => .name spelling

def BinaryOp.lexeme : BinaryOp → Lexeme
  | .and => .keyword .and Keyword.and.word
  | .or => .keyword .or Keyword.or.word
  | .add => .symbol .plus
  | .subtract => .symbol .minus
  | .multiply => .symbol .star
  | .divide => .symbol .slash
  | .remainder => .symbol .percent
  | .other spelling => .name spelling

def CompareOp.lexeme : CompareOp → Lexeme
  | .equal => .symbol .equal
  | .notEqual => .symbol .notEqual
  | .less => .symbol .less
  | .lessEqual => .symbol .lessEqual
  | .greater => .symbol .greater
  | .greaterEqual => .symbol .greaterEqual
  | .isIn => .keyword .isIn Keyword.isIn.word
  | .other spelling => .name spelling

def grouped (lexemes : List Lexeme) : List Lexeme :=
  .symbol .openParen :: (lexemes ++ [.symbol .closeParen])

mutual

def Expr.lexemes : Expr → List Lexeme
  | .constant value _ => value.lexemes
  | .name identifier _ => [.name identifier.toList]
  | .range first last _ => grouped first.lexemes ++ .symbol .colon :: grouped last.lexemes
  | .list items _ => .symbol .openBracket :: (lexemesAll items ++ [.symbol .closeBracket])
  | .attribute object name _ => grouped object.lexemes ++ [.symbol .dot, .name name.toList]
  | .call callee args named _ =>
    grouped callee.lexemes ++
      grouped (lexemesAll args ++ lexemesNamed named)
  | .unary op operand _ => op.lexeme :: grouped operand.lexemes
  | .binary op left right _ => grouped left.lexemes ++ op.lexeme :: grouped right.lexemes
  | .compare op left right _ => grouped left.lexemes ++ op.lexeme :: grouped right.lexemes
  | .misplaced _ => []

def lexemesAll : List Expr → List Lexeme
  | [] => []
  | e :: rest => e.lexemes ++ .symbol .comma :: lexemesAll rest

def lexemesNamed : List (String × Expr) → List Lexeme
  | [] => []
  | (key, e) :: rest =>
    .name key.toList :: .symbol .assign ::
      (e.lexemes ++ .symbol .comma :: lexemesNamed rest)

end

/-! ## Derivations of written expressions -/

/-- Tokens of a level that mean an expression, up to places. -/
def Derives (origin : Location) (level : Level) (tokens : List Token)
    (e : Expr) : Prop :=
  ∃ phrase : Phrase level,
    phrase.tokens = tokens ∧ (phrase.expr origin).unplaced = e.unplaced

section Derivations

variable {origin : Location} {tokens : List Token} {e : Expr}

theorem Derives.loosen {level : Level} (hderives : Derives origin level.next tokens e) :
    Derives origin level tokens e := by
  obtain ⟨phrase, rfl, hexpr⟩ := hderives
  cases level with
  | negation => exact ⟨.affirm phrase, rfl, hexpr⟩
  | minus => exact ⟨.keepSign phrase, rfl, hexpr⟩
  | suffix => exact ⟨.suffixed phrase .done, List.append_nil _, hexpr⟩
  | atom => exact ⟨phrase, rfl, hexpr⟩
  | _ => exact ⟨.row rfl phrase .done, List.append_nil _, hexpr⟩

theorem Derives.mono {tighter level : Level} (hderives : Derives origin tighter tokens e)
    (hrank : tighter.rank ≤ level.rank) : Derives origin level tokens e := by
  by_cases heq : tighter = level
  · exact heq ▸ hderives
  · have hnext : tighter.rank ≤ level.next.rank ∧ level.next.rank < level.rank := by
      cases tighter <;> cases level <;> simp_all [Level.rank, Level.next]
    exact (hderives.mono hnext.1).loosen
termination_by level.rank
decreasing_by exact hnext.2

theorem Derives.row {level : Level} {left right : Expr} {before after : List Token} {op : Operator}
    (token : Token) (hspells : Spells level token.lexeme op)
    (hleft : Derives origin .atom before left) (hright : Derives origin .atom after right)
    (hexpr : ∃ loc, e.unplaced = (op.apply left right loc).unplaced) :
    Derives origin .disjunction (before ++ token :: after) e := by
  have hrank : Level.atom.rank ≤ level.operand.rank := by cases level <;> decide
  obtain ⟨first, rfl, hfirst⟩ := hleft.mono hrank
  obtain ⟨second, rfl, hsecond⟩ := hright.mono hrank
  obtain ⟨loc, hexpr⟩ := hexpr
  have hderives : Derives origin level (first.tokens ++ token :: second.tokens) e := by
    refine ⟨.row hspells.joins first (.more op token hspells second .done),
      by simp [Phrase.tokens, Links.tokens], ?_⟩
    rw [hexpr]
    cases op <;> simp [Phrase.expr, Links.expr, Operator.apply, Expr.unplaced, hfirst, hsecond]
  exact hderives.mono (by cases level <;> decide)

theorem exists_of_map_eq_cons {lexeme : Lexeme} {lexemes : List Lexeme}
    (hmap : tokens.map Token.lexeme = lexeme :: lexemes) :
    ∃ column rest, tokens = ⟨lexeme, column⟩ :: rest ∧ rest.map Token.lexeme = lexemes := by
  obtain ⟨⟨lexeme, column⟩, rest, rfl, rfl, hrest⟩ := List.map_eq_cons_iff.mp hmap
  exact ⟨column, rest, rfl, hrest⟩

theorem exists_of_map_eq_singleton {lexeme : Lexeme} (hmap : tokens.map Token.lexeme = [lexeme]) :
    ∃ column, tokens = [⟨lexeme, column⟩] := by
  obtain ⟨column, rest, rfl, hrest⟩ := exists_of_map_eq_cons hmap
  obtain rfl := List.map_eq_nil_iff.mp hrest
  exact ⟨column, rfl⟩

theorem exists_of_map_eq_grouped {lexemes : List Lexeme}
    (hmap : tokens.map Token.lexeme = grouped lexemes) : ∃ opened inner closed,
      tokens = ⟨.symbol .openParen, opened⟩ :: (inner ++ [⟨.symbol .closeParen, closed⟩]) ∧
      inner.map Token.lexeme = lexemes := by
  obtain ⟨opened, rest, rfl, hrest⟩ := exists_of_map_eq_cons hmap
  obtain ⟨inner, last, rfl, hinner, hlast⟩ := List.map_eq_append_iff.mp hrest
  obtain ⟨closed, rfl⟩ := exists_of_map_eq_singleton hlast
  exact ⟨opened, inner, closed, rfl, hinner⟩

theorem Derives.parentheses {lexemes : List Lexeme}
    (hmap : tokens.map Token.lexeme = grouped lexemes)
    (hderives : ∀ inner : List Token, inner.map Token.lexeme = lexemes →
      Derives origin .disjunction inner e) : Derives origin .atom tokens e := by
  obtain ⟨opened, inner, closed, rfl, hinner⟩ := exists_of_map_eq_grouped hmap
  obtain ⟨phrase, rfl, hexpr⟩ := hderives inner hinner
  exact ⟨.parentheses opened phrase closed, rfl, hexpr⟩

/-! ### Constants and operators -/

theorem isNumeral_ofNat {n : Nat} (hshort : (Text.ofNat n).length ≤ Decimal.maxDigits) :
    IsNumeral (Text.ofNat n) := by
  refine ⟨Nat.toDigits_ne_nil, ?_, hshort⟩
  intro c hc
  have hdigit : c.isDigit = true := Nat.isDigit_of_mem_toDigits (by decide) (by decide) hc
  simp [Text.isDecimal, ascii_of_charIsDigit hdigit, hdigit]

theorem numeralValue_ofNat (n : Nat) : numeralValue (Text.ofNat n) = n := by
  have hvalue : numeralValue (Text.ofNat n) = Nat.ofDigitChars 10 (Text.ofNat n) 0 := by
    rw [numeralValue, Nat.ofDigitChars_eq_foldl]
    apply List.foldl_ext
    intro value c hc
    have hdigit : c.isDigit = true := Nat.isDigit_of_mem_toDigits (by decide) (by decide) hc
    simp [Text.decimalValue?, ascii_of_charIsDigit hdigit, hdigit]
  rw [hvalue, Text.ofNat, Nat.ofDigitChars_ten_toDigits]

theorem Constant.derives {value : Constant} (hwf : value.WellFormed) (loc : Option Location)
    (hmap : tokens.map Token.lexeme = value.lexemes) :
    Derives origin .disjunction tokens (.constant value loc) := by
  suffices hatom : Derives origin .atom tokens (.constant value loc) from hatom.mono (by decide)
  cases value with
  | none => exact hwf.elim
  | float x => exact hwf.elim
  | bool b =>
    cases b with
    | true =>
      obtain ⟨column, rfl⟩ := exists_of_map_eq_singleton hmap
      exact ⟨.yes Keyword.yes.word column, rfl, rfl⟩
    | false =>
      obtain ⟨column, rfl⟩ := exists_of_map_eq_singleton hmap
      exact ⟨.no Keyword.no.word column, rfl, rfl⟩
  | int n =>
    obtain ⟨hsign, hshort⟩ := hwf
    obtain ⟨column, rfl⟩ := exists_of_map_eq_singleton hmap
    refine ⟨.number _ (isNumeral_ofNat hshort) column, rfl, ?_⟩
    simp [Phrase.expr, numeralValue_ofNat, Expr.unplaced, hsign]
  | text value =>
    obtain ⟨column, rfl⟩ := exists_of_map_eq_singleton hmap
    exact ⟨.string value column, rfl, rfl⟩

theorem BinaryOp.spells {op : BinaryOp} (hop : ∀ spelling, op ≠ .other spelling) :
    ∃ level, Spells level op.lexeme (.binary op) := by
  cases op with
  | other spelling => exact absurd rfl (hop spelling)
  | _ => exact ⟨_, by constructor⟩

theorem CompareOp.spells {op : CompareOp} (hop : ∀ spelling, op ≠ .other spelling) :
    ∃ level, Spells level op.lexeme (.compare op) := by
  cases op with
  | other spelling => exact absurd rfl (hop spelling)
  | _ => exact ⟨_, by constructor⟩

theorem UnaryOp.derives {op : UnaryOp} {operand : Expr} {column : Nat}
    (hop : ∀ spelling, op ≠ .other spelling) (hderives : Derives origin .atom tokens operand)
    (loc : Option Location) : Derives origin .disjunction (⟨op.lexeme, column⟩ :: tokens)
      (.unary op operand loc) := by
  cases op with
  | other spelling => exact absurd rfl (hop spelling)
  | not =>
    obtain ⟨phrase, rfl, hexpr⟩ : Derives origin .negation tokens operand :=
      hderives.mono (by decide)
    suffices h : Derives origin .negation _ _ from h.mono (by decide)
    exact ⟨.deny Keyword.not.word column phrase, rfl, by simp [Phrase.expr, Expr.unplaced, hexpr]⟩
  | negate =>
    obtain ⟨phrase, rfl, hexpr⟩ : Derives origin .minus tokens operand := hderives.mono (by decide)
    suffices h : Derives origin .minus _ _ from h.mono (by decide)
    exact ⟨.negate column phrase, rfl, by simp [Phrase.expr, Expr.unplaced, hexpr]⟩

/-! ### Suffixes of a parenthesised head -/

theorem Derives.suffixed {head : Expr} {before after : List Token} (suffixes : Suffixes)
    (hhead : Derives origin .atom before head) (hsuffixes : suffixes.tokens = after)
    (hexpr : ∀ given : Expr, given.unplaced = head.unplaced →
      (suffixes.expr origin given).unplaced = e.unplaced) :
    Derives origin .disjunction (before ++ after) e := by
  obtain ⟨phrase, rfl, hphrase⟩ := hhead
  suffices h : Derives origin .suffix (phrase.tokens ++ after) e from h.mono (by decide)
  exact ⟨.suffixed phrase suffixes, by rw [Phrase.tokens, hsuffixes], hexpr _ hphrase⟩

mutual

theorem Expr.derives (e : Expr) (hwf : e.WellFormed) {tokens : List Token}
    (hmap : tokens.map Token.lexeme = e.lexemes) : Derives origin .disjunction tokens e := by
  match e with
  | .constant value loc => exact Constant.derives hwf loc hmap
  | .name identifier loc =>
    obtain ⟨column, rfl⟩ := exists_of_map_eq_singleton hmap
    suffices h : Derives origin .atom _ _ from h.mono (by decide)
    exact ⟨.name identifier.toList column, rfl, by simp [Phrase.expr, Expr.unplaced]⟩
  | .range first last loc => exact hwf.elim
  | .list items loc =>
    suffices h : Derives origin .atom tokens (.list items loc) from h.mono (by decide)
    obtain ⟨opened, rest, rfl, hrest⟩ := exists_of_map_eq_cons hmap
    obtain ⟨inner, last, rfl, hinner, hlast⟩ := List.map_eq_append_iff.mp hrest
    obtain ⟨closed, rfl⟩ := exists_of_map_eq_singleton hlast
    by_cases hitems : items = []
    · subst hitems
      obtain rfl := List.map_eq_nil_iff.mp hinner
      exact ⟨.emptyList opened closed, rfl, rfl⟩
    · obtain ⟨list, rfl, hlist⟩ := derivesItems items hitems hwf hinner
      exact ⟨.list opened list closed, rfl, by simp [Phrase.expr, Expr.unplaced, hlist]⟩
  | .attribute object name loc =>
    obtain ⟨before, after, rfl, hbefore, hafter⟩ := List.map_eq_append_iff.mp hmap
    obtain ⟨dot, rest, rfl, hrest⟩ := exists_of_map_eq_cons hafter
    obtain ⟨column, rfl⟩ := exists_of_map_eq_singleton hrest
    have hobject : Derives origin .atom before object :=
      .parentheses hbefore fun inner hinner => object.derives hwf.1 hinner
    refine hobject.suffixed (.member dot name.toList column .done) rfl ?_
    intro given hgiven
    simp [Suffixes.expr, Expr.unplaced, hgiven]
  | .call callee args named loc =>
    obtain ⟨hcallee, hargs, hnamed, hnodup⟩ := hwf
    obtain ⟨before, after, rfl, hbefore, hafter⟩ := List.map_eq_append_iff.mp hmap
    obtain ⟨opened, inner, closed, rfl, hinner⟩ := exists_of_map_eq_grouped hafter
    have hhead : Derives origin .atom before callee :=
      .parentheses hbefore fun inner hinner => callee.derives hcallee hinner
    by_cases hempty : args = [] ∧ named = []
    · obtain ⟨rfl, rfl⟩ := hempty
      obtain rfl := List.map_eq_nil_iff.mp hinner
      refine hhead.suffixed (.emptyCall opened closed .done) rfl ?_
      intro given hgiven
      simp [Suffixes.expr, Expr.unplaced, hgiven, unplacedAll, unplacedNamed]
    · obtain ⟨list, rfl, hvalues, hkeys⟩ := derivesArguments args named hempty hargs
          (fun hne _ hmap =>
            derivesNamed named [] hne hnamed hnodup (by simp) hmap) hinner
      refine hhead.suffixed (.call opened list closed .done) (by simp [Suffixes.tokens]) ?_
      intro given hgiven
      simp [Suffixes.expr, Expr.unplaced, hgiven, hvalues, hkeys]
  | .unary op operand loc =>
    obtain ⟨hop, hoperand⟩ := hwf
    obtain ⟨column, rest, rfl, hrest⟩ := exists_of_map_eq_cons hmap
    exact UnaryOp.derives hop (.parentheses hrest fun inner hinner =>
        operand.derives hoperand hinner) loc
  | .binary op left right loc =>
    obtain ⟨hop, hleft, hright⟩ := hwf
    obtain ⟨before, rest, rfl, hbefore, hrest⟩ := List.map_eq_append_iff.mp hmap
    obtain ⟨column, after, rfl, hafter⟩ := exists_of_map_eq_cons hrest
    obtain ⟨level, hspells⟩ := BinaryOp.spells hop
    exact Derives.row ⟨op.lexeme, column⟩ hspells
      (.parentheses hbefore fun inner hinner => left.derives hleft hinner)
      (.parentheses hafter fun inner hinner => right.derives hright hinner) ⟨origin, rfl⟩
  | .compare op left right loc =>
    obtain ⟨hop, hleft, hright⟩ := hwf
    obtain ⟨before, rest, rfl, hbefore, hrest⟩ := List.map_eq_append_iff.mp hmap
    obtain ⟨column, after, rfl, hafter⟩ := exists_of_map_eq_cons hrest
    obtain ⟨level, hspells⟩ := CompareOp.spells hop
    exact Derives.row ⟨op.lexeme, column⟩ hspells
      (.parentheses hbefore fun inner hinner => left.derives hleft hinner)
      (.parentheses hafter fun inner hinner => right.derives hright hinner) ⟨origin, rfl⟩
  | .misplaced loc => exact hwf.elim
termination_by sizeOf e

theorem derivesItems (items : List Expr) (hne : items ≠ []) (hwf : ItemsWellFormed items)
    {tokens : List Token} (hmap : tokens.map Token.lexeme = lexemesAll items) : ∃ list : ItemList,
    list.tokens = tokens ∧ unplacedAll (list.exprs origin) = unplacedAll items := by
  match items with
  | [] => exact absurd rfl hne
  | item :: rest =>
    obtain ⟨before, after, rfl, hbefore, hafter⟩ := List.map_eq_append_iff.mp hmap
    obtain ⟨comma, more, rfl, hmore⟩ := exists_of_map_eq_cons hafter
    have htail : ItemsWellFormed rest → ∃ tail : ItemTail,
        tail.tokens = ⟨.symbol .comma, comma⟩ :: more ∧
        unplacedAll (tail.exprs origin) = unplacedAll rest := by
      intro hrest
      by_cases hnil : rest = []
      · subst hnil
        obtain rfl := List.map_eq_nil_iff.mp hmore
        exact ⟨.comma comma, rfl, rfl⟩
      · obtain ⟨list, rfl, hlist⟩ := derivesItems rest hnil hrest hmore
        exact ⟨.more comma list, rfl, hlist⟩
    by_cases hrange : ∃ first last loc, item = .range first last loc
    · obtain ⟨first, last, loc, rfl⟩ := hrange
      obtain ⟨hfirst, hlast, hrest⟩ := hwf
      obtain ⟨tail, htokens, hexprs⟩ := htail hrest
      obtain ⟨left, middle, rfl, hleft, hmiddle⟩ := List.map_eq_append_iff.mp hbefore
      obtain ⟨colon, right, rfl, hright⟩ := exists_of_map_eq_cons hmiddle
      have hderives : Derives origin .atom left first :=
        .parentheses hleft fun inner hinner => first.derives hfirst hinner
      obtain ⟨low, rfl, hlow⟩ : Derives origin .disjunction left first := hderives.mono (by decide)
      have hderives : Derives origin .atom right last :=
        .parentheses hright fun inner hinner => last.derives hlast hinner
      obtain ⟨high, rfl, hhigh⟩ : Derives origin .disjunction right last :=
        hderives.mono (by decide)
      exact ⟨.range low colon high tail, by simp [ItemList.tokens, htokens],
        by simp [ItemList.exprs, unplacedAll, Expr.unplaced, hlow, hhigh, hexprs]⟩
    · have hitem : item.WellFormed ∧ ItemsWellFormed rest := by
        cases item <;> simp_all [ItemsWellFormed]
      obtain ⟨tail, htokens, hexprs⟩ := htail hitem.2
      obtain ⟨value, rfl, hvalue⟩ : Derives origin .disjunction before item :=
        item.derives hitem.1 hbefore
      exact ⟨.item value tail, by simp [ItemList.tokens, htokens],
        by simp [ItemList.exprs, unplacedAll, hvalue, hexprs]⟩
termination_by sizeOf items

theorem derivesNamed (named : List (String × Expr)) (taken : List Text) (hne : named ≠ [])
    (hnamed : NamedWellFormed named) (hnodup : (named.map Prod.fst).Nodup)
    (hfresh : ∀ pair ∈ named, pair.1.toList ∉ taken) {tokens : List Token}
    (hmap : tokens.map Token.lexeme = lexemesNamed named) :
    ∃ list : ArgumentList taken, list.tokens = tokens ∧ list.values origin = [] ∧
      unplacedNamed (list.namedValues origin) = unplacedNamed named := by
  match named with
  | [] => exact absurd rfl hne
  | (key, value) :: rest =>
    obtain ⟨-, hvalue, hrest⟩ := hnamed
    obtain ⟨hkey, hnodup⟩ := List.nodup_cons.mp hnodup
    obtain ⟨column, signed, rfl, hsigned⟩ := exists_of_map_eq_cons hmap
    obtain ⟨sign, written, rfl, hwritten⟩ := exists_of_map_eq_cons hsigned
    obtain ⟨inner, after, rfl, hinner, hafter⟩ := List.map_eq_append_iff.mp hwritten
    obtain ⟨comma, more, rfl, hmore⟩ := exists_of_map_eq_cons hafter
    obtain ⟨phrase, rfl, hphrase⟩ : Derives origin .disjunction inner value :=
      value.derives hvalue hinner
    have hnew : key.toList ∉ taken := hfresh (key, value) (by simp)
    have htail : ∃ tail : ArgumentTail (key.toList :: taken),
        tail.tokens = ⟨.symbol .comma, comma⟩ :: more ∧ tail.values origin = [] ∧
        unplacedNamed (tail.namedValues origin) = unplacedNamed rest := by
      by_cases hnil : rest = []
      · subst hnil
        obtain rfl := List.map_eq_nil_iff.mp hmore
        exact ⟨.comma comma, rfl, rfl, rfl⟩
      · have hother : ∀ pair ∈ rest, pair.1.toList ∉ key.toList :: taken := by
          intro pair hpair hmem
          rcases List.mem_cons.mp hmem with heq | hmem
          · have hsame : pair.1 = key := String.toList_inj.mp heq
            exact hkey (List.mem_map.mpr ⟨pair, hpair, hsame⟩)
          · exact hfresh pair (by simp [hpair]) hmem
        obtain ⟨list, rfl, hvalues, hkeys⟩ :=
          derivesNamed rest (key.toList :: taken) hnil hrest hnodup hother hmore
        exact ⟨.more comma list, rfl, hvalues, hkeys⟩
    obtain ⟨tail, htokens, hvalues, hkeys⟩ := htail
    exact ⟨.named key.toList column sign hnew phrase tail, by simp [ArgumentList.tokens, htokens],
      by simp [ArgumentList.values, hvalues],
      by simp [ArgumentList.namedValues, unplacedNamed, hphrase, hkeys]⟩
termination_by sizeOf named

theorem derivesArguments (args : List Expr) (named : List (String × Expr))
    (hne : ¬ (args = [] ∧ named = [])) (hargs : AllWellFormed args)
    (hnamed : named ≠ [] → ∀ tokens : List Token, tokens.map Token.lexeme = lexemesNamed named →
      ∃ list : ArgumentList [], list.tokens = tokens ∧ list.values origin = [] ∧
        unplacedNamed (list.namedValues origin) = unplacedNamed named) {tokens : List Token}
    (hmap : tokens.map Token.lexeme = lexemesAll args ++ lexemesNamed named) :
    ∃ list : ArgumentList [], list.tokens = tokens ∧
      unplacedAll (list.values origin) = unplacedAll args ∧
      unplacedNamed (list.namedValues origin) = unplacedNamed named := by
  match args with
  | [] =>
    obtain ⟨list, rfl, hvalues, hkeys⟩ := hnamed (by simpa using hne) tokens hmap
    exact ⟨list, rfl, by rw [hvalues], hkeys⟩
  | arg :: rest =>
    rw [lexemesAll, List.append_assoc, List.cons_append] at hmap
    obtain ⟨before, after, rfl, hbefore, hafter⟩ := List.map_eq_append_iff.mp hmap
    obtain ⟨comma, more, rfl, hmore⟩ := exists_of_map_eq_cons hafter
    obtain ⟨phrase, rfl, hphrase⟩ : Derives origin .disjunction before arg :=
      arg.derives hargs.1 hbefore
    have htail : ∃ tail : ArgumentTail [], tail.tokens = ⟨.symbol .comma, comma⟩ :: more ∧
        unplacedAll (tail.values origin) = unplacedAll rest ∧
        unplacedNamed (tail.namedValues origin) = unplacedNamed named := by
      by_cases hnil : rest = [] ∧ named = []
      · obtain ⟨rfl, rfl⟩ := hnil
        obtain rfl := List.map_eq_nil_iff.mp hmore
        exact ⟨.comma comma, rfl, rfl, rfl⟩
      · obtain ⟨list, rfl, hvalues, hkeys⟩ := derivesArguments rest named hnil hargs.2 hnamed hmore
        exact ⟨.more comma list, rfl, hvalues, hkeys⟩
    obtain ⟨tail, htokens, hvalues, hkeys⟩ := htail
    exact ⟨.positional phrase tail, by simp [ArgumentList.tokens, htokens],
      by simp [ArgumentList.values, unplacedAll, hphrase, hvalues],
      by simp [ArgumentList.namedValues, hkeys]⟩
termination_by sizeOf args

end

end Derivations

end Folio.Source
