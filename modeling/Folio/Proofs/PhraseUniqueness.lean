import Folio.Proofs.PhraseReading

/-!
# The grammar is unambiguous

Two phrases of one level that start the same tokens are the same phrase, if
neither of them can be lengthened by what follows it.  Together with the two
directions of reading this describes the reader of expressions completely: it
accepts the token lists that have a derivation, and returns what their only
derivation means.
-/

namespace Folio.Source

theorem ne_cons_of_opens {level : Level} {tokens after : List Token} {lexeme : Lexeme}
    {column : Nat} (hopens : ∃ token more, tokens = token :: more ∧ level.opens token.lexeme = true)
    (hlexeme : level.opens lexeme = false) : tokens ≠ ⟨lexeme, column⟩ :: after := by
  rintro rfl
  obtain ⟨token, more, heq, hopens⟩ := hopens
  obtain ⟨rfl, -⟩ := List.cons.inj heq
  simp [hlexeme] at hopens

theorem Suffixes.eq_done {suffixes : Suffixes} {rest last : List Token}
    (heq : suffixes.tokens ++ rest = last) (hlast : Level.suffix.Stops last) :
    suffixes = .done := by
  subst heq
  cases suffixes with
  | done => rfl
  | _ => exact absurd (hlast .suffix rfl) (by decide)

mutual

theorem Phrase.unique {level : Level} (phrase other : Phrase level) {rest last : List Token}
    (heq : phrase.tokens ++ rest = other.tokens ++ last) (hrest : level.Stops rest)
    (hlast : level.Stops last) : phrase = other ∧ rest = last := by
  match level, phrase, other, heq, hrest, hlast with
  | _, .row hjoins first links, other, heq, hrest, hlast =>
    cases other with
    | row _ first' links' =>
      simp only [Phrase.tokens, List.append_assoc] at heq
      obtain ⟨rfl, htokens⟩ := first.unique first' heq (links.stops_append hjoins hrest)
        (links'.stops_append hjoins hlast)
      obtain ⟨rfl, rfl⟩ := links.unique links' hjoins htokens hrest hlast
      exact ⟨rfl, rfl⟩
    | _ => simp [Level.joins] at hjoins
  | _, .deny spelling column operand, other, heq, hrest, hlast =>
    cases other with
    | row hjoins => cases hjoins
    | deny spelling' column' operand' =>
      simp only [Phrase.tokens, List.cons_append, List.cons.injEq, Token.mk.injEq,
        Lexeme.keyword.injEq] at heq
      obtain ⟨⟨⟨-, rfl⟩, rfl⟩, htokens⟩ := heq
      obtain ⟨rfl, rfl⟩ := operand.unique operand' htokens hrest hlast
      exact ⟨rfl, rfl⟩
    | affirm operand' =>
      exact absurd heq.symm (ne_cons_of_opens (operand'.opens_append last) rfl)
  | _, .affirm operand, other, heq, hrest, hlast =>
    cases other with
    | row hjoins => cases hjoins
    | affirm operand' =>
      obtain ⟨rfl, rfl⟩ := operand.unique operand' heq
        (hrest.mono (by decide)) (hlast.mono (by decide))
      exact ⟨rfl, rfl⟩
    | deny spelling' column' operand' =>
      exact absurd heq (ne_cons_of_opens (operand.opens_append rest) rfl)
  | _, .negate column operand, other, heq, hrest, hlast =>
    cases other with
    | row hjoins => cases hjoins
    | negate column' operand' =>
      simp only [Phrase.tokens, List.cons_append, List.cons.injEq, Token.mk.injEq, true_and] at heq
      obtain ⟨rfl, htokens⟩ := heq
      obtain ⟨rfl, rfl⟩ := operand.unique operand' htokens hrest hlast
      exact ⟨rfl, rfl⟩
    | keepSign operand' =>
      exact absurd heq.symm (ne_cons_of_opens (operand'.opens_append last) rfl)
  | _, .keepSign operand, other, heq, hrest, hlast =>
    cases other with
    | row hjoins => cases hjoins
    | keepSign operand' =>
      obtain ⟨rfl, rfl⟩ := operand.unique operand' heq
        (hrest.mono (by decide)) (hlast.mono (by decide))
      exact ⟨rfl, rfl⟩
    | negate column' operand' =>
      exact absurd heq (ne_cons_of_opens (operand.opens_append rest) rfl)
  | _, .suffixed head suffixes, other, heq, hrest, hlast =>
    cases other with
    | row hjoins => cases hjoins
    | suffixed head' suffixes' =>
      simp only [Phrase.tokens, List.append_assoc] at heq
      obtain ⟨rfl, htokens⟩ := head.unique head' heq (Level.stops_atom _) (Level.stops_atom _)
      obtain ⟨rfl, rfl⟩ := suffixes.unique suffixes' htokens hrest hlast
      exact ⟨rfl, rfl⟩
  | _, .number _ _ _, other, heq, _, _ | _, .string _ _, other, heq, _, _
  | _, .yes _ _, other, heq, _, _ | _, .no _ _, other, heq, _, _ | _, .name _ _, other, heq, _, _ =>
    cases other with
    | row hjoins => cases hjoins
    | _ => simp_all [Phrase.tokens]
  | _, .parentheses opened inner closed, other, heq, hrest, hlast =>
    cases other with
    | row hjoins => cases hjoins
    | parentheses opened' inner' closed' =>
      simp only [Phrase.tokens, List.cons_append, List.append_assoc, List.nil_append,
        List.cons.injEq, Token.mk.injEq, true_and] at heq
      obtain ⟨rfl, htokens⟩ := heq
      obtain ⟨rfl, hclosed⟩ := inner.unique inner' htokens
        (Level.stops_of_joint_none rfl) (Level.stops_of_joint_none rfl)
      simp_all
    | _ => simp [Phrase.tokens] at heq
  | _, .emptyList opened closed, other, heq, hrest, hlast =>
    cases other with
    | row hjoins => cases hjoins
    | list opened' items closed' =>
      simp only [Phrase.tokens, List.cons_append, List.append_assoc, List.cons.injEq] at heq
      exact absurd heq.2.symm (ne_cons_of_opens (items.opens_append _) rfl)
    | _ => simp_all [Phrase.tokens]
  | _, .list opened items closed, other, heq, hrest, hlast =>
    cases other with
    | row hjoins => cases hjoins
    | emptyList opened' closed' =>
      simp only [Phrase.tokens, List.cons_append, List.append_assoc, List.cons.injEq] at heq
      exact absurd heq.2 (ne_cons_of_opens (items.opens_append _) rfl)
    | list opened' items' closed' =>
      simp only [Phrase.tokens, List.cons_append, List.append_assoc, List.nil_append,
        List.cons.injEq, Token.mk.injEq, true_and] at heq
      obtain ⟨rfl, htokens⟩ := heq
      obtain ⟨rfl, rfl, rfl⟩ := items.unique items' htokens
      exact ⟨rfl, rfl⟩
    | _ => simp [Phrase.tokens] at heq
termination_by structural phrase

theorem Links.unique {level : Level} (links other : Links level) {rest last : List Token}
    (hjoins : level.joins = true) (heq : links.tokens ++ rest = other.tokens ++ last)
    (hrest : level.Stops rest) (hlast : level.Stops last) : links = other ∧ rest = last := by
  match links with
  | .done =>
    cases other with
    | done => exact ⟨rfl, heq⟩
    | more op token hspells operand links' =>
      simp only [Links.tokens, List.nil_append, List.cons_append] at heq
      rw [heq] at hrest
      exact absurd hspells hrest.not_spells
  | .more op token hspells operand links =>
    cases other with
    | done =>
      simp only [Links.tokens, List.nil_append, List.cons_append] at heq
      rw [← heq] at hlast
      exact absurd hspells hlast.not_spells
    | more op' token' hspells' operand' links' =>
      simp only [Links.tokens, List.cons_append, List.append_assoc, List.cons.injEq] at heq
      obtain ⟨rfl, htokens⟩ := heq
      obtain rfl : op = op' := hspells.eq hspells'
      obtain ⟨rfl, hlinks⟩ := operand.unique operand' htokens (links.stops_append hjoins hrest)
        (links'.stops_append hjoins hlast)
      obtain ⟨rfl, rfl⟩ := links.unique links' hjoins hlinks hrest hlast
      exact ⟨rfl, rfl⟩
termination_by structural links

theorem Suffixes.unique (suffixes other : Suffixes) {rest last : List Token}
    (heq : suffixes.tokens ++ rest = other.tokens ++ last) (hrest : Level.suffix.Stops rest)
    (hlast : Level.suffix.Stops last) : suffixes = other ∧ rest = last := by
  match suffixes with
  | .done =>
    cases other with
    | done => exact ⟨rfl, heq⟩
    | _ => cases Suffixes.eq_done heq.symm hrest
  | .member dot name column suffixes =>
    cases other with
    | done => cases Suffixes.eq_done heq hlast
    | member dot' name' column' suffixes' =>
      simp only [Suffixes.tokens, List.cons_append, List.cons.injEq, Token.mk.injEq,
        Lexeme.name.injEq, true_and] at heq
      obtain ⟨rfl, ⟨rfl, rfl⟩, htokens⟩ := heq
      obtain ⟨rfl, rfl⟩ := suffixes.unique suffixes' htokens hrest hlast
      exact ⟨rfl, rfl⟩
    | _ => simp [Suffixes.tokens] at heq
  | .emptyCall opened closed suffixes =>
    cases other with
    | done => cases Suffixes.eq_done heq hlast
    | member dot' name' column' suffixes' => simp [Suffixes.tokens] at heq
    | emptyCall opened' closed' suffixes' =>
      simp only [Suffixes.tokens, List.cons_append, List.cons.injEq, Token.mk.injEq,
        true_and] at heq
      obtain ⟨rfl, rfl, htokens⟩ := heq
      obtain ⟨rfl, rfl⟩ := suffixes.unique suffixes' htokens hrest hlast
      exact ⟨rfl, rfl⟩
    | call opened' arguments closed' suffixes' =>
      simp only [Suffixes.tokens, List.cons_append, List.append_assoc, List.cons.injEq] at heq
      exact absurd heq.2.symm (ne_cons_of_opens (arguments.opens_append _) rfl)
  | .call opened arguments closed suffixes =>
    cases other with
    | done => cases Suffixes.eq_done heq hlast
    | member dot' name' column' suffixes' => simp [Suffixes.tokens] at heq
    | emptyCall opened' closed' suffixes' =>
      simp only [Suffixes.tokens, List.cons_append, List.append_assoc, List.cons.injEq] at heq
      exact absurd heq.2 (ne_cons_of_opens (arguments.opens_append _) rfl)
    | call opened' arguments' closed' suffixes' =>
      simp only [Suffixes.tokens, List.cons_append, List.append_assoc, List.cons.injEq,
        Token.mk.injEq, true_and] at heq
      obtain ⟨rfl, htokens⟩ := heq
      obtain ⟨rfl, rfl, hsuffixes⟩ := arguments.unique arguments' htokens
      obtain ⟨rfl, rfl⟩ := suffixes.unique suffixes' hsuffixes hrest hlast
      exact ⟨rfl, rfl⟩
termination_by structural suffixes

theorem ArgumentList.unique {taken : List Text} (arguments other : ArgumentList taken)
    {closed closed' : Nat} {rest last : List Token}
    (heq : arguments.tokens ++ ⟨.symbol .closeParen, closed⟩ :: rest =
      other.tokens ++ ⟨.symbol .closeParen, closed'⟩ :: last) :
    arguments = other ∧ closed = closed' ∧ rest = last := by
  match taken, arguments, other, heq with
  | _, .positional value tail, other, heq =>
    cases other with
    | positional value' tail' =>
      simp only [ArgumentList.tokens, List.append_assoc] at heq
      obtain ⟨rfl, htail⟩ := value.unique value' heq
        (tail.stops_append (Level.stops_of_joint_none rfl))
        (tail'.stops_append (Level.stops_of_joint_none rfl))
      obtain ⟨rfl, hclosed⟩ := tail.unique tail' htail
      exact ⟨rfl, hclosed⟩
    | named key column sign hfresh value' tail' =>
      simp only [ArgumentList.tokens, List.append_assoc, List.cons_append] at heq
      exact absurd heq (value.append_ne_named (tail.notAssign_append (by simp [NotNext])))
  | taken, .named key column sign hfresh value tail, other, heq =>
    cases other with
    | positional value' tail' =>
      simp only [ArgumentList.tokens, List.append_assoc, List.cons_append] at heq
      exact absurd heq.symm (value'.append_ne_named (tail'.notAssign_append (by simp [NotNext])))
    | named key' column' sign' hfresh' value' tail' =>
      simp only [ArgumentList.tokens, List.append_assoc, List.cons_append, List.cons.injEq,
        Token.mk.injEq, Lexeme.name.injEq, true_and] at heq
      obtain ⟨⟨rfl, rfl⟩, rfl, htokens⟩ := heq
      obtain ⟨rfl, htail⟩ := value.unique value' htokens
        (tail.stops_append (Level.stops_of_joint_none rfl))
        (tail'.stops_append (Level.stops_of_joint_none rfl))
      obtain ⟨rfl, hclosed⟩ := tail.unique tail' htail
      exact ⟨rfl, hclosed⟩
termination_by structural arguments

theorem ArgumentTail.unique {taken : List Text} (tail other : ArgumentTail taken)
    {closed closed' : Nat} {rest last : List Token}
    (heq : tail.tokens ++ ⟨.symbol .closeParen, closed⟩ :: rest =
      other.tokens ++ ⟨.symbol .closeParen, closed'⟩ :: last) :
    tail = other ∧ closed = closed' ∧ rest = last := by
  match tail with
  | .done => cases other <;> simp_all [ArgumentTail.tokens]
  | .comma column =>
    cases other with
    | more column' arguments =>
      exact absurd (List.cons.inj heq).2.symm (ne_cons_of_opens (arguments.opens_append _) rfl)
    | _ => simp_all [ArgumentTail.tokens]
  | .more column arguments =>
    cases other with
    | done => simp [ArgumentTail.tokens] at heq
    | comma column' =>
      exact absurd (List.cons.inj heq).2 (ne_cons_of_opens (arguments.opens_append _) rfl)
    | more column' arguments' =>
      simp only [ArgumentTail.tokens, List.cons_append, List.cons.injEq, Token.mk.injEq,
        true_and] at heq
      obtain ⟨rfl, htokens⟩ := heq
      obtain ⟨rfl, hclosed⟩ := arguments.unique arguments' htokens
      exact ⟨rfl, hclosed⟩
termination_by structural tail

theorem ItemList.unique (items other : ItemList) {closed closed' : Nat} {rest last : List Token}
    (heq : items.tokens ++ ⟨.symbol .closeBracket, closed⟩ :: rest =
      other.tokens ++ ⟨.symbol .closeBracket, closed'⟩ :: last) :
    items = other ∧ closed = closed' ∧ rest = last := by
  match items with
  | .item value tail =>
    cases other with
    | item value' tail' =>
      simp only [ItemList.tokens, List.append_assoc] at heq
      obtain ⟨rfl, htail⟩ := value.unique value' heq
        (tail.stops_append (Level.stops_of_joint_none rfl))
        (tail'.stops_append (Level.stops_of_joint_none rfl))
      obtain ⟨rfl, hclosed⟩ := tail.unique tail' htail
      exact ⟨rfl, hclosed⟩
    | range first colon final tail' =>
      simp only [ItemList.tokens, List.append_assoc, List.cons_append] at heq
      obtain ⟨-, htail⟩ := value.unique first heq
        (tail.stops_append (Level.stops_of_joint_none rfl)) (Level.stops_of_joint_none rfl)
      cases tail <;> simp [ItemTail.tokens] at htail
  | .range first colon final tail =>
    cases other with
    | item value' tail' =>
      simp only [ItemList.tokens, List.append_assoc, List.cons_append] at heq
      obtain ⟨-, htail⟩ := first.unique value' heq (Level.stops_of_joint_none rfl)
        (tail'.stops_append (Level.stops_of_joint_none rfl))
      cases tail' <;> simp [ItemTail.tokens] at htail
    | range first' colon' final' tail' =>
      simp only [ItemList.tokens, List.append_assoc, List.cons_append] at heq
      obtain ⟨rfl, hcolon⟩ := first.unique first' heq
        (Level.stops_of_joint_none rfl) (Level.stops_of_joint_none rfl)
      simp only [List.cons.injEq, Token.mk.injEq, true_and] at hcolon
      obtain ⟨rfl, hfinal⟩ := hcolon
      obtain ⟨rfl, htail⟩ := final.unique final' hfinal
        (tail.stops_append (Level.stops_of_joint_none rfl))
        (tail'.stops_append (Level.stops_of_joint_none rfl))
      obtain ⟨rfl, hclosed⟩ := tail.unique tail' htail
      exact ⟨rfl, hclosed⟩
termination_by structural items

theorem ItemTail.unique (tail other : ItemTail) {closed closed' : Nat} {rest last : List Token}
    (heq : tail.tokens ++ ⟨.symbol .closeBracket, closed⟩ :: rest =
      other.tokens ++ ⟨.symbol .closeBracket, closed'⟩ :: last) :
    tail = other ∧ closed = closed' ∧ rest = last := by
  match tail with
  | .done => cases other <;> simp_all [ItemTail.tokens]
  | .comma column =>
    cases other with
    | more column' items =>
      exact absurd (List.cons.inj heq).2.symm (ne_cons_of_opens (items.opens_append _) rfl)
    | _ => simp_all [ItemTail.tokens]
  | .more column items =>
    cases other with
    | done => simp [ItemTail.tokens] at heq
    | comma column' =>
      exact absurd (List.cons.inj heq).2 (ne_cons_of_opens (items.opens_append _) rfl)
    | more column' items' =>
      simp only [ItemTail.tokens, List.cons_append, List.cons.injEq, Token.mk.injEq,
        true_and] at heq
      obtain ⟨rfl, htokens⟩ := heq
      obtain ⟨rfl, hclosed⟩ := items.unique items' htokens
      exact ⟨rfl, hclosed⟩
termination_by structural tail

end

end Folio.Source
