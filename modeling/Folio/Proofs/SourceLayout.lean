import Folio.Proofs.Clauses

/-!
# Layout

Blank lines, comments and the ends of lines inside brackets mean nothing.  A
source may be laid out anew by adding lines with nothing but blanks and a
comment, by adding comments to lines, and by ending a line at blanks between
open brackets.  As long as no line ends inside quotes, such a change does not
change the clauses of the source, so it is the same program as before, up to
places, or still none.
-/

namespace Folio.Source

variable {texts others more : List Text} {state : Option Pending} {text blanks blank : Text}
   {quoting : Quoting}

/-! ## Changes of the layout -/

/-- The open brackets of a statement after a further line.  Between statements
there are none, and a header does not go on. -/
def depthAfter (depth : Nat) (text : Text) : Nat :=
  if depth = 0 ∧ (isBlankLine text || isHeader (contentOf text)) = true then 0
  else (depth + balance (stripComment text)).toNat

/-- The open brackets of the statement that goes on after lines. -/
def openDepth (texts : List Text) : Nat :=
  texts.foldl depthAfter 0

/-- The lines of two texts with blanks between them, which may go over ends of
lines. -/
def spread (front blank : Text) : List Text → Text → List Text
  | [], back => [front ++ (blank ++ back)]
  | next :: more, back => (front ++ blank) :: spread [] next more back

/-- A place in a line where a bracket of a statement without a block is open:
outside quotes, in no comment and in no header. -/
structure Breakable (before : List Text) (front : Text) : Prop where
  code : stripComment front = front
  ends : EndsOutside front
  opened : 0 < openDepth before + balance front
  statement : openDepth before = 0 → isHeader (contentOf front) = false

/-- One change of the layout of lines. -/
inductive Edit : List Text → List Text → Prop
  | insert (before after : List Text) {line : Text} (blank : isBlankLine line = true) :
      Edit (before ++ after) (before ++ line :: after)
  | comment (before after : List Text) (line note : Text) {gap : Text}
      (blank : ∀ c ∈ gap, Text.isSpace c = true) : Edit (before ++ line :: after)
        (before ++ (line ++ (gap ++ '#' :: note)) :: after)
  | wrap (before after : List Text) (back : Text) {front blank indent : Text}
      {more : List Text} (breakable : Breakable before front)
      (blanks : ∀ piece ∈ blank :: more, ∀ c ∈ piece, Text.isSpace c = true)
      (separate : blank ≠ [] ∨ more ≠ []) (indented : ∀ c ∈ indent, Text.isSpace c = true) :
      Edit (before ++ (spread front blank more back ++ after))
        (before ++ front :: (indent ++ back) :: after)

/-! ## The state between lines -/

theorem clausesFrom_cons (state : Option Pending) (text : Text) (rest : List Text) :
    clausesFrom state (text :: rest) =
      (clauseStep state text).2 ++ clausesFrom (clauseStep state text).1 rest := by
  cases state <;> rfl

def stateAfter (state : Option Pending) (texts : List Text) : Option Pending :=
  texts.foldl (fun state text => (clauseStep state text).1) state

theorem clausesFrom_append_congr {before : List Text}
    (hsame : clausesFrom (stateAfter state before) texts =
      clausesFrom (stateAfter state before) others) : clausesFrom state (before ++ texts) =
      clausesFrom state (before ++ others) := by
  induction before generalizing state with
  | nil => exact hsame
  | cons text before ih =>
    rw [List.cons_append, List.cons_append, clausesFrom_cons, clausesFrom_cons, ih hsame]

def depthOf : Option Pending → Nat
  | none => 0
  | some pending => pending.depth.toNat

def Open (state : Option Pending) : Prop :=
  ∀ pending, state = some pending → 0 < pending.depth

theorem Pending.settle_state (pending : Pending) :
    depthOf pending.settle.1 = pending.depth.toNat ∧ Open pending.settle.1 := by
  rw [Pending.settle]
  split
  · rename_i hclosed
    exact ⟨(Int.toNat_of_nonpos hclosed).symm, fun _ hnone => by cases hnone⟩
  · rename_i hopened
    refine ⟨rfl, fun other hother => ?_⟩
    cases hother
    omega

theorem clauseStep_state (hopen : Open state) (text : Text) :
    depthOf (clauseStep state text).1 = depthAfter (depthOf state) text ∧
      Open (clauseStep state text).1 := by
  cases state with
  | none =>
    rw [clauseStep, depthOf, depthAfter]
    cases hblank : isBlankLine text with
    | true => exact ⟨by simp [depthOf], fun _ hnone => by simp at hnone⟩
    | false =>
      cases hheader : isHeader (contentOf text) with
      | true => exact ⟨by simp [depthOf], fun _ hnone => by simp at hnone⟩
      | false => simpa [Pending.start] using (Pending.start text).settle_state
  | some pending =>
    have hdepth := hopen pending rfl
    obtain ⟨hsettle, hstate⟩ := (pending.add text).settle_state
    rw [clauseStep, depthOf, depthAfter, if_neg (by omega), hsettle, Pending.add,
      Int.toNat_of_nonneg hdepth.le]
    exact ⟨rfl, hstate⟩

theorem stateAfter_state (hopen : Open state) (texts : List Text) :
    depthOf (stateAfter state texts) = texts.foldl depthAfter (depthOf state) ∧
      Open (stateAfter state texts) := by
  induction texts generalizing state with
  | nil => exact ⟨rfl, hopen⟩
  | cons text texts ih =>
    obtain ⟨hdepth, hstep⟩ := clauseStep_state hopen text
    obtain ⟨hrest, hstate⟩ := ih hstep
    rw [List.foldl_cons, ← hdepth]
    exact ⟨hrest, hstate⟩

theorem open_none : Open none := by
  intro pending hnone
  cases hnone

/-! ## Blank lines -/

theorem isSpace_of_isBlankLine (hblank : isBlankLine text = true) :
    ∀ c ∈ stripComment text, Text.isSpace c = true := by
  rwa [isBlankLine, Text.isBlank, List.all_eq_true] at hblank

theorem Pending.add_of_blank (pending : Pending)
    (hblank : isBlankLine text = true) : pending.add text = pending := by
  have hspaces := isSpace_of_isBlankLine hblank
  rw [Pending.add, lexemes?_of_blank hspaces, map₂_append_nil, balance,
    balanceFrom_of_blank hspaces, add_zero]

theorem Pending.settle_of_open {pending : Pending}
    (hopened : 0 < pending.depth) : pending.settle = (some pending, []) := by
  rw [Pending.settle, if_neg (by omega)]

theorem clausesFrom_insert (hopen : Open state) {line : Text} (hblank : isBlankLine line = true)
    (after : List Text) : clausesFrom state (line :: after) = clausesFrom state after := by
  cases state with
  | none => exact clauses_cons_of_blank hblank after
  | some pending =>
    rw [clausesFrom_cons, clauseStep, pending.add_of_blank hblank,
      Pending.settle_of_open (hopen pending rfl), List.nil_append]

/-! ## Longer lines -/

theorem exists_solid (hsolid : isBlankLine text = false) : ∃ c ∈ text, (c == ' ') = false := by
  obtain ⟨trail, -, hcode, c, hc, hletter⟩ := exists_content hsolid
  obtain ⟨rest, htext⟩ : stripComment text <+: text := beforeComment_isPrefix .outside text
  refine ⟨c, ?_, ?_⟩
  · rw [← htext, hcode]
    simp [hc]
  · rw [beq_eq_false_iff_ne]
    rintro rfl
    exact absurd hletter (by decide)

theorem spaceCount_append (hsolid : isBlankLine text = false)
    (rest : Text) : spaceCount (text ++ rest) = spaceCount text := by
  rw [spaceCount, takeWhile_append_of_exists (exists_solid hsolid)]
  rfl

theorem indentation_append (hsolid : isBlankLine text = false)
    (rest : Text) : indentation (text ++ rest) = indentation text := by
  have hstop := exists_solid hsolid
  have hdrop : ((text ++ rest).drop (text.takeWhile (· == ' ')).length).head? =
      (text.drop (text.takeWhile (· == ' ')).length).head? := by
    obtain ⟨c, hc, hne⟩ := hstop
    have hsplit := takeWhile_append_drop (· == ' ') text
    cases hback : text.drop (text.takeWhile (· == ' ')).length with
    | nil =>
      rw [hback, List.append_nil] at hsplit
      rw [← hsplit] at hc
      have hspace := List.mem_takeWhile_imp hc
      rw [hne] at hspace
      cases hspace
    | cons d back =>
      rw [List.drop_append_of_le_length (List.takeWhile_sublist _).length_le, hback]
      rfl
  rw [indentation, indentation, takeWhile_append_of_exists hstop, hdrop]

theorem stripEnd_append_blank (text : Text)
    (hblanks : ∀ c ∈ blanks, Text.isSpace c = true) : Text.stripEnd Text.isSpace (text ++ blanks) =
      Text.stripEnd Text.isSpace text := by
  rw [Text.stripEnd, List.reverse_append, List.dropWhile_append_of_pos (by simpa using hblanks)]
  rfl

theorem clauseStep_trail {rest trail : Text} (hends : EndsOutside (stripComment text))
    (htrail : ∀ c ∈ trail, Text.isSpace c = true)
    (hcode : stripComment (text ++ rest) = stripComment text ++ trail) (state : Option Pending) :
    clauseStep state (text ++ rest) = clauseStep state text := by
  have hlexemes : lexemes? (stripComment (text ++ rest)) = lexemes? (stripComment text) := by
    rw [hcode, lexemes?_append_blank hends htrail]
  have hbalance : balance (stripComment (text ++ rest)) = balance (stripComment text) := by
    rw [hcode, balance_append hends, balance, balance, balanceFrom_of_blank htrail, add_zero]
  cases state with
  | some pending => rw [clauseStep, clauseStep, Pending.add, Pending.add, hlexemes, hbalance]
  | none =>
    have hblank : isBlankLine (text ++ rest) = isBlankLine text := by
      rw [isBlankLine, hcode, Text.isBlank, List.all_append, List.all_eq_true.mpr htrail,
        Bool.and_true]
      rfl
    rw [clauseStep, clauseStep, hblank]
    cases hsolid : isBlankLine text with
    | true => rfl
    | false =>
      have hcontent : contentOf (text ++ rest) = contentOf text := by
        rw [contentOf, hcode, stripEnd_append_blank _ htrail, spaceCount_append hsolid]
        rfl
      rw [hcontent, Pending.start, Pending.start, hlexemes, hbalance, indentation_append hsolid]

theorem beforeComment_append (hwhole : beforeComment quoting text = text) (rest : Text) :
    beforeComment quoting (text ++ rest) =
      text ++ beforeComment (text.foldl Quoting.step quoting) rest := by
  induction text generalizing quoting with
  | nil => rfl
  | cons c text ih =>
    rw [beforeComment] at hwhole
    rw [List.cons_append, beforeComment]
    split
    · rename_i hmark
      rw [if_pos hmark] at hwhole
      cases hwhole
    · rename_i hmark
      rw [if_neg hmark] at hwhole
      rw [ih (List.cons.inj hwhole).2]
      rfl

theorem beforeComment_append_of_ne (hcomment : beforeComment quoting text ≠ text) (rest : Text) :
    beforeComment quoting (text ++ rest) = beforeComment quoting text := by
  induction text generalizing quoting with
  | nil => exact absurd rfl hcomment
  | cons c text ih =>
    rw [beforeComment] at hcomment
    rw [List.cons_append, beforeComment, beforeComment]
    split
    · rfl
    · rename_i hmark
      rw [if_neg hmark] at hcomment
      rw [ih fun hwhole => hcomment (by rw [hwhole])]

theorem exists_stripComment {line gap : Text} (hends : EndsOutside (stripComment line))
    (hgap : ∀ c ∈ gap, Text.isSpace c = true) (note : Text) :
    ∃ trail, (∀ c ∈ trail, Text.isSpace c = true) ∧ stripComment (line ++ (gap ++ '#' :: note)) =
        stripComment line ++ trail := by
  by_cases hwhole : stripComment line = line
  · rw [hwhole] at hends
    refine ⟨gap, hgap, ?_⟩
    rw [hwhole, stripComment, beforeComment_append hwhole, hends,
      beforeComment_unmarked fun c hc => unmarked_of_isSpace (hgap c hc)]
    simp [beforeComment]
  · refine ⟨[], by simp, ?_⟩
    rw [List.append_nil]
    exact beforeComment_append_of_ne hwhole _

/-! ## Broken lines -/

theorem stripComment_blank_append (hblanks : ∀ c ∈ blanks, Text.isSpace c = true) (text : Text) :
    stripComment (blanks ++ text) = blanks ++ stripComment text :=
  beforeComment_unmarked (fun c hc => unmarked_of_isSpace (hblanks c hc)) text

theorem stripComment_append {front : Text} (hcode : stripComment front = front)
    (hends : EndsOutside front) (rest : Text) :
    stripComment (front ++ rest) = front ++ stripComment rest := by
  rw [stripComment, beforeComment_append hcode, hends]
  rfl

theorem Pending.add_blank_append (pending : Pending) (hblanks : ∀ c ∈ blanks, Text.isSpace c = true)
    (text : Text) : pending.add (blanks ++ text) = pending.add text := by
  rw [Pending.add, Pending.add, stripComment_blank_append hblanks, lexemes?_blank_append hblanks,
    balance_append (endsOutside_of_blank hblanks)]
  congr 2
  rw [balance, balanceFrom_of_blank hblanks, zero_add]

theorem exists_bracket (hbalance : balanceFrom quoting text ≠ 0) :
    ∃ c ∈ text, bracketChange c ≠ 0 := by
  induction text generalizing quoting with
  | nil => exact absurd rfl hbalance
  | cons c text ih =>
    by_cases hc : bracketChange c = 0
    · rw [balanceFrom, hc] at hbalance
      obtain ⟨d, hd, hbracket⟩ := ih (by simpa using hbalance)
      exact ⟨d, by simp [hd], hbracket⟩
    · exact ⟨c, by simp, hc⟩

theorem isPrefixOf_append {word : Text} (hword : word.all (fun c => bracketChange c == 0) = true)
    (hbracket : ∃ c ∈ text, bracketChange c ≠ 0) (rest : Text) :
    word.isPrefixOf (text ++ rest) = word.isPrefixOf text := by
  rw [Bool.eq_iff_iff, List.isPrefixOf_iff_prefix, List.isPrefixOf_iff_prefix]
  constructor
  · intro hprefix
    rcases List.prefix_or_prefix_of_prefix hprefix
      (List.prefix_append text rest) with hshort | hlong
    · exact hshort
    · obtain ⟨c, hc, hne⟩ := hbracket
      have hflat := List.all_eq_true.mp hword c (hlong.subset hc)
      exact absurd (beq_iff_eq.mp hflat) hne
  · intro hprefix
    exact hprefix.trans (List.prefix_append text rest)

theorem isHeader_append (hbracket : ∃ c ∈ text, bracketChange c ≠ 0) (rest : Text) :
    isHeader (text ++ rest) = isHeader text := by
  have helse : ∀ more, (text ++ more == elseContent) = false := by
    intro more
    rw [beq_eq_false_iff_ne]
    intro heq
    obtain ⟨c, hc, hne⟩ := hbracket
    have hmem : c ∈ elseContent := by
      rw [← heq]
      simp [hc]
    have hflat : elseContent.all (fun d => bracketChange d == 0) = true := by decide
    exact hne (beq_iff_eq.mp (List.all_eq_true.mp hflat c hmem))
  have hself := helse []
  rw [List.append_nil] at hself
  rw [isHeader, isHeader, continuesChoice, continuesChoice, helse, hself,
    isPrefixOf_append (by decide) hbracket, isPrefixOf_append (by decide) hbracket,
    isPrefixOf_append (by decide) hbracket]

theorem exists_stripEnd_append (text rest : Text) :
    ∃ more, Text.stripEnd Text.isSpace (text ++ rest) =
      Text.stripEnd Text.isSpace text ++ more := by
  obtain ⟨trail, -, htrail⟩ := exists_stripEnd text
  rw [Text.stripEnd, List.reverse_append, List.dropWhile_append]
  split
  · exact ⟨[], by rw [List.append_nil]; rfl⟩
  · refine ⟨trail ++ Text.stripEnd Text.isSpace rest, ?_⟩
    rw [List.reverse_append, List.reverse_reverse, ← List.append_assoc, ← htrail]
    rfl

theorem exists_contentOf_append {rest more : Text} (hsolid : isBlankLine text = false)
    (hcode : stripComment (text ++ rest) = stripComment text ++ more) :
    ∃ tail, contentOf (text ++ rest) = contentOf text ++ tail := by
  obtain ⟨tail, htail⟩ := exists_stripEnd_append (stripComment text) more
  obtain ⟨-, -, -, c, hc, -⟩ := exists_content hsolid
  have hshort : spaceCount text ≤ (Text.stripEnd Text.isSpace (stripComment text)).length := by
    by_contra hlong
    rw [contentOf, List.drop_eq_nil_of_le (by omega)] at hc
    cases hc
  refine ⟨tail, ?_⟩
  rw [contentOf, spaceCount_append hsolid, hcode, htail, List.drop_append_of_le_length hshort]
  rfl

section Breakable

variable {before : List Text} {front : Text} (hbreak : Breakable before front)

include hbreak

theorem Breakable.lexemes {blank back : Text} (hblank : ∀ c ∈ blank, Text.isSpace c = true)
    (hseparate : blank ≠ [] ∨ back = []) : lexemes? (stripComment (front ++ (blank ++ back))) =
      Option.map₂ (· ++ ·) (lexemes? (stripComment front)) (lexemes? (stripComment back)) := by
  rw [stripComment_append hbreak.code hbreak.ends, hbreak.code, stripComment_blank_append hblank]
  cases blank with
  | nil =>
    obtain rfl : back = [] := hseparate.resolve_left (by simp)
    rw [List.nil_append, show stripComment [] = [] from rfl, List.append_nil, lexemes?_nil,
      map₂_append_nil]
  | cons c blank =>
    obtain ⟨hc, hblank⟩ := List.forall_mem_cons.mp hblank
    rw [List.cons_append, lexemes?_append hbreak.ends hc, lexemes?_blank_append hblank]

theorem Breakable.balance (hblank : ∀ c ∈ blank, Text.isSpace c = true) (back : Text) :
    Source.balance (stripComment (front ++ (blank ++ back))) = Source.balance (stripComment front) +
        Source.balance (stripComment back) := by
  have hnone : Source.balance blank = 0 := balanceFrom_of_blank hblank _
  rw [stripComment_append hbreak.code hbreak.ends, hbreak.code, stripComment_blank_append hblank,
    balance_append hbreak.ends, balance_append (endsOutside_of_blank hblank), hnone, zero_add]

theorem Breakable.starts (hdepth : openDepth before = 0) :
    isBlankLine front = false ∧ ∀ rest, isBlankLine (front ++ rest) = false ∧
      isHeader (contentOf (front ++ rest)) = false := by
  have hopened := hbreak.opened
  rw [hdepth, Nat.cast_zero, zero_add] at hopened
  have hsolid : isBlankLine front = false := by
    rw [Bool.eq_false_iff]
    intro hblank
    have hspaces := isSpace_of_isBlankLine hblank
    rw [hbreak.code] at hspaces
    rw [Source.balance, balanceFrom_of_blank hspaces] at hopened
    omega
  have hends : EndsOutside (stripComment front) := by
    rw [hbreak.code]
    exact hbreak.ends
  obtain ⟨-, -, hcontent⟩ := scans_content hsolid hends
  rw [hbreak.code] at hcontent
  have hbracket : ∃ c ∈ contentOf front, bracketChange c ≠ 0 := by
    rw [hcontent] at hopened
    exact exists_bracket hopened.ne'
  refine ⟨hsolid, fun rest => ?_⟩
  have hcode : stripComment (front ++ rest) = stripComment front ++ stripComment rest := by
    rw [stripComment_append hbreak.code hbreak.ends, hbreak.code]
  constructor
  · rw [isBlankLine, Text.isBlank] at hsolid ⊢
    rw [hcode, List.all_append, hsolid, Bool.false_and]
  · obtain ⟨tail, htail⟩ := exists_contentOf_append hsolid hcode
    rw [htail, isHeader_append hbracket, hbreak.statement hdepth]

/-- The statement goes on after the line is ended, and what follows on the line
may as well follow on the next one. -/
theorem Breakable.exists_pending : ∃ pending : Pending, 0 < pending.depth ∧ ∀ {blank back : Text},
      (∀ c ∈ blank, Text.isSpace c = true) → (blank ≠ [] ∨ back = []) →
      clauseStep (stateAfter none before) (front ++ (blank ++ back)) =
        (pending.add back).settle := by
  obtain ⟨hdepth, hopen⟩ := stateAfter_state open_none before
  have hopened := hbreak.opened
  cases hstate : stateAfter none before with
  | none =>
    rw [hstate] at hdepth
    have hzero : openDepth before = 0 := hdepth.symm
    obtain ⟨hsolid, hheader⟩ := hbreak.starts hzero
    refine ⟨Pending.start front, ?_, ?_⟩
    · have hstart : (Pending.start front).depth = Source.balance front := by
        rw [Pending.start, hbreak.code]
      omega
    · intro blank back hblank hseparate
      obtain ⟨hline, hsimple⟩ := hheader (blank ++ back)
      rw [clauseStep, hline, hsimple]
      simp only [Bool.false_eq_true, if_false]
      rw [Pending.start, hbreak.lexemes hblank hseparate, hbreak.balance hblank,
        indentation_append hsolid]
      rfl
  | some pending =>
    rw [hstate] at hdepth hopen
    have hpending := hopen pending rfl
    have hcount : (openDepth before : Int) = pending.depth := by
      rw [openDepth, ← show depthOf none = 0 from rfl, ← hdepth, depthOf,
        Int.toNat_of_nonneg hpending.le]
    refine ⟨pending.add front, ?_, ?_⟩
    · have hadd : (pending.add front).depth = pending.depth + Source.balance front := by
        rw [Pending.add, hbreak.code]
      omega
    · intro blank back hblank hseparate
      rw [clauseStep]
      congr 1
      simp only [Pending.add, hbreak.lexemes hblank hseparate, hbreak.balance hblank, add_assoc]
      congr 1
      exact (Option.map₂_assoc fun x y z => List.append_assoc x y z).symm

end Breakable

theorem Pending.resume_spread {pending : Pending} (hopened : 0 < pending.depth)
    (hblanks : ∀ piece ∈ blank :: more, ∀ c ∈ piece, Text.isSpace c = true) (back : Text)
    (after : List Text) : clausesFrom (some pending) (spread [] blank more back ++ after) =
      (pending.add back).resume after := by
  induction more generalizing blank with
  | nil =>
    have hblank := hblanks blank (by simp)
    rw [spread, List.nil_append, List.singleton_append, clausesFrom_cons, clauseStep,
      pending.add_blank_append hblank]
    rfl
  | cons next more ih =>
    obtain ⟨hblank, hmore⟩ := List.forall_mem_cons.mp hblanks
    have hline : isBlankLine blank = true := by
      have hcode := stripComment_blank_append hblank []
      rw [List.append_nil] at hcode
      rw [isBlankLine, Text.isBlank, List.all_eq_true, hcode]
      exact List.forall_mem_append.mpr ⟨hblank, by simp [stripComment, beforeComment]⟩
    rw [spread, List.nil_append, List.cons_append,
      clausesFrom_insert (fun _ hsome => Option.some.inj hsome ▸ hopened) hline]
    exact ih hmore

theorem clausesFrom_wrap {before : List Text} {front back indent : Text}
    (hbreak : Breakable before front)
    (hblanks : ∀ piece ∈ blank :: more, ∀ c ∈ piece, Text.isSpace c = true)
    (hseparate : blank ≠ [] ∨ more ≠ []) (hindent : ∀ c ∈ indent, Text.isSpace c = true)
    (after : List Text) :
    clausesFrom (stateAfter none before) (front :: (indent ++ back) :: after) =
      clausesFrom (stateAfter none before) (spread front blank more back ++ after) := by
  obtain ⟨pending, hopened, hstep⟩ := hbreak.exists_pending
  have hempty : pending.add [] = pending := pending.add_of_blank rfl
  have hend : ∀ gap, (∀ c ∈ gap, Text.isSpace c = true) →
      clauseStep (stateAfter none before) (front ++ gap) = (some pending, []) := by
    intro gap hgap
    have hline := hstep hgap (Or.inr (Eq.refl []))
    rwa [List.append_nil, hempty, Pending.settle_of_open hopened] at hline
  have hfront := hend [] (by simp)
  rw [List.append_nil] at hfront
  have hnew : clausesFrom (stateAfter none before)
      (front :: (indent ++ back) :: after) = (pending.add back).resume after := by
    rw [clausesFrom_cons, hfront, List.nil_append, clausesFrom_cons, clauseStep,
      pending.add_blank_append hindent]
    rfl
  rw [hnew]
  cases more with
  | nil =>
    have hblank := hblanks blank (by simp)
    rw [spread, List.singleton_append, clausesFrom_cons,
      hstep hblank (.inl (hseparate.resolve_right (by simp)))]
    rfl
  | cons next more =>
    obtain ⟨hblank, hmore⟩ := List.forall_mem_cons.mp hblanks
    rw [spread, List.cons_append, clausesFrom_cons, hend blank hblank, List.nil_append,
      Pending.resume_spread hopened hmore]

/-! ## Sources laid out anew -/

theorem Edit.clauses (hedit : Edit texts others)
    (hends : ∀ text ∈ texts, EndsOutside (stripComment text)) :
    Source.clauses others = Source.clauses texts := by
  cases hedit with
  | insert before after hblank =>
    obtain ⟨-, hopen⟩ := stateAfter_state open_none before
    exact clausesFrom_append_congr (clausesFrom_insert hopen hblank after)
  | comment before after line note hgap =>
    have hline := hends line (by simp)
    obtain ⟨trail, htrail, hcode⟩ := exists_stripComment hline hgap note
    apply clausesFrom_append_congr
    rw [clausesFrom_cons, clausesFrom_cons, clauseStep_trail hline htrail hcode]
  | wrap before after back hbreak hblanks hseparate hindent =>
    exact clausesFrom_append_congr (clausesFrom_wrap hbreak hblanks hseparate hindent after)

theorem endsOutside_of_spread {front back : Text} (hcode : stripComment front = front)
    (hfront : EndsOutside front)
    (hblanks : ∀ piece ∈ blank :: more, ∀ c ∈ piece, Text.isSpace c = true)
    (hends : ∀ text ∈ spread front blank more back,
      EndsOutside (stripComment text)) : EndsOutside (stripComment back) := by
  induction more generalizing front blank with
  | nil =>
    have hblank := hblanks blank (by simp)
    have hline := hends _ (List.mem_singleton_self _)
    rwa [stripComment_append hcode hfront, stripComment_blank_append hblank, hfront.append,
      (endsOutside_of_blank hblank).append] at hline
  | cons next more ih =>
    obtain ⟨-, hmore⟩ := List.forall_mem_cons.mp hblanks
    obtain ⟨-, hrest⟩ := List.forall_mem_cons.mp hends
    have hempty : EndsOutside [] := endsOutside_of_blank (by simp)
    exact ih rfl hempty hmore hrest

theorem Edit.endsOutside (hedit : Edit texts others)
    (hends : ∀ text ∈ texts, EndsOutside (stripComment text)) :
    ∀ text ∈ others, EndsOutside (stripComment text) := by
  cases hedit with
  | insert before after hblank =>
    have hline := endsOutside_of_blank (isSpace_of_isBlankLine hblank)
    simp only [List.forall_mem_append, List.forall_mem_cons] at hends ⊢
    exact ⟨hends.1, hline, hends.2⟩
  | comment before after line note hgap =>
    simp only [List.forall_mem_append, List.forall_mem_cons] at hends ⊢
    obtain ⟨hbefore, hline, hafter⟩ := hends
    obtain ⟨trail, htrail, hcode⟩ := exists_stripComment hline hgap note
    refine ⟨hbefore, ?_, hafter⟩
    rw [hcode, hline.append]
    exact endsOutside_of_blank htrail
  | wrap before after back hbreak hblanks hseparate hindent =>
    simp only [List.forall_mem_append, List.forall_mem_cons] at hends ⊢
    obtain ⟨hbefore, hlines, hafter⟩ := hends
    have hback := endsOutside_of_spread hbreak.code hbreak.ends hblanks hlines
    refine ⟨hbefore, ?_, ?_, hafter⟩
    · rw [hbreak.code]
      exact hbreak.ends
    · rw [stripComment_blank_append hindent, (endsOutside_of_blank hindent).append]
      exact hback

theorem Edit.all_clauses (hedits : Relation.ReflTransGen Edit texts others)
    (hends : ∀ text ∈ texts, EndsOutside (stripComment text)) :
    (∀ text ∈ others, EndsOutside (stripComment text)) ∧
      Source.clauses others = Source.clauses texts := by
  induction hedits with
  | refl => exact ⟨hends, rfl⟩
  | tail _ hedit ih =>
    obtain ⟨hmiddle, hsame⟩ := ih
    exact ⟨hedit.endsOutside hmiddle, (hedit.clauses hmiddle).trans hsame⟩

/-- A source that is laid out anew is the same program, or still none. -/
theorem parseProgram_of_edits {source other : Text}
    (hends : LinesEndOutside source)
    (hedits : Relation.ReflTransGen Edit (Text.splitLines source)
      (Text.splitLines other)) :
    (parseProgram other).toOption.map unplacedBody =
      (parseProgram source).toOption.map unplacedBody := by
  obtain ⟨hother, hclauses⟩ := Edit.all_clauses hedits hends
  exact parseProgram_of_clauses hends hother hclauses.symm

def plainSource : Text :=
  "x = [1, 2]".toList

/-- The assignment with a comment above it, over three lines. -/
def looseSource : Text :=
  "# sizes\nx = [1,\n\t\n  2]  # two".toList

theorem looseSource_edits : Relation.ReflTransGen Edit (Text.splitLines plainSource)
      (Text.splitLines looseSource) := by
  have hblank : ∀ c ∈ " ".toList, Text.isSpace c = true := List.all_eq_true.mp (by decide)
  have hblanks : ∀ c ∈ "  ".toList, Text.isSpace c = true := List.all_eq_true.mp (by decide)
  have hheading := Edit.insert [] ["x = [1, 2]".toList]
    (show isBlankLine "# sizes".toList = true by decide)
  have hbreak : Breakable ["# sizes".toList] "x = [1,".toList :=
    ⟨by decide, by unfold EndsOutside; decide, by decide, by decide⟩
  have hwrap := Edit.wrap ["# sizes".toList] [] "2]".toList hbreak
    (List.forall_mem_singleton.mpr hblank) (Or.inl (by decide)) hblanks
  have htab := Edit.insert ["# sizes".toList, "x = [1,".toList] ["  2]".toList]
    (show isBlankLine "\t".toList = true by decide)
  have hcomment := Edit.comment ["# sizes".toList, "x = [1,".toList, "\t".toList] [] "  2]".toList
    " two".toList hblanks
  have hplain : Text.splitLines plainSource = ["x = [1, 2]".toList] := by decide
  have hloose : Text.splitLines looseSource =
      ["# sizes".toList, "x = [1,".toList, "\t".toList, "  2]  # two".toList] := by
    decide
  rw [hplain, hloose]
  exact (((Relation.ReflTransGen.single hheading).tail hwrap).tail htab).tail hcomment

theorem looseSource_reads_plain :
    LinesEndOutside plainSource ∧ (parseProgram plainSource).toBool = true ∧
      (parseProgram looseSource).toOption.map unplacedBody =
        (parseProgram plainSource).toOption.map unplacedBody := by
  have hends : LinesEndOutside plainSource := by
    unfold LinesEndOutside EndsOutside
    decide
  exact ⟨hends, by decide +kernel, parseProgram_of_edits hends looseSource_edits⟩

end Folio.Source
