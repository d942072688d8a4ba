import Folio.Pattern.Matcher
import Mathlib.Tactic

/-!
# The matches of a pattern

A part of a pattern leads to a goal: what is found through it is found by the goal, in
the same text and not before the place where the part starts.  This is shown for every
part, and so a match stops in its text, not before it starts.

The matches of a text are looked for one after the other.  Each of them takes a
character or moves on by the next one, so that the search comes to an end before it is
cut off.  A search for a number of matches gives the first ones of all matches.
-/

namespace Folio.Pattern

/-! ## Cursors -/

/-- The cursor stands in a text of a size. -/
structure Cursor.In (size : Nat) (cursor : Cursor) : Prop where
  before : cursor.before.length = cursor.index
  after : cursor.index + cursor.after.length = size

namespace Cursor

variable {size index : Nat} {c : Char} {before rest : Text} {cursor : Cursor}

theorem In.next (hin : In size ⟨index, before, c :: rest⟩) :
    In size ⟨index + 1, c :: before, rest⟩ := by
  obtain ⟨hbefore, hafter⟩ := hin
  simp only [List.length_cons] at hbefore hafter
  constructor
  · simp only [List.length_cons, hbefore]
  · dsimp only
    omega

theorem In.retreat (hin : cursor.In size) :
    cursor.retreat.In size ∧ cursor.index ≤ cursor.retreat.index + 1 := by
  obtain ⟨index, before, after⟩ := cursor
  cases before with
  | nil => exact ⟨hin, Nat.le_succ _⟩
  | cons c rest =>
    obtain ⟨hbefore, hafter⟩ := hin
    simp only [List.length_cons] at hbefore hafter
    refine ⟨⟨?_, ?_⟩, ?_⟩
    · dsimp only [Cursor.retreat]
      omega
    · dsimp only [Cursor.retreat, List.length_cons]
      omega
    · dsimp only [Cursor.retreat]
      omega

end Cursor

/-! ## Parts that lead to a goal -/

/-- A goal finds a result from a place or further on. -/
def Goal.Finds (size : Nat) (goal : Goal) (least : Nat) (result : Cursor × Marks) : Prop :=
  ∃ next marks, next.In size ∧ least ≤ next.index ∧ goal next marks = some result

/-- What is found on the way to a goal is found by the goal, not before where the way
starts. -/
def Leads (size : Nat) (way : Goal → Goal) : Prop :=
  ∀ (goal : Goal) (cursor : Cursor) (marks : Marks) (result : Cursor × Marks),
    cursor.In size → way goal cursor marks = some result →
      goal.Finds size cursor.index result

variable {size : Nat} {goal : Goal} {test : CharTest} {least : Nat} {most : Option Nat}
  {count index : Nat} {before after : Text} {cursor : Cursor} {marks : Marks}
  {result : Cursor × Marks} {body way : Goal → Goal}

theorem Goal.Finds.here (hin : cursor.In size) (hgoal : goal cursor marks = some result) :
    goal.Finds size cursor.index result := ⟨cursor, marks, hin, Nat.le_refl _, hgoal⟩

theorem Goal.Finds.later {first : Nat} (hfinds : goal.Finds size least result)
    (hle : first ≤ least) : goal.Finds size first result := by
  obtain ⟨next, marks, hin, hleast, hgoal⟩ := hfinds
  exact ⟨next, marks, hin, hle.trans hleast, hgoal⟩

/-- A way and what comes after it lead to the goal. -/
theorem Leads.through {rest : Goal} (hbody : Leads size body) (hin : cursor.In size)
    (hfound : body rest cursor marks = some result)
    (hrest : ∀ next marks, next.In size → rest next marks = some result →
      goal.Finds size next.index result) : goal.Finds size cursor.index result := by
  obtain ⟨next, marks', hnext, hle, hgoal⟩ := hbody rest cursor marks result hin hfound
  exact (hrest next marks' hnext hgoal).later hle

/-- A way that is gone by itself ends not before it starts. -/
theorem Leads.reached (hbody : Leads size body) (hin : cursor.In size)
    (hfound : body Goal.reached cursor marks = some result) :
    result.1.In size ∧ cursor.index ≤ result.1.index := by
  obtain ⟨next, marks', hnext, hle, hgoal⟩ := hbody _ cursor marks result hin hfound
  obtain rfl : (next, marks') = result := Option.some.inj hgoal
  exact ⟨hnext, hle⟩

/-! ## Repeated tests -/

theorem in_runForward (test : CharTest) (most : Option Nat) (count : Nat)
    (hin : Cursor.In size ⟨index, before, after⟩) :
    (runForward test most count index before after).1.In size ∧
      index + (runForward test most count index before after).2 =
        (runForward test most count index before after).1.index + count := by
  induction after generalizing count index before with
  | nil => exact ⟨hin, rfl⟩
  | cons c rest ih =>
    rw [runForward]
    split
    · exact ⟨hin, rfl⟩
    · obtain ⟨hstop, hcount⟩ := ih (count + 1) hin.next
      exact ⟨hstop, by omega⟩

theorem finds_of_tryBackward {n first : Nat} (hin : cursor.In size)
    (hfirst : first + n ≤ cursor.index) (hfound : tryBackward goal marks n cursor = some result) :
    goal.Finds size first result := by
  induction n generalizing cursor with
  | zero => exact (Goal.Finds.here hin hfound).later hfirst
  | succ n ih =>
    rw [tryBackward] at hfound
    split at hfound
    case h_1 hgoal =>
      exact (Goal.Finds.here hin (hgoal.trans hfound)).later (by omega)
    case h_2 =>
      obtain ⟨hretreat, hindex⟩ := hin.retreat
      exact ih hretreat (by omega) hfound

theorem finds_of_tryForward (hin : Cursor.In size ⟨index, before, after⟩)
    (hfound : tryForward test goal marks most count index before after = some result) :
    goal.Finds size index result := by
  induction after generalizing count index before with
  | nil => exact .here hin hfound
  | cons c rest ih =>
    rw [tryForward] at hfound
    split at hfound
    case h_1 hgoal => exact .here hin (hgoal.trans hfound)
    case h_2 =>
      split at hfound
      · cases hfound
      · exact (ih hin.next hfound).later (Nat.le_succ index)

theorem leads_runTest (greed : Greed) : Leads size (runTest greed least most test) := by
  intro goal cursor marks result hin hfound
  cases greed with
  | greedy =>
    obtain ⟨hstop, hcount⟩ := in_runForward test most 0 hin
    simp only [runTest] at hfound
    split at hfound
    · cases hfound
    · exact finds_of_tryBackward hstop (by omega) hfound
  | possessive =>
    obtain ⟨hstop, hcount⟩ := in_runForward test most 0 hin
    simp only [runTest] at hfound
    split at hfound
    · cases hfound
    · exact (Goal.Finds.here hstop hfound).later (by omega)
  | reluctant =>
    obtain ⟨hstop, hcount⟩ := in_runForward test (some least) 0 hin
    simp only [runTest] at hfound
    split at hfound
    · cases hfound
    · have hle : cursor.index ≤
          (runForward test (some least) 0 cursor.index cursor.before cursor.after).1.index := by
        omega
      exact (finds_of_tryForward hstop hfound).later hle

/-! ## Repeated parts -/

theorem leads_loopGreedy (hbody : Leads size body) (fuel count : Nat) (last : Option Nat) :
    Leads size fun goal => loopGreedy body least most goal fuel count last := by
  intro goal cursor marks result hin hfound
  induction fuel generalizing count last cursor marks with
  | zero => cases hfound
  | succ fuel ih =>
    simp only [loopGreedy] at hfound
    split at hfound
    · exact hbody.through hin hfound (ih _ _)
    · split at hfound
      case h_1 hmore =>
        split at hmore
        · exact hbody.through hin (hmore.trans hfound) (ih _ _)
        · cases hmore
      case h_2 => exact .here hin hfound

theorem leads_loopReluctant (hbody : Leads size body) (fuel count : Nat) (last : Option Nat) :
    Leads size fun goal => loopReluctant body least most goal fuel count last := by
  intro goal cursor marks result hin hfound
  induction fuel generalizing count last cursor marks with
  | zero => cases hfound
  | succ fuel ih =>
    simp only [loopReluctant] at hfound
    split at hfound
    · exact hbody.through hin hfound (ih _ _)
    · split at hfound
      case h_1 hgoal => exact .here hin (hgoal.trans hfound)
      case h_2 =>
        split at hfound
        · cases hfound
        · exact hbody.through hin hfound (ih _ _)

theorem leads_loopPossessive (hbody : Leads size body) (fuel count : Nat) (last : Option Nat) :
    Leads size fun goal => loopPossessive body least most goal fuel count last := by
  intro goal cursor marks result hin hfound
  induction fuel generalizing count last cursor marks with
  | zero => cases hfound
  | succ fuel ih =>
    simp only [loopPossessive] at hfound
    split at hfound
    · split at hfound
      case h_1 hround =>
        obtain ⟨hnext, hle⟩ := hbody.reached hin hround
        exact (ih _ _ _ _ hnext hfound).later hle
      case h_2 => cases hfound
    · split at hfound
      · split at hfound
        case h_1 hround =>
          obtain ⟨hnext, hle⟩ := hbody.reached hin hround
          exact (ih _ _ _ _ hnext hfound).later hle
        case h_2 => exact .here hin hfound
      · exact .here hin hfound

theorem leads_loop (hbody : Leads size body) (greed : Greed) (bound : Nat) :
    Leads size (loop bound greed least most body) := by
  cases greed with
  | greedy => exact leads_loopGreedy hbody _ _ _
  | reluctant => exact leads_loopReluctant hbody _ _ _
  | possessive => exact leads_loopPossessive hbody _ _ _

/-! ## All parts -/

theorem in_runText {fold : Fold} {t : Text} {next : Cursor} (hin : cursor.In size)
    (hrun : runText fold t cursor = some next) : next.In size ∧ cursor.index ≤ next.index := by
  induction t generalizing cursor with
  | nil =>
    obtain rfl : cursor = next := Option.some.inj hrun
    exact ⟨hin, Nat.le_refl _⟩
  | cons c rest ih =>
    obtain ⟨index, before, after⟩ := cursor
    cases after with
    | nil => cases hrun
    | cons d after =>
      simp only [runText, Cursor.advance] at hrun
      split at hrun
      · obtain ⟨hnext, hle⟩ := ih hin.next hrun
        exact ⟨hnext, (Nat.le_succ index).trans hle⟩
      · cases hrun

mutual

theorem Step.leads_match (subject : Subject) : ∀ step : Step, Leads size (step.match subject)
  | .one test => by
    rintro goal ⟨index, before, after⟩ marks result hin hfound
    cases after with
    | nil => cases hfound
    | cons c rest =>
      simp only [Step.match] at hfound
      split at hfound
      · exact (Goal.Finds.here hin.next hfound).later (Nat.le_succ index)
      · cases hfound
  | .place p => by
    intro goal cursor marks result hin hfound
    simp only [Step.match] at hfound
    split at hfound
    · exact .here hin hfound
    · cases hfound
  | .group index body => by
    intro goal cursor marks result hin hfound
    rw [Step.match] at hfound
    exact (leads_matchAll subject body).through hin hfound fun _ _ => .here
  | .inline body => by
    rw [Step.match]
    exact leads_matchAll subject body
  | .atomic body => by
    intro goal cursor marks result hin hfound
    simp only [Step.match] at hfound
    split at hfound
    case h_1 hbody =>
      obtain ⟨hnext, hle⟩ := (leads_matchAll subject body).reached hin hbody
      exact (Goal.Finds.here hnext hfound).later hle
    case h_2 => cases hfound
  | .look back negated body => by
    -- a look ahead or behind goes on from where it started, whatever it has seen
    intro goal cursor marks result hin hfound
    simp only [Step.match] at hfound
    split at hfound
    · exact .here hin hfound
    · exact .here hin hfound
    · cases hfound
  | .branch alternatives => by
    rw [Step.match]
    exact leads_matchAny subject alternatives
  | .reference group fold => by
    intro goal cursor marks result hin hfound
    simp only [Step.match] at hfound
    split at hfound
    · cases hfound
    · split at hfound
      case h_1 hrun =>
        obtain ⟨hnext, hle⟩ := in_runText hin hrun
        exact (Goal.Finds.here hnext hfound).later hle
      case h_2 => cases hfound
  | .condition group yes no => by
    intro goal cursor marks result hin hfound
    simp only [Step.match] at hfound
    split at hfound
    · exact leads_matchAll subject yes _ _ _ _ hin hfound
    · exact leads_matchAll subject no _ _ _ _ hin hfound
  | .run greed least most test => by
    rw [Step.match]
    exact leads_runTest greed
  | .repeated greed least most body => by
    rw [Step.match]
    exact leads_loop (leads_matchAll subject body) greed _

theorem leads_matchAll (subject : Subject) :
    ∀ steps : List Step, Leads size (matchAll subject steps)
  | [] => by
    intro goal cursor marks result hin hfound
    exact .here hin hfound
  | step :: rest => by
    intro goal cursor marks result hin hfound
    rw [matchAll] at hfound
    exact (step.leads_match subject).through hin hfound fun next marks =>
      leads_matchAll subject rest goal next marks result

theorem leads_matchAny (subject : Subject) :
    ∀ alternatives : List (List Step), Leads size (matchAny subject alternatives)
  | [] => by
    intro goal cursor marks result _ hfound
    cases hfound
  | body :: rest => by
    intro goal cursor marks result hin hfound
    simp only [matchAny] at hfound
    split at hfound
    case h_1 hbody => exact leads_matchAll subject body _ _ _ _ hin (hbody.trans hfound)
    case h_2 => exact leads_matchAny subject rest _ _ _ _ hin hfound

end

/-! ## One match after the other -/

variable {p : Pattern} {subject : Subject} {advance : Bool} {start : Nat} {stop : Cursor}
  {spans : List Span}

theorem in_matchAt (hin : cursor.In size) (hmatch : p.matchAt subject advance cursor = some stop) :
    stop.In size ∧ cursor.index ≤ stop.index ∧ (advance = true → cursor.index < stop.index) := by
  rw [matchAt, Option.map_eq_some_iff] at hmatch
  obtain ⟨result, hfound, rfl⟩ := hmatch
  obtain ⟨next, marks, hnext, hle, hgoal⟩ :=
    leads_matchAll subject p.steps _ cursor Marks.none result hin hfound
  dsimp only at hgoal
  split at hgoal
  · cases hgoal
  · rename_i hstays
    obtain rfl : (next, marks) = result := Option.some.inj hgoal
    refine ⟨hnext, hle, fun hadvance => lt_of_le_of_ne hle fun hsame => hstays ?_⟩
    simp [hadvance, hsame]

theorem in_searchFrom (hin : Cursor.In size ⟨index, before, after⟩)
    (hfound : p.searchFrom subject advance index before after = some (start, stop)) :
    stop.In size ∧ index ≤ start ∧ start ≤ stop.index ∧ (advance = true → index < stop.index) := by
  induction after generalizing index before advance with
  | nil =>
    rw [searchFrom, Option.map_eq_some_iff] at hfound
    obtain ⟨stop, hmatch, hspan⟩ := hfound
    cases hspan
    obtain ⟨hstop, hle, htakes⟩ := in_matchAt hin hmatch
    exact ⟨hstop, Nat.le_refl _, hle, htakes⟩
  | cons c rest ih =>
    rw [searchFrom] at hfound
    split at hfound
    case h_1 hmatch =>
      cases hfound
      obtain ⟨hstop, hle, htakes⟩ := in_matchAt hin hmatch
      exact ⟨hstop, Nat.le_refl _, hle, htakes⟩
    case h_2 =>
      obtain ⟨hstop, hstart, hle, _⟩ := ih hin.next hfound
      exact ⟨hstop, by omega, hle, fun _ => by omega⟩

/-- All matches from a place on, until no other one is found. -/
inductive Scans (p : Pattern) (subject : Subject) : Bool → Cursor → List Span → Prop
  | none {advance : Bool} {cursor : Cursor} :
      p.searchFrom subject advance cursor.index cursor.before cursor.after = none →
        Scans p subject advance cursor []
  | found {advance : Bool} {cursor stop : Cursor} {start : Nat} {spans : List Span} :
      p.searchFrom subject advance cursor.index cursor.before cursor.after = some (start, stop) →
          Scans p subject (stop.index == start) stop spans →
            Scans p subject advance cursor (⟨start, stop.index⟩ :: spans)

/-- All matches in a text. -/
def Matches (p : Pattern) (t : Text) (spans : List Span) : Prop :=
  p.Scans ⟨t, t.length⟩ false (Cursor.start t) spans

/-- A bound for the number of matches from a place on: two for a character, and one for
an empty match. -/
def room (size : Nat) (advance : Bool) (cursor : Cursor) : Nat :=
  2 * (size - cursor.index) + if advance then 0 else 1

theorem room_lt (hin : cursor.In size)
    (hfound : p.searchFrom subject advance cursor.index cursor.before cursor.after =
      some (start, stop)) :
    stop.In size ∧ room size (stop.index == start) stop < room size advance cursor := by
  obtain ⟨hstop, hstart, hle, htakes⟩ := in_searchFrom hin hfound
  have hend := hstop.after
  refine ⟨hstop, ?_⟩
  -- either the match takes a character, or it is empty and the next one takes one
  by_cases hempty : stop.index = start
  · cases advance with
    | false =>
      simp only [room, hempty, beq_self_eq_true, if_true, Bool.false_eq_true, if_false]
      omega
    | true =>
      have hlater := htakes rfl
      simp only [room, hempty, beq_self_eq_true, if_true]
      omega
  · simp only [room, beq_eq_false_iff_ne.mpr hempty, Bool.false_eq_true, if_false]
    omega

theorem exists_scans (p : Pattern) (subject : Subject) (advance : Bool) {cursor : Cursor}
    (hin : cursor.In size) : ∃ spans, p.Scans subject advance cursor spans := by
  match hfound : p.searchFrom subject advance cursor.index cursor.before cursor.after with
  | none => exact ⟨[], .none hfound⟩
  | some (start, stop) =>
    obtain ⟨hstop, hroom⟩ := room_lt hin hfound
    obtain ⟨spans, hspans⟩ := exists_scans p subject (stop.index == start) hstop
    exact ⟨_, .found hfound hspans⟩
termination_by room size advance cursor

namespace Scans

theorem length_le (hin : cursor.In size) (hspans : p.Scans subject advance cursor spans) :
    spans.length ≤ room size advance cursor := by
  induction hspans with
  | none => exact Nat.zero_le _
  | found hfound _ ih =>
    obtain ⟨hstop, hroom⟩ := room_lt hin hfound
    exact Nat.lt_of_le_of_lt (ih hstop) hroom

theorem within (hin : cursor.In size) (hspans : p.Scans subject advance cursor spans) :
    ∀ span ∈ spans, span.start ≤ span.stop ∧ span.stop ≤ size := by
  induction hspans with
  | none => exact nofun
  | found hfound _ ih =>
    obtain ⟨hstop, _, hle, _⟩ := in_searchFrom hin hfound
    have hend := hstop.after
    exact List.forall_mem_cons.mpr ⟨⟨hle, by dsimp only; omega⟩, ih hstop⟩

theorem searchAll_eq (hspans : p.Scans subject advance cursor spans) (n : Nat) :
    p.searchAll subject n advance cursor = spans.take n := by
  induction hspans generalizing n with
  | none hfound =>
    cases n with
    | zero => rfl
    | succ n => simp only [searchAll, hfound, List.take_nil]
  | found hfound _ ih =>
    cases n with
    | zero => rfl
    | succ n => simp only [searchAll, hfound, ih, List.take_succ_cons]

end Scans

theorem Cursor.in_start (t : Text) : (Cursor.start t).In t.length := ⟨rfl, Nat.zero_add _⟩

variable {t : Text}

theorem exists_matches (p : Pattern) (t : Text) : ∃ spans, p.Matches t spans :=
  exists_scans p _ false (Cursor.in_start t)

namespace Matches

theorem within (hspans : p.Matches t spans) :
    ∀ span ∈ spans, span.start ≤ span.stop ∧ span.stop ≤ t.length :=
  Scans.within (Cursor.in_start t) hspans

theorem findUpTo_eq (hspans : p.Matches t spans) (limit : Nat) :
    p.findUpTo limit t = spans.take limit := by
  have hlength : spans.length ≤ 2 * t.length + 1 := Scans.length_le (Cursor.in_start t) hspans
  rw [findUpTo, hspans.searchAll_eq, List.take_eq_take_min (i := limit), List.take_eq_take_min]
  congr 1
  omega

/-- A text has a match if and only if one is found in it. -/
theorem isFound_eq (hspans : p.Matches t spans) : p.isFound t = !spans.isEmpty := by
  rw [isFound, find?, Option.isSome_map]
  cases hspans with
  | none hfound => exact congrArg Option.isSome hfound
  | found hfound _ => exact congrArg Option.isSome hfound

end Matches

end Folio.Pattern
