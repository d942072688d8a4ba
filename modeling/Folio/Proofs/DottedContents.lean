import Folio.Proofs.PageReading
import Folio.Proofs.SourceLayout

/-!
# Tables of contents with dots

An entry of a table of contents has a section number, a title, dots and a page
number, with blanks between them.  A title may have digits, blanks and dots in it,
but no two dots in a row.  So the dots before the page are the first ones that can
be, and a line is taken apart in one way only.

The lines of the first pages are looked at one by one.  Those that are long enough
are the entries, and the headings found are theirs, each of them once.
-/

namespace Folio

open Action

namespace Contents

variable {c : Char} {rest title : Text}

/-! ## Entries -/

/-- An entry of a table of contents, in parts: the numbers of its section, its
title, the number of dots and the digits of the page number.  No line has an end of
a line in it, so nothing is asked of the title in this respect. -/
structure Entry where
  numbers : List Text
  title : Text
  dots : Nat
  page : Text
  numbered : numbers ≠ []
  decimal : ∀ number ∈ numbers, number ≠ [] ∧ ∀ c ∈ number, Text.isDecimal c = true
  titled : title ≠ []
  tight : title.head?.any Text.isSpace = false ∧ title.getLast?.any Text.isSpace = false
  loose : ¬['.', '.'] <:+: title
  dotted : 2 ≤ dots
  numeral : Source.IsNumeral page

namespace Entry

def sectionNumber (e : Entry) : Text :=
  Text.joinWith ['.'] e.numbers

/-- The dots and the page number. -/
def leader (e : Entry) : Text :=
  List.replicate e.dots '.' ++ ' ' :: e.page

/-- The line that an entry is written on. -/
def line (e : Entry) : Text :=
  e.sectionNumber ++ ' ' :: (e.title ++ ' ' :: e.leader)

/-- What an entry says: how deep its section is, its number and title, and the
page. -/
def heading (e : Entry) : Heading :=
  ⟨e.numbers.length, e.sectionNumber ++ ' ' :: e.title,
    some (.number (Source.numeralValue e.page))⟩

end Entry

theorem isSpace_of_isDecimal (hc : Text.isDecimal c = true) : Text.isSpace c = false := by
  rw [Bool.eq_false_iff]
  intro hspace
  have hword := Source.isWordChar_eq_false_of_isSpace hspace
  rw [Source.isWordChar_of_isDigit (by rw [Text.isDigit, hc, Bool.true_or])] at hword
  cases hword

theorem takeWhile_append_stop {p : Char → Bool} {t : Text} (ht : ∀ d ∈ t, p d = true)
    (hc : p c = false) (rest : Text) : (t ++ c :: rest).takeWhile p = t := by
  rw [List.takeWhile_append_of_pos ht, List.takeWhile_cons_of_neg (by simp [hc]), List.append_nil]

theorem dropWhile_of_head {t : Text} (ht : t.head?.any Text.isSpace = false) :
    t.dropWhile Text.isSpace = t := by
  cases t with
  | nil => rfl
  | cons c t => exact List.dropWhile_cons_of_neg (by simpa using ht)

theorem strip_of_tight {t : Text} (hhead : t.head?.any Text.isSpace = false)
    (hlast : t.getLast?.any Text.isSpace = false) : Text.strip t = t := by
  rw [Text.strip, Text.stripBy, Text.stripStart, dropWhile_of_head hhead, Text.stripEnd,
    dropWhile_of_head (by rwa [List.head?_reverse]), List.reverse_reverse]

/-! ## Section numbers -/

theorem joinWith_cons_cons (number next : Text) (numbers : List Text) :
    Text.joinWith ['.'] (number :: next :: numbers) =
      number ++ '.' :: Text.joinWith ['.'] (next :: numbers) := by
  simp [Text.joinWith, List.intercalate]

section Sections

variable {numbers : List Text}
  (hdecimal : ∀ number ∈ numbers, number ≠ [] ∧ ∀ c ∈ number, Text.isDecimal c = true)

include hdecimal

/-- A section number ends where a blank follows. -/
theorem section?_joinWith (hne : numbers ≠ []) {fuel : Nat}
    (hfuel : (Text.joinWith ['.'] numbers).length ≤ fuel) : section? fuel
      (Text.joinWith ['.'] numbers ++ ' ' :: rest) =
      some (Text.joinWith ['.'] numbers, ' ' :: rest) := by
  induction numbers generalizing fuel with
  | nil => exact absurd rfl hne
  | cons number numbers ih =>
    obtain ⟨⟨hnumber, hdigits⟩, hothers⟩ := List.forall_mem_cons.mp hdecimal
    have hpositive := List.length_pos_iff.mpr hnumber
    cases numbers with
    | nil =>
      obtain ⟨fuel, rfl⟩ : ∃ less, fuel = less + 1 := ⟨fuel - 1, by
        simp [Text.joinWith] at hfuel
        omega⟩
      have htake := takeWhile_append_stop (c := ' ') hdigits (by decide) rest
      simp [Text.joinWith, section?, htake, hnumber]
    | cons next numbers =>
      rw [joinWith_cons_cons, List.length_append, List.length_cons] at hfuel
      obtain ⟨fuel, rfl⟩ : ∃ less, fuel = less + 1 := ⟨fuel - 1, by omega⟩
      have htake := takeWhile_append_stop (c := '.') hdigits (by decide)
        (Text.joinWith ['.'] (next :: numbers) ++ ' ' :: rest)
      have hshorter : (Text.joinWith ['.'] (next :: numbers)).length ≤ fuel := by omega
      have hrest := ih hothers (List.cons_ne_nil _ _) hshorter
      rw [joinWith_cons_cons, List.append_assoc, List.cons_append, section?]
      simp only [htake, List.drop_left, hrest, List.isEmpty_eq_false_iff.mpr hnumber,
        Bool.false_eq_true, if_false]

theorem count_joinWith (hne : numbers ≠ []) :
    List.count '.' (Text.joinWith ['.'] numbers) + 1 = numbers.length := by
  induction numbers with
  | nil => exact absurd rfl hne
  | cons number numbers ih =>
    obtain ⟨⟨-, hdigits⟩, hothers⟩ := List.forall_mem_cons.mp hdecimal
    have hnone : List.count '.' number = 0 := by
      refine List.count_eq_zero.mpr fun hmem => ?_
      exact absurd (hdigits '.' hmem) (by decide)
    cases numbers with
    | nil => simp [Text.joinWith, hnone]
    | cons next numbers =>
      rw [joinWith_cons_cons, List.count_append, hnone, Nat.zero_add, List.count_cons_self,
        ih hothers (List.cons_ne_nil _ _)]
      rfl

end Sections

/-! ## Titles and pages -/

/-- A title is passed if none of its ends is followed by a page number. -/
theorem shortest?_append {tail? : Text → Option Text}
    (hnone : ∀ front c back, title = front ++ c :: back → tail? (back ++ rest) = none)
    (passed : Text) :
    shortest? tail? passed (title ++ rest) = shortest? tail? (title.reverse ++ passed) rest := by
  induction title generalizing passed with
  | nil => rfl
  | cons c title ih =>
    have htitle : ∀ front d back, title = front ++ d :: back → tail? (back ++ rest) = none :=
      fun front d back hsplit => hnone (c :: front) d back (by rw [hsplit, List.cons_append])
    rw [List.cons_append, shortest?, hnone [] c title rfl]
    dsimp only
    rw [ih htitle, List.reverse_cons, List.append_assoc, List.singleton_append]

theorem afterDots?_of_loose {back : Text} (hloose : ¬['.', '.'] <:+: back) :
    afterDots? (back ++ ' ' :: rest) = none := by
  have hdots : ((back ++ ' ' :: rest).takeWhile (· == '.')).length < 2 := by
    rcases back with _ | ⟨d, _ | ⟨e, back⟩⟩
    · simp
    · by_cases hd : d = '.' <;> simp [hd]
    · by_cases hd : d = '.'
      · have he : e ≠ '.' := by
          rintro rfl
          exact hloose ⟨[], back, by rw [hd]; rfl⟩
        simp [hd, he]
      · simp [hd]
  rw [afterDots?, if_neg (by simp; omega)]

namespace Entry

variable (e : Entry)

theorem afterDots?_leader : afterDots? e.leader = some e.page := by
  have htake : (List.replicate e.dots '.' ++ ' ' :: e.page).takeWhile (· == '.') =
      List.replicate e.dots '.' := takeWhile_append_stop (by simp) (by decide) e.page
  have hdrop : (' ' :: e.page).dropWhile Text.isSpace = e.page := by
    obtain ⟨d, page, hpage⟩ := List.exists_cons_of_ne_nil e.numeral.nonempty
    have hd := isSpace_of_isDecimal (e.numeral.decimal d (by simp [hpage]))
    rw [List.dropWhile_cons_of_pos (by decide), hpage, List.dropWhile_cons_of_neg (by simp [hd])]
  have hpage : e.page.all Text.isDecimal = true := List.all_eq_true.mpr e.numeral.decimal
  rw [afterDots?, leader]
  simp [htake, hdrop, hpage, e.dotted, e.numeral.nonempty]

theorem shortest?_title :
    shortest? afterDots? [] (e.title ++ ' ' :: e.leader) = some (e.title ++ [' '], e.page) := by
  have hnone : ∀ front c back, e.title = front ++ c :: back →
      afterDots? (back ++ ' ' :: e.leader) = none := by
    intro front c back hsplit
    refine afterDots?_of_loose fun hdots => e.loose (hdots.trans ?_)
    rw [hsplit]
    exact (List.suffix_append_of_suffix (List.suffix_cons c back)).isInfix
  rw [shortest?_append hnone, shortest?, e.afterDots?_leader]
  simp

/-- A line is taken apart into the parts of its entry. -/
theorem numbered?_line : numbered? e.line = some (e.sectionNumber, e.title ++ [' '], e.page) := by
  have hsection : section? e.line.length e.line =
      some (e.sectionNumber, ' ' :: (e.title ++ ' ' :: e.leader)) := by
    apply section?_joinWith e.decimal e.numbered
    simp [line, sectionNumber]
  have hblank : ((' ' :: (e.title ++ ' ' :: e.leader)).takeWhile Text.isSpace).length = 1 := by
    obtain ⟨d, title, htitle⟩ := List.exists_cons_of_ne_nil e.titled
    have hd := e.tight.1
    rw [htitle] at hd
    rw [List.takeWhile_cons_of_pos (by decide), htitle, List.cons_append,
      List.takeWhile_cons_of_neg (by simpa using hd)]
    rfl
  have hafter : afterSection? afterDots? (' ' :: (e.title ++ ' ' :: e.leader)) =
      some (e.title ++ [' '], e.page) := by
    have hfirst := e.shortest?_title
    rw [afterSection?, hblank, List.range_one, List.findSome?_singleton]
    exact hfirst
  rw [numbered?, hsection, Option.bind_eq_bind, Option.bind_some]
  dsimp only
  rw [hafter]
  rfl

theorem head_sectionNumber (rest : Text) :
    (e.sectionNumber ++ rest).head?.any Text.isSpace = false := by
  obtain ⟨number, numbers, hnumbers⟩ := List.exists_cons_of_ne_nil e.numbered
  obtain ⟨hnumber, hdigits⟩ := e.decimal number (by simp [hnumbers])
  obtain ⟨d, digits, rfl⟩ := List.exists_cons_of_ne_nil hnumber
  have hd := isSpace_of_isDecimal (hdigits d (by simp))
  rw [sectionNumber, hnumbers]
  cases numbers <;> simpa [Text.joinWith, List.intercalate] using hd

theorem heading?_line (hlong : leastLength ≤ e.line.length) :
    heading? e.line = .ok (some e.heading) := by
  have hpage : pageOf e.page = .ok (.number (Source.numeralValue e.page)) := by
    rw [pageOf, Source.readNumber_eq_ok_iff.mpr ⟨e.numeral, rfl⟩]
    rfl
  have htitle : Text.strip (e.title ++ [' ']) = e.title := by
    have hstart : Text.stripStart Text.isSpace (e.title ++ [' ']) =
        Text.stripStart Text.isSpace e.title ++ [' '] := by
      rw [Text.stripStart, Text.stripStart, dropWhile_of_head e.tight.1,
        dropWhile_of_head (by rw [List.head?_append_of_ne_nil _ e.titled, e.tight.1])]
    rw [Text.strip, Text.stripBy, hstart, Source.stripEnd_append_blank _
      (List.forall_mem_singleton.mpr rfl)]
    exact strip_of_tight e.tight.1 e.tight.2
  have hstrip : Text.strip (e.sectionNumber ++ ' ' :: e.title) =
      e.sectionNumber ++ ' ' :: e.title := by
    refine strip_of_tight (e.head_sectionNumber _) ?_
    rw [List.getLast?_append_of_ne_nil _ (List.cons_ne_nil _ _),
      List.getLast?_cons_of_ne_nil e.titled, e.tight.2]
  rw [heading?, if_neg (not_lt.mpr hlong), e.numbered?_line]
  dsimp only
  rw [hpage, htitle, hstrip, sectionNumber, count_joinWith e.decimal e.numbered]
  rfl

end Entry

/-! ## Pages -/

/-- The lines that are long enough for an entry, without the blanks around them. -/
def longLines (lines : List Text) : List Text :=
  (lines.map Text.strip).filter fun line => decide (leastLength ≤ line.length)

/-- The entries are written on the first pages, one on a line, and the other lines of
these pages are short. -/
def Listed (entries : List Entry) (pages : List Text) : Prop :=
  longLines ((pages.take searchedPages).flatMap Text.splitLines) = entries.map Entry.line

theorem longLines_cons (text : Text) (lines : List Text) : longLines (text :: lines) =
    if leastLength ≤ (Text.strip text).length then Text.strip text :: longLines lines
    else longLines lines := by
  rw [longLines, List.map_cons, List.filter_cons]
  simp only [decide_eq_true_eq]
  rfl

def Station.line? : Station → Option Text
  | .page => none
  | .line text => some text

theorem filterMap_stations (pages : List Text) :
    (stations pages).filterMap Station.line? = pages.flatMap Text.splitLines := by
  rw [stations, List.filterMap_flatMap]
  congr 1
  funext page
  rw [List.filterMap_cons_none rfl, List.filterMap_map]
  exact List.filterMap_some

/-- Headings that were found stay, in their order. -/
theorem exists_eraseDups_loop (headings found : List Heading) :
    ∃ more, List.eraseDupsBy.loop (· == ·) headings found = found.reverse ++ more := by
  induction headings generalizing found with
  | nil => exact ⟨[], (List.append_nil _).symm⟩
  | cons heading headings ih =>
    rw [List.eraseDupsBy.loop]
    split
    · exact ih found
    · obtain ⟨more, hmore⟩ := ih (heading :: found)
      exact ⟨heading :: more, by rw [hmore, List.reverse_cons, List.append_assoc]; rfl⟩

theorem result_headingsAt {limit : Nat} {places : List Station} {entries : List Entry}
    (hlines : longLines (places.filterMap Station.line?) = entries.map Entry.line)
    (found : List Heading) (hfound : found.length < limit) (shelf : Shelf) :
    (headingsAt limit found places).result shelf = (shelf, .finished
      ((List.eraseDupsBy.loop (· == ·) (entries.map Entry.heading) found).take limit)) := by
  induction places generalizing entries found with
  | nil =>
    obtain rfl : entries = [] := List.map_eq_nil_iff.mp hlines.symm
    rw [headingsAt, List.map_nil, List.eraseDupsBy.loop,
      List.take_of_length_le (by rw [List.length_reverse]; omega)]
    rfl
  | cons place places ih =>
    cases place with
    | page =>
      rw [headingsAt, result_bind_of_finished (result_check _ shelf)]
      exact ih hlines found hfound
    | line text =>
      rw [headingsAt, result_bind_of_finished (result_check _ shelf)]
      replace hlines := (longLines_cons text _).symm.trans hlines
      by_cases hlong : leastLength ≤ (Text.strip text).length
      · rw [if_pos hlong] at hlines
        obtain ⟨e, others, rfl, hfirst, hothers⟩ := List.map_eq_cons_iff.mp hlines.symm
        have hheading : heading? (Text.strip text) = .ok (some e.heading) := by
          rw [← hfirst] at hlong ⊢
          exact e.heading?_line hlong
        rw [hheading]
        refine (result_bind_of_finished (result_pure _ shelf)).trans ?_
        dsimp only
        rw [List.map_cons, List.eraseDupsBy.loop, ← List.contains_eq_any_beq]
        cases found.contains e.heading with
        | true => exact ih hothers.symm found hfound
        | false =>
          rw [if_neg Bool.false_ne_true]
          split
          · rename_i hfull
            obtain ⟨more, hmore⟩ := exists_eraseDups_loop (others.map Entry.heading)
              (e.heading :: found)
            rw [hmore, List.take_left' (by simp; omega)]
            rfl
          · exact ih hothers.symm (e.heading :: found) (by simp; omega)
      · have hheading : heading? (Text.strip text) = .ok none := if_pos (not_le.mp hlong)
        rw [hheading]
        rw [if_neg hlong] at hlines
        exact (result_bind_of_finished (result_pure _ shelf)).trans (ih hlines found hfound)

end Contents

/-- Entries that are listed on the first pages of a file are its headings, without
repetition and in their order, as many as asked for. -/
theorem listed_entries_found (s : Setting) (f : File) (shelf : Shelf) {pages : List Text}
    (hread : ((f.pages s).run none shelf).ending = .finished pages)
    (entries : List Contents.Entry) (hlisted : Contents.Listed entries pages) (limit : Nat)
    (hlimit : 1 ≤ limit) :
    ((f.textOutline s limit).run none shelf).ending =
      .finished ((entries.map Contents.Entry.heading).eraseDups.take limit) := by
  have hlines := hlisted
  rw [Contents.Listed, ← Contents.filterMap_stations] at hlines
  rw [ending_run_none, File.textOutline, result_bind_of_finished (result_check _ shelf),
    result_bind_of_finished (result_of_run hread),
    Contents.result_headingsAt hlines [] hlimit]
  rfl

/-! ## A section on three lines -/

namespace OneSection

/-- An entry of the section, with so many dots and a page. -/
def entry (dots : Nat) (hdots : 2 ≤ dots) (page : Text) (hpage : Source.IsNumeral page) :
    Contents.Entry where
  numbers := [['1'], ['0', '2']]
  title := "A.2 b.".toList
  dots := dots
  page := page
  numbered := by decide
  decimal := List.forall_mem_cons.mpr ⟨⟨by decide, List.all_eq_true.mp rfl⟩,
    List.forall_mem_singleton.mpr ⟨by decide, List.all_eq_true.mp rfl⟩⟩
  titled := by decide
  tight := by decide
  loose := by decide
  dotted := hdots
  numeral := hpage

def entries : List Contents.Entry :=
  [entry 2 (by decide) ['0', '7'] ⟨by decide, List.all_eq_true.mp rfl, by decide⟩,
    entry 3 (by decide) ['7'] ⟨by decide, List.all_eq_true.mp rfl, by decide⟩,
    entry 2 (by decide) ['8'] ⟨by decide, List.all_eq_true.mp rfl, by decide⟩]

def contents : Text :=
  "Index\n1.02 A.2 b. .. 07\n1.02 A.2 b. ... 7\n1.02 A.2 b. .. 8".toList

def shelf : Shelf :=
  Shelf.ofTree ⟨[(["a.docx"], .file (.word [.paragraph [] contents]))]⟩

end OneSection

open OneSection TwoPages in
theorem one_section_found :
    ((file.textOutline setting 5).run none shelf).ending =
      .finished [⟨2, "1.02 A.2 b.".toList, some (.number 7)⟩,
        ⟨2, "1.02 A.2 b.".toList, some (.number 8)⟩] := by
  have hread : ((file.pages setting).run none shelf).ending = .finished [contents] := rfl
  have hheadings : (entries.map Contents.Entry.heading).eraseDups.take 5 =
      [⟨2, "1.02 A.2 b.".toList, some (.number 7)⟩,
        ⟨2, "1.02 A.2 b.".toList, some (.number 8)⟩] := by decide
  rw [← hheadings]
  exact listed_entries_found setting file shelf hread entries rfl 5 (by decide)

end Folio
