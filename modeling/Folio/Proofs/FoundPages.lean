import Folio.Proofs.JsonRoundTrip
import Folio.Proofs.PageReading
import Folio.Proofs.PatternMatches
import Mathlib.Data.List.Destutter

/-!
# Pages with matches, and what they say there

A file is asked for a pattern in three ways: for the pages that have a match, whether
there is one, and for what is written around the matches.  All three look at the same
pages with the same pattern, and fail alike.  The answers follow from the matches on
the pages, one after the other: the pages are those of the matches, and as many of the
matches are shown as are asked for, from the first one on.
-/

namespace Folio

open Action

/-- A match on a page. -/
structure Finding where
  number : Nat
  page : Text
  span : Span

/-- All matches of a pattern on pages that are numbered from a number on. -/
inductive Pattern.Findings (p : Pattern) : Nat → List Text → List Finding → Prop
  | nil (number : Nat) : p.Findings number [] []
  | cons {number : Nat} {page : Text} {pages : List Text} {spans : List Span}
      {findings : List Finding} : p.Matches page spans → p.Findings (number + 1) pages findings →
        p.Findings number (page :: pages) (spans.map (⟨number, page, ·⟩) ++ findings)

/-- What is written around a match, on one line. -/
def Finding.around (context : Nat) (x : Finding) : Text :=
  Text.strip ((Text.slice x.page (x.span.start - context)
    (min (x.span.stop + context) x.page.length)).map fun c => if c == '\n' then ' ' else c)

def Finding.snippet (context : Nat) (x : Finding) : Text :=
  "[page ".toList ++ Text.ofNat x.number ++ "] ".toList ++ x.around context

/-- The page number in a snippet. -/
def Text.namedPage (snippet : Text) : Nat :=
  Decimal.digitsValue ((snippet.drop 6).takeWhile Char.isDigit)

theorem Finding.namedPage_snippet (context : Nat) (x : Finding) :
    (x.snippet context).namedPage = x.number := by
  have hdrop : (x.snippet context).drop 6 =
      Text.ofNat x.number ++ (']' :: ' ' :: x.around context) := by
    have hfront : "[page ".toList.length = 6 := rfl
    have hback : "] ".toList = [']', ' '] := rfl
    unfold snippet
    rw [List.append_assoc, List.append_assoc, List.drop_left' hfront, hback]
    rfl
  have hfollows : Json.Follows (']' :: ' ' :: x.around context) := by
    intro c hc
    exact .inr (.inl (Option.some.inj hc).symm)
  rw [Text.namedPage, hdrop, Json.takeWhile_ofNat x.number hfollows, Json.digitsValue_ofNat]

variable {p : Pattern} {number : Nat} {pages : List Text} {findings : List Finding}

/-! ## Lists without consecutive repetitions -/

section Destutter

variable {n k : Nat} {numbers : List Nat}

theorem destutter'_replicate_append : (List.replicate k n ++ numbers).destutter' (· ≠ ·) n =
      numbers.destutter' (· ≠ ·) n := by
  induction k with
  | zero => rfl
  | succ k ih =>
    rw [List.replicate_succ, List.cons_append, List.destutter'_cons_neg _ (not_not.mpr rfl), ih]

theorem destutter'_of_notMem (hn : n ∉ numbers) :
    numbers.destutter' (· ≠ ·) n = n :: numbers.destutter (· ≠ ·) := by
  cases numbers with
  | nil => rfl
  | cons m rest =>
    have hne : n ≠ m := fun hsame => hn (hsame ▸ List.mem_cons_self)
    rw [List.destutter'_cons_pos _ hne, List.destutter_cons']

/-- One number is left of a run of it, if the run is not empty. -/
theorem destutter_replicate_append (hn : n ∉ numbers) :
    (List.replicate k n ++ numbers).destutter (· ≠ ·) =
      if k = 0 then numbers.destutter (· ≠ ·) else n :: numbers.destutter (· ≠ ·) := by
  cases k with
  | zero => rfl
  | succ k =>
    rw [List.replicate_succ, List.cons_append, List.destutter_cons', destutter'_replicate_append,
      destutter'_of_notMem hn, if_neg (Nat.succ_ne_zero k)]

end Destutter

namespace Pattern

theorem exists_findings (p : Pattern) (number : Nat) (pages : List Text) :
    ∃ findings, p.Findings number pages findings := by
  induction pages generalizing number with
  | nil => exact ⟨[], .nil number⟩
  | cons page pages ih =>
    obtain ⟨spans, hspans⟩ := p.exists_matches page
    obtain ⟨findings, hfindings⟩ := ih (number + 1)
    exact ⟨_, .cons hspans hfindings⟩

namespace Findings

theorem on_page (hfindings : p.Findings number pages findings) :
    ∀ x ∈ findings, number ≤ x.number ∧ pages[x.number - number]? = some x.page ∧
      x.span.start ≤ x.span.stop ∧ x.span.stop ≤ x.page.length := by
  induction hfindings with
  | nil => exact nofun
  | @cons number page pages spans findings hspans _ ih =>
    intro x hx
    rcases List.mem_append.mp hx with hx | hx
    · obtain ⟨span, hspan, rfl⟩ := List.mem_map.mp hx
      simpa using hspans.within span hspan
    · obtain ⟨hnumber, hpage, hspan⟩ := ih x hx
      refine ⟨Nat.le_of_succ_le hnumber, ?_, hspan⟩
      rw [← hpage, show x.number - number = x.number - (number + 1) + 1 by omega,
        List.getElem?_cons_succ]

/-- The numbers of the pages that have a match. -/
theorem numbers_eq (hfindings : p.Findings number pages findings) :
    (findings.map Finding.number).destutter (· ≠ ·) =
      (pages.zipIdx number).filterMap fun (page, i) =>
        if p.isFound page then some i else none := by
  induction hfindings with
  | nil => rfl
  | @cons number page pages spans findings hspans hrest ih =>
    have hlater : number ∉ findings.map Finding.number := by
      rintro hmem
      obtain ⟨x, hx, hnumber⟩ := List.mem_map.mp hmem
      have hle := (hrest.on_page x hx).1
      omega
    have hsame : spans.map (Finding.number ∘ (⟨number, page, ·⟩)) =
        List.replicate spans.length number := List.map_const'
    rw [List.map_append, List.map_map, hsame, destutter_replicate_append hlater, ih,
      List.zipIdx_cons, List.filterMap_cons]
    simp only [hspans.isFound_eq]
    cases spans with
    | nil => rfl
    | cons span spans => rfl

theorem result_snippetsOf (hfindings : p.Findings number pages findings) (context limit : Nat)
    (shelf : Shelf) : (File.snippetsOf p context limit number pages).result shelf =
      (shelf, .finished ((findings.take limit).map (Finding.snippet context))) := by
  induction hfindings generalizing limit with
  | nil => rw [List.take_nil]; rfl
  | @cons number page pages spans findings hspans _ ih =>
    have hfound : File.pageSnippets p limit context number page =
        ((spans.take limit).map (⟨number, page, ·⟩)).map (Finding.snippet context) := by
      rw [File.pageSnippets, hspans.findUpTo_eq, List.map_map]
      rfl
    rw [File.snippetsOf, result_bind_of_finished (result_check _ shelf)]
    simp only [hfound, List.length_map, List.length_take]
    split
    · rename_i henough
      have hlimit : limit ≤ (spans.map (⟨number, page, ·⟩ : Span → Finding)).length := by
        rw [List.length_map]
        omega
      rw [List.take_append_of_le_length hlimit, ← List.map_take]
      rfl
    · rename_i hmore
      have hall : spans.length ≤ limit := by omega
      rw [min_eq_right hall, result_bind_of_finished (ih _), List.take_append, List.map_append,
        ← List.map_take, List.length_map]
      rfl

end Findings

end Pattern

/-! ## Calls -/

section Endings

variable {σ ε α β : Type}

theorem Ending.andThen_andThen {γ : Type} (f : σ → α → σ × Ending ε β) (g : σ → β → σ × Ending ε γ)
    (r : σ × Ending ε α) : andThen g (andThen f r) = andThen (fun s a => andThen g (f s a)) r := by
  obtain ⟨s, ending⟩ := r
  cases ending <;> rfl

/-- Nothing comes after what has no value. -/
theorem Ending.andThen_unfinished {r : σ × Ending ε α} (hr : ∀ a, r.2 ≠ .finished a)
    (g : σ → α → σ × Ending ε β) :
    andThen g r = andThen (fun s _ => (s, .lost)) r ∧ ∀ b, (andThen g r).2 ≠ .finished b := by
  obtain ⟨s, ending⟩ := r
  cases ending with
  | finished a => exact absurd rfl (hr a)
  | failed | stopped | lost => exact ⟨rfl, nofun⟩

/-- Something that is worked out from what is on the shelf. -/
theorem Run.result_onShelf_map {a : ShelfAction α} {b : ShelfAction β} (g : α → β)
    (hb : ∀ shelf, b.result shelf =
      Ending.andThen (fun shelf v => (shelf, .finished (g v))) (a.result shelf)) (w : World) :
    (Run.onShelf b).result w =
      Ending.andThen (fun w v => (w, .finished (g v))) ((Run.onShelf a).result w) := by
  rw [onShelf, onShelf, result_within, result_within, hb]
  obtain ⟨shelf, ending⟩ := a.result w.shelf
  cases ending <;> rfl

end Endings

namespace FileMethod

/-- What a pattern is looked for with: the pattern itself and the pages of the file. -/
def patternAndPages (s : Setting) (f : File) (source : Text) (ignoreCase : Bool) :
    Run (Pattern × List Text) := do
  let pattern ← Run.compilePattern (.text source) (.bool ignoreCase)
  return (pattern, ← Run.onShelf (f.pages s))

def searchFor (s : Setting) (f : File) (source : Text) (ignoreCase : Bool) : Run Value :=
  call s .search f ⟨[.text source, .bool ignoreCase], []⟩

def containsMatch (s : Setting) (f : File) (source : Text) (ignoreCase : Bool) :
    Run Value :=
  call s .contains f ⟨[.text source, .bool ignoreCase], []⟩

def snippetsAround (s : Setting) (f : File) (source : Text) (ignoreCase : Bool)
    (limit context : Nat) : Run Value :=
  call s .snippets f ⟨[.text source, .int limit, .int context, .bool ignoreCase], []⟩

/-- The numbers of the pages that have a match. -/
def pagesFound (x : Pattern × List Text) : List Nat :=
  (x.2.zipIdx 1).filterMap fun (page, i) => if x.1.isFound page then some i else none

variable (s : Setting) (f : File) (source : Text) (ignoreCase : Bool) (w : World)

theorem result_patternAndPages : (patternAndPages s f source ignoreCase).result w =
      Ending.andThen (fun w pattern => Ending.andThen
          (fun w pages => (w, .finished (pattern, pages))) ((Run.onShelf (f.pages s)).result w))
        ((Run.compilePattern (.text source) (.bool ignoreCase)).result w) := by
  rw [patternAndPages, result_bind]
  congr 1
  funext w pattern
  rw [result_bind]
  rfl

section Compiled

variable {s f source ignoreCase w} {w' : World}

theorem of_result_compilePattern {pattern : Pattern}
    (hresult : (Run.compilePattern (.text source) (.bool ignoreCase)).result w =
      (w', .finished pattern)) : Pattern.compile ignoreCase source = .ok pattern ∧ w' = w := by
  have hmatch := (result_bind_of_finished (result_pure ignoreCase w)).symm.trans hresult
  split at hmatch
  case h_1 hcompiled =>
    cases hmatch
    exact ⟨hcompiled, rfl⟩
  case h_2 =>
    split at hmatch
    · cases hmatch
    · cases hmatch

theorem of_result_patternAndPages {x : Pattern × List Text}
    (hresult : (patternAndPages s f source ignoreCase).result w = (w', .finished x)) :
    Pattern.compile ignoreCase source = .ok x.1 ∧
      ((f.pages s).run none w.shelf).ending = .finished x.2 := by
  obtain ⟨w₁, pattern, hpattern, hrest⟩ := result_bind_eq_finished_iff.mp hresult
  obtain ⟨w₂, pages, hpages, hpair⟩ := result_bind_eq_finished_iff.mp hrest
  cases hpair
  obtain ⟨hcompiled, rfl⟩ := of_result_compilePattern hpattern
  rw [Run.onShelf, result_within] at hpages
  exact ⟨hcompiled, (ending_run_none _ _).trans (congrArg Prod.snd hpages)⟩

theorem result_patternAndPages_of_ok {pattern : Pattern} {pages : List Text}
    (hpattern : Pattern.compile ignoreCase source = .ok pattern)
    (hpages : ((f.pages s).run none w.shelf).ending = .finished pages) :
    ∃ w', (patternAndPages s f source ignoreCase).result w = (w', .finished (pattern, pages)) := by
  have hcompiled : (Run.compilePattern (.text source) (.bool ignoreCase)).result w =
      (w, .finished pattern) := by
    refine (result_bind_of_finished (result_pure ignoreCase w)).trans ?_
    rw [hpattern]
    rfl
  have hread : (Run.onShelf (f.pages s)).result w =
      ({ w with shelf := ((f.pages s).run none w.shelf).state }, .finished pages) := by
    rw [Run.onShelf, result_within, result_of_run hpages]
  exact ⟨_, (result_bind_of_finished hcompiled).trans (result_bind_of_finished hread)⟩

end Compiled

theorem result_search (pattern : Pattern) (shelf : Shelf) : (f.search s pattern).result shelf =
      Ending.andThen (fun shelf pages => (shelf, .finished (pagesFound (pattern, pages))))
        ((f.pages s).result shelf) := by
  rw [File.search, result_bind]
  congr 1
  funext shelf pages
  rw [result_bind_of_finished (result_checkTimes _ _ shelf), pagesFound, List.zipIdx_succ,
    List.filterMap_map]
  rfl

theorem result_matchingPages {b : Bound} (hpattern : b.value "pattern" = .text source)
    (hcase : b.value "ignore_case" = .bool ignoreCase) : (matchingPages s f b).result w =
      Ending.andThen (fun w x => (w, .finished (pagesFound x)))
        ((patternAndPages s f source ignoreCase).result w) := by
  rw [matchingPages, result_bind_of_finished (result_check _ w), hpattern, hcase, result_bind,
    result_patternAndPages, Ending.andThen_andThen]
  congr 1
  funext w pattern
  rw [Run.result_onShelf_map _ (result_search s f pattern), Ending.andThen_andThen]
  rfl

theorem result_searchFor : (searchFor s f source ignoreCase).result w = Ending.andThen (fun w x =>
          (Run.newList ((pagesFound x).map fun page : Nat => .int page)).result w)
        ((patternAndPages s f source ignoreCase).result w) := by
  rw [searchFor, call]
  refine (result_bind_of_finished (result_pure _ w)).trans ?_
  rw [result_bind, result_matchingPages s f source ignoreCase w rfl rfl, Ending.andThen_andThen]
  rfl

theorem result_containsMatch : (containsMatch s f source ignoreCase).result w =
      Ending.andThen (fun w x => (w, .finished (.bool (!(pagesFound x).isEmpty))))
        ((patternAndPages s f source ignoreCase).result w) := by
  rw [containsMatch, call]
  refine (result_bind_of_finished (result_pure _ w)).trans ?_
  rw [result_bind, result_matchingPages s f source ignoreCase w rfl rfl, Ending.andThen_andThen]
  rfl

theorem result_snippets {findings : Pattern × List Text → List Finding}
    (hfindings : ∀ x : Pattern × List Text, x.1.Findings 1 x.2 (findings x)) (pattern : Pattern)
    (limit context : Nat) (shelf : Shelf) : (f.snippets s pattern limit context).result shelf =
      Ending.andThen (fun shelf pages => (shelf, .finished
          (((findings (pattern, pages)).take limit).map (Finding.snippet context))))
        ((f.pages s).result shelf) := by
  rw [File.snippets, result_bind]
  congr 1
  funext shelf pages
  exact (hfindings (pattern, pages)).result_snippetsOf context limit shelf

theorem result_sizeArgument {least : Int} {n : Nat} (hn : least ≤ n) (c : Complaint) :
    (Run.sizeArgument least c (.int n)).result w = (w, .finished n) := by
  have hlimit : Run.limitArgument least c (.int n) = return .number n := if_neg (not_lt.mpr hn)
  rw [Run.sizeArgument, hlimit]
  rfl

theorem result_snippetsAround {findings : Pattern × List Text → List Finding}
    (hfindings : ∀ x : Pattern × List Text, x.1.Findings 1 x.2 (findings x)) {limit : Nat}
    (hlimit : 1 ≤ limit) (context : Nat) :
    (snippetsAround s f source ignoreCase limit context).result w =
      Ending.andThen (fun w x => (Run.newList ((((findings x).take limit).map
          (Finding.snippet context)).map .text)).result w)
        ((patternAndPages s f source ignoreCase).result w) := by
  rw [snippetsAround, call]
  refine (result_bind_of_finished (result_pure _ w)).trans ?_
  rw [result_bind_of_finished (result_check _ w)]
  refine (result_bind_of_finished
    (result_sizeArgument w (n := limit) (by omega) .badMaxResults)).trans ?_
  refine (result_bind_of_finished
    (result_sizeArgument w (n := context) (by omega) .badContext)).trans ?_
  rw [result_patternAndPages, Ending.andThen_andThen, result_bind]
  refine congrArg (fun g => Ending.andThen g _) ?_
  funext w pattern
  rw [result_bind, Run.result_onShelf_map _
    (result_snippets s f hfindings pattern limit context), Ending.andThen_andThen,
    Ending.andThen_andThen]
  rfl

end FileMethod

open FileMethod (searchFor containsMatch snippetsAround) in
/-- Searching for a pattern, asking whether it is there and showing where it is end
alike without an answer, or the answers follow from all matches on the pages.  The
pages found are those of the matches, there is one if and only if a page is found, and
the first matches are shown, as many as asked for, with a number of characters around
each of them. -/
theorem search_contains_snippets_agree (s : Setting) (f : File) (source : Text)
    (ignoreCase : Bool) (w : World) :
    (∃ ending : Ending Fault Value, (∀ v, ending ≠ .finished v) ∧
      (∀ pattern pages, Pattern.compile ignoreCase source = .ok pattern →
        ((f.pages s).run none w.shelf).ending ≠ .finished pages) ∧
      ((searchFor s f source ignoreCase).run none w).ending = ending ∧
      ((containsMatch s f source ignoreCase).run none w).ending = ending ∧
      ∀ limit context : Nat, 1 ≤ limit →
        ((snippetsAround s f source ignoreCase limit context).run none w).ending =
          ending) ∨
    ∃ (pattern : Pattern) (pages : List Text) (findings : List Finding)
      (numbers : List Nat),
      Pattern.compile ignoreCase source = .ok pattern ∧
      ((f.pages s).run none w.shelf).ending = .finished pages ∧
      pattern.Findings 1 pages findings ∧
      (∀ x ∈ findings, 1 ≤ x.number ∧ pages[x.number - 1]? = some x.page ∧
        x.span.start ≤ x.span.stop ∧ x.span.stop ≤ x.page.length) ∧
      (searchFor s f source ignoreCase).Lists w
        (numbers.map fun number : Nat => .int number) ∧
      ((containsMatch s f source ignoreCase).run none w).ending =
        .finished (.bool (!numbers.isEmpty)) ∧
      ∀ context : Nat, ∃ snippets : List Text,
        (∀ limit : Nat, 1 ≤ limit →
          (snippetsAround s f source ignoreCase limit context).Lists w
            ((snippets.take limit).map .text)) ∧
        (∀ limit : Nat, findings.length ≤ limit →
          ((snippets.take limit).map Text.namedPage).destutter (· ≠ ·) = numbers) ∧
        snippets = findings.map fun x => "[page ".toList ++ Text.ofNat x.number ++
          "] ".toList ++ Text.strip ((Text.slice x.page (x.span.start - context)
            (min (x.span.stop + context) x.page.length)).map
              fun c => if c == '\n' then ' ' else c) := by
  choose findings hfindings using fun x : Pattern × List Text => x.1.exists_findings 1 x.2
  have hsearch := FileMethod.result_searchFor s f source ignoreCase w
  have hcontains := FileMethod.result_containsMatch s f source ignoreCase w
  have hsnippets := fun limit context (hlimit : 1 ≤ limit) =>
    FileMethod.result_snippetsAround s f source ignoreCase w hfindings hlimit context
  by_cases hread : ∃ x,
      ((FileMethod.patternAndPages s f source ignoreCase).result w).2 = .finished x
  case neg =>
    have hends (g : World → Pattern × List Text → World × Ending Fault Value) :=
      Ending.andThen_unfinished (not_exists.mp hread) g
    refine .inl ⟨_, (hends fun w _ => (w, .lost)).2, ?_, ?_, ?_, ?_⟩
    · intro pattern pages hpattern hpages
      obtain ⟨w', hresult⟩ := FileMethod.result_patternAndPages_of_ok hpattern hpages
      exact hread ⟨_, congrArg Prod.snd hresult⟩
    · rw [Action.ending_run_none, hsearch, (hends _).1]
    · rw [Action.ending_run_none, hcontains, (hends _).1]
    · intro limit context hlimit
      rw [Action.ending_run_none, hsnippets limit context hlimit, (hends _).1]
  case pos =>
    obtain ⟨x, hx⟩ := hread
    have hresult : (FileMethod.patternAndPages s f source ignoreCase).result w =
        (_, .finished x) := Prod.ext rfl hx
    rw [hresult] at hsearch hcontains hsnippets
    obtain ⟨hpattern, hpages⟩ := FileMethod.of_result_patternAndPages hresult
    refine .inr ⟨x.1, x.2, findings x, FileMethod.pagesFound x, hpattern, hpages,
      hfindings x, (hfindings x).on_page, Run.lists_of_result hsearch, ?_, fun context =>
        ⟨(findings x).map (Finding.snippet context), fun limit hlimit => ?_,
          fun limit hall => ?_, rfl⟩⟩
    · rw [Action.ending_run_none, hcontains]
      rfl
    · rw [← List.map_take]
      exact Run.lists_of_result (hsnippets limit context hlimit)
    · have hnamed : Text.namedPage ∘ Finding.snippet context = Finding.number :=
        funext (Finding.namedPage_snippet context)
      rw [List.take_of_length_le (by rwa [List.length_map]), List.map_map, hnamed]
      exact (hfindings x).numbers_eq

end Folio
