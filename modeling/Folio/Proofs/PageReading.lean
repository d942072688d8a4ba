import Folio.Proofs.CourseEnding
import Folio.Proofs.GuardedRun

/-!
# Reading pages by number

Pages are asked for in three ways: all of them, one of them, or several.  The
three agree.  Several pages are given if every number is in range, each page once
and in the order in which it is first asked for; one page is given as a list of
one; and all pages are those of the range from the first to the last page, put
together.

A file always has a page.  This holds for pages that were kept from an earlier
reading too, at every point of every run.
-/

namespace Folio

open Action

/-! ## Ranges -/

namespace Scene

theorem length_rangeOf (first last : Int) :
    (rangeOf first last).length = (first - last).natAbs + 1 := by
  rw [rangeOf, List.length_map, List.length_range]
  omega

theorem getElem?_rangeOf {first last : Int} {k : Nat} (hk : k < (rangeOf first last).length) :
    (rangeOf first last)[k]? = some (if first ≤ last then first + k else first - k) := by
  rw [length_rangeOf] at hk
  rw [rangeOf, List.getElem?_map, List.getElem?_range (by omega)]
  rfl

theorem rangeOf_one {n : Nat} (hn : 1 ≤ n) :
    rangeOf 1 n = (List.range n).map fun i : Nat => (i : Int) + 1 := by
  have hle : (1 : Int) ≤ n := by omega
  have hcount : ((n : Int) - 1).natAbs + 1 = n := by omega
  simp only [rangeOf, hcount, if_pos hle, Int.add_comm]

theorem result_eval_range (sc : Scene) {first last : Source.Expr} {a b : Int} {w w₁ w₂ : World}
    (hfirst : (sc.eval first).result w = (w₁, .finished (.int a)))
    (hlast : (sc.eval last).result w₁ = (w₂, .finished (.int b)))
    (loc place : Option Source.Location) :
    (sc.eval (.list [.range first last loc] place)).result w =
      ({ w₂ with lists := w₂.lists.push ((rangeOf a b).map Value.int).toArray },
        .finished (.list w₂.lists.size)) := by
  have hitems : (sc.evalItems [.range first last loc]).result w =
      (w₂, .finished ((rangeOf a b).map Value.int)) := by
    rw [evalItems, result_bind_of_finished (result_check _ w), result_bind_of_finished hfirst,
      result_bind_of_finished hlast]
    refine (result_bind_of_finished (result_pure _ w₂)).trans ?_
    rw [evalItems, result_bind_of_finished (result_pure _ w₂), List.append_nil]
    rfl
  rw [eval, result_bind_of_finished (result_check _ w), result_bind_of_finished hitems]
  rfl

end Scene

theorem eraseDups_of_nodup {α : Type} [BEq α] [LawfulBEq α] {items : List α}
    (hitems : items.Nodup) : items.eraseDups = items := by
  induction items with
  | nil => rfl
  | cons a rest ih =>
    obtain ⟨ha, hrest⟩ := List.nodup_cons.mp hitems
    rw [List.eraseDups_cons, List.filter_eq_self.mpr fun b hb => ?_, ih hrest]
    simpa using fun hsame : b = a => ha (hsame ▸ hb)

namespace File

/-! ## The pages asked for -/

/-- A page as it is given to a program, by its number. -/
def shownPage (file : File) (contents : List Text) (page : Int) : Text :=
  file.pageText (.number page) (contents[(page - 1).toNat]?.getD [])

variable {file : File} {s : Setting} {shelf shelf' : Shelf} {total : Nat}
  {contents : List Text} {pages : List Int}

/-- Page numbers that a file with so many pages has. -/
def InRange (total : Nat) (pages : List Int) : Prop :=
  ∀ page ∈ pages, 1 ≤ page ∧ page ≤ total

instance : Decidable (InRange total pages) :=
  List.decidableBAll ..

theorem inRange_cons {page : Int} :
    InRange total (page :: pages) ↔ (1 ≤ page ∧ page ≤ total) ∧ InRange total pages :=
  List.forall_mem_cons

/-- The test for a page that is out of range. -/
theorem outOfRange_eq (page : Int) : (decide ((Numeral.number page).value < 1) ||
      decide ((total : Int) < (Numeral.number page).value)) =
        !decide (1 ≤ page ∧ page ≤ total) := by
  rw [Bool.eq_iff_iff, Bool.or_eq_true, decide_eq_true_iff, decide_eq_true_iff, Bool.not_eq_true',
    decide_eq_false_iff_not]
  change page < 1 ∨ total < page ↔ _
  omega

theorem result_choosePages (hpages : InRange total pages) (chosen : List Int) :
    (file.choosePages total (chosen.map .number)
        (pages.map fun page => some (.number page))).result shelf =
      (shelf, .finished ((List.eraseDupsBy.loop (· == ·) pages chosen).map .number)) := by
  induction pages generalizing chosen with
  | nil =>
    rw [List.eraseDupsBy.loop, List.map_reverse]
    rfl
  | cons page rest ih =>
    obtain ⟨hpage, hrest⟩ := inRange_cons.mp hpages
    have hseen : (chosen.map Numeral.number).any
        (fun other => other.value == (Numeral.number page).value) = chosen.any (page == ·) := by
      rw [List.any_map]
      exact congrArg chosen.any (funext fun other => Bool.beq_comm)
    rw [List.map_cons, choosePages, result_bind_of_finished (result_check _ shelf)]
    simp only [outOfRange_eq, hpage, hseen, and_self, decide_true, Bool.not_true,
      Bool.false_eq_true, if_false]
    rw [List.eraseDupsBy.loop]
    cases chosen.any (page == ·) with
    | true => exact ih hrest chosen
    | false => exact ih hrest (page :: chosen)

theorem exists_failed_choosePages (file : File) (shelf : Shelf) (hpages : ¬InRange total pages)
    (chosen : List Numeral) : ∃ e, (file.choosePages total chosen
      (pages.map fun page => some (.number page))).result shelf = (shelf, .failed e) := by
  induction pages generalizing chosen with
  | nil => exact absurd (by simp [InRange]) hpages
  | cons page rest ih =>
    rw [List.map_cons, choosePages, result_bind_of_finished (result_check _ shelf)]
    simp only [outOfRange_eq, Bool.not_eq_true', decide_eq_false_iff_not]
    by_cases hpage : 1 ≤ page ∧ page ≤ total
    · have hrest : ¬InRange total rest := fun hrest =>
        hpages (inRange_cons.mpr ⟨hpage, hrest⟩)
      rw [if_neg (not_not.mpr hpage)]
      split
      · exact ih hrest _
      · exact ih hrest _
    · rw [if_pos hpage]
      split
      · exact ⟨_, result_bind_of_failed (result_throw _ shelf)⟩
      · exact ⟨_, result_bind_of_failed (result_throw _ shelf)⟩

/-! ## The three ways -/

section Ways

variable (hread : (file.pages s).result shelf = (shelf', .finished contents))

include hread

theorem result_read_all : (file.read s .all).result shelf =
      (shelf', .finished (.text (file.allPages contents))) := by
  rw [read, result_bind_of_finished (result_check _ shelf), result_bind_of_finished hread]
  rfl

theorem result_read_several (hpages : InRange contents.length pages) :
    (file.read s (.several (pages.map fun page => some (.number page)))).result shelf =
      (shelf', .finished (.texts (pages.eraseDups.map (file.shownPage contents)))) := by
  rw [read, result_bind_of_finished (result_check _ shelf), result_bind_of_finished hread]
  dsimp only
  rw [result_bind_of_finished (result_check _ shelf')]
  refine (result_bind_of_finished (result_choosePages hpages [])).trans ?_
  rw [writePages, List.map_map]
  rfl

theorem exists_failed_read_several (hpages : ¬InRange contents.length pages) :
    ∃ e, (file.read s (.several (pages.map fun page => some (.number page)))).result
      shelf = (shelf', .failed e) := by
  obtain ⟨e, he⟩ := exists_failed_choosePages file shelf' hpages []
  refine ⟨e, ?_⟩
  rw [read, result_bind_of_finished (result_check _ shelf), result_bind_of_finished hread]
  dsimp only
  rw [result_bind_of_finished (result_check _ shelf'), result_bind_of_failed he]

theorem result_read_one {page : Int} (hpage : InRange contents.length [page]) :
    (file.read s (.one (.number page))).result shelf =
      (shelf', .finished (.text (file.shownPage contents page))) := by
  rw [read, result_bind_of_finished (result_check _ shelf), result_bind_of_finished hread]
  dsimp only
  rw [result_bind_of_finished (result_check _ shelf')]
  exact result_bind_of_finished (result_choosePages hpage [])

theorem exists_failed_read_one {page : Int} (hpage : ¬InRange contents.length [page]) :
    ∃ e, (file.read s (.one (.number page))).result shelf = (shelf', .failed e) := by
  obtain ⟨e, he⟩ := exists_failed_choosePages file shelf' hpage []
  refine ⟨e, ?_⟩
  rw [read, result_bind_of_finished (result_check _ shelf), result_bind_of_finished hread]
  dsimp only
  rw [result_bind_of_finished (result_check _ shelf')]
  exact result_bind_of_failed he

end Ways

theorem allPages_eq (hcontents : contents ≠ []) :
    file.allPages contents = Text.joinWith ['\n', '\n']
      ((Scene.rangeOf 1 contents.length).eraseDups.map (file.shownPage contents)) := by
  have hnumbers := Scene.rangeOf_one (List.length_pos_iff.mpr hcontents)
  have hdistinct : (Scene.rangeOf 1 contents.length).Nodup := by
    rw [hnumbers]
    exact List.nodup_range.map fun i j hij => by simpa using hij
  rw [eraseDups_of_nodup hdistinct, hnumbers, allPages, List.map_map]
  congr 1
  refine List.ext_getElem (by simp) fun i hi _ => ?_
  have hlt : i < contents.length := by simpa using hi
  simp [shownPage, hlt]

end File

/-! ## Calls -/

namespace Run

/-- A call that answers with a list of values. -/
def Lists (a : Run Value) (w : World) (values : List Value) : Prop :=
  ∃ ref, (a.run none w).ending = .finished (.list ref) ∧
    (a.run none w).state.items ref = values.toArray

def Fails (a : Run Value) (w : World) : Prop :=
  ∃ e, (a.run none w).ending = .failed e

theorem items_push (w : World) (items : Array Value) :
    ({ w with lists := w.lists.push items } : World).items w.lists.size = items := by
  simp [World.items]

theorem lists_of_result {a : Run Value} {w w' : World} {values : List Value}
    (ha : a.result w = (newList values).result w') : a.Lists w values := by
  refine ⟨w'.lists.size, ?_, ?_⟩
  · rw [ending_run_none, ha]
    rfl
  · rw [state_run_none, ha]
    exact items_push w' _

end Run

namespace FileMethod

/-- The call `read(pages=…)`. -/
def readPages (s : Setting) (f : File) (pages : Value) : Run Value :=
  call s .read f ⟨[], [("pages", pages)]⟩

variable {s : Setting} {f : File} {v : Value} {w : World} {shelf : Shelf}

theorem result_readPages (s : Setting) (f : File) (v : Value) (w : World) :
    (readPages s f v).result w = Ending.andThen (fun w result => (match result with
        | .text t => return .text t
        | .texts ts => Run.texts ts : Run Value).result w)
      ((Run.onShelf (f.read s (pageChoice w v))).result w) := by
  have hbound : Arguments.bind FileMethod.read.fullName FileMethod.read.parameters
      ⟨[], [("pages", v)]⟩ = .ok ⟨[("pages", v), ("pages", .nothing)]⟩ := rfl
  rw [readPages, call, hbound]
  refine (result_bind_of_finished (result_pure _ w)).trans ?_
  refine (result_bind_of_finished (result_get w)).trans ?_
  exact result_bind _ _ w

theorem result_readPages_text {t : Text}
    (hread : (f.read s (pageChoice w v)).result w.shelf = (shelf, .finished (.text t))) :
    ((readPages s f v).run none w).ending = .finished (.text t) := by
  rw [ending_run_none, result_readPages, Run.onShelf, result_within, hread]
  rfl

theorem lists_readPages {texts : List Text} (hread : (f.read s (pageChoice w v)).result w.shelf =
      (shelf, .finished (.texts texts))) : (readPages s f v).Lists w (texts.map .text) := by
  apply Run.lists_of_result
  rw [result_readPages, Run.onShelf, result_within, hread]
  rfl

theorem fails_readPages {e : Fault}
    (hread : (f.read s (pageChoice w v)).result w.shelf = (shelf, .failed e)) :
    (readPages s f v).Fails w := by
  refine ⟨e, ?_⟩
  rw [ending_run_none, result_readPages, Run.onShelf, result_within, hread]
  rfl

theorem pageChoice_list {ref : Nat} {pages : List Int}
    (hitems : w.items ref = (pages.map Value.int).toArray) :
    pageChoice w (.list ref) = .several (pages.map fun page => some (.number page)) := by
  rw [pageChoice, hitems, List.toList_toArray, List.map_map]
  rfl

end FileMethod

/-- A file has a page at every point of every run. -/
theorem pages_ne_nil_of_reached (s : Setting) (source : Text) (tree : FileTree)
    (allowance : Allowance) {f : File} {contents : List Text} (hread : ((f.pages s).run none
      ((s.runSource source).run allowance (World.ofTree tree)).state.shelf).ending =
        .finished contents) : contents ≠ [] := by
  have hreached := ((Guard.free s).keeps_runSource (Nat.le_refl _) source).state_run
    ((Guard.free s).inWorld_ofTree (show (Guard.free s).Tree tree from trivial)) allowance
  exact (Guard.keeps_pages (g := Guard.free s) f).value_run hreached.shelf hread

namespace TwoPages

def tree : FileTree :=
  ⟨[(["a.docx"], .file (.word [.paragraph "Heading 1".toList ['a'],
    .paragraph "Heading 2".toList ['b']]))]⟩

def setting : Setting := ⟨⟨[]⟩, ⟨[]⟩, ⟨false, true, false⟩⟩

def file : File := ⟨0, ⟨["a.docx"]⟩⟩

/-- A world with a list of page numbers, one of them twice. -/
def world : World := ⟨Shelf.ofTree tree, #[#[.int 2, .int 1, .int 2]], []⟩

end TwoPages

end Folio
