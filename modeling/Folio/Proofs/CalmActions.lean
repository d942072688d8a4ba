import Folio.Program
import Folio.Proofs.CourseInvariant

/-!
# Actions that only look

Almost everything a program can ask of files leaves the file system and the
handles as they are: pages are read, indexes are looked up and directories are
listed without a change.  The exceptions, in which the vectors of an index are
made again, pages are kept and handles are given out, are not here.
-/

namespace Folio

open Action

/-! ## The file system -/

namespace TreeAction

variable {α : Type}

theorem calm_ofFailure (value : Except Failure α) : (ofFailure value).Calm := by
  cases value with
  | ok a => exact calm_pure a
  | error e => exact calm_throw _ trivial

theorem calm_ask (question : FileTree → Except SystemError α) : (ask question).Calm := by
  refine calm_get.bind fun tree => ?_
  cases question tree with
  | ok a => exact calm_pure a
  | error e => exact calm_throw _ trivial

theorem calm_complain (c : Complaint) (hc : c.isAboutForm = false) :
    (complain c : TreeAction α).Calm := calm_throw _ hc

theorem calm_resolve (path : Path) : (resolve path).Calm := by
  unfold resolve
  refine calm_guard (calm_throw _ trivial) ?_
  refine calm_get.bind fun tree => ?_
  cases tree.resolve path with
  | path place => exact calm_pure place
  | circle => exact calm_throw _ trivial

theorem calm_shown (base path : Path) : (shown base path).Calm :=
  (calm_resolve path).bind fun _ => (calm_resolve base).bind fun _ => calm_pure _

end TreeAction

open TreeAction

/-! ## Indexes -/

namespace Index

theorem calm_embedFrom {σ : Type} (seen : Buckets) (texts : List Text) :
    (embedFrom seen texts : Action σ Fault (List Embedding)).Calm := by
  induction texts generalizing seen with
  | nil => exact calm_pure _
  | cons t rest ih =>
    refine (calm_check _).bind fun _ => (calm_checkTimes _ _).bind fun _ => ?_
    exact (ih _).bind fun _ => calm_pure _

theorem calm_embedAll {σ : Type} (texts : List Text) :
    (embedAll texts : Action σ Fault (List Embedding)).Calm := calm_embedFrom ∅ texts

theorem calm_loadRecords (db : Path) : (loadRecords db).Calm := by
  refine (calm_ask _).bind fun found => ?_
  refine calm_guard (calm_complain _ rfl) ?_
  refine calm_get.bind fun tree => (calm_ofFailure _).bind fun value => ?_
  cases recordsOf? value with
  | some records => exact calm_pure records
  | none => exact calm_complain _ rfl

theorem calm_hasCurrentMeta (db : Path) : (hasCurrentMeta db).Calm := by
  refine (calm_ask _).bind fun found => ?_
  split
  · exact calm_pure _
  · refine calm_get.bind fun tree => ?_
    cases readJson tree (metaFile db) with
    | ok value => exact calm_pure _
    | error e => exact calm_pure _

theorem calm_loadCatalogue (db : Path) : (loadCatalogue db).Calm := by
  refine (calm_loadRecords db).bind fun records => ?_
  refine (calm_checkTimes _ _).bind fun _ => ?_
  exact (calm_checkTimes _ _).bind fun _ => calm_pure _

theorem calm_firstIndexed? (candidates : List Path) : (firstIndexed? candidates).Calm := by
  induction candidates with
  | nil => exact calm_pure _
  | cons candidate rest ih =>
    refine (calm_check _).bind fun _ => (calm_ask _).bind fun found => ?_
    split
    · exact calm_pure _
    · exact ih

theorem calm_findRoot (base path : Path) : (findRoot base path).Calm := by
  refine (calm_firstIndexed? _).bind fun found => ?_
  cases found with
  | some root => exact calm_pure root
  | none => exact (calm_shown _ _).bind fun _ => calm_complain _ rfl

theorem calm_position? (path : Path) : (position? path).Calm := by
  refine (calm_resolve path).bind fun place => ?_
  refine (calm_firstIndexed? _).bind fun found => ?_
  cases found with
  | some root => exact calm_pure _
  | none => exact calm_pure _

theorem calm_position (base path : Path) : (position base path).Calm :=
  (calm_resolve path).bind fun place =>
    (calm_findRoot base place).bind fun _ => calm_pure _

theorem calm_filePages? (path : Path) : (filePages? path).Calm := by
  refine (calm_position? path).bind fun found => ?_
  cases found with
  | none => exact calm_pure _
  | some p =>
    refine (calm_ask _).bind fun stored => ?_
    split
    · exact calm_pure _
    · refine (calm_loadCatalogue _).bind fun catalogue => ?_
      cases catalogue.pages.lookup p.inside with
      | none => exact calm_pure _
      | some pages => exact (calm_checkTimes _ _).bind fun _ => calm_pure _

theorem calm_directoryPaths? (path : Path) ( recursive : Bool) :
    (directoryPaths? path recursive).Calm := by
  refine (calm_position? path).bind fun found => ?_
  cases found with
  | none => exact calm_pure _
  | some p =>
    refine (calm_ask _).bind fun stored => ?_
    split
    · exact calm_pure _
    · refine (calm_loadCatalogue _).bind fun catalogue => ?_
      exact (calm_checkTimes _ _).bind fun _ => calm_pure _

theorem calm_embedQuery (query : Text) : (embedQuery query).Calm := by
  refine (calm_embedAll _).bind fun vectors => ?_
  cases vectors with
  | nil => exact calm_pure _
  | cons vector rest => exact calm_pure _

end Index

open Index

/-! ## Pages -/

namespace Reading

theorem calm_require (installed : Bool) (kind : DocumentKind) : (require installed kind).Calm := by
  unfold require
  split
  · exact calm_pure _
  · exact calm_complain _ rfl

theorem calm_unreadable {α : Type} (kind : DocumentKind) (outline : Bool) (path : Path)
    (detail : Text) : (unreadable kind outline path detail : TreeAction α).Calm :=
  calm_complain _ rfl

theorem calm_openPaged (readers : Readers) (outline : Bool) (path : Path) :
    (openPaged readers outline path).Calm := by
  refine (calm_require _ _).bind fun _ => calm_get.bind fun tree => ?_
  split
  · exact calm_unreadable _ _ _ _
  · split
    · exact calm_unreadable _ _ _ _
    · exact calm_pure _

theorem calm_openWord (readers : Readers) (outline : Bool) (path : Path) :
    (openWord readers outline path).Calm := by
  refine (calm_require _ _).bind fun _ => calm_get.bind fun tree => ?_
  split
  · exact calm_unreadable _ _ _ _
  · exact calm_pure _
  · exact calm_unreadable _ _ _ _

theorem calm_openSlides (readers : Readers) (outline : Bool) (path : Path) :
    (openSlides readers outline path).Calm := by
  refine (calm_require _ _).bind fun _ => calm_get.bind fun tree => ?_
  split
  · exact calm_unreadable _ _ _ _
  · exact calm_pure _
  · exact calm_unreadable _ _ _ _

theorem calm_pagedPages (readers : Readers) (path : Path) : (pagedPages readers path).Calm := by
  refine (calm_check _).bind fun _ => ?_
  refine (calm_openPaged _ _ _).bind fun document => ?_
  exact (calm_checkTimes _ _).bind fun _ => calm_pure _

theorem calm_wordPages (readers : Readers) (path : Path) : (wordPages readers path).Calm := by
  refine (calm_check _).bind fun _ => ?_
  refine (calm_openWord _ _ _).bind fun blocks => ?_
  refine (calm_checkTimes _ _).bind fun _ => ?_
  refine (Calm.forList (fun rows => ?_) _).bind fun _ => calm_pure _
  exact (calm_check _).bind fun _ => calm_checkTimes _ _

theorem calm_slidePages (readers : Readers) (path : Path) : (slidePages readers path).Calm := by
  refine (calm_check _).bind fun _ => ?_
  refine (calm_openSlides _ _ _).bind fun deck => ?_
  refine (Calm.mapList (fun slide => ?_) _).bind fun pages => calm_pure _
  refine (calm_check _).bind fun _ => (calm_checkTimes _ _).bind fun _ => ?_
  exact (calm_checkTimes _ _).bind fun _ => calm_pure _

theorem calm_textPages (size : Int) (path : Path) : (textPages size path).Calm := by
  refine (calm_check _).bind fun _ => (calm_ask _).bind fun content => ?_
  refine (calm_ofFailure _).bind fun pages => ?_
  exact (calm_checkTimes _ _).bind fun _ => calm_pure _

/-- A file has a page, whatever it is read from. -/
theorem keeps_pages {I : FileTree → Prop} {n : Nat} (readers : Readers) (size : Int)
    (path : Path) : (pages readers size path).Keeps I n (· ≠ []) := by
  have hdirect : (directPages readers size path).Calm := by
    unfold directPages
    split
    · exact calm_pagedPages _ _
    · exact calm_wordPages _ _
    · exact calm_slidePages _ _
    · exact calm_textPages _ _
  have hlast : ∀ found : List Text, (do
      Action.checkTimes "file.chunks.normalize" found.length
      return if found.isEmpty then [[]] else found.map Text.normalize :
        TreeAction (List Text)).Keeps I n (· ≠ []) := fun found =>
    (keeps_checkTimes _ _).bind fun _ _ => keeps_pure (by cases found <;> simp)
  refine (calm_filePages? path _ _).bind fun found _ => ?_
  cases found with
  | some pages => exact hlast pages
  | none => exact (hdirect _ _).bind fun found _ => hlast found

end Reading

/-! ## Tables of contents -/

namespace Contents

variable {σ : Type}

theorem calm_takeUpTo {α β : Type} {f : α → Action σ Fault (Option β)} (hf : ∀ a, (f a).Calm)
    (limit : Nat) (done : List β) (items : List α) : (takeUpTo limit f done items).Calm := by
  induction items generalizing done with
  | nil => exact calm_pure _
  | cons a rest ih =>
    refine (hf a).bind fun found => ?_
    cases found with
    | none => exact ih done
    | some b =>
      dsimp only
      split
      · exact calm_pure _
      · exact ih _

theorem calm_checked (heading : Except Decimal.NumberFlaw (Option Heading)) :
    (checked heading : Action σ Fault (Option Heading)).Calm := by
  cases heading with
  | ok found => exact calm_pure _
  | error flaw => exact calm_throw _ trivial

theorem calm_pagedOutline (readers : Readers) (limit : Nat) (path : Path) :
    (pagedOutline readers limit path).Calm := by
  refine (calm_check _).bind fun _ => ?_
  refine (Reading.calm_openPaged _ _ _).bind fun document => ?_
  split
  · exact Reading.calm_unreadable _ _ _ _
  · exact calm_takeUpTo (fun entry => (calm_check _).bind fun _ =>
      calm_ofFailure _) _ _ _

theorem calm_wordOutline (readers : Readers) (limit : Nat) (path : Path) :
    (wordOutline readers limit path).Calm := by
  refine (calm_check _).bind fun _ => ?_
  refine (Reading.calm_openWord _ _ _).bind fun blocks => ?_
  exact calm_takeUpTo (fun paragraph => (calm_check _).bind fun _ =>
    calm_checked _) _ _ _

theorem calm_slideOutline (readers : Readers) (limit : Nat) (path : Path) :
    (slideOutline readers limit path).Calm := by
  refine (calm_check _).bind fun _ => ?_
  refine (Reading.calm_openSlides _ _ _).bind fun deck => ?_
  refine calm_takeUpTo (fun slide => ?_) _ _ _
  refine (calm_check _).bind fun _ => ?_
  exact calm_guard (calm_checkTimes _ _) (calm_pure _)

theorem calm_documentOutline (readers : Readers) (limit : Nat) (path : Path) :
    (documentOutline readers limit path).Calm := by
  refine (calm_ask _).bind fun found => ?_
  split
  · exact calm_pure _
  · split
    · exact calm_pagedOutline _ _ _
    · exact calm_wordOutline _ _ _
    · exact calm_slideOutline _ _ _
    · exact calm_pure _

theorem calm_headingsAt (limit : Nat) (found : List Heading)
    (stations : List Station) : (headingsAt limit found stations).Calm := by
  induction stations generalizing found with
  | nil => exact calm_pure _
  | cons station rest ih =>
    cases station with
    | page => exact (calm_check _).bind fun _ => ih found
    | line text =>
      refine (calm_check _).bind fun _ => ?_
      refine (calm_checked _).bind fun heading => ?_
      split
      · exact ih found
      · split
        · exact ih found
        · split
          · exact calm_pure _
          · exact ih _

end Contents

/-! ## Files and directories -/

theorem File.calm_choosePages (file : File) (total : Nat) (chosen : List Numeral)
    (pages : List (Option Numeral)) : (file.choosePages total chosen pages).Calm := by
  induction pages generalizing chosen with
  | nil => exact calm_pure _
  | cons page rest ih =>
    refine (calm_check _).bind fun _ => ?_
    cases page with
    | none => exact calm_throw _ rfl
    | some page =>
      have hnext : (if chosen.any (·.value == page.value) then
          file.choosePages total chosen rest
          else file.choosePages total (page :: chosen) rest).Calm := by
        split
        · exact ih chosen
        · exact ih _
      dsimp only
      split
      · split
        · exact (calm_throw _ (by trivial)).bind fun _ =>
            (calm_throw _ (by rfl)).bind fun _ => hnext
        · exact (calm_throw _ (by rfl)).bind fun _ => hnext
      · exact hnext

theorem File.calm_snippetsOf (pattern : Pattern) (context limit number : Nat) (pages : List Text) :
    (snippetsOf pattern context limit number pages).Calm := by
  induction pages generalizing limit number with
  | nil => exact calm_pure _
  | cons page rest ih =>
    refine (calm_check _).bind fun _ => ?_
    dsimp only
    split
    · exact calm_pure _
    · exact (ih _ _).bind fun _ => calm_pure _

namespace Directory

theorem calm_writeTree (limit : Numeral) (p : TreeView.Progress) : (writeTree limit p).Calm :=
  (Calm.forList calm_check _).bind fun _ => calm_pure _

theorem calm_treeOfPaths (directory : Directory) (title : Text) (maxDepth : Nat) (limit : Numeral)
    (paths : List Path) : (directory.treeOfPaths title maxDepth limit paths).Calm := by
  refine (calm_check _).bind fun _ => (calm_checkTimes _ _).bind fun _ => ?_
  exact calm_writeTree _ _

theorem calm_tree (directory : Directory) (s : Setting) (maxDepth : Nat)
    (limit : Numeral) : (directory.tree s maxDepth limit).Calm := by
  refine (calm_directoryPaths? _ _).bind fun paths => ?_
  refine (calm_shown _ _).bind fun title => ?_
  cases paths with
  | some paths => exact calm_treeOfPaths _ _ _ _ _
  | none => exact calm_get.bind fun tree => calm_writeTree _ _

theorem calm_nameMatches (directory : Directory) (pattern : Pattern)
    (file : File) : (directory.nameMatches pattern file).Calm := by
  unfold nameMatches
  split
  · exact calm_throw _ trivial
  · exact calm_pure _

theorem calm_walkedPaths (path : Path) ( recursive : Bool) : (walkedPaths path recursive).Calm := by
  refine calm_get.bind fun tree => ?_
  refine (Calm.mapList (fun entry => ?_) _).bind fun _ => calm_pure _
  refine (calm_check _).bind fun _ => (calm_ask _).bind fun found => ?_
  split
  · exact calm_pure _
  · exact calm_pure _

theorem calm_filePaths (path : Path) ( recursive : Bool) : (filePaths path recursive).Calm := by
  refine (calm_check _).bind fun _ => (calm_directoryPaths? _ _).bind fun found => ?_
  cases found with
  | some paths => exact calm_pure _
  | none => exact calm_walkedPaths _ _

theorem calm_size (directory : Directory) : directory.size.Calm :=
  (calm_check _).bind fun _ => (calm_filePaths _ _).bind fun _ => calm_pure _

end Directory

end Folio
