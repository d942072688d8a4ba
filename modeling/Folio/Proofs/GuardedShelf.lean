import Folio.Proofs.CalmActions

/-!
# Guarded runs: the shelf

A guard says what a run may rely on and has to keep: what its file system is like
and where its handles are.  The places come from three doors only: a path that
the program names, the paths that a directory lists, and the index that covers a
place.  What a guard asks of these is kept by everything else a program does with
its files and directories.
-/

namespace Folio

open TreeAction Action

variable {directory : Directory}

theorem mem_or_of_mem_modify {α : Type} {items : Array α} {i : Nat} {f : α → α} {a : α}
    (ha : a ∈ items.modify i f) : a ∈ items ∨ ∃ b ∈ items, f b = a := by
  obtain ⟨j, hj, rfl⟩ := Array.mem_iff_getElem.mp ha
  rw [Array.size_modify] at hj
  rw [Array.getElem_modify]
  split
  · exact .inr ⟨items[j], Array.getElem_mem hj, rfl⟩
  · exact .inl (Array.getElem_mem hj)

/-! ## Tree actions whose answers matter -/

section Answers

variable {I : FileTree → Prop} {n : Nat} {α : Type} {P : α → Prop}

theorem TreeAction.keeps_ask {question : FileTree → Except SystemError α}
    (hanswer : ∀ tree a, I tree → question tree = .ok a → P a) : (ask question).Keeps I n P := by
  refine keeps_get.bind fun tree htree => ?_
  split
  · rename_i a ha
    exact keeps_pure (hanswer tree a htree ha)
  · exact keeps_throw _ trivial

theorem TreeAction.keeps_write {path : Path} {t : Text}
    (hwrite : ∀ tree tree', I tree → tree.write path t = .ok tree' → I tree') :
    (write path t).Keeps I n fun _ => True := (keeps_ask hwrite).bind fun _ htree => keeps_set htree

theorem Index.ordinary_of_readVectors {tree : FileTree} {db : Path} {e : Fault}
    (herror : readVectors tree db = .error e) : e.Ordinary := by
  unfold readVectors at herror
  repeat' split at herror
  all_goals cases herror
  · exact trivial
  · exact trivial
  · exact rfl

theorem Index.keeps_loadVectors {db : Path} (hvectors : ∀ vectors tree tree', I tree →
      tree.write (vectorsFile db) (vectorsText vectors) = .ok tree' → I tree')
    (hmeta : ∀ tree tree', I tree → tree.write (metaFile db) metaText = .ok tree' → I tree') :
    (loadVectors db).Keeps I n fun _ => True := by
  have hrebuild : (rebuildVectors db).Keeps I n fun _ => True := by
    refine (calm_loadRecords db _ _).bind fun records _ => ?_
    refine (keeps_checkTimes _ _).bind fun _ _ => ?_
    refine (calm_embedAll _ _ _).bind fun vectors _ => ?_
    exact (TreeAction.keeps_write (hvectors _)).bind fun _ _ =>
      TreeAction.keeps_write hmeta
  have hrepair : (repairVectors db).Keeps I n fun _ => True := by
    refine (calm_ask _ _ _).bind fun stored _ => ?_
    split
    · exact keeps_pure trivial
    · refine (calm_ask _ _ _).bind fun found _ => ?_
      split
      · exact hrebuild
      · refine (calm_hasCurrentMeta db _ _).bind fun current _ => ?_
        split
        · exact hrebuild
        · refine keeps_get.bind fun tree _ => ?_
          split
          · exact hrebuild
          · refine (calm_loadRecords db _ _).bind fun records _ => ?_
            split
            · exact hrebuild
            · exact keeps_pure trivial
  refine hrepair.bind fun _ _ => (calm_ask _ _ _).bind fun found _ => ?_
  refine keeps_guard (keeps_throw _ rfl) ?_
  refine keeps_get.bind fun tree _ => ?_
  refine (calm_ofExcept (fun e => ordinary_of_readVectors) _ _).bind fun vectors _ => ?_
  exact (keeps_checkTimes _ _).bind fun _ _ => keeps_pure trivial

end Answers

/-! ## Guards -/

def Handle.path : Handle → Path
  | .file path _ => path
  | .directory path => path

/-- What a run in a setting keeps, as far as its doors keep it. -/
structure Guard (s : Setting) where
  /-- What the file system is like. -/
  Tree : FileTree → Prop
  /-- Where files and directories may be. -/
  Place : Path → Prop
  /-- Which indexes may be used. -/
  Covers : Index.Position → Prop
  /-- The number of checkpoints before which no loop is given up. -/
  rounds : Nat
  locate : ∀ path, (s.locate path).Keeps Tree rounds Place
  filePaths : ∀ path recursive, Place path → (Directory.filePaths path recursive).Keeps Tree rounds
      fun paths => ∀ path ∈ paths, Place path
  position : ∀ path, Place path → (Index.position s.cwd path).Keeps Tree rounds Covers
  loadVectors : ∀ p, Covers p → (Index.loadVectors p.db).Keeps Tree rounds fun _ => True

namespace Guard

variable {s : Setting} {g : Guard s} {α : Type} {P : α → Prop}

/-- The shelf of a guarded run. -/
structure OnShelf (g : Guard s) (shelf : Shelf) : Prop where
  tree : g.Tree shelf.tree
  handles : ∀ handle ∈ shelf.handles, g.Place handle.path
  /-- The pages that were kept. -/
  read : ∀ path pages, .file path (some pages) ∈ shelf.handles → pages ≠ []

/-- What a guarded run does with its shelf, whatever the answer. -/
abbrev Serves (g : Guard s) (a : ShelfAction α) : Prop := a.Keeps g.OnShelf g.rounds fun _ => True

theorem keeps_onTree {a : TreeAction α} (ha : a.Keeps g.Tree g.rounds P) :
    (Shelf.onTree a).Keeps g.OnShelf g.rounds P :=
  ha.within (fun _ hshelf => hshelf.tree) fun _ _ htree hshelf =>
    ⟨htree, hshelf.handles, hshelf.read⟩

theorem keeps_onTree_calm {a : TreeAction α} (ha : a.Calm) :
    g.Serves (Shelf.onTree a) := keeps_onTree (ha _ _)

theorem keeps_giveOut {handle : Handle} (hhandle : g.Place handle.path)
    (hunread : ∀ path pages, handle ≠ .file path (some pages)) :
    g.Serves (Shelf.giveOut handle) := by
  refine keeps_get.bind fun shelf hshelf => ?_
  refine (keeps_set ⟨hshelf.tree, ?_, ?_⟩).bind fun _ _ => keeps_pure trivial
  · intro other hother
    rcases Array.mem_push.mp hother with hother | rfl
    · exact hshelf.handles other hother
    · exact hhandle
  · intro path pages hpages
    rcases Array.mem_push.mp hpages with hpages | hpages
    · exact hshelf.read path pages hpages
    · exact absurd hpages.symm (hunread path pages)

theorem keeps_openFile {path : Path} (hpath : g.Place path) :
    (Shelf.openFile path).Keeps g.OnShelf g.rounds fun file => g.Place file.path :=
  (keeps_giveOut hpath (by simp)).bind fun _ _ => keeps_pure hpath

theorem keeps_openDirectory {path : Path} (hpath : g.Place path) ( recursive : Bool) :
    (Shelf.openDirectory path recursive).Keeps g.OnShelf g.rounds
      fun directory => g.Place directory.path :=
  (keeps_giveOut hpath (by simp)).bind fun _ _ => keeps_pure hpath

theorem OnShelf.keepPages {shelf : Shelf} (hshelf : g.OnShelf shelf) (id : Nat) {pages : List Text}
    (hpages : pages ≠ []) : g.OnShelf (shelf.keepPages id pages) := by
  refine ⟨hshelf.tree, fun handle hhandle => ?_, fun path found hfound => ?_⟩
  · simp only [Shelf.keepPages] at hhandle
    rcases mem_or_of_mem_modify hhandle with hold | ⟨old, hold, rfl⟩
    · exact hshelf.handles handle hold
    · have hplace := hshelf.handles old hold
      cases old with
      | file path before => exact hplace
      | directory path => exact hplace
  · simp only [Shelf.keepPages] at hfound
    rcases mem_or_of_mem_modify hfound with hold | ⟨old, hold, hkept⟩
    · exact hshelf.read path found hold
    · cases old with
      | file path before =>
        cases hkept
        exact hpages
      | directory path => cases hkept

theorem OnShelf.pagesRead? {shelf : Shelf} (hshelf : g.OnShelf shelf) {id : Nat} {pages : List Text}
    (hpages : shelf.pagesRead? id = some pages) : pages ≠ [] := by
  unfold Shelf.pagesRead? at hpages
  split at hpages
  · rename_i path kept hhandle
    exact hshelf.read path pages (hpages ▸ Array.mem_of_getElem? hhandle)
  · cases hpages

theorem keeps_pages (file : File) : (file.pages s).Keeps g.OnShelf g.rounds (· ≠ []) := by
  refine (keeps_check _).bind fun _ _ => keeps_get.bind fun shelf hshelf => ?_
  split
  · rename_i hread
    exact keeps_pure (hshelf.pagesRead? hread)
  · refine (keeps_onTree (Reading.keeps_pages _ _ _)).bind fun pages hpages => ?_
    refine (keeps_modify fun shelf hshelf => ?_).bind fun _ _ => keeps_pure hpages
    exact hshelf.keepPages file.id hpages

/-! ## Opening -/

theorem keeps_openNamedFile (path : Text) :
    (s.openFile path).Keeps g.OnShelf g.rounds fun file => g.Place file.path := by
  refine (keeps_onTree (g.locate path)).bind fun found hfound => ?_
  refine (keeps_onTree_calm (calm_ask _)).bind fun isFile _ => ?_
  split
  · exact keeps_openFile hfound
  · refine (keeps_onTree_calm (Index.calm_filePages? _)).bind fun pages _ => ?_
    split
    · exact keeps_openFile hfound
    · refine keeps_onTree ?_
      refine (calm_ask _ _ _).bind fun found _ => ?_
      split
      · exact (calm_shown _ _ _ _).bind fun _ _ => keeps_throw _ rfl
      · exact (calm_shown _ _ _ _).bind fun _ _ => keeps_throw _ rfl

theorem keeps_openDirectoryAt {path : Path} (hpath : g.Place path) ( recursive : Bool) :
    (s.openDirectoryAt path recursive).Keeps g.OnShelf g.rounds
      fun directory => g.Place directory.path := by
  have hcomplain : ∀ c : Text → Complaint, (∀ t, (c t).isAboutForm = false) →
      (s.shown path >>= fun shown =>
        TreeAction.complain (c shown) : TreeAction Unit).Calm := fun c hc =>
    (calm_shown _ _).bind fun t => TreeAction.calm_complain _ (hc t)
  refine (keeps_onTree_calm ?_).bind fun _ _ => keeps_openDirectory hpath recursive
  refine (calm_ask _).bind fun found => ?_
  split
  · refine (calm_ask _).bind fun isDirectory => ?_
    split
    · exact hcomplain _ fun _ => rfl
    · exact calm_pure _
  · refine (Index.calm_directoryPaths? _ _).bind fun documents => ?_
    dsimp only
    split
    · exact hcomplain _ fun _ => rfl
    · exact calm_pure _

/-! ## Files -/

theorem keeps_read (file : File) (choice : PageChoice) : g.Serves (file.read s choice) := by
  refine (keeps_check _).bind fun _ _ => (keeps_pages file).bind fun contents _ => ?_
  split
  · exact keeps_pure trivial
  · refine (keeps_check _).bind fun _ _ => ?_
    exact (file.calm_choosePages _ _ _ _ _).bind fun _ _ => keeps_pure trivial
  · refine (keeps_check _).bind fun _ _ => ?_
    exact (file.calm_choosePages _ _ _ _ _).bind fun _ _ => keeps_pure trivial
  · exact (keeps_check _).bind fun _ _ => keeps_throw _ rfl

theorem keeps_search (file : File) (pattern : Pattern) : g.Serves (file.search s pattern) :=
  (keeps_pages file).bind fun _ _ =>
    (keeps_checkTimes _ _).bind fun _ _ => keeps_pure trivial

theorem keeps_head (file : File) : g.Serves (file.head s) :=
  (keeps_check _).bind fun _ _ => (keeps_pages file).bind fun _ _ => keeps_pure trivial

theorem keeps_tail (file : File) : g.Serves (file.tail s) :=
  (keeps_check _).bind fun _ _ => (keeps_pages file).bind fun _ _ => keeps_pure trivial

theorem keeps_snippets (file : File) (pattern : Pattern) (limit context : Nat) :
    g.Serves (file.snippets s pattern limit context) :=
  (keeps_pages file).bind fun _ _ => File.calm_snippetsOf _ _ _ _ _ _ _

theorem keeps_table (file : File) (limit : Nat) : g.Serves (file.table s limit) := by
  have hshown : ∀ headings : List Heading, g.Serves (do
      let shown ← Shelf.onTree (s.shown file.path)
      if headings.isEmpty then
        return "No table of contents detected for ".toList ++ shown
      return "=== Table of contents for file ".toList ++ shown ++
        " ===\n".toList ++ outlineText headings) := by
    intro headings
    refine (keeps_onTree_calm (calm_shown _ _)).bind fun shown _ => ?_
    split
    · exact keeps_pure trivial
    · exact keeps_pure trivial
  have houtline : g.Serves (file.textOutline s limit) :=
    (keeps_check _).bind fun _ _ => (keeps_pages file).bind fun _ _ =>
      Contents.calm_headingsAt _ _ _ _ _
  refine (keeps_onTree_calm (Contents.calm_documentOutline _ _ _)).bind fun carried _ => ?_
  split
  · exact houtline.bind fun headings _ => hshown headings
  · exact (calm_pure carried _ _).bind fun headings _ => hshown headings

theorem keeps_searchFileChunks {path : Path} (hpath : g.Place path) (request : Index.Request) :
    (Index.searchFileChunks s.cwd path request).Keeps g.Tree g.rounds fun _ => True := by
  refine (g.position path hpath).bind fun p hp => ?_
  refine (g.loadVectors p hp).bind fun vectors _ => ?_
  refine (Index.calm_loadRecords _ _ _).bind fun records _ => ?_
  refine (Index.calm_embedQuery _ _ _).bind fun query _ => ?_
  exact (keeps_checkTimes _ _).bind fun _ _ => keeps_pure trivial

theorem keeps_fileSemanticSearch {file : File} (hfile : g.Place file.path)
    (request : Index.Request) : g.Serves (file.semanticSearch s request) :=
  (keeps_onTree (keeps_searchFileChunks hfile request)).bind fun _ _ =>
    keeps_pure trivial

/-! ## Directories -/

theorem keeps_files (hdirectory : g.Place directory.path)
    ( recursive : Bool) : (directory.files recursive).Keeps g.OnShelf g.rounds
      fun files => ∀ file ∈ files, g.Place file.path :=
  (keeps_onTree (g.filePaths _ recursive hdirectory)).bind fun _ hpaths =>
    keeps_mapList fun path hpath => keeps_openFile (hpaths path hpath)

theorem keeps_loopPaths (hdirectory : g.Place directory.path) :
    directory.loopPaths.Keeps g.Tree g.rounds fun paths => ∀ path ∈ paths, g.Place path :=
  (keeps_check _).bind fun _ _ => g.filePaths _ _ hdirectory

theorem keeps_loopFile {path : Path} (hpath : g.Place path) :
    (Directory.loopFile path).Keeps g.OnShelf g.rounds fun file => g.Place file.path :=
  (keeps_check _).bind fun _ _ => keeps_openFile hpath

theorem keeps_fileMatches (directory : Directory) (pattern : Pattern) (scope : Directory.Scope)
    (file : File) : g.Serves (directory.fileMatches s pattern scope file) := by
  have hcontent : g.Serves (Directory.contentMatches s pattern file) :=
    (keeps_check _).bind fun _ _ =>
      (keeps_search file pattern).bind fun _ _ => keeps_pure trivial
  refine (keeps_check _).bind fun _ _ => ?_
  refine (directory.calm_nameMatches pattern file _ _).bind fun byName _ => ?_
  cases scope with
  | name => exact keeps_pure trivial
  | content => exact hcontent
  | both => exact hcontent.bind fun _ _ => keeps_pure trivial

theorem keeps_directorySearch (hdirectory : g.Place directory.path) (pattern : Pattern)
    (scope : Directory.Scope) ( recursive : Bool) :
    (directory.search s pattern scope recursive).Keeps g.OnShelf g.rounds
      fun files => ∀ file ∈ files, g.Place file.path := by
  refine (keeps_files hdirectory recursive).bind fun files hfiles => ?_
  have hmatching : ∀ file ∈ files, (do
      if ← directory.fileMatches s pattern scope file then return some file
      return none : ShelfAction (Option File)).Keeps g.OnShelf g.rounds
        fun found => ∀ file ∈ found, g.Place file.path := by
    intro file hfile
    refine (keeps_fileMatches directory pattern scope file).bind fun matching _ => ?_
    split
    · refine keeps_pure fun other hother => ?_
      cases hother
      exact hfiles file hfile
    · exact keeps_pure nofun
  refine (keeps_mapList hmatching).bind fun found hfound => keeps_pure ?_
  intro file hfile
  obtain ⟨other, hother, hsame⟩ := List.mem_filterMap.mp hfile
  exact hfound other hother file hsame

theorem keeps_directorySemanticSearch
    (hdirectory : g.Place directory.path) (request : Index.Request) ( recursive : Bool) :
    (directory.semanticSearch s request recursive).Keeps g.Tree g.rounds fun _ => True := by
  have hfound : (Index.searchDirectoryChunks s.cwd directory.path request
      recursive).Keeps g.Tree g.rounds fun _ => True := by
    refine (g.position _ hdirectory).bind fun p hp => ?_
    refine (g.loadVectors p hp).bind fun vectors _ => ?_
    refine (Index.calm_loadRecords _ _ _).bind fun records _ => ?_
    refine (Index.calm_embedQuery _ _ _).bind fun query _ => ?_
    exact (keeps_checkTimes _ _).bind fun _ _ => keeps_pure trivial
  refine hfound.bind fun found _ => ?_
  refine Calm.mapList (fun result => ?_) found _ _
  refine (calm_check _).bind fun _ => ?_
  exact (calm_shown _ _).bind fun _ => calm_pure _

end Guard

end Folio
