import Folio.Proofs.StoredIndex

/-!
# Reading through an index

A text file in a folder is read before and after an index of the folder is made.
Before, its pages are cut from its text and cleaned.  After, they come from the
records of the index, which were cut, cleaned and stripped of outer blanks when
the index was made, and which are cleaned once more when they are read.

So the pages after are the pages before, stripped and cleaned again.  They are
the same pages exactly if this changes none of them.
-/

namespace Folio

open Action TreeAction FileTree

variable {pages : List Text}

namespace Index

/-! ## Folders without an index -/

/-- A folder without links and indexes in it, and without an index above it. -/
structure Unindexed (tree : FileTree) (root : Path) : Prop where
  noLink : ∀ place target, root.parts <+: place → tree.node? place ≠ some (.link target)
  noneInside : ∀ place, root.parts <+: place →
    tree.node? (place ++ [directoryName]) ≠ some .directory
  noneAbove : ∀ above, above <+: root.parts →
    tree.isDirectory? ⟨above ++ [directoryName]⟩ = .ok false

theorem Unindexed.clear {tree : FileTree} {root : Path} (hunindexed : Unindexed tree root) :
    Clear tree root :=
  ⟨hunindexed.noLink, fun place hplace _ => hunindexed.noneInside place hplace⟩

theorem Unindexed.result_filePages? {tree : FileTree} {root path : Path} {content : Content}
    (hunindexed : Unindexed tree root) (hsound : tree.Sound)
    (hfolder : tree.node? root.parts = some .directory)
    (hfile : tree.node? path.parts = some (.file content)) (hinFolder : root.parts <+: path.parts)
    (hshort : (path.child directoryName).fits = true) :
    (filePages? path).result tree = (tree, .finished none) := by
  have hnone : ∀ c ∈ rootCandidates path,
      tree.isDirectory? (c.child directoryName) = .ok false := by
    intro c hc
    have hway := mem_rootCandidates_iff.mp hc
    rcases List.prefix_or_prefix_of_prefix hway hinFolder with habove | hbelow
    · exact hunindexed.noneAbove _ habove
    · refine (isDirectory?_below hsound hfolder hunindexed.noLink hbelow (fun name hname =>
        hsound.named_of_node? hfile name (hway.subset hname))
        (hunindexed.noneInside _ hbelow)).resolve_right fun hlong => ?_
      simp [Path.fits_child_of_isPrefix hway hshort] at hlong
  have hposition := result_position? hsound hfile
  rw [findRoot?, result_firstIndexed?_none hnone] at hposition
  exact result_bind_of_finished hposition

end Index

/-! ## The pages of a text file -/

section Reading

variable {readers : Readers} {root path : Path} {tree tree' : FileTree} {content : Content}
  {found : List (Option (List (Index.Record × Text)))}

theorem Reading.result_directPages (readers : Readers) (hkind : path.kind? = none)
    (hread : tree.read path = .ok content)
    (hpages : pagesOfText linesPerPage content.plainText = .ok pages) :
    (Reading.directPages readers linesPerPage path).result tree = (tree, .finished pages) := by
  unfold directPages
  rw [hkind]
  dsimp only
  unfold textPages
  rw [result_bind_of_finished (result_check _ tree), TreeAction.read, result_bind_of_finished
      (ask_eq_finished_iff.mpr ⟨rfl, hread⟩)]
  dsimp only
  rw [hpages]
  refine (result_bind_of_finished (result_pure _ tree)).trans ?_
  exact result_bind_of_finished (result_checkTimes _ _ tree)

theorem Reading.result_pages {size : Int} (hne : pages ≠ [])
    (hpages : (Index.filePages? path).result tree = (tree, .finished (some pages)) ∨
      (Index.filePages? path).result tree = (tree, .finished none) ∧
        (Reading.directPages readers size path).result tree = (tree, .finished pages)) :
    (Reading.pages readers size path).result tree =
      (tree, .finished (pages.map Text.normalize)) := by
  have hlast : (do
      Action.checkTimes "file.chunks.normalize" pages.length
      return if pages.isEmpty then [[]] else pages.map Text.normalize :
        TreeAction (List Text)).result tree = (tree, .finished (pages.map Text.normalize)) := by
    rw [result_bind_of_finished (result_checkTimes _ _ tree), if_neg (by simpa using hne)]
    rfl
  unfold Reading.pages
  rcases hpages with hpages | ⟨hnone, hdirect⟩
  · rw [result_bind_of_finished hpages]
    exact hlast
  · rw [result_bind_of_finished hnone]
    exact (result_bind_of_finished hdirect).trans hlast

/-- The pages of a text file after its folder got an index are those before,
stripped and cleaned again. -/
theorem Index.Makes.result_pages (hmakes : Index.Makes readers root tree tree' found)
    (hsound : tree.Sound)
    (hunindexed : Index.Unindexed tree root) (hfile : tree.node? path.parts = some (.file content))
    (hinFolder : root.parts <+: path.parts) (hkind : path.kind? = none)
    (hpages : pagesOfText linesPerPage content.plainText = .ok pages) (readers' : Readers) :
    ((path.child Index.directoryName).fits = false ∧
      ∃ e, (Reading.pages readers' linesPerPage path).result tree = (tree, .failed e) ∧
        (Reading.pages readers' linesPerPage path).result tree' = (tree', .failed e)) ∨
      (Reading.pages readers' linesPerPage path).result tree =
          (tree, .finished (pages.map Text.normalize)) ∧
        (Reading.pages readers' linesPerPage path).result tree' =
          (tree', .finished ((pages.map Text.normalize).map
            fun page => Text.normalize (Text.strip page))) := by
  have hne : root.parts ≠ path.parts := by
    intro hsame
    have hdirectory := hmakes.isDirectory
    unfold isDirectory? at hdirectory
    rw [hsound.test_entry (hsame ▸ hfile) rfl] at hdirectory
    split at hdirectory <;> cases hdirectory
  have hfolder := hsound.directory_above hfile hinFolder hne
  have hdocument : Index.DocumentAt tree root path := by
    refine ⟨hinFolder, fun hbelow => ?_, content, hfile⟩
    by_cases hsame : root.parts ++ [Index.directoryName] = path.parts
    · obtain ⟨begun, hbegun, -⟩ := hmakes.exists_begun
      cases (hsound.makeDirectory_entry (hsame ▸ hfile) rfl hbegun).1
    · exact hunindexed.noneInside _ (List.prefix_refl _)
        (hsound.directory_above hfile hbelow hsame)
  have hstored := hmakes.stored hsound hfolder hunindexed.noLink
  have hkept := hstored.kept hunindexed.clear
  have hfits := hstored.fits_document hdocument
  have hread := hsound.read_file hfile hfits
  cases hshort : (path.child Index.directoryName).fits with
  | false =>
    exact .inl ⟨rfl, _, result_bind_of_failed (Index.result_filePages?_refused
      (hsound.named_of_node? hfile) (hsound.resolve_entry hfile rfl) hfits hshort),
      result_bind_of_failed (hstored.result_filePages?_refused hkept hdocument hshort)⟩
  | true =>
    have hpagesNe : pages ≠ [] := by
      obtain ⟨cut, hcut, hne⟩ := exists_pagesOfText content.plainText
      rw [hpages] at hcut
      cases hcut
      exact hne
    obtain ⟨found, hfound, hanswers⟩ := hstored.answers_document hkept hdocument
    rw [Index.result_extract_text readers hkind hread hpages] at hfound
    cases hfound
    have hafter := hanswers.resolve_right fun hlong => by simp [hshort] at hlong
    rw [ending_run_none] at hafter
    refine .inr ⟨Reading.result_pages hpagesNe (.inr
      ⟨hunindexed.result_filePages? hsound hfolder hfile hinFolder hshort,
        Reading.result_directPages readers' hkind hread hpages⟩), ?_⟩
    rw [Reading.result_pages (by simpa using hpagesNe) (.inl (Prod.ext
      ((Index.calm_filePages? path).state_result tree') hafter)), List.map_map, List.map_map]
    simp only [Function.comp_def]

end Reading

namespace File

/-! ## Questions about the text of a file -/

section Questions

variable {file : File} {s : Setting}

theorem result_pages {shelf : Shelf} (hunread : shelf.pagesRead? file.id = none) :
    (file.pages s).result shelf = Ending.andThen (fun shelf pages =>
        (shelf.keepPages file.id pages, .finished pages))
        (Shelf.onTree (Reading.pages s.readers linesPerPage file.path) |>.result shelf) := by
  unfold File.pages File.pagesOf
  rw [result_bind_of_finished (result_check _ shelf), result_bind_of_finished (result_get shelf),
    hunread]
  exact result_bind _ _ shelf

theorem ending_pages {handles : Array Handle}
    (hunread : Shelf.pagesRead? ⟨tree, handles⟩ file.id = none) :
    ((file.pages s).run none ⟨tree, handles⟩).ending =
      ((Reading.pages s.readers linesPerPage file.path).result tree).2 := by
  rw [ending_run_none, result_pages hunread, Shelf.onTree, result_within]
  dsimp only
  cases ((Reading.pages s.readers linesPerPage file.path).result tree).2 <;> rfl

theorem stateless_choosePages (file : File) (total : Nat) (chosen : List Numeral)
    (pages : List (Option Numeral)) : (file.choosePages total chosen pages).Stateless := by
  induction pages generalizing chosen with
  | nil => exact stateless_pure _
  | cons page pages ih =>
    unfold choosePages
    refine (stateless_check _).bind fun _ => ?_
    split
    · exact stateless_throw _
    · have hrest : ∀ page : Numeral, (if chosen.any (·.value == page.value) then
          file.choosePages total chosen pages
          else file.choosePages total (page :: chosen) pages).Stateless := by
        intro page
        split <;> exact ih _
      dsimp only
      split
      · split
        · exact (stateless_throw _).bind fun _ =>
            (stateless_throw _).bind fun _ => hrest _
        · exact (stateless_throw _).bind fun _ => hrest _
      · exact hrest _

theorem stateless_snippetsOf (pattern : Pattern) (context limit number : Nat) (pages : List Text) :
    (snippetsOf pattern context limit number pages).Stateless := by
  induction pages generalizing limit number with
  | nil => exact stateless_pure _
  | cons page pages ih =>
    unfold snippetsOf
    refine (stateless_check _).bind fun _ => ?_
    dsimp only
    split
    · exact stateless_pure _
    · exact (ih _ _).bind fun _ => stateless_pure _

/-- Two shelves on which a file answers every question about its text in the
same way. -/
structure ReadsAlike (file : File) (s : Setting) (a b : Shelf) : Prop where
  read : ∀ choice, ((file.read s choice).run none a).ending =
    ((file.read s choice).run none b).ending
  search : ∀ pattern, ((file.search s pattern).run none a).ending =
    ((file.search s pattern).run none b).ending
  contains : ∀ pattern, ((Directory.contentMatches s pattern file).run none a).ending =
      ((Directory.contentMatches s pattern file).run none b).ending
  head : ((file.head s).run none a).ending = ((file.head s).run none b).ending
  tail : ((file.tail s).run none a).ending = ((file.tail s).run none b).ending
  snippets : ∀ pattern limit context, ((file.snippets s pattern limit context).run none a).ending =
      ((file.snippets s pattern limit context).run none b).ending

theorem readsAlike_of_pages {a b : Shelf} (hpages : ((file.pages s).run none a).ending =
      ((file.pages s).run none b).ending) : file.ReadsAlike s a b := by
  rw [ending_run_none, ending_run_none] at hpages
  have hsearch : ∀ pattern, ((file.search s pattern).result a).2 =
      ((file.search s pattern).result b).2 := fun pattern =>
    ending_bind_congr hpages fun pages =>
      (stateless_checkTimes _ _).bind fun _ => stateless_pure _
  have hchecked : ∀ {α β : Type} {c : ShelfAction α} (phase : Phase) (f : α → ShelfAction β),
      (c.result a).2 = (c.result b).2 → (∀ v, (f v).Stateless) →
      ((Action.check phase >>= fun _ => c >>= f).run none a).ending =
        ((Action.check phase >>= fun _ => c >>= f).run none b).ending := by
    intro α β c phase f hc hf
    rw [ending_run_none, ending_run_none, result_bind_of_finished (result_check phase a),
      result_bind_of_finished (result_check phase b)]
    exact ending_bind_congr hc hf
  constructor
  · intro choice
    refine hchecked "file.read" _ hpages fun pages => ?_
    split
    · exact stateless_pure _
    · exact (stateless_check _).bind fun _ =>
        (file.stateless_choosePages _ _ _).bind fun _ => stateless_pure _
    · exact (stateless_check _).bind fun _ =>
        (file.stateless_choosePages _ _ _).bind fun _ => stateless_pure _
    · exact (stateless_check _).bind fun _ => stateless_throw _
  · intro pattern
    rw [ending_run_none, ending_run_none]
    exact hsearch pattern
  · exact fun pattern => hchecked "file.search" _ (hsearch pattern) fun _ => stateless_pure _
  · exact hchecked "file.head" _ hpages fun _ => stateless_pure _
  · exact hchecked "file.tail" _ hpages fun _ => stateless_pure _
  · intro pattern limit context
    rw [ending_run_none, ending_run_none]
    exact ending_bind_congr hpages (stateless_snippetsOf pattern context limit 1)

end Questions

end File

namespace Note

theorem unindexed_treeOf (t : Text) : Index.Unindexed (treeOf t) folder := by
  refine ⟨(Index.clear_treeOf t).linkFree, fun place hplace => ?_, fun above habove => ?_⟩
  · by_cases hfolder : place = folder.parts
    · rw [hfolder]
      exact nofun
    · exact (Index.clear_treeOf t).noOther place hplace hfolder
  · have hshort : above = [] ∨ above = ["docs"] := by
      simpa [folder, List.prefix_cons_iff] using habove
    rcases hshort with rfl | rfl <;> rfl

theorem ending_pages {t page : Text}
    (hpages : pagesOfText linesPerPage (Text.unixNewlines t) = .ok [page]) :
    (∃ summary, ((Index.prepare setting.readers folder).run none
        (treeOf t)).ending = .finished summary ∧ summary.folder = folder) ∧
      ((file.pages setting).run none (before t)).ending = .finished [Text.normalize page] ∧
      ((file.pages setting).run none (after t)).ending =
        .finished [Text.normalize (Text.strip (Text.normalize page))] := by
  obtain ⟨tree', found, hmakes⟩ := exists_makes setting.readers hpages
  have hfolder : (treeOf t).node? folder.parts = some .directory := rfl
  have hfile : (treeOf t).node? path.parts = some (.file (.text t)) := rfl
  have hresult := Index.prepare_eq_finished_iff.mpr ⟨folder, found, rfl,
    (sound_treeOf t).resolve_entry hfolder rfl, rfl, hmakes, rfl⟩
  have hstate : ((Index.prepare setting.readers folder).run none (treeOf t)).state = tree' := by
    rw [state_run_none, hresult]
  have hbefore : ((file.pages setting).run none (before t)).ending = _ := File.ending_pages rfl
  have hafter : ((file.pages setting).run none (after t)).ending = _ := File.ending_pages rfl
  rw [hstate] at hafter
  refine ⟨⟨_, by rw [ending_run_none, hresult], rfl⟩, ?_⟩
  rcases hmakes.result_pages (sound_treeOf t) (unindexed_treeOf t) hfile
      (by decide) (by decide) hpages setting.readers with
    ⟨hlong, -⟩ | ⟨htree, htree'⟩
  · exact absurd hlong (by decide)
  · rw [hbefore, hafter]
    exact ⟨congrArg Prod.snd htree, congrArg Prod.snd htree'⟩

end Note

end Folio
