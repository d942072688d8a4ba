import Folio.Proofs.StoredIndex

/-!
# Listing a directory through an index

An index lists a directory by the paths that its records have in writing, and the
file system by the entries it has.  For the folder of the index and every
directory below it both give the same files in the same order, as long as the
documents are those the index was made from.  The files of the index itself are in
the second list only.

A path in writing belongs to a directory exactly if its parts do, since no part
has a slash in it.
-/

namespace Folio

open Action

/-! ## Paths in writing -/

section Writing

variable {separator : Char}

theorem splitAll_go_pieces (piece : Text) (pieces : List Text) (t : Text) :
    Text.splitAll.go separator piece pieces t =
      pieces.reverse ++ Text.splitAll.go separator piece [] t := by
  induction t generalizing piece pieces with
  | nil => simp [Text.splitAll.go]
  | cons c t ih =>
    unfold Text.splitAll.go
    split
    · rw [ih [] (piece.reverse :: pieces), ih [] [piece.reverse]]
      simp
    · exact ih (c :: piece) pieces

theorem splitAll_append (t rest : Text) : Text.splitAll separator (t ++ separator :: rest) =
      Text.splitAll separator t ++ Text.splitAll separator rest := by
  have hgo : ∀ piece : Text, Text.splitAll.go separator piece [] (t ++ separator :: rest) =
        Text.splitAll.go separator piece [] t ++ Text.splitAll.go separator [] [] rest := by
    induction t with
    | nil =>
      intro piece
      change (if separator == separator then _ else _) = _
      rw [if_pos (by simp), splitAll_go_pieces]
      rfl
    | cons c t ih =>
      intro piece
      rw [List.cons_append, Text.splitAll.go, Text.splitAll.go]
      split
      · rw [splitAll_go_pieces, ih, splitAll_go_pieces [] [piece.reverse] t, List.append_assoc]
      · exact ih (c :: piece)
  exact hgo []

theorem splitAll_ne_nil (t : Text) : Text.splitAll separator t ≠ [] := by
  have hgo : ∀ piece, Text.splitAll.go separator piece [] t ≠ [] := by
    induction t with
    | nil => simp [Text.splitAll.go]
    | cons c t ih =>
      intro piece
      unfold Text.splitAll.go
      split
      · rw [splitAll_go_pieces]
        simp
      · exact ih (c :: piece)
  exact hgo []

theorem joinWith_append (separator : Text) {first second : List Text} (hfirst : first ≠ [])
    (hsecond : second ≠ []) : Text.joinWith separator (first ++ second) =
      Text.joinWith separator first ++ separator ++ Text.joinWith separator second := by
  unfold Text.joinWith
  induction first with
  | nil => exact absurd rfl hfirst
  | cons t first ih =>
    rw [List.cons_append, List.intercalate_cons_of_ne_nil (by simp [hsecond])]
    by_cases hnil : first = []
    · simp [hnil]
    · rw [ih hnil, List.intercalate_cons_of_ne_nil hnil]
      simp

end Writing

namespace Index

def folderText (parts : List Name) : Text :=
  if WrittenPath.text ⟨false, parts⟩ == ['.'] then []
  else WrittenPath.text ⟨false, parts⟩

section Folder

variable {parts rest : List Name}

theorem folderText_nil : folderText [] = [] := rfl

theorem folderText_of_ne_nil (hne : parts ≠ []) (hplain : ∀ name ∈ parts, Name.Plain name) :
    folderText parts = Text.joinWith ['/'] (parts.map String.toList) ∧ folderText parts ≠ [] := by
  have htext : WrittenPath.text ⟨false, parts⟩ = Text.joinWith ['/'] (parts.map String.toList) := by
    unfold WrittenPath.text
    simp [hne]
  have hback := WrittenPath.ofText_text hplain
  have hdot : WrittenPath.text ⟨false, parts⟩ ≠ ['.'] := by
    intro hdot
    rw [hdot] at hback
    exact hne (congrArg WrittenPath.parts hback).symm
  have hnil : WrittenPath.text ⟨false, parts⟩ ≠ [] := by
    intro hnil
    rw [hnil] at hback
    exact hne (congrArg WrittenPath.parts hback).symm
  unfold folderText
  rw [beq_eq_false_iff_ne.mpr hdot]
  exact ⟨htext, hnil⟩

theorem splitAll_folderText (hne : parts ≠ []) (hplain : ∀ name ∈ parts, Name.Plain name) :
    Text.splitAll '/' (folderText parts) = parts.map String.toList := by
  rw [(folderText_of_ne_nil hne hplain).1]
  refine splitAll_joinWith (by simpa using hne) fun part hpart => ?_
  obtain ⟨name, hname, rfl⟩ := List.mem_map.mp hpart
  exact (hplain name hname).noSlash

theorem map_toList_injective :
    Function.Injective (List.map String.toList : List Name → List Text) :=
  List.map_injective_iff.mpr fun _ _ hsame => String.toList_inj.mp hsame

theorem folderText_inj (hparts : ∀ name ∈ parts, Name.Plain name)
    (hrest : ∀ name ∈ rest, Name.Plain name)
    (hsame : folderText parts = folderText rest) : parts = rest := by
  by_cases hp : parts = []
  · by_cases hr : rest = []
    · rw [hp, hr]
    · rw [hp, folderText_nil] at hsame
      exact absurd hsame.symm (folderText_of_ne_nil hr hrest).2
  · by_cases hr : rest = []
    · rw [hr, folderText_nil] at hsame
      exact absurd hsame (folderText_of_ne_nil hp hparts).2
    · have hlists := congrArg (Text.splitAll '/') hsame
      rw [splitAll_folderText hp hparts, splitAll_folderText hr hrest] at hlists
      exact map_toList_injective hlists

theorem text_inj {p q : Path} (hp : ∀ name ∈ p.parts, Name.Plain name)
    (hq : ∀ name ∈ q.parts, Name.Plain name) (hsame : p.text = q.text) : p = q := by
  have htext : ∀ r : Path, (∀ name ∈ r.parts, Name.Plain name) →
      r.text = '/' :: folderText r.parts := by
    intro r hr
    by_cases hne : r.parts = []
    · rw [hne, folderText_nil, Path.text, hne]
      rfl
    · rw [(folderText_of_ne_nil hne hr).1]
      rfl
  rw [htext p hp, htext q hq, List.cons_inj_right] at hsame
  exact congrArg Path.mk (folderText_inj hp hq hsame)

theorem text_of_ne_nil (hne : rest ≠ []) (hplain : ∀ name ∈ rest, Name.Plain name) :
    WrittenPath.text ⟨false, rest⟩ = folderText rest := by
  rw [(folderText_of_ne_nil hne hplain).1]
  unfold WrittenPath.text
  simp [hne]

/-- A path in writing starts with a directory and a slash exactly if it goes on
from the directory. -/
theorem isInFolder_below_iff (hparts : ∀ name ∈ parts, Name.Plain name)
    (hrest : ∀ name ∈ rest, Name.Plain name) (hne : rest ≠ []) :
    isInFolder true (folderText parts) (WrittenPath.text ⟨false, rest⟩) = true ↔
      parts <+: rest ∧ parts ≠ rest := by
  rw [text_of_ne_nil hne hrest]
  unfold isInFolder
  rw [if_pos rfl]
  by_cases hp : parts = []
  · subst hp
    simpa [folderText_nil] using hne.symm
  · have hsome : (folderText parts).isEmpty = false := by
      simpa using (folderText_of_ne_nil hp hparts).2
    rw [hsome, Bool.false_or, List.isPrefixOf_iff_prefix]
    constructor
    · rintro ⟨more, hmore⟩
      rw [List.append_assoc, List.singleton_append] at hmore
      have hlists := congrArg (Text.splitAll '/') hmore
      rw [splitAll_append, splitAll_folderText hp hparts, splitAll_folderText hne hrest] at hlists
      have hlonger := List.length_pos_of_ne_nil (splitAll_ne_nil more : Text.splitAll '/' more ≠ [])
      have hlength := congrArg List.length hlists
      rw [List.length_append, List.length_map, List.length_map] at hlength
      refine ⟨?_, ?_⟩
      · rw [List.prefix_iff_eq_take]
        refine map_toList_injective ?_
        rw [List.map_take, ← hlists, List.take_append_of_le_length (by simp)]
        simp
      · rintro rfl
        omega
    · rintro ⟨⟨more, rfl⟩, hmore⟩
      have hmoreNe : more ≠ [] := by
        rintro rfl
        simp at hmore
      rw [(folderText_of_ne_nil hne hrest).1, List.map_append, joinWith_append _ (by simpa using hp)
        (by simpa using hmoreNe), ← (folderText_of_ne_nil hp hparts).1]
      exact List.prefix_append _ _

theorem parentFolder_text (hrest : ∀ name ∈ rest, Name.Plain name) :
    parentFolder (WrittenPath.text ⟨false, rest⟩) = folderText rest.dropLast := by
  unfold parentFolder
  rw [WrittenPath.ofText_text hrest]
  rfl

theorem isInFolder_flat_iff (hparts : ∀ name ∈ parts, Name.Plain name)
    (hrest : ∀ name ∈ rest, Name.Plain name) :
    isInFolder false (folderText parts) (WrittenPath.text ⟨false, rest⟩) =
      true ↔ rest.dropLast = parts := by
  unfold isInFolder
  rw [if_neg (by decide), parentFolder_text hrest, beq_iff_eq]
  constructor
  · exact folderText_inj (fun name hname =>
      hrest name (List.mem_of_mem_dropLast hname)) hparts
  · rintro rfl
    rfl

end Folder

/-! ## The paths that an index lists -/

def InDirectory ( recursive : Bool) (directory path : Path) : Prop :=
  if recursive then
    directory.parts <+: path.parts ∧ directory.parts ≠ path.parts
  else path.parts.dropLast = directory.parts ∧ path.parts ≠ []

section Listing

variable {root directory path : Path}

theorem InDirectory.isPrefix { recursive : Bool} (hin : InDirectory recursive directory path) :
    directory.parts <+: path.parts := by
  unfold InDirectory at hin
  split at hin
  · exact hin.1
  · rw [← hin.1]
    exact List.dropLast_prefix _

theorem folder_ofRoot : (Position.ofRoot root directory).folder =
      folderText (directory.parts.drop root.parts.length) := rfl

/-- The path in writing of something in the folder of an index tells in which
directory of the folder it is. -/
theorem isInFolder_inside_iff ( recursive : Bool) (hdirectory : root.parts <+: directory.parts)
    (hpath : root.parts <+: path.parts) (hne : root.parts ≠ path.parts)
    (hdirectoryPlain : ∀ name ∈ directory.parts, Name.Plain name)
    (hpathPlain : ∀ name ∈ path.parts, Name.Plain name) :
    isInFolder recursive (Position.ofRoot root directory).folder (path.inside root) = true ↔
      InDirectory recursive directory path := by
  obtain ⟨parts, hparts⟩ := hdirectory
  obtain ⟨rest, hrest⟩ := hpath
  have hrestNe : rest ≠ [] := by
    rintro rfl
    exact hne (by simpa using hrest)
  have hpartsPlain : ∀ name ∈ parts, Name.Plain name := fun name hname =>
    hdirectoryPlain name (by simp [← hparts, hname])
  have hrestPlain : ∀ name ∈ rest, Name.Plain name := fun name hname =>
    hpathPlain name (by simp [← hrest, hname])
  rw [folder_ofRoot]
  unfold Path.inside InDirectory
  rw [← hparts, ← hrest, List.drop_left, List.drop_left]
  cases recursive with
  | true =>
    rw [isInFolder_below_iff hpartsPlain hrestPlain hrestNe, if_pos rfl,
      List.prefix_append_right_inj, Ne, Ne, List.append_cancel_left_eq]
  | false =>
    rw [isInFolder_flat_iff hpartsPlain hrestPlain, if_neg (by decide),
      List.dropLast_append_of_ne_nil hrestNe, List.append_cancel_left_eq]
    simp [hrestNe]

theorem documentPath_inside (hpath : root.parts <+: path.parts)
    (hplain : ∀ name ∈ path.parts, Name.Plain name) :
    documentPath root (path.inside root) = path := by
  obtain ⟨rest, hrest⟩ := hpath
  have hrestPlain : ∀ name ∈ rest, Name.Plain name := fun name hname =>
    hplain name (by simp [← hrest, hname])
  unfold documentPath Path.inside
  rw [← hrest, List.drop_left, WrittenPath.ofText_text hrestPlain]
  exact congrArg Path.mk hrest

end Listing

section Listed

variable {readers : Readers} {root directory path : Path} {tree tree' later : FileTree}
  {found : List (Option (List (Record × Text)))}

/-- The paths in a directory that the records of an index have. -/
def listedPaths (records : List Record) (position : Position)
    ( recursive : Bool) : List Path :=
  (pagesByPath records).filterMap fun (path, _) =>
    if isInFolder recursive position.folder path then
      some (documentPath position.root path)
    else none

theorem result_directoryPaths?_of_position {position : Position} {records : List Record}
    ( recursive : Bool) (hposition : (position? directory).result later =
      (later, .finished (some position)))
    (hisFile : later.isFile? (recordsFile position.db) = .ok true)
    (hread : later.read (recordsFile position.db) = .ok (.text (recordsText records)))
    (hjson : ∀ r ∈ records, Json.Stored (.object r.fields)) :
    (directoryPaths? directory recursive).result later = (later, .finished (some
        (Path.sortDistinct (listedPaths records position recursive)))) := by
  unfold directoryPaths?
  rw [result_bind_of_finished hposition]
  refine (result_bind_of_finished (TreeAction.ask_eq_finished_iff.mpr ⟨rfl, hisFile⟩)).trans ?_
  refine (result_bind_of_finished (result_loadCatalogue hisFile hread hjson)).trans ?_
  exact result_bind_of_finished (result_checkTimes _ _ later)

theorem Stored.mem_listedPaths_iff
    (hstored : Stored readers root tree tree' found) ( recursive : Bool)
    (hdirectory : root.parts <+: directory.parts)
    (hplain : ∀ name ∈ directory.parts, Name.Plain name) :
    path ∈ listedPaths (recordsOf found) (Position.ofRoot root directory) recursive ↔
      DocumentAt tree root path ∧ InDirectory recursive directory path := by
  have hin : ∀ document, DocumentAt tree root document →
      (isInFolder recursive (Position.ofRoot root directory).folder (document.inside root) = true ↔
        InDirectory recursive directory document) ∧
      documentPath root (document.inside root) = document := by
    intro document hdocument
    obtain ⟨content, hfile⟩ := hdocument.isFile
    have hnames : ∀ name ∈ document.parts, Name.Plain name := fun name hname =>
      (hstored.sound.named_of_node? hfile name hname).toPlain
    have hne : root.parts ≠ document.parts := by
      intro hsame
      rw [← hsame, hstored.folder] at hfile
      cases hfile
    exact ⟨isInFolder_inside_iff recursive hdirectory hdocument.inFolder hne
      hplain hnames, documentPath_inside hdocument.inFolder hnames⟩
  unfold listedPaths
  simp only [List.mem_filterMap, Option.ite_none_right_eq_some, Option.some.injEq, Prod.exists]
  constructor
  · rintro ⟨t, pages, hpages, hfolder, rfl⟩
    obtain ⟨document, hdocument, rfl⟩ := hstored.exists_record_iff.mp
      (exists_mem_pagesByPath_iff.mp ⟨pages, hpages⟩)
    obtain ⟨hinFolder, hpath⟩ := hin document hdocument
    change DocumentAt tree root (documentPath root _) ∧
      InDirectory recursive directory (documentPath root _)
    rw [hpath]
    exact ⟨hdocument, hinFolder.mp hfolder⟩
  · rintro ⟨hdocument, hinDirectory⟩
    obtain ⟨hinFolder, hpath⟩ := hin path hdocument
    obtain ⟨pages, hpages⟩ := exists_mem_pagesByPath_iff.mpr
      (hstored.exists_record_iff.mpr ⟨path, hdocument, rfl⟩)
    exact ⟨_, pages, hpages, hinFolder.mpr hinDirectory, hpath⟩

/-! ## The paths that the file system lists -/

def isFileAt (tree : FileTree) (path : Path) : Bool :=
  match tree.node? path.parts with
  | some (.file _) => true
  | _ => false

theorem isFileAt_iff : isFileAt tree path = true ↔
      ∃ content, tree.node? path.parts = some (.file content) := by
  unfold isFileAt
  split
  · rename_i content hfile
    simp [hfile]
  · rename_i hother
    simp only [Bool.false_eq_true, false_iff, not_exists]
    exact hother

def entriesIn (tree : FileTree) ( recursive : Bool) (directory : Path) :
    List Path :=
  if recursive then tree.below directory else tree.children directory

theorem children_directory (hsound : tree.Sound)
    (hdirectory : tree.node? directory.parts = some .directory) (hfits : directory.fits = true) :
    tree.children directory = (tree.names directory.parts).map directory.child := by
  unfold FileTree.children
  rw [hsound.locate_directory hdirectory hfits]

theorem mem_entriesIn_iff (hsound : tree.Sound) ( recursive : Bool)
    (hdirectory : tree.node? directory.parts = some .directory) (hfits : directory.fits = true) :
    path ∈ entriesIn tree recursive directory ↔ (∃ node, tree.node? path.parts = some node) ∧
        InDirectory recursive directory path := by
  unfold entriesIn InDirectory
  cases recursive with
  | true => rw [if_pos rfl, if_pos rfl, hsound.mem_below_iff hdirectory hfits, ne_comm]
  | false =>
    rw [if_neg (by decide), if_neg (by decide), children_directory hsound hdirectory hfits,
      List.mem_map]
    constructor
    · rintro ⟨name, hname, rfl⟩
      exact ⟨hsound.mem_names_iff.mp hname, by simp [Path.child], by simp [Path.child]⟩
    · rintro ⟨hnode, hparent, hne⟩
      have hparts : directory.parts ++ [path.parts.getLast hne] = path.parts := by
        rw [← hparent, List.dropLast_append_getLast]
      rw [← hparts] at hnode
      exact ⟨_, hsound.mem_names_iff.mpr hnode, congrArg Path.mk hparts⟩

theorem nodup_entriesIn (hsound : tree.Sound) ( recursive : Bool)
    (hdirectory : tree.node? directory.parts = some .directory) (hfits : directory.fits = true) :
    (entriesIn tree recursive directory).Nodup := by
  unfold entriesIn
  split
  · exact hsound.nodup_below directory
  · rw [children_directory hsound hdirectory hfits]
    refine (hsound.nodup_names _).map fun a b hsame => ?_
    simpa [Path.child] using hsame

theorem isFile?_eq_isFileAt (hsound : tree.Sound) {node : Node}
    (hnode : tree.node? path.parts = some node) (hlink : node.isLink = false)
    (hfits : path.fits = true) : tree.isFile? path = .ok (isFileAt tree path) := by
  unfold FileTree.isFile? isFileAt
  rw [hsound.test_entry hnode hlink, if_pos hfits, hnode]
  cases node <;> rfl

theorem result_walkedPaths ( recursive : Bool)
    (hentries : ∀ entry ∈ entriesIn tree recursive directory,
      tree.isFile? entry = .ok (isFileAt tree entry)) :
    (Directory.walkedPaths directory recursive).result tree = (tree, .finished (Path.sort
        ((entriesIn tree recursive directory).filter (isFileAt tree)))) := by
  let answer : Path → Option Path := fun entry =>
    if isFileAt tree entry then some entry else none
  have hasked : ∀ (phase : Phase) (entries : List Path),
      (∀ entry ∈ entries, tree.isFile? entry = .ok (isFileAt tree entry)) →
      (Action.mapList (fun entry => do
        Action.check phase
        if ← TreeAction.ask (·.isFile? entry) then return some entry
        return none) entries : TreeAction _).result tree =
          (tree, .finished (entries.map answer)) := by
    intro phase entries hentries
    refine result_mapList_of_forall₂ ?_
    rw [List.forall₂_map_right_iff, List.forall₂_same]
    intro entry hentry
    rw [result_bind_of_finished (result_check _ tree),
      result_bind_of_finished (TreeAction.ask_eq_finished_iff.mpr ⟨rfl, hentries entry hentry⟩)]
    unfold answer
    cases isFileAt tree entry <;> rfl
  unfold Directory.walkedPaths
  rw [result_bind_of_finished (result_get tree)]
  refine (result_bind_of_finished (hasked _ _ hentries)).trans ?_
  have hfiles : ((entriesIn tree recursive directory).map answer).filterMap (fun entry => entry) =
        (entriesIn tree recursive directory).filter (isFileAt tree) := by
    rw [List.filterMap_map, ← List.filterMap_eq_filter]
    rfl
  rw [← hfiles]
  rfl

theorem result_walkedPaths_of_fits (hsound : tree.Sound) (hfree : tree.LinkFree directory.parts)
    ( recursive : Bool) (hdirectory : tree.node? directory.parts = some .directory)
    (hfits : ∀ (path : Path) (node : Node), directory.parts <+: path.parts →
      tree.node? path.parts = some node → path.fits = true) :
    (Directory.walkedPaths directory recursive).result tree = (tree, .finished (Path.sort
        ((entriesIn tree recursive directory).filter (isFileAt tree)))) := by
  refine result_walkedPaths recursive fun entry hentry => ?_
  obtain ⟨⟨node, hnode⟩, hin⟩ := (mem_entriesIn_iff hsound recursive hdirectory
    (hfits directory _ (List.prefix_refl _) hdirectory)).mp hentry
  exact isFile?_eq_isFileAt hsound hnode (hfree.isLink_eq_false hnode hin.isPrefix)
    (hfits entry node hin.isPrefix hnode)

theorem Stored.fits_result (hstored : Stored readers root tree tree' found)
    (hfree : tree'.LinkFree root.parts) {node : Node} (hnode : tree'.node? path.parts = some node)
    (hbelow : root.parts <+: path.parts) : path.fits = true := by
  have hlink := hfree.isLink_eq_false hnode hbelow
  by_cases hfile : ∃ file ∈ filesOf found, path.parts = root.parts ++ [directoryName] ++ [file.1]
  · obtain ⟨file, hmem, hparts⟩ := hfile
    have hpath : path = (root.child directoryName).child file.1 := congrArg Path.mk hparts
    exact hpath ▸ hstored.filesFit file hmem
  · rw [hstored.result, node?_putFiles_of_ne fun file hmem hsame =>
      hfile ⟨file, hmem, hsame⟩] at hnode
    exact hstored.fits_of_node? hnode hlink hbelow

theorem Stored.document_result_iff (hstored : Stored readers root tree tree' found) :
    DocumentAt tree' root path ↔ DocumentAt tree root path := by
  constructor
  · rintro ⟨hbelow, hindex, hfile⟩
    rw [hstored.node?_result hindex] at hfile
    exact ⟨hbelow, hindex, hfile⟩
  · rintro ⟨hbelow, hindex, hfile⟩
    rw [← hstored.node?_result hindex] at hfile
    exact ⟨hbelow, hindex, hfile⟩

theorem isDirectory?_child (hsound : tree.Sound)
    (hdirectory : tree.node? directory.parts = some .directory)
    (hdb : tree.node? (directory.parts ++ [directoryName]) = none ∨
      ∃ content, tree.node? (directory.parts ++ [directoryName]) = some (.file content)) :
    tree.isDirectory? (directory.child directoryName) =
      if (directory.child directoryName).fits then .ok false
      else .error ⟨.nameTooLong, (directory.child directoryName).text⟩ := by
  rcases hdb with hnone | ⟨content, hfile⟩
  · exact hsound.test_missing hdirectory proper_directoryName hnone _
  · exact hsound.test_entry hfile rfl _

theorem Kept.result_directoryPaths?_refused (hkept : Kept tree' later root) ( recursive : Bool)
    (hdbFits : (root.child directoryName).fits = true) (hbelow : root.parts <+: directory.parts)
    (hdirectory : later.node? directory.parts = some .directory)
    (hlong : (directory.child directoryName).fits = false) :
    (directoryPaths? directory recursive).result later = (later, .failed (.failure (.system
        ⟨.nameTooLong, (directory.child directoryName).text⟩))) := by
  have hne : directory.parts ≠ root.parts := by
    intro hsame
    have hpath : directory = root := congrArg Path.mk hsame
    rw [hpath, hdbFits] at hlong
    cases hlong
  have hdb : later.node? (directory.parts ++ [directoryName]) = none ∨
      ∃ content, later.node? (directory.parts ++ [directoryName]) = some (.file content) := by
    cases hnode : later.node? (directory.parts ++ [directoryName]) with
    | none => exact .inl rfl
    | some node =>
      cases node with
      | file content => exact .inr ⟨content, rfl⟩
      | directory => exact absurd hnode (hkept.clear.noOther _ hbelow hne)
      | link target =>
        exact absurd hnode (hkept.clear.linkFree _ target (hbelow.trans (List.prefix_append _ _)))
  have hasked := isDirectory?_child hkept.sound hdirectory hdb
  rw [if_neg (by simp [hlong])] at hasked
  exact result_bind_of_failed (result_position?_refused
    (hkept.sound.named_of_node? hdirectory) (hkept.sound.resolve_entry hdirectory rfl) hasked)

/-- A directory is listed from the index as it is listed from the file system,
without the files of the index. -/
theorem Stored.sortDistinct_listedPaths
    (hstored : Stored readers root tree tree' found) (hsound : later.Sound)
    (hsame : ∀ path, DocumentAt later root path ↔ DocumentAt tree root path)
    (hbelow : root.parts <+: directory.parts)
    (hdirectory : later.node? directory.parts = some .directory) (hfits : directory.fits = true)
    ( recursive : Bool) :
    Path.sortDistinct (listedPaths (recordsOf found) (Position.ofRoot root directory) recursive) =
      (Path.sort ((entriesIn later recursive directory).filter (isFileAt later))).filter
          fun p => !p.isWithin (root.child directoryName) := by
  have hplain : ∀ name ∈ directory.parts, Name.Plain name := fun name hname =>
    (hsound.named_of_node? hdirectory name hname).toPlain
  have hmem : ∀ path, path ∈ (Path.sort ((entriesIn later recursive
      directory).filter (isFileAt later))).filter
        (fun p => !p.isWithin (root.child directoryName)) ↔
      DocumentAt tree root path ∧ InDirectory recursive directory path := by
    intro path
    have hwithin : (!path.isWithin (root.child directoryName)) = true ↔
        ¬ root.parts ++ [directoryName] <+: path.parts := by
      rw [Bool.not_eq_true', ← Bool.not_eq_true, Path.isWithin, List.isPrefixOf_iff_prefix]
      rfl
    rw [List.mem_filter, Path.sort, List.mem_mergeSort, List.mem_filter,
      mem_entriesIn_iff hsound recursive hdirectory hfits, isFileAt_iff, hwithin, ← hsame]
    constructor
    · rintro ⟨⟨⟨-, hpath⟩, hfile⟩, hindex⟩
      exact ⟨⟨hbelow.trans hpath.isPrefix, hindex, hfile⟩, hpath⟩
    · rintro ⟨⟨-, hindex, content, hfile⟩, hpath⟩
      exact ⟨⟨⟨⟨_, hfile⟩, hpath⟩, content, hfile⟩, hindex⟩
  refine eq_of_pairwise_key (pairwise_mergeSort_key Path.text _)
    ((pairwise_mergeSort_key Path.text _).filter _) ?_ ?_
  · -- Documents with the same writing are the same.
    intro p hp q hq
    have hnames : ∀ {r}, r ∈ Path.sortDistinct (listedPaths (recordsOf found)
        (Position.ofRoot root directory) recursive) → ∀ name ∈ r.parts, Name.Plain name := by
      intro r hr name hname
      unfold Path.sortDistinct Path.sort at hr
      rw [List.mem_mergeSort, List.mem_eraseDups,
        hstored.mem_listedPaths_iff recursive hbelow hplain] at hr
      obtain ⟨content, hfile⟩ := hr.1.isFile
      exact (hstored.sound.named_of_node? hfile name hname).toPlain
    exact text_inj (hnames hp) (hnames hq)
  · refine (List.perm_ext_iff_of_nodup ?_ ?_).mpr fun path => ?_
    · exact (List.mergeSort_perm _ _).nodup_iff.mpr (nodup_eraseDups _)
    · refine List.Nodup.filter _ ((List.mergeSort_perm _ _).nodup_iff.mpr ?_)
      exact (nodup_entriesIn hsound recursive hdirectory hfits).filter _
    · rw [hmem path, Path.sortDistinct, Path.sort, List.mem_mergeSort, List.mem_eraseDups,
        hstored.mem_listedPaths_iff recursive hbelow hplain]

end Listed

/-- The documents in a directory are listed in the same order by the index of a
folder above it and by the file system, as long as they are the documents the
index was made from.  Only if the path of the directory is too long to look for an
index in it does the index refuse. -/
theorem directoryPaths_walkedPaths {tree : FileTree} (hsound : tree.Sound)
    {readers : Readers} {folder : Path} {allowance : Allowance}
    {summary : Summary}
    (hmade : ((prepare readers folder).run allowance tree).ending =
      .finished summary)
    (hfolder : tree.node? summary.folder.parts = some .directory)
    (hclear : Clear tree summary.folder) {later : FileTree}
    (hkept : Kept ((prepare readers folder).run allowance tree).state later
      summary.folder)
    (hsame : ∀ path, DocumentAt later summary.folder path ↔
      DocumentAt tree summary.folder path)
    {directory : Path} (hwithin : directory.isWithin summary.folder = true)
    (hdirectory : later.node? directory.parts = some .directory)
    (hnew : ∀ (path : Path) (node : Node), directory.parts <+: path.parts →
      later.node? path.parts = some node →
      ((prepare readers folder).run allowance tree).state.node? path.parts =
        none → path.fits = true)
    ( recursive : Bool) :
    ∃ listed,
      ((Directory.walkedPaths directory recursive).run none later).ending =
        .finished listed ∧ listed.Nodup ∧
      if (directory.child directoryName).fits then
        ((directoryPaths? directory recursive).run none later).ending =
          .finished (some (listed.filter fun path =>
            !path.isWithin (summary.folder.child directoryName)))
      else
        ((directoryPaths? directory recursive).run none later).ending =
          .failed (.failure (.system
            ⟨.nameTooLong, (directory.child directoryName).text⟩)) := by
  have hresult := Action.result_of_run hmade
  generalize ((prepare readers folder).run allowance tree).state = tree' at *
  obtain ⟨root, found, -, -, -, hmakes, rfl⟩ :=
    prepare_eq_finished_iff.mp hresult
  have hstored := hmakes.stored hsound hfolder hclear.linkFree
  have hbelow : root.parts <+: directory.parts :=
    List.isPrefixOf_iff_prefix.mp hwithin
  have hreach : ∀ (path : Path) (node : Node),
      directory.parts <+: path.parts → later.node? path.parts = some node →
      path.fits = true := by
    intro path node hpath hnode
    cases hold : tree'.node? path.parts with
    | none => exact hnew path node hpath hnode hold
    | some old =>
        exact hstored.fits_result (hstored.clear hclear).linkFree hold
          (hbelow.trans hpath)
  have hfits : directory.fits = true :=
    hreach directory _ (List.prefix_refl _) hdirectory
  have hwalked := result_walkedPaths_of_fits hkept.sound
    (hkept.clear.linkFree.below hbelow) recursive hdirectory hreach
  refine ⟨_, by rw [Action.ending_run_none, hwalked], ?_, ?_⟩
  · refine (List.mergeSort_perm _ _).nodup_iff.mpr ?_
    exact (nodup_entriesIn hkept.sound recursive hdirectory hfits).filter _
  · rw [Action.ending_run_none]
    obtain ⟨hdbFits, hisFile, hread, hjson⟩ := hstored.records_later hkept
    have hnamed := hkept.sound.named_of_node? hdirectory
    split
    · rename_i hshort
      rcases hkept.result_position? hstored.node?_db hdbFits hbelow hnamed with
        hposition | ⟨hlong, -⟩
      · rw [result_directoryPaths?_of_position recursive hposition hisFile hread
          hjson, hstored.sortDistinct_listedPaths hkept.sound hsame hbelow
            hdirectory hfits recursive]
      · rw [hshort] at hlong
        cases hlong
    · rename_i hlong
      rw [hkept.result_directoryPaths?_refused recursive hdbFits hbelow
        hdirectory (Bool.eq_false_of_not_eq_true hlong)]

/-- The folder with a note is listed with and without its index. -/
theorem note_listed_alike :
    (∃ summary, ((prepare Note.setting.readers Note.folder).run none
        (Note.treeOf ['b'])).ending = .finished summary) ∧
      ∃ listed, ((Directory.walkedPaths Note.folder true).run none
          (Note.after ['b']).tree).ending = .finished listed ∧
        ((directoryPaths? Note.folder true).run none
            (Note.after ['b']).tree).ending =
          .finished (some (listed.filter fun path =>
            !path.isWithin (Note.folder.child directoryName))) := by
  have hpages : pagesOfText linesPerPage (Text.unixNewlines ['b']) =
      .ok [['b']] := by rfl
  obtain ⟨summary, found, hmade, hfolder, hstored⟩ := stored_note hpages
  have hkept : Kept ((prepare Note.setting.readers Note.folder).run none
      (Note.treeOf ['b'])).state (Note.after ['b']).tree summary.folder := by
    rw [hfolder]
    exact hstored.kept (clear_treeOf ['b'])
  have hdirectory : (Note.after ['b']).tree.node? Note.folder.parts =
      some .directory :=
    hkept.sound.directory_above hstored.node?_db (List.prefix_append _ _)
      (by simp)
  have hnew : ∀ (path : Path) (node : Node),
      Note.folder.parts <+: path.parts →
      (Note.after ['b']).tree.node? path.parts = some node →
      (Note.after ['b']).tree.node? path.parts = none → path.fits = true := by
    intro path node _ hnode hnone
    rw [hnone] at hnode
    cases hnode
  obtain ⟨listed, hwalked, -, hindex⟩ := directoryPaths_walkedPaths
    (Note.sound_treeOf ['b']) hmade (by rw [hfolder]; rfl)
    (hfolder ▸ clear_treeOf ['b']) hkept
    (fun path => hfolder ▸ hstored.document_result_iff)
    (by rw [hfolder]; decide) hdirectory hnew true
  rw [if_pos (by decide), hfolder] at hindex
  exact ⟨⟨summary, hmade⟩, listed, hwalked, hindex⟩

/-- A directory far down is listed by the file system, but its index is not
found. -/
theorem far_directory_refused :
    (∃ summary, ((prepare Far.readers Far.folder).run none Far.tree).ending =
        .finished summary ∧ summary.folder = Far.folder) ∧
      Clear Far.tree Far.folder ∧ Kept Far.after Far.after Far.folder ∧
      (∀ path, DocumentAt Far.after Far.folder path ↔
        DocumentAt Far.tree Far.folder path) ∧
      Far.directory.isWithin Far.folder = true ∧
      Far.after.node? Far.directory.parts = some .directory ∧
      (∃ listed, ((Directory.walkedPaths Far.directory true).run none
        Far.after).ending = .finished listed) ∧
      ∃ e, ((directoryPaths? Far.directory true).run none Far.after).ending =
        .failed e := by
  obtain ⟨summary, found, hmade, hfolder, hstored⟩ := Far.stored_tree
  have hkept := hstored.kept Far.clear_tree
  have hbelow : Far.folder.parts <+: Far.directory.parts := ⟨_, rfl⟩
  have houtside : ¬ Far.folder.parts ++ [directoryName] <+:
      Far.path.parts := fun hin =>
    Far.directoryName_notMem (hin.subset (by simp))
  have hdirectory : Far.after.node? Far.directory.parts = some .directory := by
    refine hkept.sound.directory_above
      ((hstored.node?_result houtside).trans Far.node?_path)
      (List.prefix_append _ _) ?_
    simp [Far.path, Path.child]
  have hfits : ∀ (path : Path) (node : Node),
      Far.directory.parts <+: path.parts →
      Far.after.node? path.parts = some node → path.fits = true := by
    intro path node hpath hnode
    exact hstored.fits_result hkept.clear.linkFree hnode (hbelow.trans hpath)
  refine ⟨⟨summary, hmade, hfolder⟩, Far.clear_tree, hkept,
    fun path => hstored.document_result_iff,
    List.isPrefixOf_iff_prefix.mpr hbelow, hdirectory, ?_, ?_⟩
  · rw [Action.ending_run_none, result_walkedPaths_of_fits hkept.sound
      (hkept.clear.linkFree.below hbelow) true hdirectory hfits]
    exact ⟨_, rfl⟩
  · obtain ⟨hdbFits, -⟩ := hstored.records_later hkept
    rw [Action.ending_run_none, hkept.result_directoryPaths?_refused true hdbFits
      hbelow hdirectory (Far.fits_below (List.prefix_refl _))]
    exact ⟨_, rfl⟩

end Index

end Folio
