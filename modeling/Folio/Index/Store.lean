import Folio.Index.Embedding
import Folio.Index.Extract
import Folio.Index.Record

/-!
# The files of the index

The records of a folder, their vectors, a note on how these were made, and a marker live in a hidden
directory of it. Vectors that are missing, damaged, made in another way or not as many as the records
are made again before they are used.
-/

namespace Folio.Index

def directoryName : Name := ".fdsl_faiss"

def recordsFile (db : Path) : Path := db.child "records.json"

def vectorsFile (db : Path) : Path := db.child "vectors.json"

def metaFile (db : Path) : Path := db.child "meta.json"

def markerFile (db : Path) : Path := db.child "pages.faiss"

def markerText : Text := "faiss-index-placeholder".toList

def method : Text := "stable_hash_v1".toList

def metaJson : Json :=
  .object [("embedding_version".toList, .string method), ("embedding_dim".toList, .int dimension)]

def metaText : Text := metaJson.render true

def recordsText (records : List Record) : Text :=
  (Json.array (records.map fun r => .object r.fields)).render false

def vectorsText (vectors : List Embedding) : Text :=
  (Json.array (vectors.map fun v => .array (v.map .float))).render true

def readJson (tree : FileTree) (path : Path) : Except Failure Json :=
  match tree.read path with
  | .error e => .error (.system e)
  | .ok content =>
    match content.strictText with
    | .error e => .error e
    | .ok t =>
      match Json.parse t with
      | .ok value => .ok value
      | .error e => .error (.json t e)

def recordsOf? : Json → Option (List Record)
  | .array items => some (items.filterMap fun item =>
      match item with
      | .object fields => some ⟨fields⟩
      | _ => none)
  | _ => none

def loadRecords (db : Path) : TreeAction (List Record) := do
  if !(← TreeAction.ask (·.isFile? (recordsFile db))) then TreeAction.complain .noCollection
  let value ← TreeAction.ofFailure (readJson (← get) (recordsFile db))
  match recordsOf? value with
  | some records => return records
  | none => TreeAction.complain .recordsCorrupt

def numberOf : Json → Except Failure Float
  | .float x => .ok x
  | .int n =>
    match Decimal.ofInt? n with
    | some x => .ok x
    | none => .error (.operand .intTooLarge)
  | .bool b => .ok (if b then 1.0 else 0.0)
  | .string t =>
    match Decimal.readFloat? t with
    | some x => .ok x
    | none => .error (.item (.notFloat (Text.quoted t)))
  | other => .error (.argument (.floatArgument other.typeName))

def vectorsOf : List Json → Except Failure (List Embedding)
  | [] => .ok []
  | .array items :: rest => do
    let vector ← items.mapM numberOf
    return vector :: (← vectorsOf rest)
  | _ :: rest => vectorsOf rest

def readVectors (tree : FileTree) (db : Path) : Except Fault (List Embedding) :=
  match readJson tree (vectorsFile db) with
  | .error e => .error (.failure e)
  | .ok (.array items) =>
    match vectorsOf items with
    | .ok vectors => .ok vectors
    | .error e => .error (.failure e)
  | .ok _ => .error Complaint.vectorsCorrupt.fault

def isCurrent : Json → Bool
  | .object fields =>
    (match fields.lookup "embedding_version".toList with
      | some (.string t) => t == method
      | _ => false)
    && (match fields.lookup "embedding_dim".toList with
      | some (.int n) => n == dimension
      | _ => false)
  | _ => false

def hasCurrentMeta (db : Path) : TreeAction Bool := do
  if !(← TreeAction.ask (·.isFile? (metaFile db))) then return false
  match readJson (← get) (metaFile db) with
  | .ok value => return isCurrent value
  | .error _ => return false

def rebuildVectors (db : Path) : TreeAction Unit := do
  let records ← loadRecords db
  Action.checkTimes "semantic.rebuild_vectors.record" records.length
  let vectors ← embedAll (records.map Record.searchText)
  TreeAction.write (vectorsFile db) (vectorsText vectors)
  TreeAction.write (metaFile db) metaText

def repairVectors (db : Path) : TreeAction Unit := do
  if !(← TreeAction.ask (·.isFile? (recordsFile db))) then return ()
  if !(← TreeAction.ask (·.isFile? (vectorsFile db))) then rebuildVectors db
  else if !(← hasCurrentMeta db) then rebuildVectors db
  else
    match readVectors (← get) db with
    | .error _ => rebuildVectors db
    | .ok vectors =>
      let records ← loadRecords db
      if vectors.length != records.length then rebuildVectors db

def entriesPerCheck : Nat := 512

def checksFor (entries : Nat) : Nat :=
  (entries + entriesPerCheck - 1) / entriesPerCheck

def loadVectors (db : Path) : TreeAction (List Embedding) := do
  repairVectors db
  if !(← TreeAction.ask (·.isFile? (vectorsFile db))) then TreeAction.complain .noCollection
  let vectors ← Action.ofExcept (readVectors (← get) db)
  Action.checkTimes "semantic.load_vectors" (checksFor vectors.length)
  return vectors

structure Catalogue where
  pages : List (Text × List (Int × Text))
  positions : List (Text × List (Nat × Numeral))

def loadCatalogue (db : Path) : TreeAction Catalogue := do
  let records ← loadRecords db
  let catalogue : Catalogue := ⟨pagesByPath records, positionsByPath records⟩
  Action.checkTimes "semantic.load_records.pages" (checksFor catalogue.pages.length)
  Action.checkTimes "semantic.load_records.positions" (checksFor catalogue.positions.length)
  return catalogue

def writeFiles (db : Path) (records : List Record) (texts : List Text) : TreeAction Unit := do
  let vectors ← embedAll texts
  if records.any Record.isTooLong then throw (.failure .numberTooLong)
  TreeAction.write (recordsFile db) (recordsText records)
  TreeAction.write (vectorsFile db) (vectorsText vectors)
  TreeAction.write (metaFile db) metaText
  TreeAction.write (markerFile db) markerText

def rootCandidates (path : Path) : List Path :=
  path :: path.parent :: path.ancestors

def firstIndexed? : List Path → TreeAction (Option Path)
  | [] => return none
  | candidate :: rest => do
    Action.check "semantic.find_indexed_root"
    if ← TreeAction.ask (·.isDirectory? (candidate.child directoryName)) then
      return some candidate
    firstIndexed? rest

def findRoot? (path : Path) : TreeAction (Option Path) :=
  firstIndexed? (rootCandidates path)

def findRoot (base path : Path) : TreeAction Path := do
  match ← findRoot? path with
  | some root => return root
  | none => TreeAction.complain (.noIndex (← TreeAction.shown base path))

end Folio.Index
