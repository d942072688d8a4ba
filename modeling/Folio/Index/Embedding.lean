import Folio.Course
import Folio.Digest
import Folio.Text.Case
import Std.Data.HashMap

/-!
# Embeddings

A text is represented by how often its words fall into each of 256 buckets, scaled to length one. The
bucket of a word in lower case is its digest, read as a number, modulo the number of buckets; it is
looked up once for all texts.
-/

namespace Folio.Index

def dimension : Nat := 256

abbrev Embedding := List Float

def words (t : Text) : List Text :=
  go [] [] t
where
  go (word : Text) (done : List Text) : Text → List Text
    | [] => (if word.isEmpty then done else word.reverse :: done).reverse
    | c :: rest =>
      if Text.isWord c then go (c :: word) done rest
      else go [] (if word.isEmpty then done else word.reverse :: done) rest

def bucket (word : Text) : Nat :=
  (Digest.eight (String.ofList word).toUTF8.toList).foldl (fun n b => 256 * n + b.toNat) 0
    % dimension

def tokens (t : Text) : List Text :=
  words (Text.lower t)

def histogram (buckets : List Nat) : Embedding :=
  (List.range dimension).map fun b => Nat.repeat (· + 1.0) (buckets.count b) 0.0

def dot (a b : Embedding) : Float :=
  (List.zipWith (· * ·) a b).foldl (· + ·) 0.0

def scaled (v : Embedding) : Embedding :=
  let length := (dot v v).sqrt
  if length > 0.0 then v.map (· / length) else v

def embed (t : Text) : Embedding :=
  scaled (histogram ((tokens t).map bucket))

abbrev Buckets := @Std.HashMap Text Nat _ (@instHashableList Char instHashableChar)

def Buckets.recall (seen : Buckets) (word : Text) : Nat × Buckets :=
  match seen[word]? with
  | some b => (b, seen)
  | none => (bucket word, seen.insert word (bucket word))

def countWord (counted : Embedding × Buckets) (word : Text) : Embedding × Buckets :=
  let (b, seen) := counted.2.recall word
  (counted.1.modify b (· + 1.0), seen)

def embedNext (seen : Buckets) (t : Text) : Embedding × Buckets :=
  let (counts, seen) := (tokens t).foldl countWord (List.replicate dimension 0.0, seen)
  (scaled counts, seen)

def tokensPerCheck : Nat := 128

def embedFrom {σ ε : Type} (seen : Buckets) : List Text → Action σ ε (List Embedding)
  | [] => return []
  | t :: rest => do
    Action.check "semantic.encode.text"
    Action.checkTimes "semantic.encode.token"
      (((tokens t).length + tokensPerCheck - 1) / tokensPerCheck)
    let (vector, seen) := embedNext seen t
    return vector :: (← embedFrom seen rest)

/-- The vectors of texts, with a checkpoint for each text and for every 128 of its words. -/
def embedAll {σ ε : Type} (texts : List Text) : Action σ ε (List Embedding) :=
  embedFrom ∅ texts

end Folio.Index
