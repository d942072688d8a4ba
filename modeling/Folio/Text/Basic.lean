import Folio.Text.CharClass

/-!
# Text

Text is a list of characters: cutting off blanks, cutting into lines and pieces, and looking for one
text in another.
-/

namespace Folio

abbrev Text := List Char

namespace Text

def stripStart (drop : Char → Bool) (t : Text) : Text :=
  t.dropWhile drop

def stripEnd (drop : Char → Bool) (t : Text) : Text :=
  (t.reverse.dropWhile drop).reverse

def stripBy (drop : Char → Bool) (t : Text) : Text :=
  stripEnd drop (stripStart drop t)

def strip (t : Text) : Text :=
  stripBy isSpace t

def isBlank (t : Text) : Bool :=
  t.all isSpace

def joinWith (separator : Text) (pieces : List Text) : Text :=
  separator.intercalate pieces

/-- The lines of a text, without their ends. A carriage return and the newline after it end one
line together; text after the last end is a line of its own unless it is empty. -/
def splitLines (t : Text) : List Text :=
  go [] [] t
where
  go (line : Text) (lines : List Text) : Text → List Text
    | [] => (if line.isEmpty then lines else line.reverse :: lines).reverse
    | '\r' :: '\n' :: rest => go [] (line.reverse :: lines) rest
    | c :: rest =>
      if isLineEnd c then go [] (line.reverse :: lines) rest
      else go (c :: line) lines rest

def unixNewlines (t : Text) : Text :=
  go [] t
where
  go (done : Text) : Text → Text
    | [] => done.reverse
    | '\r' :: '\n' :: rest => go ('\n' :: done) rest
    | c :: rest => go ((if c == '\r' then '\n' else c) :: done) rest

/-- The first position, counted from `at`, where `needle` stands in the text. -/
def findFrom? (needle : Text) (i : Nat) : Text → Option Nat
  | [] => if needle.isEmpty then some i else none
  | c :: rest =>
    if needle.isPrefixOf (c :: rest) then some i else findFrom? needle (i + 1) rest

def find? (needle t : Text) : Option Nat :=
  findFrom? needle 0 t

def hasInfix (needle t : Text) : Bool :=
  (find? needle t).isSome

def slice (t : Text) (start stop : Nat) : Text :=
  (t.drop start).take (stop - start)

/-- The pieces between non-overlapping occurrences of a separator that is not empty, at most
`limit` cuts from the left if there is a limit. -/
def splitOn (separator : Text) (limit : Option Nat) (t : Text) : List Text :=
  go 0 limit [] [] t
where
  go (skip : Nat) (limit : Option Nat) (piece : Text) (pieces : List Text) : Text → List Text
    | [] => (piece.reverse :: pieces).reverse
    | c :: rest =>
      match skip with
      | skip + 1 => go skip limit piece pieces rest
      | 0 =>
        if limit != some 0 && separator.isPrefixOf (c :: rest) then
          go (separator.length - 1) (limit.map (· - 1)) [] (piece.reverse :: pieces) rest
        else go 0 limit (c :: piece) pieces rest

/-- The words between runs of blanks, at most `limit` cuts from the left if there is a limit; what
is left after the last cut keeps its blanks except at its start. -/
def splitBlanks (limit : Option Nat) (t : Text) : List Text :=
  go t.length limit [] (t.dropWhile isSpace)
where
  go : Nat → Option Nat → List Text → Text → List Text
    | 0, _, words, _ => words.reverse
    | fuel + 1, limit, words, t =>
      match t with
      | [] => words.reverse
      | c :: rest =>
        if limit == some 0 then ((c :: rest) :: words).reverse
        else
          let (word, after) := (c :: rest).span fun c => !isSpace c
          go fuel (limit.map (· - 1)) (word :: words) (after.dropWhile isSpace)

/-- Writes `new` for the non-overlapping occurrences of `old`, from the left and at most `limit` of
them if there is a limit. An empty `old` stands between any two characters and at both ends. -/
def replace (old new : Text) (limit : Option Nat) (t : Text) : Text :=
  if old.isEmpty then
    if limit == some 0 then t else new ++ interleave (limit.map (· - 1)) t
  else joinWith new (splitOn old limit t)
where
  interleave (limit : Option Nat) (t : Text) : Text :=
    match limit with
    | none => t.flatMap fun c => c :: new
    | some k => ((t.take k).flatMap fun c => c :: new) ++ t.drop k

def count (needle t : Text) : Nat :=
  if needle.isEmpty then t.length + 1 else (splitOn needle none t).length - 1

def ofNat (n : Nat) : Text :=
  (Nat.toDigits 10 n)

def ofInt (n : Int) : Text :=
  if n < 0 then '-' :: ofNat n.natAbs else ofNat n.natAbs

def padLeft (fill : Char) (width : Nat) (t : Text) : Text :=
  List.replicate (width - t.length) fill ++ t

end Text

end Folio
