/-!
# Digests

The BLAKE2b digest of a sequence of bytes: blocks of 128 bytes are mixed into a state of eight words
in twelve rounds.
-/

namespace Folio.Digest

def initial : Array UInt64 := #[
  0x6a09e667f3bcc908, 0xbb67ae8584caa73b, 0x3c6ef372fe94f82b, 0xa54ff53a5f1d36f1,
  0x510e527fade682d1, 0x9b05688c2b3e6c1f, 0x1f83d9abfb41bd6b, 0x5be0cd19137e2179]

def schedule : Array (Array Nat) := #[
  #[0, 1, 2, 3, 4, 5, 6, 7, 8, 9, 10, 11, 12, 13, 14, 15],
  #[14, 10, 4, 8, 9, 15, 13, 6, 1, 12, 0, 2, 11, 7, 5, 3],
  #[11, 8, 12, 0, 5, 2, 15, 13, 10, 14, 3, 6, 7, 1, 9, 4],
  #[7, 9, 3, 1, 13, 12, 11, 14, 2, 6, 5, 10, 4, 0, 15, 8],
  #[9, 0, 5, 7, 2, 4, 10, 15, 14, 1, 11, 12, 6, 8, 3, 13],
  #[2, 12, 6, 10, 0, 11, 8, 3, 4, 13, 7, 5, 15, 14, 1, 9],
  #[12, 5, 1, 15, 14, 13, 4, 10, 0, 7, 6, 3, 9, 2, 8, 11],
  #[13, 11, 7, 14, 12, 1, 3, 9, 5, 0, 15, 4, 8, 6, 2, 10],
  #[6, 15, 14, 9, 11, 3, 0, 8, 12, 2, 13, 7, 1, 4, 10, 5],
  #[10, 2, 8, 4, 7, 6, 1, 5, 15, 11, 9, 14, 3, 12, 13, 0]]

def lanes : List (Nat × Nat × Nat × Nat) :=
  [(0, 4, 8, 12), (1, 5, 9, 13), (2, 6, 10, 14), (3, 7, 11, 15),
   (0, 5, 10, 15), (1, 6, 11, 12), (2, 7, 8, 13), (3, 4, 9, 14)]

def rotateRight (x : UInt64) (n : UInt64) : UInt64 :=
  (x >>> n) ||| (x <<< (64 - n))

def mix (v : Array UInt64) (lane : Nat × Nat × Nat × Nat) (x y : UInt64) : Array UInt64 :=
  let (i, j, k, l) := lane
  let a := v.getD i 0 + v.getD j 0 + x
  let d := rotateRight (v.getD l 0 ^^^ a) 32
  let c := v.getD k 0 + d
  let b := rotateRight (v.getD j 0 ^^^ c) 24
  let a := a + b + y
  let d := rotateRight (d ^^^ a) 16
  let c := c + d
  let b := rotateRight (b ^^^ c) 63
  (((v.setIfInBounds i a).setIfInBounds j b).setIfInBounds k c).setIfInBounds l d

def round (block v : Array UInt64) (r : Nat) : Array UInt64 :=
  let order := schedule.getD (r % 10) #[]
  lanes.zipIdx.foldl (fun v (lane, i) =>
    mix v lane (block.getD (order.getD (2 * i) 0) 0) (block.getD (order.getD (2 * i + 1) 0) 0)) v

/-- Mixes a block into the state; `count` is the number of bytes up to its end. -/
def compress (state block : Array UInt64) (count : Nat) (last : Bool) : Array UInt64 :=
  let start := state ++ initial
  let start := start.modify 12 (· ^^^ UInt64.ofNat count)
  let start := if last then start.modify 14 (· ^^^ 0xffffffffffffffff) else start
  let v := (List.range 12).foldl (round block) start
  state.mapIdx fun i h => h ^^^ v.getD i 0 ^^^ v.getD (i + 8) 0

def wordOf (bytes : List UInt8) : UInt64 :=
  bytes.foldr (fun b w => (w <<< 8) ||| b.toUInt64) 0

def blockOf (bytes : List UInt8) : Array UInt64 :=
  ((List.range 16).map fun i => wordOf ((bytes.drop (8 * i)).take 8)).toArray

def absorb : Nat → Array UInt64 → Nat → List UInt8 → Array UInt64
  | 0, state, _, _ => state
  | fuel + 1, state, count, bytes =>
    if bytes.length ≤ 128 then compress state (blockOf bytes) (count + bytes.length) true
    else
      absorb fuel (compress state (blockOf (bytes.take 128)) (count + 128) false) (count + 128)
        (bytes.drop 128)

def bytesOf (w : UInt64) : List UInt8 :=
  (List.range 8).map fun i => (w >>> UInt64.ofNat (8 * i)).toUInt8

def eight (message : List UInt8) : List UInt8 :=
  let state := initial.modify 0 (· ^^^ 0x01010008)
  bytesOf ((absorb (message.length + 1) state 0 message).getD 0 0)

end Folio.Digest
