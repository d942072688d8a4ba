import Folio.Text.Basic

/-!
# Reading bytes as text

Bytes are read as UTF-8. A part that is no character is either reported with its place and the
reason, or replaced by one replacement character for each longest part that could have begun one.
-/

namespace Folio.Text.Utf8

inductive Reason where
  | start
  | continuation
  | ended
deriving DecidableEq, Repr

def Reason.message : Reason → String
  | .start => "invalid start byte"
  | .continuation => "invalid continuation byte"
  | .ended => "unexpected end of data"

inductive Step where
  | char (c : Char) (width : Nat)
  | bad (reason : Reason) (width : Nat)

def isContinuation (b : Nat) : Bool :=
  0x80 ≤ b && b < 0xC0

/-- May `second` follow `first` at the start of a character of three or four bytes? -/
def secondFits (first second : Nat) : Bool :=
  isContinuation second
    && (first != 0xE0 || 0xA0 ≤ second) && (first != 0xED || second < 0xA0)
    && (first != 0xF0 || 0x90 ≤ second) && (first != 0xF4 || second < 0x90)

def step (first : Nat) (rest : List Nat) : Step :=
  if first < 0x80 then .char (Char.ofNat first) 1
  else if first < 0xC2 || 0xF4 < first then .bad .start 1
  else if first < 0xE0 then
    match rest with
    | second :: _ =>
      if isContinuation second then .char (Char.ofNat ((first - 0xC0) * 64 + (second - 0x80))) 2
      else .bad .continuation 1
    | [] => .bad .ended 1
  else if first < 0xF0 then
    match rest with
    | second :: third :: _ =>
      if !secondFits first second then .bad .continuation 1
      else if !isContinuation third then .bad .continuation 2
      else .char (Char.ofNat
        (((first - 0xE0) * 64 + (second - 0x80)) * 64 + (third - 0x80))) 3
    | [second] => if secondFits first second then .bad .ended 2 else .bad .continuation 1
    | [] => .bad .ended 1
  else
    match rest with
    | second :: third :: fourth :: _ =>
      if !secondFits first second then .bad .continuation 1
      else if !isContinuation third then .bad .continuation 2
      else if !isContinuation fourth then .bad .continuation 3
      else .char (Char.ofNat
        ((((first - 0xF0) * 64 + (second - 0x80)) * 64 + (third - 0x80)) * 64
          + (fourth - 0x80))) 4
    | [second, third] =>
      if !secondFits first second then .bad .continuation 1
      else if !isContinuation third then .bad .continuation 2
      else .bad .ended 3
    | [second] => if secondFits first second then .bad .ended 2 else .bad .continuation 1
    | [] => .bad .ended 1

structure Flaw where
  byte : Nat
  start : Nat
  stop : Nat
  reason : Reason

def hexByte (b : Nat) : String :=
  String.ofList (Nat.toDigits 16 (b / 16) ++ Nat.toDigits 16 (b % 16))

def Flaw.message (flaw : Flaw) : String :=
  let place :=
    if flaw.stop == flaw.start + 1 then
      "byte 0x" ++ hexByte flaw.byte ++ " in position " ++ toString flaw.start
    else
      "bytes in position " ++ toString flaw.start ++ "-" ++ toString (flaw.stop - 1)
  "'utf-8' codec can't decode " ++ place ++ ": " ++ flaw.reason.message

/-- Reads bytes, with the flaws in the order they are met and a replacement character for each. The
first argument counts bytes that belong to a part that has been read already. -/
def read (skip place : Nat) (done : Text) (flaws : List Flaw) : List Nat → Text × List Flaw
  | [] => (done.reverse, flaws.reverse)
  | first :: rest =>
    match skip with
    | skip + 1 => read skip (place + 1) done flaws rest
    | 0 =>
      match step first rest with
      | .char c width => read (width - 1) (place + 1) (c :: done) flaws rest
      | .bad reason width =>
        read (width - 1) (place + 1) ('\uFFFD' :: done)
          ({ byte := first, start := place, stop := place + width, reason } :: flaws) rest

def decode (bytes : List UInt8) : Text :=
  (read 0 0 [] [] (bytes.map UInt8.toNat)).1

def decodeStrict (bytes : List UInt8) : Except Flaw Text :=
  match read 0 0 [] [] (bytes.map UInt8.toNat) with
  | (t, []) => .ok t
  | (_, flaw :: _) => .error flaw

end Folio.Text.Utf8
