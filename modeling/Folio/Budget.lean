import Folio.Course
import Folio.Decimal.Digits

/-!
# Time limits

The clock moves on by one second with every checkpoint, so a limit of `t` seconds lets the first
`⌊t⌋` checkpoints pass and stops at the next one.
-/

namespace Folio

inductive Timeout where
  | unlimited
  | whole (seconds : Int)
  | fraction (seconds : Float)
  | notNumber

inductive TimeoutFlaw where
  | notNumber
  | negative
  | tooLarge
deriving DecidableEq, Repr

def TimeoutFlaw.message : TimeoutFlaw → Text
  | .notNumber => "timeout_s must be a number or None".toList
  | .negative => "timeout_s must be greater than or equal to 0".toList
  | .tooLarge => "int too large to convert to float".toList

def Timeout.allowance : Timeout → Except TimeoutFlaw Allowance
  | .unlimited => .ok none
  | .notNumber => .error .notNumber
  | .whole seconds =>
    if (Decimal.ofInt? seconds).isNone then .error .tooLarge
    else if seconds < 0 then .error .negative
    else .ok (some seconds.toNat)
  | .fraction seconds =>
    match Decimal.parts seconds with
    | .finite negative m =>
      if negative && m.mantissa != 0 then .error .negative else .ok (some m.floor)
    | .infinite negative => if negative then .error .negative else .ok none
    | .nan => .ok (some 0)

def stopMessage (phase : Phase) (count : Nat) : Text :=
  "Timed out after ".toList ++ Text.ofNat count ++ ".000s in ".toList ++ phase.toList

def checkAgain (phase : Phase) (times : Nat) : Action Unit Empty Unit :=
  Action.checkTimes phase times

end Folio
