import Folio.Decimal.Digits
import Folio.Text.Quoted

/-!
# Json values

Whole numbers are kept apart from decimals. An object keeps its fields in the order in which their
keys first came.
-/

namespace Folio

inductive Json where
  | null
  | bool (b : Bool)
  | int (n : Int)
  | float (x : Float)
  | string (t : Text)
  | array (items : List Json)
  | object (fields : List (Text × Json))

namespace Json

def setField (fields : List (Text × Json)) (key : Text) (value : Json) : List (Text × Json) :=
  if fields.any (·.1 == key) then
    fields.map fun (k, v) => if k == key then (k, value) else (k, v)
  else fields ++ [(key, value)]

def ofPairs (pairs : List (Text × Json)) : Json :=
  .object (pairs.foldl (fun fields (key, value) => setField fields key value) [])

def field? (key : String) : Json → Option Json
  | .object fields => fields.lookup key.toList
  | _ => none

/-- How a character is written inside a string. Beyond ASCII it is escaped only if `ascii` is set,
as one or two units of sixteen bits. -/
def escapeChar (ascii : Bool) (c : Char) : Text :=
  let n := c.toNat
  let unit (k : Nat) : Text := '\\' :: 'u' :: Text.hexPadded 4 k
  if c == '"' || c == '\\' then ['\\', c]
  else if c == '\n' then ['\\', 'n']
  else if c == '\r' then ['\\', 'r']
  else if c == '\t' then ['\\', 't']
  else if n == 12 then ['\\', 'f']
  else if n == 8 then ['\\', 'b']
  else if n < 32 then unit n
  else if n < 127 || !ascii then [c]
  else if n < 0x10000 then unit n
  else unit (0xD800 + (n - 0x10000) / 0x400) ++ unit (0xDC00 + (n - 0x10000) % 0x400)

def quote (ascii : Bool) (t : Text) : Text :=
  '"' :: t.flatMap (escapeChar ascii) ++ ['"']

def floatText (x : Float) : Text :=
  match Decimal.parts x with
  | .nan => "NaN".toList
  | .infinite false => "Infinity".toList
  | .infinite true => "-Infinity".toList
  | .finite _ _ => Decimal.floatText x

mutual

def render (ascii : Bool) : Json → Text
  | .null => "null".toList
  | .bool true => "true".toList
  | .bool false => "false".toList
  | .int n => Text.ofInt n
  | .float x => floatText x
  | .string t => quote ascii t
  | .array items => '[' :: renderItems ascii true items ++ [']']
  | .object fields => '{' :: renderFields ascii true fields ++ ['}']

def renderItems (ascii : Bool) (first : Bool) : List Json → Text
  | [] => []
  | item :: rest =>
    (if first then [] else [',', ' ']) ++ render ascii item ++ renderItems ascii false rest

def renderFields (ascii : Bool) (first : Bool) : List (Text × Json) → Text
  | [] => []
  | (key, value) :: rest =>
    (if first then [] else [',', ' ']) ++ quote ascii key ++ [':', ' '] ++ render ascii value
      ++ renderFields ascii false rest

end

mutual

def shownInside : Json → Text
  | .null => "None".toList
  | .bool true => "True".toList
  | .bool false => "False".toList
  | .int n => Text.ofInt n
  | .float x => Decimal.floatText x
  | .string t => Text.quoted t
  | .array items => '[' :: shownItems true items ++ [']']
  | .object fields => '{' :: shownFields true fields ++ ['}']

def shownItems (first : Bool) : List Json → Text
  | [] => []
  | item :: rest => (if first then [] else [',', ' ']) ++ shownInside item ++ shownItems false rest

def shownFields (first : Bool) : List (Text × Json) → Text
  | [] => []
  | (key, value) :: rest =>
    (if first then [] else [',', ' ']) ++ Text.quoted key ++ [':', ' '] ++ shownInside value
      ++ shownFields false rest

end

def typeName : Json → String
  | .null => "NoneType"
  | .bool _ => "bool"
  | .int _ => "int"
  | .float _ => "float"
  | .string _ => "str"
  | .array _ => "list"
  | .object _ => "dict"

def shown : Json → Text
  | .string t => t
  | value => shownInside value

end Json

end Folio
