import Folio.Text.Basic

/-!
# Xml

A reader for the markup inside packed documents. It keeps of each element its local name, the text
before its first child, and its children. Markup that is not well formed is refused as a whole.
-/

namespace Folio.Xml

inductive Element where
  | node (name : Text) (text : Text) (children : List Element)

def isXmlBlank (c : Char) : Bool :=
  c == ' ' || c == '\t' || c == '\n' || c == '\r'

def isNameChar (c : Char) : Bool :=
  !isXmlBlank c && !"<>/=\"'&!?;".toList.contains c

def cutAt? (mark : Text) (t : Text) : Option (Text × Text) :=
  (Text.find? mark t).map fun i => (t.take i, t.drop (i + mark.length))

def referenceChar? (name : Text) : Option Char :=
  match String.ofList name with
  | "amp" => some '&'
  | "lt" => some '<'
  | "gt" => some '>'
  | "quot" => some '"'
  | "apos" => some '\''
  | _ =>
    let code (base : Nat) (digits : Text) : Option Char :=
      let value := digits.foldl (fun n c => base * n + Text.hexDigitValue c) 0
      let fits := digits.all fun c => c.isDigit || (base == 16
        && (('a' ≤ c ∧ c ≤ 'f') || ('A' ≤ c ∧ c ≤ 'F')))
      if digits.isEmpty || !fits || value == 0 || 0x10FFFF < value
          || (0xD800 ≤ value && value < 0xE000) then none
      else some (Char.ofNat value)
    match name with
    | '#' :: 'x' :: digits => code 16 digits
    | '#' :: digits => code 10 digits
    | _ => none

def unescape? : Nat → Text → Option Text
  | 0, t => if t.isEmpty then some [] else none
  | _ + 1, [] => some []
  | fuel + 1, c :: rest =>
    if c == '&' then do
      let (name, rest) ← cutAt? [';'] rest
      let char ← referenceChar? name
      return char :: (← unescape? fuel rest)
    else do
      return c :: (← unescape? fuel rest)

def attributes? : Nat → Text → Option (List (Text × Text) × Text)
  | 0, _ => none
  | fuel + 1, t =>
    let t := t.dropWhile isXmlBlank
    match t with
    | '>' :: _ => some ([], t)
    | '/' :: '>' :: _ => some ([], t)
    | _ => do
      let (name, rest) := t.span isNameChar
      if name.isEmpty then failure
      match rest.dropWhile isXmlBlank with
      | '=' :: rest =>
        match rest.dropWhile isXmlBlank with
        | quote :: rest =>
          if quote != '"' && quote != '\'' then failure
          let (raw, rest) ← cutAt? [quote] rest
          let value ← unescape? (raw.length + 1) raw
          let (more, rest) ← attributes? fuel rest
          return ((name, value) :: more, rest)
        | [] => failure
      | _ => failure

/-- The name without what stands before its colon, which has to be one of the declared names. -/
def localName? (declared : List Text) (name : Text) : Option Text :=
  match cutAt? [':'] name with
  | none => some name
  | some (space, localPart) =>
    if declared.contains space && !localPart.isEmpty then some localPart else none

def declaredBy (attributes : List (Text × Text)) : List Text :=
  attributes.filterMap fun (name, _) =>
    match cutAt? [':'] name with
    | some (space, localPart) => if space == "xmlns".toList then some localPart else none
    | none => none

/-- An element that is open; its children so far come last first. -/
structure Open where
  written : Text
  localName : Text
  declared : List Text
  text : Text
  children : List Element

def Open.close (o : Open) : Element :=
  .node o.localName o.text o.children.reverse

structure Builder where
  stack : List Open
  root : Option Element

def Builder.addText? (b : Builder) (t : Text) : Option Builder :=
  match b.stack with
  | [] => if t.all isXmlBlank then some b else none
  | top :: rest =>
    if top.children.isEmpty then some { b with stack := { top with text := top.text ++ t } :: rest }
    else some b

def Builder.close (b : Builder) : Builder :=
  match b.stack with
  | [] => b
  | [top] => ⟨[], some top.close⟩
  | top :: parent :: rest =>
    { b with stack := { parent with children := top.close :: parent.children } :: rest }

def Builder.open? (b : Builder) (written : Text) (attributes : List (Text × Text)) :
    Option Builder := do
  if b.stack.isEmpty && b.root.isSome then failure
  let outer := match b.stack with
    | top :: _ => top.declared
    | [] => ["xml".toList]
  let declared := declaredBy attributes ++ outer
  let localName ← localName? declared written
  return { b with stack := ⟨written, localName, declared, [], []⟩ :: b.stack }

def build? : Nat → Builder → Text → Option Builder
  | 0, b, t => if t.isEmpty then some b else none
  | _ + 1, b, [] => some b
  | fuel + 1, b, c :: rest =>
    if c != '<' then do
      let (raw, rest) := (c :: rest).span (· != '<')
      let t ← unescape? (raw.length + 1) raw
      build? fuel (← b.addText? t) rest
    else
      match rest with
      | '?' :: rest => do
        let (_, rest) ← cutAt? "?>".toList rest
        build? fuel b rest
      | '!' :: '-' :: '-' :: rest => do
        let (_, rest) ← cutAt? "-->".toList rest
        build? fuel b rest
      | '!' :: rest =>
        match cutAt? "[CDATA[".toList rest with
        | some ([], rest) => do
          let (t, rest) ← cutAt? "]]>".toList rest
          if b.stack.isEmpty then failure
          build? fuel (← b.addText? t) rest
        | _ => do
          if !b.stack.isEmpty || b.root.isSome then failure
          let (_, rest) ← cutAt? ['>'] rest
          build? fuel b rest
      | '/' :: rest => do
        let (name, rest) := rest.span isNameChar
        match b.stack, rest.dropWhile isXmlBlank with
        | top :: _, '>' :: rest =>
          if top.written != name then failure
          build? fuel b.close rest
        | _, _ => failure
      | _ => do
        let (name, rest) := rest.span isNameChar
        if name.isEmpty then failure
        let (attributes, rest) ← attributes? (rest.length + 1) rest
        let b ← b.open? name attributes
        match rest with
        | '/' :: '>' :: rest => build? fuel b.close rest
        | '>' :: rest => build? fuel b rest
        | _ => failure

def parse? (t : Text) : Option Element := do
  let t := Text.unixNewlines t
  let b ← build? (t.length + 1) ⟨[], none⟩ t
  if !b.stack.isEmpty then failure
  b.root

mutual

def Element.texts (wanted : Text) : Element → List Text
  | .node name text children =>
    (if name == wanted then [text] else []) ++ textsOfAll wanted children

def textsOfAll (wanted : Text) : List Element → List Text
  | [] => []
  | e :: rest => e.texts wanted ++ textsOfAll wanted rest

end

def Element.textsBelow (wanted : Text) : Element → List Text
  | .node _ _ children => textsOfAll wanted children

end Folio.Xml
