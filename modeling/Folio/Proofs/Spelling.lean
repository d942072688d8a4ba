import Folio.Source.Token.Lexer
import Mathlib.Data.List.TakeWhile
import Mathlib.Tactic

/-!
# Spelling out tokens

Lexemes are written with a blank before each of them, strings in double quotes
with the quote, the backslash and the ends of lines escaped.  The lexer reads
the lexemes back from such a text.

Names may use letters of any script.  What is needed of the tables is that no
letter, digit or numeral is a blank and that none of them has a code point below
128 other than the letters and digits of ASCII.
-/

namespace Folio.Source

open Text (isSpace isLineEnd isLetter isDigit isAlphanumeric)

variable {c : Char} {rest : Text}

/-! ## Word characters -/

def wideBlanks : List Nat :=
  [0x85, 0xA0, 0x1680] ++ List.range' 0x2000 11 ++
    [0x2028, 0x2029, 0x202F, 0x205F, 0x3000]

def clearOfBlanks (bound : Nat × Nat) : Bool :=
  decide (128 ≤ bound.1) &&
    wideBlanks.all fun n => decide (n < bound.1) || decide (bound.2 < n)

theorem exists_bound_of_contains {ranges : Text.Ranges} {n : Nat}
    (hcontains : ranges.contains n = true) :
    ∃ bound ∈ ranges.bounds.toList, bound.1 ≤ n ∧ n ≤ bound.2 := by
  unfold Text.Ranges.contains Text.Ranges.find? at hcontains
  split at hcontains
  · rename_i bound hbound
    split at hcontains
    · rename_i hin
      simp only [Bool.and_eq_true, decide_eq_true_eq] at hin
      exact ⟨bound, Array.mem_toList_iff.mpr (Array.mem_of_getElem? hbound), hin⟩
    · simp at hcontains
  · simp at hcontains

theorem not_contains_of_clear {ranges : Text.Ranges} {n : Nat}
    (hclear : ranges.bounds.toList.all clearOfBlanks = true)
    (hn : n < 128 ∨ n ∈ wideBlanks) : ranges.contains n = false := by
  by_contra hcontains
  obtain ⟨bound, hmem, hlow, hhigh⟩ := exists_bound_of_contains (by simpa using hcontains)
  have hbound := List.all_eq_true.mp hclear bound hmem
  simp only [clearOfBlanks, Bool.and_eq_true, decide_eq_true_eq, List.all_eq_true,
    Bool.or_eq_true] at hbound
  rcases hn with hascii | hblank
  · omega
  · have := hbound.2 n hblank
    omega

theorem clear_of_blanks : (Text.letterRanges.bounds.toList.all clearOfBlanks = true ∧
      Text.decimalRanges.bounds.toList.all clearOfBlanks = true) ∧
    Text.otherDigitRanges.bounds.toList.all clearOfBlanks = true ∧
      Text.numeralRanges.bounds.toList.all clearOfBlanks = true := by
  decide +kernel

theorem isDigit_of_ascii (hascii : c.toNat < 128) : isDigit c = c.isDigit := by
  simp [Text.isDigit, Text.isDecimal, hascii,
    not_contains_of_clear clear_of_blanks.2.1 (Or.inl hascii)]

theorem isWordChar_of_ascii (hascii : c.toNat < 128) :
    isWordChar c = (c.isAlpha || c.isDigit || c == '_') := by
  simp [isWordChar, Text.isAlphanumeric, Text.isLetter, isDigit_of_ascii hascii, hascii,
    not_contains_of_clear clear_of_blanks.2.2 (Or.inl hascii)]

theorem charIsAlpha_iff : c.isAlpha = true ↔
      65 ≤ c.toNat ∧ c.toNat ≤ 90 ∨ 97 ≤ c.toNat ∧ c.toNat ≤ 122 := by
  change (decide (65 ≤ c.val ∧ c.val ≤ 90) ||
    (decide (97 ≤ c.val) && decide (c.val ≤ 122))) = true ↔ _
  simp only [Bool.or_eq_true, Bool.and_eq_true, decide_eq_true_eq, UInt32.le_iff_toNat_le]
  rfl

theorem charIsDigit_iff : c.isDigit = true ↔ 48 ≤ c.toNat ∧ c.toNat ≤ 57 := by
  change (decide (48 ≤ c.val) && decide (c.val ≤ 57)) = true ↔ _
  simp only [Bool.and_eq_true, decide_eq_true_eq, UInt32.le_iff_toNat_le]
  rfl

theorem ascii_of_charIsAlpha (halpha : c.isAlpha = true) : c.toNat < 128 := by
  rw [charIsAlpha_iff] at halpha
  omega

theorem isLetter_of_charIsAlpha (halpha : c.isAlpha = true) : isLetter c = true := by
  simp [Text.isLetter, ascii_of_charIsAlpha halpha, halpha]

theorem isWordChar_of_charIsAlpha (halpha : c.isAlpha = true) : isWordChar c = true := by
  rw [isWordChar_of_ascii (ascii_of_charIsAlpha halpha), halpha]
  rfl

theorem isDigit_of_charIsAlpha (halpha : c.isAlpha = true) : isDigit c = false := by
  rw [isDigit_of_ascii (ascii_of_charIsAlpha halpha), Bool.eq_false_iff]
  intro hdigit
  rw [charIsAlpha_iff] at halpha
  rw [charIsDigit_iff] at hdigit
  omega

theorem mem_wideBlanks_of_isSpace (hspace : isSpace c = true)
    (hwide : 128 ≤ c.toNat) : c.toNat ∈ wideBlanks := by
  simp only [Text.isSpace, Bool.or_eq_true, Bool.and_eq_true, decide_eq_true_eq,
    beq_iff_eq] at hspace
  simp only [wideBlanks, List.mem_append, List.mem_cons, List.mem_range'_1, List.not_mem_nil,
    or_false]
  omega

theorem isWordChar_eq_false_of_isSpace (hspace : isSpace c = true) : isWordChar c = false := by
  by_cases hascii : c.toNat < 128
  · rw [isWordChar_of_ascii hascii]
    simp only [Text.isSpace, Bool.or_eq_true, Bool.and_eq_true, decide_eq_true_eq,
      beq_iff_eq] at hspace
    have hcode : c.toNat ≤ 32 := by omega
    have hlow : c ≠ '_' := by
      rintro rfl
      exact absurd hcode (by decide)
    have halpha : c.isAlpha = false := by
      rw [Bool.eq_false_iff, ne_eq, charIsAlpha_iff]
      omega
    have hdigit : c.isDigit = false := by
      rw [Bool.eq_false_iff, ne_eq, charIsDigit_iff]
      omega
    simp [halpha, hdigit, hlow]
  · have hblank := mem_wideBlanks_of_isSpace hspace (by omega)
    have hclear := fun {ranges : Text.Ranges} (h : ranges.bounds.toList.all clearOfBlanks = true) =>
        not_contains_of_clear h (Or.inr hblank)
    have hlow : c ≠ '_' := by
      rintro rfl
      exact hascii (by decide)
    simp [isWordChar, Text.isAlphanumeric, Text.isLetter, Text.isDigit, Text.isDecimal, hascii,
      hclear clear_of_blanks.1.1, hclear clear_of_blanks.1.2, hclear clear_of_blanks.2.1,
      hclear clear_of_blanks.2.2, hlow]

/-! ## Lexemes and their spelling -/

def IsName : Text → Prop
  | [] => False
  | first :: rest =>
    isDigit first = false ∧ (isLetter first = true ∨ first = '_') ∧
      (∀ c ∈ rest, isWordChar c = true) ∧
      Keyword.ofSpelling? (first :: rest) = none

def escape : Char → Text
  | '\\' => ['\\', '\\']
  | '"' => ['\\', '"']
  | '\n' => ['\\', 'n']
  | '\r' => ['\\', 'r']
  | c => [c]

def inQuotes (value : Text) : Text :=
  '"' :: (value.flatMap escape ++ ['"'])

def Keyword.word : Keyword → Text
  | .and => ['a', 'n', 'd']
  | .or => ['o', 'r']
  | .not => ['n', 'o', 't']
  | .isIn => ['i', 'n']
  | .yes => ['T', 'r', 'u', 'e']
  | .no => ['F', 'a', 'l', 's', 'e']

theorem Keyword.isAlpha_of_mem_word (k : Keyword) : ∀ c ∈ k.word, c.isAlpha = true := by
  cases k <;> simp [Keyword.word]

def Lexeme.spelled : Lexeme → Text
  | .number digits => digits
  | .string value => inQuotes value
  | .name word => word
  | .keyword _ word => word
  | .symbol s => s.spelling
  | .finish => []

def Lexeme.Writable : Lexeme → Prop
  | .number digits => digits ≠ [] ∧ ∀ c ∈ digits, c.isDigit = true
  | .string value => ∀ c ∈ value, isLineEnd c = true → c = '\n' ∨ c = '\r'
  | .name word => IsName word
  | .keyword k word => word = k.word
  | .symbol _ => True
  | .finish => False

def spaced (lexemes : List Lexeme) : Text :=
  lexemes.flatMap fun lexeme => ' ' :: lexeme.spelled

def Apart (rest : Text) : Prop :=
  ∀ c, rest.head? = some c → c = ' '

theorem apart_spaced (lexemes : List Lexeme) : Apart (spaced lexemes) := by
  cases lexemes <;> simp [Apart, spaced]

theorem takeWhile_append_of_apart {p : Char → Bool} {word : Text} (hword : ∀ c ∈ word, p c = true)
    (hrest : Apart rest) (hblank : p ' ' = false) : (word ++ rest).takeWhile p = word := by
  rw [List.takeWhile_append_of_pos hword]
  cases rest with
  | nil => simp
  | cons c rest =>
    obtain rfl := hrest c rfl
    simp [hblank]

/-! ## Reading a lexeme back -/

theorem readString_escape (c : Char) (value rest : Text) (used : Nat) :
    readString '"' value used (escape c ++ rest) =
      readString '"' (c :: value) (used + (escape c).length) rest := by
  unfold escape
  split
  · simp [readString, unescape]
  · simp [readString, unescape]
  · simp [readString, unescape]
  · simp [readString, unescape]
  · rename_i hslash hquote _ _
    rw [List.singleton_append, readString]
    · have hother : (c == '"') = false := by simpa using (hquote : c ≠ '"')
      simp [hother]
    · intro h
      exact absurd h hslash
    · intro d more h
      exact absurd h hslash

theorem readString_flatMap (text value rest : Text) (used : Nat) :
    readString '"' value used (text.flatMap escape ++ '"' :: rest) =
      .ok (value.reverse ++ text, used + (text.flatMap escape).length + 1) := by
  induction text generalizing value used with
  | nil => simp [readString]
  | cons c text ih =>
    rw [List.flatMap_cons, List.append_assoc, readString_escape, ih]
    simp [Nat.add_assoc]

theorem ofChar?_eq_none (hword : isLetter c = true ∨ c = '_' ∨ c.isDigit = true) :
    Symbol.ofChar? c = none := by
  cases hsymbol : Symbol.ofChar? c with
  | none => rfl
  | some s =>
    unfold Symbol.ofChar? at hsymbol
    split at hsymbol <;> first
      | exact absurd hword (by decide)
      | cases hsymbol

theorem ofPair?_eq_none (hword : isLetter c = true ∨ c = '_' ∨ c.isDigit = true) (d : Char) :
    Symbol.ofPair? c d = none := by
  cases hsymbol : Symbol.ofPair? c d with
  | none => rfl
  | some s =>
    unfold Symbol.ofPair? at hsymbol
    split at hsymbol <;> first
      | exact absurd hword (by decide)
      | cases hsymbol

theorem ascii_of_charIsDigit (hdigit : c.isDigit = true) : c.toNat < 128 := by
  rw [charIsDigit_iff] at hdigit
  omega

theorem isDigit_of_charIsDigit (hdigit : c.isDigit = true) : isDigit c = true := by
  rw [isDigit_of_ascii (ascii_of_charIsDigit hdigit), hdigit]

theorem readLexeme_of_isWord
    (hword : isLetter c = true ∨ c = '_' ∨ c.isDigit = true) : readLexeme c rest = if isDigit c then
        .ok (.number (c :: rest.takeWhile isDigit), (rest.takeWhile isDigit).length)
      else
        .ok (wordLexeme (c :: rest.takeWhile isWordChar), (rest.takeWhile isWordChar).length) := by
  have hpair : rest.head?.bind (Symbol.ofPair? c) = none := by
    cases rest <;> simp [ofPair?_eq_none hword]
  have hquote : (c == '\'' || c == '"') = false := by
    by_contra h
    simp only [Bool.not_eq_false, Bool.or_eq_true, beq_iff_eq] at h
    rcases h with rfl | rfl <;> exact absurd hword (by decide)
  unfold readLexeme
  rw [hpair, ofChar?_eq_none hword]
  dsimp only
  by_cases hdigit : isDigit c = true
  · simp [hdigit]
  · have hstart : (isLetter c || c == '_') = true := by
      rcases hword with hletter | rfl | hascii
      · simp [hletter]
      · simp
      · exact absurd (isDigit_of_charIsDigit hascii) hdigit
    simp [hdigit, hquote, hstart]

theorem isSpace_eq_false_of_isWord
    (hword : isLetter c = true ∨ c = '_' ∨ c.isDigit = true) : isSpace c = false := by
  by_contra hspace
  have hfalse := isWordChar_eq_false_of_isSpace (by simpa using hspace)
  rcases hword with hletter | rfl | hdigit
  · simp [isWordChar, Text.isAlphanumeric, hletter] at hfalse
  · simp [isWordChar] at hfalse
  · simp [isWordChar, Text.isAlphanumeric, isDigit_of_charIsDigit hdigit] at hfalse

theorem readLexeme_word {first : Char} {more : Text} (hdigit : isDigit first = false)
    (hstart : isLetter first = true ∨ first = '_') (hmore : ∀ c ∈ more, isWordChar c = true)
    (hrest : Apart rest) :
    readLexeme first (more ++ rest) = .ok (wordLexeme (first :: more), more.length) := by
  have hword : isLetter first = true ∨ first = '_' ∨ first.isDigit = true := by tauto
  have hblank : isWordChar ' ' = false := isWordChar_eq_false_of_isSpace (by decide)
  rw [readLexeme_of_isWord hword, if_neg (by simp [hdigit]),
    takeWhile_append_of_apart hmore hrest hblank]

theorem readLexeme_number {first : Char} {more : Text} (hfirst : first.isDigit = true)
    (hmore : ∀ c ∈ more, c.isDigit = true) (hrest : Apart rest) :
    readLexeme first (more ++ rest) = .ok (.number (first :: more), more.length) := by
  have hall : ∀ c ∈ more, isDigit c = true := fun c hc => isDigit_of_charIsDigit (hmore c hc)
  have hblank : isDigit ' ' = false := by
    rw [isDigit_of_ascii (by decide)]
    decide
  rw [readLexeme_of_isWord (by simp [hfirst]), if_pos (isDigit_of_charIsDigit hfirst),
    takeWhile_append_of_apart hall hrest hblank]

theorem readLexeme_string (value rest : Text) :
    readLexeme '"' (value.flatMap escape ++ '"' :: rest) =
      .ok (.string value, (value.flatMap escape).length + 1) := by
  have hpair : ∀ text : Text, text.head?.bind (Symbol.ofPair? '"') = none := by
    intro text
    cases text <;> simp [Symbol.ofPair?]
  have hdigit : isDigit '"' = false := by
    rw [isDigit_of_ascii (by decide)]
    decide
  unfold readLexeme
  rw [hpair]
  simp [Symbol.ofChar?, hdigit, readString_flatMap, Except.map]

theorem readLexeme_symbol (s : Symbol) (hrest : Apart rest) :
    ∃ first more, s.spelling = first :: more ∧ isSpace first = false ∧
      readLexeme first (more ++ rest) = .ok (.symbol s, more.length) := by
  have hhead : rest.head? = none ∨ rest.head? = some ' ' := by
    cases hc : rest.head? with
    | none => exact Or.inl rfl
    | some c => exact Or.inr (congrArg some (hrest c hc))
  cases s <;> refine ⟨_, _, rfl, by decide, ?_⟩ <;> rcases hhead with hhead | hhead <;>
    simp [readLexeme, hhead, Symbol.ofPair?, Symbol.ofChar?]

theorem readLexeme_spelled {lexeme : Lexeme} (hwritable : lexeme.Writable) (hrest : Apart rest) :
    ∃ first more, lexeme.spelled = first :: more ∧ isSpace first = false ∧
      readLexeme first (more ++ rest) = .ok (lexeme, more.length) := by
  cases lexeme with
  | number digits =>
    obtain ⟨hne, hdigits⟩ := hwritable
    obtain ⟨first, more, rfl⟩ := List.exists_cons_of_ne_nil hne
    have hfirst := hdigits first (by simp)
    exact ⟨first, more, rfl, isSpace_eq_false_of_isWord (by simp [hfirst]),
      readLexeme_number hfirst (fun c hc => hdigits c (by simp [hc])) hrest⟩
  | string value =>
    refine ⟨'"', value.flatMap escape ++ ['"'], rfl, by decide, ?_⟩
    have hread := readLexeme_string value rest
    simpa using hread
  | name word =>
    cases word with
    | nil => exact hwritable.elim
    | cons first more =>
      obtain ⟨hdigit, hstart, hmore, hkeyword⟩ := hwritable
      refine ⟨first, more, rfl, isSpace_eq_false_of_isWord (by tauto), ?_⟩
      rw [readLexeme_word hdigit hstart hmore hrest, wordLexeme, hkeyword]
  | keyword k word =>
    obtain rfl : word = k.word := hwritable
    have halpha := k.isAlpha_of_mem_word
    have hkeyword : wordLexeme k.word = .keyword k k.word := by cases k <;> rfl
    cases hword : k.word with
    | nil => cases k <;> cases hword
    | cons first more =>
      rw [hword] at halpha hkeyword
      have hfirst : first.isAlpha = true := halpha first (by simp)
      have hstart : isLetter first = true := isLetter_of_charIsAlpha hfirst
      have hmore : ∀ c ∈ more, isWordChar c = true := fun c hc =>
        isWordChar_of_charIsAlpha (halpha c (by simp [hc]))
      refine ⟨first, more, rfl, isSpace_eq_false_of_isWord (Or.inl hstart), ?_⟩
      rw [readLexeme_word (isDigit_of_charIsAlpha hfirst) (Or.inl hstart) hmore hrest, hkeyword]
  | symbol s => exact readLexeme_symbol s hrest
  | finish => exact hwritable.elim

theorem tokenize_spaced {lexemes : List Lexeme} (hwritable : ∀ lexeme ∈ lexemes, lexeme.Writable)
    (column : Nat) : ∃ tokens last,
      tokenize column (spaced lexemes) = .ok (tokens ++ [⟨.finish, last⟩]) ∧
      tokens.map Token.lexeme = lexemes := by
  induction lexemes generalizing column with
  | nil => exact ⟨[], column, by simp [spaced, tokenize], rfl⟩
  | cons lexeme lexemes ih =>
    obtain ⟨first, more, hspelled, hspace, hread⟩ := readLexeme_spelled (hwritable lexeme (by simp))
        (apart_spaced lexemes)
    obtain ⟨tokens, last, htokens, hlexemes⟩ :=
      ih (fun other hother => hwritable other (by simp [hother])) (column + 1 + 1 + more.length)
    have hcons : spaced (lexeme :: lexemes) = ' ' :: first :: (more ++ spaced lexemes) := by
      simp [spaced, hspelled]
    have hblank : isSpace ' ' = true := by decide
    refine ⟨⟨lexeme, column + 1⟩ :: tokens, last, ?_, by simp [hlexemes]⟩
    rw [hcons, tokenize, if_pos hblank, tokenize, hread]
    simp [hspace, htokens]

end Folio.Source
