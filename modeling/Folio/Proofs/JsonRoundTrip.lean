import Folio.Json.Parser
import Mathlib.Tactic

/-!
# Json read back

A value without decimals is read back from its writing, if its numbers are short
enough to be read and no object has a key twice.  The writing holds no carriage
return, so it is also read back from a file.
-/

namespace Folio.Json

variable {n : Nat} {rest t : Text} {fields : List (Text × Json)} {v : Json} {items : List Json}

variable {c : Char} {ascii : Bool}

/-! ## Strings -/

theorem readString_skip (start skip offset : Nat) (done skipped rest : Text)
    (hskip : skipped.length = skip) : readString start skip offset done (skipped ++ rest) =
      readString start 0 (offset + skip) done rest := by
  induction skipped generalizing skip offset with
  | nil =>
    subst hskip
    rfl
  | cons c skipped ih =>
    subst hskip
    rw [List.cons_append, List.length_cons, readString, ih _ _ rfl]
    congr 1
    omega

theorem unit?_hexPadded (hn : n < 32) (c : Char) (rest : Text) :
    unit? (Text.hexPadded 4 n ++ c :: rest) = some n := by
  interval_cases n <;> rfl

theorem length_hexPadded (hn : n < 32) : (Text.hexPadded 4 n).length = 4 := by
  interval_cases n <;> rfl

/-- How a character is written in quotes. -/
inductive Escaped (c : Char) : Text → Prop
  | plain {e : Char} (hescape : plainEscape? e = some c) (hunit : e ≠ 'u') : Escaped c ['\\', e]
  | unit (hcontrol : c.toNat < 32) : Escaped c ('\\' :: 'u' :: Text.hexPadded 4 c.toNat)
  | shown (hquote : c ≠ '"') (hslash : c ≠ '\\') (hcontrol : ¬ c.toNat < 32) : Escaped c [c]

theorem escaped_escapeChar (c : Char) : Escaped c (escapeChar false c) := by
  rw [escapeChar]
  by_cases hquote : (c == '"' || c == '\\') = true
  · rw [if_pos hquote]
    rcases (by simpa using hquote : c = '"' ∨ c = '\\') with rfl | rfl
    · exact .plain rfl (by decide)
    · exact .plain rfl (by decide)
  rw [if_neg hquote]
  by_cases hnewline : (c == '\n') = true
  · obtain rfl := eq_of_beq hnewline
    exact .plain rfl (by decide)
  rw [if_neg hnewline]
  by_cases hreturn : (c == '\r') = true
  · obtain rfl := eq_of_beq hreturn
    exact .plain rfl (by decide)
  rw [if_neg hreturn]
  by_cases htab : (c == '\t') = true
  · obtain rfl := eq_of_beq htab
    exact .plain rfl (by decide)
  rw [if_neg htab]
  by_cases hfeed : (c.toNat == 12) = true
  · have hc : Char.ofNat 12 = c := by rw [← eq_of_beq hfeed, Char.ofNat_toNat]
    rw [if_pos hfeed]
    exact .plain (congrArg some hc) (by decide)
  rw [if_neg hfeed]
  by_cases hback : (c.toNat == 8) = true
  · have hc : Char.ofNat 8 = c := by rw [← eq_of_beq hback, Char.ofNat_toNat]
    rw [if_pos hback]
    exact .plain (congrArg some hc) (by decide)
  rw [if_neg hback]
  by_cases hcontrol : c.toNat < 32
  · rw [if_pos hcontrol]
    exact .unit hcontrol
  · simp only [Bool.or_eq_true, beq_iff_eq, not_or] at hquote
    rw [if_neg hcontrol, if_pos (by simp)]
    exact .shown hquote.1 hquote.2 hcontrol

theorem Escaped.readString {c : Char} {t : Text} (hescaped : Escaped c t) (start offset : Nat)
    (done rest : Text) (d : Char) : readString start 0 offset done (t ++ d :: rest) =
      readString start 0 (offset + t.length) (c :: done) (d :: rest) := by
  cases hescaped with
  | @plain e hescape hunit =>
    have hskip := readString_skip start 1 (offset + 1) (c :: done) [e] (d :: rest) rfl
    rw [List.cons_append, List.singleton_append, Json.readString]
    simp only [beq_eq_false_iff_ne.mpr hunit, hescape]
    exact hskip
  | unit hcontrol =>
    have hchar : unitChar c.toNat ((Text.hexPadded 4 c.toNat ++ d :: rest).drop 4) = (c, 0) := by
      have hlow : ¬ (0xD800 ≤ c.toNat && c.toNat < 0xDC00) = true := by
        simp only [Bool.and_eq_true, decide_eq_true_eq]
        omega
      have hhigh : ¬ (0xDC00 ≤ c.toNat && c.toNat < 0xE000) = true := by
        simp only [Bool.and_eq_true, decide_eq_true_eq]
        omega
      unfold unitChar
      rw [if_neg hlow, if_neg hhigh, Char.ofNat_toNat]
    have hskip := readString_skip start 5 (offset + 1) (c :: done) ('u' :: Text.hexPadded 4 c.toNat)
      (d :: rest) (by simp [length_hexPadded hcontrol])
    rw [List.cons_append, List.cons_append, Json.readString]
    simp only [unit?_hexPadded hcontrol, hchar]
    simpa [length_hexPadded hcontrol, Nat.add_assoc] using hskip
  | shown hquote hslash hcontrol =>
    rw [List.singleton_append, Json.readString]
    simp [hquote, hslash, hcontrol]

theorem readString_flatMap (start offset : Nat) (done t rest : Text) :
    readString start 0 offset done (t.flatMap (escapeChar false) ++ '"' :: rest) =
      .ok (done.reverse ++ t, ⟨offset + (t.flatMap (escapeChar false)).length + 1, rest⟩) := by
  induction t generalizing done offset with
  | nil => simp [readString]
  | cons c t ih =>
    obtain ⟨d, more, hmore⟩ : ∃ d more,
        t.flatMap (escapeChar false) ++ '"' :: rest = d :: more := by
      cases t.flatMap (escapeChar false) with
      | nil => exact ⟨_, _, rfl⟩
      | cons d more => exact ⟨d, more ++ '"' :: rest, rfl⟩
    rw [List.flatMap_cons, List.append_assoc, hmore, (escaped_escapeChar c).readString, ← hmore, ih]
    simp [Nat.add_assoc]

/-! ## Numbers -/

/-- What may follow a value: nothing, a comma or a closing bracket. -/
def Follows (rest : Text) : Prop :=
  ∀ c, rest.head? = some c → c = ',' ∨ c = ']' ∨ c = '}'

theorem isDigit_of_mem_ofNat (hc : c ∈ Text.ofNat n) : c.isDigit = true :=
  Nat.isDigit_of_mem_toDigits (by decide) (by decide) hc

theorem head?_ofNat_ne_zero (hn : 0 < n) : (Text.ofNat n).head? ≠ some '0' := by
  induction n using Nat.strongRecOn with
  | ind n ih =>
    unfold Text.ofNat at ih ⊢
    by_cases hsmall : n < 10
    · rw [Nat.toDigits_of_lt_base hsmall]
      interval_cases n <;> decide
    · rw [Nat.toDigits_of_base_le (by decide) (by omega)]
      have hfirst := ih (n / 10) (by omega) (by omega)
      cases hdigits : Nat.toDigits 10 (n / 10) with
      | nil => exact absurd hdigits Nat.toDigits_ne_nil
      | cons c digits => simpa [hdigits] using hfirst

theorem digitsValue_ofNat (n : Nat) : Decimal.digitsValue (Text.ofNat n) = n := by
  have hvalue : Decimal.digitsValue (Text.ofNat n) = Nat.ofDigitChars 10 (Text.ofNat n) 0 := by
    rw [Decimal.digitsValue, Nat.ofDigitChars_eq_foldl]
  rw [hvalue, Text.ofNat, Nat.ofDigitChars_ten_toDigits]

theorem takeWhile_ofNat (n : Nat) (hrest : Follows rest) :
    (Text.ofNat n ++ rest).takeWhile Char.isDigit = Text.ofNat n := by
  rw [List.takeWhile_append_of_pos fun c hc => isDigit_of_mem_ofNat hc]
  cases rest with
  | nil => simp
  | cons c rest => rcases hrest c rfl with rfl | rfl | rfl <;> simp [Char.isDigit]

theorem wholeOf_ofNat (n : Nat) (hrest : Follows rest) :
    wholeOf (Text.ofNat n ++ rest) = Text.ofNat n := by
  unfold wholeOf
  rcases Nat.eq_zero_or_pos n with rfl | hn
  · rfl
  · have hhead : (Text.ofNat n ++ rest).head? = (Text.ofNat n).head? := by
      cases hdigits : Text.ofNat n with
      | nil => exact absurd hdigits Nat.toDigits_ne_nil
      | cons c digits => rfl
    rw [hhead, if_neg (by simpa using head?_ofNat_ne_zero hn), takeWhile_ofNat n hrest]

theorem fractionOf_eq_nil (hrest : Follows rest) : fractionOf rest = [] := by
  cases rest with
  | nil => rfl
  | cons c rest => rcases hrest c rfl with rfl | rfl | rfl <;> rfl

theorem exponentOf_eq_none (hrest : Follows rest) : exponentOf rest = none := by
  cases rest with
  | nil => rfl
  | cons c rest => rcases hrest c rfl with rfl | rfl | rfl <;> rfl

theorem readMagnitude_ofNat (cursor : Cursor) (negative : Bool) (n : Nat)
    (hshort : (Text.ofNat n).length ≤ Decimal.maxDigits) (hrest : Follows rest) :
    readMagnitude cursor negative (Text.ofNat n ++ rest) = .ok (.int (if negative then -n else n),
        cursor.drop ((if negative then 1 else 0) + (Text.ofNat n).length)) := by
  have hne : (Text.ofNat n).isEmpty = false := by simp [Text.ofNat]
  have hlimit : ¬ Decimal.maxDigits < (Text.ofNat n).length := by omega
  unfold readMagnitude
  simp only [wholeOf_ofNat _ hrest, hne, List.drop_left, fractionOf_eq_nil hrest, List.isEmpty_nil,
    if_true, List.drop_zero, exponentOf_eq_none hrest, digitsValue_ofNat]
  simp [hlimit]

theorem ofInt_eq_signed (n : Int) :
    Text.ofInt n = Decimal.signed (decide (n < 0)) (Text.ofNat n.natAbs) := by
  simp [Text.ofInt, Decimal.signed]

theorem exists_ofNat_eq_cons (n : Nat) : ∃ c t, Text.ofNat n = c :: t ∧ c.isDigit = true := by
  cases hdigits : Text.ofNat n with
  | nil => exact absurd hdigits Nat.toDigits_ne_nil
  | cons c t =>
    have hmem : c ∈ Text.ofNat n := by simp [hdigits]
    exact ⟨c, t, rfl, isDigit_of_mem_ofNat hmem⟩

theorem signed_append (negative : Bool) (t rest : Text) :
    Decimal.signed negative t ++ rest = Decimal.signed negative (t ++ rest) := by
  cases negative <;> rfl

theorem length_signed (negative : Bool) (t : Text) : (Decimal.signed negative t).length =
      (if negative then 1 else 0) + t.length := by
  cases negative with
  | true => exact Nat.add_comm _ _
  | false => exact (Nat.zero_add _).symm

theorem drop_signed (offset : Nat) (negative : Bool) (t rest : Text) :
    Cursor.drop ⟨offset, Decimal.signed negative (t ++ rest)⟩
        ((if negative then 1 else 0) + t.length) =
      ⟨offset + (Decimal.signed negative t).length, rest⟩ := by
  rw [← signed_append, ← length_signed, Cursor.drop, List.drop_left]

section Signed

variable {c : Char}

theorem ne_of_isDigit {d : Char} (hc : c.isDigit = true) (hd : d.isDigit = false) : c ≠ d := by
  rintro rfl
  rw [hc] at hd
  cases hd

theorem signed_eq_cons (hc : c.isDigit = true) (negative : Bool) (t : Text) :
    ∃ d u, Decimal.signed negative (c :: t) = d :: u ∧
      ∀ e : Char, e ≠ '-' → e.isDigit = false → d ≠ e := by
  cases negative with
  | true => exact ⟨'-', c :: t, rfl, fun e he _ => he.symm⟩
  | false => exact ⟨c, t, rfl, fun e _ he => ne_of_isDigit hc he⟩

theorem literals_find?_signed (hc : c.isDigit = true) (negative : Bool) (t : Text) :
    literals.find? (fun (word, _) =>
      word.isPrefixOf (Decimal.signed negative (c :: t))) = none := by
  have hne : ∀ d : Char, d.isDigit = false → d ≠ c := fun d hd =>
    (ne_of_isDigit hc hd).symm
  cases negative <;> simp [literals, Decimal.signed, hne]

theorem readNumber_signed (hc : c.isDigit = true) (negative : Bool) (offset : Nat) (t : Text) :
    readNumber ⟨offset, Decimal.signed negative (c :: t)⟩ =
      readMagnitude ⟨offset, Decimal.signed negative (c :: t)⟩ negative (c :: t) := by
  cases negative with
  | true => rfl
  | false =>
    unfold readNumber
    split
    · rename_i body hbody
      exact absurd (List.cons.inj hbody).1 (ne_of_isDigit hc rfl)
    · rfl

end Signed

/-! ## Values -/

mutual

/-- Values that can be read back: without decimals, with numbers short enough,
and with no key twice in an object. -/
def Stored : Json → Prop
  | .null => True
  | .bool _ => True
  | .int n => (Text.ofNat n.natAbs).length ≤ Decimal.maxDigits
  | .float _ => False
  | .string _ => True
  | .array items => StoredItems items
  | .object fields => (fields.map Prod.fst).Nodup ∧ StoredFields fields

def StoredItems : List Json → Prop
  | [] => True
  | item :: rest => Stored item ∧ StoredItems rest

def StoredFields : List (Text × Json) → Prop
  | [] => True
  | (_, value) :: rest => Stored value ∧ StoredFields rest

end

theorem setField_of_notMem {key : Text} (hkey : key ∉ fields.map Prod.fst) (value : Json) :
    setField fields key value = fields ++ [(key, value)] := by
  unfold setField
  rw [if_neg]
  intro hany
  obtain ⟨field, hfield, heq⟩ := List.any_eq_true.mp hany
  exact hkey (List.mem_map.mpr ⟨field, hfield, eq_of_beq heq⟩)

theorem ofPairs_of_nodup
    (hkeys : (fields.map Prod.fst).Nodup) : ofPairs fields = .object fields := by
  have hfold : ∀ more done : List (Text × Json), ((done ++ more).map Prod.fst).Nodup →
      more.foldl (fun fields field => setField fields field.1 field.2) done = done ++ more := by
    intro more
    induction more with
    | nil => simp
    | cons field more ih =>
      obtain ⟨key, value⟩ := field
      intro done hnodup
      have hnew : key ∉ done.map Prod.fst := by
        intro hold
        rw [List.map_append, List.nodup_append] at hnodup
        exact hnodup.2.2 _ hold key (by simp) rfl
      rw [List.foldl_cons]
      dsimp only
      rw [setField_of_notMem hnew, ih]
      · simp
      · simpa using hnodup
  exact congrArg Json.object (hfold fields [] (by simpa using hkeys))

def Starts (t : Text) : Prop :=
  ∃ c u, t = c :: u ∧ Cursor.isBlank c = false ∧ c ≠ ']' ∧ c ≠ '\uFEFF'

theorem starts_signed (hc : c.isDigit = true) (negative : Bool)
    (t : Text) : Starts (Decimal.signed negative (c :: t)) := by
  obtain ⟨d, u, hcons, hne⟩ := signed_eq_cons hc negative t
  refine ⟨d, u, hcons, ?_, hne ']' (by decide) rfl, hne '\uFEFF' (by decide) rfl⟩
  simp [Cursor.isBlank, hne]

theorem starts_render (hstored : Stored v) : Starts (render false v) := by
  cases v with
  | null => exact ⟨'n', _, rfl, by decide⟩
  | bool b =>
    cases b with
    | true => exact ⟨'t', _, rfl, by decide⟩
    | false => exact ⟨'f', _, rfl, by decide⟩
  | float x => exact hstored.elim
  | string t => exact ⟨'"', _, rfl, by decide⟩
  | array items => exact ⟨'[', _, rfl, by decide⟩
  | object fields => exact ⟨'{', _, rfl, by decide⟩
  | int n =>
    obtain ⟨c, t, htext, hc⟩ := exists_ofNat_eq_cons n.natAbs
    rw [render, ofInt_eq_signed, htext]
    exact starts_signed hc _ t

theorem skip_of_head {offset : Nat} (hc : Cursor.isBlank c = false) :
    Cursor.skip ⟨offset, c :: rest⟩ = ⟨offset, c :: rest⟩ := by
  simp [Cursor.skip, Cursor.afterBlanks, hc]

theorem Starts.skip {t : Text} (hstarts : Starts t) (offset : Nat) (rest : Text) :
    Cursor.skip ⟨offset, t ++ rest⟩ = ⟨offset, t ++ rest⟩ := by
  obtain ⟨c, u, rfl, hblank, -⟩ := hstarts
  rw [List.cons_append, skip_of_head hblank]

theorem renderItems_false (hne : items ≠ []) :
    renderItems ascii false items = ',' :: ' ' :: renderItems ascii true items := by
  cases items with
  | nil => exact absurd rfl hne
  | cons item rest => rfl

theorem renderFields_false (hne : fields ≠ []) :
    renderFields false false fields = ',' :: ' ' :: renderFields false true fields := by
  cases fields with
  | nil => exact absurd rfl hne
  | cons field rest => rfl

theorem follows_renderItems (ascii : Bool) (items : List Json) (rest : Text) :
    Follows (renderItems ascii false items ++ ']' :: rest) := by
  cases items <;> simp [Follows, renderItems]

theorem follows_renderFields (fields : List (Text × Json)) (rest : Text) :
    Follows (renderFields false false fields ++ '}' :: rest) := by
  cases fields <;> simp [Follows, renderFields]

theorem readValue_other (hquote : c ≠ '"')
    (hbracket : c ≠ '[') (hbrace : c ≠ '{') (fuel offset : Nat) :
    readValue (fuel + 1) ⟨offset, c :: rest⟩ =
      match literals.find? fun (word, _) => word.isPrefixOf (c :: rest) with
      | some (word, value) => .ok (value, Cursor.drop ⟨offset, c :: rest⟩ word.length)
      | none => readNumber ⟨offset, c :: rest⟩ := by
  rw [readValue]
  split
  · rename_i hnil
    cases hnil
  · rename_i hcons
    exact absurd (List.cons.inj hcons).1 hquote
  · rename_i hcons
    exact absurd (List.cons.inj hcons).1 hbracket
  · rename_i hcons
    exact absurd (List.cons.inj hcons).1 hbrace
  · rfl

theorem readValue_signed (hc : c.isDigit = true) (negative : Bool) (t : Text) (fuel offset : Nat) :
    readValue (fuel + 1) ⟨offset, Decimal.signed negative (c :: t)⟩ =
      readMagnitude ⟨offset, Decimal.signed negative (c :: t)⟩ negative (c :: t) := by
  have hfind := literals_find?_signed hc negative t
  rw [← readNumber_signed hc]
  obtain ⟨d, u, hcons, hne⟩ := signed_eq_cons hc negative t
  rw [hcons] at hfind ⊢
  rw [readValue_other (hne '"' (by decide) rfl) (hne '[' (by decide) rfl)
    (hne '{' (by decide) rfl), hfind]

theorem readValue_ofInt (n : Int) (hshort : (Text.ofNat n.natAbs).length ≤ Decimal.maxDigits)
    (hrest : Follows rest) (fuel offset : Nat) :
    readValue (fuel + 1) ⟨offset, Text.ofInt n ++ rest⟩ =
      .ok (.int n, ⟨offset + (Text.ofInt n).length, rest⟩) := by
  have hsign : (if decide (n < 0) = true then -(n.natAbs : Int)
      else n.natAbs) = n := by
    by_cases hneg : n < 0
    · simp [hneg, abs_of_neg]
    · simp [hneg, abs_of_nonneg (not_lt.mp hneg)]
  have hmagnitude := readMagnitude_ofNat
    ⟨offset, Decimal.signed (decide (n < 0)) (Text.ofNat n.natAbs ++ rest)⟩
    (decide (n < 0)) n.natAbs hshort hrest
  rw [hsign, drop_signed] at hmagnitude
  obtain ⟨c, t, htext, hc⟩ := exists_ofNat_eq_cons n.natAbs
  rw [htext, List.cons_append] at hmagnitude
  rw [ofInt_eq_signed, signed_append, htext, List.cons_append, readValue_signed hc]
  exact hmagnitude

theorem quote_append (t rest : Text) : quote false t ++ rest =
      '"' :: (t.flatMap (escapeChar false) ++ '"' :: rest) := by
  simp [quote]

theorem length_quote (t : Text) :
    (quote false t).length = (t.flatMap (escapeChar false)).length + 2 := by
  simp [quote]

theorem readValue_quote (t rest : Text) (fuel offset : Nat) :
    readValue (fuel + 1) ⟨offset, quote false t ++ rest⟩ =
      .ok (.string t, ⟨offset + (quote false t).length, rest⟩) := by
  rw [quote_append, length_quote, readValue]
  simp only [readString_flatMap]
  simp
  omega

theorem skip_renderFields (hne : fields ≠ []) (offset : Nat)
    (rest : Text) : Cursor.skip ⟨offset, renderFields false true fields ++ rest⟩ =
        ⟨offset, renderFields false true fields ++ rest⟩ ∧
      (renderFields false true fields ++ rest).head? ≠ some '}' := by
  cases fields with
  | nil => exact absurd rfl hne
  | cons field more =>
    simp only [renderFields, quote, if_true, List.nil_append, List.cons_append]
    exact ⟨skip_of_head (by decide), by simp⟩

theorem skip_blank (offset : Nat) (rest : Text) :
    Cursor.skip ⟨offset, ' ' :: rest⟩ = Cursor.skip ⟨offset + 1, rest⟩ := by
  simp [Cursor.skip, Cursor.afterBlanks, Cursor.isBlank]

/-- A text is read as a value, whatever follows it. -/
structure ReadAs (t : Text) (v : Json) : Prop where
  starts : Starts t
  read {rest : Text} (hrest : Follows rest) (fuel : Nat)
    (hfuel : 2 * t.length ≤ fuel) (offset : Nat) :
    readValue fuel ⟨offset, t ++ rest⟩ = .ok (v, ⟨offset + t.length, rest⟩)

theorem readAs_of_starts (hstarts : Starts t)
    (hread : ∀ {rest : Text}, Follows rest → ∀ fuel, 2 * t.length ≤ fuel + 1 → ∀ offset,
        readValue (fuel + 1) ⟨offset, t ++ rest⟩ =
          .ok (v, ⟨offset + t.length, rest⟩)) : ReadAs t v := by
  refine ⟨hstarts, ?_⟩
  intro rest hrest fuel hfuel offset
  obtain ⟨c, u, rfl, -⟩ := hstarts
  cases fuel with
  | zero =>
    rw [List.length_cons] at hfuel
    omega
  | succ fuel => exact hread hrest fuel hfuel offset

theorem readAs_name {word : Text} {value : Json}
    (hstarts : Starts (c :: word)) (hquote : c ≠ '"') (hbracket : c ≠ '[') (hbrace : c ≠ '{')
    (hfind : ∀ rest, literals.find? (fun (name, _) =>
      name.isPrefixOf (c :: (word ++ rest))) = some (c :: word, value)) :
    ReadAs (c :: word) value := by
  refine readAs_of_starts hstarts ?_
  intro rest hrest fuel hfuel offset
  rw [List.cons_append, readValue_other hquote hbracket hbrace, hfind]
  simp [Cursor.drop]

theorem ReadAs.parse {t : Text} {v : Json} (ht : ReadAs t v) : Json.parse t = .ok v := by
  have hfollows : Follows [] := by simp [Follows]
  have hread := ht.read hfollows (2 * t.length + 2) (by omega) 0
  have hskip := ht.starts.skip 0 []
  obtain ⟨c, u, rfl, -, -, hmark⟩ := ht.starts
  rw [List.append_nil] at hread hskip
  unfold Json.parse
  rw [if_neg (by simpa using hmark), hskip, hread]
  simp [Cursor.skip, Cursor.afterBlanks]

section Items

variable {ascii : Bool}

theorem skip_renderItems {values : List Json} (hne : items ≠ [])
    (hread : List.Forall₂ (fun item => ReadAs (render ascii item)) items values) (offset : Nat)
    (rest : Text) : Cursor.skip ⟨offset, renderItems ascii true items ++ rest⟩ =
        ⟨offset, renderItems ascii true items ++ rest⟩ ∧
      (renderItems ascii true items ++ rest).head? ≠ some ']' := by
  cases hread with
  | nil => exact absurd rfl hne
  | cons hitem hmore =>
    obtain ⟨c, t, hrender, hblank, hclose, -⟩ := hitem.starts
    simp only [renderItems, if_true, List.nil_append, hrender, List.cons_append]
    exact ⟨skip_of_head hblank, by simpa using hclose⟩

theorem readItems_of_readAs {values : List Json}
    (hread : List.Forall₂ (fun item => ReadAs (render ascii item)) items values) (hne : items ≠ [])
    (done : List Json) (rest : Text) (fuel : Nat)
    (hfuel : 2 * (renderItems ascii true items).length + 1 ≤ fuel) (offset : Nat) :
    readItems fuel done ⟨offset, renderItems ascii true items ++ ']' :: rest⟩ =
      .ok (.array (done.reverse ++ values),
        ⟨offset + (renderItems ascii true items).length + 1, rest⟩) := by
  induction hread generalizing done fuel offset with
  | nil => exact absurd rfl hne
  | @cons item value more values hitem hmore ih =>
    have htext : renderItems ascii true (item :: more) =
        render ascii item ++ renderItems ascii false more := by
      simp [renderItems]
    obtain ⟨fuel, rfl⟩ : ∃ k, fuel = k + 1 := ⟨fuel - 1, by omega⟩
    rw [htext, List.length_append] at hfuel
    have hfirst := hitem.read (follows_renderItems ascii more rest) fuel (by omega) offset
    rw [htext, List.append_assoc, readItems, hfirst]
    dsimp only
    by_cases hnil : more = []
    · subst hnil
      cases hmore
      simp [renderItems, skip_of_head, Cursor.isBlank, Cursor.drop, Nat.add_assoc]
    · obtain ⟨hskip, -⟩ := skip_renderItems hnil hmore
        (offset + (render ascii item).length + 1 + 1) (']' :: rest)
      rw [renderItems_false hnil, List.length_cons, List.length_cons] at hfuel
      have hrest := ih hnil (value :: done) fuel (by omega)
        (offset + (render ascii item).length + 1 + 1)
      rw [renderItems_false hnil, List.cons_append, List.cons_append, skip_of_head (by decide)]
      simp only [List.head?_cons, Cursor.drop, List.drop_succ_cons, List.drop_zero]
      rw [skip_blank, hskip, hrest]
      simp
      omega

theorem ReadAs.array {items values : List Json}
    (hread : List.Forall₂ (fun item => ReadAs (render ascii item)) items values) :
    ReadAs (render ascii (.array items)) (.array values) := by
  refine readAs_of_starts ⟨'[', _, rfl, by decide⟩ ?_
  intro rest hrest fuel hfuel offset
  have htext : render ascii (.array items) ++ rest =
      '[' :: (renderItems ascii true items ++ ']' :: rest) := by
    simp [render]
  have hlength : (render ascii (.array items)).length =
      (renderItems ascii true items).length + 2 := by
    simp [render]
  rw [hlength] at hfuel ⊢
  rw [htext, readValue]
  by_cases hne : items = []
  · subst hne
    cases hread
    simp [Cursor.drop, Cursor.skip, Cursor.afterBlanks, Cursor.isBlank, renderItems]
  · obtain ⟨hskip, hclose⟩ := skip_renderItems hne hread (offset + 1) (']' :: rest)
    have hitems := readItems_of_readAs hread hne [] rest fuel (by omega) (offset + 1)
    simp only [Cursor.drop, List.drop_succ_cons, List.drop_zero, hskip]
    rw [if_neg (by simpa using hclose), hitems]
    simp
    omega

end Items

mutual

theorem readAs_render (v : Json) (hstored : Stored v) : ReadAs (render false v) v := by
  match v, hstored with
  | .array items, hstored => exact ReadAs.array (readAs_renderItems items hstored)
  | .null, hstored =>
    exact readAs_name (starts_render hstored) (by decide) (by decide) (by decide) fun rest => rfl
  | .bool true, hstored =>
    exact readAs_name (starts_render hstored) (by decide) (by decide) (by decide) fun rest => rfl
  | .bool false, hstored =>
    exact readAs_name (starts_render hstored) (by decide) (by decide) (by decide) fun rest => rfl
  | .int n, hstored =>
    refine readAs_of_starts (starts_render hstored) ?_
    intro rest hrest fuel hfuel offset
    exact readValue_ofInt n hstored hrest fuel offset
  | .float x, hstored => exact hstored.elim
  | .string t, hstored =>
    refine readAs_of_starts (starts_render hstored) ?_
    intro rest hrest fuel hfuel offset
    exact readValue_quote t rest fuel offset
  | .object fields, hstored =>
    refine readAs_of_starts (starts_render hstored) ?_
    intro rest hrest fuel hfuel offset
    have htext : render false (.object fields) ++ rest =
        '{' :: (renderFields false true fields ++ '}' :: rest) := by
      simp [render]
    have hlength : (render false (.object fields)).length =
        (renderFields false true fields).length + 2 := by
      simp [render]
    rw [hlength] at hfuel ⊢
    rw [htext, readValue]
    by_cases hne : fields = []
    · subst hne
      simp [Cursor.drop, Cursor.skip, Cursor.afterBlanks, Cursor.isBlank, renderFields]
    · obtain ⟨hskip, hclose⟩ := skip_renderFields hne (offset + 1) ('}' :: rest)
      have hread := readFields_render fields hne hstored.2 [] rest fuel (by omega) (offset + 1)
      simp only [Cursor.drop, List.drop_succ_cons, List.drop_zero, hskip]
      rw [if_neg (by simpa using hclose), hread]
      simp [ofPairs_of_nodup hstored.1]
      omega

theorem readAs_renderItems (items : List Json) (hstored : StoredItems items) :
    List.Forall₂ (fun item => ReadAs (render false item)) items items := by
  match items, hstored with
  | [], _ => exact .nil
  | item :: more, hstored =>
    exact .cons (readAs_render item hstored.1) (readAs_renderItems more hstored.2)

theorem readFields_render (fields : List (Text × Json)) (hne : fields ≠ [])
    (hstored : StoredFields fields) (done : List (Text × Json)) (rest : Text) (fuel : Nat)
    (hfuel : 2 * (renderFields false true fields).length + 1 ≤ fuel) (offset : Nat) :
    readFields fuel done ⟨offset, renderFields false true fields ++ '}' :: rest⟩ =
      .ok (ofPairs (done.reverse ++ fields),
        ⟨offset + (renderFields false true fields).length + 1, rest⟩) := by
  match fields, hne, hstored with
  | (key, value) :: more, _, hstored =>
    have htext : renderFields false true ((key, value) :: more) = quote false key ++ (':' :: ' ' ::
          (render false value ++ renderFields false false more)) := by
      simp [renderFields]
    obtain ⟨fuel, rfl⟩ : ∃ k, fuel = k + 1 := ⟨fuel - 1, by omega⟩
    rw [htext] at hfuel ⊢
    simp only [List.length_append, List.length_cons, length_quote] at hfuel
    have hread := (readAs_render value hstored.1).read
      (follows_renderFields more rest) fuel (by omega)
      (offset + 1 + (key.flatMap (escapeChar false)).length + 1 + 1 + 1)
    have hskip := (starts_render hstored.1).skip
      (offset + 1 + (key.flatMap (escapeChar false)).length + 1 + 1 + 1)
      (renderFields false false more ++ '}' :: rest)
    rw [List.append_assoc, quote_append, readFields]
    simp only [readString_flatMap, List.reverse_nil, List.nil_append, List.cons_append,
      List.append_assoc]
    rw [skip_of_head (by decide)]
    simp only [List.head?_cons, bne_self_eq_false, Bool.false_eq_true, if_false, Cursor.drop,
      List.drop_succ_cons, List.drop_zero]
    rw [skip_blank, hskip, hread]
    dsimp only
    by_cases hmore : more = []
    · subst hmore
      simp [renderFields, skip_of_head, Cursor.isBlank, length_quote]
      omega
    · obtain ⟨hfields, -⟩ := skip_renderFields hmore
        (offset + 1 + (key.flatMap (escapeChar false)).length + 1 + 1 + 1 +
          (render false value).length + 1 + 1) ('}' :: rest)
      rw [renderFields_false hmore, List.length_cons, List.length_cons] at hfuel
      have hrest := readFields_render more hmore hstored.2
        ((key, value) :: done) rest fuel (by omega)
        (offset + 1 + (key.flatMap (escapeChar false)).length + 1 + 1 + 1 +
          (render false value).length + 1 + 1)
      rw [renderFields_false hmore, List.cons_append, List.cons_append, skip_of_head (by decide)]
      simp only [List.head?_cons, List.drop_succ_cons, List.drop_zero]
      rw [skip_blank, hfields, hrest]
      simp [length_quote]
      omega

end

/-! ## Writing to a file -/

theorem unixNewlines_of_notMem (ht : '\r' ∉ t) : Text.unixNewlines t = t := by
  have hgo : ∀ (t done : Text), '\r' ∉ t → Text.unixNewlines.go done t = done.reverse ++ t := by
    intro t
    induction t with
    | nil => simp [Text.unixNewlines.go]
    | cons c t ih =>
      intro done hmem
      have hc : c ≠ '\r' := fun h => hmem (by simp [h])
      rw [Text.unixNewlines.go]
      · rw [ih _ fun h => hmem (by simp [h])]
        simp [hc]
      · exact fun _ h => absurd h hc
  exact hgo t [] ht

theorem Escaped.return_notMem (hescaped : Escaped c t) : '\r' ∉ t := by
  cases hescaped with
  | @plain e hescape hunit =>
    have hne : '\r' ≠ e := by
      rintro rfl
      cases hescape
    simp [hne]
  | unit hcontrol =>
    generalize c.toNat = n at hcontrol
    interval_cases n <;> decide
  | shown hquote hslash hcontrol =>
    rw [List.mem_singleton]
    rintro rfl
    exact hcontrol (by decide)

theorem return_notMem_quote (t : Text) : '\r' ∉ quote false t := by
  simp only [quote, List.cons_append, List.mem_cons, List.mem_append, List.mem_flatMap,
    List.not_mem_nil, or_false, not_or]
  refine ⟨by decide, ?_, by decide⟩
  rintro ⟨c, -, hc⟩
  exact (escaped_escapeChar c).return_notMem hc

mutual

theorem return_notMem_render (v : Json) (hstored : Stored v) : '\r' ∉ render false v := by
  match v, hstored with
  | .null, _ => decide
  | .bool true, _ => decide
  | .bool false, _ => decide
  | .int n, _ =>
    intro hmem
    unfold render Text.ofInt at hmem
    split at hmem
    · rcases List.mem_cons.mp hmem with h | h
      · cases h
      · exact absurd (isDigit_of_mem_ofNat h) (by decide)
    · exact absurd (isDigit_of_mem_ofNat hmem) (by decide)
  | .float x, hstored => exact hstored.elim
  | .string t, _ => exact return_notMem_quote t
  | .array items, hstored => simpa [render] using return_notMem_renderItems items hstored true
  | .object fields, hstored => simpa [render] using return_notMem_renderFields fields hstored.2 true

theorem return_notMem_renderItems (items : List Json) (hstored : StoredItems items) (first : Bool) :
    '\r' ∉ renderItems false first items := by
  match items, hstored with
  | [], _ => simp [renderItems]
  | item :: rest, hstored =>
    have hitem := return_notMem_render item hstored.1
    have hrest := return_notMem_renderItems rest hstored.2 false
    cases first <;> simp [renderItems, hitem, hrest]

theorem return_notMem_renderFields (fields : List (Text × Json)) (hstored : StoredFields fields)
    (first : Bool) : '\r' ∉ renderFields false first fields := by
  match fields, hstored with
  | [], _ => simp [renderFields]
  | (key, value) :: rest, hstored =>
    have hkey := return_notMem_quote key
    have hvalue := return_notMem_render value hstored.1
    have hrest := return_notMem_renderFields rest hstored.2 false
    cases first <;> simp [renderFields, hkey, hvalue, hrest]

end

theorem parse_unixNewlines_render (hstored : Stored v) :
    parse (Text.unixNewlines (render false v)) = .ok v := by
  rw [unixNewlines_of_notMem (return_notMem_render v hstored), (readAs_render v hstored).parse]

end Folio.Json
