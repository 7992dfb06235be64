import RegionPolicy.Json.Decode

/-!
# Reading what was written

A value that is written as text and read again is the same value. For texts that is so whatever
their characters are, and for arrays and objects as long as they are not too deep for the reader.
For numbers it is a property of the number: the reader is not exact beyond fifteen digits, so there
are floats that are read back as a neighbour. A value is read back just if its numbers are, wherever
it stands in a text.

## Main definitions

* `Json.Number.ReadsBack`, `Json.Value.ReadsBack` — a number or a value that is read as it was
  written.
* `Json.Closes` — what can follow a value inside of an array or an object, or at the end.

## Main results

* `Json.readNumber_append` — what follows a number does not change how it is read.
* `Json.readString_escapeChars` — every text is read as it was written.
* `Json.readValue_chars` — a value is read as it was written.
* `Json.parse?_render` — so is a whole text, but for the order of the fields.
* `Json.decodeText_render` — what is decoded from a text is what is decoded from its value.
-/

namespace RegionPolicy

namespace Json

/-! ### What follows a value -/

/-- What can follow a value: nothing, or a comma or a closing bracket. -/
def Closes (rest : List Char) : Prop :=
  ∀ c ∈ rest.head?, c = ',' ∨ c = ']' ∨ c = '}'

theorem closes_nil : Closes [] := by
  intro c hc
  cases hc

theorem closes_cons {c : Char} (rest : List Char) (h : c = ',' ∨ c = ']' ∨ c = '}') :
    Closes (c :: rest) := by
  intro d hd
  exact Option.some.inj hd ▸ h

/-! ### Numbers -/

/-- The sign in front of a number, and what stands behind it. -/
def splitSign : List Char → Bool × List Char
  | '-' :: rest => (true, rest)
  | cs => (false, cs)

theorem splitSign_append {cs : List Char} (h : (splitSign cs).2 ≠ []) (rest : List Char) :
    splitSign (cs ++ rest) = ((splitSign cs).1, (splitSign cs).2 ++ rest) := by
  cases cs with
  | nil => exact absurd rfl h
  | cons c cs =>
    by_cases hc : c = '-'
    · subst hc
      rfl
    · simp [splitSign, hc]

/-- The text of a number is its sign, its digits, its places and its exponent. -/
theorem readNumberText_eq (cs : List Char) :
    readNumberText cs =
      (readWhole (splitSign cs).2).bind fun w =>
        (readPlaces w.2).bind fun p =>
          (readExponent p.2).map fun e => (⟨(splitSign cs).1, w.1, p.1, e.1⟩, e.2) := by
  unfold readNumberText
  split
  rename_i negative behind hsplit
  have hsign : splitSign cs = (negative, behind) := hsplit
  rw [hsign]
  rcases readWhole behind with _ | ⟨whole, cs₁⟩
  · rfl
  rcases hplaces : readPlaces cs₁ with _ | ⟨places, cs₂⟩
  · simp [hplaces]
  rcases hexponent : readExponent cs₂ with _ | ⟨exponent, rest⟩ <;> simp [hplaces, hexponent]

section Numbers

variable {rest : List Char} (hrest : Closes rest)
include hrest

/-- The digits at the front end where they ended without what follows. -/
theorem spanDigits_append (cs : List Char) :
    spanDigits (cs ++ rest) = ((spanDigits cs).1, (spanDigits cs).2 ++ rest) := by
  induction cs with
  | nil =>
    cases rest with
    | nil => rfl
    | cons c rest =>
      have hc : c.isDigit = false := by rcases hrest c rfl with rfl | rfl | rfl <;> rfl
      simp [spanDigits, hc]
  | cons c cs ih =>
    simp only [spanDigits, Prod.mk.injEq] at ih ⊢
    cases hc : c.isDigit <;> simp [hc, ih]

theorem readWhole_append {cs left : List Char} {digits : List Nat}
    (h : readWhole cs = some (digits, left)) :
    readWhole (cs ++ rest) = some (digits, left ++ rest) := by
  rw [readWhole] at h ⊢
  rw [spanDigits_append hrest]
  split at h <;> simp_all

theorem readPlaces_append {cs left : List Char} {places : Option (List Nat)}
    (h : readPlaces cs = some (places, left)) :
    readPlaces (cs ++ rest) = some (places, left ++ rest) := by
  unfold readPlaces at h
  split at h
  · rename_i cs
    rw [List.cons_append, readPlaces, spanDigits_append hrest]
    split at h <;> simp_all
  · rename_i hpoint
    obtain ⟨rfl, rfl⟩ : places = none ∧ left = cs := by simpa [eq_comm] using h
    unfold readPlaces
    split
    · rename_i more heq
      cases left with
      | nil =>
        rw [List.nil_append] at heq
        have hc := hrest '.' (by rw [heq]; rfl)
        simp at hc
      | cons c left =>
        rw [List.cons_append, List.cons.injEq] at heq
        exact absurd (by rw [heq.1]) (hpoint left)
    · rfl

theorem readExponentDigits_append {negative : Bool} {cs left : List Char} {exponent : Option Int}
    (h : readExponentDigits negative cs = some (exponent, left)) :
    readExponentDigits negative (cs ++ rest) = some (exponent, left ++ rest) := by
  rw [readExponentDigits] at h ⊢
  rw [spanDigits_append hrest]
  split at h <;> simp_all

theorem readExponent_append {cs left : List Char} {exponent : Option Int}
    (h : readExponent cs = some (exponent, left)) :
    readExponent (cs ++ rest) = some (exponent, left ++ rest) := by
  cases cs with
  | nil =>
    obtain ⟨rfl, rfl⟩ : exponent = none ∧ left = [] := by simpa [readExponent, eq_comm] using h
    cases rest with
    | nil => rfl
    | cons c rest =>
      have hc : ¬ (c = 'e' || c = 'E') = true := by
        rcases hrest c rfl with rfl | rfl | rfl <;> decide
      show readExponent (c :: rest) = some (none, c :: rest)
      unfold readExponent
      simp only [if_neg hc]
  | cons c cs =>
    unfold readExponent at h
    rw [List.cons_append]
    unfold readExponent
    by_cases hc : (c = 'e' || c = 'E') = true
    · simp only [if_pos hc] at h ⊢
      split at h
      · exact readExponentDigits_append hrest h
      · exact readExponentDigits_append hrest h
      · rename_i hplus hminus
        cases cs with
        | nil => simp [readExponentDigits, spanDigits] at h
        | cons d cs =>
          have hd : d ≠ '+' ∧ d ≠ '-' :=
            ⟨fun hd => hplus cs (by rw [hd]), fun hd => hminus cs (by rw [hd])⟩
          have hdigits := readExponentDigits_append hrest h
          rw [List.cons_append] at hdigits ⊢
          split <;> simp_all
    · simp only [if_neg hc] at h ⊢
      obtain ⟨rfl, rfl⟩ : exponent = none ∧ left = c :: cs := by simpa [eq_comm] using h
      rfl

/-- What follows a number does not change its text. -/
theorem readNumberText_append {cs left : List Char} {t : NumberText}
    (h : readNumberText cs = some (t, left)) :
    readNumberText (cs ++ rest) = some (t, left ++ rest) := by
  rw [readNumberText_eq] at h ⊢
  obtain ⟨⟨whole, cs₁⟩, hwhole, h⟩ := Option.bind_eq_some_iff.mp h
  obtain ⟨⟨places, cs₂⟩, hplaces, h⟩ := Option.bind_eq_some_iff.mp h
  obtain ⟨⟨exponent, cs₃⟩, hexponent, h⟩ := Option.map_eq_some_iff.mp h
  obtain ⟨rfl, rfl⟩ := Prod.mk.injEq .. ▸ h
  have hbehind : (splitSign cs).2 ≠ [] := by
    intro hnil
    rw [hnil] at hwhole
    simp [readWhole, spanDigits] at hwhole
  simp only [splitSign_append hbehind, readWhole_append hrest hwhole,
    readPlaces_append hrest hplaces, readExponent_append hrest hexponent, Option.bind_some,
    Option.map_some]

/-- **What follows a number does not change how it is read.** -/
theorem readNumber_append {cs left : List Char} {d : Document}
    (h : readNumber cs = (d, some left)) : readNumber (cs ++ rest) = (d, some (left ++ rest)) := by
  rw [readNumber] at h ⊢
  split at h
  · cases h
  · rename_i t left' htext
    rw [readNumberText_append hrest htext]
    dsimp only
    split at h
    · obtain ⟨rfl, rfl⟩ : Document.number _ = d ∧ left' = left := by simpa using h
      rfl
    · obtain ⟨rfl, rfl⟩ : Document.refused = d ∧ left' = left := by simpa using h
      rfl

end Numbers

/-- A number that is read as it was written. -/
def Number.ReadsBack (n : Number) : Prop :=
  readNumber n.chars = (.number n, some [])

theorem Number.readsBack_iff {n : Number} :
    n.ReadsBack ↔
      ((readNumberText n.chars).any fun p => p.1.value? == some n && p.2.isEmpty) = true := by
  rw [ReadsBack, readNumber]
  rcases readNumberText n.chars with _ | ⟨t, rest⟩
  · simp
  · rcases hvalue : t.value? with _ | m <;> simp [hvalue]

instance (n : Number) : Decidable n.ReadsBack :=
  decidable_of_iff _ Number.readsBack_iff.symm

/-- A number that is read at all begins with a sign or a digit. -/
theorem Number.ReadsBack.exists_head {n : Number} (h : n.ReadsBack) :
    ∃ c cs, n.chars = c :: cs ∧ (c = '-' ∨ c.isDigit = true) := by
  rw [ReadsBack, readNumber] at h
  cases htext : readNumberText n.chars with
  | none =>
    rw [htext] at h
    cases h
  | some parts =>
    rw [readNumberText_eq] at htext
    obtain ⟨⟨whole, cs₁⟩, hwhole, -⟩ := Option.bind_eq_some_iff.mp htext
    cases hchars : n.chars with
    | nil =>
      rw [hchars] at hwhole
      simp [splitSign, readWhole, spanDigits] at hwhole
    | cons c cs =>
      refine ⟨c, cs, rfl, ?_⟩
      by_cases hminus : c = '-'
      · exact .inl hminus
      · rw [hchars] at hwhole
        cases hdigit : c.isDigit with
        | true => exact .inr rfl
        | false => simp [splitSign, hminus, readWhole, spanDigits, hdigit] at hwhole

/-! ### Texts -/

/-- The four digits of a control character stand for it. -/
theorem hexUnit?_control :
    ∀ n < 32, hexUnit? '0' '0' (Nat.digitChar (n / 16)) (Nat.digitChar (n % 16)) = some n := by
  decide

/-- A character behind a backslash is read as what it stands for. -/
theorem readUnits_escaped {e c : Char} (he : e ≠ 'u') (hc : unescape? e = some c)
    (tail : List Char) :
    readUnits ('\\' :: e :: tail) =
      (readUnits tail).map fun p => (.char c :: p.1, p.2) := by
  rw [readUnits.eq_def]
  split
  · simp_all
  · simp_all
  · simp_all
  · rename_i e' tail' hnot heq
    obtain ⟨rfl, rfl⟩ : e = e' ∧ tail = tail' := by simpa using heq
    rw [hc]
    cases readUnits tail <;> rfl
  · rename_i c' rest' _ _ hbackslash heq
    obtain ⟨hc', hrest'⟩ : '\\' = c' ∧ e :: tail = rest' := by simpa using heq
    exact absurd hrest'.symm (hbackslash _ _ hc'.symm)

/-- Any other character but a quote stands for itself, unless it is a control character. -/
theorem readUnits_plain {c : Char} (hquote : c ≠ '"') (hbackslash : c ≠ '\\')
    (hplain : 0x20 ≤ c.toNat) (tail : List Char) :
    readUnits (c :: tail) = (readUnits tail).map fun p => (.char c :: p.1, p.2) := by
  have hreadable : ¬ (c.toNat < 0x20 || c = '\\') = true := by
    simp [hbackslash]
    omega
  rw [readUnits.eq_def]
  split
  · simp_all
  · simp_all
  · simp_all
  · simp_all
  · rename_i c' rest' _ _ _ heq
    obtain ⟨rfl, rfl⟩ : c = c' ∧ tail = rest' := by simpa using heq
    rw [if_neg hreadable]
    cases readUnits tail <;> rfl

/-- A control character is read from its four digits. -/
theorem readUnits_control {c : Char} (hcontrol : c.toNat < 0x20) (tail : List Char) :
    readUnits ('\\' :: 'u' :: '0' :: '0' :: Nat.digitChar (c.toNat / 16) ::
        Nat.digitChar (c.toNat % 16) :: tail) =
      (readUnits tail).map fun p => (.char c :: p.1, p.2) := by
  have hwhole : (isLeading c.toNat || isTrailing c.toNat) = false := by
    simp [isLeading, isTrailing]
    omega
  rw [readUnits, hexUnit?_control c.toNat hcontrol]
  cases readUnits tail with
  | none => rfl
  | some p => simp [hwhole, Char.ofNat_toNat]

/-- **An escaped character is read as it was.** -/
theorem readUnits_escapeChar (c : Char) (tail : List Char) :
    readUnits (escapeChar c ++ tail) =
      (readUnits tail).map fun p => (.char c :: p.1, p.2) := by
  rw [escapeChar]
  split
  · subst_vars
    exact readUnits_escaped (by decide) rfl tail
  split
  · subst_vars
    exact readUnits_escaped (by decide) rfl tail
  split
  · exact readUnits_plain ‹_› ‹_› ‹_› tail
  split
  · subst_vars
    exact readUnits_escaped (by decide) rfl tail
  split
  · subst_vars
    exact readUnits_escaped (by decide) rfl tail
  split
  · subst_vars
    exact readUnits_escaped (by decide) rfl tail
  split
  · subst_vars
    exact readUnits_escaped (by decide) rfl tail
  split
  · subst_vars
    exact readUnits_escaped (by decide) rfl tail
  · exact readUnits_control (by omega) tail

theorem readUnits_escapeChars (cs tail : List Char) :
    readUnits (cs.flatMap escapeChar ++ '"' :: tail) = some (cs.map .char, tail) := by
  induction cs with
  | nil => simp [readUnits]
  | cons c cs ih =>
    rw [List.flatMap_cons, List.append_assoc, readUnits_escapeChar, ih]
    rfl

theorem joinUnits_chars (cs : List Char) : joinUnits (cs.map .char) = some cs := by
  induction cs with
  | nil => rfl
  | cons c cs ih => simp [joinUnits, ih]

/-- **Every text is read as it was written,** behind its opening quote. -/
theorem readString_escapeChars (s : String) (tail : List Char) :
    readString (s.toList.flatMap escapeChar ++ '"' :: tail) = some (some s, tail) := by
  simp only [readString, readUnits_escapeChars, joinUnits_chars, Option.map_some,
    String.ofList_toList]

/-! ### Values -/

mutual

/-- A value that is read as it was written, inside of `depth` arrays and objects. -/
def Value.ReadsBack : Value → Nat → Prop
  | .number n, _ => n.ReadsBack
  | .array items, depth => depth < maxDepth ∧ ItemsReadBack items (depth + 1)
  | .object fields, depth => depth < maxDepth ∧ FieldsReadBack fields (depth + 1)
  | _, _ => True

/-- The items of an array are read as they were written. -/
def ItemsReadBack : List Value → Nat → Prop
  | [], _ => True
  | v :: rest, depth => v.ReadsBack depth ∧ ItemsReadBack rest depth

/-- The fields of an object are read as they were written. -/
def FieldsReadBack : List (String × Value) → Nat → Prop
  | [], _ => True
  | (_, v) :: rest, depth => v.ReadsBack depth ∧ FieldsReadBack rest depth

end

theorem itemsReadBack_of_forall {items : List Value} {depth : Nat}
    (h : ∀ v ∈ items, v.ReadsBack depth) : ItemsReadBack items depth := by
  induction items with
  | nil => trivial
  | cons v rest ih =>
    exact ⟨h v List.mem_cons_self, ih fun w hw => h w (List.mem_cons_of_mem v hw)⟩

theorem fieldsReadBack_of_forall {fields : List (String × Value)} {depth : Nat}
    (h : ∀ f ∈ fields, f.2.ReadsBack depth) : FieldsReadBack fields depth := by
  induction fields with
  | nil => trivial
  | cons f rest ih =>
    exact ⟨h f List.mem_cons_self, ih fun g hg => h g (List.mem_cons_of_mem f hg)⟩

/-- A character with which a value can begin: it is not blank, and closes nothing. -/
def Opens (c : Char) : Prop :=
  c ∉ [' ', '\t', '\n', '\r', ']', '}']

instance (c : Char) : Decidable (Opens c) :=
  inferInstanceAs (Decidable (c ∉ _))

theorem skipBlank_of_opens {c : Char} (h : Opens c) (cs : List Char) :
    skipBlank (c :: cs) = c :: cs := by
  rw [skipBlank, List.dropWhile_cons_of_neg]
  simp only [Opens, List.mem_cons, not_or] at h
  simp [h]

theorem opens_of_sign_or_digit {c : Char} (h : c = '-' ∨ c.isDigit = true) : Opens c := by
  intro hc
  simp only [List.mem_cons, List.not_mem_nil, or_false] at hc
  rcases hc with rfl | rfl | rfl | rfl | rfl | rfl <;> revert h <;> decide

/-- A value begins with a character that opens it. -/
theorem Value.exists_head {v : Value} {depth : Nat} (h : v.ReadsBack depth) :
    ∃ c cs, v.chars = c :: cs ∧ Opens c := by
  cases v with
  | null => exact ⟨_, _, rfl, by decide⟩
  | boolean b => cases b <;> exact ⟨_, _, rfl, by decide⟩
  | number n =>
    obtain ⟨c, cs, hchars, hhead⟩ := Number.ReadsBack.exists_head h
    exact ⟨c, cs, hchars, opens_of_sign_or_digit hhead⟩
  | text s => exact ⟨_, _, rfl, by decide⟩
  | array items => exact ⟨_, _, by rw [Value.chars], by decide⟩
  | object fields => exact ⟨_, _, by rw [Value.chars], by decide⟩

/-- A number is read as one, since it begins with a sign or a digit. -/
theorem readValue_of_sign_or_digit {c : Char} (h : c = '-' ∨ c.isDigit = true) (fuel depth : Nat)
    (cs : List Char) : readValue (fuel + 1) depth (c :: cs) = readNumber (c :: cs) := by
  rw [readValue, skipBlank_of_opens (opens_of_sign_or_digit h)]
  split <;> simp_all

/-- An array with items is read item by item. -/
theorem readValue_items {c : Char} (h : Opens c) (fuel depth : Nat) (cs : List Char) :
    readValue (fuel + 1) depth ('[' :: c :: cs) =
      (sealDepth depth (.array (readItems fuel (depth + 1) (c :: cs)).1)
          (readItems fuel (depth + 1) (c :: cs)).2,
        (readItems fuel (depth + 1) (c :: cs)).2) := by
  have hbracket : c ≠ ']' := by
    rintro rfl
    exact absurd h (by decide)
  rw [readValue, skipBlank_of_opens (by decide)]
  simp only [skipBlank_of_opens h]
  split
  · simp_all
  · rfl

/-- An object with fields is read field by field. -/
theorem readValue_entries {c : Char} (h : Opens c) (fuel depth : Nat) (cs : List Char) :
    readValue (fuel + 1) depth ('{' :: c :: cs) =
      (sealDepth depth (.object (readEntries fuel (depth + 1) (c :: cs)).1)
          (readEntries fuel (depth + 1) (c :: cs)).2,
        (readEntries fuel (depth + 1) (c :: cs)).2) := by
  have hbrace : c ≠ '}' := by
    rintro rfl
    exact absurd h (by decide)
  rw [readValue, skipBlank_of_opens (by decide)]
  simp only [skipBlank_of_opens h]
  split
  · simp_all
  · rfl

theorem skipBlank_comma (cs : List Char) : skipBlank (',' :: cs) = ',' :: cs :=
  skipBlank_of_opens (by decide) cs

theorem skipBlank_colon (cs : List Char) : skipBlank (':' :: cs) = ':' :: cs :=
  skipBlank_of_opens (by decide) cs

theorem skipBlank_bracket (cs : List Char) : skipBlank (']' :: cs) = ']' :: cs := rfl

theorem skipBlank_brace (cs : List Char) : skipBlank ('}' :: cs) = '}' :: cs := rfl

/-- The items of an array that is not empty: one, and then the others behind a comma. -/
theorem itemsChars_cons_cons (v w : Value) (rest : List Value) :
    itemsChars (v :: w :: rest) = v.chars ++ ',' :: itemsChars (w :: rest) := by
  rw [itemsChars, moreItemsChars, itemsChars]

theorem fieldsChars_cons_cons (k : String) (v : Value) (f : String × Value)
    (rest : List (String × Value)) :
    fieldsChars ((k, v) :: f :: rest) =
      quotedChars k ++ ':' :: (v.chars ++ ',' :: fieldsChars (f :: rest)) := by
  rw [fieldsChars, moreFieldsChars, fieldsChars]

/-- A step at least is left for a value. -/
theorem Value.exists_step {v : Value} {depth fuel : Nat} (h : v.ReadsBack depth)
    (hfuel : 2 * v.chars.length ≤ fuel) : ∃ more, fuel = more + 1 := by
  obtain ⟨c, cs, hchars, -⟩ := Value.exists_head h
  rw [hchars, List.length_cons] at hfuel
  exact ⟨fuel - 1, by omega⟩

mutual

/-- **A value is read as it was written.** The induction is on the value; steps are enough if there
are twice as many as characters. -/
theorem readValue_chars : ∀ (v : Value) (depth fuel : Nat) (rest : List Char),
    v.ReadsBack depth → 2 * v.chars.length ≤ fuel → Closes rest →
      readValue fuel depth (v.chars ++ rest) = (.ofValue v, some rest)
  | .null, _, _, _, h, hfuel, _ => by
    obtain ⟨fuel, rfl⟩ := Value.exists_step h hfuel
    rfl
  | .boolean true, _, _, _, h, hfuel, _ => by
    obtain ⟨fuel, rfl⟩ := Value.exists_step h hfuel
    rfl
  | .boolean false, _, _, _, h, hfuel, _ => by
    obtain ⟨fuel, rfl⟩ := Value.exists_step h hfuel
    rfl
  | .number n, _, _, _, h, hfuel, hrest => by
    obtain ⟨fuel, rfl⟩ := Value.exists_step h hfuel
    obtain ⟨c, cs, hchars, hhead⟩ := Number.ReadsBack.exists_head h
    have hread := readNumber_append hrest h
    rw [Value.chars]
    rw [hchars] at hread ⊢
    rw [List.cons_append, readValue_of_sign_or_digit hhead]
    exact hread
  | .text s, _, _, _, h, hfuel, _ => by
    obtain ⟨fuel, rfl⟩ := Value.exists_step h hfuel
    rw [Value.chars, quotedChars, List.cons_append, List.append_assoc, readValue,
      skipBlank_of_opens (by decide)]
    simp only [List.singleton_append, readString_escapeChars]
    rfl
  | .array [], _, _, _, h, hfuel, _ => by
    obtain ⟨fuel, rfl⟩ := Value.exists_step h hfuel
    rw [Value.chars, itemsChars, List.cons_append, readValue, skipBlank_of_opens (by decide)]
    simp only [List.singleton_append, skipBlank_bracket, sealDepth, h.1, if_true]
    rfl
  | .array (v :: items), depth, _, rest, h, hfuel, _ => by
    obtain ⟨fuel, rfl⟩ := Value.exists_step h hfuel
    have hitems := readItems_chars v items (depth + 1) fuel rest h.2 (by
      rw [Value.chars, List.length_cons] at hfuel
      omega)
    obtain ⟨c, cs, hchars, hopens⟩ := Value.exists_head h.2.1
    have hhead : ∃ more, itemsChars (v :: items) ++ rest = c :: more := by
      rw [itemsChars, hchars]
      exact ⟨_, rfl⟩
    obtain ⟨more, hmore⟩ := hhead
    rw [hmore] at hitems
    rw [Value.chars, List.cons_append, hmore, readValue_items hopens, hitems, sealDepth,
      if_pos h.1]
    rfl
  | .object [], _, _, _, h, hfuel, _ => by
    obtain ⟨fuel, rfl⟩ := Value.exists_step h hfuel
    rw [Value.chars, fieldsChars, List.cons_append, readValue, skipBlank_of_opens (by decide)]
    simp only [List.singleton_append, skipBlank_brace, sealDepth, h.1, if_true]
    rfl
  | .object ((k, v) :: fields), depth, _, rest, h, hfuel, _ => by
    obtain ⟨fuel, rfl⟩ := Value.exists_step h hfuel
    have hfields := readEntries_chars k v fields (depth + 1) fuel rest h.2 (by
      rw [Value.chars, List.length_cons] at hfuel
      omega)
    have hhead : ∃ more, fieldsChars ((k, v) :: fields) ++ rest = '"' :: more := by
      rw [fieldsChars, quotedChars]
      exact ⟨_, rfl⟩
    obtain ⟨more, hmore⟩ := hhead
    rw [hmore] at hfields
    rw [Value.chars, List.cons_append, hmore, readValue_entries (by decide), hfields, sealDepth,
      if_pos h.1]
    rfl
termination_by v => sizeOf v

/-- The items of an array are read as they were written. -/
theorem readItems_chars : ∀ (v : Value) (items : List Value) (depth fuel : Nat) (rest : List Char),
    ItemsReadBack (v :: items) depth → 2 * (itemsChars (v :: items)).length ≤ fuel →
      readItems fuel depth (itemsChars (v :: items) ++ rest) =
        (Document.ofItems (v :: items), some rest)
  | v, [], depth, fuel, rest, h, hfuel => by
    rw [itemsChars, moreItemsChars, List.length_append, List.length_singleton] at hfuel
    obtain ⟨fuel, rfl⟩ : ∃ more, fuel = more + 1 := ⟨fuel - 1, by omega⟩
    have hv := readValue_chars v depth fuel (']' :: rest) h.1 (by omega)
      (closes_cons rest (by simp))
    rw [itemsChars, moreItemsChars, List.append_assoc, List.singleton_append, readItems, hv]
    rfl
  | v, w :: items, depth, fuel, rest, h, hfuel => by
    rw [itemsChars_cons_cons, List.length_append, List.length_cons] at hfuel
    obtain ⟨fuel, rfl⟩ : ∃ more, fuel = more + 1 := ⟨fuel - 1, by omega⟩
    have hv := readValue_chars v depth fuel (',' :: (itemsChars (w :: items) ++ rest)) h.1
      (by omega) (closes_cons _ (by simp))
    have hitems := readItems_chars w items depth fuel rest h.2 (by omega)
    rw [itemsChars_cons_cons, List.append_assoc, List.cons_append, readItems, hv]
    simp only [skipBlank_comma, hitems]
    rfl
termination_by v items => sizeOf (v :: items)

/-- The fields of an object are read as they were written. -/
theorem readEntries_chars : ∀ (k : String) (v : Value) (fields : List (String × Value))
    (depth fuel : Nat) (rest : List Char), FieldsReadBack ((k, v) :: fields) depth →
      2 * (fieldsChars ((k, v) :: fields)).length ≤ fuel →
        readEntries fuel depth (fieldsChars ((k, v) :: fields) ++ rest) =
          (Document.ofFields ((k, v) :: fields), some rest)
  | k, v, [], depth, fuel, rest, h, hfuel => by
    rw [fieldsChars, moreFieldsChars] at hfuel
    simp only [List.length_append, List.length_cons] at hfuel
    obtain ⟨fuel, rfl⟩ : ∃ more, fuel = more + 1 := ⟨fuel - 1, by omega⟩
    have hv := readValue_chars v depth fuel ('}' :: rest) h.1 (by omega)
      (closes_cons rest (by simp))
    simp only [fieldsChars, moreFieldsChars, quotedChars, List.cons_append, List.append_assoc,
      List.nil_append]
    rw [readEntries, skipBlank_of_opens (by decide)]
    simp only [readString_escapeChars, skipBlank_colon, hv, skipBlank_brace]
    rfl
  | k, v, (l, w) :: fields, depth, fuel, rest, h, hfuel => by
    rw [fieldsChars_cons_cons] at hfuel
    simp only [List.length_append, List.length_cons] at hfuel
    obtain ⟨fuel, rfl⟩ : ∃ more, fuel = more + 1 := ⟨fuel - 1, by omega⟩
    have hv := readValue_chars v depth fuel (',' :: (fieldsChars ((l, w) :: fields) ++ rest)) h.1
      (by omega) (closes_cons _ (by simp))
    have hfields := readEntries_chars l w fields depth fuel rest h.2 (by omega)
    rw [fieldsChars_cons_cons]
    simp only [quotedChars, List.cons_append, List.append_assoc, List.nil_append]
    rw [readEntries, skipBlank_of_opens (by decide)]
    simp only [readString_escapeChars, skipBlank_colon, hv, skipBlank_comma, hfields]
    rfl
termination_by k v fields => sizeOf ((k, v) :: fields)

end

/-! ### Whole texts -/

/-- A value is all that its text holds. -/
theorem Text.ofString_render {v : Value} (h : v.ReadsBack 0) :
    Text.ofString v.render = ⟨.ofValue v, false⟩ := by
  have hread := readValue_chars v 0 (2 * v.chars.length + 2) [] h (by omega) closes_nil
  rw [List.append_nil] at hread
  simp only [Text.ofString, Value.render, String.toList_ofList, hread]
  rfl

/-- **A text is read as the value it was written from,** the fields of objects in the order of
their names. -/
theorem parse?_render {v : Value} (h : v.ReadsBack 0) :
    parse? v.render = (Document.ofValue v).toValue? := by
  rw [parse?, Text.ofString_render h]
  rfl

/-- What is decoded from a text is what is decoded from the value that it was written from. -/
theorem decodeText_render {α : Type} {decode : Decoder α} {v : Value} (h : v.ReadsBack 0) :
    decodeText decode v.render = decodeValue decode v := by
  simp only [decodeText, decodeValue, Text.ofString_render h]
  cases decode (.ofValue v) <;> rfl

namespace Document

theorem itemValues?_ofItems {items : List Value}
    (h : ∀ v ∈ items, (ofValue v).toValue? = some v) :
    itemValues? (ofItems items) = some items := by
  induction items with
  | nil => rfl
  | cons v rest ih =>
    have hrest := ih fun w hw => h w (List.mem_cons_of_mem v hw)
    simp only [ofItems, itemValues?, h v List.mem_cons_self, hrest]

theorem entryValues?_ofFields {fields : List (String × Value)}
    (h : ∀ f ∈ fields, (ofValue f.2).toValue? = some f.2) :
    entryValues? (ofFields fields) = some fields := by
  induction fields with
  | nil => rfl
  | cons f rest ih =>
    have hrest := ih fun g hg => h g (List.mem_cons_of_mem f hg)
    simp only [ofFields, entryValues?, h f List.mem_cons_self, hrest]

/-- An array is plain if its items are. -/
theorem toValue?_array {items : List Value} (h : ∀ v ∈ items, (ofValue v).toValue? = some v) :
    (ofValue (.array items)).toValue? = some (.array items) := by
  rw [ofValue, toValue?, itemValues?_ofItems h]
  rfl

/-- An object is plain if its fields are, but for their order. -/
theorem toValue?_object {fields : List (String × Value)}
    (h : ∀ f ∈ fields, (ofValue f.2).toValue? = some f.2) :
    (ofValue (.object fields)).toValue? = some (.object (SortedMap.ofList fields).entries) := by
  rw [ofValue, toValue?, entryValues?_ofFields h]
  rfl

end Document

end Json

end RegionPolicy
