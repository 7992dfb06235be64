import RegionPolicy.Proofs.Collections
import RegionPolicy.Proofs.StoredShapes

/-!
# Decoding what was encoded

What encoding and decoding have in common, whatever the record is. An integer of 64 bits is read as
it was written, so of all numbers only floats have to be asked about. A record is read from the
values of its fields, wherever they stand: a document of different fields can be taken for what a
look-up finds in it, and putting the fields into another order makes no difference.

## Main definitions

* `Json.Fields.ByName` — a record whose fields are found by their names.

## Main results

* `Json.Number.readsBack_integer` — integers are read as they were written.
* `Json.Fields.decode_ofFields` — a record is read from the values of its fields.
* `Json.Fields.ByName.decode_sorted` — in whatever order they stand.
-/

namespace RegionPolicy

namespace Json

/-! ### Integers -/

theorem spanDigits_of_forall {cs : List Char} (h : ∀ c ∈ cs, c.isDigit = true) :
    spanDigits cs = (cs.map digitValue, []) := by
  rw [spanDigits, List.takeWhile_eq_self_iff.mpr h, List.dropWhile_eq_nil_iff.mpr h]

theorem ofDigits_map_digitValue (cs : List Char) :
    ofDigits (cs.map digitValue) = Nat.ofDigitChars 10 cs 0 := by
  rw [ofDigits, List.foldl_map, Nat.ofDigitChars]
  congr 1
  funext n c
  rw [digitValue, Nat.mul_comm]

/-- The first digit of a positive number is not zero. -/
theorem exists_toDigits_eq_cons (n : Nat) (hn : 0 < n) :
    ∃ d cs, Nat.toDigits 10 n = Nat.digitChar d :: cs ∧ 0 < d ∧ d < 10 := by
  induction n using Nat.strongRecOn with
  | ind n ih =>
    rw [Nat.toDigits_eq_if (by omega)]
    split
    · exact ⟨n, [], rfl, hn, by omega⟩
    · obtain ⟨d, cs, hdigits, hd⟩ := ih (n / 10) (by omega) (by omega)
      exact ⟨d, cs ++ [Nat.digitChar (n % 10)], by rw [hdigits, List.cons_append], hd⟩

theorem isDigit_toDigits {n : Nat} : ∀ c ∈ Nat.toDigits 10 n, c.isDigit = true := fun _ hc =>
  Nat.isDigit_of_mem_toDigits (by omega) (by omega) hc

/-- The digits of a number are read as a whole. -/
theorem readWhole_toDigits (n : Nat) :
    readWhole (Nat.toDigits 10 n) = some ((Nat.toDigits 10 n).map digitValue, []) := by
  rw [readWhole, spanDigits_of_forall isDigit_toDigits]
  by_cases hn : n = 0
  · subst hn
    rfl
  · obtain ⟨d, cs, hdigits, hpositive, hd⟩ := exists_toDigits_eq_cons n (by omega)
    have hvalue : digitValue (Nat.digitChar d) = d := Nat.toNat_digitChar_sub_48_of_lt_ten hd
    rw [hdigits, List.map_cons, hvalue]
    cases d with
    | zero => omega
    | succ d => rfl

theorem ofDigits_toDigits (n : Nat) : ofDigits ((Nat.toDigits 10 n).map digitValue) = n := by
  rw [ofDigits_map_digitValue, Nat.ofDigitChars_ten_toDigits]

theorem splitSign_toDigits (n : Nat) :
    splitSign (Nat.toDigits 10 n) = (false, Nat.toDigits 10 n) := by
  cases hdigits : Nat.toDigits 10 n with
  | nil => rfl
  | cons c cs =>
    have hc : c.isDigit = true := isDigit_toDigits c (by rw [hdigits]; exact List.mem_cons_self)
    have hminus : c ≠ '-' := by
      rintro rfl
      cases hc
    simp [splitSign, hminus]

/-- The text of an integer is its sign and its digits. -/
theorem readNumberText_integerChars (i : Int) :
    readNumberText (integerChars i) =
      some (⟨i < 0, (Nat.toDigits 10 i.natAbs).map digitValue, none, none⟩, []) := by
  rw [readNumberText_eq, integerChars]
  split
  · rename_i hi
    simp only [splitSign, readWhole_toDigits, Option.bind_some, readPlaces, readExponent, hi,
      Option.map_some, decide_true]
  · rename_i hi
    simp only [splitSign_toDigits, readWhole_toDigits, Option.bind_some, readPlaces, readExponent,
      hi, Option.map_some, decide_false]

/-- **Integers are read as they were written,** as long as they have 64 bits. -/
theorem Number.readsBack_integer {i : Int} (hlow : -2 ^ 63 ≤ i) (hhigh : i < 2 ^ 64) :
    (Number.integer i).ReadsBack := by
  have hvalue : NumberText.value?
      ⟨i < 0, (Nat.toDigits 10 i.natAbs).map digitValue, none, none⟩ = some (.integer i) := by
    have hpow : Nat.pow 2 64 = 18446744073709551616 ∧ Nat.pow 2 63 = 9223372036854775808 := by
      decide
    simp only [NumberText.value?, ofDigits_toDigits, hpow, Option.isNone_none, Bool.and_self,
      Bool.true_and]
    by_cases hi : i < 0
    · have hfits : 0 < i.natAbs ∧ i.natAbs ≤ 9223372036854775808 := by omega
      simp [hi, hfits, abs_of_neg hi]
    · have hfits : i.natAbs < 18446744073709551616 := by omega
      simp [hi, hfits, abs_of_nonneg (not_lt.mp hi)]
  rw [ReadsBack, readNumber, Number.chars, readNumberText_integerChars]
  simp only [hvalue]

end Json

/-- A look-up in a map is one in its entries. -/
theorem SortedMap.get?_eq_lookup {α : Type} (m : SortedMap String α) (k : String) :
    m.get? k = m.entries.lookup k := by
  rw [get?]
  induction m.entries with
  | nil => rfl
  | cons e rest ih =>
    rw [lookup, ih, List.lookup_cons]
    by_cases hk : k = e.1
    · simp [hk]
    · rw [if_neg fun h => hk (Std.LawfulEqOrd.eq_of_compare h), beq_false_of_ne hk]

namespace Json

/-! ### Values as documents -/

namespace Document

mutual

/-- Every part of a value has a value. -/
theorem isReadable_ofValue : ∀ v : Value, (ofValue v).isReadable = true
  | .null | .boolean _ | .number _ | .text _ => rfl
  | .array items => allReadable_ofItems items
  | .object fields => entriesReadable_ofFields fields

theorem allReadable_ofItems : ∀ items : List Value, allReadable (ofItems items) = true
  | [] => rfl
  | v :: rest => by rw [ofItems, allReadable, isReadable_ofValue v, allReadable_ofItems rest]; rfl

theorem entriesReadable_ofFields :
    ∀ fields : List (String × Value), entriesReadable (ofFields fields) = true
  | [] => rfl
  | (k, v) :: rest => by
    rw [ofFields, entriesReadable, isReadable_ofValue v, entriesReadable_ofFields rest]; rfl

end

mutual

theorem isWellFormed_ofValue : ∀ v : Value, (ofValue v).isWellFormed = true
  | .null | .boolean _ | .number _ | .text _ => rfl
  | .array items => allWellFormed_ofItems items
  | .object fields => entriesWellFormed_ofFields fields

theorem allWellFormed_ofItems : ∀ items : List Value, allWellFormed (ofItems items) = true
  | [] => rfl
  | v :: rest => by
    rw [ofItems, allWellFormed, isWellFormed_ofValue v, allWellFormed_ofItems rest]; rfl

theorem entriesWellFormed_ofFields :
    ∀ fields : List (String × Value), entriesWellFormed (ofFields fields) = true
  | [] => rfl
  | (k, v) :: rest => by
    rw [ofFields, entriesWellFormed, isWellFormed_ofValue v, entriesWellFormed_ofFields rest]; rfl

end

end Document

/-! ### Records -/

/-- An entry is found just where a look-up finds its field. -/
theorem findEntry_ofFields (name : String) (fields : List (String × Value)) (i : Nat) :
    (findEntry name (Document.ofFields fields) i).map Prod.snd =
      (fields.lookup name).map Document.ofValue := by
  induction fields generalizing i with
  | nil => rfl
  | cons f rest ih =>
    obtain ⟨k, v⟩ := f
    rw [Document.ofFields, findEntry, List.lookup_cons]
    by_cases hk : name = k
    · subst hk
      simp
    · rw [if_neg fun h => hk (Option.some.inj h).symm, beq_false_of_ne hk]
      exact ih (i + 1)

/-- Fields with different names are no fault. -/
theorem entryFault_ofFields {names seen : List String} {fields : List (String × Value)}
    (hdistinct : (fields.map Prod.fst).Nodup) (hseen : ∀ f ∈ fields, f.1 ∉ seen) (i : Nat) :
    entryFault names (Document.ofFields fields) seen i = none := by
  induction fields generalizing seen i with
  | nil => rfl
  | cons f rest ih =>
    obtain ⟨k, v⟩ := f
    rw [List.map_cons, List.nodup_cons] at hdistinct
    have hk : seen.contains k = false := by simpa using hseen (k, v) List.mem_cons_self
    have hrest : ∀ g ∈ rest, g.1 ∉ seen := fun g hg => hseen g (List.mem_cons_of_mem _ hg)
    have hnew : ∀ g ∈ rest, g.1 ∉ k :: seen := by
      intro g hg hmem
      rcases List.mem_cons.mp hmem with heq | hold
      · exact hdistinct.1 (List.mem_map.mpr ⟨g, hg, heq⟩)
      · exact hrest g hg hold
    rw [Document.ofFields, entryFault, hk, Document.isWellFormed_ofValue v]
    split
    · exact ih hdistinct.2 hnew (i + 1)
    · exact ih hdistinct.2 hrest (i + 1)

namespace Fields

variable {α β : Type} {fields : List (String × Value)} {name : String} {decode : Decoder α}

/-- What is read from a field depends on what a look-up finds. -/
theorem fromEntries_ofFields_iff {absent : Option α} {a : α} :
    (field name decode absent).fromEntries (Document.ofFields fields) = .ok a ↔
      match fields.lookup name with
      | some v => decodeValue decode v = .ok a
      | none => absent = some a := by
  have hfind := findEntry_ofFields name fields 0
  cases hv : fields.lookup name with
  | some v =>
    rw [hv] at hfind
    obtain ⟨⟨i, d⟩, hentry, hd⟩ := Option.map_eq_some_iff.mp hfind
    obtain rfl : d = Document.ofValue v := hd
    simp only [field, hentry, decodeValue]
    cases decode (Document.ofValue v) <;> simp
  | none =>
    rw [hv, Option.map_none, Option.map_eq_none_iff] at hfind
    simp only [field, hfind]
    cases absent <;> simp

/-- A field that is there has the value that is decoded. -/
theorem fromEntries_of_lookup {v : Value} {a : α} {absent : Option α}
    (hv : fields.lookup name = some v) (ha : decodeValue decode v = .ok a) :
    (field name decode absent).fromEntries (Document.ofFields fields) = .ok a := by
  rw [fromEntries_ofFields_iff, hv]
  exact ha

theorem fromEntries_required {v : Value} {a : α} (hv : fields.lookup name = some v)
    (ha : decodeValue decode v = .ok a) :
    (required name decode).fromEntries (Document.ofFields fields) = .ok a :=
  fromEntries_of_lookup hv ha

theorem fromEntries_optional {v : Value} {a default : α} (hv : fields.lookup name = some v)
    (ha : decodeValue decode v = .ok a) :
    (optional name decode default).fromEntries (Document.ofFields fields) = .ok a :=
  fromEntries_of_lookup hv ha

/-- A field that is missing has its default. -/
theorem fromEntries_optional_of_missing {default : α} (hv : fields.lookup name = none) :
    (optional name decode default).fromEntries (Document.ofFields fields) = .ok default := by
  rw [optional, fromEntries_ofFields_iff, hv]

/-- **A record is read from the values of its fields,** if these have different names. -/
theorem decode_ofFields {fs : Fields α} {a : α} (hdistinct : (fields.map Prod.fst).Nodup)
    (h : fs.fromEntries (Document.ofFields fields) = .ok a) :
    decodeValue fs.decode (.object fields) = .ok a :=
  decode_object (entryFault_ofFields hdistinct (by simp) 0) h

/-- The fields of a record are found by their names: whatever has the same fields is read alike. -/
structure ByName (fs : Fields α) : Prop where
  of_lookup : ∀ (fields fields' : List (String × Value)) (a : α),
    (∀ name, fields'.lookup name = fields.lookup name) →
      fs.fromEntries (Document.ofFields fields) = .ok a →
      fs.fromEntries (Document.ofFields fields') = .ok a

theorem byName_field (name : String) (decode : Decoder α) (absent : Option α) :
    (field name decode absent).ByName := by
  refine ⟨fun fields fields' a hsame h => ?_⟩
  rw [fromEntries_ofFields_iff] at h ⊢
  rw [hsame name]
  exact h

theorem ByName.map {fs : Fields α} (h : fs.ByName) (f : α → β) : (f <$> fs).ByName := by
  refine ⟨fun fields fields' b hsame hb => ?_⟩
  obtain ⟨a, ha, rfl⟩ := fromEntries_map_iff.mp hb
  exact fromEntries_map f (h.of_lookup _ _ a hsame ha)

theorem ByName.seq {fs : Fields (α → β)} {gs : Fields α} (hf : fs.ByName) (hg : gs.ByName) :
    (fs <*> gs).ByName := by
  refine ⟨fun fields fields' b hsame hb => ?_⟩
  obtain ⟨f, a, hfunction, ha, rfl⟩ := fromEntries_seq_iff.mp hb
  exact fromEntries_seq (hf.of_lookup _ _ f hsame hfunction) (hg.of_lookup _ _ a hsame ha)

/-- Fields with different names are found after sorting as before. -/
theorem lookup_sorted (hdistinct : (fields.map Prod.fst).Nodup) (name : String) :
    (SortedMap.ofList fields).entries.lookup name = fields.lookup name := by
  rw [← SortedMap.get?_eq_lookup]
  induction fields with
  | nil => rfl
  | cons f rest ih =>
    -- the first field may be put in last, since no other has its name
    have hlast : SortedMap.ofList (f :: rest) = (SortedMap.ofList rest).insert f.1 f.2 := by
      rw [SortedMap.ofList_perm (List.perm_append_singleton f rest).symm hdistinct,
        SortedMap.ofList, List.foldl_concat, SortedMap.ofList]
    rw [List.map_cons, List.nodup_cons] at hdistinct
    rw [hlast, SortedMap.get?_insert, ih hdistinct.2, List.lookup_cons]
    by_cases hname : name = f.1
    · simp [hname]
    · rw [if_neg hname, beq_false_of_ne hname]

/-- **It makes no difference in which order the fields of a record stand.** -/
theorem ByName.decode_sorted {fs : Fields α} (hfs : fs.ByName) {a : α}
    (hdistinct : (fields.map Prod.fst).Nodup)
    (h : fs.fromEntries (Document.ofFields fields) = .ok a) :
    decodeValue fs.decode (.object (SortedMap.ofList fields).entries) = .ok a :=
  decode_ofFields (SortedMap.nodup_keys _) (hfs.of_lookup _ _ a (lookup_sorted hdistinct) h)

end Fields

/-- The kind of a tagged record is split off, and the other fields are left. -/
theorem splitTag_ofValue {tag kind : String} {fields : List (String × Value)}
    (h : ∀ f ∈ fields, f.1 ≠ tag) :
    splitTag tag (.ofValue (.object ((tag, .text kind) :: fields))) =
      .ok (kind, .ofValue (.object fields)) := by
  have hothers : ∀ e ∈ Document.ofFields fields, e.1 ≠ some tag := by
    intro e he
    induction fields with
    | nil => cases he
    | cons f rest ih =>
      obtain ⟨k, v⟩ := f
      rcases List.mem_cons.mp he with rfl | he
      · exact fun hk => h (k, v) List.mem_cons_self (Option.some.inj hk)
      · exact ih (fun g hg => h g (List.mem_cons_of_mem _ hg)) he
  have hkind : (Document.ofFields ((tag, .text kind) :: fields)).filter (fun e => e.1 == some tag) =
      [(some tag, .text kind)] := by
    rw [Document.ofFields, List.filter_cons_of_pos (by simp), List.filter_eq_nil_iff.mpr]
    · rfl
    · exact fun e he => by simpa using hothers e he
  have hrest : (Document.ofFields ((tag, .text kind) :: fields)).filter (fun e => e.1 != some tag) =
      Document.ofFields fields := by
    rw [Document.ofFields, List.filter_cons_of_neg (by simp), List.filter_eq_self]
    exact fun e he => by simpa using hothers e he
  unfold splitTag
  rw [if_pos (Document.isReadable_ofValue _)]
  simp only [Document.ofValue, hkind, hrest]

/-! ### Leaves -/

section Leaves

variable {α : Type} {decode : Decoder α} {f : α → Value} {depth : Nat}

theorem decode_ofFloat {x : Float} (h : isFinite x = true) :
    decodeValue Decoder.float (.ofFloat x) = .ok x := by
  rw [Value.ofFloat, if_pos h]
  rfl

theorem decode_int32 (i : Int32) : decodeValue Decoder.int32 (.ofInt i.toInt) = .ok i := by
  have hrange : -Nat.pow 2 31 ≤ i.toInt ∧ i.toInt < Nat.pow 2 31 :=
    ⟨i.le_toInt, i.toInt_lt⟩
  show (Decoder.integerBetween _ _ (.number (.integer i.toInt))).map Int32.ofInt = .ok i
  rw [Decoder.integerBetween, if_pos hrange]
  exact congrArg Except.ok i.ofInt_toInt

theorem decode_int64 (i : Int64) : decodeValue Decoder.int64 (.ofInt i.toInt) = .ok i := by
  have hrange : -Nat.pow 2 63 ≤ i.toInt ∧ i.toInt < Nat.pow 2 63 :=
    ⟨i.le_toInt, i.toInt_lt⟩
  show (Decoder.integerBetween _ _ (.number (.integer i.toInt))).map Int64.ofInt = .ok i
  rw [Decoder.integerBetween, if_pos hrange]
  exact congrArg Except.ok i.ofInt_toInt

theorem decode_ofList {l : List α} (h : ∀ a ∈ l, decodeValue decode (f a) = .ok a) :
    decodeValue (Decoder.list decode) (.ofList f l) = .ok l :=
  decodeList_ofList h

theorem decode_texts (l : List String) :
    decodeValue (Decoder.list Decoder.text) (.texts l) = .ok l :=
  decode_ofList fun _ _ => rfl

/-- What is decoded from a value that is not null may as well be missing. -/
theorem decode_some {v : Value} {a : α} (hv : v ≠ .null) (h : decodeValue decode v = .ok a) :
    decodeValue (Decoder.option decode) v = .ok (some a) := by
  have hmap : (decodeValue decode v).map some = .ok (some a) := by
    rw [h]
    rfl
  cases v with
  | null => exact absurd rfl hv
  | _ => exact hmap

theorem decode_ofOption {o : Option α} (hnull : ∀ a, f a ≠ .null)
    (h : ∀ a ∈ o, decodeValue decode (f a) = .ok a) :
    decodeValue (Decoder.option decode) (.ofOption f o) = .ok o := by
  cases o with
  | none => rfl
  | some a => exact decode_some (hnull a) (h a rfl)

theorem readsBack_ofFloat {x : Float} (h : (Number.float x).ReadsBack) :
    (Value.ofFloat x).ReadsBack depth := by
  rw [Value.ofFloat]
  split
  · exact h
  · trivial

theorem readsBack_int32 (i : Int32) : (Value.ofInt i.toInt).ReadsBack depth := by
  have hlow := i.le_toInt
  have hhigh := i.toInt_lt
  exact Number.readsBack_integer (by omega) (by omega)

theorem readsBack_int64 (i : Int64) : (Value.ofInt i.toInt).ReadsBack depth := by
  have hlow := i.le_toInt
  have hhigh := i.toInt_lt
  exact Number.readsBack_integer (by omega) (by omega)

theorem readsBack_ofList {l : List α} (hdepth : depth < maxDepth)
    (h : ∀ a ∈ l, (f a).ReadsBack (depth + 1)) : (Value.ofList f l).ReadsBack depth := by
  refine ⟨hdepth, itemsReadBack_of_forall fun v hv => ?_⟩
  obtain ⟨a, ha, rfl⟩ := List.mem_map.mp hv
  exact h a ha

theorem readsBack_texts (l : List String) (hdepth : depth < maxDepth) :
    (Value.texts l).ReadsBack depth :=
  readsBack_ofList hdepth fun _ _ => trivial

theorem readsBack_ofOption {o : Option α} (h : ∀ a ∈ o, (f a).ReadsBack depth) :
    (Value.ofOption f o).ReadsBack depth := by
  cases o with
  | none => trivial
  | some a => exact h a rfl

/-- A field that is left out if it has no value is read as what it was, there or not. -/
theorem Fields.fromEntries_present {fields : List (String × Value)} {name : String} {o : Option α}
    (hv : fields.lookup name = o.map f) (hnull : ∀ a ∈ o, f a ≠ .null)
    (h : ∀ a ∈ o, decodeValue decode (f a) = .ok a) :
    (optional name (Decoder.option decode) none).fromEntries (Document.ofFields fields) =
      .ok o := by
  cases o with
  | none => exact fromEntries_optional_of_missing hv
  | some a => exact fromEntries_optional hv (decode_some (hnull a rfl) (h a rfl))

end Leaves

end Json

end RegionPolicy
