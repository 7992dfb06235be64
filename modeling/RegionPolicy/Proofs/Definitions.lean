import Mathlib.Data.List.Nodup
import RegionPolicy.Proofs.Decoding
import RegionPolicy.Proofs.SinglePrecision
import RegionPolicy.Region.Definition

/-!
# Definitions as they are written

Whatever is in a definition, it is the same definition after it has been written and read again.
Each field, each flag, each kind of value is read under the name that it is written under, defaults
stand in for nothing, and no binding is coerced, since a binding cannot hold a value of another kind
than its flag's.

What has to be asked of a definition concerns its floats, and nothing else. Those that are not
finite are written as null. Values of single precision are written as the floats to which they are
equal, and rounding gives them back. For a text, floats have to be read as they were written.

## Main definitions

* `RegionDefinition.floats` — the floats of a definition.

## Main results

* `FlagKey.decode_id` — a flag is read by its id.
* `FlagValue.decode_toJson` — all kinds of values are read as they were written.
* `FlagBinding.decode_toJson` — so are bindings, and nothing is coerced.
* `RegionDefinition.decode_render` — so are definitions, as values and as texts.
-/

namespace RegionPolicy

open Json

/-! ### Flags -/

namespace Text

theorem trim_of_forall {s : String} (h : ∀ c ∈ s.toList, isBlankChar c = false) : trim s = s := by
  have hdrop : ∀ cs : List Char, (∀ c ∈ cs, isBlankChar c = false) →
      cs.dropWhile isBlankChar = cs := by
    intro cs hcs
    cases cs with
    | nil => rfl
    | cons c rest => rw [List.dropWhile_cons_of_neg]; simpa using hcs c List.mem_cons_self
  have hreverse : ∀ c ∈ s.toList.reverse, isBlankChar c = false := fun c hc =>
    h c (List.mem_reverse.mp hc)
  rw [trim, trimChars, hdrop _ h, hdrop _ hreverse, List.reverse_reverse, String.ofList_toList]

theorem lowercaseAscii_of_forall {s : String} (h : ∀ c ∈ s.toList, c.toLower = c) :
    lowercaseAscii s = s := by
  rw [lowercaseAscii, List.map_congr_left h, List.map_id', String.ofList_toList]

/-- Small letters and hyphens are neither trimmed nor changed. -/
theorem plain_of_isLower {c : Char} (h : c.isLower = true ∨ c = '-') :
    isBlankChar c = false ∧ c.toLower = c := by
  have hletters : ∀ n < 26, isBlankChar (Char.ofNat (97 + n)) = false ∧
      (Char.ofNat (97 + n)).toLower = Char.ofNat (97 + n) := by
    decide
  rcases h with h | rfl
  · have hrange : 97 ≤ c.toNat ∧ c.toNat ≤ 122 := by
      simpa [Char.isLower, UInt32.le_iff_toNat_le] using h
    have hc := hletters (c.toNat - 97) (by omega)
    rw [Nat.add_sub_cancel' hrange.1, Char.ofNat_toNat] at hc
    exact hc
  · decide

end Text

namespace FlagKey

/-- Ids are written in small letters and hyphens. -/
theorem plain_id (k : FlagKey) : ∀ c ∈ k.id.toList, c.isLower = true ∨ c = '-' := by
  have hall : (all.all fun k => k.id.toList.all fun c => c.isLower || c == '-') = true := by
    decide +kernel
  have hid := List.all_eq_true.mp hall k (mem_all k)
  simpa using hid

/-- A flag is found by its id. -/
theorem ofId?_id (k : FlagKey) : ofId? k.id = some k := by
  rw [ofId?]
  cases hfound : all.find? fun j => j.id == k.id with
  | none => simpa using List.find?_eq_none.mp hfound k (mem_all k)
  | some j =>
    have hid : j.id = k.id := by simpa using List.find?_some hfound
    rw [List.inj_on_of_nodup_map nodup_ids (mem_all j) (mem_all k) hid]

theorem ofText_id (k : FlagKey) : ofText k.id = .ok k := by
  rw [ofText, Text.trim_of_forall fun c hc => (Text.plain_of_isLower (k.plain_id c hc)).1,
    Text.lowercaseAscii_of_forall fun c hc => (Text.plain_of_isLower (k.plain_id c hc)).2]
  simp only [ofId?_id]

theorem decode_id (k : FlagKey) : decodeValue decode (.text k.id) = .ok k := by
  show (ofText k.id).mapError DecodeError.domain = .ok k
  rw [ofText_id]
  rfl

end FlagKey

/-! ### Values -/

theorem Single.decode_value {s : Single} (h : RegionPolicy.isFinite s.value = true) :
    decodeValue Decoder.single (.ofFloat s.value) = .ok s := by
  rw [Value.ofFloat, if_pos h]
  exact congrArg Except.ok (Single.ofFloat_value (s.isFinite_value.symm.trans h))

namespace FlagValue

/-- The floats of a value. -/
def floats : FlagValue → List Float
  | double x => [x]
  | location p => p.coordinates
  | vector x y z => [x, y, z]
  | sound _ volume pitch => [volume.value, pitch.value]
  | _ => []

/-- The fields of a value have different names, and none of them is its kind. -/
theorem nodup_jsonFields (v : FlagValue) : ("type" :: v.jsonFields.map Prod.fst).Nodup := by
  cases v <;> simp [jsonFields]

/-- The fields of a value are read as they were written. -/
theorem fromEntries_jsonFields {v : FlagValue} (hfloats : ∀ x ∈ v.floats, isFinite x = true) :
    (fields v.kind).fromEntries (Document.ofFields v.jsonFields) = .ok v := by
  cases v with
  | boolean enabled => exact Fields.fromEntries_map _ (Fields.fromEntries_optional rfl rfl)
  | integer value =>
    exact Fields.fromEntries_map _ (Fields.fromEntries_optional rfl (decode_int64 value))
  | double value =>
    have hvalue : isFinite value = true := hfloats value (by simp [floats])
    exact Fields.fromEntries_map _ (Fields.fromEntries_optional rfl (decode_ofFloat hvalue))
  | text content => exact Fields.fromEntries_map _ (Fields.fromEntries_optional rfl rfl)
  | color hex => exact Fields.fromEntries_map _ (Fields.fromEntries_optional rfl rfl)
  | list entries =>
    exact Fields.fromEntries_map _ (Fields.fromEntries_optional rfl (decode_texts entries))
  | actions ids =>
    exact Fields.fromEntries_map _ (Fields.fromEntries_optional rfl (decode_texts ids))
  | location position =>
    have hposition := Position.decode_toJson_of_isFinite (p := position) hfloats
    exact Fields.fromEntries_map _ (Fields.fromEntries_optional rfl hposition)
  | vector x y z =>
    simp only [floats, List.forall_mem_cons] at hfloats
    obtain ⟨hx, hy, hz, -⟩ := hfloats
    refine Fields.fromEntries_seq (Fields.fromEntries_seq (Fields.fromEntries_map _ ?_) ?_) ?_
    · exact Fields.fromEntries_optional rfl (decode_ofFloat hx)
    · exact Fields.fromEntries_optional rfl (decode_ofFloat hy)
    · exact Fields.fromEntries_optional rfl (decode_ofFloat hz)
  | sound id volume pitch =>
    simp only [floats, List.forall_mem_cons] at hfloats
    obtain ⟨hvolume, hpitch, -⟩ := hfloats
    refine Fields.fromEntries_seq (Fields.fromEntries_seq (Fields.fromEntries_map _ ?_) ?_) ?_
    · exact Fields.fromEntries_optional rfl rfl
    · exact Fields.fromEntries_optional rfl (Single.decode_value hvolume)
    · exact Fields.fromEntries_optional rfl (Single.decode_value hpitch)
  | potion effect amplifier durationTicks =>
    refine Fields.fromEntries_seq (Fields.fromEntries_seq (Fields.fromEntries_map _ ?_) ?_) ?_
    · exact Fields.fromEntries_optional rfl rfl
    · exact Fields.fromEntries_optional rfl (decode_int32 amplifier)
    · exact Fields.fromEntries_optional rfl (decode_int32 durationTicks)

/-- **All kinds of values are read as they were written.** -/
theorem decode_toJson {v : FlagValue} (hfloats : ∀ x ∈ v.floats, isFinite x = true) :
    decodeValue decode v.toJson = .ok v := by
  obtain ⟨htype, hdistinct⟩ := List.nodup_cons.mp v.nodup_jsonFields
  have hothers : ∀ f ∈ v.jsonFields, f.1 ≠ "type" := fun f hf heq =>
    htype (heq ▸ List.mem_map_of_mem hf)
  have hfields := Fields.decode_ofFields hdistinct (fromEntries_jsonFields hfloats)
  rw [decodeValue, decode, toJson, splitTag_ofValue hothers]
  simp only [ValueKind.ofName?_name]
  exact hfields

theorem readsBack_toJson {v : FlagValue} (hfloats : ∀ x ∈ v.floats, (Number.float x).ReadsBack)
    {depth : Nat} (hdepth : depth + 1 < maxDepth) : v.toJson.ReadsBack depth := by
  have hfields : FieldsReadBack v.jsonFields (depth + 1) := by
    cases v with
    | boolean enabled => exact ⟨trivial, trivial⟩
    | integer value => exact ⟨readsBack_int64 value, trivial⟩
    | double value => exact ⟨readsBack_ofFloat (hfloats value (by simp [floats])), trivial⟩
    | text content => exact ⟨trivial, trivial⟩
    | color hex => exact ⟨trivial, trivial⟩
    | list entries => exact ⟨readsBack_texts entries hdepth, trivial⟩
    | actions ids => exact ⟨readsBack_texts ids hdepth, trivial⟩
    | location position =>
      simp only [floats, Position.coordinates, List.forall_mem_cons] at hfloats
      obtain ⟨hx, hy, hz, -⟩ := hfloats
      exact ⟨⟨hdepth, trivial, readsBack_ofFloat hx, readsBack_ofFloat hy, readsBack_ofFloat hz,
        trivial⟩, trivial⟩
    | vector x y z =>
      simp only [floats, List.forall_mem_cons] at hfloats
      obtain ⟨hx, hy, hz, -⟩ := hfloats
      exact ⟨readsBack_ofFloat hx, readsBack_ofFloat hy, readsBack_ofFloat hz, trivial⟩
    | sound id volume pitch =>
      simp only [floats, List.forall_mem_cons] at hfloats
      obtain ⟨hvolume, hpitch, -⟩ := hfloats
      exact ⟨trivial, readsBack_ofFloat hvolume, readsBack_ofFloat hpitch, trivial⟩
    | potion effect amplifier durationTicks =>
      exact ⟨trivial, readsBack_int32 amplifier, readsBack_int32 durationTicks, trivial⟩
  exact ⟨by omega, trivial, hfields⟩

end FlagValue

/-! ### Bindings -/

namespace FlagBinding

/-- **A binding is read as it was written.** Its value is of its flag's kind, so nothing is
coerced. -/
theorem decode_toJson {b : FlagBinding} (hfloats : ∀ x ∈ b.value.floats, isFinite x = true) :
    decodeValue decode b.toJson = .ok b := by
  have hvalue : decodeValue (Decoder.option FlagValue.decode) b.value.toJson = .ok (some b.value) :=
    decode_some (by simp [FlagValue.toJson]) (FlagValue.decode_toJson hfloats)
  have hparts : decodeValue decode b.toJson = .ok (ofParts b.key (some b.value)) := by
    rw [decode, toJson]
    refine Fields.decode_ofFields (by simp) ?_
    rw [fields]
    refine Fields.fromEntries_seq ?_ ?value
    refine Fields.fromEntries_map ofParts ?key
    case key => exact Fields.fromEntries_required rfl b.key.decode_id
    case value => exact Fields.fromEntries_optional rfl hvalue
  rw [hparts, ofParts, ofValue_self]

theorem readsBack_toJson {b : FlagBinding}
    (hfloats : ∀ x ∈ b.value.floats, (Number.float x).ReadsBack) {depth : Nat}
    (hdepth : depth + 2 < maxDepth) : b.toJson.ReadsBack depth :=
  ⟨by omega, trivial, FlagValue.readsBack_toJson hfloats (by omega), trivial⟩

end FlagBinding

/-! ### Artifacts -/

theorem WorldSettings.decode_toJson {s : WorldSettings} (hmin : isFinite s.minY = true)
    (hmax : isFinite s.maxY = true) : decodeValue decode s.toJson = .ok s := by
  rw [decode, toJson]
  refine Fields.decode_ofFields (by simp) ?_
  refine Fields.fromEntries_seq (Fields.fromEntries_seq (Fields.fromEntries_map _ ?_) ?_) ?_
  · exact Fields.fromEntries_optional rfl (decode_texts s.worlds)
  · exact Fields.fromEntries_optional rfl (decode_ofFloat hmin)
  · exact Fields.fromEntries_optional rfl (decode_ofFloat hmax)

/-- The floats of an artifact. -/
def Artifact.floats (a : Artifact) : List Float :=
  a.global.toList.flatMap fun s => [s.minY, s.maxY]

theorem Artifact.decode_toJson {a : Artifact} (h : ∀ x ∈ a.floats, isFinite x = true) :
    decodeValue decode a.toJson = .ok a := by
  have hglobal : decodeValue (Decoder.option WorldSettings.decode)
      (.ofOption WorldSettings.toJson a.global) = .ok a.global := by
    refine decode_ofOption (fun s => by simp [WorldSettings.toJson]) fun s hs => ?_
    have hfloats : ∀ x ∈ [s.minY, s.maxY], isFinite x = true := fun x hx =>
      h x (List.mem_flatMap.mpr ⟨s, Option.mem_toList.mpr hs, hx⟩)
    exact WorldSettings.decode_toJson (hfloats s.minY (by simp)) (hfloats s.maxY (by simp))
  rw [decode, toJson]
  refine Fields.decode_ofFields (by simp) ?_
  refine Fields.fromEntries_seq (Fields.fromEntries_seq (Fields.fromEntries_map _ ?_) ?_) ?_
  · exact Fields.fromEntries_required rfl rfl
  · exact Fields.fromEntries_optional rfl rfl
  · exact Fields.fromEntries_optional rfl hglobal

theorem Artifact.readsBack_toJson {a : Artifact}
    (h : ∀ x ∈ a.floats, (Number.float x).ReadsBack) {depth : Nat} (hdepth : depth + 2 < maxDepth) :
    a.toJson.ReadsBack depth := by
  refine ⟨by omega, trivial, trivial, readsBack_ofOption fun s hs => ?_, trivial⟩
  have hfloats : ∀ x ∈ [s.minY, s.maxY], (Number.float x).ReadsBack := fun x hx =>
    h x (List.mem_flatMap.mpr ⟨s, Option.mem_toList.mpr hs, hx⟩)
  exact ⟨by omega, readsBack_texts s.worlds (by omega),
    readsBack_ofFloat (hfloats s.minY (by simp)), readsBack_ofFloat (hfloats s.maxY (by simp)),
    trivial⟩

/-! ### Definitions -/

namespace RegionDefinition

/-- The floats of a definition: the altitudes of a world-wide region, and those in flag values. -/
def floats (d : RegionDefinition) : List Float :=
  d.artifact.toList.flatMap Artifact.floats ++ d.flags.flatMap fun b => b.value.floats

theorem decode_toJson {d : RegionDefinition} (hfloats : ∀ x ∈ d.floats, isFinite x = true) :
    decodeValue decode d.toJson = .ok d := by
  obtain ⟨hartifacts, hvalues⟩ := List.forall_mem_append.mp hfloats
  have hartifact : decodeValue (Decoder.option Artifact.decode)
      (.ofOption Artifact.toJson d.artifact) = .ok d.artifact := by
    refine decode_ofOption (fun a => by simp [Artifact.toJson]) fun a ha => ?_
    exact Artifact.decode_toJson fun x hx =>
      hartifacts x (List.mem_flatMap.mpr ⟨a, Option.mem_toList.mpr ha, hx⟩)
  have hparent : decodeValue (Decoder.option RegionId.decode)
      (.ofOption (fun id => .text id.text) d.parent) = .ok d.parent :=
    decode_ofOption (fun id => by simp) fun _ _ => rfl
  have hflags : decodeValue (Decoder.list FlagBinding.decode)
      (.ofList FlagBinding.toJson d.flags) = .ok d.flags :=
    decode_ofList fun b hb => FlagBinding.decode_toJson fun x hx =>
      hvalues x (List.mem_flatMap.mpr ⟨b, hb, hx⟩)
  rw [decode, toJson]
  refine Fields.decode_ofFields (by simp) ?_
  show fields.fromEntries _ =
    .ok ⟨d.id, d.name, d.artifact, d.priority, d.owners, d.members, d.groupIds, d.parent, d.flags⟩
  rw [fields]
  refine Fields.fromEntries_seq ?_ ?flags
  refine Fields.fromEntries_seq ?_ ?parent
  refine Fields.fromEntries_seq ?_ ?groups
  refine Fields.fromEntries_seq ?_ ?members
  refine Fields.fromEntries_seq ?_ ?owners
  refine Fields.fromEntries_seq ?_ ?priority
  refine Fields.fromEntries_seq ?_ ?artifact
  refine Fields.fromEntries_seq ?_ ?name
  refine Fields.fromEntries_map RegionDefinition.mk ?id
  case id => exact Fields.fromEntries_required rfl rfl
  case name => exact Fields.fromEntries_optional rfl rfl
  case artifact => exact Fields.fromEntries_optional rfl hartifact
  case priority => exact Fields.fromEntries_optional rfl (decode_int32 d.priority)
  case owners => exact Fields.fromEntries_optional rfl (decode_texts d.owners)
  case members => exact Fields.fromEntries_optional rfl (decode_texts d.members)
  case groups => exact Fields.fromEntries_optional rfl (decode_texts d.groupIds)
  case parent => exact Fields.fromEntries_optional rfl hparent
  case flags => exact Fields.fromEntries_optional rfl hflags

theorem readsBack_toJson {d : RegionDefinition}
    (hfloats : ∀ x ∈ d.floats, (Number.float x).ReadsBack) : d.toJson.ReadsBack 0 := by
  obtain ⟨hartifacts, hvalues⟩ := List.forall_mem_append.mp hfloats
  have hartifact : (Value.ofOption Artifact.toJson d.artifact).ReadsBack 1 :=
    readsBack_ofOption fun a ha => Artifact.readsBack_toJson
      (fun x hx => hartifacts x (List.mem_flatMap.mpr ⟨a, Option.mem_toList.mpr ha, hx⟩))
      (by decide)
  have hparent : (Value.ofOption (fun id : RegionId => .text id.text) d.parent).ReadsBack 1 :=
    readsBack_ofOption fun _ _ => trivial
  have hflags : (Value.ofList FlagBinding.toJson d.flags).ReadsBack 1 :=
    readsBack_ofList (by decide) fun b hb => FlagBinding.readsBack_toJson
      (fun x hx => hvalues x (List.mem_flatMap.mpr ⟨b, hb, hx⟩)) (by decide)
  have htexts : ∀ l : List String, (Value.texts l).ReadsBack 1 := fun l =>
    readsBack_texts l (by decide)
  exact ⟨by decide, trivial, trivial, hartifact, readsBack_int32 d.priority, htexts d.owners,
    htexts d.members, htexts d.groupIds, hparent, hflags, trivial⟩

/-- **A definition is the same after it has been written and read again,** whatever it holds, as
long as its floats are finite: as a value, and as a text if its floats are read as they were
written. No binding is changed by being made again from its parts. -/
theorem decode_render (d : RegionDefinition) (hfloats : ∀ x ∈ d.floats, isFinite x = true) :
    decodeValue decode d.toJson = .ok d ∧
      ((∀ x ∈ d.floats, (Number.float x).ReadsBack) →
        decodeText decode d.toJson.render = .ok d) ∧
      ∀ b ∈ d.flags, FlagBinding.ofParts b.key (some b.value) = b := by
  refine ⟨decode_toJson hfloats, fun hread => ?_, fun b _ => FlagBinding.ofValue_self b⟩
  rw [decodeText_render (readsBack_toJson hread), decode_toJson hfloats]

/-- A world-wide region in which bells ring, with a value of most kinds. -/
def belfry : RegionDefinition :=
  { id := ⟨"belfry"⟩, name := "Belfry", priority := -3, owners := ["Ann"], parent := some ⟨"town"⟩,
    artifact := some { id := ⟨"belfry"⟩, global := some ⟨["world"], -64, 320⟩ },
    flags :=
      [.ofValue .playSounds (.sound "minecraft:block.bell.use" (.ofFloat 0.5) .one),
        .ofValue .healAmount (.integer (-2)), .ofValue .walkSpeed (.double 0.25),
        .ofValue .giveEffects (.potion "minecraft:speed" 1 200),
        .ofValue .teleport (.location ⟨"world", 8, 64.5, -8⟩)] }

theorem decode_render_belfry :
    ((∀ x ∈ belfry.floats, isFinite x = true) ∧ ∀ x ∈ belfry.floats, (Number.float x).ReadsBack) ∧
      decodeValue decode belfry.toJson = .ok belfry ∧
      decodeText decode belfry.toJson.render = .ok belfry := by
  have hfloats : ∀ x ∈ belfry.floats, isFinite x = true := by decide +kernel
  have hread : ∀ x ∈ belfry.floats, (Number.float x).ReadsBack := by decide +kernel
  obtain ⟨hvalue, htext, -⟩ := decode_render belfry hfloats
  exact ⟨⟨hfloats, hread⟩, hvalue, htext hread⟩

end RegionDefinition

end RegionPolicy
