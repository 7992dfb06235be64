import Mathlib.Data.List.DropRight
import RegionPolicy.Proofs.Slots

/-!
# World-wide shapes follow their settings

The text of a world-wide artifact is only a copy of its settings. It can be missing, it can be
anything at all, and somebody may have written other worlds into it; still the shape that a region
starts with covers what the settings say. Either the text is found to agree with them, or it is
written anew and agrees from then on, or it cannot be read and is passed over.

Agreement is looked for in the names of the worlds, without case and order, and in the altitudes,
where the two zeros count as one. That is just what a shape looks at to tell whether it contains a
point, so shapes that agree contain the same points, whichever way the worlds are spelt.

That a text which was written anew agrees needs altitudes that are finite and read as they were
written. The names of the worlds need nothing: they were trimmed when they were written, and to trim
them again makes no difference.

## Main results

* `dedupeWorlds_dedupeWorlds` — the different worlds of a list are different.
* `WorldSettings.contains_of_agreesWith` — shapes that agree contain the same points.
* `WorldPayload.ofText_render_ofSettings` — the text of settings is read as the settings.
* `ArtifactStore.prepare_world` — what is read once a world-wide artifact has come up.
* `ArtifactStore.resolveShape_world` — the shape of a world-wide artifact, whatever is stored.
-/

namespace RegionPolicy

open Json

/-! ### Names that are trimmed -/

namespace Text

/-- What a text that needs no trimming at the front begins with needs none either. -/
theorem dropWhile_of_prefix {cs ds : List Char} (h : cs <+: ds)
    (hds : ds.dropWhile isBlankChar = ds) : cs.dropWhile isBlankChar = cs := by
  cases cs with
  | nil => rfl
  | cons c rest =>
    obtain ⟨more, rfl⟩ := h
    have hc := List.dropWhile_eq_self_iff.mp hds (Nat.zero_lt_succ _)
    exact List.dropWhile_eq_self_iff.mpr fun _ => hc

theorem trimChars_trimChars (cs : List Char) : trimChars (trimChars cs) = trimChars cs := by
  have hright : ∀ l, trimChars l = (l.dropWhile isBlankChar).rdropWhile isBlankChar := fun _ => rfl
  have hfront : (trimChars cs).dropWhile isBlankChar = trimChars cs :=
    dropWhile_of_prefix (List.rdropWhile_prefix ..) (List.dropWhile_idempotent ..)
  rw [hright (trimChars cs), hfront, hright cs]
  exact List.rdropWhile_idempotent ..

/-- To trim a text again makes no difference. -/
theorem trim_trim (s : String) : trim (trim s) = trim s := by
  simp only [trim, String.toList_ofList, trimChars_trimChars]

end Text

theorem dedupeNamesFrom_dedupeNamesFrom (key : String → String) (seen names : List String) :
    dedupeNamesFrom key seen (dedupeNamesFrom key seen names) = dedupeNamesFrom key seen names := by
  induction names generalizing seen with
  | nil => rfl
  | cons name rest ih =>
    by_cases hskip : Text.trim name = "" ∨ key (Text.trim name) ∈ seen
    · simp only [dedupeNamesFrom, if_pos hskip]
      exact ih seen
    · simp only [dedupeNamesFrom, if_neg hskip, Text.trim_trim]
      rw [ih]

/-- The different worlds of a list are different. -/
theorem dedupeWorlds_dedupeWorlds (worlds : List String) :
    dedupeWorlds (dedupeWorlds worlds) = dedupeWorlds worlds :=
  dedupeNamesFrom_dedupeNamesFrom Text.lowercase [] worlds

/-! ### Shapes that agree -/

theorem mem_worldNames_iff {worlds : List String} {name : String} :
    name ∈ worldNames worlds ↔ name ∈ worlds.map Text.lowercase :=
  SortedSet.mem_ofList

/-- A shape looks at the names of its worlds and at its altitudes, and at nothing else. -/
theorem WorldShape.contains_congr {s t : WorldShape}
    (hworlds : worldNames s.worlds = worldNames t.worlds) (hmin : rank? s.minY = rank? t.minY)
    (hmax : rank? s.maxY = rank? t.maxY) (p : Position) : s.contains p = t.contains p := by
  have hnames (name : String) :
      name ∈ s.worlds.map Text.lowercase ↔ name ∈ t.worlds.map Text.lowercase := by
    rw [← mem_worldNames_iff, hworlds, mem_worldNames_iff]
  rw [Bool.eq_iff_iff]
  simp only [contains, Bool.and_eq_true, List.contains_iff_mem, decide_eq_true_iff, hnames,
    le_congr hmin rfl, le_congr rfl hmax]

namespace WorldSettings

variable {settings : WorldSettings}

/-- **Shapes that agree with the settings contain what the settings ask for.** -/
theorem contains_of_agreesWith {shape : Shape} (h : settings.agreesWith shape = true)
    (p : Position) : shape.contains p = settings.toShape.contains p := by
  cases shape with
  | world s =>
    rw [agreesWith, Bool.and_eq_true, Bool.and_eq_true, beq_iff_eq] at h
    obtain ⟨⟨hnames, hmin⟩, hmax⟩ := h
    have hworlds : worldNames s.worlds = worldNames settings.resolvedWorlds :=
      SortedSet.ext_mem fun name => by
        rw [← SortedSet.mem_toList, hnames, SortedSet.mem_toList]
    exact WorldShape.contains_congr (t := ⟨settings.resolvedWorlds, settings.minY, settings.maxY⟩)
      hworlds (rank?_eq_of_beq hmin) (rank?_eq_of_beq hmax) p
  | cuboid | polygonPrism | flatPolygon | cylinder => exact absurd h Bool.false_ne_true

/-- The settings agree with themselves, where the altitudes are numbers. -/
theorem agreesWith_toShape (hmin : settings.minY.isNaN = false)
    (hmax : settings.maxY.isNaN = false) : settings.agreesWith settings.toShape = true := by
  simp only [toShape, agreesWith, Bool.and_eq_true, beq_self_eq_true, true_and]
  exact ⟨beq_of_rank?_eq hmin rfl, beq_of_rank?_eq hmax rfl⟩

end WorldSettings

/-! ### The text of settings -/

namespace WorldPayload

variable {settings : WorldSettings}

theorem toJson_ofSettings (hmin : StorableCoordinate settings.minY)
    (hmax : StorableCoordinate settings.maxY) :
    (ofSettings settings).toJson = .object [("worlds", .texts settings.resolvedWorlds),
      ("minY", .number (.float settings.minY)), ("maxY", .number (.float settings.maxY))] := by
  simp only [toJson, ofSettings, Value.ofOption, Value.ofFloat, hmin.1, hmax.1, if_true]

theorem readsBack_ofSettings (hmin : StorableCoordinate settings.minY)
    (hmax : StorableCoordinate settings.maxY) : (ofSettings settings).toJson.ReadsBack 0 := by
  rw [toJson_ofSettings hmin hmax]
  refine ⟨by decide, ⟨by decide, ?_⟩, hmin.2, hmax.2, trivial⟩
  refine itemsReadBack_of_forall fun v hv => ?_
  obtain ⟨world, -, rfl⟩ := List.mem_map.mp hv
  trivial

theorem decode_ofSettings (hmin : StorableCoordinate settings.minY)
    (hmax : StorableCoordinate settings.maxY) :
    decode (.ofValue (ofSettings settings).toJson) = .ok (ofSettings settings) := by
  let worlds := settings.resolvedWorlds
  have hlist : Decoder.list Decoder.text (.ofValue (.texts worlds)) = .ok worlds :=
    decodeList_ofList fun _ _ => rfl
  have hworlds : Decoder.option (Decoder.list Decoder.text) (.ofValue (.texts worlds)) =
      .ok (some worlds) := congrArg (Except.map some) hlist
  rw [toJson_ofSettings hmin hmax, decode, fields]
  refine Fields.decode_object rfl ?_
  refine Fields.fromEntries_seq (Fields.fromEntries_seq (Fields.fromEntries_map _ ?_) ?_) ?_
  · exact Fields.fromEntries_field rfl hworlds
  · exact Fields.fromEntries_field rfl rfl
  · exact Fields.fromEntries_field rfl rfl

/-- **The text of settings is read as the settings.** -/
theorem ofText_render_ofSettings (hmin : StorableCoordinate settings.minY)
    (hmax : StorableCoordinate settings.maxY) :
    ofText (ofSettings settings).toJson.render = ofSettings settings := by
  rw [ofText, Json.decodeText, Text.ofString_render (readsBack_ofSettings hmin hmax)]
  simp only [decode_ofSettings hmin hmax, Bool.false_eq_true, if_false]

/-- Settings that are read back ask for the same shape. -/
theorem toShape_ofSettings (settings : WorldSettings) :
    (ofSettings settings).toShape settings =
      ⟨settings.resolvedWorlds, settings.minY, settings.maxY⟩ := by
  have hworlds : (ofSettings settings).resolvedWorlds = settings.resolvedWorlds :=
    dedupeWorlds_dedupeWorlds settings.worlds
  rw [toShape, hworlds, ite_self]
  rfl

end WorldPayload

theorem StoredGeometry.shape_parseWorld_ofSettings {settings : WorldSettings}
    (hmin : StorableCoordinate settings.minY) (hmax : StorableCoordinate settings.maxY) :
    (parseWorld (WorldPayload.ofSettings settings).toJson.render settings).shape =
      settings.toShape := by
  rw [parseWorld, WorldPayload.ofText_render_ofSettings hmin hmax, WorldPayload.toShape_ofSettings]
  rfl

/-! ### The shape of a world-wide artifact -/

namespace ArtifactStore

variable {σ : Type} [ArtifactStore σ] {s : σ} {a : Artifact} {settings : WorldSettings}

/-- A text of a world-wide artifact that needs not be replaced agrees with the settings. -/
theorem isStale_eq_false_iff_of_global (ha : a.global = some settings) (data : String) :
    isStale a data = false ↔ Text.isBlank data = false ∧
      settings.agreesWith (StoredGeometry.parseWorld data settings).shape = true := by
  rw [isStale, ha, Bool.or_eq_false_iff, Bool.not_eq_false']

/-- The text of the settings needs not be replaced. -/
theorem isStale_ofSettings (ha : a.global = some settings)
    (hmin : StorableCoordinate settings.minY) (hmax : StorableCoordinate settings.maxY) :
    isStale a (WorldPayload.ofSettings settings).toJson.render = false := by
  rw [isStale_eq_false_iff_of_global ha, StoredGeometry.shape_parseWorld_ofSettings hmin hmax]
  exact ⟨StoredGeometry.isBlank_render_object _, WorldSettings.agreesWith_toShape
    (isNaN_of_isFinite hmin.1) (isNaN_of_isFinite hmax.1)⟩

theorem saveGeometry_of_global (ha : a.global = some settings) (mode : SelectionMode)
    (nodes : List Position) :
    saveGeometry s a mode nodes =
      write s a.id (WorldPayload.ofSettings settings).toJson.render := by
  rw [saveGeometry, payloadText, ha]

/-- A world-wide artifact that cannot be read gets the shape that its settings ask for. -/
theorem shapeOr_of_unreadable (ha : a.global = some settings) {failure : StoreError}
    (hread : read s a.id = .error failure) : shapeOr a (loadGeometry s a) = settings.toShape := by
  rw [loadGeometry, text?, hread, Option.bind_none, shapeOr, ha]

variable [TextStore σ]

/-- **What is read once a world-wide artifact has come up,** and can be written: a text that needs
not be replaced. -/
theorem prepare_world (ha : a.global = some settings) (hmin : StorableCoordinate settings.minY)
    (hmax : StorableCoordinate settings.maxY)
    (hsaved : (saveGeometry s a .cuboid []).1 = .ok ()) {data : Option String}
    (hread : read (prepare s a) a.id = .ok data) :
    ∃ t, data = some t ∧ isStale a t = false := by
  by_cases hstale : isStale a ((text? s a).getD "") = true
  · have hprepared : prepare s a = (saveGeometry s a .cuboid []).2 := if_pos hstale
    rw [saveGeometry_of_global ha] at hsaved hprepared
    have htext := TextStore.textAt_of_read hread
    rw [hprepared, TextStore.textAt_of_written (Prod.ext hsaved rfl), Function.update_self] at htext
    exact ⟨_, htext.symm, isStale_ofSettings ha hmin hmax⟩
  · have hprepared : prepare s a = s := if_neg hstale
    rw [hprepared] at hread
    rw [text?, hread] at hstale
    cases data with
    | none => exact absurd rfl hstale
    | some t => exact ⟨t, rfl, Bool.eq_false_iff.mpr hstale⟩

/-- **The shape of a world-wide artifact, whatever is stored for it.** If its settings can be
written, or if the text cannot be read once the artifact has come up, then the shape contains the
points that the settings ask for, and no others. If they can be written, and the text can be read
after that, then the text agrees with the settings, and so nothing is written when the artifact
comes up again. -/
theorem resolveShape_world (ha : a.global = some settings)
    (hmin : StorableCoordinate settings.minY) (hmax : StorableCoordinate settings.maxY) :
    ((saveGeometry s a .cuboid []).1 = .ok () ∨
        (∃ failure, read (resolveShape s (some a)).2 a.id = .error failure) →
      ∀ p, (resolveShape s (some a)).1.contains p = settings.toShape.contains p) ∧
    ((saveGeometry s a .cuboid []).1 = .ok () →
      ∀ data, read (resolveShape s (some a)).2 a.id = .ok data →
        ∃ t, data = some t ∧
          settings.agreesWith (StoredGeometry.parseWorld t settings).shape = true ∧
          isStale a ((text? (resolveShape s (some a)).2 a).getD "") = false ∧
          prepare (resolveShape s (some a)).2 a = (resolveShape s (some a)).2) := by
  have hresolved : resolveShape s (some a) =
      (shapeOr a (loadGeometry (prepare s a) a), prepare s a) := rfl
  rw [hresolved]
  dsimp only
  constructor
  · intro hstored p
    cases hread : read (prepare s a) a.id with
    | error failure => rw [shapeOr_of_unreadable ha hread]
    | ok data =>
      have hsaved : (saveGeometry s a .cuboid []).1 = .ok () := by
        refine hstored.resolve_right ?_
        rintro ⟨failure, hfailed⟩
        rw [hread] at hfailed
        cases hfailed
      obtain ⟨t, rfl, hfresh⟩ := prepare_world ha hmin hmax hsaved hread
      obtain ⟨hblank, hagrees⟩ := (isStale_eq_false_iff_of_global ha t).mp hfresh
      have hloaded : loadGeometry (prepare s a) a = some (.parseWorld t settings) := by
        rw [loadGeometry, text?, hread, Option.bind_some, geometryOf, hblank, ha]
        rfl
      rw [hloaded]
      exact WorldSettings.contains_of_agreesWith hagrees p
  · intro hsaved data hread
    obtain ⟨t, rfl, hfresh⟩ := prepare_world ha hmin hmax hsaved hread
    have htext : (text? (prepare s a) a).getD "" = t := by
      rw [text?, hread, Option.getD_some]
    refine ⟨t, rfl, ((isStale_eq_false_iff_of_global ha t).mp hfresh).2, htext ▸ hfresh, ?_⟩
    rw [prepare, htext, hfresh]
    rfl

/-! ### The sky again -/

section Sky

open Engine

/-- A text that lowers the sky, and leaves one of its worlds out. -/
def lowSkyText : String := (WorldPayload.toJson ⟨some ["WORLD"], none, some 100⟩).render

/-- A store with that text. -/
def lowSkyStore : MemoryStore := { blobs := SortedMap.insert ∅ skyArtifact.id lowSkyText }

/-- The store while it can be neither read nor written. -/
def lockedSkyStore : MemoryStore :=
  { lowSkyStore with
    unreadable := .ofList [skyArtifact.id], unwritable := .ofList [skyArtifact.id] }

/-- A high place in the world that was left out. -/
def highPlace : Position := ⟨"Nether", 0, 300, 0⟩

/-- The sky reaches up to the high place, whether the text can be put right or not. -/
theorem resolveShape_world_sky :
    isStale skyArtifact lowSkyText = true ∧
      (resolveShape lockedSkyStore (some skyArtifact)).1.contains highPlace = true ∧
      (resolveShape lowSkyStore (some skyArtifact)).1.contains highPlace = true ∧
      prepare (resolveShape lowSkyStore (some skyArtifact)).2 skyArtifact =
        (resolveShape lowSkyStore (some skyArtifact)).2 := by
  have hmin : StorableCoordinate WorldShape.defaultMinY :=
    ⟨by decide +kernel, by decide +kernel⟩
  have hmax : StorableCoordinate WorldShape.defaultMaxY :=
    ⟨by decide +kernel, by decide +kernel⟩
  have hsettings : (WorldSettings.toShape { worlds := ["world", "nether"] }).contains highPlace =
      true := by decide +kernel
  have hstale : isStale skyArtifact lowSkyText = true := by decide +kernel
  have hsaved : (saveGeometry lowSkyStore skyArtifact .cuboid []).1 = .ok () := rfl
  have hlocked : read (resolveShape lockedSkyStore (some skyArtifact)).2 skyArtifact.id =
      .error (.storage .readArtifact "unreadable") := by decide +kernel
  have hread : read (resolveShape lowSkyStore (some skyArtifact)).2 skyArtifact.id =
      .ok (some (WorldPayload.ofSettings { worlds := ["world", "nether"] }).toJson.render) := by
    decide +kernel
  obtain ⟨hcovers, -⟩ := resolveShape_world (s := lockedSkyStore) (a := skyArtifact) rfl hmin hmax
  obtain ⟨hcovers', hagrees⟩ :=
    resolveShape_world (s := lowSkyStore) (a := skyArtifact) rfl hmin hmax
  obtain ⟨_, -, -, -, hsettled⟩ := hagrees hsaved _ hread
  exact ⟨hstale, (hcovers (.inr ⟨_, hlocked⟩) highPlace).trans hsettings,
    (hcovers' (.inl hsaved) highPlace).trans hsettings, hsettled⟩

end Sky

end ArtifactStore

end RegionPolicy
