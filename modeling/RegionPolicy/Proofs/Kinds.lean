import RegionPolicy.Proofs.StandardHandlers

/-!
# Flags and the kinds of their values

A binding cannot be built whose value is not of its flag's kind; what that costs is not seen in its
type. Here the bindings are made and changed as pairs of a flag and any value, with nothing that
holds the two together but what each step does. Whatever does not fit gives way to the default of
the flag, and the defaults fit, so the pair agrees however it was made and whatever was done to it
since; and it is the pair that the binding consists of.

The standard handlers are registered for the kinds that the flags have. So none of them ever passes
a binding over, in whatever graph it is found.

## Main definitions

* `FlagKey.catalogue` — the definitions of all flags.
* `FlagSetting` — a flag and any value.
* `FlagSetting.Agrees` — the value is of the flag's kind.
* `FlagSetting.Making`, `FlagSetting.Change` — how a binding is made, and how it is changed.

## Main results

* `FlagKey.getElem?_index_catalogue` — the definition of a flag stands at the flag's place.
* `FlagSetting.agrees_make`, `FlagSetting.agrees_change` — what is made agrees, and what is changed
  goes on to agree.
* `FlagBinding.setting_make`, `FlagBinding.setting_change` — bindings are made and changed as pairs.
* `Registry.kind_standard` — the standard handlers take what there is for them.
* `FlagBinding.agrees_throughout` — a binding never disagrees with its flag, and none is passed
  over.
-/

namespace RegionPolicy

open Json

/-! ### The catalogue -/

namespace FlagKey

/-- A flag stands at its place in the order of declaration. -/
theorem getElem?_index_all (k : FlagKey) : all[k.index]? = some k := by
  cases k <;> rfl

/-- The definitions of the flags that are not reserved. -/
def explicitDefinitions : List FlagDefinition :=
  (all.map definition).filter fun d => d ≠ .reserved d.key

/-- The last definition of a flag among some, or that of a reserved flag if there is none. -/
def definitionAmong (definitions : List FlagDefinition) (k : FlagKey) : FlagDefinition :=
  (definitions.reverse.find? fun d => d.key = k).getD (.reserved k)

/-- One definition for every flag, in the order of declaration. -/
def catalogue : List FlagDefinition := all.map (definitionAmong explicitDefinitions)

theorem mem_explicitDefinitions_iff {d : FlagDefinition} :
    d ∈ explicitDefinitions ↔ d = d.key.definition ∧ d ≠ .reserved d.key := by
  simp only [explicitDefinitions, List.mem_filter, List.mem_map, decide_eq_true_iff]
  refine and_congr_left fun _ => ⟨?_, fun hd => ⟨d.key, d.key.mem_all, hd.symm⟩⟩
  rintro ⟨k, -, rfl⟩
  rw [key_definition]

theorem definitionAmong_explicitDefinitions (k : FlagKey) :
    definitionAmong explicitDefinitions k = k.definition := by
  rw [definitionAmong]
  cases hfound : explicitDefinitions.reverse.find? fun d => d.key = k with
  | some d =>
    have hkey := List.find?_some hfound
    obtain rfl : d.key = k := of_decide_eq_true hkey
    have hd := List.mem_reverse.mp (List.mem_of_find?_eq_some hfound)
    exact (mem_explicitDefinitions_iff.mp hd).1
  | none =>
    -- A definition of the flag would have been found, if it were not that of a reserved flag.
    have hmissing : k.definition ∉ explicitDefinitions := fun hd =>
      List.find?_eq_none.mp hfound _ (List.mem_reverse.mpr hd) (decide_eq_true k.key_definition)
    rw [mem_explicitDefinitions_iff, key_definition] at hmissing
    simpa [eq_comm] using hmissing

/-- The definition of a flag stands at the flag's place. -/
theorem getElem?_index_catalogue (k : FlagKey) : catalogue[k.index]? = some k.definition := by
  rw [catalogue, List.getElem?_map, getElem?_index_all, Option.map_some,
    definitionAmong_explicitDefinitions]

end FlagKey

/-! ### Records that are taken further -/

namespace Json.Fields

variable {α β γ : Type}

theorem ext_fields {fs gs : Fields α} (hnames : fs.names = gs.names)
    (hentries : ∀ entries, fs.fromEntries entries = gs.fromEntries entries)
    (hitems : ∀ ds, fs.fromItems ds = gs.fromItems ds) : fs = gs := by
  obtain ⟨names, fromEntries, fromItems⟩ := fs
  obtain rfl : names = _ := hnames
  obtain rfl : fromEntries = _ := funext hentries
  obtain rfl : fromItems = _ := funext hitems
  rfl

theorem fromEntries_map_eq (f : α → β) (fs : Fields α)
    (entries : List (Option String × Document)) :
    (f <$> fs).fromEntries entries = (fs.fromEntries entries).map f := rfl

theorem fromItems_map_eq (f : α → β) (fs : Fields α) (ds : List Document) :
    (f <$> fs).fromItems ds = (fs.fromItems ds).map fun r => (f r.1, r.2) := rfl

/-- A record is decoded, and then something is made of it. -/
theorem decode_map (f : α → β) (fs : Fields α) (d : Document) :
    (f <$> fs).decode d = (fs.decode d).map f := by
  have hnames : (f <$> fs).names = fs.names := rfl
  cases d with
  | object entries =>
    rw [decode, decode, hnames, fromEntries_map_eq]
    cases entryFault fs.names entries [] 0 <;> cases fs.fromEntries entries <;> rfl
  | array ds =>
    rw [decode, decode, fromItems_map_eq]
    rcases fs.fromItems ds with failure | ⟨a, _ | ⟨d, rest⟩⟩ <;> rfl
  | _ => rfl

/-- Two fields can be read into a pair first. -/
theorem map_seq_eq_map_pair (f : α → β → γ) (fs : Fields α) (gs : Fields β) :
    f <$> fs <*> gs = (fun p : α × β => f p.1 p.2) <$> (Prod.mk <$> fs <*> gs) := by
  refine ext_fields rfl (fun entries => ?_) fun ds => ?_
  · show (Fields.seq (f <$> fs) gs).fromEntries entries =
      ((Fields.seq (Prod.mk <$> fs) gs).fromEntries entries).map _
    simp only [Fields.seq, fromEntries_map_eq]
    cases fs.fromEntries entries <;> cases gs.fromEntries entries <;> rfl
  · show (Fields.seq (f <$> fs) gs).fromItems ds =
      ((Fields.seq (Prod.mk <$> fs) gs).fromItems ds).map _
    simp only [Fields.seq, fromItems_map_eq]
    rcases fs.fromItems ds with failure | ⟨a, rest⟩
    · rfl
    · simp only [Except.map]
      cases gs.fromItems rest <;> rfl

end Json.Fields

/-! ### Settings -/

/-- A flag and a value, of whatever kind that is. -/
structure FlagSetting where
  /-- The flag. -/
  key : FlagKey
  /-- What it is set to. -/
  value : FlagValue
deriving DecidableEq

/-- How a binding is made. -/
inductive FlagSetting.Making where
  | ofValue (key : FlagKey) (value : FlagValue)
  | ofKey (key : FlagKey)
  /-- As a new one starts. -/
  | start
  /-- From a document. -/
  | decode (d : Document)

/-- How a binding is changed. -/
inductive FlagSetting.Change where
  | setKey (key : FlagKey)
  | setValue (value : FlagValue)

namespace FlagSetting

/-- The value is of the kind that the definition of the flag asks for. -/
def Agrees (s : FlagSetting) : Prop := s.value.kind = s.key.definition.valueKind

/-- A value for a flag: the one that is wanted, or the flag's default if that does not fit. -/
def coerce (key : FlagKey) (value : FlagValue) : FlagValue :=
  if value.kind = key.definition.valueKind then value else key.definition.defaultValue

/-- A flag set to a value. -/
def ofValue (key : FlagKey) (value : FlagValue) : FlagSetting := ⟨key, coerce key value⟩

/-- A flag set to its default. -/
def ofKey (key : FlagKey) : FlagSetting := ⟨key, key.definition.defaultValue⟩

/-- What a setting is read from: a flag, and perhaps a value. -/
def record : Fields (FlagKey × Option FlagValue) :=
  Prod.mk <$> .required "key" FlagKey.decode
    <*> .optional "value" (Decoder.option FlagValue.decode) none

/-- The setting of a record. -/
def ofRecord : FlagKey × Option FlagValue → FlagSetting
  | (key, some value) => ofValue key value
  | (key, none) => ofKey key

/-- Makes a setting. -/
def make : Making → Except DecodeError FlagSetting
  | .ofValue key value => .ok (ofValue key value)
  | .ofKey key => .ok (ofKey key)
  | .start => .ok (ofKey .build)
  | .decode d => (record.decode d).map ofRecord

/-- Changes a setting. Another flag comes with its default; the same flag changes nothing. -/
def change (s : FlagSetting) : Change → FlagSetting
  | .setKey key => if s.key = key then s else ofKey key
  | .setValue value => { s with value := coerce s.key value }

/-! ### Settings agree -/

theorem agrees_ofKey (key : FlagKey) : (ofKey key).Agrees := key.definition.kind_defaultValue

theorem kind_coerce (key : FlagKey) (value : FlagValue) :
    (coerce key value).kind = key.definition.valueKind := by
  rw [coerce]
  split
  · assumption
  · exact key.definition.kind_defaultValue

theorem agrees_ofRecord (r : FlagKey × Option FlagValue) : (ofRecord r).Agrees := by
  obtain ⟨key, value | _⟩ := r
  · exact agrees_ofKey key
  · exact kind_coerce key _

/-- **However a setting is made, it agrees.** -/
theorem agrees_make {m : Making} {s : FlagSetting} (h : make m = .ok s) : s.Agrees := by
  cases m with
  | ofValue key value => exact Except.ok.inj h ▸ kind_coerce key value
  | ofKey key => exact Except.ok.inj h ▸ agrees_ofKey key
  | start => exact Except.ok.inj h ▸ agrees_ofKey .build
  | decode d =>
    rw [make] at h
    cases hrecord : record.decode d with
    | error failure =>
      rw [hrecord] at h
      cases h
    | ok r =>
      rw [hrecord] at h
      exact Except.ok.inj h ▸ agrees_ofRecord r

/-- **A setting that agrees goes on to agree.** -/
theorem agrees_change {s : FlagSetting} (h : s.Agrees) (c : Change) : (s.change c).Agrees := by
  cases c with
  | setKey key =>
    rw [change]
    split
    · exact h
    · exact agrees_ofKey key
  | setValue value => exact kind_coerce s.key value

theorem agrees_foldl_change {s : FlagSetting} (h : s.Agrees) (changes : List Change) :
    (changes.foldl change s).Agrees := by
  induction changes generalizing s with
  | nil => exact h
  | cons c rest ih => exact ih (agrees_change h c)

end FlagSetting

/-! ### Bindings are settings -/

namespace FlagBinding

/-- What a binding consists of. -/
def setting (b : FlagBinding) : FlagSetting := ⟨b.key, b.value⟩

/-- Makes a binding. -/
def make : FlagSetting.Making → Except DecodeError FlagBinding
  | .ofValue key value => .ok (ofValue key value)
  | .ofKey key => .ok (ofKey key)
  | .start => .ok start
  | .decode d => decode d

/-- Changes a binding. -/
def change (b : FlagBinding) : FlagSetting.Change → FlagBinding
  | .setKey key => b.setKey key
  | .setValue value => b.setValue value

theorem setting_ofValue (key : FlagKey) (value : FlagValue) :
    (ofValue key value).setting = .ofValue key value := by
  by_cases hkind : value.kind = key.definition.valueKind
  · have hfits : ofValue key value = ⟨key, value, hkind⟩ := dif_pos hkind
    rw [hfits, FlagSetting.ofValue, FlagSetting.coerce, if_pos hkind]
    rfl
  · have hgives : ofValue key value = ofKey key := dif_neg hkind
    rw [hgives, FlagSetting.ofValue, FlagSetting.coerce, if_neg hkind]
    rfl

theorem setting_ofParts (key : FlagKey) (value : Option FlagValue) :
    (ofParts key value).setting = FlagSetting.ofRecord (key, value) := by
  cases value with
  | none => rfl
  | some value => exact setting_ofValue key value

/-- A binding is read as its record is, and nothing else is read. -/
theorem decode_eq (d : Document) :
    decode d = (FlagSetting.record.decode d).map fun r => ofParts r.1 r.2 := by
  rw [decode, fields, Fields.map_seq_eq_map_pair, Fields.decode_map, FlagSetting.record]

/-- **A binding is made as its setting is.** -/
theorem setting_make (m : FlagSetting.Making) : (make m).map setting = FlagSetting.make m := by
  cases m with
  | ofValue key value => exact congrArg Except.ok (setting_ofValue key value)
  | ofKey key => rfl
  | start => rfl
  | decode d =>
    rw [make, decode_eq, FlagSetting.make]
    cases FlagSetting.record.decode d with
    | error failure => rfl
    | ok r => exact congrArg Except.ok (setting_ofParts r.1 r.2)

/-- **A binding is changed as its setting is.** -/
theorem setting_change (b : FlagBinding) (c : FlagSetting.Change) :
    (b.change c).setting = b.setting.change c := by
  cases c with
  | setKey key =>
    show (b.setKey key).setting = if b.key = key then b.setting else .ofKey key
    rw [setKey]
    split <;> rfl
  | setValue value => exact setting_ofValue b.key value

theorem setting_foldl_change (b : FlagBinding) (changes : List FlagSetting.Change) :
    (changes.foldl change b).setting = changes.foldl FlagSetting.change b.setting := by
  induction changes generalizing b with
  | nil => rfl
  | cons c rest ih => rw [List.foldl_cons, ih, setting_change, List.foldl_cons]

end FlagBinding

/-! ### Handlers -/

/-- **The standard handlers take the kinds that the flags have.** -/
theorem Registry.kind_standard {key : FlagKey} {entry : HandlerEntry}
    (h : standard key = some entry) : entry.kind = key.valueKind := by
  have hall : ∀ key ∈ FlagKey.all,
      ((standard key).all fun entry => entry.kind = key.valueKind) = true := by
    decide
  have hkey := hall key key.mem_all
  rw [h] at hkey
  exact of_decide_eq_true hkey

namespace BindingGraph

/-- The bindings that are handed out for a flag are bindings of that flag. -/
theorem key_of_mem_dispatch {g : BindingGraph} {key : FlagKey} {b : ResolvedBinding}
    (h : b ∈ g.dispatch key) : b.binding.key = key := by
  have hhistory := List.mem_filter.mp (mem_rank.mp h)
  exact of_decide_eq_true hhistory.2

/-- **Nothing that is handed out for a flag is passed over by its standard handler.** -/
theorem takes_of_mem_dispatch {g : BindingGraph} {key : FlagKey} {entry : HandlerEntry}
    (hentry : Registry.standard key = some entry) {b : ResolvedBinding}
    (hb : b ∈ g.dispatch key) : entry.takes b = true := by
  have hkind : b.binding.value.kind = entry.kind := by
    rw [b.binding.kind_value, key_of_mem_dispatch hb, Registry.kind_standard hentry]
  exact decide_eq_true hkind

/-- A graph rules with a standard handler by all bindings of the region that counts. -/
theorem evaluate_standard (g : BindingGraph) {key : FlagKey} {entry : HandlerEntry}
    (hentry : Registry.standard key = some entry) (c : Context) :
    g.evaluate entry c key =
      match g.source key c.region.id with
      | none => .ok ⟨.pass, none⟩
      | some source => entry.ruling c ((g.dispatch key).filter fun b => b.region = source) := by
  rw [evaluate]
  cases g.source key c.region.id with
  | none => rfl
  | some source =>
    dsimp only
    rw [examine_empty, List.filter_eq_self.mpr fun b hb =>
      takes_of_mem_dispatch hentry (List.mem_filter.mp hb).1]

end BindingGraph

/-- **A binding never disagrees with its flag, and none is passed over.** The definition of a flag
stands at the flag's place in the catalogue, and is about that flag. However a binding is made, and
whatever is done to it then, it is the pair of a flag and a value that the same steps lead to where
nothing holds the two together, and the value of that pair is of the kind that the definition of
the flag asks for. So with the standard handlers, whatever regions are in force and whatever is kept
about them, every binding that is handed out for a flag is of the kind that its handler takes, and
the flag is ruled on by all bindings of the region that counts. -/
theorem FlagBinding.agrees_throughout {δ σ : Type} :
    (∀ key : FlagKey,
      FlagKey.catalogue[key.index]? = some key.definition ∧ key.definition.key = key) ∧
    (∀ (m : FlagSetting.Making) (changes : List FlagSetting.Change),
      ((make m).map fun b => (changes.foldl change b).setting) =
          (FlagSetting.make m).map (fun s => changes.foldl FlagSetting.change s) ∧
        ∀ s, FlagSetting.make m = .ok s →
          (changes.foldl FlagSetting.change s).value.kind =
            (changes.foldl FlagSetting.change s).key.definition.valueKind) ∧
    ∀ (e : Engine δ σ), e.registry = .standard →
      ∀ (c : Context) (key : FlagKey) (entry : HandlerEntry), e.registry key = some entry →
        let g := (e.bindingsFor c.region).1
        (∀ b ∈ g.dispatch key, b.binding.value.kind = entry.kind) ∧
          g.evaluate entry c key =
            match g.source key c.region.id with
            | none => .ok ⟨.pass, none⟩
            | some source =>
              entry.ruling c ((g.dispatch key).filter fun b => b.region = source) := by
  refine ⟨fun key => ⟨key.getElem?_index_catalogue, key.key_definition⟩, fun m changes => ?_, ?_⟩
  · refine ⟨?_, fun s hs => FlagSetting.agrees_foldl_change (FlagSetting.agrees_make hs) changes⟩
    rw [← setting_make]
    cases make m with
    | error failure => rfl
    | ok b => exact congrArg Except.ok (setting_foldl_change b changes)
  · intro e hregistry c key entry hentry g
    rw [hregistry] at hentry
    refine ⟨fun b hb => ?_, g.evaluate_standard hentry c⟩
    exact of_decide_eq_true (BindingGraph.takes_of_mem_dispatch hentry hb)

/-! ### A binding that was written down wrong -/

section Stray

/-- A binding that sets a flag for building to a text. -/
def strayBinding : Document :=
  .ofValue (.object [("key", .text "build"),
    ("value", .object [("type", .text "text"), ("content", .text "gone")])])

/-- The flag is set to its default at first, then to a message, and a number is not taken. -/
def strayChanges : List FlagSetting.Change := [.setKey .messageOnEntry, .setValue (.integer 3)]

open RegionIndex in
theorem FlagBinding.agrees_throughout_stray :
    let e : Engine Unit Unit := { Engine.start () () .standard 1 true with index := townIndex }
    let c : Context := { region := house, action := .unknown }
    FlagSetting.make (.decode strayBinding) = .ok ⟨.build, .boolean true⟩ ∧
      strayChanges.foldl FlagSetting.change ⟨.build, .boolean true⟩ = ⟨.messageOnEntry, .text ""⟩ ∧
      (strayChanges.foldl FlagSetting.change ⟨.build, .boolean true⟩).value.kind = .text ∧
      e.registry .build = some .denyWhenFalse ∧
      ∀ b ∈ (e.bindingsFor c.region).1.dispatch .build, b.binding.value.kind = .boolean := by
  intro e c
  have hmade : FlagSetting.make (.decode strayBinding) = .ok ⟨.build, .boolean true⟩ := by rfl
  have hentry : e.registry .build = some .denyWhenFalse := by rfl
  obtain ⟨-, hagrees, hhandlers⟩ := agrees_throughout (δ := Unit) (σ := Unit)
  exact ⟨hmade, rfl, (hagrees (.decode strayBinding) strayChanges).2 _ hmade, hentry,
    (hhandlers e rfl c .build .denyWhenFalse hentry).1⟩

end Stray

end RegionPolicy
