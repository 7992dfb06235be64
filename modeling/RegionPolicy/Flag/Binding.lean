import RegionPolicy.Flag.Definition

/-!
# Flag bindings

A binding sets a flag to a value. The value is always of the flag's kind: a value of another kind
gives way to the flag's default, and so does the value of another flag.

## Main definitions

* `FlagBinding` — a flag and a value of its kind.
* `FlagBinding.ofValue`, `FlagBinding.ofKey`, `FlagBinding.setKey`, `FlagBinding.setValue`.
* `FlagBinding.toJson`, `FlagBinding.decode` — the written form.
-/

namespace RegionPolicy

/-- A flag with a value of the flag's kind. -/
structure FlagBinding where
  /-- The flag. -/
  key : FlagKey
  /-- What it is set to. -/
  value : FlagValue
  kind_value : value.kind = key.valueKind
deriving DecidableEq

namespace FlagBinding

/-- A flag set to its default. -/
def ofKey (key : FlagKey) : FlagBinding := ⟨key, key.defaultValue, key.kind_defaultValue⟩

/-- A flag set to a value, or to its default if the value is of another kind. -/
def ofValue (key : FlagKey) (value : FlagValue) : FlagBinding :=
  if h : value.kind = key.valueKind then ⟨key, value, h⟩ else ofKey key

/-- The binding that a new one starts from. -/
def start : FlagBinding := ofKey .build

instance : Inhabited FlagBinding := ⟨start⟩

/-- The binding for another flag, set to its default; for the same flag nothing changes. -/
def setKey (b : FlagBinding) (key : FlagKey) : FlagBinding :=
  if b.key = key then b else ofKey key

/-- The binding with another value, or the default if that is of the wrong kind. -/
def setValue (b : FlagBinding) (value : FlagValue) : FlagBinding :=
  ofValue b.key value

@[simp] theorem key_ofKey (key : FlagKey) : (ofKey key).key = key := rfl

@[simp] theorem key_ofValue (key : FlagKey) (value : FlagValue) :
    (ofValue key value).key = key := by
  unfold ofValue
  split <;> rfl

/-- A binding made again from its parts is the same. -/
@[simp] theorem ofValue_self (b : FlagBinding) : ofValue b.key b.value = b := by
  simp [ofValue, b.kind_value]

/-! ### The written form -/

/-- The written form of a binding. -/
def toJson (b : FlagBinding) : Json.Value :=
  .object [("key", .text b.key.id), ("value", b.value.toJson)]

/-- A binding from a flag and perhaps a value. -/
def ofParts (key : FlagKey) : Option FlagValue → FlagBinding
  | some value => ofValue key value
  | none => ofKey key

/-- The fields of a binding. Without a value the flag has its default. -/
def fields : Json.Fields FlagBinding :=
  ofParts <$> .required "key" FlagKey.decode
    <*> .optional "value" (Json.Decoder.option FlagValue.decode) none

/-- Reads a binding. -/
def decode : Json.Decoder FlagBinding := fields.decode

end FlagBinding

end RegionPolicy
