import RegionPolicy.Flag.Key
import RegionPolicy.Flag.Value

/-!
# The flag catalogue

Every flag has a definition: what it is for, which kind of value it takes and how a region's
setting reaches the regions below it. Flags without an entry of their own are reserved.

## Main definitions

* `FlagDefinition`, `FlagKey.definition`.
* `FlagDefinition.defaultValue` — the value of a flag that is bound without one; its kind is the
  kind of the flag (`FlagDefinition.kind_defaultValue`).
-/

namespace RegionPolicy

/-- How a setting reaches the regions below. -/
inductive FlagInheritance where
  /-- The nearest region that has a setting supplies it. -/
  | always
  /-- Only a region's own setting counts; those above are shown. -/
  | overrideOnly
  /-- A region has to have a setting of its own. -/
  | never
deriving DecidableEq, Repr

/-- The name of a way to inherit. -/
def FlagInheritance.name : FlagInheritance → String
  | always => "ALWAYS"
  | overrideOnly => "OVERRIDE_ONLY"
  | never => "NEVER"

/-- Whether the setting of a region above can become effective. -/
def FlagInheritance.inherits : FlagInheritance → Bool
  | always => true
  | _ => false

/-- A hint when a flag is to be looked at; it does not bear on any verdict. -/
inductive FlagPriority where
  | low
  | default
  | high
  | critical
deriving DecidableEq, Repr

/-- The name of a priority. -/
def FlagPriority.name : FlagPriority → String
  | low => "LOW"
  | default => "DEFAULT"
  | high => "HIGH"
  | critical => "CRITICAL"

/-- What a flag is about. -/
inductive FlagCategory where
  | general
  | blocks
  | combat
  | movement
  | inventory
  | chat
  | audio
  | misc
deriving DecidableEq, Repr

/-- The name of a category. -/
def FlagCategory.name : FlagCategory → String
  | general => "GENERAL"
  | blocks => "BLOCKS"
  | combat => "COMBAT"
  | movement => "MOVEMENT"
  | inventory => "INVENTORY"
  | chat => "CHAT"
  | audio => "AUDIO"
  | misc => "MISC"

/-- Which hosts support a flag. -/
inductive FlagCompatibility where
  | paperOnly
  | foliaSafe
  | experimental
deriving DecidableEq, Repr

/-- The name of a level of support. -/
def FlagCompatibility.name : FlagCompatibility → String
  | paperOnly => "PAPER_ONLY"
  | foliaSafe => "FOLIA_SAFE"
  | experimental => "EXPERIMENTAL"

/-- What is fixed about a flag. -/
structure FlagDefinition where
  /-- The flag. -/
  key : FlagKey
  /-- What it is for. -/
  description : String
  /-- The kind of its values. -/
  valueKind : ValueKind
  /-- What it is about. -/
  category : FlagCategory
  /-- When it is to be looked at. -/
  priority : FlagPriority := .default
  /-- How a setting reaches the regions below. -/
  inheritance : FlagInheritance := .always
  /-- Which hosts support it. -/
  compatibility : FlagCompatibility := .foliaSafe
  /-- The words that a text flag may have, if they are limited. -/
  allowedValues : List String := []
  /-- The default of a text flag. -/
  defaultText : Option String := none
deriving DecidableEq

namespace FlagDefinition

/-- A boolean flag. -/
def boolean (key : FlagKey) (description : String) (category : FlagCategory) : FlagDefinition :=
  { key, description, valueKind := .boolean, category }

/-- An integer flag. -/
def integer (key : FlagKey) (description : String) (category : FlagCategory) : FlagDefinition :=
  { key, description, valueKind := .integer, category }

/-- A flag whose value is a float. -/
def double (key : FlagKey) (description : String) (category : FlagCategory) : FlagDefinition :=
  { key, description, valueKind := .double, category }

/-- A text flag. -/
def text (key : FlagKey) (description : String) (category : FlagCategory) : FlagDefinition :=
  { key, description, valueKind := .text, category }

/-- A flag that lists names. -/
def list (key : FlagKey) (description : String) (category : FlagCategory) : FlagDefinition :=
  { key, description, valueKind := .list, category, compatibility := .experimental }

/-- A flag that lists actions. -/
def actions (key : FlagKey) (description : String) (category : FlagCategory) : FlagDefinition :=
  { key, description, valueKind := .actions, category }

/-- A flag whose value is a place; such a setting is never inherited. -/
def location (key : FlagKey) (description : String) (category : FlagCategory) : FlagDefinition :=
  { key, description, valueKind := .location, category, inheritance := .overrideOnly }

/-- A sound flag. -/
def sound (key : FlagKey) (description : String) (category : FlagCategory) : FlagDefinition :=
  { key, description, valueKind := .sound, category, compatibility := .experimental }

/-- A potion flag. -/
def potion (key : FlagKey) (description : String) (category : FlagCategory) : FlagDefinition :=
  { key, description, valueKind := .potion, category }

/-- A flag that does nothing yet. -/
def reserved (key : FlagKey) : FlagDefinition :=
  { text key "Reserved flag with no implementation yet" .misc with
    compatibility := .experimental }

/-- The value of a flag that is bound without one. -/
def defaultValue (d : FlagDefinition) : FlagValue :=
  match d.valueKind with
  | .text => .text (d.defaultText.getD (d.allowedValues.headD ""))
  | kind => .default kind

/-- The default value is of the flag's kind. -/
@[simp] theorem kind_defaultValue (d : FlagDefinition) : d.defaultValue.kind = d.valueKind := by
  unfold defaultValue
  split
  · next h => simp [FlagValue.kind, h]
  · simp

/-- The written form of a definition. -/
def toJson (d : FlagDefinition) : Json.Value :=
  .object
    [("key", .text d.key.id), ("description", .text d.description),
      ("value_kind", .text d.valueKind.name), ("category", .text d.category.name),
      ("evaluation_priority", .text d.priority.name), ("inheritance", .text d.inheritance.name),
      ("compatibility", .text d.compatibility.name), ("allowed_values", .texts d.allowedValues),
      ("default_value", .ofOption .text d.defaultText)]

end FlagDefinition

open FlagDefinition in
/-- The definition of a flag. -/
def FlagKey.definition (k : FlagKey) : FlagDefinition :=
  match k with
  | .build => { boolean k "Allow players to build" .general with priority := .high }
  | .blockBreak => { boolean k "Controls block breaking" .blocks with priority := .high }
  | .blockPlace => { boolean k "Controls block placement" .blocks with priority := .high }
  | .useBlock => boolean k "Allow lever, button and container use" .misc
  | .interact => boolean k "Controls right click interactions" .misc
  | .pvp => { boolean k "Allow player damage" .combat with priority := .critical }
  | .mobDamage => { boolean k "Allow mob damage" .combat with priority := .high }
  | .mobSpawning => boolean k "Allow creature spawning" .combat
  | .creeperExplosion => boolean k "Creeper explosions" .blocks
  | .tnt => boolean k "TNT explosions" .blocks
  | .fireSpread => boolean k "Fire spread" .blocks
  | .lightning => boolean k "Lightning ignitions" .blocks
  | .endermanGrief => boolean k "Enderman block grief" .blocks
  | .ghastFireball => boolean k "Ghast fireball explosions" .blocks
  | .lavaFire => boolean k "Lava igniting blocks" .blocks
  | .lavaFlow => boolean k "Lava fluid spread" .blocks
  | .waterFlow => boolean k "Water fluid spread" .blocks
  | .iceMelt => boolean k "Prevent ice melting" .blocks
  | .snowMelt => boolean k "Prevent snow melting" .blocks
  | .leafDecay => boolean k "Leaf decay" .blocks
  | .grassGrowth => boolean k "Grass and mycelium spread" .blocks
  | .vineGrowth => boolean k "Vine growth" .blocks
  | .entityPaintingDestroy => boolean k "Painting break protection" .blocks
  | .vehiclePlace => boolean k "Vehicle placement" .misc
  | .vehicleDestroy => boolean k "Vehicle destruction" .misc
  | .enderPearl => boolean k "Use of ender pearls" .movement
  | .potionSplash => boolean k "Area potion effects" .misc
  | .expDrops => boolean k "Experience orb drops" .inventory
  | .itemPickup => boolean k "Allow item pickup" .inventory
  | .itemDrop => boolean k "Allow item drops" .inventory
  | .entry => { boolean k "Allow entering region" .movement with priority := .critical }
  | .exit => { boolean k "Allow exiting region" .movement with priority := .critical }
  | .entryAction => actions k "Actions run when entry is blocked" .movement
  | .exitAction => actions k "Actions run when exit is blocked" .movement
  | .entryDenyMessage => text k "Message shown when entry is denied" .chat
  | .exitDenyMessage => text k "Message shown when exit is denied" .chat
  | .passthrough => boolean k "Skip membership checks for child regions" .general
  | .invincible => boolean k "Enable invincibility" .combat
  | .fallDamage => boolean k "Control fall damage" .movement
  | .hunger => boolean k "Natural hunger drain" .general
  | .healAmount => integer k "Amount of health restored per tick" .general
  | .healDelay => integer k "Ticks between healing pulses" .general
  | .healMinHealth => double k "Minimum health threshold for healing" .general
  | .healMaxHealth => double k "Maximum health cap during healing" .general
  | .teleport => { location k "Teleport destination" .movement with priority := .high }
  | .spawnLocation => location k "Spawn point inside the region" .movement
  | .respawnLocation => location k "Respawn point after death" .movement
  | .blockedEffects => list k "Potion effect identifiers to remove" .misc
  | .giveEffects => potion k "Potion effect applied inside the region" .misc
  | .fly => boolean k "Allow flight" .movement
  | .walkSpeed => double k "Custom walk speed" .movement
  | .flySpeed => double k "Custom fly speed" .movement
  | .keepInventory => boolean k "Keep inventory on death" .inventory
  | .keepExp => boolean k "Keep experience on death" .inventory
  | .chatPrefix => text k "Chat prefix applied inside the region" .chat
  | .chatSuffix => text k "Chat suffix applied inside the region" .chat
  | .godmode => boolean k "Toggle god mode" .combat
  | .frostwalker => boolean k "Allow frost walker ice" .blocks
  | .netherPortals => boolean k "Allow portal creation" .blocks
  | .glide =>
    { text k "Force or block elytra gliding" .movement with
      compatibility := .experimental, allowedValues := ["allow", "deny", "default"] }
  | .chunkUnload => { boolean k "Keep chunks loaded" .misc with compatibility := .experimental }
  | .itemDurability =>
    { boolean k "Prevent durability loss" .inventory with
      compatibility := .experimental }
  | .joinLocation => location k "Login spawn location" .movement
  | .teleportOnEntry => location k "Destination applied on entry" .movement
  | .teleportOnExit => location k "Destination applied on exit" .movement
  | .playSounds => sound k "Sound played inside the region" .audio
  | .entryMinLevel =>
    { text k "Minimum level required to enter" .movement with
      compatibility := .experimental }
  | .entryMaxLevel =>
    { text k "Maximum level allowed to enter" .movement with
      compatibility := .experimental }
  | .permitCompletely => list k "Items fully permitted despite other restrictions" .misc
  | .worldedit => { boolean k "Allow WorldEdit" .misc with inheritance := .overrideOnly }
  | .messageOnEntry => text k "Message sent on entry" .chat
  | .messageOnExit => text k "Message sent on exit" .chat
  | .commandOnEntry | .commandOnExit | .consoleCommandOnEntry | .consoleCommandOnExit
  | .blockedItems | .giveItems | .inventoryLoadout | .commandBlacklist | .commandWhitelist
  | .placeholderGate => reserved k

namespace FlagKey

/-- The definition of a flag is about that flag. -/
@[simp] theorem key_definition (k : FlagKey) : k.definition.key = k := by
  cases k <;> rfl

/-- The kind of a flag's values. -/
def valueKind (k : FlagKey) : ValueKind := k.definition.valueKind

/-- The value of a flag that is bound without one. -/
def defaultValue (k : FlagKey) : FlagValue := k.definition.defaultValue

@[simp] theorem kind_defaultValue (k : FlagKey) : k.defaultValue.kind = k.valueKind :=
  k.definition.kind_defaultValue

/-- Whether the setting of a region above can become effective. -/
def inherits (k : FlagKey) : Bool := k.definition.inheritance.inherits

/-- Reads a flag by its id. -/
def decode : Json.Decoder FlagKey := fun d =>
  match Json.Decoder.text d with
  | .error e => .error e
  | .ok s => (ofText s).mapError Json.DecodeError.domain

end FlagKey

end RegionPolicy
