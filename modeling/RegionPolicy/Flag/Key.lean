import RegionPolicy.DomainError
import RegionPolicy.Text.Blank
import RegionPolicy.Text.Lowercase

/-!
# Flag keys

The closed set of flags that a region can carry, in the order of their declaration, with the ids
under which they are written.

## Main definitions

* `FlagKey`, `FlagKey.all`, `FlagKey.id`, `FlagKey.index`.
* `FlagKey.ofText` — the key that a text names; case and surrounding blanks do not matter.
-/

namespace RegionPolicy

/-- A flag. -/
inductive FlagKey where
  | build
  | blockBreak
  | blockPlace
  | useBlock
  | interact
  | pvp
  | mobDamage
  | mobSpawning
  | creeperExplosion
  | tnt
  | fireSpread
  | lightning
  | endermanGrief
  | ghastFireball
  | lavaFire
  | lavaFlow
  | waterFlow
  | iceMelt
  | snowMelt
  | leafDecay
  | grassGrowth
  | vineGrowth
  | entityPaintingDestroy
  | vehiclePlace
  | vehicleDestroy
  | enderPearl
  | potionSplash
  | expDrops
  | itemPickup
  | itemDrop
  | entry
  | exit
  | entryAction
  | exitAction
  | entryDenyMessage
  | exitDenyMessage
  | passthrough
  | invincible
  | fallDamage
  | hunger
  | healAmount
  | healDelay
  | healMinHealth
  | healMaxHealth
  | teleport
  | spawnLocation
  | respawnLocation
  | blockedEffects
  | giveEffects
  | fly
  | walkSpeed
  | flySpeed
  | keepInventory
  | keepExp
  | chatPrefix
  | chatSuffix
  | godmode
  | frostwalker
  | netherPortals
  | glide
  | chunkUnload
  | itemDurability
  | joinLocation
  | teleportOnEntry
  | teleportOnExit
  | commandOnEntry
  | commandOnExit
  | consoleCommandOnEntry
  | consoleCommandOnExit
  | playSounds
  | blockedItems
  | giveItems
  | entryMinLevel
  | entryMaxLevel
  | permitCompletely
  | worldedit
  | messageOnEntry
  | messageOnExit
  | inventoryLoadout
  | commandBlacklist
  | commandWhitelist
  | placeholderGate
deriving DecidableEq, Repr

namespace FlagKey

/-- Every flag, in the order of declaration. -/
def all : List FlagKey :=
  [.build, .blockBreak, .blockPlace, .useBlock, .interact, .pvp, .mobDamage, .mobSpawning,
   .creeperExplosion, .tnt, .fireSpread, .lightning, .endermanGrief, .ghastFireball, .lavaFire,
   .lavaFlow, .waterFlow, .iceMelt, .snowMelt, .leafDecay, .grassGrowth, .vineGrowth,
   .entityPaintingDestroy, .vehiclePlace, .vehicleDestroy, .enderPearl, .potionSplash, .expDrops,
   .itemPickup, .itemDrop, .entry, .exit, .entryAction, .exitAction, .entryDenyMessage,
   .exitDenyMessage, .passthrough, .invincible, .fallDamage, .hunger, .healAmount, .healDelay,
   .healMinHealth, .healMaxHealth, .teleport, .spawnLocation, .respawnLocation, .blockedEffects,
   .giveEffects, .fly, .walkSpeed, .flySpeed, .keepInventory, .keepExp, .chatPrefix, .chatSuffix,
   .godmode, .frostwalker, .netherPortals, .glide, .chunkUnload, .itemDurability, .joinLocation,
   .teleportOnEntry, .teleportOnExit, .commandOnEntry, .commandOnExit, .consoleCommandOnEntry,
   .consoleCommandOnExit, .playSounds, .blockedItems, .giveItems, .entryMinLevel, .entryMaxLevel,
   .permitCompletely, .worldedit, .messageOnEntry, .messageOnExit, .inventoryLoadout,
   .commandBlacklist, .commandWhitelist, .placeholderGate]

/-- The id under which a flag is written. -/
def id : FlagKey → String
  | build => "build"
  | blockBreak => "block-break"
  | blockPlace => "block-place"
  | useBlock => "use"
  | interact => "interact"
  | pvp => "pvp"
  | mobDamage => "mob-damage"
  | mobSpawning => "mob-spawning"
  | creeperExplosion => "creeper-explosion"
  | tnt => "tnt"
  | fireSpread => "fire-spread"
  | lightning => "lightning"
  | endermanGrief => "enderman-grief"
  | ghastFireball => "ghast-fireball"
  | lavaFire => "lava-fire"
  | lavaFlow => "lava-flow"
  | waterFlow => "water-flow"
  | iceMelt => "ice-melt"
  | snowMelt => "snow-melt"
  | leafDecay => "leaf-decay"
  | grassGrowth => "grass-growth"
  | vineGrowth => "vine-growth"
  | entityPaintingDestroy => "entity-painting-destroy"
  | vehiclePlace => "vehicle-place"
  | vehicleDestroy => "vehicle-destroy"
  | enderPearl => "ender-pearl"
  | potionSplash => "potion-splash"
  | expDrops => "exp-drops"
  | itemPickup => "item-pickup"
  | itemDrop => "item-drop"
  | entry => "entry"
  | exit => "exit"
  | entryAction => "entry-action"
  | exitAction => "exit-action"
  | entryDenyMessage => "entry-deny-message"
  | exitDenyMessage => "exit-deny-message"
  | passthrough => "passthrough"
  | invincible => "invincible"
  | fallDamage => "fall-damage"
  | hunger => "hunger"
  | healAmount => "heal-amount"
  | healDelay => "heal-delay"
  | healMinHealth => "heal-min-health"
  | healMaxHealth => "heal-max-health"
  | teleport => "teleport"
  | spawnLocation => "spawn-location"
  | respawnLocation => "respawn-location"
  | blockedEffects => "blocked-effects"
  | giveEffects => "give-effects"
  | fly => "fly"
  | walkSpeed => "walk-speed"
  | flySpeed => "fly-speed"
  | keepInventory => "keep-inventory"
  | keepExp => "keep-exp"
  | chatPrefix => "chat-prefix"
  | chatSuffix => "chat-suffix"
  | godmode => "godmode"
  | frostwalker => "frostwalker"
  | netherPortals => "nether-portals"
  | glide => "glide"
  | chunkUnload => "chunk-unload"
  | itemDurability => "item-durability"
  | joinLocation => "join-location"
  | teleportOnEntry => "teleport-on-entry"
  | teleportOnExit => "teleport-on-exit"
  | commandOnEntry => "command-on-entry"
  | commandOnExit => "command-on-exit"
  | consoleCommandOnEntry => "console-command-on-entry"
  | consoleCommandOnExit => "console-command-on-exit"
  | playSounds => "play-sounds"
  | blockedItems => "blocked-items"
  | giveItems => "give-items"
  | entryMinLevel => "entry-min-level"
  | entryMaxLevel => "entry-max-level"
  | permitCompletely => "permit-completely"
  | worldedit => "worldedit"
  | messageOnEntry => "message-on-entry"
  | messageOnExit => "message-on-exit"
  | inventoryLoadout => "inventory-loadout"
  | commandBlacklist => "command-blacklist"
  | commandWhitelist => "command-whitelist"
  | placeholderGate => "placeholder-gate"

/-- The place of a flag in the order of declaration. -/
def index (k : FlagKey) : Nat := k.ctorIdx

/-- The flag with this very id. -/
def ofId? (s : String) : Option FlagKey :=
  all.find? fun k => k.id == s

/-- The flag that a text names, surrounding blanks and the case of ASCII letters aside. -/
def ofText (s : String) : Except DomainError FlagKey :=
  let id := Text.lowercaseAscii (Text.trim s)
  match ofId? id with
  | some k => .ok k
  | none => .error (.unknownFlag id)

/-- Every flag is listed. -/
theorem mem_all (k : FlagKey) : k ∈ all := by
  cases k <;> decide

/-- The flags are listed in the order of declaration, each once. -/
theorem pairwise_all : all.Pairwise fun a b => a.index < b.index := by
  decide +kernel

/-- No two flags are written under one id. -/
theorem nodup_ids : (all.map id).Nodup := by
  decide +kernel

end FlagKey

end RegionPolicy
