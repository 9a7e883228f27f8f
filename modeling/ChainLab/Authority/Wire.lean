import ChainLab.Authority
import ChainLab.Json.Record

/-!
# Authorities as JSON
-/

namespace ChainLab

namespace PublicKey

def toJson (key : PublicKey) : Json := .text key.hex

def ofJson? (json : Json) : Option PublicKey :=
  json.text?.bind fun text => (ofHex text).toOption

end PublicKey

namespace Level

def toJson (level : Level) : Json :=
  .record [("actor", .text level.actor), ("permission", .text level.permission)]

def ofJson? (json : Json) : Option Level := do
  let [actor, permission] ← json.record? ["actor", "permission"] | none
  some ⟨← actor.text?, ← permission.text?⟩

end Level

namespace KeyWeight

def toJson (entry : KeyWeight) : Json :=
  .record [("key", entry.key.toJson), ("weight", .natural entry.weight.toNat)]

def ofJson? (json : Json) : Option KeyWeight := do
  let [key, weight] ← json.record? ["key", "weight"] | none
  some ⟨← PublicKey.ofJson? key, ← weight.word32?⟩

end KeyWeight

namespace LevelWeight

def toJson (entry : LevelWeight) : Json :=
  .record [("permission", entry.level.toJson), ("weight", .natural entry.weight.toNat)]

def ofJson? (json : Json) : Option LevelWeight := do
  let [level, weight] ← json.record? ["permission", "weight"] | none
  some ⟨← Level.ofJson? level, ← weight.word32?⟩

end LevelWeight

namespace Authority

def toJson (a : Authority) : Json :=
  .record
    [("threshold", .natural a.threshold.toNat),
     ("keys", .list KeyWeight.toJson a.keys),
     ("accounts", .list LevelWeight.toJson a.accounts)]

def ofJson? (json : Json) : Option Authority := do
  let [threshold, keys, accounts] ← json.record? ["threshold", "keys", "accounts"] | none
  some ⟨← threshold.word32?, ← keys.list? KeyWeight.ofJson?, ← accounts.list? LevelWeight.ofJson?⟩

end Authority

end ChainLab
