import ChainLab.Action
import ChainLab.Transaction.Wire

/-!
# Actions as message payloads

The payload of a message is the JSON text of its action; the message type says
which action is meant.
-/

namespace ChainLab

namespace Action

def toJson : Action → Json
  | newAccount creator name owner active recovery deposit =>
    .record
      [("creator", .text creator), ("name", .text name), ("owner", owner.toJson),
       ("active", active.toJson), ("recovery", recovery.toJson), ("deposit", deposit.toJson)]
  | transfer sender recipient amount memo =>
    .record
      [("from", .text sender), ("to", .text recipient), ("amount", amount.toJson),
       ("memo", .text memo)]
  | lock sender recipient amount =>
    .record [("from", .text sender), ("to", .text recipient), ("amount", amount.toJson)]
  | unlock account amount | claim account amount =>
    .record [("account", .text account), ("amount", amount.toJson)]
  | setProxy stakeholder proxy =>
    .record [("stakeholder", .text stakeholder), ("proxy", .text proxy)]
  | setProducer name signingKey config | updateProducer name signingKey config =>
    .record
      [("name", .text name), ("signing_key", signingKey.toJson),
       ("configuration", config.toJson)]
  | approveProducer voter producer approve =>
    .record [("voter", .text voter), ("producer", .text producer), ("approve", .bool approve)]
  | updateAuthority account permission parent authority =>
    .record
      [("account", .text account), ("permission", .text permission), ("parent", .text parent),
       ("authority", authority.toJson)]
  | deleteAuthority account permission =>
    .record [("account", .text account), ("permission", .text permission)]
  | linkAuthority account contract messageType requirement =>
    .record
      [("account", .text account), ("code", .text contract),
       ("message_type", .ofOption .text messageType), ("requirement", .text requirement)]
  | unlinkAuthority account contract messageType =>
    .record
      [("account", .text account), ("code", .text contract),
       ("message_type", .ofOption .text messageType)]
  | setCode account code => .record [("account", .text account), ("code", .octets code)]

def ofJson? (kind : ActionKind) (json : Json) : Option Action :=
  match kind with
  | .newAccount => do
    let [creator, name, owner, active, recovery, deposit] ←
      json.record? ["creator", "name", "owner", "active", "recovery", "deposit"] | none
    some (.newAccount (← creator.text?) (← name.text?) (← Authority.ofJson? owner)
      (← Authority.ofJson? active) (← Authority.ofJson? recovery) (← Amount.ofJson? deposit))
  | .transfer => do
    let [sender, recipient, amount, memo] ← json.record? ["from", "to", "amount", "memo"] | none
    some (.transfer (← sender.text?) (← recipient.text?) (← Amount.ofJson? amount) (← memo.text?))
  | .lock => do
    let [sender, recipient, amount] ← json.record? ["from", "to", "amount"] | none
    some (.lock (← sender.text?) (← recipient.text?) (← Amount.ofJson? amount))
  | .unlock => do
    let [account, amount] ← json.record? ["account", "amount"] | none
    some (.unlock (← account.text?) (← Amount.ofJson? amount))
  | .claim => do
    let [account, amount] ← json.record? ["account", "amount"] | none
    some (.claim (← account.text?) (← Amount.ofJson? amount))
  | .setProxy => do
    let [stakeholder, proxy] ← json.record? ["stakeholder", "proxy"] | none
    some (.setProxy (← stakeholder.text?) (← proxy.text?))
  | .setProducer => do
    let [name, key, config] ← json.record? ["name", "signing_key", "configuration"] | none
    some (.setProducer (← name.text?) (← PublicKey.ofJson? key) (← ProducerConfig.ofJson? config))
  | .updateProducer => do
    let [name, key, config] ← json.record? ["name", "signing_key", "configuration"] | none
    some (.updateProducer (← name.text?) (← PublicKey.ofJson? key)
      (← ProducerConfig.ofJson? config))
  | .approveProducer => do
    let [voter, producer, approve] ← json.record? ["voter", "producer", "approve"] | none
    some (.approveProducer (← voter.text?) (← producer.text?) (← approve.bool?))
  | .updateAuthority => do
    let [account, permission, parent, authority] ←
      json.record? ["account", "permission", "parent", "authority"] | none
    some (.updateAuthority (← account.text?) (← permission.text?) (← parent.text?)
      (← Authority.ofJson? authority))
  | .deleteAuthority => do
    let [account, permission] ← json.record? ["account", "permission"] | none
    some (.deleteAuthority (← account.text?) (← permission.text?))
  | .linkAuthority => do
    let [account, code, type, requirement] ←
      json.fields? false ["account", "code", "message_type", "requirement"] | none
    some (.linkAuthority (← (← account).text?) (← (← code).text?)
      (← Json.optional? Json.text? type) (← (← requirement).text?))
  | .unlinkAuthority => do
    let [account, code, type] ← json.fields? false ["account", "code", "message_type"] | none
    some (.unlinkAuthority (← (← account).text?) (← (← code).text?)
      (← Json.optional? Json.text? type))
  | .setCode => do
    let [account, code] ← json.record? ["account", "code"] | none
    some (.setCode (← account.text?) (← code.octets?))

def payload (action : Action) : List UInt8 := action.toJson.print

/-- The action of the given kind that a payload spells. -/
def decode? (kind : ActionKind) (payload : List UInt8) : Option Action :=
  (Json.parse? payload).bind (ofJson? kind)

/-- The message that carries an action to a contract. -/
def toMessage (contract : AccountName) (authorizations : LevelSet) (action : Action) : Message where
  contract := contract
  authorizations := authorizations
  type := action.kind.name
  payload := action.payload

end Action

end ChainLab
