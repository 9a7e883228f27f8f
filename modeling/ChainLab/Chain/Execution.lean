import ChainLab.Action.Wire
import ChainLab.Chain.Authorization

/-!
# Executing actions, transactions and blocks

An action either changes the state or is refused with the state untouched.
Transactions and blocks are atomic for the same reason: a failure yields no
state at all.
-/

namespace ChainLab.ChainState

def ensure (condition : Bool) (error : ChainError) : Except ChainError Unit :=
  if condition then .ok () else .error error

def orError {α : Type} (error : ChainError) : Option α → Except ChainError α
  | some a => .ok a
  | none => .error error

def debit (s : ChainState) (name : AccountName) (amount : Amount) : Except ChainError ChainState :=
  s.updateAccount name fun a => do
    let balance ← orError (.insufficientFunds name amount a.balance) (a.balance.sub? amount)
    return { a with balance }

/-- Every delegation of an authority has to point at an existing permission. -/
def validateDelegations (s : ChainState) : List LevelWeight → Except ChainError Unit
  | [] => .ok ()
  | entry :: rest => do
    ensure (s.authority? entry.level).isSome (.authority (.unknownLevel entry.level))
    s.validateDelegations rest

def validateAuthority (s : ChainState) (authority : Authority) : Except ChainError Unit := do
  ensure (authority.threshold != 0) (.authority .zeroThreshold)
  s.validateDelegations authority.accounts

def newAccount (s : ChainState) (creator name : AccountName) (owner active recovery : Authority)
    (deposit : Amount) : Except ChainError ChainState := do
  ensure (name != "") (.invalidName name)
  ensure (name ∉ s.accounts) (.duplicateAccount name)
  s.validateAuthority owner
  s.validateAuthority active
  s.validateAuthority recovery
  let s ← s.debit creator deposit
  let a := Account.make name owner active deposit
  return s.setAccount name
    { a with
      permissions :=
        a.permissions.insert PermissionName.recovery ⟨some PermissionName.owner, recovery⟩ }

def transfer (s : ChainState) (sender recipient : AccountName) (amount : Amount) :
    Except ChainError ChainState := do
  let _ ← s.requireAccount recipient
  let s ← s.debit sender amount
  s.updateAccount recipient fun a => do
    let balance ← orError .overflow (a.balance.add? amount)
    return { a with balance }

def lock (s : ChainState) (sender recipient : AccountName) (amount : Amount) :
    Except ChainError ChainState := do
  let _ ← s.requireAccount recipient
  let s ← s.debit sender amount
  s.updateAccount recipient fun a => do
    let staked ← orError .overflow (a.staked.add? amount)
    return { a with staked }

/-- Stake and what is being unstaked are divided anew, and the delay starts over. -/
def unlock (s : ChainState) (now : Time) (name : AccountName) (amount : Amount) :
    Except ChainError ChainState :=
  s.updateAccount name fun a => do
    let total ← orError .overflow (a.staked.add? a.unstaking)
    let staked ← orError (.insufficientFunds name amount total) (total.sub? amount)
    return { a with staked, unstaking := amount, unstakeRequestedAt := now }

def claim (rules : Rules) (s : ChainState) (now : Time) (name : AccountName) (amount : Amount) :
    Except ChainError ChainState :=
  s.updateAccount name fun a => do
    let unstaking ← orError (.insufficientFunds name amount a.unstaking) (a.unstaking.sub? amount)
    let delay := rules.config.unstakeDelay
    ensure (delay ≤ now.since a.unstakeRequestedAt)
      (.unstakeNotMature name (a.unstakeRequestedAt.after delay) now)
    let balance ← orError .overflow (a.balance.add? amount)
    return { a with unstaking, balance }

def setProxy (s : ChainState) (stakeholder proxy : AccountName) : Except ChainError ChainState := do
  if proxy = stakeholder then
    s.updateAccount stakeholder fun a => return { a with proxy := none }
  else
    let _ ← s.requireAccount proxy
    s.updateAccount stakeholder fun a => return { a with proxy := some proxy }

def setProducer (s : ChainState) (name : AccountName) (signingKey : PublicKey)
    (config : ProducerConfig) : Except ChainError ChainState := do
  let _ ← s.requireAccount name
  ensure (name ∉ s.producers) (.duplicateProducer name)
  return { s with producers := s.producers.insert name ⟨name, signingKey, config⟩ }

def updateProducer (s : ChainState) (name : AccountName) (signingKey : PublicKey)
    (config : ProducerConfig) : Except ChainError ChainState := do
  let producer ← orError (.unknownProducer name) (s.producer? name)
  let changed := { producer with signingKey := signingKey, configVote := config }
  return { s with producers := s.producers.insert name changed }

def approveProducer (s : ChainState) (voter producer : AccountName) (approve : Bool) :
    Except ChainError ChainState := do
  ensure (producer ∈ s.producers) (.unknownProducer producer)
  s.updateAccount voter fun a => do
    let approved := a.approvedProducers
    return { a with
      approvedProducers := if approve then approved.insert producer else approved.erase producer }

/-- The parent a permission is to hang under: none for `owner`, `owner` for
`active`, and never the permission itself or something below it. -/
def newParent (a : Account) (permission parent : PermissionName) :
    Except ChainError (Option PermissionName) := do
  if permission = PermissionName.owner then
    return none
  else
    let error := ChainError.invalidParent permission parent
    ensure (parent != permission && parent ∈ a.permissions) error
    ensure (permission != PermissionName.active || parent = PermissionName.owner) error
    ensure (permission ∉ a.permissions || !a.satisfies permission parent) error
    return some parent

/-- Creating a permission takes authority over its parent, changing or moving one
takes authority over the parent it has. -/
def updateAuthority (m : Message) (s : ChainState) (name : AccountName)
    (permission parent : PermissionName) (authority : Authority) :
    Except ChainError ChainState := do
  ensure (permission != "") (.invalidName "")
  let a ← s.requireAccount name
  let parent? ← newParent a permission parent
  let above :=
    match a.permissions[permission]? with
    | some existing => existing.parent
    | none => parent?
  requirePermission m s name (above.getD PermissionName.owner)
  s.validateAuthority authority
  s.updateAccount name fun a =>
    return { a with permissions := a.permissions.insert permission ⟨parent?, authority⟩ }

/-- Whether another permission hangs under this one or a link requires it. -/
def inUse (a : Account) (permission : PermissionName) : Bool :=
  (a.permissions.toList.any fun (_, p) => p.parent = some permission) ||
    a.links.toList.any fun (_, requirement) => requirement = permission

def deleteAuthority (m : Message) (s : ChainState) (name : AccountName)
    (permission : PermissionName) : Except ChainError ChainState := do
  let level : Level := ⟨name, permission⟩
  ensure (permission != PermissionName.owner && permission != PermissionName.active)
    (.protectedPermission level)
  let a ← s.requireAccount name
  let existing ← orError (.authority (.unknownLevel level)) a.permissions[permission]?
  ensure (!inUse a permission) (.permissionInUse level)
  requirePermission m s name (existing.parent.getD PermissionName.owner)
  s.updateAccount name fun a => return { a with permissions := a.permissions.erase permission }

def linkAuthority (rules : Rules) (m : Message) (s : ChainState) (name contract : AccountName)
    (messageType : Option String) (requirement : PermissionName) :
    Except ChainError ChainState := do
  requirePermission m s name PermissionName.active
  if contract != rules.config.nativeContract then
    let _ ← s.requireAccount contract
  s.updateAccount name fun a => do
    ensure (requirement ∈ a.permissions) (.authority (.unknownLevel ⟨name, requirement⟩))
    return { a with links := a.links.insert ⟨contract, messageType⟩ requirement }

def unlinkAuthority (m : Message) (s : ChainState) (name contract : AccountName)
    (messageType : Option String) : Except ChainError ChainState := do
  requirePermission m s name PermissionName.active
  s.updateAccount name fun a => do
    let link : LinkKey := ⟨contract, messageType⟩
    ensure (link ∈ a.links) (.unknownPermissionLink name contract messageType)
    return { a with links := a.links.erase link }

variable [Crypto]

def setCode (s : ChainState) (name : AccountName) (code : List UInt8) :
    Except ChainError ChainState :=
  s.updateAccount name fun a => return { a with codeHash := some (Crypto.hash code) }

/-- Carry out one action of an authorized message. -/
def execute (rules : Rules) (now : Time) (m : Message) (s : ChainState) (action : Action) :
    Except ChainError ChainState := do
  if !action.kind.managesAuthority then requireActor m action.actor
  match action with
  | .newAccount creator name owner active recovery deposit =>
    s.newAccount creator name owner active recovery deposit
  | .transfer sender recipient amount _ => s.transfer sender recipient amount
  | .lock sender recipient amount => s.lock sender recipient amount
  | .unlock account amount => s.unlock now account amount
  | .claim account amount => claim rules s now account amount
  | .setProxy stakeholder proxy => s.setProxy stakeholder proxy
  | .setProducer name key config => s.setProducer name key config
  | .updateProducer name key config => s.updateProducer name key config
  | .approveProducer voter producer approve => s.approveProducer voter producer approve
  | .updateAuthority account permission parent authority =>
    updateAuthority m s account permission parent authority
  | .deleteAuthority account permission => deleteAuthority m s account permission
  | .linkAuthority account contract type requirement =>
    linkAuthority rules m s account contract type requirement
  | .unlinkAuthority account contract type => unlinkAuthority m s account contract type
  | .setCode account code => s.setCode account code

/-- Carry out a message. Other contracts than the native one are not simulated;
the receiver only has to exist. -/
def dispatch (rules : Rules) (now : Time) (m : Message) (s : ChainState) :
    Except ChainError ChainState := do
  if m.contract != rules.config.nativeContract then
    let _ ← s.requireAccount m.contract
    return s
  else
    let kind ← orError (.unknownAction m.contract m.type) (ActionKind.ofName? m.type)
    let action ← orError (.invalidPayload m.type) (Action.decode? kind m.payload)
    s.execute rules now m action

def applyMessage (rules : Rules) (now : Time) (keys : KeySet) (s : ChainState) (m : Message) :
    Except ChainError ChainState := do
  checkAuthorization rules keys m s
  s.dispatch rules now m

/-- Messages run one after the other, each on the state the previous one left. -/
def applyMessages (rules : Rules) (now : Time) (keys : KeySet) :
    ChainState → List Message → Except ChainError ChainState
  | s, [] => .ok s
  | s, m :: rest => do applyMessages rules now keys (← s.applyMessage rules now keys m) rest

/-- The reference block has to be on this chain and recent. -/
def checkReference (rules : Rules) (s : ChainState) (t : Transaction) : Except ChainError Unit := do
  let window := rules.config.referenceBlockWindow
  ensure ((s.blockId? t.refBlockNum.toNat).any fun id => id.refTag = t.refBlockTag)
    (.unknownReferenceBlock t.refBlockNum t.refBlockTag)
  ensure (s.head.num - t.refBlockNum ≤ window)
    (.staleReferenceBlock t.refBlockNum s.head.num window)

/-- Apply a transaction as of time `now`. -/
def applyTransaction (rules : Rules) (now : Time) (s : ChainState) (trx : SignedTransaction) :
    Except ChainError ChainState := do
  let t := trx.transaction
  let digest := trx.digest
  ensure (!s.hasApplied digest) (.duplicateTransaction digest)
  ensure (now ≤ t.expiration) (.expired t.expiration now)
  checkReference rules s t
  match trx.verifiedKeys rules.chainId with
  | .error key => throw (.invalidSignature key)
  | .ok keys =>
    let next ← s.applyMessages rules now keys t.messages
    return { next with applied := next.applied.insert digest }

def applyTransactions (rules : Rules) (now : Time) :
    ChainState → List SignedTransaction → Except ChainError ChainState
  | s, [] => .ok s
  | s, trx :: rest => do applyTransactions rules now (← s.applyTransaction rules now trx) rest

/-- Apply a block on top of the head. -/
def applyBlock (rules : Rules) (s : ChainState) (b : Block) : Except ChainError ChainState := do
  let header := b.header
  ensure (header.previous = s.head.id) (.unlinkableBlock header.id header.previous)
  ensure (header.num = s.head.num + 1 && s.head.time < header.time && b.isConsistent)
    (.invalidBlock header.id .malformedBlock)
  let applied := s.applyTransactions rules header.time b.transactions
  let next ← applied.mapError (.invalidBlock header.id)
  return next.advance header

/-- Try transactions in order, keeping each that applies on top of those kept before. -/
def takeValid (rules : Rules) (now : Time) :
    ChainState → List SignedTransaction → ChainState × List SignedTransaction
  | s, [] => (s, [])
  | s, trx :: rest =>
    match s.applyTransaction rules now trx with
    | .error _ => takeValid rules now s rest
    | .ok next =>
      let (final, kept) := takeValid rules now next rest
      (final, trx :: kept)

end ChainLab.ChainState
