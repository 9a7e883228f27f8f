import ChainLab.Authority
import ChainLab.Config

/-!
# The actions of the native contract
-/

namespace ChainLab

inductive Action where
  | newAccount (creator name : AccountName) (owner active recovery : Authority) (deposit : Amount)
  | transfer (sender recipient : AccountName) (amount : Amount) (memo : String)
  /-- Liquid funds of the sender become staked funds of the recipient. -/
  | lock (sender recipient : AccountName) (amount : Amount)
  /-- Sets the amount being unstaked; zero cancels. -/
  | unlock (account : AccountName) (amount : Amount)
  /-- Moves matured unstaking funds back to liquid. -/
  | claim (account : AccountName) (amount : Amount)
  /-- Naming oneself clears the proxy. -/
  | setProxy (stakeholder proxy : AccountName)
  | setProducer (name : AccountName) (signingKey : PublicKey) (config : ProducerConfig)
  | updateProducer (name : AccountName) (signingKey : PublicKey) (config : ProducerConfig)
  | approveProducer (voter producer : AccountName) (approve : Bool)
  | updateAuthority (account : AccountName) (permission parent : PermissionName)
      (authority : Authority)
  | deleteAuthority (account : AccountName) (permission : PermissionName)
  /-- Without a message type every type of the contract is linked. -/
  | linkAuthority (account contract : AccountName) (messageType : Option String)
      (requirement : PermissionName)
  | unlinkAuthority (account contract : AccountName) (messageType : Option String)
  | setCode (account : AccountName) (code : List UInt8)
  deriving DecidableEq

inductive ActionKind where
  | newAccount
  | transfer
  | lock
  | unlock
  | claim
  | setProxy
  | setProducer
  | updateProducer
  | approveProducer
  | updateAuthority
  | deleteAuthority
  | linkAuthority
  | unlinkAuthority
  | setCode
  deriving DecidableEq

namespace ActionKind

def all : List ActionKind :=
  [newAccount, transfer, lock, unlock, claim, setProxy, setProducer, updateProducer,
   approveProducer, updateAuthority, deleteAuthority, linkAuthority, unlinkAuthority, setCode]

/-- The message type under which an action travels. -/
def name : ActionKind → String
  | newAccount => "newaccount"
  | transfer => "transfer"
  | lock => "lock"
  | unlock => "unlock"
  | claim => "claim"
  | setProxy => "setproxy"
  | setProducer => "setproducer"
  | updateProducer => "updateproducer"
  | approveProducer => "okproducer"
  | updateAuthority => "updateauth"
  | deleteAuthority => "deleteauth"
  | linkAuthority => "linkauth"
  | unlinkAuthority => "unlinkauth"
  | setCode => "setcode"

def ofName? (name : String) : Option ActionKind := all.find? fun kind => kind.name = name

/-- Actions on permissions and links, which decide for themselves what they require. -/
def managesAuthority : ActionKind → Bool
  | updateAuthority | deleteAuthority | linkAuthority | unlinkAuthority => true
  | _ => false

end ActionKind

namespace Action

def kind : Action → ActionKind
  | newAccount .. => .newAccount
  | transfer .. => .transfer
  | lock .. => .lock
  | unlock .. => .unlock
  | claim .. => .claim
  | setProxy .. => .setProxy
  | setProducer .. => .setProducer
  | updateProducer .. => .updateProducer
  | approveProducer .. => .approveProducer
  | updateAuthority .. => .updateAuthority
  | deleteAuthority .. => .deleteAuthority
  | linkAuthority .. => .linkAuthority
  | unlinkAuthority .. => .unlinkAuthority
  | setCode .. => .setCode

/-- The account whose authorization the action needs. -/
def actor : Action → AccountName
  | newAccount creator _ _ _ _ _ => creator
  | transfer sender _ _ _ => sender
  | lock sender _ _ => sender
  | unlock account _ => account
  | claim account _ => account
  | setProxy stakeholder _ => stakeholder
  | setProducer name _ _ => name
  | updateProducer name _ _ => name
  | approveProducer voter _ _ => voter
  | updateAuthority account _ _ _ => account
  | deleteAuthority account _ => account
  | linkAuthority account _ _ _ => account
  | unlinkAuthority account _ _ => account
  | setCode account _ => account

end Action

end ChainLab
