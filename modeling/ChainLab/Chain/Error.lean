import ChainLab.Authority
import ChainLab.Block

/-!
# Why a chain refuses a transaction or a block
-/

namespace ChainLab

inductive ChainError where
  | expired (expiration now : Time)
  | staleReferenceBlock (refBlockNum headBlockNum window : UInt32)
  | unknownReferenceBlock (num tag : UInt32)
  | authorityUnsatisfied (level : Level)
  | authority (error : AuthorityError)
  | unknownAccount (name : AccountName)
  | duplicateAccount (name : AccountName)
  | duplicateTransaction (digest : Digest)
  | invalidSignature (key : PublicKey)
  | missingAuthorization (level : Level)
  | irrelevantAuthority (declared required : Level)
  | insufficientFunds (account : AccountName) (needed available : Amount)
  | overflow
  | unknownProducer (name : AccountName)
  | duplicateProducer (name : AccountName)
  | unknownAction (contract : AccountName) (messageType : String)
  | invalidPayload (messageType : String)
  | invalidName (name : String)
  | protectedPermission (level : Level)
  | permissionInUse (level : Level)
  | invalidParent (permission parent : PermissionName)
  | unstakeNotMature (account : AccountName) (availableAt now : Time)
  | unknownPermissionLink (account contract : AccountName) (messageType : Option String)
  | unlinkableBlock (id previous : BlockId)
  | malformedBlock
  | invalidBlock (id : BlockId) (source : ChainError)
  deriving DecidableEq

namespace ChainError

/-- The name of the failure; an authority's failure goes by its own name. -/
def kind : ChainError → String
  | expired .. => "Expired"
  | staleReferenceBlock .. => "StaleReferenceBlock"
  | unknownReferenceBlock .. => "UnknownReferenceBlock"
  | authorityUnsatisfied .. => "AuthorityUnsatisfied"
  | authority error => error.kind
  | unknownAccount .. => "UnknownAccount"
  | duplicateAccount .. => "DuplicateAccountName"
  | duplicateTransaction .. => "DuplicateTransaction"
  | invalidSignature .. => "InvalidSignature"
  | missingAuthorization .. => "MissingAuthorization"
  | irrelevantAuthority .. => "IrrelevantAuthority"
  | insufficientFunds .. => "InsufficientFunds"
  | overflow => "Overflow"
  | unknownProducer .. => "UnknownProducer"
  | duplicateProducer .. => "DuplicateProducer"
  | unknownAction .. => "UnknownAction"
  | invalidPayload .. => "InvalidPayload"
  | invalidName .. => "InvalidName"
  | protectedPermission .. => "ProtectedPermission"
  | permissionInUse .. => "PermissionInUse"
  | invalidParent .. => "InvalidParent"
  | unstakeNotMature .. => "UnstakeNotMature"
  | unknownPermissionLink .. => "UnknownPermissionLink"
  | unlinkableBlock .. => "UnlinkableBlock"
  | malformedBlock => "MalformedBlock"
  | invalidBlock .. => "InvalidBlock"

/-- Eight hexadecimal digits. -/
def shownTag (tag : UInt32) : String :=
  "0x" ++ Hex.encode (bigEndian 4 tag.toNat)

def message : ChainError → String
  | expired expiration now => s!"transaction expired at {expiration}, chain time is {now}"
  | staleReferenceBlock num head window =>
    s!"reference block {num} is more than {window} blocks behind head {head}"
  | unknownReferenceBlock num tag =>
    let shown := shownTag tag
    s!"reference block {num} with prefix {shown} is not on this chain"
  | authorityUnsatisfied level =>
    s!"authority of {level} is not satisfied by the provided signatures"
  | authority error => error.message
  | unknownAccount name => s!"unknown account {name}"
  | duplicateAccount name => s!"account {name} already exists"
  | duplicateTransaction digest =>
    let shown := digest.short
    s!"transaction {shown} was already applied"
  | invalidSignature key => s!"signature by {key} does not verify"
  | missingAuthorization level => s!"missing authorization of {level}"
  | irrelevantAuthority declared required =>
    s!"{declared} cannot authorize this message, {required} is required"
  | insufficientFunds account needed available => s!"{account} needs {needed} but has {available}"
  | overflow => "asset amount overflow"
  | unknownProducer name => s!"{name} is not a registered producer"
  | duplicateProducer name => s!"{name} is already a registered producer"
  | unknownAction contract messageType => s!"{contract} has no action {messageType}"
  | invalidPayload messageType => s!"malformed {messageType} payload: <reason>"
  | invalidName name =>
    let shown := Text.quoted name
    s!"invalid name {shown}"
  | protectedPermission level => s!"permission {level} cannot be deleted"
  | permissionInUse level => s!"permission {level} still has children or links"
  | invalidParent permission parent => s!"{parent} cannot be the parent of {permission}"
  | unstakeNotMature account availableAt now =>
    s!"unstake of {account} matures at {availableAt}, chain time is {now}"
  | unknownPermissionLink account contract messageType =>
    let shown := Text.quotedOption messageType
    s!"{account} has no permission link for {contract}::{shown}"
  | unlinkableBlock id previous => s!"block {id} does not link to known block {previous}"
  | malformedBlock => "block header is inconsistent with its parent or contents"
  | invalidBlock id source =>
    let reason := source.message
    s!"block {id} is invalid: {reason}"

end ChainError

end ChainLab
