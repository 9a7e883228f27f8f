import ChainLab.Chain.State

/-!
# Authorization of messages

Every declared level has to exist, to be relevant for the message, and to be met
by the keys that signed. The four actions on permissions and links choose what
they require by themselves.
-/

namespace ChainLab.ChainState

/-- A native message whose action decides by itself which permission it requires. -/
def managesAuthority (rules : Rules) (m : Message) : Bool :=
  m.contract = rules.config.nativeContract &&
    (ActionKind.ofName? m.type).any ActionKind.managesAuthority

def checkLevel (rules : Rules) (keys : KeySet) (m : Message) (s : ChainState) (level : Level) :
    Except ChainError Unit := do
  let a ← s.requireAccount level.actor
  if level.permission ∉ a.permissions then
    throw (.authority (.unknownLevel level))
  let required := a.minimumPermission m.contract m.type
  if !managesAuthority rules m && !a.satisfies level.permission required then
    throw (.irrelevantAuthority level ⟨level.actor, required⟩)
  match level.evaluate s.resolver keys with
  | .error error => throw (.authority error)
  | .ok false => throw (.authorityUnsatisfied level)
  | .ok true => return ()

def checkLevels (rules : Rules) (keys : KeySet) (m : Message) (s : ChainState) :
    List Level → Except ChainError Unit
  | [] => .ok ()
  | level :: rest => do
    checkLevel rules keys m s level
    checkLevels rules keys m s rest

def checkAuthorization (rules : Rules) (keys : KeySet) (m : Message) (s : ChainState) :
    Except ChainError Unit :=
  checkLevels rules keys m s m.authorizations.toList

/-- Some declared level of `actor` covers `required`. -/
def requirePermission (m : Message) (s : ChainState) (actor : AccountName)
    (required : PermissionName) : Except ChainError Unit := do
  let a ← s.requireAccount actor
  if m.authorizations.toList.any fun level =>
      level.actor = actor && a.satisfies level.permission required then
    return ()
  else
    throw (.missingAuthorization ⟨actor, required⟩)

/-- The actor declared some level; its relevance was checked before. -/
def requireActor (m : Message) (actor : AccountName) : Except ChainError Unit :=
  if m.authorizations.toList.any fun level => level.actor = actor then .ok ()
  else .error (.missingAuthorization (Level.active actor))

end ChainLab.ChainState
