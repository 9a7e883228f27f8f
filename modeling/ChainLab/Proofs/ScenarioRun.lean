import ChainLab.Proofs.Traffic
import ChainLab.Scenario

/-!
# Scenarios in use

Whatever is done with a scenario, its key ring holds under every name the key that is derived from
that name. Making a key again therefore changes nothing, and a ring that gets a key gets one more
at most.
-/

namespace ChainLab

namespace KeyRing

variable [Crypto] {ring : KeyRing} {name : String}

/-- Under every name there is the key of that name, if any. -/
def Derived (ring : KeyRing) : Prop :=
  ∀ name key, ring.keys[name]? = some key → key = KeyPair.ofName name

/-- At most the key of one name has been added, and every other key is there as before. -/
def Gains (ring : KeyRing) (name : String) (ring' : KeyRing) : Prop :=
  ∀ other, ring'.keys[other]? = ring.keys[other]? ∨
    other = name ∧ ring.keys[name]? = none ∧ ring'.keys[name]? = some (KeyPair.ofName name)

theorem getElem?_make {other : String} :
    (ring.make name).2.keys[other]? =
      if name = other then some (KeyPair.ofName name) else ring.keys[other]? := by
  simp [make, Std.ExtTreeMap.getElem?_insert]

theorem derived_empty : empty.Derived := by
  simp [Derived, empty]

theorem Derived.make (h : ring.Derived) (name : String) : (ring.make name).2.Derived := by
  intro other key found
  rw [getElem?_make] at found
  split at found
  next here =>
    cases found
    rw [here]
  next => exact h other key found

theorem Gains.refl : ring.Gains name ring := fun _ => .inl rfl

theorem Derived.gains_make (h : ring.Derived) : ring.Gains name (ring.make name).2 := by
  intro other
  rw [getElem?_make, getElem?_make, if_pos rfl]
  split
  next here =>
    subst here
    cases found : ring.keys[name]? with
    | none => exact .inr ⟨rfl, rfl, rfl⟩
    | some key => exact .inl (congrArg some (h name key found).symm)
  next => exact .inl rfl

end KeyRing

namespace Scenario

/-- What can be done with a scenario: whatever its network can be told, several nodes or blocks at
once, making a key, and the calls that submit one action each. -/
inductive Command where
  | network (command : ChainLab.Command)
  | makeNodes (names : List NodeName)
  | produceBlocks (node : NodeName) (count : Nat)
  | makeKey (name : String)
  | createAccount (node : NodeName) (name : AccountName) (options : AccountOptions)
  | registerProducer (node : NodeName) (owner : AccountName) (signingKey : Option PublicKey)
      (config : Option ProducerConfig)
  | updateProducer (node : NodeName) (owner : AccountName) (signingKey : PublicKey)
      (config : Option ProducerConfig)
  | approveProducer (node : NodeName) (voter producer : AccountName) (approve : Bool)
  | transfer (node : NodeName) (sender recipient : AccountName) (amount : Amount) (memo : String)
  | stake (node : NodeName) (sender : AccountName) (recipient : Option AccountName)
      (amount : Amount)
  | beginUnstake (node : NodeName) (account : AccountName) (amount : Amount)
  | finishUnstake (node : NodeName) (account : AccountName) (amount : Amount)
  | setProxy (node : NodeName) (stakeholder proxy : AccountName)
  | setAuthority (node : NodeName) (account : AccountName) (permission parent : PermissionName)
      (authority : Authority)
  | deleteAuthority (node : NodeName) (account : AccountName) (permission : PermissionName)
  | linkAuthority (node : NodeName) (account : AccountName) (permission : PermissionName)
      (contract : AccountName) (messageType : Option String)
  | unlinkAuthority (node : NodeName) (account contract : AccountName)
      (messageType : Option String)
  | setCode (node : NodeName) (account : AccountName) (code : List UInt8)

variable [Crypto]

def obey (sc : Scenario) : Command → Scenario
  | .network command => { sc with network := sc.network.obey command }
  | .makeNodes names => (sc.makeNodes names).2
  | .produceBlocks node count => (sc.produceBlocks node count).2
  | .makeKey name => (sc.makeKey name).2
  | .createAccount node name options => (sc.createAccount node name options).2
  | .registerProducer node owner signingKey config =>
    (sc.registerProducer node owner signingKey config).2
  | .updateProducer node owner signingKey config =>
    (sc.updateProducer node owner signingKey config).2
  | .approveProducer node voter producer approve =>
    (sc.approveProducer node voter producer approve).2
  | .transfer node sender recipient amount memo =>
    (sc.transfer node sender recipient amount memo).2
  | .stake node sender recipient amount => (sc.stake node sender recipient amount).2
  | .beginUnstake node account amount => (sc.beginUnstake node account amount).2
  | .finishUnstake node account amount => (sc.finishUnstake node account amount).2
  | .setProxy node stakeholder proxy => (sc.setProxy node stakeholder proxy).2
  | .setAuthority node account permission parent authority =>
    (sc.setAuthority node account permission parent authority).2
  | .deleteAuthority node account permission => (sc.deleteAuthority node account permission).2
  | .linkAuthority node account permission contract messageType =>
    (sc.linkAuthority node account permission contract messageType).2
  | .unlinkAuthority node account contract messageType =>
    (sc.unlinkAuthority node account contract messageType).2
  | .setCode node account code => (sc.setCode node account code).2

def obeyAll (sc : Scenario) (commands : List Command) : Scenario := commands.foldl obey sc

variable {sc : Scenario}

theorem keys_makeNodes {names : List NodeName} : (sc.makeNodes names).2.keys = sc.keys := by
  induction names generalizing sc with
  | nil => rfl
  | cons name rest ih =>
    rcases added : sc.network.addNode name with ⟨_ | _, net⟩
    · simp only [makeNodes, lift, added]
    · simp only [makeNodes, lift, added]
      exact ih

theorem keys_produceBlocks {node : NodeName} {count : Nat} :
    (sc.produceBlocks node count).2.keys = sc.keys := by
  induction count generalizing sc with
  | zero => rfl
  | succ count ih =>
    rcases made : sc.network.produceBlock node with ⟨_ | _, net⟩
    · simp only [produceBlocks, produceBlock, lift, made]
    · simp only [produceBlocks, produceBlock, lift, made]
      exact ih

/-- Signing takes the keys there are and makes none. -/
@[simp] theorem keys_submit {node : NodeName} {level : Level} {action : Action} :
    (sc.submit node level action).2.keys = sc.keys := by
  unfold submit
  split <;> rfl

theorem derived_accountKeys (h : sc.keys.Derived) {name : AccountName} {options : AccountOptions} :
    (sc.accountKeys name options).2.2.2.keys.Derived := by
  unfold accountKeys
  split
  · exact h
  · exact h.make name

theorem derived_obey (h : sc.keys.Derived) (command : Command) :
    (sc.obey command).keys.Derived := by
  cases command with
  | network => exact h
  | makeNodes names => exact keys_makeNodes.symm ▸ h
  | produceBlocks node count => exact keys_produceBlocks.symm ▸ h
  | makeKey name => exact h.make name
  | createAccount node name options =>
    simp only [obey, createAccount]
    split
    · exact h
    · rw [keys_submit]
      exact derived_accountKeys h
  | registerProducer node owner signingKey config =>
    simp only [obey, registerProducer]
    split
    · exact h
    · rw [keys_submit]
      split
      · exact h
      · exact h.make _
  | updateProducer node owner signingKey config =>
    simp only [obey, updateProducer]
    split
    · exact h
    · rwa [keys_submit]
  | _ => exact keys_submit.symm ▸ h

theorem derived_obeyAll (h : sc.keys.Derived) (commands : List Command) :
    (sc.obeyAll commands).keys.Derived := by
  induction commands generalizing sc with
  | nil => exact h
  | cons command rest ih => exact ih (derived_obey h command)

theorem derived_make (config : ScenarioConfig) (seed : BitVec 128) :
    (make config seed).keys.Derived :=
  KeyRing.derived_empty.make _

end Scenario

end ChainLab
