import ChainLab.Proofs.AccountEdits
import ChainLab.Proofs.ScenarioRun
import ChainLab.Proofs.Submission

/-!
# Creating an account

From the call to the account: what is left open gets its default, the action travels as JSON in a
signed transaction, and the node that accepts it opens the account at the expense of the creator.
On this node nothing else happens, however the transaction goes on through the network. If anything
along this way fails, a key that was made for the account is all that remains of the call.
-/

namespace ChainLab

namespace ChainState

variable {s s' : ChainState} {creator name : AccountName} {owner active recovery : Authority}
  {deposit : Amount}

/-- An account has been opened under a free name, its creator has paid the deposit, and every other
account and all producers are as they were. -/
structure Opened (s : ChainState) (creator name : AccountName) (owner active recovery : Authority)
    (deposit : Amount) (s' : ChainState) : Prop where
  free : s.account? name = none
  account : ∃ a, s'.account? name = some a ∧ a.balance = deposit ∧
    a.permissions["owner"]? = some ⟨none, owner⟩ ∧
    a.permissions["active"]? = some ⟨some "owner", active⟩ ∧
    a.permissions["recovery"]? = some ⟨some "owner", recovery⟩
  payment : ∃ payer balance, s.account? creator = some payer ∧
    s'.account? creator = some { payer with balance } ∧
    payer.balance.units.toNat = balance.units.toNat + deposit.units.toNat
  others : ∀ other, other ≠ name → other ≠ creator → s'.account? other = s.account? other
  producers : s'.producers = s.producers

theorem opened_of_newAccount
    (h : s.newAccount creator name owner active recovery deposit = .ok s') :
    s.Opened creator name owner active recovery deposit s' := by
  obtain ⟨-, free, -, -, -, t, paid, rfl⟩ := newAccount_eq_ok.mp h
  obtain ⟨payer, balance, found, less, rfl⟩ := debit_eq_ok.mp paid
  have apart : name ≠ creator := by
    rintro rfl
    cases free.symm.trans found
  refine ⟨free, ?_, ⟨payer, balance, found, ?_, ?_⟩, ?_, rfl⟩
  · exact ⟨_, account?_setAccount_self, rfl, rfl, rfl, rfl⟩
  · rw [account?_setAccount_of_ne apart, account?_setAccount_self]
  · have part := Amount.toNat_of_sub? less
    omega
  · intro other notName notCreator
    rw [account?_setAccount_of_ne notName.symm, account?_setAccount_of_ne notCreator.symm]

end ChainState

/-- A node that has taken the creation of an account has the account. -/
theorem Node.Took.opened [Crypto] {n n' : Node} {level : Level} {creator name : AccountName}
    {owner active recovery : Authority} {deposit : Amount}
    (took : n.Took level (.newAccount creator name owner active recovery deposit) n') :
    n.pendingState.Opened creator name owner active recovery deposit n'.pendingState := by
  obtain ⟨trx, m, messages, carries, -, applies, -⟩ := took
  obtain ⟨-, -, -, keys, -, t, run, after⟩ := ChainState.applyTransaction_eq_ok.mp applies
  simp only [messages, ChainState.applyMessages, bind_eq_ok] at run
  obtain ⟨t', step, last⟩ := run
  cases last
  have created : n.pendingState.newAccount creator name owner active recovery deposit = .ok t := by
    have done := ChainState.execute_of_applyMessage step carries
    simp [ChainState.execute, Action.kind, ActionKind.managesAuthority] at done
    exact done.2
  have opened := ChainState.opened_of_newAccount created
  rw [after]
  exact ⟨opened.free, opened.account, opened.payment, opened.others, opened.producers⟩

namespace Scenario

section

variable [Crypto]

/-- What becomes of the keys when the authorities of a new account are chosen: if one of them was
left open, the key of that name is there and is given out, and else no key is made. -/
structure Keyed (ring : KeyRing) (name : AccountName) (options : AccountOptions)
    (key : Option KeyPair) (ring' : KeyRing) : Prop where
  leftOpen : options.owner = none ∨ options.active = none →
    key = some (KeyPair.ofName name) ∧ ring'.keys[name]? = key
  given : options.owner ≠ none → options.active ≠ none → key = none ∧ ring' = ring
  gains : ring.Gains name ring'

/-- What a creation leaves behind if it succeeds. A key that was made meets the authorities left
open all by itself, and so does the creator's active permission with the recovery. -/
structure Created (sc : Scenario) (node : NodeName) (name : AccountName)
    (options : AccountOptions) (key : Option KeyPair) (sc' : Scenario) : Prop where
  opened : ∃ n n', sc.network.nodes[node]? = some n ∧ sc'.network.nodes[node]? = some n' ∧
    let creator := options.creator.getD n.rules.config.genesisAccount.name
    let deposit := options.deposit.getD sc.config.defaultDeposit
    let generated : Authority := ⟨1, [⟨(KeyPair.ofName name).publicKey, 1⟩], []⟩
    let owner := options.owner.getD generated
    let active := options.active.getD generated
    let recovery := options.recovery.getD ⟨1, [], [⟨⟨creator, "active"⟩, 1⟩]⟩
    n.Took ⟨creator, "active"⟩ (.newAccount creator name owner active recovery deposit) n' ∧
      n.pendingState.Opened creator name owner active recovery deposit n'.pendingState
  keyed : Keyed sc.keys name options key sc'.keys
  config : sc'.config = sc.config

/-- What a creation leaves behind if it fails. -/
structure NotCreated (sc : Scenario) (name : AccountName) (sc' : Scenario) : Prop where
  network : sc'.network = sc.network
  gains : sc.keys.Gains name sc'.keys
  config : sc'.config = sc.config

variable {sc : Scenario} {ring : KeyRing} {node : NodeName} {name : AccountName}
  {options : AccountOptions}

theorem keyed_make (h : ring.Derived) (leftOpen : options.owner = none ∨ options.active = none) :
    Keyed ring name options (some (KeyPair.ofName name)) (ring.make name).2 where
  leftOpen _ := ⟨rfl, by rw [KeyRing.getElem?_make, if_pos rfl]⟩
  given owner active := absurd leftOpen (not_or.mpr ⟨owner, active⟩)
  gains := h.gains_make

theorem keyed_given (owner : options.owner ≠ none) (active : options.active ≠ none) :
    Keyed ring name options none ring where
  leftOpen leftOpen := absurd leftOpen (not_or.mpr ⟨owner, active⟩)
  given _ _ := ⟨rfl, rfl⟩
  gains := .refl

/-- Only the keys can change when the authorities are chosen. -/
theorem exists_keyed (h : sc.keys.Derived) (name : AccountName) (options : AccountOptions) :
    ∃ key ring, Keyed sc.keys name options key ring ∧
      sc.accountKeys name options =
        (options.owner.getD (Authority.ofKey (KeyPair.ofName name).publicKey),
          options.active.getD (Authority.ofKey (KeyPair.ofName name).publicKey), key,
          { sc with keys := ring }) := by
  unfold accountKeys
  cases owner : options.owner with
  | none => exact ⟨_, _, keyed_make h (.inl owner), rfl⟩
  | some first =>
    cases active : options.active with
    | none => exact ⟨_, _, keyed_make h (.inr active), rfl⟩
    | some second => exact ⟨none, sc.keys, keyed_given (by simp [owner]) (by simp [active]), rfl⟩

/-- With nothing under way, a creation is carried out on the node or leaves at most a key. -/
theorem createAccount_cases (h : sc.keys.Derived) (quiet : sc.network.queued = 0)
    (node : NodeName) (name : AccountName) (options : AccountOptions) :
    (∃ key sc', sc.createAccount node name options = (.ok key, sc') ∧
      sc.Created node name options key sc') ∨
    ∃ error sc', sc.createAccount node name options = (.error error, sc') ∧
      sc.NotCreated name sc' := by
  cases found : sc.network.nodes[node]? with
  | none =>
    right
    refine ⟨.unknownNode node, sc, ?_, rfl, .refl, rfl⟩
    simp only [createAccount, Network.node, found]
  | some n =>
    obtain ⟨key, ring, keyed, chosen⟩ := exists_keyed h name options
    let creator := options.creator.getD n.rules.config.genesisAccount.name
    let deposit := options.deposit.getD sc.config.defaultDeposit
    let generated := Authority.ofKey (KeyPair.ofName name).publicKey
    let recovery := options.recovery.getD (Authority.ofAccount creator)
    let action : Action := .newAccount creator name (options.owner.getD generated)
      (options.active.getD generated) recovery deposit
    let ready : Scenario := { sc with keys := ring }
    have carried : sc.createAccount node name options =
        ((ready.submit node (Level.active creator) action).1.map fun _ => key,
          (ready.submit node (Level.active creator) action).2) := by
      simp only [createAccount, Network.node_eq_ok.mpr found, chosen]
      rfl
    have quiet' : ready.network.queued = 0 := quiet
    rcases submit_cases quiet' found (Level.active creator) action with
      ⟨digest, sc', n', submitted, keys, config, there, took⟩ | ⟨error, submitted⟩
    · left
      refine ⟨key, sc', ?_, ⟨n, n', found, there, took, took.opened⟩, keys ▸ keyed, config⟩
      rw [carried, submitted]
      rfl
    · right
      refine ⟨error, ready, ?_, rfl, keyed.gains, rfl⟩
      rw [carried, submitted]
      rfl

/-- Whatever has been done with a scenario, as soon as nothing is queued, an account can be created
on any node, under any name, with any of the options left open. If that succeeds, one transaction
with one message has been added to what is pending on the node, and the account is there as it was
chosen or by default, paid for by its creator, with nothing else changed on the node; a key that was
made for the account is in the ring. If it fails, the network is as it was, and at most that key has
been added. -/
theorem createAccount_all_or_nothing (config : ScenarioConfig) (seed : BitVec 128)
    (commands : List Command)
    (quiet : ((make config seed).obeyAll commands).network.queued = 0)
    (node : NodeName) (name : AccountName) (options : AccountOptions) :
    let sc := (make config seed).obeyAll commands
    (∃ key sc', sc.createAccount node name options = (.ok key, sc') ∧
      sc.Created node name options key sc') ∨
    ∃ error sc', sc.createAccount node name options = (.error error, sc') ∧
      sc.NotCreated name sc' := by
  intro sc
  have derived : sc.keys.Derived := derived_obeyAll (derived_make config seed) commands
  exact createAccount_cases derived quiet node name options

end

section sample

attribute [local instance] checksum

/-- The genesis account can be signed for, and every change is propagated. -/
def sampleSociety : ScenarioConfig where
  seed := none
  autoPropagate := true
  chainName := "lab"
  defaultDeposit := ⟨100⟩
  chain := { sampleConfig with
    genesisAccount := ⟨"init0", (KeyPair.ofName "init0").publicKey, ⟨1000⟩⟩ }

/-- Three nodes in a cycle, so that a node hears again of what it has told. -/
def sampleGathering : List Command :=
  [.makeNodes ["a", "b", "c"], .network (.operate (.connect "a" "b")),
   .network (.operate (.connect "b" "c")), .network (.operate (.connect "c" "a"))]

/-- Everything but the deposit is left open. -/
def sampleOptions : AccountOptions := ⟨none, some ⟨30⟩, none, none, none⟩

/-- An account with a name is created, one without a name is not. -/
theorem createAccount_all_or_nothing_sample :
    let sc := (make sampleSociety 7).obeyAll sampleGathering
    sc.network.queued = 0 ∧
      (∃ key sc', sc.createAccount "a" "joe" sampleOptions = (.ok key, sc') ∧
        sc.Created "a" "joe" sampleOptions key sc') ∧
      ∃ error sc', sc.createAccount "a" "" sampleOptions = (.error error, sc') ∧
        sc.NotCreated "" sc' := by
  intro sc
  have facts : sc.network.queued = 0 ∧
      (sc.createAccount "a" "joe" sampleOptions).1.toOption.isSome = true ∧
      (sc.createAccount "a" "" sampleOptions).1.toOption.isSome = false := by
    decide +kernel
  obtain ⟨quiet, joe, unnamed⟩ := facts
  have either := createAccount_all_or_nothing sampleSociety 7 sampleGathering quiet "a"
  refine ⟨quiet, ?_, ?_⟩
  · rcases either "joe" sampleOptions with created | ⟨error, sc', failed, -⟩
    · exact created
    · rw [failed] at joe
      cases joe
  · rcases either "" sampleOptions with ⟨key, sc', done, -⟩ | refused
    · rw [done] at unnamed
      cases unnamed
    · exact refused

end sample

end Scenario

end ChainLab
