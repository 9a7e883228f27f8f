import ChainLab.Proofs.ReplayedHead

/-!
# A node takes what a peer makes on the same head

A node that makes a block does not check it. Whoever has the same head checks what the maker took
care of: the number, the contents, the transactions one by one. Only the time is not in the
maker's hands. It is the time of the head plus a configured interval, and where that does not lead
on, as the interval is zero or time has run out, the block is refused by everybody else.
-/

namespace ChainLab

/-- Time goes on by a positive span, until it has run out. -/
theorem Time.lt_after_iff {t : Time} {span : UInt64} :
    t < t.after span ↔ 0 < span ∧ t.ticks.toNat < UInt64.size - 1 := by
  have sum := t.toNat_after span
  have bound := t.ticks.toNat_lt
  change t.ticks < (t.after span).ticks ↔ _
  rw [UInt64.lt_iff_toNat_lt, UInt64.lt_iff_toNat_lt, sum, UInt64.toNat_zero]
  omega

namespace Node

section

variable [Crypto] {n x y : Node} {rules : Rules} {strings : List (List UInt8)}

/-- A block that a node makes is good on the head it was made on, if it is later than that. -/
theorem applyBlock_headState_produceBlock :
    n.headState.applyBlock n.rules n.produceBlock.1 =
      if n.headTime < n.produceBlock.1.header.time then .ok n.produceBlock.2.headState
      else .error (.invalidBlock n.produceBlock.1.id .malformedBlock) := by
  split
  next later => exact applyBlock_produceBlock later
  next early =>
    have link : n.produceBlock.1.header.previous = n.headState.head.id := rfl
    have halts : ¬ n.headState.head.time < n.produceBlock.1.header.time := early
    simp only [ChainState.applyBlock, ChainState.ensure, link, halts, decide_true, decide_false,
      Bool.and_false, Bool.false_and, Bool.false_eq_true, if_false]
    rfl

theorem rules_run (name : NodeName) (chainName : String) (config : ChainConfig)
    (requests : List Request) :
    ((make name chainName config).run requests).rules =
      ⟨Crypto.hash chainName.toUTF8.toList, config⟩ := by
  have start := built_make name chainName config (·.hashed ⊆ [])
  exact (start.run requests).rules_eq

/-- A consistent block on top of the head is executed on the head state. -/
theorem Rooted.outcome_of_onHead {b : Block} (h : Rooted rules strings n)
    (clean : NoCollision strings) (origin : rules.genesisString ∈ strings)
    (hb : b.Sealed strings) (higher : n.headNum < b.num) (onHead : b.previous = n.headId) :
    (n.applyBlock b).1 = (n.headState.applyBlock rules b).map fun _ => .newHead := by
  have unknown := h.unknown_of_higher clean origin hb higher
  have linked : n.knowsBlock b.previous = true := onHead ▸ h.head_known
  rw [applyBlock_onHead unknown hb.consistent linked onHead, h.rules_eq]
  cases n.headState.applyBlock rules b with
  | error error => rfl
  | ok state => rfl

/-- Of two nodes with one head state, each takes what the other one makes as its new head,
provided that the configured interval leads on in time. If it does not, each refuses it. -/
theorem applyBlock_produceBlock_of_headState_eq {name name' : NodeName} {chainName : String}
    {config : ChainConfig} {requests requests' : List Request}
    (isMaker : x = (make name chainName config).run requests)
    (isTaker : y = (make name' chainName config).run requests')
    (same : y.headState = x.headState)
    (room : ∀ asked, asked <+: requests' → ((make name' chainName config).run asked).HasRoom)
    (clean : NoCollision
      (hashedInLife name' chainName config requests' ++ x.produceBlock.1.hashed)) :
    (y.applyBlock x.produceBlock.1).1 =
      if 0 < config.blockInterval ∧ x.headTime.ticks.toNat < UInt64.size - 1 then .ok .newHead
      else .error (.invalidBlock x.produceBlock.1.id .malformedBlock) := by
  have rooted := rooted_run clean (List.subset_append_left _ _) room
  have origin := List.mem_append_left x.produceBlock.1.hashed
    (genesisString_mem_hashedInLife name' chainName config requests')
  have rules := rules_run name chainName config requests
  rw [← isTaker] at rooted
  rw [← isMaker] at rules
  have made : x.produceBlock.1.Sealed
      (hashedInLife name' chainName config requests' ++ x.produceBlock.1.hashed) :=
    ⟨follows_produceBlock.consistent, List.subset_append_right _ _⟩
  have onHead : x.produceBlock.1.previous = y.headId := by
    rw [headId, same]
    rfl
  have higher : y.headNum < x.produceBlock.1.num := by
    have last : y.HasRoom := isTaker ▸ room requests' (List.prefix_refl _)
    refine last.lt_of_eq_succ ?_
    rw [headNum, same]
    rfl
  rw [rooted.outcome_of_onHead clean origin made higher onHead, same, ← rules,
    applyBlock_headState_produceBlock]
  have made_at : x.produceBlock.1.header.time = x.headTime.after config.blockInterval := by
    change x.headTime.after x.rules.config.blockInterval = _
    rw [rules]
  simp only [made_at, Time.lt_after_iff]
  split
  next => rfl
  next => rfl

end

section sample

attribute [local instance] checksum

/-- After an exchange of one block the nodes have one head state, and the next block with a
transaction that only its maker knew is taken too. -/
theorem applyBlock_produceBlock_of_headState_eq_sample :
    let x := (make "a" "lab" sampleConfig).run [.produce, samplePush]
    let y := (make "b" "lab" sampleConfig).run
      [.receive (make "a" "lab" sampleConfig).produceBlock.1]
    y.headState = x.headState ∧ x.produceBlock.1.transactions.length = 1 ∧
      (y.applyBlock x.produceBlock.1).1 = .ok .newHead := by
  intro x y
  let requests : List Request := [.receive (make "a" "lab" sampleConfig).produceBlock.1]
  have facts :
      let life := (hashedInLife "b" "lab" sampleConfig requests ++
        x.produceBlock.1.hashed).eraseDups
      (∀ s ∈ life, s.length < UInt64.size) ∧ (life.map Crypto.hash).Nodup ∧
        (∀ asked ∈ requests.inits, ((make "b" "lab" sampleConfig).run asked).HasRoom) ∧
        y.headState = x.headState ∧ x.produceBlock.1.transactions.length = 1 ∧
        (0 < sampleConfig.blockInterval ∧ x.headTime.ticks.toNat < UInt64.size - 1) := by
    decide +kernel
  obtain ⟨short, apart, room, same, included, leadsOn⟩ := facts
  refine ⟨same, included, ?_⟩
  have clean := noCollision_of_nodup short apart fun _ => List.mem_eraseDups.mpr
  have numbered := fun asked before => room asked ((List.mem_inits _ _).mpr before)
  rw [applyBlock_produceBlock_of_headState_eq rfl rfl same numbered clean, if_pos leadsOn]

/-- With no time between blocks the very first one that a node makes is refused by a node
with the same genesis. -/
theorem not_applyBlock_produceBlock :
    let config := { sampleConfig with blockInterval := 0 }
    let x := make "a" "lab" config
    let y := make "b" "lab" config
    y.headState = x.headState ∧
      (y.applyBlock x.produceBlock.1).1 =
        .error (.invalidBlock x.produceBlock.1.id .malformedBlock) := by
  decide +kernel

end sample

end Node

end ChainLab
