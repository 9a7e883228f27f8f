import ChainLab.Proofs.RootedNode
import Mathlib.Data.List.Infix

/-!
# The head state can be replayed

A node builds its head state piece by piece: it adds the transactions of a block that it
makes one by one, it applies a block that extends the head, it starts over from genesis
when it switches to another branch. Replaying the stored blocks below the head from
genesis always leads to the same state.
-/

namespace ChainLab.Node

/-- Block numbers and times go on above the head. -/
def InRange (n : Node) : Prop := n.HasRoom ∧ n.headTime.ticks.toNat < UInt64.size - 1

instance (n : Node) : Decidable n.InRange := inferInstanceAs (Decidable (_ ∧ _))

section

variable [Crypto] {rules : Rules} {strings : List (List UInt8)} {n : Node}

/-- The blocks on the path of the head lead from genesis to the head state. -/
def Replays (rules : Rules) (n : Node) : Prop :=
  ∃ bs, n.Path n.headId bs ∧
    replay rules (ChainState.genesis rules) bs.reverse = .ok n.headState

/-- A block that is made on the head passes all the checks that are made on a peer's. -/
theorem applyBlock_produceBlock
    (later : n.headTime < n.produceBlock.1.header.time) :
    n.headState.applyBlock n.rules n.produceBlock.1 = .ok n.produceBlock.2.headState := by
  have follows := follows_produceBlock (n := n)
  exact ChainState.applyBlock_eq_ok.mpr
    ⟨follows.link, rfl, later, follows.consistent, follows.executes⟩

namespace Replays

/-- A block on top of the head leads on from the head state. -/
theorem extend {n' : Node} {b : Block} (h : Replays rules n) (learned : Learned n b n')
    (onHead : b.previous = n.headId)
    (applies : n.headState.applyBlock rules b = .ok n'.headState) : Replays rules n' := by
  obtain ⟨bs, path, leads⟩ := h
  have tip : n'.headId = b.id := by
    rw [headId, (ChainState.follows_of_applyBlock applies).head_eq, Block.id]
  rw [← onHead] at path
  refine ⟨b :: bs, ?_, replay_reverse_cons_eq_ok.mpr ⟨_, leads, applies⟩⟩
  rw [tip]
  exact learned.path path

/-- A larger store does not change what the head rests on. -/
theorem mono {n' : Node} (h : Replays rules n) (within : Within n n')
    (same : n'.headState = n.headState) : Replays rules n' := by
  obtain ⟨bs, path, leads⟩ := h
  refine ⟨bs, ?_, ?_⟩
  · rw [headId, same]
    exact path.mono within
  · rw [same]
    exact leads

theorem receive (h : Replays rules n) (rooted : Rooted rules strings n) (b : Block) :
    Replays rules (n.applyBlock b).2 := by
  have received := received n b
  generalize n.applyBlock b = r at received
  cases received with
  | known | malformed | unlinked | refused | abandoned => exact h
  | extended unknown onHead applies =>
    have linked : n.knowsBlock b.previous = true := onHead ▸ rooted.head_known
    rw [rooted.rules_eq] at applies
    exact h.extend ⟨rfl, rfl, unknown, linked⟩ onHead applies
  | stored unknown consistent linked =>
    have learned : Learned n b (n.withBlock b) := ⟨rfl, rfl, unknown, linked⟩
    exact h.mono learned.within rfl
  | @switched unknown consistent linked offHead long state replays =>
    obtain ⟨bs, path⟩ := rooted.path _ linked
    rw [rooted.replayTo_withBlock unknown path] at replays
    obtain ⟨_, -, applies⟩ := replay_reverse_cons_eq_ok.mp replays
    have tip : state.head.id = b.id := by
      rw [(ChainState.follows_of_applyBlock applies).head_eq, Block.id]
    have learned : Learned n b (n.withBlock b) := ⟨rfl, rfl, unknown, linked⟩
    have whole := learned.path path
    rw [← tip] at whole
    exact ⟨b :: bs, whole.mono ⟨rfl, fun _ _ found => found⟩, replays⟩

theorem handle (h : Replays rules n) (rooted : Rooted rules strings n)
    (clean : NoCollision strings) (origin : rules.genesisString ∈ strings)
    (interval : 0 < rules.config.blockInterval) (request : Request)
    (hashed : n.hashedBy request ⊆ strings) (room : n.HasRoom)
    (range : (n.handle request).InRange) : Replays rules (n.handle request) := by
  cases request with
  | push trx =>
    simp only [Node.handle, pushTransaction]
    split
    · exact h
    · exact h.mono ⟨rfl, fun _ _ found => found⟩ rfl
  | produce =>
    obtain ⟨-, taken⟩ := rooted.produce clean origin hashed room
    have positive : 0 < n.rules.config.blockInterval := rooted.rules_eq ▸ interval
    have later : n.headTime < n.produceBlock.1.header.time := Time.lt_after positive range.2
    have applies := applyBlock_produceBlock later
    rw [rooted.rules_eq] at applies
    exact h.extend taken.toLearned rfl applies
  | receive b => exact h.receive rooted b

theorem run (h : Replays rules n) (rooted : Rooted rules strings n)
    (clean : NoCollision strings) (origin : rules.genesisString ∈ strings)
    (interval : 0 < rules.config.blockInterval) {requests : List Request}
    (hashed : n.hashedIn requests ⊆ strings)
    (range : ∀ asked, asked <+: requests → (n.run asked).InRange) :
    Replays rules (n.run requests) := by
  have done : Rooted rules strings (n.run requests) ∧ Replays rules (n.run requests) := by
    refine run_induction (fun n => Rooted rules strings n ∧ Replays rules n) InRange ?_
      ⟨rooted, h⟩ hashed range
    rintro n request ⟨rooted, replays⟩ fine next hashed
    exact ⟨rooted.handle clean origin request hashed fine.1,
      replays.handle rooted clean origin interval request hashed fine.1 next⟩
  exact done.2

end Replays

/-- The incremental state is the replayed state: whatever a node went through, replaying
the branch of its head from genesis succeeds and yields the head state. -/
theorem replayTo_headId {name : NodeName} {chainName : String} {config : ChainConfig}
    {requests : List Request} (interval : 0 < config.blockInterval)
    (range : ∀ asked, asked <+: requests → ((make name chainName config).run asked).InRange)
    (clean : NoCollision (hashedInLife name chainName config requests)) :
    ((make name chainName config).run requests).replayTo
        ((make name chainName config).run requests).headId =
      .ok ((make name chainName config).run requests).headState := by
  have origin := genesisString_mem_hashedInLife name chainName config requests
  have hashed := List.subset_append_right (hashedAtStart chainName config)
    ((make name chainName config).hashedIn requests)
  have room := fun asked before => (range asked before).1
  have rooted := rooted_run clean (List.Subset.refl _) room
  have first : Replays ⟨Crypto.hash chainName.toUTF8.toList, config⟩ (make name chainName config) :=
    ⟨[], .genesis, rfl⟩
  have replays := first.run (.make name chainName config) clean origin interval hashed range
  obtain ⟨bs, path, leads⟩ := replays
  rw [rooted.replayTo_eq path, leads]

end

section sample

attribute [local instance] checksum

/-- A node makes a block, is won over by a longer branch of a rival, and builds on it. -/
def sampleSwitch : List Request :=
  let rival := (make "b" "lab" sampleConfig).produceBlock
  [samplePush, .produce, .receive rival.1, .receive rival.2.produceBlock.1, .produce]

/-- After production, a fork switch and production again the head can be replayed. -/
theorem replayTo_headId_sample :
    let n := (make "a" "lab" sampleConfig).run sampleSwitch
    n.headNum = 3 ∧ n.blocks.size = 4 ∧ n.replayTo n.headId = .ok n.headState := by
  intro n
  have facts :
      let life := (hashedInLife "a" "lab" sampleConfig sampleSwitch).eraseDups
      (∀ s ∈ life, s.length < UInt64.size) ∧ (life.map Crypto.hash).Nodup ∧
        (∀ asked ∈ sampleSwitch.inits, ((make "a" "lab" sampleConfig).run asked).InRange) ∧
        n.headNum = 3 ∧ n.blocks.size = 4 := by
    decide +kernel
  obtain ⟨short, apart, range, height, size⟩ := facts
  refine ⟨height, size, replayTo_headId (by decide) ?_ ?_⟩
  · intro asked before
    exact range asked ((List.mem_inits _ _).mpr before)
  · exact noCollision_of_nodup short apart fun _ => List.mem_eraseDups.mpr

end sample

end ChainLab.Node
