import ChainLab.Proofs.HonestNode
import ChainLab.Proofs.ValidBranch

/-!
# The order of delivery decides ties only

A node is handed the blocks of a tree, each at least once and after its parent, where every
branch of the tree replays from genesis. Whatever the order, the node takes in every block
and ends on the first one it was handed among the highest. So any two orders lead to the
same height, and if only one block is the highest, to the same head.
-/

namespace ChainLab

/-- Every block is handed over after its parent, given the blocks handed over before. -/
def ParentsFirst (origin : BlockId) : (seen order : List Block) → Prop
  | _, [] => True
  | seen, b :: rest =>
    b.previous ∈ origin :: seen.map (·.id) ∧ ParentsFirst origin (seen ++ [b]) rest

instance decidableParentsFirst (origin : BlockId) :
    (seen order : List Block) → Decidable (ParentsFirst origin seen order)
  | _, [] => isTrue trivial
  | seen, b :: rest =>
    have := decidableParentsFirst origin (seen ++ [b]) rest
    inferInstanceAs (Decidable (_ ∧ _))

/-- An order in which blocks are handed over, each at least once and after its parent. -/
structure Handover (origin : BlockId) (blocks order : List Block) : Prop where
  complete : ∀ b, b ∈ order ↔ b ∈ blocks
  parentsFirst : ParentsFirst origin [] order

/-- The first of the blocks with the greatest number, which is the height of a block whose
branch replays. -/
def FirstHighest (order : List Block) (b : Block) : Prop :=
  ∃ before after, order = before ++ b :: after ∧
    (∀ c ∈ before, c.num < b.num) ∧ ∀ c ∈ after, c.num ≤ b.num

namespace FirstHighest

variable {order : List Block} {b c : Block}

theorem mem (h : FirstHighest order b) : b ∈ order := by
  obtain ⟨before, after, rfl, -, -⟩ := h
  exact List.mem_append_right _ List.mem_cons_self

/-- A block that is not higher comes too late. -/
theorem snoc_of_le (h : FirstHighest order b) (low : c.num ≤ b.num) :
    FirstHighest (order ++ [c]) b := by
  obtain ⟨before, after, rfl, lower, others⟩ := h
  refine ⟨before, after ++ [c], by simp, lower, ?_⟩
  intro d hd
  rcases List.mem_append.mp hd with old | new
  · exact others d old
  · rw [List.mem_singleton.mp new]
    exact low

theorem snoc_of_lt (lower : ∀ c ∈ order, c.num < b.num) : FirstHighest (order ++ [b]) b := by
  refine ⟨order, [], rfl, lower, ?_⟩
  intro c hc
  cases hc

end FirstHighest

section

variable [Crypto] {rules : Rules} {strings : List (List UInt8)}

/-- Blocks that can be told apart, each of them on a branch of such blocks that replays from
genesis. -/
structure ValidTree (rules : Rules) (blocks : List Block) : Prop where
  ids_nodup : (blocks.map (·.id)).Nodup
  replays : ∀ b ∈ blocks, ∃ branch s, b ∈ branch ∧ branch ⊆ blocks ∧
    branch.length < UInt32.size ∧ Node.replay rules (ChainState.genesis rules) branch = .ok s

theorem ValidTree.honest {blocks : List Block} (h : ValidTree rules blocks)
    (hashed : blocks.flatMap (·.hashed) ⊆ strings) :
    ∀ b ∈ blocks, b.Honest rules strings := by
  intro b hb
  obtain ⟨branch, s, mem, within, short, replays⟩ := h.replays b hb
  have spelled : ∀ c ∈ branch.reverse, c.hashed ⊆ strings := by
    intro c hc string listed
    exact hashed (List.mem_flatMap.mpr ⟨c, within (List.mem_reverse.mp hc), listed⟩)
  rw [← branch.reverse_reverse] at replays
  rw [← List.length_reverse] at short
  have laid := ChainState.laid_of_replay spelled short replays
  exact laid.honest b (List.mem_reverse.mpr mem)

theorem Block.Honest.num_pos {b : Block} (h : b.Honest rules strings) : 0 < b.num := by
  obtain ⟨bs, s, whole⟩ := h
  cases whole with
  | block _ _ higher _ => exact UInt32.lt_of_le_of_lt UInt32.zero_le higher

namespace Node

/-- What the node answers to the blocks it is handed one after the other. -/
def answers (n : Node) : List Block → List (Except ChainError BlockOutcome)
  | [] => []
  | b :: rest => (n.applyBlock b).1 :: (n.applyBlock b).2.answers rest

/-- A node that was handed honest blocks stores those and is on the first of the highest. -/
structure Delivered (rules : Rules) (strings : List (List UInt8)) (seen : List Block)
    (n : Node) : Prop extends Honest rules strings n where
  stored_iff : ∀ {id : BlockId} {b : Block}, n.blocks[id]? = some b ↔ b ∈ seen ∧ b.id = id
  head : (seen = [] ∧ n.headState = ChainState.genesis rules) ∨
    ∃ b, FirstHighest seen b ∧ n.headState.head = b.header

namespace Delivered

variable {n : Node} {seen order : List Block} {b : Block}

theorem make (name : NodeName) (chainName : String) (config : ChainConfig) :
    Delivered ⟨Crypto.hash chainName.toUTF8.toList, config⟩ strings []
      (make name chainName config) where
  toHonest := .make name chainName config
  stored_iff := by simp [Node.make]
  head := .inl ⟨rfl, rfl⟩

theorem knowsBlock_iff (h : Delivered rules strings seen n) {id : BlockId} :
    n.knowsBlock id = true ↔ id ∈ (ChainState.genesis rules).head.id :: seen.map (·.id) := by
  rw [Node.knowsBlock_iff, List.mem_cons, List.mem_map, h.genesisId_eq]
  exact or_congr_right (exists_congr fun b => h.stored_iff)

/-- A node that was handed more is at least as high. -/
theorem headNum_le {n' : Node} (h : Delivered rules strings seen n)
    (h' : Delivered rules strings order n') (more : seen ⊆ order) : n.headNum ≤ n'.headNum := by
  rcases h.head with ⟨-, start⟩ | ⟨b, highest, head⟩
  · rw [headNum, start]
    exact UInt32.zero_le
  · rw [headNum, head]
    exact h'.num_le _ b (h'.stored_iff.mpr ⟨more highest.mem, rfl⟩)

/-- The head stays the first of the highest if the next block is no higher. The genesis block is
numbered zero, and so no honest block is as low. -/
theorem exists_head_of_le (h : Delivered rules strings seen n) (positive : 0 < b.num)
    (low : b.num ≤ n.headNum) :
    ∃ top, FirstHighest (seen ++ [b]) top ∧ n.headState.head = top.header := by
  rcases h.head with ⟨-, start⟩ | ⟨top, highest, head⟩
  · rw [headNum, start] at low
    exact absurd low (UInt32.not_le.mpr positive)
  · rw [headNum, head] at low
    exact ⟨top, highest.snoc_of_le low, head⟩

/-- A block that is handed over again makes no difference. -/
theorem again (h : Delivered rules strings seen n) (positive : 0 < b.num) (mem : b ∈ seen) :
    Delivered rules strings (seen ++ [b]) n where
  toHonest := h.toHonest
  stored_iff := by
    intro id c
    rw [h.stored_iff, List.mem_append, List.mem_singleton]
    refine and_congr_left fun _ => ⟨.inl, ?_⟩
    rintro (old | rfl)
    · exact old
    · exact mem
  head := .inr (h.exists_head_of_le positive (h.num_le _ b (h.stored_iff.mpr ⟨mem, rfl⟩)))

omit [Crypto] in
/-- The store after a block is learned. -/
theorem stored_iff_of_learned {n' : Node} {id : BlockId} {c : Block}
    (before : ∀ {id : BlockId} {b : Block}, n.blocks[id]? = some b ↔ b ∈ seen ∧ b.id = id)
    (learned : Learned n b n') (single : ∀ c ∈ seen, c.id = b.id → c = b) :
    n'.blocks[id]? = some c ↔ c ∈ seen ++ [b] ∧ c.id = id := by
  rw [learned.blocks_eq, getElem?_withBlock, List.mem_append, List.mem_singleton]
  split
  next own =>
    constructor
    · intro new
      cases new
      exact ⟨.inr rfl, own⟩
    · rintro ⟨old | rfl, same⟩
      · rw [single c old (same.trans own.symm)]
      · rfl
  next apart =>
    rw [before]
    refine and_congr_left fun same => ⟨.inl, ?_⟩
    rintro (old | rfl)
    · exact old
    · exact absurd same apart

variable (clean : NoCollision strings) (origin : rules.genesisString ∈ strings)

include clean origin

/-- A block that is handed over again is known, any other one is learned. -/
theorem deliver (h : Delivered rules strings seen n) (hb : b.Honest rules strings)
    (linked : b.previous ∈ (ChainState.genesis rules).head.id :: seen.map (·.id))
    (single : ∀ c ∈ seen, c.id = b.id → c = b) :
    (∃ outcome, (n.applyBlock b).1 = .ok outcome) ∧
      Delivered rules strings (seen ++ [b]) (n.applyBlock b).2 := by
  cases known : n.knowsBlock b.id with
  | true =>
    have idle : n.applyBlock b = (.ok .alreadyKnown, n) := by simp [applyBlock, known]
    have mem : b ∈ seen := by
      rcases List.mem_cons.mp (h.knowsBlock_iff.mp known) with root | listed
      · exact absurd root (hb.id_ne_genesis clean origin)
      · obtain ⟨c, hc, same⟩ := List.mem_map.mp listed
        exact single c hc same ▸ hc
    rw [idle]
    exact ⟨⟨_, rfl⟩, h.again hb.num_pos mem⟩
  | false =>
    obtain ⟨outcome, n', result, -, honest, learned, moved⟩ :=
      h.take clean origin hb known (h.knowsBlock_iff.mpr linked)
    have stored_iff : ∀ {id : BlockId} {c : Block}, n'.blocks[id]? = some c ↔
        c ∈ seen ++ [b] ∧ c.id = id := stored_iff_of_learned h.stored_iff learned single
    rw [result]
    refine ⟨⟨outcome, rfl⟩, { toHonest := honest, stored_iff, head := .inr ?_ }⟩
    rcases moved with ⟨low, same⟩ | ⟨higher, head⟩
    · rw [same]
      exact h.exists_head_of_le hb.num_pos low
    · refine ⟨b, .snoc_of_lt fun c hc => ?_, head⟩
      exact UInt32.lt_of_le_of_lt (h.num_le _ c (h.stored_iff.mpr ⟨hc, rfl⟩)) higher

/-- Handing over more blocks, each after its parent, goes through and leaves the node in the
same way. -/
theorem run (h : Delivered rules strings seen n)
    (parentsFirst : ParentsFirst (ChainState.genesis rules).head.id seen order)
    (honest : ∀ b ∈ order, b.Honest rules strings)
    (single : ∀ b ∈ seen ++ order, ∀ c ∈ seen ++ order, c.id = b.id → c = b) :
    (∀ answer ∈ n.answers order, ∃ outcome, answer = .ok outcome) ∧
      Delivered rules strings (seen ++ order) (n.run (order.map .receive)) := by
  induction order generalizing n seen with
  | nil =>
    rw [List.append_nil]
    exact ⟨fun _ none => (List.not_mem_nil none).elim, h⟩
  | cons b rest ih =>
    obtain ⟨linked, later⟩ := parentsFirst
    obtain ⟨first, others⟩ := List.forall_mem_cons.mp honest
    have split : seen ++ b :: rest = (seen ++ [b]) ++ rest := by simp
    have same : ∀ c ∈ seen, c.id = b.id → c = b := by
      intro c hc
      exact single b (List.mem_append_right _ List.mem_cons_self) c (List.mem_append_left _ hc)
    obtain ⟨taken, next⟩ := h.deliver clean origin first linked same
    rw [split] at single ⊢
    obtain ⟨rests, done⟩ := ih next later others single
    exact ⟨List.forall_mem_cons.mpr ⟨taken, rests⟩, done⟩

end Delivered

section

variable {chainName : String} {config : ChainConfig} {blocks : List Block}
  (tree : ValidTree ⟨Crypto.hash chainName.toUTF8.toList, config⟩ blocks)
  (clean : NoCollision (Rules.genesisString ⟨Crypto.hash chainName.toUTF8.toList, config⟩ ::
    blocks.flatMap (·.hashed)))

include tree clean

theorem delivered_of_handover {name : NodeName} {order : List Block}
    (handover : Handover (make name chainName config).genesisId blocks order) :
    (∀ answer ∈ (make name chainName config).answers order, ∃ outcome, answer = .ok outcome) ∧
      Delivered ⟨Crypto.hash chainName.toUTF8.toList, config⟩
        (Rules.genesisString ⟨Crypto.hash chainName.toUTF8.toList, config⟩ ::
          blocks.flatMap (·.hashed))
        order ((make name chainName config).run (order.map .receive)) := by
  refine (Delivered.make name chainName config).run clean List.mem_cons_self
    handover.parentsFirst ?_ ?_
  · intro b hb
    exact tree.honest (List.subset_cons_self _ _) b ((handover.complete b).mp hb)
  · intro b hb c hc same
    exact List.inj_on_of_nodup_map tree.ids_nodup ((handover.complete c).mp hc)
      ((handover.complete b).mp hb) same

/-- The blocks of a valid tree, handed in any order to a node that knows only their genesis:
every call succeeds, the node stores exactly these blocks, and its head is the first it was
handed among the highest, with the state that its branch replays to. So any two orders lead
to the same height. -/
theorem headNum_eq_of_handover {name : NodeName} {order : List Block}
    (handover : Handover (make name chainName config).genesisId blocks order) :
    let n := (make name chainName config).run (order.map .receive)
    (∀ answer ∈ (make name chainName config).answers order, ∃ outcome, answer = .ok outcome) ∧
      (∀ id b, n.blocks[id]? = some b ↔ b ∈ blocks ∧ b.id = id) ∧
      ((blocks = [] ∧ n.headState = n.genesis) ∨
        ∃ b, FirstHighest order b ∧ n.headState.head = b.header) ∧
      n.replayTo n.headId = .ok n.headState ∧
      ∀ name' order', Handover (make name' chainName config).genesisId blocks order' →
        ((make name' chainName config).run (order'.map .receive)).headNum = n.headNum := by
  intro n
  obtain ⟨answered, delivered⟩ := delivered_of_handover tree clean handover
  refine ⟨answered, ?_, ?_, delivered.replayTo_head clean List.mem_cons_self, ?_⟩
  · intro id b
    rw [delivered.stored_iff, handover.complete]
  · rcases delivered.head with ⟨none, start⟩ | highest
    · have empty : ∀ b, b ∉ blocks := by
        intro b hb
        have handed := (handover.complete b).mpr hb
        rw [none] at handed
        cases handed
      exact .inl ⟨List.eq_nil_iff_forall_not_mem.mpr empty, start.trans delivered.genesis_eq.symm⟩
    · exact .inr highest
  · intro name' order' handover'
    obtain ⟨-, delivered'⟩ := delivered_of_handover tree clean handover'
    have less : order' ⊆ order := fun b hb =>
      (handover.complete b).mpr ((handover'.complete b).mp hb)
    have more : order ⊆ order' := fun b hb =>
      (handover'.complete b).mpr ((handover.complete b).mp hb)
    exact UInt32.le_antisymm (delivered'.headNum_le delivered less)
      (delivered.headNum_le delivered' more)

end

end Node

end

namespace Node

section sample

attribute [local instance] checksum

/-- Three blocks of a rival of the maker of the sample branch. -/
def sampleRivals : List Block :=
  let first := (make "a" "lab" sampleConfig).produceBlock
  let second := first.2.produceBlock
  [first.1, second.1, second.2.produceBlock.1]

/-- Two branches of the same height are handed over in two orders. The one order has the node
switch between them and repeats a block; the node ends on the rivals. After the other order
it is as high, and on the other branch. -/
theorem headNum_eq_of_handover_sample :
    let order := sampleBranch.take 1 ++ sampleRivals ++ sampleBranch
    let n := (make "c" "lab" sampleConfig).run (order.map .receive)
    let m := (make "d" "lab" sampleConfig).run ((sampleBranch ++ sampleRivals).map .receive)
    (∀ answer ∈ (make "c" "lab" sampleConfig).answers order, ∃ outcome, answer = .ok outcome) ∧
      (∀ b ∈ sampleBranch ++ sampleRivals, n.blocks[b.id]? = some b) ∧
      n.replayTo n.headId = .ok n.headState ∧
      n.headNum = 3 ∧ m.headNum = 3 ∧ n.headId ≠ m.headId := by
  intro order n m
  have facts :
      let rules := (make "c" "lab" sampleConfig).rules
      let blocks := sampleBranch ++ sampleRivals
      let strings := (rules.genesisString :: blocks.flatMap (·.hashed)).eraseDups
      (∀ s ∈ strings, s.length < UInt64.size) ∧ (strings.map Crypto.hash).Nodup ∧
        (blocks.map (·.id)).Nodup ∧
        (replay rules (ChainState.genesis rules) sampleBranch).isOk = true ∧
        (replay rules (ChainState.genesis rules) sampleRivals).isOk = true ∧
        ParentsFirst (make "c" "lab" sampleConfig).genesisId [] order ∧
        ParentsFirst (make "d" "lab" sampleConfig).genesisId [] blocks ∧
        n.headNum = 3 ∧ n.headId ≠ m.headId := by
    decide +kernel
  obtain ⟨short, apart, ids, branch, rivals, first, first', height, differ⟩ := facts
  have tree : ValidTree ⟨Crypto.hash "lab".toUTF8.toList, sampleConfig⟩
      (sampleBranch ++ sampleRivals) := by
    obtain ⟨s, branch⟩ := exists_eq_ok_iff.mpr branch
    obtain ⟨t, rivals⟩ := exists_eq_ok_iff.mpr rivals
    refine ⟨ids, fun b hb => ?_⟩
    rcases List.mem_append.mp hb with left | right
    · exact ⟨_, s, left, List.subset_append_left _ _, by decide, branch⟩
    · exact ⟨_, t, right, List.subset_append_right _ _, by decide, rivals⟩
  have clean := noCollision_of_nodup short apart fun _ => List.mem_eraseDups.mpr
  have complete : ∀ b, b ∈ order ↔ b ∈ sampleBranch ++ sampleRivals := by
    intro b
    constructor
    · intro hb
      rcases List.mem_append.mp hb with early | late
      · rcases List.mem_append.mp early with first | right
        · exact List.mem_append_left _ (List.mem_of_mem_take first)
        · exact List.mem_append_right _ right
      · exact List.mem_append_left _ late
    · intro hb
      rcases List.mem_append.mp hb with left | right
      · exact List.mem_append_right _ left
      · exact List.mem_append_left _ (List.mem_append_right _ right)
  obtain ⟨answered, stored, -, replays, same⟩ :=
    headNum_eq_of_handover tree clean ⟨complete, first⟩
  refine ⟨answered, fun b hb => (stored _ b).mpr ⟨hb, rfl⟩, replays, height, ?_, differ⟩
  exact (same "d" _ ⟨fun _ => Iff.rfl, first'⟩).trans height

end sample

end Node

end ChainLab
