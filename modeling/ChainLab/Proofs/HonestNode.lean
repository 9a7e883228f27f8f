import ChainLab.Network.Link
import ChainLab.Proofs.ActionEffects
import ChainLab.Proofs.StorePath

/-!
# Nodes that only ever met honest blocks

An honest block was made on a state that can be replayed from genesis. A node that
stores only such blocks can replay every branch it stores, so it takes in every
honest block whose parent it knows.
-/

namespace ChainLab

variable [Crypto]

/-- The state after a branch that replays from genesis, the last block first. -/
inductive ChainState.Laid (rules : Rules) (strings : List (List UInt8)) :
    List Block → ChainState → Prop
  | genesis : Laid rules strings [] (ChainState.genesis rules)
  | block {bs : List Block} {s : ChainState} {b : Block} {s' : ChainState} :
    Laid rules strings bs s → b.hashed ⊆ strings → s.head.num < b.num →
      s.applyBlock rules b = .ok s' → Laid rules strings (b :: bs) s'

/-- A block that was made on top of a replayed branch. -/
def Block.Honest (rules : Rules) (strings : List (List UInt8)) (b : Block) : Prop :=
  ∃ bs s, ChainState.Laid rules strings (b :: bs) s

variable {rules : Rules} {strings : List (List UInt8)}

namespace ChainState

variable {bs cs : List Block} {s t : ChainState} {b : Block}

theorem Laid.grown (h : Laid rules strings bs s) :
    Grown rules bs s ∧ ∀ b ∈ bs, b.hashed ⊆ strings := by
  induction h with
  | genesis => exact ⟨.genesis, fun b hb => nomatch hb⟩
  | block _ hashed _ applies ih =>
    exact ⟨ih.1.block (follows_of_applyBlock applies), List.forall_mem_cons.mpr ⟨hashed, ih.2⟩⟩

theorem Laid.eq_of_head_id_eq (clean : NoCollision strings) (origin : rules.genesisString ∈ strings)
    (h : Laid rules strings bs s) (h' : Laid rules strings cs t)
    (same : s.head.id = t.head.id) : s = t :=
  h.grown.1.eq_of_head_id_eq clean origin h'.grown.1 h.grown.2 h'.grown.2 same

theorem Laid.head_eq (h : Laid rules strings (b :: bs) s) : s.head = b.header := by
  cases h with
  | block _ _ _ applies => exact (follows_of_applyBlock applies).head_eq

theorem Laid.consistent (h : Laid rules strings (b :: bs) s) : b.isConsistent = true := by
  cases h with
  | block _ _ _ applies => exact (follows_of_applyBlock applies).consistent

/-- The number of the head is the length of the branch. -/
theorem Laid.num_eq (h : Laid rules strings bs s) : s.head.num.toNat = bs.length := by
  induction h with
  | genesis => rfl
  | @block bs s b s' _ _ higher applies ih =>
    obtain ⟨-, num, -⟩ := applyBlock_eq_ok.mp applies
    have next : b.num.toNat = (s.head.num.toNat + 1) % 4294967296 := by
      rw [num, UInt32.toNat_add]
      rfl
    have grows := UInt32.lt_iff_toNat_lt.mp higher
    have small := s.head.num.toNat_lt
    rw [(follows_of_applyBlock applies).head_eq, List.length_cons, ← ih, ← Block.num]
    omega

theorem Laid.num_lt (h : Laid rules strings bs s) (h' : Laid rules strings (b :: bs) t) :
    s.head.num < b.num := by
  have num := h'.num_eq
  rw [h'.head_eq, List.length_cons] at num
  rw [UInt32.lt_iff_toNat_lt, h.num_eq, Block.num, num]
  exact Nat.lt_succ_self _

theorem Laid.num_le (h : Laid rules strings bs s) : ∀ b ∈ bs, b.num.toNat ≤ bs.length := by
  induction h with
  | genesis => exact fun b hb => nomatch hb
  | @block bs s b s' laid hashed higher applies ih =>
    intro c hc
    rcases List.mem_cons.mp hc with rfl | older
    · have whole := Laid.block laid hashed higher applies
      exact Nat.le_of_eq (by rw [Block.num, ← whole.head_eq, whole.num_eq])
    · exact Nat.le_succ_of_le (ih c older)

end ChainState

theorem ChainState.Laid.replay {bs : List Block} {s : ChainState} (h : Laid rules strings bs s) :
    Node.replay rules (ChainState.genesis rules) bs.reverse = .ok s := by
  induction h with
  | genesis => rfl
  | block _ _ _ applies ih =>
    rw [List.reverse_cons, Node.replay_append, ih]
    simp [Node.replay, applies]

namespace Block.Honest

variable {b c : Block}

theorem hashed (h : b.Honest rules strings) : b.hashed ⊆ strings := by
  obtain ⟨bs, s, laid⟩ := h
  exact laid.grown.2 b List.mem_cons_self

theorem consistent (h : b.Honest rules strings) : b.isConsistent = true := by
  obtain ⟨bs, s, laid⟩ := h
  exact laid.consistent

theorem id_ne_genesis (clean : NoCollision strings) (origin : rules.genesisString ∈ strings)
    (h : b.Honest rules strings) : b.id ≠ (ChainState.genesis rules).head.id :=
  Block.id_ne_genesis clean h.hashed origin h.consistent

theorem header_eq (clean : NoCollision strings) (h : b.Honest rules strings)
    (h' : c.Honest rules strings) (same : b.id = c.id) : b.header = c.header :=
  (contents_eq_of_id_eq clean h.hashed h'.hashed h.consistent h'.consistent same).1

/-- An honest block applies to whatever replayed state has its parent as head. -/
theorem applies (clean : NoCollision strings) (origin : rules.genesisString ∈ strings)
    (h : b.Honest rules strings) {bs : List Block} {s : ChainState}
    (laid : ChainState.Laid rules strings bs s) (link : b.previous = s.head.id) :
    ∃ s', s.applyBlock rules b = .ok s' ∧ ChainState.Laid rules strings (b :: bs) s' := by
  obtain ⟨cs, s', whole⟩ := h
  cases whole with
  | @block _ t _ _ laid' hashed higher applies =>
    have parent := (ChainState.follows_of_applyBlock applies).link
    obtain rfl := laid.eq_of_head_id_eq clean origin laid' (link.symm.trans parent)
    exact ⟨s', applies, laid.block hashed higher applies⟩

end Block.Honest

namespace Node

/-- The store holds honest blocks, each under its identifier and with its parent. -/
structure Stocked (rules : Rules) (strings : List (List UInt8)) (n : Node) : Prop where
  rules_eq : n.rules = rules
  genesis_eq : n.genesis = ChainState.genesis rules
  id_eq : ∀ (id : BlockId) (b : Block), n.blocks[id]? = some b → b.id = id
  honest : ∀ (id : BlockId) (b : Block), n.blocks[id]? = some b → b.Honest rules strings
  linked : ∀ (id : BlockId) (b : Block), n.blocks[id]? = some b → n.knowsBlock b.previous = true

/-- A node that only ever met honest blocks follows one of the longest branches it stores. -/
structure Honest (rules : Rules) (strings : List (List UInt8)) (n : Node) : Prop
    extends Stocked rules strings n where
  num_le : ∀ (id : BlockId) (b : Block), n.blocks[id]? = some b → b.num ≤ n.headNum
  head_known : n.knowsBlock n.headId = true
  head_laid : ∃ bs, ChainState.Laid rules strings bs n.headState

variable {n : Node} {id : BlockId} {b : Block} {bs : List Block}

namespace Stocked

variable {s : ChainState}

theorem withBlock (h : Stocked rules strings n) (hb : b.Honest rules strings)
    (linked : n.knowsBlock b.previous = true) : Stocked rules strings (n.withBlock b) where
  rules_eq := h.rules_eq
  genesis_eq := h.genesis_eq
  id_eq := forall_stored_withBlock h.id_eq rfl
  honest := forall_stored_withBlock h.honest hb
  linked := by
    refine forall_stored_withBlock ?_ (knowsBlock_withBlock.mpr (.inl linked))
    intro id c hc
    exact knowsBlock_withBlock.mpr (.inl (h.linked id c hc))

theorem genesisId_eq (h : Stocked rules strings n) :
    n.genesisId = (ChainState.genesis rules).head.id := by
  rw [genesisId, h.genesis_eq]

variable (clean : NoCollision strings) (origin : rules.genesisString ∈ strings)

include clean origin

theorem bottom (h : Stocked rules strings n) : n.blocks[n.genesisId]? = none := by
  refine Option.eq_none_iff_forall_ne_some.mpr fun b hb => ?_
  refine (h.honest _ b hb).id_ne_genesis clean origin ?_
  rw [h.id_eq _ b hb, h.genesisId_eq]

/-- Every known block ends a stored branch that replays. The induction is on the number:
a parent has a smaller one. -/
theorem laid_of_stored (h : Stocked rules strings n) (stored : n.blocks[id]? = some b) :
    ∃ bs s, n.Path id bs ∧ ChainState.Laid rules strings bs s ∧ s.head = b.header := by
  induction hm : b.num.toNat using Nat.strongRecOn generalizing id b with
  | ind m ih =>
    have honest := h.honest id b stored
    have apart : id ≠ n.genesisId := by
      rw [h.genesisId_eq, ← h.id_eq id b stored]
      exact honest.id_ne_genesis clean origin
    have onParent : ∀ {cs t}, n.Path b.previous cs → ChainState.Laid rules strings cs t →
        t.head.id = b.previous → ∃ bs s, n.Path id bs ∧ ChainState.Laid rules strings bs s ∧
          s.head = b.header := by
      intro cs t path laid link
      obtain ⟨s, -, whole⟩ := honest.applies clean origin laid link.symm
      exact ⟨b :: cs, s, .up apart stored path, whole, whole.head_eq⟩
    rcases knowsBlock_iff.mp (h.linked id b stored) with root | ⟨c, hc⟩
    · refine onParent (root ▸ .genesis) .genesis ?_
      rw [root, h.genesisId_eq]
    · have below : c.num.toNat < b.num.toNat := by
        obtain ⟨cs, s, whole⟩ := honest
        cases whole with
        | @block _ t _ _ laid hashed higher applies =>
          have link := (ChainState.follows_of_applyBlock applies).link
          obtain ⟨ds, u, laid'⟩ := h.honest _ c hc
          have ids : u.head.id = t.head.id := by
            rw [laid'.head_eq, ← link, ← h.id_eq _ c hc, Block.id]
          obtain rfl := laid'.eq_of_head_id_eq clean origin laid ids
          rw [laid'.head_eq] at higher
          exact UInt32.lt_iff_toNat_lt.mp higher
      obtain ⟨cs, t, path, laid, head⟩ := ih c.num.toNat (hm ▸ below) hc rfl
      refine onParent path laid ?_
      rw [head, ← h.id_eq _ c hc, Block.id]

theorem laid_of_known (h : Stocked rules strings n) (known : n.knowsBlock id = true) :
    ∃ bs s, n.Path id bs ∧ ChainState.Laid rules strings bs s ∧ s.head.id = id := by
  rcases knowsBlock_iff.mp known with rfl | ⟨b, stored⟩
  · exact ⟨[], _, .genesis, .genesis, h.genesisId_eq.symm⟩
  · obtain ⟨bs, s, path, laid, head⟩ := h.laid_of_stored clean origin stored
    exact ⟨bs, s, path, laid, by rw [head, ← h.id_eq _ b stored, Block.id]⟩

/-- A stored branch can be replayed. -/
theorem replayTo_of_known (h : Stocked rules strings n) (known : n.knowsBlock id = true) :
    ∃ bs s, n.replayTo id = .ok s ∧ ChainState.Laid rules strings bs s ∧ s.head.id = id := by
  obtain ⟨bs, s, path, laid, head⟩ := h.laid_of_known clean origin known
  refine ⟨bs, s, ?_, laid, head⟩
  rw [replayTo_of_path h.id_eq path, h.rules_eq, h.genesis_eq]
  exact laid.replay

end Stocked

namespace Honest

variable {s : ChainState}

theorem make (name : NodeName) (chainName : String) (config : ChainConfig) :
    Honest ⟨Crypto.hash chainName.toUTF8.toList, config⟩ strings (make name chainName config) where
  rules_eq := rfl
  genesis_eq := rfl
  id_eq id b hb := by simp [Node.make] at hb
  honest id b hb := by simp [Node.make] at hb
  linked id b hb := by simp [Node.make] at hb
  num_le id b hb := by simp [Node.make] at hb
  head_known := by simp [knowsBlock, Node.make, headId, genesisId]
  head_laid := ⟨[], .genesis⟩

theorem pushTransaction (h : Honest rules strings n) (trx : SignedTransaction) :
    Honest rules strings (n.pushTransaction trx).2 := by
  unfold Node.pushTransaction
  split
  · exact h
  · exact { h with }

/-- A stored block with the head on top, whatever is done with what was pending. -/
theorem withHead (stock : Stocked rules strings (n.withBlock b))
    (laid : ChainState.Laid rules strings (b :: bs) s)
    (low : ∀ (id : BlockId) (c : Block), n.blocks[id]? = some c → c.num ≤ b.num)
    (state : ChainState) (waiting : List SignedTransaction) :
    Honest rules strings { n.withBlock b with
      headState := s, pendingState := state, pending := waiting } where
  rules_eq := stock.rules_eq
  genesis_eq := stock.genesis_eq
  id_eq := stock.id_eq
  honest := stock.honest
  linked := stock.linked
  num_le := by
    have head : s.head.num = b.num := by rw [laid.head_eq, Block.num]
    simp only [headNum, head]
    exact forall_stored_withBlock low (UInt32.le_refl _)
  head_known := by
    have head : s.head.id = b.id := by rw [laid.head_eq, Block.id]
    exact (knowsBlock_withBlock (n := n)).mpr (.inr head)
  head_laid := ⟨_, laid⟩

variable (clean : NoCollision strings) (origin : rules.genesisString ∈ strings)

include clean origin

/-- A block made on the head is honest, if number and clock go up, and was not known. -/
theorem produceBlock (h : Honest rules strings n) (hashed : n.produceBlock.1.hashed ⊆ strings)
    (higher : n.headNum < n.produceBlock.1.num)
    (later : n.headTime < n.produceBlock.1.header.time) :
    Honest rules strings n.produceBlock.2 ∧ n.produceBlock.1.Honest rules strings ∧
      Learned n n.produceBlock.1 n.produceBlock.2 := by
  obtain ⟨bs, laid⟩ := h.head_laid
  have follows := follows_produceBlock (n := n)
  obtain ⟨t, run, result⟩ := follows.executes
  have applies : n.headState.applyBlock rules n.produceBlock.1 = .ok n.produceBlock.2.headState :=
    ChainState.applyBlock_eq_ok.mpr
      ⟨follows.link, rfl, later, follows.consistent, t, h.rules_eq ▸ run, result⟩
  have whole := laid.block hashed higher applies
  have honest : n.produceBlock.1.Honest rules strings := ⟨_, _, whole⟩
  have linked : n.knowsBlock n.produceBlock.1.previous = true := follows.link ▸ h.head_known
  refine ⟨?_, honest, rfl, rfl, ?_, linked⟩
  · refine withHead (h.toStocked.withBlock honest linked) whole (fun id c hc => ?_) _ _
    exact UInt32.le_of_lt (UInt32.lt_of_le_of_lt (h.num_le id c hc) higher)
  · refine knowsBlock_eq_false_iff.mpr ⟨?_, ?_⟩
    · exact h.genesisId_eq ▸ honest.id_ne_genesis clean origin
    · refine Option.eq_none_iff_forall_ne_some.mpr fun c hc => ?_
      have header := (h.honest _ c hc).header_eq clean honest (h.id_eq _ c hc)
      have low := h.num_le _ c hc
      rw [Block.num, header] at low
      exact UInt32.lt_irrefl _ (UInt32.lt_of_lt_of_le higher low)

/-- A new honest block on top of a known one is learned. The head moves on to it if it is
numbered higher than the head. -/
theorem take (h : Honest rules strings n) (hb : b.Honest rules strings)
    (unknown : n.knowsBlock b.id = false) (linked : n.knowsBlock b.previous = true) :
    ∃ outcome n', n.applyBlock b = (.ok outcome, n') ∧ outcome ≠ .alreadyKnown ∧
      Honest rules strings n' ∧ Learned n b n' ∧
      ((b.num ≤ n.headNum ∧ n'.headState = n.headState) ∨
        (n.headNum < b.num ∧ n'.headState.head = b.header)) := by
  have stock := h.toStocked.withBlock hb linked
  have low : n.headNum < b.num →
      ∀ (id : BlockId) (c : Block), n.blocks[id]? = some c → c.num ≤ b.num := by
    intro higher id c hc
    exact UInt32.le_of_lt (UInt32.lt_of_le_of_lt (h.num_le id c hc) higher)
  by_cases onHead : b.previous = n.headId
  · obtain ⟨bs, laid⟩ := h.head_laid
    obtain ⟨s, applies, whole⟩ := hb.applies clean origin laid onHead
    have higher : n.headNum < b.num := laid.num_lt whole
    rw [applyBlock_onHead unknown hb.consistent linked onHead, h.rules_eq, applies]
    exact ⟨_, _, rfl, by decide, withHead stock whole (low higher) _ _,
      ⟨rfl, rfl, unknown, linked⟩, .inr ⟨higher, whole.head_eq⟩⟩
  · rw [applyBlock_offHead unknown hb.consistent linked onHead]
    by_cases short : b.num ≤ n.headNum
    · rw [if_pos short]
      exact ⟨_, _, rfl, by decide, { stock with
        num_le := forall_stored_withBlock h.num_le short
        head_known := knowsBlock_withBlock.mpr (.inl h.head_known)
        head_laid := h.head_laid }, ⟨rfl, rfl, unknown, linked⟩, .inl ⟨short, rfl⟩⟩
    · have higher := UInt32.not_le.mp short
      obtain ⟨_, s, replays, laid, head⟩ :=
        stock.replayTo_of_known clean origin (knowsBlock_withBlock.mpr (.inr rfl))
      rw [if_neg short, replays]
      obtain ⟨_, t, whole⟩ := hb
      obtain rfl :=
        laid.eq_of_head_id_eq clean origin whole (by rw [head, whole.head_eq, Block.id])
      exact ⟨_, _, rfl, by decide, withHead stock whole (low higher) _ _,
        ⟨rfl, rfl, unknown, linked⟩, .inr ⟨higher, whole.head_eq⟩⟩

/-- An honest block is passed over only if it is known already or its parent is not;
otherwise it is learned. -/
theorem receive (h : Honest rules strings n) (hb : b.Honest rules strings) :
    (n.receive (.block b) = (false, n) ∧
      (n.knowsBlock b.id = true ∨ n.knowsBlock b.previous = false)) ∨
    ∃ n', n.receive (.block b) = (true, n') ∧ Honest rules strings n' ∧ Learned n b n' := by
  cases known : n.knowsBlock b.id with
  | true => exact .inl ⟨by simp [Node.receive, applyBlock, known], .inl rfl⟩
  | false =>
    cases linked : n.knowsBlock b.previous with
    | false =>
      exact .inl ⟨by simp [Node.receive, applyBlock, known, hb.consistent, linked], .inr rfl⟩
    | true =>
      obtain ⟨outcome, n', result, new, honest, learned, -⟩ := h.take clean origin hb known linked
      refine .inr ⟨n', ?_, honest, learned⟩
      cases outcome with
      | alreadyKnown => exact absurd rfl new
      | stored | newHead | switchedFork => simp only [Node.receive, result]

/-- The head state is the state after the stored blocks below the head. -/
theorem path_head (h : Honest rules strings n) :
    ∃ bs, n.Path n.headId bs ∧ ChainState.Laid rules strings bs n.headState := by
  obtain ⟨bs, s, path, laid, head⟩ := h.toStocked.laid_of_known clean origin h.head_known
  obtain ⟨cs, laid'⟩ := h.head_laid
  obtain rfl := laid.eq_of_head_id_eq clean origin laid' head
  exact ⟨bs, path, laid⟩

/-- The node can replay what it follows. -/
theorem replayTo_head (h : Honest rules strings n) : n.replayTo n.headId = .ok n.headState := by
  obtain ⟨bs, path, laid⟩ := h.path_head clean origin
  rw [replayTo_of_path h.id_eq path, h.rules_eq, h.genesis_eq]
  exact laid.replay

/-- The blocks of the current chain are those on the path to the head. -/
theorem chainBlocks_eq (h : Honest rules strings n) :
    ∃ bs, n.Path n.headId bs ∧ ChainState.Laid rules strings bs n.headState ∧
      n.chainBlocks = bs.reverse := by
  obtain ⟨bs, path, laid⟩ := h.path_head clean origin
  refine ⟨bs, path, laid, path.chainBlocks_eq h.id_eq ?_ laid.num_eq⟩
  rw [h.genesisId_eq]
  exact laid.grown.1.chain_eq

end Honest

end Node

end ChainLab
