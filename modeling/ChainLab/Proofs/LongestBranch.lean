import ChainLab.Proofs.PendingState
import ChainLab.Proofs.RootedNode
import Mathlib.Data.List.Infix

/-!
# No stored branch that replays is higher than the head

A block off the head's branch is stored on the word of its header, whose number may be a
lie. Still no block is stored with a number above the head's, and the blocks of a branch
that replays are numbered one after the other, so such a branch is no longer than the
current one. The head moves only up. None of this depends on what the hash tells apart.
-/

namespace ChainLab

theorem toNat_of_eq_succ {num next : UInt32} (room : num.toNat + 1 < UInt32.size)
    (succ : next = num + 1) : next.toNat = num.toNat + 1 := by
  rw [succ, UInt32.toNat_add]
  exact Nat.mod_eq_of_lt room

section

variable [Crypto]

namespace ChainState

variable {rules : Rules} {now : Time} {s s' : ChainState} {b : Block} {bs : List Block}

theorem counted_genesis : (genesis rules).Counted := rfl

omit [Crypto] in
theorem Counted.advance (h : s.Counted) (room : s.head.num.toNat + 1 < UInt32.size)
    {header : BlockHeader} (next : header.num = s.head.num + 1) : (s.advance header).Counted := by
  have count : (s.advance header).chain.size = s.chain.size + 1 := Array.size_push _
  rw [Counted, count, h]
  exact congrArg (· + 1) (toNat_of_eq_succ room next).symm

/-- Transactions move neither the head nor the chain. -/
theorem Counted.applyTransactions (h : s.Counted) {trxs : List SignedTransaction}
    (applies : s.applyTransactions rules now trxs = .ok s') : s'.Counted := by
  obtain ⟨head, chain⟩ := head_chain_of_applyTransactions applies
  rw [Counted, head, chain]
  exact h

theorem Counted.applyBlock (h : s.Counted) (room : s.head.num.toNat + 1 < UInt32.size)
    (applies : s.applyBlock rules b = .ok s') : s'.Counted := by
  obtain ⟨-, next, -, -, t, run, rfl⟩ := applyBlock_eq_ok.mp applies
  obtain ⟨head, -⟩ := head_chain_of_applyTransactions run
  rw [← head] at next room
  exact (h.applyTransactions run).advance room next

/-- Blocks that are numbered no higher than `top` lead no higher than `top`, and the number
of the head never wraps round on the way. -/
theorem Counted.replay {top : UInt32} (room : top.toNat + 1 < UInt32.size) (h : s.Counted)
    (low : s.head.num ≤ top) (below : ∀ b ∈ bs, b.num ≤ top)
    (replays : Node.replay rules s bs = .ok s') : s'.Counted ∧ s'.head.num ≤ top := by
  induction bs generalizing s with
  | nil =>
    cases replays
    exact ⟨h, low⟩
  | cons b bs ih =>
    obtain ⟨first, others⟩ := List.forall_mem_cons.mp below
    simp only [Node.replay, bind_eq_ok] at replays
    obtain ⟨t, once, later⟩ := replays
    -- The state is still no higher than `top`, so the next number does not wrap round.
    have under := UInt32.le_iff_toNat_le.mp low
    have fits : s.head.num.toNat + 1 < UInt32.size := by omega
    refine ih (h.applyBlock fits once) ?_ others later
    rw [(follows_of_applyBlock once).head_eq]
    exact first

end ChainState

namespace Node

variable {n : Node} {rules : Rules} {id : BlockId} {b : Block} {bs : List Block} {s : ChainState}

omit [Crypto] in
/-- The walk to genesis only adds blocks in front. -/
theorem exists_append_of_branch {fuel : Nat} {cursor : BlockId} {above : List Block}
    (walked : n.branch fuel cursor above = .ok bs) : ∃ below, bs = below ++ above := by
  induction fuel generalizing cursor above with
  | zero => cases walked
  | succ fuel ih =>
    unfold branch at walked
    split at walked
    · cases walked
      exact ⟨[], rfl⟩
    · split at walked
      · cases walked
      next b _ =>
        obtain ⟨below, rfl⟩ := ih walked
        exact ⟨below ++ [b], by simp⟩

/-- A replayed branch ends in the block that is stored under the identifier asked for. -/
theorem head_of_replayTo (apart : id ≠ n.genesisId) (replays : n.replayTo id = .ok s) :
    ∃ b, n.blocks[id]? = some b ∧ s.head = b.header := by
  simp only [replayTo, bind_eq_ok] at replays
  obtain ⟨bs, walked, leads⟩ := replays
  unfold branch at walked
  rw [if_neg apart] at walked
  split at walked
  · cases walked
  next b stored =>
    obtain ⟨below, rfl⟩ := exists_append_of_branch walked
    rw [replay_append, bind_eq_ok] at leads
    obtain ⟨t, -, last⟩ := leads
    simp only [replay, bind_eq_ok] at last
    obtain ⟨u, applies, done⟩ := last
    cases done
    exact ⟨b, stored, (ChainState.follows_of_applyBlock applies).head_eq⟩

/-- A node that replays a block it has just stored ends on that block. -/
theorem head_of_replayTo_withBlock (unknown : n.knowsBlock b.id = false)
    (replays : (n.withBlock b).replayTo b.id = .ok s) : s.head = b.header := by
  obtain ⟨apart, -⟩ := knowsBlock_eq_false_iff.mp unknown
  obtain ⟨c, stored, head⟩ := head_of_replayTo (n := n.withBlock b) apart replays
  rw [getElem?_withBlock, if_pos rfl] at stored
  cases stored
  exact head

/-- Blocks that are all numbered no higher than `top` make no branch higher than `top`. -/
theorem counted_of_replayTo (genesis : n.genesis.Counted ∧ n.genesis.head.num = 0)
    {top : UInt32} (room : top.toNat + 1 < UInt32.size)
    (below : ∀ (id : BlockId) (b : Block), n.blocks[id]? = some b → b.num ≤ top)
    (replays : n.replayTo id = .ok s) : s.Counted ∧ s.head.num ≤ top := by
  simp only [replayTo, bind_eq_ok] at replays
  obtain ⟨bs, walked, leads⟩ := replays
  obtain ⟨counted, bottom⟩ := genesis
  refine counted.replay room ?_ ?_ leads
  · rw [bottom]
    exact UInt32.zero_le
  · intro b mem
    rcases mem_store_of_branch walked b mem with above | ⟨id, stored⟩
    · cases above
    · exact below id b stored

/-- A request leaves the head as it is or puts a higher one in its place. -/
theorem headState_handle (room : n.HasRoom) (request : Request) :
    (n.handle request).headState = n.headState ∨ n.headNum < (n.handle request).headNum := by
  cases request with
  | push trx =>
    simp only [handle, pushTransaction]
    split <;> exact .inl rfl
  | produce => exact .inr (room.lt_of_eq_succ rfl)
  | receive b =>
    simp only [handle]
    have received := received n b
    generalize n.applyBlock b = r at received
    cases received with
    | known | malformed | unlinked | refused | stored | abandoned => exact .inl rfl
    | @extended _ _ state applies =>
      obtain ⟨-, next, -⟩ := ChainState.applyBlock_eq_ok.mp applies
      have higher := room.lt_of_eq_succ next
      rw [Block.num, ← (ChainState.follows_of_applyBlock applies).head_eq] at higher
      exact .inr higher
    | @switched unknown _ _ _ long state replays =>
      rw [Block.num, ← head_of_replayTo_withBlock unknown replays] at long
      exact .inr long

theorem headNum_le_handle (room : n.HasRoom) (request : Request) :
    n.headNum ≤ (n.handle request).headNum := by
  rcases headState_handle room request with same | higher
  · rw [headNum, headNum, same]
    exact UInt32.le_refl _
  · exact UInt32.le_of_lt higher

/-- No stored block is numbered above the head. -/
structure Topmost (n : Node) : Prop where
  genesis : n.genesis.Counted ∧ n.genesis.head.num = 0
  head : n.headState.Counted
  num_le : ∀ (id : BlockId) (b : Block), n.blocks[id]? = some b → b.num ≤ n.headNum

namespace Topmost

theorem make (name : NodeName) (chainName : String) (config : ChainConfig) :
    (make name chainName config).Topmost where
  genesis := ⟨ChainState.counted_genesis, rfl⟩
  head := ChainState.counted_genesis
  num_le id b stored := by simp [Node.make] at stored

theorem replayTo (h : n.Topmost) (room : n.HasRoom) (replays : n.replayTo id = .ok s) :
    s.Counted ∧ s.head.num ≤ n.headNum :=
  counted_of_replayTo h.genesis room h.num_le replays

omit [Crypto] in
theorem num_le_withBlock (h : n.Topmost) {top : UInt32} (low : n.headNum ≤ top)
    (new : b.num ≤ top) :
    ∀ (id : BlockId) (c : Block), (n.withBlock b).blocks[id]? = some c → c.num ≤ top := by
  refine forall_stored_withBlock ?_ new
  intro id c stored
  exact UInt32.le_trans (h.num_le id c stored) low

theorem handle (h : n.Topmost) (request : Request) (room : n.HasRoom)
    (next : (n.handle request).HasRoom) : (n.handle request).Topmost := by
  have genesis := h.genesis
  rw [← genesis_handle n request] at genesis
  have rises := headNum_le_handle room request
  cases request with
  | push trx =>
    simp only [Node.handle, pushTransaction]
    split
    · exact h
    · exact ⟨h.genesis, h.head, h.num_le⟩
  | produce =>
    refine ⟨genesis, ?_, h.num_le_withBlock rises (UInt32.le_refl _)⟩
    obtain ⟨t, run, result⟩ := (follows_produceBlock (n := n)).executes
    obtain ⟨head, -⟩ := ChainState.head_chain_of_applyTransactions run
    change n.produceBlock.2.headState.Counted
    rw [result]
    refine (h.head.applyTransactions run).advance ?_ ?_
    · rw [head]
      exact room
    · rw [head]
      rfl
  | receive b =>
    simp only [Node.handle] at genesis rises next ⊢
    have received := received n b
    generalize n.applyBlock b = r at received genesis rises next
    cases received with
    | known | malformed | unlinked | refused | abandoned => exact h
    | extended _ _ applies =>
      refine ⟨genesis, h.head.applyBlock room applies, h.num_le_withBlock rises ?_⟩
      change b.header.num ≤ _
      rw [← (ChainState.follows_of_applyBlock applies).head_eq]
      exact UInt32.le_refl _
    | stored _ _ _ _ short =>
      exact ⟨genesis, h.head, h.num_le_withBlock rises short⟩
    | @switched unknown _ _ _ long state replays =>
      have top : b.num ≤ state.head.num := by
        rw [head_of_replayTo_withBlock unknown replays]
        exact UInt32.le_refl _
      have below := h.num_le_withBlock rises top
      have counted := counted_of_replayTo (n := n.withBlock b) h.genesis next below replays
      exact ⟨genesis, counted.1, below⟩

theorem run (h : n.Topmost) {requests : List Request}
    (room : ∀ asked, asked <+: requests → (n.run asked).HasRoom) : (n.run requests).Topmost := by
  refine run_induction Topmost HasRoom ?_ h (List.Subset.refl _) room
  intro n request topmost room next _
  exact topmost.handle request room next

end Topmost

/-- Whatever a node was asked to do, it is on one of the longest branches it can replay: a
stored branch that replays ends no higher than the head and has no more blocks than there
are up to the head. And whatever it is asked next, the head state stays what it is, or the
node gets a strictly higher head. -/
theorem head_on_longest_branch {name : NodeName} {chainName : String} {config : ChainConfig}
    {requests : List Request}
    (room : ∀ asked, asked <+: requests → ((make name chainName config).run asked).HasRoom) :
    let n := (make name chainName config).run requests
    (∀ id s, n.replayTo id = .ok s →
        s.head.num ≤ n.headNum ∧ s.chain.size ≤ n.headNum.toNat + 1) ∧
      ∀ request, (n.handle request).headState = n.headState ∨
        n.headNum < (n.handle request).headNum := by
  intro n
  have topmost : n.Topmost := (Topmost.make name chainName config).run room
  have here : n.HasRoom := room requests (List.prefix_refl _)
  refine ⟨?_, headState_handle here⟩
  intro id s replays
  obtain ⟨counted, low⟩ := topmost.replayTo here replays
  refine ⟨low, ?_⟩
  rw [counted]
  exact Nat.succ_le_succ (UInt32.le_iff_toNat_le.mp low)

end Node

end

namespace Node

section sample

attribute [local instance] checksum

/-- A block on top of a rival's first one that claims to be the first itself. -/
def sampleLie : Block :=
  let rival := (make "b" "lab" sampleConfig).produceBlock
  let header := { rival.2.produceBlock.1.header with num := 1 }
  ⟨{ header with id := header.computedId }, []⟩

/-- A node with two blocks of its own stores a rival's first block and the lie on top of it.
The one replays, to a lower head, the other does not, and a second block of the rival makes
a tie that leaves the head where it is. -/
theorem head_on_longest_branch_sample :
    let rival := (make "b" "lab" sampleConfig).produceBlock
    let n := (make "a" "lab" sampleConfig).run
      [.produce, .produce, .receive rival.1, .receive sampleLie]
    n.headNum = 2 ∧ n.blocks.size = 4 ∧ (n.replayTo sampleLie.id).isOk = false ∧
      (∃ s, n.replayTo rival.1.id = .ok s ∧ s.head.num ≤ n.headNum) ∧
      (n.handle (.receive rival.2.produceBlock.1)).headState = n.headState := by
  intro rival n
  have facts :
      let requests := [.produce, .produce, .receive rival.1, .receive sampleLie]
      (∀ asked ∈ requests.inits, ((make "a" "lab" sampleConfig).run asked).HasRoom) ∧
        n.headNum = 2 ∧ n.blocks.size = 4 ∧ (n.replayTo sampleLie.id).isOk = false ∧
        (n.replayTo rival.1.id).isOk = true ∧
        (n.handle (.receive rival.2.produceBlock.1)).headNum = 2 := by
    decide +kernel
  obtain ⟨room, height, size, lie, replays, tie⟩ := facts
  obtain ⟨s, replays⟩ := exists_eq_ok_iff.mpr replays
  have reached := head_on_longest_branch fun asked before =>
    room asked ((List.mem_inits _ _).mpr before)
  obtain ⟨highest, steps⟩ := reached
  refine ⟨height, size, lie, ⟨s, replays, (highest _ s replays).1⟩, ?_⟩
  refine (steps (.receive rival.2.produceBlock.1)).resolve_right ?_
  rw [tie, height]
  exact UInt32.lt_irrefl 2

end sample

end Node

end ChainLab
