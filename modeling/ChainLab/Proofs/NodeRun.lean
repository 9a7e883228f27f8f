import ChainLab.Proofs.Branch

/-!
# Runs of a node

A node is asked to take a transaction, to make a block, or to take a block from a
peer, who may send anything. Whatever it is asked, its head state is the state after
a branch of blocks it has made or checked itself.
-/

namespace ChainLab

/-- What a node can be asked to do. -/
inductive Request where
  | push (trx : SignedTransaction)
  | produce
  | receive (b : Block)

namespace Node

/-- The node with one more block in its store. -/
def withBlock (n : Node) (b : Block) : Node := { n with blocks := n.blocks.insert b.id b }

theorem getElem?_withBlock (n : Node) (b : Block) (id : BlockId) :
    (n.withBlock b).blocks[id]? = if b.id = id then some b else n.blocks[id]? := by
  simp [withBlock, Std.ExtTreeMap.getElem?_insert]

/-- What holds of the blocks that were stored, and of the new one, holds of all. -/
theorem forall_stored_withBlock {n : Node} {b : Block} {kind : BlockId → Block → Prop}
    (old : ∀ (id : BlockId) (c : Block), n.blocks[id]? = some c → kind id c) (new : kind b.id b) :
    ∀ (id : BlockId) (c : Block), (n.withBlock b).blocks[id]? = some c → kind id c := by
  intro id c stored
  rw [getElem?_withBlock] at stored
  split at stored
  next own =>
    cases stored
    exact own ▸ new
  next => exact old id c stored

theorem contains_eq_false_iff {n : Node} {id : BlockId} :
    n.blocks.contains id = false ↔ n.blocks[id]? = none := by
  rw [← Std.ExtTreeMap.isSome_getElem?_eq_contains, Option.isSome_eq_false_iff,
    Option.isNone_iff_eq_none]

theorem knowsBlock_eq_false_iff {n : Node} {id : BlockId} :
    n.knowsBlock id = false ↔ id ≠ n.genesisId ∧ n.blocks[id]? = none := by
  simp [knowsBlock, contains_eq_false_iff]

theorem knowsBlock_iff {n : Node} {id : BlockId} :
    n.knowsBlock id = true ↔ id = n.genesisId ∨ ∃ b, n.blocks[id]? = some b := by
  rw [← Bool.not_eq_false, knowsBlock_eq_false_iff, ← Option.ne_none_iff_exists']
  exact Decidable.not_and_iff_not_or_not.trans (or_congr Decidable.not_not Iff.rfl)

/-- A block that was not known leaves no trace when it is taken out again. -/
theorem erase_withBlock {n : Node} {b : Block} (unknown : n.knowsBlock b.id = false) :
    (n.withBlock b).blocks.erase b.id = n.blocks := by
  obtain ⟨-, absent⟩ := knowsBlock_eq_false_iff.mp unknown
  refine Std.ExtTreeMap.ext_getElem? fun id => ?_
  rw [Std.ExtTreeMap.getElem?_erase, getElem?_withBlock]
  by_cases h : b.id = id
  · simp [← h, absent]
  · simp [h]

variable [Crypto] {n : Node} {rules : Rules} {strings : List (List UInt8)}

/-- How a node can deal with a block. -/
inductive Received (n : Node) (b : Block) : Except ChainError BlockOutcome × Node → Prop
  | known (known : n.knowsBlock b.id = true) : Received n b (.ok .alreadyKnown, n)
  | malformed (unknown : n.knowsBlock b.id = false) (broken : b.isConsistent = false) :
    Received n b (.error (.invalidBlock b.id .malformedBlock), n)
  | unlinked (unknown : n.knowsBlock b.id = false) (orphan : n.knowsBlock b.previous = false) :
    Received n b (.error (.unlinkableBlock b.id b.previous), n)
  | refused (unknown : n.knowsBlock b.id = false) (onHead : b.previous = n.headId)
      {error : ChainError} (fails : n.headState.applyBlock n.rules b = .error error) :
    Received n b (.error error, n)
  | extended (unknown : n.knowsBlock b.id = false) (onHead : b.previous = n.headId)
      {state : ChainState} (applies : n.headState.applyBlock n.rules b = .ok state) :
    Received n b (.ok .newHead, { n.withBlock b with headState := state }.rebuildPending)
  | stored (unknown : n.knowsBlock b.id = false) (consistent : b.isConsistent = true)
      (linked : n.knowsBlock b.previous = true) (offHead : b.previous ≠ n.headId)
      (short : b.num ≤ n.headNum) :
    Received n b (.ok .stored, n.withBlock b)
  | abandoned (unknown : n.knowsBlock b.id = false) (consistent : b.isConsistent = true)
      (linked : n.knowsBlock b.previous = true) (offHead : b.previous ≠ n.headId)
      (long : n.headNum < b.num) {error : ChainError}
      (fails : (n.withBlock b).replayTo b.id = .error error) :
    Received n b (.error error, n)
  | switched (unknown : n.knowsBlock b.id = false) (consistent : b.isConsistent = true)
      (linked : n.knowsBlock b.previous = true) (offHead : b.previous ≠ n.headId)
      (long : n.headNum < b.num) {state : ChainState}
      (replays : (n.withBlock b).replayTo b.id = .ok state) :
    Received n b (.ok .switchedFork,
      { n.withBlock b with
        headState := state
        pending := (n.withBlock b).orphanedTransactions state ++ n.pending }.rebuildPending)

theorem applyBlock_onHead {b : Block} (unknown : n.knowsBlock b.id = false)
    (consistent : b.isConsistent = true) (linked : n.knowsBlock b.previous = true)
    (onHead : b.previous = n.headId) :
    n.applyBlock b =
      match n.headState.applyBlock n.rules b with
      | .error error => (.error error, n)
      | .ok state => (.ok .newHead, { n.withBlock b with headState := state }.rebuildPending) := by
  simp only [applyBlock, unknown, consistent, linked, Bool.false_eq_true, if_false, Bool.not_true]
  rw [if_pos onHead]
  rfl

/-- Off the head only the number decides whether the branch is replayed at all. -/
theorem applyBlock_offHead {b : Block} (unknown : n.knowsBlock b.id = false)
    (consistent : b.isConsistent = true) (linked : n.knowsBlock b.previous = true)
    (offHead : b.previous ≠ n.headId) :
    n.applyBlock b =
      if b.num ≤ n.headNum then (.ok .stored, n.withBlock b)
      else
        match (n.withBlock b).replayTo b.id with
        | .error error => (.error error, n)
        | .ok state =>
          (.ok .switchedFork,
            { n.withBlock b with
              headState := state
              pending :=
                (n.withBlock b).orphanedTransactions state ++ n.pending }.rebuildPending) := by
  have erased : (n.blocks.insert b.id b).erase b.id = n.blocks := erase_withBlock unknown
  simp only [applyBlock, unknown, consistent, linked, offHead, erased, Bool.false_eq_true, if_false,
    Bool.not_true]
  rfl

theorem received (n : Node) (b : Block) : Received n b (n.applyBlock b) := by
  cases unknown : n.knowsBlock b.id with
  | true =>
    simp only [applyBlock, unknown, if_true]
    exact .known unknown
  | false =>
    cases consistent : b.isConsistent with
    | false =>
      simp only [applyBlock, unknown, consistent, Bool.false_eq_true, if_false, Bool.not_false,
        if_true]
      exact .malformed unknown consistent
    | true =>
      cases linked : n.knowsBlock b.previous with
      | false =>
        simp only [applyBlock, unknown, consistent, linked, Bool.false_eq_true, if_false,
          Bool.not_true, Bool.not_false, if_true]
        exact .unlinked unknown linked
      | true =>
        by_cases onHead : b.previous = n.headId
        · rw [applyBlock_onHead unknown consistent linked onHead]
          cases applies : n.headState.applyBlock n.rules b with
          | error error => exact .refused unknown onHead applies
          | ok state => exact .extended unknown onHead applies
        · rw [applyBlock_offHead unknown consistent linked onHead]
          split
          case isTrue short => exact .stored unknown consistent linked onHead short
          case isFalse high =>
            have long : n.headNum < b.num := UInt32.not_le.mp high
            cases replays : (n.withBlock b).replayTo b.id with
            | error error => exact .abandoned unknown consistent linked onHead long replays
            | ok state => exact .switched unknown consistent linked onHead long replays

/-- The node after a request, whatever became of it. -/
def handle (n : Node) : Request → Node
  | .push trx => (n.pushTransaction trx).2
  | .produce => n.produceBlock.2
  | .receive b => (n.applyBlock b).2

/-- The strings that a request makes the node hash, as far as blocks it makes or finds
consistent are concerned. -/
def hashedBy (n : Node) : Request → List (List UInt8)
  | .push _ => []
  | .produce => n.produceBlock.1.hashed
  | .receive b => if n.knowsBlock b.id || !b.isConsistent then [] else b.hashed

def run (n : Node) (requests : List Request) : Node := requests.foldl handle n

def hashedIn (n : Node) : List Request → List (List UInt8)
  | [] => []
  | request :: rest => n.hashedBy request ++ (n.handle request).hashedIn rest

/-- The store and the current branch hold nothing but blocks of some kind. -/
structure Built (rules : Rules) (kind : Block → Prop) (n : Node) : Prop where
  rules_eq : n.rules = rules
  genesis_eq : n.genesis = ChainState.genesis rules
  stored : ∀ (id : BlockId) (b : Block), n.blocks[id]? = some b → kind b
  grown : ∃ bs, ChainState.Grown rules bs n.headState ∧ ∀ b ∈ bs, kind b

omit [Crypto] in
theorem mem_store_of_branch {fuel : Nat} {cursor : BlockId} {above bs : List Block}
    (h : n.branch fuel cursor above = .ok bs) :
    ∀ b : Block, b ∈ bs → b ∈ above ∨ ∃ id : BlockId, n.blocks[id]? = some b := by
  induction fuel generalizing cursor above with
  | zero => cases h
  | succ fuel ih =>
    unfold branch at h
    split at h
    case isTrue =>
      cases h
      exact fun b hb => .inl hb
    case isFalse =>
      split at h
      · cases h
      next c hc =>
        intro b hb
        rcases ih h b hb with hmem | hstored
        · rcases List.mem_cons.mp hmem with rfl | habove
          · exact .inr ⟨_, hc⟩
          · exact .inl habove
        · exact .inr hstored

theorem grown_of_replay {s t : ChainState} {bs cs : List Block}
    (grown : ChainState.Grown rules bs s) (h : replay rules s cs = .ok t) :
    ChainState.Grown rules (cs.reverse ++ bs) t := by
  induction cs generalizing s bs with
  | nil =>
    cases h
    exact grown
  | cons c cs ih =>
    simp only [replay, bind_eq_ok] at h
    obtain ⟨u, hu, h⟩ := h
    simpa using ih (grown.block (ChainState.follows_of_applyBlock hu)) h

/-- What a node makes of its pending transactions goes on top of its head. -/
theorem follows_produceBlock :
    ChainState.Follows n.rules n.headState n.produceBlock.1 n.produceBlock.2.headState where
  link := rfl
  consistent := Block.isConsistent_iff.mpr ⟨rfl, rfl⟩
  executes := ⟨_, ChainState.applyTransactions_takeValid n.pending, rfl⟩

namespace Built

variable {kind : Block → Prop} {b : Block}

theorem mono {wider : Block → Prop} (h : Built rules kind n) (sub : ∀ b, kind b → wider b) :
    Built rules wider n where
  rules_eq := h.rules_eq
  genesis_eq := h.genesis_eq
  stored id b hb := sub b (h.stored id b hb)
  grown := by
    obtain ⟨bs, grown, hbs⟩ := h.grown
    exact ⟨bs, grown, fun b hb => sub b (hbs b hb)⟩

theorem withBlock (h : Built rules kind n) (hb : kind b) : Built rules kind (n.withBlock b) where
  rules_eq := h.rules_eq
  genesis_eq := h.genesis_eq
  stored := forall_stored_withBlock h.stored hb
  grown := h.grown

theorem withHead (h : Built rules kind n) {s : ChainState} {bs : List Block}
    (grown : ChainState.Grown rules bs s) (hbs : ∀ b ∈ bs, kind b)
    (waiting : List SignedTransaction) :
    Built rules kind { n with headState := s, pending := waiting }.rebuildPending where
  rules_eq := h.rules_eq
  genesis_eq := h.genesis_eq
  stored := h.stored
  grown := ⟨bs, grown, hbs⟩

/-- A branch that is replayed is made of stored blocks. -/
theorem grown_of_replayTo (h : Built rules kind n) {tip : BlockId} {s : ChainState}
    (replays : n.replayTo tip = .ok s) :
    ∃ bs, ChainState.Grown rules bs s ∧ ∀ b ∈ bs, kind b := by
  simp only [replayTo, bind_eq_ok, h.rules_eq, h.genesis_eq] at replays
  obtain ⟨bs, hbranch, hreplay⟩ := replays
  refine ⟨bs.reverse ++ [], grown_of_replay .genesis hreplay, fun b hb => ?_⟩
  rcases mem_store_of_branch hbranch b (by simpa using hb) with hmem | ⟨id, hstored⟩
  · cases hmem
  · exact h.stored id b hstored

theorem pushTransaction (h : Built rules kind n) (trx : SignedTransaction) :
    Built rules kind (n.pushTransaction trx).2 := by
  unfold Node.pushTransaction
  split
  · exact h
  · exact ⟨h.rules_eq, h.genesis_eq, h.stored, h.grown⟩

theorem produceBlock (h : Built rules kind n) (made : kind n.produceBlock.1) :
    Built rules kind n.produceBlock.2 where
  rules_eq := h.rules_eq
  genesis_eq := h.genesis_eq
  stored := (h.withBlock made).stored
  grown := by
    obtain ⟨bs, grown, hbs⟩ := h.grown
    have last := follows_produceBlock (n := n)
    rw [h.rules_eq] at last
    exact ⟨_ :: bs, grown.block last, List.forall_mem_cons.mpr ⟨made, hbs⟩⟩

/-- A block from a peer is looked at only if it is unknown, and kept only if it is consistent. -/
theorem applyBlock (h : Built rules kind n)
    (taken : n.knowsBlock b.id = false → b.isConsistent = true → kind b) :
    Built rules kind (n.applyBlock b).2 := by
  generalize hr : n.applyBlock b = r
  have cases_ := hr ▸ received n b
  cases cases_ with
  | known | malformed | unlinked | refused | abandoned => exact h
  | extended unknown onHead applies =>
    rw [h.rules_eq] at applies
    have last := ChainState.follows_of_applyBlock applies
    have hb := taken unknown last.consistent
    obtain ⟨bs, grown, hbs⟩ := h.grown
    exact (h.withBlock hb).withHead (grown.block last) (List.forall_mem_cons.mpr ⟨hb, hbs⟩) _
  | stored unknown consistent => exact h.withBlock (taken unknown consistent)
  | switched unknown consistent linked offHead long replays =>
    have stored := h.withBlock (taken unknown consistent)
    obtain ⟨bs, grown, hbs⟩ := stored.grown_of_replayTo replays
    exact stored.withHead grown hbs _

end Built

theorem built_make (name : NodeName) (chainName : String) (config : ChainConfig)
    (kind : Block → Prop) :
    Built ⟨Crypto.hash chainName.toUTF8.toList, config⟩ kind (make name chainName config) where
  rules_eq := rfl
  genesis_eq := rfl
  stored id b hb := by simp [make] at hb
  grown := ⟨[], .genesis, fun b hb => nomatch hb⟩

/-- One request adds the strings it hashes. -/
theorem Built.handle {strings : List (List UInt8)} (h : Built rules (·.hashed ⊆ strings) n)
    (request : Request) :
    Built rules (·.hashed ⊆ strings ++ n.hashedBy request) (n.handle request) := by
  have wider : Built rules (·.hashed ⊆ strings ++ n.hashedBy request) n :=
    h.mono fun b hb => List.subset_append_of_subset_left _ hb
  cases request with
  | push trx => exact wider.pushTransaction trx
  | produce => exact wider.produceBlock (List.subset_append_right _ _)
  | receive b =>
    refine wider.applyBlock fun unknown consistent => ?_
    simp only [hashedBy, unknown, consistent, Bool.not_true, Bool.or_false, Bool.false_eq_true,
      if_false]
    exact List.subset_append_right _ _

theorem Built.run {strings : List (List UInt8)} (h : Built rules (·.hashed ⊆ strings) n)
    (requests : List Request) :
    Built rules (·.hashed ⊆ strings ++ n.hashedIn requests) (n.run requests) := by
  induction requests generalizing n strings with
  | nil => simpa [hashedIn, Node.run] using h
  | cons request rest ih =>
    have step := ih (h.handle request)
    simpa only [hashedIn, Node.run, List.foldl_cons, List.append_assoc] using step

end Node

end ChainLab
