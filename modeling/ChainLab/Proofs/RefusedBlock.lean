import ChainLab.Proofs.LongestBranch

/-!
# A refused block leaves no trace

A block that makes another branch the longest is stored first and replayed then, and the replay
may stop at any message of any block of the branch. The block is taken out again, and as it was
not there before, the node is left as it was. A block that is only stored is in the store and
shows nowhere else. So what a node has become is told by the requests that it heeded.
-/

namespace ChainLab.Node

variable [Crypto] {n n' : Node} {b : Block} {state : ChainState}

omit [Crypto] in
/-- A node that stores a block for the first time is another one than before. -/
theorem ne_of_blocks_eq_insert (unknown : n.knowsBlock b.id = false)
    (stores : n'.blocks = n.blocks.insert b.id b) : n' ≠ n := by
  rintro rfl
  obtain ⟨-, absent⟩ := knowsBlock_eq_false_iff.mp unknown
  have present : (n'.blocks.insert b.id b)[b.id]? = some b := by simp
  rw [← stores, absent] at present
  cases present

theorem headNum_ne_of_extended (applies : n.headState.applyBlock n.rules b = .ok state) :
    state.head.num ≠ n.headNum := by
  obtain ⟨-, next, -⟩ := ChainState.applyBlock_eq_ok.mp applies
  have head : state.head.num = b.num :=
    congrArg BlockHeader.num (ChainState.follows_of_applyBlock applies).head_eq
  rw [head, next, headNum]
  simp

theorem headNum_ne_of_switched (unknown : n.knowsBlock b.id = false) (long : n.headNum < b.num)
    (replays : (n.withBlock b).replayTo b.id = .ok state) : state.head.num ≠ n.headNum := by
  have head : state.head.num = b.num :=
    congrArg BlockHeader.num (head_of_replayTo_withBlock unknown replays)
  rw [head]
  exact (UInt32.ne_of_lt long).symm

theorem applyBlock_eq_self_iff :
    (n.applyBlock b).2 = n ↔
      (∃ error, (n.applyBlock b).1 = .error error) ∨ (n.applyBlock b).1 = .ok .alreadyKnown := by
  have received := received n b
  generalize n.applyBlock b = r at received
  cases received with
  | known => exact iff_of_true rfl (.inr rfl)
  | malformed | unlinked | refused | abandoned => exact iff_of_true rfl (.inl ⟨_, rfl⟩)
  | stored unknown | extended unknown | switched unknown =>
    exact iff_of_false (ne_of_blocks_eq_insert unknown rfl) (by simp)

/-- Each of the outcomes that keep the block, but for the one that only stores it, moves the head,
so it shows beyond the store. -/
theorem applyBlock_eq_stored_iff :
    (n.applyBlock b).1 = .ok .stored ↔
      n.knowsBlock b.id = false ∧
        (n.applyBlock b).2 = { n with blocks := n.blocks.insert b.id b } := by
  have received := received n b
  generalize n.applyBlock b = r at received
  cases received with
  | stored unknown => exact iff_of_true rfl ⟨unknown, rfl⟩
  | known known =>
    refine iff_of_false nofun ?_
    rintro ⟨unknown, -⟩
    rw [known] at unknown
    cases unknown
  | malformed unknown | unlinked unknown | refused unknown | abandoned unknown =>
    refine iff_of_false nofun ?_
    rintro ⟨-, same⟩
    have other : n.withBlock b ≠ n := ne_of_blocks_eq_insert unknown rfl
    exact other same.symm
  | extended _ _ applies =>
    refine iff_of_false nofun ?_
    rintro ⟨-, same⟩
    exact headNum_ne_of_extended applies (congrArg headNum same)
  | switched unknown _ _ _ long replays =>
    refine iff_of_false nofun ?_
    rintro ⟨-, same⟩
    exact headNum_ne_of_switched unknown long replays (congrArg headNum same)

/-- A node that is handed a block, whatever it is, is left as it was exactly if it refuses the
block or knew it before. It answers that the block is stored exactly if the block is new to its
store and nothing else has changed. -/
theorem applyBlock_leaves_no_trace (n : Node) (b : Block) :
    ((n.applyBlock b).2 = n ↔
      (∃ error, (n.applyBlock b).1 = .error error) ∨ (n.applyBlock b).1 = .ok .alreadyKnown) ∧
    ((n.applyBlock b).1 = .ok .stored ↔
      n.knowsBlock b.id = false ∧
        (n.applyBlock b).2 = { n with blocks := n.blocks.insert b.id b }) :=
  ⟨applyBlock_eq_self_iff, applyBlock_eq_stored_iff⟩

/-- Whether a request makes a difference to the node: a transaction has to be accepted, a block has
to be new and must not be refused. -/
def heeds (n : Node) : Request → Bool
  | .push trx => (n.pushTransaction trx).1.isOk
  | .produce => true
  | .receive b =>
    match (n.applyBlock b).1 with
    | .error _ | .ok .alreadyKnown => false
    | .ok _ => true

/-- The requests that a node heeds out of those that it gets one after the other. -/
def heeded (n : Node) : List Request → List Request
  | [] => []
  | request :: rest =>
    if n.heeds request then request :: (n.handle request).heeded rest else n.heeded rest

theorem handle_of_heeds_eq_false {request : Request} (idle : n.heeds request = false) :
    n.handle request = n := by
  cases request with
  | produce => cases idle
  | push trx =>
    simp only [heeds, pushTransaction, handle] at idle ⊢
    split
    next => rfl
    next next applies =>
      rw [applies] at idle
      cases idle
  | receive b =>
    simp only [heeds] at idle
    refine applyBlock_eq_self_iff.mpr ?_
    split at idle
    next error refused => exact .inl ⟨error, refused⟩
    next known => exact .inr known
    next => cases idle

/-- The same for whole runs, a result in its own right: what a node did not heed, wherever it came
in the run, it might as well not have been asked. -/
theorem run_heeded (requests : List Request) : n.run (n.heeded requests) = n.run requests := by
  induction requests generalizing n with
  | nil => rfl
  | cons request rest ih =>
    cases attended : n.heeds request with
    | true =>
      rw [heeded, if_pos attended]
      exact ih
    | false =>
      have idle := handle_of_heeds_eq_false attended
      rw [heeded, if_neg (by simp [attended]), ih, run, run, List.foldl_cons, idle]

end ChainLab.Node
