import ChainLab.Proofs.PermissionTree

/-!
# Reached states

A state is reached if a run of its chain ends in it. Both states of a node are reached,
whatever the node was asked to do: its head state by blocks that it made or took, and its
pending state by the queue on top of the head.
-/

namespace ChainLab

section

variable [Crypto] {rules : Rules}

namespace ChainState

/-- Some run of the chain ends in the state. -/
def Reached (rules : Rules) (s : ChainState) : Prop :=
  ∃ changes, (genesis rules).run rules changes = s

namespace Reached

variable {now : Time} {s s' : ChainState}

theorem genesis : Reached rules (ChainState.genesis rules) := ⟨[], rfl⟩

theorem change (h : Reached rules s) (c : Change) : Reached rules (s.change rules c) := by
  obtain ⟨changes, rfl⟩ := h
  exact ⟨changes ++ [c], by rw [ChainState.run, List.foldl_append]; rfl⟩

theorem applyTransaction (h : Reached rules s) {trx : SignedTransaction}
    (applies : s.applyTransaction rules now trx = .ok s') : Reached rules s' := by
  have next := h.change (.transaction now trx)
  rwa [ChainState.change, applies] at next

theorem applyTransactions (h : Reached rules s) {trxs : List SignedTransaction}
    (applies : s.applyTransactions rules now trxs = .ok s') : Reached rules s' := by
  induction trxs generalizing s with
  | nil =>
    cases applies
    exact h
  | cons trx rest ih =>
    obtain ⟨t, once, later⟩ := applyTransactions_cons_eq_ok.mp applies
    exact ih (h.applyTransaction once) later

theorem applyBlock (h : Reached rules s) {b : Block} (applies : s.applyBlock rules b = .ok s') :
    Reached rules s' := by
  have next := h.change (.block b)
  rwa [ChainState.change, applies] at next

theorem replay (h : Reached rules s) {bs : List Block} (applies : Node.replay rules s bs = .ok s') :
    Reached rules s' := by
  induction bs generalizing s with
  | nil =>
    cases applies
    exact h
  | cons b rest ih =>
    simp only [Node.replay, bind_eq_ok] at applies
    obtain ⟨t, once, later⟩ := applies
    exact ih (h.applyBlock once) later

/-- What actions keep holds of every reached state, if it holds of the first one. -/
theorem keeps (h : Reached rules s) {kept : ChainState → Prop} (invariant : Invariant rules kept)
    (start : kept (ChainState.genesis rules)) : kept s := by
  obtain ⟨changes, rfl⟩ := h
  exact invariant.run start changes

theorem trees (h : Reached rules s) : s.Trees := h.keeps invariant_trees trees_genesis

end Reached

end ChainState

namespace Node

variable {n : Node}

/-- A request leaves the head alone, puts one more block on it, or replays a branch. -/
theorem reached_headState_handle (start : n.genesis = ChainState.genesis n.rules)
    (h : ChainState.Reached n.rules n.headState) (request : Request) :
    ChainState.Reached n.rules (n.handle request).headState := by
  cases request with
  | push trx =>
    simp only [handle, pushTransaction]
    split <;> exact h
  | produce =>
    let time := n.headTime.after n.rules.config.blockInterval
    exact h.change (.production n.name time n.pending)
  | receive b =>
    simp only [handle]
    have received := received n b
    generalize n.applyBlock b = r at received
    cases received with
    | known | malformed | unlinked | refused | stored | abandoned => exact h
    | extended _ _ applies => exact h.applyBlock applies
    | switched _ _ _ _ _ replays =>
      simp only [replayTo, bind_eq_ok] at replays
      obtain ⟨bs, -, leads⟩ := replays
      have origin : ChainState.Reached n.rules n.genesis := by
        rw [start]
        exact .genesis
      exact origin.replay leads

theorem rules_handle (n : Node) (request : Request) : (n.handle request).rules = n.rules := by
  cases request with
  | push trx =>
    simp only [handle, pushTransaction]
    split <;> rfl
  | produce => rfl
  | receive b =>
    simp only [handle]
    have received := received n b
    generalize n.applyBlock b = r at received
    cases received <;> rfl

theorem reached_headState (start : n.genesis = ChainState.genesis n.rules)
    (h : ChainState.Reached n.rules n.headState) (requests : List Request) :
    ChainState.Reached n.rules (n.run requests).headState := by
  induction requests generalizing n with
  | nil => exact h
  | cons request rest ih =>
    have once := reached_headState_handle start h request
    rw [← rules_handle n request] at once start ⊢
    rw [← genesis_handle n request] at start
    exact ih start once

/-- Whatever a node is asked, it stays in states that its chain can reach. -/
theorem reached_run (name : NodeName) (chainName : String) (config : ChainConfig)
    (requests : List Request) :
    let rules : Rules := ⟨Crypto.hash chainName.toUTF8.toList, config⟩
    let n := (make name chainName config).run requests
    ChainState.Reached rules n.headState ∧ ChainState.Reached rules n.pendingState := by
  intro rules n
  have head : ChainState.Reached rules n.headState :=
    reached_headState (n := make name chainName config) rfl .genesis requests
  have built := (built_make name chainName config (·.hashed ⊆ [])).run requests
  have inStep : (make name chainName config).InStep := rfl
  have leads := inStep.run requests
  rw [InStep, built.rules_eq] at leads
  exact ⟨head, head.applyTransactions leads⟩

end Node

end

end ChainLab
