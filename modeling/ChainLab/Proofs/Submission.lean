import ChainLab.Proofs.Quiescence
import ChainLab.Proofs.Traffic
import ChainLab.Proofs.WireRoundTrip
import ChainLab.Scenario

/-!
# What becomes of a submitted action

An action is submitted as the one message of a transaction, which a node takes or refuses. If it
refuses, nothing has changed anywhere. If it takes it, others are told and tell others in turn, and
sooner or later the node may be told by them what it knows. With nothing else under way, nothing
that is delivered is new to the node, and it stays as it is however long the rounds go on.
-/

namespace ChainLab

namespace Network

variable [Crypto] {net : Network} {topics : Topics} {name : NodeName} {n : Node}

/-- Whatever is queued is about the topics, and the node has nothing to learn about them. -/
structure Informed (net : Network) (topics : Topics) (name : NodeName) (n : Node) : Prop where
  onTopic : OnTopic topics net.links
  found : net.nodes[name]? = some n
  learned : topics.news n = 0

namespace Informed

theorem deliver (h : net.Informed topics name n) {p : Parcel} (covered : topics.Covers p.item) :
    (net.deliver p).Informed topics name n := by
  refine ⟨(measure_deliver h.onTopic covered).1, ?_, h.learned⟩
  rw [deliver_eq_ask, getElem?_ask, h.found]
  split
  · obtain ⟨handled, -⟩ := n.receive_eq_handle p.item
    rcases Node.receive_news (n := n) covered with ⟨-, same⟩ | ⟨-, fewer⟩
    · rw [Option.map_some, handled, same]
    · exact absurd fewer (h.learned ▸ Nat.not_lt_zero _)
  · rfl

theorem deliverAll {parcels : List Parcel} (h : net.Informed topics name n)
    (covered : ∀ p ∈ parcels, topics.Covers p.item) :
    (parcels.foldl Network.deliver net).Informed topics name n := by
  induction parcels generalizing net with
  | nil => exact h
  | cons p rest ih =>
    obtain ⟨first, others⟩ := List.forall_mem_cons.mp covered
    exact ih (h.deliver first) others

theorem round (h : net.Informed topics name n) (order : List Edge) :
    (net.round order).2.Informed topics name n := by
  obtain ⟨left, handed⟩ := h.onTopic.collect order
  have emptied : { net with links := (collect net.links order).2 }.Informed topics name n :=
    ⟨left, h.found, h.learned⟩
  exact emptied.deliverAll handed

theorem step (h : net.Informed topics name n) : net.step.2.Informed topics name n := by
  let drawn : Network := { net with generator := (net.generator.shuffle net.busy).2 }
  have same : drawn.Informed topics name n := ⟨h.onTopic, h.found, h.learned⟩
  exact same.round _

theorem settle (h : net.Informed topics name n) (fuel : Nat) :
    (net.settle fuel).2.Informed topics name n := by
  induction fuel generalizing net with
  | zero => exact h
  | succ fuel ih =>
    simp only [Network.settle]
    split
    · exact h.step
    · exact ih h.step

theorem afterChange (h : net.Informed topics name n) : net.afterChange.Informed topics name n := by
  unfold Network.afterChange
  split
  · exact h.settle _
  · exact h

end Informed

omit [Crypto] in
theorem items_eq_nil_of_queued_eq_zero (quiet : net.queued = 0) {e : Edge} {link : Link}
    (found : net.links[e]? = some link) : link.items = [] := by
  apply List.eq_nil_of_length_eq_zero
  rw [Link.length_items]
  exact size_eq_zero_of_queued_eq_zero quiet found

omit [Crypto] in
theorem setNode_of_getElem? (found : net.nodes[name]? = some n) : net.setNode n name = net := by
  have same : net.nodes.insert name n = net.nodes := by
    apply Std.ExtTreeMap.ext_getElem?
    intro x
    rw [Std.ExtTreeMap.getElem?_insert]
    split
    next here => rw [← Std.compare_eq_iff_eq.mp here, found]
    next => rfl
  rw [setNode, same]

omit [Crypto] in
theorem node_eq_ok : net.node name = .ok n ↔ net.nodes[name]? = some n := by
  unfold node
  cases net.nodes[name]? <;> simp

/-- A transaction that a node refuses leaves no trace in the network. -/
theorem pushTransaction_of_refused {trx : SignedTransaction} {error : ChainError}
    (found : net.nodes[name]? = some n)
    (refused : n.pendingState.applyTransaction n.rules n.headTime trx = .error error) :
    net.pushTransaction name trx = (.error (.chain error), net) := by
  simp only [pushTransaction, node_eq_ok.mpr found, Node.pushTransaction, refused]
  rw [setNode_of_getElem? found]

/-- A transaction that a node takes is added to what is pending there, and though it may come back
to the node over others nothing more happens to the node. -/
theorem pushTransaction_of_taken {trx : SignedTransaction} {next : ChainState}
    (quiet : net.queued = 0) (found : net.nodes[name]? = some n)
    (taken : n.pendingState.applyTransaction n.rules n.headTime trx = .ok next) :
    ∃ net', net.pushTransaction name trx = (.ok trx.digest, net') ∧
      net'.nodes[name]? = some { n with pendingState := next, pending := n.pending ++ [trx] } := by
  -- The transaction is all that the propagation is about, and from now on the node knows it.
  let n' : Node := { n with pendingState := next, pending := n.pending ++ [trx] }
  let topics : Topics := ⟨[], [trx.digest]⟩
  have known : n'.knowsTransaction trx.digest = true :=
    (ChainState.hasApplied_of_applyTransaction taken).mpr (.inl rfl)
  have empty : OnTopic topics (net.setNode n' name).links := by
    intro e link there item mem
    rw [items_eq_nil_of_queued_eq_zero quiet there] at mem
    cases mem
  have covered : topics.Covers (.transaction trx) := List.mem_singleton_self _
  let told := (net.setNode n' name).announce name none (.transaction trx)
  have informed : told.Informed topics name n' :=
    ⟨empty.announce covered, by simp [told, announce, setNode],
      by simp [Topics.news, topics, known]⟩
  refine ⟨_, ?_, informed.afterChange.found⟩
  simp only [pushTransaction, node_eq_ok.mpr found, Node.pushTransaction, taken]
  rfl

end Network

theorem Action.nativeAction?_toMessage {rules : Rules} {authorizations : LevelSet}
    (action : Action) :
    (action.toMessage rules.config.nativeContract authorizations).nativeAction? rules =
      some action := by
  simp [Message.nativeAction?, toMessage, ActionKind.ofName?_name, decode?_payload]

/-- A node has taken one transaction with one message, which carries the action under the level. -/
def Node.Took [Crypto] (n : Node) (level : Level) (action : Action) (n' : Node) : Prop :=
  ∃ trx m, trx.transaction.messages = [m] ∧ m.nativeAction? n.rules = some action ∧
    m.authorizations = .ofList [level] ∧
    n.pendingState.applyTransaction n.rules n.headTime trx = .ok n'.pendingState ∧
    n' = { n with pendingState := n'.pendingState, pending := n.pending ++ [trx] }

namespace Scenario

variable [Crypto] {sc : Scenario} {node : NodeName} {n : Node}

/-- An action is either taken by the node or leaves the scenario as it is. -/
theorem submit_cases (quiet : sc.network.queued = 0) (found : sc.network.nodes[node]? = some n)
    (level : Level) (action : Action) :
    (∃ digest sc' n', sc.submit node level action = (.ok digest, sc') ∧ sc'.keys = sc.keys ∧
      sc'.config = sc.config ∧ sc'.network.nodes[node]? = some n' ∧ n.Took level action n') ∨
    ∃ error, sc.submit node level action = (.error error, sc) := by
  simp only [submit, Network.node_eq_ok.mpr found, push, lift]
  generalize written : SignedTransaction.sign n.rules.chainId sc.keys.toList _ = trx
  cases taken : n.pendingState.applyTransaction n.rules n.headTime trx with
  | error error =>
    right
    rw [Network.pushTransaction_of_refused found taken]
    exact ⟨_, rfl⟩
  | ok next =>
    left
    obtain ⟨net', pushed, there⟩ := Network.pushTransaction_of_taken quiet found taken
    rw [pushed]
    have messages : trx.transaction.messages =
        [action.toMessage n.rules.config.nativeContract (.ofList [level])] := by
      rw [← written]
      rfl
    exact ⟨_, _, _, rfl, rfl, rfl, there, trx, _, messages, action.nativeAction?_toMessage, rfl,
      taken, rfl⟩

end Scenario

end ChainLab
