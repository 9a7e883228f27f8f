import ChainLab.Proofs.OperationEvents

/-!
# Which operations make blocks and links

Rounds are served by most operations, and nothing is made in them. A block is made by one
operation only, a link by three: by name or for the members of a group.
-/

namespace ChainLab

open Network

/-- Whether a node makes a block. -/
def Event.makesBlock : Event → Bool
  | .produce _ => true
  | _ => false

def Event.makesLink : Event → Bool
  | .link _ _ => true
  | _ => false

/-- Whether a node is asked to make a block. -/
def Operation.makesBlock : Operation → Bool
  | .produceBlock _ => true
  | _ => false

/-- Whether nodes are asked to be linked, by name or as members of a group. -/
def Operation.makesLink : Operation → Bool
  | .connect _ _ | .createGroup _ _ | .joinGroup _ _ => true
  | _ => false

namespace Network

variable [Crypto] {net : Network}

section events

variable {P : Event → Prop}
  (arranges : ∀ generator on groups, P (.arrange generator on groups))
  (serves : ∀ order, P (.serve order))

include arranges serves

omit [Crypto] in
theorem forall_mem_stepEvents : ∀ e ∈ net.stepEvents, P e := by
  intro e he
  simp only [stepEvents, List.mem_cons, List.not_mem_nil, or_false] at he
  rcases he with rfl | rfl
  · exact arranges _ _ _
  · exact serves _

theorem forall_mem_settleEvents {fuel : Nat} :
    ∀ e ∈ settleEvents fuel net, P e := by
  induction fuel generalizing net with
  | zero =>
    intro e he
    cases he
  | succ fuel ih =>
    intro e he
    unfold settleEvents at he
    rcases List.mem_append.mp he with now | later
    · exact forall_mem_stepEvents arranges serves e now
    · split at later
      · cases later
      · exact ih e later

theorem forall_mem_afterChangeEvents : ∀ e ∈ net.afterChangeEvents, P e := by
  intro e he
  unfold afterChangeEvents at he
  split at he
  · exact forall_mem_settleEvents arranges serves e he
  · cases he

theorem forall_mem_connectEvents {a b : NodeName} (link : P (.link a b)) :
    ∀ e ∈ net.connectEvents a b, P e := by
  intro e he
  unfold connectEvents at he
  split at he
  · cases he
  · rcases List.mem_cons.mp he with rfl | he
    · exact link
    · rcases List.mem_append.mp he with served | settled
      · exact forall_mem_stepEvents arranges serves e served
      · exact forall_mem_afterChangeEvents arranges serves e settled

section links

variable (links : ∀ a b, P (.link a b))

include links

theorem forall_mem_connectMissingEvents {name : NodeName} {members : List NodeName} :
    ∀ e ∈ net.connectMissingEvents name members, P e := by
  induction members generalizing net with
  | nil =>
    intro e he
    cases he
  | cons member rest ih =>
    intro e he
    unfold connectMissingEvents at he
    split at he
    · exact ih e he
    · rcases List.mem_append.mp he with now | later
      · exact forall_mem_connectEvents arranges serves (links name member) e now
      · split at later
        · cases later
        · exact ih e later

theorem forall_mem_joinGroupEvents {group : String} {name : NodeName} :
    ∀ e ∈ net.joinGroupEvents group name, P e := by
  intro e he
  unfold joinGroupEvents at he
  split at he
  · rcases List.mem_append.mp he with now | later
    · exact forall_mem_connectMissingEvents arranges serves links e now
    · split at later
      · cases later
      · rw [List.mem_singleton.mp later]
        exact arranges _ _ _
  · cases he

theorem forall_mem_createGroupEvents {group : String} {members : List NodeName} :
    ∀ e ∈ net.createGroupEvents group members, P e := by
  have joins : ∀ {names : List NodeName} {net : Network},
      ∀ e ∈ net.joinAllEvents group names, P e := by
    intro names
    induction names with
    | nil =>
      intro net e he
      cases he
    | cons name rest ih =>
      intro net e he
      unfold joinAllEvents at he
      rcases List.mem_append.mp he with now | later
      · exact forall_mem_joinGroupEvents arranges serves links e now
      · split at later
        · cases later
        · exact ih e later
  intro e he
  unfold createGroupEvents at he
  split at he
  · cases he
  · split at he
    · cases he
    · rcases List.mem_cons.mp he with rfl | he
      · exact arranges _ _ _
      · exact joins e he

end links

omit [Crypto] arranges serves in
theorem forall_mem_disconnectEvents {a b : NodeName}
    (unlink : P (.unlink fun e => e = Edge.between a b)) :
    ∀ e ∈ net.disconnectEvents a b, P e := by
  intro e he
  unfold disconnectEvents at he
  split at he
  · cases he
  · rw [List.mem_singleton.mp he]
    exact unlink

section unlinks

variable (unlinks : ∀ dropped, P (.unlink dropped))

include unlinks

omit serves in
theorem forall_mem_leaveGroupEvents {group : String} {name : NodeName} :
    ∀ e ∈ net.leaveGroupEvents group name, P e := by
  have leaves : ∀ {names : List NodeName} {net : Network},
      ∀ e ∈ net.disconnectAllEvents name names, P e := by
    intro names
    induction names with
    | nil =>
      intro net e he
      cases he
    | cons member rest ih =>
      intro net e he
      unfold disconnectAllEvents at he
      split at he
      · rcases List.mem_append.mp he with now | later
        · exact forall_mem_disconnectEvents (unlinks _) e now
        · split at later
          · cases later
          · exact ih e later
      · exact ih e he
  intro e he
  unfold leaveGroupEvents at he
  split at he
  · rcases List.mem_cons.mp he with rfl | he
    · exact arranges _ _ _
    · exact leaves e he
  · cases he

/-- Only an operation that makes links comes down to links, and only one that makes blocks
to blocks. -/
theorem forall_mem_eventsOf {operation : Operation}
    (adds : ∀ name, P (.addNode name)) (pushes : ∀ name trx, P (.push name trx))
    (links : operation.makesLink = true → ∀ a b, P (.link a b))
    (produces : operation.makesBlock = true → ∀ name, P (.produce name)) :
    ∀ e ∈ net.eventsOf operation, P e := by
  intro e he
  cases operation with
  | addNode name =>
    rw [List.mem_singleton.mp he]
    exact adds name
  | connect a b => exact forall_mem_connectEvents arranges serves (links rfl a b) e he
  | disconnect a b => exact forall_mem_disconnectEvents (unlinks _) e he
  | isolate name =>
    simp only [eventsOf] at he
    split at he
    · cases he
    · rw [List.mem_singleton.mp he]
      exact unlinks _
  | createGroup group members =>
    exact forall_mem_createGroupEvents arranges serves (links rfl) e he
  | joinGroup group name =>
    exact forall_mem_joinGroupEvents arranges serves (links rfl) e he
  | leaveGroup group name => exact forall_mem_leaveGroupEvents arranges unlinks e he
  | pushTransaction name trx =>
    rcases List.mem_cons.mp he with rfl | he
    · exact pushes name trx
    · split at he
      · cases he
      · exact forall_mem_afterChangeEvents arranges serves e he
  | produceBlock name =>
    simp only [eventsOf] at he
    split at he
    · cases he
    · rcases List.mem_cons.mp he with rfl | he
      · exact produces rfl name
      · exact forall_mem_afterChangeEvents arranges serves e he
  | step => exact forall_mem_stepEvents arranges serves e he
  | propagate => exact forall_mem_settleEvents arranges serves e he
  | setAutoPropagate on =>
    rw [List.mem_singleton.mp he]
    exact arranges _ _ _

end unlinks

end events

theorem makesBlock_eventsOf {operation : Operation} (h : operation.makesBlock = false) :
    ∀ e ∈ net.eventsOf operation, e.makesBlock = false := by
  apply forall_mem_eventsOf
  case produces =>
    intro makes
    rw [h] at makes
    cases makes
  all_goals
    intros
    rfl

theorem makesLink_eventsOf {operation : Operation} (h : operation.makesLink = false) :
    ∀ e ∈ net.eventsOf operation, e.makesLink = false := by
  apply forall_mem_eventsOf
  case links =>
    intro makes
    rw [h] at makes
    cases makes
  all_goals
    intros
    rfl

/-- What holds of the events of each operation holds of the events of a run. -/
theorem forall_trace {P : Event → Prop} {Q : Operation → Prop}
    (each : ∀ (net : Network) operation, Q operation → ∀ e ∈ net.eventsOf operation, P e)
    {operations : List Operation} (h : ∀ operation ∈ operations, Q operation) :
    ∀ e ∈ net.trace operations, P e := by
  induction operations generalizing net with
  | nil =>
    intro e he
    cases he
  | cons operation rest ih =>
    obtain ⟨first, others⟩ := List.forall_mem_cons.mp h
    intro e he
    rcases List.mem_append.mp he with now | later
    · exact each net operation first e now
    · exact ih others e later

theorem made_eq_nil {events : List Event} (h : ∀ e ∈ events, e.makesBlock = false) :
    net.made events = [] := by
  induction events generalizing net with
  | nil => rfl
  | cons event rest ih =>
    obtain ⟨first, others⟩ := List.forall_mem_cons.mp h
    have later : (net.play event).made rest = [] := ih others
    cases event with
    | produce name => cases first
    | addNode | link | unlink | serve | push | arrange => exact later

end Network

end ChainLab
