import ChainLab.Proofs.NetworkRun

/-!
# Operations as events

The events that an operation comes down to, and that it comes down to them.
-/

namespace ChainLab.Network

variable [Crypto] {net : Network}

/-- Only the groups change. -/
def regroup (net : Network) (groups : Std.ExtTreeMap String (Std.ExtTreeSet NodeName)) : Event :=
  .arrange net.generator net.autoPropagate groups

def stepEvents (net : Network) : List Event :=
  let (order, generator) := net.generator.shuffle net.busy
  [.arrange generator net.autoPropagate net.groups, .serve order]

def settleEvents : (fuel : Nat) → Network → List Event
  | 0, _ => []
  | fuel + 1, net =>
    net.stepEvents ++ if net.step.1 = 0 then [] else settleEvents fuel net.step.2

def afterChangeEvents (net : Network) : List Event :=
  if net.autoPropagate then settleEvents net.enoughRounds net else []

def connectEvents (net : Network) (a b : NodeName) : List Event :=
  match net.linkable? a b with
  | none => []
  | some _ =>
    let linked := net.play (.link a b)
    .link a b :: (linked.stepEvents ++ linked.step.2.afterChangeEvents)

def connectMissingEvents (net : Network) (name : NodeName) : List NodeName → List Event
  | [] => []
  | member :: rest =>
    if net.isConnected name member then net.connectMissingEvents name rest
    else
      net.connectEvents name member ++
        match net.connect name member with
        | (.error _, _) => []
        | (.ok (), after) => after.connectMissingEvents name rest

def joinGroupEvents (net : Network) (group : String) (name : NodeName) : List Event :=
  match net.node name, net.groups[group]? with
  | .ok _, some members =>
    let others := members.toList.filter fun member => member != name
    net.connectMissingEvents name others ++
      match net.connectMissing name others with
      | (.error _, _) => []
      | (.ok (), after) =>
        [after.regroup (after.groups.modify group fun members => members.insert name)]
  | _, _ => []

def joinAllEvents (net : Network) (group : String) : List NodeName → List Event
  | [] => []
  | name :: rest =>
    net.joinGroupEvents group name ++
      match net.joinGroup group name with
      | (.error _, _) => []
      | (.ok (), after) => after.joinAllEvents group rest

def createGroupEvents (net : Network) (group : String) (members : List NodeName) : List Event :=
  if group ∈ net.groups then []
  else if (members.find? fun member => member ∉ net.nodes).isSome then []
  else
    let opened := net.regroup (net.groups.insert group ∅)
    opened :: (net.play opened).joinAllEvents group members

def disconnectEvents (net : Network) (a b : NodeName) : List Event :=
  match net.disconnect a b with
  | (.error _, _) => []
  | (.ok (), _) => [.unlink fun e => e = Edge.between a b]

def disconnectAllEvents (net : Network) (name : NodeName) : List NodeName → List Event
  | [] => []
  | member :: rest =>
    if net.isConnected name member then
      net.disconnectEvents name member ++
        match net.disconnect name member with
        | (.error _, _) => []
        | (.ok (), after) => after.disconnectAllEvents name rest
    else net.disconnectAllEvents name rest

def leaveGroupEvents (net : Network) (group : String) (name : NodeName) : List Event :=
  match net.node name, net.groups[group]? with
  | .ok _, some members =>
    let left := net.regroup (net.groups.insert group (members.erase name))
    left :: (net.play left).disconnectAllEvents name (members.erase name).toList
  | _, _ => []

/-- The events that an operation comes down to. -/
def eventsOf (net : Network) : Operation → List Event
  | .addNode name => [.addNode name]
  | .connect a b => net.connectEvents a b
  | .disconnect a b => net.disconnectEvents a b
  | .isolate name =>
    match net.node name with
    | .error _ => []
    | .ok _ => [.unlink fun e => e.touches name]
  | .createGroup group members => net.createGroupEvents group members
  | .joinGroup group name => net.joinGroupEvents group name
  | .leaveGroup group name => net.leaveGroupEvents group name
  | .pushTransaction name trx =>
    .push name trx ::
      match net.pushTransaction name trx with
      | (.error _, _) => []
      | (.ok _, _) => (net.play (.push name trx)).afterChangeEvents
  | .produceBlock name =>
    match net.node name with
    | .error _ => []
    | .ok _ => .produce name :: (net.play (.produce name)).afterChangeEvents
  | .step => net.stepEvents
  | .propagate => settleEvents net.enoughRounds net
  | .setAutoPropagate on => [.arrange net.generator on net.groups]

/-- The events that operations come down to, one after the other. -/
def trace (net : Network) : List Operation → List Event
  | [] => []
  | operation :: rest => net.eventsOf operation ++ (net.perform operation).trace rest

@[simp] theorem playAll_nil : net.playAll [] = net := rfl

@[simp] theorem playAll_cons {event : Event} {rest : List Event} :
    net.playAll (event :: rest) = (net.play event).playAll rest := rfl

@[simp] theorem playAll_append {events more : List Event} :
    net.playAll (events ++ more) = (net.playAll events).playAll more :=
  List.foldl_append

theorem playAll_stepEvents : net.playAll net.stepEvents = net.step.2 := rfl

theorem playAll_settleEvents {fuel : Nat} :
    net.playAll (settleEvents fuel net) = (net.settle fuel).2 := by
  induction fuel generalizing net with
  | zero => rfl
  | succ fuel ih =>
    simp only [settleEvents, playAll_append, playAll_stepEvents, settle]
    split
    · rfl
    · exact ih

theorem playAll_afterChangeEvents : net.playAll net.afterChangeEvents = net.afterChange := by
  unfold afterChangeEvents afterChange
  split
  · exact playAll_settleEvents
  · rfl

/-- A connection is made and served once, exactly if the two nodes can be linked. -/
theorem connect_of_linkable {a b : NodeName} {na nb : Node}
    (h : net.linkable? a b = some (na, nb)) :
    net.connect a b = (.ok (), (net.play (.link a b)).step.2.afterChange) := by
  obtain ⟨ha, hb, apart, free⟩ := linkable_eq_some.mp h
  simp [play, h, connect, node, ha, hb, apart, free]

theorem exists_error_of_not_linkable {a b : NodeName} (h : net.linkable? a b = none) :
    ∃ error, net.connect a b = (.error error, net) := by
  unfold connect node
  unfold linkable? at h
  cases ha : net.nodes[a]? with
  | none => exact ⟨_, rfl⟩
  | some na =>
    cases hb : net.nodes[b]? with
    | none => exact ⟨_, rfl⟩
    | some nb =>
      simp only [ha, hb, isConnected] at h ⊢
      by_cases same : a = b
      · simp [same]
      · have linked : Edge.between a b ∈ net.links := by simpa [same] using h
        simp [same, linked]

theorem connect_of_not_linkable {a b : NodeName} (h : net.linkable? a b = none) :
    (net.connect a b).2 = net := by
  obtain ⟨error, fails⟩ := exists_error_of_not_linkable h
  rw [fails]

theorem playAll_connectEvents {a b : NodeName} :
    net.playAll (net.connectEvents a b) = (net.connect a b).2 := by
  unfold connectEvents
  cases h : net.linkable? a b with
  | none => exact (connect_of_not_linkable h).symm
  | some pair =>
    rw [connect_of_linkable h]
    simp only [playAll_cons, playAll_append, playAll_stepEvents, playAll_afterChangeEvents]

theorem playAll_connectMissingEvents {name : NodeName} {members : List NodeName} :
    net.playAll (net.connectMissingEvents name members) = (net.connectMissing name members).2 := by
  induction members generalizing net with
  | nil => rfl
  | cons member rest ih =>
    unfold connectMissingEvents connectMissing
    split
    · exact ih
    · rw [playAll_append, playAll_connectEvents]
      rcases net.connect name member with ⟨_ | _, after⟩
      · rfl
      · exact ih

theorem playAll_joinGroupEvents {group : String} {name : NodeName} :
    net.playAll (net.joinGroupEvents group name) = (net.joinGroup group name).2 := by
  unfold joinGroupEvents joinGroup
  cases net.node name with
  | error error => rfl
  | ok n =>
    cases net.groups[group]? with
    | none => rfl
    | some members =>
      simp only [playAll_append, playAll_connectMissingEvents]
      rcases net.connectMissing name (members.toList.filter fun member => member != name) with
        ⟨_ | _, after⟩ <;> rfl

theorem playAll_joinAllEvents {group : String} {names : List NodeName} :
    net.playAll (net.joinAllEvents group names) = (net.joinAll group names).2 := by
  induction names generalizing net with
  | nil => rfl
  | cons name rest ih =>
    unfold joinAllEvents joinAll
    rw [playAll_append, playAll_joinGroupEvents]
    rcases net.joinGroup group name with ⟨_ | _, after⟩
    · rfl
    · exact ih

theorem playAll_createGroupEvents {group : String} {members : List NodeName} :
    net.playAll (net.createGroupEvents group members) = (net.createGroup group members).2 := by
  unfold createGroupEvents createGroup
  split
  · rfl
  · cases members.find? fun member => member ∉ net.nodes with
    | some missing => rfl
    | none => exact playAll_joinAllEvents

omit [Crypto] in
theorem erase_eq_filter {links : Std.ExtTreeMap Edge Link} {e : Edge} :
    links.erase e = links.filter fun x _ => !decide (x = e) := by
  refine Std.ExtTreeMap.ext_getElem? fun x => ?_
  rw [Std.ExtTreeMap.getElem?_erase, getElem?_filter_edges]
  by_cases same : e = x
  · simp [same]
  · simp [same, Ne.symm same]

theorem playAll_disconnectEvents {a b : NodeName} :
    net.playAll (net.disconnectEvents a b) = (net.disconnect a b).2 := by
  unfold disconnectEvents disconnect
  cases net.node a with
  | error error => rfl
  | ok na =>
    cases net.node b with
    | error error => rfl
    | ok nb =>
      by_cases linked : Edge.between a b ∈ net.links
      · simp [linked, play, erase_eq_filter]
      · simp [linked]

theorem playAll_disconnectAllEvents {name : NodeName} {members : List NodeName} :
    net.playAll (net.disconnectAllEvents name members) = (net.disconnectAll name members).2 := by
  induction members generalizing net with
  | nil => rfl
  | cons member rest ih =>
    unfold disconnectAllEvents disconnectAll
    split
    · rw [playAll_append, playAll_disconnectEvents]
      rcases net.disconnect name member with ⟨_ | _, after⟩
      · rfl
      · exact ih
    · exact ih

theorem playAll_leaveGroupEvents {group : String} {name : NodeName} :
    net.playAll (net.leaveGroupEvents group name) = (net.leaveGroup group name).2 := by
  unfold leaveGroupEvents leaveGroup
  cases net.node name with
  | error error => rfl
  | ok n =>
    cases net.groups[group]? with
    | none => rfl
    | some members => exact playAll_disconnectAllEvents

theorem playAll_eventsOf {operation : Operation} :
    net.playAll (net.eventsOf operation) = net.perform operation := by
  cases operation with
  | addNode name => rfl
  | connect a b => exact playAll_connectEvents
  | disconnect a b => exact playAll_disconnectEvents
  | isolate name =>
    simp only [eventsOf, perform, isolate]
    cases net.node name <;> rfl
  | createGroup group members => exact playAll_createGroupEvents
  | joinGroup group name => exact playAll_joinGroupEvents
  | leaveGroup group name => exact playAll_leaveGroupEvents
  | pushTransaction name trx =>
    simp only [eventsOf, perform, playAll_cons]
    cases hn : net.nodes[name]? with
    | none => simp [pushTransaction, node, play, hn]
    | some n =>
      rcases hp : n.pushTransaction trx with ⟨_ | _, after⟩ <;>
        simp [pushTransaction, node, play, hn, hp, playAll_afterChangeEvents]
  | produceBlock name =>
    cases hn : net.nodes[name]? with
    | none => simp [eventsOf, perform, produceBlock, node, hn]
    | some n => simp [eventsOf, perform, produceBlock, node, play, hn, playAll_afterChangeEvents]
  | step => exact playAll_stepEvents
  | propagate => exact playAll_settleEvents
  | setAutoPropagate on => rfl

/-- Operations do nothing but what their events do. -/
theorem playAll_trace {operations : List Operation} :
    net.playAll (net.trace operations) = net.performAll operations := by
  induction operations generalizing net with
  | nil => rfl
  | cons operation rest ih =>
    rw [trace, playAll_append, playAll_eventsOf, ih]
    rfl

end ChainLab.Network
