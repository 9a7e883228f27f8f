import ChainLab.Proofs.GroupMesh

/-!
# Groups are made whole or not at all

To make a group, its members are put into it one after the other, and each is linked to those
that are in it already. A link runs a round, and on the way anything may be delivered. Still
none of the later steps can fail once the first look at the names was fine: nodes stay, and
the links between others do not matter. The same goes for a node that joins a group, as the
members of a group are nodes at any time.
-/

namespace ChainLab.Network

/-- The same nodes by name; a group with certain members, and no other group touched; and the
links there were, with some more. -/
structure Grouped (net : Network) (group : String) (belongs : Set NodeName) (made : Set Edge)
    (net' : Network) : Prop where
  nodes : ∀ x, x ∈ net'.nodes ↔ x ∈ net.nodes
  members : ∃ members, net'.groups[group]? = some members ∧ ∀ x, x ∈ members ↔ x ∈ belongs
  others : ∀ other, other ≠ group → net'.groups[other]? = net.groups[other]?
  links : ∀ e, e ∈ net'.links ↔ e ∈ net.links ∨ e ∈ made

/-- A request fails exactly in certain cases, in which nothing is changed, and otherwise does
all that it is to do. -/
def AllOrNothing (net : Network) (answer : Except NetworkError Unit × Network) (refused : Prop)
    (done : Network → Prop) : Prop :=
  ((∃ error, answer.1 = .error error) ↔ refused) ∧
    (refused → answer.2 = net) ∧ (¬ refused → done answer.2)

/-- Every member of a group is a node. -/
def Peopled (net : Network) : Prop := ∀ group, ∀ x ∈ net.members group, x ∈ net.nodes

theorem mesh_empty : mesh ∅ = ∅ := by
  ext e
  simp [mesh]

/-- With one more member, the edges between members are those there were and the spokes of
the new one. -/
theorem mesh_insert {name : NodeName} {members : Set NodeName} :
    mesh (insert name members) = spokes name members ∪ mesh members := by
  ext e
  constructor
  · rintro ⟨a, ha, b, hb, apart, rfl⟩
    rcases Set.mem_insert_iff.mp ha with rfl | oldA
    · rcases Set.mem_insert_iff.mp hb with rfl | oldB
      · exact absurd rfl apart
      · exact .inl ⟨b, oldB, apart.symm, rfl⟩
    · rcases Set.mem_insert_iff.mp hb with rfl | oldB
      · exact .inl ⟨a, oldA, apart, Edge.between_comm apart⟩
      · exact .inr ⟨a, oldA, b, oldB, apart, rfl⟩
  · rintro (⟨b, hb, apart, rfl⟩ | ⟨a, ha, b, hb, apart, rfl⟩)
    · exact ⟨name, Set.mem_insert .., b, Set.mem_insert_of_mem _ hb, apart.symm, rfl⟩
    · exact ⟨a, Set.mem_insert_of_mem _ ha, b, Set.mem_insert_of_mem _ hb, apart, rfl⟩

section

variable {net net' net'' : Network} {group : String} {answer : Except NetworkError Unit × Network}
  {refused : Prop} {done : Network → Prop} {belongs belongs' : Set NodeName}
  {made made' : Set Edge}

theorem allOrNothing_of_refused (is : refused) {error : NetworkError}
    (fails : answer = (.error error, net)) : net.AllOrNothing answer refused done := by
  subst fails
  exact ⟨⟨fun _ => is, fun _ => ⟨error, rfl⟩⟩, fun _ => rfl, fun isNot => absurd is isNot⟩

theorem allOrNothing_of_done (isNot : ¬ refused) (succeeds : answer = (.ok (), net'))
    (holds : done net') : net.AllOrNothing answer refused done := by
  subst succeeds
  refine ⟨⟨?_, fun is => absurd is isNot⟩, fun is => absurd is isNot, fun _ => holds⟩
  rintro ⟨error, fails⟩
  cases fails

theorem Grouped.trans (h : net.Grouped group belongs made net')
    (h' : net'.Grouped group belongs' made' net'') :
    net.Grouped group belongs' (made ∪ made') net'' where
  nodes x := (h'.nodes x).trans (h.nodes x)
  members := h'.members
  others other apart := (h'.others other apart).trans (h.others other apart)
  links e := by rw [h'.links, h.links, Set.mem_union, or_assoc]

end

section

variable {net : Network} {group : String} {name : NodeName} {members : Std.ExtTreeSet NodeName}

theorem node_eq_ok_of_mem (present : name ∈ net.nodes) : ∃ n, net.node name = .ok n := by
  obtain ⟨n, found⟩ := mem_iff_exists_getElem?.mp present
  exact ⟨n, by rw [node, found]⟩

theorem node_eq_error_of_not_mem (absent : name ∉ net.nodes) :
    net.node name = .error (.unknownNode name) := by
  rw [node, Std.ExtTreeMap.getElem?_eq_none absent]

theorem grouped_enter (found : net.groups[group]? = some members) :
    net.Grouped group (insert name {x | x ∈ members}) ∅ (net.enter group name) where
  nodes x := Iff.rfl
  members := by
    refine ⟨members.insert name, ?_, fun x => ?_⟩
    · simp [enter, found]
    · simp [Std.ExtTreeSet.mem_insert, @eq_comm _ x]
  others other apart := by
    simp [enter, Std.ExtTreeMap.getElem?_modify, apart.symm]
  links e := by simp [enter]

end

section

variable [Crypto] {net : Network} {group : String} {name : NodeName}
  {members : Std.ExtTreeSet NodeName}

/-- A node can join a group whose members are nodes. -/
theorem exists_grouped_of_joinGroup (present : name ∈ net.nodes)
    (found : net.groups[group]? = some members) (peopled : ∀ x ∈ members, x ∈ net.nodes) :
    ∃ net', net.joinGroup group name = (.ok (), net') ∧
      net.Grouped group (insert name {x | x ∈ members}) (spokes name {x | x ∈ members}) net' := by
  let others := members.toList.filter fun member => member != name
  have listed : ∀ x, x ∈ others ↔ x ∈ members ∧ x ≠ name := by
    simp [others, Std.ExtTreeSet.mem_toList]
  have there : ∀ x ∈ others, x ∈ net.nodes ∧ x ≠ name := by
    intro x mem
    exact ((listed x).mp mem).imp_left (peopled x)
  obtain ⟨next, connected, adds⟩ := exists_adds_of_connectMissing present there
  have same : spokes name {x | x ∈ others} = spokes name {x | x ∈ members} := by
    ext e
    simp only [spokes, Set.mem_ofPred_eq, listed]
    constructor
    · rintro ⟨x, ⟨mem, -⟩, apart, is⟩
      exact ⟨x, mem, apart, is⟩
    · rintro ⟨x, mem, apart, is⟩
      exact ⟨x, ⟨mem, apart⟩, apart, is⟩
  rw [same] at adds
  have kept : next.groups[group]? = some members := by rw [adds.groups, found]
  obtain ⟨n, known⟩ := node_eq_ok_of_mem present
  refine ⟨next.enter group name, ?_, ?_⟩
  · simp only [joinGroup, known, found]
    rw [connected]
    rfl
  · have entered : next.Grouped group _ ∅ (next.enter group name) := grouped_enter kept
    refine ⟨fun x => (entered.nodes x).trans (adds.nodes x), entered.members, ?_, adds.links⟩
    intro other apart
    rw [entered.others other apart, adds.groups]

/-- Nodes can be put into a group one after the other. With the links that this makes the
members of the group are meshed, if those who were in it before were. -/
theorem exists_grouped_of_joinAll {names : List NodeName}
    (present : ∀ name ∈ names, name ∈ net.nodes) (found : net.groups[group]? = some members)
    (peopled : ∀ x ∈ members, x ∈ net.nodes) :
    ∃ net' made, net.joinAll group names = (.ok (), net') ∧
      net.Grouped group ({x | x ∈ members} ∪ {x | x ∈ names}) made net' ∧
      made ∪ mesh {x | x ∈ members} = mesh ({x | x ∈ members} ∪ {x | x ∈ names}) := by
  induction names generalizing net members with
  | nil =>
    refine ⟨net, ∅, rfl, ⟨fun _ => Iff.rfl, ⟨members, found, by simp⟩, fun _ _ => rfl, by simp⟩, ?_⟩
    simp
  | cons name rest ih =>
    obtain ⟨here, later⟩ := List.forall_mem_cons.mp present
    obtain ⟨next, joined, first⟩ := exists_grouped_of_joinGroup here found peopled
    obtain ⟨members', found', belong⟩ := first.members
    have wider : {x | x ∈ members'} = insert name {x | x ∈ members} := Set.ext belong
    have peopled' : ∀ x ∈ members', x ∈ next.nodes := by
      intro x mem
      rw [first.nodes]
      rcases (belong x).mp mem with rfl | old
      · exact here
      · exact peopled x old
    have later' : ∀ x ∈ rest, x ∈ next.nodes := fun x mem => (first.nodes x).mpr (later x mem)
    obtain ⟨net', made, done, second, meshed⟩ := ih later' found' peopled'
    have all : {x | x ∈ members'} ∪ {x | x ∈ rest} =
        {x | x ∈ members} ∪ {x | x ∈ name :: rest} := by
      rw [wider]
      ext x
      simp [or_assoc, or_left_comm]
    rw [all] at second meshed
    refine ⟨net', spokes name {x | x ∈ members} ∪ made, ?_, first.trans second, ?_⟩
    · rw [joinAll, joined]
      exact done
    · rw [← meshed, wider, mesh_insert, Set.union_comm (spokes _ _) made, Set.union_assoc]

/-- A group is made of nodes that are there, if it is not there yet. -/
theorem allOrNothing_createGroup (net : Network) (group : String) (names : List NodeName) :
    net.AllOrNothing (net.createGroup group names)
      (group ∈ net.groups ∨ ∃ name ∈ names, name ∉ net.nodes)
      (net.Grouped group {x | x ∈ names} (mesh {x | x ∈ names})) := by
  by_cases taken : group ∈ net.groups
  · apply allOrNothing_of_refused (.inl taken)
    rw [createGroup, if_pos taken]
  · cases missing : names.find? fun member => member ∉ net.nodes with
    | some name =>
      have absent : name ∉ net.nodes := by simpa using List.find?_some missing
      apply allOrNothing_of_refused (.inr ⟨name, List.mem_of_find?_eq_some missing, absent⟩)
      rw [createGroup, if_neg taken, missing]
    | none =>
      have present : ∀ name ∈ names, name ∈ net.nodes := by simpa using missing
      let opened : Network := { net with groups := net.groups.insert group ∅ }
      have empty : opened.groups[group]? = some ∅ := by simp [opened]
      have there : ∀ name ∈ names, name ∈ opened.nodes := present
      obtain ⟨net', made, done, grouped, meshed⟩ :=
        exists_grouped_of_joinAll there empty (by simp)
      have succeeds : net.createGroup group names = (.ok (), net') := by
        rw [createGroup, if_neg taken, missing]
        exact done
      refine allOrNothing_of_done ?_ succeeds ?_
      · rintro (there | ⟨name, mem, absent⟩)
        · exact taken there
        · exact absent (present name mem)
      · have nobody : {x | x ∈ (∅ : Std.ExtTreeSet NodeName)} = (∅ : Set NodeName) := by
          ext x
          simp
        rw [nobody, Set.empty_union] at grouped meshed
        rw [← meshed, mesh_empty, Set.union_empty]
        refine ⟨grouped.nodes, grouped.members, ?_, grouped.links⟩
        intro other apart
        rw [grouped.others other apart]
        simp [opened, Std.ExtTreeMap.getElem?_insert, apart.symm]

/-- Where the members of groups are nodes, a node joins a group if both are there. -/
theorem allOrNothing_joinGroup (peopled : net.Peopled) (group : String) (name : NodeName) :
    net.AllOrNothing (net.joinGroup group name) (name ∉ net.nodes ∨ group ∉ net.groups)
      (net.Grouped group (insert name {x | x ∈ net.members group})
        (spokes name {x | x ∈ net.members group})) := by
  by_cases present : name ∈ net.nodes
  · obtain ⟨n, known⟩ := node_eq_ok_of_mem present
    cases found : net.groups[group]? with
    | none =>
      have absent : group ∉ net.groups := by
        rw [Std.ExtTreeMap.mem_iff_isSome_getElem?, found]
        exact Bool.false_ne_true
      apply allOrNothing_of_refused (.inr absent)
      simp only [joinGroup, known, found]
      rfl
    | some members =>
      have there : group ∈ net.groups := mem_iff_exists_getElem?.mpr ⟨members, found⟩
      have same : net.members group = members := members_of_getElem? found
      have all := peopled group
      rw [same] at all ⊢
      obtain ⟨net', joined, grouped⟩ := exists_grouped_of_joinGroup present found all
      refine allOrNothing_of_done ?_ joined grouped
      rintro (absent | absent)
      · exact absent present
      · exact absent there
  · apply allOrNothing_of_refused (.inl present)
    simp only [joinGroup, node_eq_error_of_not_mem present]
    rfl

/-- Only what is about groups changes them. -/
theorem groups_perform (net : Network) {operation : Operation}
    (apart : operation.regroups = false) : (net.perform operation).groups = net.groups := by
  cases cuts : operation.cutsLinks with
  | false => exact (widens_perform net cuts apart).groups
  | true =>
    cases operation with
    | disconnect a b => exact (drops_disconnect net a b).groups
    | isolate name =>
      simp only [perform, isolate]
      split <;> rfl
    | _ => cases cuts

namespace Peopled

omit [Crypto] in
/-- Groups that have gained no one have only nodes in them, as nodes stay. -/
theorem of_members {net' : Network} (h : net.Peopled)
    (members : ∀ group, ∀ x ∈ net'.members group, x ∈ net.members group)
    (nodes : ∀ x ∈ net.nodes, x ∈ net'.nodes) : net'.Peopled :=
  fun group x mem => nodes x (h group x (members group x mem))

omit [Crypto] in
theorem grouped {net' : Network} {belongs : Set NodeName} {made : Set Edge} (h : net.Peopled)
    (grouped : net.Grouped group belongs made net') (nodes : ∀ x ∈ belongs, x ∈ net.nodes) :
    net'.Peopled := by
  intro other x mem
  apply (grouped.nodes x).mpr
  by_cases here : other = group
  · subst here
    obtain ⟨members, found, belong⟩ := grouped.members
    rw [members_of_getElem? found] at mem
    exact nodes x ((belong x).mp mem)
  · apply h other x
    rwa [Network.members, grouped.others other here] at mem

theorem perform (h : net.Peopled) (operation : Operation) : (net.perform operation).Peopled := by
  have nodes : ∀ x ∈ net.nodes, x ∈ (net.perform operation).nodes :=
    fun x mem => mem_nodes_obey mem (.operate operation)
  cases regroups : operation.regroups with
  | false =>
    have groups := groups_perform net regroups
    exact h.of_members (fun group x mem => members_congr groups ▸ mem) nodes
  | true =>
    cases operation with
    | createGroup group names =>
      obtain ⟨-, unchanged, done⟩ := allOrNothing_createGroup net group names
      by_cases refused : group ∈ net.groups ∨ ∃ name ∈ names, name ∉ net.nodes
      · rw [Network.perform, unchanged refused]
        exact h
      · refine h.grouped (done refused) fun x mem => ?_
        by_contra absent
        exact refused (.inr ⟨x, mem, absent⟩)
    | joinGroup group name =>
      obtain ⟨-, unchanged, done⟩ := allOrNothing_joinGroup h group name
      by_cases refused : name ∉ net.nodes ∨ group ∉ net.groups
      · rw [Network.perform, unchanged refused]
        exact h
      · refine h.grouped (done refused) fun x mem => ?_
        rcases Set.mem_insert_iff.mp mem with rfl | old
        · by_contra absent
          exact refused (.inl absent)
        · exact h group x old
    | leaveGroup group name =>
      rcases leaves_leaveGroup net group name with same | leaves
      · rw [Network.perform, same]
        exact h
      · exact h.of_members (fun other x mem => (leaves.shares other x x ⟨mem, mem⟩).1.1) nodes
    | _ => cases regroups

theorem obey (h : net.Peopled) (command : Command) : (net.obey command).Peopled := by
  have nodes : ∀ x ∈ net.nodes, x ∈ (net.obey command).nodes :=
    fun x mem => mem_nodes_obey mem command
  cases command with
  | operate operation => exact h.perform operation
  | addNodeOn name chainName =>
    have groups : (net.obey (.addNodeOn name chainName)).groups = net.groups := by
      simp only [Network.obey, addNodeOn]
      split <;> rfl
    exact h.of_members (fun group x mem => members_congr groups ▸ mem) nodes
  | reach name request =>
    have groups : (net.obey (.reach name request)).groups = net.groups := by
      simp only [Network.obey]
      split <;> rfl
    exact h.of_members (fun group x mem => members_congr groups ▸ mem) nodes

/-- Whatever is done with a network, the members of its groups are nodes. -/
theorem obeyAll (h : net.Peopled) (commands : List Command) : (net.obeyAll commands).Peopled := by
  induction commands generalizing net with
  | nil => exact h
  | cons command rest ih => exact ih (h.obey command)

end Peopled

end

end ChainLab.Network
