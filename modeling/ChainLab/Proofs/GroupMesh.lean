import ChainLab.Proofs.NetworkShape
import Mathlib.Data.List.Induction

/-!
# The members of a group are linked, until one leaves another group

Who comes into a group is linked to its members, and as long as no link is removed by name nothing
undoes that but a departure: a node that is taken out of a group is unlinked from those who
remain. The two may be members of a further group, which then is no longer meshed.
-/

namespace ChainLab

/-- Whether links are removed by the names of their ends. -/
def Operation.cutsLinks : Operation → Bool
  | .disconnect _ _ | .isolate _ => true
  | _ => false

/-- Whether it is about who is in which group. -/
def Operation.regroups : Operation → Bool
  | .createGroup _ _ | .joinGroup _ _ | .leaveGroup _ _ => true
  | _ => false

namespace Network

/-- The members of a group, none if there is no such group. -/
def members (net : Network) (group : String) : Std.ExtTreeSet NodeName :=
  (net.groups[group]?).getD ∅

/-- Two nodes are members of the same group. -/
def Shares (net : Network) (group : String) (a b : NodeName) : Prop :=
  a ∈ net.members group ∧ b ∈ net.members group

instance (net : Network) (group : String) (a b : NodeName) : Decidable (net.Shares group a b) :=
  inferInstanceAs (Decidable (_ ∧ _))

/-- In a run, one of two members of a group was made to leave another group that the other one
stayed in. It cost them their link, and they have not been linked again. -/
inductive Parted [Crypto] (net : Network) (group : String) (a b : NodeName) :
    List Operation → Prop where
  | leave {operations : List Operation} {other : String} {name : NodeName}
      (shares : (net.performAll operations).Shares group a b)
      (linked : (net.performAll operations).isConnected a b = true)
      (another : other ≠ group)
      (stays : (name = a ∧ b ∈ (net.performAll operations).members other) ∨
        (name = b ∧ a ∈ (net.performAll operations).members other))
      (unlinked :
        (net.performAll (operations ++ [.leaveGroup other name])).isConnected a b = false) :
      Parted net group a b (operations ++ [.leaveGroup other name])
  | last {operations : List Operation} {operation : Operation}
      (parted : Parted net group a b operations)
      (unlinked : (net.performAll (operations ++ [operation])).isConnected a b = false) :
      Parted net group a b (operations ++ [operation])

/-- The network with a node put into a group, if there is such a group. -/
def enter (net : Network) (group : String) (name : NodeName) : Network :=
  { net with groups := net.groups.modify group fun members => members.insert name }

/-- Links are only made, and the groups stay as they are. -/
structure Widens (net net' : Network) : Prop where
  links : ∀ e ∈ net.links, e ∈ net'.links
  groups : net'.groups = net.groups

/-- Links are only made, and two nodes that come to share a group are linked. -/
structure Meshes (net net' : Network) : Prop where
  links : ∀ e ∈ net.links, e ∈ net'.links
  shares : ∀ group a b, a ≠ b → net'.Shares group a b →
    net.Shares group a b ∨ net'.isConnected a b = true

section

variable {net net' net'' : Network} {group other : String} {a b name : NodeName}

theorem isConnected_comm (apart : a ≠ b) : net.isConnected a b = net.isConnected b a := by
  rw [isConnected, isConnected, Edge.between_comm apart]

theorem members_congr (groups : net'.groups = net.groups) :
    net'.members group = net.members group := by
  rw [Network.members, Network.members, groups]

theorem members_of_getElem? {members : Std.ExtTreeSet NodeName}
    (found : net.groups[group]? = some members) : net.members group = members := by
  rw [Network.members, found]
  rfl

theorem members_insert {members : Std.ExtTreeSet NodeName} :
    { net with groups := net.groups.insert group members }.members other =
      if group = other then members else net.members other := by
  simp only [Network.members, Std.ExtTreeMap.getElem?_insert, Std.compare_eq_iff_eq]
  split
  next => rfl
  next => rfl

theorem mem_members_enter {members : Std.ExtTreeSet NodeName} {x : NodeName}
    (found : net.groups[group]? = some members) :
    x ∈ (net.enter group name).members other ↔
      x ∈ net.members other ∨ (other = group ∧ x = name) := by
  simp only [Network.members, enter, Std.ExtTreeMap.getElem?_modify, Std.compare_eq_iff_eq]
  by_cases here : group = other
  · subst here
    rw [if_pos rfl, found]
    simp only [Option.map_some, Option.getD_some, Std.ExtTreeSet.mem_insert,
      Std.compare_eq_iff_eq, true_and]
    rw [or_comm, eq_comm]
  · simp [here, Ne.symm here]

namespace Widens

theorem refl : net.Widens net := ⟨fun _ he => he, rfl⟩

theorem trans (h : net.Widens net') (h' : net'.Widens net'') : net.Widens net'' :=
  ⟨fun e he => h'.links e (h.links e he), h'.groups.trans h.groups⟩

theorem connected (h : net.Widens net') (linked : net.isConnected a b = true) :
    net'.isConnected a b = true :=
  isConnected_eq_true.mpr (h.links _ (isConnected_eq_true.mp linked))

theorem setNode (net : Network) (n : Node) (name : NodeName) : net.Widens (net.setNode n name) :=
  ⟨fun _ he => he, rfl⟩

theorem announce (net : Network) (sender : NodeName) (skip : Option NodeName) (item : Delivery) :
    net.Widens (net.announce sender skip item) :=
  ⟨fun _ he => mem_links_announce.mpr he, rfl⟩

theorem of_adds {made : Set Edge} (h : net.Adds made net') : net.Widens net' :=
  ⟨fun e he => (h.links e).mpr (.inl he), h.groups⟩

end Widens

namespace Meshes

theorem of_widens (h : net.Widens net') : net.Meshes net' where
  links := h.links
  shares group a b _ both := by
    left
    simpa only [Shares, members_congr h.groups] using both

theorem connected (h : net.Meshes net') (linked : net.isConnected a b = true) :
    net'.isConnected a b = true :=
  isConnected_eq_true.mpr (h.links _ (isConnected_eq_true.mp linked))

theorem trans (h : net.Meshes net') (h' : net'.Meshes net'') : net.Meshes net'' where
  links e he := h'.links e (h.links e he)
  shares group a b apart both := by
    rcases h'.shares group a b apart both with before | linked
    · exact (h.shares group a b apart before).imp_right h'.connected
    · exact .inr linked

/-- A node that is linked to all members of a group can be put into it. -/
theorem enter {members : Std.ExtTreeSet NodeName} (found : net.groups[group]? = some members)
    (linked : ∀ member ∈ members, member ≠ name → net.isConnected name member = true) :
    net.Meshes (net.enter group name) where
  links e he := he
  shares other a b apart both := by
    obtain ⟨ha, hb⟩ := both
    rcases (mem_members_enter found).mp ha with old | ⟨rfl, rfl⟩
    · rcases (mem_members_enter found).mp hb with old' | ⟨rfl, rfl⟩
      · exact .inl ⟨old, old'⟩
      · right
        rw [members_of_getElem? found] at old
        rw [isConnected_comm apart]
        exact linked a old apart
    · rcases (mem_members_enter found).mp hb with old | ⟨-, rfl⟩
      · right
        rw [members_of_getElem? found] at old
        exact linked b old apart.symm
      · exact absurd rfl apart

end Meshes

end

section

variable [Crypto] {net net' : Network} {group other : String} {a b name : NodeName}

namespace Widens

theorem connect (net : Network) (a b : NodeName) : net.Widens (net.connect a b).2 := by
  cases linkable : net.linkable? a b with
  | none =>
    rw [connect_of_not_linkable linkable]
    exact refl
  | some pair =>
    exact of_adds (adds_of_linkable linkable)

theorem connectMissing (net : Network) (name : NodeName) (others : List NodeName) :
    net.Widens (net.connectMissing name others).2 := by
  induction others generalizing net with
  | nil => exact refl
  | cons other rest ih =>
    unfold Network.connectMissing
    split
    · exact ih net
    · have first := connect net name other
      rcases result : net.connect name other with ⟨_ | _, net'⟩
      · rw [result] at first
        exact first
      · rw [result] at first
        exact first.trans (ih net')

end Widens

/-- A connection that is made is there afterwards. -/
theorem connected_of_connect (done : net.connect a b = (.ok (), net')) :
    net'.isConnected a b = true := by
  cases linkable : net.linkable? a b with
  | none =>
    obtain ⟨error, fails⟩ := exists_error_of_not_linkable linkable
    rw [fails] at done
    cases done
  | some pair =>
    have adds := adds_of_linkable linkable
    rw [done] at adds
    exact isConnected_eq_true.mpr ((adds.links _).mpr (.inr rfl))

theorem connected_of_connectMissing {others : List NodeName}
    (done : net.connectMissing name others = (.ok (), net')) :
    ∀ other ∈ others, net'.isConnected name other = true := by
  induction others generalizing net with
  | nil => exact fun _ h => nomatch h
  | cons other rest ih =>
    unfold connectMissing at done
    split at done
    case isTrue already =>
      have widens := Widens.connectMissing net name rest
      rw [done] at widens
      exact List.forall_mem_cons.mpr ⟨widens.connected already, ih done⟩
    case isFalse =>
      rcases result : net.connect name other with ⟨_ | _, after⟩
      · simp [result] at done
      · simp only [result] at done
        have widens := Widens.connectMissing after name rest
        rw [done] at widens
        have linked := connected_of_connect result
        exact List.forall_mem_cons.mpr ⟨widens.connected linked, ih done⟩

theorem meshes_joinGroup (net : Network) (group : String) (name : NodeName) :
    net.Meshes (net.joinGroup group name).2 := by
  unfold joinGroup
  cases net.node name with
  | error error => exact .of_widens .refl
  | ok n =>
    cases found : net.groups[group]? with
    | none => exact .of_widens .refl
    | some members =>
      simp only
      have widens := Widens.connectMissing net name
        (members.toList.filter fun member => member != name)
      rcases result : net.connectMissing name (members.toList.filter fun member => member != name)
        with ⟨_ | _, after⟩
      · rw [result] at widens
        exact .of_widens widens
      · rw [result] at widens
        have kept : after.groups[group]? = some members := by rw [widens.groups, found]
        refine Meshes.trans (.of_widens widens) (.enter kept fun member mem apart => ?_)
        refine connected_of_connectMissing result member (List.mem_filter.mpr ⟨?_, by simpa⟩)
        exact Std.ExtTreeSet.mem_toList.mpr mem

theorem meshes_joinAll (net : Network) (group : String) (names : List NodeName) :
    net.Meshes (net.joinAll group names).2 := by
  induction names generalizing net with
  | nil => exact .of_widens .refl
  | cons name rest ih =>
    have first := meshes_joinGroup net group name
    unfold joinAll
    rcases result : net.joinGroup group name with ⟨_ | _, after⟩
    · rw [result] at first
      exact first
    · rw [result] at first
      exact first.trans (ih after)

theorem meshes_createGroup (net : Network) (group : String) (names : List NodeName) :
    net.Meshes (net.createGroup group names).2 := by
  unfold createGroup
  split
  · exact .of_widens .refl
  · cases names.find? fun member => member ∉ net.nodes with
    | some missing => exact .of_widens .refl
    | none =>
      have opened : net.Meshes { net with groups := net.groups.insert group ∅ } := by
        refine ⟨fun e he => he, fun other a b _ both => .inl ?_⟩
        simp only [Shares, members_insert] at both
        split at both
        next => simp at both
        next => exact both
      exact opened.trans (meshes_joinAll _ group names)

/-- Of the links of a node only those to some others are removed, and no group is changed. -/
structure Drops (net : Network) (name : NodeName) (others : List NodeName) (net' : Network) :
    Prop where
  links : ∀ e ∈ net.links, e ∈ net'.links ∨ ∃ other ∈ others, e = Edge.between name other
  groups : net'.groups = net.groups

omit [Crypto] in
theorem drops_disconnect (net : Network) (name other : NodeName) :
    net.Drops name [other] (net.disconnect name other).2 := by
  have same : net.Drops name [other] net := ⟨fun e he => .inl he, rfl⟩
  unfold disconnect
  split
  next => exact same
  next => exact same
  next =>
    simp only
    split
    next =>
      refine ⟨fun e he => ?_, rfl⟩
      by_cases here : Edge.between name other = e
      · exact .inr ⟨other, List.mem_singleton_self other, here.symm⟩
      · left
        simp [Std.ExtTreeMap.mem_erase, here, he]
    next => exact same

omit [Crypto] in
theorem Drops.cons {other : NodeName} {rest : List NodeName} {net'' : Network}
    (h : net.Drops name [other] net') (h' : net'.Drops name rest net'') :
    net.Drops name (other :: rest) net'' where
  links e he := by
    rcases h.links e he with kept | ⟨x, mem, same⟩
    · refine (h'.links e kept).imp_right ?_
      rintro ⟨x, mem, same⟩
      exact ⟨x, List.mem_cons_of_mem other mem, same⟩
    · rw [List.mem_singleton.mp mem] at same
      exact .inr ⟨other, List.mem_cons_self, same⟩
  groups := h'.groups.trans h.groups

omit [Crypto] in
theorem drops_disconnectAll (net : Network) (name : NodeName) (others : List NodeName) :
    net.Drops name others (net.disconnectAll name others).2 := by
  induction others generalizing net with
  | nil => exact ⟨fun e he => .inl he, rfl⟩
  | cons other rest ih =>
    have first := drops_disconnect net name other
    have none_dropped (after : Network) : after.Drops name rest after := ⟨fun e he => .inl he, rfl⟩
    unfold disconnectAll
    split
    · rcases result : net.disconnect name other with ⟨_ | _, after⟩
      · rw [result] at first
        exact first.cons (none_dropped after)
      · rw [result] at first
        exact first.cons (ih after)
    · have here : net.Drops name [other] net := ⟨fun e he => .inl he, rfl⟩
      exact here.cons (ih net)

/-- What a departure does: who leaves is in no pair of the group any more, and loses no links but
those to the members who remain. -/
structure Leaves (net : Network) (other : String) (name : NodeName) (net' : Network) : Prop where
  shares : ∀ group a b, net'.Shares group a b →
    net.Shares group a b ∧ (group = other → a ≠ name ∧ b ≠ name)
  links : ∀ e ∈ net.links, e ∈ net'.links ∨
    ∃ member ∈ net.members other, member ≠ name ∧ e = Edge.between name member

omit [Crypto] in
theorem leaves_leaveGroup (net : Network) (other : String) (name : NodeName) :
    (net.leaveGroup other name).2 = net ∨ net.Leaves other name (net.leaveGroup other name).2 := by
  unfold leaveGroup
  cases net.node name with
  | error error => exact .inl rfl
  | ok n =>
    cases found : net.groups[other]? with
    | none => exact .inl rfl
    | some members =>
      right
      simp only
      have drops := drops_disconnectAll
        { net with groups := net.groups.insert other (members.erase name) } name
        (members.erase name).toList
      generalize (disconnectAll _ name (members.erase name).toList).2 = after at drops
      have known : net.members other = members := members_of_getElem? found
      constructor
      case shares =>
        rintro group a b ⟨ha, hb⟩
        have stay : ∀ x ∈ after.members group,
            x ∈ net.members group ∧ (group = other → x ≠ name) := by
          intro x hx
          rw [members_congr drops.groups, members_insert] at hx
          split at hx
          next here =>
            have remains := Std.ExtTreeSet.mem_erase.mp hx
            refine ⟨?_, fun _ => ?_⟩
            · rw [← here, known]
              exact remains.2
            · rintro rfl
              exact remains.1 Std.ReflCmp.compare_self
          next apart => exact ⟨hx, fun same => absurd same.symm apart⟩
        exact ⟨⟨(stay a ha).1, (stay b hb).1⟩, fun same => ⟨(stay a ha).2 same, (stay b hb).2 same⟩⟩
      case links =>
        intro e he
        refine (drops.links e he).imp_right ?_
        rintro ⟨member, mem, same⟩
        have remains := Std.ExtTreeSet.mem_erase.mp (Std.ExtTreeSet.mem_toList.mp mem)
        refine ⟨member, known ▸ remains.2, ?_, same⟩
        rintro rfl
        exact remains.1 Std.ReflCmp.compare_self

/-- What is not about groups and removes no link leaves the groups and the links that are there. -/
theorem widens_perform (net : Network) {operation : Operation}
    (uncut : operation.cutsLinks = false) (apart : operation.regroups = false) :
    net.Widens (net.perform operation) := by
  cases operation with
  | createGroup | joinGroup | leaveGroup => cases apart
  | disconnect | isolate => cases uncut
  | addNode name =>
    simp only [perform, addNode, addNodeOn]
    split
    · exact .refl
    · exact .setNode ..
  | pushTransaction name trx =>
    simp only [perform, pushTransaction]
    split
    · exact .refl
    · split
      · exact .setNode ..
      · exact ((Widens.setNode ..).trans (.announce ..)).trans (.of_adds (.afterChange _))
  | produceBlock name =>
    simp only [perform, produceBlock]
    split
    · exact .refl
    · exact ((Widens.setNode ..).trans (.announce ..)).trans (.of_adds (.afterChange _))
  | connect a b => exact .connect net a b
  | step => exact .of_adds (.step net)
  | propagate => exact .of_adds (.settle _ net)
  | setAutoPropagate on => exact ⟨fun _ he => he, rfl⟩

/-- What an operation that removes no link by name can do to the groups and the links. -/
theorem meshes_or_leaves (net : Network) {operation : Operation}
    (uncut : operation.cutsLinks = false) :
    net.Meshes (net.perform operation) ∨
      ∃ other name, operation = .leaveGroup other name ∧
        net.Leaves other name (net.perform operation) := by
  cases regroups : operation.regroups with
  | false => exact .inl (.of_widens (widens_perform net uncut regroups))
  | true =>
    cases operation with
    | leaveGroup other name =>
      rcases leaves_leaveGroup net other name with same | leaves
      · left
        rw [perform, same]
        exact .of_widens .refl
      · exact .inr ⟨other, name, rfl, leaves⟩
    | createGroup group members => exact .inl (meshes_createGroup net group members)
    | joinGroup group name => exact .inl (meshes_joinGroup net group name)
    | _ => cases regroups

omit [Crypto] in
/-- A departure takes the link of two members of a group only if the group it is from is another
one, with one of them leaving and the other one staying. -/
theorem Leaves.another_group (h : net.Leaves other name net') (both : net'.Shares group a b)
    (linked : net.isConnected a b = true) (unlinked : net'.isConnected a b = false) :
    other ≠ group ∧
      ((name = a ∧ b ∈ net.members other) ∨ (name = b ∧ a ∈ net.members other)) := by
  have gone := (h.shares group a b both).2
  have lost : Edge.between a b ∉ net'.links := by
    intro kept
    exact Bool.false_ne_true (unlinked.symm.trans (isConnected_eq_true.mpr kept))
  obtain ⟨member, mem, -, same⟩ :=
    (h.links _ (isConnected_eq_true.mp linked)).resolve_left lost
  rcases Edge.between_eq_iff.mp same with ⟨rfl, rfl⟩ | ⟨rfl, rfl⟩
  · exact ⟨fun here => (gone here.symm).1 rfl, .inl ⟨rfl, mem⟩⟩
  · exact ⟨fun here => (gone here.symm).2 rfl, .inr ⟨rfl, mem⟩⟩

/-- Two members of a group that are not linked after an operation were members before, and
either were not linked then or one of them has just left another group. -/
theorem unlinked_of_perform {operation : Operation} (uncut : operation.cutsLinks = false)
    (apart : a ≠ b) (both : (net.perform operation).Shares group a b)
    (unlinked : (net.perform operation).isConnected a b = false) :
    net.Shares group a b ∧
      (net.isConnected a b = true → ∃ other name, operation = .leaveGroup other name ∧
        other ≠ group ∧
        ((name = a ∧ b ∈ net.members other) ∨ (name = b ∧ a ∈ net.members other))) := by
  rcases meshes_or_leaves net uncut with meshes | ⟨other, name, is, leaves⟩
  · have free : ¬ (net.perform operation).isConnected a b = true := by simp [unlinked]
    refine ⟨(meshes.shares group a b apart both).resolve_right free, fun linked => ?_⟩
    exact absurd (meshes.connected linked) free
  · refine ⟨(leaves.shares group a b both).1, fun linked => ⟨other, name, is, ?_⟩⟩
    exact leaves.another_group both linked unlinked

/-- Groups stay meshed but for departures: as long as no link is removed by name, two members of a
group are unlinked exactly if one of them was made to leave another group that the other one
stayed in, and they have not been linked again since. -/
theorem unlinked_iff_parted (config : ScenarioConfig) (seed : BitVec 128)
    {operations : List Operation} (uncut : ∀ operation ∈ operations, operation.cutsLinks = false)
    (shares : ((make config seed).performAll operations).Shares group a b) (apart : a ≠ b) :
    ((make config seed).performAll operations).isConnected a b = false ↔
      Parted (make config seed) group a b operations := by
  constructor
  · intro unlinked
    -- From the end of the run: the last operation took the link, or it was gone before.
    induction operations using List.reverseRecOn with
    | nil => simp [performAll, make, Shares, members] at shares
    | append_singleton operations operation ih =>
      obtain ⟨uncut, last⟩ := List.forall_mem_append.mp uncut
      have after : ((make config seed).performAll (operations ++ [operation])) =
          ((make config seed).performAll operations).perform operation := List.foldl_concat ..
      have now := unlinked
      rw [after] at shares now
      have kept := last operation (List.mem_singleton_self operation)
      obtain ⟨before, left⟩ := unlinked_of_perform kept apart shares now
      cases linked : ((make config seed).performAll operations).isConnected a b with
      | false => exact .last (ih uncut before linked) unlinked
      | true =>
        obtain ⟨other, name, rfl, another, stays⟩ := left linked
        exact .leave before linked another stays unlinked
  · intro parted
    cases parted with
    | leave _ _ _ _ unlinked | last _ unlinked => exact unlinked

end

section sample

attribute [local instance] checksum

/-- A pair of nodes is inside a larger group, and one of them leaves the larger group. -/
def sampleDeparture : List Operation :=
  [.addNode "a", .addNode "b", .addNode "c", .createGroup "pair" ["a", "b"],
    .createGroup "all" ["a", "b", "c"], .produceBlock "c", .leaveGroup "all" "a", .propagate]

/-- The pair is parted, the members of the larger group that stayed are not. -/
theorem unlinked_iff_parted_sample :
    let start := make Watched.sampleNetwork 7
    let net := start.performAll sampleDeparture
    (net.Shares "pair" "a" "b" ∧ Parted start "pair" "a" "b" sampleDeparture) ∧
      net.Shares "all" "b" "c" ∧ ¬ Parted start "all" "b" "c" sampleDeparture := by
  intro start net
  have facts :
      net.Shares "pair" "a" "b" ∧ net.isConnected "a" "b" = false ∧
        net.Shares "all" "b" "c" ∧ net.isConnected "b" "c" = true := by
    decide +kernel
  obtain ⟨pair, unlinked, all, linked⟩ := facts
  have uncut : ∀ operation ∈ sampleDeparture, operation.cutsLinks = false := by decide
  have parted := unlinked_iff_parted Watched.sampleNetwork 7 uncut pair (by decide)
  have whole := unlinked_iff_parted Watched.sampleNetwork 7 uncut all (by decide)
  refine ⟨⟨pair, parted.mp unlinked⟩, all, fun left => ?_⟩
  exact Bool.false_ne_true ((whole.mpr left).symm.trans linked)

/-- The members of a group are not always linked, though no link is removed by name: of two groups
with the same two members, one member leaves the first. -/
theorem not_linked_in_group :
    ¬ ∀ (operations : List Operation) (group : String) (a b : NodeName),
      (∀ operation ∈ operations, operation.cutsLinks = false) →
      ((make Watched.sampleNetwork 7).performAll operations).Shares group a b → a ≠ b →
      ((make Watched.sampleNetwork 7).performAll operations).isConnected a b = true := by
  intro meshed
  have linked := meshed
    [.addNode "a", .addNode "b", .createGroup "first" ["a", "b"], .createGroup "second" ["a", "b"],
      .leaveGroup "first" "a"]
    "second" "a" "b" (by decide) (by decide +kernel) (by decide)
  revert linked
  decide +kernel

end sample

end Network

end ChainLab
