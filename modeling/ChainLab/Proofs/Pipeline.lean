import ChainLab.Proofs.MapSum
import ChainLab.Proofs.NetworkRun

/-!
# Items on their way

Between two linked nodes items travel in each direction in the order in which they were
queued: first those a round has collected, then those still queued. Collecting and
announcing keep that order.
-/

namespace ChainLab

namespace Edge

variable {a b s : NodeName}

theorem between_comm (apart : a ≠ b) : between a b = between b a := by
  unfold between
  by_cases below : b < a
  · rw [if_pos below, if_neg (String.lt_asymm below)]
  · by_cases above : a < b
    · rw [if_neg below, if_pos above]
    · exact absurd (String.le_antisymm (String.not_lt.mp below) (String.not_lt.mp above)) apart

theorem between_eq_iff {x y : NodeName} :
    between x y = between a b ↔ (x = a ∧ y = b) ∨ (x = b ∧ y = a) := by
  constructor
  · intro same
    unfold between at same
    split at same <;> split at same <;> cases same
    · exact .inl ⟨rfl, rfl⟩
    · exact .inr ⟨rfl, rfl⟩
    · exact .inr ⟨rfl, rfl⟩
    · exact .inl ⟨rfl, rfl⟩
  · rintro (⟨rfl, rfl⟩ | ⟨rfl, rfl⟩)
    · rfl
    · by_cases same : x = y
      · rw [same]
      · exact between_comm same

theorem peer?_between (apart : a ≠ b) :
    (between a b).peer? s = if s = a then some b else if s = b then some a else none := by
  unfold between peer?
  by_cases first : s = a
  · subst first
    split <;> simp [apart.symm]
  · by_cases second : s = b
    · subst second
      split <;> simp
    · have others : a ≠ s ∧ b ≠ s := ⟨Ne.symm first, Ne.symm second⟩
      split <;> simp [others.1, others.2]

/-- The lesser name is the first end. -/
def Joins (e : Edge) : Prop := e.lo ≠ e.hi ∧ e = between e.lo e.hi

theorem joins_between (apart : a ≠ b) : (between a b).Joins := by
  unfold Joins between
  by_cases below : b < a
  · simp [below, String.lt_asymm below, apart.symm]
  · simp [below, apart]

end Edge

/-- The queue of the items that leave from one end of the edge. -/
def Link.sent (e : Edge) (sender : NodeName) (link : Link) : List Delivery :=
  if sender = e.lo then link.forward else link.backward

namespace Network

/-- What is queued on the way from one node to another. -/
def queue (links : Std.ExtTreeMap Edge Link) (a b : NodeName) : List Delivery :=
  ((links[Edge.between a b]?).map fun link => link.sent (Edge.between a b) a).getD []

/-- What a round has collected on the way from one node to another. -/
def collected (parcels : List Parcel) (a b : NodeName) : List Delivery :=
  (parcels.filter fun p => p.sender = a ∧ p.receiver = b).map (·.item)

variable {links : Std.ExtTreeMap Edge Link} {a b : NodeName}

theorem mem_of_getElem? {e : Edge} {link : Link} (h : links[e]? = some link) : e ∈ links :=
  mem_iff_exists_getElem?.mpr ⟨link, h⟩

theorem mem_insert_of_mem {e x : Edge} {link : Link} (mem : e ∈ links) :
    x ∈ links.insert e link ↔ x ∈ links := by
  rw [Std.ExtTreeMap.mem_insert, Std.compare_eq_iff_eq]
  exact or_iff_right_of_imp fun same => same ▸ mem

theorem sent_enqueue {e : Edge} {s x : NodeName} {items : List Delivery} {link : Link} :
    (link.enqueue e s items).sent e x =
      if (s = e.lo ↔ x = e.lo) then link.sent e x ++ items else link.sent e x := by
  by_cases first : s = e.lo <;> by_cases other : x = e.lo <;>
    simp [Link.enqueue, Link.sent, first, other]

theorem eq_lo_iff (apart : a ≠ b) {s : NodeName} (s_mem : s = a ∨ s = b) :
    (s = (Edge.between a b).lo ↔ a = (Edge.between a b).lo) ↔ s = a := by
  unfold Edge.between
  rcases s_mem with rfl | rfl
  · simp
  · split <;> simp [apart, apart.symm]

theorem collected_append {parcels more : List Parcel} :
    collected (parcels ++ more) a b = collected parcels a b ++ collected more a b := by
  simp [collected]

theorem collected_cons_self {p : Parcel} {parcels : List Parcel} :
    collected (p :: parcels) p.sender p.receiver =
      p.item :: collected parcels p.sender p.receiver := by
  simp [collected]

theorem collected_map {items : List Delivery} {x y : NodeName} :
    collected (items.map (Parcel.mk x y)) a b = if x = a ∧ y = b then items else [] := by
  by_cases here : x = a ∧ y = b <;> simp [collected, List.filter_map, Function.comp_def, here]

theorem collected_parcels {e : Edge} {link : Link} (apart : a ≠ b) (joins : e.Joins) :
    collected (link.parcels e) a b = if e = Edge.between a b then link.sent e a else [] := by
  rw [Link.parcels, collected_append, collected_map, collected_map]
  have same : e = Edge.between a b ↔ (e.lo = a ∧ e.hi = b) ∨ (e.lo = b ∧ e.hi = a) := by
    rw [← Edge.between_eq_iff, ← joins.2]
  by_cases up : e.lo = a ∧ e.hi = b
  · have down : ¬(e.hi = a ∧ e.lo = b) := fun h => apart (up.1.symm.trans h.2)
    rw [if_pos up, if_neg down, if_pos (same.mpr (.inl up)), Link.sent, if_pos up.1.symm,
      List.append_nil]
  · by_cases down : e.hi = a ∧ e.lo = b
    · have other : a ≠ e.lo := fun h => apart (h.trans down.2)
      rw [if_neg up, if_pos down, if_pos (same.mpr (.inr down.symm)), Link.sent, if_neg other,
        List.nil_append]
    · have elsewhere : e ≠ Edge.between a b := fun h =>
        (same.mp h).elim up fun h => down h.symm
      rw [if_neg up, if_neg down, if_neg elsewhere, List.append_nil]

/-- Collecting moves what is queued in front of what stays queued. -/
theorem collected_collect (order : List Edge) (apart : a ≠ b)
    (joins : ∀ e ∈ links, e.Joins) :
    collected (collect links order).1 a b ++ queue (collect links order).2 a b =
      queue links a b := by
  induction order generalizing links with
  | nil => rfl
  | cons e rest ih =>
    unfold collect
    cases hlink : links[e]? with
    | none => exact ih joins
    | some link =>
      have mem := mem_of_getElem? hlink
      have emptied : ∀ x ∈ links.insert e Link.empty, x.Joins := fun x hx =>
        joins x ((mem_insert_of_mem mem).mp hx)
      simp only [collected_append, List.append_assoc, ih emptied,
        collected_parcels apart (joins e mem)]
      by_cases here : e = Edge.between a b
      · subst here
        simp [queue, hlink, Link.empty, Link.sent]
      · simp [queue, here, Std.ExtTreeMap.getElem?_insert]

theorem mem_collect {order : List Edge} {e : Edge} : e ∈ (collect links order).2 ↔ e ∈ links := by
  induction order generalizing links with
  | nil => rfl
  | cons x rest ih =>
    unfold collect
    cases hlink : links[x]? with
    | none => exact ih
    | some link =>
      rw [ih, mem_insert_of_mem (mem_of_getElem? hlink)]

theorem joined_of_mem_parcels {e : Edge} {link : Link} (joins : e.Joins) {p : Parcel}
    (hp : p ∈ link.parcels e) : p.sender ≠ p.receiver ∧ Edge.between p.sender p.receiver = e := by
  rcases List.mem_append.mp hp with up | down
  · obtain ⟨item, -, rfl⟩ := List.mem_map.mp up
    exact ⟨joins.1, joins.2.symm⟩
  · obtain ⟨item, -, rfl⟩ := List.mem_map.mp down
    exact ⟨joins.1.symm, (Edge.between_comm joins.1).symm.trans joins.2.symm⟩

/-- Whatever is collected was queued on a link. -/
theorem exists_link_of_mem_collect {order : List Edge} {p : Parcel}
    (hp : p ∈ (collect links order).1) :
    ∃ (e : Edge) (link : Link), links[e]? = some link ∧ p ∈ link.parcels e := by
  induction order generalizing links with
  | nil => cases hp
  | cons x rest ih =>
    unfold collect at hp
    cases hlink : links[x]? with
    | none =>
      rw [hlink] at hp
      exact ih hp
    | some link =>
      rw [hlink] at hp
      rcases List.mem_append.mp hp with here | later
      · exact ⟨x, link, hlink, here⟩
      · obtain ⟨e, link', found, queued⟩ := ih later
        rw [Std.ExtTreeMap.getElem?_insert] at found
        split at found
        · -- A link that was collected has nothing queued any more.
          cases found
          cases queued
        · exact ⟨e, link', found, queued⟩

theorem linked_of_mem_collect {order : List Edge} (joins : ∀ e ∈ links, e.Joins) {p : Parcel}
    (hp : p ∈ (collect links order).1) :
    p.sender ≠ p.receiver ∧ Edge.between p.sender p.receiver ∈ links := by
  obtain ⟨e, link, found, queued⟩ := exists_link_of_mem_collect hp
  have mem := mem_of_getElem? found
  obtain ⟨apart, same⟩ := joined_of_mem_parcels (joins e mem) queued
  exact ⟨apart, same ▸ mem⟩

/-- An announcement reaches every peer but the one that is skipped. -/
theorem queue_announce {net : Network} {s : NodeName} {skip : Option NodeName} {item : Delivery}
    (apart : a ≠ b) (linked : Edge.between a b ∈ net.links) :
    queue (net.announce s skip item).links a b =
      if s = a ∧ some b ≠ skip then queue net.links a b ++ [item] else queue net.links a b := by
  obtain ⟨link, hlink⟩ := mem_iff_exists_getElem?.mp linked
  simp only [queue, announce, Std.ExtTreeMap.getElem?_map, hlink, Option.map_some,
    Option.getD_some, Edge.peer?_between apart]
  by_cases first : s = a
  · simp only [first, if_true, true_and]
    by_cases skipped : some b = skip
    · simp [skipped]
    · simp [skipped, sent_enqueue]
  · by_cases second : s = b
    · subst second
      simp only [first, if_false, if_true, false_and]
      split
      · rfl
      · rw [sent_enqueue, if_neg]
        exact mt (eq_lo_iff apart (.inr rfl)).mp first
    · simp [first, second]

@[simp] theorem nodes_announce {net : Network} {s : NodeName} {skip : Option NodeName}
    {item : Delivery} : (net.announce s skip item).nodes = net.nodes := rfl

theorem mem_links_announce {net : Network} {s : NodeName} {skip : Option NodeName}
    {item : Delivery} {e : Edge} : e ∈ (net.announce s skip item).links ↔ e ∈ net.links := by
  simp [announce]

/-- A new link carries what was queued on it. -/
theorem queue_insert (links : Std.ExtTreeMap Edge Link) (apart : a ≠ b)
    (toB toA : List Delivery) :
    let e := Edge.between a b
    let link := (Link.empty.enqueue e a toB).enqueue e b toA
    queue (links.insert e link) a b = toB ∧ queue (links.insert e link) b a = toA := by
  have ends := eq_lo_iff apart (.inr rfl)
  simp only [queue, ← Edge.between_comm apart, Std.ExtTreeMap.getElem?_insert_self, Option.map_some,
    Option.getD_some, sent_enqueue]
  by_cases low : a = (Edge.between a b).lo
  · have high : b ≠ (Edge.between a b).lo := fun h => apart (ends.mp (iff_of_true h low)).symm
    simp [Link.empty, Link.sent, ← low, apart.symm]
  · have high : b = (Edge.between a b).lo := by
      by_contra other
      exact apart (ends.mp (iff_of_false other low)).symm
    simp [Link.empty, Link.sent, ← high, apart]

theorem queue_insert_of_ne {e : Edge} {link : Link} (other : e ≠ Edge.between a b) :
    queue (links.insert e link) a b = queue links a b := by
  simp [queue, Std.ExtTreeMap.getElem?_insert, other]

theorem size_eq_zero_of_queued_eq_zero {net : Network} (quiet : net.queued = 0) {e : Edge}
    {link : Link} (found : net.links[e]? = some link) : link.size = 0 := by
  have listed := Std.ExtTreeMap.mem_toList_iff_getElem?_eq_some.mpr found
  exact List.forall_mem_map.mp (List.sum_eq_zero_iff_forall_eq_nat.mp quiet) _ listed

/-- With nothing queued anywhere nothing is queued between two nodes. -/
theorem queue_of_queued_eq_zero {net : Network} (quiet : net.queued = 0) :
    queue net.links a b = [] := by
  unfold queue
  cases hlink : net.links[Edge.between a b]? with
  | none => rfl
  | some link =>
    have size := size_eq_zero_of_queued_eq_zero quiet hlink
    simp only [Link.size] at size
    have forward : link.forward = [] := List.eq_nil_of_length_eq_zero (by omega)
    have backward : link.backward = [] := List.eq_nil_of_length_eq_zero (by omega)
    simp [Link.sent, forward, backward]

end Network

end ChainLab
