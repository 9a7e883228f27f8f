import ChainLab.Proofs.Convergence
import ChainLab.Proofs.MapSum
import ChainLab.Proofs.QueueAgreement

/-!
# Propagation comes to an end

What is queued names finitely many blocks and transactions, and rounds queue no others. A
node that accepts a block knows one block more, for good. One that accepts a transaction
knows one transaction more, but may forget transactions with its next block. So a block
counts for more than all transactions together, and every acceptance takes something from
what is still news to the node. It queues at most one item per link. The measure of a network
is what is queued plus, for every link, all that is news to any node: a round takes from it
as much as it delivers, in whatever order it serves the links. No round has to be fair, and
nothing is asked of the nodes, the links or the items.
-/

namespace ChainLab

open Network

/-- Whoever knows something more, and all that it knew before, has less to learn. -/
theorem countP_unknown_lt {α : Type} {knows knows' : α → Bool} {items : List α} {a : α}
    (kept : ∀ x, knows x = true → knows' x = true) (mem : a ∈ items) (unknown : knows a = false)
    (learned : knows' a = true) :
    items.countP (fun x => !knows' x) < items.countP fun x => !knows x := by
  have fewer : ∀ l : List α, l.countP (fun x => !knows' x) ≤ l.countP fun x => !knows x := by
    intro l
    apply List.countP_mono_left
    intro x _ still
    by_contra known
    rw [Bool.not_eq_true, Bool.not_eq_false'] at known
    rw [kept x known] at still
    cases still
  obtain ⟨before, after, rfl⟩ := List.append_of_mem mem
  have less := fewer before
  have less' := fewer after
  simp only [List.countP_append, List.countP_cons, unknown, learned, Bool.not_true, Bool.not_false,
    if_true, Bool.false_eq_true, if_false]
  omega

/-- The blocks and transactions that a propagation is about. -/
structure Topics where
  ids : List BlockId
  digests : List Digest

namespace Topics

variable [Crypto]

/-- Whether an item is one of those a propagation is about. -/
def Covers (topics : Topics) : Delivery → Prop
  | .block b => b.id ∈ topics.ids
  | .transaction trx => trx.digest ∈ topics.digests

/-- All that can still be new to a node. A block weighs more than all transactions, since
the node may have to be told all of them again after it. -/
def news (topics : Topics) (n : Node) : Nat :=
  topics.ids.countP (fun id => !n.knowsBlock id) * (topics.digests.length + 1) +
    topics.digests.countP fun digest => !n.knowsTransaction digest

variable {topics : Topics} {n : Node}

omit [Crypto] in
theorem news_le (topics : Topics) (n : Node) :
    topics.news n ≤
      topics.ids.length * (topics.digests.length + 1) + topics.digests.length := by
  have blocks : topics.ids.countP (fun id => !n.knowsBlock id) ≤ topics.ids.length :=
    List.countP_le_length
  have trxs : topics.digests.countP (fun digest => !n.knowsTransaction digest) ≤
      topics.digests.length := List.countP_le_length
  exact Nat.add_le_add (Nat.mul_le_mul_right _ blocks) trxs

omit [Crypto] in
/-- A node that has learned a block has less to hear of, whatever it has forgotten. -/
theorem news_lt_of_block {n' : Node} {b : Block} (covered : b.id ∈ topics.ids)
    (unknown : n.knowsBlock b.id = false)
    (learned : ∀ id, n'.knowsBlock id = true ↔ n.knowsBlock id = true ∨ id = b.id) :
    topics.news n' < topics.news n := by
  have fewer : topics.ids.countP (fun id => !n'.knowsBlock id) <
      topics.ids.countP fun id => !n.knowsBlock id := by
    apply countP_unknown_lt _ covered unknown ((learned b.id).mpr (.inr rfl))
    intro id known
    exact (learned id).mpr (.inl known)
  have forgotten : topics.digests.countP (fun digest => !n'.knowsTransaction digest) ≤
      topics.digests.length := List.countP_le_length
  have weight := Nat.mul_le_mul_right (topics.digests.length + 1) fewer
  rw [Nat.succ_mul] at weight
  simp only [news]
  omega

/-- A node that has taken a transaction has forgotten none. -/
theorem news_lt_of_transaction {n' : Node} {trx : SignedTransaction}
    (covered : trx.digest ∈ topics.digests) (unknown : n.knowsTransaction trx.digest = false)
    (blocks : ∀ id, n'.knowsBlock id = n.knowsBlock id)
    (learned : ∀ digest, n'.knowsTransaction digest = true ↔
      trx.digest = digest ∨ n.knowsTransaction digest = true) :
    topics.news n' < topics.news n := by
  have fewer : topics.digests.countP (fun digest => !n'.knowsTransaction digest) <
      topics.digests.countP fun digest => !n.knowsTransaction digest := by
    apply countP_unknown_lt _ covered unknown ((learned trx.digest).mpr (.inl rfl))
    intro digest known
    exact (learned digest).mpr (.inr known)
  simp only [news, blocks]
  omega

end Topics

section receive

variable [Crypto] {topics : Topics} {n : Node} {item : Delivery}

/-- A node that does not accept an item stays as it is; one that does has less to hear of. -/
theorem Node.receive_news (covered : topics.Covers item) :
    ((n.receive item).1 = false ∧ (n.receive item).2 = n) ∨
      ((n.receive item).1 = true ∧ topics.news (n.receive item).2 < topics.news n) := by
  cases item with
  | block b =>
    have received := received n b
    simp only [Node.receive]
    generalize n.applyBlock b = r at received
    cases received with
    | known | malformed | unlinked | refused | abandoned => exact .inl ⟨rfl, rfl⟩
    | extended unknown | stored unknown | switched unknown =>
      refine .inr ⟨rfl, Topics.news_lt_of_block covered unknown ?_⟩
      intro id
      exact knowsBlock_withBlock (n := n) (b := b)
  | transaction trx =>
    cases unknown : n.knowsTransaction trx.digest with
    | true =>
      left
      simp [Node.receive, unknown]
    | false =>
      simp only [Node.receive, unknown, Bool.false_eq_true, if_false, pushTransaction]
      cases applies : n.pendingState.applyTransaction n.rules n.headTime trx with
      | error error => exact .inl ⟨rfl, rfl⟩
      | ok next =>
        refine .inr ⟨rfl, Topics.news_lt_of_transaction covered unknown (fun _ => rfl) ?_⟩
        intro digest
        exact ChainState.hasApplied_of_applyTransaction applies

end receive

namespace Link

/-- Everything queued on a link, in either direction. -/
def items (link : Link) : List Delivery := link.forward ++ link.backward

/-- A link of which one end announces an item. -/
def announced (e : Edge) (sender : NodeName) (skip : Option NodeName) (item : Delivery)
    (link : Link) : Link :=
  match e.peer? sender with
  | none => link
  | some peer => if some peer = skip then link else link.enqueue e sender [item]

variable {e : Edge} {sender : NodeName} {skip : Option NodeName} {item : Delivery} {link : Link}

theorem length_items : link.items.length = link.size := List.length_append

theorem length_parcels : (link.parcels e).length = link.size := by
  simp [parcels, size]

theorem item_mem_of_mem_parcels {p : Parcel} (mem : p ∈ link.parcels e) :
    p.item ∈ link.items := by
  rcases List.mem_append.mp mem with up | down
  · obtain ⟨item, listed, rfl⟩ := List.mem_map.mp up
    exact List.mem_append_left _ listed
  · obtain ⟨item, listed, rfl⟩ := List.mem_map.mp down
    exact List.mem_append_right _ listed

theorem items_enqueue_perm : (link.enqueue e sender [item]).items.Perm (item :: link.items) := by
  unfold enqueue items
  split
  · rw [List.append_assoc]
    exact List.perm_middle
  · rw [← List.append_assoc]
    exact List.perm_append_singleton item _

/-- An announcement queues at most one item on a link. -/
theorem items_announced :
    (link.announced e sender skip item).items = link.items ∨
      (link.announced e sender skip item).items.Perm (item :: link.items) := by
  unfold announced
  split
  · exact .inl rfl
  · split
    · exact .inl rfl
    · exact .inr items_enqueue_perm

theorem size_announced_le : (link.announced e sender skip item).size ≤ link.size + 1 := by
  rw [← length_items, ← length_items]
  rcases items_announced with same | queued
  · rw [same]
    exact Nat.le_succ _
  · exact Nat.le_of_eq queued.length_eq

theorem mem_items_announced {x : Delivery} (mem : x ∈ (link.announced e sender skip item).items) :
    x ∈ link.items ∨ x = item := by
  rcases items_announced with same | queued
  · rw [same] at mem
    exact .inl mem
  · rcases List.mem_cons.mp (queued.mem_iff.mp mem) with new | old
    · exact .inr new
    · exact .inl old

end Link

namespace Network

section load

variable {net : Network} {links : Std.ExtTreeMap Edge Link}

/-- What is queued on some links. -/
def load (links : Std.ExtTreeMap Edge Link) : Nat :=
  (links.toList.map fun (_, link) => link.size).sum

theorem size_insert_of_mem {e : Edge} {link : Link} (mem : e ∈ links) :
    (links.insert e link).size = links.size := by
  rw [Std.ExtTreeMap.size_insert, if_pos (Std.ExtTreeMap.mem_iff_contains.mp mem)]

/-- Collecting takes off the links what it hands over. -/
theorem load_collect (order : List Edge) (links : Std.ExtTreeMap Edge Link) :
    (collect links order).1.length + load (collect links order).2 = load links ∧
      (collect links order).2.size = links.size := by
  induction order generalizing links with
  | nil => simp [collect]
  | cons e rest ih =>
    unfold collect
    cases found : links[e]? with
    | none => exact ih links
    | some link =>
      obtain ⟨balance, size⟩ := ih (links.insert e Link.empty)
      have emptied : load (links.insert e Link.empty) + link.size = load links := by
        rw [load, load, sum_insert, sum_of_getElem? found]
        simp only [Link.size, Link.empty, List.length_nil]
        omega
      rw [size_insert_of_mem (mem_of_getElem? found)] at size
      simp only [List.length_append, Link.length_parcels]
      exact ⟨by omega, size⟩

theorem links_announce {sender : NodeName} {skip : Option NodeName} {item : Delivery} :
    (net.announce sender skip item).links =
      net.links.map fun e link => link.announced e sender skip item := rfl

theorem load_announce_le {sender : NodeName} {skip : Option NodeName} {item : Delivery} :
    load (net.announce sender skip item).links ≤ load net.links + net.links.size := by
  rw [links_announce, load, Std.ExtTreeMap.toList_map, List.map_map]
  calc (net.links.toList.map _).sum
    _ ≤ (net.links.toList.map fun entry => entry.2.size + 1).sum :=
      List.sum_le_sum fun _ _ => Link.size_announced_le
    _ = load net.links + net.links.size := by
      simp [load, List.sum_map_add, Std.ExtTreeMap.length_toList]

theorem size_announce {sender : NodeName} {skip : Option NodeName} {item : Delivery} :
    (net.announce sender skip item).links.size = net.links.size :=
  Std.ExtTreeMap.size_map

/-- A link that is served is empty, and others are as they were. -/
theorem getElem?_collect {order : List Edge} {e : Edge} :
    (collect links order).2[e]? =
      if e ∈ order then (links[e]?).map fun _ => Link.empty else links[e]? := by
  induction order generalizing links with
  | nil => simp [collect]
  | cons x rest ih =>
    unfold collect
    cases found : links[x]? with
    | none =>
      rw [ih]
      by_cases here : e = x
      · simp [here, found]
      · simp [here]
    | some link =>
      rw [ih]
      by_cases here : e = x
      · simp [here, found]
      · simp [here, Std.ExtTreeMap.getElem?_insert, Ne.symm here]

end load

section served

variable {net : Network} {order : List Edge} (served : ∀ e ∈ net.busy, e ∈ order)

include served

theorem load_collect_eq_zero : load (collect net.links order).2 = 0 := by
  have empty : ∀ entry ∈ (collect net.links order).2.toList, entry.2.size = 0 := by
    rintro ⟨e, link⟩ listed
    have found := Std.ExtTreeMap.mem_toList_iff_getElem?_eq_some.mp listed
    rw [getElem?_collect] at found
    split at found
    · obtain ⟨_, -, rfl⟩ := Option.map_eq_some_iff.mp found
      rfl
    next skipped =>
      by_contra waiting
      refine skipped (served e (List.mem_map.mpr ⟨(e, link), List.mem_filter.mpr ⟨?_, ?_⟩, rfl⟩))
      · exact Std.ExtTreeMap.mem_toList_iff_getElem?_eq_some.mpr found
      · exact decide_eq_true (Nat.pos_of_ne_zero waiting)
  exact List.sum_eq_zero (List.forall_mem_map.mpr empty)

theorem queue_collect_eq_nil {a b : NodeName} : queue (collect net.links order).2 a b = [] := by
  have quiet : ({ net with links := (collect net.links order).2 } : Network).queued = 0 :=
    load_collect_eq_zero served
  exact queue_of_queued_eq_zero quiet

/-- All that is queued between two nodes is collected. -/
theorem collected_eq_queue {a b : NodeName} (apart : a ≠ b) (joins : ∀ e ∈ net.links, e.Joins) :
    collected (collect net.links order).1 a b = queue net.links a b := by
  have all := collected_collect order apart joins
  rwa [queue_collect_eq_nil served, List.append_nil] at all

/-- A round that serves all links with something queued delivers all that is queued. -/
theorem round_eq_queued [Crypto] : (net.round order).1 = net.queued := by
  obtain ⟨balance, -⟩ := load_collect order net.links
  rw [load_collect_eq_zero served, Nat.add_zero] at balance
  exact balance

end served

variable [Crypto] {net : Network} {topics : Topics} {links : Std.ExtTreeMap Edge Link}

/-- Everything queued is about the topics. -/
def OnTopic (topics : Topics) (links : Std.ExtTreeMap Edge Link) : Prop :=
  ∀ (e : Edge) (link : Link), links[e]? = some link → ∀ item ∈ link.items, topics.Covers item

/-- All that can still be new to any node. -/
def outstanding (net : Network) (topics : Topics) : Nat :=
  (net.nodes.toList.map fun (_, n) => topics.news n).sum

/-- What is queued, and once for every link all that is outstanding. -/
def measure (net : Network) (topics : Topics) : Nat :=
  load net.links + net.links.size * net.outstanding topics

omit [Crypto] in
theorem outstanding_setNode {name : NodeName} {n n' : Node} (found : net.nodes[name]? = some n) :
    (net.setNode n' name).outstanding topics + topics.news n =
      net.outstanding topics + topics.news n' := by
  rw [outstanding, outstanding, setNode, sum_insert, sum_of_getElem? found]
  dsimp only
  omega

theorem OnTopic.emptied (h : OnTopic topics links) (e : Edge) :
    OnTopic topics (links.insert e Link.empty) := by
  intro x link found item mem
  rw [Std.ExtTreeMap.getElem?_insert] at found
  split at found
  · cases found
    cases mem
  · exact h x link found item mem

theorem OnTopic.collect (h : OnTopic topics links) (order : List Edge) :
    OnTopic topics (collect links order).2 ∧
      ∀ p ∈ (Network.collect links order).1, topics.Covers p.item := by
  induction order generalizing links with
  | nil => exact ⟨h, fun p hp => nomatch hp⟩
  | cons e rest ih =>
    unfold Network.collect
    cases found : links[e]? with
    | none => exact ih h
    | some link =>
      obtain ⟨left, handed⟩ := ih (h.emptied e)
      refine ⟨left, ?_⟩
      intro p mem
      rcases List.mem_append.mp mem with here | later
      · exact h e link found p.item (Link.item_mem_of_mem_parcels here)
      · exact handed p later

theorem OnTopic.announce (h : OnTopic topics net.links) {sender : NodeName}
    {skip : Option NodeName} {item : Delivery} (covered : topics.Covers item) :
    OnTopic topics (net.announce sender skip item).links := by
  intro e link found x mem
  rw [links_announce, Std.ExtTreeMap.getElem?_map] at found
  obtain ⟨before, was, rfl⟩ := Option.map_eq_some_iff.mp found
  rcases Link.mem_items_announced mem with old | new
  · exact h e before was x old
  · rw [new]
    exact covered

/-- A delivery takes from what is news as much as it queues. -/
theorem measure_deliver (h : OnTopic topics net.links) {p : Parcel}
    (covered : topics.Covers p.item) :
    OnTopic topics (net.deliver p).links ∧ (net.deliver p).measure topics ≤ net.measure topics := by
  unfold deliver
  cases found : net.nodes[p.receiver]? with
  | none => exact ⟨h, Nat.le_refl _⟩
  | some n =>
    have outcome := Node.receive_news (n := n) covered
    rcases received : n.receive p.item with ⟨accepted, n'⟩
    have balance : (net.setNode n' p.receiver).outstanding topics + topics.news n =
        net.outstanding topics + topics.news n' := outstanding_setNode found
    simp only [received] at outcome ⊢
    rcases outcome with ⟨rfl, rfl⟩ | ⟨rfl, fewer⟩
    · have same : (net.setNode n' p.receiver).outstanding topics = net.outstanding topics :=
        Nat.add_right_cancel balance
      simp only [Bool.false_eq_true, if_false, measure, same]
      exact ⟨h, Nat.le_refl _⟩
    · have less :
          (net.setNode n' p.receiver).outstanding topics + 1 ≤ net.outstanding topics := by
        omega
      have paid := Nat.mul_le_mul_left net.links.size less
      rw [Nat.mul_succ] at paid
      let told := (net.setNode n' p.receiver).announce p.receiver (some p.sender) p.item
      have queued : load told.links ≤ load net.links + net.links.size := load_announce_le
      have size : told.links.size = net.links.size := size_announce
      simp only [if_true]
      refine ⟨OnTopic.announce h covered, ?_⟩
      have news : told.outstanding topics = (net.setNode n' p.receiver).outstanding topics := rfl
      change told.measure topics ≤ net.measure topics
      rw [measure, measure, size, news]
      omega

theorem measure_deliverAll {parcels : List Parcel} (h : OnTopic topics net.links)
    (covered : ∀ p ∈ parcels, topics.Covers p.item) :
    OnTopic topics (parcels.foldl deliver net).links ∧
      (parcels.foldl deliver net).measure topics ≤ net.measure topics := by
  induction parcels generalizing net with
  | nil => exact ⟨h, Nat.le_refl _⟩
  | cons p rest ih =>
    obtain ⟨first, others⟩ := List.forall_mem_cons.mp covered
    obtain ⟨onTopic, less⟩ := measure_deliver h first
    obtain ⟨onTopic', less'⟩ := ih onTopic others
    exact ⟨onTopic', Nat.le_trans less' less⟩

/-- A round takes from the measure as much as it delivers. -/
theorem measure_round (h : OnTopic topics net.links) (order : List Edge) :
    OnTopic topics (net.round order).2.links ∧
      (net.round order).2.measure topics + (net.round order).1 ≤ net.measure topics := by
  obtain ⟨balance, size⟩ := load_collect order net.links
  obtain ⟨left, handed⟩ := h.collect order
  let emptied : Network := { net with links := (collect net.links order).2 }
  obtain ⟨onTopic, less⟩ : OnTopic topics (net.round order).2.links ∧
      (net.round order).2.measure topics ≤ emptied.measure topics := measure_deliverAll left handed
  have moved : emptied.measure topics + (net.round order).1 = net.measure topics := by
    have same : emptied.outstanding topics = net.outstanding topics := rfl
    have fewer : load emptied.links + (net.round order).1 = load net.links :=
      (Nat.add_comm _ _).trans balance
    have size : emptied.links.size = net.links.size := size
    rw [measure, measure, same, size, ← fewer]
    omega
  exact ⟨onTopic, by omega⟩

/-- The topics of what is queued. -/
def queuedTopics (net : Network) : Topics :=
  let items := net.links.toList.flatMap fun (_, link) => link.items
  { ids := items.filterMap fun
      | .block b => some b.id
      | .transaction _ => none
    digests := items.filterMap fun
      | .block _ => none
      | .transaction trx => some trx.digest }

theorem onTopic_queuedTopics (net : Network) : OnTopic net.queuedTopics net.links := by
  intro e link found item mem
  have listed : item ∈ net.links.toList.flatMap fun (_, link) => link.items := by
    apply List.mem_flatMap.mpr
    exact ⟨(e, link), Std.ExtTreeMap.mem_toList_iff_getElem?_eq_some.mpr found, mem⟩
  cases item with
  | block b => exact List.mem_filterMap.mpr ⟨_, listed, rfl⟩
  | transaction trx => exact List.mem_filterMap.mpr ⟨_, listed, rfl⟩

/-- As many rounds as a network is given are more than its measure. -/
theorem measure_lt_enoughRounds (net : Network) :
    net.measure net.queuedTopics < net.enoughRounds := by
  have items : (net.links.toList.flatMap fun (_, link) => link.items).length = net.queued := by
    rw [List.length_flatMap, queued, total_eq_sum]
    simp only [Link.length_items]
  have ids : net.queuedTopics.ids.length ≤ net.queued := items ▸ List.length_filterMap_le _ _
  have digests : net.queuedTopics.digests.length ≤ net.queued :=
    items ▸ List.length_filterMap_le _ _
  have each : ∀ n : Node, net.queuedTopics.news n ≤ net.queued + net.queued * (net.queued + 1) := by
    intro n
    have blocks := Nat.mul_le_mul ids (Nat.add_le_add_right digests 1)
    have all := net.queuedTopics.news_le n
    omega
  have all : net.outstanding net.queuedTopics ≤
      net.nodes.size * (net.queued + net.queued * (net.queued + 1)) := by
    have bounded : ∀ news ∈ net.nodes.toList.map fun (_, n) => net.queuedTopics.news n,
        news ≤ net.queued + net.queued * (net.queued + 1) :=
      List.forall_mem_map.mpr fun entry _ => each entry.2
    have all := List.sum_le_card_nsmul _ _ bounded
    rwa [List.length_map, Std.ExtTreeMap.length_toList, Nat.nsmul_eq_mul] at all
  have links := Nat.mul_le_mul_left net.links.size all
  have waiting : load net.links = net.queued := rfl
  rw [measure, enoughRounds, waiting, Nat.mul_assoc]
  omega

/-- The network after some rounds, each of which serves the links in its own order. -/
def after (net : Network) (orders : Nat → List Edge) : Nat → Network
  | 0 => net
  | k + 1 => ((net.after orders k).round (orders k)).2

/-- As long as every round has delivered something, each has taken from the measure. -/
theorem measure_after (h : OnTopic topics net.links) (orders : Nat → List Edge) {k : Nat}
    (busy : ∀ j < k, ((net.after orders j).round (orders j)).1 ≠ 0) :
    OnTopic topics (net.after orders k).links ∧
      (net.after orders k).measure topics + k ≤ net.measure topics := by
  induction k with
  | zero => exact ⟨h, Nat.le_refl _⟩
  | succ k ih =>
    obtain ⟨onTopic, taken⟩ := ih fun j below => busy j (Nat.lt_succ_of_lt below)
    obtain ⟨onTopic', less⟩ := measure_round onTopic (orders k)
    have delivered := busy k (Nat.lt_succ_self k)
    refine ⟨onTopic', ?_⟩
    rw [after]
    omega

/-- A round that delivers nothing leaves what is queued. -/
theorem queued_round {order : List Edge} (nothing : (net.round order).1 = 0) :
    (net.round order).2.queued = net.queued := by
  obtain ⟨balance, -⟩ := load_collect order net.links
  have none : (collect net.links order).1 = [] := List.eq_nil_of_length_eq_zero nothing
  have delivered : (net.round order).2 =
      (collect net.links order).1.foldl deliver { net with links := (collect net.links order).2 } :=
    rfl
  rw [none, List.length_nil, Nat.zero_add] at balance
  rw [delivered, none]
  exact balance

/-- If a round that serves all that is queued delivers nothing, nothing was queued. -/
theorem queued_eq_zero_of_round {order : List Edge} (nothing : (net.round order).1 = 0)
    (served : ∀ e ∈ net.busy, e ∈ order) : net.queued = 0 :=
  (round_eq_queued served).symm.trans nothing

end Network

theorem shuffleFrom_perm {α : Type} (source : IndexSource) (i count : Nat) (items : Array α) :
    (shuffleFrom source i count items).1.Perm items := by
  induction count generalizing source i items with
  | zero => exact .refl items
  | succ count ih =>
    simp only [shuffleFrom]
    refine (ih _ _ _).trans ?_
    rw [Array.swapIfInBounds_def]
    split
    · split
      · exact Array.swap_perm _ _
      · exact .refl items
    · exact .refl items

/-- Shuffling neither drops nor repeats anything. -/
theorem Generator.shuffle_perm {α : Type} (g : Generator) (items : List α) :
    (g.shuffle items).1.Perm items := by
  unfold shuffle
  split
  · exact .refl items
  · exact (shuffleFrom_perm _ _ _ _).toList

namespace Network

variable [Crypto] {net : Network} {topics : Topics}

theorem measure_step (h : OnTopic topics net.links) :
    OnTopic topics net.step.2.links ∧
      net.step.2.measure topics + net.step.1 ≤ net.measure topics := by
  let drawn : Network := { net with generator := (net.generator.shuffle net.busy).2 }
  have onTopic : OnTopic topics drawn.links := h
  exact measure_round onTopic _

/-- A step serves all links that have something queued. -/
theorem queued_eq_zero_of_step (nothing : net.step.1 = 0) : net.queued = 0 := by
  apply queued_eq_zero_of_round nothing
  intro e busy
  exact (net.generator.shuffle_perm net.busy).mem_iff.mpr busy

theorem queued_step (nothing : net.step.1 = 0) : net.step.2.queued = net.queued :=
  queued_round nothing

/-- With more rounds than the measure allows, settling ends with a round that delivers
nothing, however many rounds more it might have taken. -/
theorem settle_of_measure_lt {fuel more : Nat} (h : OnTopic topics net.links)
    (enough : net.measure topics < fuel) (enough' : net.measure topics < more) :
    (net.settle fuel).2.queued = 0 ∧ net.settle more = net.settle fuel := by
  induction fuel generalizing net more with
  | zero => exact absurd enough (Nat.not_lt_zero _)
  | succ fuel ih =>
    cases more with
    | zero => exact absurd enough' (Nat.not_lt_zero _)
    | succ more =>
      obtain ⟨onTopic, less⟩ := measure_step h
      unfold settle
      by_cases nothing : net.step.1 = 0
      · simp only [nothing, if_true, and_true]
        rw [queued_step nothing]
        exact queued_eq_zero_of_step nothing
      · simp only [nothing, if_false]
        have left : net.step.2.measure topics < fuel := by omega
        have left' : net.step.2.measure topics < more := by omega
        obtain ⟨quiet, same⟩ := ih onTopic left left'
        exact ⟨quiet, by rw [same]⟩

/-- Propagation comes to an end, whatever the state of the network and whatever is queued
in it. In whatever order each round serves the links, among so many rounds there is one that
delivers nothing, and if that one serves all links with something queued, nothing was queued.
A run that goes on until a round delivers nothing is what `propagate` computes, and
leaves nothing queued. -/
theorem propagation_ends (net : Network) :
    (∀ orders : Nat → List Edge, ∃ k < net.enoughRounds,
        ((net.after orders k).round (orders k)).1 = 0 ∧
        ((∀ e ∈ (net.after orders k).busy, e ∈ orders k) → (net.after orders k).queued = 0)) ∧
      (∀ fuel, net.enoughRounds ≤ fuel → net.settle fuel = net.propagate) ∧
      net.propagate.2.queued = 0 := by
  have onTopic := onTopic_queuedTopics net
  have bound := measure_lt_enoughRounds net
  refine ⟨?_, ?_, (settle_of_measure_lt onTopic bound bound).1⟩
  · intro orders
    by_contra never
    have busy : ∀ k < net.enoughRounds, ((net.after orders k).round (orders k)).1 ≠ 0 := by
      intro k below nothing
      exact never ⟨k, below, nothing, queued_eq_zero_of_round nothing⟩
    obtain ⟨-, taken⟩ := measure_after onTopic orders busy
    omega
  · intro fuel enough
    exact (settle_of_measure_lt onTopic bound (Nat.lt_of_lt_of_le bound enough)).2

end Network

namespace Network

section sample

attribute [local instance] checksum

/-- Three nodes in a cycle, one of which has made a block of a transaction. Every link also
carries a block twice that nobody can attach. -/
def sampleCycle : Network :=
  let net := (make Watched.sampleNetwork 7).performAll
    [.addNode "a", .addNode "b", .addNode "c", .connect "a" "b", .connect "b" "c",
      .connect "c" "a", .pushTransaction "a" Node.sampleLate, .produceBlock "a"]
  let orphan := (Node.make "d" "lab" sampleConfig).produceBlock.2.produceBlock.1
  { net with
    links := net.links.map fun e link =>
      link.enqueue e e.lo [.block orphan, .block orphan] }

theorem propagation_ends_sample :
    let order := sampleCycle.busy.reverse
    sampleCycle.queued = 10 ∧ sampleCycle.propagate.1 = 14 ∧
      (∃ k < sampleCycle.enoughRounds,
        ((sampleCycle.after (fun _ => order) k).round order).1 = 0) ∧
      sampleCycle.settle (2 * sampleCycle.enoughRounds) = sampleCycle.propagate ∧
      sampleCycle.propagate.2.queued = 0 := by
  intro order
  have facts : sampleCycle.queued = 10 ∧ sampleCycle.propagate.1 = 14 := by decide +kernel
  obtain ⟨waiting, delivered⟩ := facts
  obtain ⟨ends, settles, quiet⟩ := propagation_ends sampleCycle
  obtain ⟨k, below, nothing, -⟩ := ends fun _ => order
  refine ⟨waiting, delivered, ⟨k, below, nothing⟩, settles _ ?_, quiet⟩
  omega

end sample

end Network

end ChainLab
