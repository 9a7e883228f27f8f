import ChainLab.Proofs.OperationEvents
import ChainLab.Proofs.Pipeline

/-!
# Convergence of linked nodes

At every moment of a run each link is feeding its two ends. When nothing is on its way
any more, linked nodes are equally high, unless one of them is stranded: the other one's
chain goes through a block that was held back when the link was made.
-/

namespace ChainLab

open Network Node

/-- A block is made before the last moment there is, with a number that has not come
round to zero. -/
def Block.Regular (b : Block) : Prop :=
  b.header.time.ticks.toNat < UInt64.size - 1 ∧ b.num ≠ 0

section production

variable [Crypto] {n : Node}

theorem headNum_lt_of_regular (regular : n.produceBlock.1.Regular) :
    n.headNum < n.produceBlock.1.num := by
  have num : n.produceBlock.1.num.toNat = (n.headNum.toNat + 1) % 4294967296 := UInt32.toNat_add _ _
  have positive : n.produceBlock.1.num.toNat ≠ 0 := fun zero => regular.2 (UInt32.toNat.inj zero)
  have small := n.headNum.toNat_lt
  rw [UInt32.lt_iff_toNat_lt]
  omega

theorem headTime_lt_of_regular (ticks : 0 < n.rules.config.blockInterval)
    (regular : n.produceBlock.1.Regular) : n.headTime < n.produceBlock.1.header.time :=
  Time.lt_after ticks regular.1

end production

namespace Watched

section

variable [Crypto]

/-- What holds of a network while parcels are being delivered. -/
structure Tidy (rules : Rules) (strings : List (List UInt8)) (w : Watched)
    (parcels : List Parcel) : Prop where
  rules_eq : rules = ⟨Crypto.hash w.net.chainName.toUTF8.toList, w.net.config⟩
  honest : ∀ (name : NodeName) (n : Node), w.net.nodes[name]? = some n → n.Honest rules strings
  joins : ∀ e ∈ w.net.links, e.Joins
  present : ∀ e ∈ w.net.links, e.lo ∈ w.net.nodes ∧ e.hi ∈ w.net.nodes
  carried : ∀ p ∈ parcels, p.sender ≠ p.receiver ∧ Edge.between p.sender p.receiver ∈ w.net.links
  feeds : ∀ (a b : NodeName) (na nb : Node), a ≠ b → Edge.between a b ∈ w.net.links →
    w.net.nodes[a]? = some na → w.net.nodes[b]? = some nb →
    Feeds rules strings (w.held a b) na nb (collected parcels a b ++ queue w.net.links a b)

variable {rules : Rules} {strings : List (List UInt8)} {w : Watched} {net : Network}
  {held : NodeName → NodeName → List BlockId} {parcels : List Parcel} {name : NodeName}
  {n n' : Node}

omit [Crypto] in
theorem getElem?_setNode {x : NodeName} :
    (net.setNode n name).nodes[x]? = if name = x then some n else net.nodes[x]? := by
  simp [setNode, Std.ExtTreeMap.getElem?_insert]

omit [Crypto] in
theorem mem_nodes_of_getElem? {x : NodeName} (found : net.nodes[x]? = some n) : x ∈ net.nodes :=
  mem_iff_exists_getElem?.mpr ⟨n, found⟩

omit [Crypto] in
theorem mem_setNode {x : NodeName} (found : net.nodes[name]? = some n) :
    x ∈ (net.setNode n' name).nodes ↔ x ∈ net.nodes := by
  simp only [setNode, Std.ExtTreeMap.mem_insert, Std.compare_eq_iff_eq]
  refine or_iff_right_of_imp fun same => ?_
  exact same ▸ mem_nodes_of_getElem? found

omit [Crypto] in
/-- The ends of a linked pair are nodes. -/
theorem exists_nodes_of_linked (present : ∀ e ∈ net.links, e.lo ∈ net.nodes ∧ e.hi ∈ net.nodes)
    {a b : NodeName} (linked : Edge.between a b ∈ net.links) :
    (∃ na, net.nodes[a]? = some na) ∧ ∃ nb, net.nodes[b]? = some nb := by
  have ends := present _ linked
  simp only [mem_iff_exists_getElem?] at ends
  unfold Edge.between at ends
  split at ends
  · exact ends.symm
  · exact ends

namespace Tidy

theorem exists_node (h : Tidy rules strings w parcels) {a b : NodeName}
    (linked : Edge.between a b ∈ w.net.links) :
    (∃ na, w.net.nodes[a]? = some na) ∧ ∃ nb, w.net.nodes[b]? = some nb :=
  exists_nodes_of_linked h.present linked

theorem honest_setNode (h : Tidy rules strings ⟨net, held⟩ parcels)
    (honest : n'.Honest rules strings) {x : NodeName} {nx : Node}
    (found : (net.setNode n' name).nodes[x]? = some nx) : nx.Honest rules strings := by
  rw [getElem?_setNode] at found
  split at found
  · cases found
    exact honest
  · exact h.honest x nx found

omit [Crypto] in
theorem carried_nil {links : Std.ExtTreeMap Edge Link} :
    ∀ p ∈ ([] : List Parcel), p.sender ≠ p.receiver ∧ Edge.between p.sender p.receiver ∈ links :=
  fun _ hp => nomatch hp

/-- A node may be replaced by one that stores the same. -/
theorem setNode (h : Tidy rules strings ⟨net, held⟩ parcels) (found : net.nodes[name]? = some n)
    (honest : n'.Honest rules strings) (more : Within n n') (less : Within n' n) :
    Tidy rules strings ⟨net.setNode n' name, held⟩ parcels where
  rules_eq := h.rules_eq
  honest _ _ found := h.honest_setNode honest found
  joins := h.joins
  present e he := by
    simp only [mem_setNode found]
    exact h.present e he
  carried := h.carried
  feeds a b na nb apart linked ha hb := by
    have before : ∀ {x : NodeName} {nx : Node}, (net.setNode n' name).nodes[x]? = some nx →
        ∃ old : Node, net.nodes[x]? = some old ∧ Within old nx ∧ Within nx old := by
      intro x nx hx
      rw [getElem?_setNode] at hx
      split at hx
      next same =>
        cases hx
        exact ⟨n, same ▸ found, more, less⟩
      · exact ⟨nx, hx, .refl, .refl⟩
    obtain ⟨oldA, hoa, moreA, lessA⟩ := before ha
    obtain ⟨oldB, hob, moreB, -⟩ := before hb
    exact (h.feeds a b oldA oldB apart linked hoa hob).grow moreA moreB
      fun id known => .inl (lessA.knowsBlock known)

theorem announceTransaction (h : Tidy rules strings ⟨net, held⟩ parcels) (s : NodeName)
    (skip : Option NodeName) (trx : SignedTransaction) :
    Tidy rules strings ⟨net.announce s skip (.transaction trx), held⟩ parcels where
  rules_eq := h.rules_eq
  honest := h.honest
  joins e he := h.joins e (mem_links_announce.mp he)
  present e he := h.present e (mem_links_announce.mp he)
  carried p hp := (h.carried p hp).imp_right mem_links_announce.mpr
  feeds a b na nb apart linked ha hb := by
    have linked := mem_links_announce.mp linked
    have feeds := h.feeds a b na nb apart linked ha hb
    rw [queue_announce apart linked]
    split
    · rw [← List.append_assoc]
      exact feeds.announce_transaction trx
    · exact feeds

/-- A node learns a block and announces it to all its peers but one that has it. -/
theorem learn (h : Tidy rules strings ⟨net, held⟩ parcels) (found : net.nodes[name]? = some n)
    {b : Block} (learned : Learned n b n') (honest : n'.Honest rules strings)
    (genuine : b.Honest rules strings) (skip : Option NodeName)
    (skipped : ∀ peer np, skip = some peer → net.nodes[peer]? = some np →
      np.knowsBlock b.id = true) :
    Tidy rules strings ⟨(net.setNode n' name).announce name skip (.block b), held⟩ parcels where
  rules_eq := h.rules_eq
  honest _ _ found := h.honest_setNode honest found
  joins e he := h.joins e (mem_links_announce.mp he)
  present e he := by
    simp only [nodes_announce, mem_setNode found]
    exact h.present e (mem_links_announce.mp he)
  carried p hp := (h.carried p hp).imp_right mem_links_announce.mpr
  feeds x y nx ny apart linked hx hy := by
    have linked := mem_links_announce.mp linked
    simp only [nodes_announce, getElem?_setNode] at hx hy
    rw [queue_announce apart linked]
    by_cases source : name = x
    · subst source
      rw [if_pos rfl] at hx
      rw [if_neg apart] at hy
      cases hx
      have feeds := h.feeds name y n ny apart linked found hy
      by_cases told : some y = skip
      · rw [if_neg fun both => both.2 told]
        refine feeds.grow learned.within .refl fun id known => ?_
        refine (learned.knowsBlock_iff.mp known).imp_right ?_
        rintro rfl
        exact skipped y ny told.symm hy
      · rw [if_pos ⟨rfl, told⟩, ← List.append_assoc]
        exact feeds.announce learned genuine
    · rw [if_neg source] at hx
      rw [if_neg fun both => source both.1]
      by_cases target : name = y
      · subst target
        rw [if_pos rfl] at hy
        cases hy
        exact (h.feeds x name nx n apart linked hx found).grow .refl learned.within fun _ => .inl
      · rw [if_neg target] at hy
        exact h.feeds x y nx ny apart linked hx hy

/-- A parcel whose block is settled at its receiver may be forgotten. -/
theorem pop {p : Parcel} (h : Tidy rules strings w (p :: parcels))
    (settled : ∀ b source target, p.item = .block b → w.net.nodes[p.sender]? = some source →
      w.net.nodes[p.receiver]? = some target →
      Settled source target (w.held p.sender p.receiver) b.id) :
    Tidy rules strings w parcels where
  rules_eq := h.rules_eq
  honest := h.honest
  joins := h.joins
  present := h.present
  carried q hq := h.carried q (List.mem_cons_of_mem p hq)
  feeds a b na nb apart linked ha hb := by
    have feeds := h.feeds a b na nb apart linked ha hb
    by_cases here : p.sender = a ∧ p.receiver = b
    · obtain ⟨rfl, rfl⟩ := here
      rw [collected_cons_self, List.cons_append] at feeds
      cases item : p.item with
      | block c => exact (item ▸ feeds).arrived (settled c na nb item ha hb)
      | transaction trx => exact (item ▸ feeds).arrived_transaction
    · have other : collected (p :: parcels) a b = collected parcels a b := by
        simp [collected, here]
      rwa [other] at feeds

/-- A parcel with a transaction is delivered. No store changes. -/
theorem deliverTransaction {p : Parcel} {trx : SignedTransaction}
    (h : Tidy rules strings ⟨net, held⟩ (p :: parcels)) (item : p.item = .transaction trx) :
    Tidy rules strings ⟨net.deliver p, held⟩ parcels := by
  obtain ⟨apart, linked⟩ := h.carried p List.mem_cons_self
  obtain ⟨-, target, htarget⟩ := h.exists_node linked
  have targetHonest := h.honest _ target htarget
  have replaced : Tidy rules strings
      ⟨net.setNode (target.receive (.transaction trx)).2 p.receiver, held⟩ (p :: parcels) := by
    rcases target.receive_transaction trx with same | pushed
    · rw [same]
      exact h.setNode htarget targetHonest .refl .refl
    · obtain ⟨more, less⟩ := target.within_pushTransaction trx
      rw [pushed]
      exact h.setNode htarget (targetHonest.pushTransaction trx) more less
  have unspoken : ∀ {b}, p.item ≠ .block b := by simp [item]
  simp only [Network.deliver, item, htarget]
  split
  · exact (replaced.announceTransaction _ _ trx).pop fun b _ _ same => absurd same unspoken
  · exact replaced.pop fun b _ _ same => absurd same unspoken

variable (clean : NoCollision strings) (origin : rules.genesisString ∈ strings)

include clean origin

/-- A parcel with a block is delivered. If the receiver passes it over it knew it already, or the
block is an orphan there; else it learns the block, and knows it from then on. -/
theorem deliverBlock {p : Parcel} {b : Block} (h : Tidy rules strings ⟨net, held⟩ (p :: parcels))
    (item : p.item = .block b) : Tidy rules strings ⟨net.deliver p, held⟩ parcels := by
  obtain ⟨apart, linked⟩ := h.carried p List.mem_cons_self
  obtain ⟨⟨source, hsource⟩, target, htarget⟩ := h.exists_node linked
  have feeds := h.feeds _ _ source target apart linked hsource htarget
  have targetHonest := h.honest _ target htarget
  rw [collected_cons_self, List.cons_append, item] at feeds
  have genuine := feeds.honest b List.mem_cons_self
  have same : ∀ {c}, p.item = .block c → b = c := by simp [item]
  simp only [Network.deliver, item, htarget]
  rcases targetHonest.receive clean origin genuine with
    ⟨passed, reason⟩ | ⟨n', taken, honest, learned⟩
  · rw [passed]
    refine (h.setNode htarget targetHonest .refl .refl).pop fun c s t spelled hs ht => ?_
    rw [getElem?_setNode] at hs ht
    rw [if_neg apart.symm] at hs
    rw [if_pos rfl] at ht
    cases hsource.symm.trans hs
    cases ht
    cases same spelled
    rcases reason with known | orphan
    · exact .inl known
    · exact feeds.settled_of_orphan clean origin (h.honest _ source hsource).toStocked orphan
  · rw [taken]
    have told : ∀ (peer : NodeName) (np : Node), some p.sender = some peer →
        net.nodes[peer]? = some np → np.knowsBlock b.id = true := by
      rintro peer np skipped hnp
      cases skipped
      cases hsource.symm.trans hnp
      exact feeds.known b List.mem_cons_self
    have tidy := h.learn htarget learned honest genuine (some p.sender) told
    refine tidy.pop fun c s t spelled _ ht => ?_
    rw [nodes_announce, getElem?_setNode, if_pos rfl] at ht
    cases ht
    cases same spelled
    exact .inl (learned.knowsBlock_iff.mpr (.inr rfl))

/-- One parcel is delivered. -/
theorem deliver {p : Parcel} (h : Tidy rules strings ⟨net, held⟩ (p :: parcels)) :
    Tidy rules strings ⟨net.deliver p, held⟩ parcels := by
  cases item : p.item with
  | transaction trx => exact h.deliverTransaction item
  | block b => exact h.deliverBlock clean origin item

theorem deliverAll (h : Tidy rules strings ⟨net, held⟩ parcels) :
    Tidy rules strings ⟨parcels.foldl Network.deliver net, held⟩ [] := by
  induction parcels generalizing net with
  | nil => exact h
  | cons p rest ih => exact ih (h.deliver clean origin)

omit clean origin in
/-- What is taken off the links is on its way in front of what stays there. -/
theorem collect (h : Tidy rules strings ⟨net, held⟩ []) (order : List Edge) :
    Tidy rules strings ⟨{ net with links := (Network.collect net.links order).2 }, held⟩
      (Network.collect net.links order).1 where
  rules_eq := h.rules_eq
  honest := h.honest
  joins e he := h.joins e (mem_collect.mp he)
  present e he := h.present e (mem_collect.mp he)
  carried p hp := (linked_of_mem_collect h.joins hp).imp_right mem_collect.mpr
  feeds a b na nb apart linked ha hb := by
    rw [collected_collect order apart h.joins]
    exact h.feeds a b na nb apart (mem_collect.mp linked) ha hb

/-- A round in any order, of any links. -/
theorem round (h : Tidy rules strings ⟨net, held⟩ []) (order : List Edge) :
    Tidy rules strings ⟨(net.round order).2, held⟩ [] :=
  (h.collect order).deliverAll clean origin

omit clean origin in
theorem addNode (h : Tidy rules strings ⟨net, held⟩ []) (name : NodeName) :
    Tidy rules strings ⟨(net.addNode name).2, held⟩ [] := by
  unfold Network.addNode addNodeOn
  split
  · exact h
  next fresh =>
    have other : ∀ {x}, x ∈ net.nodes → name ≠ x := fun hx same => fresh (same ▸ hx)
    have made : (Node.make name net.chainName net.config).Honest rules strings :=
      h.rules_eq ▸ .make name net.chainName net.config
    refine ⟨h.rules_eq, fun _ _ found => h.honest_setNode made found, h.joins, fun e he => ?_,
      h.carried, ?_⟩
    · exact (h.present e he).imp (Std.ExtTreeMap.mem_insert.mpr <| .inr ·)
        (Std.ExtTreeMap.mem_insert.mpr <| .inr ·)
    · intro a b na nb apart linked ha hb
      obtain ⟨⟨oldA, hoa⟩, oldB, hob⟩ := h.exists_node linked
      rw [getElem?_setNode, if_neg (other (mem_nodes_of_getElem? hoa))] at ha
      rw [getElem?_setNode, if_neg (other (mem_nodes_of_getElem? hob))] at hb
      exact h.feeds a b na nb apart linked ha hb

theorem produce (h : Tidy rules strings ⟨net, held⟩ []) (name : NodeName)
    (hashed : ∀ b ∈ net.made [.produce name], b.hashed ⊆ strings)
    (interval : 0 < rules.config.blockInterval)
    (regular : ∀ b ∈ net.made [.produce name], b.Regular) :
    Tidy rules strings ⟨net.play (.produce name), held⟩ [] := by
  cases found : net.nodes[name]? with
  | none =>
    simp only [Network.play, found]
    exact h
  | some n =>
    have made : net.made [.produce name] = [n.produceBlock.1] := by simp [Network.made, found]
    simp only [made, List.forall_mem_singleton] at hashed regular
    have honest := h.honest name n found
    have ticks : 0 < n.rules.config.blockInterval := honest.rules_eq ▸ interval
    obtain ⟨honest', genuine, learned⟩ := honest.produceBlock clean origin hashed
      (headNum_lt_of_regular regular) (headTime_lt_of_regular ticks regular)
    simp only [Network.play, found]
    refine h.learn found learned honest' genuine none fun _ _ skipped => ?_
    cases skipped

omit clean origin in
theorem push (h : Tidy rules strings ⟨net, held⟩ []) (name : NodeName) (trx : SignedTransaction) :
    Tidy rules strings ⟨net.play (.push name trx), held⟩ [] := by
  cases found : net.nodes[name]? with
  | none =>
    simp only [Network.play, found]
    exact h
  | some n =>
    obtain ⟨more, less⟩ := n.within_pushTransaction trx
    have replaced := h.setNode found ((h.honest name n found).pushTransaction trx) more less
    simp only [Network.play, found]
    rcases hp : n.pushTransaction trx with ⟨_ | _, n'⟩ <;> rw [hp] at replaced
    · exact replaced
    · exact replaced.announceTransaction name none trx

omit clean origin in
theorem unlink (h : Tidy rules strings ⟨net, held⟩ []) (dropped : Edge → Bool) :
    Tidy rules strings ⟨net.play (.unlink dropped), held⟩ [] := by
  have lookup : ∀ {e : Edge}, (net.play (.unlink dropped)).links[e]? =
      if !dropped e then net.links[e]? else none := getElem?_filter_edges
  have kept : ∀ {e}, e ∈ (net.play (.unlink dropped)).links →
      e ∈ net.links ∧ dropped e = false := by
    intro e he
    rw [Std.ExtTreeMap.mem_iff_isSome_getElem?, lookup] at he
    cases hd : dropped e with
    | true => simp [hd] at he
    | false => exact ⟨Std.ExtTreeMap.mem_iff_isSome_getElem?.mpr (by simpa [hd] using he), rfl⟩
  refine ⟨h.rules_eq, h.honest, fun e he => h.joins e (kept he).1,
    fun e he => h.present e (kept he).1, carried_nil, ?_⟩
  intro a b na nb apart linked ha hb
  have same : queue (net.play (.unlink dropped)).links a b = queue net.links a b := by
    rw [queue, lookup, (kept linked).2]
    rfl
  rw [same]
  exact h.feeds a b na nb apart (kept linked).1 ha hb

theorem link (h : Tidy rules strings w []) (a b : NodeName) :
    Tidy rules strings (w.play (.link a b)) [] := by
  cases able : w.net.linkable? a b with
  | none =>
    simp only [Watched.play, Network.play, able]
    exact h
  | some pair =>
    obtain ⟨na, nb⟩ := pair
    obtain ⟨ha, hb, apart, -⟩ := linkable_eq_some.mp able
    simp only [Watched.play, Network.play, able]
    have entered : ∀ {link e}, e ∈ w.net.links.insert (Edge.between a b) link ↔
        Edge.between a b = e ∨ e ∈ w.net.links := by
      simp [Std.ExtTreeMap.mem_insert]
    refine ⟨h.rules_eq, h.honest, fun e he => ?_, fun e he => ?_, carried_nil, ?_⟩
    · rcases entered.mp he with rfl | old
      · exact Edge.joins_between apart
      · exact h.joins e old
    · rcases entered.mp he with rfl | old
      · unfold Edge.between
        split
        · exact ⟨mem_nodes_of_getElem? hb, mem_nodes_of_getElem? ha⟩
        · exact ⟨mem_nodes_of_getElem? ha, mem_nodes_of_getElem? hb⟩
      · exact h.present e old
    · intro x y nx ny apart' linked hx hy
      have fed := queue_insert w.net.links apart (na.missingFor nb) (nb.missingFor na)
      have honestA := h.honest a na ha
      have honestB := h.honest b nb hb
      dsimp only at fed linked hx hy ⊢
      by_cases new : Edge.between x y = Edge.between a b
      · rcases Edge.between_eq_iff.mp new with ⟨rfl, rfl⟩ | ⟨rfl, rfl⟩
        · cases ha.symm.trans hx
          cases hb.symm.trans hy
          rw [if_pos ⟨rfl, rfl⟩, fed.1]
          exact .ofLink clean origin honestA honestB.toStocked
        · cases ha.symm.trans hy
          cases hb.symm.trans hx
          rw [if_neg fun both => apart both.2, if_pos ⟨rfl, rfl⟩, fed.2]
          exact .ofLink clean origin honestB honestA.toStocked
      · have others := mt Edge.between_eq_iff.mpr new
        rw [if_neg fun both => others (.inl both), if_neg fun both => others (.inr both),
          queue_insert_of_ne (Ne.symm new)]
        have old := (entered.mp linked).resolve_left (Ne.symm new)
        exact h.feeds x y nx ny apart' old hx hy

/-- One event keeps everything in order. -/
theorem play (h : Tidy rules strings w []) (event : Event)
    (interval : 0 < rules.config.blockInterval)
    (hashed : ∀ b ∈ w.net.made [event], b.hashed ⊆ strings)
    (regular : ∀ b ∈ w.net.made [event], b.Regular) : Tidy rules strings (w.play event) [] := by
  cases event with
  | addNode name => exact h.addNode name
  | link a b => exact h.link clean origin a b
  | unlink dropped => exact h.unlink dropped
  | serve order => exact h.round clean origin order
  | push name trx => exact h.push name trx
  | produce name => exact h.produce clean origin name hashed interval regular
  | arrange generator autoPropagate groups =>
    exact ⟨h.rules_eq, h.honest, h.joins, h.present, carried_nil, h.feeds⟩

theorem playAll (h : Tidy rules strings w []) (events : List Event)
    (interval : 0 < rules.config.blockInterval)
    (hashed : ∀ b ∈ w.net.made events, b.hashed ⊆ strings)
    (regular : ∀ b ∈ w.net.made events, b.Regular) : Tidy rules strings (w.playAll events) [] := by
  induction events generalizing w with
  | nil => exact h
  | cons event rest ih =>
    have split : w.net.made (event :: rest) =
        w.net.made [event] ++ (w.play event).net.made rest := by
      simp [made, Watched.play]
    rw [split] at hashed regular
    refine ih ?_ (fun b hb => hashed b (List.mem_append_right _ hb))
      fun b hb => regular b (List.mem_append_right _ hb)
    exact h.play clean origin event interval (fun b hb => hashed b (List.mem_append_left _ hb))
      fun b hb => regular b (List.mem_append_left _ hb)

end Tidy

/-- A network before anything happened to it. -/
def start (config : ScenarioConfig) (seed : BitVec 128) : Watched where
  net := Network.make config seed
  held _ _ := []

/-- What all nodes of a network are told to play by. -/
def rulesOf (config : ScenarioConfig) : Rules :=
  ⟨Crypto.hash config.chainName.toUTF8.toList, config.chain⟩

/-- The strings that are hashed to identify the blocks of a run. -/
def hashedIn (config : ScenarioConfig) (seed : BitVec 128) (events : List Event) :
    List (List UInt8) :=
  (rulesOf config).genesisString ::
    ((Network.make config seed).made events).flatMap (·.hashed)

/-- The first of two linked nodes is on a chain that goes through a block it held back
when the link was made, and its head is news to the second. -/
def Stranded (held : List BlockId) (source target : Node) : Prop :=
  target.knowsBlock source.headId = false ∧ ∃ x ∈ source.headState.chain, x ∈ held

theorem tidy_start (config : ScenarioConfig) (seed : BitVec 128) :
    Tidy (rulesOf config) strings (start config seed) [] where
  rules_eq := rfl
  honest name n hn := by simp [start, Network.make] at hn
  joins e he := by simp [start, Network.make] at he
  present e he := by simp [start, Network.make] at he
  carried := Tidy.carried_nil
  feeds a b na nb _ linked := by simp [start, Network.make] at linked

/-- Every run in which blocks are made in time keeps everything in order. -/
theorem tidy_playAll {config : ScenarioConfig} {seed : BitVec 128} {events : List Event}
    (interval : 0 < config.chain.blockInterval)
    (regular : ∀ b ∈ (Network.make config seed).made events, b.Regular)
    (clean : NoCollision (hashedIn config seed events)) :
    Tidy (rulesOf config) (hashedIn config seed events)
      ((start config seed).playAll events) [] := by
  refine (tidy_start config seed).playAll clean List.mem_cons_self events interval (fun b hb => ?_)
    regular
  exact fun s hs => List.mem_cons_of_mem _ (List.mem_flatMap.mpr ⟨b, hb, hs⟩)

/-- When nothing is queued, a node is as high as each of its peers that it did not strand. -/
theorem Tidy.headNum_le (h : Tidy rules strings w []) (clean : NoCollision strings)
    (origin : rules.genesisString ∈ strings) (quiet : w.net.queued = 0) {a b : NodeName}
    {na nb : Node} (linked : Edge.between a b ∈ w.net.links) (apart : a ≠ b)
    (ha : w.net.nodes[a]? = some na) (hb : w.net.nodes[b]? = some nb) :
    na.headNum ≤ nb.headNum ∨ Stranded (w.held a b) na nb := by
  have feeds := h.feeds a b na nb apart linked ha hb
  rw [queue_of_queued_eq_zero quiet] at feeds
  exact feeds.converged clean origin (h.honest a na ha) (h.honest b nb hb)

/-- Whatever is asked of a network comes down to events, and after any events at all,
links served in any order: when nothing is queued, linked nodes are equally high, unless
one is stranded on blocks that the other held back when the link was made. -/
theorem headNum_eq_of_quiet (config : ScenarioConfig) (seed : BitVec 128) :
    (∀ operations, (Network.make config seed).performAll operations =
        ((start config seed).playAll ((Network.make config seed).trace operations)).net) ∧
      ∀ events, 0 < config.chain.blockInterval →
        (∀ b ∈ (Network.make config seed).made events, b.Regular) →
        NoCollision (hashedIn config seed events) →
        let w := (start config seed).playAll events
        w.net.queued = 0 → ∀ a b na nb, w.net.isConnected a b = true →
          w.net.nodes[a]? = some na → w.net.nodes[b]? = some nb →
          ¬Stranded (w.held a b) na nb → ¬Stranded (w.held b a) nb na →
          na.headNum = nb.headNum := by
  refine ⟨fun operations => ((net_playAll (w := start config seed)).trans playAll_trace).symm, ?_⟩
  intro events interval regular clean w quiet a b na nb linked ha hb up down
  have origin : (rulesOf config).genesisString ∈ hashedIn config seed events := List.mem_cons_self
  have tidy : Tidy (rulesOf config) (hashedIn config seed events) w [] := by
    refine (tidy_start config seed).playAll clean origin events interval (fun b hb => ?_) regular
    exact fun s hs => List.mem_cons_of_mem _ (List.mem_flatMap.mpr ⟨b, hb, hs⟩)
  have linked : Edge.between a b ∈ w.net.links := linked
  by_cases apart : a = b
  · subst apart
    cases ha.symm.trans hb
    rfl
  · refine UInt32.le_antisymm ?_ ?_
    · exact (tidy.headNum_le clean origin quiet linked apart ha hb).resolve_right up
    · rw [Edge.between_comm apart] at linked
      exact (tidy.headNum_le clean origin quiet linked (Ne.symm apart) hb ha).resolve_right down

end

section sample

attribute [local instance] checksum

def sampleNetwork : ScenarioConfig where
  seed := none
  autoPropagate := false
  chainName := "lab"
  defaultDeposit := ⟨100⟩
  chain := sampleConfig

/-- Two nodes fork at the same height, each keeping the other's block off its chain, and
a third one is linked to the first. -/
def sampleFork : List Operation :=
  [.addNode "a", .addNode "b", .addNode "c", .connect "a" "c", .produceBlock "a", .produceBlock "c",
   .step, .connect "a" "b"]

/-- If the fork is decided for the first node's side, all three agree again. -/
theorem headNum_eq_of_quiet_sample :
    let operations := sampleFork ++ [.produceBlock "a", .propagate]
    let w := (start sampleNetwork 7).playAll ((make sampleNetwork 7).trace operations)
    w.held "a" "b" ≠ [] ∧
      ∃ na nb, w.net.nodes["a"]? = some na ∧ w.net.nodes["b"]? = some nb ∧
        na.headNum = nb.headNum := by
  intro operations w
  have facts :
      let events := (make sampleNetwork 7).trace operations
      let distinct := (hashedIn sampleNetwork 7 events).eraseDups
      (∀ b ∈ (make sampleNetwork 7).made events,
          b.header.time.ticks.toNat < UInt64.size - 1 ∧ b.num ≠ 0) ∧
        (∀ s ∈ distinct, s.length < UInt64.size) ∧ (distinct.map Crypto.hash).Nodup ∧
        w.net.queued = 0 ∧ w.net.isConnected "a" "b" = true ∧ w.held "a" "b" ≠ [] ∧
        ((w.net.nodes["a"]?).bind fun na => (w.net.nodes["b"]?).map fun nb =>
          nb.knowsBlock na.headId && na.knowsBlock nb.headId) = some true := by
    decide +kernel
  obtain ⟨regular, short, apart, quiet, linked, held, known⟩ := facts
  obtain ⟨na, ha, known⟩ := Option.bind_eq_some_iff.mp known
  obtain ⟨nb, hb, known⟩ := Option.map_eq_some_iff.mp known
  obtain ⟨up, down⟩ := Bool.and_eq_true_iff.mp known
  refine ⟨held, na, nb, ha, hb, ?_⟩
  exact (headNum_eq_of_quiet sampleNetwork 7).2 _ (by decide) regular
    (noCollision_of_nodup short apart fun _ => List.mem_eraseDups.mpr) quiet "a" "b" na nb linked
    ha hb (fun stranded => Bool.noConfusion (stranded.1.symm.trans up))
    (fun stranded => Bool.noConfusion (stranded.1.symm.trans down))

/-- If the fork is decided against the first node's side, the third one never hears of the
block that the first had kept off its chain, and cannot take what is built on it. -/
theorem headNum_ne_of_stranded :
    let operations := sampleFork ++ [.produceBlock "c", .step, .propagate]
    let net := (make sampleNetwork 7).performAll operations
    let events := (make sampleNetwork 7).trace operations
    0 < sampleNetwork.chain.blockInterval ∧
      (∀ b ∈ (make sampleNetwork 7).made events, b.Regular) ∧
      NoCollision (hashedIn sampleNetwork 7 events) ∧
      net.queued = 0 ∧ net.isConnected "a" "b" = true ∧
      (net.nodes["a"]?).map (·.headNum) = some 2 ∧ (net.nodes["b"]?).map (·.headNum) = some 1 := by
  have facts :
      let operations := sampleFork ++ [.produceBlock "c", .step, .propagate]
      let net := (make sampleNetwork 7).performAll operations
      let events := (make sampleNetwork 7).trace operations
      let distinct := (hashedIn sampleNetwork 7 events).eraseDups
      (∀ b ∈ (make sampleNetwork 7).made events,
          b.header.time.ticks.toNat < UInt64.size - 1 ∧ b.num ≠ 0) ∧
        (∀ s ∈ distinct, s.length < UInt64.size) ∧ (distinct.map Crypto.hash).Nodup ∧
        net.queued = 0 ∧ net.isConnected "a" "b" = true ∧
        (net.nodes["a"]?).map (·.headNum) = some 2 ∧
        (net.nodes["b"]?).map (·.headNum) = some 1 := by
    decide +kernel
  obtain ⟨regular, short, apart, rest⟩ := facts
  refine ⟨by decide, regular, noCollision_of_nodup short apart ?_, rest⟩
  exact fun _ => List.mem_eraseDups.mpr

end sample

end Watched

end ChainLab
