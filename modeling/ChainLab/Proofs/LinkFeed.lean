import ChainLab.Proofs.HonestNode

/-!
# What a link still has to say

A link is fed by one end and read by the other. Of the blocks its source knows, those
its target does not know yet are on their way, parents first, except for what rests on
blocks that were held back when the link was made.
-/

namespace ChainLab

/-- Blocks come after their parents, unless the parent needs no waiting for. -/
def Sorted (settled : BlockId → Prop) : List Delivery → Prop
  | [] => True
  | .block b :: rest => settled b.previous ∧ Sorted (fun id => settled id ∨ id = b.id) rest
  | .transaction _ :: rest => Sorted settled rest

/-- An identifier is settled or that of a listed block. -/
def Promised (settled : BlockId → Prop) (items : List Delivery) (id : BlockId) : Prop :=
  settled id ∨ ∃ b, .block b ∈ items ∧ b.id = id

variable {settled wider : BlockId → Prop} {items : List Delivery} {b : Block} {id : BlockId}

theorem Sorted.mono (h : Sorted settled items) (sub : ∀ id, settled id → wider id) :
    Sorted wider items := by
  induction items generalizing settled wider with
  | nil => trivial
  | cons item rest ih =>
    cases item with
    | block b => exact ⟨sub _ h.1, ih h.2 fun id => Or.imp_left (sub id)⟩
    | transaction trx => exact ih h sub

theorem Sorted.append_block (h : Sorted settled items)
    (parent : Promised settled items b.previous) :
    Sorted settled (items ++ [.block b]) := by
  induction items generalizing settled with
  | nil =>
    obtain known | ⟨c, hc, -⟩ := parent
    · exact ⟨known, trivial⟩
    · cases hc
  | cons item rest ih =>
    cases item with
    | block c =>
      refine ⟨h.1, ih h.2 ?_⟩
      obtain known | ⟨d, hd, same⟩ := parent
      · exact .inl (.inl known)
      · rcases List.mem_cons.mp hd with first | later
        · cases first
          exact .inl (.inr same.symm)
        · exact .inr ⟨d, later, same⟩
    | transaction trx =>
      refine ih h (parent.imp_right ?_)
      rintro ⟨d, hd, same⟩
      exact ⟨d, by simpa using hd, same⟩

theorem Sorted.append_transactions (h : Sorted settled items) (trxs : List SignedTransaction) :
    Sorted settled (items ++ trxs.map .transaction) := by
  induction items generalizing settled with
  | nil =>
    induction trxs with
    | nil => trivial
    | cons trx rest ih => exact ih
  | cons item rest ih =>
    cases item with
    | block c => exact ⟨h.1, ih h.2⟩
    | transaction trx => exact ih h

namespace Node

/-- A block that is one of the given ones or rests on one of them. -/
inductive RestsOn (n : Node) (held : List BlockId) : BlockId → Prop
  | here {id : BlockId} : id ∈ held → RestsOn n held id
  | above {id : BlockId} {b : Block} :
    n.blocks[id]? = some b → RestsOn n held b.previous → RestsOn n held id

/-- The target knows the block or need not be told by this link. -/
def Settled (source target : Node) (held : List BlockId) (id : BlockId) : Prop :=
  target.knowsBlock id = true ∨ source.RestsOn held id

/-- What holds of the items on their way from a source to a target. -/
structure Feeds [Crypto] (rules : Rules) (strings : List (List UInt8)) (held : List BlockId)
    (source target : Node) (items : List Delivery) : Prop where
  honest : ∀ b, .block b ∈ items → b.Honest rules strings
  known : ∀ b, .block b ∈ items → source.knowsBlock b.id = true
  sorted : Sorted (Settled source target held) items
  promised : ∀ id, source.knowsBlock id = true → Promised (Settled source target held) items id

/-- The blocks off a node's current chain that a peer does not know. -/
def heldFrom (n peer : Node) : List BlockId :=
  n.blocks.keys.filter fun id => !n.headState.chain.contains id && !peer.knowsBlock id

variable {n n' source source' target target' : Node} {held : List BlockId}

/-- Transactions are no news to the store. -/
theorem within_pushTransaction [Crypto] (n : Node) (trx : SignedTransaction) :
    Within n (n.pushTransaction trx).2 ∧ Within (n.pushTransaction trx).2 n := by
  unfold pushTransaction
  split
  · exact ⟨.refl, .refl⟩
  · exact ⟨⟨rfl, fun _ _ h => h⟩, ⟨rfl, fun _ _ h => h⟩⟩

theorem receive_transaction [Crypto] (n : Node) (trx : SignedTransaction) :
    (n.receive (.transaction trx)).2 = n ∨
      (n.receive (.transaction trx)).2 = (n.pushTransaction trx).2 := by
  simp only [receive]
  split
  · exact .inl rfl
  · rcases n.pushTransaction trx with ⟨_ | _, n'⟩ <;> exact .inr rfl

/-- No item makes a node forget a block. -/
theorem within_receive [Crypto] (n : Node) (item : Delivery) : Within n (n.receive item).2 := by
  cases item with
  | block b =>
    have received := received n b
    simp only [receive]
    generalize n.applyBlock b = r at received
    cases received with
    | known | malformed | unlinked | refused | abandoned => exact .refl
    | extended unknown | stored unknown | switched unknown =>
      exact ⟨rfl, (Within.withBlock unknown).stored⟩
  | transaction trx =>
    rcases n.receive_transaction trx with same | pushed
    · rw [same]
      exact .refl
    · rw [pushed]
      exact (n.within_pushTransaction trx).1

theorem RestsOn.mono (h : n.RestsOn held id) (within : Within n n') : n'.RestsOn held id := by
  induction h with
  | here mem => exact .here mem
  | above stored _ ih => exact .above (within.stored _ _ stored) ih

theorem Settled.mono (h : Settled source target held id) (sources : Within source source')
    (targets : Within target target') : Settled source' target' held id :=
  h.imp targets.knowsBlock fun rests => rests.mono sources

/-- Whatever it is that a block rests on lies on the path down from that block. -/
theorem RestsOn.exists_mem_path (h : n.RestsOn held id) {bs : List Block} (path : n.Path id bs)
    (bottom : n.blocks[n.genesisId]? = none) :
    ∃ x ∈ held, x = n.genesisId ∨ ∃ b ∈ bs, n.blocks[x]? = some b := by
  induction h generalizing bs with
  | @here id mem =>
    cases path with
    | genesis => exact ⟨_, mem, .inl rfl⟩
    | up _ stored _ => exact ⟨id, mem, .inr ⟨_, List.mem_cons_self, stored⟩⟩
  | above stored _ ih =>
    cases path with
    | genesis => cases bottom.symm.trans stored
    | up _ stored' below =>
      cases stored.symm.trans stored'
      obtain ⟨x, mem, root | ⟨b, hb, hx⟩⟩ := ih below
      · exact ⟨x, mem, .inl root⟩
      · exact ⟨x, mem, .inr ⟨b, List.mem_cons_of_mem _ hb, hx⟩⟩

/-- The blocks of a path that a peer lacks, from the lowest up, end in the tip or leave off
at a block that the peer has. -/
theorem sorted_of_path {settled : BlockId → Prop} {bs : List Block} (path : source.Path id bs)
    (ids : ∀ (id : BlockId) (b : Block), source.blocks[id]? = some b → b.id = id)
    (root : settled source.genesisId) (known : ∀ id, target.knowsBlock id = true → settled id) :
    let items := (bs.reverse.filter fun b => !target.knowsBlock b.id).map Delivery.block
    Sorted settled items ∧ Promised settled items id := by
  induction path with
  | genesis => exact ⟨trivial, .inl root⟩
  | @up id b bs _ stored _ ih =>
    obtain ⟨sorted, parent⟩ := ih
    have same := ids id b stored
    simp only [List.reverse_cons, List.filter_append, List.filter_cons, List.filter_nil]
    cases hears : target.knowsBlock b.id with
    | true =>
      simp only [Bool.not_true, Bool.false_eq_true, if_false, List.append_nil]
      exact ⟨sorted, .inl (known id (same ▸ hears))⟩
    | false =>
      simp only [Bool.not_false, if_true, List.map_append, List.map_cons, List.map_nil]
      refine ⟨sorted.append_block parent, .inr ⟨b, ?_, same⟩⟩
      exact List.mem_append_right _ List.mem_cons_self

section honest

variable [Crypto] {rules : Rules} {strings : List (List UInt8)} (clean : NoCollision strings)
  (origin : rules.genesisString ∈ strings)

include clean origin

/-- A node is as high as everybody whose head it knows. -/
theorem Honest.headNum_le (sourceHonest : Honest rules strings source)
    (targetHonest : Honest rules strings target)
    (known : target.knowsBlock source.headId = true) : source.headNum ≤ target.headNum := by
  obtain ⟨bs, laid⟩ := sourceHonest.head_laid
  rcases knowsBlock_iff.mp known with root | ⟨c, stored⟩
  · rw [targetHonest.genesisId_eq] at root
    have start := laid.eq_of_head_id_eq clean origin .genesis root
    rw [headNum, start]
    exact UInt32.zero_le
  · obtain ⟨cs, t, whole⟩ := targetHonest.honest _ c stored
    have ids : t.head.id = source.headState.head.id := by
      rw [whole.head_eq, ← Block.id, targetHonest.id_eq _ c stored, headId]
    obtain rfl := whole.eq_of_head_id_eq clean origin laid ids
    rw [headNum, whole.head_eq]
    exact targetHonest.num_le _ c stored

/-- What a node tells a peer brings it all of the node's chain, parents first. -/
theorem Honest.missingFor (sourceHonest : Honest rules strings source)
    (targetStock : Stocked rules strings target) :
    (∀ b, .block b ∈ source.missingFor target → source.blocks[b.id]? = some b) ∧
      Sorted (target.knowsBlock · = true) (source.missingFor target) ∧
      ∀ id ∈ source.headState.chain,
        Promised (target.knowsBlock · = true) (source.missingFor target) id := by
  obtain ⟨bs, path, laid, chain⟩ := sourceHonest.chainBlocks_eq clean origin
  have listed : ∀ b, .block b ∈ source.missingFor target ↔
      b ∈ bs ∧ target.knowsBlock b.id = false := by
    simp [Node.missingFor, chain]
  have root : target.knowsBlock (ChainState.genesis rules).head.id = true := by
    rw [knowsBlock_iff, targetStock.genesisId_eq]
    exact .inl rfl
  refine ⟨fun b hb => ?_, ?_, fun id current => ?_⟩
  · obtain ⟨id, stored⟩ := path.stored b ((listed b).mp hb).1
    rwa [sourceHonest.id_eq id b stored]
  · rw [Node.missingFor, chain]
    refine Sorted.append_transactions ?_ _
    exact (sorted_of_path path sourceHonest.id_eq (sourceHonest.genesisId_eq ▸ root)
      fun _ => id).1
  · rcases laid.grown.1.mem_chain_iff.mp current with rfl | ⟨c, hc, rfl⟩
    · exact .inl root
    · cases hears : target.knowsBlock c.id with
      | true => exact .inl hears
      | false => exact .inr ⟨c, (listed c).mpr ⟨hc, hears⟩, rfl⟩

end honest

namespace Feeds

variable [Crypto] {rules : Rules} {strings : List (List UInt8)}

/-- Both ends may come to know more, as long as the source's news are on their way. -/
theorem grow (h : Feeds rules strings held source target items) (sources : Within source source')
    (targets : Within target target')
    (news : ∀ id, source'.knowsBlock id = true →
      source.knowsBlock id = true ∨ target'.knowsBlock id = true) :
    Feeds rules strings held source' target' items where
  honest := h.honest
  known b hb := sources.knowsBlock (h.known b hb)
  sorted := h.sorted.mono fun _ settled => settled.mono sources targets
  promised id hid := by
    rcases news id hid with old | told
    · exact (h.promised id old).imp_left fun settled => settled.mono sources targets
    · exact .inl (.inl told)

/-- A block that the source learned and announced. -/
theorem announce (h : Feeds rules strings held source target items)
    (learned : Learned source b source') (honest : b.Honest rules strings) :
    Feeds rules strings held source' target (items ++ [.block b]) where
  honest c hc := by
    rcases List.mem_append.mp hc with old | new
    · exact h.honest c old
    · cases List.mem_singleton.mp new
      exact honest
  known c hc := by
    rw [learned.knowsBlock_iff]
    rcases List.mem_append.mp hc with old | new
    · exact .inl (h.known c old)
    · cases List.mem_singleton.mp new
      exact .inr rfl
  sorted := by
    have sorted := h.sorted.mono fun _ settled => settled.mono learned.within .refl
    refine sorted.append_block ((h.promised _ learned.linked).imp_left fun settled => ?_)
    exact settled.mono learned.within .refl
  promised id hid := by
    rcases learned.knowsBlock_iff.mp hid with old | rfl
    · refine (h.promised id old).imp (fun settled => settled.mono learned.within .refl) ?_
      rintro ⟨c, hc, same⟩
      exact ⟨c, List.mem_append_left _ hc, same⟩
    · exact .inr ⟨b, List.mem_append_right _ List.mem_cons_self, rfl⟩

theorem announce_transaction (h : Feeds rules strings held source target items)
    (trx : SignedTransaction) :
    Feeds rules strings held source target (items ++ [.transaction trx]) where
  honest c hc := h.honest c (by simpa using hc)
  known c hc := h.known c (by simpa using hc)
  sorted := h.sorted.append_transactions [trx]
  promised id hid := (h.promised id hid).imp_right fun ⟨c, hc, same⟩ => ⟨c, by simpa using hc, same⟩

theorem arrived_transaction {trx : SignedTransaction}
    (h : Feeds rules strings held source target (.transaction trx :: items)) :
    Feeds rules strings held source target items where
  honest c hc := h.honest c (List.mem_cons_of_mem _ hc)
  known c hc := h.known c (List.mem_cons_of_mem _ hc)
  sorted := h.sorted
  promised id hid := (h.promised id hid).imp_right fun ⟨c, hc, same⟩ => ⟨c, by simpa using hc, same⟩

/-- A block that has arrived is settled: the target knows it now, or had to pass it over
because it rests on a block that was held back. -/
theorem arrived (h : Feeds rules strings held source target (.block b :: items))
    (settled : Settled source target held b.id) :
    Feeds rules strings held source target items where
  honest c hc := h.honest c (List.mem_cons_of_mem _ hc)
  known c hc := h.known c (List.mem_cons_of_mem _ hc)
  sorted := h.sorted.2.mono fun id => Or.rec (fun old => old) fun same => same ▸ settled
  promised id hid := by
    rcases h.promised id hid with old | ⟨c, hc, rfl⟩
    · exact .inl old
    · rcases List.mem_cons.mp hc with first | later
      · cases first
        exact .inl settled
      · exact .inr ⟨c, later, rfl⟩

variable (clean : NoCollision strings) (origin : rules.genesisString ∈ strings)

include clean origin

theorem settled_of_orphan (h : Feeds rules strings held source target (.block b :: items))
    (stock : Stocked rules strings source) (orphan : target.knowsBlock b.previous = false) :
    Settled source target held b.id := by
  have honest := h.honest b List.mem_cons_self
  rcases h.sorted.1 with known | rests
  · rw [orphan] at known
    cases known
  rcases knowsBlock_iff.mp (h.known b List.mem_cons_self) with root | ⟨c, stored⟩
  · rw [stock.genesisId_eq] at root
    exact absurd root (honest.id_ne_genesis clean origin)
  · have header := (stock.honest _ c stored).header_eq clean honest (stock.id_eq _ c stored)
    refine .inr (.above stored ?_)
    rwa [Block.previous, header]

/-- When nothing is on its way, the target is as high as the source, unless the source's
chain goes through a block that was held back and its head is news to the target. -/
theorem converged (h : Feeds rules strings held source target [])
    (sourceHonest : Honest rules strings source) (targetHonest : Honest rules strings target) :
    source.headNum ≤ target.headNum ∨
      target.knowsBlock source.headId = false ∧ ∃ x ∈ source.headState.chain, x ∈ held := by
  obtain ⟨bs, path, laid, -⟩ := sourceHonest.chainBlocks_eq clean origin
  cases hears : target.knowsBlock source.headId with
  | true => exact .inl (sourceHonest.headNum_le clean origin targetHonest hears)
  | false =>
    right
    rcases h.promised _ sourceHonest.head_known with (known | rests) | ⟨c, hc, -⟩
    · rw [hears] at known
      cases known
    · refine ⟨rfl, ?_⟩
      obtain ⟨x, mem, onPath⟩ := rests.exists_mem_path path (sourceHonest.bottom clean origin)
      refine ⟨x, laid.grown.1.mem_chain_iff.mpr ?_, mem⟩
      rw [← sourceHonest.genesisId_eq]
      refine onPath.imp_right ?_
      rintro ⟨b, hb, stored⟩
      exact ⟨b, hb, sourceHonest.id_eq x b stored⟩
    · cases hc

/-- A new link is fed all that is needed, except for what is held back. -/
theorem ofLink (sourceHonest : Honest rules strings source)
    (targetStock : Stocked rules strings target) :
    Feeds rules strings (source.heldFrom target) source target (source.missingFor target) := by
  obtain ⟨stored, sorted, promised⟩ := sourceHonest.missingFor clean origin targetStock
  refine ⟨fun b hb => sourceHonest.honest _ b (stored b hb), fun b hb => ?_, ?_, fun id hid => ?_⟩
  · exact knowsBlock_iff.mpr (.inr ⟨b, stored b hb⟩)
  · exact sorted.mono fun _ => .inl
  · by_cases current : id ∈ source.headState.chain
    · exact (promised id current).imp_left .inl
    · refine .inl ?_
      cases hears : target.knowsBlock id with
      | true => exact .inl hears
      | false =>
        rcases knowsBlock_iff.mp hid with rfl | ⟨b, hb⟩
        · have root : target.knowsBlock source.genesisId = true := by
            rw [knowsBlock_iff, sourceHonest.genesisId_eq, targetStock.genesisId_eq]
            exact .inl rfl
          rw [hears] at root
          cases root
        · refine .inr (.here ?_)
          simp [heldFrom, current, hears, Std.ExtTreeMap.mem_iff_isSome_getElem?, hb]

end Feeds

end Node

end ChainLab
