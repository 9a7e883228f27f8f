import ChainLab.Node
import ChainLab.Proofs.ActionEffects
import ChainLab.Proofs.Preimage

/-!
# Branches and what their last identifier commits to

A branch grows from genesis block by block. Its last identifier fixes every header
on it and the unsigned content of every transaction, hence the state it ends in:
two signers' copies of a transaction that are both accepted have the same effect.
-/

namespace ChainLab

variable [Crypto]

/-- The strings that are hashed to identify a block and what it carries. -/
def Block.hashed (b : Block) : List (List UInt8) :=
  b.header.preimage :: Block.rootPreimage (b.transactions.map (·.digest)) ::
    b.transactions.map (·.transaction.preimage)

/-- The string that is hashed to identify the genesis block. -/
def Rules.genesisString (rules : Rules) : List UInt8 :=
  BlockHeader.genesisPreimage rules.chainId
    (Crypto.hash (ChainState.genesisPreimage rules.config.genesisAccount)) rules.config.genesisTime

namespace Block

variable {strings : List (List UInt8)} {b c : Block}

theorem isConsistent_iff :
    b.isConsistent = true ↔ b.header.root = rootOf b.transactions ∧ b.id = b.header.computedId := by
  simp [isConsistent, id]

/-- A block that spells its contents, with a header that is spelled by a given string. -/
structure Named (strings : List (List UInt8)) (b : Block) : Prop where
  consistent : b.isConsistent = true
  listed : b.header.preimage ∈ strings

theorem Named.id_eq (h : b.Named strings) : b.id = b.header.computedId :=
  (isConsistent_iff.mp h.consistent).2

/-- The identifier commits to the header. -/
theorem Named.header_eq (clean : NoCollision strings) (h : b.Named strings) (h' : c.Named strings)
    (same : b.id = c.id) : b.header = c.header := by
  have preimages : b.header.preimage = c.header.preimage := by
    refine clean.apart _ h.listed _ h'.listed ?_
    exact BlockId.mk.inj (h.id_eq.symm.trans (same.trans h'.id_eq))
  have spelled := BlockHeader.eq_of_short_preimage_eq (clean.short _ h.listed) preimages
  rw [spelled]
  change { c.header with id := b.id } = c.header
  rw [same]
  rfl

/-- No block passes for the genesis block. -/
theorem Named.ne_genesis (clean : NoCollision strings) {rules : Rules}
    (origin : rules.genesisString ∈ strings) (h : b.Named strings) :
    b.id ≠ (ChainState.genesis rules).head.id := by
  intro same
  have preimages := clean.apart _ h.listed _ origin (BlockId.mk.inj (h.id_eq.symm.trans same))
  have domains := domain_eq_of_preimage_eq (by decide) (by decide) preimages
  simp at domains

/-- Digests commit to the unsigned content of transactions. -/
theorem transactions_eq_of_digests_eq (clean : NoCollision strings)
    {xs ys : List SignedTransaction} (hx : xs.map (·.transaction.preimage) ⊆ strings)
    (hy : ys.map (·.transaction.preimage) ⊆ strings)
    (same : xs.map (·.digest) = ys.map (·.digest)) :
    xs.map (·.transaction) = ys.map (·.transaction) := by
  induction xs generalizing ys with
  | nil =>
    obtain rfl : ys = [] := by simpa using same.symm
    rfl
  | cons x xs ih =>
    cases ys with
    | nil => simp at same
    | cons y ys =>
      simp only [List.map_cons, List.cons.injEq, List.cons_subset] at same hx hy ⊢
      have preimages := clean.apart _ hx.1 _ hy.1 same.1
      have first := Transaction.eq_of_preimage_eq (clean.short _ hx.1) preimages
      exact ⟨first, ih hx.2 hy.2 same.2⟩

/-- The identifier of a consistent block commits to its header and to the unsigned
content of its transactions. -/
theorem contents_eq_of_id_eq (clean : NoCollision strings) (hb : b.hashed ⊆ strings)
    (hc : c.hashed ⊆ strings) (consistentB : b.isConsistent = true)
    (consistentC : c.isConsistent = true) (same : b.id = c.id) :
    b.header = c.header ∧
      b.transactions.map (·.transaction) = c.transactions.map (·.transaction) := by
  obtain ⟨rootB, -⟩ := isConsistent_iff.mp consistentB
  obtain ⟨rootC, -⟩ := isConsistent_iff.mp consistentC
  simp only [hashed, List.cons_subset] at hb hc
  obtain ⟨headerB, rootStringB, trxsB⟩ := hb
  obtain ⟨headerC, rootStringC, trxsC⟩ := hc
  have headers : b.header = c.header :=
    Named.header_eq clean ⟨consistentB, headerB⟩ ⟨consistentC, headerC⟩ same
  refine ⟨headers, transactions_eq_of_digests_eq clean trxsB trxsC ?_⟩
  have roots : rootOf b.transactions = rootOf c.transactions := by
    rw [← rootB, ← rootC, headers]
  have strings := clean.apart _ rootStringB _ rootStringC roots
  exact digests_eq_of_rootPreimage_eq (clean.short _ rootStringB) strings

theorem id_ne_genesis (clean : NoCollision strings) {rules : Rules} (hb : b.hashed ⊆ strings)
    (hg : rules.genesisString ∈ strings) (consistent : b.isConsistent = true) :
    b.id ≠ (ChainState.genesis rules).head.id :=
  Named.ne_genesis clean hg ⟨consistent, (List.cons_subset.mp hb).1⟩

end Block

namespace ChainState

variable {rules : Rules} {now : Time} {keys keys' : KeySet} {s t u : ChainState}
  {strings : List (List UInt8)}

/-- The keys that signed decide whether messages go through, never what they do. -/
theorem applyMessages_unique {ms : List Message}
    (ht : s.applyMessages rules now keys ms = .ok t)
    (hu : s.applyMessages rules now keys' ms = .ok u) : t = u := by
  induction ms generalizing s with
  | nil =>
    cases ht
    cases hu
    rfl
  | cons m ms ih =>
    simp only [applyMessages, bind_eq_ok, applyMessage_eq_ok] at ht hu
    obtain ⟨t₁, ⟨-, ht₁⟩, ht⟩ := ht
    obtain ⟨u₁, ⟨-, hu₁⟩, hu⟩ := hu
    obtain rfl : t₁ = u₁ := Except.ok.inj (ht₁.symm.trans hu₁)
    exact ih ht hu

theorem applyTransaction_unique {x y : SignedTransaction} (same : x.transaction = y.transaction)
    (ht : s.applyTransaction rules now x = .ok t)
    (hu : s.applyTransaction rules now y = .ok u) : t = u := by
  obtain ⟨-, -, -, _, -, t₁, ht₁, rfl⟩ := applyTransaction_eq_ok.mp ht
  obtain ⟨-, -, -, _, -, u₁, hu₁, rfl⟩ := applyTransaction_eq_ok.mp hu
  rw [← same] at hu₁
  have digests : x.digest = y.digest := congrArg Transaction.digest same
  rw [applyMessages_unique ht₁ hu₁, digests]

theorem applyTransactions_unique {xs ys : List SignedTransaction}
    (same : xs.map (·.transaction) = ys.map (·.transaction))
    (ht : s.applyTransactions rules now xs = .ok t)
    (hu : s.applyTransactions rules now ys = .ok u) : t = u := by
  induction xs generalizing s ys with
  | nil =>
    obtain rfl : ys = [] := by simpa using same.symm
    cases ht
    cases hu
    rfl
  | cons x xs ih =>
    cases ys with
    | nil => simp at same
    | cons y ys =>
      simp only [List.map_cons, List.cons.injEq] at same
      obtain ⟨t₁, ht₁, ht⟩ := applyTransactions_cons_eq_ok.mp ht
      obtain ⟨u₁, hu₁, hu⟩ := applyTransactions_cons_eq_ok.mp hu
      obtain rfl := applyTransaction_unique same.1 ht₁ hu₁
      exact ih same.2 ht hu

/-- A state with a block on top. Whether the block is numbered and dated after the
head is not asked, as a node does not ask it of the blocks it makes. -/
structure Follows (rules : Rules) (s : ChainState) (b : Block) (s' : ChainState) : Prop where
  link : b.previous = s.head.id
  consistent : b.isConsistent = true
  executes : ∃ t, s.applyTransactions rules b.header.time b.transactions = .ok t ∧
    s' = t.advance b.header

/-- The state after a branch, whose blocks are listed from the last to the first. -/
inductive Grown (rules : Rules) : List Block → ChainState → Prop
  | genesis : Grown rules [] (ChainState.genesis rules)
  | block {bs : List Block} {s : ChainState} {b : Block} {s' : ChainState} :
    Grown rules bs s → Follows rules s b s' → Grown rules (b :: bs) s'

theorem Follows.head_eq {b : Block} (h : Follows rules s b t) : t.head = b.header := by
  obtain ⟨_, -, rfl⟩ := h.executes
  rfl

theorem Follows.chain_eq {b : Block} (h : Follows rules s b t) : t.chain = s.chain.push b.id := by
  obtain ⟨_, run, rfl⟩ := h.executes
  rw [← (head_chain_of_applyTransactions run).2]
  rfl

theorem follows_of_applyBlock {b : Block} (h : s.applyBlock rules b = .ok t) :
    Follows rules s b t := by
  obtain ⟨link, -, -, consistent, executes⟩ := applyBlock_eq_ok.mp h
  exact ⟨link, consistent, executes⟩

theorem Follows.eq_of_same {b : Block} (h : Follows rules s b t) (h' : Follows rules s b u) :
    t = u := by
  obtain ⟨v, run, rfl⟩ := h.executes
  obtain ⟨w, run', rfl⟩ := h'.executes
  obtain rfl := Except.ok.inj (run.symm.trans run')
  rfl

theorem Follows.unique (clean : NoCollision strings) {b c : Block} (hb : b.hashed ⊆ strings)
    (hc : c.hashed ⊆ strings) (same : b.id = c.id) (ht : Follows rules s b t)
    (hu : Follows rules s c u) : t = u := by
  obtain ⟨headers, trxs⟩ :=
    Block.contents_eq_of_id_eq clean hb hc ht.consistent hu.consistent same
  obtain ⟨t₁, ht₁, rfl⟩ := ht.executes
  obtain ⟨u₁, hu₁, rfl⟩ := hu.executes
  rw [← headers] at hu₁ ⊢
  rw [applyTransactions_unique trxs ht₁ hu₁]

/-- The state lists the identifiers of its branch in the order of the blocks. -/
theorem Grown.chain_eq {bs : List Block} (h : Grown rules bs s) :
    s.chain.toList = (ChainState.genesis rules).head.id :: bs.reverse.map (·.id) := by
  induction h with
  | genesis => rfl
  | block _ last ih => simp [last.chain_eq, ih]

theorem Grown.mem_chain_iff {bs : List Block} (h : Grown rules bs s) {id : BlockId} :
    id ∈ s.chain ↔ id = (ChainState.genesis rules).head.id ∨ ∃ b ∈ bs, b.id = id := by
  rw [← Array.mem_toList_iff, h.chain_eq, List.mem_cons]
  simp

theorem Grown.head_mem_chain {bs : List Block} (h : Grown rules bs s) : s.head.id ∈ s.chain := by
  cases h with
  | genesis => exact Array.mem_singleton.mpr rfl
  | block _ last =>
    rw [last.chain_eq, last.head_eq]
    exact Array.mem_push_self

/-- The identifier of the last block commits to the whole state. The induction runs
along both branches at once: equal identifiers have equal parents. -/
theorem Grown.eq_of_head_id_eq (clean : NoCollision strings)
    (origin : rules.genesisString ∈ strings) {bs cs : List Block}
    (hs : Grown rules bs s) (ht : Grown rules cs t) (hbs : ∀ b ∈ bs, b.hashed ⊆ strings)
    (hcs : ∀ c ∈ cs, c.hashed ⊆ strings) (same : s.head.id = t.head.id) : s = t := by
  induction hs generalizing cs t with
  | genesis =>
    cases ht with
    | genesis => rfl
    | block _ last =>
      rw [last.head_eq] at same
      have hc := hcs _ List.mem_cons_self
      exact absurd same.symm (Block.id_ne_genesis clean hc origin last.consistent)
  | @block bs s b s' _ last ih =>
    have hb := hbs _ List.mem_cons_self
    rw [last.head_eq] at same
    cases ht with
    | genesis => exact absurd same (Block.id_ne_genesis clean hb origin last.consistent)
    | @block cs t c t' grown last' =>
      have hc := hcs _ List.mem_cons_self
      rw [last'.head_eq] at same
      obtain ⟨headers, -⟩ :=
        Block.contents_eq_of_id_eq clean hb hc last.consistent last'.consistent same
      have parents : s.head.id = t.head.id := by
        rw [← last.link, ← last'.link, Block.previous, Block.previous, headers]
      obtain rfl := ih grown (fun b h => hbs b (List.mem_cons_of_mem _ h))
        (fun c h => hcs c (List.mem_cons_of_mem _ h)) parents
      exact last.unique clean hb hc same last'

end ChainState

end ChainLab
