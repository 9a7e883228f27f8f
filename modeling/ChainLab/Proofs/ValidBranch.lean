import ChainLab.Proofs.HonestNode
import ChainLab.Proofs.RootedNode
import Mathlib.Data.List.Infix

/-!
# Handing a node a valid branch

A branch that replays from genesis is handed to a node block by block. The node may
already store copies of some of the blocks whose transactions carry other signatures:
a copy has the same identifier, so the node keeps it and ignores the block. It gets as
high as the branch exactly if it was so before or the branch also replays with the
stored copies in place of the blocks.
-/

namespace ChainLab

section

variable {bs cs : List Block} {b c : Block}

namespace Node

variable {n m : Node}

/-- What a node stores under the identifier of a block, and the block itself if nothing. -/
def copy (n : Node) (b : Block) : Block := (n.blocks[b.id]?).getD b

theorem Keyed.id_copy (keyed : n.Keyed) : (n.copy b).id = b.id := by
  rw [copy]
  cases stored : n.blocks[b.id]? with
  | none => rfl
  | some c => exact keyed _ c stored

/-- What has become of a node that was handed blocks of a list. -/
structure Handed (n : Node) (bs : List Block) (m : Node) : Prop where
  within : Within n m
  fresh : ∀ (id : BlockId) (b : Block), m.blocks[id]? = some b →
    n.blocks[id]? = some b ∨ b ∈ bs
  headNum_le : n.headNum ≤ m.headNum
  head : m.headState = n.headState ∨ ∃ b ∈ bs, m.headState.head = b.header

namespace Handed

theorem refl : Handed n [] n where
  within := .refl
  fresh _ _ stored := .inl stored
  headNum_le := UInt32.le_refl _
  head := .inl rfl

theorem skip (h : Handed n bs m) : Handed n (b :: bs) m where
  within := h.within
  fresh id c stored := (h.fresh id c stored).imp_right (List.mem_cons_of_mem b)
  headNum_le := h.headNum_le
  head := h.head.imp_right fun ⟨c, hc, head⟩ => ⟨c, List.mem_cons_of_mem b hc, head⟩

/-- Whatever is stored in the end for a block of the list is the copy that was there at
the start, or else the block. -/
theorem eq_copy (h : Handed n bs m) (keyed : m.Keyed) (single : ∀ d ∈ bs, d.id = b.id → d = b)
    (stored : m.blocks[b.id]? = some c) : c = n.copy b := by
  cases first : n.blocks[b.id]? with
  | some d =>
    have kept := h.within.stored _ d first
    rw [stored] at kept
    rw [copy, first]
    exact Option.some.inj kept
  | none =>
    rw [copy, first]
    rcases h.fresh _ c stored with old | new
    · rw [first] at old
      cases old
    · exact single c new (keyed _ c stored)

theorem copy_eq (h : Handed n bs m) (absent : m.blocks[b.id]? = none) : n.copy b = b := by
  cases first : n.blocks[b.id]? with
  | some d =>
    have kept := h.within.stored _ d first
    rw [absent] at kept
    cases kept
  | none => rw [copy, first, Option.getD_none]

end Handed

end Node

variable [Crypto] {rules : Rules} {strings : List (List UInt8)} {s t : ChainState}

theorem Block.Honest.toSealed (h : b.Honest rules strings) : b.Sealed strings :=
  ⟨h.consistent, h.hashed⟩

namespace ChainState

/-- A branch leads to one state only. -/
theorem Grown.unique (h : Grown rules bs s) (h' : Grown rules bs t) : s = t := by
  induction h generalizing t with
  | genesis =>
    cases h'
    rfl
  | block _ last ih =>
    cases h' with
    | block below last' =>
      obtain rfl := ih below
      exact last.eq_of_same last'

/-- A branch that replays, and is not too long to be numbered, is laid. -/
theorem laid_of_replay (hashed : ∀ b ∈ bs, b.hashed ⊆ strings) (short : bs.length < UInt32.size)
    (replays : Node.replay rules (genesis rules) bs.reverse = .ok s) :
    Laid rules strings bs s := by
  induction bs generalizing s with
  | nil =>
    cases replays
    exact .genesis
  | cons b bs ih =>
    obtain ⟨spelled, others⟩ := List.forall_mem_cons.mp hashed
    obtain ⟨u, below, applies⟩ := Node.replay_reverse_cons_eq_ok.mp replays
    have laid := ih others (Nat.lt_of_succ_lt short) below
    obtain ⟨-, num, -⟩ := applyBlock_eq_ok.mp applies
    have room : u.head.num.toNat + 1 < UInt32.size := by
      rw [laid.num_eq]
      exact short
    exact laid.block spelled (lt_of_eq_succ room num) applies

namespace Laid

theorem honest (h : Laid rules strings bs s) : ∀ b ∈ bs, b.Honest rules strings := by
  induction h with
  | genesis => exact fun b hb => nomatch hb
  | block below hashed higher applies ih =>
    exact List.forall_mem_cons.mpr ⟨⟨_, _, below.block hashed higher applies⟩, ih⟩

/-- Along a branch the number tells the blocks apart, and the identifier commits to it. -/
theorem eq_of_id_eq (clean : NoCollision strings) (h : Laid rules strings bs s) (hb : b ∈ bs)
    (hc : c ∈ bs) (same : b.id = c.id) : b = c := by
  induction h with
  | genesis => cases hb
  | @block bs s a s' below hashed higher applies ih =>
    have top : a.Honest rules strings := ⟨_, _, below.block hashed higher applies⟩
    have apart : ∀ d ∈ bs, d.id ≠ a.id := by
      intro d hd ids
      have headers := (below.honest d hd).header_eq clean top ids
      have low := below.num_le d hd
      have high := UInt32.lt_iff_toNat_lt.mp higher
      rw [Block.num, headers, ← Block.num] at low
      rw [below.num_eq] at high
      omega
    rcases List.mem_cons.mp hb with rfl | older
    · rcases List.mem_cons.mp hc with rfl | older'
      · rfl
      · exact absurd same.symm (apart c older')
    · rcases List.mem_cons.mp hc with rfl | older'
      · exact absurd same (apart b older)
      · exact ih older older'

/-- The block with the highest number is the last one. -/
theorem head_eq_of_length_le (h : Laid rules strings bs s) (hb : b ∈ bs)
    (top : bs.length ≤ b.num.toNat) : s.head = b.header := by
  cases h with
  | genesis => cases hb
  | block below hashed higher applies =>
    rcases List.mem_cons.mp hb with rfl | older
    · exact (below.block hashed higher applies).head_eq
    · have low := below.num_le b older
      rw [List.length_cons] at top
      omega

/-- Blocks with the headers of a replayed branch pass the checks of their headers: if
they execute one after the other, they replay. -/
theorem replay_of_grown (clean : NoCollision strings) (origin : rules.genesisString ∈ strings)
    (h : Laid rules strings bs s) (grown : Grown rules cs t)
    (headers : cs.map (·.header) = bs.map (·.header)) (hashed : ∀ c ∈ cs, c.hashed ⊆ strings) :
    Node.replay rules (ChainState.genesis rules) cs.reverse = .ok t := by
  induction h generalizing cs t with
  | genesis =>
    obtain rfl : cs = [] := List.map_eq_nil_iff.mp headers
    cases grown
    rfl
  | @block bs s b s' below _ _ applies ih =>
    cases grown with
    | genesis => cases headers
    | @block cs u c _ grown last =>
      obtain ⟨header, headers⟩ : c.header = b.header ∧ cs.map (·.header) = bs.map (·.header) :=
        List.cons.inj headers
      obtain ⟨-, others⟩ := List.forall_mem_cons.mp hashed
      obtain ⟨link, num, later, -⟩ := applyBlock_eq_ok.mp applies
      have ids : u.head.id = s.head.id := by
        rw [← last.link, ← link, Block.previous, Block.previous, header]
      obtain rfl := grown.eq_of_head_id_eq clean origin below.grown.1 others below.grown.2 ids
      have checked : u.applyBlock rules c = .ok t := by
        refine applyBlock_eq_ok.mpr ⟨last.link, ?_, ?_, last.consistent, last.executes⟩
        · rw [Block.num, header]
          exact num
        · rw [header]
          exact later
      exact Node.replay_reverse_cons_eq_ok.mpr ⟨u, ih grown headers others, checked⟩

end Laid

end ChainState

namespace Node

variable {n m m' : Node} {ps : List Block}

theorem Handed.take (h : Handed n bs m) (taken : Takes m b m') : Handed n (b :: bs) m' where
  within := h.within.trans taken.within
  fresh := by
    refine taken.forall_stored ?_ (.inr List.mem_cons_self)
    intro id c stored
    exact (h.fresh id c stored).imp_right (List.mem_cons_of_mem b)
  headNum_le := UInt32.le_trans h.headNum_le taken.headNum_le
  head := by
    rcases taken.head with ⟨-, same⟩ | ⟨-, _, -, grown⟩
    · rw [same]
      exact h.skip.head
    · exact .inr ⟨b, List.mem_cons_self, grown.head_eq⟩

theorem run_reverse_cons : n.run ((b :: bs).reverse.map .receive) =
    ((n.run (bs.reverse.map .receive)).applyBlock b).2 := by
  simp [run, handle]

namespace Rooted

theorem sealed_copy (h : Rooted rules strings n) (hb : b.Sealed strings) :
    (n.copy b).Sealed strings := by
  rw [copy]
  cases stored : n.blocks[b.id]? with
  | none => exact hb
  | some c => exact h.sealed _ c stored

theorem header_copy (h : Rooted rules strings n) (clean : NoCollision strings)
    (hb : b.Sealed strings) : (n.copy b).header = b.header :=
  (h.sealed_copy hb).header_eq clean hb h.keyed.id_copy

/-- An unknown block is taken if it replays on top of what its parent rests on. -/
theorem takes_of_replay (h : Rooted rules strings n) (unknown : n.knowsBlock b.id = false)
    (hashed : b.hashed ⊆ strings) (rises : b.num = n.headNum + 1 → n.headNum < b.num)
    (path : n.Path b.previous ps)
    (replays : replay rules (ChainState.genesis rules) (b :: ps).reverse = .ok t) :
    Takes n b (n.applyBlock b).2 := by
  obtain ⟨u, below, applies⟩ := replay_reverse_cons_eq_ok.mp replays
  have follows := ChainState.follows_of_applyBlock applies
  have kept : (n.withBlock b).knowsBlock b.id = true := knowsBlock_withBlock.mpr (.inr rfl)
  have learned : (n.applyBlock b).2.knowsBlock b.id = true := by
    have received := received n b
    generalize n.applyBlock b = r at received
    cases received with
    | known known => exact known
    | malformed _ broken => exact absurd follows.consistent (by simp [broken])
    | unlinked _ orphan => exact absurd path.known (by simp [orphan])
    | refused _ onHead fails =>
      obtain ⟨cs, path', grown⟩ := h.head
      rw [← onHead] at path'
      obtain rfl := path.unique path'
      have grown' := grown_of_replay .genesis below
      rw [List.reverse_reverse, List.append_nil] at grown'
      obtain rfl := grown.unique grown'
      rw [h.rules_eq, applies] at fails
      cases fails
    | extended | stored | switched => exact kept
    | abandoned _ _ _ _ _ fails =>
      rw [h.replayTo_withBlock unknown path, replays] at fails
      cases fails
  rcases h.receive (fun _ _ => hashed) rises with same | ⟨-, taken⟩
  · rw [same, unknown] at learned
    cases learned
  · exact taken

/-- Handing over a branch leaves the store rooted. -/
theorem handed (h : Rooted rules strings n) (laid : ChainState.Laid rules strings bs s) :
    Rooted rules strings (n.run (bs.reverse.map .receive)) ∧
      Handed n bs (n.run (bs.reverse.map .receive)) := by
  induction laid with
  | genesis => exact ⟨h, .refl⟩
  | @block bs s b s' below hashed higher applies ih =>
    obtain ⟨rooted, handed⟩ := ih
    rw [run_reverse_cons]
    have received := rooted.receive (fun _ _ => hashed) (lt_of_eq_succ_of_lt higher)
    rcases received with same | ⟨spelled, taken⟩
    · rw [same]
      exact ⟨rooted, handed.skip⟩
    · exact ⟨rooted.takes taken spelled, handed.take taken⟩

variable (clean : NoCollision strings) (origin : rules.genesisString ∈ strings)

include clean origin

/-- A block of the list that the node knows in the end is stored as its copy. -/
theorem stored_copy (rooted : Rooted rules strings m) (handed : Handed n bs m)
    (hb : b.Sealed strings) (single : ∀ d ∈ bs, d.id = b.id → d = b)
    (known : m.knowsBlock b.id = true) :
    b.id ≠ m.genesisId ∧ m.blocks[b.id]? = some (n.copy b) := by
  have apart : b.id ≠ m.genesisId := by
    rw [genesisId, rooted.genesis_eq]
    exact Block.id_ne_genesis clean hb.hashed origin hb.consistent
  obtain ⟨c, stored⟩ := (knowsBlock_iff.mp known).resolve_left apart
  obtain rfl := handed.eq_copy rooted.keyed single stored
  exact ⟨apart, stored⟩

/-- What a known block of the branch rests on are the copies. -/
theorem path_of_known (h : Rooted rules strings n) (rooted : Rooted rules strings m)
    (handed : Handed n cs m) (laid : ChainState.Laid rules strings bs s)
    (single : ∀ b ∈ bs, ∀ d ∈ cs, d.id = b.id → d = b)
    (known : m.knowsBlock s.head.id = true) : m.Path s.head.id (bs.map n.copy) := by
  induction laid with
  | genesis =>
    have root : m.genesisId = (ChainState.genesis rules).head.id := by
      rw [genesisId, rooted.genesis_eq]
    rw [← root]
    exact .genesis
  | @block bs s b s' below hashed higher applies ih =>
    obtain ⟨first, others⟩ := List.forall_mem_cons.mp single
    have whole := below.block hashed higher applies
    have spelled : b.Sealed strings := ⟨whole.consistent, hashed⟩
    have parent : (n.copy b).previous = s.head.id := by
      rw [Block.previous, h.header_copy clean spelled]
      exact (ChainState.follows_of_applyBlock applies).link
    rw [whole.head_eq] at known ⊢
    obtain ⟨apart, stored⟩ := rooted.stored_copy clean origin handed spelled first known
    have linked := rooted.linked apart stored
    rw [parent] at linked
    have path := ih others linked
    rw [← parent] at path
    exact .up apart stored path

/-- If the branch replays with the stored copies in place, handing it over makes the node
know its last block and brings the node to its height. The induction hands over one block
more: it is known already, or it is new and taken. -/
theorem length_le_of_replay (h : Rooted rules strings n)
    (laid : ChainState.Laid rules strings bs s)
    (replays : replay rules (ChainState.genesis rules) (bs.map n.copy).reverse = .ok t) :
    (n.run (bs.reverse.map .receive)).knowsBlock s.head.id = true ∧
      bs.length ≤ (n.run (bs.reverse.map .receive)).headNum.toNat := by
  induction laid generalizing t with
  | genesis =>
    refine ⟨knowsBlock_iff.mpr (.inl ?_), Nat.zero_le _⟩
    change _ = n.genesis.head.id
    rw [h.genesis_eq]
  | @block bs s b s' below hashed higher applies ih =>
    have whole := below.block hashed higher applies
    have spelled : b.Sealed strings := ⟨whole.consistent, hashed⟩
    have single : ∀ c ∈ b :: bs, ∀ d ∈ bs, d.id = c.id → d = c := by
      intro c hc d hd same
      exact whole.eq_of_id_eq clean (List.mem_cons_of_mem b hd) hc same
    obtain ⟨first, others⟩ := List.forall_mem_cons.mp single
    obtain ⟨u, before, -⟩ := replay_reverse_cons_eq_ok.mp replays
    obtain ⟨linked, -⟩ := ih before
    obtain ⟨rooted, handed⟩ := h.handed below
    rw [run_reverse_cons, ← whole.num_eq, whole.head_eq, ← Block.id, ← Block.num]
    generalize n.run (bs.reverse.map .receive) = m at rooted handed linked
    cases known : m.knowsBlock b.id with
    | true =>
      have same : (m.applyBlock b).2 = m := by simp [applyBlock, known]
      obtain ⟨-, stored⟩ := rooted.stored_copy clean origin handed spelled first known
      have low := rooted.num_le _ _ stored
      rw [Block.num, h.header_copy clean spelled] at low
      rw [same]
      exact ⟨known, UInt32.le_iff_toNat_le.mp low⟩
    | false =>
      have path := h.path_of_known clean origin rooted handed below others linked
      have link : b.previous = s.head.id := (ChainState.follows_of_applyBlock applies).link
      rw [← link] at path
      have new := handed.copy_eq (knowsBlock_eq_false_iff.mp known).2
      rw [List.map_cons, new] at replays
      have taken := rooted.takes_of_replay known hashed (lt_of_eq_succ_of_lt higher) path replays
      exact ⟨taken.knowsBlock_iff.mpr (.inr rfl), UInt32.le_iff_toNat_le.mp taken.num_le⟩

/-- If the node comes to follow the branch, then it executed the copies. -/
theorem replay_of_headId_eq (h : Rooted rules strings n)
    (laid : ChainState.Laid rules strings bs s)
    (same : (n.run (bs.reverse.map .receive)).headId = s.head.id) :
    ∃ t, replay rules (ChainState.genesis rules) (bs.map n.copy).reverse = .ok t := by
  obtain ⟨rooted, handed⟩ := h.handed laid
  generalize n.run (bs.reverse.map .receive) = m at rooted handed same
  have known := rooted.head_known
  obtain ⟨ps, path, grown⟩ := rooted.head
  rw [same] at known path
  have single : ∀ b ∈ bs, ∀ d ∈ bs, d.id = b.id → d = b := by
    intro b hb d hd ids
    exact laid.eq_of_id_eq clean hd hb ids
  have copies := h.path_of_known clean origin rooted handed laid single known
  obtain rfl := path.unique copies
  refine ⟨_, laid.replay_of_grown clean origin grown ?_ ?_⟩
  · rw [List.map_map]
    apply List.map_congr_left
    intro b hb
    exact h.header_copy clean (laid.honest b hb).toSealed
  · intro c hc
    obtain ⟨b, hb, rfl⟩ := List.mem_map.mp hc
    exact (h.sealed_copy (laid.honest b hb).toSealed).hashed

/-- Handing over a branch brings the node to its height exactly if the node was as high
before, or the branch replays with the stored copies in place. -/
theorem length_le_iff (h : Rooted rules strings n) (laid : ChainState.Laid rules strings bs s) :
    bs.length ≤ (n.run (bs.reverse.map .receive)).headNum.toNat ↔
      bs.length ≤ n.headNum.toNat ∨
        ∃ t, replay rules (ChainState.genesis rules) (bs.map n.copy).reverse = .ok t := by
  obtain ⟨-, handed⟩ := h.handed laid
  constructor
  · intro high
    rcases handed.head with same | ⟨b, hb, head⟩
    · rw [headNum, same] at high
      exact .inl high
    · rw [headNum, head, ← Block.num] at high
      refine .inr (h.replay_of_headId_eq clean origin laid ?_)
      rw [headId, head, laid.head_eq_of_length_le hb high]
  · rintro (before | ⟨t, replays⟩)
    · exact Nat.le_trans before (UInt32.le_iff_toNat_le.mp handed.headNum_le)
    · exact (h.length_le_of_replay clean origin laid replays).2

end Rooted

/-- A valid branch, handed to a node block by block, whatever the node was handed before:
the node gets as high as the branch exactly if it was as high before, or the branch also
replays with the copies that the node holds of its blocks. -/
theorem length_le_headNum_iff {name : NodeName} {chainName : String} {config : ChainConfig}
    {requests : List Request} (reached : (make name chainName config).run requests = n)
    (clean : NoCollision (hashedInLife name chainName config requests ++ bs.flatMap (·.hashed)))
    (room : ∀ asked, asked <+: requests → ((make name chainName config).run asked).HasRoom)
    (short : bs.length < UInt32.size) (valid : replay n.rules n.genesis bs = .ok s) :
    bs.length ≤ (n.run (bs.map .receive)).headNum.toNat ↔
      bs.length ≤ n.headNum.toNat ∨ ∃ t, replay n.rules n.genesis (bs.map n.copy) = .ok t := by
  have rooted := rooted_run clean (List.subset_append_left _ _) room
  rw [reached] at rooted
  have origin := List.mem_append_left (bs.flatMap (·.hashed))
    (genesisString_mem_hashedInLife name chainName config requests)
  rw [rooted.genesis_eq, rooted.rules_eq] at valid ⊢
  have hashed : ∀ b ∈ bs.reverse,
      b.hashed ⊆ hashedInLife name chainName config requests ++ bs.flatMap (·.hashed) := by
    intro b hb string mem
    exact List.mem_append_right _ (List.mem_flatMap.mpr ⟨b, List.mem_reverse.mp hb, mem⟩)
  rw [← List.length_reverse] at short
  rw [← bs.reverse_reverse] at valid
  have reaches := rooted.length_le_iff clean origin (ChainState.laid_of_replay hashed short valid)
  rwa [List.reverse_reverse, List.length_reverse, ← List.map_reverse, List.reverse_reverse]
    at reaches

end Node

end

namespace Node

section sample

attribute [local instance] checksum

/-- Three blocks, of which the first carries a transaction. -/
def sampleBranch : List Block :=
  let first := ((make "b" "lab" sampleConfig).handle samplePush).produceBlock
  let second := first.2.produceBlock
  [first.1, second.1, second.2.produceBlock.1]

/-- A node makes two blocks of its own and is then handed a copy of the first block of the
branch, whose transaction carries other signatures. -/
def sampleShadow (signatures : List (PublicKey × Signature)) : List Request :=
  let copies := (sampleBranch.take 1).map fun b =>
    { b with transactions := b.transactions.map fun trx => ⟨trx.transaction, signatures⟩ }
  .produce :: .produce :: copies.map .receive

/-- A node that holds a copy with one more signature still follows the branch. -/
theorem length_le_headNum_iff_sample :
    let requests := sampleShadow [(⟨Bytes.fill 32 [1]⟩, ⟨Bytes.zero 64⟩),
      (sampleConfig.genesisAccount.publicKey, ⟨Bytes.zero 64⟩)]
    let n := (make "a" "lab" sampleConfig).run requests
    n.headNum = 2 ∧
      (sampleBranch.map n.copy).flatMap (·.transactions.map (·.signatures.length)) = [2] ∧
      sampleBranch.flatMap (·.transactions.map (·.signatures.length)) = [1] ∧
      3 ≤ (n.run (sampleBranch.map .receive)).headNum.toNat := by
  intro requests n
  have facts :
      let life := hashedInLife "a" "lab" sampleConfig requests ++ sampleBranch.flatMap (·.hashed)
      let distinct := life.eraseDups
      (∀ s ∈ distinct, s.length < UInt64.size) ∧ (distinct.map Crypto.hash).Nodup ∧
        (∀ asked ∈ requests.inits, ((make "a" "lab" sampleConfig).run asked).HasRoom) ∧
        (replay n.rules n.genesis sampleBranch).isOk = true ∧
        (replay n.rules n.genesis (sampleBranch.map n.copy)).isOk = true ∧
        n.headNum = 2 ∧
        (sampleBranch.map n.copy).flatMap (·.transactions.map (·.signatures.length)) = [2] ∧
        sampleBranch.flatMap (·.transactions.map (·.signatures.length)) = [1] := by
    decide +kernel
  obtain ⟨short, apart, room, valid, copies, height, signed, signed'⟩ := facts
  obtain ⟨s, valid⟩ := exists_eq_ok_iff.mpr valid
  refine ⟨height, signed, signed', (length_le_headNum_iff rfl ?_ ?_ (by decide) valid).mpr ?_⟩
  · exact noCollision_of_nodup short apart fun _ => List.mem_eraseDups.mpr
  · intro asked before
    exact room asked ((List.mem_inits _ _).mpr before)
  · exact .inr (exists_eq_ok_iff.mpr copies)

/-- A node that was handed a copy without signatures while it was ahead keeps it, and is
left behind: it ignores the first block of the branch and cannot replay the others. -/
theorem headNum_lt_of_shadowed :
    let requests := sampleShadow []
    let n := (make "a" "lab" sampleConfig).run requests
    0 < sampleConfig.blockInterval ∧
      NoCollision (hashedInLife "a" "lab" sampleConfig requests ++
        sampleBranch.flatMap (·.hashed)) ∧
      (∀ asked, asked <+: requests → ((make "a" "lab" sampleConfig).run asked).HasRoom) ∧
      (∃ s, replay n.rules n.genesis sampleBranch = .ok s) ∧
      (n.run (sampleBranch.map .receive)).headNum.toNat < sampleBranch.length := by
  intro requests n
  have facts :
      let life := hashedInLife "a" "lab" sampleConfig requests ++ sampleBranch.flatMap (·.hashed)
      let distinct := life.eraseDups
      (∀ s ∈ distinct, s.length < UInt64.size) ∧ (distinct.map Crypto.hash).Nodup ∧
        (∀ asked ∈ requests.inits, ((make "a" "lab" sampleConfig).run asked).HasRoom) ∧
        (replay n.rules n.genesis sampleBranch).isOk = true ∧
        (n.run (sampleBranch.map .receive)).headNum.toNat < sampleBranch.length := by
    decide +kernel
  obtain ⟨short, apart, room, valid, behind⟩ := facts
  refine ⟨by decide, ?_, ?_, exists_eq_ok_iff.mpr valid, behind⟩
  · exact noCollision_of_nodup short apart fun _ => List.mem_eraseDups.mpr
  · intro asked before
    exact room asked ((List.mem_inits _ _).mpr before)

end sample

end Node

end ChainLab
