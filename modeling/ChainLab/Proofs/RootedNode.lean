import ChainLab.Proofs.ReplicaAgreement
import ChainLab.Proofs.StorePath

/-!
# Whatever a node is handed, its store is rooted

Blocks off the head's branch are stored without being executed, so they may be forged.
Still each of them spells its contents and rests on stored blocks down to genesis, none
is numbered above the head, and the head state is the state after the stored blocks
below the head.
-/

namespace ChainLab

/-- Below the largest number the next one does not wrap round. -/
theorem lt_of_eq_succ {num next : UInt32} (room : num.toNat + 1 < UInt32.size)
    (succ : next = num + 1) : num < next := by
  rw [succ]
  apply UInt32.lt_add_one
  rintro rfl
  exact absurd room (by decide)

/-- A number above another one is not what the largest number wraps round to. -/
theorem lt_of_eq_succ_of_lt {num next low : UInt32} (above : low < next)
    (succ : next = num + 1) : num < next := by
  rw [succ]
  apply UInt32.lt_add_one
  rintro rfl
  have wrapped : next = 0 := succ
  rw [wrapped] at above
  exact UInt32.not_lt_zero above

section

variable [Crypto] {strings : List (List UInt8)} {b c : Block}

/-- A block whose identifier and root are those of its contents, hashed from the given
strings. Its transactions may be anything. -/
structure Block.Sealed (strings : List (List UInt8)) (b : Block) : Prop where
  consistent : b.isConsistent = true
  hashed : b.hashed ⊆ strings

theorem Block.Sealed.header_eq (clean : NoCollision strings) (h : b.Sealed strings)
    (h' : c.Sealed strings) (same : b.id = c.id) : b.header = c.header :=
  (contents_eq_of_id_eq clean h.hashed h'.hashed h.consistent h'.consistent same).1

theorem ChainState.Grown.head_eq {rules : Rules} {bs : List Block} {s : ChainState}
    (h : ChainState.Grown rules (b :: bs) s) : s.head = b.header := by
  cases h with
  | block _ last => exact last.head_eq

end

namespace Node

/-- The node can number one more block. -/
def HasRoom (n : Node) : Prop := n.headNum.toNat + 1 < UInt32.size

instance (n : Node) : Decidable n.HasRoom := inferInstanceAs (Decidable (_ < _))

theorem HasRoom.lt_of_eq_succ {n : Node} (room : n.HasRoom) {num : UInt32}
    (next : num = n.headNum + 1) : n.headNum < num := ChainLab.lt_of_eq_succ room next

variable [Crypto] {rules : Rules} {strings : List (List UInt8)} {n n' : Node} {id : BlockId}
  {b : Block} {bs : List Block}

/-- What each request keeps holds after any run, as long as the nodes on the way are fine. -/
theorem run_induction (kept fine : Node → Prop)
    (step : ∀ (n : Node) (request : Request), kept n → fine n → fine (n.handle request) →
      n.hashedBy request ⊆ strings → kept (n.handle request))
    {requests : List Request} (start : kept n) (hashed : n.hashedIn requests ⊆ strings)
    (range : ∀ asked, asked <+: requests → fine (n.run asked)) : kept (n.run requests) := by
  induction requests generalizing n with
  | nil => exact start
  | cons request rest ih =>
    obtain ⟨first, later⟩ := List.append_subset.mp hashed
    have next : ∀ asked, asked <+: rest → fine ((n.handle request).run asked) := by
      intro asked before
      exact range (request :: asked) (List.cons_prefix_cons.mpr ⟨rfl, before⟩)
    have once := step n request start (range [] List.nil_prefix) (next [] List.nil_prefix) first
    exact ih once later next

/-- What is true of the store and the head of a node that may have been handed anything. -/
structure Rooted (rules : Rules) (strings : List (List UInt8)) (n : Node) : Prop where
  rules_eq : n.rules = rules
  genesis_eq : n.genesis = ChainState.genesis rules
  keyed : n.Keyed
  sealed : ∀ (id : BlockId) (b : Block), n.blocks[id]? = some b → b.Sealed strings
  path : ∀ id : BlockId, n.knowsBlock id = true → ∃ bs, n.Path id bs
  num_le : ∀ (id : BlockId) (b : Block), n.blocks[id]? = some b → b.num ≤ n.headNum
  head : ∃ bs, n.Path n.headId bs ∧ ChainState.Grown rules bs n.headState

/-- A node comes to know a block, and makes it its head exactly if it is numbered above the
head there was. -/
structure Takes (n : Node) (b : Block) (n' : Node) : Prop extends Learned n b n' where
  rules_eq : n'.rules = n.rules
  head : (b.num ≤ n.headNum ∧ n'.headState = n.headState) ∨
    (n.headNum < b.num ∧
      ∃ bs, n.Path b.previous bs ∧ ChainState.Grown n.rules (b :: bs) n'.headState)

namespace Takes

theorem headNum_le (h : Takes n b n') : n.headNum ≤ n'.headNum := by
  rcases h.head with ⟨-, same⟩ | ⟨higher, bs, -, grown⟩
  · rw [headNum, headNum, same]
    exact UInt32.le_refl _
  · have top : n'.headNum = b.num := by rw [headNum, grown.head_eq, Block.num]
    rw [top]
    exact UInt32.le_of_lt higher

theorem num_le (h : Takes n b n') : b.num ≤ n'.headNum := by
  rcases h.head with ⟨low, same⟩ | ⟨-, bs, -, grown⟩
  · rw [headNum, same]
    exact low
  · rw [headNum, grown.head_eq]
    exact UInt32.le_refl _

end Takes

namespace Rooted

theorem make (name : NodeName) (chainName : String) (config : ChainConfig) :
    Rooted ⟨Crypto.hash chainName.toUTF8.toList, config⟩ strings (make name chainName config) where
  rules_eq := rfl
  genesis_eq := rfl
  keyed id b hb := by simp [Node.make] at hb
  sealed id b hb := by simp [Node.make] at hb
  path id known := by
    rcases knowsBlock_iff.mp known with rfl | ⟨b, hb⟩
    · exact ⟨[], .genesis⟩
    · simp [Node.make] at hb
  num_le id b hb := by simp [Node.make] at hb
  head := ⟨[], .genesis, .genesis⟩

/-- Only the store and the head matter. -/
theorem congr (h : Rooted rules strings n) (sameRules : n'.rules = n.rules)
    (sameGenesis : n'.genesis = n.genesis) (sameBlocks : n'.blocks = n.blocks)
    (sameHead : n'.headState = n.headState) : Rooted rules strings n' := by
  have within : Within n n' := ⟨sameGenesis, fun id b hb => by rw [sameBlocks, hb]⟩
  refine ⟨sameRules.trans h.rules_eq, sameGenesis.trans h.genesis_eq, ?_, ?_, ?_, ?_, ?_⟩
  · rw [Keyed, sameBlocks]
    exact h.keyed
  · rw [sameBlocks]
    exact h.sealed
  · exact exists_path_congr sameGenesis sameBlocks h.path
  · rw [sameBlocks, headNum, sameHead]
    exact h.num_le
  · obtain ⟨bs, path, grown⟩ := h.head
    rw [headId, sameHead]
    exact ⟨bs, path.mono within, grown⟩

/-- A sealed block that is taken leaves the store rooted. -/
theorem takes (h : Rooted rules strings n) (taken : Takes n b n') (hb : b.Sealed strings) :
    Rooted rules strings n' where
  rules_eq := taken.rules_eq.trans h.rules_eq
  genesis_eq := taken.genesis_eq.trans h.genesis_eq
  keyed := h.keyed.learned taken.toLearned
  sealed := taken.forall_stored h.sealed hb
  path := taken.exists_path h.path
  num_le := by
    refine taken.forall_stored ?_ taken.num_le
    intro id c hc
    exact UInt32.le_trans (h.num_le id c hc) taken.headNum_le
  head := by
    rcases taken.head with ⟨-, same⟩ | ⟨-, bs, path, grown⟩
    · obtain ⟨bs, path, grown⟩ := h.head
      rw [headId, same]
      exact ⟨bs, path.mono taken.within, grown⟩
    · have tip : n'.headId = b.id := by rw [headId, grown.head_eq, Block.id]
      rw [h.rules_eq] at grown
      rw [tip]
      exact ⟨b :: bs, taken.path path, grown⟩

theorem head_known (h : Rooted rules strings n) : n.knowsBlock n.headId = true := by
  obtain ⟨bs, path, -⟩ := h.head
  exact path.known

theorem linked (h : Rooted rules strings n) (apart : id ≠ n.genesisId)
    (stored : n.blocks[id]? = some b) : n.knowsBlock b.previous = true :=
  linked_of_path h.path apart stored

/-- The node replays the path of a known block, from genesis on. -/
theorem replayTo_eq (h : Rooted rules strings n) (path : n.Path id bs) :
    n.replayTo id = replay rules (ChainState.genesis rules) bs.reverse := by
  rw [replayTo_of_path h.keyed path, h.rules_eq, h.genesis_eq]

theorem replayTo_withBlock (h : Rooted rules strings n) (unknown : n.knowsBlock b.id = false)
    (path : n.Path b.previous bs) :
    (n.withBlock b).replayTo b.id =
      replay rules (ChainState.genesis rules) (b :: bs).reverse := by
  rw [Node.replayTo_withBlock h.keyed unknown path, h.rules_eq, h.genesis_eq]

/-- A block from a peer leaves no trace or is taken. -/
theorem receive (h : Rooted rules strings n)
    (hashed : n.knowsBlock b.id = false → b.isConsistent = true → b.hashed ⊆ strings)
    (rises : b.num = n.headNum + 1 → n.headNum < b.num) :
    (n.applyBlock b).2 = n ∨ (b.Sealed strings ∧ Takes n b (n.applyBlock b).2) := by
  have received := received n b
  generalize n.applyBlock b = r at received
  cases received with
  | known | malformed | unlinked | refused | abandoned => exact .inl rfl
  | @extended unknown onHead state applies =>
    obtain ⟨link, num, later, consistent, -⟩ := ChainState.applyBlock_eq_ok.mp applies
    have linked : n.knowsBlock b.previous = true := onHead ▸ h.head_known
    obtain ⟨bs, path, grown⟩ := h.head
    rw [← h.rules_eq] at grown
    refine .inr ⟨⟨consistent, hashed unknown consistent⟩, ⟨rfl, rfl, unknown, linked⟩, rfl, .inr ?_⟩
    refine ⟨rises num, bs, onHead ▸ path, ?_⟩
    exact grown.block (ChainState.follows_of_applyBlock applies)
  | stored unknown consistent linked offHead short =>
    exact .inr ⟨⟨consistent, hashed unknown consistent⟩, ⟨rfl, rfl, unknown, linked⟩, rfl,
      .inl ⟨short, rfl⟩⟩
  | @switched unknown consistent linked offHead long state replays =>
    obtain ⟨bs, path⟩ := h.path _ linked
    rw [h.replayTo_withBlock unknown path, ← h.rules_eq] at replays
    have grown := grown_of_replay .genesis replays
    rw [List.reverse_reverse, List.append_nil] at grown
    exact .inr ⟨⟨consistent, hashed unknown consistent⟩, ⟨rfl, rfl, unknown, linked⟩, rfl,
      .inr ⟨long, bs, path, grown⟩⟩

/-- A block that is numbered above the head is numbered above all that is stored, so it is new. -/
theorem unknown_of_higher (h : Rooted rules strings n) (clean : NoCollision strings)
    (origin : rules.genesisString ∈ strings) (hb : b.Sealed strings) (higher : n.headNum < b.num) :
    n.knowsBlock b.id = false := by
  refine knowsBlock_eq_false_iff.mpr ⟨?_, Option.eq_none_iff_forall_ne_some.mpr ?_⟩
  · rw [genesisId, h.genesis_eq]
    exact Block.id_ne_genesis clean hb.hashed origin hb.consistent
  · intro c hc
    have header := (h.sealed _ c hc).header_eq clean hb (h.keyed _ c hc)
    have low := h.num_le _ c hc
    rw [Block.num, header] at low
    exact UInt32.lt_irrefl _ (UInt32.lt_of_lt_of_le higher low)

/-- A block that the node makes is taken. -/
theorem produce (h : Rooted rules strings n) (clean : NoCollision strings)
    (origin : rules.genesisString ∈ strings) (hashed : n.produceBlock.1.hashed ⊆ strings)
    (room : n.HasRoom) :
    n.produceBlock.1.Sealed strings ∧ Takes n n.produceBlock.1 n.produceBlock.2 := by
  have follows := follows_produceBlock (n := n)
  have made : n.produceBlock.1.Sealed strings := ⟨follows.consistent, hashed⟩
  have higher : n.headNum < n.produceBlock.1.num := room.lt_of_eq_succ rfl
  have linked : n.knowsBlock n.produceBlock.1.previous = true := follows.link ▸ h.head_known
  have unknown := h.unknown_of_higher clean origin made higher
  obtain ⟨bs, path, grown⟩ := h.head
  rw [← h.rules_eq] at grown
  exact ⟨made, ⟨rfl, rfl, unknown, linked⟩, rfl,
    .inr ⟨higher, bs, follows.link ▸ path, grown.block follows⟩⟩

/-- One request leaves the store rooted. -/
theorem handle (h : Rooted rules strings n) (clean : NoCollision strings)
    (origin : rules.genesisString ∈ strings) (request : Request)
    (hashed : n.hashedBy request ⊆ strings) (room : n.HasRoom) :
    Rooted rules strings (n.handle request) := by
  cases request with
  | push trx =>
    simp only [Node.handle, Node.pushTransaction]
    split
    · exact h
    · exact h.congr rfl rfl rfl rfl
  | produce =>
    obtain ⟨made, taken⟩ := h.produce clean origin hashed room
    exact h.takes taken made
  | receive b =>
    have spelled : n.knowsBlock b.id = false → b.isConsistent = true → b.hashed ⊆ strings := by
      intro unknown consistent
      simpa [hashedBy, unknown, consistent] using hashed
    rcases h.receive spelled room.lt_of_eq_succ with same | ⟨hb, taken⟩
    · rw [Node.handle, same]
      exact h
    · exact h.takes taken hb

/-- Any run leaves the store rooted, as long as the heads on the way can be numbered on. -/
theorem run (h : Rooted rules strings n) (clean : NoCollision strings)
    (origin : rules.genesisString ∈ strings) {requests : List Request}
    (hashed : n.hashedIn requests ⊆ strings)
    (room : ∀ asked, asked <+: requests → (n.run asked).HasRoom) :
    Rooted rules strings (n.run requests) := by
  refine run_induction (Rooted rules strings) HasRoom ?_ h hashed room
  intro n request rooted room _ hashed
  exact rooted.handle clean origin request hashed room

end Rooted

theorem genesisString_mem_hashedInLife (name : NodeName) (chainName : String)
    (config : ChainConfig) (requests : List Request) :
    Rules.genesisString ⟨Crypto.hash chainName.toUTF8.toList, config⟩ ∈
      hashedInLife name chainName config requests :=
  List.mem_append_left _ (by simp [hashedAtStart])

theorem rooted_run {name : NodeName} {chainName : String} {config : ChainConfig}
    {requests : List Request} (clean : NoCollision strings)
    (life : hashedInLife name chainName config requests ⊆ strings)
    (room : ∀ asked, asked <+: requests → ((Node.make name chainName config).run asked).HasRoom) :
    Rooted ⟨Crypto.hash chainName.toUTF8.toList, config⟩ strings
      ((Node.make name chainName config).run requests) := by
  have origin := life (genesisString_mem_hashedInLife name chainName config requests)
  have hashed := (List.append_subset.mp life).2
  exact (Rooted.make name chainName config).run clean origin hashed room

end Node

end ChainLab
