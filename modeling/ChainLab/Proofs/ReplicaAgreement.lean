import ChainLab.Proofs.NodeRun

/-!
# Nodes with the same head agree on everything

Two nodes of one chain may have come to a head by making blocks, by extending their
branch or by switching to another one, and may hold copies of a block whose
transactions carry different signatures. If their heads have the same identifier,
their head states are the same state.
-/

namespace ChainLab.Node

section

variable [Crypto]

/-- The strings hashed when a node is made. -/
def hashedAtStart (chainName : String) (config : ChainConfig) : List (List UInt8) :=
  [chainName.toUTF8.toList, ChainState.genesisPreimage config.genesisAccount,
   Rules.genesisString ⟨Crypto.hash chainName.toUTF8.toList, config⟩]

/-- The strings hashed in the life of a node to identify the chain and the blocks that
it makes or finds consistent. -/
def hashedInLife (name : NodeName) (chainName : String) (config : ChainConfig)
    (requests : List Request) : List (List UInt8) :=
  hashedAtStart chainName config ++ (make name chainName config).hashedIn requests

theorem built_run (name : NodeName) (chainName : String) (config : ChainConfig)
    (requests : List Request) :
    Built ⟨Crypto.hash chainName.toUTF8.toList, config⟩
      (·.hashed ⊆ hashedInLife name chainName config requests)
      ((make name chainName config).run requests) :=
  (built_make name chainName config _).run requests

/-- Replica agreement: the identifier of the head determines the head state. -/
theorem headState_eq_of_headId_eq {a b : NodeName} {chainName : String} {config : ChainConfig}
    {asked asked' : List Request}
    (clean : NoCollision
      (hashedInLife a chainName config asked ++ hashedInLife b chainName config asked'))
    (same : ((make a chainName config).run asked).headId =
      ((make b chainName config).run asked').headId) :
    ((make a chainName config).run asked).headState =
      ((make b chainName config).run asked').headState := by
  obtain ⟨bs, grown, hbs⟩ := (built_run a chainName config asked).grown
  obtain ⟨cs, grown', hcs⟩ := (built_run b chainName config asked').grown
  refine grown.eq_of_head_id_eq clean ?_ grown' ?_ ?_ same
  · exact List.mem_append_left _ (List.mem_append_left _ (by simp [hashedAtStart]))
  · exact fun b hb => List.subset_append_of_subset_left _ (hbs b hb)
  · exact fun c hc => List.subset_append_of_subset_right _ (hcs c hc)

end

section sample

attribute [local instance] checksum

/-- A transaction on the genesis block of a sample chain. -/
def samplePing : Transaction where
  expiration := ⟨100⟩
  refBlockNum := 0
  refBlockTag := (make "a" "lab" sampleConfig).headId.refTag
  messages := [⟨"init0", (∅ : LevelSet).insert (Level.active "init0"), "ping", [1]⟩]

/-- The transaction as the maker of a block got it, and as it was sent on, with one
more signature. -/
def samplePush : Request :=
  .push ⟨samplePing, [(sampleConfig.genesisAccount.publicKey, ⟨Bytes.zero 64⟩)]⟩

def sampleCopy : Request :=
  let b := ((make "a" "lab" sampleConfig).handle samplePush).produceBlock.1
  .receive { b with
    transactions :=
      [⟨samplePing, [(⟨Bytes.fill 32 [1]⟩, ⟨Bytes.zero 64⟩),
        (sampleConfig.genesisAccount.publicKey, ⟨Bytes.zero 64⟩)]⟩] }

/-- A maker of a block and a receiver of a copy with other signatures agree. -/
theorem headState_eq_of_headId_eq_sample :
    ((make "a" "lab" sampleConfig).run [samplePush, .produce]).headNum = 1 ∧
    ((make "a" "lab" sampleConfig).run [samplePush, .produce]).headState =
      ((make "b" "lab" sampleConfig).run [sampleCopy]).headState := by
  have facts :
      let made := hashedInLife "a" "lab" sampleConfig [samplePush, .produce]
      let copied := hashedInLife "b" "lab" sampleConfig [sampleCopy]
      (∀ s ∈ made, s.length < UInt64.size) ∧ (made.map Crypto.hash).Nodup ∧
        made ++ copied ⊆ made ∧
        ((make "a" "lab" sampleConfig).run [samplePush, .produce]).headNum = 1 ∧
        ((make "a" "lab" sampleConfig).run [samplePush, .produce]).headId =
          ((make "b" "lab" sampleConfig).run [sampleCopy]).headId := by
    decide +kernel
  obtain ⟨short, apart, within, height, same⟩ := facts
  exact ⟨height, headState_eq_of_headId_eq (noCollision_of_nodup short apart within) same⟩

end sample

end ChainLab.Node
