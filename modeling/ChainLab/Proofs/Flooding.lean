import ChainLab.Proofs.Convergence
import ChainLab.Proofs.EventKinds
import Mathlib.Logic.Relation

/-!
# Flooding loses no block

As long as nobody has made a block, nothing is held back from a new link. So if all links
are there before the first block, each of them owes its target every block its source knows.
When nothing is on its way any more, all that is owed has been delivered: linked nodes know
the same blocks, and so do nodes joined by a path of links. Forks, cycles of links and
the order of service make no difference.
-/

namespace ChainLab

open Network Node

/-- Two nodes are joined by a path of links. -/
def Network.Joined (net : Network) : NodeName → NodeName → Prop :=
  Relation.ReflTransGen fun a b => net.isConnected a b = true

section

variable [Crypto] {rules : Rules} {strings : List (List UInt8)}

/-- Where only the genesis block has been hashed, there is no other block. -/
theorem Block.Honest.ne_genesisString {b : Block} (h : b.Honest rules strings)
    (clean : NoCollision strings) (origin : rules.genesisString ∈ strings) :
    b.header.preimage ≠ rules.genesisString := by
  intro same
  apply h.id_ne_genesis clean origin
  obtain ⟨-, id⟩ := Block.isConsistent_iff.mp h.consistent
  rw [id, BlockHeader.computedId, same]
  rfl

theorem Node.Stocked.heldFrom_eq_nil {n : Node} (h : n.Stocked rules [rules.genesisString])
    (clean : NoCollision [rules.genesisString]) (peer : Node) : n.heldFrom peer = [] := by
  have nothing : n.blocks.keys = [] := by
    apply List.eq_nil_iff_forall_not_mem.mpr
    intro id mem
    obtain ⟨b, stored⟩ := mem_iff_exists_getElem?.mp (Std.ExtTreeMap.mem_keys.mp mem)
    have honest := h.honest id b stored
    have hashed : b.header.preimage ∈ [rules.genesisString] :=
      (List.cons_subset.mp honest.hashed).1
    exact honest.ne_genesisString clean List.mem_cons_self (List.mem_singleton.mp hashed)
  rw [heldFrom, nothing]
  rfl

omit [Crypto] in
theorem Node.not_restsOn_nil {n : Node} {id : BlockId} : ¬ n.RestsOn [] id := by
  intro rests
  induction rests with
  | here mem => cases mem
  | above _ _ ih => exact ih

/-- A link that held nothing back and carries nothing has told its target all. -/
theorem Node.Feeds.knowsBlock {source target : Node} {id : BlockId}
    (h : Feeds rules strings [] source target []) (known : source.knowsBlock id = true) :
    target.knowsBlock id = true := by
  rcases h.promised id known with (told | rests) | ⟨b, listed, -⟩
  · exact told
  · exact absurd rests not_restsOn_nil
  · cases listed

end

namespace Watched

variable [Crypto] {rules : Rules} {strings : List (List UInt8)} {w : Watched}
  {events : List Event}

/-- No link has held anything back. -/
def Clear (w : Watched) : Prop := ∀ x y, w.held x y = []

/-- Without blocks there is nothing to hold back from a new link. -/
theorem Clear.play (clear : w.Clear) (tidy : Tidy rules [rules.genesisString] w [])
    (clean : NoCollision [rules.genesisString]) (event : Event) : (w.play event).Clear := by
  intro x y
  cases event with
  | link a b =>
    cases able : w.net.linkable? a b with
    | none =>
      simp only [Watched.play, able]
      exact clear x y
    | some pair =>
      obtain ⟨na, nb⟩ := pair
      obtain ⟨ha, hb, -, -⟩ := linkable_eq_some.mp able
      simp only [Watched.play, able]
      split
      · exact (tidy.honest a na ha).heldFrom_eq_nil clean nb
      · split
        · exact (tidy.honest b nb hb).heldFrom_eq_nil clean na
        · exact clear x y
  | addNode | unlink | serve | push | produce | arrange => exact clear x y

/-- Links made while there are no blocks hold nothing back. -/
theorem Clear.playAll (clear : w.Clear) (tidy : Tidy rules [rules.genesisString] w [])
    (clean : NoCollision [rules.genesisString]) (interval : 0 < rules.config.blockInterval)
    (h : ∀ e ∈ events, e.makesBlock = false) : (w.playAll events).Clear := by
  induction events generalizing w with
  | nil => exact clear
  | cons event rest ih =>
    obtain ⟨first, others⟩ := List.forall_mem_cons.mp h
    have unmade : w.net.made [event] = [] := made_eq_nil (List.forall_mem_singleton.mpr first)
    have next : Tidy rules [rules.genesisString] (w.play event) [] := by
      apply tidy.play clean List.mem_cons_self event interval
      · rw [unmade]
        exact fun b hb => nomatch hb
      · rw [unmade]
        exact fun b hb => nomatch hb
    exact ih (clear.play tidy clean event) next others

theorem held_playAll (h : ∀ e ∈ events, e.makesLink = false) :
    (w.playAll events).held = w.held := by
  induction events generalizing w with
  | nil => rfl
  | cons event rest ih =>
    obtain ⟨first, others⟩ := List.forall_mem_cons.mp h
    have later : ((w.play event).playAll rest).held = (w.play event).held := ih others
    cases event with
    | link a b => cases first
    | addNode | unlink | serve | push | produce | arrange => exact later

/-- When nothing is queued, a node knows what its peers know and is as high as they are, if
no link has held anything back. -/
theorem Tidy.eq_of_linked (h : Tidy rules strings w []) (clear : w.Clear)
    (clean : NoCollision strings) (origin : rules.genesisString ∈ strings)
    (quiet : w.net.queued = 0) {a b : NodeName} {na nb : Node}
    (linked : w.net.isConnected a b = true) (ha : w.net.nodes[a]? = some na)
    (hb : w.net.nodes[b]? = some nb) :
    (∀ id, na.knowsBlock id = nb.knowsBlock id) ∧ na.headNum = nb.headNum := by
  by_cases apart : a = b
  · subst apart
    cases ha.symm.trans hb
    exact ⟨fun id => rfl, rfl⟩
  have there : Edge.between a b ∈ w.net.links := linked
  have back : Edge.between b a ∈ w.net.links := Edge.between_comm apart ▸ there
  have unstranded : ∀ {x y source target}, ¬ Stranded (w.held x y) source target := by
    intro x y source target stranded
    obtain ⟨-, id, -, mem⟩ := stranded
    rw [clear x y] at mem
    cases mem
  have told := h.feeds a b na nb apart there ha hb
  have heard := h.feeds b a nb na (Ne.symm apart) back hb ha
  rw [queue_of_queued_eq_zero quiet, clear] at told heard
  constructor
  · intro id
    exact Bool.eq_iff_iff.mpr ⟨told.knowsBlock, heard.knowsBlock⟩
  · apply UInt32.le_antisymm
    · exact (h.headNum_le clean origin quiet there apart ha hb).resolve_right unstranded
    · exact (h.headNum_le clean origin quiet back (Ne.symm apart) hb ha).resolve_right unstranded

/-- Flooding loses no block. A run whose links are asked for before any block is comes down
to events of which those up to some moment make no block and those from then on no link.
After any such events, links served in any order: when nothing is queued, nodes joined by
a path of links know the same blocks and are equally high. -/
theorem knowsBlock_eq_of_joined (config : ScenarioConfig) (seed : BitVec 128) :
    (∀ setup run : List Operation, (∀ o ∈ setup, o.makesBlock = false) →
        (∀ o ∈ run, o.makesLink = false) →
        let before := (Network.make config seed).trace setup
        let after := ((Network.make config seed).performAll setup).trace run
        (∀ e ∈ before, e.makesBlock = false) ∧ (∀ e ∈ after, e.makesLink = false) ∧
          (Network.make config seed).performAll (setup ++ run) =
            (Network.make config seed).playAll (before ++ after)) ∧
      ∀ before after : List Event, (∀ e ∈ before, e.makesBlock = false) →
        (∀ e ∈ after, e.makesLink = false) → 0 < config.chain.blockInterval →
        (∀ b ∈ (Network.make config seed).made (before ++ after), b.Regular) →
        NoCollision (hashedIn config seed (before ++ after)) →
        let net := (Network.make config seed).playAll (before ++ after)
        net.queued = 0 → ∀ a b na nb, net.Joined a b →
          net.nodes[a]? = some na → net.nodes[b]? = some nb →
          (∀ id, na.knowsBlock id = nb.knowsBlock id) ∧ na.headNum = nb.headNum := by
  constructor
  · intro setup run noBlocks noLinks before after
    refine ⟨forall_trace (fun _ _ => makesBlock_eventsOf) noBlocks,
      forall_trace (fun _ _ => makesLink_eventsOf) noLinks, ?_⟩
    rw [playAll_append, playAll_trace, playAll_trace]
    exact List.foldl_append
  · intro before after noBlocks noLinks interval regular clean net quiet a b na nb joined ha hb
    have origin : (rulesOf config).genesisString ∈ hashedIn config seed (before ++ after) :=
      List.mem_cons_self
    have alone : NoCollision [(rulesOf config).genesisString] :=
      clean.mono (List.cons_subset.mpr ⟨origin, List.nil_subset _⟩)
    let w := (start config seed).playAll (before ++ after)
    have same : w.net = net := net_playAll
    have tidy : Tidy (rulesOf config) (hashedIn config seed (before ++ after)) w [] := by
      refine (tidy_start config seed).playAll clean origin _ interval (fun b hb => ?_) regular
      exact fun s hs => List.mem_cons_of_mem _ (List.mem_flatMap.mpr ⟨b, hb, hs⟩)
    have clear : w.Clear := by
      have first : (start config seed).Clear := fun _ _ => rfl
      have settled := first.playAll (tidy_start config seed) alone interval noBlocks
      have split : w = ((start config seed).playAll before).playAll after := List.foldl_append
      intro x y
      rw [split, held_playAll noLinks]
      exact settled x y
    rw [← same] at quiet ha hb joined
    -- Every node on the path is there, so it agrees with the next one.
    induction joined generalizing nb with
    | refl =>
      cases ha.symm.trans hb
      exact ⟨fun id => rfl, rfl⟩
    | @tail m b _ linked ih =>
      obtain ⟨⟨nm, hm⟩, -⟩ := tidy.exists_node linked
      obtain ⟨knows, high⟩ := ih nm hm
      obtain ⟨knows', high'⟩ := tidy.eq_of_linked clear clean origin quiet linked hm hb
      exact ⟨fun id => (knows id).trans (knows' id), high.trans high'⟩

end Watched

namespace Watched

section sample

attribute [local instance] checksum

def sampleSetup : List Operation :=
  [.addNode "a", .addNode "b", .addNode "c", .connect "a" "b", .connect "b" "c"]

/-- The ends of the line make blocks of the same height at the same time, one of them
another, and all of it crosses the node in the middle. -/
def sampleRun : List Operation :=
  [.produceBlock "a", .produceBlock "c", .step, .produceBlock "c", .propagate]

theorem knowsBlock_eq_of_joined_sample :
    let net := (make sampleNetwork 7).performAll (sampleSetup ++ sampleRun)
    net.isConnected "a" "c" = false ∧
      ∃ na nc, net.nodes["a"]? = some na ∧ net.nodes["c"]? = some nc ∧ na.blocks.size = 3 ∧
        (∀ id, na.knowsBlock id = nc.knowsBlock id) ∧ na.headNum = 2 ∧ nc.headNum = 2 := by
  intro net
  have facts :
      let before := (make sampleNetwork 7).trace sampleSetup
      let after := ((make sampleNetwork 7).performAll sampleSetup).trace sampleRun
      let distinct := (hashedIn sampleNetwork 7 (before ++ after)).eraseDups
      (∀ b ∈ (make sampleNetwork 7).made (before ++ after),
          b.header.time.ticks.toNat < UInt64.size - 1 ∧ b.num ≠ 0) ∧
        (∀ s ∈ distinct, s.length < UInt64.size) ∧ (distinct.map Crypto.hash).Nodup ∧
        net.queued = 0 ∧ net.isConnected "a" "b" = true ∧ net.isConnected "b" "c" = true ∧
        net.isConnected "a" "c" = false ∧
        ((net.nodes["a"]?).bind fun na => (net.nodes["c"]?).map fun nc =>
          na.blocks.size = 3 && na.headNum = 2) = some true := by
    decide +kernel
  obtain ⟨regular, short, apart, quiet, first, second, unlinked, ends⟩ := facts
  obtain ⟨na, ha, ends⟩ := Option.bind_eq_some_iff.mp ends
  obtain ⟨nc, hc, ends⟩ := Option.map_eq_some_iff.mp ends
  obtain ⟨three, two⟩ := Bool.and_eq_true_iff.mp ends
  have joined : net.Joined "a" "c" := .tail (.single first) second
  obtain ⟨spelled, agree⟩ := knowsBlock_eq_of_joined sampleNetwork 7
  obtain ⟨noBlocks, noLinks, same⟩ := spelled sampleSetup sampleRun (by decide) (by decide)
  have known : (∀ id, na.knowsBlock id = nc.knowsBlock id) ∧ na.headNum = nc.headNum := by
    have clean := noCollision_of_nodup short apart fun _ => List.mem_eraseDups.mpr
    refine agree _ _ noBlocks noLinks (by decide) regular clean ?_ "a" "c" na nc ?_ ?_ ?_
    · rw [← same]
      exact quiet
    · rw [← same]
      exact joined
    · rw [← same]
      exact ha
    · rw [← same]
      exact hc
  obtain ⟨knows, high⟩ := known
  have height := of_decide_eq_true two
  exact ⟨unlinked, na, nc, ha, hc, of_decide_eq_true three, knows, height, high ▸ height⟩

end sample

end Watched

end ChainLab
