import ChainLab.Chain.Execution

/-!
# Chain nodes

A node keeps every block it was given on any branch, follows the longest branch
it can replay, and holds transactions that wait for a block. Consensus is not
simulated: any node may put a block on its head.
-/

namespace ChainLab

structure Node where
  name : NodeName
  rules : Rules
  genesis : ChainState
  /-- All known blocks but the genesis block, on any branch. -/
  blocks : Std.ExtTreeMap BlockId Block
  headState : ChainState
  /-- The head state with the pending transactions on top. -/
  pendingState : ChainState
  pending : List SignedTransaction

/-- What became of a block handed to a node. -/
inductive BlockOutcome where
  | alreadyKnown
  /-- Kept on a branch that is not longer than the current one. -/
  | stored
  | newHead
  /-- Made another branch the current one. -/
  | switchedFork
  deriving DecidableEq

namespace BlockOutcome

def name : BlockOutcome → String
  | alreadyKnown => "AlreadyKnown"
  | stored => "Stored"
  | newHead => "NewHead"
  | switchedFork => "SwitchedFork"

end BlockOutcome

namespace Node

def genesisId (n : Node) : BlockId := n.genesis.head.id

def headId (n : Node) : BlockId := n.headState.head.id

def headNum (n : Node) : UInt32 := n.headState.head.num

def headTime (n : Node) : Time := n.headState.head.time

def account? (n : Node) (name : AccountName) : Option Account := n.pendingState.account? name

def knowsBlock (n : Node) (id : BlockId) : Bool := id = n.genesisId || n.blocks.contains id

/-- Whether a transaction is pending or part of the current chain. -/
def knowsTransaction (n : Node) (digest : Digest) : Bool := n.pendingState.hasApplied digest

def blockAt? (n : Node) (num : Nat) : Option Block :=
  (n.headState.blockId? num).bind fun id => n.blocks[id]?

/-- The numbers of the current chain's blocks. -/
def numbers (n : Node) : List Nat := List.range' 1 n.headNum.toNat

/-- The blocks of the current chain from block 1 to the head. -/
def chainBlocks (n : Node) : List Block := n.numbers.filterMap n.blockAt?

/-- The blocks from genesis to `cursor`, put in front of `above`. -/
def branch (n : Node) : (fuel : Nat) → BlockId → List Block → Except ChainError (List Block)
  | 0, cursor, _ => .error (.unlinkableBlock cursor .zero)
  | fuel + 1, cursor, above =>
    if cursor = n.genesisId then .ok above
    else
      match n.blocks[cursor]? with
      | none => .error (.unlinkableBlock cursor .zero)
      | some b => n.branch fuel b.previous (b :: above)

variable [Crypto]

/-- A node that knows nothing but the genesis of its chain. -/
def make (name : NodeName) (chainName : String) (config : ChainConfig) : Node :=
  let rules : Rules := ⟨Crypto.hash chainName.toUTF8.toList, config⟩
  let genesis := ChainState.genesis rules
  { name := name
    rules := rules
    genesis := genesis
    blocks := ∅
    headState := genesis
    pendingState := genesis
    pending := [] }

/-- Apply blocks one after the other. -/
def replay (rules : Rules) : ChainState → List Block → Except ChainError ChainState
  | s, [] => .ok s
  | s, b :: rest => do replay rules (← s.applyBlock rules b) rest

/-- The state after the branch that ends in `tip`, built up from genesis. -/
def replayTo (n : Node) (tip : BlockId) : Except ChainError ChainState := do
  replay n.rules n.genesis (← n.branch (n.blocks.size + 1) tip [])

/-- Validate a transaction against the pending state at head time and keep it. -/
def pushTransaction (n : Node) (trx : SignedTransaction) : Except ChainError Digest × Node :=
  match n.pendingState.applyTransaction n.rules n.headTime trx with
  | .error error => (.error error, n)
  | .ok next => (.ok trx.digest, { n with pendingState := next, pending := n.pending ++ [trx] })

/-- Try the pending transactions again on top of the head and drop those that fail. -/
def rebuildPending (n : Node) : Node :=
  let (state, kept) := n.headState.takeValid n.rules n.headTime n.pending
  { n with pendingState := state, pending := kept }

/-- Put a block with every pending transaction that still applies on the head. -/
def produceBlock (n : Node) : Block × Node :=
  let time := n.headTime.after n.rules.config.blockInterval
  let (state, included) := n.headState.takeValid n.rules time n.pending
  let b := Block.make n.headState.head time n.name included
  let state := state.advance b.header
  (b, { n with
    blocks := n.blocks.insert b.id b
    headState := state
    pendingState := state
    pending := [] })

/-- The transactions of the current chain's blocks that are not on a new chain. -/
def orphanedTransactions (n : Node) (new : ChainState) : List SignedTransaction :=
  let shared (num : Nat) : Bool := new.blockId? num = n.headState.blockId? num
  let abandoned := n.numbers.dropWhile shared
  (abandoned.filterMap n.blockAt?).flatMap (·.transactions)

/-- Take a block from a peer. The head moves only to a strictly longer branch, and
a longer branch that cannot be replayed loses its last block again. -/
def applyBlock (n : Node) (b : Block) : Except ChainError BlockOutcome × Node :=
  if n.knowsBlock b.id then (.ok .alreadyKnown, n)
  else if !b.isConsistent then (.error (.invalidBlock b.id .malformedBlock), n)
  else if !n.knowsBlock b.previous then (.error (.unlinkableBlock b.id b.previous), n)
  else if b.previous = n.headId then
    match n.headState.applyBlock n.rules b with
    | .error error => (.error error, n)
    | .ok state =>
      let n := { n with blocks := n.blocks.insert b.id b, headState := state }
      (.ok .newHead, n.rebuildPending)
  else
    let n := { n with blocks := n.blocks.insert b.id b }
    if b.num ≤ n.headNum then (.ok .stored, n)
    else
      match n.replayTo b.id with
      | .error error => (.error error, { n with blocks := n.blocks.erase b.id })
      | .ok state =>
        let queue := n.orphanedTransactions state ++ n.pending
        (.ok .switchedFork, { n with headState := state, pending := queue }.rebuildPending)

/-- A transaction bound to the current head, with a chosen lifetime. -/
def draft (n : Node) (lifetime : UInt64) (messages : List Message) : Transaction where
  expiration := n.headTime.after lifetime
  refBlockNum := n.headNum
  refBlockTag := n.headId.refTag
  messages := messages

/-- The lifetime a draft has unless another one is asked for. -/
def defaultLifetime (n : Node) : UInt64 := n.rules.config.defaultExpirationOffset

end Node

end ChainLab
