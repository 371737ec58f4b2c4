import Mathlib
/-!
# `consensus/replay.go`: the replay of blocks in the ABCI handshake

On restart the handshake asks the app for the height of its last commit and
replays what the app and the state store lack of the blocks the block store
holds.  `ReplayBlocks` first sends `InitChain` to an app at height `0`, then
splits on the three heights of the app, the block store and the saved state:
where the store is one block ahead of the state, the last block goes
through `ApplyBlock` with the real app, or with a mock app that answers
from the saved ABCI responses when the app has committed it already.

`Node` is what the handshake reads of the node's stores and of the app; the
app is the height it reports.  What the handshake has the app and the stores
do is its list of `AppCall`s.  The app hashes are left out: for a
deterministic app the hash `Info` reports is the one the state recorded, so
the checks of `assertAppHashEqualsOneFromState` compare equal values.  A
panic, an error and a return are the three `Outcome`s.
-/

namespace Ostracon.Consensus

/-- What the handshake reads of the node after a restart: the block store's
`Base()` and `Height()`, the saved state's `LastBlockHeight` and
`InitialHeight`, the heights whose ABCI responses are saved, the app's
`LastBlockHeight`, and the heights whose `#ENDHEIGHT` the WAL holds, which
the handshake does not read. -/
structure Node where
  storeBase : Int
  storeHeight : Int
  stateHeight : Int
  initialHeight : Int
  responses : List Int
  appHeight : Int
  wal : List Int
  deriving DecidableEq, Repr

/-- What the handshake has the app and the stores do: `InitChain`, a save of
the state, `ExecCommitBlock` on the real app, and `ApplyBlock` with the real
app or the mock one, which saves the state at the block's height. -/
inductive AppCall
  | initChain
  | saveState (height : Int)
  | execCommitBlock (height : Int)
  | applyBlock (height : Int) (mock : Bool)
  deriving DecidableEq, Repr

/-- The errors `ReplayBlocks` returns. -/
inductive ReplayError
  | appBlockHeightTooLow (appHeight storeBase : Int)
  | appBlockHeightTooHigh (coreHeight appHeight : Int)
  | noABCIResponsesForHeight (height : Int)
  deriving DecidableEq, Repr

/-- The panics of `ReplayBlocks`: its two sanity checks, its last case, and a
block the store does not hold, whose `nil` is dereferenced. -/
inductive ReplayPanic
  | stateAheadOfStore (stateHeight storeHeight : Int)
  | storeAheadOfState (storeHeight stateNext : Int)
  | uncovered (appHeight storeHeight stateHeight : Int)
  | nilBlock (height : Int)
  deriving DecidableEq, Repr

/-- How a replay ends. -/
inductive Outcome
  | ok (calls : List AppCall)
  | error (err : ReplayError)
  | panic (p : ReplayPanic)
  deriving DecidableEq, Repr

namespace Outcome

/-- The calls made before, put in front of a replay that returns. -/
def prepend (calls : List AppCall) : Outcome → Outcome
  | .ok calls' => .ok (calls ++ calls')
  | o => o

/-- A replay that returns, then another. -/
def andThen : Outcome → Outcome → Outcome
  | .ok calls, o => o.prepend calls
  | o, _ => o

@[simp] theorem prepend_ok (calls calls' : List AppCall) : (Outcome.ok calls').prepend calls = .ok (calls ++ calls') :=
  rfl

@[simp] theorem prepend_error (calls : List AppCall) (err : ReplayError) :
    (Outcome.error err).prepend calls = .error err := rfl

@[simp] theorem prepend_panic (calls : List AppCall) (p : ReplayPanic) :
    (Outcome.panic p).prepend calls = .panic p := rfl

@[simp] theorem ok_andThen (calls : List AppCall) (o : Outcome) : (Outcome.ok calls).andThen o = o.prepend calls :=
  rfl

end Outcome

namespace Node

/-- Whether `LoadBlock(height)` finds a block: the store holds the heights
from its base to its height. -/
def hasBlock (node : Node) (height : Int) : Bool :=
  0 < node.storeBase ∧ node.storeBase ≤ height ∧ height ≤ node.storeHeight

/-- The loop of `replayBlocks`: `ExecCommitBlock` of the `n` blocks from `i`. -/
def execBlocks (node : Node) (i : Int) : Nat → Outcome
  | 0 => .ok []
  | n + 1 =>
    if node.hasBlock i then (execBlocks node (i + 1) n).prepend [.execCommitBlock i]
    else .panic (.nilBlock i)

/-- `replayBlock`: `ApplyBlock` of the block at `height`, with the mock app or
the real one. -/
def replayBlock (node : Node) (height : Int) (mock : Bool) : Outcome :=
  if node.hasBlock height then .ok [.applyBlock height mock] else .panic (.nilBlock height)

/-- `replayBlocks`: `ExecCommitBlock` of the blocks after the app's, the
last one through `replayBlock` where `mutateState` says so. -/
def replayBlocks (node : Node) (appBlockHeight storeBlockHeight : Int) (mutateState : Bool) : Outcome :=
  let finalBlock := if mutateState then storeBlockHeight - 1 else storeBlockHeight
  -- an app at height `0` starts at the chain's first height
  let firstBlock := if appBlockHeight + 1 = 1 then node.initialHeight else appBlockHeight + 1
  let execs := node.execBlocks firstBlock (finalBlock - firstBlock + 1).toNat
  if mutateState then execs.andThen (node.replayBlock storeBlockHeight false) else execs

/-- The calls of the first part of `ReplayBlocks`: `InitChain` to an app at
height `0`, and a save of the state only if it is the genesis one. -/
def initChainCalls (node : Node) : List AppCall :=
  if node.appHeight = 0 then .initChain :: (if node.stateHeight = 0 then [.saveState 0] else []) else []

/-- `ReplayBlocks`, with the state the store saved and the app's height. -/
def ReplayBlocks (node : Node) : Outcome :=
  let appBlockHeight := node.appHeight
  let storeBlockBase := node.storeBase
  let storeBlockHeight := node.storeHeight
  let stateBlockHeight := node.stateHeight
  Outcome.prepend node.initChainCalls <|
    if storeBlockHeight = 0 then .ok []
    else if appBlockHeight = 0 ∧ node.initialHeight < storeBlockBase then
      .error (.appBlockHeightTooLow appBlockHeight storeBlockBase)
    else if 0 < appBlockHeight ∧ appBlockHeight < storeBlockBase - 1 then
      .error (.appBlockHeightTooLow appBlockHeight storeBlockBase)
    else if storeBlockHeight < appBlockHeight then
      .error (.appBlockHeightTooHigh storeBlockHeight appBlockHeight)
    else if storeBlockHeight < stateBlockHeight then
      .panic (.stateAheadOfStore stateBlockHeight storeBlockHeight)
    else if stateBlockHeight + 1 < storeBlockHeight then
      .panic (.storeAheadOfState storeBlockHeight (stateBlockHeight + 1))
    else if storeBlockHeight = stateBlockHeight then
      if appBlockHeight < storeBlockHeight then node.replayBlocks appBlockHeight storeBlockHeight false
      else if appBlockHeight = storeBlockHeight then .ok []
      else .panic (.uncovered appBlockHeight storeBlockHeight stateBlockHeight)
    else if storeBlockHeight = stateBlockHeight + 1 then
      if appBlockHeight < stateBlockHeight then node.replayBlocks appBlockHeight storeBlockHeight true
      else if appBlockHeight = stateBlockHeight then node.replayBlock storeBlockHeight false
      else if appBlockHeight = storeBlockHeight then
        -- `LoadABCIResponses` for the mock app
        if storeBlockHeight ∈ node.responses then node.replayBlock storeBlockHeight true
        else .error (.noABCIResponsesForHeight storeBlockHeight)
      else .panic (.uncovered appBlockHeight storeBlockHeight stateBlockHeight)
    else .panic (.uncovered appBlockHeight storeBlockHeight stateBlockHeight)

/-! ## One lemma for each way a replay ends -/

variable {node : Node}

theorem ReplayBlocks_of_empty (h : node.storeHeight = 0) : node.ReplayBlocks = .ok node.initChainCalls := by
  simp [ReplayBlocks, h]

theorem ReplayBlocks_of_synced (hpos : 0 < node.storeHeight) (hstate : node.stateHeight = node.storeHeight)
    (happ : node.appHeight = node.storeHeight) (hbase : node.storeBase ≤ node.storeHeight + 1) :
    node.ReplayBlocks = .ok [] := by
  have hcalls : node.initChainCalls = [] := by simp [initChainCalls, happ, show node.storeHeight ≠ 0 by omega]
  unfold ReplayBlocks
  simp (disch := omega) only [if_pos, if_neg, hcalls, Outcome.prepend_ok, List.append_nil]

theorem ReplayBlocks_of_real (hpos : 0 < node.storeBase) (hbase : node.storeBase ≤ node.storeHeight)
    (hnext : node.storeHeight = node.stateHeight + 1) (happ : node.appHeight = node.stateHeight)
    (hlow : node.appHeight = 0 → node.storeBase ≤ node.initialHeight) :
    node.ReplayBlocks = .ok (node.initChainCalls ++ [.applyBlock node.storeHeight false]) := by
  have hzero : ¬(node.appHeight = 0 ∧ node.initialHeight < node.storeBase) := fun h => by
    have := hlow h.1
    omega
  unfold ReplayBlocks
  simp (disch := omega) only [if_pos, if_neg, hzero, if_false, replayBlock, hasBlock, decide_eq_true_eq,
    Outcome.prepend_ok]

theorem ReplayBlocks_of_mock (hpos : 0 < node.storeBase) (hbase : node.storeBase ≤ node.storeHeight)
    (hnext : node.storeHeight = node.stateHeight + 1) (happ : node.appHeight = node.storeHeight)
    (hresp : node.storeHeight ∈ node.responses) :
    node.ReplayBlocks = .ok [.applyBlock node.storeHeight true] := by
  have hcalls : node.initChainCalls = [] := by
    have : node.appHeight ≠ 0 := by omega
    simp [initChainCalls, this]
  unfold ReplayBlocks
  simp (disch := omega) only [if_pos, if_neg, hcalls, hresp, if_true, replayBlock, hasBlock, decide_eq_true_eq,
    Outcome.prepend_ok, List.nil_append]

theorem ReplayBlocks_of_storeAhead (hpos : node.storeHeight ≠ 0)
    (hlow : ¬(node.appHeight = 0 ∧ node.initialHeight < node.storeBase))
    (hlow' : ¬(0 < node.appHeight ∧ node.appHeight < node.storeBase - 1)) (hhigh : node.appHeight ≤ node.storeHeight)
    (hahead : node.stateHeight + 1 < node.storeHeight) :
    node.ReplayBlocks = .panic (.storeAheadOfState node.storeHeight (node.stateHeight + 1)) := by
  unfold ReplayBlocks
  simp (disch := omega) only [if_pos, if_neg, hlow, hlow', if_false, Outcome.prepend_panic]

end Node

end Ostracon.Consensus
