import Mathlib
import Ostracon.Crypto.Merkle
/-!
# The evidence pool

`evidence/pool.go`: the store of pending and committed evidence, the size
counter, the list of evidence to gossip, and the calls that change them:
`AddEvidence`, `CheckEvidence`, `ReportConflictingVotes` and `Update`, with
the expiry pruning and the flush of the consensus buffer that `Update` runs.

* Evidence is of an abstract type `Ev`, read through the methods of the
  `types.Evidence` interface the pool calls (`EvidenceIface`).  The stored
  value of a piece of evidence is the evidence itself: its protobuf encoding
  decodes back to it, so that `bytesToEv` and `listEvidence` never fail.
* The evidence store is two `Std.TreeMap`s over the key bytes, one under
  the pending prefix and one under the committed one; like a LevelDB
  iterator, `toList` walks a prefix in key order.  Store writes succeed.
* `Pool.verify` and the forming of duplicate vote evidence from a pair of
  votes read the state and block stores: they are functions of the pool's
  `state`, passed to the calls.
* Times and durations are integers (nanoseconds); `evidenceSize` is a
  `uint32` as in the source.
-/

namespace Ostracon.Evidence

open Ostracon.Crypto.Merkle

/-- What the pool reads of a piece of evidence: `Height()`, `Time()`,
`Hash()`, and whether it is a `*types.LightClientAttackEvidence`. -/
structure EvidenceIface (Ev : Type) where
  height : Ev → Int
  time : Ev → Int
  hash : Ev → Bytes
  isLightClientAttack : Ev → Bool

/-! ## Keys -/

/-- An uppercase hexadecimal digit, as `%X` prints it. -/
def hexDigit (n : Nat) : UInt8 := if n < 10 then (48 + n).toUInt8 else (55 + n).toUInt8

/-- `%X` of a byte string: two digits a byte. -/
def hexUpper : Bytes → Bytes
  | [] => []
  | b :: bs => hexDigit (b.toNat / 16) :: hexDigit (b.toNat % 16) :: hexUpper bs

/-- `bE`: `%0.16X` of a height, a sign for a negative one and then sixteen
hexadecimal digits, the most significant first. -/
def bE (h : Int) : Bytes :=
  (if h < 0 then [0x2D] else []) ++
    (List.range 16).reverse.map fun i => hexDigit (h.natAbs / 16 ^ i % 16)

variable {Ev D : Type} (iface : EvidenceIface Ev)

/-- `keySuffix`: `"%s/%X"` of the height's `bE` and the hash. -/
def keySuffix (ev : Ev) : Bytes := bE (iface.height ev) ++ 0x2F :: hexUpper (iface.hash ev)

/-! ## The pool -/

/-- What the pool reads of `sm.State`: the last block and the evidence
parameters. -/
structure ChainState where
  lastBlockHeight : Int
  lastBlockTime : Int
  maxAgeNumBlocks : Int
  maxAgeDuration : Int
  deriving DecidableEq, Repr

/-- `Pool`, without its logger, mutex and the state and block stores it
reads through `verify`.  `pending` and `committed` are the evidence store
under `baseKeyPending` and `baseKeyCommitted`, keyed by `keySuffix`; a
committed entry holds the evidence's height. -/
structure Pool (Ev D : Type) where
  pending : Std.TreeMap Bytes Ev compare
  committed : Std.TreeMap Bytes Int compare
  evidenceList : List Ev
  evidenceSize : UInt32
  state : ChainState
  consensusBuffer : List D
  pruningHeight : Int
  pruningTime : Int

namespace Pool

variable (pool : Pool Ev D)

/-- `Size`. -/
def size : UInt32 := pool.evidenceSize

/-- `isPending`. -/
def isPending (ev : Ev) : Bool := pool.pending.contains (keySuffix iface ev)

/-- `isCommitted`. -/
def isCommitted (ev : Ev) : Bool := pool.committed.contains (keySuffix iface ev)

/-- `isExpired`: both older than `MaxAgeNumBlocks` blocks and older than
`MaxAgeDuration`. -/
def isExpired (height time : Int) : Bool :=
  decide (pool.state.lastBlockHeight - height > pool.state.maxAgeNumBlocks) &&
    decide (pool.state.lastBlockTime - time > pool.state.maxAgeDuration)

/-- `addPendingEvidence`: store the evidence under its pending key and count
it, whether or not the key was there. -/
def addPendingEvidence (ev : Ev) : Pool Ev D :=
  { pool with
    pending := pool.pending.insert (keySuffix iface ev) ev
    evidenceSize := pool.evidenceSize + 1 }

/-- `removePendingEvidence`: delete the pending key and add `^uint32(0)` to
the counter, that is take one off modulo `2 ^ 32`. -/
def removePendingEvidence (ev : Ev) : Pool Ev D :=
  { pool with
    pending := pool.pending.erase (keySuffix iface ev)
    evidenceSize := pool.evidenceSize - 1 }

/-- `removeEvidenceFromList`: drop from the list every evidence whose hash
the map holds. -/
def removeEvidenceFromList (blockEvidenceMap : List Bytes) : Pool Ev D :=
  { pool with
    evidenceList := pool.evidenceList.filter fun ev => !blockEvidenceMap.contains (iface.hash ev) }

/-- `removeEvidenceFromList` as its callers call it, only for a non-empty map. -/
def removeIfAny (blockEvidenceMap : List Bytes) : Pool Ev D :=
  if blockEvidenceMap.isEmpty then pool else pool.removeEvidenceFromList iface blockEvidenceMap

/-- One iteration of `markEvidenceAsCommitted`: a pending evidence leaves
the pending store and its hash joins the map; every evidence is recorded as
committed at its height. -/
def markCommittedOne (acc : Pool Ev D × List Bytes) (ev : Ev) : Pool Ev D × List Bytes :=
  let (pool, blockEvidenceMap) := acc
  let (pool, blockEvidenceMap) :=
    if pool.isPending iface ev then
      (pool.removePendingEvidence iface ev, blockEvidenceMap ++ [iface.hash ev])
    else (pool, blockEvidenceMap)
  ({ pool with committed := pool.committed.insert (keySuffix iface ev) (iface.height ev) },
    blockEvidenceMap)

/-- `markEvidenceAsCommitted`. -/
def markEvidenceAsCommitted (evidence : List Ev) : Pool Ev D :=
  let (pool, blockEvidenceMap) := evidence.foldl (markCommittedOne iface) (pool, [])
  pool.removeIfAny iface blockEvidenceMap

/-- The loop of `removeExpiredPendingEvidence` over the pending entries in
key order: remove expired evidence up to the first that is not, and return
the height and time at which that one expires, or the last block's when
none is left. -/
def removeExpiredLoop (pool : Pool Ev D) (blockEvidenceMap : List Bytes) :
    List (Bytes × Ev) → Pool Ev D × Int × Int
  | [] => (pool.removeIfAny iface blockEvidenceMap, pool.state.lastBlockHeight,
      pool.state.lastBlockTime)
  | (_, ev) :: rest =>
      if !pool.isExpired (iface.height ev) (iface.time ev) then
        (pool.removeIfAny iface blockEvidenceMap,
          iface.height ev + pool.state.maxAgeNumBlocks + 1,
          iface.time ev + pool.state.maxAgeDuration + 1000000000)
      else
        (pool.removePendingEvidence iface ev).removeExpiredLoop
          (blockEvidenceMap ++ [iface.hash ev]) rest

/-- `removeExpiredPendingEvidence`. -/
def removeExpiredPendingEvidence : Pool Ev D × Int × Int :=
  pool.removeExpiredLoop iface [] pool.pending.toList

/-- One iteration of `processConsensusBuffer`: form the evidence, or go on
where forming it fails; add it unless it is pending or committed. -/
def processConsensusOne (mkEvidence : ChainState → D → Option Ev) (state : ChainState)
    (pool : Pool Ev D) (voteSet : D) : Pool Ev D :=
  match mkEvidence state voteSet with
  | none => pool
  | some dve =>
      if pool.isPending iface dve then pool
      else if pool.isCommitted iface dve then pool
      else
        let pool := pool.addPendingEvidence iface dve
        { pool with evidenceList := pool.evidenceList ++ [dve] }

/-- `processConsensusBuffer`, which empties the buffer. -/
def processConsensusBuffer (mkEvidence : ChainState → D → Option Ev) (state : ChainState) :
    Pool Ev D :=
  { pool.consensusBuffer.foldl (processConsensusOne iface mkEvidence state) pool with
    consensusBuffer := [] }

/-- `Update`; `none` where it panics, on a state that is not higher. -/
def update (mkEvidence : ChainState → D → Option Ev) (state : ChainState) (evidence : List Ev) :
    Option (Pool Ev D) :=
  if state.lastBlockHeight ≤ pool.state.lastBlockHeight then none
  else
    let pool := pool.processConsensusBuffer iface mkEvidence state
    let pool := { pool with state := state }
    let pool := pool.markEvidenceAsCommitted iface evidence
    if pool.size > 0 && decide (state.lastBlockHeight > pool.pruningHeight) &&
        decide (state.lastBlockTime > pool.pruningTime) then
      let (pool, pruningHeight, pruningTime) := pool.removeExpiredPendingEvidence iface
      some { pool with pruningHeight := pruningHeight, pruningTime := pruningTime }
    else some pool

/-- The error of `AddEvidence` (`ErrInvalidEvidence` around the error of
`verify`). -/
structure ErrInvalidEvidence (Ev ε : Type) where
  evidence : Ev
  reason : ε

/-- `AddEvidence`: nothing to do for pending or committed evidence; else
verify, store and gossip it. -/
def addEvidence {ε : Type} (verify : ChainState → Ev → Except ε Unit) (ev : Ev) :
    Except (ErrInvalidEvidence Ev ε) (Pool Ev D) :=
  if pool.isPending iface ev then .ok pool
  else if pool.isCommitted iface ev then .ok pool
  else
    match verify pool.state ev with
    | .error err => .error ⟨ev, err⟩
    | .ok () =>
        let pool := pool.addPendingEvidence iface ev
        .ok { pool with evidenceList := pool.evidenceList ++ [ev] }

/-- The errors of `CheckEvidence`. -/
inductive CheckEvidenceError (Ev ε : Type)
  /-- `ErrInvalidEvidence`: "evidence was already committed" -/
  | alreadyCommitted (evidence : Ev)
  /-- the error of `verify`, as it is -/
  | verify (err : ε)
  /-- `ErrInvalidEvidence`: "duplicate evidence" -/
  | duplicate (evidence : Ev)

/-- The checks `CheckEvidence` makes of one evidence before the duplicate
check: light client attack evidence, and any evidence that is not pending,
must not be committed and must verify, and is then stored, even when it is
pending already. -/
def checkOne {ε : Type} (verify : ChainState → Ev → Except ε Unit) (ev : Ev) :
    Except (CheckEvidenceError Ev ε) (Pool Ev D) :=
  if iface.isLightClientAttack ev || !pool.isPending iface ev then
    if pool.isCommitted iface ev then .error (.alreadyCommitted ev)
    else
      match verify pool.state ev with
      | .error err => .error (.verify err)
      | .ok () => .ok (pool.addPendingEvidence iface ev)
  else .ok pool

/-- The loop of `CheckEvidence`, with the hashes of the evidence checked so
far.  What the pool stored stays stored when a later evidence fails. -/
def checkEvidenceLoop {ε : Type} (pool : Pool Ev D) (verify : ChainState → Ev → Except ε Unit)
    (hashes : List Bytes) : List Ev → Except (CheckEvidenceError Ev ε) Unit × Pool Ev D
  | [] => (.ok (), pool)
  | ev :: rest =>
      match pool.checkOne iface verify ev with
      | .error err => (.error err, pool)
      | .ok pool =>
          if hashes.contains (iface.hash ev) then (.error (.duplicate ev), pool)
          else pool.checkEvidenceLoop verify (hashes ++ [iface.hash ev]) rest

/-- `CheckEvidence`: its result, with the pool it leaves. -/
def checkEvidence {ε : Type} (verify : ChainState → Ev → Except ε Unit) (evList : List Ev) :
    Except (CheckEvidenceError Ev ε) Unit × Pool Ev D :=
  pool.checkEvidenceLoop iface verify [] evList

/-- `ReportConflictingVotes`: buffer the pair until the next `Update`. -/
def reportConflictingVotes (voteSet : D) : Pool Ev D :=
  { pool with consensusBuffer := pool.consensusBuffer ++ [voteSet] }

end Pool

/-- `NewPool` over an evidence store and a state: prune what has expired,
then count the pending evidence and queue it for gossip in key order. -/
def newPool (pending : Std.TreeMap Bytes Ev compare) (committed : Std.TreeMap Bytes Int compare)
    (state : ChainState) : Pool Ev D :=
  let pool : Pool Ev D := ⟨pending, committed, [], 0, state, [], 0, 0⟩
  let (pool, pruningHeight, pruningTime) := pool.removeExpiredPendingEvidence iface
  -- `listEvidence(baseKeyPending, -1)`: every pending evidence, in key order
  let evList := pool.pending.toList.map Prod.snd
  { pool with
    evidenceSize := evList.length.toUInt32
    evidenceList := evList
    pruningHeight := pruningHeight
    pruningTime := pruningTime }

/-- A call of the pool's API. -/
inductive PoolCall (Ev D : Type)
  | addEvidence (ev : Ev)
  | checkEvidence (evList : List Ev)
  | reportConflictingVotes (voteSet : D)
  | update (state : ChainState) (evidence : List Ev)

section Run

variable {ε : Type} (verify : ChainState → Ev → Except ε Unit)
  (mkEvidence : ChainState → D → Option Ev)

/-- One call: the pool it leaves, whatever it returns; `none` where it
panics. -/
def PoolCall.apply (pool : Pool Ev D) : PoolCall Ev D → Option (Pool Ev D)
  | .addEvidence ev =>
      match pool.addEvidence iface verify ev with
      | .ok pool => some pool
      | .error _ => some pool
  | .checkEvidence evList => some (pool.checkEvidence iface verify evList).2
  | .reportConflictingVotes voteSet => some (pool.reportConflictingVotes voteSet)
  | .update state evidence => pool.update iface mkEvidence state evidence

/-- A run of calls; `none` where one panics. -/
def poolRun : Pool Ev D → List (PoolCall Ev D) → Option (Pool Ev D)
  | pool, [] => some pool
  | pool, call :: calls => (call.apply iface verify mkEvidence pool).bind (poolRun · calls)

end Run

end Ostracon.Evidence
