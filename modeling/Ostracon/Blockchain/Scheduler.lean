import Ostracon.Lib.GoMap
import Mathlib.Data.List.Sort
/-!
# `blockchain/v2/scheduler.go`: the scheduler of fast sync v2

The scheduler keeps a state for each height it works on (`blockStates`),
the peer each pending block was asked from and when (`pendingBlocks`,
`pendingTime`), the peer each received block came from (`receivedBlocks`),
and what each peer reported.  `handle` takes one event of the reactor, the
processor or a timer, changes the scheduler and returns the event it makes.

A handler runs alone, so each call of `handle` is one step.  Peer IDs are
ordered as their bytes are, which `selectPeer` and `prunablePeers` sort by;
their zero value is `default`.  Times are integers of nanoseconds, and each
call gets the `now` that `time.Now()` reads.  Go ranges over a map in an
order of its own: every loop here either does not depend on it or sorts its
result, and the model ranges in the order of the entries.  A panic is
`none`.
-/

namespace Ostracon.Blockchain

/-- `blockState`. -/
inductive BlockState
  | unknown
  | new
  | pending
  | received
  | processed
  deriving DecidableEq, Repr

/-- `peerState`. -/
inductive PeerState
  | new
  | ready
  | removed
  deriving DecidableEq, Repr

/-- `scPeer`. -/
structure ScPeer (ID : Type) where
  peerID : ID
  state : PeerState
  base : Int
  height : Int
  lastTouched : Int
  lastRate : Int
  deriving DecidableEq, Repr

/-- `newScPeer`. -/
def newScPeer {ID : Type} (peerID : ID) : ScPeer ID := ⟨peerID, .new, -1, -1, 0, 0⟩

/-- The errors the scheduler makes, one for each `fmt.Errorf` of its source. -/
inductive ScError (ID : Type)
  | peerNotFound (peerID : ID)
  | touchNotReady (state : PeerState)
  | peerHeightLower (fromHeight toHeight : Int)
  | peerBaseHigher
  | receivedNotRequested (height : Int) (peerID : ID)
  | clockError (height requested now : Int)
  | notNew (height : Int) (state : BlockState)
  | cannotSchedule (height : Int) (peerID : ID) (state : PeerState)
  | aboveHeight (height : Int) (peerID : ID) (peerHeight : Int)
  | belowBase (height : Int) (peerID : ID) (base : Int)
  | noPeerForHeight (height : Int)
  deriving DecidableEq, Repr

/-- The events `handle` takes: the `bc...` ones from the reactor, the `r...`
ones from timers, the `pc...` ones from the processor.  A block response
carries the block's height. -/
inductive ScEvent (ID : Type)
  | resetState (lastBlockHeight initialHeight : Int)
  | statusResponse (peerID : ID) (base height : Int)
  | blockResponse (peerID : ID) (height size time : Int)
  | noBlockResponse (peerID : ID) (height : Int)
  | trySchedule (time : Int)
  | addNewPeer (peerID : ID)
  | removePeer (peerID : ID)
  | tryPrunePeer (time : Int)
  | blockProcessed (height : Int) (peerID : ID)
  | blockVerificationFailure (height : Int) (firstPeerID secondPeerID : ID)
  deriving DecidableEq, Repr

/-- The events the scheduler makes: `scFinishedEv`, `scBlockRequest`,
`scBlockReceived` (with the block's height), `scPeerError`, `scPeersPruned`
and `scSchedulerFail`, or `noOp`. -/
inductive ScOutput (ID : Type)
  | noOp
  | finished
  | blockRequest (peerID : ID) (height : Int)
  | blockReceived (peerID : ID) (height : Int)
  | peerError (peerID : ID)
  | peersPruned (peers : List ID)
  | schedulerFail (reason : ScError ID)
  deriving DecidableEq, Repr

/-- `scheduler`. -/
structure Scheduler (ID : Type) where
  initHeight : Int
  height : Int
  lastAdvance : Int
  syncTimeout : Int
  peers : GoMap ID (ScPeer ID)
  peerTimeout : Int
  minRecvRate : Int
  targetPending : Int
  blockStates : GoMap Int BlockState
  pendingBlocks : GoMap Int ID
  pendingTime : GoMap Int Int
  receivedBlocks : GoMap Int ID

/-- `time.Second`, in nanoseconds. -/
def second : Int := 1000000000

/-- `math.MaxInt64`. -/
def maxInt64Height : Int := 9223372036854775807

namespace Scheduler

variable {ID : Type} [LinearOrder ID] [Inhabited ID]

/-- `newScheduler`. -/
def newScheduler (initHeight startTime : Int) : Scheduler ID :=
  ⟨initHeight, initHeight, startTime, 60 * second, .empty, 15 * second, 0, 10, .empty, .empty, .empty, .empty⟩

/-- `ensurePeer`: the peer, made `New` if it was not there. -/
def ensurePeer (sc : Scheduler ID) (peerID : ID) : Scheduler ID × ScPeer ID :=
  match sc.peers.get peerID with
  | some peer => (sc, peer)
  | none => ({ sc with peers := sc.peers.set peerID (newScPeer peerID) }, newScPeer peerID)

/-- `touchPeer`. -/
def touchPeer (sc : Scheduler ID) (peerID : ID) (time : Int) : Except (ScError ID) (Scheduler ID) :=
  match sc.peers.get peerID with
  | none => .error (.peerNotFound peerID)
  | some peer =>
    if peer.state ≠ .ready then .error (.touchNotReady peer.state)
    else .ok { sc with peers := sc.peers.set peerID { peer with lastTouched := time } }

/-- `setStateAtHeight`. -/
def setStateAtHeight (sc : Scheduler ID) (height : Int) (state : BlockState) : Scheduler ID :=
  { sc with blockStates := sc.blockStates.set height state }

/-- `getStateAtHeight`. -/
def getStateAtHeight (sc : Scheduler ID) (height : Int) : BlockState :=
  if height < sc.height then .processed
  else (sc.blockStates.get height).getD .unknown

/-- The loop of `removePeer` over `pendingBlocks`, from its entries when it
starts: it deletes only the entry it is at. -/
def resetPending (peerID : ID) (sc : Scheduler ID) (entries : List (Int × ID)) : Scheduler ID :=
  entries.foldl (fun sc entry =>
    if entry.2 = peerID then
      { sc.setStateAtHeight entry.1 .new with
        pendingTime := sc.pendingTime.erase entry.1
        pendingBlocks := sc.pendingBlocks.erase entry.1 }
    else sc) sc

/-- The loop of `removePeer` over `receivedBlocks`. -/
def resetReceived (peerID : ID) (sc : Scheduler ID) (entries : List (Int × ID)) : Scheduler ID :=
  entries.foldl (fun sc entry =>
    if entry.2 = peerID then
      { sc.setStateAtHeight entry.1 .new with receivedBlocks := sc.receivedBlocks.erase entry.1 }
    else sc) sc

/-- The height of the highest `Ready` peer other than `peerID`, or `0`. -/
def maxOtherPeerHeight (sc : Scheduler ID) (peerID : ID) : Int :=
  sc.peers.values.foldl (fun max otherPeer =>
    if otherPeer.state ≠ .ready then max
    else if otherPeer.peerID ≠ peerID ∧ max < otherPeer.height then otherPeer.height
    else max) 0

/-- `removePeer`. -/
def removePeer (sc : Scheduler ID) (peerID : ID) : Scheduler ID :=
  match sc.peers.get peerID with
  | none => sc
  | some peer =>
    if peer.state = .removed then sc
    else
      let sc := resetPending peerID sc sc.pendingBlocks.entries
      let sc := resetReceived peerID sc sc.receivedBlocks.entries
      let sc := { sc with peers := sc.peers.set peerID { peer with state := .removed } }
      -- the states above every other ready peer's height go
      let maxPeerHeight := sc.maxOtherPeerHeight peer.peerID
      { sc with blockStates := sc.blockStates.filterKeys fun h => !(maxPeerHeight < h) }

/-- `maxHeight`: the highest `Ready` peer's height, or `height - 1`. -/
def maxHeight (sc : Scheduler ID) : Int :=
  sc.peers.values.foldl (fun max peer =>
    if peer.state ≠ .ready then max
    else if max < peer.height then peer.height
    else max) (sc.height - 1)

/-- The loop of `addNewBlocks`, from height `i` with `n` heights to go; it
stops above `maxHeight`, which the loop does not change. -/
def addNewBlocksLoop (maxHeight : Int) : Nat → Int → Scheduler ID → Scheduler ID
  | 0, _, sc => sc
  | n + 1, i, sc =>
    if maxHeight < i then sc
    else
      let sc := if sc.getStateAtHeight i = .unknown then sc.setStateAtHeight i .new else sc
      addNewBlocksLoop maxHeight n (i + 1) sc

/-- `addNewBlocks`. -/
def addNewBlocks (sc : Scheduler ID) : Scheduler ID :=
  if sc.targetPending ≤ sc.blockStates.length then sc
  else addNewBlocksLoop sc.maxHeight sc.targetPending.toNat sc.height sc

/-- `setPeerRange`. -/
def setPeerRange (sc : Scheduler ID) (peerID : ID) (base height : Int) : Scheduler ID × Option (ScError ID) :=
  let (sc, peer) := sc.ensurePeer peerID
  if peer.state = .removed then (sc, none)
  else if height < peer.height then (sc.removePeer peerID, some (.peerHeightLower peer.height height))
  else if height < base then (sc.removePeer peerID, some .peerBaseHigher)
  else
    let sc := { sc with peers := sc.peers.set peerID { peer with base := base, height := height, state := .ready } }
    (sc.addNewBlocks, none)

/-- `getPeersWithHeight`. -/
def getPeersWithHeight (sc : Scheduler ID) (height : Int) : List ID :=
  (sc.peers.values.filter fun peer => peer.state = .ready ∧ peer.base ≤ height ∧ height ≤ peer.height).map
    (·.peerID)

/-- `prunablePeers`, sorted by ID. -/
def prunablePeers (sc : Scheduler ID) (peerTimeout minRecvRate now : Int) : List ID :=
  ((sc.peers.entries.filter fun entry =>
      entry.2.state = .ready ∧ (peerTimeout < now - entry.2.lastTouched ∨ entry.2.lastRate < minRecvRate)).map
    (·.1)).insertionSort (· ≤ ·)

/-- `markReceived`; `none` where its peer, which its caller has touched, is
missing. -/
def markReceived (sc : Scheduler ID) (peerID : ID) (height size now : Int) :
    Option (Scheduler ID × Option (ScError ID)) :=
  if sc.getStateAtHeight height ≠ .pending ∨ (sc.pendingBlocks.get height).getD default ≠ peerID then
    some (sc, some (.receivedNotRequested height peerID))
  else
    match sc.pendingTime.get height with
    | none => some (sc, some (.clockError height 0 now))
    | some pendingTime =>
      if now - pendingTime ≤ 0 then some (sc, some (.clockError height pendingTime now))
      else
        match sc.peers.get peerID with
        | none => none
        | some peer =>
          let sc := { sc with peers := sc.peers.set peerID { peer with lastRate := size.tdiv (now - pendingTime) } }
          let sc := sc.setStateAtHeight height .received
          some ({ sc with
            pendingBlocks := sc.pendingBlocks.erase height
            pendingTime := sc.pendingTime.erase height
            receivedBlocks := sc.receivedBlocks.set height peerID }, none)

/-- `markPending`. -/
def markPending (sc : Scheduler ID) (peerID : ID) (height time : Int) : Scheduler ID × Option (ScError ID) :=
  let state := sc.getStateAtHeight height
  if state ≠ .new then (sc, some (.notNew height state))
  else
    match sc.peers.get peerID with
    | none => (sc, some (.peerNotFound peerID))
    | some peer =>
      if peer.state ≠ .ready then (sc, some (.cannotSchedule height peerID peer.state))
      else if peer.height < height then (sc, some (.aboveHeight height peerID peer.height))
      else if height < peer.base then (sc, some (.belowBase height peerID peer.base))
      else
        let sc := sc.setStateAtHeight height .pending
        ({ sc with
          pendingBlocks := sc.pendingBlocks.set height peerID
          pendingTime := sc.pendingTime.set height time }, none)

/-- `markProcessed`, which never fails. -/
def markProcessed (sc : Scheduler ID) (height now : Int) : Scheduler ID :=
  let sc := { sc with
    lastAdvance := now
    height := height + 1
    pendingBlocks := sc.pendingBlocks.erase height
    pendingTime := sc.pendingTime.erase height
    receivedBlocks := sc.receivedBlocks.erase height
    blockStates := sc.blockStates.erase height }
  sc.addNewBlocks

/-- `allBlocksProcessed`. -/
def allBlocksProcessed (sc : Scheduler ID) : Bool :=
  sc.peers.length ≠ 0 ∧ sc.maxHeight ≤ sc.height

/-- `nextHeightToSchedule`: the lowest `New` height, or `-1`. -/
def nextHeightToSchedule (sc : Scheduler ID) : Int :=
  let min := sc.blockStates.entries.foldl (fun min entry =>
    if entry.2 = .new ∧ entry.1 < min then entry.1 else min) maxInt64Height
  if min = maxInt64Height then -1 else min

/-- `pendingFrom`. -/
def pendingFrom (sc : Scheduler ID) (peerID : ID) : List Int :=
  (sc.pendingBlocks.entries.filter (·.2 = peerID)).map (·.1)

/-- `selectPeer`: of the peers that have the height, the least by ID among
those with the fewest pending requests. -/
def selectPeer (sc : Scheduler ID) (height : Int) : Except (ScError ID) ID :=
  let peers := sc.getPeersWithHeight height
  match peers with
  | [] => .error (.noPeerForHeight height)
  | first :: _ =>
    let numPending := fun peerID => (sc.pendingFrom peerID).length
    let minPending := peers.foldl (fun min peerID => Nat.min min (numPending peerID)) (numPending first)
    match ((peers.filter fun peerID => numPending peerID = minPending).insertionSort (· ≤ ·)) with
    | [] => .error (.noPeerForHeight height)
    | best :: _ => .ok best

/-! ## Handlers -/

/-- `handleBlockResponse`. -/
def handleBlockResponse (sc : Scheduler ID) (peerID : ID) (height size time : Int) :
    Option (Scheduler ID × ScOutput ID) :=
  match sc.touchPeer peerID time with
  | .error _ => some (sc, .noOp)
  | .ok sc =>
    (sc.markReceived peerID height size time).map fun
      | (sc, some _) => (sc.removePeer peerID, .peerError peerID)
      | (sc, none) => (sc, .blockReceived peerID height)

/-- `handleNoBlockResponse`. -/
def handleNoBlockResponse (sc : Scheduler ID) (peerID : ID) : Scheduler ID × ScOutput ID :=
  match sc.peers.get peerID with
  | none => (sc, .noOp)
  | some peer =>
    if peer.state = .removed then (sc, .noOp)
    else (sc.removePeer peerID, .peerError peerID)

/-- `handleBlockProcessed`; `none` where it panics, for a height other than
the scheduler's. -/
def handleBlockProcessed (sc : Scheduler ID) (height now : Int) : Option (Scheduler ID × ScOutput ID) :=
  if height ≠ sc.height then none
  else
    let sc := sc.markProcessed height now
    some (sc, if sc.allBlocksProcessed then .finished else .noOp)

/-- `handleBlockProcessError`. -/
def handleBlockProcessError (sc : Scheduler ID) (firstPeerID secondPeerID : ID) :
    Scheduler ID × ScOutput ID :=
  let sc := sc.removePeer firstPeerID
  let sc := if firstPeerID ≠ secondPeerID then sc.removePeer secondPeerID else sc
  (sc, if sc.allBlocksProcessed then .finished else .noOp)

/-- `handleAddNewPeer`. -/
def handleAddNewPeer (sc : Scheduler ID) (peerID : ID) : Scheduler ID × ScOutput ID :=
  ((sc.ensurePeer peerID).1, .noOp)

/-- `handleRemovePeer`. -/
def handleRemovePeer (sc : Scheduler ID) (peerID : ID) : Scheduler ID × ScOutput ID :=
  let sc := sc.removePeer peerID
  (sc, if sc.allBlocksProcessed then .finished else .peerError peerID)

/-- `handleTryPrunePeer`. -/
def handleTryPrunePeer (sc : Scheduler ID) (time now : Int) : Scheduler ID × ScOutput ID :=
  -- the peer asked for the block at `height` too long ago goes first
  let sc := match sc.pendingTime.get sc.height with
    | some timeHeightAsked =>
      if sc.peerTimeout < now - timeHeightAsked then
        sc.removePeer ((sc.pendingBlocks.get sc.height).getD default)
      else sc
    | none => sc
  let prunablePeers := sc.prunablePeers sc.peerTimeout sc.minRecvRate time
  if prunablePeers = [] then (sc, .noOp)
  else
    let sc := prunablePeers.foldl removePeer sc
    (sc, if sc.allBlocksProcessed then .finished else .peersPruned prunablePeers)

/-- `handleResetState`. -/
def handleResetState (sc : Scheduler ID) (lastBlockHeight initialHeight now : Int) :
    Scheduler ID × ScOutput ID :=
  let initHeight := lastBlockHeight + 1
  let initHeight := if initHeight = 1 then initialHeight else initHeight
  let sc := { sc with initHeight := initHeight, height := initHeight, lastAdvance := now }
  (sc.addNewBlocks, .noOp)

/-- `handleTrySchedule`. -/
def handleTrySchedule (sc : Scheduler ID) (time now : Int) : Scheduler ID × ScOutput ID :=
  if sc.syncTimeout < now - sc.lastAdvance then (sc, .finished)
  else
    let nextHeight := sc.nextHeightToSchedule
    if nextHeight = -1 then (sc, .noOp)
    else
      match sc.selectPeer nextHeight with
      | .error err => (sc, .schedulerFail err)
      | .ok bestPeerID =>
        match sc.markPending bestPeerID nextHeight time with
        | (sc, some err) => (sc, .schedulerFail err)
        | (sc, none) => (sc, .blockRequest bestPeerID nextHeight)

/-- `handleStatusResponse`. -/
def handleStatusResponse (sc : Scheduler ID) (peerID : ID) (base height : Int) :
    Scheduler ID × ScOutput ID :=
  match sc.setPeerRange peerID base height with
  | (sc, some _) => (sc, .peerError peerID)
  | (sc, none) => (sc, .noOp)

/-- `handle`, at time `now`. -/
def handle (sc : Scheduler ID) (now : Int) : ScEvent ID → Option (Scheduler ID × ScOutput ID)
  | .resetState lastBlockHeight initialHeight => some (sc.handleResetState lastBlockHeight initialHeight now)
  | .statusResponse peerID base height => some (sc.handleStatusResponse peerID base height)
  | .blockResponse peerID height size time => sc.handleBlockResponse peerID height size time
  | .noBlockResponse peerID _ => some (sc.handleNoBlockResponse peerID)
  | .trySchedule time => some (sc.handleTrySchedule time now)
  | .addNewPeer peerID => some (sc.handleAddNewPeer peerID)
  | .removePeer peerID => some (sc.handleRemovePeer peerID)
  | .tryPrunePeer time => some (sc.handleTryPrunePeer time now)
  | .blockProcessed height _ => sc.handleBlockProcessed height now
  | .blockVerificationFailure _ firstPeerID secondPeerID =>
    some (sc.handleBlockProcessError firstPeerID secondPeerID)

/-- A run of events, each with the time it is handled at; `none` where a
handler panics. -/
def run (sc : Scheduler ID) : List (Int × ScEvent ID) → Option (Scheduler ID)
  | [] => some sc
  | (now, event) :: events => (sc.handle now event).bind fun (sc, _) => run sc events

end Scheduler

end Ostracon.Blockchain
