import Ostracon.Lib.GoMap
/-!
# `blockchain/v0/pool.go`: the block pool of fast sync

The pool keeps one requester for each height from `height` on.  Each
requester runs its own goroutine, `requestRoutine`: it picks a peer that
reported the height, stores the peer as its `peerID`, sends the request and
waits for a block or a redo.  `AddBlock` hands a block to the requester of its
height when it came from that requester's peer.  `RemovePeer` sends a redo to
every requester of the peer, and a requester that takes a redo for its own
peer resets: it drops its peer and its block, and picks again.

The model is an interleaving semantics.  Every critical section of the pool
under `pool.mtx` is one event, and so is each step of a requester's goroutine
between two of them.  A requester is addressed by its place in `objects`, the
requesters made so far, which stands for the pointer the map `requesters`
holds: `PopRequest` deletes the map entry, while the requester itself and its
goroutine live on.  A goroutine event for a requester that is not at that
point of its code leaves the pool as it is.  A panic is `none`.

Go ranges over `pool.peers` in an order of its own choosing, and two loops
depend on it: the events of those loops name the order.  An order that skips
keys gives runs Go does not have, and what is proved of every run holds of
those as well.

Left out: the channels `requestsCh` and `errorsCh`, whose sends are outputs
of the pool; `gotBlockCh`, whose only receiver ignores it; the logger, the
start time and the rates a peer's monitor measures, which are named by the
event `removeTimedoutPeers` as the peers it finds too slow.
-/

namespace Ostracon.Blockchain

/-- `maxPendingRequestsPerPeer`. -/
def maxPendingRequestsPerPeer : Int := 20

/-- `bpPeer`, with whether its monitor and its timer are set in place of
them. -/
structure BPPeer (ID : Type) where
  didTimeout : Bool
  numPending : Int
  height : Int
  base : Int
  id : ID
  /-- `recvMonitor` is set -/
  hasMonitor : Bool
  /-- `timeout`: `none` while nil, else whether the timer is armed -/
  timeout : Option Bool
  deriving DecidableEq, Repr

/-- Where the goroutine `requestRoutine` of a requester is. -/
inductive RoutinePoint (ID : Type)
  /-- in `PICK_PEER_LOOP` -/
  | pickPeer
  /-- `pickIncrAvailablePeer` returned this peer, which is not stored yet -/
  | picked (peer : ID)
  /-- in `WAIT_LOOP` -/
  | wait
  /-- returned -/
  | done
  deriving DecidableEq, Repr

/-- `bpRequester`. -/
structure BPRequester (ID B : Type) where
  height : Int
  /-- `peerID`, with `none` for `""` -/
  peerID : Option ID
  block : Option B
  /-- `redoCh`, a buffered channel of capacity one -/
  redoCh : Option ID
  /-- the service is running: `Stop` clears it and closes `Quit()` -/
  running : Bool
  routine : RoutinePoint ID
  deriving DecidableEq, Repr

/-- `BlockPool`. -/
structure BlockPool (ID B : Type) where
  /-- the requester of each height, as its index in `objects` -/
  requesters : GoMap Int Nat
  /-- every requester made so far -/
  objects : List (BPRequester ID B)
  height : Int
  peers : GoMap ID (BPPeer ID)
  maxPeerHeight : Int
  numPending : Int
  deriving DecidableEq

variable {ID B : Type} [DecidableEq ID]

/-! ## Peers -/

/-- `newBPPeer`. -/
def newBPPeer (peerID : ID) (base height : Int) : BPPeer ID :=
  { didTimeout := false, numPending := 0, height, base, id := peerID, hasMonitor := false,
    timeout := none }

/-- `incrPending`: the first pending request resets the monitor and the timer. -/
def BPPeer.incrPending (peer : BPPeer ID) : BPPeer ID :=
  let peer := if peer.numPending = 0 then { peer with hasMonitor := true, timeout := some true } else peer
  { peer with numPending := peer.numPending + 1 }

/-- `decrPending`.  The last pending request stops the timer, and any other
updates the monitor and resets the timer: `Stop` on a nil timer and `Update`
on a nil monitor panic. -/
def BPPeer.decrPending (peer : BPPeer ID) : Option (BPPeer ID) :=
  let peer := { peer with numPending := peer.numPending - 1 }
  if peer.numPending = 0 then
    peer.timeout.map fun _ => { peer with timeout := some false }
  else if peer.hasMonitor then some { peer with timeout := some true }
  else none

/-- The check of one peer in `removeTimedoutPeers`: the rate is read from the
monitor of a peer with requests pending, and a peer found slow is marked as
timed out. -/
def BPPeer.checkRate (peer : BPPeer ID) (slow : Bool) : Option (BPPeer ID) :=
  if !peer.didTimeout ∧ peer.numPending > 0 then
    if !peer.hasMonitor then none
    else if slow then some { peer with didTimeout := true } else some peer
  else some peer

/-! ## Requesters -/

/-- `newBPRequester`, started. -/
def newBPRequester (height : Int) : BPRequester ID B :=
  { height, peerID := none, block := none, redoCh := none, running := true, routine := .pickPeer }

/-- `setBlock`: it keeps the block when it holds none and the block came from
its peer. -/
def BPRequester.setBlock (bpr : BPRequester ID B) (block : B) (peerID : ID) :
    Bool × BPRequester ID B :=
  if bpr.block.isSome ∨ bpr.peerID ≠ some peerID then (false, bpr)
  else (true, { bpr with block := some block })

/-- `redo`: the send is dropped when the channel is full. -/
def BPRequester.redo (bpr : BPRequester ID B) (peerID : ID) : BPRequester ID B :=
  if bpr.redoCh.isNone then { bpr with redoCh := some peerID } else bpr

/-- `reset`, without the count of pending requests it adjusts. -/
def BPRequester.reset (bpr : BPRequester ID B) : BPRequester ID B :=
  { bpr with peerID := none, block := none }

/-! ## The pool -/

/-- `NewBlockPool`. -/
def newBlockPool (start : Int) : BlockPool ID B :=
  { requesters := GoMap.empty, objects := [], height := start, peers := GoMap.empty,
    maxPeerHeight := 0, numPending := 0 }

namespace BlockPool

/-- The requester the map holds for a height, with its index. -/
def requesterAt (pool : BlockPool ID B) (height : Int) : Option (Nat × BPRequester ID B) := do
  let idx ← pool.requesters.get height
  let requester ← pool.objects[idx]?
  pure (idx, requester)

/-- `PeekTwoBlocks`. -/
def peekTwoBlocks (pool : BlockPool ID B) : Option B × Option B :=
  ((pool.requesterAt pool.height).bind (·.2.block), (pool.requesterAt (pool.height + 1)).bind (·.2.block))

/-- `updateMaxPeerHeight`: the largest reported height, or zero. -/
def updateMaxPeerHeight (peers : GoMap ID (BPPeer ID)) : Int :=
  peers.values.foldl (fun max peer => if peer.height > max then peer.height else max) 0

/-- The loop of `removePeer` over the requesters: a redo to each requester of
the peer. -/
def redoAll (peerID : ID) (objects : List (BPRequester ID B)) : List Nat → List (BPRequester ID B)
  | [] => objects
  | idx :: idxs =>
    let objects :=
      match objects[idx]? with
      | some requester => if requester.peerID = some peerID then objects.set idx (requester.redo peerID) else objects
      | none => objects
    redoAll peerID objects idxs

/-- `removePeer`.  The peer's timer is stopped, which matters only to the
peer deleted here. -/
def removePeer (pool : BlockPool ID B) (peerID : ID) : BlockPool ID B :=
  let pool := { pool with objects := redoAll peerID pool.objects pool.requesters.values }
  match pool.peers.get peerID with
  | none => pool
  | some peer =>
    let pool := { pool with peers := pool.peers.erase peerID }
    if peer.height = pool.maxPeerHeight then { pool with maxPeerHeight := updateMaxPeerHeight pool.peers }
    else pool

/-- `pickIncrAvailablePeer`, over the peers in the order given: a peer that
timed out is removed, and the first with room for a request and the height in
its range takes it. -/
def pickIncrAvailablePeer (pool : BlockPool ID B) (height : Int) :
    List ID → BlockPool ID B × Option ID
  | [] => (pool, none)
  | peerID :: order =>
    match pool.peers.get peerID with
    | none => pickIncrAvailablePeer pool height order
    | some peer =>
      if peer.didTimeout then pickIncrAvailablePeer (pool.removePeer peerID) height order
      else if peer.numPending ≥ maxPendingRequestsPerPeer then pickIncrAvailablePeer pool height order
      else if height < peer.base ∨ height > peer.height then pickIncrAvailablePeer pool height order
      else ({ pool with peers := pool.peers.set peerID peer.incrPending }, some peerID)

/-- `removeTimedoutPeers`, over the peers in the order given, with `slow` the
peers whose monitor reads a rate that is not zero and is below
`minRecvRate`. -/
def removeTimedoutPeers (pool : BlockPool ID B) (slow : List ID) : List ID → Option (BlockPool ID B)
  | [] => some pool
  | peerID :: order =>
    match pool.peers.get peerID with
    | none => removeTimedoutPeers pool slow order
    | some peer =>
      match peer.checkRate (peerID ∈ slow) with
      | none => none
      | some peer =>
        let pool := { pool with peers := pool.peers.set peerID peer }
        let pool := if peer.didTimeout then pool.removePeer peerID else pool
        removeTimedoutPeers pool slow order

/-- `makeNextRequester`. -/
def makeNextRequester (pool : BlockPool ID B) : BlockPool ID B :=
  let nextHeight := pool.height + pool.requesters.length
  if nextHeight > pool.maxPeerHeight then pool
  else
    { pool with
      requesters := pool.requesters.set nextHeight pool.objects.length
      objects := pool.objects ++ [newBPRequester nextHeight]
      numPending := pool.numPending + 1 }

/-- `SetPeerRange`. -/
def setPeerRange (pool : BlockPool ID B) (peerID : ID) (base height : Int) : BlockPool ID B :=
  let peer :=
    match pool.peers.get peerID with
    | some peer => { peer with base, height }
    | none => newBPPeer peerID base height
  let pool := { pool with peers := pool.peers.set peerID peer }
  if height > pool.maxPeerHeight then { pool with maxPeerHeight := height } else pool

/-- `AddBlock`, with `blockHeight` the `Height` of a block.  A block of a
height with no requester, or from another peer than the requester's, is
refused with an error to the peer. -/
def addBlock (blockHeight : B → Int) (pool : BlockPool ID B) (peerID : ID) (block : B) :
    Option (BlockPool ID B) :=
  match pool.requesterAt (blockHeight block) with
  | none => some pool
  | some (idx, requester) =>
    let (ok, requester) := requester.setBlock block peerID
    if ok then
      let pool := { pool with objects := pool.objects.set idx requester, numPending := pool.numPending - 1 }
      match pool.peers.get peerID with
      | none => some pool
      | some peer => peer.decrPending.map fun peer => { pool with peers := pool.peers.set peerID peer }
    else some pool

/-- `PopRequest`: it panics when no requester is at `height`. -/
def popRequest (pool : BlockPool ID B) : Option (BlockPool ID B) :=
  match pool.requesterAt pool.height with
  | none => none
  | some (idx, requester) =>
    some { pool with
      objects := pool.objects.set idx { requester with running := false }
      requesters := pool.requesters.erase pool.height
      height := pool.height + 1 }

/-- `RedoRequest`: with no requester at the height, `getPeerID` dereferences
nil. -/
def redoRequest (pool : BlockPool ID B) (height : Int) : Option (BlockPool ID B) :=
  match pool.requesterAt height with
  | none => none
  | some (_, requester) =>
    match requester.peerID with
    | none => some pool
    | some peerID => some (pool.removePeer peerID)

/-- `onTimeout` of the timer of the peer in the map. -/
def onTimeout (pool : BlockPool ID B) (peerID : ID) : BlockPool ID B :=
  match pool.peers.get peerID with
  | some peer =>
    if peer.timeout = some true then
      { pool with peers := pool.peers.set peerID { peer with didTimeout := true, timeout := some false } }
    else pool
  | none => pool

/-! ## The requester's goroutine -/

/-- The requester at `idx` replaced, after it was read from the same pool. -/
def setObject (pool : BlockPool ID B) (idx : Nat) (requester : BPRequester ID B) : BlockPool ID B :=
  { pool with objects := pool.objects.set idx requester }

/-- The goroutine of the requester at `idx` moved to `point`. -/
def setRoutine (pool : BlockPool ID B) (idx : Nat) (point : RoutinePoint ID) : BlockPool ID B :=
  { pool with objects := pool.objects.modify idx fun requester => { requester with routine := point } }

/-- `PICK_PEER_LOOP`: a stopped requester returns, and a running one asks the
pool for a peer, and sleeps and asks again when there is none. -/
def pickPeer (pool : BlockPool ID B) (idx : Nat) (order : List ID) : BlockPool ID B :=
  match pool.objects[idx]? with
  | some requester =>
    if requester.routine = .pickPeer then
      if !requester.running then pool.setRoutine idx .done
      else
        -- the pick may remove peers, and so send redos, before the routine moves on
        match pool.pickIncrAvailablePeer requester.height order with
        | (pool, some peerID) => pool.setRoutine idx (.picked peerID)
        | (pool, none) => pool
    else pool
  | none => pool

/-- The peer picked is stored as `peerID` under the requester's own mutex, and
the request is sent. -/
def storePeer (pool : BlockPool ID B) (idx : Nat) : BlockPool ID B :=
  match pool.objects[idx]? with
  | some requester =>
    match requester.routine with
    | .picked peerID => pool.setObject idx { requester with peerID := some peerID, routine := .wait }
    | _ => pool
  | none => pool

/-- `WAIT_LOOP` takes a redo: for its own peer it resets, counting its block
as pending again, and picks anew; for another it waits on. -/
def takeRedo (pool : BlockPool ID B) (idx : Nat) : BlockPool ID B :=
  match pool.objects[idx]? with
  | some requester =>
    match requester.routine, requester.redoCh with
    | .wait, some peerID =>
      let requester := { requester with redoCh := none }
      if some peerID = requester.peerID then
        let pool := if requester.block.isSome then { pool with numPending := pool.numPending + 1 } else pool
        pool.setObject idx { requester.reset with routine := .pickPeer }
      else pool.setObject idx requester
    | _, _ => pool
  | none => pool

/-- `WAIT_LOOP` of a stopped requester takes `Quit()` and returns. -/
def quit (pool : BlockPool ID B) (idx : Nat) : BlockPool ID B :=
  match pool.objects[idx]? with
  | some requester =>
    if requester.routine = .wait ∧ !requester.running then pool.setRoutine idx .done
    else pool
  | none => pool

end BlockPool

/-! ## Runs -/

/-- The events of a run: the calls into the pool, its timers and the steps of
the requesters' goroutines. -/
inductive PoolEvent (ID B : Type)
  | makeNextRequester
  | setPeerRange (peerID : ID) (base height : Int)
  | removePeer (peerID : ID)
  | removeTimedoutPeers (slow order : List ID)
  | onTimeout (peerID : ID)
  | addBlock (peerID : ID) (block : B)
  | popRequest
  | redoRequest (height : Int)
  | pickPeer (idx : Nat) (order : List ID)
  | storePeer (idx : Nat)
  | takeRedo (idx : Nat)
  | quit (idx : Nat)
  deriving DecidableEq, Repr

variable (blockHeight : B → Int)

/-- One event. -/
def PoolEvent.apply (pool : BlockPool ID B) : PoolEvent ID B → Option (BlockPool ID B)
  | .makeNextRequester => some pool.makeNextRequester
  | .setPeerRange peerID base height => some (pool.setPeerRange peerID base height)
  | .removePeer peerID => some (pool.removePeer peerID)
  | .removeTimedoutPeers slow order => pool.removeTimedoutPeers slow order
  | .onTimeout peerID => some (pool.onTimeout peerID)
  | .addBlock peerID block => pool.addBlock blockHeight peerID block
  | .popRequest => pool.popRequest
  | .redoRequest height => pool.redoRequest height
  | .pickPeer idx order => some (pool.pickPeer idx order)
  | .storePeer idx => some (pool.storePeer idx)
  | .takeRedo idx => some (pool.takeRedo idx)
  | .quit idx => some (pool.quit idx)

/-- A run of events, `none` when one of them panics. -/
def poolRun (pool : BlockPool ID B) : List (PoolEvent ID B) → Option (BlockPool ID B)
  | [] => some pool
  | e :: es => (e.apply blockHeight pool).bind fun pool => poolRun pool es

end Ostracon.Blockchain
