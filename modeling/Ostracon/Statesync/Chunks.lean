import Ostracon.Lib.GoMap
/-!
# The chunk queue of state sync

The model of `statesync/chunks.go`.  A `chunkQueue` holds the chunks of one
snapshot while state sync fetches them (`Allocate`, `Add`) and applies them in
order (`Next`).  Every method holds the queue's mutex for its whole body, and
is one step here, except `Next`: it unlocks after its first critical section,
waits on the channel `WaitFor` gives it, and locks again to load the chunk.  A
call of `Next` is therefore a pending call with a phase of its own (`NextPhase`),
and any other call may run between its steps.  `Sys.step` takes one call of
`Call`, and `Sys.run` a whole interleaving of them.

The files of the chunks are kept as their contents: a chunk's path is its
index under the queue's own directory, which `Close` removes, so that no file
can be read after it.  The channels `WaitFor` makes have a buffer of one; the
model numbers them in the order they are made and keeps, for each, the
values sent to it, how many were received, and whether it is closed.  Sending
on a closed channel and closing one twice panic, and a send on a full buffer
blocks while its sender holds the lock, which nothing can then release: all
three are `none`.  A caller of `WaitFor` other than `Next` may receive on its
channel; nothing the queue reads depends on it, and it is left out.

Indices and counts are natural numbers.  The keys of the maps stay below the
snapshot's chunk count, a `uint32`, so the `uint32` conversion of `len` in
`Allocate` never wraps.  The errors of the file system are not modelled.
-/

namespace Ostracon.Statesync

/-- The fields of a `snapshot` that the chunk queue reads. -/
structure Snapshot where
  height : Nat
  format : Nat
  chunks : Nat
  deriving DecidableEq, Repr

/-- `chunk`; a nil `Chunk` slice is `none`. -/
structure Chunk (ID : Type) where
  height : Nat
  format : Nat
  index : Nat
  chunk : Option (List UInt8)
  sender : ID
  deriving DecidableEq, Repr

/-- The errors of the chunk queue: `errDone`, `errTimeout`, and one for each
`errors.New` and `fmt.Errorf` of `chunks.go`. -/
inductive ChunkError
  | noChunks
  | nilChunk
  | invalidHeight (height expected : Nat)
  | invalidFormat (format expected : Nat)
  | unexpectedChunk (index : Nat)
  | loadFailed (index : Nat)
  | done
  | timeout
  deriving DecidableEq, Repr

/-! ## Channels -/

/-- A `chan uint32` made with a buffer of one. -/
structure Chan where
  sent : List Nat
  received : Nat
  closed : Bool
  deriving DecidableEq, Repr

namespace Chan

/-- `make(chan uint32, 1)`. -/
def empty : Chan := ⟨[], 0, false⟩

/-- `ch <- v`. -/
def send (c : Chan) (v : Nat) : Option Chan :=
  if c.closed then none
  else if c.received < c.sent.length then none
  else some { c with sent := c.sent ++ [v] }

/-- `close(ch)`. -/
def close (c : Chan) : Option Chan :=
  if c.closed then none else some { c with closed := true }

/-- `ch <- v; close(ch)`, as `Add` and `WaitFor` signal a chunk. -/
def sendClose (c : Chan) (v : Nat) : Option Chan := (c.send v).bind close

/-- `_, ok := <-ch`, or `none` while it blocks. -/
def receive (c : Chan) : Option (Bool × Chan) :=
  if c.received < c.sent.length then some (true, { c with received := c.received + 1 })
  else if c.closed then some (false, c)
  else none

end Chan

/-- One channel operation on each channel of a list in turn, as the loops of
`Add` and `Close` run them; `none` from the first that fails. -/
def updateChans (f : Chan → Option Chan) : List Nat → (Nat → Chan) → Option (Nat → Chan)
  | [], chans => some chans
  | ch :: rest, chans => (f (chans ch)).bind fun c => updateChans f rest (Function.update chans ch c)

/-! ## The queue -/

/-- `chunkQueue` without its mutex and directory, with the channels its
waiters are, numbered by `nextChan`.  A nil `waiters` map is `none`. -/
structure ChunkQueue (ID : Type) where
  snapshot : Option Snapshot
  chunkFiles : GoMap Nat (List UInt8)
  chunkSenders : GoMap Nat ID
  chunkAllocated : GoMap Nat Bool
  chunkReturned : GoMap Nat Bool
  waiters : Option (GoMap Nat (List Nat))
  chans : Nat → Chan
  nextChan : Nat

/-- `m[i]` of a `map[uint32]bool`, `false` where the key is absent. -/
def isSet (m : GoMap Nat Bool) (i : Nat) : Bool := (m.get i).getD false

/-- The loops of `Allocate` and `nextUp`: the first index below `n` that is
not set. -/
def firstUnset (m : GoMap Nat Bool) (n : Nat) : Option Nat :=
  (List.range n).find? fun i => !isSet m i

variable {ID : Type}

/-- `newChunkQueue`, with its directory made. -/
def newChunkQueue (snapshot : Snapshot) : Except ChunkError (ChunkQueue ID) :=
  if snapshot.chunks = 0 then .error .noChunks
  else .ok ⟨some snapshot, .empty, .empty, .empty, .empty, some .empty, fun _ => Chan.empty, 0⟩

namespace ChunkQueue

variable [DecidableEq ID] [Inhabited ID]

/-- A channel operation on one channel of the queue. -/
def updateChan (q : ChunkQueue ID) (ch : Nat) (f : Chan → Option Chan) : Option (ChunkQueue ID) :=
  (f (q.chans ch)).map fun c => { q with chans := Function.update q.chans ch c }

/-- `Add`, returning `(added, err)`. -/
def add (q : ChunkQueue ID) (chunk : Chunk ID) :
    Option ((Bool × Option ChunkError) × ChunkQueue ID) :=
  match chunk.chunk with
  | none => some ((false, some .nilChunk), q)
  | some body =>
    match q.snapshot with
    | none => some ((false, none), q)
    | some snapshot =>
      if chunk.height ≠ snapshot.height then
        some ((false, some (.invalidHeight chunk.height snapshot.height)), q)
      else if chunk.format ≠ snapshot.format then
        some ((false, some (.invalidFormat chunk.format snapshot.format)), q)
      else if chunk.index ≥ snapshot.chunks then
        some ((false, some (.unexpectedChunk chunk.index)), q)
      else if (q.chunkFiles.get chunk.index).isSome then
        some ((false, none), q)
      else
        let waiting := (q.waiters.bind fun w => w.get chunk.index).getD []
        (updateChans (fun c => c.sendClose chunk.index) waiting q.chans).map fun chans =>
          ((true, none), { q with
            chunkFiles := q.chunkFiles.set chunk.index body
            chunkSenders := q.chunkSenders.set chunk.index chunk.sender
            waiters := q.waiters.map fun w => w.erase chunk.index
            chans := chans })

/-- `Allocate`, returning `(index, err)`. -/
def allocate (q : ChunkQueue ID) : (Nat × Option ChunkError) × ChunkQueue ID :=
  match q.snapshot with
  | none => ((0, some .done), q)
  | some snapshot =>
    if q.chunkAllocated.length ≥ snapshot.chunks then ((0, some .done), q)
    else
      match firstUnset q.chunkAllocated snapshot.chunks with
      | some i => ((i, none), { q with chunkAllocated := q.chunkAllocated.set i true })
      | none => ((0, some .done), q)

/-- `Close`.  The order it closes the waiters in is that of the entries. -/
def close (q : ChunkQueue ID) : Option (ChunkQueue ID) :=
  match q.snapshot with
  | none => some q
  | some _ =>
    let waiting := ((q.waiters.map GoMap.values).getD []).flatten
    (updateChans Chan.close waiting q.chans).map fun chans =>
      { q with waiters := none, snapshot := none, chans := chans }

/-- `discard`, which `Discard` calls with the lock held. -/
def discard (q : ChunkQueue ID) (index : Nat) : ChunkQueue ID :=
  match q.snapshot with
  | none => q
  | some _ =>
    match q.chunkFiles.get index with
    | none => q
    | some _ =>
      { q with
        chunkFiles := q.chunkFiles.erase index
        chunkReturned := q.chunkReturned.erase index
        chunkAllocated := q.chunkAllocated.erase index }

/-- One turn of the loop of `DiscardSender`. -/
def discardSenderAt (peerID : ID) (q : ChunkQueue ID) (entry : Nat × ID) : ChunkQueue ID :=
  if entry.2 = peerID ∧ isSet q.chunkReturned entry.1 = false then
    let q := q.discard entry.1
    { q with chunkSenders := q.chunkSenders.erase entry.1 }
  else q

/-- `DiscardSender`.  It ranges over the senders in the order of the entries;
a turn deletes only its own key, and reads nothing another turn writes. -/
def discardSender (q : ChunkQueue ID) (peerID : ID) : ChunkQueue ID :=
  q.chunkSenders.entries.foldl (discardSenderAt peerID) q

/-- `load`: the chunk, or none if it is not in the queue.  After `Close`
its file is gone and reading it fails. -/
def load (q : ChunkQueue ID) (index : Nat) : Option (Chunk ID) × Option ChunkError :=
  match q.chunkFiles.get index with
  | none => (none, none)
  | some body =>
    match q.snapshot with
    | none => (none, some (.loadFailed index))
    | some snapshot =>
      (some ⟨snapshot.height, snapshot.format, index, some body,
        (q.chunkSenders.get index).getD default⟩, none)

/-- `nextUp`. -/
def nextUp (q : ChunkQueue ID) : Nat × Option ChunkError :=
  match q.snapshot with
  | none => (0, some .done)
  | some snapshot =>
    match firstUnset q.chunkReturned snapshot.chunks with
    | some i => (i, none)
    | none => (0, some .done)

/-- `q.chunkReturned[index] = true`. -/
def markReturned (q : ChunkQueue ID) (index : Nat) : ChunkQueue ID :=
  { q with chunkReturned := q.chunkReturned.set index true }

/-- The first critical section of `Next`: the chunk and error it has, and
the index it chose. -/
def nextStart (q : ChunkQueue ID) : (Option (Chunk ID) × Option ChunkError × Nat) × ChunkQueue ID :=
  match q.nextUp with
  | (index, some err) => ((none, some err, index), q)
  | (index, none) =>
    match q.load index with
    | (chunk, none) => ((chunk, none, index), q.markReturned index)
    | (chunk, some err) => ((chunk, some err, index), q)

/-- The second critical section of `Next`, after the channel gave it the
index. -/
def nextReload (q : ChunkQueue ID) (index : Nat) :
    (Option (Chunk ID) × Option ChunkError) × ChunkQueue ID :=
  match q.load index with
  | (_, some err) => ((none, some err), q)
  | (chunk, none) => ((chunk, none), q.markReturned index)

/-- `Retry`. -/
def retry (q : ChunkQueue ID) (index : Nat) : ChunkQueue ID :=
  { q with chunkReturned := q.chunkReturned.erase index }

/-- `RetryAll`. -/
def retryAll (q : ChunkQueue ID) : ChunkQueue ID :=
  { q with chunkReturned := .empty }

/-- `WaitFor`, returning the number of the channel it makes. -/
def waitFor (q : ChunkQueue ID) (index : Nat) : Option (Nat × ChunkQueue ID) :=
  let ch := q.nextChan
  let q := { q with chans := Function.update q.chans ch Chan.empty, nextChan := ch + 1 }
  match q.snapshot with
  | none => (q.updateChan ch Chan.close).map fun q => (ch, q)
  | some snapshot =>
    if index ≥ snapshot.chunks then (q.updateChan ch Chan.close).map fun q => (ch, q)
    else if (q.chunkFiles.get index).isSome then
      (q.updateChan ch fun c => c.sendClose index).map fun q => (ch, q)
    else
      -- the first write into a nil map panics
      match q.waiters with
      | none => none
      | some w => some (ch, { q with waiters := some (w.set index ((w.get index).getD [] ++ [ch])) })

end ChunkQueue

/-! ## Interleavings -/

/-- Where a pending call of `Next` is: about to call `WaitFor`, waiting on
its channel or for its timer, or about to lock again. -/
inductive NextPhase
  | waitFor (index : Nat)
  | select (index ch : Nat)
  | reload (index : Nat)
  deriving DecidableEq, Repr

/-- The index a pending call of `Next` chose. -/
def NextPhase.index : NextPhase → Nat
  | .waitFor index => index
  | .select index _ => index
  | .reload index => index

/-- What a call of `Next` returns; a nil `*chunk` is `none`. -/
abbrev NextResult (ID : Type) := Option (Chunk ID) × Option ChunkError

/-- The queue, the pending calls of `Next` by a number of their own, and what
the finished calls of `Next` returned, in the order they returned. -/
structure Sys (ID : Type) where
  q : ChunkQueue ID
  nexts : Nat → Option NextPhase
  nextCall : Nat
  results : List (NextResult ID)

/-- The calls on a queue; the last five are the steps of `Next`. -/
inductive Call (ID : Type)
  | add (chunk : Chunk ID)
  | allocate
  | discard (index : Nat)
  | discardSender (peerID : ID)
  | retry (index : Nat)
  | retryAll
  | waitFor (index : Nat)
  | close
  | next
  | nextWaitFor (call : Nat)
  | nextReceive (call : Nat)
  | nextTimeout (call : Nat)
  | nextReload (call : Nat)
  deriving DecidableEq, Repr

namespace Sys

variable [DecidableEq ID] [Inhabited ID]

/-- A queue with no call of `Next` pending. -/
def init (q : ChunkQueue ID) : Sys ID := ⟨q, fun _ => none, 0, []⟩

/-- One call, or one step of a pending `Next`; `none` if it panics, or if it
cannot be taken now. -/
def step (s : Sys ID) : Call ID → Option (Sys ID)
  | .add chunk => (s.q.add chunk).map fun r => { s with q := r.2 }
  | .allocate => some { s with q := s.q.allocate.2 }
  | .discard index => some { s with q := s.q.discard index }
  | .discardSender peerID => some { s with q := s.q.discardSender peerID }
  | .retry index => some { s with q := s.q.retry index }
  | .retryAll => some { s with q := s.q.retryAll }
  | .waitFor index => (s.q.waitFor index).map fun r => { s with q := r.2 }
  | .close => s.q.close.map fun q => { s with q := q }
  | .next =>
    match s.q.nextStart with
    | ((chunk, err, index), q) =>
      if chunk.isSome ∨ err.isSome then some { s with q := q, results := s.results ++ [(chunk, err)] }
      else
        some { s with
          q := q
          nexts := Function.update s.nexts s.nextCall (some (.waitFor index))
          nextCall := s.nextCall + 1 }
  | .nextWaitFor call =>
    match s.nexts call with
    | some (.waitFor index) =>
      (s.q.waitFor index).map fun r =>
        { s with q := r.2, nexts := Function.update s.nexts call (some (.select index r.1)) }
    | _ => none
  | .nextReceive call =>
    match s.nexts call with
    | some (.select index ch) =>
      (s.q.chans ch).receive.map fun r =>
        let q := { s.q with chans := Function.update s.q.chans ch r.2 }
        -- a closed channel means the queue was closed
        if r.1 then { s with q := q, nexts := Function.update s.nexts call (some (.reload index)) }
        else
          { s with
            q := q
            nexts := Function.update s.nexts call none
            results := s.results ++ [(none, some .done)] }
    | _ => none
  | .nextTimeout call =>
    match s.nexts call with
    | some (.select _ _) =>
      some { s with
        nexts := Function.update s.nexts call none
        results := s.results ++ [(none, some .timeout)] }
    | _ => none
  | .nextReload call =>
    match s.nexts call with
    | some (.reload index) =>
      match s.q.nextReload index with
      | (r, q) =>
        some { s with
          q := q
          nexts := Function.update s.nexts call none
          results := s.results ++ [r] }
    | _ => none

/-- An interleaving of calls, from its first. -/
def run (s : Sys ID) : List (Call ID) → Option (Sys ID)
  | [] => some s
  | c :: cs => (s.step c).bind fun s' => s'.run cs

/-- The calls that can be taken now: a step of a pending `Next` needs the
call in its phase, and its receive a channel that does not block. -/
def Enabled (s : Sys ID) : Call ID → Prop
  | .nextWaitFor call => ∃ index, s.nexts call = some (.waitFor index)
  | .nextReceive call => ∃ index ch, s.nexts call = some (.select index ch) ∧ (s.q.chans ch).receive.isSome
  | .nextTimeout call => ∃ index ch, s.nexts call = some (.select index ch)
  | .nextReload call => ∃ index, s.nexts call = some (.reload index)
  | _ => True

end Sys

end Ostracon.Statesync
