import Ostracon.Blockchain.Processor
import Ostracon.Blockchain.SchedulerInvariant
/-!
# `blockchain/v2/reactor.go`: the demux of fast sync v2

During a fast sync the reactor runs three goroutines: the scheduler routine,
the processor routine and the demux.  Peers put their messages on the
`events` channel; the demux's `select` takes, in an order of its own, an
event from the peers, a tick of one of its timers, or the next event the
scheduler or the processor made, and sends each where its switch says.  The
routines take events from their priority queues one at a time.

`Reactor` is the state of the whole, and `Action` one move of one of its
parts: a peer event, one case of the demux's `select`, or one turn of a
routine's loop, taking an event the queue lets it take.  `step` makes the
move, `none` where a handler panics; every interleaving of the goroutines
is a list of actions, and `run` makes them in turn.  The buffered channels
are unbounded here, and the status broadcast, the peer reports, the logs and
the switch to consensus are left out.

`ReactorInv` holds in every reachable state (`ReactorInv.run`): the
scheduler keeps its bookkeeping, as the demux never hands it a reset, and
the processor each block at its own height.
-/

namespace Ostracon.Blockchain

variable {ID S B : Type}

namespace Event

/-- The type switch of the scheduler's `handle`: the event of the
scheduler's model each of its handlers takes, a block response with the
block's height; `none` for an event it does not know. -/
def toScEvent (ctx : ProcessorContext S B) : Event ID S B → Option (ScEvent ID)
  | .bcResetState state => some (.resetState (ctx.lastBlockHeight state) (ctx.initialHeight state))
  | .bcStatusResponse peerID base height => some (.statusResponse peerID base height)
  | .bcBlockResponse time peerID size block => some (.blockResponse peerID (ctx.blockHeight block) size time)
  | .bcNoBlockResponse peerID height => some (.noBlockResponse peerID height)
  | .rTrySchedule time => some (.trySchedule time)
  | .bcAddNewPeer peerID => some (.addNewPeer peerID)
  | .bcRemovePeer peerID => some (.removePeer peerID)
  | .rTryPrunePeer time => some (.tryPrunePeer time)
  | .pcBlockProcessed height peerID => some (.blockProcessed height peerID)
  | .pcBlockVerificationFailure height firstPeerID secondPeerID =>
    some (.blockVerificationFailure height firstPeerID secondPeerID)
  | _ => none

/-- The block of a block response. -/
def block? : Event ID S B → Option B
  | .bcBlockResponse _ _ _ block => some block
  | _ => none

end Event

/-- An event of the scheduler's model as an event of fast sync; a
`scBlockReceived` carries the block of the response it answers. -/
def ScOutput.toEvent (block : Option B) : ScOutput ID → Event ID S B
  | .noOp => .noOp
  | .finished => .scFinishedEv
  | .blockRequest peerID height => .scBlockRequest peerID height
  | .blockReceived peerID _ => .scBlockReceived peerID block
  | .peerError peerID => .scPeerError peerID
  | .peersPruned peers => .scPeersPruned peers
  | .schedulerFail reason => .scSchedulerFail (some reason)

namespace Event

theorem toScEvent_ne_resetState (ctx : ProcessorContext S B) {event : Event ID S B}
    (hevent : ∀ state, event ≠ .bcResetState state)
    {scEvent : ScEvent ID} (h : event.toScEvent ctx = some scEvent) :
    ∀ lastBlockHeight initialHeight, scEvent ≠ .resetState lastBlockHeight initialHeight := by
  cases event <;> simp only [toScEvent, reduceCtorEq, Option.some.injEq] at h <;> subst h <;>
    simp_all

theorem toScEvent_eq_blockResponse (ctx : ProcessorContext S B) {event : Event ID S B} {peerID : ID}
    {height size time : Int}
    (h : event.toScEvent ctx = some (.blockResponse peerID height size time)) :
    ∃ block, event = .bcBlockResponse time peerID size block ∧ ctx.blockHeight block = height := by
  cases event <;> simp only [toScEvent, reduceCtorEq, Option.some.injEq, ScEvent.blockResponse.injEq] at h
  obtain ⟨rfl, rfl, rfl, rfl⟩ := h
  exact ⟨_, rfl, rfl⟩

end Event

/-- The reactor during a fast sync: the `events` channel, the two routines,
and whether a sync runs (`events` is not nil). -/
structure Reactor (ID S B : Type) where
  events : List (Event ID S B)
  scheduler : Routine (Scheduler ID) (Event ID S B)
  processor : Routine (PcState ID S B) (Event ID S B)
  syncing : Bool

/-- One move of one part of the reactor: a peer event put on `events`, a
case of the demux's `select` (an event from the peers, a tick of a timer,
the next event of the scheduler or of the processor), or one turn of a
routine's loop, taking the event at position `i` of its queue, at time `now`
for the scheduler. -/
inductive Action (ID S B : Type)
  | receive (event : Event ID S B)
  | readEvent
  | tickSchedule (time : Int)
  | tickPrunePeer (time : Int)
  | tickProcessBlock
  | readScheduler
  | readProcessor
  | schedulerTurn (i : Nat) (now : Int)
  | processorTurn (i : Nat)
  deriving DecidableEq, Repr

namespace Reactor

/-- `startSync` with no state: both routines start and the demux runs.  A
second start fails and changes nothing. -/
def startSync (r : Reactor ID S B) : Reactor ID S B :=
  if r.syncing then r
  else { r with scheduler := r.scheduler.start, processor := r.processor.start, syncing := true }

/-- `endSync`: `events` is closed, and both routines stop. -/
def endSync (r : Reactor ID S B) : Reactor ID S B :=
  { r with events := [], scheduler := r.scheduler.stop, processor := r.processor.stop, syncing := false }

/-- The demux's case for an event from the peers. -/
def demuxEvent (r : Reactor ID S B) (event : Event ID S B) : Reactor ID S B :=
  match event with
  | .bcStatusResponse .. | .bcAddNewPeer _ | .bcRemovePeer _ | .bcBlockResponse .. | .bcNoBlockResponse .. =>
    { r with scheduler := r.scheduler.send event }
  | _ => r

/-- The demux's case for an event of the scheduler. -/
def demuxScheduler (r : Reactor ID S B) : Event ID S B → Reactor ID S B
  | .scBlockReceived peerID block => { r with processor := r.processor.send (.scBlockReceived peerID block) }
  | .scPeerError peerID => { r with processor := r.processor.send (.scPeerError peerID) }
  | .scFinishedEv => { r with processor := r.processor.send .scFinishedEv, scheduler := r.scheduler.stop }
  | .scPeersPruned peers =>
    { r with processor := peers.foldl (fun processor peerID => processor.send (.scPeerError peerID)) r.processor }
  | _ => r

/-- The demux's case for an event of the processor. -/
def demuxProcessor (r : Reactor ID S B) : Event ID S B → Reactor ID S B
  | .pcBlockProcessed height peerID => { r with scheduler := r.scheduler.send (.pcBlockProcessed height peerID) }
  | .pcBlockVerificationFailure height firstPeerID secondPeerID =>
    { r with scheduler := r.scheduler.send (.pcBlockVerificationFailure height firstPeerID secondPeerID) }
  | .pcFinished .. => r.endSync
  | _ => r

/-- A move of the demux, or a peer event; nothing once the sync is over. -/
def demux (r : Reactor ID S B) : Action ID S B → Reactor ID S B
  | .receive event => { r with events := r.events ++ [event] }
  | .readEvent =>
    match r.events with
    | [] => r
    | event :: events => demuxEvent { r with events } event
  | .tickSchedule time => { r with scheduler := r.scheduler.send (.rTrySchedule time) }
  | .tickPrunePeer time => { r with scheduler := r.scheduler.send (.rTryPrunePeer time) }
  | .tickProcessBlock => { r with processor := r.processor.send .rProcessBlock }
  | .readScheduler =>
    match r.scheduler.out with
    | [] => r
    | event :: out => demuxScheduler { r with scheduler := { r.scheduler with out } } event
  | .readProcessor =>
    match r.processor.out with
    | [] => r
    | event :: out => demuxProcessor { r with processor := { r.processor with out } } event
  | _ => r

end Reactor

section Step

variable [LinearOrder ID] [Inhabited ID] (ctx : ProcessorContext S B)

/-- `scheduler.handle`, at time `now`. -/
def schedulerHandle (now : Int) (sc : Scheduler ID) (event : Event ID S B) :
    Option (Scheduler ID × Event ID S B) :=
  match event.toScEvent ctx with
  | none => some (sc, .scSchedulerFail none)
  | some scEvent => (sc.handle now scEvent).map fun (sc, out) => (sc, out.toEvent event.block?)

namespace Reactor

/-- `newReactor`, at time `now`. -/
def newReactor (state : S) (now : Int) : Reactor ID S B :=
  let initHeight := ctx.lastBlockHeight state + 1
  let initHeight := if initHeight = 1 then ctx.initialHeight state else initHeight
  ⟨[], .newRoutine (Scheduler.newScheduler initHeight now), .newRoutine (newPcState state), false⟩

/-- One move; `none` where a handler panics. -/
def step (r : Reactor ID S B) : Action ID S B → Option (Reactor ID S B)
  | .schedulerTurn i now =>
    (r.scheduler.handleNext Event.priority (schedulerHandle ctx now) i).map fun scheduler => { r with scheduler }
  | .processorTurn i =>
    (r.processor.handleNext Event.priority (PcState.handle ctx) i).map fun processor => { r with processor }
  | action => some (if r.syncing then r.demux action else r)

/-- The moves in turn; `none` where one panics. -/
def run (r : Reactor ID S B) : List (Action ID S B) → Option (Reactor ID S B)
  | [] => some r
  | action :: actions => (r.step ctx action).bind fun r => run r actions

end Reactor

/-! ## The scheduler's side of the switch -/

theorem Scheduler.SchedInv.schedulerHandle {sc sc' : Scheduler ID} (hinv : Scheduler.SchedInv sc)
    {now : Int} {event out : Event ID S B} (hevent : ∀ state, event ≠ .bcResetState state)
    (h : schedulerHandle ctx now sc event = some (sc', out)) : Scheduler.SchedInv sc' := by
  unfold Blockchain.schedulerHandle at h
  split at h
  · cases h
    exact hinv
  · rename_i scEvent hsc
    obtain ⟨⟨sc₁, out₁⟩, hhandle, hres⟩ := Option.map_eq_some_iff.mp h
    cases hres
    exact (hinv.handle (Event.toScEvent_ne_resetState ctx hevent hsc) hhandle).1

theorem schedulerHandle_eq_blockReceived {sc sc' : Scheduler ID} {now : Int} {event : Event ID S B}
    {peerID : ID} {block : Option B}
    (h : schedulerHandle ctx now sc event = some (sc', .scBlockReceived peerID block)) :
    ∃ time size b, event = .bcBlockResponse time peerID size b ∧ block = some b ∧
      sc.handle now (.blockResponse peerID (ctx.blockHeight b) size time) =
        some (sc', .blockReceived peerID (ctx.blockHeight b)) := by
  unfold Blockchain.schedulerHandle at h
  split at h
  · cases h
  · rename_i scEvent hsc
    obtain ⟨⟨sc₁, out⟩, hhandle, hres⟩ := Option.map_eq_some_iff.mp h
    cases out <;> simp only [ScOutput.toEvent, Prod.mk.injEq, reduceCtorEq, and_false,
      Event.scBlockReceived.injEq] at hres
    rename_i p height
    obtain ⟨rfl, rfl, rfl⟩ := hres
    obtain ⟨size, time, -, rfl, -, -⟩ := Scheduler.handle_eq_blockReceived hhandle
    obtain ⟨b, rfl, rfl⟩ := Event.toScEvent_eq_blockResponse ctx hsc
    exact ⟨time, size, b, rfl, rfl, hhandle⟩

end Step

/-! ## What every reachable state keeps -/

namespace Reactor

section Invariant

variable [LinearOrder ID] (ctx : ProcessorContext S B)

/-- What every reachable reactor keeps: the scheduler's bookkeeping, no
reset in the scheduler's queue, and each block of the processor at its own
height. -/
structure ReactorInv (r : Reactor ID S B) : Prop where
  scheduler : Scheduler.SchedInv r.scheduler.state
  noReset : ∀ state, Event.bcResetState state ∉ r.scheduler.queue.items
  processor : PcState.PcInv ctx r.processor.state

variable {ctx}

theorem ReactorInv.of_eq {r r' : Reactor ID S B} (hinv : ReactorInv ctx r)
    (hscheduler : r'.scheduler = r.scheduler) (hprocessor : r'.processor = r.processor) : ReactorInv ctx r' := by
  obtain ⟨hsched, hreset, hpc⟩ := hinv
  constructor
  · rw [hscheduler]
    exact hsched
  · rw [hscheduler]
    exact hreset
  · rw [hprocessor]
    exact hpc

theorem ReactorInv.sendScheduler {r : Reactor ID S B} (hinv : ReactorInv ctx r) {event : Event ID S B}
    (hevent : ∀ state, event ≠ .bcResetState state) :
    ReactorInv ctx { r with scheduler := r.scheduler.send event } := by
  refine ⟨by simpa using hinv.scheduler, fun state hmem => ?_, hinv.processor⟩
  rcases Routine.mem_send hmem with hmem | heq
  · exact hinv.noReset state hmem
  · exact hevent state heq.symm

theorem ReactorInv.stopScheduler {r : Reactor ID S B} (hinv : ReactorInv ctx r) :
    ReactorInv ctx { r with scheduler := r.scheduler.stop } :=
  ⟨by simpa using hinv.scheduler, by simp, hinv.processor⟩

theorem ReactorInv.setProcessor {r : Reactor ID S B} (hinv : ReactorInv ctx r)
    {processor : Routine (PcState ID S B) (Event ID S B)} (hstate : processor.state = r.processor.state) :
    ReactorInv ctx { r with processor } :=
  ⟨hinv.scheduler, hinv.noReset, hstate ▸ hinv.processor⟩

theorem ReactorInv.endSync {r : Reactor ID S B} (hinv : ReactorInv ctx r) : ReactorInv ctx r.endSync :=
  ⟨by simpa [Reactor.endSync] using hinv.scheduler, by simp [Reactor.endSync],
    by simpa [Reactor.endSync] using hinv.processor⟩

theorem ReactorInv.demuxEvent {r : Reactor ID S B} (hinv : ReactorInv ctx r) (event : Event ID S B) :
    ReactorInv ctx (r.demuxEvent event) := by
  -- the five kinds the switch knows go to the scheduler, the rest nowhere
  cases event <;> simp only [Reactor.demuxEvent] <;> first
    | exact hinv
    | exact hinv.sendScheduler (by simp)

theorem ReactorInv.demuxScheduler {r : Reactor ID S B} (hinv : ReactorInv ctx r) (event : Event ID S B) :
    ReactorInv ctx (r.demuxScheduler event) := by
  cases event <;> simp only [Reactor.demuxScheduler]
  case scBlockReceived peerID block => exact hinv.setProcessor (Routine.state_send ..)
  case scPeerError peerID => exact hinv.setProcessor (Routine.state_send ..)
  case scFinishedEv => exact (hinv.setProcessor (Routine.state_send ..)).stopScheduler
  case scPeersPruned peers => exact hinv.setProcessor (Routine.state_foldl_send ..)
  all_goals exact hinv

theorem ReactorInv.demuxProcessor {r : Reactor ID S B} (hinv : ReactorInv ctx r) (event : Event ID S B) :
    ReactorInv ctx (r.demuxProcessor event) := by
  cases event <;> simp only [Reactor.demuxProcessor]
  case pcBlockProcessed height peerID => exact hinv.sendScheduler (by simp)
  case pcBlockVerificationFailure height firstPeerID secondPeerID => exact hinv.sendScheduler (by simp)
  case pcFinished tmState blocksSynced => exact hinv.endSync
  all_goals exact hinv

theorem ReactorInv.demux {r : Reactor ID S B} (hinv : ReactorInv ctx r) (action : Action ID S B) :
    ReactorInv ctx (r.demux action) := by
  cases action with
  | receive event => exact hinv.of_eq rfl rfl
  | readEvent =>
    simp only [Reactor.demux]
    split
    · exact hinv
    · apply ReactorInv.demuxEvent
      exact hinv.of_eq rfl rfl
  | tickSchedule time => exact hinv.sendScheduler (by simp)
  | tickPrunePeer time => exact hinv.sendScheduler (by simp)
  | tickProcessBlock => exact hinv.setProcessor (Routine.state_send ..)
  | readScheduler =>
    simp only [Reactor.demux]
    split
    · exact hinv
    · apply ReactorInv.demuxScheduler
      exact ⟨hinv.scheduler, hinv.noReset, hinv.processor⟩
  | readProcessor =>
    simp only [Reactor.demux]
    split
    · exact hinv
    · apply ReactorInv.demuxProcessor
      exact ⟨hinv.scheduler, hinv.noReset, hinv.processor⟩
  | schedulerTurn i now => exact hinv
  | processorTurn i => exact hinv

theorem startSync_newReactor_inv (state : S) (now : Int) :
    ReactorInv ctx (newReactor ctx state now : Reactor ID S B).startSync :=
  ⟨Scheduler.newScheduler_inv .., by simp [newReactor, startSync, Routine.newRoutine, Routine.start],
    PcState.newPcState_inv state⟩

variable [Inhabited ID]

theorem ReactorInv.schedulerTurn {r r' : Reactor ID S B} (hinv : ReactorInv ctx r) {i : Nat} {now : Int}
    (h : r.step ctx (.schedulerTurn i now) = some r') : ReactorInv ctx r' := by
  obtain ⟨scheduler, hnext, rfl⟩ := Option.map_eq_some_iff.mp h
  rcases Routine.handleNext_cases hnext with rfl | ⟨event, queue, state, oEvent, hget, hhandle, rfl⟩
  · exact hinv
  · have hevent : ∀ s, event ≠ .bcResetState s := fun s hs =>
      hinv.noReset s (hs ▸ PriorityQueue.mem_of_get? hget)
    exact ⟨hinv.scheduler.schedulerHandle ctx hevent hhandle,
      fun s hs => hinv.noReset s (PriorityQueue.mem_of_mem_get? hget hs), hinv.processor⟩

theorem ReactorInv.processorTurn {r r' : Reactor ID S B} (hinv : ReactorInv ctx r) {i : Nat}
    (h : r.step ctx (.processorTurn i) = some r') : ReactorInv ctx r' := by
  obtain ⟨processor, hnext, rfl⟩ := Option.map_eq_some_iff.mp h
  rcases Routine.handleNext_cases hnext with rfl | ⟨event, queue, state, oEvent, hget, hhandle, rfl⟩
  · exact hinv
  · exact ⟨hinv.scheduler, hinv.noReset, hinv.processor.handle hhandle⟩

theorem ReactorInv.step {r r' : Reactor ID S B} (hinv : ReactorInv ctx r) {action : Action ID S B}
    (h : r.step ctx action = some r') : ReactorInv ctx r' := by
  cases action with
  | schedulerTurn i now => exact hinv.schedulerTurn h
  | processorTurn i => exact hinv.processorTurn h
  | _ =>
    simp only [Reactor.step, Option.some.injEq] at h
    subst h
    split
    · exact hinv.demux _
    · exact hinv

/-- Every run keeps the invariant. -/
theorem ReactorInv.run (actions : List (Action ID S B)) :
    ∀ {r r' : Reactor ID S B}, ReactorInv ctx r → r.run ctx actions = some r' → ReactorInv ctx r' := by
  induction actions with
  | nil =>
    intro r r' hinv h
    cases h
    exact hinv
  | cons action actions ih =>
    intro r r' hinv h
    obtain ⟨r₁, hstep, hrest⟩ := Option.bind_eq_some_iff.mp h
    exact ih (hinv.step hstep) hrest

/-- In every reachable state, a block the scheduler routine hands on is of a
height it asked the sender for and held no received block of: the
scheduler repeats a height only after `removePeer` reset it. -/
theorem ReactorInv.schedulerTurn_blockReceived {r r' : Reactor ID S B} (hinv : ReactorInv ctx r) {i : Nat}
    {now : Int} (h : r.step ctx (.schedulerTurn i now) = some r') {peerID : ID} {block : Option B}
    (hout : r'.scheduler.out = r.scheduler.out ++ [.scBlockReceived peerID block]) :
    ∃ b, block = some b ∧ r.scheduler.state.pendingBlocks.get (ctx.blockHeight b) = some peerID ∧
      r.scheduler.state.receivedBlocks.get (ctx.blockHeight b) = none ∧
      r'.scheduler.state.receivedBlocks.get (ctx.blockHeight b) = some peerID := by
  obtain ⟨scheduler, hnext, rfl⟩ := Option.map_eq_some_iff.mp h
  rcases Routine.handleNext_cases hnext with rfl | ⟨event, queue, state, oEvent, hget, hhandle, rfl⟩
  · -- a turn that takes nothing makes nothing
    simp at hout
  · have hoEvent : oEvent = .scBlockReceived peerID block := by simpa using hout
    subst hoEvent
    obtain ⟨time, size, b, -, rfl, hsc⟩ := schedulerHandle_eq_blockReceived ctx hhandle
    exact ⟨b, rfl, hinv.scheduler.handle_blockReceived hsc⟩

/-- From `startSync` of a new reactor, after every run, a turn of the
scheduler routine that hands on a received block hands on one of a height it
asked the sender for and held no received block of. -/
theorem run_schedulerTurn_blockReceived (state : S) (now : Int) {actions : List (Action ID S B)}
    {r r' : Reactor ID S B} (hrun : (newReactor ctx state now).startSync.run ctx actions = some r)
    {i : Nat} {now' : Int} (h : r.step ctx (.schedulerTurn i now') = some r') {peerID : ID}
    {block : Option B} (hout : r'.scheduler.out = r.scheduler.out ++ [.scBlockReceived peerID block]) :
    ∃ b, block = some b ∧ r.scheduler.state.pendingBlocks.get (ctx.blockHeight b) = some peerID ∧
      r.scheduler.state.receivedBlocks.get (ctx.blockHeight b) = none ∧
      r'.scheduler.state.receivedBlocks.get (ctx.blockHeight b) = some peerID :=
  (ReactorInv.run actions (startSync_newReactor_inv state now) hrun).schedulerTurn_blockReceived h hout

end Invariant

end Reactor

/-! ## A height handed to the processor twice -/

/-- A chain whose states and blocks are their heights, with every commit
verified and every block applied. -/
def heightChain : ProcessorContext Int Int := ⟨id, fun _ => 1, id, fun _ _ _ => true, fun _ block => some block⟩

/-- Peers `1` and `2` join and report heights `1..2`.  The scheduler asks
`1` for block `1`, `1` sends it, and `1` is removed.  The scheduler asks
`2` for block `1` again and `2` sends it, while the processor has taken
none of its events.  It then takes the peer error of `1` first, which is of
high priority, and the block of `1` after it. -/
def overtakingRun : List (Action Nat Int Int) :=
  [.receive (.bcAddNewPeer 1), .readEvent, .schedulerTurn 0 0, .readScheduler,
    .receive (.bcAddNewPeer 2), .readEvent, .schedulerTurn 0 0, .readScheduler,
    .receive (.bcStatusResponse 1 1 2), .readEvent, .schedulerTurn 0 0, .readScheduler,
    .receive (.bcStatusResponse 2 1 2), .readEvent, .schedulerTurn 0 0, .readScheduler,
    .tickSchedule 1, .schedulerTurn 0 1, .readScheduler,
    .receive (.bcBlockResponse 2 1 100 1), .readEvent, .schedulerTurn 0 2, .readScheduler,
    .receive (.bcRemovePeer 1), .readEvent, .schedulerTurn 0 3, .readScheduler,
    .tickSchedule 4, .schedulerTurn 0 4, .readScheduler,
    .receive (.bcBlockResponse 5 2 100 1), .readEvent, .schedulerTurn 0 5, .readScheduler,
    .processorTurn 1, .processorTurn 0]

theorem processor_panics_on_redelivered_height :
    ∃ r, (Reactor.newReactor heightChain 0 0).startSync.run heightChain overtakingRun = some r ∧
      r.processor.state.queue.get 1 = some ⟨1, 1⟩ ∧
      r.processor.queue.items = [.scBlockReceived 2 (some 1)] ∧
      r.step heightChain (.processorTurn 0) = none :=
  ⟨_, rfl, rfl, rfl, rfl⟩

/-- `run_schedulerTurn_blockReceived` at the turn that hands on the first
block `1` peer `1` sends in `overtakingRun`. -/
theorem run_schedulerTurn_blockReceived_firstDelivery :
    ∃ r r', (Reactor.newReactor heightChain 0 0).startSync.run heightChain (overtakingRun.take 21) = some r ∧
      r.step heightChain (.schedulerTurn 0 2) = some r' ∧
      r'.scheduler.out = r.scheduler.out ++ [.scBlockReceived 1 (some 1)] ∧
      ∃ b, some 1 = some b ∧ r.scheduler.state.pendingBlocks.get (heightChain.blockHeight b) = some 1 ∧
        r.scheduler.state.receivedBlocks.get (heightChain.blockHeight b) = none ∧
        r'.scheduler.state.receivedBlocks.get (heightChain.blockHeight b) = some 1 := by
  obtain ⟨r, r', hrun, hstep, hout⟩ : ∃ r r',
      (Reactor.newReactor heightChain 0 0).startSync.run heightChain (overtakingRun.take 21) = some r ∧
        r.step heightChain (.schedulerTurn 0 2) = some r' ∧
        r'.scheduler.out = r.scheduler.out ++ [.scBlockReceived 1 (some 1)] :=
    ⟨_, _, rfl, rfl, rfl⟩
  exact ⟨r, r', hrun, hstep, hout, Reactor.run_schedulerTurn_blockReceived 0 0 hrun hstep hout⟩

end Ostracon.Blockchain
