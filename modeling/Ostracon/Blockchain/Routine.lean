import Ostracon.Blockchain.Scheduler
import Ostracon.Lib.PriorityQueue
/-!
# `blockchain/v2/routine.go` and `types.go`: the events and routines of fast sync v2

Fast sync v2 runs its scheduler and its processor each as a `Routine`: a
goroutine that takes one event at a time from a priority queue, hands it to
its handler and puts what the handler makes on its `out` channel, where the
reactor's demux reads it.  Events are of three priorities, and the queue
hands out one of the highest priority there is; `noOp` is low, the errors,
pruning, resets and timer events of the scheduler are high, the rest normal.

An event here is one of those the reactor, the scheduler and the processor
make.  Blocks are of a type `B` and chain states of a type `S`; the fields
the handlers never read (the `reason` of an error, the time of a status
response) are left out.
-/

namespace Ostracon.Blockchain

/-- The events of fast sync v2. -/
inductive Event (ID S B : Type)
  | bcResetState (state : S)
  | bcStatusResponse (peerID : ID) (base height : Int)
  | bcBlockResponse (time : Int) (peerID : ID) (size : Int) (block : B)
  | bcNoBlockResponse (peerID : ID) (height : Int)
  | bcAddNewPeer (peerID : ID)
  | bcRemovePeer (peerID : ID)
  | rTrySchedule (time : Int)
  | rTryPrunePeer (time : Int)
  | rProcessBlock
  | scFinishedEv
  | scBlockRequest (peerID : ID) (height : Int)
  | scBlockReceived (peerID : ID) (block : Option B)
  | scPeerError (peerID : ID)
  | scPeersPruned (peers : List ID)
  -- `none` for the error of an event the scheduler does not know
  | scSchedulerFail (reason : Option (ScError ID))
  | pcBlockVerificationFailure (height : Int) (firstPeerID secondPeerID : ID)
  | pcBlockProcessed (height : Int) (peerID : ID)
  | pcFinished (tmState : S) (blocksSynced : Nat)
  | noOp
  deriving DecidableEq, Repr

namespace Event

variable {ID S B : Type}

/-- `Priority()`: `priorityLow` is `1`, `priorityNormal` `2` and
`priorityHigh` `3`. -/
def priority : Event ID S B → Nat
  | .bcResetState _ => 3
  | .bcStatusResponse .. => 2
  | .bcBlockResponse .. => 2
  | .bcNoBlockResponse .. => 2
  | .bcAddNewPeer _ => 2
  | .bcRemovePeer _ => 3
  | .rTrySchedule _ => 3
  | .rTryPrunePeer _ => 3
  | .rProcessBlock => 2
  | .scFinishedEv => 2
  | .scBlockRequest .. => 2
  | .scBlockReceived .. => 2
  | .scPeerError _ => 3
  | .scPeersPruned _ => 3
  | .scSchedulerFail _ => 3
  | .pcBlockVerificationFailure .. => 2
  | .pcBlockProcessed .. => 2
  | .pcFinished .. => 2
  | .noOp => 1

end Event

/-- `Routine`: the state its handler works on, the queue of the events sent
to it, the events it has made that the demux has not read yet (its `out`
channel), and whether it runs. -/
structure Routine (σ α : Type) where
  state : σ
  queue : PriorityQueue α
  out : List α
  running : Bool

namespace Routine

variable {σ α : Type}

/-- `newRoutine`, not yet started. -/
def newRoutine (state : σ) : Routine σ α := ⟨state, .empty, [], false⟩

/-- `start`. -/
def start (rt : Routine σ α) : Routine σ α := { rt with running := true }

/-- `send`: a routine that does not run drops the event. -/
def send (rt : Routine σ α) (event : α) : Routine σ α :=
  if rt.running then { rt with queue := rt.queue.put event } else rt

/-- `stop`: the queue is disposed of, with the events still in it, and later
sends fail. -/
def stop (rt : Routine σ α) : Routine σ α := { rt with queue := .empty, running := false }

/-- One turn of the loop of `start`: take the event at position `i`, where
the queue lets it be taken, handle it and put what the handler makes on
`out`.  `none` where the handler panics; a turn the queue does not allow
leaves the routine as it is. -/
def handleNext (priority : α → Nat) (handle : σ → α → Option (σ × α)) (rt : Routine σ α) (i : Nat) :
    Option (Routine σ α) :=
  match rt.queue.get? priority i with
  | none => some rt
  | some (event, queue) =>
    (handle rt.state event).map fun (state, oEvent) => { rt with state, queue, out := rt.out ++ [oEvent] }

@[simp] theorem state_send (rt : Routine σ α) (event : α) : (rt.send event).state = rt.state := by
  unfold send
  split <;> rfl

@[simp] theorem state_foldl_send {β : Type} (f : β → α) (l : List β) (rt : Routine σ α) :
    (l.foldl (fun rt b => rt.send (f b)) rt).state = rt.state := by
  induction l generalizing rt with
  | nil => rfl
  | cons b l ih => rw [List.foldl_cons, ih, state_send]

@[simp] theorem state_stop (rt : Routine σ α) : rt.stop.state = rt.state := rfl

@[simp] theorem out_stop (rt : Routine σ α) : rt.stop.out = rt.out := rfl

@[simp] theorem items_stop (rt : Routine σ α) : rt.stop.queue.items = [] := rfl

theorem mem_send {rt : Routine σ α} {event e : α} (he : e ∈ (rt.send event).queue.items) :
    e ∈ rt.queue.items ∨ e = event := by
  unfold send at he
  split at he
  · simpa using he
  · exact .inl he

theorem handleNext_cases {priority : α → Nat} {handle : σ → α → Option (σ × α)} {rt rt' : Routine σ α}
    {i : Nat} (h : rt.handleNext priority handle i = some rt') :
    rt' = rt ∨ ∃ event queue state oEvent, rt.queue.get? priority i = some (event, queue) ∧
      handle rt.state event = some (state, oEvent) ∧
      rt' = { rt with state, queue, out := rt.out ++ [oEvent] } := by
  unfold handleNext at h
  split at h
  · exact .inl (Option.some.inj h).symm
  · rename_i event queue hget
    obtain ⟨⟨state, oEvent⟩, hhandle, rfl⟩ := Option.map_eq_some_iff.mp h
    exact .inr ⟨event, queue, state, oEvent, hget, hhandle, rfl⟩

end Routine

end Ostracon.Blockchain
