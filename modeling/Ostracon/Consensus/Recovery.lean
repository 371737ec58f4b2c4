import Ostracon.Consensus.Replay
import Ostracon.Lib.Traced
/-!
# Crash recovery of the ABCI handshake

`finalizeCommit` makes five durable steps at each height: `SaveBlock`, the
`#ENDHEIGHT` of the WAL, and in `ApplyBlock` the ABCI responses, the app's
`Commit` and the state.  A crash between two of them leaves the stores of
one of the states `finalizeCommits` records, and the handshake replays from
there.  `CrashedAt initialHeight height j` is what the stores hold once the
heights before `height` have committed and `height` has made `j` of its
steps; every state of a run from genesis is one (`finalizeCommits_spec`).

`Recovers` is a complete recovery: `ReplayBlocks` returns, the real app
executes once each, in order, the heights after its own up to the store's,
and the state ends at the store's height.  Every crash recovers
(`CrashedAt.recovers`, `finalizeCommits_recovers`), except after the first
`SaveBlock` of a chain that starts above height `1`: the store holds that
block while the state is still the genesis one at height `0`, and the sanity
check that the store is at most one block ahead of the state panics
(`CrashedAt.first_height_panics`).
-/

namespace Ostracon.Consensus

open Traced

namespace Node

/-- `BlockStore.SaveBlock`: the new `height`, and the `base` of a store that
was empty. -/
def saveBlock (height : Int) (node : Node) : Node :=
  { node with
    storeBase := if node.storeBase = 0 then height else node.storeBase
    storeHeight := height }

/-- `cs.wal.WriteSync(EndHeightMessage{height})`. -/
def writeEndHeight (height : Int) (node : Node) : Node := { node with wal := height :: node.wal }

/-- `SaveABCIResponses`. -/
def saveABCIResponses (height : Int) (node : Node) : Node := { node with responses := height :: node.responses }

/-- The app's `Commit` of the block at `height`. -/
def commit (height : Int) (node : Node) : Node := { node with appHeight := height }

/-- `store.Save(state)` of the state after the block at `height`. -/
def saveState (height : Int) (node : Node) : Node := { node with stateHeight := height }

end Node

/-- The `SaveBlock` of `finalizeCommit`, where the store is below the height;
it panics on a block that does not follow the store's last one. -/
def saveBlockIfNew (height : Int) : Traced Node Unit := do
  let node ← get
  if node.storeHeight < height then
    if 0 < node.storeBase ∧ height ≠ node.storeHeight + 1 then halt
    else step (Node.saveBlock height)
  else pure ()

/-- The durable steps of `finalizeCommit` at `height`: `SaveBlock`, the
`#ENDHEIGHT`, and the saves and the app's `Commit` of `ApplyBlock`.
Executing the block on the app is not durable: an app that crashes before
its `Commit` restarts at its last one. -/
def finalizeCommit (height : Int) : Traced Node Unit := do
  saveBlockIfNew height
  step (Node.writeEndHeight height)
  step (Node.saveABCIResponses height)
  step (Node.commit height)
  step (Node.saveState height)

/-- `finalizeCommit` for the `n` heights from `height`. -/
def finalizeCommits (height : Int) : Nat → Traced Node Unit
  | 0 => pure ()
  | n + 1 => do
    finalizeCommit height
    finalizeCommits (height + 1) n

/-- A new chain: empty stores, the state of `MakeGenesisState`, whose
`LastBlockHeight` is `0` whatever the initial height, and an app at height
`0`. -/
def genesis (initialHeight : Int) : Node := ⟨0, 0, 0, initialHeight, [], 0, []⟩

/-! ## The stores at each crash -/

/-- The height committed before `height`; `0` before the chain's first. -/
def before (initialHeight height : Int) : Int := if height = initialHeight then 0 else height - 1

/-- The stores once the heights from `initialHeight` before `height` have
committed and `height` has made its first `j` durable steps. -/
structure CrashedAt (initialHeight height : Int) (j : Nat) (node : Node) : Prop where
  initialHeight_eq : node.initialHeight = initialHeight
  storeBase : node.storeBase = if node.storeHeight = 0 then 0 else initialHeight
  storeHeight : node.storeHeight = if 1 ≤ j then height else before initialHeight height
  responses : ∀ h, h ∈ node.responses ↔ initialHeight ≤ h ∧ (h < height ∨ h = height ∧ 3 ≤ j)
  appHeight : node.appHeight = if 4 ≤ j then height else before initialHeight height
  stateHeight : node.stateHeight = before initialHeight height

section Crash

variable {initialHeight height : Int} {node : Node}

theorem genesis_crashedAt (initialHeight : Int) : CrashedAt initialHeight initialHeight 0 (genesis initialHeight) := by
  constructor <;> simp [genesis, before]

theorem CrashedAt.saveBlock (hinit : 1 ≤ initialHeight) (hheight : initialHeight ≤ height)
    (h : CrashedAt initialHeight height 0 node) : CrashedAt initialHeight height 1 (node.saveBlock height) := by
  obtain ⟨hi, hbase, hstore, hresp, happ, hstate⟩ := h
  refine ⟨hi, ?_, by simp [Node.saveBlock], fun k => by simpa [Node.saveBlock] using hresp k,
    by simpa [Node.saveBlock] using happ, hstate⟩
  -- the first block sets the base at the chain's first height
  simp only [Node.saveBlock, hbase, hstore, before]
  split_ifs <;> omega

theorem CrashedAt.writeEndHeight (h : CrashedAt initialHeight height 1 node) :
    CrashedAt initialHeight height 2 (node.writeEndHeight height) := by
  obtain ⟨hi, hbase, hstore, hresp, happ, hstate⟩ := h
  exact ⟨hi, hbase, by simpa [Node.writeEndHeight] using hstore,
    fun k => by simpa [Node.writeEndHeight] using hresp k, by simpa [Node.writeEndHeight] using happ, hstate⟩

theorem CrashedAt.saveABCIResponses (h : CrashedAt initialHeight height 2 node) (hheight : initialHeight ≤ height) :
    CrashedAt initialHeight height 3 (node.saveABCIResponses height) := by
  obtain ⟨hi, hbase, hstore, hresp, happ, hstate⟩ := h
  refine ⟨hi, hbase, by simpa [Node.saveABCIResponses] using hstore, fun k => ?_,
    by simpa [Node.saveABCIResponses] using happ, hstate⟩
  simp only [Node.saveABCIResponses, List.mem_cons, hresp]
  omega

theorem CrashedAt.commit (h : CrashedAt initialHeight height 3 node) :
    CrashedAt initialHeight height 4 (node.commit height) := by
  obtain ⟨hi, hbase, hstore, hresp, happ, hstate⟩ := h
  refine ⟨hi, hbase, by simpa [Node.commit] using hstore, fun k => ?_, by simp [Node.commit], hstate⟩
  simp only [Node.commit, hresp]
  omega

theorem CrashedAt.saveState (hheight : initialHeight ≤ height)
    (h : CrashedAt initialHeight height 4 node) : CrashedAt initialHeight (height + 1) 0 (node.saveState height) := by
  obtain ⟨hi, hbase, hstore, hresp, happ, hstate⟩ := h
  have hbefore : before initialHeight (height + 1) = height := by
    simp only [before]
    split_ifs <;> omega
  refine ⟨hi, hbase, ?_, fun k => ?_, ?_, ?_⟩
  · simpa [Node.saveState, hbefore] using hstore
  · simp only [Node.saveState, hresp]
    omega
  · simpa [Node.saveState, hbefore] using happ
  · simp [Node.saveState, hbefore]

/-- What a crash can leave during `finalizeCommit`: a state of the current
height, or the next height's start. -/
def DuringCommit (initialHeight height : Int) (node : Node) : Prop :=
  (∃ j ≤ 4, CrashedAt initialHeight height j node) ∨ CrashedAt initialHeight (height + 1) 0 node

theorem saveBlockIfNew_spec (hinit : 1 ≤ initialHeight) (hheight : initialHeight ≤ height) :
    Spec (CrashedAt initialHeight height 0) (saveBlockIfNew height) (DuringCommit initialHeight height)
      (fun _ => CrashedAt initialHeight height 1) := by
  refine spec_bind (R := fun node s => s = node ∧ CrashedAt initialHeight height 0 s)
    (spec_get fun s hs => ⟨rfl, hs⟩) fun node => ?_
  refine spec_of_imp (fun s (hs : s = node ∧ CrashedAt initialHeight height 0 s) => hs.1 ▸ hs.2) fun hnode => ?_
  -- the store is below the height, and the block follows its last one
  have hlt : node.storeHeight < height := by
    rw [hnode.storeHeight, before]
    split_ifs <;> omega
  have hnext : ¬(0 < node.storeBase ∧ height ≠ node.storeHeight + 1) := by
    rw [hnode.storeBase, hnode.storeHeight, before]
    split_ifs <;> omega
  simp only [if_pos hlt, if_neg hnext]
  refine spec_step fun s hs => ?_
  obtain ⟨rfl, hs⟩ := hs
  exact ⟨.inl ⟨1, by omega, hs.saveBlock hinit hheight⟩, hs.saveBlock hinit hheight⟩

theorem spec_commitStep {g : Node → Node} {j : Nat} (hj : j + 1 ≤ 4)
    (hg : ∀ node, CrashedAt initialHeight height j node → CrashedAt initialHeight height (j + 1) (g node)) :
    Spec (CrashedAt initialHeight height j) (step g) (DuringCommit initialHeight height)
      (fun _ => CrashedAt initialHeight height (j + 1)) :=
  spec_step fun node hnode => ⟨.inl ⟨j + 1, hj, hg node hnode⟩, hg node hnode⟩

theorem finalizeCommit_spec (hinit : 1 ≤ initialHeight) (hheight : initialHeight ≤ height) :
    Spec (CrashedAt initialHeight height 0) (finalizeCommit height) (DuringCommit initialHeight height)
      (fun _ => CrashedAt initialHeight (height + 1) 0) := by
  unfold finalizeCommit
  refine spec_bind (saveBlockIfNew_spec hinit hheight) fun _ => ?_
  refine spec_bind (spec_commitStep (by omega) fun _ h => h.writeEndHeight) fun _ => ?_
  refine spec_bind (spec_commitStep (by omega) fun _ h => h.saveABCIResponses hheight) fun _ => ?_
  refine spec_bind (spec_commitStep (by omega) fun _ h => h.commit) fun _ => ?_
  exact spec_step fun node hnode => ⟨.inr (hnode.saveState hheight), hnode.saveState hheight⟩

/-- The stores a crash during the commits from the chain's first height can
leave. -/
def Crashed (initialHeight : Int) (node : Node) : Prop :=
  ∃ height j, initialHeight ≤ height ∧ j ≤ 4 ∧ CrashedAt initialHeight height j node

theorem finalizeCommits_spec (hinit : 1 ≤ initialHeight) (n : Nat) :
    ∀ height, initialHeight ≤ height →
      Spec (CrashedAt initialHeight height 0) (finalizeCommits height n) (Crashed initialHeight)
        (fun _ => CrashedAt initialHeight (height + n) 0) := by
  induction n with
  | zero =>
    intro height _
    exact spec_pure fun s hs => by simpa using hs
  | succ n ih =>
    intro height hheight
    have hduring : ∀ node, DuringCommit initialHeight height node → Crashed initialHeight node := by
      rintro node (⟨j, hj, hc⟩ | hc)
      · exact ⟨height, j, hheight, hj, hc⟩
      · exact ⟨height + 1, 0, by omega, by omega, hc⟩
    refine spec_bind ((finalizeCommit_spec hinit hheight).mono (fun _ h => h) hduring fun _ _ h => h) fun _ => ?_
    refine (ih (height + 1) (by omega)).mono (fun _ h => h) (fun _ h => h) fun _ node hnode => ?_
    have hsum : height + 1 + (n : Int) = height + ((n + 1 : Nat) : Int) := by omega
    rwa [hsum] at hnode

/-! ## Replaying from each crash -/

/-- The heights the real app executes, in order. -/
def executed : List AppCall → List Int
  | [] => []
  | .execCommitBlock h :: calls => h :: executed calls
  | .applyBlock h false :: calls => h :: executed calls
  | _ :: calls => executed calls

/-- The height of the state saved last, from `height`. -/
def savedHeight (height : Int) : List AppCall → Int
  | [] => height
  | .saveState h :: calls => savedHeight h calls
  | .applyBlock h _ :: calls => savedHeight h calls
  | _ :: calls => savedHeight height calls

/-- The `n` heights from `i`. -/
def heightsFrom (i : Int) : Nat → List Int
  | 0 => []
  | n + 1 => i :: heightsFrom (i + 1) n

/-- The first height the app has not executed: the chain's first for an app
at height `0`. -/
def Node.nextAppHeight (node : Node) : Int := if node.appHeight = 0 then node.initialHeight else node.appHeight + 1

/-- A complete recovery from `node`: `ReplayBlocks` returns, the real app
executes once each, in order, the heights from the first it has not
executed up to the store's, and the state saved last is at the store's
height. -/
def Recovers (node : Node) : Prop :=
  ∃ calls, node.ReplayBlocks = .ok calls ∧
    executed calls = heightsFrom node.nextAppHeight (node.storeHeight + 1 - node.nextAppHeight).toNat ∧
    savedHeight node.stateHeight calls = node.storeHeight

@[simp] theorem executed_append (calls calls' : List AppCall) :
    executed (calls ++ calls') = executed calls ++ executed calls' := by
  induction calls with
  | nil => rfl
  | cons call calls ih =>
    cases call with
    | applyBlock h mock => cases mock <;> simp [executed, ih]
    | _ => simp [executed, ih]

@[simp] theorem savedHeight_append (height : Int) (calls calls' : List AppCall) :
    savedHeight height (calls ++ calls') = savedHeight (savedHeight height calls) calls' := by
  induction calls generalizing height with
  | nil => rfl
  | cons call calls ih => cases call <;> simp [savedHeight, ih]

end Crash

@[simp] theorem executed_initChainCalls (node : Node) : executed node.initChainCalls = [] := by
  unfold Node.initChainCalls
  split_ifs <;> rfl

@[simp] theorem savedHeight_initChainCalls (node : Node) :
    savedHeight node.stateHeight node.initChainCalls = node.stateHeight := by
  unfold Node.initChainCalls
  split_ifs with happ hstate
  · simp [savedHeight, hstate]
  · rfl
  · rfl

/-! ## Recovery from each case of the replay -/

section Recovers

variable {node : Node}

theorem recovers_of_empty (hs : node.storeHeight = 0) (hstate : node.stateHeight = 0)
    (hnext : 1 ≤ node.nextAppHeight) : Recovers node := by
  refine ⟨_, Node.ReplayBlocks_of_empty hs, ?_, ?_⟩
  · rw [executed_initChainCalls, show (node.storeHeight + 1 - node.nextAppHeight).toNat = 0 by omega]
    rfl
  · rw [savedHeight_initChainCalls]
    omega

theorem recovers_of_synced (hpos : 0 < node.storeHeight) (hstate : node.stateHeight = node.storeHeight)
    (happ : node.appHeight = node.storeHeight) (hbase : node.storeBase ≤ node.storeHeight + 1) : Recovers node := by
  have hnext : node.nextAppHeight = node.storeHeight + 1 := by
    rw [Node.nextAppHeight, if_neg (by omega)]
    omega
  refine ⟨[], Node.ReplayBlocks_of_synced hpos hstate happ hbase, ?_, hstate⟩
  rw [hnext, show (node.storeHeight + 1 - (node.storeHeight + 1)).toNat = 0 by omega]
  rfl

theorem recovers_of_real (hpos : 0 < node.storeBase) (hbase : node.storeBase ≤ node.storeHeight)
    (hnext : node.storeHeight = node.stateHeight + 1) (happ : node.appHeight = node.stateHeight)
    (hlow : node.appHeight = 0 → node.storeBase ≤ node.initialHeight)
    (hinit : node.appHeight = 0 → node.initialHeight = node.storeHeight) : Recovers node := by
  -- the app's next height is the store's in both cases of `nextAppHeight`
  have hstart : node.nextAppHeight = node.storeHeight := by
    unfold Node.nextAppHeight
    split_ifs with h
    · exact hinit h
    · omega
  refine ⟨_, Node.ReplayBlocks_of_real hpos hbase hnext happ hlow, ?_, ?_⟩
  · rw [executed_append, executed_initChainCalls, hstart, show (node.storeHeight + 1 - node.storeHeight).toNat = 1 by
      omega]
    rfl
  · rw [savedHeight_append, savedHeight_initChainCalls]
    rfl

theorem recovers_of_mock (hpos : 0 < node.storeBase) (hbase : node.storeBase ≤ node.storeHeight)
    (hnext : node.storeHeight = node.stateHeight + 1) (happ : node.appHeight = node.storeHeight)
    (hresp : node.storeHeight ∈ node.responses) : Recovers node := by
  have hstart : node.nextAppHeight = node.storeHeight + 1 := by
    rw [Node.nextAppHeight, if_neg (by omega)]
    omega
  refine ⟨_, Node.ReplayBlocks_of_mock hpos hbase hnext happ hresp, ?_, ?_⟩
  · rw [hstart, show (node.storeHeight + 1 - (node.storeHeight + 1)).toNat = 0 by omega]
    rfl
  · rfl

end Recovers

/-! ## Recovery from each crash -/

section CrashRecovery

variable {initialHeight height : Int} {j : Nat} {node : Node}

theorem before_add_one (hfirst : height = initialHeight → initialHeight = 1) :
    before initialHeight height + 1 = height := by
  unfold before
  split_ifs with hh
  · have := hfirst hh
    omega
  · omega

theorem CrashedAt.recovers (hinit : 1 ≤ initialHeight) (hheight : initialHeight ≤ height) (hj : j ≤ 4)
    (hfirst : height = initialHeight → 1 ≤ j → initialHeight = 1) (h : CrashedAt initialHeight height j node) :
    Recovers node := by
  obtain ⟨hi, hbase, hstore, hresp, happ, hstate⟩ := h
  -- a crash before `SaveBlock`, before the app's `Commit`, or after it
  rcases (by omega : j = 0 ∨ 1 ≤ j ∧ j ≤ 3 ∨ j = 4) with rfl | ⟨hj1, hj3⟩ | rfl
  · rw [if_neg (by omega)] at hstore happ
    unfold before at hstore happ hstate
    by_cases hh : height = initialHeight
    · -- the stores of the genesis state: only the `InitChain`
      rw [if_pos hh] at hstore happ hstate
      apply recovers_of_empty hstore hstate
      rw [Node.nextAppHeight, if_pos happ]
      omega
    · -- every store at the height before: nothing to replay
      rw [if_neg hh] at hstore happ hstate
      apply recovers_of_synced (by omega) (by omega) (by omega)
      rw [hbase, if_neg (by omega)]
      omega
  · -- the block is saved and the app has not committed it: the real app replays it
    rw [if_pos hj1] at hstore
    rw [if_neg (by omega)] at happ
    have hprev := before_add_one fun hh => hfirst hh hj1
    have hb : node.storeBase = initialHeight := by rw [hbase, if_neg (by omega)]
    exact recovers_of_real (by omega) (by omega) (by omega) (by omega) (fun _ => by omega) (fun _ => by omega)
  · -- the app has committed the block: the mock app replays it from the saved responses
    rw [if_pos (by omega)] at hstore happ
    have hprev := before_add_one fun hh => hfirst hh (by omega)
    have hb : node.storeBase = initialHeight := by rw [hbase, if_neg (by omega)]
    refine recovers_of_mock (by omega) (by omega) (by omega) (by omega) ?_
    rw [hstore, hresp]
    omega

/-- After the `SaveBlock` of the first height of a chain that starts above
height `1`, the store holds that height while the state is the genesis one
at height `0`: `ReplayBlocks` panics on the sanity check that the store is
at most one block ahead of the state. -/
theorem CrashedAt.first_height_panics (hinit : 2 ≤ initialHeight) (hj1 : 1 ≤ j)
    (h : CrashedAt initialHeight initialHeight j node) :
    node.ReplayBlocks = .panic (.storeAheadOfState initialHeight 1) := by
  obtain ⟨hi, hbase, hstore, -, happ, hstate⟩ := h
  have hgenesis : before initialHeight initialHeight = 0 := if_pos rfl
  rw [if_pos hj1] at hstore
  rw [hgenesis] at hstate happ
  have hb : node.storeBase = initialHeight := by rw [hbase, if_neg (by omega)]
  -- the app is at genesis, or has committed the first height
  have happ' : node.appHeight = 0 ∨ node.appHeight = initialHeight := by
    split_ifs at happ <;> omega
  have hpanic : node.ReplayBlocks = .panic (.storeAheadOfState node.storeHeight (node.stateHeight + 1)) :=
    Node.ReplayBlocks_of_storeAhead (by omega) (by omega) (by omega) (by omega) (by omega)
  rwa [hstore, hstate] at hpanic

/-- Every crash of the commits of a new chain, before its first durable
step or after any of them, recovers, but one after the first `SaveBlock` of
a chain that starts above height `1`, where `ReplayBlocks` panics. -/
theorem finalizeCommits_recovers (hinit : 1 ≤ initialHeight) (n : Nat)
    (hnode : node = genesis initialHeight ∨ node ∈ (finalizeCommits initialHeight n (genesis initialHeight)).1) :
    Recovers node ∨ 2 ≤ initialHeight ∧ node.storeHeight = initialHeight ∧
      node.ReplayBlocks = .panic (.storeAheadOfState initialHeight 1) := by
  have hcrashed : Crashed initialHeight node := by
    rcases hnode with rfl | hnode
    · exact ⟨initialHeight, 0, Int.le_refl _, by omega, genesis_crashedAt initialHeight⟩
    · exact (finalizeCommits_spec hinit n initialHeight (Int.le_refl _)).trace (genesis_crashedAt initialHeight)
        node hnode
  obtain ⟨height, j, hheight, hj, hcrash⟩ := hcrashed
  by_cases hbad : height = initialHeight ∧ 1 ≤ j ∧ initialHeight ≠ 1
  · obtain ⟨rfl, hj1, hne⟩ := hbad
    refine .inr ⟨by omega, ?_, hcrash.first_height_panics (by omega) hj1⟩
    rw [hcrash.storeHeight, if_pos hj1]
  · exact .inl (hcrash.recovers hinit hheight hj fun hh hj1 => by omega)

/-- `finalizeCommits_recovers` at the crash after the app's `Commit` of the
first block of a chain that starts at height 1, before the state is saved. -/
theorem finalizeCommits_recovers_afterCommit :
    (⟨1, 1, 0, 1, [1], 1, [1]⟩ : Node) ∈ (finalizeCommits 1 2 (genesis 1)).1 ∧
      Recovers ⟨1, 1, 0, 1, [1], 1, [1]⟩ := by
  have hmem : (⟨1, 1, 0, 1, [1], 1, [1]⟩ : Node) ∈ (finalizeCommits 1 2 (genesis 1)).1 := by decide
  refine ⟨hmem, ?_⟩
  rcases finalizeCommits_recovers (by decide) 2 (.inr hmem) with hrec | ⟨hle, -⟩
  · exact hrec
  · omega

end CrashRecovery

/-- On a chain that starts above height `1`, a crash right after the first
`SaveBlock` leaves a node whose `ReplayBlocks` panics. -/
theorem replayBlocks_panics_after_first_saveBlock (initialHeight : Int) (hinit : 2 ≤ initialHeight) (n : Nat) :
    ∃ node ∈ (finalizeCommits initialHeight (n + 1) (genesis initialHeight)).1,
      node.ReplayBlocks = .panic (.storeAheadOfState initialHeight 1) := by
  have hsave : (genesis initialHeight).saveBlock initialHeight ∈
      (saveBlockIfNew initialHeight (genesis initialHeight)).1 := by
    simp [saveBlockIfNew, genesis, show (0 : Int) < initialHeight by omega]
  refine ⟨_, mem_bind_left (mem_bind_left hsave), ?_⟩
  have hcrash := (genesis_crashedAt initialHeight).saveBlock (by omega) (Int.le_refl _)
  exact hcrash.first_height_panics hinit (Nat.le_refl 1)

theorem replayBlocks_panics_after_first_saveBlock_two :
    (2 : Int) ≤ 2 ∧ ∃ node ∈ (finalizeCommits 2 (0 + 1) (genesis 2)).1,
      node.ReplayBlocks = .panic (.storeAheadOfState 2 1) :=
  ⟨Int.le_refl _, replayBlocks_panics_after_first_saveBlock 2 (Int.le_refl _) 0⟩

end Ostracon.Consensus
