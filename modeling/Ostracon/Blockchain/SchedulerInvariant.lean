import Ostracon.Blockchain.Scheduler
/-!
# The scheduler's bookkeeping over every run

`SchedInv` is what the four maps keep between events: a height is `Pending`
exactly when `pendingBlocks` and `pendingTime` have it, and `Received`
exactly when `receivedBlocks` has it; the peer a block is pending from or
was received from is `Ready` and reported the height; and every height with
a state lies in `[height, height + targetPending)`.  Every event but
`bcResetState` keeps it (`SchedInv.handle`), so every run from
`newScheduler` of such events does (`SchedInv.run`), and a request is only
ever made from a ready peer whose range holds the height
(`RequestsInRange`).

`removePeer` is the one involved step: it resets the peer's pending and
received heights to `New` and then deletes every state above the highest
other ready peer.  What it deletes is pending or received from no one, as
every such height is at most the height its own peer reported.

Under `SchedInv` the scheduler reports a block received only of a height it
asked the sender for and holds no received block of
(`SchedInv.handle_blockReceived`): it reports a height again only after
`removePeer` has reset it.
-/

namespace Ostracon.Blockchain

namespace Scheduler

variable {ID : Type} [LinearOrder ID]

/-- What the scheduler keeps between events. -/
structure SchedInv (sc : Scheduler ID) : Prop where
  peerIDs : ∀ p peer, sc.peers.get p = some peer → peer.peerID = p
  pending : ∀ h, sc.blockStates.get h = some .pending ↔ (sc.pendingBlocks.get h).isSome
  pendingTime : ∀ h, (sc.pendingBlocks.get h).isSome ↔ (sc.pendingTime.get h).isSome
  received : ∀ h, sc.blockStates.get h = some .received ↔ (sc.receivedBlocks.get h).isSome
  pendingPeer : ∀ h p, sc.pendingBlocks.get h = some p →
    ∃ peer, sc.peers.get p = some peer ∧ peer.state = .ready ∧ h ≤ peer.height
  receivedPeer : ∀ h p, sc.receivedBlocks.get h = some p →
    ∃ peer, sc.peers.get p = some peer ∧ peer.state = .ready ∧ h ≤ peer.height
  window : ∀ h, (sc.blockStates.get h).isSome → sc.height ≤ h ∧ h < sc.height + sc.targetPending

/-- No request appears from `sc` to `sc'`. -/
def NoNewPending (sc sc' : Scheduler ID) : Prop :=
  ∀ h p, sc'.pendingBlocks.get h = some p → sc.pendingBlocks.get h = some p

omit [LinearOrder ID] in
theorem NoNewPending.refl (sc : Scheduler ID) : NoNewPending sc sc := fun _ _ h => h

omit [LinearOrder ID] in
theorem NoNewPending.trans {sc sc' sc'' : Scheduler ID} (h : NoNewPending sc sc')
    (h' : NoNewPending sc' sc'') : NoNewPending sc sc'' := fun k p hk => h k p (h' k p hk)

/-! ## The loops of `removePeer` -/

theorem resetPending_cons (peerID : ID) (sc : Scheduler ID) (entry : Int × ID) (entries : List (Int × ID)) :
    resetPending peerID sc (entry :: entries) =
      resetPending peerID (if entry.2 = peerID then
        { sc.setStateAtHeight entry.1 .new with
          pendingTime := sc.pendingTime.erase entry.1
          pendingBlocks := sc.pendingBlocks.erase entry.1 }
      else sc) entries := rfl

theorem resetPending_spec (peerID : ID) : ∀ (entries : List (Int × ID)) (sc : Scheduler ID),
    (∀ h, (resetPending peerID sc entries).blockStates.get h =
      if (h, peerID) ∈ entries then some .new else sc.blockStates.get h) ∧
    (∀ h, (resetPending peerID sc entries).pendingBlocks.get h =
      if (h, peerID) ∈ entries then none else sc.pendingBlocks.get h) ∧
    (∀ h, (resetPending peerID sc entries).pendingTime.get h =
      if (h, peerID) ∈ entries then none else sc.pendingTime.get h) ∧
    (resetPending peerID sc entries).peers = sc.peers ∧
    (resetPending peerID sc entries).receivedBlocks = sc.receivedBlocks ∧
    (resetPending peerID sc entries).height = sc.height ∧
    (resetPending peerID sc entries).targetPending = sc.targetPending
  | [], sc => by simp [resetPending]
  | entry :: entries, sc => by
    obtain ⟨height, peer⟩ := entry
    rw [resetPending_cons]
    by_cases hpeer : peer = peerID
    · -- the front entry is the peer's: its height is reset
      subst hpeer
      rw [if_pos rfl]
      obtain ⟨hstates, hpending, htime, hpeers, hreceived, hheight, htarget⟩ :=
        resetPending_spec peer entries
          { sc.setStateAtHeight height .new with
            pendingTime := sc.pendingTime.erase height
            pendingBlocks := sc.pendingBlocks.erase height }
      refine ⟨fun h => ?_, fun h => ?_, fun h => ?_, hpeers, hreceived, hheight, htarget⟩
      · rw [hstates]
        by_cases hh : h = height <;> simp [hh, setStateAtHeight, GoMap.get_set]
      · rw [hpending]
        by_cases hh : h = height <;> simp [hh, GoMap.get_erase]
      · rw [htime]
        by_cases hh : h = height <;> simp [hh, GoMap.get_erase]
    · rw [if_neg hpeer]
      obtain ⟨hstates, hpending, htime, hpeers, hreceived, hheight, htarget⟩ :=
        resetPending_spec peerID entries sc
      have hne : ∀ h, ((h, peerID) ∈ (height, peer) :: entries) = ((h, peerID) ∈ entries) := by
        intro h
        simp [Ne.symm hpeer]
      exact ⟨fun h => by simp only [hstates, hne], fun h => by simp only [hpending, hne],
        fun h => by simp only [htime, hne], hpeers, hreceived, hheight, htarget⟩

theorem resetReceived_cons (peerID : ID) (sc : Scheduler ID) (entry : Int × ID) (entries : List (Int × ID)) :
    resetReceived peerID sc (entry :: entries) =
      resetReceived peerID (if entry.2 = peerID then
        { sc.setStateAtHeight entry.1 .new with receivedBlocks := sc.receivedBlocks.erase entry.1 }
      else sc) entries := rfl

theorem resetReceived_spec (peerID : ID) : ∀ (entries : List (Int × ID)) (sc : Scheduler ID),
    (∀ h, (resetReceived peerID sc entries).blockStates.get h =
      if (h, peerID) ∈ entries then some .new else sc.blockStates.get h) ∧
    (∀ h, (resetReceived peerID sc entries).receivedBlocks.get h =
      if (h, peerID) ∈ entries then none else sc.receivedBlocks.get h) ∧
    (resetReceived peerID sc entries).peers = sc.peers ∧
    (resetReceived peerID sc entries).pendingBlocks = sc.pendingBlocks ∧
    (resetReceived peerID sc entries).pendingTime = sc.pendingTime ∧
    (resetReceived peerID sc entries).height = sc.height ∧
    (resetReceived peerID sc entries).targetPending = sc.targetPending
  | [], sc => by simp [resetReceived]
  | entry :: entries, sc => by
    obtain ⟨height, peer⟩ := entry
    rw [resetReceived_cons]
    by_cases hpeer : peer = peerID
    · subst hpeer
      rw [if_pos rfl]
      obtain ⟨hstates, hreceived, hpeers, hpending, htime, hheight, htarget⟩ :=
        resetReceived_spec peer entries
          { sc.setStateAtHeight height .new with receivedBlocks := sc.receivedBlocks.erase height }
      refine ⟨fun h => ?_, fun h => ?_, hpeers, hpending, htime, hheight, htarget⟩
      · rw [hstates]
        by_cases hh : h = height <;> simp [hh, setStateAtHeight, GoMap.get_set]
      · rw [hreceived]
        by_cases hh : h = height <;> simp [hh, GoMap.get_erase]
    · rw [if_neg hpeer]
      obtain ⟨hstates, hreceived, hpeers, hpending, htime, hheight, htarget⟩ :=
        resetReceived_spec peerID entries sc
      have hne : ∀ h, ((h, peerID) ∈ (height, peer) :: entries) = ((h, peerID) ∈ entries) := by
        intro h
        simp [Ne.symm hpeer]
      exact ⟨fun h => by simp only [hstates, hne], fun h => by simp only [hreceived, hne],
        hpeers, hpending, htime, hheight, htarget⟩

theorem le_foldl_otherHeight (x : ID) : ∀ (peers : List (ScPeer ID)) (acc : Int),
    let f := fun max (otherPeer : ScPeer ID) =>
      if otherPeer.state ≠ .ready then max
      else if otherPeer.peerID ≠ x ∧ max < otherPeer.height then otherPeer.height else max
    acc ≤ peers.foldl f acc ∧
      ∀ q ∈ peers, q.state = .ready → q.peerID ≠ x → q.height ≤ peers.foldl f acc
  | [], acc => by simp
  | peer :: peers, acc => by
    intro f
    obtain ⟨hstart, hall⟩ := le_foldl_otherHeight x peers (f acc peer)
    have hpeer : acc ≤ f acc peer ∧ (peer.state = .ready → peer.peerID ≠ x → peer.height ≤ f acc peer) := by
      simp only [f]
      constructor
      · split_ifs <;> omega
      · intro hready hx
        simp only [hready, ne_eq, not_true_eq_false, ↓reduceIte, hx, not_false_eq_true, true_and]
        split_ifs <;> omega
    refine ⟨Int.le_trans hpeer.1 hstart, fun q hq hready hx => ?_⟩
    rcases List.mem_cons.mp hq with rfl | hmem
    · exact Int.le_trans (hpeer.2 hready hx) hstart
    · exact hall q hmem hready hx

theorem le_maxOtherPeerHeight (sc : Scheduler ID) (x : ID) {p : ID} {q : ScPeer ID}
    (hq : sc.peers.get p = some q) (hready : q.state = .ready) (hx : q.peerID ≠ x) :
    q.height ≤ sc.maxOtherPeerHeight x :=
  (le_foldl_otherHeight x sc.peers.values 0).2 q (GoMap.mem_values.mpr ⟨p, hq⟩) hready hx

/-! ## `removePeer` -/

theorem removePeer_spec {sc : Scheduler ID} {peerID : ID} {peer : ScPeer ID}
    (hpeer : sc.peers.get peerID = some peer) (hstate : peer.state ≠ .removed) :
    (sc.removePeer peerID).peers = sc.peers.set peerID { peer with state := .removed } ∧
    (sc.removePeer peerID).height = sc.height ∧
    (sc.removePeer peerID).targetPending = sc.targetPending ∧
    (∀ h, (sc.removePeer peerID).pendingBlocks.get h =
      if sc.pendingBlocks.get h = some peerID then none else sc.pendingBlocks.get h) ∧
    (∀ h, (sc.removePeer peerID).pendingTime.get h =
      if sc.pendingBlocks.get h = some peerID then none else sc.pendingTime.get h) ∧
    (∀ h, (sc.removePeer peerID).receivedBlocks.get h =
      if sc.receivedBlocks.get h = some peerID then none else sc.receivedBlocks.get h) ∧
    ∃ M, (∀ p q, sc.peers.get p = some q → q.state = .ready → q.peerID ≠ peer.peerID → p ≠ peerID →
        q.height ≤ M) ∧
      ∀ h, (sc.removePeer peerID).blockStates.get h =
        if M < h then none
        else if sc.receivedBlocks.get h = some peerID ∨ sc.pendingBlocks.get h = some peerID then some .new
        else sc.blockStates.get h := by
  obtain ⟨hs1, hp1, ht1, hpe1, hr1, hh1, htg1⟩ := resetPending_spec peerID sc.pendingBlocks.entries sc
  generalize hsc1 : resetPending peerID sc sc.pendingBlocks.entries = sc1 at hs1 hp1 ht1 hpe1 hr1 hh1 htg1
  obtain ⟨hs2, hr2, hpe2, hp2, ht2, hh2, htg2⟩ := resetReceived_spec peerID sc1.receivedBlocks.entries sc1
  generalize hsc2 : resetReceived peerID sc1 sc1.receivedBlocks.entries = sc2 at hs2 hr2 hpe2 hp2 ht2 hh2 htg2
  have hunfold : sc.removePeer peerID =
      { sc2 with
        peers := sc2.peers.set peerID { peer with state := .removed }
        blockStates := sc2.blockStates.filterKeys fun h =>
          !(({ sc2 with peers := sc2.peers.set peerID { peer with state := .removed } } : Scheduler ID).maxOtherPeerHeight
            peer.peerID < h) } := by
    simp only [Scheduler.removePeer, hpeer, hstate, ↓reduceIte, hsc1, hsc2]
  rw [hunfold]
  set M := ({ sc2 with peers := sc2.peers.set peerID { peer with state := .removed } } : Scheduler ID).maxOtherPeerHeight
    peer.peerID with hM
  have hmem : ∀ (m : GoMap Int ID) h, ((h, peerID) ∈ m.entries) = (m.get h = some peerID) :=
    fun m h => propext GoMap.get_eq_some_iff.symm
  refine ⟨by rw [hpe2, hpe1], by rw [hh2, hh1], by rw [htg2, htg1], fun h => ?_, fun h => ?_, fun h => ?_,
    M, fun p q hq hready hx hp => ?_, fun h => ?_⟩
  · simp only [hp2, hp1, hmem]
  · simp only [ht2, ht1, hmem]
  · simp only [hr2, hr1, hmem]
  · -- the other peers are where they were
    apply le_maxOtherPeerHeight _ _ _ hready hx
    show (sc2.peers.set peerID { peer with state := .removed }).get p = some q
    rw [GoMap.get_set, if_neg hp, hpe2, hpe1]
    exact hq
  · rw [GoMap.get_filterKeys, hs2, hs1, hr1]
    simp only [hmem]
    by_cases hMh : M < h
    · simp [hMh]
    · simp only [hMh, decide_false, Bool.not_false, ↓reduceIte]
      by_cases hrcv : sc.receivedBlocks.get h = some peerID <;>
        by_cases hpend : sc.pendingBlocks.get h = some peerID <;> simp [hrcv, hpend]

theorem SchedInv.le_of_other {sc : Scheduler ID} (hinv : SchedInv sc) {M : Int} {peerID : ID}
    {peer : ScPeer ID} (hid : peer.peerID = peerID)
    (hM : ∀ p q, sc.peers.get p = some q → q.state = .ready → q.peerID ≠ peer.peerID → p ≠ peerID →
      q.height ≤ M)
    {h : Int} {p : ID} (hp : p ≠ peerID)
    (hreq : ∃ q, sc.peers.get p = some q ∧ q.state = .ready ∧ h ≤ q.height) : h ≤ M := by
  obtain ⟨q, hq, hready, hh⟩ := hreq
  have hqid : q.peerID = p := hinv.peerIDs _ _ hq
  have := hM p q hq hready (by rw [hqid, hid]; exact hp) hp
  omega

theorem SchedInv.removePeer {sc : Scheduler ID} (hinv : SchedInv sc) (peerID : ID) :
    SchedInv (sc.removePeer peerID) ∧ NoNewPending sc (sc.removePeer peerID) := by
  cases hpeer : sc.peers.get peerID with
  | none =>
    have hsame : sc.removePeer peerID = sc := by simp [Scheduler.removePeer, hpeer]
    rw [hsame]
    exact ⟨hinv, .refl sc⟩
  | some peer =>
    by_cases hstate : peer.state = .removed
    · have hsame : sc.removePeer peerID = sc := by simp [Scheduler.removePeer, hpeer, hstate]
      rw [hsame]
      exact ⟨hinv, .refl sc⟩
    have hid : peer.peerID = peerID := hinv.peerIDs _ _ hpeer
    obtain ⟨hpeers, hheight, htarget, hpend, htime, hrcv, M, hM, hstates⟩ := removePeer_spec hpeer hstate
    generalize sc.removePeer peerID = sc' at hpeers hheight htarget hpend htime hrcv hstates ⊢
    have hother : ∀ p, p ≠ peerID → sc'.peers.get p = sc.peers.get p := by
      intro p hp
      rw [hpeers, GoMap.get_set, if_neg hp]
    -- a height pending or received from another peer stays below `M`
    have hpendM : ∀ h p, sc.pendingBlocks.get h = some p → p ≠ peerID → h ≤ M :=
      fun h p hh hp => hinv.le_of_other hid hM hp (hinv.pendingPeer h p hh)
    have hrcvM : ∀ h p, sc.receivedBlocks.get h = some p → p ≠ peerID → h ≤ M :=
      fun h p hh hp => hinv.le_of_other hid hM hp (hinv.receivedPeer h p hh)
    refine ⟨⟨fun p q hq => ?_, fun h => ?_, fun h => ?_, fun h => ?_, fun h p hh => ?_, fun h p hh => ?_,
      fun h hh => ?_⟩, fun h p hh => ?_⟩
    · -- peerIDs
      by_cases hp : p = peerID
      · subst hp
        rw [hpeers, GoMap.get_set_self] at hq
        cases hq
        exact hid
      · rw [hother p hp] at hq
        exact hinv.peerIDs p q hq
    · -- pending
      rw [hstates, hpend]
      by_cases hMh : M < h
      · simp only [hMh, ↓reduceIte, reduceCtorEq, false_iff]
        split_ifs with hp
        · simp
        · cases hq : sc.pendingBlocks.get h with
          | none => simp
          | some q =>
            have := hpendM h q hq fun hqp => hp (hqp ▸ hq)
            omega
      · simp only [hMh, ↓reduceIte]
        by_cases hp : sc.pendingBlocks.get h = some peerID
        · simp [hp]
        · by_cases hr : sc.receivedBlocks.get h = some peerID
          · have hrec := (hinv.received h).mpr (by simp [hr])
            have hnone : sc.pendingBlocks.get h = none := by
              cases hq : sc.pendingBlocks.get h with
              | none => rfl
              | some q =>
                have := (hinv.pending h).mpr (by simp [hq])
                rw [hrec] at this
                cases this
            simp [hr, hnone]
          · simp only [hr, hp, or_self, ↓reduceIte]
            exact hinv.pending h
    · -- pendingTime
      rw [hpend, htime]
      split_ifs
      · simp
      · exact hinv.pendingTime h
    · -- received
      rw [hstates, hrcv]
      by_cases hMh : M < h
      · simp only [hMh, ↓reduceIte, reduceCtorEq, false_iff]
        split_ifs with hr
        · simp
        · cases hq : sc.receivedBlocks.get h with
          | none => simp
          | some q =>
            have := hrcvM h q hq fun hqp => hr (hqp ▸ hq)
            omega
      · simp only [hMh, ↓reduceIte]
        by_cases hr : sc.receivedBlocks.get h = some peerID
        · simp [hr]
        · by_cases hp : sc.pendingBlocks.get h = some peerID
          · have hpen := (hinv.pending h).mpr (by simp [hp])
            have hnone : sc.receivedBlocks.get h = none := by
              cases hq : sc.receivedBlocks.get h with
              | none => rfl
              | some q =>
                have := (hinv.received h).mpr (by simp [hq])
                rw [hpen] at this
                cases this
            simp [hp, hnone]
          · simp only [hr, hp, or_self, ↓reduceIte]
            exact hinv.received h
    · -- pendingPeer
      rw [hpend] at hh
      split_ifs at hh with hp
      have hne : p ≠ peerID := fun hpe => hp (hpe ▸ hh)
      rw [hother p hne]
      exact hinv.pendingPeer h p hh
    · -- receivedPeer
      rw [hrcv] at hh
      split_ifs at hh with hr
      have hne : p ≠ peerID := fun hpe => hr (hpe ▸ hh)
      rw [hother p hne]
      exact hinv.receivedPeer h p hh
    · -- window: every state left was there before
      rw [hheight, htarget]
      apply hinv.window h
      rw [hstates] at hh
      split_ifs at hh with hMh hreset
      · simp at hh
      · rcases hreset with hr | hp
        · rw [(hinv.received h).mpr (by simp [hr])]
          rfl
        · rw [(hinv.pending h).mpr (by simp [hp])]
          rfl
      · exact hh
    · -- no request appears
      rw [hpend] at hh
      split_ifs at hh
      exact hh

/-! ## Peers and states -/

theorem SchedInv.setPeer {sc : Scheduler ID} (hinv : SchedInv sc) {p : ID} {peer' : ScPeer ID}
    (hid : peer'.peerID = p)
    (hkeep : ∀ peer, sc.peers.get p = some peer → peer.state = .ready →
      peer'.state = .ready ∧ peer.height ≤ peer'.height) :
    SchedInv { sc with peers := sc.peers.set p peer' } := by
  have hlift : ∀ h q, (∃ peer, sc.peers.get q = some peer ∧ peer.state = .ready ∧ h ≤ peer.height) →
      ∃ peer, (sc.peers.set p peer').get q = some peer ∧ peer.state = .ready ∧ h ≤ peer.height := by
    rintro h q ⟨peer, hq, hready, hle⟩
    by_cases hqp : q = p
    · subst hqp
      obtain ⟨hready', hgrow⟩ := hkeep peer hq hready
      exact ⟨peer', GoMap.get_set_self _ _ _, hready', by omega⟩
    · exact ⟨peer, by rw [GoMap.get_set, if_neg hqp]; exact hq, hready, hle⟩
  refine ⟨fun q peer hq => ?_, hinv.pending, hinv.pendingTime, hinv.received,
    fun h q hh => hlift h q (hinv.pendingPeer h q hh), fun h q hh => hlift h q (hinv.receivedPeer h q hh),
    hinv.window⟩
  simp only [GoMap.get_set] at hq
  split_ifs at hq with hqp
  · cases hq
    rw [hqp, hid]
  · exact hinv.peerIDs q peer hq

theorem ensurePeer_spec (sc : Scheduler ID) (peerID : ID) :
    (sc.ensurePeer peerID).1.peers.get peerID = some (sc.ensurePeer peerID).2 ∧
      (sc.peers.get peerID = some (sc.ensurePeer peerID).2 ∨
        (sc.peers.get peerID = none ∧ (sc.ensurePeer peerID).2 = newScPeer peerID)) ∧
      (sc.ensurePeer peerID).1.pendingBlocks = sc.pendingBlocks := by
  unfold ensurePeer
  split
  · rename_i peer hpeer
    exact ⟨hpeer, .inl hpeer, rfl⟩
  · rename_i hnone
    exact ⟨GoMap.get_set_self _ _ _, .inr ⟨hnone, rfl⟩, rfl⟩

theorem SchedInv.ensurePeer {sc : Scheduler ID} (hinv : SchedInv sc) (peerID : ID) :
    SchedInv (sc.ensurePeer peerID).1 := by
  unfold Scheduler.ensurePeer
  split
  · exact hinv
  · rename_i hnone
    exact hinv.setPeer rfl fun peer hpeer => absurd (hnone ▸ hpeer) (by simp)

theorem SchedInv.setNew {sc : Scheduler ID} (hinv : SchedInv sc) {i : Int}
    (hstate : sc.getStateAtHeight i = .unknown) (hi : i < sc.height + sc.targetPending) :
    SchedInv (sc.setStateAtHeight i .new) := by
  unfold getStateAtHeight at hstate
  split_ifs at hstate with hlow
  -- the height has no state that a map follows
  have hfree : sc.blockStates.get i ≠ some .pending ∧ sc.blockStates.get i ≠ some .received := by
    cases hget : sc.blockStates.get i with
    | none => simp
    | some state =>
      rw [hget] at hstate
      simp only [Option.getD_some] at hstate
      subst hstate
      simp
  have hpend : sc.pendingBlocks.get i = none := by
    cases hq : sc.pendingBlocks.get i with
    | none => rfl
    | some q => exact absurd ((hinv.pending i).mpr (by simp [hq])) hfree.1
  have hrcv : sc.receivedBlocks.get i = none := by
    cases hq : sc.receivedBlocks.get i with
    | none => rfl
    | some q => exact absurd ((hinv.received i).mpr (by simp [hq])) hfree.2
  refine ⟨hinv.peerIDs, fun h => ?_, hinv.pendingTime, fun h => ?_, hinv.pendingPeer, hinv.receivedPeer,
    fun h hh => ?_⟩
  · simp only [setStateAtHeight, GoMap.get_set]
    split_ifs with hhi
    · subst hhi
      simp [hpend]
    · exact hinv.pending h
  · simp only [setStateAtHeight, GoMap.get_set]
    split_ifs with hhi
    · subst hhi
      simp [hrcv]
    · exact hinv.received h
  · simp only [setStateAtHeight, GoMap.get_set] at hh ⊢
    split_ifs at hh with hhi
    · subst hhi
      exact ⟨by omega, hi⟩
    · exact hinv.window h hh

theorem SchedInv.addNewBlocksLoop (maxHeight : Int) :
    ∀ (n : Nat) (i : Int) {sc : Scheduler ID}, SchedInv sc → sc.height ≤ i →
      i + n ≤ sc.height + sc.targetPending →
      SchedInv (addNewBlocksLoop maxHeight n i sc) ∧
        (addNewBlocksLoop maxHeight n i sc).pendingBlocks = sc.pendingBlocks ∧
        (addNewBlocksLoop maxHeight n i sc).height = sc.height ∧
        (addNewBlocksLoop maxHeight n i sc).targetPending = sc.targetPending
  | 0, _, sc, hinv, _, _ => ⟨hinv, rfl, rfl, rfl⟩
  | n + 1, i, sc, hinv, hlow, hhigh => by
    unfold Scheduler.addNewBlocksLoop
    split_ifs with hmax hunknown
    · exact ⟨hinv, rfl, rfl, rfl⟩
    · obtain ⟨hinv', hp, hh, ht⟩ := SchedInv.addNewBlocksLoop maxHeight n (i + 1)
        (hinv.setNew hunknown (by omega)) (by simp only [setStateAtHeight]; omega)
        (by simp only [setStateAtHeight]; omega)
      exact ⟨hinv', hp, hh, ht⟩
    · exact SchedInv.addNewBlocksLoop maxHeight n (i + 1) hinv (by omega) (by omega)

theorem SchedInv.addNewBlocks {sc : Scheduler ID} (hinv : SchedInv sc) :
    SchedInv sc.addNewBlocks ∧ NoNewPending sc sc.addNewBlocks := by
  unfold Scheduler.addNewBlocks
  split_ifs with hfull
  · exact ⟨hinv, .refl sc⟩
  · have hlen := Int.natCast_nonneg sc.blockStates.length
    obtain ⟨hinv', hp, -, -⟩ := SchedInv.addNewBlocksLoop sc.maxHeight sc.targetPending.toNat sc.height hinv
      le_rfl (by omega)
    exact ⟨hinv', fun h p hh => hp ▸ hh⟩

theorem SchedInv.setPeerRange {sc : Scheduler ID} (hinv : SchedInv sc) (peerID : ID) (base height : Int) :
    SchedInv (sc.setPeerRange peerID base height).1 ∧ NoNewPending sc (sc.setPeerRange peerID base height).1 := by
  obtain ⟨hget, -, hpend⟩ := ensurePeer_spec sc peerID
  have hinv₁ := hinv.ensurePeer peerID
  unfold Scheduler.setPeerRange
  generalize sc.ensurePeer peerID = ensured at hget hinv₁ hpend ⊢
  obtain ⟨sc₁, peer⟩ := ensured
  dsimp only at hget hpend hinv₁ ⊢
  have hsame : NoNewPending sc sc₁ := fun h p hh => by rwa [hpend] at hh
  split_ifs with hremoved hlower hbase
  · exact ⟨hinv₁, hsame⟩
  · obtain ⟨hinv₂, hnew⟩ := hinv₁.removePeer peerID
    exact ⟨hinv₂, hsame.trans hnew⟩
  · obtain ⟨hinv₂, hnew⟩ := hinv₁.removePeer peerID
    exact ⟨hinv₂, hsame.trans hnew⟩
  · -- the peer becomes ready at a height no lower than it had
    have hinv₂ : SchedInv { sc₁ with
        peers := sc₁.peers.set peerID { peer with base := base, height := height, state := .ready } } :=
      hinv₁.setPeer (hinv₁.peerIDs peerID peer hget) fun peer' hpeer' _ => by
        rw [hget] at hpeer'
        cases hpeer'
        exact ⟨rfl, Int.not_lt.mp hlower⟩
    obtain ⟨hinv₃, hnew⟩ := hinv₂.addNewBlocks
    exact ⟨hinv₃, hsame.trans hnew⟩

/-! ## Requests, responses and processing -/

/-- A request made from `sc` to `sc'` is from a ready peer whose reported
range holds the height. -/
def RequestsInRange (sc sc' : Scheduler ID) : Prop :=
  ∀ h p, sc'.pendingBlocks.get h = some p → sc.pendingBlocks.get h ≠ some p →
    ∃ peer, sc.peers.get p = some peer ∧ peer.state = .ready ∧ peer.base ≤ h ∧ h ≤ peer.height

theorem NoNewPending.requestsInRange {sc sc' : Scheduler ID} (h : NoNewPending sc sc') :
    RequestsInRange sc sc' := fun k p hk hne => absurd (h k p hk) hne

omit [LinearOrder ID] in
theorem get_of_getStateAtHeight {sc : Scheduler ID} {h : Int} {s : BlockState}
    (hstate : sc.getStateAtHeight h = s) (hs : s ≠ .unknown) (hp : s ≠ .processed) :
    sc.height ≤ h ∧ sc.blockStates.get h = some s := by
  unfold getStateAtHeight at hstate
  split_ifs at hstate with hlow
  · exact absurd hstate.symm hp
  · refine ⟨by omega, ?_⟩
    cases hq : sc.blockStates.get h with
    | none => simp [hq] at hstate; exact absurd hstate.symm hs
    | some state => simp only [hq, Option.getD_some] at hstate; rw [hstate]

theorem SchedInv.touchPeer {sc sc' : Scheduler ID} (hinv : SchedInv sc) {peerID : ID} {time : Int}
    (h : sc.touchPeer peerID time = .ok sc') : SchedInv sc' ∧ sc'.pendingBlocks = sc.pendingBlocks := by
  unfold Scheduler.touchPeer at h
  split at h
  · cases h
  · rename_i peer hpeer
    split_ifs at h
    cases h
    refine ⟨hinv.setPeer (hinv.peerIDs peerID peer hpeer) fun peer' hpeer' _ => ?_, rfl⟩
    rw [hpeer] at hpeer'
    cases hpeer'
    exact ⟨by simpa using ‹¬ peer.state ≠ .ready›, le_rfl⟩

theorem touchPeer_receivedBlocks {sc sc' : Scheduler ID} {peerID : ID} {time : Int}
    (h : sc.touchPeer peerID time = .ok sc') : sc'.receivedBlocks = sc.receivedBlocks := by
  unfold Scheduler.touchPeer at h
  split at h
  · cases h
  · split_ifs at h
    cases h
    rfl

theorem SchedInv.receive {sc : Scheduler ID} (hinv : SchedInv sc) {h : Int} {p : ID}
    (hp : sc.pendingBlocks.get h = some p) :
    SchedInv { sc.setStateAtHeight h .received with
      pendingBlocks := sc.pendingBlocks.erase h
      pendingTime := sc.pendingTime.erase h
      receivedBlocks := sc.receivedBlocks.set h p } := by
  have hstate : sc.blockStates.get h = some .pending := (hinv.pending h).mpr (by simp [hp])
  refine ⟨hinv.peerIDs, fun k => ?_, fun k => ?_, fun k => ?_, fun k q hk => ?_, fun k q hk => ?_,
    fun k hk => ?_⟩
  · simp only [setStateAtHeight, GoMap.get_set, GoMap.get_erase]
    split_ifs with hkh
    · simp
    · exact hinv.pending k
  · simp only [GoMap.get_erase]
    split_ifs with hkh
    · simp
    · exact hinv.pendingTime k
  · simp only [setStateAtHeight, GoMap.get_set]
    split_ifs with hkh
    · simp
    · exact hinv.received k
  · simp only [GoMap.get_erase] at hk
    split_ifs at hk with hkh
    exact hinv.pendingPeer k q hk
  · -- the received block's peer is the one it was pending from
    simp only [GoMap.get_set] at hk
    split_ifs at hk with hkh
    · cases hk
      rw [hkh]
      exact hinv.pendingPeer h p hp
    · exact hinv.receivedPeer k q hk
  · simp only [setStateAtHeight, GoMap.get_set] at hk
    split_ifs at hk with hkh
    · subst hkh
      exact hinv.window k (by simp [hstate])
    · exact hinv.window k hk

theorem SchedInv.request {sc : Scheduler ID} (hinv : SchedInv sc) {h time : Int} {p : ID}
    {peer : ScPeer ID} (hstate : sc.getStateAtHeight h = .new) (hpeer : sc.peers.get p = some peer)
    (hready : peer.state = .ready) (hle : h ≤ peer.height) :
    SchedInv { sc.setStateAtHeight h .pending with
      pendingBlocks := sc.pendingBlocks.set h p
      pendingTime := sc.pendingTime.set h time } := by
  obtain ⟨-, hget⟩ := get_of_getStateAtHeight hstate (by simp) (by simp)
  have hpend : sc.pendingBlocks.get h = none := by
    cases hq : sc.pendingBlocks.get h with
    | none => rfl
    | some q =>
      have := (hinv.pending h).mpr (by simp [hq])
      rw [hget] at this
      cases this
  have hrcv : sc.receivedBlocks.get h = none := by
    cases hq : sc.receivedBlocks.get h with
    | none => rfl
    | some q =>
      have := (hinv.received h).mpr (by simp [hq])
      rw [hget] at this
      cases this
  refine ⟨hinv.peerIDs, fun k => ?_, fun k => ?_, fun k => ?_, fun k q hk => ?_, hinv.receivedPeer,
    fun k hk => ?_⟩
  · simp only [setStateAtHeight, GoMap.get_set]
    split_ifs with hkh
    · simp
    · exact hinv.pending k
  · simp only [GoMap.get_set]
    split_ifs with hkh
    · simp
    · exact hinv.pendingTime k
  · simp only [setStateAtHeight, GoMap.get_set]
    split_ifs with hkh
    · subst hkh
      simp [hrcv]
    · exact hinv.received k
  · simp only [GoMap.get_set] at hk
    split_ifs at hk with hkh
    · cases hk
      exact ⟨peer, hpeer, hready, hkh ▸ hle⟩
    · exact hinv.pendingPeer k q hk
  · simp only [setStateAtHeight, GoMap.get_set] at hk
    split_ifs at hk with hkh
    · subst hkh
      exact hinv.window k (by simp [hget])
    · exact hinv.window k hk

theorem markPending_spec {sc sc' : Scheduler ID} {peerID : ID} {height time : Int}
    (h : sc.markPending peerID height time = (sc', none)) :
    ∃ peer, sc.getStateAtHeight height = .new ∧ sc.peers.get peerID = some peer ∧
      peer.state = .ready ∧ peer.base ≤ height ∧ height ≤ peer.height ∧
      sc' = { sc.setStateAtHeight height .pending with
        pendingBlocks := sc.pendingBlocks.set height peerID
        pendingTime := sc.pendingTime.set height time } := by
  unfold markPending at h
  dsimp only at h
  split_ifs at h with hstate
  · cases h
  split at h
  · cases h
  rename_i peer hpeer
  split_ifs at h with hready hhigh hlow
  · cases h
  · cases h
  · cases h
  cases h
  exact ⟨peer, not_not.mp hstate, hpeer, not_not.mp hready, by omega, by omega, rfl⟩

theorem markPending_error {sc sc' : Scheduler ID} {peerID : ID} {height time : Int}
    {err : ScError ID} (h : sc.markPending peerID height time = (sc', some err)) : sc' = sc := by
  unfold markPending at h
  dsimp only at h
  split_ifs at h
  · cases h
    rfl
  split at h
  · cases h
    rfl
  split_ifs at h <;> cases h <;> rfl

theorem SchedInv.markPending {sc sc' : Scheduler ID} (hinv : SchedInv sc) {peerID : ID}
    {height time : Int} {err : Option (ScError ID)} (h : sc.markPending peerID height time = (sc', err)) :
    SchedInv sc' ∧ RequestsInRange sc sc' := by
  cases err with
  | some err =>
    rw [markPending_error h]
    exact ⟨hinv, (NoNewPending.refl sc).requestsInRange⟩
  | none =>
    obtain ⟨peer, hstate, hpeer, hready, hbase, hle, rfl⟩ := markPending_spec h
    refine ⟨hinv.request hstate hpeer hready hle, fun k q hk hne => ?_⟩
    simp only [GoMap.get_set] at hk
    split_ifs at hk with hkh
    · cases hk
      exact ⟨peer, hpeer, hready, hkh ▸ hbase, hkh ▸ hle⟩
    · exact absurd hk hne

theorem SchedInv.markProcessed {sc : Scheduler ID} (hinv : SchedInv sc) (now : Int) :
    SchedInv (sc.markProcessed sc.height now) ∧ NoNewPending sc (sc.markProcessed sc.height now) := by
  set sc₁ : Scheduler ID := { sc with
    lastAdvance := now
    height := sc.height + 1
    pendingBlocks := sc.pendingBlocks.erase sc.height
    pendingTime := sc.pendingTime.erase sc.height
    receivedBlocks := sc.receivedBlocks.erase sc.height
    blockStates := sc.blockStates.erase sc.height } with hsc₁
  have hinv₁ : SchedInv sc₁ := by
    refine ⟨hinv.peerIDs, fun k => ?_, fun k => ?_, fun k => ?_, fun k q hk => ?_, fun k q hk => ?_,
      fun k hk => ?_⟩
    · simp only [sc₁, GoMap.get_erase]
      split_ifs
      · simp
      · exact hinv.pending k
    · simp only [sc₁, GoMap.get_erase]
      split_ifs
      · simp
      · exact hinv.pendingTime k
    · simp only [sc₁, GoMap.get_erase]
      split_ifs
      · simp
      · exact hinv.received k
    · simp only [sc₁, GoMap.get_erase] at hk
      split_ifs at hk
      exact hinv.pendingPeer k q hk
    · simp only [sc₁, GoMap.get_erase] at hk
      split_ifs at hk
      exact hinv.receivedPeer k q hk
    · -- every state left is above the processed height
      simp only [sc₁, GoMap.get_erase] at hk ⊢
      split_ifs at hk with hkh
      · simp at hk
      · have := hinv.window k hk
        omega
  obtain ⟨hinv₂, hnew⟩ := hinv₁.addNewBlocks
  refine ⟨hinv₂, (?_ : NoNewPending sc sc₁).trans hnew⟩
  intro k q hk
  simp only [sc₁, GoMap.get_erase] at hk
  split_ifs at hk
  exact hk

/-! ## Handlers -/

theorem SchedInv.removePeers (peers : List ID) :
    ∀ {sc : Scheduler ID}, SchedInv sc →
      SchedInv (peers.foldl Scheduler.removePeer sc) ∧ NoNewPending sc (peers.foldl Scheduler.removePeer sc) := by
  induction peers with
  | nil => exact fun hinv => ⟨hinv, .refl _⟩
  | cons p peers ih =>
    intro sc hinv
    obtain ⟨hinv₁, hnew₁⟩ := hinv.removePeer p
    obtain ⟨hinv₂, hnew₂⟩ := ih hinv₁
    exact ⟨hinv₂, hnew₁.trans hnew₂⟩

theorem SchedInv.pruneOrKeep {sc : Scheduler ID} (hinv : SchedInv sc) (c : Prop) [Decidable c] (peers : List ID)
    (out₁ out₂ : ScOutput ID) :
    SchedInv (if c then (sc, out₁) else (peers.foldl Scheduler.removePeer sc, out₂)).1 ∧
      NoNewPending sc (if c then (sc, out₁) else (peers.foldl Scheduler.removePeer sc, out₂)).1 := by
  by_cases hc : c
  · simp only [hc, ↓reduceIte]
    exact ⟨hinv, .refl sc⟩
  · simp only [hc, ↓reduceIte]
    exact SchedInv.removePeers peers hinv

theorem SchedInv.handleNoBlockResponse {sc : Scheduler ID} (hinv : SchedInv sc) (peerID : ID) :
    SchedInv (sc.handleNoBlockResponse peerID).1 ∧ NoNewPending sc (sc.handleNoBlockResponse peerID).1 := by
  unfold Scheduler.handleNoBlockResponse
  split
  · exact ⟨hinv, .refl sc⟩
  · split_ifs
    · exact ⟨hinv, .refl sc⟩
    · exact hinv.removePeer peerID

theorem SchedInv.handleBlockProcessed {sc sc' : Scheduler ID} (hinv : SchedInv sc) {height now : Int}
    {out : ScOutput ID} (h : sc.handleBlockProcessed height now = some (sc', out)) :
    SchedInv sc' ∧ NoNewPending sc sc' := by
  unfold Scheduler.handleBlockProcessed at h
  split_ifs at h with hheight
  cases h
  rw [not_not.mp hheight]
  exact hinv.markProcessed now

theorem SchedInv.handleBlockProcessError {sc : Scheduler ID} (hinv : SchedInv sc) (firstPeerID secondPeerID : ID) :
    SchedInv (sc.handleBlockProcessError firstPeerID secondPeerID).1 ∧
      NoNewPending sc (sc.handleBlockProcessError firstPeerID secondPeerID).1 := by
  obtain ⟨hinv₁, hnew₁⟩ := hinv.removePeer firstPeerID
  unfold Scheduler.handleBlockProcessError
  dsimp only
  split_ifs
  · obtain ⟨hinv₂, hnew₂⟩ := hinv₁.removePeer secondPeerID
    exact ⟨hinv₂, hnew₁.trans hnew₂⟩
  · exact ⟨hinv₁, hnew₁⟩

theorem SchedInv.handleAddNewPeer {sc : Scheduler ID} (hinv : SchedInv sc) (peerID : ID) :
    SchedInv (sc.handleAddNewPeer peerID).1 ∧ NoNewPending sc (sc.handleAddNewPeer peerID).1 := by
  obtain ⟨-, -, hpend⟩ := ensurePeer_spec sc peerID
  exact ⟨hinv.ensurePeer peerID, fun k p hk => by rwa [Scheduler.handleAddNewPeer, hpend] at hk⟩

theorem SchedInv.handleRemovePeer {sc : Scheduler ID} (hinv : SchedInv sc) (peerID : ID) :
    SchedInv (sc.handleRemovePeer peerID).1 ∧ NoNewPending sc (sc.handleRemovePeer peerID).1 :=
  hinv.removePeer peerID

theorem SchedInv.handleTrySchedule {sc : Scheduler ID} (hinv : SchedInv sc) (time now : Int) :
    SchedInv (sc.handleTrySchedule time now).1 ∧ RequestsInRange sc (sc.handleTrySchedule time now).1 := by
  unfold Scheduler.handleTrySchedule
  dsimp only
  split_ifs
  · exact ⟨hinv, (NoNewPending.refl sc).requestsInRange⟩
  · exact ⟨hinv, (NoNewPending.refl sc).requestsInRange⟩
  split
  · exact ⟨hinv, (NoNewPending.refl sc).requestsInRange⟩
  -- the request goes to the peer `selectPeer` chose
  split <;> rename_i hmark <;> exact hinv.markPending hmark

theorem SchedInv.handleStatusResponse {sc : Scheduler ID} (hinv : SchedInv sc) (peerID : ID) (base height : Int) :
    SchedInv (sc.handleStatusResponse peerID base height).1 ∧
      NoNewPending sc (sc.handleStatusResponse peerID base height).1 := by
  have hrange := hinv.setPeerRange peerID base height
  unfold Scheduler.handleStatusResponse
  split <;> rename_i hset <;> rw [hset] at hrange <;> exact hrange

theorem newScheduler_inv (initHeight startTime : Int) : SchedInv (newScheduler initHeight startTime : Scheduler ID) := by
  refine ⟨fun p peer h => ?_, fun h => ?_, fun h => ?_, fun h => ?_, fun h p hh => ?_, fun h p hh => ?_,
    fun h hh => ?_⟩ <;> simp [newScheduler] at *

section Handlers

variable [Inhabited ID]

theorem SchedInv.get_pendingBlocks {sc : Scheduler ID} (hinv : SchedInv sc) {h : Int}
    (hstate : sc.getStateAtHeight h = .pending) :
    sc.pendingBlocks.get h = some ((sc.pendingBlocks.get h).getD default) := by
  obtain ⟨-, hget⟩ := get_of_getStateAtHeight hstate (by simp) (by simp)
  obtain ⟨q, hq⟩ := Option.isSome_iff_exists.mp ((hinv.pending h).mp hget)
  simp [hq]

theorem SchedInv.markReceived {sc sc' : Scheduler ID} (hinv : SchedInv sc) {peerID : ID}
    {height size now : Int} {err : Option (ScError ID)}
    (h : sc.markReceived peerID height size now = some (sc', err)) :
    SchedInv sc' ∧ NoNewPending sc sc' := by
  unfold Scheduler.markReceived at h
  split_ifs at h with hcond
  · cases h
    exact ⟨hinv, .refl sc⟩
  split at h
  · cases h
    exact ⟨hinv, .refl sc⟩
  rename_i pendingTime htime
  split_ifs at h with hclock
  · cases h
    exact ⟨hinv, .refl sc⟩
  split at h
  · cases h
  rename_i peer hpeer
  cases h
  simp only [not_or, not_not] at hcond
  obtain ⟨hstate, hfrom⟩ := hcond
  have hp : sc.pendingBlocks.get height = some peerID := hfrom ▸ hinv.get_pendingBlocks hstate
  -- the peer's rate changes, not its state or its range
  have hinv₁ : SchedInv { sc with
      peers := sc.peers.set peerID { peer with lastRate := size.tdiv (now - pendingTime) } } :=
    hinv.setPeer (hinv.peerIDs peerID peer hpeer) fun peer' hpeer' _ => by
      rw [hpeer] at hpeer'
      cases hpeer'
      exact ⟨‹_›, le_rfl⟩
  refine ⟨hinv₁.receive hp, fun k q hk => ?_⟩
  simp only [GoMap.get_erase] at hk
  split_ifs at hk
  exact hk

theorem SchedInv.handleBlockResponse {sc sc' : Scheduler ID} (hinv : SchedInv sc) {peerID : ID}
    {height size time : Int} {out : ScOutput ID}
    (h : sc.handleBlockResponse peerID height size time = some (sc', out)) :
    SchedInv sc' ∧ NoNewPending sc sc' := by
  unfold Scheduler.handleBlockResponse at h
  split at h
  · cases h
    exact ⟨hinv, .refl sc⟩
  rename_i sc₁ htouch
  obtain ⟨hinv₁, hpend₁⟩ := hinv.touchPeer htouch
  have hnew₁ : NoNewPending sc sc₁ := fun k p hk => by rwa [hpend₁] at hk
  obtain ⟨⟨sc₂, err⟩, hmark, hres⟩ := Option.map_eq_some_iff.mp h
  obtain ⟨hinv₂, hnew₂⟩ := hinv₁.markReceived hmark
  cases err with
  | some err =>
    -- a response the scheduler did not ask for removes its peer
    cases hres
    obtain ⟨hinv₃, hnew₃⟩ := hinv₂.removePeer peerID
    exact ⟨hinv₃, hnew₁.trans (hnew₂.trans hnew₃)⟩
  | none =>
    cases hres
    exact ⟨hinv₂, hnew₁.trans hnew₂⟩

theorem SchedInv.handleTryPrunePeer {sc : Scheduler ID} (hinv : SchedInv sc) (time now : Int) :
    SchedInv (sc.handleTryPrunePeer time now).1 ∧ NoNewPending sc (sc.handleTryPrunePeer time now).1 := by
  -- the peer the block at `height` timed out at goes first, then the slow ones
  cases hq : sc.pendingTime.get sc.height with
  | none =>
    simp only [Scheduler.handleTryPrunePeer, hq]
    exact hinv.pruneOrKeep ..
  | some timeHeightAsked =>
    by_cases htimeout : sc.peerTimeout < now - timeHeightAsked
    · obtain ⟨hinv₁, hnew₁⟩ := hinv.removePeer ((sc.pendingBlocks.get sc.height).getD default)
      simp only [Scheduler.handleTryPrunePeer, hq, htimeout, ↓reduceIte]
      exact (hinv₁.pruneOrKeep ..).imp_right hnew₁.trans
    · simp only [Scheduler.handleTryPrunePeer, hq, htimeout, ↓reduceIte]
      exact hinv.pruneOrKeep ..

theorem SchedInv.handle {sc sc' : Scheduler ID} (hinv : SchedInv sc) {now : Int} {event : ScEvent ID}
    {out : ScOutput ID} (hreset : ∀ lastBlockHeight initialHeight, event ≠ .resetState lastBlockHeight initialHeight)
    (h : sc.handle now event = some (sc', out)) : SchedInv sc' ∧ RequestsInRange sc sc' := by
  have hpair : ∀ {r : Scheduler ID × ScOutput ID}, some r = some (sc', out) → r.1 = sc' := by
    rintro r ⟨⟩
    rfl
  cases event with
  | resetState lastBlockHeight initialHeight => exact absurd rfl (hreset lastBlockHeight initialHeight)
  | statusResponse peerID base height =>
    obtain ⟨hinv', hnew⟩ := hinv.handleStatusResponse peerID base height
    rw [hpair h] at hinv' hnew
    exact ⟨hinv', hnew.requestsInRange⟩
  | blockResponse peerID height size time =>
    obtain ⟨hinv', hnew⟩ := hinv.handleBlockResponse h
    exact ⟨hinv', hnew.requestsInRange⟩
  | noBlockResponse peerID height =>
    obtain ⟨hinv', hnew⟩ := hinv.handleNoBlockResponse peerID
    rw [hpair h] at hinv' hnew
    exact ⟨hinv', hnew.requestsInRange⟩
  | trySchedule time =>
    obtain ⟨hinv', hnew⟩ := hinv.handleTrySchedule time now
    rw [hpair h] at hinv' hnew
    exact ⟨hinv', hnew⟩
  | addNewPeer peerID =>
    obtain ⟨hinv', hnew⟩ := hinv.handleAddNewPeer peerID
    rw [hpair h] at hinv' hnew
    exact ⟨hinv', hnew.requestsInRange⟩
  | removePeer peerID =>
    obtain ⟨hinv', hnew⟩ := hinv.handleRemovePeer peerID
    rw [hpair h] at hinv' hnew
    exact ⟨hinv', hnew.requestsInRange⟩
  | tryPrunePeer time =>
    obtain ⟨hinv', hnew⟩ := hinv.handleTryPrunePeer time now
    rw [hpair h] at hinv' hnew
    exact ⟨hinv', hnew.requestsInRange⟩
  | blockProcessed height peerID =>
    obtain ⟨hinv', hnew⟩ := hinv.handleBlockProcessed h
    exact ⟨hinv', hnew.requestsInRange⟩
  | blockVerificationFailure height firstPeerID secondPeerID =>
    obtain ⟨hinv', hnew⟩ := hinv.handleBlockProcessError firstPeerID secondPeerID
    rw [hpair h] at hinv' hnew
    exact ⟨hinv', hnew.requestsInRange⟩

theorem SchedInv.run (events : List (Int × ScEvent ID)) :
    ∀ {sc sc' : Scheduler ID}, SchedInv sc → (∀ e ∈ events, ∀ a b, e.2 ≠ .resetState a b) →
      sc.run events = some sc' → SchedInv sc' := by
  induction events with
  | nil =>
    intro sc sc' hinv _ h
    cases h
    exact hinv
  | cons event events ih =>
    intro sc sc' hinv hreset h
    obtain ⟨⟨sc₁, out⟩, hstep, hrest⟩ := Option.bind_eq_some_iff.mp h
    have hinv₁ := (hinv.handle (hreset event (List.mem_cons_self ..)) hstep).1
    exact ih hinv₁ (fun e he => hreset e (List.mem_cons_of_mem _ he)) hrest

theorem markReceived_ok {sc sc' : Scheduler ID} {peerID : ID} {height size now : Int}
    (h : sc.markReceived peerID height size now = some (sc', none)) :
    sc.getStateAtHeight height = .pending ∧ (sc.pendingBlocks.get height).getD default = peerID ∧
      sc'.receivedBlocks = sc.receivedBlocks.set height peerID := by
  unfold Scheduler.markReceived at h
  split_ifs at h with hcond
  · cases h
  split at h
  · cases h
  split_ifs at h
  · cases h
  split at h
  · cases h
  cases h
  simp only [not_or, not_not] at hcond
  exact ⟨hcond.1, hcond.2, rfl⟩

theorem handle_eq_blockReceived {sc sc' : Scheduler ID} {now : Int} {event : ScEvent ID} {peerID : ID}
    {height : Int} (h : sc.handle now event = some (sc', .blockReceived peerID height)) :
    ∃ size time sc₁, event = .blockResponse peerID height size time ∧ sc.touchPeer peerID time = .ok sc₁ ∧
      sc₁.markReceived peerID height size time = some (sc', none) := by
  cases event with
  | blockResponse p k size time =>
    simp only [handle, handleBlockResponse] at h
    split at h
    · cases h
    · rename_i sc₁ htouch
      obtain ⟨⟨sc₂, err⟩, hmark, hres⟩ := Option.map_eq_some_iff.mp h
      cases err with
      | some err => cases hres
      | none =>
        cases hres
        exact ⟨size, time, sc₁, rfl, htouch, hmark⟩
  | resetState a b => simp [handle, handleResetState] at h
  | statusResponse p base k =>
    simp only [handle, handleStatusResponse] at h
    split at h <;> simp at h
  | noBlockResponse p k =>
    simp only [handle, handleNoBlockResponse] at h
    split at h
    · simp at h
    · split_ifs at h <;> simp at h
  | trySchedule time =>
    simp only [handle, handleTrySchedule] at h
    split_ifs at h
    · simp at h
    · simp at h
    · split at h
      · simp at h
      · split at h <;> simp at h
  | addNewPeer p => simp [handle, handleAddNewPeer] at h
  | removePeer p =>
    simp only [handle, handleRemovePeer] at h
    split_ifs at h <;> simp at h
  | tryPrunePeer time =>
    simp only [handle, handleTryPrunePeer] at h
    split_ifs at h <;> simp at h
  | blockProcessed k p =>
    simp only [handle, handleBlockProcessed] at h
    split_ifs at h <;> simp at h
  | blockVerificationFailure k p q =>
    simp only [handle, handleBlockProcessError] at h
    split_ifs at h <;> simp at h

theorem SchedInv.handle_blockReceived {sc sc' : Scheduler ID} (hinv : SchedInv sc) {now : Int}
    {event : ScEvent ID} {peerID : ID} {height : Int}
    (h : sc.handle now event = some (sc', .blockReceived peerID height)) :
    sc.pendingBlocks.get height = some peerID ∧ sc.receivedBlocks.get height = none ∧
      sc'.receivedBlocks.get height = some peerID := by
  obtain ⟨size, time, sc₁, -, htouch, hmark⟩ := handle_eq_blockReceived h
  obtain ⟨hinv₁, hpend₁⟩ := hinv.touchPeer htouch
  obtain ⟨hstate, hfrom, hrcv'⟩ := markReceived_ok hmark
  have hpend : sc₁.pendingBlocks.get height = some peerID := hfrom ▸ hinv₁.get_pendingBlocks hstate
  -- a pending height is not a received one
  have hrcv₁ : sc₁.receivedBlocks.get height = none := by
    obtain ⟨-, hget⟩ := get_of_getStateAtHeight hstate (by simp) (by simp)
    cases hq : sc₁.receivedBlocks.get height with
    | none => rfl
    | some q =>
      have := (hinv₁.received height).mpr (by simp [hq])
      rw [hget] at this
      cases this
  refine ⟨hpend₁ ▸ hpend, touchPeer_receivedBlocks htouch ▸ hrcv₁, ?_⟩
  rw [hrcv']
  exact GoMap.get_set_self ..

/-- Every run from `newScheduler` of events other than a reset keeps the
bookkeeping, and each next such event asks only a ready peer whose range
holds the height. -/
theorem schedulerRun_bookkeeping (initHeight startTime : Int) (events : List (Int × ScEvent ID))
    (sc : Scheduler ID) (hreset : ∀ e ∈ events, ∀ a b, e.2 ≠ .resetState a b)
    (hrun : (newScheduler initHeight startTime).run events = some sc) :
    SchedInv sc ∧ ∀ now event sc' out, (∀ a b, event ≠ .resetState a b) →
      sc.handle now event = some (sc', out) → RequestsInRange sc sc' := by
  have hinv := (newScheduler_inv initHeight startTime).run events hreset hrun
  exact ⟨hinv, fun now event sc' out hevent h => (hinv.handle hevent h).2⟩

end Handlers

/-- A peer joins, reports heights `1..3`, and the scheduler asks it for `1`. -/
def firstRequestRun : List (Int × ScEvent Nat) :=
  [(0, .addNewPeer 7), (0, .statusResponse 7 1 3), (0, .trySchedule 0)]

theorem schedulerRun_bookkeeping_firstRequest :
    ∃ sc : Scheduler Nat, (newScheduler 1 0).run firstRequestRun = some sc ∧
      sc.pendingBlocks.get 1 = some 7 ∧ SchedInv sc ∧
      ∀ now event sc' out, (∀ a b, event ≠ .resetState a b) →
        sc.handle now event = some (sc', out) → RequestsInRange sc sc' :=
  ⟨_, rfl, rfl, schedulerRun_bookkeeping 1 0 firstRequestRun _ (by simp [firstRequestRun]) rfl⟩

end Scheduler

end Ostracon.Blockchain
