import Mathlib.Data.Prod.Lex
import Ostracon.Consensus.State
/-!
# What each handler of `consensus.State` can do

One lemma per handler says everything it can do to the round state, in terms
of the handlers it calls: it returns its input; or it moves to a later round
or step keeping what the lock rules read (`Frame`); or it signs a vote at the
round the state is in; or it changes the lock on a polka (`SamePlace`); or it
moves to the next height.  From these, every handler and every run keeps the
node's (height, round, step) from going back, with vote sets that keep a
two-thirds majority once they have one (`ConsensusEnv.Lawful`).
-/

namespace Ostracon.Consensus

open Ostracon.Types Ostracon.Crypto.Merkle

variable {V S Blk Parts Part : Type}

namespace RoundStepType

theorem le_iff_toNat {a b : RoundStepType} : a ≤ b ↔ a.toNat ≤ b.toNat := Iff.rfl

end RoundStepType

/-- The step a vote of a type is signed in. -/
def signStep : SignedMsgType → RoundStepType
  | .precommit => .precommit
  | _ => .prevote

/-- Where a request was made: its height, its round and the step of its vote,
ordered lexicographically. -/
def SignRequest.hrs (q : SignRequest) : Int ×ₗ Int ×ₗ Nat :=
  toLex (q.height, toLex (q.round, (signStep q.type).toNat))

/-- The node's height, round and step, ordered lexicographically. -/
def ConsensusState.hrs (cs : ConsensusState V Blk Parts) : Int ×ₗ Int ×ₗ Nat :=
  toLex (cs.height, toLex (cs.round, cs.step.toNat))

theorem toLex_triple_le_iff {h h' r r' : Int} {s s' : Nat} :
    toLex (h, toLex (r, s)) ≤ toLex (h', toLex (r', s')) ↔
      h < h' ∨ h = h' ∧ (r < r' ∨ r = r' ∧ s ≤ s') := by
  simp only [Prod.Lex.toLex_le_toLex]

theorem SignRequest.hrs_le_iff {q : SignRequest} {cs : ConsensusState V Blk Parts} :
    q.hrs ≤ cs.hrs ↔ q.height < cs.height ∨ q.height = cs.height ∧
      (q.round < cs.round ∨ q.round = cs.round ∧ (signStep q.type).toNat ≤ cs.step.toNat) :=
  toLex_triple_le_iff

/-! ## Vote sets that keep their majorities -/

section Laws

variable (e : ConsensusEnv V S Blk Parts Part)

/-- The vote sets `v'` have every two-thirds majority `v` has. -/
def ConsensusEnv.VotesKept (v v' : V) : Prop :=
  ∀ t r B, e.twoThirdsMajority v t r = some B → e.twoThirdsMajority v' t r = some B

/-- What the node needs of its vote sets: adding a vote, to the height's sets
or to the last commit, and moving to a round keep every two-thirds majority,
as a `VoteSet` keeps its `maj23` once it is set. -/
structure ConsensusEnv.Lawful : Prop where
  addVote : ∀ v vote, e.VotesKept v (e.addVote v vote).2
  addLastCommit : ∀ v vote, e.VotesKept v (e.addLastCommit v vote).2
  setRound : ∀ v r, e.VotesKept v (e.setRound v r)

variable {e}

theorem ConsensusEnv.VotesKept.refl (v : V) : e.VotesKept v v := fun _ _ _ h => h

end Laws

namespace ConsensusState

variable {e : ConsensusEnv V S Blk Parts Part} {cs cs' : ConsensusState V Blk Parts}

theorem hrs_le_iff : cs.hrs ≤ cs'.hrs ↔ cs.height < cs'.height ∨ cs.height = cs'.height ∧
    (cs.round < cs'.round ∨ cs.round = cs'.round ∧ cs.step.toNat ≤ cs'.step.toNat) :=
  toLex_triple_le_iff

theorem hrs_le_of_round (hh : cs'.height = cs.height) (hr : cs.round ≤ cs'.round)
    (hs : cs.round = cs'.round → cs.step.toNat ≤ cs'.step.toNat) : cs.hrs ≤ cs'.hrs := by
  rw [hrs_le_iff]
  by_cases heq : cs.round = cs'.round
  · exact .inr ⟨hh.symm, .inr ⟨heq, hs heq⟩⟩
  · exact .inr ⟨hh.symm, .inl (lt_of_le_of_ne hr heq)⟩

theorem round_le_of_hrs_le (hle : cs.hrs ≤ cs'.hrs) (hh : cs'.height = cs.height) :
    cs.round ≤ cs'.round := by
  rw [hrs_le_iff] at hle
  omega

/-- Past the guard of an `enter` handler for step `s`: the height is the
node's, and the round is the node's or later, the step later if the round is
the same. -/
theorem not_guard {height round : Int} {s : RoundStepType}
    (h : ¬(cs.height ≠ height ∨ round < cs.round ∨ (cs.round = round ∧ s ≤ cs.step))) :
    cs.height = height ∧ cs.round ≤ round ∧ (cs.round = round → cs.step.toNat < s.toNat) := by
  simp only [ne_eq, not_or, not_not, not_lt, not_and, RoundStepType.le_iff_toNat] at h
  exact ⟨h.1, h.2.1, fun heq => Nat.lt_of_not_le (h.2.2 heq)⟩

/-! ## Moving on without touching the lock -/

/-- `cs'` is `cs` moved on without touching what the lock rules read: the
same height, requests and lock, a round and step at or after `cs`'s, and
vote sets that keep every two-thirds majority. -/
structure Frame (e : ConsensusEnv V S Blk Parts Part) (cs cs' : ConsensusState V Blk Parts) :
    Prop where
  height : cs'.height = cs.height
  hrs_le : cs.hrs ≤ cs'.hrs
  votes : e.VotesKept cs.votes cs'.votes
  lockedBlock : cs'.lockedBlock = cs.lockedBlock
  lockedRound : cs'.lockedRound = cs.lockedRound
  signLog : cs'.signLog = cs.signLog

theorem Frame.refl (cs : ConsensusState V Blk Parts) : Frame e cs cs :=
  ⟨rfl, le_rfl, .refl _, rfl, rfl, rfl⟩

theorem frame_enter {height round : Int} {s : RoundStepType}
    (h : ¬(cs.height ≠ height ∨ round < cs.round ∨ (cs.round = round ∧ s ≤ cs.step))) :
    Frame e cs { cs with round := round, step := s } := by
  obtain ⟨-, hr, hs⟩ := not_guard h
  exact ⟨rfl, hrs_le_of_round rfl hr fun heq => (hs heq).le, .refl _, rfl, rfl, rfl⟩

/-- `cs'` is `cs` with only its proposal, lock and valid-block fields changed. -/
structure SamePlace (cs cs' : ConsensusState V Blk Parts) : Prop where
  height : cs'.height = cs.height
  round : cs'.round = cs.round
  step : cs'.step = cs.step
  votes : cs'.votes = cs.votes
  signLog : cs'.signLog = cs.signLog

theorem SamePlace.hrs_eq (h : SamePlace cs cs') : cs'.hrs = cs.hrs := by
  rw [ConsensusState.hrs, ConsensusState.hrs, h.height, h.round, h.step]

theorem SamePlace.frame (h : SamePlace cs cs') (hb : cs'.lockedBlock = cs.lockedBlock)
    (hr : cs'.lockedRound = cs.lockedRound) : Frame e cs cs' :=
  ⟨h.height, h.hrs_eq.ge, by rw [h.votes]; exact .refl _, hb, hr, h.signLog⟩

theorem frame_votes {votes : V} (hv : e.VotesKept cs.votes votes) :
    Frame e cs { cs with votes := votes } :=
  ⟨rfl, le_rfl, hv, rfl, rfl, rfl⟩

/-! ## Signing -/

variable (e) in
theorem signAddVote_eq (cs : ConsensusState V Blk Parts) (t : SignedMsgType) (hash : Bytes)
    (header : PartSetHeader) :
    signAddVote e cs t hash header =
      { cs with signLog := cs.signLog ++
          if e.isVoter cs.height then [(⟨t, cs.height, cs.round, ⟨hash, header⟩⟩, cs.votes)] else [] } := by
  unfold signAddVote
  split <;> simp_all

theorem signAddVote_samePlace_left {t : SignedMsgType} {hash : Bytes} {header : PartSetHeader} :
    (signAddVote e cs t hash header).height = cs.height ∧
      (signAddVote e cs t hash header).round = cs.round ∧
      (signAddVote e cs t hash header).step = cs.step := by
  rw [signAddVote_eq]
  exact ⟨rfl, rfl, rfl⟩

variable (e) in
theorem doPrevote_eq (cs : ConsensusState V Blk Parts) (round : Int) :
    ∃ hash header, doPrevote e cs round = signAddVote e cs .prevote hash header ∧
      (cs.lockedBlock.isSome → hash = hashOf e cs.lockedBlock) := by
  unfold doPrevote
  split_ifs with hlock
  · exact ⟨_, _, rfl, fun _ => rfl⟩
  · -- not locked: what the prevote is for does not matter to the lock
    have hvac : ∀ hash, cs.lockedBlock.isSome → hash = hashOf e cs.lockedBlock :=
      fun _ h => absurd h hlock
    split
    · exact ⟨_, _, rfl, hvac _⟩
    · split_ifs
      · exact ⟨_, _, rfl, hvac _⟩
      · exact ⟨_, _, rfl, hvac _⟩

/-! ## The `enter` handlers -/

variable (e) in
theorem enterPrevote_cases (cs : ConsensusState V Blk Parts) (height round : Int) :
    enterPrevote e cs height round = cs ∨
      (cs.height = height ∧ cs.round ≤ round ∧
        (cs.round = round → cs.step.toNat < RoundStepType.prevote.toNat) ∧
        ∃ hash header, (cs.lockedBlock.isSome → hash = hashOf e cs.lockedBlock) ∧
          enterPrevote e cs height round =
            { signAddVote e cs .prevote hash header with round := round, step := .prevote }) := by
  unfold enterPrevote
  by_cases hg : cs.height ≠ height ∨ round < cs.round ∨ (cs.round = round ∧ .prevote ≤ cs.step)
  · exact .inl (if_pos hg)
  · rw [if_neg hg]
    obtain ⟨hh, hr, hs⟩ := not_guard hg
    obtain ⟨hash, header, heq, hlock⟩ := doPrevote_eq e cs round
    exact .inr ⟨hh, hr, hs, hash, header, hlock, by rw [heq]⟩

variable (e) in
theorem enterPropose_cases (cs : ConsensusState V Blk Parts) (height round : Int) :
    enterPropose e cs height round = cs ∨
      ∃ cs₁, (enterPropose e cs height round = cs₁ ∨
          enterPropose e cs height round = enterPrevote e cs₁ height round) ∧
        Frame e cs cs₁ ∧ cs₁.height = height ∧ cs₁.round = round := by
  unfold enterPropose
  by_cases hg : cs.height ≠ height ∨ round < cs.round ∨ (cs.round = round ∧ .propose ≤ cs.step)
  · exact .inl (if_pos hg)
  · rw [if_neg hg]
    have hh := (not_guard hg).1
    dsimp only
    split_ifs
    · exact .inr ⟨_, .inr rfl, frame_enter hg, hh, rfl⟩
    · exact .inr ⟨_, .inl rfl, frame_enter hg, hh, rfl⟩

theorem enterNewRound_cases (hlaw : e.Lawful) (cs : ConsensusState V Blk Parts)
    (height round : Int) :
    (enterNewRound e cs height round = cs ∧ (cs.height = height → round ≤ cs.round)) ∨
      ∃ cs₁, (enterNewRound e cs height round = cs₁ ∨
          enterNewRound e cs height round = enterPropose e cs₁ height round) ∧
        Frame e cs cs₁ ∧ cs₁.height = height ∧ cs₁.round = round := by
  unfold enterNewRound
  by_cases hg : cs.height ≠ height ∨ round < cs.round ∨ (cs.round = round ∧ cs.step ≠ .newHeight)
  · refine .inl ⟨if_pos hg, fun hh => ?_⟩
    rcases hg with hg | hg | hg
    · exact absurd hh hg
    · exact hg.le
    · exact hg.1.ge
  · rw [if_neg hg]
    simp only [ne_eq, not_or, not_not, not_lt, not_and] at hg
    obtain ⟨hh, hr, hs⟩ := hg
    -- the state of the new round, whether or not the proposal is cleared
    have hframe : ∀ cs₁ : ConsensusState V Blk Parts, cs₁.height = cs.height →
        cs₁.round = round → cs₁.step = .newRound → cs₁.votes = e.setRound cs.votes (round + 1) →
        cs₁.lockedBlock = cs.lockedBlock → cs₁.lockedRound = cs.lockedRound →
        cs₁.signLog = cs.signLog → Frame e cs cs₁ := by
      intro cs₁ h₁ h₂ h₃ h₄ h₅ h₆ h₇
      refine ⟨h₁, hrs_le_of_round h₁ (by rw [h₂]; exact hr) fun heq => ?_, ?_, h₅, h₆, h₇⟩
      · rw [hs (heq.trans h₂), h₃]
        decide
      · rw [h₄]
        exact hlaw.setRound _ _
    dsimp only
    split_ifs <;>
      first
        | exact .inr ⟨_, .inl rfl, hframe _ rfl rfl rfl rfl rfl rfl rfl, hh, rfl⟩
        | exact .inr ⟨_, .inr rfl, hframe _ rfl rfl rfl rfl rfl rfl rfl, hh, rfl⟩

theorem enterPrevoteWait_frame {height round : Int}
    (h : enterPrevoteWait e cs height round = some cs') : Frame e cs cs' := by
  unfold enterPrevoteWait at h
  split_ifs at h with hg
  · cases h
    exact .refl _
  · cases h
    exact frame_enter hg

theorem precommitOnPolka_cases {round : Int} (h : precommitOnPolka e cs round = some cs') :
    -- no polka: precommit nil
    (e.twoThirdsMajority cs.votes .prevote round = none ∧
        cs' = signAddVote e cs .precommit [] ⟨0, []⟩) ∨
      -- a polka for nil, or for a block the node is not locked on and does not
      -- have: unlock, and precommit nil
      (∃ B cs₁, cs' = signAddVote e cs₁ .precommit [] ⟨0, []⟩ ∧
        e.twoThirdsMajority cs.votes .prevote round = some B ∧
        (B.hash = [] ∨ hashesTo e cs.lockedBlock B.hash = false) ∧ SamePlace cs cs₁ ∧
        cs₁.lockedBlock = none) ∨
      -- a polka for the locked block or for the proposal block: lock it, and
      -- precommit it
      (∃ B cs₁, cs' = signAddVote e cs₁ .precommit B.hash B.partSetHeader ∧
        e.twoThirdsMajority cs.votes .prevote round = some B ∧ B.hash ≠ [] ∧
        SamePlace cs cs₁ ∧ hashesTo e cs₁.lockedBlock B.hash = true ∧ cs₁.lockedRound = round) := by
  unfold precommitOnPolka at h
  split at h
  · next hnone => exact .inl ⟨hnone, (Option.some.inj h).symm⟩
  · next B hB =>
    dsimp only at h
    split_ifs at h <;> cases h
    · -- a polka for nil, not locked
      rename_i hnil hnone
      exact .inr (.inl ⟨B, _, rfl, hB, .inl (List.isEmpty_iff.mp hnil), ⟨rfl, rfl, rfl, rfl, rfl⟩,
        Option.isNone_iff_eq_none.mp hnone⟩)
    · -- a polka for nil: unlock
      rename_i hnil _
      exact .inr (.inl ⟨B, _, rfl, hB, .inl (List.isEmpty_iff.mp hnil), ⟨rfl, rfl, rfl, rfl, rfl⟩,
        rfl⟩)
    · -- relock
      rename_i hnil hrelock
      exact .inr (.inr ⟨B, _, rfl, hB, fun h => hnil (List.isEmpty_iff.mpr h),
        ⟨rfl, rfl, rfl, rfl, rfl⟩, hrelock, rfl⟩)
    · -- lock the proposal block
      rename_i hnil _ hprop _
      exact .inr (.inr ⟨B, _, rfl, hB, fun h => hnil (List.isEmpty_iff.mpr h),
        ⟨rfl, rfl, rfl, rfl, rfl⟩, hprop, rfl⟩)
    · -- a polka for a block the node does not have: unlock
      rename_i hrelock _ _
      exact .inr (.inl ⟨B, _, rfl, hB, .inr (by simpa using hrelock), ⟨rfl, rfl, rfl, rfl, rfl⟩,
        rfl⟩)
    · rename_i hrelock _ _
      exact .inr (.inl ⟨B, _, rfl, hB, .inr (by simpa using hrelock), ⟨rfl, rfl, rfl, rfl, rfl⟩,
        rfl⟩)

theorem precommitOnPolka_height {round : Int} (h : precommitOnPolka e cs round = some cs') :
    cs'.height = cs.height := by
  rcases precommitOnPolka_cases h with ⟨-, rfl⟩ | ⟨B, cs₁, rfl, -, -, hs, -⟩ |
      ⟨B, cs₁, rfl, -, -, hs, -⟩
  · exact signAddVote_samePlace_left.1
  · exact signAddVote_samePlace_left.1.trans hs.height
  · exact signAddVote_samePlace_left.1.trans hs.height

theorem enterPrecommit_cases {height round : Int}
    (h : enterPrecommit e cs height round = some cs') :
    cs' = cs ∨ ∃ cs₁, precommitOnPolka e cs round = some cs₁ ∧
      cs' = { cs₁ with round := round, step := .precommit } ∧ cs.height = height ∧
      cs.round ≤ round ∧ (cs.round = round → cs.step.toNat < RoundStepType.precommit.toNat) := by
  unfold enterPrecommit at h
  split_ifs at h with hg
  · exact .inl (Option.some.inj h).symm
  · obtain ⟨cs₁, hpol, rfl⟩ := Option.map_eq_some_iff.mp h
    exact .inr ⟨cs₁, hpol, rfl, not_guard hg⟩

theorem enterPrecommitWait_frame {height round : Int}
    (h : enterPrecommitWait e cs height round = some cs') : Frame e cs cs' := by
  unfold enterPrecommitWait at h
  split_ifs at h <;> cases h
  · exact .refl _
  · exact ⟨rfl, le_rfl, .refl _, rfl, rfl, rfl⟩

/-! ## Committing -/

theorem finalizeCommit_cases {height : Int} (h : finalizeCommit e cs height = some cs') :
    cs' = cs ∨ cs' = updateToState e cs := by
  unfold finalizeCommit at h
  split at h
  · exact .inl (Option.some.inj h).symm
  · split at h
    · cases h
    · split_ifs at h
      exact .inr (Option.some.inj h).symm

theorem tryFinalizeCommit_cases {height : Int} (h : tryFinalizeCommit e cs height = some cs') :
    cs' = cs ∨ cs' = updateToState e cs := by
  unfold tryFinalizeCommit at h
  split at h
  · cases h
  · split at h
    · exact .inl (Option.some.inj h).symm
    · split_ifs at h
      · exact .inl (Option.some.inj h).symm
      · exact .inl (Option.some.inj h).symm
      · exact finalizeCommit_cases h

theorem enterCommit_cases {height commitRound : Int}
    (h : enterCommit e cs height commitRound = some cs') :
    cs' = cs ∨ ∃ cs₁, (cs' = cs₁ ∨ cs' = updateToState e cs₁) ∧ Frame e cs cs₁ := by
  unfold enterCommit at h
  split_ifs at h with hg
  · exact .inl (Option.some.inj h).symm
  · simp only [ne_eq, not_or, not_not, RoundStepType.le_iff_toNat, not_le] at hg
    split at h
    · cases h
    · dsimp only at h
      -- the commit step, whichever way the block was found
      have hframe : ∀ cs₁ : ConsensusState V Blk Parts, cs₁.height = cs.height →
          cs₁.round = cs.round → cs₁.step = .commit → cs₁.votes = cs.votes →
          cs₁.lockedBlock = cs.lockedBlock → cs₁.lockedRound = cs.lockedRound →
          cs₁.signLog = cs.signLog → Frame e cs cs₁ := by
        intro cs₁ h₁ h₂ h₃ h₄ h₅ h₆ h₇
        refine ⟨h₁, hrs_le_of_round h₁ h₂.ge fun _ => ?_, h₄ ▸ .refl _, h₅, h₆, h₇⟩
        rw [h₃]
        exact hg.2.le
      split_ifs at h <;>
        exact .inr ⟨_, tryFinalizeCommit_cases h, hframe _ rfl rfl rfl rfl rfl rfl rfl⟩

theorem hrs_le_updateToState (cs : ConsensusState V Blk Parts) :
    cs.hrs ≤ (updateToState e cs).hrs :=
  hrs_le_iff.mpr (.inl (show cs.height < cs.height + 1 by omega))

/-! ## Timeouts, votes and proposals -/

theorem handleTimeout_cases {ti : TimeoutInfo} (h : handleTimeout e cs ti = some cs') :
    cs' = cs ∨ ti.height = cs.height ∧ cs.round ≤ ti.round ∧
      (cs' = enterNewRound e cs ti.height 0 ∨ cs' = enterPropose e cs ti.height 0 ∨
        cs' = enterPrevote e cs ti.height ti.round ∨
        enterPrecommit e cs ti.height ti.round = some cs' ∨
        ∃ cs₁, enterPrecommit e cs ti.height ti.round = some cs₁ ∧
          cs' = enterNewRound e cs₁ ti.height (ti.round + 1)) := by
  unfold handleTimeout at h
  split_ifs at h with hg
  · exact .inl (Option.some.inj h).symm
  · simp only [ne_eq, not_or, not_not, not_lt] at hg
    refine .inr ⟨hg.1, hg.2.1, ?_⟩
    split at h
    · exact .inl (Option.some.inj h).symm
    · exact .inr (.inl (Option.some.inj h).symm)
    · exact .inr (.inr (.inl (Option.some.inj h).symm))
    · exact .inr (.inr (.inr (.inl h)))
    · -- the precommit wait: precommit, then the next round
      obtain ⟨cs₁, h₁, h₂⟩ := Option.bind_eq_some_iff.mp h
      exact .inr (.inr (.inr (.inr ⟨cs₁, h₁, (Option.some.inj h₂).symm⟩)))
    · cases h

theorem updateOnPolka_cases (cs : ConsensusState V Blk Parts) (voteRound : Int)
    (blockID : BlockID) :
    SamePlace cs (updateOnPolka e cs voteRound blockID) ∧
      (((updateOnPolka e cs voteRound blockID).lockedBlock = cs.lockedBlock ∧
          (updateOnPolka e cs voteRound blockID).lockedRound = cs.lockedRound) ∨
        (cs.lockedRound < voteRound ∧ voteRound ≤ cs.round ∧
          hashesTo e cs.lockedBlock blockID.hash = false ∧
          (updateOnPolka e cs voteRound blockID).lockedBlock = none)) := by
  unfold updateOnPolka
  dsimp only
  by_cases hu : cs.lockedBlock.isSome = true ∧ cs.lockedRound < voteRound ∧ voteRound ≤ cs.round ∧
      (!hashesTo e cs.lockedBlock blockID.hash) = true
  · rw [if_pos hu]
    have hun : hashesTo e cs.lockedBlock blockID.hash = false := by simpa using hu.2.2.2
    split_ifs <;> exact ⟨⟨rfl, rfl, rfl, rfl, rfl⟩, .inr ⟨hu.2.1, hu.2.2.1, hun, rfl⟩⟩
  · rw [if_neg hu]
    split_ifs <;> exact ⟨⟨rfl, rfl, rfl, rfl, rfl⟩, .inl ⟨rfl, rfl⟩⟩

/-- The prevote case of `addVote`: after the polka update, skip to the vote's
round, precommit or wait in the node's round, or prevote on a complete
proposal whose POL round is the vote's. -/
theorem addPrevote_cases {height voteRound : Int} (h : addPrevote e cs height voteRound = some cs') :
    ∃ cs₁, (cs₁ = cs ∨ ∃ B, e.twoThirdsMajority cs.votes .prevote voteRound = some B ∧
        cs₁ = updateOnPolka e cs voteRound B) ∧
      (cs' = cs₁ ∨ cs' = enterNewRound e cs₁ height voteRound ∨
        (cs₁.round = voteRound ∧ enterPrecommit e cs₁ height voteRound = some cs') ∨
        enterPrevoteWait e cs₁ height voteRound = some cs' ∨
        cs' = enterPrevote e cs₁ height cs₁.round) := by
  unfold addPrevote at h
  lift_lets at h
  extract_lets cs₁ at h
  refine ⟨cs₁, ?_, ?_⟩
  · simp only [cs₁]
    split
    · exact .inl rfl
    · exact .inr ⟨_, ‹_›, rfl⟩
  · clear_value cs₁
    split_ifs at h with hnew hcur
    · exact .inr (.inl (Option.some.inj h).symm)
    · -- the vote's round is the node's, at prevote or later, with +2/3 of any prevotes
      split at h
      · split_ifs at h
        · exact .inr (.inr (.inl ⟨hcur.1, h⟩))
        · exact .inr (.inr (.inr (.inl h)))
      · exact .inr (.inr (.inr (.inl h)))
    · split at h
      · split_ifs at h
        · exact .inr (.inr (.inl ⟨hcur.1, h⟩))
        · exact .inl (Option.some.inj h).symm
      · exact .inl (Option.some.inj h).symm
    · exact .inr (.inr (.inr (.inr (Option.some.inj h).symm)))
    · exact .inl (Option.some.inj h).symm
    · exact .inl (Option.some.inj h).symm

/-- The precommit case of `addVote`: on +2/3 precommits for a block, move to
the vote's round, precommit, commit, and start the next height at once if
commit timeouts are skipped; on +2/3 for nil or of any precommits, wait. -/
theorem addPrecommit_cases {height voteRound : Int}
    (h : addPrecommit e cs height voteRound = some cs') :
    cs' = cs ∨ enterPrecommitWait e (enterNewRound e cs height voteRound) height voteRound = some cs' ∨
      ∃ cs₁, enterPrecommit e (enterNewRound e cs height voteRound) height voteRound = some cs₁ ∧
        (enterPrecommitWait e cs₁ height voteRound = some cs' ∨
          ∃ cs₂, enterCommit e cs₁ height voteRound = some cs₂ ∧
            (cs' = cs₂ ∨ cs' = enterNewRound e cs₂ cs₂.height 0)) := by
  unfold addPrecommit at h
  dsimp only at h
  split at h
  · obtain ⟨cs₁, h₁, h⟩ := Option.bind_eq_some_iff.mp h
    refine .inr (.inr ⟨cs₁, h₁, ?_⟩)
    split_ifs at h
    · obtain ⟨cs₂, h₂, h⟩ := Option.bind_eq_some_iff.mp h
      exact .inr ⟨cs₂, h₂, .inr (Option.some.inj h).symm⟩
    · obtain ⟨cs₂, h₂, h⟩ := Option.bind_eq_some_iff.mp h
      exact .inr ⟨cs₂, h₂, .inl (Option.some.inj h).symm⟩
    · exact .inl h
  · split_ifs at h
    · exact .inr (.inl h)
    · exact .inl (Option.some.inj h).symm

/-- `addVote`: a precommit of the previous height goes to the last commit, a
vote of the height to its vote sets and then to the prevote or precommit
case. -/
theorem addVote_cases {vote : Vote S} (h : addVote e cs vote = some cs') :
    cs' = cs ∨
      (cs' = { cs with votes := (e.addLastCommit cs.votes vote).2 } ∨
        cs' = enterNewRound e { cs with votes := (e.addLastCommit cs.votes vote).2 } cs.height 0) ∨
      addPrevote e { cs with votes := (e.addVote cs.votes vote).2 } cs.height vote.round = some cs' ∨
      addPrecommit e { cs with votes := (e.addVote cs.votes vote).2 } cs.height vote.round =
        some cs' := by
  unfold addVote at h
  split_ifs at h
  · exact .inl (Option.some.inj h).symm
  · -- a precommit of the previous height, at the start of the new one
    split at h
    · exact .inl (Option.some.inj h).symm
    · next votes heq =>
      have hv : votes = (e.addLastCommit cs.votes vote).2 := by rw [heq]
      subst hv
      dsimp only at h
      split_ifs at h
      · exact .inr (.inl (.inr (Option.some.inj h).symm))
      · exact .inr (.inl (.inl (Option.some.inj h).symm))
  · exact .inl (Option.some.inj h).symm
  · split at h
    · exact .inl (Option.some.inj h).symm
    · next votes heq =>
      have hv : votes = (e.addVote cs.votes vote).2 := by rw [heq]
      subst hv
      dsimp only at h
      split at h
      · exact .inr (.inr (.inl h))
      · exact .inr (.inr (.inr h))
      · cases h

theorem setProposal_frame (cs : ConsensusState V Blk Parts) (proposal : Proposal) :
    Frame e cs (setProposal e cs proposal) := by
  unfold setProposal
  split_ifs <;> first | exact .refl _ | exact ⟨rfl, le_rfl, .refl _, rfl, rfl, rfl⟩

theorem addProposalBlockPart_frame (cs : ConsensusState V Blk Parts) (height : Int) (part : Part) :
    Frame e cs (addProposalBlockPart e cs height part).2 := by
  unfold addProposalBlockPart
  split_ifs
  · exact .refl _
  · split
    · exact .refl _
    · dsimp only
      split_ifs
      all_goals first
        | exact ⟨rfl, le_rfl, .refl _, rfl, rfl, rfl⟩
        | split <;> exact ⟨rfl, le_rfl, .refl _, rfl, rfl, rfl⟩

/-- `handleCompleteProposal`: update the valid block on a polka of the round,
then, if the node has not prevoted yet, prevote, and precommit on the polka;
if it is committing, finalize. -/
theorem handleCompleteProposal_cases {blockHeight : Int}
    (h : handleCompleteProposal e cs blockHeight = some cs') :
    ∃ cs₁, Frame e cs cs₁ ∧ cs₁.round = cs.round ∧
      (cs' = cs₁ ∨ cs' = enterPrevote e cs₁ blockHeight cs₁.round ∨
        enterPrecommit e (enterPrevote e cs₁ blockHeight cs₁.round) blockHeight
          (enterPrevote e cs₁ blockHeight cs₁.round).round = some cs' ∨
        tryFinalizeCommit e cs₁ blockHeight = some cs') := by
  unfold handleCompleteProposal at h
  lift_lets at h
  extract_lets polka cs₁ cs₂ at h
  simp only [cs₂] at h
  clear cs₂
  have hframe : Frame e cs cs₁ ∧ cs₁.round = cs.round := by
    simp only [cs₁, polka]
    split
    · split_ifs
      · exact ⟨⟨rfl, le_rfl, .refl _, rfl, rfl, rfl⟩, rfl⟩
      · exact ⟨.refl _, rfl⟩
    · exact ⟨.refl _, rfl⟩
  refine ⟨cs₁, hframe.1, hframe.2, ?_⟩
  clear_value cs₁ polka
  split_ifs at h
  · exact .inr (.inr (.inl h))
  · exact .inr (.inl (Option.some.inj h).symm)
  · exact .inr (.inr (.inr h))
  · exact .inl (Option.some.inj h).symm

theorem receive_blockPart_cases {height round : Int} {part : Part}
    (h : cs.receive e (.blockPart height round part) = some cs') :
    cs' = (addProposalBlockPart e cs height part).2 ∨
      handleCompleteProposal e (addProposalBlockPart e cs height part).2 height = some cs' := by
  simp only [receive] at h
  rcases hp : addProposalBlockPart e cs height part with ⟨added, cs₁⟩
  rw [hp] at h
  dsimp only at h
  split_ifs at h
  · exact .inr h
  · exact .inl (Option.some.inj h).symm

/-! ## The node never goes back -/

theorem height_enterPrevote (cs : ConsensusState V Blk Parts) (height round : Int) :
    (enterPrevote e cs height round).height = cs.height := by
  rcases enterPrevote_cases e cs height round with h | ⟨-, -, -, hash, header, -, h⟩ <;> rw [h]
  exact signAddVote_samePlace_left.1

theorem hrs_le_enterPrevote (cs : ConsensusState V Blk Parts) (height round : Int) :
    cs.hrs ≤ (enterPrevote e cs height round).hrs := by
  rcases enterPrevote_cases e cs height round with h | ⟨-, hr, hs, hash, header, -, h⟩
  · exact (congrArg hrs h.symm).le
  · rw [h]
    exact hrs_le_of_round signAddVote_samePlace_left.1 hr fun heq => (hs heq).le

theorem height_enterPropose (cs : ConsensusState V Blk Parts) (height round : Int) :
    (enterPropose e cs height round).height = cs.height := by
  rcases enterPropose_cases e cs height round with h | ⟨cs₁, h | h, hf, -, -⟩ <;> rw [h]
  · exact hf.height
  · exact (height_enterPrevote cs₁ height round).trans hf.height

theorem hrs_le_enterPropose (cs : ConsensusState V Blk Parts) (height round : Int) :
    cs.hrs ≤ (enterPropose e cs height round).hrs := by
  rcases enterPropose_cases e cs height round with h | ⟨cs₁, h | h, hf, -, -⟩
  · exact (congrArg hrs h.symm).le
  · rw [h]
    exact hf.hrs_le
  · rw [h]
    exact hf.hrs_le.trans (hrs_le_enterPrevote cs₁ height round)

theorem hrs_le_enterPrecommit {height round : Int}
    (h : enterPrecommit e cs height round = some cs') : cs.hrs ≤ cs'.hrs := by
  rcases enterPrecommit_cases h with rfl | ⟨cs₁, hpol, rfl, -, hr, hs⟩
  · exact le_rfl
  · have hh := precommitOnPolka_height hpol
    exact hrs_le_of_round hh hr fun heq => (hs heq).le

theorem hrs_le_tryFinalizeCommit {height : Int} (h : tryFinalizeCommit e cs height = some cs') :
    cs.hrs ≤ cs'.hrs := by
  rcases tryFinalizeCommit_cases h with rfl | rfl
  · exact le_rfl
  · exact hrs_le_updateToState cs

theorem hrs_le_enterCommit {height commitRound : Int}
    (h : enterCommit e cs height commitRound = some cs') : cs.hrs ≤ cs'.hrs := by
  rcases enterCommit_cases h with rfl | ⟨cs₁, rfl | rfl, hf⟩
  · exact le_rfl
  · exact hf.hrs_le
  · exact hf.hrs_le.trans (hrs_le_updateToState cs₁)

theorem hrs_le_handleCompleteProposal {blockHeight : Int}
    (h : handleCompleteProposal e cs blockHeight = some cs') : cs.hrs ≤ cs'.hrs := by
  obtain ⟨cs₁, hf, -, rfl | rfl | h | h⟩ := handleCompleteProposal_cases h
  · exact hf.hrs_le
  · exact hf.hrs_le.trans (hrs_le_enterPrevote cs₁ _ _)
  · exact (hf.hrs_le.trans (hrs_le_enterPrevote cs₁ _ _)).trans (hrs_le_enterPrecommit h)
  · exact hf.hrs_le.trans (hrs_le_tryFinalizeCommit h)

section Lawful

variable (hlaw : e.Lawful)
include hlaw

theorem hrs_le_enterNewRound (cs : ConsensusState V Blk Parts) (height round : Int) :
    cs.hrs ≤ (enterNewRound e cs height round).hrs := by
  rcases enterNewRound_cases hlaw cs height round with ⟨h, -⟩ | ⟨cs₁, h | h, hf, -, -⟩
  · exact (congrArg hrs h.symm).le
  · rw [h]
    exact hf.hrs_le
  · rw [h]
    exact hf.hrs_le.trans (hrs_le_enterPropose cs₁ height round)

theorem le_round_enterNewRound {height round : Int} (hh : cs.height = height) :
    round ≤ (enterNewRound e cs height round).round := by
  rcases enterNewRound_cases hlaw cs height round with ⟨h, hr⟩ | ⟨cs₁, h | h, -, -, hr₁⟩
  · rw [h]
    exact hr hh
  · rw [h]
    exact hr₁.ge
  · rw [h]
    have hle := round_le_of_hrs_le (hrs_le_enterPropose (e := e) cs₁ height round)
      (height_enterPropose cs₁ height round)
    omega

theorem hrs_le_handleTimeout {ti : TimeoutInfo} (h : handleTimeout e cs ti = some cs') :
    cs.hrs ≤ cs'.hrs := by
  rcases handleTimeout_cases h with rfl | ⟨-, -, rfl | rfl | rfl | h | ⟨cs₁, h₁, rfl⟩⟩
  · exact le_rfl
  · exact hrs_le_enterNewRound hlaw cs _ _
  · exact hrs_le_enterPropose cs _ _
  · exact hrs_le_enterPrevote cs _ _
  · exact hrs_le_enterPrecommit h
  · exact (hrs_le_enterPrecommit h₁).trans (hrs_le_enterNewRound hlaw cs₁ _ _)

theorem hrs_le_addPrevote {height voteRound : Int}
    (h : addPrevote e cs height voteRound = some cs') : cs.hrs ≤ cs'.hrs := by
  obtain ⟨cs₁, hcs₁, h⟩ := addPrevote_cases h
  -- the polka update moves nothing
  have h₁ : cs.hrs ≤ cs₁.hrs := by
    rcases hcs₁ with rfl | ⟨B, -, rfl⟩
    · exact le_rfl
    · exact (updateOnPolka_cases cs voteRound B).1.hrs_eq.ge
  refine h₁.trans ?_
  rcases h with rfl | rfl | ⟨-, h⟩ | h | rfl
  · exact le_rfl
  · exact hrs_le_enterNewRound hlaw cs₁ _ _
  · exact hrs_le_enterPrecommit h
  · exact (enterPrevoteWait_frame h).hrs_le
  · exact hrs_le_enterPrevote cs₁ _ _

theorem hrs_le_addPrecommit {height voteRound : Int}
    (h : addPrecommit e cs height voteRound = some cs') : cs.hrs ≤ cs'.hrs := by
  have h₀ := hrs_le_enterNewRound hlaw cs height voteRound
  rcases addPrecommit_cases h with rfl | h | ⟨cs₁, h₁, h | ⟨cs₂, h₂, rfl | rfl⟩⟩
  · exact le_rfl
  · exact h₀.trans (enterPrecommitWait_frame h).hrs_le
  all_goals have h₁' := h₀.trans (hrs_le_enterPrecommit h₁)
  · exact h₁'.trans (enterPrecommitWait_frame h).hrs_le
  · exact h₁'.trans (hrs_le_enterCommit h₂)
  · exact (h₁'.trans (hrs_le_enterCommit h₂)).trans (hrs_le_enterNewRound hlaw cs₂ _ _)

theorem hrs_le_addVote {vote : Vote S} (h : addVote e cs vote = some cs') : cs.hrs ≤ cs'.hrs := by
  -- the vote sets change, not the height, round or step
  rcases addVote_cases h with rfl | (rfl | rfl) | h | h
  · exact le_rfl
  · exact le_rfl
  · exact hrs_le_enterNewRound hlaw { cs with votes := (e.addLastCommit cs.votes vote).2 } _ _
  · have hle := hrs_le_addPrevote hlaw h
    exact hle
  · have hle := hrs_le_addPrecommit hlaw h
    exact hle

theorem hrs_le_receive {ev : ConsensusEvent S Part} (h : cs.receive e ev = some cs') :
    cs.hrs ≤ cs'.hrs := by
  cases ev with
  | proposal proposal =>
      obtain rfl := Option.some.inj h
      exact (setProposal_frame cs proposal).hrs_le
  | blockPart height round part =>
      have hf := addProposalBlockPart_frame (e := e) cs height part
      rcases receive_blockPart_cases h with rfl | h
      · exact hf.hrs_le
      · exact hf.hrs_le.trans (hrs_le_handleCompleteProposal h)
  | vote vote => exact hrs_le_addVote hlaw h
  | timeout ti => exact hrs_le_handleTimeout hlaw h

theorem hrs_le_run {evs : List (ConsensusEvent S Part)} (h : cs.run e evs = some cs') :
    cs.hrs ≤ cs'.hrs := by
  induction evs generalizing cs with
  | nil =>
      obtain rfl := Option.some.inj h
      exact le_rfl
  | cons ev evs ih =>
      obtain ⟨cs₁, h₁, h⟩ := Option.bind_eq_some_iff.mp h
      exact (hrs_le_receive hlaw h₁).trans (ih h)

end Lawful

end ConsensusState

end Ostracon.Consensus
