import Ostracon.Consensus.Steps
/-!
# One node signs once per round and keeps its lock

The requests a node makes of its `PrivValidator` over a run of the handlers
of `consensus.State`, when every timeout it handles for its height is for a
round it has reached, which is what the timeout ticker delivers:

* at most one prevote and one precommit for each height and round;
* a precommit for a block is for the polka of its round, in the vote sets the
  node held when it asked;
* after a precommit for a block, every prevote of a later round of the
  height is for that block, unless a polka of a round after the precommit's,
  and at most the prevote's, is for another block in the vote sets the node
  held when it asked for the prevote.

The last two hold at every height of the run, of the sign log.  `NodeInv`
carries them, with their form at the node's height and the lock they rest on
(`LockedOn`), through every handler: a `Frame` keeps it, `NodeInv.sign` signs
at the round the node is in, the lock changes only on a polka, and a new
height starts over.

A timeout for a later round breaks the first property: `signVote` signs for
`cs.Round`, and `enterPrevote` moves the round only in its deferred
`updateRoundStep`, so it prevotes again in the round it has prevoted in
(`handleTimeout_later_round_prevotes_twice`).
-/

namespace Ostracon.Consensus

open Ostracon.Types Ostracon.Crypto.Merkle

variable {V S Blk Parts Part : Type}

/-- A request to precommit a block, not nil, at height `h`. -/
def SignRequest.IsBlockPrecommit (q : SignRequest) (h : Int) : Prop :=
  q.type = .precommit ∧ q.height = h ∧ q.blockID.hash ≠ []

/-- A polka of a round after `r`, and at most `r'`, for a block whose hash is
not `hash`: what frees a node that precommitted `hash` in round `r`. -/
def ConsensusEnv.Released (e : ConsensusEnv V S Blk Parts Part) (votes : V) (r : Int)
    (hash : Bytes) (r' : Int) : Prop :=
  ∃ r'', r < r'' ∧ r'' ≤ r' ∧ ∃ B : BlockID, e.twoThirdsMajority votes .prevote r'' = some B ∧
    B.hash ≠ hash

section Released

variable {e : ConsensusEnv V S Blk Parts Part} {v v' : V} {r r₁ r₂ : Int} {hash : Bytes}

theorem ConsensusEnv.Released.mono (h : e.Released v r hash r₁) (hv : e.VotesKept v v')
    (hr : r₁ ≤ r₂) : e.Released v' r hash r₂ := by
  obtain ⟨r'', hlt, hle, B, hB, hne⟩ := h
  exact ⟨r'', hlt, hle.trans hr, B, hv _ _ _ hB, hne⟩

theorem released_of_polka {B : BlockID} (hB : e.twoThirdsMajority v .prevote r₁ = some B)
    (hne : B.hash ≠ hash) (hr : r < r₁) : e.Released v r hash r₁ :=
  ⟨r₁, hr, le_rfl, B, hB, hne⟩

end Released

namespace ConsensusState

variable {e : ConsensusEnv V S Blk Parts Part} {cs cs' : ConsensusState V Blk Parts}

theorem hashesTo_isSome {block : Option Blk} {hash : Bytes} (h : hashesTo e block hash = true) :
    block.isSome := by
  cases block with
  | none => cases h
  | some b => rfl

theorem hashOf_of_hashesTo {block : Option Blk} {hash : Bytes}
    (h : hashesTo e block hash = true) : hashOf e block = hash := by
  cases block with
  | none => cases h
  | some b =>
      simp only [hashesTo, Bool.and_eq_true, beq_iff_eq] at h
      exact h.2

theorem hash_ne_of_hashesTo {block : Option Blk} {hash hash' : Bytes}
    (h : hashesTo e block hash = true) (h' : hashesTo e block hash' = false) : hash' ≠ hash := by
  rintro rfl
  rw [h] at h'
  cases h'

/-- What a precommit for `hash` in round `r` leaves the node in: locked on a
block of that hash since round `r` or later, or freed by a later polka. -/
def LockedOn (e : ConsensusEnv V S Blk Parts Part) (cs : ConsensusState V Blk Parts) (r : Int)
    (hash : Bytes) : Prop :=
  (hashesTo e cs.lockedBlock hash = true ∧ r ≤ cs.lockedRound) ∨
    e.Released cs.votes r hash cs.round

theorem LockedOn.mono {r : Int} {hash : Bytes} (h : LockedOn e cs r hash)
    (hb : cs'.lockedBlock = cs.lockedBlock) (hr : cs'.lockedRound = cs.lockedRound)
    (hv : e.VotesKept cs.votes cs'.votes) (hround : cs.round ≤ cs'.round) :
    LockedOn e cs' r hash := by
  rcases h with ⟨hto, hle⟩ | hrel
  · exact .inl ⟨hb ▸ hto, hr ▸ hle⟩
  · exact .inr (hrel.mono hv hround)

/-- The signing discipline of a node at its height. -/
structure NodeInv (e : ConsensusEnv V S Blk Parts Part) (cs : ConsensusState V Blk Parts) :
    Prop where
  /-- every request was made at or before the node's height, round and step -/
  reached : ∀ q ∈ cs.signRequests, q.hrs ≤ cs.hrs
  /-- no two requests of one type, height and round -/
  unique : (cs.signRequests.map fun q => (q.type, q.height, q.round)).Nodup
  /-- a block precommit of the height is for the polka of its round -/
  polka : ∀ q ∈ cs.signRequests, q.IsBlockPrecommit cs.height →
    e.twoThirdsMajority cs.votes .prevote q.round = some q.blockID
  /-- a block precommit of the height leaves the node locked on it, or freed -/
  locked : ∀ q ∈ cs.signRequests, q.IsBlockPrecommit cs.height →
    LockedOn e cs q.round q.blockID.hash
  /-- a prevote of a later round of the height is for the precommitted block,
  or was freed by a polka up to its round -/
  prevoteLocked : ∀ q ∈ cs.signRequests, q.IsBlockPrecommit cs.height →
    ∀ q' ∈ cs.signRequests, q'.type = .prevote → q'.height = cs.height → q.round < q'.round →
      q'.blockID.hash = q.blockID.hash ∨ e.Released cs.votes q.round q.blockID.hash q'.round
  /-- every block precommit was asked for while its round's polka was for its block -/
  logPolka : ∀ x ∈ cs.signLog, x.1.IsBlockPrecommit x.1.height →
    e.twoThirdsMajority x.2 .prevote x.1.round = some x.1.blockID
  /-- every prevote of a later round of a block precommit's height was asked for
  for the precommitted block, or once a polka up to its round had freed it -/
  logPrevote : ∀ x ∈ cs.signLog, x.1.IsBlockPrecommit x.1.height →
    ∀ y ∈ cs.signLog, y.1.type = .prevote → y.1.height = x.1.height → x.1.round < y.1.round →
      y.1.blockID.hash = x.1.blockID.hash ∨ e.Released y.2 x.1.round x.1.blockID.hash y.1.round

theorem NodeInv.init (height : Int) (votes : V) :
    NodeInv e (init height votes : ConsensusState V Blk Parts) :=
  ⟨(fun _ h => nomatch h), List.nodup_nil, (fun _ h => nomatch h), (fun _ h => nomatch h),
    (fun _ h => nomatch h), (fun _ h => nomatch h), (fun _ h => nomatch h)⟩

theorem NodeInv.round_lt_of_step (hinv : NodeInv e cs) {q : SignRequest}
    (hq : q ∈ cs.signRequests) (hpc : q.IsBlockPrecommit cs.height)
    (hstep : cs.step.toNat < RoundStepType.precommit.toNat) : q.round < cs.round := by
  have h := SignRequest.hrs_le_iff.mp (hinv.reached q hq)
  rw [hpc.1] at h
  simp only [signStep, RoundStepType.toNat] at h hstep
  have hh := hpc.2.1
  omega

/-- The invariant carries over to a state with the same requests at the same
height, a later place, vote sets that keep the majorities, and each block
precommit still locked on or freed. -/
theorem NodeInv.of_frame (hinv : NodeInv e cs) (hlog : cs'.signLog = cs.signLog)
    (hheight : cs'.height = cs.height) (hle : cs.hrs ≤ cs'.hrs)
    (hvotes : e.VotesKept cs.votes cs'.votes)
    (hlock : ∀ q ∈ cs.signRequests, q.IsBlockPrecommit cs.height →
      LockedOn e cs' q.round q.blockID.hash) :
    NodeInv e cs' :=
  have hreq : cs'.signRequests = cs.signRequests := congrArg (List.map Prod.fst) hlog
  { reached q hq := (hinv.reached q (hreq ▸ hq)).trans hle
    unique := hreq ▸ hinv.unique
    polka q hq hpc := hvotes _ _ _ (hinv.polka q (hreq ▸ hq) (hheight ▸ hpc))
    locked q hq hpc := hlock q (hreq ▸ hq) (hheight ▸ hpc)
    prevoteLocked q hq hpc q' hq' hpv hh' hlt :=
      (hinv.prevoteLocked q (hreq ▸ hq) (hheight ▸ hpc) q' (hreq ▸ hq') hpv (hheight ▸ hh')
        hlt).imp_right fun hrel => hrel.mono hvotes le_rfl
    logPolka := hlog ▸ hinv.logPolka
    logPrevote := hlog ▸ hinv.logPrevote }

theorem NodeInv.frame (hinv : NodeInv e cs) (hf : Frame e cs cs') : NodeInv e cs' :=
  hinv.of_frame hf.signLog hf.height hf.hrs_le hf.votes fun q hq hpc =>
    (hinv.locked q hq hpc).mono hf.lockedBlock hf.lockedRound hf.votes
      (round_le_of_hrs_le hf.hrs_le hf.height)

theorem NodeInv.of_samePlace (hinv : NodeInv e cs) (hs : SamePlace cs cs')
    (hlock : ∀ q ∈ cs.signRequests, q.IsBlockPrecommit cs.height →
      LockedOn e cs' q.round q.blockID.hash) :
    NodeInv e cs' :=
  hinv.of_frame hs.signLog hs.height hs.hrs_eq.ge (by rw [hs.votes]; exact .refl _) hlock

/-! ## Signing at the node's round -/

/-- A new request of type `t` for `B`, made at the node's height and round
before the step of its vote: the invariant holds after it if a block
precommit is for the round's polka and locked on, and a prevote is for the
block of every earlier precommit that is not freed. -/
theorem NodeInv.push (hinv : NodeInv e cs) {t : SignedMsgType} {B : BlockID}
    (hstep : cs.step.toNat < (signStep t).toNat)
    (hpolka : t = .precommit → B.hash ≠ [] →
      e.twoThirdsMajority cs.votes .prevote cs.round = some B)
    (hlock : t = .precommit → B.hash ≠ [] →
      hashesTo e cs.lockedBlock B.hash = true ∧ cs.round ≤ cs.lockedRound)
    (hprevote : t = .prevote → ∀ q ∈ cs.signRequests, q.IsBlockPrecommit cs.height →
      q.round < cs.round → B.hash = q.blockID.hash ∨
        e.Released cs.votes q.round q.blockID.hash cs.round) :
    NodeInv e { cs with signLog := cs.signLog ++ [(⟨t, cs.height, cs.round, B⟩, cs.votes)],
                        step := signStep t } := by
  have hreq : ({ cs with signLog := cs.signLog ++ [(⟨t, cs.height, cs.round, B⟩, cs.votes)],
                         step := signStep t } : ConsensusState V Blk Parts).signRequests =
      cs.signRequests ++ [⟨t, cs.height, cs.round, B⟩] := by
    simp [ConsensusState.signRequests]
  refine ⟨?_, ?_, ?_, ?_, ?_, ?_, ?_⟩
  · -- the new request is made where the node now is
    intro q hq
    rw [hreq] at hq
    rcases List.mem_append.mp hq with hq | hq
    · exact (hinv.reached q hq).trans (hrs_le_of_round rfl le_rfl fun _ => hstep.le)
    · rw [List.mem_singleton.mp hq]
      exact le_rfl
  · -- no old request is of the new one's type, height and round: it would be
    -- past the node's step
    rw [hreq, List.map_append, List.nodup_append]
    refine ⟨hinv.unique, by simp, ?_⟩
    intro a ha b hb hab
    obtain ⟨q, hq, rfl⟩ := List.mem_map.mp ha
    rw [List.map_singleton, List.mem_singleton] at hb
    subst hb
    simp only [Prod.mk.injEq] at hab
    obtain ⟨ht, hh, hr⟩ := hab
    have hreach := SignRequest.hrs_le_iff.mp (hinv.reached q hq)
    rw [ht] at hreach
    omega
  · intro q hq hpc
    rw [hreq] at hq
    rcases List.mem_append.mp hq with hq | hq
    · exact hinv.polka q hq hpc
    · obtain rfl := List.mem_singleton.mp hq
      exact hpolka hpc.1 hpc.2.2
  · intro q hq hpc
    rw [hreq] at hq
    rcases List.mem_append.mp hq with hq | hq
    · exact hinv.locked q hq hpc
    · obtain rfl := List.mem_singleton.mp hq
      exact .inl (hlock hpc.1 hpc.2.2)
  · intro q hq hpc q' hq' hpv hh' hlt
    rw [hreq] at hq hq'
    rcases List.mem_append.mp hq with hq | hq <;> rcases List.mem_append.mp hq' with hq' | hq'
    · exact hinv.prevoteLocked q hq hpc q' hq' hpv hh' hlt
    · -- the new prevote, after an old precommit
      obtain rfl := List.mem_singleton.mp hq'
      exact hprevote hpv q hq hpc hlt
    · -- the new precommit: no old prevote of the height is of a later round
      obtain rfl := List.mem_singleton.mp hq
      have hreach := SignRequest.hrs_le_iff.mp (hinv.reached q' hq')
      dsimp only at hh' hlt
      omega
    · obtain rfl := List.mem_singleton.mp hq
      obtain rfl := List.mem_singleton.mp hq'
      exact absurd (hpc.1.symm.trans hpv) (by decide)
  · -- the new entry is a block precommit only for the polka the node holds
    intro x hx hpc
    rcases List.mem_append.mp hx with hx | hx
    · exact hinv.logPolka x hx hpc
    · obtain rfl := List.mem_singleton.mp hx
      exact hpolka hpc.1 hpc.2.2
  · intro x hx hpc y hy hpv hh hlt
    rcases List.mem_append.mp hx with hx | hx <;> rcases List.mem_append.mp hy with hy | hy
    · exact hinv.logPrevote x hx hpc y hy hpv hh hlt
    · -- the new prevote, after an old precommit of the node's height
      obtain rfl := List.mem_singleton.mp hy
      exact hprevote hpv x.1 (List.mem_map_of_mem hx) ⟨hpc.1, hh.symm, hpc.2.2⟩ hlt
    · -- the new precommit: no old prevote of the height is of a later round
      obtain rfl := List.mem_singleton.mp hx
      have hreach := SignRequest.hrs_le_iff.mp (hinv.reached y.1 (List.mem_map_of_mem hy))
      dsimp only at hh hlt
      omega
    · obtain rfl := List.mem_singleton.mp hx
      obtain rfl := List.mem_singleton.mp hy
      exact absurd (hpc.1.symm.trans hpv) (by decide)

theorem NodeInv.sign (hinv : NodeInv e cs) {t : SignedMsgType} {hash : Bytes}
    {header : PartSetHeader} {r : Int} (hr : cs.round = r)
    (hstep : cs.step.toNat < (signStep t).toNat)
    (hpolka : t = .precommit → hash ≠ [] →
      e.twoThirdsMajority cs.votes .prevote cs.round = some ⟨hash, header⟩)
    (hlock : t = .precommit → hash ≠ [] →
      hashesTo e cs.lockedBlock hash = true ∧ cs.round ≤ cs.lockedRound)
    (hprevote : t = .prevote → ∀ q ∈ cs.signRequests, q.IsBlockPrecommit cs.height →
      q.round < cs.round → hash = q.blockID.hash ∨
        e.Released cs.votes q.round q.blockID.hash cs.round) :
    NodeInv e { signAddVote e cs t hash header with round := r, step := signStep t } := by
  subst hr
  rw [signAddVote_eq]
  split
  · exact hinv.push hstep hpolka hlock hprevote
  · -- not a voter: nothing is signed, and the step moves on
    refine hinv.frame ⟨rfl, hrs_le_of_round rfl le_rfl fun _ => hstep.le, .refl _, rfl, rfl, ?_⟩
    simp

/-! ## The handlers -/

theorem enterPrevote_inv (hinv : NodeInv e cs) {height round : Int} (hr : round ≤ cs.round) :
    NodeInv e (enterPrevote e cs height round) := by
  rcases enterPrevote_cases e cs height round with h | ⟨-, hr', hs, hash, header, hlocked, h⟩
  · rw [h]
    exact hinv
  · rw [h]
    obtain rfl : cs.round = round := le_antisymm hr' hr
    refine hinv.sign rfl (hs rfl) (fun h => nomatch h) (fun h => nomatch h)
      fun _ q hq hpc _ => ?_
    -- the prevote is for the locked block, which is the precommitted one's, or
    -- the precommit was freed
    rcases hinv.locked q hq hpc with ⟨hto, -⟩ | hrel
    · exact .inl ((hlocked (hashesTo_isSome hto)).trans (hashOf_of_hashesTo hto))
    · exact .inr hrel

theorem enterPropose_inv (hinv : NodeInv e cs) {height round : Int} :
    NodeInv e (enterPropose e cs height round) := by
  rcases enterPropose_cases e cs height round with h | ⟨cs₁, h | h, hf, -, hr₁⟩ <;> rw [h]
  · exact hinv
  · exact hinv.frame hf
  · exact enterPrevote_inv (hinv.frame hf) hr₁.ge

theorem enterPrecommit_inv (hinv : NodeInv e cs) {height round : Int} (hr : round ≤ cs.round)
    (h : enterPrecommit e cs height round = some cs') : NodeInv e cs' := by
  rcases enterPrecommit_cases h with rfl | ⟨cs₁, hpol, rfl, -, hr', hs⟩
  · exact hinv
  obtain rfl : cs.round = round := le_antisymm hr' hr
  have hstep := hs rfl
  have hearlier : ∀ q ∈ cs.signRequests, q.IsBlockPrecommit cs.height → q.round < cs.round :=
    fun q hq hpc => hinv.round_lt_of_step hq hpc hstep
  rcases precommitOnPolka_cases hpol with ⟨-, rfl⟩ | ⟨B, cs₂, rfl, hB, hunlock, hs₂, -⟩ |
      ⟨B, cs₂, rfl, hB, -, hs₂, hto, hround⟩
  · -- no polka: precommit nil
    exact hinv.sign rfl hstep (fun _ h => absurd rfl h) (fun _ h => absurd rfl h)
      fun h => nomatch h
  · -- unlock on the polka, which frees every block precommit of the height,
    -- and precommit nil
    have hinv₂ : NodeInv e cs₂ := by
      refine hinv.of_samePlace hs₂ fun q hq hpc => Or.inr ?_
      rw [hs₂.votes, hs₂.round]
      rcases hinv.locked q hq hpc with ⟨hto, -⟩ | hrel
      · refine released_of_polka hB ?_ (hearlier q hq hpc)
        rcases hunlock with hnil | hfalse
        · rw [hnil]
          exact hpc.2.2.symm
        · exact hash_ne_of_hashesTo hto hfalse
      · exact hrel
    exact hinv₂.sign hs₂.round (by rw [hs₂.step]; exact hstep) (fun _ h => absurd rfl h)
      (fun _ h => absurd rfl h) fun h => nomatch h
  · -- lock the polka's block, which frees every block precommit of the height
    -- for another, and precommit it
    have hinv₂ : NodeInv e cs₂ := by
      refine hinv.of_samePlace hs₂ fun q hq hpc => ?_
      by_cases hq' : q.blockID.hash = B.hash
      · refine Or.inl ⟨by rw [hq']; exact hto, ?_⟩
        rw [hround]
        exact (hearlier q hq hpc).le
      · refine Or.inr ?_
        rw [hs₂.votes, hs₂.round]
        exact released_of_polka hB (Ne.symm hq') (hearlier q hq hpc)
    refine hinv₂.sign hs₂.round (by rw [hs₂.step]; exact hstep) (fun _ _ => ?_)
      (fun _ _ => ⟨hto, ?_⟩) fun h => nomatch h
    · rw [hs₂.votes, hs₂.round]
      exact hB
    · rw [hround, hs₂.round]

theorem updateToState_inv (hinv : NodeInv e cs) : NodeInv e (updateToState e cs) := by
  -- every request is of a height before the new one
  have hlt : ∀ q ∈ cs.signRequests, q.height ≠ cs.height + 1 := fun q hq => by
    have := SignRequest.hrs_le_iff.mp (hinv.reached q hq)
    omega
  exact ⟨fun q hq => (hinv.reached q hq).trans (hrs_le_updateToState cs), hinv.unique,
    fun q hq hpc => absurd hpc.2.1 (hlt q hq), fun q hq hpc => absurd hpc.2.1 (hlt q hq),
    fun q hq hpc _ _ _ _ _ => absurd hpc.2.1 (hlt q hq), hinv.logPolka, hinv.logPrevote⟩

theorem tryFinalizeCommit_inv (hinv : NodeInv e cs) {height : Int}
    (h : tryFinalizeCommit e cs height = some cs') : NodeInv e cs' := by
  rcases tryFinalizeCommit_cases h with rfl | rfl
  · exact hinv
  · exact updateToState_inv hinv

theorem enterCommit_inv (hinv : NodeInv e cs) {height commitRound : Int}
    (h : enterCommit e cs height commitRound = some cs') : NodeInv e cs' := by
  rcases enterCommit_cases h with rfl | ⟨cs₁, rfl | rfl, hf⟩
  · exact hinv
  · exact hinv.frame hf
  · exact updateToState_inv (hinv.frame hf)

theorem updateOnPolka_inv (hinv : NodeInv e cs) {voteRound : Int} {blockID : BlockID}
    (hpolka : e.twoThirdsMajority cs.votes .prevote voteRound = some blockID) :
    NodeInv e (updateOnPolka e cs voteRound blockID) := by
  obtain ⟨hs, hlock | ⟨hlt, hle, hfalse, -⟩⟩ := updateOnPolka_cases (e := e) cs voteRound blockID
  · exact hinv.frame (hs.frame hlock.1 hlock.2)
  · refine hinv.of_samePlace hs fun q hq hpc => Or.inr ?_
    rw [hs.votes, hs.round]
    rcases hinv.locked q hq hpc with ⟨hto, hqle⟩ | hrel
    · exact (released_of_polka hpolka (hash_ne_of_hashesTo hto hfalse) (by omega)).mono
        (.refl _) hle
    · exact hrel

theorem handleCompleteProposal_inv (hinv : NodeInv e cs) {blockHeight : Int}
    (h : handleCompleteProposal e cs blockHeight = some cs') : NodeInv e cs' := by
  obtain ⟨cs₁, hf, -, rfl | rfl | h | h⟩ := handleCompleteProposal_cases h
  · exact hinv.frame hf
  · exact enterPrevote_inv (hinv.frame hf) le_rfl
  · exact enterPrecommit_inv (enterPrevote_inv (hinv.frame hf) le_rfl) le_rfl h
  · exact tryFinalizeCommit_inv (hinv.frame hf) h

/-- A timeout for the node's height is for a round the node has reached: the
ticker schedules a timeout for the round the node is in, and the round only
grows within a height. -/
def Admissible (cs : ConsensusState V Blk Parts) : ConsensusEvent S Part → Prop
  | .timeout ti => ti.height = cs.height → ti.round ≤ cs.round
  | _ => True

instance (cs : ConsensusState V Blk Parts) (ev : ConsensusEvent S Part) :
    Decidable (Admissible cs ev) :=
  match ev with
  | .timeout ti => inferInstanceAs (Decidable (ti.height = cs.height → ti.round ≤ cs.round))
  | .proposal _ => isTrue trivial
  | .blockPart _ _ _ => isTrue trivial
  | .vote _ => isTrue trivial

/-- Every timeout of a run is admissible in the state the run has reached. -/
def AdmissibleRun (e : ConsensusEnv V S Blk Parts Part) :
    ConsensusState V Blk Parts → List (ConsensusEvent S Part) → Prop
  | _, [] => True
  | cs, ev :: evs => Admissible cs ev ∧ ∀ cs', cs.receive e ev = some cs' → AdmissibleRun e cs' evs

section Lawful

variable (hlaw : e.Lawful)
include hlaw

theorem enterNewRound_inv (hinv : NodeInv e cs) {height round : Int} :
    NodeInv e (enterNewRound e cs height round) := by
  rcases enterNewRound_cases hlaw cs height round with ⟨h, -⟩ | ⟨cs₁, h | h, hf, -, -⟩ <;> rw [h]
  · exact hinv
  · exact hinv.frame hf
  · exact enterPropose_inv (hinv.frame hf)

theorem handleTimeout_inv (hinv : NodeInv e cs) {ti : TimeoutInfo}
    (hadm : ti.height = cs.height → ti.round ≤ cs.round) (h : handleTimeout e cs ti = some cs') :
    NodeInv e cs' := by
  rcases handleTimeout_cases h with rfl | ⟨hh, -, rfl | rfl | rfl | h | ⟨cs₁, h₁, rfl⟩⟩
  · exact hinv
  · exact enterNewRound_inv hlaw hinv
  · exact enterPropose_inv hinv
  · exact enterPrevote_inv hinv (hadm hh)
  · exact enterPrecommit_inv hinv (hadm hh) h
  · exact enterNewRound_inv hlaw (enterPrecommit_inv hinv (hadm hh) h₁)

theorem addPrevote_inv (hinv : NodeInv e cs) {height voteRound : Int}
    (h : addPrevote e cs height voteRound = some cs') : NodeInv e cs' := by
  obtain ⟨cs₁, hcs₁, h⟩ := addPrevote_cases h
  have hinv₁ : NodeInv e cs₁ := by
    rcases hcs₁ with rfl | ⟨B, hB, rfl⟩
    · exact hinv
    · exact updateOnPolka_inv hinv hB
  rcases h with rfl | rfl | ⟨hr, h⟩ | h | rfl
  · exact hinv₁
  · exact enterNewRound_inv hlaw hinv₁
  · exact enterPrecommit_inv hinv₁ hr.ge h
  · exact hinv₁.frame (enterPrevoteWait_frame h)
  · exact enterPrevote_inv hinv₁ le_rfl

theorem addPrecommit_inv (hinv : NodeInv e cs) {height voteRound : Int} (hh : cs.height = height)
    (h : addPrecommit e cs height voteRound = some cs') : NodeInv e cs' := by
  have hinv₀ : NodeInv e (enterNewRound e cs height voteRound) := enterNewRound_inv hlaw hinv
  -- `enterNewRound` brings the node to the vote's round, where it precommits
  have hr₀ : voteRound ≤ (enterNewRound e cs height voteRound).round :=
    le_round_enterNewRound hlaw hh
  rcases addPrecommit_cases h with rfl | h | ⟨cs₁, h₁, h | ⟨cs₂, h₂, rfl | rfl⟩⟩
  · exact hinv
  · exact hinv₀.frame (enterPrecommitWait_frame h)
  all_goals have hinv₁ := enterPrecommit_inv hinv₀ hr₀ h₁
  · exact hinv₁.frame (enterPrecommitWait_frame h)
  · exact enterCommit_inv hinv₁ h₂
  · exact enterNewRound_inv hlaw (enterCommit_inv hinv₁ h₂)

theorem addVote_inv (hinv : NodeInv e cs) {vote : Vote S} (h : addVote e cs vote = some cs') :
    NodeInv e cs' := by
  rcases addVote_cases h with rfl | (rfl | rfl) | h | h
  · exact hinv
  · exact hinv.frame (frame_votes (hlaw.addLastCommit _ _))
  · exact enterNewRound_inv hlaw (hinv.frame (frame_votes (hlaw.addLastCommit _ _)))
  · exact addPrevote_inv hlaw (hinv.frame (frame_votes (hlaw.addVote _ _))) h
  · exact addPrecommit_inv hlaw (hinv.frame (frame_votes (hlaw.addVote _ _))) rfl h

theorem receive_inv (hinv : NodeInv e cs) {ev : ConsensusEvent S Part} (hadm : Admissible cs ev)
    (h : cs.receive e ev = some cs') : NodeInv e cs' := by
  cases ev with
  | proposal proposal =>
      obtain rfl := Option.some.inj h
      exact hinv.frame (setProposal_frame cs proposal)
  | blockPart height round part =>
      have hinv₁ := hinv.frame (addProposalBlockPart_frame (e := e) cs height part)
      rcases receive_blockPart_cases h with rfl | h
      · exact hinv₁
      · exact handleCompleteProposal_inv hinv₁ h
  | vote vote => exact addVote_inv hlaw hinv h
  | timeout ti => exact handleTimeout_inv hlaw hinv hadm h

theorem run_inv (hinv : NodeInv e cs) {evs : List (ConsensusEvent S Part)}
    (hadm : AdmissibleRun e cs evs) (h : cs.run e evs = some cs') : NodeInv e cs' := by
  -- induction on the inputs, carrying the invariant from each state to the next
  induction evs generalizing cs with
  | nil =>
      obtain rfl := Option.some.inj h
      exact hinv
  | cons ev evs ih =>
      obtain ⟨cs₁, h₁, h⟩ := Option.bind_eq_some_iff.mp h
      exact ih (receive_inv hlaw hinv hadm.1 h₁) (hadm.2 cs₁ h₁) h

/-- A node over a run of admissible inputs from the start of a height: no
run from any state takes it back in (height, round, step); it asks for at
most one vote of each type for each height and round; at every height, each
precommit for a block was asked for while the vote sets the node held had the
polka of its round for that block; and each prevote of a later round of the
same height was asked for for the block of an earlier block precommit, or
while the node's vote sets had a polka of a round after the precommit's, and
at most the prevote's, for another block. -/
theorem run_signRequests_safe {height : Int} {votes : V} {evs : List (ConsensusEvent S Part)}
    (hadm : AdmissibleRun e (init height votes) evs)
    (hrun : (init height votes : ConsensusState V Blk Parts).run e evs = some cs) :
    (∀ (cs₁ cs₂ : ConsensusState V Blk Parts) (evs' : List (ConsensusEvent S Part)),
        cs₁.run e evs' = some cs₂ → cs₁.hrs ≤ cs₂.hrs) ∧
      (cs.signRequests.map fun q => (q.type, q.height, q.round)).Nodup ∧
      (∀ x ∈ cs.signLog, x.1.IsBlockPrecommit x.1.height →
        e.twoThirdsMajority x.2 .prevote x.1.round = some x.1.blockID) ∧
      (∀ x ∈ cs.signLog, x.1.IsBlockPrecommit x.1.height →
        ∀ y ∈ cs.signLog, y.1.type = .prevote → y.1.height = x.1.height → x.1.round < y.1.round →
          y.1.blockID.hash = x.1.blockID.hash ∨ e.Released y.2 x.1.round x.1.blockID.hash y.1.round) := by
  have hinv := run_inv hlaw (NodeInv.init height votes) hadm hrun
  exact ⟨fun _ _ _ h => hrs_le_run hlaw h, hinv.unique, hinv.logPolka, hinv.logPrevote⟩

end Lawful

end ConsensusState

/-! ## A node that locks on a polka -/

/-- A node that is always a voter, whose vote sets count the votes added, with
a polka for its one block from the first prevote on, and whose proposal
blocks are valid and come in one part. -/
def polkaEnv : ConsensusEnv Nat Unit Unit Unit Unit where
  addVote v _ := (true, v + 1)
  addLastCommit v _ := (false, v)
  lastCommitHasAll _ := false
  setRound v _ := v
  twoThirdsMajority v t _ := if t = .prevote ∧ 1 ≤ v then some ⟨[1], ⟨1, [1]⟩⟩ else none
  hasTwoThirdsAny v _ _ := decide (1 ≤ v)
  hasAll _ _ _ := false
  polRound v := if 1 ≤ v then 0 else -1
  nextHeight _ _ _ := 0
  blockHash _ := [1]
  validateBlock _ _ := true
  partsHeader _ := ⟨1, [1]⟩
  partsFromHeader _ := ()
  addPart _ _ := (true, ())
  partsSizeOk _ := true
  partsComplete _ := true
  decodeBlock _ := some ()
  proposalSignatureOk _ := true
  isVoter _ := true
  waitForTxs _ := false
  skipTimeoutCommit := false

theorem polkaEnv_lawful : polkaEnv.Lawful where
  addVote v _ t r B h := by
    simp only [polkaEnv] at h ⊢
    split_ifs at h with hv
    exact (if_pos ⟨hv.1, by omega⟩).trans h
  addLastCommit _ _ _ _ _ h := h
  setRound _ _ _ _ _ h := h

/-- A proposal, its one part and a peer's prevote for its block: the node
prevotes the block, sees the polka, locks the block and precommits it. -/
def proposeAndPolka : List (ConsensusEvent Unit Unit) :=
  [.proposal ⟨1, 0, -1, ⟨[1], ⟨1, [1]⟩⟩⟩, .blockPart 1 0 (),
    .vote ⟨.prevote, 1, 0, ⟨[1], ⟨1, [1]⟩⟩, 0, [2], 1, none⟩]

section PolkaEnv

open ConsensusState

/-- The node prevotes the proposal block with no polka in its vote sets, then
locks it and precommits it on the polka the peer's prevote completes. -/
theorem run_signRequests_safe_polkaEnv :
    polkaEnv.Lawful ∧ AdmissibleRun polkaEnv (init 1 0) proposeAndPolka ∧
      ∃ cs : ConsensusState Nat Unit Unit,
        (init 1 0 : ConsensusState Nat Unit Unit).run polkaEnv proposeAndPolka = some cs ∧
        cs.lockedBlock = some () ∧ cs.lockedRound = 0 ∧
        cs.signLog = [(⟨.prevote, 1, 0, ⟨[1], ⟨1, [1]⟩⟩⟩, 0), (⟨.precommit, 1, 0, ⟨[1], ⟨1, [1]⟩⟩⟩, 1)] ∧
        (∀ (cs₁ cs₂ : ConsensusState Nat Unit Unit) (evs' : List (ConsensusEvent Unit Unit)),
            cs₁.run polkaEnv evs' = some cs₂ → cs₁.hrs ≤ cs₂.hrs) ∧
        (cs.signRequests.map fun q => (q.type, q.height, q.round)).Nodup ∧
        (∀ x ∈ cs.signLog, x.1.IsBlockPrecommit x.1.height →
          polkaEnv.twoThirdsMajority x.2 .prevote x.1.round = some x.1.blockID) ∧
        (∀ x ∈ cs.signLog, x.1.IsBlockPrecommit x.1.height →
          ∀ y ∈ cs.signLog, y.1.type = .prevote → y.1.height = x.1.height → x.1.round < y.1.round →
            y.1.blockID.hash = x.1.blockID.hash ∨
              polkaEnv.Released y.2 x.1.round x.1.blockID.hash y.1.round) := by
  have hadm : AdmissibleRun polkaEnv (init 1 0 : ConsensusState Nat Unit Unit) proposeAndPolka :=
    ⟨trivial, fun _ _ => ⟨trivial, fun _ _ => ⟨trivial, fun _ _ => trivial⟩⟩⟩
  obtain ⟨cs, hrun⟩ := Option.isSome_iff_exists.mp
    (by decide : ((init 1 0 : ConsensusState Nat Unit Unit).run polkaEnv proposeAndPolka).isSome = true)
  have hstate : ((init 1 0 : ConsensusState Nat Unit Unit).run polkaEnv proposeAndPolka).map
      (fun cs => (cs.lockedBlock, cs.lockedRound, cs.signLog)) =
      some (some (), 0, [(⟨.prevote, 1, 0, ⟨[1], ⟨1, [1]⟩⟩⟩, 0), (⟨.precommit, 1, 0, ⟨[1], ⟨1, [1]⟩⟩⟩, 1)]) := by
    decide
  rw [hrun] at hstate
  simp only [Option.map_some, Option.some.injEq, Prod.mk.injEq] at hstate
  exact ⟨polkaEnv_lawful, hadm, cs, hrun, hstate.1, hstate.2.1, hstate.2.2,
    run_signRequests_safe polkaEnv_lawful hadm hrun⟩

end PolkaEnv

/-! ## A node with one part per block -/

/-- A node that is always a voter, whose vote sets never reach two thirds,
and whose proposal blocks are valid and come in one part. -/
def unitEnv : ConsensusEnv Unit Unit Unit Unit Unit where
  addVote _ _ := (false, ())
  addLastCommit _ _ := (false, ())
  lastCommitHasAll _ := false
  setRound _ _ := ()
  twoThirdsMajority _ _ _ := none
  hasTwoThirdsAny _ _ _ := false
  hasAll _ _ _ := false
  polRound _ := -1
  nextHeight _ _ _ := ()
  blockHash _ := [1]
  validateBlock _ _ := true
  partsHeader _ := ⟨1, [1]⟩
  partsFromHeader _ := ()
  addPart _ _ := (true, ())
  partsSizeOk _ := true
  partsComplete _ := true
  decodeBlock _ := some ()
  proposalSignatureOk _ := true
  isVoter _ := true
  waitForTxs _ := false
  skipTimeoutCommit := false

theorem unitEnv_lawful : unitEnv.Lawful where
  addVote _ _ _ _ _ h := by cases h
  addLastCommit _ _ _ _ _ h := by cases h
  setRound _ _ _ _ _ h := by cases h

section UnitEnv

open ConsensusState

/-- Timeouts for the propose step of round 0 and, while the node is still in
round 0, of round 1: the node prevotes nil in round 0, receives the proposal
and its block, and on the second timeout prevotes the block, for round 0
again. -/
theorem handleTimeout_later_round_prevotes_twice :
    unitEnv.Lawful ∧
      ((init 1 () : ConsensusState Unit Unit Unit).run unitEnv
          [.timeout ⟨1, 0, .propose⟩, .proposal ⟨1, 0, -1, ⟨[1], ⟨1, [1]⟩⟩⟩, .blockPart 1 0 (),
            .timeout ⟨1, 1, .propose⟩]).map (·.signRequests) =
        some [⟨.prevote, 1, 0, ⟨[], ⟨0, []⟩⟩⟩, ⟨.prevote, 1, 0, ⟨[1], ⟨1, [1]⟩⟩⟩] :=
  ⟨unitEnv_lawful, by decide⟩

end UnitEnv

end Ostracon.Consensus
