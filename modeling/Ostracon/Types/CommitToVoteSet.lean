import Ostracon.Types.VoteSetOrder
import Ostracon.Types.CommitCompleteness
/-!
# `CommitToVoteSet` inverts `MakeCommit`

`CommitToVoteSet` (`types/block.go`) rebuilds the precommit set of a height
from its commit.  Each entry that is not absent becomes the vote
`Commit.GetVote` gives: `AddVote` takes it when its signature is there, and
`AddAggregatedVote` when `AggregateSignatures` moved the signature into the
aggregate, whose key and message are then collected and checked against the
aggregate at the end.  Any failure panics.

For a set that took its votes by `AddVote`, the commit `MakeCommit` makes of
it comes back: the rebuilt set has the same two-thirds block, and at each
entry that is not absent the commit's vote, which is the set's own vote
without its BLS signature.  What this rests on:

* the algorithms (`SoundPrimitives`): a signature of BLS size that a key
  verifies is a BLS signature of that key, and BLS signatures that verify one
  by one add up to an aggregate that verifies for their keys and messages;
* the key of a complete block ID names it, so the votes of a committable set
  for its two-thirds block's key are votes for that block, and the entries
  `MakeCommit` keeps still reach the quorum.
-/

namespace Ostracon.Types

open Ostracon.Crypto Ostracon.Crypto.Merkle GoInt WeightedSet

variable {K S : Type} {voterSet : VoterSet K}

/-- `VoterSet.GetByIndex`: the voter's address and the voter, `nil` outside
the set. -/
def VoterSet.getByIndex (voters : VoterSet K) (index : Int) : Option (Bytes × Validator K) :=
  if index < 0 then none else (voters.voters[index.toNat]?).map fun voter => (voter.address, voter)

section Model

variable [DecidableEq S] (c : Primitives K CanonicalVote S) (chainID : String) (commit : Commit S)

/-- The loop of `CommitToVoteSet` over the entries from index `idx` on, with
the set so far and the BLS keys and messages collected for the aggregate;
`none` where Go panics. -/
def commitToVoteSetLoop : Nat → List (CommitSig S) → VoteSet S voterSet → BlsBatch K →
    Option (VoteSet S voterSet × BlsBatch K)
  | _, [], voteSet, batch => some (voteSet, batch)
  | idx, commitSig :: rest, voteSet, batch =>
      if commitSig.absent then commitToVoteSetLoop (idx + 1) rest voteSet batch
      else
        let vote := commit.getVote idx commitSig
        if vote.signature.isSome then
          match voteSet.addVote c vote with
          | some ((true, none), voteSet) => commitToVoteSetLoop (idx + 1) rest voteSet batch
          | _ => none
        else
          match voteSet.addAggregatedVote c vote with
          | some ((true, none), voteSet) =>
              match voterSet.getByIndex vote.validatorIndex with
              | none => none
              | some (addr, voter) =>
                  -- "Cannot find voter %d in voterSet of size %d"
                  if addr = [] then none
                  else
                    match getSignatureKey voter.pubKey with
                    -- "signature %d has been omitted, even though it is not a BLS key"
                    | none => none
                    | some blsPubKey =>
                        commitToVoteSetLoop (idx + 1) rest voteSet
                          (batch.push blsPubKey (vote.signBytes chainID))
          | _ => none

/-- `CommitToVoteSet`; `none` where Go panics. -/
def commitToVoteSet (voters : VoterSet K) : Option (VoteSet S voters) := do
  let voteSet ← newVoteSet chainID commit.height commit.round .precommit voters
  let (voteSet, batch) ← commitToVoteSetLoop c chainID commit 0 commit.signatures voteSet BlsBatch.empty
  match commit.aggregatedSignature with
  | none => some voteSet
  | some _ =>
      match verifyAggregatedSignature c commit.aggregatedSignature batch.blsPubKeys batch.messages with
      | .ok () => some voteSet
      | .error _ => none

end Model

/-! ## The keys of the block IDs a commit names -/

/-- The zero block ID of nil votes. -/
def zeroBlockID : BlockID := ⟨[], ⟨0, []⟩⟩

theorem varint_ne_nil (n : Nat) : varint n ≠ [] := by
  rw [varint]
  split_ifs <;> simp

theorem varint_injective : Function.Injective varint := by
  intro a
  -- strong induction: the bytes after the first encode `a / 128`
  induction a using Nat.strong_induction_on with
  | _ a ih =>
    intro b h
    rw [varint.eq_1 a, varint.eq_1 b] at h
    have hbyte : ∀ m n : Nat, m.toUInt8 = n.toUInt8 → m % 256 = n % 256 := by
      intro m n hmn
      simpa using congrArg UInt8.toNat hmn
    by_cases ha : a < 128 <;> by_cases hb : b < 128 <;> simp only [ha, hb, if_true, if_false] at h
    · have := hbyte a b (List.singleton_inj.mp h)
      omega
    · exact absurd (List.cons.inj h).2.symm (varint_ne_nil _)
    · exact absurd (List.cons.inj h).2 (varint_ne_nil _)
    · obtain ⟨hhd, htl⟩ := List.cons.inj h
      have hmod := hbyte _ _ hhd
      have hdiv := ih (a / 128) (by omega) htl
      omega

theorem PartSetHeader.marshal_of_ne {psh : PartSetHeader} (htotal : psh.total ≠ 0) (hhash : psh.hash ≠ []) :
    psh.marshal = (0x08 :: varint psh.total.toNat) ++ 0x12 :: (varint psh.hash.length ++ psh.hash) := by
  simp [PartSetHeader.marshal, htotal, hhash]

theorem BlockID.eq_zero_of_isZero {b : BlockID} (h : b.isZero = true) : b = zeroBlockID := by
  obtain ⟨hash, total, pshHash⟩ := b
  simp only [BlockID.isZero, PartSetHeader.isZero, Bool.and_eq_true, List.isEmpty_iff, beq_iff_eq] at h
  obtain ⟨rfl, rfl, rfl⟩ := h
  rfl

@[simp] theorem zeroBlockID_key : zeroBlockID.key = [] := rfl

theorem BlockID.eq_zero_of_key_eq_nil {b : BlockID} (h : b.key = []) : b = zeroBlockID := by
  obtain ⟨hash, total, pshHash⟩ := b
  simp only [BlockID.key, PartSetHeader.marshal, List.append_eq_nil_iff] at h
  obtain ⟨rfl, htotal, hhash⟩ := h
  split_ifs at htotal hhash with h0 h1
  rw [h0, h1]
  rfl

theorem BlockID.eq_of_key_eq_of_isComplete {a b : BlockID} (ha : a.isComplete = true) (hb : b.isComplete = true)
    (h : a.key = b.key) : a = b := by
  obtain ⟨ah, apsh⟩ := a
  obtain ⟨bh, bpsh⟩ := b
  simp only [BlockID.isComplete, tmhashSize, Bool.and_eq_true, beq_iff_eq, decide_eq_true_eq] at ha hb
  obtain ⟨⟨hah, hat⟩, hapsh⟩ := ha
  obtain ⟨⟨hbh, hbt⟩, hbpsh⟩ := hb
  have hne : ∀ l : Bytes, l.length = 32 → l ≠ [] := fun l hl hnil => by simp [hnil] at hl
  obtain ⟨rfl, hmarshal⟩ := List.append_inj h (hah.trans hbh.symm)
  rw [PartSetHeader.marshal_of_ne (by grind) (hne _ hapsh),
    PartSetHeader.marshal_of_ne (by grind) (hne _ hbpsh), hapsh, hbpsh] at hmarshal
  -- the part count is the prefix before the fixed-length field of the hash
  obtain ⟨htotal, hhash⟩ := List.append_inj' hmarshal (by simp [hapsh, hbpsh])
  have htotal' : apsh.total = bpsh.total :=
    UInt32.toNat_inj.mp (varint_injective (List.cons.inj htotal).2)
  have hhash' : apsh.hash = bpsh.hash := List.append_cancel_left (List.cons.inj hhash).2
  cases apsh
  cases bpsh
  simp only at htotal' hhash'
  rw [htotal', hhash']

theorem BlockID.eq_of_key_eq {a b : BlockID} (ha : a.isComplete = true ∨ a.isZero = true)
    (hb : b.isComplete = true ∨ b.isZero = true) (h : a.key = b.key) : a = b := by
  have hcomplete : ∀ x : BlockID, x.isComplete = true → x.key ≠ [] := fun x hx hnil => by
    have hx0 := BlockID.eq_zero_of_key_eq_nil hnil
    subst hx0
    simp [zeroBlockID, BlockID.isComplete] at hx
  rcases ha with ha | ha <;> rcases hb with hb | hb
  · exact BlockID.eq_of_key_eq_of_isComplete ha hb h
  · rw [BlockID.eq_zero_of_isZero hb, zeroBlockID_key] at h
    exact absurd h (hcomplete a ha)
  · rw [BlockID.eq_zero_of_isZero ha, zeroBlockID_key] at h
    exact absurd h.symm (hcomplete b hb)
  · rw [BlockID.eq_zero_of_isZero ha, BlockID.eq_zero_of_isZero hb]

theorem CommitSig.blockID_eq_or (cs : CommitSig S) (B : BlockID) :
    cs.blockID B = B ∨ cs.blockID B = zeroBlockID := by
  unfold CommitSig.blockID
  split <;> simp [zeroBlockID]

/-! ## The votes of a set that took them by `AddVote` -/

/-- The votes a set holds: its canonical votes and its votes by block key. -/
def VoteSet.Holds (vs : VoteSet S voterSet) (v : Vote S) : Prop :=
  (∃ i, vs.votes i = some v) ∨ ∃ k bv i, vs.votesByBlock k = some bv ∧ bv.votes i = some v

/-- What a set keeps over a run of `AddVote` and `SetPeerMaj23` calls from
`vs₀`: the chain, height, round and type of `vs₀`, only votes valid for
`vs₀`, and the vote that set the two-thirds block among its canonical votes. -/
structure SignedVotes (c : Primitives K CanonicalVote S) (vs₀ vs : VoteSet S voterSet) : Prop where
  chainID_eq : vs.chainID = vs₀.chainID
  height_eq : vs.height = vs₀.height
  round_eq : vs.round = vs₀.round
  type_eq : vs.signedMsgType = vs₀.signedMsgType
  valid : ∀ v, vs.Holds v → ∃ i, ValidVote c vs₀ i v
  maj23_canonical : ∀ B, vs.maj23 = some B → ∃ i v, vs.votes i = some v ∧ v.blockID = B

theorem ValidVote.of_header {c : Primitives K CanonicalVote S} {vs vs' : VoteSet S voterSet}
    {i : Fin voterSet.size} {v : Vote S} (hv : ValidVote c vs i v) (hc : vs'.chainID = vs.chainID)
    (hh : vs'.height = vs.height) (hr : vs'.round = vs.round) (ht : vs'.signedMsgType = vs.signedMsgType) :
    ValidVote c vs' i v :=
  ⟨hv.voteAt, hv.address_ne_nil, hh ▸ hv.height_eq, hr ▸ hv.round_eq, ht ▸ hv.type_eq, hc ▸ hv.verify_eq⟩

theorem CheckedVote.valid {c : Primitives K CanonicalVote S} {vs : VoteSet S voterSet}
    {i : Fin voterSet.size} {vote : Vote S}
    (hv : CheckedVote (fun chainID pubKey => vote.verify c chainID pubKey) vs i vote) :
    ValidVote c vs i vote :=
  ⟨hv.voteAt, hv.address_ne_nil, hv.height_eq, hv.round_eq, hv.type_eq, hv.verify_eq⟩

theorem VoteSet.Holds.of_update {vs vs' : VoteSet S voterSet} {i : Fin voterSet.size} {vote v : Vote S}
    (hby : vs'.votesByBlock = vs.votesByBlock) (hvotes : vs'.votes = Function.update vs.votes i (some vote))
    (h : vs'.Holds v) : vs.Holds v ∨ v = vote := by
  rcases h with ⟨j, hj⟩ | ⟨k, bv, j, hk, hj⟩
  · rw [hvotes] at hj
    by_cases hji : j = i
    · subst hji
      rw [Function.update_self] at hj
      exact .inr (Option.some.inj hj).symm
    · rw [Function.update_of_ne hji] at hj
      exact .inl (.inl ⟨j, hj⟩)
  · exact .inl (.inr ⟨k, bv, j, hby ▸ hk, hj⟩)

theorem BlockVotes.votes_addVerifiedVote {n : Nat} {bv : BlockVotes S n} {i j : Fin n} {vote v : Vote S}
    {pw : Int} (h : (bv.addVerifiedVote i vote pw).votes j = some v) : bv.votes j = some v ∨ v = vote := by
  unfold BlockVotes.addVerifiedVote at h
  cases hi : bv.votes i with
  | none =>
      rw [hi] at h
      by_cases hji : j = i
      · subst hji
        simp only [Function.update_self, Option.some.injEq] at h
        exact .inr h.symm
      · simp only [Function.update_of_ne hji] at h
        exact .inl h
  | some _ =>
      rw [hi] at h
      exact .inl h

theorem addVerifiedVote_cases {vs vs' : VoteSet S voterSet} {vote : Vote S} {i : Fin voterSet.size}
    {key : Bytes} {pw : Int} {r : Bool × Option (Vote S)}
    (h : vs.addVerifiedVote vote i key pw = some (r, vs')) :
    ∃ conflicting vs₁, vs.addCanonicalVote vote i key pw = some (conflicting, vs₁) ∧
      (vs' = vs₁ ∨
        vs₁.addBlockVote vote i key pw ((vs₁.votesByBlock key).getD (newBlockVotes false)) = some vs') := by
  unfold VoteSet.addVerifiedVote at h
  cases hc : vs.addCanonicalVote vote i key pw with
  | none => rw [hc] at h; cases h
  | some res =>
      obtain ⟨conflicting, vs₁⟩ := res
      rw [hc] at h
      refine ⟨conflicting, vs₁, rfl, ?_⟩
      simp only at h
      -- a conflict the set does not track stops before the votes for the key
      cases hb : vs₁.votesByBlock key with
      | some bv =>
          rw [hb] at h
          simp only at h
          split_ifs at h
          · exact .inl (Prod.mk.inj (Option.some.inj h)).2.symm
          · obtain ⟨vs₂, h₂, hr⟩ := Option.map_eq_some_iff.mp h
            rw [Option.getD_some, ← (Prod.mk.inj hr).2]
            exact .inr h₂
      | none =>
          rw [hb] at h
          simp only at h
          split_ifs at h
          · exact .inl (Prod.mk.inj (Option.some.inj h)).2.symm
          · obtain ⟨vs₂, h₂, hr⟩ := Option.map_eq_some_iff.mp h
            rw [Option.getD_none, ← (Prod.mk.inj hr).2]
            exact .inr h₂

section Signed

variable {c : Primitives K CanonicalVote S} {vs₀ : VoteSet S voterSet}

theorem SignedVotes.init {chainID : String} {height round : Int} {type : SignedMsgType}
    (hnew : newVoteSet chainID height round type voterSet = some vs₀) : SignedVotes c vs₀ vs₀ := by
  have hvs₀ := hnew
  unfold newVoteSet at hvs₀
  split_ifs at hvs₀
  obtain rfl := Option.some.inj hvs₀
  refine ⟨rfl, rfl, rfl, rfl, ?_, fun _ h => by simp at h⟩
  rintro v (⟨i, hi⟩ | ⟨k, bv, i, hk, -⟩)
  · simp at hi
  · simp at hk

theorem SignedVotes.addCanonicalVote {vs vs₁ : VoteSet S voterSet} (hs : SignedVotes c vs₀ vs)
    {vote : Vote S} {i : Fin voterSet.size} {pw : Int} {conflicting : Option (Vote S)}
    (hvote : ∃ j, ValidVote c vs₀ j vote) (hget : vs.getVote i vote.blockID.key = none)
    (h : vs.addCanonicalVote vote i vote.blockID.key pw = some (conflicting, vs₁)) :
    SignedVotes c vs₀ vs₁ ∧ vs₁.votesByBlock = vs.votesByBlock ∧ vs₁.maj23 = vs.maj23 := by
  have hvalid : ∀ vs' : VoteSet S voterSet, vs'.votesByBlock = vs.votesByBlock →
      vs'.votes = Function.update vs.votes i (some vote) → ∀ v, vs'.Holds v → ∃ j, ValidVote c vs₀ j v := by
    intro vs' hby hvotes v hv
    rcases VoteSet.Holds.of_update hby hvotes hv with hv | rfl
    · exact hs.valid v hv
    · exact hvote
  rcases addCanonicalVote_cases h with ⟨hnone, -, rfl⟩ | ⟨existing, hex, -, ⟨hmaj, rfl⟩ | ⟨-, rfl⟩⟩
  · refine ⟨⟨hs.chainID_eq, hs.height_eq, hs.round_eq, hs.type_eq, hvalid _ rfl rfl, fun B hB => ?_⟩,
      rfl, rfl⟩
    -- the voter had no canonical vote, so the vote that set the block is another's
    obtain ⟨j, w, hw, hwB⟩ := hs.maj23_canonical B hB
    have hji : j ≠ i := fun hji => by rw [hji, hnone] at hw; cases hw
    exact ⟨j, w, by simp [Function.update_of_ne hji, hw], hwB⟩
  · refine ⟨⟨hs.chainID_eq, hs.height_eq, hs.round_eq, hs.type_eq, hvalid _ rfl rfl, fun B hB => ?_⟩,
      rfl, rfl⟩
    -- the replaced vote is for another key than the two-thirds block's, which
    -- the voter has no vote for
    obtain ⟨j, w, hw, hwB⟩ := hs.maj23_canonical B hB
    have hji : j ≠ i := by
      rintro rfl
      rw [hex] at hw
      obtain rfl := Option.some.inj hw
      have hkey : B.key = vote.blockID.key := by
        rw [show vs.maj23 = some B from hB, Option.map_some] at hmaj
        exact Option.some.inj hmaj
      exact (getVote_eq_none hget).1 existing hex (hwB ▸ hkey)
    exact ⟨j, w, by simp [Function.update_of_ne hji, hw], hwB⟩
  · exact ⟨hs, rfl, rfl⟩

/-- Counting a valid vote for its key keeps what a signed set keeps: the
copied votes are the old ones for the key and the vote, which crossed the
quorum. -/
theorem SignedVotes.addBlockVote {vs₁ vs₂ : VoteSet S voterSet} (hs : SignedVotes c vs₀ vs₁)
    {vote : Vote S} {i : Fin voterSet.size} {key : Bytes} {pw : Int} {bv : BlockVotes S voterSet.size}
    (hvote : ∃ j, ValidVote c vs₀ j vote) (hbv : ∀ j w, bv.votes j = some w → vs₁.Holds w)
    (hbvi : bv.votes i = none) (h : vs₁.addBlockVote vote i key pw bv = some vs₂) :
    SignedVotes c vs₀ vs₂ := by
  obtain ⟨q, -, hcases⟩ := addBlockVote_cases h
  have hbv' : ∀ j w, (bv.addVerifiedVote i vote pw).votes j = some w → ∃ j', ValidVote c vs₀ j' w := by
    intro j w hw
    rcases BlockVotes.votes_addVerifiedVote hw with hw | rfl
    · exact hs.valid w (hbv j w hw)
    · exact hvote
  have hby : ∀ k bv'' j w,
      Function.update vs₁.votesByBlock key (some (bv.addVerifiedVote i vote pw)) k = some bv'' →
      bv''.votes j = some w → ∃ j', ValidVote c vs₀ j' w := by
    intro k bv'' j w hk hw
    by_cases hkk : k = key
    · subst hkk
      rw [Function.update_self] at hk
      exact hbv' j w (Option.some.inj hk ▸ hw)
    · rw [Function.update_of_ne hkk] at hk
      exact hs.valid w (.inr ⟨k, bv'', j, hk, hw⟩)
  rcases hcases with ⟨-, rfl⟩ | ⟨-, -, -, rfl⟩
  · refine ⟨hs.chainID_eq, hs.height_eq, hs.round_eq, hs.type_eq, ?_, hs.maj23_canonical⟩
    rintro w (⟨j, hj⟩ | ⟨k, bv'', j, hk, hj⟩)
    · exact hs.valid w (.inl ⟨j, hj⟩)
    · exact hby k bv'' j w hk hj
  · refine ⟨hs.chainID_eq, hs.height_eq, hs.round_eq, hs.type_eq, ?_, fun B hB => ?_⟩
    · rintro w (⟨j, hj⟩ | ⟨k, bv'', j, hk, hj⟩)
      · -- a canonical vote is a copied vote for the key or an old one
        dsimp only at hj
        cases hjv : (bv.addVerifiedVote i vote pw).votes j with
        | some w' =>
            rw [hjv, Option.some_or] at hj
            exact hbv' j w (hjv.trans hj)
        | none =>
            rw [hjv, Option.none_or] at hj
            exact hs.valid w (.inl ⟨j, hj⟩)
      · exact hby k bv'' j w hk hj
    · -- the vote that crossed the quorum is copied into the canonical votes
      obtain rfl := Option.some.inj hB
      refine ⟨i, vote, ?_, rfl⟩
      simp [BlockVotes.addVerifiedVote_of_none vote pw hbvi]

theorem SignedVotes.addVerifiedVote {vs vs' : VoteSet S voterSet} (hs : SignedVotes c vs₀ vs)
    {vote : Vote S} {i : Fin voterSet.size} {pw : Int} {r : Bool × Option (Vote S)}
    (hvote : ∃ j, ValidVote c vs₀ j vote) (hget : vs.getVote i vote.blockID.key = none)
    (h : vs.addVerifiedVote vote i vote.blockID.key pw = some (r, vs')) : SignedVotes c vs₀ vs' := by
  obtain ⟨conflicting, vs₁, hcan, hcases⟩ := addVerifiedVote_cases h
  obtain ⟨hs₁, hby, -⟩ := hs.addCanonicalVote hvote hget hcan
  rcases hcases with rfl | h₂
  · exact hs₁
  · refine hs₁.addBlockVote hvote (fun j w hw => ?_) ?_ h₂
    · cases hb : vs₁.votesByBlock vote.blockID.key with
      | none =>
          rw [hb] at hw
          simp [newBlockVotes] at hw
      | some bv =>
          rw [hb] at hw
          exact .inr ⟨_, bv, j, hb, hw⟩
    · cases hb : vs₁.votesByBlock vote.blockID.key with
      | none => rfl
      | some bv => exact (getVote_eq_none hget).2 bv (hby ▸ hb)

theorem SignedVotes.setPeerMaj23 {vs : VoteSet S voterSet} (hs : SignedVotes c vs₀ vs) (peerID : P2PID)
    (blockID : BlockID) : SignedVotes c vs₀ (vs.setPeerMaj23 peerID blockID).2 := by
  rcases setPeerMaj23_cases vs peerID blockID with h | ⟨bv, h, hbv⟩ | h <;> rw [h]
  · exact hs
  · refine ⟨hs.chainID_eq, hs.height_eq, hs.round_eq, hs.type_eq, ?_, hs.maj23_canonical⟩
    rintro w (⟨j, hj⟩ | ⟨k, bv', j, hk, hj⟩)
    · exact hs.valid w (.inl ⟨j, hj⟩)
    · dsimp only at hk
      by_cases hkk : k = blockID.key
      · subst hkk
        rw [Function.update_self] at hk
        obtain rfl := Option.some.inj hk
        rcases hbv with ⟨bv₀, hbv₀, rfl⟩ | ⟨-, rfl⟩
        · exact hs.valid w (.inr ⟨_, bv₀, j, hbv₀, hj⟩)
        · simp [newBlockVotes] at hj
      · rw [Function.update_of_ne hkk] at hk
        exact hs.valid w (.inr ⟨k, bv', j, hk, hj⟩)
  · exact ⟨hs.chainID_eq, hs.height_eq, hs.round_eq, hs.type_eq, hs.valid, hs.maj23_canonical⟩

variable [DecidableEq S]

theorem SignedVotes.addVote {vs vs' : VoteSet S voterSet} (hs : SignedVotes c vs₀ vs) {vote : Vote S}
    {r : Bool × Option (VoteSetError S)} (h : vs.addVote c vote = some (r, vs')) :
    SignedVotes c vs₀ vs' := by
  rcases addVoteWith_cases_checked h with ⟨rfl, -⟩ | ⟨i, hchk, hget, added, conflicting, hadd, -⟩
  · exact hs
  · have hvote : ValidVote c vs₀ i vote :=
      hchk.valid.of_header hs.chainID_eq.symm hs.height_eq.symm hs.round_eq.symm hs.type_eq.symm
    exact hs.addVerifiedVote ⟨i, hvote⟩ hget hadd

theorem SignedVotes.run {vs vs' : VoteSet S voterSet} (hs : SignedVotes c vs₀ vs)
    {calls : List (VoteSetCall S)} (hcalls : ∀ vote, VoteSetCall.addAggregatedVote vote ∉ calls)
    (h : vs.run c calls = some vs') : SignedVotes c vs₀ vs' := by
  -- induction on the calls, none of which adds a vote without its signature check
  induction calls generalizing vs with
  | nil =>
      obtain rfl := Option.some.inj h
      exact hs
  | cons call calls ih =>
      obtain ⟨vs₁, h₁, h⟩ := Option.bind_eq_some_iff.mp h
      have hrest : ∀ vote, VoteSetCall.addAggregatedVote vote ∉ calls :=
        fun vote hmem => hcalls vote (List.mem_cons_of_mem _ hmem)
      refine ih ?_ hrest h
      cases call with
      | addVote vote =>
          obtain ⟨⟨r, vs₂⟩, hadd, rfl⟩ := Option.map_eq_some_iff.mp h₁
          exact hs.addVote hadd
      | addAggregatedVote vote => exact absurd List.mem_cons_self (hcalls vote)
      | setPeerMaj23 peerID blockID =>
          obtain rfl := Option.some.inj h₁
          exact hs.setPeerMaj23 peerID blockID

end Signed

/-! ## What `MakeCommit` makes -/

theorem forall₂_of_mapM_eq_some {α β : Type} {f : α → Option β} :
    ∀ {l : List α} {l' : List β}, l.mapM f = some l' → List.Forall₂ (fun a b => f a = some b) l l'
  | [], l', h => by
      rw [List.mapM_nil] at h
      obtain rfl := Option.some.inj h
      exact .nil
  | a :: l, l', h => by
      rw [List.mapM_cons] at h
      obtain ⟨b, hb, h⟩ := Option.bind_eq_some_iff.mp h
      obtain ⟨bs, hbs, h⟩ := Option.bind_eq_some_iff.mp h
      obtain rfl := Option.some.inj h
      exact .cons hb (forall₂_of_mapM_eq_some hbs)

theorem makeCommit_eq_some {c : Primitives K CanonicalVote S} {vs : VoteSet S voterSet} {commit : Commit S}
    (h : vs.makeCommit c = some commit) :
    vs.signedMsgType = .precommit ∧ ∃ b sigs, vs.maj23 = some b ∧
      List.Forall₂ (fun o cs => VoteSet.makeCommitSig b o = some cs) (List.ofFn vs.votes) sigs ∧
      aggregateLoop c none sigs = .ok (commit.aggregatedSignature, commit.signatures) ∧
      commit.height = vs.height ∧ commit.round = vs.round ∧ commit.blockID = b := by
  unfold VoteSet.makeCommit at h
  split_ifs at h with htype
  refine ⟨not_not.mp htype, ?_⟩
  cases hm : vs.maj23 with
  | none => rw [hm] at h; cases h
  | some b =>
      rw [hm] at h
      obtain ⟨sigs, hsigs, h⟩ := Option.bind_eq_some_iff.mp h
      simp only [Commit.aggregateSignatures] at h
      cases hagg : aggregateLoop c none sigs with
      | error e => simp [hagg] at h
      | ok res =>
          obtain ⟨aggr, sigs'⟩ := res
          simp only [hagg] at h
          obtain rfl := Option.some.inj h
          exact ⟨b, sigs, rfl, forall₂_of_mapM_eq_some hsigs, hagg, rfl, rfl, rfl⟩

theorem makeCommitSig_none {B : BlockID} {cs : CommitSig S} (h : VoteSet.makeCommitSig B none = some cs) :
    cs.absent = true := by
  simp only [VoteSet.makeCommitSig, Vote.commitSig, CommitSig.absentSig, CommitSig.absent,
    CommitSig.forBlock] at h
  simp at h
  rw [← h]
  rfl

/-- What `MakeCommit` keeps of a voter's vote `v`: its block ID is complete or
zero; a vote for another complete block is made absent, and the others keep
their address, timestamp and signature, which is there. -/
theorem makeCommitSig_some {B : BlockID} {v : Vote S} {cs : CommitSig S}
    (h : VoteSet.makeCommitSig B (some v) = some cs) :
    (v.blockID.isComplete = true ∨ v.blockID.isZero = true) ∧
      (cs.absent = true ∧ v.blockID ≠ B ∨
        cs.absent = false ∧ v.signature.isSome ∧ cs.blockID B = v.blockID ∧
          cs.validatorAddress = v.validatorAddress ∧ cs.timestamp = v.timestamp ∧ cs.signature = v.signature) := by
  unfold VoteSet.makeCommitSig at h
  obtain ⟨cs₀, hcs₀, h⟩ := Option.bind_eq_some_iff.mp h
  simp only [Vote.commitSig] at hcs₀
  -- a vote without a signature is refused whatever its block
  by_cases hsig : v.signature.isNone = true
  · split_ifs at hcs₀ <;> obtain rfl := Option.some.inj hcs₀ <;> simp [CommitSig.absent, hsig] at h
  have hsome : v.signature.isSome = true := Option.isSome_iff_ne_none.mpr (by simpa using hsig)
  split_ifs at hcs₀ with hc hz
  · -- a vote for a complete block: kept when it is for `B`
    obtain rfl := Option.some.inj hcs₀
    refine ⟨.inl hc, ?_⟩
    by_cases hB : v.blockID = B
    · simp [CommitSig.absent, CommitSig.forBlock, hsig, hB] at h
      subst h
      exact .inr ⟨rfl, hsome, hB.symm, rfl, rfl, rfl⟩
    · simp only [CommitSig.absent, CommitSig.forBlock, hsig] at h
      simp [hB] at h
      subst h
      exact .inl ⟨rfl, hB⟩
  · -- a nil vote: kept
    obtain rfl := Option.some.inj hcs₀
    refine ⟨.inr hz, ?_⟩
    simp only [CommitSig.absent, CommitSig.forBlock, hsig] at h
    simp at h
    subst h
    refine .inr ⟨rfl, hsome, ?_, rfl, rfl, rfl⟩
    rw [BlockID.eq_zero_of_isZero hz]
    rfl

theorem getVote_eq_of_commitSig {commit : Commit S} {idx : Nat} {cs : CommitSig S} {v : Vote S}
    (htype : v.type = .precommit) (hheight : v.height = commit.height) (hround : v.round = commit.round)
    (hidx : v.validatorIndex = idx) (hblock : cs.blockID commit.blockID = v.blockID)
    (haddr : cs.validatorAddress = v.validatorAddress) (htime : cs.timestamp = v.timestamp)
    (hsig : cs.signature = v.signature) : commit.getVote idx cs = v := by
  obtain ⟨type, height, round, blockID, timestamp, address, index, signature⟩ := v
  simp only at htype hheight hround hidx hblock haddr htime hsig
  subst htype hheight hround hidx
  simp only [Commit.getVote, hblock, haddr, htime, hsig]

/-! ## `AggregateSignatures` -/

/-- An entry after `AggregateSignatures`: the signature of BLS size of an
entry that is not absent has moved into the aggregate. -/
def clearBls (c : Primitives K CanonicalVote S) (cs : CommitSig S) : CommitSig S :=
  match cs.signature with
  | some sig => if !cs.absent && c.sigLen sig == blsSignatureSize then { cs with signature := none } else cs
  | none => cs

section Aggregate

variable {c : Primitives K CanonicalVote S}

theorem exists_of_bind_eq_ok {ε α β : Type} {x : Except ε α} {f : α → Except ε β} {b : β}
    (h : x >>= f = .ok b) : ∃ a, x = .ok a ∧ f a = .ok b := by
  cases x with
  | error e => cases h
  | ok a => exact ⟨a, rfl, h⟩

theorem blsAdd_of_addSignature {a sig a' : S} (h : addSignature c a sig = .ok a') : c.blsAdd a sig = some a' := by
  unfold addSignature at h
  split_ifs at h
  cases hadd : c.blsAdd a sig with
  | none => rw [hadd] at h; cases h
  | some x => rw [hadd] at h; cases h; rfl

theorem aggregateOne_of_absent {cs : CommitSig S} (h : cs.absent = true) (aggr : Option S) :
    aggregateOne c aggr cs = .ok (aggr, cs) := by
  unfold aggregateOne
  cases cs.signature with
  | none => rfl
  | some sig => simp [h]

theorem clearBls_of_absent {cs : CommitSig S} (h : cs.absent = true) : clearBls c cs = cs := by
  unfold clearBls
  cases cs.signature with
  | none => rfl
  | some sig => simp [h]

theorem clearBls_of_signature {cs : CommitSig S} {sig : S} (hsig : cs.signature = some sig)
    (habsent : cs.absent = false) :
    clearBls c cs = if c.sigLen sig = blsSignatureSize then { cs with signature := none } else cs := by
  unfold clearBls
  rw [hsig]
  simp [habsent]

/-- One step of `AggregateSignatures` on an entry with a signature: one of
BLS size moves into the aggregate, which it starts or is added to, and any
other stays. -/
theorem aggregateOne_of_signature {aggr aggr₁ : Option S} {cs cs₁ : CommitSig S} {sig : S}
    (hsig : cs.signature = some sig) (habsent : cs.absent = false)
    (h : aggregateOne c aggr cs = .ok (aggr₁, cs₁)) :
    (c.sigLen sig = blsSignatureSize ∧ cs₁ = { cs with signature := none } ∧
        (aggr = none ∧ aggr₁ = some sig ∨ ∃ a a', aggr = some a ∧ c.blsAdd a sig = some a' ∧ aggr₁ = some a')) ∨
      (c.sigLen sig ≠ blsSignatureSize ∧ cs₁ = cs ∧ aggr₁ = aggr) := by
  unfold aggregateOne at h
  rw [hsig] at h
  simp only [habsent, Bool.not_false, Bool.true_and, beq_iff_eq] at h
  split_ifs at h with hlen
  · left
    refine ⟨hlen, ?_⟩
    cases aggr with
    | none =>
        obtain ⟨rfl, rfl⟩ := Prod.mk.inj (Except.ok.inj h)
        exact ⟨rfl, .inl ⟨rfl, rfl⟩⟩
    | some a =>
        obtain ⟨a', ha', h⟩ := exists_of_bind_eq_ok h
        obtain ⟨rfl, rfl⟩ := Prod.mk.inj (Except.ok.inj h)
        cases hadd : addSignature c a sig with
        | error e => rw [hadd] at ha'; cases ha'
        | ok x =>
            rw [hadd] at ha'
            have hx : x = a' := Except.ok.inj ha'
            subst hx
            exact ⟨rfl, .inr ⟨a, x, rfl, blsAdd_of_addSignature hadd, rfl⟩⟩
  · obtain ⟨rfl, rfl⟩ := Prod.mk.inj (Except.ok.inj h)
    exact .inr ⟨hlen, rfl, rfl⟩

theorem aggregateOne_snd {aggr aggr₁ : Option S} {cs cs₁ : CommitSig S}
    (h : aggregateOne c aggr cs = .ok (aggr₁, cs₁)) : cs₁ = clearBls c cs := by
  cases hsig : cs.signature with
  | none =>
      unfold aggregateOne at h
      unfold clearBls
      rw [hsig] at h ⊢
      exact (Prod.mk.inj (Except.ok.inj h)).2.symm
  | some sig =>
      cases habsent : cs.absent with
      | true =>
          rw [aggregateOne_of_absent habsent] at h
          rw [clearBls_of_absent habsent]
          exact (Prod.mk.inj (Except.ok.inj h)).2.symm
      | false =>
          rw [clearBls_of_signature hsig habsent]
          rcases aggregateOne_of_signature hsig habsent h with ⟨hlen, rfl, -⟩ | ⟨hlen, rfl, -⟩
          · rw [if_pos hlen]
          · rw [if_neg hlen]

theorem aggregateLoop_cons {aggr aggr' : Option S} {cs : CommitSig S} {rest L' : List (CommitSig S)}
    (h : aggregateLoop c aggr (cs :: rest) = .ok (aggr', L')) :
    ∃ aggr₁ cs₁ rest', aggregateOne c aggr cs = .ok (aggr₁, cs₁) ∧
      aggregateLoop c aggr₁ rest = .ok (aggr', rest') ∧ L' = cs₁ :: rest' := by
  unfold aggregateLoop at h
  obtain ⟨⟨aggr₁, cs₁⟩, h₁, h⟩ := exists_of_bind_eq_ok h
  obtain ⟨⟨aggr₂, rest'⟩, h₂, h⟩ := exists_of_bind_eq_ok h
  obtain ⟨rfl, rfl⟩ := Prod.mk.inj (Except.ok.inj h)
  exact ⟨aggr₁, cs₁, rest', h₁, h₂, rfl⟩

theorem aggregateLoop_snd {aggr aggr' : Option S} :
    ∀ {L L' : List (CommitSig S)}, aggregateLoop c aggr L = .ok (aggr', L') → L' = L.map (clearBls c)
  | [], L', h => by
      obtain ⟨-, rfl⟩ := Prod.mk.inj (Except.ok.inj h)
      rfl
  | cs :: rest, L', h => by
      obtain ⟨aggr₁, cs₁, rest', h₁, h₂, rfl⟩ := aggregateLoop_cons h
      rw [aggregateOne_snd h₁, aggregateLoop_snd h₂, List.map_cons]

end Aggregate

/-! ## The loop of `CommitToVoteSet` -/

section Loop

variable [DecidableEq S] {c : Primitives K CanonicalVote S} {chainID : String} {commit : Commit S}
  {idx : Nat} {commitSig : CommitSig S} {rest : List (CommitSig S)} {vs vs' : VoteSet S voterSet}
  {batch : BlsBatch K}

theorem commitToVoteSetLoop_absent (h : commitSig.absent = true) :
    commitToVoteSetLoop c chainID commit idx (commitSig :: rest) vs batch =
      commitToVoteSetLoop c chainID commit (idx + 1) rest vs batch := by
  simp [commitToVoteSetLoop, h]

theorem commitToVoteSetLoop_addVote (h : commitSig.absent = false) (hsig : commitSig.signature.isSome = true)
    (hadd : vs.addVote c (commit.getVote idx commitSig) = some ((true, none), vs')) :
    commitToVoteSetLoop c chainID commit idx (commitSig :: rest) vs batch =
      commitToVoteSetLoop c chainID commit (idx + 1) rest vs' batch := by
  have hsig' : (commit.getVote idx commitSig).signature.isSome = true := hsig
  simp only [commitToVoteSetLoop, h, Bool.false_eq_true, if_false, hsig', if_true, hadd]

theorem commitToVoteSetLoop_addAggregatedVote (h : commitSig.absent = false)
    (hsig : commitSig.signature = none)
    (hadd : vs.addAggregatedVote c (commit.getVote idx commitSig) = some ((true, none), vs'))
    (hidx : idx < voterSet.voters.length) (haddr : voterSet.voters[idx].address ≠ []) {blsPubKey : K}
    (hkey : getSignatureKey voterSet.voters[idx].pubKey = some blsPubKey) :
    commitToVoteSetLoop c chainID commit idx (commitSig :: rest) vs batch =
      commitToVoteSetLoop c chainID commit (idx + 1) rest vs'
        (batch.push blsPubKey ((commit.getVote idx commitSig).signBytes chainID)) := by
  have hsig' : (commit.getVote idx commitSig).signature.isSome = false := by
    simp [Commit.getVote, hsig]
  have hget : voterSet.getByIndex (commit.getVote idx commitSig).validatorIndex =
      some (voterSet.voters[idx].address, voterSet.voters[idx]) := by
    simp [VoterSet.getByIndex, Commit.getVote, hidx]
  simp only [commitToVoteSetLoop, h, Bool.false_eq_true, if_false, hsig', hadd, hget, haddr, hkey]

end Loop

/-! ## Rebuilding the set entry by entry -/

/-- The votes the rebuilt set takes from the entries from index `idx` on: the
commit's vote of each entry that is not absent. -/
def entryVotes (commit : Commit S) : Nat → List (CommitSig S) → List (Vote S)
  | _, [] => []
  | idx, cs :: rest =>
      if cs.absent then entryVotes commit (idx + 1) rest
      else commit.getVote idx cs :: entryVotes commit (idx + 1) rest

/-- The keys and messages collected so far verify with the aggregate so far,
and there are none without one. -/
def AggregateVerifies (c : Primitives K CanonicalVote S) (aggr : Option S) (batch : BlsBatch K) : Prop :=
  batch.blsPubKeys.length = batch.messages.length ∧
    match aggr with
    | none => batch.blsPubKeys = []
    | some a => c.blsVerifyAggregate a batch.blsPubKeys batch.messages = true

/-- An entry of the commit before aggregation, at index `idx`: absent, or with
the commit's vote at `idx` valid for the fresh set `vs₀`. -/
def GoodEntry (c : Primitives K CanonicalVote S) (vs₀ : VoteSet S voterSet) (commit : Commit S) (idx : Nat)
    (cs : CommitSig S) : Prop :=
  cs.absent = true ∨ ∃ h : idx < voterSet.size, ValidVote c vs₀ ⟨idx, h⟩ (commit.getVote idx cs)

theorem Vote.verify_eq_ok {c : Primitives K CanonicalVote S} {chainID : String} {pubKey : PubKey K}
    {v : Vote S} (h : v.verify c chainID pubKey = some (.ok ())) :
    c.address pubKey = v.validatorAddress ∧
      ∃ sig, v.signature = some sig ∧ pubKey.verifySignature c (v.signBytes chainID) sig = true := by
  unfold Vote.verify at h
  by_cases haddr : c.address pubKey ≠ v.validatorAddress
  · rw [if_pos haddr] at h
    cases h
  rw [if_neg haddr] at h
  refine ⟨not_not.mp haddr, ?_⟩
  obtain ⟨_, -, h⟩ := Option.map_eq_some_iff.mp h
  cases hs : v.signature with
  | none => rw [hs] at h; cases h
  | some sig =>
      rw [hs] at h
      simp only at h
      split_ifs at h with hv
      exact ⟨sig, rfl, hv⟩

theorem AggregateVerifies.push {c : Primitives K CanonicalVote S} (hc : SoundPrimitives c) {aggr aggr₁ : Option S}
    {batch : BlsBatch K} (h : AggregateVerifies c aggr batch) {key : K} {msg : CanonicalVote} {sig : S}
    (hleaf : c.verifyLeaf .bls key msg sig = true)
    (hagg : aggr = none ∧ aggr₁ = some sig ∨ ∃ a a', aggr = some a ∧ c.blsAdd a sig = some a' ∧ aggr₁ = some a') :
    AggregateVerifies c aggr₁ (batch.push key msg) := by
  obtain ⟨hlen, hver⟩ := h
  refine ⟨by simp [BlsBatch.push, hlen], ?_⟩
  rcases hagg with ⟨rfl, rfl⟩ | ⟨a, a', rfl, hadd, rfl⟩
  · -- the first signature starts the aggregate
    have hkeys : batch.blsPubKeys = [] := hver
    have hmsgs : batch.messages = [] := List.eq_nil_of_length_eq_zero (by rw [← hlen, hkeys]; rfl)
    show c.blsVerifyAggregate sig (batch.blsPubKeys ++ [key]) (batch.messages ++ [msg]) = true
    rw [hkeys, hmsgs]
    exact hc.verifyAggregate_one hleaf
  · exact hc.verifyAggregate_add hlen hver hleaf hadd

theorem verifyAggregatedSignature_of_verifies {c : Primitives K CanonicalVote S} {aggr : Option S}
    {batch : BlsBatch K} (h : AggregateVerifies c aggr batch) :
    verifyAggregatedSignature c aggr batch.blsPubKeys batch.messages = .ok () := by
  obtain ⟨hlen, hver⟩ := h
  unfold verifyAggregatedSignature
  rw [if_neg (not_not.mpr hlen)]
  cases aggr with
  | none =>
      have hkeys : batch.blsPubKeys = [] := hver
      simp [hkeys]
  | some a =>
      have hagg : c.blsVerifyAggregate a batch.blsPubKeys batch.messages = true := hver
      simp [hagg]

section Rebuild

variable [DecidableEq S] {c : Primitives K CanonicalVote S} {chainID : String} {commit : Commit S}
  {vs₀ : VoteSet S voterSet} {q : Int} (hc : SoundPrimitives c)
  (hweight : ∀ v ∈ voterSet.voters, 0 ≤ v.votingWeight)
  (hsum : (voterSet.voters.map (·.votingWeight)).sum ≤ maxInt64)
  (hchain : vs₀.chainID = chainID) (hq : voterSet.quorum = some q)
include hc hweight hsum hchain hq

/-- The loop of `CommitToVoteSet` over the entries `AggregateSignatures` made
of good entries: each vote is taken, by `AddVote` with its signature or by
`AddAggregatedVote` without its BLS signature, whose key and message then
verify with the aggregate so far. -/
theorem commitToVoteSetLoop_of_aggregateLoop (L : List (CommitSig S)) :
    ∀ (idx : Nat) (aggr aggr' : Option S) (L' : List (CommitSig S)) (batch : BlsBatch K)
      (P : List (Vote S)) (vs : VoteSet S voterSet),
      aggregateLoop c aggr L = .ok (aggr', L') → AggregateVerifies c aggr batch →
      AddedVotes vs₀ q P vs → (∀ w ∈ P, w.validatorIndex < idx) →
      (∀ k (hk : k < L.length), GoodEntry c vs₀ commit (idx + k) L[k]) →
      ∃ vs' batch', commitToVoteSetLoop c chainID commit idx L' vs batch = some (vs', batch') ∧
        AggregateVerifies c aggr' batch' ∧ AddedVotes vs₀ q (P ++ entryVotes commit idx L') vs' := by
  -- induction on the entries before aggregation, with the aggregate, the
  -- batch and the votes taken so far
  induction L with
  | nil =>
      intro idx aggr aggr' L' batch P vs hagg hbatch hP _ _
      obtain ⟨rfl, rfl⟩ := Prod.mk.inj (Except.ok.inj hagg)
      exact ⟨vs, batch, rfl, hbatch, by simpa [entryVotes] using hP⟩
  | cons cs rest ih =>
      intro idx aggr aggr' L' batch P vs hagg hbatch hP hidx hgood
      obtain ⟨aggr₁, cs₁, rest', h₁, h₂, rfl⟩ := aggregateLoop_cons hagg
      have h0 := hgood 0 (by simp)
      rw [Nat.add_zero, List.getElem_cons_zero] at h0
      have hgood' : ∀ k (hk : k < rest.length), GoodEntry c vs₀ commit (idx + 1 + k) rest[k] := by
        intro k hk
        have hk' := hgood (k + 1) (by simp [hk])
        rwa [show idx + (k + 1) = idx + 1 + k by omega, List.getElem_cons_succ] at hk'
      have hidx' : ∀ w ∈ P ++ [commit.getVote idx cs₁], w.validatorIndex < idx + 1 := by
        intro w hw
        rcases List.mem_append.mp hw with hw | hw
        · have := hidx w hw
          omega
        · rw [List.mem_singleton.mp hw]
          simp [Commit.getVote]
      have hnew : ∀ w ∈ P, w.validatorIndex ≠ (commit.getVote idx cs₁).validatorIndex := by
        intro w hw
        have := hidx w hw
        simp only [Commit.getVote]
        omega
      cases habsent : cs.absent with
      | true =>
          -- an absent entry is skipped
          obtain ⟨rfl, rfl⟩ := Prod.mk.inj (Except.ok.inj ((aggregateOne_of_absent habsent aggr).symm.trans h₁))
          obtain ⟨vs', batch', hloop, hbatch', hadded⟩ :=
            ih (idx + 1) aggr aggr' rest' batch P vs h₂ hbatch hP
              (fun w hw => hidx' w (List.mem_append_left _ hw)) hgood'
          refine ⟨vs', batch', ?_, hbatch', ?_⟩
          · rw [commitToVoteSetLoop_absent habsent, hloop]
          · simpa [entryVotes, habsent] using hadded
      | false =>
          -- the entry's vote is valid: its signature verifies for its voter's key
          obtain ⟨hlt, hvalid⟩ := h0.resolve_left (by simp [habsent])
          obtain ⟨haddr, sig, hsig, hverify⟩ := Vote.verify_eq_ok hvalid.verify_eq
          rw [hchain] at hverify
          have hlt' : idx < voterSet.voters.length := hlt
          have hvoter : voterSet.voters[idx].address ≠ [] :=
            fun h => hvalid.address_ne_nil (hvalid.voteAt.2.trans h)
          rcases aggregateOne_of_signature hsig habsent h₁ with ⟨hlen, rfl, haggr⟩ | ⟨hlen, hcs₁, haggr₁⟩
          · -- a BLS signature: the vote comes back through `AddAggregatedVote`
            -- and its key and message join the batch
            obtain ⟨blsPubKey, hblsKey⟩ :=
              Option.isSome_iff_exists.mp ((hc.getSignatureKey_isSome_iff hverify).mpr hlen)
            have hchk : CheckedVote (fun _ pubKey =>
                some (if c.address pubKey ≠ (commit.getVote idx { cs with signature := none }).validatorAddress then
                  .error .invalidValidatorAddress else .ok ())) vs₀ ⟨idx, hlt⟩
                (commit.getVote idx { cs with signature := none }) := by
              refine ⟨hvalid.voteAt, hvalid.address_ne_nil, hvalid.height_eq, hvalid.round_eq, hvalid.type_eq, ?_⟩
              exact congrArg some (if_neg (not_not.mpr haddr))
            obtain ⟨vs₁, hadd, hadded⟩ := hP.addVoteWith_new hweight hsum hq hchk hnew
            have hleaf := verifyLeaf_of_getSignatureKey hverify hblsKey
            obtain ⟨vs', batch', hloop, hbatch', hadded'⟩ :=
              ih (idx + 1) aggr₁ aggr' rest' _ _ vs₁ h₂ (hbatch.push hc hleaf haggr) hadded hidx' hgood'
            refine ⟨vs', batch', ?_, hbatch', ?_⟩
            · rw [commitToVoteSetLoop_addAggregatedVote
                (show ({ cs with signature := none } : CommitSig S).absent = false from habsent)
                (show ({ cs with signature := none } : CommitSig S).signature = none from rfl)
                hadd hlt' hvoter hblsKey, ← hloop]
              rfl
            · have habsent₁ : ({ cs with signature := none } : CommitSig S).absent = false := habsent
              simpa [entryVotes, habsent₁] using hadded'
          · -- any other signature: the vote comes back through `AddVote`
            subst cs₁
            subst aggr₁
            obtain ⟨vs₁, hadd, hadded⟩ := hP.addVote_new hweight hsum hq hvalid hnew
            obtain ⟨vs', batch', hloop, hbatch', hadded'⟩ :=
              ih (idx + 1) _ aggr' rest' batch _ vs₁ h₂ hbatch hadded hidx' hgood'
            have hsig' : cs.signature = some sig := hsig
            refine ⟨vs', batch', ?_, hbatch', ?_⟩
            · rw [commitToVoteSetLoop_addVote habsent (by rw [hsig']; rfl) hadd, hloop]
            · simpa [entryVotes, habsent] using hadded'

end Rebuild

/-! ## The rebuilt set -/

theorem find?_entryVotes (commit : Commit S) (j : Nat) :
    ∀ (idx : Nat) (L : List (CommitSig S)),
      (entryVotes commit idx L).find? (fun v => decide (v.validatorIndex = (j : Int))) =
        if idx ≤ j then (L[j - idx]?).bind fun cs => if cs.absent then none else some (commit.getVote j cs)
        else none
  | idx, [] => by split_ifs <;> simp [entryVotes]
  | idx, cs :: rest => by
      have ih := find?_entryVotes commit j (idx + 1) rest
      rw [entryVotes]
      by_cases hj : idx = j
      · -- the entry of voter `j`: the votes after it are for later voters
        subst hj
        have hnone : (entryVotes commit (idx + 1) rest).find?
            (fun v => decide (v.validatorIndex = (idx : Int))) = none := by
          rw [ih, if_neg (by omega)]
        by_cases habs : cs.absent = true
        · simp [habs, hnone]
        · simp [habs, Commit.getVote]
      · -- an entry of another voter is skipped
        have hrest : (entryVotes commit (idx + 1) rest).find?
            (fun v => decide (v.validatorIndex = (j : Int))) =
            if idx ≤ j then ((cs :: rest)[j - idx]?).bind
              (fun cs => if cs.absent then none else some (commit.getVote j cs)) else none := by
          rw [ih]
          by_cases hle : idx ≤ j
          · rw [if_pos (by omega), if_pos hle, show j - idx = j - (idx + 1) + 1 by omega,
              List.getElem?_cons_succ]
          · rw [if_neg (by omega), if_neg hle]
        by_cases habs : cs.absent = true
        · rw [if_pos habs, hrest]
        · rw [if_neg habs, List.find?_cons_of_neg (by simp [Commit.getVote]; omega), hrest]

theorem votesOf_entryVotes (commit : Commit S) (L : List (CommitSig S)) (i : Fin voterSet.size) :
    votesOf (entryVotes commit 0 L) i =
      (L[i.val]?).bind fun cs => if cs.absent then none else some (commit.getVote i cs) := by
  unfold votesOf
  rw [find?_entryVotes, if_pos (Nat.zero_le _), Nat.sub_zero]

theorem mem_entryVotes {commit : Commit S} {v : Vote S} :
    ∀ {idx : Nat} {L : List (CommitSig S)}, v ∈ entryVotes commit idx L → ∃ j cs, v = commit.getVote j cs
  | _, [], h => by cases h
  | idx, cs :: rest, h => by
      rw [entryVotes] at h
      split_ifs at h
      · exact mem_entryVotes h
      · rcases List.mem_cons.mp h with rfl | h
        · exact ⟨idx, cs, rfl⟩
        · exact mem_entryVotes h

@[simp] theorem clearBls_absent (c : Primitives K CanonicalVote S) (cs : CommitSig S) :
    (clearBls c cs).absent = cs.absent := by
  unfold clearBls
  split
  · split_ifs <;> rfl
  · rfl

@[simp] theorem clearBls_blockID (c : Primitives K CanonicalVote S) (cs : CommitSig S) (B : BlockID) :
    (clearBls c cs).blockID B = cs.blockID B := by
  unfold clearBls
  split
  · split_ifs <;> rfl
  · rfl

theorem newVoteSet_eq_some {chainID : String} {height round : Int} {type : SignedMsgType}
    {vs : VoteSet S voterSet} (h : newVoteSet chainID height round type voterSet = some vs) :
    height ≠ 0 ∧ vs.chainID = chainID ∧ vs.height = height ∧ vs.round = round ∧ vs.signedMsgType = type := by
  unfold newVoteSet at h
  split_ifs at h with h0
  obtain rfl := Option.some.inj h
  exact ⟨h0, rfl, rfl, rfl, rfl⟩

theorem newVoteSet_exists {chainID : String} {height round : Int} {type : SignedMsgType} (h : height ≠ 0) :
    ∃ vs : VoteSet S voterSet, newVoteSet chainID height round type voterSet = some vs := by
  unfold newVoteSet
  rw [if_neg h]
  exact ⟨_, rfl⟩

section Entries

variable {c : Primitives K CanonicalVote S} {vs₀ vs T₀ : VoteSet S voterSet} {commit : Commit S}
  {B : BlockID} {i : Fin voterSet.size} {cs : CommitSig S} {v : Vote S}

/-- The entry `MakeCommit` makes of a signed set's canonical vote: absent, or
the commit's vote at it is the set's vote, valid for a fresh set `T₀` of the
same chain, height, round and type. -/
theorem makeCommitSig_entry (hs : SignedVotes c vs₀ vs) (hinv : vs.Inv)
    (hT : T₀.chainID = vs₀.chainID ∧ T₀.height = vs₀.height ∧ T₀.round = vs₀.round ∧
      T₀.signedMsgType = vs₀.signedMsgType)
    (htype : vs₀.signedMsgType = .precommit) (hheight : commit.height = vs.height)
    (hround : commit.round = vs.round) (hblock : commit.blockID = B)
    (h : VoteSet.makeCommitSig B (vs.votes i) = some cs) :
    cs.absent = true ∨
      ∃ v, vs.votes i = some v ∧ cs.absent = false ∧ commit.getVote i cs = v ∧ ValidVote c T₀ i v := by
  cases hv : vs.votes i with
  | none =>
      rw [hv] at h
      exact .inl (makeCommitSig_none h)
  | some v =>
      rw [hv] at h
      obtain ⟨-, ⟨habs, -⟩ | ⟨habs, -, hblk, haddr, htime, hsig⟩⟩ := makeCommitSig_some h
      · exact .inl habs
      · -- the vote is valid for the set it was added to, at its voter's index
        obtain ⟨j, hvj⟩ := hs.valid v (.inl ⟨i, hv⟩)
        have hji : j = i := Fin.ext (by
          have h₁ := hvj.voteAt.1
          have h₂ := (hinv.votes_at i v hv).1
          omega)
        subst hji
        have hgv : commit.getVote j cs = v :=
          getVote_eq_of_commitSig (hvj.type_eq.trans htype)
            (hvj.height_eq.trans (hheight.trans hs.height_eq).symm)
            (hvj.round_eq.trans (hround.trans hs.round_eq).symm) (hinv.votes_at j v hv).1
            (hblock ▸ hblk) haddr htime hsig
        exact .inr ⟨v, rfl, habs, hgv, hvj.of_header hT.1 hT.2.1 hT.2.2.1 hT.2.2.2⟩

theorem getVote_clearBls (hc : SoundPrimitives c) (habsent : cs.absent = false)
    (hgv : commit.getVote i cs = v) (hv : ValidVote c T₀ i v) :
    commit.getVote i (clearBls c cs) =
      { v with signature := if (getSignatureKey voterSet.voters[i].pubKey).isSome then none else v.signature } := by
  obtain ⟨-, sig, hsig, hverify⟩ := Vote.verify_eq_ok hv.verify_eq
  have hcs : cs.signature = some sig := by
    rw [← hgv] at hsig
    exact hsig
  rw [clearBls_of_signature hcs habsent, ← hgv]
  by_cases hlen : c.sigLen sig = blsSignatureSize
  · rw [if_pos hlen, if_pos ((hc.getSignatureKey_isSome_iff hverify).mpr hlen)]
    rfl
  · rw [if_neg hlen, if_neg fun h => hlen ((hc.getSignatureKey_isSome_iff hverify).mp h)]

end Entries

/-! ## `CommitToVoteSet` after `MakeCommit` -/

/-- The voters of the rebuilt votes for `b` include every voter whose
canonical vote is for `b`'s key, once a commit was made with `b` as the
two-thirds block. -/
theorem votesFor_le_blockVoters {c : Primitives K CanonicalVote S} {vs : VoteSet S voterSet}
    {commit : Commit S} {b : BlockID} {sigs : List (CommitSig S)}
    (hbc : b.isComplete = true ∨ b.isZero = true) (hblock : commit.blockID = b)
    (hsigs : commit.signatures = sigs.map (clearBls c))
    (hentry : ∀ i : Fin voterSet.size, ∃ cs₀, sigs[i.val]? = some cs₀ ∧
      VoteSet.makeCommitSig b (vs.votes i) = some cs₀)
    (i : Fin voterSet.size) (hi : votesFor vs b.key i = true) :
    blockVoters (entryVotes commit 0 commit.signatures) b i = true := by
  obtain ⟨v, hv, hvk⟩ : ∃ v, vs.votes i = some v ∧ v.blockID.key = b.key := by
    unfold votesFor at hi
    cases hvi : vs.votes i with
    | none => simp [hvi] at hi
    | some v =>
        simp only [hvi, Option.any_some, decide_eq_true_eq] at hi
        exact ⟨v, rfl, hi⟩
  obtain ⟨cs₀, hcs₀, hmk⟩ := hentry i
  rw [hv] at hmk
  obtain ⟨hcv, hkept⟩ := makeCommitSig_some hmk
  -- a committable vote with `b`'s key is for `b`, so `MakeCommit` kept it
  have hvb : v.blockID = b := BlockID.eq_of_key_eq hcv hbc hvk
  rcases hkept with ⟨-, hne⟩ | ⟨habs, -, hblk, -⟩
  · exact absurd hvb hne
  · have hcs : commit.signatures[i.val]? = some (clearBls c cs₀) := by
      rw [hsigs, List.getElem?_map, hcs₀]
      rfl
    unfold blockVoters
    rw [votesOf_entryVotes, hcs]
    simp [habs, Commit.getVote, hblock, hblk, hvb]

theorem keysDistinct_entryVotes (commit : Commit S) (idx : Nat) (L : List (CommitSig S)) :
    KeysDistinct (entryVotes commit idx L) := by
  intro v hv w hw hkey
  obtain ⟨j, cs, rfl⟩ := mem_entryVotes hv
  obtain ⟨j', cs', rfl⟩ := mem_entryVotes hw
  simp only [Commit.getVote] at hkey ⊢
  rcases CommitSig.blockID_eq_or cs commit.blockID with h₁ | h₁ <;>
    rcases CommitSig.blockID_eq_or cs' commit.blockID with h₂ | h₂ <;> rw [h₁, h₂] at hkey ⊢
  · rw [zeroBlockID_key] at hkey
    exact BlockID.eq_zero_of_key_eq_nil hkey
  · rw [zeroBlockID_key] at hkey
    exact (BlockID.eq_zero_of_key_eq_nil hkey.symm).symm

/-- `CommitToVoteSet` inverts `MakeCommit`.  Take a voter set with
non-negative weights, a total of at most `MaxTotalVotingWeight` and a cache
that is empty or holds the total, and signature algorithms that check lengths
and add BLS signatures up soundly.  Take a precommit set reached from a new
set by `AddVote` and `SetPeerMaj23` calls, with two-thirds for `b`, and the
commit `MakeCommit` makes of it.  Then `CommitToVoteSet` on that commit does
not panic; the rebuilt set has two-thirds for `b`; the commit has an entry
per voter; and at each entry, the rebuilt set has no vote when the entry is
absent, and otherwise the commit's vote there, which is the set's vote at
that index without its signature when the voter signs with BLS. -/
theorem commitToVoteSet_inverts_makeCommit [DecidableEq S] {c : Primitives K CanonicalVote S}
    (hc : SoundPrimitives c) (hweight : ∀ v ∈ voterSet.voters, 0 ≤ v.votingWeight)
    (hcache : voterSet.totalVotingWeightCache = 0 ∨
      voterSet.totalVotingWeightCache = (voterSet.voters.map (·.votingWeight)).sum)
    (hmax : (voterSet.voters.map (·.votingWeight)).sum ≤ maxTotalVotingWeight)
    {chainID : String} {height round : Int} {vs₀ vs : VoteSet S voterSet}
    (hnew : newVoteSet chainID height round .precommit voterSet = some vs₀)
    {calls : List (VoteSetCall S)} (hcalls : ∀ vote, VoteSetCall.addAggregatedVote vote ∉ calls)
    (hrun : vs₀.run c calls = some vs) {b : BlockID} (hmaj : vs.twoThirdsMajority = some b)
    {commit : Commit S} (hcommit : vs.makeCommit c = some commit) :
    ∃ vs', commitToVoteSet c chainID commit voterSet = some vs' ∧ vs'.twoThirdsMajority = some b ∧
      commit.signatures.length = voterSet.size ∧
      ∀ (i : Fin voterSet.size) (cs : CommitSig S), commit.signatures[i.val]? = some cs →
        (cs.absent = true → vs'.votes i = none) ∧
        (cs.absent = false → vs'.votes i = some (commit.getVote i cs) ∧
          ∃ v, vs.votes i = some v ∧ commit.getVote i cs =
            { v with signature :=
                if (getSignatureKey voterSet.voters[i].pubKey).isSome then none else v.signature }) := by
  have htotal : 0 ≤ (voterSet.voters.map (·.votingWeight)).sum := List.sum_nonneg fun x hx => by
    obtain ⟨u, hu, rfl⟩ := List.mem_map.mp hx
    exact hweight u hu
  have hsum : (voterSet.voters.map (·.votingWeight)).sum ≤ maxInt64 := by
    unfold maxTotalVotingWeight maxTotalVotingPower at hmax
    unfold maxInt64 at hmax ⊢
    omega
  -- the set `MakeCommit` read, and the commit it made
  have hinv := (run_inv hweight hsum (newVoteSet_inv hnew) hrun).1
  have hs := (SignedVotes.init hnew).run hcalls hrun
  obtain ⟨bv, q, -, hq, -, hle⟩ := hinv.quorum_le_votesFor hweight hmaj
  obtain ⟨-, b', sigs, hb', hsigs, hagg, hheight, hround, hblock⟩ := makeCommit_eq_some hcommit
  obtain rfl : b = b' := Option.some.inj (hmaj.symm.trans hb')
  obtain ⟨h0, hchain₀, hheight₀, hround₀, htype₀⟩ := newVoteSet_eq_some hnew
  have hsigsEq : commit.signatures = sigs.map (clearBls c) := aggregateLoop_snd hagg
  obtain ⟨hlen₀, hentry₀⟩ := List.forall₂_iff_get.mp hsigs
  have hlen : sigs.length = voterSet.size := by rw [← hlen₀, List.length_ofFn]
  have hentry : ∀ i : Fin voterSet.size, ∃ cs₀, sigs[i.val]? = some cs₀ ∧
      VoteSet.makeCommitSig b (vs.votes i) = some cs₀ := by
    intro i
    have hi : i.val < sigs.length := by rw [hlen]; exact i.isLt
    refine ⟨sigs[i.val], List.getElem?_eq_getElem hi, ?_⟩
    simpa using hentry₀ i.val (by simp) hi
  -- the two-thirds block can be committed: its vote is a canonical one
  have hbc : b.isComplete = true ∨ b.isZero = true := by
    obtain ⟨j, w, hw, rfl⟩ := hs.maj23_canonical _ hmaj
    obtain ⟨cs₀, -, hmk⟩ := hentry j
    rw [hw] at hmk
    exact (makeCommitSig_some hmk).1
  -- the fresh set the rebuild starts from
  obtain ⟨T₀, hT₀⟩ : ∃ T₀ : VoteSet S voterSet,
      newVoteSet chainID commit.height commit.round .precommit voterSet = some T₀ :=
    newVoteSet_exists (by rw [hheight, hs.height_eq, hheight₀]; exact h0)
  obtain ⟨-, hchainT, hheightT, hroundT, htypeT⟩ := newVoteSet_eq_some hT₀
  have hT : T₀.chainID = vs₀.chainID ∧ T₀.height = vs₀.height ∧ T₀.round = vs₀.round ∧
      T₀.signedMsgType = vs₀.signedMsgType :=
    ⟨hchainT.trans hchain₀.symm, hheightT.trans (hheight.trans hs.height_eq),
      hroundT.trans (hround.trans hs.round_eq), htypeT.trans htype₀.symm⟩
  -- the quorum is more than half the total
  obtain rfl : q = (voterSet.voters.map (·.votingWeight)).sum * 2 / 3 + 1 :=
    Option.some.inj (hq.symm.trans (quorum_of_cache hweight hcache hmax))
  have hq0 : 0 < (voterSet.voters.map (·.votingWeight)).sum * 2 / 3 + 1 := by omega
  have hhalf : ∑ i, voterSet.weightAt i <
      ((voterSet.voters.map (·.votingWeight)).sum * 2 / 3 + 1) +
        ((voterSet.voters.map (·.votingWeight)).sum * 2 / 3 + 1) := by
    rw [show ∑ i, voterSet.weightAt i = (voterSet.voters.map (·.votingWeight)).sum from
      Fin.sum_univ_fun_getElem _ _]
    exact lt_quorum_add_quorum htotal
  -- the loop takes every entry's vote and collects what the aggregate covers
  have hgood : ∀ k (hk : k < sigs.length), GoodEntry c T₀ commit (0 + k) sigs[k] := by
    intro k hk
    obtain ⟨cs₀, hcs₀, hmk⟩ := hentry ⟨k, hlen ▸ hk⟩
    obtain rfl : sigs[k] = cs₀ := Option.some.inj ((List.getElem?_eq_getElem hk).symm.trans hcs₀)
    rw [Nat.zero_add]
    rcases makeCommitSig_entry hs hinv hT htype₀ hheight hround hblock hmk with habs | ⟨v, -, -, hgv, hvalid⟩
    · exact .inl habs
    · have hgv' : commit.getVote k sigs[k] = v := hgv
      exact .inr ⟨hlen ▸ hk, by rw [hgv']; exact hvalid⟩
  obtain ⟨vs', batch, hloop, hbatch, hadded⟩ :=
    commitToVoteSetLoop_of_aggregateLoop hc hweight hsum hchainT hq sigs 0 none commit.aggregatedSignature
      commit.signatures BlsBatch.empty [] T₀ hagg ⟨rfl, rfl⟩ (AddedVotes.init hT₀ hq0)
      (fun _ h => by cases h) hgood
  rw [List.nil_append] at hadded
  refine ⟨vs', ?_, ?_, by rw [hsigsEq, List.length_map, hlen], fun i cs hcs => ?_⟩
  · -- no panic: the aggregate verifies for what the loop collected
    have hver := verifyAggregatedSignature_of_verifies hbatch
    simp only [commitToVoteSet, hT₀, hloop, Option.bind_eq_bind, Option.bind_some]
    cases hA : commit.aggregatedSignature with
    | none => rfl
    | some A =>
        rw [hA] at hver
        simp only [hver]
  · -- the voters of `b` among the rebuilt votes reach the quorum
    apply (hadded.maj23_iff (keysDistinct_entryVotes commit 0 commit.signatures) hweight hq0 hhalf b).mpr
    calc (voterSet.voters.map (·.votingWeight)).sum * 2 / 3 + 1
        ≤ weight voterSet.weightAt (votesFor vs b.key) := hle
      _ ≤ weight voterSet.weightAt (blockVoters (entryVotes commit 0 commit.signatures) b) :=
          weight_mono (weightAt_nonneg hweight) (votesFor_le_blockVoters hbc hblock hsigsEq hentry)
  · -- the rebuilt vote at each entry
    obtain ⟨cs₀, hcs₀, hmk⟩ := hentry i
    have hcs' : cs = clearBls c cs₀ := by
      rw [hsigsEq, List.getElem?_map, hcs₀] at hcs
      exact (Option.some.inj hcs).symm
    have hvotes : vs'.votes i = if cs.absent then none else some (commit.getVote i cs) := by
      rw [hadded.votes_eq, votesOf_entryVotes, hcs]
      rfl
    refine ⟨fun habs => by rw [hvotes, if_pos habs], fun habs => ⟨by rw [hvotes, if_neg (by simp [habs])], ?_⟩⟩
    rcases makeCommitSig_entry hs hinv hT htype₀ hheight hround hblock hmk with habs₀ | ⟨v, hv, habs₀, hgv, hvalid⟩
    · rw [hcs', clearBls_absent, habs₀] at habs
      cases habs
    · exact ⟨v, hv, by rw [hcs']; exact getVote_clearBls hc habs₀ hgv hvalid⟩

/-- Four BLS voters, three precommitting the block and one nil: the set
rebuilt from the commit `MakeCommit` makes of their votes has two thirds for
the block, and the votes without their BLS signatures. -/
theorem commitToVoteSet_inverts_makeCommit_fourBlsVoters :
    SoundPrimitives idealNat ∧ (∀ v ∈ fourBlsVoters.voters, 0 ≤ v.votingWeight) ∧
      (fourBlsVoters.totalVotingWeightCache = 0 ∨
        fourBlsVoters.totalVotingWeightCache = (fourBlsVoters.voters.map (·.votingWeight)).sum) ∧
      (fourBlsVoters.voters.map (·.votingWeight)).sum ≤ maxTotalVotingWeight ∧
      newVoteSet "" 1 0 .precommit fourBlsVoters = some fourVoteSet ∧
      (∀ vote, VoteSetCall.addAggregatedVote vote ∉ precommitsWithNil) ∧
      ∃ vs commit, fourVoteSet.run idealNat precommitsWithNil = some vs ∧
        vs.twoThirdsMajority = some completeBlockID ∧ vs.makeCommit idealNat = some commit ∧
        ∃ vs', commitToVoteSet idealNat "" commit fourBlsVoters = some vs' ∧
          vs'.twoThirdsMajority = some completeBlockID ∧ commit.signatures.length = fourBlsVoters.size ∧
          ∀ (i : Fin fourBlsVoters.size) (cs : CommitSig (IdealSig Nat CanonicalVote)),
            commit.signatures[i.val]? = some cs →
            (cs.absent = true → vs'.votes i = none) ∧
            (cs.absent = false → vs'.votes i = some (commit.getVote i cs) ∧
              ∃ v, vs.votes i = some v ∧ commit.getVote i cs =
                { v with signature :=
                    if (getSignatureKey fourBlsVoters.voters[i].pubKey).isSome then none else v.signature }) := by
  have hcalls : ∀ vote, VoteSetCall.addAggregatedVote vote ∉ precommitsWithNil := by
    intro vote
    simp [precommitsWithNil]
  obtain ⟨vs, hrun⟩ := Option.isSome_iff_exists.mp
    (show (fourVoteSet.run idealNat precommitsWithNil).isSome from by decide +kernel)
  have hmaj : vs.twoThirdsMajority = some completeBlockID := by
    have h : (fourVoteSet.run idealNat precommitsWithNil).map (·.twoThirdsMajority) =
        some (some completeBlockID) := by decide +kernel
    rw [hrun] at h
    exact Option.some.inj h
  obtain ⟨commit, hcommit⟩ := Option.isSome_iff_exists.mp (show (vs.makeCommit idealNat).isSome from by
    have h : ((fourVoteSet.run idealNat precommitsWithNil).bind (·.makeCommit idealNat)).isSome := by
      decide +kernel
    rwa [hrun] at h)
  exact ⟨idealPrimitives_sound keyAddress, by decide, .inl rfl, by decide, newVoteSet_fourBlsVoters, hcalls,
    vs, commit, hrun, hmaj, hcommit,
    commitToVoteSet_inverts_makeCommit (idealPrimitives_sound keyAddress) (by decide) (.inl rfl) (by decide)
      newVoteSet_fourBlsVoters hcalls hrun hmaj hcommit⟩

end Ostracon.Types
