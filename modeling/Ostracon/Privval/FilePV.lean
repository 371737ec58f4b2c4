import Mathlib.Data.Prod.Lex
import Ostracon.Types.Vote
/-!
# The file private validator

`privval/file.go`: the last sign state, `CheckHRS`, and the signing of votes
and proposals, which reuses the last signature for a request at the height,
round and step it signed last.

* Sign bytes are values of an abstract type `B`.  A `SignBytesCodec` gives
  `protoio.MarshalDelimited` of a canonical vote or proposal, which may fail,
  and `protoio.UnmarshalDelimited` back, which fails on bytes that encode no
  such message.  Its one law: decoding an encoding gives back the message.
* The private key's `Sign` is a function `B → Except E Sig`.
* Heights, rounds and steps are integers; Go compares them as such.
* A panic is `none`.  Saving the last sign state to its file succeeds.
-/

namespace Ostracon.Types

open Ostracon.Crypto.Merkle

variable {S : Type}

/-- `tmproto.Proposal`. -/
structure Proposal (S : Type) where
  type : SignedMsgType
  height : Int
  round : Int
  polRound : Int
  blockID : BlockID
  timestamp : Int
  signature : Option S
  deriving DecidableEq, Repr

/-- `CanonicalProposal`: what a proposal signature covers. -/
structure CanonicalProposal where
  type : SignedMsgType
  height : Int
  round : Int
  polRound : Int
  blockID : Option CanonicalBlockID
  timestamp : Int
  chainID : String
  deriving DecidableEq, Repr

/-- `CanonicalizeProposal` of a proposal whose block ID `CanonicalizeBlockID`
takes; `ProposalSignBytes` is its encoding. -/
def Proposal.signBytes (chainID : String) (proposal : Proposal S) : CanonicalProposal where
  type := .proposal
  height := proposal.height
  round := proposal.round
  polRound := proposal.polRound
  blockID := canonicalBlockID proposal.blockID
  timestamp := proposal.timestamp
  chainID := chainID

end Ostracon.Types

namespace Ostracon.Privval

open Ostracon.Types

variable {B Sig E : Type}

/-! ## Sign bytes -/

/-- `protoio.MarshalDelimited` and `protoio.UnmarshalDelimited` of canonical
votes and proposals. -/
structure SignBytesCodec (B : Type) where
  encodeVote : CanonicalVote → Option B
  decodeVote : B → Option CanonicalVote
  encodeProposal : CanonicalProposal → Option B
  decodeProposal : B → Option CanonicalProposal
  decodeVote_of_encodeVote : ∀ v b, encodeVote v = some b → decodeVote b = some v
  decodeProposal_of_encodeProposal :
    ∀ p b, encodeProposal p = some b → decodeProposal b = some p

variable (codec : SignBytesCodec B)

/-- `VoteSignBytes`; `none` where it panics, on a malformed block ID or a
failed encoding. -/
def voteSignBytes (chainID : String) (vote : Vote Sig) : Option B :=
  if vote.blockID.validateBasic then codec.encodeVote (vote.signBytes chainID) else none

/-- `ProposalSignBytes`; `none` where it panics. -/
def proposalSignBytes (chainID : String) (proposal : Proposal Sig) : Option B :=
  if proposal.blockID.validateBasic then codec.encodeProposal (proposal.signBytes chainID)
  else none

/-- `checkVotesOnlyDifferByTimestamp`: the timestamp of the last vote, and
whether the two votes are equal once both timestamps are set to `now`
(`tmtime.Now()`); `none` where it panics, on bytes that decode to no vote. -/
def checkVotesOnlyDifferByTimestamp (lastSignBytes newSignBytes : B) (now : Int) :
    Option (Int × Bool) := do
  let lastVote ← codec.decodeVote lastSignBytes
  let newVote ← codec.decodeVote newSignBytes
  pure (lastVote.timestamp,
    decide ({ newVote with timestamp := now } = { lastVote with timestamp := now }))

/-- `checkProposalsOnlyDifferByTimestamp`. -/
def checkProposalsOnlyDifferByTimestamp (lastSignBytes newSignBytes : B) (now : Int) :
    Option (Int × Bool) := do
  let lastProposal ← codec.decodeProposal lastSignBytes
  let newProposal ← codec.decodeProposal newSignBytes
  pure (lastProposal.timestamp,
    decide ({ newProposal with timestamp := now } = { lastProposal with timestamp := now }))

/-! ## The last sign state -/

/-- `stepNone`, the step of a fresh state. -/
def stepNone : Int := 0

/-- `stepPropose`. -/
def stepPropose : Int := 1

/-- `stepPrevote`. -/
def stepPrevote : Int := 2

/-- `stepPrecommit`. -/
def stepPrecommit : Int := 3

/-- `voteToStep`; `none` where it panics, on a type that is no vote's. -/
def voteToStep : SignedMsgType → Option Int
  | .prevote => some stepPrevote
  | .precommit => some stepPrecommit
  | _ => none

/-- `FilePVLastSignState`, without its file path; a `nil` signature or
sign bytes is `none`. -/
structure LastSignState (B Sig : Type) where
  height : Int
  round : Int
  step : Int
  signature : Option Sig
  signBytes : Option B
  deriving DecidableEq, Repr

/-- A height, round and step, ordered lexicographically. -/
def hrs (height round step : Int) : Int ×ₗ Int ×ₗ Int := toLex (height, toLex (round, step))

/-- The height, round and step the state last signed at. -/
def LastSignState.hrs (lss : LastSignState B Sig) : Int ×ₗ Int ×ₗ Int :=
  Privval.hrs lss.height lss.round lss.step

theorem hrs_lt_iff {h r s h' r' s' : Int} :
    hrs h r s < hrs h' r' s' ↔ h < h' ∨ h = h' ∧ (r < r' ∨ r = r' ∧ s < s') := by
  simp only [hrs, Prod.Lex.toLex_lt_toLex]

theorem hrs_inj {h r s h' r' s' : Int} :
    hrs h r s = hrs h' r' s' ↔ h = h' ∧ r = r' ∧ s = s' := by
  simp only [hrs, toLex_inj, Prod.mk.injEq]

/-- The errors of `CheckHRS`. -/
inductive CheckHRSError
  /-- "height regression. Got %v, last height %v" -/
  | heightRegression (height lastHeight : Int)
  /-- "round regression at height %v. Got %v, last round %v" -/
  | roundRegression (height round lastRound : Int)
  /-- "step regression at height %v round %v. Got %v, last step %v" -/
  | stepRegression (height round step lastStep : Int)
  /-- "no SignBytes found" -/
  | noSignBytes
  deriving DecidableEq, Repr

/-- `CheckHRS`: an error on a regression, or on a repeat with no sign bytes;
`true` for a repeat whose signature is to be reused.  `none` where it panics
("pv: Signature is nil but SignBytes is not!"). -/
def LastSignState.checkHRS (lss : LastSignState B Sig) (height round step : Int) :
    Option (Except CheckHRSError Bool) :=
  if lss.height > height then some (.error (.heightRegression height lss.height))
  else if lss.height = height then
    if lss.round > round then some (.error (.roundRegression height round lss.round))
    else if lss.round = round then
      if lss.step > step then some (.error (.stepRegression height round step lss.step))
      else if lss.step = step then
        match lss.signBytes with
        | some _ => if lss.signature.isNone then none else some (.ok true)
        | none => some (.error .noSignBytes)
      else some (.ok false)
    else some (.ok false)
  else some (.ok false)

section CheckHRS

variable {lss : LastSignState B Sig} {height round step : Int}

theorem checkHRS_ok_false (h : lss.checkHRS height round step = some (.ok false)) :
    lss.hrs < hrs height round step := by
  rw [LastSignState.hrs, hrs_lt_iff]
  unfold LastSignState.checkHRS at h
  -- the branches that do not fall through return an error, a reuse or a panic
  split_ifs at h <;> (try split at h) <;> first | omega | cases h

theorem checkHRS_ok_true (h : lss.checkHRS height round step = some (.ok true)) :
    lss.hrs = hrs height round step ∧ ∃ last, lss.signBytes = some last := by
  rw [LastSignState.hrs, hrs_inj]
  unfold LastSignState.checkHRS at h
  -- only the branch of a repeat with sign bytes and a signature returns `true`
  split_ifs at h with hgt heq hrgt hreq hsgt hseq <;> (try split at h) <;> try cases h
  exact ⟨⟨heq, hreq, hseq⟩, _, ‹_›⟩

end CheckHRS

/-- `saveSigned`: the state it persists. -/
def saveSigned (height round step : Int) (signBytes : B) (sig : Sig) : LastSignState B Sig :=
  ⟨height, round, step, some sig, some signBytes⟩

/-! ## Signing -/

/-- The errors of `signVote` and `signProposal`. -/
inductive SignError (E : Type)
  /-- an error of `CheckHRS` -/
  | checkHRS (err : CheckHRSError)
  /-- "conflicting data" -/
  | conflictingData
  /-- an error of the private key's `Sign` -/
  | sign (err : E)
  deriving DecidableEq, Repr

section Family

variable [DecidableEq B] {M : Type}

/-- The body that `signVote` and `signProposal` share, after the step of the
message is known: check the height, round and step; for a repeat, reuse the
last signature if the sign bytes are the same, or with the last timestamp if
they differ only in it; else sign and save.  The result is the message as
returned, with the state `saveSigned` persisted if the key signed. -/
def signChecked (sign : B → Except E Sig) (lss : LastSignState B Sig)
    (height round step : Int) (signBytes : Option B)
    (onlyDifferByTimestamp : B → B → Option (Int × Bool))
    (setTimestamp : Int → M → M) (setSignature : Option Sig → M → M) (msg : M) :
    Option (Except (SignError E) (M × Option (LastSignState B Sig))) := do
  match ← lss.checkHRS height round step with
  | .error err => pure (.error (.checkHRS err))
  | .ok sameHRS =>
    let signBytes ← signBytes
    if sameHRS then
      if lss.signBytes = some signBytes then
        pure (.ok (setSignature lss.signature msg, none))
      else
        -- `lss.SignBytes` is set on a repeat, so the `none` here is unreachable
        let lastSignBytes ← lss.signBytes
        let (timestamp, ok) ← onlyDifferByTimestamp lastSignBytes signBytes
        if ok then pure (.ok (setSignature lss.signature (setTimestamp timestamp msg), none))
        else pure (.error .conflictingData)
    else
      match sign signBytes with
      | .error err => pure (.error (.sign err))
      | .ok sig => pure (.ok (setSignature (some sig) msg,
          some (saveSigned height round step signBytes sig)))

variable {sign : B → Except E Sig} {lss : LastSignState B Sig} {height round step : Int}
  {signBytes : Option B} {onlyDifferByTimestamp : B → B → Option (Int × Bool)}
  {setTimestamp : Int → M → M} {setSignature : Option Sig → M → M} {msg m : M}
  {saved : Option (LastSignState B Sig)}

/-- Everything a successful `signChecked` can do: sign at a later height,
round or step and save, or, at the last one, reuse the last signature for the
same sign bytes or for sign bytes that differ only in the timestamp. -/
theorem signChecked_ok
    (h : signChecked sign lss height round step signBytes onlyDifferByTimestamp setTimestamp
      setSignature msg = some (.ok (m, saved))) :
    (∃ b sig, signBytes = some b ∧ sign b = .ok sig ∧ lss.hrs < hrs height round step ∧
      saved = some (saveSigned height round step b sig) ∧ m = setSignature (some sig) msg) ∨
    (saved = none ∧ lss.hrs = hrs height round step ∧
      ∃ last b, lss.signBytes = some last ∧ signBytes = some b ∧
        (last = b ∧ m = setSignature lss.signature msg ∨
          ∃ t, onlyDifferByTimestamp last b = some (t, true) ∧
            m = setSignature lss.signature (setTimestamp t msg))) := by
  unfold signChecked at h
  obtain ⟨r, hr, hrest⟩ := Option.bind_eq_some_iff.mp h
  cases r with
  | error err => cases hrest
  | ok sameHRS =>
    obtain ⟨b, rfl, hb⟩ := Option.bind_eq_some_iff.mp hrest
    clear h hrest
    cases sameHRS with
    | false =>
      -- a later height, round or step: the key signs
      simp only [Bool.false_eq_true, if_false] at hb
      cases hsig : sign b with
      | error err => simp only [hsig] at hb; cases hb
      | ok sig =>
        simp only [hsig, pure, Option.some.injEq, Except.ok.injEq, Prod.mk.injEq] at hb
        exact .inl ⟨b, sig, rfl, hsig, checkHRS_ok_false hr, hb.2.symm, hb.1.symm⟩
    | true =>
      -- a repeat: the last signature is reused, or the request conflicts
      obtain ⟨hhrs, last, hlast⟩ := checkHRS_ok_true hr
      simp only [if_true, hlast] at hb
      refine .inr ?_
      by_cases hsame : last = b
      · subst hsame
        simp only [if_true, pure, Option.some.injEq, Except.ok.injEq, Prod.mk.injEq] at hb
        exact ⟨hb.2.symm, hhrs, last, last, hlast, rfl, .inl ⟨rfl, hb.1.symm⟩⟩
      · rw [if_neg (by simpa using hsame)] at hb
        obtain ⟨l, hl, hb⟩ := Option.bind_eq_some_iff.mp hb
        cases hl
        obtain ⟨⟨t, ok⟩, hdiff, hb⟩ := Option.bind_eq_some_iff.mp hb
        cases ok with
        | false => cases hb
        | true =>
          simp only [if_true, pure, Option.some.injEq, Except.ok.injEq, Prod.mk.injEq] at hb
          exact ⟨hb.2.symm, hhrs, last, b, hlast, rfl, .inr ⟨t, hdiff, hb.1.symm⟩⟩

theorem signChecked_keeps {α : Type} (f : M → α) (hsig : ∀ s m, f (setSignature s m) = f m)
    (hts : ∀ t m, f (setTimestamp t m) = f m)
    (h : signChecked sign lss height round step signBytes onlyDifferByTimestamp setTimestamp
      setSignature msg = some (.ok (m, saved))) :
    f m = f msg := by
  rcases signChecked_ok h with ⟨-, sig, -, -, -, -, rfl⟩ | ⟨-, -, -, -, -, -, ⟨-, rfl⟩ | ⟨t, -, rfl⟩⟩
  · exact hsig _ _
  · exact hsig _ _
  · rw [hsig, hts]

end Family

variable [DecidableEq B]

/-- `signVote`. -/
def signVote (sign : B → Except E Sig) (lss : LastSignState B Sig) (chainID : String)
    (vote : Vote Sig) (now : Int) :
    Option (Except (SignError E) (Vote Sig × Option (LastSignState B Sig))) := do
  let step ← voteToStep vote.type
  signChecked sign lss vote.height vote.round step (voteSignBytes codec chainID vote)
    (fun last new => checkVotesOnlyDifferByTimestamp codec last new now)
    (fun t v => { v with timestamp := t }) (fun s v => { v with signature := s }) vote

/-- `signProposal`. -/
def signProposal (sign : B → Except E Sig) (lss : LastSignState B Sig) (chainID : String)
    (proposal : Proposal Sig) (now : Int) :
    Option (Except (SignError E) (Proposal Sig × Option (LastSignState B Sig))) :=
  signChecked sign lss proposal.height proposal.round stepPropose
    (proposalSignBytes codec chainID proposal)
    (fun last new => checkProposalsOnlyDifferByTimestamp codec last new now)
    (fun t p => { p with timestamp := t }) (fun s p => { p with signature := s }) proposal

/-! ## Runs of requests -/

/-- A call of `FilePV.SignVote` or `FilePV.SignProposal`, with the reading of
`tmtime.Now()` it makes if it is a repeat. -/
inductive SignRequest (Sig : Type)
  | vote (chainID : String) (vote : Vote Sig) (now : Int)
  | proposal (chainID : String) (proposal : Proposal Sig) (now : Int)

/-- A signed vote or proposal as returned, with the chain ID it is for. -/
inductive Signed (Sig : Type)
  | vote (chainID : String) (vote : Vote Sig)
  | proposal (chainID : String) (proposal : Proposal Sig)

/-- The height, round and step of a message, as `signVote` and
`signProposal` compute them; `none` where `voteToStep` panics. -/
def Signed.hrs : Signed Sig → Option (Int ×ₗ Int ×ₗ Int)
  | .vote _ v => (voteToStep v.type).map (Privval.hrs v.height v.round)
  | .proposal _ p => some (Privval.hrs p.height p.round stepPropose)

/-- The message a request asks to sign, with its chain ID. -/
def SignRequest.msg : SignRequest Sig → Signed Sig
  | .vote chainID v _ => .vote chainID v
  | .proposal chainID p _ => .proposal chainID p

/-- The height, round and step a request is signed at. -/
def SignRequest.hrs (q : SignRequest Sig) : Option (Int ×ₗ Int ×ₗ Int) := q.msg.hrs

/-- A canonical vote or proposal. -/
inductive CanonicalMsg
  | vote (vote : CanonicalVote)
  | proposal (proposal : CanonicalProposal)
  deriving DecidableEq, Repr

/-- What the signature of a returned message covers: its sign bytes are the
encoding of this message, its returned timestamp included. -/
def Signed.canonical : Signed Sig → CanonicalMsg
  | .vote chainID v => .vote (v.signBytes chainID)
  | .proposal chainID p => .proposal (p.signBytes chainID)

/-- One request: the message signed, with the state saved if the key signed. -/
def signRequest (sign : B → Except E Sig) (lss : LastSignState B Sig) :
    SignRequest Sig → Option (Except (SignError E) (Signed Sig × Option (LastSignState B Sig)))
  | .vote chainID vote now =>
      (signVote codec sign lss chainID vote now).map
        (Except.map fun r => (.vote chainID r.1, r.2))
  | .proposal chainID proposal now =>
      (signProposal codec sign lss chainID proposal now).map
        (Except.map fun r => (.proposal chainID r.1, r.2))

/-- A returned signature: where it was signed, whether the key made it
(`fresh`) or it is the last one reused, and the message returned. -/
structure SignOutput (Sig : Type) where
  hrs : Int ×ₗ Int ×ₗ Int
  fresh : Bool
  signed : Signed Sig

/-- The signatures a run of requests returns, with the state saved after
each fresh one.  An error returns no signature; a panic returns none either,
and the restarted validator loads the state it saved last, which is the state
before the request. -/
def signRun (sign : B → Except E Sig) : LastSignState B Sig → List (SignRequest Sig) →
    List (SignOutput Sig)
  | _, [] => []
  | lss, q :: qs =>
      match q.hrs, signRequest codec sign lss q with
      | some point, some (.ok (signed, saved)) =>
          ⟨point, saved.isSome, signed⟩ :: signRun sign (saved.getD lss) qs
      | _, _ => signRun sign lss qs

end Ostracon.Privval
