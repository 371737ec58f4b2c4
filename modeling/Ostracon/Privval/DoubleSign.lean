import Ostracon.Privval.FilePV
/-!
# The file private validator never double-signs

Over every run of vote and proposal requests, from any last sign state:
the signatures the key makes afresh are at strictly increasing heights,
rounds and steps, and any two signatures returned at one height, round and
step cover the same canonical message, so the same sign bytes.

The argument rests on one fact per request (`Outcome`): it signs afresh at a
later point than the state, saving sign bytes that decode to the message it
returns, or it reuses the last signature at the state's own point for a
message that the last sign bytes decode to.  Decoding is by the step: sign
bytes at `stepPropose` are read as a proposal, at any other step as a vote,
as the reuse branches of `signProposal` and `signVote` read them.
-/

namespace Ostracon.Privval

open Ostracon.Types

variable {B Sig E : Type} (codec : SignBytesCodec B)

/-- The canonical message sign bytes at a step decode to. -/
def SignBytesCodec.decodeAt (step : Int) (b : B) : Option CanonicalMsg :=
  if step = stepPropose then (codec.decodeProposal b).map .proposal
  else (codec.decodeVote b).map .vote

/-- The last sign bytes of `lss` decode to `c`. -/
def LastSignState.Covers (lss : LastSignState B Sig) (c : CanonicalMsg) : Prop :=
  ∃ b, lss.signBytes = some b ∧ codec.decodeAt lss.step b = some c

theorem LastSignState.Covers.unique {lss : LastSignState B Sig} {c₁ c₂ : CanonicalMsg}
    (h₁ : lss.Covers codec c₁) (h₂ : lss.Covers codec c₂) : c₁ = c₂ := by
  obtain ⟨b₁, hb₁, hc₁⟩ := h₁
  obtain ⟨b₂, hb₂, hc₂⟩ := h₂
  rw [hb₁, Option.some.injEq] at hb₂
  rw [hb₂, hc₂, Option.some.injEq] at hc₁
  exact hc₁.symm

@[simp] theorem saveSigned_hrs (height round step : Int) (b : B) (sig : Sig) :
    (saveSigned height round step b sig).hrs = hrs height round step := rfl

theorem step_eq_of_hrs_eq {lss : LastSignState B Sig} {height round step : Int}
    (h : lss.hrs = hrs height round step) : lss.step = step :=
  (hrs_inj.mp h).2.2

/-- What a request that returned a message covering `c`, signed at `point`,
did to the last sign state `lss`: the key signed at a later point and saved a
state that covers `c`, or the state was kept and already covers `c`. -/
def Outcome (lss : LastSignState B Sig) (point : Int ×ₗ Int ×ₗ Int) (c : CanonicalMsg) :
    Option (LastSignState B Sig) → Prop
  | some lss' => lss.hrs < point ∧ lss'.hrs = point ∧ lss'.Covers codec c
  | none => lss.hrs = point ∧ lss.Covers codec c

/-! ## One request -/

theorem CanonicalVote.eq_of_timestamp_eq {c l : CanonicalVote} {now : Int}
    (h : { c with timestamp := now } = { l with timestamp := now }) :
    { c with timestamp := l.timestamp } = l := by
  cases c
  cases l
  simp_all

theorem CanonicalProposal.eq_of_timestamp_eq {c l : CanonicalProposal} {now : Int}
    (h : { c with timestamp := now } = { l with timestamp := now }) :
    { c with timestamp := l.timestamp } = l := by
  cases c
  cases l
  simp_all

theorem decodeVote_of_checkVotesOnlyDifferByTimestamp {last b : B} {now t : Int}
    {c : CanonicalVote} (h : checkVotesOnlyDifferByTimestamp codec last b now = some (t, true))
    (hb : codec.decodeVote b = some c) :
    codec.decodeVote last = some { c with timestamp := t } := by
  unfold checkVotesOnlyDifferByTimestamp at h
  obtain ⟨l, hl, h⟩ := Option.bind_eq_some_iff.mp h
  obtain ⟨n, hn, h⟩ := Option.bind_eq_some_iff.mp h
  rw [hb, Option.some.injEq] at hn
  subst hn
  simp only [pure, Option.some.injEq, Prod.mk.injEq, decide_eq_true_eq] at h
  obtain ⟨rfl, heq⟩ := h
  rw [hl, CanonicalVote.eq_of_timestamp_eq heq]

theorem decodeProposal_of_checkProposalsOnlyDifferByTimestamp {last b : B} {now t : Int}
    {c : CanonicalProposal}
    (h : checkProposalsOnlyDifferByTimestamp codec last b now = some (t, true))
    (hb : codec.decodeProposal b = some c) :
    codec.decodeProposal last = some { c with timestamp := t } := by
  unfold checkProposalsOnlyDifferByTimestamp at h
  obtain ⟨l, hl, h⟩ := Option.bind_eq_some_iff.mp h
  obtain ⟨n, hn, h⟩ := Option.bind_eq_some_iff.mp h
  rw [hb, Option.some.injEq] at hn
  subst hn
  simp only [pure, Option.some.injEq, Prod.mk.injEq, decide_eq_true_eq] at h
  obtain ⟨rfl, heq⟩ := h
  rw [hl, CanonicalProposal.eq_of_timestamp_eq heq]

section Request

variable [DecidableEq B] {M C : Type} {sign : B → Except E Sig} {lss : LastSignState B Sig}
  {height round step : Int} {signBytes : Option B}
  {onlyDifferByTimestamp : B → B → Option (Int × Bool)} {setTimestamp : Int → M → M}
  {setSignature : Option Sig → M → M} {msg m : M} {saved : Option (LastSignState B Sig)}

/-- `signChecked` for a message whose canonical form `canon` its sign bytes
decode to, at a step whose sign bytes `dec` reads: the signature covers
neither the signature nor, once the reuse branch has set it, the timestamp of
the last message. -/
theorem signChecked_outcome (dec : B → Option C) {canon : M → C} {wrap : C → CanonicalMsg}
    (hdec : ∀ b, codec.decodeAt step b = (dec b).map wrap)
    (hbytes : ∀ b, signBytes = some b → dec b = some (canon msg))
    (hsig : ∀ s m, canon (setSignature s m) = canon m)
    (hts : ∀ last b t, onlyDifferByTimestamp last b = some (t, true) →
      dec b = some (canon msg) → dec last = some (canon (setTimestamp t msg)))
    (h : signChecked sign lss height round step signBytes onlyDifferByTimestamp setTimestamp
      setSignature msg = some (.ok (m, saved))) :
    Outcome codec lss (hrs height round step) (wrap (canon m)) saved := by
  rcases signChecked_ok h with ⟨b, sig, hb, -, hlt, rfl, rfl⟩ |
    ⟨rfl, hhrs, last, b, hlast, hb, ⟨rfl, rfl⟩ | ⟨t, hdiff, rfl⟩⟩
  · -- signed afresh: the saved bytes are the message's own
    refine ⟨hlt, rfl, b, rfl, ?_⟩
    change codec.decodeAt step b = _
    rw [hdec, hsig, hbytes b hb, Option.map_some]
  · -- the same sign bytes again
    refine ⟨hhrs, last, hlast, ?_⟩
    rw [step_eq_of_hrs_eq hhrs, hdec, hsig, hbytes last hb, Option.map_some]
  · -- sign bytes that differ only in the timestamp, which is set to the last one
    refine ⟨hhrs, last, hlast, ?_⟩
    rw [step_eq_of_hrs_eq hhrs, hdec, hsig, hts last b t hdiff (hbytes b hb), Option.map_some]

theorem signVote_outcome {chainID : String} {vote v : Vote Sig} {now : Int}
    (h : signVote codec sign lss chainID vote now = some (.ok (v, saved))) :
    ∃ step, voteToStep vote.type = some step ∧
      Outcome codec lss (hrs vote.height vote.round step) (.vote (v.signBytes chainID)) saved := by
  unfold signVote at h
  obtain ⟨step, hstep, h⟩ := Option.bind_eq_some_iff.mp h
  refine ⟨step, hstep, signChecked_outcome codec codec.decodeVote ?_ ?_ ?_ ?_ h⟩
  · -- a vote's step is not `stepPropose`
    intro b
    have : step ≠ stepPropose := by
      cases htype : vote.type <;> simp [htype, voteToStep] at hstep <;> subst hstep <;> decide
    simp only [SignBytesCodec.decodeAt, if_neg this]
  · intro b hb
    unfold voteSignBytes at hb
    split at hb
    · exact codec.decodeVote_of_encodeVote _ _ hb
    · cases hb
  · intro s v
    rfl
  · intro last b t hdiff hb
    exact decodeVote_of_checkVotesOnlyDifferByTimestamp codec hdiff hb

theorem signProposal_outcome {chainID : String} {proposal p : Proposal Sig} {now : Int}
    (h : signProposal codec sign lss chainID proposal now = some (.ok (p, saved))) :
    Outcome codec lss (hrs proposal.height proposal.round stepPropose)
      (.proposal (p.signBytes chainID)) saved := by
  unfold signProposal at h
  refine signChecked_outcome codec codec.decodeProposal ?_ ?_ ?_ ?_ h
  · intro b
    simp only [SignBytesCodec.decodeAt, if_true]
  · intro b hb
    unfold proposalSignBytes at hb
    split at hb
    · exact codec.decodeProposal_of_encodeProposal _ _ hb
    · cases hb
  · intro s p
    rfl
  · intro last b t hdiff hb
    exact decodeProposal_of_checkProposalsOnlyDifferByTimestamp codec hdiff hb

theorem map_except_map_eq_ok {α β : Type} {x : Option (Except (SignError E) α)} {f : α → β}
    {y : β} (h : x.map (Except.map f) = some (.ok y)) : ∃ a, x = some (.ok a) ∧ f a = y := by
  cases x with
  | none => cases h
  | some r =>
    cases r with
    | error err => cases h
    | ok a => exact ⟨a, rfl, by simpa [Except.map] using h⟩

theorem signRequest_outcome {q : SignRequest Sig} {signed : Signed Sig} {point}
    (h : signRequest codec sign lss q = some (.ok (signed, saved))) (hq : q.hrs = some point) :
    Outcome codec lss point signed.canonical saved := by
  cases q with
  | vote chainID vote now =>
    obtain ⟨⟨v, saved'⟩, hv, hsigned⟩ := map_except_map_eq_ok h
    simp only [Prod.mk.injEq] at hsigned
    obtain ⟨rfl, rfl⟩ := hsigned
    obtain ⟨step, hstep, hout⟩ := signVote_outcome codec hv
    simp only [SignRequest.hrs, SignRequest.msg, Signed.hrs, hstep, Option.map_some,
      Option.some.injEq] at hq
    rw [← hq]
    exact hout
  | proposal chainID proposal now =>
    obtain ⟨⟨p, saved'⟩, hp, hsigned⟩ := map_except_map_eq_ok h
    simp only [Prod.mk.injEq] at hsigned
    obtain ⟨rfl, rfl⟩ := hsigned
    simp only [SignRequest.hrs, SignRequest.msg, Signed.hrs, Option.some.injEq] at hq
    rw [← hq]
    exact signProposal_outcome codec hp

theorem signRequest_hrs {q : SignRequest Sig} {signed : Signed Sig}
    (h : signRequest codec sign lss q = some (.ok (signed, saved))) : signed.hrs = q.hrs := by
  cases q with
  | vote chainID vote now =>
    obtain ⟨⟨v, saved'⟩, hv, hsigned⟩ := map_except_map_eq_ok h
    simp only [Prod.mk.injEq] at hsigned
    obtain ⟨rfl, rfl⟩ := hsigned
    unfold signVote at hv
    obtain ⟨step, -, hv⟩ := Option.bind_eq_some_iff.mp hv
    have hkeep := signChecked_keeps (fun v : Vote Sig => (v.type, v.height, v.round))
      (by intros; rfl) (by intros; rfl) hv
    simp only [Prod.mk.injEq] at hkeep
    simp only [Signed.hrs, SignRequest.hrs, SignRequest.msg, hkeep]
  | proposal chainID proposal now =>
    obtain ⟨⟨p, saved'⟩, hp, hsigned⟩ := map_except_map_eq_ok h
    simp only [Prod.mk.injEq] at hsigned
    obtain ⟨rfl, rfl⟩ := hsigned
    unfold signProposal at hp
    have hkeep := signChecked_keeps (fun p : Proposal Sig => (p.height, p.round))
      (by intros; rfl) (by intros; rfl) hp
    simp only [Prod.mk.injEq] at hkeep
    simp only [Signed.hrs, SignRequest.hrs, SignRequest.msg, hkeep]

end Request

/-! ## Runs -/

section Run

variable [DecidableEq B] (sign : B → Except E Sig) {lss : LastSignState B Sig}
  {q : SignRequest Sig} {qs : List (SignRequest Sig)}

theorem signRun_cons_ok {point} {signed : Signed Sig} {saved : Option (LastSignState B Sig)}
    (hq : q.hrs = some point) (h : signRequest codec sign lss q = some (.ok (signed, saved))) :
    signRun codec sign lss (q :: qs) =
      ⟨point, saved.isSome, signed⟩ :: signRun codec sign (saved.getD lss) qs := by
  simp only [signRun, hq, h]

theorem signRun_cons_skip
    (h : ∀ point signed saved, q.hrs = some point →
      signRequest codec sign lss q ≠ some (.ok (signed, saved))) :
    signRun codec sign lss (q :: qs) = signRun codec sign lss qs := by
  rw [signRun.eq_2]
  split
  · rename_i point signed saved hq hr
    exact absurd hr (h point signed saved hq)
  · rfl

theorem signRun_hrs : ∀ (reqs : List (SignRequest Sig)) (lss : LastSignState B Sig),
    ∀ o ∈ signRun codec sign lss reqs, o.signed.hrs = some o.hrs
  | [], _, o, ho => by simp [signRun] at ho
  | q :: qs, lss, o, ho => by
    by_cases hok : ∃ point signed saved, q.hrs = some point ∧
        signRequest codec sign lss q = some (.ok (signed, saved))
    · obtain ⟨point, signed, saved, hq, h⟩ := hok
      rw [signRun_cons_ok codec sign hq h, List.mem_cons] at ho
      rcases ho with rfl | ho
      · exact (signRequest_hrs codec h).trans hq
      · exact signRun_hrs qs _ o ho
    · simp only [not_exists, not_and] at hok
      rw [signRun_cons_skip codec sign hok] at ho
      exact signRun_hrs qs lss o ho

end Run

/-! ## The invariant of a run -/

/-- What the last sign state `lss` and the signatures `outs` returned so far
satisfy. -/
structure RunInv (lss : LastSignState B Sig) (outs : List (SignOutput Sig)) : Prop where
  /-- every signature returned is at or before the point last signed -/
  le_last : ∀ o ∈ outs, o.hrs ≤ lss.hrs
  /-- those at the point last signed cover what its sign bytes decode to -/
  covers_last : ∀ o ∈ outs, o.hrs = lss.hrs → lss.Covers codec o.signed.canonical
  /-- two signatures at one point cover one message -/
  agree : ∀ o₁ ∈ outs, ∀ o₂ ∈ outs, o₁.hrs = o₂.hrs → o₁.signed.canonical = o₂.signed.canonical
  /-- the fresh signatures are at increasing points -/
  fresh_lt : (outs.filter (·.fresh)).Pairwise fun o₁ o₂ => o₁.hrs < o₂.hrs

theorem RunInv.nil (lss : LastSignState B Sig) : RunInv codec lss [] :=
  ⟨by simp, by simp, by simp, by simp⟩

theorem RunInv.sign {lss lss' : LastSignState B Sig} {outs : List (SignOutput Sig)}
    {signed : Signed Sig} (hinv : RunInv codec lss outs) (hlt : lss.hrs < lss'.hrs)
    (hcov : lss'.Covers codec signed.canonical) :
    RunInv codec lss' (outs ++ [⟨lss'.hrs, true, signed⟩]) := by
  have hbefore : ∀ o ∈ outs, o.hrs < lss'.hrs := fun o ho => (hinv.le_last o ho).trans_lt hlt
  refine ⟨?_, ?_, ?_, ?_⟩
  · intro o ho
    rcases List.mem_append.mp ho with ho | ho
    · exact (hbefore o ho).le
    · rw [List.mem_singleton.mp ho]
  · intro o ho heq
    rcases List.mem_append.mp ho with ho | ho
    · exact absurd heq (hbefore o ho).ne
    · rw [List.mem_singleton.mp ho]
      exact hcov
  · intro o₁ ho₁ o₂ ho₂ heq
    rcases List.mem_append.mp ho₁ with h₁ | h₁ <;> rcases List.mem_append.mp ho₂ with h₂ | h₂
    · exact hinv.agree o₁ h₁ o₂ h₂ heq
    · rw [List.mem_singleton.mp h₂] at heq
      exact absurd heq (hbefore o₁ h₁).ne
    · rw [List.mem_singleton.mp h₁] at heq
      exact absurd heq.symm (hbefore o₂ h₂).ne
    · rw [List.mem_singleton.mp h₁, List.mem_singleton.mp h₂]
  · rw [List.filter_append, List.pairwise_append]
    refine ⟨hinv.fresh_lt, List.pairwise_singleton _ _, ?_⟩
    intro o₁ h₁ o₂ h₂
    simp only [List.filter_singleton, cond_true, List.mem_singleton] at h₂
    rw [h₂]
    exact hbefore o₁ (List.mem_of_mem_filter h₁)

theorem RunInv.reuse {lss : LastSignState B Sig} {outs : List (SignOutput Sig)}
    {signed : Signed Sig} (hinv : RunInv codec lss outs)
    (hcov : lss.Covers codec signed.canonical) :
    RunInv codec lss (outs ++ [⟨lss.hrs, false, signed⟩]) := by
  have hcovers : ∀ o ∈ outs ++ [⟨lss.hrs, false, signed⟩], o.hrs = lss.hrs →
      lss.Covers codec o.signed.canonical := by
    intro o ho heq
    rcases List.mem_append.mp ho with ho | ho
    · exact hinv.covers_last o ho heq
    · rw [List.mem_singleton.mp ho]
      exact hcov
  refine ⟨?_, hcovers, ?_, ?_⟩
  · intro o ho
    rcases List.mem_append.mp ho with ho | ho
    · exact hinv.le_last o ho
    · rw [List.mem_singleton.mp ho]
  · -- a pair with the new signature is at the point last signed, where all cover one message
    intro o₁ ho₁ o₂ ho₂ heq
    rcases List.mem_append.mp ho₁ with h₁ | h₁
    · rcases List.mem_append.mp ho₂ with h₂ | h₂
      · exact hinv.agree o₁ h₁ o₂ h₂ heq
      · have h₂' : o₂.hrs = lss.hrs := by rw [List.mem_singleton.mp h₂]
        exact (hcovers o₁ ho₁ (heq.trans h₂')).unique codec (hcovers o₂ ho₂ h₂')
    · have h₁' : o₁.hrs = lss.hrs := by rw [List.mem_singleton.mp h₁]
      exact (hcovers o₁ ho₁ h₁').unique codec (hcovers o₂ ho₂ (heq.symm.trans h₁'))
  · simp only [List.filter_append, List.filter_singleton, cond_false, List.append_nil]
    exact hinv.fresh_lt

theorem RunInv.step {lss : LastSignState B Sig} {outs : List (SignOutput Sig)} {point}
    {signed : Signed Sig} {saved : Option (LastSignState B Sig)} (hinv : RunInv codec lss outs)
    (hout : Outcome codec lss point signed.canonical saved) :
    RunInv codec (saved.getD lss) (outs ++ [⟨point, saved.isSome, signed⟩]) := by
  cases saved with
  | some lss' =>
    obtain ⟨hlt, rfl, hcov⟩ := hout
    exact hinv.sign codec hlt hcov
  | none =>
    obtain ⟨rfl, hcov⟩ := hout
    exact hinv.reuse codec hcov

theorem signRun_inv [DecidableEq B] (sign : B → Except E Sig) :
    ∀ (reqs : List (SignRequest Sig)) (lss : LastSignState B Sig) (outs : List (SignOutput Sig)),
      RunInv codec lss outs → ∃ lss', RunInv codec lss' (outs ++ signRun codec sign lss reqs)
  | [], lss, outs, hinv => ⟨lss, by simpa [signRun] using hinv⟩
  | q :: qs, lss, outs, hinv => by
    by_cases hok : ∃ point signed saved, q.hrs = some point ∧
        signRequest codec sign lss q = some (.ok (signed, saved))
    · obtain ⟨point, signed, saved, hq, h⟩ := hok
      obtain ⟨lss', hinv'⟩ := signRun_inv sign qs _ _
        (hinv.step codec (signRequest_outcome codec h hq))
      refine ⟨lss', ?_⟩
      rw [signRun_cons_ok codec sign hq h]
      simpa using hinv'
    · simp only [not_exists, not_and] at hok
      rw [signRun_cons_skip codec sign hok]
      exact signRun_inv sign qs lss outs hinv

/-- The file private validator never double-signs: over every run of vote
and proposal requests from any last sign state, the signatures the key makes
are at strictly increasing heights, rounds and steps; any two signatures
returned at one height, round and step cover the same canonical message, so
the same sign bytes, its chain ID, type, block ID, POL round and timestamp
included; and each returned message is at the point it is counted at. -/
theorem signRun_no_double_sign [DecidableEq B] (sign : B → Except E Sig)
    (lss : LastSignState B Sig) (reqs : List (SignRequest Sig)) :
    ((signRun codec sign lss reqs).filter (·.fresh)).Pairwise (fun o₁ o₂ => o₁.hrs < o₂.hrs) ∧
    (∀ o₁ ∈ signRun codec sign lss reqs, ∀ o₂ ∈ signRun codec sign lss reqs,
      o₁.hrs = o₂.hrs → o₁.signed.canonical = o₂.signed.canonical) ∧
    ∀ o ∈ signRun codec sign lss reqs, o.signed.hrs = some o.hrs := by
  obtain ⟨lss', hinv⟩ := signRun_inv codec sign reqs lss [] (RunInv.nil codec lss)
  rw [List.nil_append] at hinv
  exact ⟨hinv.fresh_lt, hinv.agree, signRun_hrs codec sign reqs lss⟩

/-- The codec that keeps the canonical message itself as sign bytes. -/
def canonicalCodec : SignBytesCodec CanonicalMsg where
  encodeVote v := some (.vote v)
  decodeVote
    | .vote v => some v
    | .proposal _ => none
  encodeProposal p := some (.proposal p)
  decodeProposal
    | .proposal p => some p
    | .vote _ => none
  decodeVote_of_encodeVote _ _ h := by cases h; rfl
  decodeProposal_of_encodeProposal _ _ h := by cases h; rfl

/-- A repeat of a prevote with a later timestamp is answered with the first
signature and the first timestamp; a prevote for another block at the same
point is refused. -/
example :
    let vote : Vote Unit := ⟨.prevote, 1, 0, ⟨[], ⟨0, []⟩⟩, 5, [], 0, none⟩
    (signRun canonicalCodec (fun _ => (.ok () : Except Unit Unit)) ⟨0, 0, stepNone, none, none⟩
        [.vote "" vote 0, .vote "" { vote with timestamp := 7 } 0,
          .vote "" { vote with blockID := ⟨[], ⟨1, []⟩⟩ } 0]).map
      (fun o => (o.fresh, o.signed.canonical)) =
      [(true, .vote (vote.signBytes "")), (false, .vote (vote.signBytes ""))] := by
  decide

end Ostracon.Privval
