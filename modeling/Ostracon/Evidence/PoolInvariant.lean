import Ostracon.Evidence.Pool
/-!
# The bookkeeping of the evidence pool

Over every run of `AddEvidence`, `CheckEvidence`, `ReportConflictingVotes`
and `Update` from `NewPool`, the pool keeps three of the four facts its
bookkeeping is meant to keep (`PoolInv`): no key is both pending and
committed, every evidence in the gossip list is pending, and no key is in
the list twice; and a committed key stays committed, so that it is never
pending again and `CheckEvidence` refuses every list that holds it.

The fourth, that `Size()` counts the pending evidence, does not hold:
`CheckEvidence` stores light client attack evidence again when it is
pending already, and counts it again (`checkEvidence_recounts_pending`).

The list is pruned by hash and the store by key.  A key holds the hash
(`hash_eq_of_keySuffix_eq`), so that whatever leaves the store under some
key also leaves the list.
-/

namespace Ostracon.Evidence

open Ostracon.Crypto.Merkle

variable {Ev D : Type} (iface : EvidenceIface Ev)

/-! ## A key holds the hash -/

theorem hexDigit_inj {a b : Nat} (ha : a < 16) (hb : b < 16) (h : hexDigit a = hexDigit b) :
    a = b := by
  have hall : ∀ a < 16, ∀ b < 16, hexDigit a = hexDigit b → a = b := by decide
  exact hall a ha b hb h

theorem hexDigit_ne_slash {a : Nat} (ha : a < 16) : hexDigit a ≠ 0x2F := by
  have hall : ∀ a < 16, hexDigit a ≠ 0x2F := by decide
  exact hall a ha

theorem slash_not_mem_bE (h : Int) : (0x2F : UInt8) ∉ bE h := by
  intro hmem
  rcases List.mem_append.mp hmem with hsign | hdigits
  · split at hsign <;> simp at hsign
  · obtain ⟨i, -, hi⟩ := List.mem_map.mp hdigits
    exact hexDigit_ne_slash (Nat.mod_lt _ (by decide)) hi

theorem slash_not_mem_hexUpper : ∀ bs : Bytes, (0x2F : UInt8) ∉ hexUpper bs
  | [] => by simp [hexUpper]
  | b :: bs => by
    have hb : b.toNat < 256 := b.toNat_lt
    simp only [hexUpper, List.mem_cons, not_or]
    exact ⟨(hexDigit_ne_slash (by omega)).symm, (hexDigit_ne_slash (Nat.mod_lt _ (by decide))).symm,
      slash_not_mem_hexUpper bs⟩

theorem hexUpper_inj : ∀ {a b : Bytes}, hexUpper a = hexUpper b → a = b
  | [], [], _ => rfl
  | [], _ :: _, h => by simp [hexUpper] at h
  | _ :: _, [], h => by simp [hexUpper] at h
  | x :: a, y :: b, h => by
    simp only [hexUpper, List.cons.injEq] at h
    obtain ⟨hhi, hlo, hrest⟩ := h
    have hx : x.toNat < 256 := x.toNat_lt
    have hy : y.toNat < 256 := y.toNat_lt
    have hhi' := hexDigit_inj (by omega) (by omega) hhi
    have hlo' := hexDigit_inj (Nat.mod_lt _ (by decide)) (Nat.mod_lt _ (by decide)) hlo
    -- a byte is its two hexadecimal digits
    have hxy : x = y := UInt8.toNat_inj.mp (by omega)
    rw [hxy, hexUpper_inj hrest]

theorem hash_eq_of_keySuffix_eq {ev ev' : Ev} (h : keySuffix iface ev = keySuffix iface ev') :
    iface.hash ev = iface.hash ev' := by
  unfold keySuffix at h
  rw [List.append_cons_inj_of_notMem (slash_not_mem_bE _) (slash_not_mem_hexUpper _)] at h
  exact hexUpper_inj h.2.2

/-! ## Stores over byte keys -/

section Store

variable {V : Type} (t : Std.TreeMap Bytes V compare) (k a : Bytes)

theorem compare_beq_eq (k a : Bytes) : (compare k a == .eq) = decide (k = a) := by
  by_cases h : k = a
  · simp [h]
  · simp [h, Std.LawfulEqCmp.compare_eq_iff_eq]

@[simp] theorem contains_insert_bytes (v : V) :
    (t.insert k v).contains a = (decide (k = a) || t.contains a) := by
  rw [Std.TreeMap.contains_insert, compare_beq_eq]

@[simp] theorem contains_erase_bytes : (t.erase k).contains a = (!decide (k = a) && t.contains a) := by
  rw [Std.TreeMap.contains_erase, bne, compare_beq_eq]

theorem getElem?_insert_bytes (v : V) :
    (t.insert k v)[a]? = if k = a then some v else t[a]? := by
  rw [Std.TreeMap.getElem?_insert]
  simp only [Std.LawfulEqCmp.compare_eq_iff_eq]

theorem getElem?_erase_bytes : (t.erase k)[a]? = if k = a then none else t[a]? := by
  rw [Std.TreeMap.getElem?_erase]
  simp only [Std.LawfulEqCmp.compare_eq_iff_eq]

end Store

/-! ## The invariant -/

namespace Pool

/-- The bookkeeping the pool keeps, but for evidence whose hash is in
`blockEvidenceMap`: such evidence may be listed although its key has left
the store, until `removeEvidenceFromList` drops it. -/
structure InvExcept (pool : Pool Ev D) (blockEvidenceMap : List Bytes) : Prop where
  /-- pending evidence is stored under its own key -/
  own_key : ∀ k ev, pool.pending[k]? = some ev → keySuffix iface ev = k
  /-- no key is both pending and committed -/
  not_committed : ∀ k, pool.pending.contains k → pool.committed.contains k = false
  /-- listed evidence is pending, or its hash is in the map -/
  listed : ∀ ev ∈ pool.evidenceList,
    pool.pending.contains (keySuffix iface ev) ∨ blockEvidenceMap.contains (iface.hash ev)
  /-- no key is listed twice -/
  listed_nodup : (pool.evidenceList.map (keySuffix iface)).Nodup

/-- The bookkeeping the pool keeps over every run. -/
structure Inv (pool : Pool Ev D) : Prop where
  /-- pending evidence is stored under its own key -/
  own_key : ∀ k ev, pool.pending[k]? = some ev → keySuffix iface ev = k
  /-- no key is both pending and committed -/
  not_committed : ∀ k, pool.pending.contains k → pool.committed.contains k = false
  /-- every evidence in the gossip list is pending -/
  listed_pending : ∀ ev ∈ pool.evidenceList, pool.pending.contains (keySuffix iface ev)
  /-- no key is in the gossip list twice -/
  listed_nodup : (pool.evidenceList.map (keySuffix iface)).Nodup

variable {iface} {pool : Pool Ev D} {blockEvidenceMap : List Bytes} {ev : Ev}

theorem Inv.congr {pool' : Pool Ev D} (h : pool.Inv iface) (hpending : pool'.pending = pool.pending)
    (hcommitted : pool'.committed = pool.committed)
    (hlist : pool'.evidenceList = pool.evidenceList) : pool'.Inv iface := by
  obtain ⟨h₁, h₂, h₃, h₄⟩ := h
  exact ⟨hpending ▸ h₁, hpending ▸ hcommitted ▸ h₂, hpending ▸ hlist ▸ h₃, hlist ▸ h₄⟩

theorem Inv.toExcept (h : pool.Inv iface) : pool.InvExcept iface [] :=
  ⟨h.own_key, h.not_committed, fun ev hev => .inl (h.listed_pending ev hev), h.listed_nodup⟩

theorem InvExcept.removePending (h : pool.InvExcept iface blockEvidenceMap) :
    (pool.removePendingEvidence iface ev).InvExcept iface
      (blockEvidenceMap ++ [iface.hash ev]) := by
  refine ⟨?_, ?_, ?_, h.listed_nodup⟩
  · intro k e hk
    rw [removePendingEvidence, getElem?_erase_bytes] at hk
    split at hk
    · cases hk
    · exact h.own_key k e hk
  · intro k hk
    simp only [removePendingEvidence, contains_erase_bytes, Bool.and_eq_true, Bool.not_eq_true',
      decide_eq_false_iff_not] at hk
    exact h.not_committed k hk.2
  · intro e he
    simp only [removePendingEvidence, contains_erase_bytes, List.contains_append, Bool.or_eq_true,
      Bool.and_eq_true, Bool.not_eq_true', decide_eq_false_iff_not]
    rcases h.listed e he with hp | hm
    · by_cases hkey : keySuffix iface ev = keySuffix iface e
      · exact .inr (.inr (by simp [hash_eq_of_keySuffix_eq iface hkey]))
      · exact .inl ⟨hkey, hp⟩
    · exact .inr (.inl hm)

theorem InvExcept.commit (h : pool.InvExcept iface blockEvidenceMap) {k : Bytes} {height : Int}
    (hk : pool.pending.contains k = false) :
    ({ pool with committed := pool.committed.insert k height } : Pool Ev D).InvExcept iface
      blockEvidenceMap := by
  refine ⟨h.own_key, ?_, h.listed, h.listed_nodup⟩
  intro k' hk'
  simp only [contains_insert_bytes, Bool.or_eq_false_iff, decide_eq_false_iff_not]
  refine ⟨?_, h.not_committed k' hk'⟩
  rintro rfl
  rw [hk] at hk'
  cases hk'

theorem InvExcept.removeIfAny (h : pool.InvExcept iface blockEvidenceMap) :
    (pool.removeIfAny iface blockEvidenceMap).Inv iface := by
  unfold Pool.removeIfAny
  split
  · rename_i hempty
    refine ⟨h.own_key, h.not_committed, fun e he => ?_, h.listed_nodup⟩
    rw [List.isEmpty_iff] at hempty
    subst hempty
    simpa using h.listed e he
  · refine ⟨h.own_key, h.not_committed, fun e he => ?_, ?_⟩
    · simp only [removeEvidenceFromList, List.mem_filter, Bool.not_eq_true'] at he
      rcases h.listed e he.1 with hp | hm
      · exact hp
      · rw [hm] at he
        cases he.2
    · exact (h.listed_nodup).sublist ((List.filter_sublist).map _)

theorem InvExcept.markCommittedOne {acc : Pool Ev D × List Bytes}
    (h : acc.1.InvExcept iface acc.2) :
    (Pool.markCommittedOne iface acc ev).1.InvExcept iface
      (Pool.markCommittedOne iface acc ev).2 := by
  obtain ⟨pool, blockEvidenceMap⟩ := acc
  by_cases hp : pool.isPending iface ev
  · -- pending: it leaves the store, then is recorded as committed
    simp only [Pool.markCommittedOne, hp, if_true]
    exact h.removePending.commit (by simp [removePendingEvidence])
  · simp only [Pool.markCommittedOne, hp, Bool.false_eq_true, if_false]
    exact h.commit (by simpa only [isPending, Bool.not_eq_true] using hp)

theorem InvExcept.foldl_markCommittedOne :
    ∀ (evidence : List Ev) {acc : Pool Ev D × List Bytes}, acc.1.InvExcept iface acc.2 →
      (evidence.foldl (Pool.markCommittedOne iface) acc).1.InvExcept iface
        (evidence.foldl (Pool.markCommittedOne iface) acc).2
  | [], _, h => h
  | _ :: evidence, _, h => InvExcept.foldl_markCommittedOne evidence h.markCommittedOne

theorem Inv.markEvidenceAsCommitted (h : pool.Inv iface) (evidence : List Ev) :
    (pool.markEvidenceAsCommitted iface evidence).Inv iface :=
  (InvExcept.foldl_markCommittedOne evidence h.toExcept).removeIfAny

theorem InvExcept.removeExpiredLoop :
    ∀ (entries : List (Bytes × Ev)) {pool : Pool Ev D} {blockEvidenceMap : List Bytes},
      pool.InvExcept iface blockEvidenceMap →
        (pool.removeExpiredLoop iface blockEvidenceMap entries).1.Inv iface
  | [], _, _, h => h.removeIfAny
  | (_, ev) :: entries, pool, _, h => by
    unfold Pool.removeExpiredLoop
    split
    · exact h.removeIfAny
    · exact InvExcept.removeExpiredLoop entries h.removePending

theorem Inv.removeExpiredPendingEvidence (h : pool.Inv iface) :
    (pool.removeExpiredPendingEvidence iface).1.Inv iface :=
  InvExcept.removeExpiredLoop _ h.toExcept

theorem Inv.addAndList (h : pool.Inv iface) (hp : pool.isPending iface ev = false)
    (hc : pool.isCommitted iface ev = false) :
    Inv iface (let p := pool.addPendingEvidence iface ev; { p with evidenceList := p.evidenceList ++ [ev] }) := by
  refine ⟨?_, ?_, ?_, ?_⟩
  · intro k e hk
    simp only [addPendingEvidence, getElem?_insert_bytes] at hk
    split at hk
    · rename_i hkey
      cases hk
      exact hkey
    · exact h.own_key k e hk
  · intro k hk
    simp only [addPendingEvidence, contains_insert_bytes, Bool.or_eq_true, decide_eq_true_eq] at hk
    rcases hk with rfl | hk
    · exact hc
    · exact h.not_committed k hk
  · intro e he
    simp only [addPendingEvidence, contains_insert_bytes, Bool.or_eq_true, decide_eq_true_eq,
      List.mem_append, List.mem_singleton] at he ⊢
    rcases he with he | rfl
    · exact .inr (h.listed_pending e he)
    · exact .inl rfl
  · -- the new key was not pending, so it was not listed
    simp only [addPendingEvidence, List.map_append, List.map_singleton]
    refine List.nodup_append.mpr ⟨h.listed_nodup, List.nodup_singleton _, ?_⟩
    intro k hk k' hk' heq
    rw [List.mem_singleton] at hk'
    obtain ⟨e, he, rfl⟩ := List.mem_map.mp hk
    have := h.listed_pending e he
    rw [heq, hk'] at this
    simp only [isPending] at hp
    rw [hp] at this
    cases this

theorem Inv.addPending (h : pool.Inv iface) (hc : pool.isCommitted iface ev = false) :
    (pool.addPendingEvidence iface ev).Inv iface := by
  refine ⟨?_, ?_, ?_, h.listed_nodup⟩
  · intro k e hk
    simp only [addPendingEvidence, getElem?_insert_bytes] at hk
    split at hk
    · rename_i hkey
      cases hk
      exact hkey
    · exact h.own_key k e hk
  · intro k hk
    simp only [addPendingEvidence, contains_insert_bytes, Bool.or_eq_true, decide_eq_true_eq] at hk
    rcases hk with rfl | hk
    · exact hc
    · exact h.not_committed k hk
  · intro e he
    simp only [addPendingEvidence, contains_insert_bytes, Bool.or_eq_true]
    exact .inr (h.listed_pending e he)

theorem Inv.processConsensusOne {mkEvidence : ChainState → D → Option Ev} {state : ChainState}
    (h : pool.Inv iface) (voteSet : D) :
    (Pool.processConsensusOne iface mkEvidence state pool voteSet).Inv iface := by
  unfold Pool.processConsensusOne
  split
  · exact h
  · rename_i dve _
    split
    · exact h
    · split
      · exact h
      · rename_i hp hc
        exact h.addAndList (by simpa using hp) (by simpa using hc)

theorem Inv.foldl_processConsensusOne (mkEvidence : ChainState → D → Option Ev)
    (state : ChainState) :
    ∀ (buffer : List D) {pool : Pool Ev D}, pool.Inv iface →
      (buffer.foldl (Pool.processConsensusOne iface mkEvidence state) pool).Inv iface
  | [], _, h => h
  | voteSet :: buffer, _, h =>
      Inv.foldl_processConsensusOne mkEvidence state buffer (h.processConsensusOne voteSet)

theorem Inv.processConsensusBuffer (h : pool.Inv iface)
    (mkEvidence : ChainState → D → Option Ev) (state : ChainState) :
    (pool.processConsensusBuffer iface mkEvidence state).Inv iface :=
  (Inv.foldl_processConsensusOne mkEvidence state pool.consensusBuffer h).congr rfl rfl rfl

section Calls

variable {ε : Type} {verify : ChainState → Ev → Except ε Unit}
  {mkEvidence : ChainState → D → Option Ev}

theorem Inv.addEvidence {pool' : Pool Ev D} (h : pool.Inv iface)
    (hadd : pool.addEvidence iface verify ev = .ok pool') : pool'.Inv iface := by
  unfold Pool.addEvidence at hadd
  split at hadd
  · cases hadd
    exact h
  · split at hadd
    · cases hadd
      exact h
    · rename_i hp hc
      split at hadd
      · cases hadd
      · cases hadd
        exact h.addAndList (by simpa using hp) (by simpa using hc)

theorem Inv.checkOne {pool' : Pool Ev D} (h : pool.Inv iface)
    (hok : pool.checkOne iface verify ev = .ok pool') : pool'.Inv iface := by
  unfold Pool.checkOne at hok
  split at hok
  · split at hok
    · cases hok
    · rename_i hc
      split at hok
      · cases hok
      · cases hok
        exact h.addPending (by simpa using hc)
  · cases hok
    exact h

theorem Inv.checkEvidenceLoop :
    ∀ (evList : List Ev) {pool : Pool Ev D} {hashes : List Bytes}, pool.Inv iface →
      (pool.checkEvidenceLoop iface verify hashes evList).2.Inv iface
  | [], _, _, h => h
  | ev :: evList, pool, hashes, h => by
    unfold Pool.checkEvidenceLoop
    split
    · exact h
    · rename_i pool' hok
      split
      · exact h.checkOne hok
      · exact Inv.checkEvidenceLoop evList (h.checkOne hok)

theorem Inv.update {state : ChainState} {evidence : List Ev} {pool' : Pool Ev D}
    (h : pool.Inv iface) (hupdate : pool.update iface mkEvidence state evidence = some pool') :
    pool'.Inv iface := by
  unfold Pool.update at hupdate
  split at hupdate
  · cases hupdate
  · -- the buffer is flushed and the block's evidence committed before any pruning
    have hstate : Inv iface
        ({ pool.processConsensusBuffer iface mkEvidence state with state := state } : Pool Ev D) :=
      (h.processConsensusBuffer mkEvidence state).congr rfl rfl rfl
    have hmarked := hstate.markEvidenceAsCommitted evidence
    dsimp only at hupdate
    split at hupdate
    · cases hupdate
      exact hmarked.removeExpiredPendingEvidence.congr rfl rfl rfl
    · cases hupdate
      exact hmarked

theorem Inv.reportConflictingVotes (h : pool.Inv iface) (voteSet : D) :
    (pool.reportConflictingVotes voteSet).Inv iface :=
  h.congr rfl rfl rfl

theorem Inv.apply {pool' : Pool Ev D} (h : pool.Inv iface) (call : PoolCall Ev D)
    (happly : call.apply iface verify mkEvidence pool = some pool') : pool'.Inv iface := by
  cases call with
  | addEvidence ev =>
    simp only [PoolCall.apply] at happly
    split at happly
    · rename_i hadd
      cases happly
      exact h.addEvidence hadd
    · cases happly
      exact h
  | checkEvidence evList =>
    simp only [PoolCall.apply, Option.some.injEq] at happly
    rw [← happly]
    exact Inv.checkEvidenceLoop evList h
  | reportConflictingVotes voteSet =>
    simp only [PoolCall.apply, Option.some.injEq] at happly
    rw [← happly]
    exact h.reportConflictingVotes voteSet
  | update state evidence => exact h.update happly

theorem Inv.poolRun : ∀ (calls : List (PoolCall Ev D)) {pool pool' : Pool Ev D}, pool.Inv iface →
    poolRun iface verify mkEvidence pool calls = some pool' → pool'.Inv iface
  | [], _, _, h, hrun => by
    simp only [Evidence.poolRun, Option.some.injEq] at hrun
    exact hrun ▸ h
  | call :: calls, pool, _, h, hrun => by
    simp only [Evidence.poolRun] at hrun
    obtain ⟨mid, hmid, hrest⟩ := Option.bind_eq_some_iff.mp hrun
    exact Inv.poolRun calls (h.apply call hmid) hrest

end Calls

/-! ## Committed evidence stays committed -/

section Committed

variable (iface) {ε : Type} {verify : ChainState → Ev → Except ε Unit}
  {mkEvidence : ChainState → D → Option Ev} {k : Bytes}

theorem committed_removeExpiredLoop : ∀ (entries : List (Bytes × Ev)) (pool : Pool Ev D)
    (blockEvidenceMap : List Bytes),
    (pool.removeExpiredLoop iface blockEvidenceMap entries).1.committed = pool.committed
  | [], pool, blockEvidenceMap => by
    simp only [Pool.removeExpiredLoop, Pool.removeIfAny]
    split <;> rfl
  | (_, ev) :: entries, pool, blockEvidenceMap => by
    unfold Pool.removeExpiredLoop
    split
    · simp only [Pool.removeIfAny]
      split <;> rfl
    · exact committed_removeExpiredLoop entries _ _

theorem committed_foldl_processConsensusOne (state : ChainState) :
    ∀ (buffer : List D) (pool : Pool Ev D),
      (buffer.foldl (Pool.processConsensusOne iface mkEvidence state) pool).committed =
        pool.committed
  | [], _ => rfl
  | voteSet :: buffer, pool => by
    rw [List.foldl_cons, committed_foldl_processConsensusOne state buffer]
    unfold Pool.processConsensusOne
    split
    · rfl
    · split
      · rfl
      · split <;> rfl

theorem committed_markCommittedOne (acc : Pool Ev D × List Bytes) (ev : Ev) :
    (Pool.markCommittedOne iface acc ev).1.committed =
      acc.1.committed.insert (keySuffix iface ev) (iface.height ev) := by
  obtain ⟨pool, blockEvidenceMap⟩ := acc
  by_cases hp : pool.isPending iface ev
  · simp only [Pool.markCommittedOne, hp, if_true, removePendingEvidence]
  · simp only [Pool.markCommittedOne, hp, Bool.false_eq_true, if_false]

theorem committed_foldl_markCommittedOne : ∀ (evidence : List Ev) (acc : Pool Ev D × List Bytes),
    acc.1.committed.contains k →
      (evidence.foldl (Pool.markCommittedOne iface) acc).1.committed.contains k
  | [], _, h => h
  | ev :: evidence, acc, h => by
    refine committed_foldl_markCommittedOne evidence _ ?_
    rw [committed_markCommittedOne, contains_insert_bytes, h, Bool.or_true]

theorem committed_markEvidenceAsCommitted (evidence : List Ev)
    (h : pool.committed.contains k) :
    (pool.markEvidenceAsCommitted iface evidence).committed.contains k := by
  have hfold := committed_foldl_markCommittedOne iface evidence (pool, []) h
  unfold Pool.markEvidenceAsCommitted
  generalize evidence.foldl (Pool.markCommittedOne iface) (pool, []) = acc at hfold ⊢
  obtain ⟨p, m⟩ := acc
  dsimp only
  unfold Pool.removeIfAny
  split <;> exact hfold

theorem committed_checkOne {pool pool' : Pool Ev D} {ev : Ev}
    (hok : pool.checkOne iface verify ev = .ok pool') : pool'.committed = pool.committed := by
  unfold Pool.checkOne at hok
  split at hok
  · split at hok
    · cases hok
    · split at hok
      · cases hok
      · cases hok
        rfl
  · cases hok
    rfl

theorem committed_checkEvidenceLoop : ∀ (evList : List Ev) (pool : Pool Ev D)
    (hashes : List Bytes),
    (pool.checkEvidenceLoop iface verify hashes evList).2.committed = pool.committed
  | [], _, _ => rfl
  | ev :: evList, pool, hashes => by
    unfold Pool.checkEvidenceLoop
    split
    · rfl
    · rename_i pool' hok
      split
      · exact committed_checkOne iface hok
      · rw [committed_checkEvidenceLoop evList pool' _, committed_checkOne iface hok]

theorem committed_apply {pool' : Pool Ev D} (call : PoolCall Ev D)
    (happly : call.apply iface verify mkEvidence pool = some pool')
    (h : pool.committed.contains k) : pool'.committed.contains k := by
  cases call with
  | addEvidence ev =>
    simp only [PoolCall.apply] at happly
    split at happly
    · rename_i hadd
      cases happly
      unfold Pool.addEvidence at hadd
      split at hadd
      · cases hadd
        exact h
      · split at hadd
        · cases hadd
          exact h
        · split at hadd
          · cases hadd
          · cases hadd
            exact h
    · cases happly
      exact h
  | checkEvidence evList =>
    simp only [PoolCall.apply, Option.some.injEq] at happly
    rw [← happly, Pool.checkEvidence, committed_checkEvidenceLoop]
    exact h
  | reportConflictingVotes voteSet =>
    simp only [PoolCall.apply, Option.some.injEq] at happly
    rw [← happly]
    exact h
  | update state evidence =>
    simp only [PoolCall.apply] at happly
    unfold Pool.update at happly
    split at happly
    · cases happly
    · have hflushed : ({ pool.processConsensusBuffer iface mkEvidence state with state := state } :
          Pool Ev D).committed.contains k := by
        simpa only [Pool.processConsensusBuffer, committed_foldl_processConsensusOne] using h
      have hmarked := committed_markEvidenceAsCommitted iface evidence hflushed
      dsimp only at happly
      split at happly
      · cases happly
        simpa only [Pool.removeExpiredPendingEvidence, committed_removeExpiredLoop] using hmarked
      · cases happly
        exact hmarked

theorem committed_poolRun : ∀ (calls : List (PoolCall Ev D)) {pool pool' : Pool Ev D},
    poolRun iface verify mkEvidence pool calls = some pool' →
      pool.committed.contains k → pool'.committed.contains k
  | [], _, _, hrun, h => by
    simp only [Evidence.poolRun, Option.some.injEq] at hrun
    exact hrun ▸ h
  | call :: calls, pool, _, hrun, h => by
    simp only [Evidence.poolRun] at hrun
    obtain ⟨mid, hmid, hrest⟩ := Option.bind_eq_some_iff.mp hrun
    exact committed_poolRun calls hrest (committed_apply iface call hmid h)

theorem checkOne_committed (h : pool.Inv iface) (hc : pool.isCommitted iface ev) :
    ∃ err, pool.checkOne iface verify ev = .error err := by
  have hp : pool.isPending iface ev = false := by
    by_contra hp
    rw [Bool.not_eq_false] at hp
    have := h.not_committed _ hp
    rw [isCommitted] at hc
    rw [hc] at this
    cases this
  refine ⟨.alreadyCommitted ev, ?_⟩
  simp only [Pool.checkOne, hp, hc, Bool.not_false, Bool.or_true, if_true]

theorem checkEvidenceLoop_committed : ∀ (evList : List Ev) {pool : Pool Ev D}
    {hashes : List Bytes}, pool.Inv iface → (∃ ev ∈ evList, pool.isCommitted iface ev) →
      (pool.checkEvidenceLoop iface verify hashes evList).1 ≠ .ok ()
  | [], _, _, _, ⟨_, hev, _⟩ => by cases hev
  | e :: evList, pool, hashes, h, ⟨ev, hev, hc⟩ => by
    unfold Pool.checkEvidenceLoop
    split
    · simp
    · rename_i pool' hok
      split
      · simp
      · -- `e` passed its checks, so the committed evidence is a later one
        refine checkEvidenceLoop_committed evList (h.checkOne hok) ⟨ev, ?_, ?_⟩
        · rcases List.mem_cons.mp hev with rfl | hev
          · obtain ⟨err, herr⟩ := checkOne_committed iface h hc
            rw [herr] at hok
            cases hok
          · exact hev
        · simpa only [isCommitted, committed_checkOne iface hok] using hc

end Committed

end Pool

/-! ## Every run from `NewPool` -/

theorem Pool.Inv.listPending {pool : Pool Ev D} (h : pool.Inv iface) (size : UInt32)
    (pruningHeight pruningTime : Int) :
    Pool.Inv iface ({ pool with
      evidenceSize := size
      evidenceList := pool.pending.toList.map Prod.snd
      pruningHeight := pruningHeight
      pruningTime := pruningTime } : Pool Ev D) := by
  -- every entry of the store is under its own key
  have hentry : ∀ p ∈ pool.pending.toList, keySuffix iface p.2 = p.1 := fun p hp =>
    h.own_key p.1 p.2 (Std.TreeMap.mem_toList_iff_getElem?_eq_some.mp hp)
  refine ⟨h.own_key, h.not_committed, ?_, ?_⟩
  · intro e he
    obtain ⟨p, hp, rfl⟩ := List.mem_map.mp he
    rw [hentry p hp, Std.TreeMap.contains_eq_isSome_getElem?,
      Std.TreeMap.mem_toList_iff_getElem?_eq_some.mp hp]
    rfl
  · have hkeys : (pool.pending.toList.map Prod.snd).map (keySuffix iface) = pool.pending.keys := by
      rw [List.map_map, ← Std.TreeMap.map_fst_toList_eq_keys]
      exact List.map_congr_left hentry
    rw [hkeys]
    exact Std.TreeMap.nodup_keys

theorem Pool.Inv.newPool {pending : Std.TreeMap Bytes Ev compare}
    {committed : Std.TreeMap Bytes Int compare} {state : ChainState}
    (hown : ∀ k ev, pending[k]? = some ev → keySuffix iface ev = k)
    (hdisjoint : ∀ k, pending.contains k → committed.contains k = false) :
    (newPool iface pending committed state : Pool Ev D).Inv iface := by
  have hinit : (⟨pending, committed, [], 0, state, [], 0, 0⟩ : Pool Ev D).Inv iface :=
    ⟨hown, hdisjoint, by simp, by simp⟩
  exact hinit.removeExpiredPendingEvidence.listPending iface _ _ _

/-- Light client attack evidence at height 1, with hash `[1]` and time 0. -/
def lightAttackIface : EvidenceIface Unit := ⟨fun _ => 1, fun _ => 0, fun _ => [1], fun _ => true⟩

/-- The bookkeeping of the pool over every run from `NewPool` over a store
whose pending evidence is under its own keys and has no committed key: at
every point `pool₁` of the run and every later point `pool₂`, no key is both
pending and committed, every evidence in the gossip list is pending, no key
is listed twice; a key committed at `pool₁` is still committed and not
pending at `pool₂`; and `CheckEvidence` at `pool₂` refuses every list that
holds evidence committed at `pool₁`. -/
theorem poolRun_bookkeeping {ε : Type} (verify : ChainState → Ev → Except ε Unit)
    (mkEvidence : ChainState → D → Option Ev) {pending : Std.TreeMap Bytes Ev compare}
    {committed : Std.TreeMap Bytes Int compare} {state : ChainState}
    (hown : ∀ k ev, pending[k]? = some ev → keySuffix iface ev = k)
    (hdisjoint : ∀ k, pending.contains k → committed.contains k = false)
    (calls₁ calls₂ : List (PoolCall Ev D)) {pool₁ pool₂ : Pool Ev D}
    (hrun₁ : poolRun iface verify mkEvidence (newPool iface pending committed state) calls₁ =
      some pool₁)
    (hrun₂ : poolRun iface verify mkEvidence pool₁ calls₂ = some pool₂) :
    pool₂.Inv iface ∧
    (∀ k, pool₁.committed.contains k →
      pool₂.committed.contains k ∧ pool₂.pending.contains k = false) ∧
    ∀ ev evList, ev ∈ evList → pool₁.isCommitted iface ev →
      (pool₂.checkEvidence iface verify evList).1 ≠ .ok () := by
  have hinv₁ := Pool.Inv.poolRun calls₁ (Pool.Inv.newPool iface hown hdisjoint) hrun₁
  have hinv₂ := Pool.Inv.poolRun calls₂ hinv₁ hrun₂
  -- a key committed at `pool₁` is committed at `pool₂`, so not pending there
  have hkept : ∀ k, pool₁.committed.contains k →
      pool₂.committed.contains k ∧ pool₂.pending.contains k = false := by
    intro k hk
    have hk₂ := Pool.committed_poolRun iface calls₂ hrun₂ hk
    refine ⟨hk₂, ?_⟩
    by_contra hp
    rw [Bool.not_eq_false] at hp
    rw [hinv₂.not_committed k hp] at hk₂
    cases hk₂
  refine ⟨hinv₂, hkept, ?_⟩
  intro ev evList hev hc
  exact Pool.checkEvidenceLoop_committed iface evList hinv₂ ⟨ev, hev, (hkept _ hc).1⟩

/-- `poolRun_bookkeeping` where the first part of the run stores and then
commits one light client attack evidence, and the second checks it again. -/
theorem poolRun_bookkeeping_commitThenCheck :
    ∃ pool₁ pool₂,
      poolRun lightAttackIface (fun _ _ => (.ok () : Except Unit Unit)) (fun _ _ => none)
        (newPool lightAttackIface ∅ ∅ ⟨0, 0, 100, 100⟩ : Pool Unit Unit)
        [.checkEvidence [()], .update ⟨1, 0, 100, 100⟩ [()]] = some pool₁ ∧
      poolRun lightAttackIface (fun _ _ => (.ok () : Except Unit Unit)) (fun _ _ => none) pool₁
        [.checkEvidence [()]] = some pool₂ ∧
      pool₁.isCommitted lightAttackIface () = true ∧ pool₂.Inv lightAttackIface ∧
      (pool₂.checkEvidence lightAttackIface (fun _ _ => (.ok () : Except Unit Unit)) [()]).1 ≠ .ok () := by
  -- the second part runs, and the evidence is committed after the first
  obtain ⟨pool₁, hrun₁, hafter⟩ := Option.map_eq_some_iff.mp (by decide :
    (poolRun lightAttackIface (fun _ _ => (.ok () : Except Unit Unit)) (fun _ _ => none)
      (newPool lightAttackIface ∅ ∅ ⟨0, 0, 100, 100⟩ : Pool Unit Unit)
      [.checkEvidence [()], .update ⟨1, 0, 100, 100⟩ [()]]).map (fun pool =>
        ((poolRun lightAttackIface (fun _ _ => (.ok () : Except Unit Unit)) (fun _ _ => none) pool
          [.checkEvidence [()]]).isSome, pool.isCommitted lightAttackIface ())) = some (true, true))
  rw [Prod.mk.injEq] at hafter
  obtain ⟨pool₂, hrun₂⟩ := Option.isSome_iff_exists.mp hafter.1
  obtain ⟨hinv, -, hrefuse⟩ := poolRun_bookkeeping lightAttackIface
    (fun _ _ => (.ok () : Except Unit Unit)) (fun _ _ => none) (by simp) (by simp) _ _ hrun₁ hrun₂
  exact ⟨pool₁, pool₂, hrun₁, hrun₂, hafter.2, hinv, hrefuse () [()] List.mem_cons_self hafter.2⟩

namespace Pool

/-! ## The size counter -/

end Pool

/-- Checking a block that holds one light client attack evidence twice, as
a node does when it prevotes for the block and when it commits it, counts
the evidence twice: `Size()` is 2 with one pending entry; once `Update`
commits the block, `Size()` is 1 with no pending entry left. -/
theorem checkEvidence_recounts_pending :
    ((poolRun lightAttackIface (fun _ _ => (.ok () : Except Unit Unit)) (fun _ _ => none)
        (newPool lightAttackIface ∅ ∅ ⟨0, 0, 100, 100⟩ : Pool Unit Unit)
        [.checkEvidence [()], .checkEvidence [()]]).map
      fun pool => (pool.size, pool.pending.size)) = some (2, 1) ∧
    ((poolRun lightAttackIface (fun _ _ => (.ok () : Except Unit Unit)) (fun _ _ => none)
        (newPool lightAttackIface ∅ ∅ ⟨0, 0, 100, 100⟩ : Pool Unit Unit)
        [.checkEvidence [()], .checkEvidence [()], .update ⟨1, 0, 100, 100⟩ [()]]).map
      fun pool => (pool.size, pool.pending.size)) = some (1, 0) := by
  decide

end Ostracon.Evidence
