import Ostracon.Mempool.CheckTx
/-!
# The mempool's counters over every run

Over every run of the node from `NewCListMempool` (`mempoolRun_inv`),
`reserved` and `reservedBytes` count the first-time checks in flight,
`txsBytes` is the size of the listed transactions, `txsMap` points to listed
elements of the key it is read at, and the limits hold:
`Size() + reserved ≤ Size` and `TxsBytes() + reservedBytes ≤ MaxTxsBytes`.
The transaction key is taken injective, as SHA-256 is taken to be: `Update`
and the recheck remove the element `txsMap` gives for the key of a
transaction and subtract that transaction's length.

Each call that only takes transactions out `Shrinks` the mempool; `checkTx`
reserves what its response later releases, and `prepareCheckTx_cases` says
what a check can do.
-/

namespace Ostracon.Mempool

open Ostracon.Crypto.Merkle

variable {K : Type} [DecidableEq K]

/-- The bytes of listed transactions. -/
def bytesOf (txs : List (Nat × MempoolTx)) : Int := (txs.map fun e => (e.2.tx.length : Int)).sum

/-- The bytes of requests. -/
def pendingBytes (pending : List Bytes) : Int := (pending.map fun tx => (tx.length : Int)).sum

@[simp] theorem bytesOf_nil : bytesOf [] = 0 := rfl

@[simp] theorem bytesOf_append (txs txs' : List (Nat × MempoolTx)) :
    bytesOf (txs ++ txs') = bytesOf txs + bytesOf txs' := by
  simp [bytesOf]

@[simp] theorem bytesOf_cons (e : Nat × MempoolTx) (txs : List (Nat × MempoolTx)) :
    bytesOf (e :: txs) = e.2.tx.length + bytesOf txs := by
  simp [bytesOf]

@[simp] theorem pendingBytes_nil : pendingBytes [] = 0 := rfl

@[simp] theorem pendingBytes_append (pending pending' : List Bytes) :
    pendingBytes (pending ++ pending') = pendingBytes pending + pendingBytes pending' := by
  simp [pendingBytes]

@[simp] theorem pendingBytes_cons (tx : Bytes) (pending : List Bytes) :
    pendingBytes (tx :: pending) = tx.length + pendingBytes pending := by
  simp [pendingBytes]

theorem bytesOf_nonneg (txs : List (Nat × MempoolTx)) : 0 ≤ bytesOf txs := by
  induction txs with
  | nil => simp
  | cons e txs ih =>
    rw [bytesOf_cons]
    omega

theorem bytesOf_filter_ne {txs : List (Nat × MempoolTx)} {e : Nat} {memTx : MempoolTx}
    (hnodup : (txs.map (·.1)).Nodup) (hmem : (e, memTx) ∈ txs) :
    bytesOf (txs.filter (·.1 ≠ e)) = bytesOf txs - memTx.tx.length := by
  induction txs with
  | nil => exact absurd hmem List.not_mem_nil
  | cons a txs ih =>
    rw [List.map_cons, List.nodup_cons] at hnodup
    rcases List.mem_cons.mp hmem with rfl | hmem
    · -- the element itself: no other one has its identity
      have hrest : (txs.filter (·.1 ≠ e)) = txs :=
        List.filter_eq_self.mpr fun x hx => decide_eq_true fun hx' =>
          hnodup.1 (List.mem_map.mpr ⟨x, hx, hx'⟩)
      rw [List.filter_cons_of_neg (by simp), hrest, bytesOf_cons]
      dsimp only
      omega
    · have hne : a.1 ≠ e := fun h => hnodup.1 (h ▸ List.mem_map.mpr ⟨_, hmem, rfl⟩)
      rw [List.filter_cons_of_pos (by simpa using hne), bytesOf_cons, bytesOf_cons, ih hnodup.2 hmem]
      omega

/-! ## The list and the map -/

/-- The list and the map agree: identities are distinct and below the next
one, the map points to a listed element of its key, and `txsBytes` is the
size of the list. -/
structure ListInv (txKey : Bytes → K) (mem : CListMempool K) : Prop where
  nodup : (mem.txs.map (·.1)).Nodup
  fresh : ∀ e ∈ mem.txs, e.1 < mem.nextElement
  mapped : ∀ k e, mem.txsMap.get k = some e → ∃ memTx, (e, memTx) ∈ mem.txs ∧ txKey memTx.tx = k
  txsBytes : mem.txsBytes = bytesOf mem.txs

/-- `mem'` is `mem` with transactions taken out: the list invariant kept,
the configuration and the reservations untouched, and no more transactions
or bytes listed. -/
structure Shrinks (txKey : Bytes → K) (mem mem' : CListMempool K) : Prop where
  inv : ListInv txKey mem'
  config : mem'.config = mem.config
  reserved : mem'.reserved = mem.reserved
  reservedBytes : mem'.reservedBytes = mem.reservedBytes
  size_le : mem'.size ≤ mem.size
  txsBytes_le : mem'.txsBytes ≤ mem.txsBytes

section Shrinks

variable {txKey : Bytes → K} {mem mem' mem'' : CListMempool K}

theorem Shrinks.refl (h : ListInv txKey mem) : Shrinks txKey mem mem :=
  ⟨h, rfl, rfl, rfl, le_rfl, le_rfl⟩

theorem Shrinks.trans (h : Shrinks txKey mem mem') (h' : Shrinks txKey mem' mem'') :
    Shrinks txKey mem mem'' :=
  ⟨h'.inv, h'.config.trans h.config, h'.reserved.trans h.reserved,
    h'.reservedBytes.trans h.reservedBytes, h'.size_le.trans h.size_le, h'.txsBytes_le.trans h.txsBytes_le⟩

theorem ListInv.withCache (h : ListInv txKey mem) (cache : TxCache K) :
    ListInv txKey { mem with cache := cache } :=
  ⟨h.nodup, h.fresh, h.mapped, h.txsBytes⟩

theorem Shrinks.withCache (h : ListInv txKey mem) (cache : TxCache K) :
    Shrinks txKey mem { mem with cache := cache } :=
  ⟨h.withCache cache, rfl, rfl, rfl, le_rfl, le_rfl⟩

end Shrinks

section Remove

variable {txKey : Bytes → K} {mem : CListMempool K}

theorem ListInv.addTx (h : ListInv txKey mem) (memTx : MempoolTx) :
    ListInv txKey (mem.addTx txKey memTx) := by
  refine ⟨?_, fun e he => ?_, fun k e hk => ?_, ?_⟩
  · show ((mem.txs ++ [(mem.nextElement, memTx)]).map (·.1)).Nodup
    rw [List.map_append]
    refine List.nodup_append.mpr ⟨h.nodup, List.nodup_singleton _, fun a ha b hb => ?_⟩
    -- every listed identity is below the fresh one
    obtain ⟨e, he, rfl⟩ := List.mem_map.mp ha
    rw [List.map_singleton, List.mem_singleton] at hb
    have := h.fresh e he
    omega
  · simp only [CListMempool.addTx, List.mem_append, List.mem_singleton] at he ⊢
    rcases he with he | rfl
    · have := h.fresh e he
      omega
    · omega
  · simp only [CListMempool.addTx, GoMap.get_set] at hk
    split_ifs at hk with hkey
    · cases hk
      exact ⟨memTx, List.mem_append_right _ (List.mem_singleton_self _), hkey.symm⟩
    · obtain ⟨m, hm, hmk⟩ := h.mapped k e hk
      exact ⟨m, List.mem_append_left _ hm, hmk⟩
  · simp [CListMempool.addTx, h.txsBytes]

theorem ListInv.eq_of_mem (h : ListInv txKey mem) {e : Nat} {a b : MempoolTx}
    (ha : (e, a) ∈ mem.txs) (hb : (e, b) ∈ mem.txs) : a = b :=
  (Prod.mk.inj (List.inj_on_of_nodup_map h.nodup ha hb rfl)).2

variable (hinj : Function.Injective txKey)
include hinj

theorem Shrinks.removeTx (h : ListInv txKey mem) {tx : Bytes} {e : Nat}
    (hget : mem.txsMap.get (txKey tx) = some e) (removeFromCache : Bool) :
    Shrinks txKey mem (mem.removeTx txKey tx e removeFromCache) := by
  obtain ⟨memTx, hmem, hkey⟩ := h.mapped _ _ hget
  have htx : memTx.tx = tx := hinj hkey
  have hbytes := bytesOf_filter_ne h.nodup hmem
  refine ⟨⟨?_, fun x hx => h.fresh x (List.mem_filter.mp hx).1, fun k e' hk => ?_, ?_⟩,
    rfl, rfl, rfl, ?_, ?_⟩
  · exact h.nodup.sublist ((List.filter_sublist).map _)
  · simp only [CListMempool.removeTx, GoMap.get_erase] at hk
    split_ifs at hk with hk'
    obtain ⟨m, hm, hmk⟩ := h.mapped k e' hk
    refine ⟨m, List.mem_filter.mpr ⟨hm, decide_eq_true fun he' => hk' ?_⟩, hmk⟩
    -- the element of `e` has the key of `tx`, so `k` maps elsewhere
    subst he'
    rw [← hmk, h.eq_of_mem hm hmem, hkey]
  · simp only [CListMempool.removeTx, h.txsBytes, hbytes, htx]
  · simp only [CListMempool.removeTx, CListMempool.size]
    exact_mod_cast List.length_filter_le _ _
  · have := Int.natCast_nonneg tx.length
    simp only [CListMempool.removeTx]
    omega

theorem Shrinks.removeTxByKey (h : ListInv txKey mem) (key : K) (removeFromCache : Bool) :
    Shrinks txKey mem (mem.removeTxByKey txKey key removeFromCache) := by
  unfold CListMempool.removeTxByKey
  split
  · exact .refl h
  · rename_i e hget
    split
    · exact .refl h
    · rename_i memTx hfind
      obtain ⟨⟨e', m⟩, hfound, rfl⟩ := Option.map_eq_some_iff.mp hfind
      have hm := List.mem_of_find?_eq_some hfound
      have he' : e' = e := by simpa using List.find?_some hfound
      subst he'
      obtain ⟨m', hm', hkey⟩ := h.mapped _ _ hget
      rw [h.eq_of_mem hm hm'] at ⊢
      rw [← hkey] at hget
      exact .removeTx hinj h hget removeFromCache

theorem Shrinks.resCbRecheck (h : ListInv txKey mem) (tx : Bytes) (passes : Bool) :
    Shrinks txKey mem (mem.resCbRecheck txKey tx passes) := by
  unfold CListMempool.resCbRecheck
  split
  · exact .refl h
  · rename_i e hget
    split
    · exact .refl h
    · exact .removeTx hinj h hget _

theorem Shrinks.updateBlockTxs (block : List (Bytes × Nat)) :
    ∀ {mem : CListMempool K}, ListInv txKey mem → Shrinks txKey mem (mem.updateBlockTxs txKey block) := by
  induction block with
  | nil => exact fun h => .refl h
  | cons entry block ih =>
    intro mem h
    obtain ⟨tx, code⟩ := entry
    -- the cache step keeps the transactions
    have hcache : Shrinks txKey mem (if code = codeTypeOK then { mem with cache := (mem.cache.push (txKey tx)).1 }
        else if !mem.config.keepInvalidTxsInCache then { mem with cache := mem.cache.remove (txKey tx) }
        else mem) := by
      split_ifs
      · exact .withCache h _
      · exact .withCache h _
      · exact .refl h
    rw [CListMempool.updateBlockTxs]
    revert hcache
    generalize (if code = codeTypeOK then { mem with cache := (mem.cache.push (txKey tx)).1 }
        else if !mem.config.keepInvalidTxsInCache then { mem with cache := mem.cache.remove (txKey tx) }
        else mem) = mem₁
    intro h₁
    -- then the committed transaction goes from whatever the cache step left
    split
    · rename_i e hget
      have hstep : Shrinks txKey mem₁ (mem₁.removeTx txKey tx e false) := .removeTx hinj h₁.inv hget false
      exact h₁.trans (hstep.trans (ih hstep.inv))
    · exact h₁.trans (ih h₁.inv)

theorem Shrinks.recheckTxs (passes : Bytes → Bool) :
    ∀ (txs : List Bytes) {mem : CListMempool K}, ListInv txKey mem →
      Shrinks txKey mem (txs.foldl (fun mem tx => mem.resCbRecheck txKey tx (passes tx)) mem)
  | [], _, h => .refl h
  | tx :: txs, _, h =>
    have hstep := Shrinks.resCbRecheck hinj h tx (passes tx)
    hstep.trans (Shrinks.recheckTxs passes txs hstep.inv)

theorem Shrinks.update (h : ListInv txKey mem) (height : Int) (block : List (Bytes × Nat))
    (recheckPasses : Bytes → Bool) :
    Shrinks txKey mem (mem.update txKey height block recheckPasses) := by
  have hheight : Shrinks txKey mem { mem with height := height } :=
    ⟨⟨h.nodup, h.fresh, h.mapped, h.txsBytes⟩, rfl, rfl, rfl, le_rfl, le_rfl⟩
  have hblock := hheight.trans (Shrinks.updateBlockTxs hinj block hheight.inv)
  simp only [CListMempool.update]
  split
  · exact hblock.trans (Shrinks.recheckTxs hinj recheckPasses _ hblock.inv)
  · exact hblock

omit hinj in
theorem Shrinks.flush (h : ListInv txKey mem) : Shrinks txKey mem mem.flush := by
  have := bytesOf_nonneg mem.txs
  have := h.txsBytes
  refine ⟨⟨List.nodup_nil, fun _ he => absurd he List.not_mem_nil, fun k e hk => ?_, rfl⟩,
    rfl, rfl, rfl, ?_, ?_⟩
  · simp [CListMempool.flush] at hk
  · simp [CListMempool.flush, CListMempool.size]
  · simp only [CListMempool.flush]
    omega

end Remove

/-! ## Checks in flight -/

section Checks

variable {txKey : Bytes → K} {mem mem' : CListMempool K} {tx : Bytes} {preCheckPasses : Bool}
  {result : Except CheckTxError Unit}

omit [DecidableEq K] in
theorem reserve_eq_some {mem mem' : CListMempool K} {txSize : Int} (h : mem.reserve txSize = some mem') :
    mem' = { mem with reserved := mem.reserved + 1, reservedBytes := mem.reservedBytes + txSize } ∧
      mem.size + mem.reserved < mem.config.size ∧
      txSize + mem.reservedBytes + mem.txsBytes ≤ mem.config.maxTxsBytes := by
  unfold CListMempool.reserve at h
  split_ifs at h with hfull
  cases h
  simp only [Bool.or_eq_true, decide_eq_true_eq, not_or, not_le] at hfull
  exact ⟨rfl, hfull.1, by omega⟩

theorem prepareCheckTx_cases (h : mem.prepareCheckTx txKey tx preCheckPasses = (mem', result)) :
    (∃ cache err, mem' = { mem with cache := cache } ∧ result = .error err) ∨
      (∃ cache, mem' =
          { mem with
            cache := cache
            reserved := mem.reserved + 1
            reservedBytes := mem.reservedBytes + tx.length } ∧ result = .ok () ∧
        mem.size + mem.reserved < mem.config.size ∧
        (tx.length : Int) + mem.reservedBytes + mem.txsBytes ≤ mem.config.maxTxsBytes) := by
  unfold CListMempool.prepareCheckTx at h
  split_ifs at h
  all_goals try (cases h; exact .inl ⟨mem.cache, _, rfl, rfl⟩)
  generalize hpush : mem.cache.push (txKey tx) = pushed at h
  obtain ⟨cache, isNew⟩ := pushed
  cases isNew
  · cases h
    exact .inl ⟨cache, _, rfl, rfl⟩
  · simp only [Bool.not_true, Bool.false_eq_true, ↓reduceIte] at h
    split at h
    · rename_i reserved hreserve
      cases h
      obtain ⟨rfl, hsize, hbytes⟩ := reserve_eq_some hreserve
      exact .inr ⟨cache, rfl, rfl, hsize, hbytes⟩
    · cases h
      exact .inl ⟨cache.remove (txKey tx), _, rfl, rfl⟩

theorem ListInv.resCbFirstTime (h : ListInv txKey mem) (tx : Bytes) (code : Nat) (gasWanted : Int) :
    ListInv txKey (mem.resCbFirstTime txKey tx code gasWanted) := by
  unfold CListMempool.resCbFirstTime CListMempool.releaseReserve
  split_ifs
  · have := h.addTx ⟨mem.height, gasWanted, tx⟩
    exact ⟨this.nodup, this.fresh, this.mapped, this.txsBytes⟩
  · exact ⟨h.nodup, h.fresh, h.mapped, h.txsBytes⟩
  · exact ⟨h.nodup, h.fresh, h.mapped, h.txsBytes⟩

theorem resCbFirstTime_counts (mem : CListMempool K) (tx : Bytes) (code : Nat) (gasWanted : Int) :
    let mem' := mem.resCbFirstTime txKey tx code gasWanted
    mem'.config = mem.config ∧ mem'.reserved = mem.reserved - 1 ∧
      mem'.reservedBytes = mem.reservedBytes - tx.length ∧
      ((mem'.size = mem.size + 1 ∧ mem'.txsBytes = mem.txsBytes + tx.length) ∨
        (mem'.size = mem.size ∧ mem'.txsBytes = mem.txsBytes)) := by
  unfold CListMempool.resCbFirstTime CListMempool.releaseReserve
  split_ifs
  · simp [CListMempool.addTx, CListMempool.size]
  · simp [CListMempool.size]
  · simp [CListMempool.size]

end Checks

/-! ## The node -/

/-- What the node keeps over every run. -/
structure MempoolInv (txKey : Bytes → K) (node : MempoolNode K) : Prop where
  list : ListInv txKey node.mempool
  reserved : node.mempool.reserved = node.pending.length
  reservedBytes : node.mempool.reservedBytes = pendingBytes node.pending
  size_le : node.mempool.size + node.mempool.reserved ≤ node.mempool.config.size
  bytes_le : node.mempool.txsBytes + node.mempool.reservedBytes ≤ node.mempool.config.maxTxsBytes

namespace MempoolInv

variable {txKey : Bytes → K} {node : MempoolNode K}

theorem init (config : MempoolConfig) (height : Int) (hsize : 0 ≤ config.size)
    (hbytes : 0 ≤ config.maxTxsBytes) :
    MempoolInv txKey ⟨CListMempool.newCListMempool config height, []⟩ := by
  refine ⟨⟨List.nodup_nil, fun _ he => absurd he List.not_mem_nil, fun k e hk => ?_, rfl⟩,
    rfl, rfl, ?_, ?_⟩
  · simp [CListMempool.newCListMempool] at hk
  · simpa [CListMempool.newCListMempool, CListMempool.size] using hsize
  · simpa [CListMempool.newCListMempool] using hbytes

theorem shrink (h : MempoolInv txKey node) {mem' : CListMempool K}
    (hs : Shrinks txKey node.mempool mem') : MempoolInv txKey ⟨mem', node.pending⟩ := by
  have := h.size_le
  have := h.bytes_le
  have := hs.size_le
  have := hs.txsBytes_le
  refine ⟨hs.inv, hs.reserved.trans h.reserved, hs.reservedBytes.trans h.reservedBytes, ?_, ?_⟩
  · dsimp only
    rw [hs.config, hs.reserved]
    omega
  · dsimp only
    rw [hs.config, hs.reservedBytes]
    omega

theorem checkTx_error (h : MempoolInv txKey node) {mem' : CListMempool K} {tx : Bytes} {b : Bool}
    {err : CheckTxError} (hcheck : node.mempool.prepareCheckTx txKey tx b = (mem', .error err)) :
    MempoolInv txKey ⟨mem', node.pending⟩ := by
  rcases prepareCheckTx_cases hcheck with ⟨cache, _, rfl, -⟩ | ⟨_, _, hok, -⟩
  · exact h.shrink (.withCache h.list cache)
  · cases hok

theorem checkTx_ok (h : MempoolInv txKey node) {mem' : CListMempool K} {tx : Bytes} {b : Bool}
    (hcheck : node.mempool.prepareCheckTx txKey tx b = (mem', .ok ())) :
    MempoolInv txKey ⟨mem', node.pending ++ [tx]⟩ := by
  rcases prepareCheckTx_cases hcheck with ⟨_, _, _, herr⟩ | ⟨cache, rfl, -, hsize, hbytes⟩
  · cases herr
  · have hr := h.reserved
    have hrb := h.reservedBytes
    refine ⟨⟨h.list.nodup, h.list.fresh, h.list.mapped, h.list.txsBytes⟩, ?_, ?_, ?_, ?_⟩
    · simp only [List.length_append, List.length_singleton]
      omega
    · simp only [pendingBytes_append, pendingBytes_cons, pendingBytes_nil]
      omega
    · simp only [CListMempool.size] at hsize ⊢
      omega
    · dsimp only
      omega

theorem respond (h : MempoolInv txKey node) {tx : Bytes} {pending : List Bytes}
    (hpending : node.pending = tx :: pending) (code : Nat) (gasWanted : Int) :
    MempoolInv txKey ⟨node.mempool.resCbFirstTime txKey tx code gasWanted, pending⟩ := by
  have hr := h.reserved
  have hrb := h.reservedBytes
  have hs := h.size_le
  have hb := h.bytes_le
  have hlen := Int.natCast_nonneg tx.length
  rw [hpending] at hr hrb
  simp only [List.length_cons, pendingBytes_cons] at hr hrb
  obtain ⟨hconfig, hres, hresBytes, hmoved⟩ := @resCbFirstTime_counts K _ txKey node.mempool tx code gasWanted
  refine ⟨h.list.resCbFirstTime tx code gasWanted, ?_, ?_, ?_, ?_⟩ <;> dsimp only
  · omega
  · omega
  · rw [hconfig, hres]
    omega
  · rw [hconfig, hresBytes]
    omega

end MempoolInv

namespace MempoolNode

variable {txKey : Bytes → K}

theorem step_inv (hinj : Function.Injective txKey) {node node' : MempoolNode K} {event : MempoolEvent K}
    (h : MempoolInv txKey node) (hstep : node.step txKey event = some node') : MempoolInv txKey node' := by
  cases event with
  | checkTx tx preCheckPasses =>
    simp only [step] at hstep
    generalize hcheck : node.mempool.prepareCheckTx txKey tx preCheckPasses = checked at hstep
    obtain ⟨mem', result⟩ := checked
    cases result with
    | error err =>
      cases hstep
      exact h.checkTx_error hcheck
    | ok u =>
      cases hstep
      exact h.checkTx_ok hcheck
  | respond code gasWanted =>
    simp only [step] at hstep
    split at hstep
    · cases hstep
    · rename_i tx pending hpending
      cases hstep
      exact h.respond hpending code gasWanted
  | update height block recheckPasses =>
    simp only [step] at hstep
    split_ifs at hstep with hpending
    cases hstep
    have := h.shrink (Shrinks.update hinj h.list height block recheckPasses)
    rwa [hpending] at this
  | removeTxByKey key removeFromCache =>
    cases hstep
    exact h.shrink (Shrinks.removeTxByKey hinj h.list key removeFromCache)
  | flush =>
    simp only [step] at hstep
    split_ifs at hstep with hpending
    cases hstep
    have := h.shrink (Shrinks.flush h.list)
    rwa [hpending] at this

/-- Over every run from `NewCListMempool`, the reservations count the checks
in flight, `txsBytes` the listed bytes, and the limits hold. -/
theorem mempoolRun_inv (hinj : Function.Injective txKey) (config : MempoolConfig) (height : Int)
    (hsize : 0 ≤ config.size) (hbytes : 0 ≤ config.maxTxsBytes) :
    ∀ (events : List (MempoolEvent K)) {node : MempoolNode K},
      (⟨CListMempool.newCListMempool config height, []⟩ : MempoolNode K).run txKey events = some node →
      MempoolInv txKey node := by
  suffices hrun : ∀ (events : List (MempoolEvent K)) {start node : MempoolNode K},
      MempoolInv txKey start → start.run txKey events = some node → MempoolInv txKey node from
    fun events _ h => hrun events (.init config height hsize hbytes) h
  intro events
  induction events with
  | nil =>
    intro start node h hrun
    cases hrun
    exact h
  | cons event events ih =>
    intro start node h hrun
    obtain ⟨node₁, hstep, hrest⟩ := Option.bind_eq_some_iff.mp hrun
    exact ih (step_inv hinj h hstep) hrest

/-- `mempoolRun_inv` over the run that lists one transaction twice through a
cache of one key. -/
theorem mempoolRun_inv_evictedRun :
    ∃ node, (⟨CListMempool.newCListMempool (smallConfig 1) 0, []⟩ : MempoolNode Bytes).run id evictedRun =
      some node ∧ MempoolInv id node := by
  obtain ⟨node, hrun⟩ := Option.isSome_iff_exists.mp (by decide :
    ((⟨CListMempool.newCListMempool (smallConfig 1) 0, []⟩ : MempoolNode Bytes).run id evictedRun).isSome = true)
  exact ⟨node, hrun, mempoolRun_inv Function.injective_id (smallConfig 1) 0 (by decide) (by decide) _ hrun⟩

end MempoolNode

end Ostracon.Mempool
