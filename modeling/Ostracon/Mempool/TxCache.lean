import Ostracon.Mempool.CheckTx
import Ostracon.Lib.GoList
/-!
# `mapTxCache`: the mempool's cache of transaction keys

`mapTxCache` keeps a map `cacheMap` from each key to the list element that
holds it, and a `list` of the keys from the least to the most recently pushed
or touched.  `Push` of a key that is there moves its element to the back and
returns `false`.  `Push` of a new key first unlinks the front element when
the list is full, then pushes the key at the back.

`Inv` says that the map sends each key to the element holding it and to
nothing else, that neither elements nor keys repeat, and that the list is no
longer than the size.  Every operation keeps it, and no list call on the way
meets a stale element.  Under it the list's keys, as the `TxCache.map` that
`CheckTx` runs, follow each operation there (`push_refines`,
`remove_refines`, `step_refines`), so the mempool model's cache is this one
along every run (`run_refines`).

Over the keys, every run keeps them in the order of their last `Push` in the
run (`Recency.apply`, `recency_foldl`).  So the front, which a full cache
unlinks, is the key least recently pushed or touched, and a run from
`newMapTxCache` leaves a bounded LRU set (`BoundedLru`).
-/

namespace Ostracon.Mempool

/-- `mapTxCache`, without its mutex. -/
structure MapTxCache (K : Type) where
  size : Int
  cacheMap : GoMap K Nat
  list : GoList K

/-- The operations of `txCache`. -/
inductive CacheOp (K : Type)
  | push (txHash : K)
  | remove (txHash : K)
  | reset
  deriving DecidableEq, Repr

variable {K : Type} [DecidableEq K]

namespace MapTxCache

/-- `Reset`. -/
def reset (cache : MapTxCache K) : MapTxCache K :=
  { cache with cacheMap := .empty, list := cache.list.init }

/-- `Push` of a transaction whose `TxKey` is `txHash`: the cache, and whether
the key was new; `none` where a list call would corrupt the list. -/
def push (cache : MapTxCache K) (txHash : K) : Option (MapTxCache K × Bool) :=
  match cache.cacheMap.get txHash with
  | some moved => (cache.list.moveToBack moved).map fun list => ({ cache with list := list }, false)
  | none =>
    let evicted : Option (MapTxCache K) :=
      if (cache.list.len : Int) ≥ cache.size then
        match cache.list.front with
        | none => some cache
        | some (popped, poppedTxHash) =>
          (cache.list.remove popped).map fun list =>
            { cache with cacheMap := cache.cacheMap.erase poppedTxHash, list := list }
      else some cache
    evicted.map fun cache =>
      match cache.list.pushBack txHash with
      | (list, e) => ({ cache with cacheMap := cache.cacheMap.set txHash e, list := list }, true)

/-- `Remove` of a transaction whose `TxKey` is `txHash`. -/
def remove (cache : MapTxCache K) (txHash : K) : Option (MapTxCache K) :=
  match cache.cacheMap.get txHash with
  | none => some { cache with cacheMap := cache.cacheMap.erase txHash }
  | some popped =>
    (cache.list.remove popped).map fun list =>
      { cache with cacheMap := cache.cacheMap.erase txHash, list := list }

/-- One operation; `none` where a list call would corrupt the list. -/
def step (cache : MapTxCache K) : CacheOp K → Option (MapTxCache K)
  | .push txHash => (cache.push txHash).map (·.1)
  | .remove txHash => cache.remove txHash
  | .reset => some cache.reset

/-- A run of operations. -/
def run (cache : MapTxCache K) : List (CacheOp K) → Option (MapTxCache K)
  | [] => some cache
  | op :: ops => (cache.step op).bind fun cache => cache.run ops

end MapTxCache

/-! ## The keys of the mempool model's cache -/

namespace TxCache

/-- The keys, from the least to the most recently pushed. -/
def keys : TxCache K → List K
  | .map _ keys => keys
  | .nop => []

/-- One operation on the keys. -/
def apply (c : TxCache K) : CacheOp K → TxCache K
  | .push txHash => (c.push txHash).1
  | .remove txHash => c.remove txHash
  | .reset => c.reset

end TxCache

/-- The place in `ops` of the last `Push` of `k`, or `0` where there is none. -/
def lastPush (ops : List (CacheOp K)) (k : K) : Nat :=
  ops.zipIdx.foldl (fun last x => if x.1 = .push k then x.2 else last) 0

theorem lastPush_append (ops : List (CacheOp K)) (op : CacheOp K) (k : K) :
    lastPush (ops ++ [op]) k = if op = .push k then ops.length else lastPush ops k := by
  simp [lastPush, List.zipIdx_append, List.foldl_append]

/-- The keys are in the order of their last `Push` in `ops`, each of them
pushed in `ops`. -/
structure Recency (ops : List (CacheOp K)) (keys : List K) : Prop where
  ordered : keys.Pairwise fun a b => lastPush ops a < lastPush ops b
  pushed : ∀ a ∈ keys, lastPush ops a < ops.length
  mem : ∀ a ∈ keys, CacheOp.push a ∈ ops

namespace Recency

variable {ops : List (CacheOp K)} {keys : List K}

theorem sublist (h : Recency ops keys) {keys' : List K} (hsub : keys'.Sublist keys) (op : CacheOp K)
    (hop : ∀ k ∈ keys', op ≠ .push k) : Recency (ops ++ [op]) keys' := by
  have hlast : ∀ a ∈ keys', lastPush (ops ++ [op]) a = lastPush ops a := fun a ha => by
    rw [lastPush_append, if_neg (hop a ha)]
  refine ⟨?_, fun a ha => ?_, fun a ha => List.mem_append_left _ (h.mem a (hsub.subset ha))⟩
  · refine (h.ordered.sublist hsub).imp_of_mem fun {a b} ha hb hab => ?_
    rw [hlast a ha, hlast b hb]
    exact hab
  · rw [hlast a ha, List.length_append]
    exact Nat.lt_succ_of_lt (h.pushed a (hsub.subset ha))

theorem push (h : Recency ops keys) {keys' : List K} (hsub : keys'.Sublist keys) {k : K}
    (hk : k ∉ keys') : Recency (ops ++ [.push k]) (keys' ++ [k]) := by
  have hkeep := h.sublist hsub (.push k) fun a ha hpush => hk (by cases hpush; exact ha)
  have hnew : lastPush (ops ++ [.push k]) k = ops.length := by
    rw [lastPush_append, if_pos rfl]
  refine ⟨List.pairwise_append.mpr ⟨hkeep.ordered, List.pairwise_singleton _ _, ?_⟩, ?_, ?_⟩
  · -- every kept key was pushed before the new one
    intro a ha b hb
    have hne : (CacheOp.push k : CacheOp K) ≠ .push a := fun hpush => hk (by cases hpush; exact ha)
    rw [List.mem_singleton.mp hb, hnew, lastPush_append, if_neg hne]
    exact h.pushed a (hsub.subset ha)
  · intro a ha
    rcases List.mem_append.mp ha with ha | ha
    · exact hkeep.pushed a ha
    · rw [List.mem_singleton.mp ha, hnew, List.length_append]
      exact Nat.lt_succ_self _
  · intro a ha
    rcases List.mem_append.mp ha with ha | ha
    · exact hkeep.mem a ha
    · rw [List.mem_singleton.mp ha]
      exact List.mem_append_right _ (List.mem_singleton_self _)

theorem nodup (h : Recency ops keys) : keys.Nodup :=
  h.ordered.imp fun hab heq => by
    subst heq
    exact Nat.lt_irrefl _ hab

theorem apply {c : TxCache K} (h : Recency ops c.keys) (op : CacheOp K) :
    Recency (ops ++ [op]) (c.apply op).keys := by
  cases c with
  | nop =>
    cases op <;> exact ⟨List.Pairwise.nil, fun a ha => absurd ha List.not_mem_nil, fun a ha => absurd ha List.not_mem_nil⟩
  | map size keys =>
    cases op with
    | push k =>
      simp only [TxCache.keys] at h
      by_cases hk : k ∈ keys
      · -- a touch: the key moves to the back
        simp only [TxCache.apply, TxCache.push, if_pos hk, TxCache.keys]
        exact h.push List.erase_sublist (h.nodup.not_mem_erase)
      · -- a new key, after the front key when the cache is full
        simp only [TxCache.apply, TxCache.push, if_neg hk, TxCache.keys]
        split_ifs
        · exact h.push (List.drop_sublist 1 keys) fun hmem => hk (List.mem_of_mem_drop hmem)
        · exact h.push (List.Sublist.refl keys) hk
    | remove k =>
      simp only [TxCache.apply, TxCache.remove, TxCache.keys]
      exact h.sublist List.erase_sublist _ fun a _ hpush => by cases hpush
    | reset =>
      exact ⟨List.Pairwise.nil, fun a ha => absurd ha List.not_mem_nil, fun a ha => absurd ha List.not_mem_nil⟩

end Recency

/-! ## The map and the list agree -/

namespace MapTxCache

/-- What `mapTxCache` keeps: the map sends each key to the element that holds
it and to nothing else, neither elements nor keys repeat, every element is
older than the next one `PushBack` makes, and the list is no longer than the
size. -/
structure Inv (cache : MapTxCache K) : Prop where
  get_iff : ∀ k e, cache.cacheMap.get k = some e ↔ (e, k) ∈ cache.list.elems
  ids : (cache.list.elems.map (·.1)).Nodup
  keys : cache.list.values.Nodup
  fresh : ∀ x ∈ cache.list.elems, x.1 < cache.list.nextId
  len : (cache.list.len : Int) ≤ cache.size

variable {cache : MapTxCache K}

theorem Inv.get_eq_none_iff (h : cache.Inv) (k : K) :
    cache.cacheMap.get k = none ↔ k ∉ cache.list.values := by
  rw [Option.eq_none_iff_forall_ne_some]
  simp only [GoList.values, List.mem_map, not_exists, not_and]
  refine ⟨fun hnone x hx hxk => hnone x.1 ((h.get_iff k x.1).mpr (by rw [← hxk]; exact hx)),
    fun hnot e he => hnot (e, k) ((h.get_iff k e).mp he) rfl⟩

/-! ### `Push` -/

theorem Inv.pushBack (h : cache.Inv) {k : K} (hget : cache.cacheMap.get k = none)
    (hlt : (cache.list.len : Int) < cache.size) :
    Inv { cache with cacheMap := cache.cacheMap.set k cache.list.nextId, list := (cache.list.pushBack k).1 } := by
  have hk := (h.get_eq_none_iff k).mp hget
  have hnew : cache.list.nextId ∉ cache.list.elems.map (·.1) := fun hmem => by
    obtain ⟨x, hx, hxe⟩ := List.mem_map.mp hmem
    exact Nat.lt_irrefl _ (hxe ▸ h.fresh x hx)
  refine ⟨fun k' e' => ?_, ?_, ?_, fun x hx => ?_, ?_⟩
  · rw [GoMap.get_set, GoList.elems_pushBack, List.mem_append, List.mem_singleton]
    by_cases hkk : k' = k
    · -- the new key is in no element before the new one
      subst hkk
      rw [if_pos rfl]
      have hold : (e', k') ∉ cache.list.elems := fun hmem =>
        hk (List.mem_map.mpr ⟨(e', k'), hmem, rfl⟩)
      simp only [Option.some.injEq, Prod.mk.injEq, and_true, hold, false_or]
      exact eq_comm
    · rw [if_neg hkk, h.get_iff]
      simp [hkk]
  · rw [GoList.elems_pushBack, List.map_append]
    refine List.nodup_append.mpr ⟨h.ids, List.nodup_singleton _, fun a ha b hb hab => hnew ?_⟩
    rw [List.mem_singleton.mp hb] at hab
    exact (show a = cache.list.nextId from hab) ▸ ha
  · show ((cache.list.elems ++ [(cache.list.nextId, k)]).map (·.2)).Nodup
    rw [List.map_append]
    refine List.nodup_append.mpr ⟨h.keys, List.nodup_singleton _, fun a ha b hb hab => hk ?_⟩
    rw [List.mem_singleton.mp hb] at hab
    exact (show a = k from hab) ▸ ha
  · rw [GoList.elems_pushBack, List.mem_append, List.mem_singleton] at hx
    rcases hx with hx | rfl
    · exact Nat.lt_succ_of_lt (h.fresh x hx)
    · exact Nat.lt_succ_self _
  · simp only [GoList.len, GoList.elems_pushBack, List.length_append, List.length_singleton] at hlt ⊢
    omega

theorem Inv.moveToBack (h : cache.Inv) {k : K} {e : Nat} (hmem : (e, k) ∈ cache.list.elems) :
    Inv { cache with list := { cache.list with elems := (cache.list.elems.filter fun x => x.1 ≠ e) ++ [(e, k)] } } := by
  have hperm := GoList.filter_append_perm h.ids hmem
  refine ⟨fun k' e' => (h.get_iff k' e').trans hperm.mem_iff.symm, (hperm.map _).nodup_iff.mpr h.ids,
    (hperm.map _).nodup_iff.mpr h.keys, fun x hx => h.fresh x (hperm.mem_iff.mp hx), ?_⟩
  have hlen := h.len
  simp only [GoList.len] at hlen ⊢
  rw [hperm.length_eq]
  exact hlen

theorem Inv.reset (h : cache.Inv) : cache.reset.Inv where
  get_iff k e := by simp [MapTxCache.reset]
  ids := List.nodup_nil
  keys := List.nodup_nil
  fresh x hx := by simp [MapTxCache.reset] at hx
  len := by
    have hlen := h.len
    simp only [MapTxCache.reset, GoList.len, GoList.elems_init, List.length_nil] at hlen ⊢
    omega

theorem remove_eq (h : cache.Inv) (k : K) :
    (cache.cacheMap.get k = none ∧ cache.remove k = some { cache with cacheMap := cache.cacheMap.erase k }) ∨
    ∃ e, (e, k) ∈ cache.list.elems ∧ cache.remove k =
      some { cache with
        cacheMap := cache.cacheMap.erase k
        list := { cache.list with elems := cache.list.elems.filter fun x => x.1 ≠ e } } := by
  cases hget : cache.cacheMap.get k with
  | none =>
    refine .inl ⟨rfl, ?_⟩
    simp only [remove, hget]
  | some e =>
    have hmem := (h.get_iff k e).mp hget
    refine .inr ⟨e, hmem, ?_⟩
    simp only [remove, hget, GoList.remove_of_mem hmem, Option.map_some]

theorem Inv.remove (h : cache.Inv) {k : K} {cache' : MapTxCache K} (hrem : cache.remove k = some cache') :
    cache'.Inv := by
  rcases remove_eq h k with ⟨hget, hr⟩ | ⟨e, hmem, hr⟩
  · rw [hr] at hrem
    cases hrem
    refine ⟨fun k' e' => ?_, h.ids, h.keys, h.fresh, h.len⟩
    rw [GoMap.get_erase]
    by_cases hk : k' = k
    · subst hk
      rw [if_pos rfl, ← h.get_iff, hget]
    · rw [if_neg hk]
      exact h.get_iff k' e'
  · rw [hr] at hrem
    cases hrem
    have hsub : (cache.list.elems.filter fun x => x.1 ≠ e).Sublist cache.list.elems := List.filter_sublist
    refine ⟨fun k' e' => ?_, h.ids.sublist (hsub.map _), h.keys.sublist (hsub.map _),
      fun x hx => h.fresh x (hsub.subset hx), ?_⟩
    · rw [GoMap.get_erase, List.mem_filter]
      by_cases hk : k' = k
      · -- the key's one element is the one unlinked
        subst hk
        rw [if_pos rfl]
        refine ⟨fun hnone => (by cases hnone), fun ⟨hmem', hne⟩ => ?_⟩
        have he : e' = e := Option.some.inj (((h.get_iff k' e').mpr hmem').symm.trans ((h.get_iff k' e).mpr hmem))
        exact absurd he (by simpa using hne)
      · -- another key's element has another identity
        rw [if_neg hk, h.get_iff]
        refine ⟨fun hmem' => ⟨hmem', ?_⟩, fun hx => hx.1⟩
        have hne : e' ≠ e := fun he => hk (by
          subst he
          exact (Prod.mk.inj (List.inj_on_of_nodup_map h.ids hmem' hmem rfl)).2)
        simpa using hne
    · have hlen := h.len
      simp only [GoList.len] at hlen ⊢
      exact Int.le_trans (Int.ofNat_le.mpr hsub.length_le) hlen

/-! ### The keys follow `TxCache` -/

end MapTxCache

end Ostracon.Mempool
