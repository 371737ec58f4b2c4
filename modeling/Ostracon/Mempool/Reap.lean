import Ostracon.Lib.GoInt
import Ostracon.Crypto.Merkle
/-!
# `mempool/clist_mempool.go`: reaping transactions for a block

The three reap functions walk the mempool's list of transactions from the
front and return a prefix of it.

* `ReapMaxBytesMaxGas` stops before the first transaction that would make the
  protobuf `Data` of the reaped transactions larger than `maxBytes`, or their
  gas wanted larger than `maxGas`.  `-1` means no limit.
* `ReapMaxBytesMaxGasMaxTxs` also stops after `maxTxs` transactions; a count
  of zero or less means no limit.
* `ReapMaxTxs` takes transactions while it holds at most `max` of them; a
  negative `max` means no limit.

When the gas wanted of the whole mempool is an `int64` sum of nonnegative
values, the first two return the longest prefix that fits every limit
(`reapMaxBytesMaxGas_longest`, `reapMaxBytesMaxGasMaxTxs_longest`).  Without
that, the running total wraps past a large gas wanted and the gas check
passes.  `ReapMaxTxs` tests its count before it appends, so it returns one
transaction more than `max` whenever the mempool holds more
(`reapMaxTxs_eq_take`).
-/

namespace Ostracon.Mempool

open Ostracon.Crypto.Merkle GoInt

/-- `mempoolTx`, without the senders that no function here reads. -/
structure MempoolTx where
  /-- the height at which the transaction was checked -/
  height : Int
  gasWanted : Int
  tx : Bytes
  deriving DecidableEq, Repr

/-- `sovTypes`: the length of the varint encoding of `x`,
`(bits.Len64(x|1) + 6) / 7`. -/
def sovTypes (x : Nat) : Nat := (Nat.log2 (x ||| 1) + 1 + 6) / 7

/-- `Data.Size()`: each transaction is a length-delimited field 1. -/
def dataSize (txs : List Bytes) : Nat :=
  (txs.map fun b => 1 + b.length + sovTypes b.length).sum

/-- The loop shared by `ReapMaxBytesMaxGas` and `ReapMaxBytesMaxGasMaxTxs`,
from the remaining transactions with `protoTxs`, `totalGas` and `txs` so far.
`more` is the count guard of the loop on `len(txs)`; the first function has
none. -/
def reapLoop (more : Nat → Bool) (maxBytes maxGas : Int) :
    List MempoolTx → List Bytes → Int → List Bytes → List Bytes
  | [], _, _, txs => txs
  | memTx :: rest, protoTxs, totalGas, txs =>
    if more txs.length then
      let protoTxs := protoTxs ++ [memTx.tx]
      if maxBytes > -1 ∧ (dataSize protoTxs : Int) > maxBytes then txs
      else
        let newTotalGas := add totalGas memTx.gasWanted
        if maxGas > -1 ∧ newTotalGas > maxGas then txs
        else reapLoop more maxBytes maxGas rest protoTxs newTotalGas (txs ++ [memTx.tx])
    else txs

/-- `ReapMaxBytesMaxGas`. -/
def reapMaxBytesMaxGas (mempool : List MempoolTx) (maxBytes maxGas : Int) : List Bytes :=
  reapLoop (fun _ => true) maxBytes maxGas mempool [] 0 []

/-- `ReapMaxBytesMaxGasMaxTxs`. -/
def reapMaxBytesMaxGasMaxTxs (mempool : List MempoolTx) (maxBytes maxGas maxTxs : Int) :
    List Bytes :=
  let maxTxs := if maxTxs ≤ 0 then (mempool.length : Int) else maxTxs
  reapLoop (fun n => decide ((n : Int) < maxTxs)) maxBytes maxGas mempool [] 0 []

/-- The loop of `ReapMaxTxs`: it appends while `len(txs) <= max`. -/
def reapMaxTxsLoop (max : Int) : List MempoolTx → List Bytes → List Bytes
  | [], txs => txs
  | memTx :: rest, txs =>
    if (txs.length : Int) ≤ max then reapMaxTxsLoop max rest (txs ++ [memTx.tx]) else txs

/-- `ReapMaxTxs`. -/
def reapMaxTxs (mempool : List MempoolTx) (max : Int) : List Bytes :=
  let max := if max < 0 then (mempool.length : Int) else max
  reapMaxTxsLoop max mempool []

/-! ## The limits -/

/-- The gas wanted by the first `n` transactions. -/
def gasOfPrefix (mempool : List MempoolTx) (n : Nat) : Int :=
  ((mempool.take n).map (·.gasWanted)).sum

/-- The first `n` transactions fit the limits: at most `count` of them, a
`Data` of at most `maxBytes` bytes unless that is `-1`, and at most `maxGas`
gas wanted unless that is `-1`. -/
def Admissible (mempool : List MempoolTx) (maxBytes maxGas : Int) (count n : Nat) : Prop :=
  n ≤ count ∧ (maxBytes > -1 → (dataSize ((mempool.take n).map (·.tx)) : Int) ≤ maxBytes) ∧
    (maxGas > -1 → gasOfPrefix mempool n ≤ maxGas)

theorem dataSize_append (txs txs' : List Bytes) : dataSize (txs ++ txs') = dataSize txs + dataSize txs' := by
  simp [dataSize]

theorem dataSize_take_mono (txs : List Bytes) {m n : Nat} (h : m ≤ n) :
    dataSize (txs.take m) ≤ dataSize (txs.take n) := by
  rw [← List.take_append_drop m (txs.take n), List.take_take, Nat.min_eq_left h, dataSize_append]
  omega

theorem gasOfPrefix_mono {mempool : List MempoolTx} (hgas : ∀ memTx ∈ mempool, 0 ≤ memTx.gasWanted)
    {m n : Nat} (h : m ≤ n) : gasOfPrefix mempool m ≤ gasOfPrefix mempool n := by
  unfold gasOfPrefix
  rw [← List.take_append_drop m (mempool.take n), List.take_take, Nat.min_eq_left h, List.map_append,
    List.sum_append]
  have hrest : 0 ≤ (((mempool.take n).drop m).map (·.gasWanted)).sum :=
    List.sum_nonneg fun x hx => by
      obtain ⟨memTx, hmem, rfl⟩ := List.mem_map.mp hx
      exact hgas memTx (List.mem_of_mem_take (List.mem_of_mem_drop hmem))
  omega

theorem Admissible.mono {mempool : List MempoolTx} {maxBytes maxGas : Int} {count m n : Nat}
    (hgas : ∀ memTx ∈ mempool, 0 ≤ memTx.gasWanted) (h : Admissible mempool maxBytes maxGas count n)
    (hmn : m ≤ n) : Admissible mempool maxBytes maxGas count m := by
  obtain ⟨hcount, hbytes, hgasn⟩ := h
  refine ⟨by omega, fun hb => ?_, fun hg => ?_⟩
  · have := dataSize_take_mono (mempool.map (·.tx)) hmn
    rw [← List.map_take, ← List.map_take] at this
    have := hbytes hb
    omega
  · have := gasOfPrefix_mono hgas hmn
    have := hgasn hg
    omega

/-! ## The loop reaps the longest prefix that fits -/

section Loop

variable {mempool : List MempoolTx} {maxBytes maxGas : Int} {more : Nat → Bool} {count : Nat}

theorem take_succ_map_tx {k : Nat} (hk : k < mempool.length) :
    (mempool.take k).map (·.tx) ++ [mempool[k].tx] = (mempool.take (k + 1)).map (·.tx) := by
  rw [List.take_add_one, List.getElem?_eq_getElem hk, Option.toList_some, List.map_append,
    List.map_singleton]

theorem gasOfPrefix_succ {k : Nat} (hk : k < mempool.length) :
    gasOfPrefix mempool (k + 1) = gasOfPrefix mempool k + mempool[k].gasWanted := by
  unfold gasOfPrefix
  rw [List.take_add_one, List.getElem?_eq_getElem hk, Option.toList_some, List.map_append,
    List.map_singleton, List.sum_append, List.sum_singleton]

theorem gasOfPrefix_length : gasOfPrefix mempool mempool.length = (mempool.map (·.gasWanted)).sum := by
  rw [gasOfPrefix, List.take_of_length_le (Nat.le_refl _)]

theorem gasOfPrefix_nonneg (hgas : ∀ memTx ∈ mempool, 0 ≤ memTx.gasWanted) (k : Nat) :
    0 ≤ gasOfPrefix mempool k := by
  have h0 : gasOfPrefix mempool 0 = 0 := by simp [gasOfPrefix]
  exact h0 ▸ gasOfPrefix_mono hgas (Nat.zero_le k)

/-- The loop from the `k`-th transaction, with the first `k` reaped: it ends
with a prefix of at least `k` transactions that fits the limits and cannot
grow by one.  The induction is on the transactions left, and the accumulators
stay those of the prefix reaped so far. -/
theorem reapLoop_spec (hgas : ∀ memTx ∈ mempool, 0 ≤ memTx.gasWanted)
    (hsum : (mempool.map (·.gasWanted)).sum ≤ maxInt64)
    (hmore : ∀ m < mempool.length, more m = decide (m < count)) :
    ∀ (rest : List MempoolTx) (k : Nat), rest = mempool.drop k →
      Admissible mempool maxBytes maxGas count k →
      ∃ n, k ≤ n ∧ reapLoop more maxBytes maxGas rest ((mempool.take k).map (·.tx))
          (gasOfPrefix mempool k) ((mempool.take k).map (·.tx)) = (mempool.take n).map (·.tx) ∧
        Admissible mempool maxBytes maxGas count n ∧
        (n < mempool.length → ¬Admissible mempool maxBytes maxGas count (n + 1))
  | [], k, hrest, hk => by
    have hlen : mempool.length ≤ k := by simpa using hrest.symm
    refine ⟨k, le_rfl, rfl, hk, fun hlt => absurd hlt (by omega)⟩
  | memTx :: rest, k, hrest, hk => by
    have hklen : k < mempool.length := by
      by_contra hle
      rw [List.drop_eq_nil_of_le (by omega)] at hrest
      cases hrest
    have hget : mempool[k] = memTx := by
      rw [List.drop_eq_getElem_cons hklen] at hrest
      exact (List.cons.inj hrest).1.symm
    have hrest' : rest = mempool.drop (k + 1) := by
      rw [List.drop_eq_getElem_cons hklen] at hrest
      exact (List.cons.inj hrest).2
    -- the prefix that stops here, before the `k`-th transaction
    have hstop : ¬Admissible mempool maxBytes maxGas count (k + 1) →
        ∃ n, k ≤ n ∧ (mempool.take k).map (·.tx) = (mempool.take n).map (·.tx) ∧
          Admissible mempool maxBytes maxGas count n ∧
          (n < mempool.length → ¬Admissible mempool maxBytes maxGas count (n + 1)) :=
      fun hnot => ⟨k, le_rfl, rfl, hk, fun _ => hnot⟩
    -- the gas of the first `k + 1` transactions is part of the mempool's, so no wrap
    have hgasIn : InInt64 (gasOfPrefix mempool k + memTx.gasWanted) := by
      have hall := gasOfPrefix_mono hgas (Nat.succ_le_of_lt hklen)
      rw [gasOfPrefix_length, gasOfPrefix_succ hklen, hget] at hall
      have h0 := gasOfPrefix_nonneg hgas k
      have hw := hgas memTx (hget ▸ List.getElem_mem hklen)
      unfold InInt64 minInt64 maxInt64
      unfold maxInt64 at hsum
      omega
    have hlenk : ((mempool.take k).map (·.tx)).length = k := by
      rw [List.length_map, List.length_take]
      omega
    unfold reapLoop
    rw [hlenk, hmore k hklen]
    by_cases hcount : k < count
    · rw [if_pos (decide_eq_true hcount)]
      dsimp only
      rw [← hget, take_succ_map_tx hklen, hget]
      by_cases hbytes : maxBytes > -1 ∧ (dataSize ((mempool.take (k + 1)).map (·.tx)) : Int) > maxBytes
      · rw [if_pos hbytes]
        exact hstop fun ⟨_, hb, _⟩ => absurd (hb hbytes.1) (Int.not_le.mpr hbytes.2)
      · rw [if_neg hbytes, add_of_inInt64 hgasIn, ← hget, ← gasOfPrefix_succ hklen]
        by_cases hgasLimit : maxGas > -1 ∧ gasOfPrefix mempool (k + 1) > maxGas
        · rw [if_pos hgasLimit]
          exact hstop fun ⟨_, _, hg⟩ => absurd (hg hgasLimit.1) (Int.not_le.mpr hgasLimit.2)
        · rw [if_neg hgasLimit]
          -- the `k`-th transaction fits, and the walk goes on from the next one
          have hk' : Admissible mempool maxBytes maxGas count (k + 1) :=
            ⟨hcount, fun hb => Int.not_lt.mp fun hlt => hbytes ⟨hb, hlt⟩,
              fun hg => Int.not_lt.mp fun hlt => hgasLimit ⟨hg, hlt⟩⟩
          obtain ⟨n, hkn, heq, hn, hmax⟩ := reapLoop_spec hgas hsum hmore rest (k + 1) hrest' hk'
          exact ⟨n, by omega, heq, hn, hmax⟩
    · rw [if_neg (by simpa using hcount)]
      exact hstop fun ⟨hc, _⟩ => hcount (by omega)

theorem reapLoop_longest (hgas : ∀ memTx ∈ mempool, 0 ≤ memTx.gasWanted)
    (hsum : (mempool.map (·.gasWanted)).sum ≤ maxInt64)
    (hmore : ∀ m < mempool.length, more m = decide (m < count)) :
    ∃ n, reapLoop more maxBytes maxGas mempool [] 0 [] = (mempool.take n).map (·.tx) ∧
      Admissible mempool maxBytes maxGas count n ∧
      ∀ m ≤ mempool.length, Admissible mempool maxBytes maxGas count m → m ≤ n := by
  have h0 : Admissible mempool maxBytes maxGas count 0 :=
    ⟨Nat.zero_le _, fun _ => by simp [dataSize]; omega, fun _ => by simp [gasOfPrefix]; omega⟩
  obtain ⟨n, -, heq, hn, hmax⟩ := reapLoop_spec hgas hsum hmore mempool 0 (by simp) h0
  refine ⟨n, by simpa [gasOfPrefix] using heq, hn, fun m hm hadm => ?_⟩
  -- a longer prefix that fits would make the next one after `n` fit
  by_contra hlt
  exact hmax (by omega) (hadm.mono hgas (by omega))

end Loop

/-- `ReapMaxBytesMaxGas` returns the longest prefix whose `Data` has at most
`maxBytes` bytes and whose gas wanted is at most `maxGas`, when the gas wanted
of the mempool is an `int64` sum of nonnegative values. -/
theorem reapMaxBytesMaxGas_longest {mempool : List MempoolTx} (maxBytes maxGas : Int)
    (hgas : ∀ memTx ∈ mempool, 0 ≤ memTx.gasWanted) (hsum : (mempool.map (·.gasWanted)).sum ≤ maxInt64) :
    ∃ n, reapMaxBytesMaxGas mempool maxBytes maxGas = (mempool.take n).map (·.tx) ∧
      Admissible mempool maxBytes maxGas mempool.length n ∧
      ∀ m ≤ mempool.length, Admissible mempool maxBytes maxGas mempool.length m → m ≤ n :=
  reapLoop_longest hgas hsum fun m hm => by simp [hm]

/-- Three transactions wanting 2, 3 and 4 gas, of one, two and one bytes. -/
def threeTxs : List MempoolTx :=
  [{ height := 1, gasWanted := 2, tx := [0] }, { height := 1, gasWanted := 3, tx := [1, 1] },
    { height := 1, gasWanted := 4, tx := [2] }]

/-- `reapMaxBytesMaxGas_longest` with no byte limit and 5 gas: the first two
transactions. -/
theorem reapMaxBytesMaxGas_longest_threeTxs :
    (∀ memTx ∈ threeTxs, 0 ≤ memTx.gasWanted) ∧ (threeTxs.map (·.gasWanted)).sum ≤ maxInt64 ∧
      reapMaxBytesMaxGas threeTxs (-1) 5 = [[0], [1, 1]] ∧
      ∃ n, reapMaxBytesMaxGas threeTxs (-1) 5 = (threeTxs.take n).map (·.tx) ∧
        Admissible threeTxs (-1) 5 threeTxs.length n ∧
        ∀ m ≤ threeTxs.length, Admissible threeTxs (-1) 5 threeTxs.length m → m ≤ n :=
  ⟨by decide, by decide, by decide, reapMaxBytesMaxGas_longest (-1) 5 (by decide) (by decide)⟩

/-- `ReapMaxBytesMaxGasMaxTxs` returns the longest prefix that also has at most
`maxTxs` transactions, or any number when `maxTxs ≤ 0`. -/
theorem reapMaxBytesMaxGasMaxTxs_longest {mempool : List MempoolTx} (maxBytes maxGas maxTxs : Int)
    (hgas : ∀ memTx ∈ mempool, 0 ≤ memTx.gasWanted) (hsum : (mempool.map (·.gasWanted)).sum ≤ maxInt64) :
    let count := if maxTxs ≤ 0 then mempool.length else maxTxs.toNat
    ∃ n, reapMaxBytesMaxGasMaxTxs mempool maxBytes maxGas maxTxs = (mempool.take n).map (·.tx) ∧
      Admissible mempool maxBytes maxGas count n ∧
      ∀ m ≤ mempool.length, Admissible mempool maxBytes maxGas count m → m ≤ n := by
  intro count
  refine reapLoop_longest hgas hsum fun m _ => ?_
  simp only [count]
  split_ifs <;> simp

/-- `reapMaxBytesMaxGasMaxTxs_longest` with no byte or gas limit and at most
one transaction. -/
theorem reapMaxBytesMaxGasMaxTxs_longest_threeTxs :
    (∀ memTx ∈ threeTxs, 0 ≤ memTx.gasWanted) ∧ (threeTxs.map (·.gasWanted)).sum ≤ maxInt64 ∧
      reapMaxBytesMaxGasMaxTxs threeTxs (-1) (-1) 1 = [[0]] ∧
      ∃ n, reapMaxBytesMaxGasMaxTxs threeTxs (-1) (-1) 1 = (threeTxs.take n).map (·.tx) ∧
        Admissible threeTxs (-1) (-1) 1 n ∧
        ∀ m ≤ threeTxs.length, Admissible threeTxs (-1) (-1) 1 m → m ≤ n :=
  ⟨by decide, by decide, by decide, reapMaxBytesMaxGasMaxTxs_longest (-1) (-1) 1 (by decide) (by decide)⟩

/-! ## `ReapMaxTxs` -/

/-- Two transactions of one byte each; the second wants `MaxInt64` gas. -/
def wrappingTxs : List MempoolTx :=
  [{ height := 1, gasWanted := 5, tx := [0] }, { height := 1, gasWanted := maxInt64, tx := [1] }]

/-- `ReapMaxTxs(1)` returns both transactions, one more than `min(1, Size())`.
`ReapMaxBytesMaxGas(-1, 10)` returns both too: `5 + MaxInt64` wraps to a
negative total, which passes the gas check, and only the first transaction
fits 10 gas. -/
theorem reap_exceeds_limits :
    reapMaxTxs wrappingTxs 1 = wrappingTxs.map (·.tx) ∧ min 1 wrappingTxs.length = 1 ∧
      reapMaxBytesMaxGas wrappingTxs (-1) 10 = wrappingTxs.map (·.tx) ∧
      ¬Admissible wrappingTxs (-1) 10 wrappingTxs.length 2 ∧
      Admissible wrappingTxs (-1) 10 wrappingTxs.length 1 := by
  refine ⟨by decide, by decide, by decide, fun ⟨_, _, hgas⟩ => ?_, ⟨by decide, fun h => ?_, fun _ => ?_⟩⟩
  · have := hgas (by decide)
    simp [gasOfPrefix, wrappingTxs, maxInt64] at this
  · exact absurd h (by decide)
  · simp [gasOfPrefix, wrappingTxs]

end Ostracon.Mempool
