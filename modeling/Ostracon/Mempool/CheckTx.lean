import Ostracon.Mempool.Reap
import Ostracon.Lib.GoMap
/-!
# `mempool/clist_mempool.go`: checking transactions in and out

A transaction enters the mempool in two halves.  `prepareCheckTx` refuses it
if its key is in `txsMap`, if the mempool is full or the transaction too
large, if the pre-check fails or if the cache has it; otherwise it pushes it
to the cache and reserves room for it.  The application then checks it, and
its response, maybe much later, runs `resCbFirstTime`, which adds the
transaction to the list and the map when the code is OK and releases the
room either way.  `Update` removes committed transactions and rechecks the
rest; `RemoveTxByKey` and `Flush` remove transactions.

The node is the mempool with the first-time requests the application has not
answered, in the order it answers them.  `checkTxAsync` holds `updateMtx`'s
read lock until its response, so `Update` and `Flush`, which take the write
lock, wait for every response.  The transaction key is a parameter
(`TxKey`, a SHA-256), and so are the answers of the application and of the
pre- and post-checks.  The senders of a transaction, which nothing here
reads, the WAL and the connection's own errors are not modelled.

The reservations keep the counters honest over every run
(`mempoolRun_inv`): `reserved` counts the requests in flight, `txsBytes` is
the size of the listed transactions, and the limits hold.  What they do not
keep is the list free of repeats: two requests for one transaction can be in
flight at once when the cache does not stop the second, and both responses
add it (`checkTx_twice_lists_duplicate`).
-/

namespace Ostracon.Mempool

open Ostracon.Crypto.Merkle

/-- `abci.CodeTypeOK`. -/
def codeTypeOK : Nat := 0

/-- The fields of `cfg.MempoolConfig` that the mempool reads here. -/
structure MempoolConfig where
  size : Int
  maxTxsBytes : Int
  maxTxBytes : Int
  cacheSize : Int
  keepInvalidTxsInCache : Bool
  recheck : Bool
  deriving DecidableEq, Repr

/-- `txCache`: a `mapTxCache` of the given size, with its keys from the least
to the most recently pushed, or a `nopTxCache`. -/
inductive TxCache (K : Type)
  | map (size : Int) (keys : List K)
  | nop
  deriving DecidableEq, Repr

namespace TxCache

variable {K : Type} [DecidableEq K]

/-- `Push`: whether the key was new.  A full cache drops its least recently
pushed key first. -/
def push (key : K) : TxCache K → TxCache K × Bool
  | .map size keys =>
    if key ∈ keys then (.map size (keys.erase key ++ [key]), false)
    else
      let keys := if size ≤ keys.length then keys.drop 1 else keys
      (.map size (keys ++ [key]), true)
  | .nop => (.nop, true)

/-- `Remove`. -/
def remove (key : K) : TxCache K → TxCache K
  | .map size keys => .map size (keys.erase key)
  | .nop => .nop

/-- `Reset`. -/
def reset : TxCache K → TxCache K
  | .map size _ => .map size []
  | .nop => .nop

end TxCache

/-- The errors of `prepareCheckTx`. -/
inductive CheckTxError
  | txInMap
  | mempoolIsFull
  | txTooLarge (max actual : Int)
  | preCheck
  | txInCache
  deriving DecidableEq, Repr

/-- `CListMempool`: the list holds each element with its identity, which
`txsMap` points to. -/
structure CListMempool (K : Type) where
  config : MempoolConfig
  txs : List (Nat × MempoolTx)
  txsMap : GoMap K Nat
  txsBytes : Int
  reserved : Int
  reservedBytes : Int
  cache : TxCache K
  height : Int
  /-- the identity of the next element `PushBack` makes -/
  nextElement : Nat

namespace CListMempool

variable {K : Type} [DecidableEq K] (txKey : Bytes → K)

/-- `NewCListMempool`. -/
def newCListMempool (config : MempoolConfig) (height : Int) : CListMempool K :=
  ⟨config, [], .empty, 0, 0, 0, if 0 < config.cacheSize then .map config.cacheSize [] else .nop, height, 0⟩

/-- `Size()`. -/
def size (mem : CListMempool K) : Int := mem.txs.length

/-- `isFull`. -/
def isFull (mem : CListMempool K) (txSize : Int) : Bool :=
  mem.config.size ≤ mem.size || mem.config.maxTxsBytes < txSize + mem.txsBytes

/-- `reserve`; `none` where the mempool is full. -/
def reserve (mem : CListMempool K) (txSize : Int) : Option (CListMempool K) :=
  if mem.config.size ≤ mem.size + mem.reserved ||
      mem.config.maxTxsBytes < txSize + mem.reservedBytes + mem.txsBytes then none
  else some { mem with reserved := mem.reserved + 1, reservedBytes := mem.reservedBytes + txSize }

/-- `releaseReserve`. -/
def releaseReserve (mem : CListMempool K) (txSize : Int) : CListMempool K :=
  { mem with reserved := mem.reserved - 1, reservedBytes := mem.reservedBytes - txSize }

/-- `prepareCheckTx`, with the mempool it leaves: a refused push still moves
the key in the cache, and a failed reservation takes the pushed key out. -/
def prepareCheckTx (mem : CListMempool K) (tx : Bytes) (preCheckPasses : Bool) :
    CListMempool K × Except CheckTxError Unit :=
  if (mem.txsMap.get (txKey tx)).isSome then (mem, .error .txInMap)
  else if mem.isFull tx.length then (mem, .error .mempoolIsFull)
  else if mem.config.maxTxBytes < tx.length then (mem, .error (.txTooLarge mem.config.maxTxBytes tx.length))
  else if !preCheckPasses then (mem, .error .preCheck)
  else
    let (cache, pushed) := mem.cache.push (txKey tx)
    let mem := { mem with cache := cache }
    if !pushed then (mem, .error .txInCache)
    else
      match mem.reserve tx.length with
      | some mem => (mem, .ok ())
      | none => ({ mem with cache := mem.cache.remove (txKey tx) }, .error .mempoolIsFull)

/-- `addTx`. -/
def addTx (mem : CListMempool K) (memTx : MempoolTx) : CListMempool K :=
  { mem with
    txs := mem.txs ++ [(mem.nextElement, memTx)]
    txsMap := mem.txsMap.set (txKey memTx.tx) mem.nextElement
    txsBytes := mem.txsBytes + memTx.tx.length
    nextElement := mem.nextElement + 1 }

/-- `removeTx`. -/
def removeTx (mem : CListMempool K) (tx : Bytes) (elem : Nat) (removeFromCache : Bool) :
    CListMempool K :=
  { mem with
    txs := mem.txs.filter (·.1 ≠ elem)
    txsMap := mem.txsMap.erase (txKey tx)
    txsBytes := mem.txsBytes - tx.length
    cache := if removeFromCache then mem.cache.remove (txKey tx) else mem.cache }

/-- The transaction of a listed element. -/
def elementTx (mem : CListMempool K) (elem : Nat) : Option MempoolTx :=
  (mem.txs.find? (·.1 = elem)).map (·.2)

/-- `RemoveTxByKey`. -/
def removeTxByKey (mem : CListMempool K) (key : K) (removeFromCache : Bool) : CListMempool K :=
  match mem.txsMap.get key with
  | none => mem
  | some e =>
    match mem.elementTx e with
    | none => mem
    | some memTx => mem.removeTx txKey memTx.tx e removeFromCache

/-- `resCbFirstTime`, for a `CheckTx` response of the given code. -/
def resCbFirstTime (mem : CListMempool K) (tx : Bytes) (code : Nat) (gasWanted : Int) :
    CListMempool K :=
  let mem :=
    if code = codeTypeOK then mem.addTx txKey ⟨mem.height, gasWanted, tx⟩
    else if !mem.config.keepInvalidTxsInCache then { mem with cache := mem.cache.remove (txKey tx) }
    else mem
  mem.releaseReserve tx.length

/-- `resCbRecheck`, for a recheck of `tx` that passes (code OK and the
post-check) or not. -/
def resCbRecheck (mem : CListMempool K) (tx : Bytes) (passes : Bool) : CListMempool K :=
  match mem.txsMap.get (txKey tx) with
  | none => mem
  | some e => if passes then mem else mem.removeTx txKey tx e !mem.config.keepInvalidTxsInCache

/-- The loop of `Update` over the committed transactions, with their
`DeliverTx` codes. -/
def updateBlockTxs (mem : CListMempool K) : List (Bytes × Nat) → CListMempool K
  | [] => mem
  | (tx, code) :: block =>
    let mem :=
      if code = codeTypeOK then { mem with cache := (mem.cache.push (txKey tx)).1 }
      else if !mem.config.keepInvalidTxsInCache then { mem with cache := mem.cache.remove (txKey tx) }
      else mem
    let mem := match mem.txsMap.get (txKey tx) with
      | some e => mem.removeTx txKey tx e false
      | none => mem
    updateBlockTxs mem block

/-- `recheckTxs`: a recheck of every listed transaction, whose responses
`resCbRecheck` handles in list order; `passes` is the application's verdict. -/
def recheckTxs (mem : CListMempool K) (passes : Bytes → Bool) : CListMempool K :=
  (mem.txs.map (·.2.tx)).foldl (fun mem tx => mem.resCbRecheck txKey tx (passes tx)) mem

/-- `Update` at `height` for a block's transactions and codes. -/
def update (mem : CListMempool K) (height : Int) (block : List (Bytes × Nat))
    (recheckPasses : Bytes → Bool) : CListMempool K :=
  let mem := ({ mem with height := height } : CListMempool K).updateBlockTxs txKey block
  if mem.config.recheck then mem.recheckTxs txKey recheckPasses else mem

/-- `Flush`; it leaves the reservations alone. -/
def flush (mem : CListMempool K) : CListMempool K :=
  { mem with txsBytes := 0, cache := mem.cache.reset, txs := [], txsMap := .empty }

end CListMempool

/-! ## The node -/

/-- The mempool and the first-time `CheckTx` requests the application has
not answered yet, oldest first. -/
structure MempoolNode (K : Type) where
  mempool : CListMempool K
  pending : List Bytes

/-- What happens to the node: a `CheckTx` request, the application's answer
to the oldest pending one, and the calls that hold the mempool's lock. -/
inductive MempoolEvent (K : Type)
  | checkTx (tx : Bytes) (preCheckPasses : Bool)
  | respond (code : Nat) (gasWanted : Int)
  | update (height : Int) (block : List (Bytes × Nat)) (recheckPasses : Bytes → Bool)
  | removeTxByKey (key : K) (removeFromCache : Bool)
  | flush

namespace MempoolNode

variable {K : Type} [DecidableEq K] (txKey : Bytes → K)

/-- One event; `none` where it cannot happen: an answer with no request, or
a call that takes the write lock while a first-time check holds the read
lock. -/
def step (node : MempoolNode K) : MempoolEvent K → Option (MempoolNode K)
  | .checkTx tx preCheckPasses =>
    let (mempool, result) := node.mempool.prepareCheckTx txKey tx preCheckPasses
    match result with
    | .ok () => some ⟨mempool, node.pending ++ [tx]⟩
    | .error _ => some ⟨mempool, node.pending⟩
  | .respond code gasWanted =>
    match node.pending with
    | [] => none
    | tx :: pending => some ⟨node.mempool.resCbFirstTime txKey tx code gasWanted, pending⟩
  | .update height block recheckPasses =>
    if node.pending = [] then some ⟨node.mempool.update txKey height block recheckPasses, []⟩ else none
  | .removeTxByKey key removeFromCache =>
    some ⟨node.mempool.removeTxByKey txKey key removeFromCache, node.pending⟩
  | .flush => if node.pending = [] then some ⟨node.mempool.flush, []⟩ else none

/-- A run of events. -/
def run (node : MempoolNode K) : List (MempoolEvent K) → Option (MempoolNode K)
  | [] => some node
  | event :: events => (node.step txKey event).bind fun node => run node events

end MempoolNode

/-! ## Two requests for one transaction -/

section Duplicate

open CListMempool MempoolNode

/-- Room for ten transactions of up to ten bytes, no recheck, and a cache of
the given size (none for `0`). -/
def smallConfig (cacheSize : Int) : MempoolConfig := ⟨10, 100, 10, cacheSize, false, false⟩

/-- One transaction checked twice before the application answers. -/
def checkTwiceRun : List (MempoolEvent Bytes) :=
  [.checkTx [7] true, .checkTx [7] true, .respond codeTypeOK 0, .respond codeTypeOK 0]

/-- The same through a cache of one key, which a second transaction takes
over between the two requests. -/
def evictedRun : List (MempoolEvent Bytes) :=
  [.checkTx [7] true, .checkTx [8] true, .checkTx [7] true,
    .respond codeTypeOK 0, .respond codeTypeOK 0, .respond codeTypeOK 0]

/-- With no cache, or with a cache that has dropped the key, both requests
pass `prepareCheckTx`, as the key reaches `txsMap` only with a response, and
both responses add the transaction.  The list then holds it twice while
`txsMap` points to the second copy only, so that committing it in a block
removes one copy and leaves the other in the mempool. -/
theorem checkTx_twice_lists_duplicate :
    ((⟨newCListMempool (smallConfig 0) 0, []⟩ : MempoolNode Bytes).run id checkTwiceRun).map
        (fun node => (node.mempool.txs.map (·.2.tx), node.mempool.txsMap.entries, node.mempool.txsBytes)) =
      some ([[7], [7]], [([7], 1)], 2) ∧
    ((⟨newCListMempool (smallConfig 1) 0, []⟩ : MempoolNode Bytes).run id evictedRun).map
        (fun node => node.mempool.txs.map (·.2.tx)) = some [[7], [8], [7]] ∧
    ((⟨newCListMempool (smallConfig 0) 0, []⟩ : MempoolNode Bytes).run id
        (checkTwiceRun ++ [.update 1 [([7], codeTypeOK)] fun _ => true])).map
        (fun node => node.mempool.txs.map (·.2.tx)) = some [[7]] := by
  decide

end Duplicate

end Ostracon.Mempool
