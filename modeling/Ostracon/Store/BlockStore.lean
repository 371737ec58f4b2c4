import Ostracon.Lib.Traced
import Ostracon.Types.Vote
/-!
# `store/store.go`: the block store

The model of `BlockStore`: its database, the fields `base` and `height` it
keeps in memory under its mutex, and the methods consensus calls on it.

* The database holds one map per key prefix (`H:`, `P:`, `C:`, `SC:`, `BH:`)
  and the key `blockStore`.  The prefixes are distinct and the numbers and
  hashes in a key are rendered injectively (`%v` of an integer, `%x` of a
  hash), so distinct keys of the model are distinct byte strings.
* Values are kept decoded.  Every value under a prefix was written by
  `mustEncode` from the message that prefix holds, so the panics of the
  `Load*` functions on undecodable values are left out, and so are database
  errors.
* A block is a value of an abstract type with the height, hash and last
  commit the store reads (`BlockIface`).  `decode` is `proto.Unmarshal`
  followed by `BlockFromProto` on the concatenated part bytes, `none` where
  `LoadBlock` panics.
* Each method is a `Traced` computation.  Its trace holds the store after
  every `db.Set`, `SetSync` and batch `WriteSync`, and after every update of
  the fields under the mutex, each atomic: the states a crash leaves on disk
  and the states a concurrent reader sees.
-/

namespace Ostracon.Store

open Ostracon.Types Ostracon.Crypto.Merkle Traced

/-- `tmstore.BlockStoreState`. -/
structure BlockStoreState where
  base : Int
  height : Int
  deriving DecidableEq, Repr

/-- `types.BlockMeta`, with the one field the block store reads. -/
structure BlockMeta where
  blockID : BlockID
  deriving DecidableEq, Repr

/-- The keys a pruning batch deletes. -/
inductive Key
  /-- `calcBlockMetaKey`: "H:%v" -/
  | blockMeta (height : Int)
  /-- `calcBlockPartKey`: "P:%v:%v" -/
  | blockPart (height : Int) (partIndex : Nat)
  /-- `calcBlockCommitKey`: "C:%v" -/
  | blockCommit (height : Int)
  /-- `calcSeenCommitKey`: "SC:%v" -/
  | seenCommit (height : Int)
  /-- `calcBlockHashKey`: "BH:%x" -/
  | blockHash (hash : Bytes)
  deriving DecidableEq, Repr

/-- The database of a block store whose commits are of type `C`. -/
structure DB (C : Type) where
  blockMeta : Int → Option BlockMeta
  blockPart : Int × Nat → Option Part
  blockCommit : Int → Option C
  seenCommit : Int → Option C
  blockHash : Bytes → Option Int
  blockStore : Option BlockStoreState

namespace DB

variable {C : Type}

/-- The empty database. -/
def empty : DB C where
  blockMeta _ := none
  blockPart _ := none
  blockCommit _ := none
  seenCommit _ := none
  blockHash _ := none
  blockStore := none

/-- `db.Set(calcBlockMetaKey(height), ...)`. -/
def setBlockMeta (db : DB C) (height : Int) (blockMeta : BlockMeta) : DB C :=
  { db with blockMeta := Function.update db.blockMeta height (some blockMeta) }

/-- `db.Set(calcBlockPartKey(height, index), ...)`. -/
def setBlockPart (db : DB C) (height : Int) (index : Nat) (part : Part) : DB C :=
  { db with blockPart := Function.update db.blockPart (height, index) (some part) }

/-- `db.Set(calcBlockCommitKey(height), ...)`. -/
def setBlockCommit (db : DB C) (height : Int) (commit : C) : DB C :=
  { db with blockCommit := Function.update db.blockCommit height (some commit) }

/-- `db.Set(calcSeenCommitKey(height), ...)`. -/
def setSeenCommit (db : DB C) (height : Int) (commit : C) : DB C :=
  { db with seenCommit := Function.update db.seenCommit height (some commit) }

/-- `db.Set(calcBlockHashKey(hash), height)`. -/
def setBlockHash (db : DB C) (hash : Bytes) (height : Int) : DB C :=
  { db with blockHash := Function.update db.blockHash hash (some height) }

/-- `SaveBlockStoreState`: `db.SetSync(blockStoreKey, ...)`. -/
def setBlockStoreState (db : DB C) (bss : BlockStoreState) : DB C :=
  { db with blockStore := some bss }

/-- `batch.Delete(key)`, applied. -/
def delete (db : DB C) : Key → DB C
  | .blockMeta h => { db with blockMeta := Function.update db.blockMeta h none }
  | .blockPart h i => { db with blockPart := Function.update db.blockPart (h, i) none }
  | .blockCommit h => { db with blockCommit := Function.update db.blockCommit h none }
  | .seenCommit h => { db with seenCommit := Function.update db.seenCommit h none }
  | .blockHash hash => { db with blockHash := Function.update db.blockHash hash none }

/-- `batch.WriteSync()`: the deletes of the batch, applied at once. -/
def writeBatch (db : DB C) (batch : List Key) : DB C := batch.foldl delete db

end DB

/-- What the block store reads of a block of type `Blk` with commits of type
`C`: `block.Height`, `block.Hash()`, `block.LastCommit`, and the decoding of
the bytes of its parts. -/
structure BlockIface (Blk C : Type) where
  height : Blk → Int
  hash : Blk → Bytes
  lastCommit : Blk → C
  decode : Bytes → Option Blk

/-- `BlockStore`: the database and the fields `base` and `height`. -/
structure BlockStore (C : Type) where
  db : DB C
  base : Int
  height : Int

variable {Blk C : Type}

/-- The fields `base` and `height`, as `Base()` and `Height()` return them. -/
def BlockStore.state (bs : BlockStore C) : BlockStoreState := ⟨bs.base, bs.height⟩

/-- `Size`. -/
def BlockStore.size (bs : BlockStore C) : Int :=
  if bs.height = 0 then 0 else bs.height - bs.base + 1

/-- `LoadBlockStoreState`: the zero value where nothing was saved, and a base
of 1 for data saved before `Base` existed. -/
def loadBlockStoreState (db : DB C) : BlockStoreState :=
  match db.blockStore with
  | none => ⟨0, 0⟩
  | some bsj => if bsj.height > 0 ∧ bsj.base = 0 then { bsj with base := 1 } else bsj

/-- `NewBlockStore`: the fields as the database last saved them. -/
def newBlockStore (db : DB C) : BlockStore C where
  db := db
  base := (loadBlockStoreState db).base
  height := (loadBlockStoreState db).height

/-! ## Reading -/

section Load

variable (iface : BlockIface Blk C) (db : DB C)

/-- `LoadBlock`: `some none` for a missing block, `none` where it panics. -/
def loadBlock (height : Int) : Option (Option Blk) :=
  match db.blockMeta height with
  | none => some none
  | some blockMeta =>
    match (List.range blockMeta.blockID.partSetHeader.total.toNat).mapM
        fun i => db.blockPart (height, i) with
    -- a part deleted after the meta was read: the whole block is missing
    | none => some none
    | some parts => (iface.decode (parts.flatMap Part.bytes)).map some

/-- `LoadBlockByHash`: the height the hash index holds, then `LoadBlock`. -/
def loadBlockByHash (hash : Bytes) : Option (Option Blk) :=
  match db.blockHash hash with
  | none => some none
  | some height => loadBlock iface db height

end Load

/-- `LoadBaseMeta`. -/
def BlockStore.loadBaseMeta (bs : BlockStore C) : Option BlockMeta :=
  if bs.base = 0 then none else bs.db.blockMeta bs.base

/-! ## Writing -/

/-- One write to the database. -/
def dbStep (f : DB C → DB C) : Traced (BlockStore C) Unit :=
  step fun bs => { bs with db := f bs.db }

/-- `saveState`: the fields, saved with `SetSync`. -/
def saveState : Traced (BlockStore C) Unit :=
  step fun bs => { bs with db := bs.db.setBlockStoreState bs.state }

section SaveBlock

variable (iface : BlockIface Blk C)

/-- `NewBlockMeta`. -/
def newBlockMeta (block : Blk) (blockParts : PartSet) : BlockMeta :=
  { blockID := { hash := iface.hash block, partSetHeader := blockParts.header } }

/-- The loop of `SaveBlock` over the slots of the part set, from index `i`;
`saveBlockPart` panics on a `nil` part, whose `ToProto` fails with "nil part". -/
def saveBlockParts (height : Int) : Nat → List (Option Part) → Traced (BlockStore C) Unit
  | _, [] => pure ()
  | _, none :: _ => halt
  | i, some part :: parts => do
      dbStep fun db => db.setBlockPart height i part
      saveBlockParts height (i + 1) parts

/-- `SaveBlock`: the parts, the meta, the hash index, the block's last commit
at the height below, the seen commit, then the fields and `saveState`. -/
def saveBlock (block : Blk) (blockParts : PartSet) (seenCommit : C) :
    Traced (BlockStore C) Unit := do
  let height := iface.height block
  let bs ← get
  -- "BlockStore can only save contiguous blocks. Wanted %v, got %v"
  if bs.base > 0 ∧ height ≠ bs.height + 1 then halt
  -- "BlockStore can only save complete block part sets"
  else if !blockParts.isComplete then halt
  else do
    saveBlockParts height 0 blockParts.parts
    dbStep fun db => db.setBlockMeta height (newBlockMeta iface block blockParts)
    dbStep fun db => db.setBlockHash (iface.hash block) height
    dbStep fun db => db.setBlockCommit (height - 1) (iface.lastCommit block)
    dbStep fun db => db.setSeenCommit height seenCommit
    step fun bs => { bs with height := height, base := if bs.base = 0 then height else bs.base }
    saveState

end SaveBlock

section PruneBlocks

/-- The errors `PruneBlocks` returns before it deletes anything. -/
inductive PruneError
  /-- "height must be greater than 0" -/
  | heightNotPositive
  /-- "cannot prune beyond the latest height %v" -/
  | beyondLatest (height : Int)
  /-- "cannot prune to height %v, it is lower than base height %v" -/
  | belowBase (height base : Int)
  deriving DecidableEq, Repr

/-- The keys the loop deletes for the block at height `h` with meta
`blockMeta`, in the order of its `batch.Delete` calls. -/
def blockKeys (h : Int) (blockMeta : BlockMeta) : List Key :=
  [.blockMeta h, .blockHash blockMeta.blockID.hash, .blockCommit h, .seenCommit h] ++
    (List.range blockMeta.blockID.partSetHeader.total.toNat).map (Key.blockPart h)

/-- `flush`: the new base is published, in memory and on disk, before the
batch is written ("we can't trust batches to be atomic"). -/
def flush (batch : List Key) (base : Int) : Traced (BlockStore C) Unit := do
  step fun bs => { bs with base := base }
  saveState
  dbStep fun db => db.writeBatch batch

/-- The loop `for h := base; h < height; h++` of `PruneBlocks`, at height `h`
with `n` iterations left, the count `pruned` and the batch not yet written. -/
def pruneLoop : Int → Nat → Nat → List Key → Traced (BlockStore C) (Nat × List Key)
  | _, 0, pruned, batch => pure (pruned, batch)
  | h, n + 1, pruned, batch => do
      let bs ← get
      match bs.db.blockMeta h with
      -- assume already deleted
      | none => pruneLoop (h + 1) n pruned batch
      | some blockMeta =>
          -- flush every 1000 blocks to avoid batches becoming too large
          if (pruned + 1) % 1000 = 0 ∧ pruned + 1 > 0 then do
            flush (batch ++ blockKeys h blockMeta) h
            pruneLoop (h + 1) n (pruned + 1) []
          else pruneLoop (h + 1) n (pruned + 1) (batch ++ blockKeys h blockMeta)

/-- `PruneBlocks`: the number of blocks pruned, or an error. -/
def pruneBlocks (height : Int) : Traced (BlockStore C) (Except PruneError Nat) := do
  let bs ← get
  if height ≤ 0 then pure (.error .heightNotPositive)
  else if height > bs.height then pure (.error (.beyondLatest bs.height))
  else if height < bs.base then pure (.error (.belowBase height bs.base))
  else do
    let (pruned, batch) ← pruneLoop bs.base (height - bs.base).toNat 0 []
    flush batch height
    pure (.ok pruned)

end PruneBlocks

/-! ## Runs with crashes -/

/-- A call consensus makes on the block store: `SaveBlock` in
`finalizeCommit`, then `PruneBlocks` to the height the application retains. -/
inductive StoreCall (Blk C : Type)
  | saveBlock (block : Blk) (blockParts : PartSet) (seenCommit : C)
  | pruneBlocks (height : Int)

/-- The computation of a call. -/
def StoreCall.run (iface : BlockIface Blk C) : StoreCall Blk C → Traced (BlockStore C) Unit
  | .saveBlock block blockParts seenCommit =>
      Ostracon.Store.saveBlock iface block blockParts seenCommit
  | .pruneBlocks height => do
      let _ ← Ostracon.Store.pruneBlocks height
      pure ()

/-- The states a block store is in between calls, over a run that starts on
an empty database and goes on through calls, crashes and restarts.  A crash
may come after any effect of a call, a panic included; the node restarts
with `NewBlockStore` on what the database holds. -/
inductive Reachable (iface : BlockIface Blk C) (valid : StoreCall Blk C → Prop) :
    BlockStore C → Prop
  | init : Reachable iface valid (newBlockStore .empty)
  | call {bs bs' : BlockStore C} (c : StoreCall Blk C) : Reachable iface valid bs → valid c →
      ((c.run iface) bs).2 = some ((), bs') → Reachable iface valid bs'
  | crash {bs bs' : BlockStore C} (c : StoreCall Blk C) : Reachable iface valid bs → valid c →
      bs' ∈ ((c.run iface) bs).1 → Reachable iface valid (newBlockStore bs'.db)
  | restart {bs : BlockStore C} : Reachable iface valid bs → Reachable iface valid (newBlockStore bs.db)

end Ostracon.Store
