import Ostracon.Lib.GoMap
import Mathlib.Combinatorics.Pigeonhole
/-!
# The address book of the PEX reactor

`addrBook` keeps the addresses it knows in buckets: new buckets for
addresses it heard of, old buckets for addresses it connected to.  Each
address is one `knownAddress`, reached through `addrLookup` by its ID and
through every bucket it is in by its string; its `Buckets` field lists those
buckets and its `BucketType` says which kind they are.

Go shares each `*knownAddress` between `addrLookup`, the buckets and
`badPeers`, and writes through the pointer.  The book here holds the objects
in `objects`, and the maps hold their indices, so that a write through a
pointer is one write to `objects` that every holder of the pointer sees.

The bucket hashes read the book's random key: `AddrBookEnv` gives the
leading 64 bits of each hash, and `calcNewBucket` and `calcOldBucket` do the
arithmetic around them as the source does.  Times are integers of
nanoseconds, with the zero `time.Time` as `0`; each call gets the `now` that
its `time.Now()` reads.
-/

namespace Ostracon.P2p

/-! ## Parameters (`params.go`) -/

def newBucketSize : Nat := 64
def oldBucketSize : Nat := 64
def newBucketCount : Nat := 256
def oldBucketCount : Nat := 64
def newBucketsPerGroup : Nat := 32
def oldBucketsPerGroup : Nat := 4
def maxNewBucketsPerAddress : Nat := 4
def numMissingDays : Int := 7
def numRetries : Int := 3
def maxFailures : Int := 10
def minBadDays : Int := 7

/-- `time.Minute`, in nanoseconds. -/
def minute : Int := 60 * 1000000000

/-- `time.Hour * 24`, in nanoseconds. -/
def day : Int := 24 * 60 * minute

/-- `bucketTypeNew` and `bucketTypeOld`. -/
inductive BucketType
  | new
  | old
  deriving DecidableEq, Repr, Inhabited

/-- `p2p.NetAddress`: the node ID, and the IP and port it dials; its
`String()` is `id@ip:port`, so two addresses have one string exactly when
they are equal. -/
structure NetAddress where
  id : Nat
  ip : Nat
  port : Nat
  deriving DecidableEq, Repr, Inhabited

/-- `knownAddress`. -/
structure KnownAddress where
  addr : NetAddress
  src : NetAddress
  buckets : List Nat
  attempts : Int
  bucketType : BucketType
  lastAttempt : Int
  lastSuccess : Int
  lastBanTime : Int
  deriving DecidableEq, Repr, Inhabited

namespace KnownAddress

def newKnownAddress (addr src : NetAddress) (now : Int) : KnownAddress :=
  ⟨addr, src, [], 0, .new, now, 0, 0⟩

def id (ka : KnownAddress) : Nat := ka.addr.id

def isOld (ka : KnownAddress) : Bool := ka.bucketType == .old

def isNew (ka : KnownAddress) : Bool := ka.bucketType == .new

def markAttempt (now : Int) (ka : KnownAddress) : KnownAddress :=
  { ka with lastAttempt := now, attempts := ka.attempts + 1 }

def markGood (now : Int) (ka : KnownAddress) : KnownAddress :=
  { ka with lastAttempt := now, attempts := 0, lastSuccess := now }

def ban (now banTime : Int) (ka : KnownAddress) : KnownAddress :=
  if ka.lastBanTime < now + banTime then { ka with lastBanTime := now + banTime } else ka

def isBanned (now : Int) (ka : KnownAddress) : Bool := now < ka.lastBanTime

/-- `addBucketRef`: the new length of `Buckets`, or `-1` where the bucket is
listed already. -/
def addBucketRef (bucketIdx : Nat) (ka : KnownAddress) : KnownAddress × Int :=
  if bucketIdx ∈ ka.buckets then (ka, -1)
  else ({ ka with buckets := ka.buckets ++ [bucketIdx] }, ka.buckets.length + 1)

/-- `removeBucketRef`: the new length of `Buckets`, or `-1` where the bucket
is not listed exactly once. -/
def removeBucketRef (bucketIdx : Nat) (ka : KnownAddress) : KnownAddress × Int :=
  let buckets := ka.buckets.filter (· ≠ bucketIdx)
  if (buckets.length : Int) ≠ ka.buckets.length - 1 then (ka, -1)
  else ({ ka with buckets := buckets }, buckets.length)

def isBad (now : Int) (ka : KnownAddress) : Bool :=
  if ka.bucketType = .old then false
  else if now - minute < ka.lastAttempt then false
  else if ka.lastAttempt < now - numMissingDays * day then true
  else if ka.lastSuccess = 0 ∧ numRetries ≤ ka.attempts then true
  else if ka.lastSuccess < now - minBadDays * day ∧ maxFailures ≤ ka.attempts then true
  else false

end KnownAddress

open KnownAddress

/-- What the bucket hashes give for the book's key: the leading uint64 of
`a.hash` over the key and the data named, and the group `groupKey` names. -/
structure AddrBookEnv where
  /-- `groupKey(na)`, the /16 of an IPv4 address and so on -/
  groupKey : NetAddress → Nat
  /-- `hash(key + groupKey(addr) + groupKey(src))` -/
  hashGroups : Nat → Nat → Nat
  /-- `hash(key + addr.String())` -/
  hashAddr : NetAddress → Nat
  /-- `hash(key + group + hashbuf)`, the second hash of both placements -/
  hashBucket : Nat → Nat → Nat
  /-- `addr.Valid() == nil` -/
  valid : NetAddress → Bool
  /-- `addr.Routable()` -/
  routable : NetAddress → Bool

/-- `calcNewBucket`. -/
def calcNewBucket (env : AddrBookEnv) (addr src : NetAddress) : Nat :=
  let hash64 := env.hashGroups (env.groupKey addr) (env.groupKey src) % newBucketsPerGroup
  env.hashBucket (env.groupKey src) hash64 % newBucketCount

/-- `calcOldBucket`. -/
def calcOldBucket (env : AddrBookEnv) (addr : NetAddress) : Nat :=
  let hash64 := env.hashAddr addr % oldBucketsPerGroup
  env.hashBucket (env.groupKey addr) hash64 % oldBucketCount

/-- The errors `addAddress` and `addToNewBucket` return. -/
inductive AddrBookError
  | invalidAddr (addr : NetAddress)
  | addressBanned (addr : NetAddress)
  | privateAddr (addr : NetAddress)
  | privateSrc (src : NetAddress)
  | self (addr : NetAddress)
  | nonRoutable (addr : NetAddress)
  | oldAddressNewBucket (addr : NetAddress) (bucketIdx : Nat)
  deriving DecidableEq, Repr

/-- `addrBook`: the objects its pointers point to, and the maps of pointers. -/
structure AddrBook where
  ourAddrs : List NetAddress
  privateIDs : List Nat
  objects : List KnownAddress
  addrLookup : GoMap Nat Nat
  bucketsNew : Nat → GoMap NetAddress Nat
  bucketsOld : Nat → GoMap NetAddress Nat
  nOld : Int
  nNew : Int
  badPeers : GoMap Nat Nat
  routabilityStrict : Bool

/-- `NewAddrBook` after `init`: empty buckets and maps. -/
def newAddrBook (routabilityStrict : Bool) : AddrBook :=
  ⟨[], [], [], .empty, fun _ => .empty, fun _ => .empty, 0, 0, .empty, routabilityStrict⟩

namespace AddrBook

/-- `*ka`.  Every pointer the book holds was allocated, as `objects` only
grows, so the default is never read. -/
def ka (book : AddrBook) (p : Nat) : KnownAddress := book.objects.getD p default

/-- A write through the pointer `p`. -/
def setKa (book : AddrBook) (p : Nat) (ka : KnownAddress) : AddrBook :=
  { book with objects := book.objects.set p ka }

/-- `&knownAddress{...}`: the new object's pointer. -/
def alloc (book : AddrBook) (ka : KnownAddress) : AddrBook × Nat :=
  ({ book with objects := book.objects ++ [ka] }, book.objects.length)

def getBucket (book : AddrBook) : BucketType → Nat → GoMap NetAddress Nat
  | .new, bucketIdx => book.bucketsNew bucketIdx
  | .old, bucketIdx => book.bucketsOld bucketIdx

def setBucket (book : AddrBook) (bucketType : BucketType) (bucketIdx : Nat)
    (bucket : GoMap NetAddress Nat) : AddrBook :=
  match bucketType with
  | .new => { book with bucketsNew := fun i => if i = bucketIdx then bucket else book.bucketsNew i }
  | .old => { book with bucketsOld := fun i => if i = bucketIdx then bucket else book.bucketsOld i }

/-- `removeFromBucket`. -/
def removeFromBucket (p : Nat) (bucketType : BucketType) (bucketIdx : Nat) (book : AddrBook) :
    AddrBook :=
  let ka := book.ka p
  if ka.bucketType ≠ bucketType then book
  else
    let book := book.setBucket bucketType bucketIdx ((book.getBucket bucketType bucketIdx).erase ka.addr)
    let (ka, n) := ka.removeBucketRef bucketIdx
    let book := book.setKa p ka
    if n = 0 then
      let book := if bucketType = .new then { book with nNew := book.nNew - 1 }
        else { book with nOld := book.nOld - 1 }
      { book with addrLookup := book.addrLookup.erase ka.id }
    else book

/-- `removeFromAllBuckets`. -/
def removeFromAllBuckets (p : Nat) (book : AddrBook) : AddrBook :=
  let ka := book.ka p
  let book := ka.buckets.foldl (fun book bucketIdx =>
    book.setBucket ka.bucketType bucketIdx ((book.getBucket ka.bucketType bucketIdx).erase ka.addr)) book
  let book := book.setKa p { ka with buckets := [] }
  let book := if ka.bucketType = .new then { book with nNew := book.nNew - 1 }
    else { book with nOld := book.nOld - 1 }
  { book with addrLookup := book.addrLookup.erase ka.id }

/-- `pickOldest`: the first of the earliest `LastAttempt`, in the order the
map is ranged over; `none` (Go's nil) for an empty bucket. -/
def pickOldest (bucketType : BucketType) (bucketIdx : Nat) (book : AddrBook) : Option Nat :=
  (book.getBucket bucketType bucketIdx).values.foldl (fun oldest p =>
    match oldest with
    | none => some p
    | some o => if (book.ka p).lastAttempt < (book.ka o).lastAttempt then some p else oldest) none

/-- `expireNew`: the first bad entry goes, or else the oldest.  It runs on a
full bucket only, so `pickOldest` finds an entry. -/
def expireNew (now : Int) (bucketIdx : Nat) (book : AddrBook) : AddrBook :=
  match (book.bucketsNew bucketIdx).values.find? fun p => (book.ka p).isBad now with
  | some p => book.removeFromBucket p .new bucketIdx
  | none =>
    match book.pickOldest .new bucketIdx with
    | some oldest => book.removeFromBucket oldest .new bucketIdx
    | none => book

/-- `addToNewBucket`. -/
def addToNewBucket (now : Int) (p bucketIdx : Nat) (book : AddrBook) : Except AddrBookError AddrBook :=
  let ka := book.ka p
  if ka.isOld then .error (.oldAddressNewBucket ka.addr bucketIdx)
  else
    match (book.bucketsNew bucketIdx).get ka.addr with
    | some _ => .ok book
    | none =>
      let book := if newBucketSize < (book.bucketsNew bucketIdx).length then book.expireNew now bucketIdx
        else book
      let book := book.setBucket .new bucketIdx ((book.bucketsNew bucketIdx).set ka.addr p)
      let (ka, n) := (book.ka p).addBucketRef bucketIdx
      let book := book.setKa p ka
      let book := if n = 1 then { book with nNew := book.nNew + 1 } else book
      .ok { book with addrLookup := book.addrLookup.set ka.id p }

/-- `addToOldBucket`: whether the address is in the bucket afterwards. -/
def addToOldBucket (p bucketIdx : Nat) (book : AddrBook) : AddrBook × Bool :=
  let ka := book.ka p
  if ka.isNew then (book, false)
  else if ka.buckets.length ≠ 0 then (book, false)
  else
    match (book.bucketsOld bucketIdx).get ka.addr with
    | some _ => (book, true)
    | none =>
      if oldBucketSize < (book.bucketsOld bucketIdx).length then (book, false)
      else
        let book := book.setBucket .old bucketIdx ((book.bucketsOld bucketIdx).set ka.addr p)
        let (ka, n) := ka.addBucketRef bucketIdx
        let book := book.setKa p ka
        let book := if n = 1 then { book with nOld := book.nOld + 1 } else book
        ({ book with addrLookup := book.addrLookup.set ka.id p }, true)

/-- `moveToOld`, whose errors (only the hashes' ones) are never returned.
Where the old bucket is full, `addToOldBucket` refuses, and then
`pickOldest` finds an entry of that full bucket. -/
def moveToOld (env : AddrBookEnv) (now : Int) (p : Nat) (book : AddrBook) : AddrBook :=
  let ka := book.ka p
  if ka.isOld then book
  else if ka.buckets.length = 0 then book
  else
    let book := book.removeFromAllBuckets p
    let book := book.setKa p { book.ka p with bucketType := .old }
    let oldBucketIdx := calcOldBucket env (book.ka p).addr
    let (book, added) := book.addToOldBucket p oldBucketIdx
    if added then book
    else
      match book.pickOldest .old oldBucketIdx with
      | none => book
      | some oldest =>
        let book := book.removeFromBucket oldest .old oldBucketIdx
        let newBucketIdx := calcNewBucket env (book.ka oldest).addr (book.ka oldest).src
        -- the evicted address is still of type old, which `addToNewBucket` refuses
        let book := match book.addToNewBucket now oldest newBucketIdx with
          | .ok book => book
          | .error _ => book
        (book.addToOldBucket p oldBucketIdx).1

/-- `addAddress`; `none` where `rand.Int31n(0)` panics, for a known address
in no bucket.  `randomDraw` is what `a.rand.Int31n(factor)` returns. -/
def addAddress (env : AddrBookEnv) (now : Int) (addr src : NetAddress) (randomDraw : Int)
    (book : AddrBook) : Option (Except AddrBookError AddrBook) :=
  if !env.valid addr then some (.error (.invalidAddr addr))
  else if (book.badPeers.get addr.id).isSome then some (.error (.addressBanned addr))
  else if addr.id ∈ book.privateIDs then some (.error (.privateAddr addr))
  else if src.id ∈ book.privateIDs then some (.error (.privateSrc src))
  else if addr ∈ book.ourAddrs then some (.error (.self addr))
  else if book.routabilityStrict && !env.routable addr then some (.error (.nonRoutable addr))
  else
    match book.addrLookup.get addr.id with
    | some p =>
      let ka := book.ka p
      if ka.isOld ∧ ka.addr.id = addr.id then some (.ok book)
      else if ka.buckets.length = maxNewBucketsPerAddress then some (.ok book)
      else if ka.buckets.length = 0 then none
      else if randomDraw ≠ 0 then some (.ok book)
      else some (book.addToNewBucket now p (calcNewBucket env addr src))
    | none =>
      let (book, p) := book.alloc (newKnownAddress addr src now)
      some (book.addToNewBucket now p (calcNewBucket env addr src))

/-- `removeAddress`. -/
def removeAddress (addr : NetAddress) (book : AddrBook) : AddrBook :=
  match book.addrLookup.get addr.id with
  | none => book
  | some p => book.removeFromAllBuckets p

/-- `addBadPeer`: whether the address is in the book. -/
def addBadPeer (now : Int) (addr : NetAddress) (banTime : Int) (book : AddrBook) : AddrBook × Bool :=
  match book.addrLookup.get addr.id with
  | none => (book, false)
  | some p =>
    match book.badPeers.get addr.id with
    | some _ => (book, true)
    | none =>
      let book := book.setKa p ((book.ka p).ban now banTime)
      ({ book with badPeers := book.badPeers.set addr.id p }, true)

/-- `MarkGood`. -/
def markGood (env : AddrBookEnv) (now : Int) (id : Nat) (book : AddrBook) : AddrBook :=
  match book.addrLookup.get id with
  | none => book
  | some p =>
    let book := book.setKa p ((book.ka p).markGood now)
    if (book.ka p).isNew then book.moveToOld env now p else book

/-- `MarkAttempt`. -/
def markAttempt (now : Int) (addr : NetAddress) (book : AddrBook) : AddrBook :=
  match book.addrLookup.get addr.id with
  | none => book
  | some p => book.setKa p ((book.ka p).markAttempt now)

/-- `MarkBad`. -/
def markBad (now : Int) (addr : NetAddress) (banTime : Int) (book : AddrBook) : AddrBook :=
  let (book, known) := book.addBadPeer now addr banTime
  if known then book.removeAddress addr else book

/-- `ReinstateBadPeers`.  Deleting the entry being ranged over does not
change which entries the range visits, so it ranges over the entries the map
had when it started. -/
def reinstateBadPeers (env : AddrBookEnv) (now : Int) (book : AddrBook) : AddrBook :=
  book.badPeers.values.foldl (fun book p =>
    let ka := book.ka p
    if ka.isBanned now then book
    else
      let bucket := calcNewBucket env ka.addr ka.src
      let book := match book.addToNewBucket now p bucket with
        | .ok book => book
        | .error _ => book
      { book with badPeers := book.badPeers.erase ka.id }) book

end AddrBook

/-! ## Runs of calls -/

/-- The calls the book serves, each with the draws it makes. -/
inductive AddrBookCall
  | addAddress (addr src : NetAddress) (randomDraw : Int)
  | removeAddress (addr : NetAddress)
  | markGood (id : Nat)
  | markAttempt (addr : NetAddress)
  | markBad (addr : NetAddress) (banTime : Int)
  | reinstateBadPeers
  deriving DecidableEq, Repr

namespace AddrBook

/-- One call at time `now`; `none` where it panics.  A call that returns an
error leaves the book as the error found it. -/
def step (env : AddrBookEnv) (now : Int) : AddrBookCall → AddrBook → Option AddrBook
  | .addAddress addr src randomDraw, book =>
    (book.addAddress env now addr src randomDraw).map fun
      | .ok book => book
      | .error _ => book
  | .removeAddress addr, book => some (book.removeAddress addr)
  | .markGood peerID, book => some (book.markGood env now peerID)
  | .markAttempt addr, book => some (book.markAttempt now addr)
  | .markBad addr banTime, book => some (book.markBad now addr banTime)
  | .reinstateBadPeers, book => some (book.reinstateBadPeers env now)

/-- A run of calls, each with its time. -/
def run (env : AddrBookEnv) : List (Int × AddrBookCall) → AddrBook → Option AddrBook
  | [], book => some book
  | (now, call) :: calls, book => (book.step env now call).bind (run env calls)

end AddrBook

/-! ## Placements

`calcOldBucket` reads an address through its group and its own hash modulo
`oldBucketsPerGroup` only, so that a group has few old buckets, whatever the
key; and `calcNewBucket` reads the groups of the address and of its source
only, so that addresses of one group from one source share a new bucket. -/

/-- The old buckets the addresses of `group` can go to. -/
def groupOldBuckets (env : AddrBookEnv) (group : Nat) : Finset Nat :=
  (Finset.range oldBucketsPerGroup).image fun r => env.hashBucket group r % oldBucketCount

theorem calcOldBucket_mem_groupOldBuckets (env : AddrBookEnv) (addr : NetAddress) :
    calcOldBucket env addr ∈ groupOldBuckets env (env.groupKey addr) :=
  Finset.mem_image.mpr ⟨_, Finset.mem_range.mpr (Nat.mod_lt _ (by decide)), rfl⟩

/-- Whatever the key, more than `oldBucketsPerGroup * n` addresses of one
group hold more than `n` that go to one old bucket. -/
theorem exists_shared_oldBucket (env : AddrBookEnv) {group n : Nat} (addrs : Finset NetAddress)
    (hgroup : ∀ a ∈ addrs, env.groupKey a = group) (hcard : oldBucketsPerGroup * n < addrs.card) :
    ∃ b, n < (addrs.filter fun a => calcOldBucket env a = b).card := by
  have hmaps : ∀ a ∈ addrs, calcOldBucket env a ∈ groupOldBuckets env group := by
    intro a ha
    rw [← hgroup a ha]
    exact calcOldBucket_mem_groupOldBuckets env a
  have hbuckets : (groupOldBuckets env group).card ≤ oldBucketsPerGroup :=
    Finset.card_image_le.trans (Finset.card_range _).le
  obtain ⟨b, -, hb⟩ := Finset.exists_lt_card_fiber_of_mul_lt_card_of_maps_to hmaps
    (lt_of_le_of_lt (Nat.mul_le_mul_right n hbuckets) hcard)
  exact ⟨b, hb⟩

/-- Placements by an address's `ID`, all in one group. -/
def idBucketEnv : AddrBookEnv :=
  ⟨fun _ => 0, fun _ _ => 0, (·.id), fun _ hash64 => hash64, fun _ => true, fun _ => true⟩

/-- `exists_shared_oldBucket` at five addresses of one group: two of them
share an old bucket. -/
theorem exists_shared_oldBucket_five :
    ∃ b, 1 < (((Finset.range 5).image fun i => (⟨i, i, 26656⟩ : NetAddress)).filter
      fun a => calcOldBucket idBucketEnv a = b).card :=
  exists_shared_oldBucket idBucketEnv _ (fun _ _ => rfl) (by decide)

/-! ## A full old bucket

Peers of one group, told of by one source, share an old bucket and a new
one.  Each is marked good right after it is added, so it moves to the old
bucket at once.  `addToOldBucket` refuses only a bucket of more than
`oldBucketSize` entries, so the bucket fills to `oldBucketSize + 1`; the next
promotion evicts the oldest entry, whose re-adding to a new bucket fails as
its type is still old, and the address is gone from the book. -/

/-- Placements that send every address to new bucket 0 and old bucket 0, as
the key does for peers of one group from one source that share an old bucket. -/
def oneBucketEnv : AddrBookEnv :=
  ⟨fun _ => 0, fun _ _ => 0, fun _ => 0, fun _ _ => 0, fun _ => true, fun _ => true⟩

def peer (i : Nat) : NetAddress := ⟨i, i, 26656⟩

def gossipSource : NetAddress := ⟨0, 0, 26656⟩

/-- Peers `1` to `n`, each added by `gossipSource` and then marked good. -/
def promoteRun (n : Nat) : List (Int × AddrBookCall) :=
  (List.range n).flatMap fun i =>
    [((2 * i + 2 : Nat), .addAddress (peer (i + 1)) gossipSource 0), ((2 * i + 3 : Nat), .markGood (i + 1))]

theorem markGood_drops_evicted_address :
    ((newAddrBook false).run oneBucketEnv (promoteRun 65 ++
        [(132, .addAddress (peer 66) gossipSource 0)])).map
      (fun book => (book.addrLookup.get 1, book.addrLookup.length)) = some (some 0, 66) ∧
    ((newAddrBook false).run oneBucketEnv (promoteRun 66)).map
      (fun book => (book.addrLookup.get 1, (book.bucketsOld 0).get (peer 1), (book.bucketsNew 0).get (peer 1))) =
      some (none, none, none) ∧
    ((newAddrBook false).run oneBucketEnv (promoteRun 66)).map
      (fun book => ((book.bucketsOld 0).length, book.addrLookup.length, book.nOld)) =
      some (oldBucketSize + 1, 65, 65) := by
  decide +kernel

end Ostracon.P2p
