import Qbitcoin.Coins.Coin

/-!
# `CCoinsViewCache`

The caches of `coins.cpp`, stacked: the top cache first, each cache the base
of the one before it, and the coins database under the last.  A read through a
cache (`FetchCoin`) fills the entries it misses, in every cache on the way
down, so reads change the stack too.

Each operation is written as the C++ performs it; a `throw` or a failed
`assert` is an error.  What a stack reports (`report`) is `GetCoin` without the
entries it fills: the top entry for the outpoint if there is one, else what the
view below reports.
-/

namespace Qbitcoin

/-- `FetchCoin` after a miss, once the base answered: its coin becomes an entry
that is not `DIRTY`, and `FRESH` if spent (which `GetCoin` never returns). -/
def fillEntry (cache : CCoinsMap) (outpoint : COutPoint) :
    Option Coin → Option CCoinsCacheEntry × CCoinsMap
  | some coin =>
      let entry : CCoinsCacheEntry := ⟨coin, false, coin.isSpent⟩
      (some entry, cache.insert outpoint entry)
  | none => (none, cache)

section

variable (db : CoinsDB)

/-- `GetCoin` of the view made of `layers` over `db`: its unspent coin, and the
caches after the entries `FetchCoin` filled on the way down. -/
def getCoinThrough : List CCoinsMap → COutPoint → Option Coin × List CCoinsMap
  | [], outpoint => (db.coins.lookup outpoint, [])
  | cache :: below, outpoint =>
      match cache.lookup outpoint with
      | some entry => (entry.unspent, cache :: below)
      | none =>
          let (fetched, below') := getCoinThrough below outpoint
          let (entry, cache') := fillEntry cache outpoint fetched
          (entry.bind CCoinsCacheEntry.unspent, cache' :: below')

/-- `CCoinsViewCache::FetchCoin` of `cache` over the view `below`: the entry for
`outpoint`, if the view has one, and the caches after. -/
def fetchCoin (cache : CCoinsMap) (below : List CCoinsMap) (outpoint : COutPoint) :
    Option CCoinsCacheEntry × CCoinsMap × List CCoinsMap :=
  match cache.lookup outpoint with
  | some entry => (some entry, cache, below)
  | none =>
      let (fetched, below') := getCoinThrough db below outpoint
      let (entry, cache') := fillEntry cache outpoint fetched
      (entry, cache', below')

/-- What the view made of `layers` over `db` reports for `outpoint`. -/
def report : List CCoinsMap → COutPoint → Option Coin
  | [], outpoint => db.coins.lookup outpoint
  | cache :: below, outpoint =>
      match cache.lookup outpoint with
      | some entry => entry.unspent
      | none => report below outpoint

end

/-! ## The operations of one cache -/

/-- `CCoinsViewCache::AddCoin`: nothing for an unspendable output; without
`possible_overwrite`, an unspent entry is an error, and the new entry is
`FRESH` unless the old one was `DIRTY`.  An absent entry is emplaced as a
default, spent entry.  `SetDirty` and `SetFresh` add flags: a flag the entry
had stays. -/
def addCoin (cache : CCoinsMap) (outpoint : COutPoint) (coin : Coin) (possible_overwrite : Bool) :
    Except String CCoinsMap := do
  if coin.isSpent then throw "Assertion !coin.IsSpent() failed"
  if coin.out.scriptPubKey.isUnspendable then return cache
  let existing := (cache.lookup outpoint).getD ⟨Coin.empty, false, false⟩
  let fresh ←
    if !possible_overwrite then
      if !existing.coin.isSpent then
        throw "Attempted to overwrite an unspent coin (when possible_overwrite is false)"
      pure !existing.dirty
    else pure false
  pure (cache.insert outpoint ⟨coin, true, existing.fresh || fresh⟩)

/-- `CCoinsViewCache::SpendCoin`: whether the view had an entry, the coin moved
out of it, and the caches after.  A `FRESH` entry is erased; any other becomes
a `DIRTY` spent entry. -/
def spendCoin (db : CoinsDB) (cache : CCoinsMap) (below : List CCoinsMap) (outpoint : COutPoint) :
    Bool × Option Coin × CCoinsMap × List CCoinsMap :=
  let (entry, cache', below') := fetchCoin db cache below outpoint
  match entry with
  | none => (false, none, cache', below')
  | some entry =>
      if entry.fresh then (true, some entry.coin, cache'.erase outpoint, below')
      else (true, some entry.coin, cache'.insert outpoint ⟨Coin.empty, true, entry.fresh⟩, below')

/-- `CCoinsViewCache::AccessCoin`: the entry's coin, spent or not, or the empty
coin. -/
def accessCoin (db : CoinsDB) (cache : CCoinsMap) (below : List CCoinsMap) (outpoint : COutPoint) :
    Coin × CCoinsMap × List CCoinsMap :=
  let (entry, cache', below') := fetchCoin db cache below outpoint
  ((entry.map (·.coin)).getD Coin.empty, cache', below')

/-- `CCoinsViewCache::HaveCoin`. -/
def haveCoin (db : CoinsDB) (cache : CCoinsMap) (below : List CCoinsMap) (outpoint : COutPoint) :
    Bool × CCoinsMap × List CCoinsMap :=
  let (entry, cache', below') := fetchCoin db cache below outpoint
  (entry.any fun entry => !entry.coin.isSpent, cache', below')

/-- `CCoinsViewCache::Uncache`: an entry that is neither `DIRTY` nor `FRESH`
is dropped. -/
def uncache (cache : CCoinsMap) (outpoint : COutPoint) : CCoinsMap :=
  match cache.lookup outpoint with
  | some entry => if !entry.dirty && !entry.fresh then cache.erase outpoint else cache
  | none => cache

/-- `Uncache` on the cache at `depth` in `layers`. -/
def uncacheAt (outpoint : COutPoint) : Nat → List CCoinsMap → Except String (List CCoinsMap)
  | 0, cache :: below => pure (uncache cache outpoint :: below)
  | depth + 1, cache :: below => do
      let below' ← uncacheAt outpoint depth below
      pure (cache :: below')
  | _, [] => throw "no cache at that depth"

/-! ## Writing a cache into its base -/

/-- One visit of `CCoinsViewCache::BatchWrite` in the parent: a `DIRTY` child
entry is created, erased or overwritten in the parent; the others are passed
over.  A spent `FRESH` child entry has nothing to tell the parent, and a spent
coin over a `FRESH` one leaves the grandparent nothing to learn, so the parent
erases it. -/
def batchWriteEntry (parent : CCoinsMap) (outpoint : COutPoint) (child : CCoinsCacheEntry) :
    Except String CCoinsMap :=
  if !child.dirty then pure parent
  else
    match parent.lookup outpoint with
    | none =>
        if child.fresh && child.coin.isSpent then pure parent
        else pure (parent.insert outpoint ⟨child.coin, true, child.fresh⟩)
    | some ours =>
        if child.fresh && !ours.coin.isSpent then
          throw "FRESH flag misapplied to coin that exists in parent cache"
        else if ours.fresh && child.coin.isSpent then pure (parent.erase outpoint)
        else pure (parent.insert outpoint ⟨child.coin, true, ours.fresh⟩)

/-- `CCoinsViewCache::BatchWrite` of the entries of `child`. -/
def batchWrite (parent child : CCoinsMap) : Except String CCoinsMap :=
  child.entries.foldlM (fun parent entry => batchWriteEntry parent entry.1 entry.2) parent

/-- `CoinsViewCacheCursor::NextAndMaybeErase` without `will_erase`, for one
entry: a flagged spent entry is erased, any other flagged entry loses its flags. -/
def syncEntry (cache : CCoinsMap) (outpoint : COutPoint) (entry : CCoinsCacheEntry) : CCoinsMap :=
  if !(entry.dirty || entry.fresh) then cache
  else if entry.coin.isSpent then cache.erase outpoint
  else cache.insert outpoint { entry with dirty := false, fresh := false }

/-- The cursor of `Sync` over every entry of `cache`. -/
def syncEntries (cache : CCoinsMap) : CCoinsMap :=
  cache.entries.foldl (fun cache entry => syncEntry cache entry.1 entry.2) cache

/-- What `Flush` (`erase`) or `Sync` leaves of a written cache: nothing, or its
entries with the spent ones erased and the flags cleared, after `Sync`'s check
that no flagged entry remains. -/
def afterWrite (erase : Bool) (cache : CCoinsMap) : Except String CCoinsMap :=
  if erase then pure ∅
  else
    let synced := syncEntries cache
    if synced.entries.any fun entry => entry.2.dirty || entry.2.fresh then
      throw "Not all unspent flagged entries were cleared"
    else pure synced

/-- `Flush` (`erase`) or `Sync` of the cache at `depth` in `layers` over `db`:
its base, the next cache or the database, takes its entries. -/
def writeBack (erase : Bool) : Nat → CoinsDB → List CCoinsMap → Except String (CoinsDB × List CCoinsMap)
  | 0, db, [cache] => do
      let cache' ← afterWrite erase cache
      pure (db.batchWrite cache, [cache'])
  | 0, db, cache :: parent :: rest => do
      let parent' ← batchWrite parent cache
      let cache' ← afterWrite erase cache
      pure (db, cache' :: parent' :: rest)
  | depth + 1, db, cache :: rest => do
      let (db', rest') ← writeBack erase depth db rest
      pure (db', cache :: rest')
  | _, _, [] => throw "no cache at that depth"

/-! ## The stack -/

/-- A stack of `CCoinsViewCache`s over the coins database, the top cache first. -/
structure CoinsStack where
  db : CoinsDB
  layers : List CCoinsMap

/-- The operations on a stack: the calls of `CCoinsViewCache` on the top cache,
`Uncache`, `Flush` and `Sync` of the cache at any depth, and a cache pushed on
top or popped after a `Flush` or a `Sync`. -/
inductive CoinsOp where
  | accessCoin (outpoint : COutPoint)
  | getCoin (outpoint : COutPoint)
  | haveCoin (outpoint : COutPoint)
  | addCoin (outpoint : COutPoint) (coin : Coin) (possible_overwrite : Bool)
  | spendCoin (outpoint : COutPoint)
  | uncache (depth : Nat) (outpoint : COutPoint)
  | flush (depth : Nat)
  | sync (depth : Nat)
  | push
  | popFlush
  | popSync

namespace CoinsStack

/-- What the top of the stack reports. -/
def reportTop (s : CoinsStack) (outpoint : COutPoint) : Option Coin := report s.db s.layers outpoint

/-- An operation on the top cache. -/
def topStep (db : CoinsDB) (cache : CCoinsMap) (below : List CCoinsMap) :
    CoinsOp → Except String (List CCoinsMap)
  | .accessCoin outpoint =>
      let (_, cache', below') := accessCoin db cache below outpoint
      pure (cache' :: below')
  | .getCoin outpoint => pure (getCoinThrough db (cache :: below) outpoint).2
  | .haveCoin outpoint =>
      let (_, cache', below') := haveCoin db cache below outpoint
      pure (cache' :: below')
  | .addCoin outpoint coin possible_overwrite => do
      let cache' ← addCoin cache outpoint coin possible_overwrite
      pure (cache' :: below)
  | .spendCoin outpoint =>
      let (_, _, cache', below') := spendCoin db cache below outpoint
      pure (cache' :: below')
  | _ => pure (cache :: below)

/-- One operation on the stack. -/
def step (s : CoinsStack) : CoinsOp → Except String CoinsStack
  | .push => pure ⟨s.db, ∅ :: s.layers⟩
  | .uncache depth outpoint => do
      let layers' ← uncacheAt outpoint depth s.layers
      pure ⟨s.db, layers'⟩
  | .flush depth => do
      let (db', layers') ← writeBack true depth s.db s.layers
      pure ⟨db', layers'⟩
  | .sync depth => do
      let (db', layers') ← writeBack false depth s.db s.layers
      pure ⟨db', layers'⟩
  | .popFlush => do
      let (db', layers') ← writeBack true 0 s.db s.layers
      pure ⟨db', layers'.tail⟩
  | .popSync => do
      let (db', layers') ← writeBack false 0 s.db s.layers
      pure ⟨db', layers'.tail⟩
  | op =>
      match s.layers with
      | [] => throw "no cache"
      | cache :: below => do
          let layers' ← topStep s.db cache below op
          pure ⟨s.db, layers'⟩

/-- The operations the contract of `CCoinsViewCache` allows: a cache to act
on, and for `AddCoin` an unspent coin, and without `possible_overwrite` an
outpoint where the top reports no unspent coin. -/
def allowed (s : CoinsStack) : CoinsOp → Bool
  | .addCoin outpoint coin possible_overwrite =>
      !s.layers.isEmpty && !coin.isSpent && (possible_overwrite || (s.reportTop outpoint).isNone)
  | .uncache depth _ | .flush depth | .sync depth => decide (depth < s.layers.length)
  | .push => true
  | _ => !s.layers.isEmpty

/-- A sequence of operations run one after the other: the stack after them, or
`none` at the first operation that is not allowed.  An error is a `throw` or a
failed `assert` of an allowed operation. -/
def run : CoinsStack → List CoinsOp → Except String (Option CoinsStack)
  | s, [] => pure (some s)
  | s, op :: ops =>
      if s.allowed op then do
        let s' ← s.step op
        run s' ops
      else pure none

end CoinsStack

end Qbitcoin
