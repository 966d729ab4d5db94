import Mathlib.Data.List.AList
import Qbitcoin.Primitives.Block

/-!
# Coins

`Coin` of `coins.h`: an output with the height and the coinbase flag of its
transaction.  A spent coin is one whose output is null, which is what
`Coin::Clear` and the default constructor leave.  A cache entry
(`CCoinsCacheEntry`) adds the `DIRTY` and `FRESH` flags; the links that chain
the flagged entries into a list are left out, since the order in which
`BatchWrite` visits the entries does not change what it writes.

`CoinsDB` is the coins database under every cache.  Its `BatchWrite` erases
spent coins and writes unspent ones, so it never holds a spent coin; the
structure carries that as a field.
-/

namespace Qbitcoin

/-- `Coin`.  Its height is a 31-bit field in the C++; heights here are below 2^31. -/
structure Coin where
  out : CTxOut
  fCoinBase : Bool
  nHeight : Nat
  deriving DecidableEq, Repr

namespace Coin

/-- `Coin()`, and what `Coin::Clear` leaves. -/
def empty : Coin := ⟨CTxOut.null, false, 0⟩

/-- `Coin::IsSpent`. -/
def isSpent (coin : Coin) : Bool := coin.out.isNull

@[simp]
theorem isSpent_empty : empty.isSpent = true := rfl

end Coin

/-- `CCoinsCacheEntry`: a coin and its `DIRTY` and `FRESH` flags. -/
structure CCoinsCacheEntry where
  coin : Coin
  dirty : Bool
  fresh : Bool
  deriving DecidableEq, Repr

/-- What an entry makes its cache report: its coin, unless spent. -/
def CCoinsCacheEntry.unspent (entry : CCoinsCacheEntry) : Option Coin :=
  if entry.coin.isSpent then none else some entry.coin

theorem CCoinsCacheEntry.unspent_eq_some {entry : CCoinsCacheEntry} {coin : Coin}
    (reported : entry.unspent = some coin) : entry.coin = coin ∧ coin.isSpent = false := by
  unfold unspent at reported
  split at reported
  · cases reported
  · rename_i unspentCoin
    cases reported
    exact ⟨rfl, by simpa using unspentCoin⟩

theorem CCoinsCacheEntry.unspent_of_isSpent {entry : CCoinsCacheEntry} (spent : entry.coin.isSpent = true) :
    entry.unspent = none := by
  simp [unspent, spent]

theorem CCoinsCacheEntry.unspent_of_not_isSpent {entry : CCoinsCacheEntry}
    (unspentCoin : entry.coin.isSpent = false) : entry.unspent = some entry.coin := by
  simp [unspent, unspentCoin]

/-- `CCoinsMap`. -/
abbrev CCoinsMap := AList fun _ : COutPoint => CCoinsCacheEntry

/-- The coins of `CCoinsViewDB`, none of them spent. -/
structure CoinsDB where
  coins : AList fun _ : COutPoint => Coin
  unspent : ∀ outpoint coin, coins.lookup outpoint = some coin → coin.isSpent = false

namespace CoinsDB

/-- `CDBBatch::Write` of an unspent coin. -/
def write (db : CoinsDB) (outpoint : COutPoint) (coin : Coin) (unspentCoin : coin.isSpent = false) :
    CoinsDB where
  coins := db.coins.insert outpoint coin
  unspent := by
    intro key stored found
    by_cases here : key = outpoint
    · subst here
      rw [AList.lookup_insert, Option.some.injEq] at found
      exact found ▸ unspentCoin
    · rw [AList.lookup_insert_ne here] at found
      exact db.unspent key stored found

/-- `CDBBatch::Erase`. -/
def erase (db : CoinsDB) (outpoint : COutPoint) : CoinsDB where
  coins := db.coins.erase outpoint
  unspent := by
    intro key stored found
    by_cases here : key = outpoint
    · subst here
      rw [AList.lookup_erase] at found
      cases found
    · rw [AList.lookup_erase_ne here] at found
      exact db.unspent key stored found

/-- One visit of `CCoinsViewDB::BatchWrite`: a `DIRTY` entry's spent coin is
erased and its unspent coin written; other entries are passed over. -/
def batchWriteEntry (db : CoinsDB) (outpoint : COutPoint) (entry : CCoinsCacheEntry) : CoinsDB :=
  if !entry.dirty then db
  else if spent : entry.coin.isSpent then db.erase outpoint
  else db.write outpoint entry.coin (by simpa using spent)

/-- `CCoinsViewDB::BatchWrite` of the entries of `child`.  The best-block
records it also writes are not modelled. -/
def batchWrite (db : CoinsDB) (child : CCoinsMap) : CoinsDB :=
  child.entries.foldl (fun db entry => db.batchWriteEntry entry.1 entry.2) db

/-- A visit changes the database at its own key only: a `DIRTY` entry leaves
there the coin it reports. -/
theorem lookup_batchWriteEntry (db : CoinsDB) (outpoint : COutPoint) (entry : CCoinsCacheEntry)
    (key : COutPoint) :
    (db.batchWriteEntry outpoint entry).coins.lookup key =
      if outpoint = key then (if entry.dirty then entry.unspent else db.coins.lookup key)
      else db.coins.lookup key := by
  unfold batchWriteEntry
  by_cases here : outpoint = key
  · subst here
    cases dirty : entry.dirty
    · simp
    · by_cases spent : entry.coin.isSpent
      · simp [spent, erase, CCoinsCacheEntry.unspent]
      · simp [spent, write, CCoinsCacheEntry.unspent]
  · rw [if_neg here]
    split
    · rfl
    · split
      · exact AList.lookup_erase_ne (Ne.symm here)
      · exact AList.lookup_insert_ne (Ne.symm here)

end CoinsDB

end Qbitcoin
