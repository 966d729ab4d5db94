import Qbitcoin.Coins.Coherence
import Qbitcoin.Lib.Except

/-!
# `Flush` and `Sync`

`BatchWrite` of a coherent cache into its base throws nothing and leaves the
base reporting what the cache reported: a `FRESH` child entry never meets an
unspent parent entry, and an entry that is not `DIRTY` already agrees with the
base.  What `Flush` or `Sync` then leaves of the cache reports the same over
the new base, so the whole stack reports what it did before.

Each `BatchWrite` is described key by key with the walks of
`Qbitcoin.Lib.AListFold`; `writtenEntry` and `syncedEntry` say what one visit
leaves at its key.
-/

namespace Qbitcoin

/-- What a visit of `CCoinsViewCache::BatchWrite` leaves in the parent at the
child entry's outpoint, from the parent's entry there. -/
def writtenEntry (child : CCoinsCacheEntry) : Option CCoinsCacheEntry → Option CCoinsCacheEntry
  | none => if !child.dirty || child.fresh && child.coin.isSpent then none else some ⟨child.coin, true, child.fresh⟩
  | some ours =>
      if !child.dirty then some ours
      else if ours.fresh && child.coin.isSpent then none
      else some ⟨child.coin, true, ours.fresh⟩

/-- Where a visit throws: a `DIRTY` and `FRESH` child entry over an unspent
parent entry. -/
def misappliedFresh (child : CCoinsCacheEntry) (ours : Option CCoinsCacheEntry) : Bool :=
  child.dirty && child.fresh && ours.any fun ours => !ours.coin.isSpent

/-- What the cursor of `Sync` leaves of an entry. -/
def syncedEntry (entry : CCoinsCacheEntry) : Option CCoinsCacheEntry :=
  if !(entry.dirty || entry.fresh) then some entry
  else if entry.coin.isSpent then none
  else some { entry with dirty := false, fresh := false }

/-! ## One visit -/

theorem batchWriteEntry_changesAt :
    AList.ChangesAtOrFails (fun (parent : CCoinsMap) key => parent.lookup key) batchWriteEntry
      (fun _ child ours => writtenEntry child ours) (fun _ child ours => misappliedFresh child ours = true) := by
  intro parent key child fine
  dsimp only at fine ⊢
  unfold batchWriteEntry
  cases dirty : child.dirty
  · refine ⟨parent, rfl, fun a => ?_⟩
    split
    · rename_i here
      subst here
      cases parent.lookup key <;> simp [writtenEntry, dirty]
    · rfl
  · cases found : parent.lookup key with
    | none =>
        by_cases ignored : (child.fresh && child.coin.isSpent) = true
        · refine ⟨parent, by simp [ignored], fun a => ?_⟩
          split
          · rename_i here
            subst here
            simp [writtenEntry, dirty, ignored, found]
          · rfl
        · refine ⟨parent.insert key ⟨child.coin, true, child.fresh⟩, by simp [ignored], fun a => ?_⟩
          rw [AList.lookup_insert_eq_ite]
          split
          · rename_i here
            subst here
            simp [writtenEntry, dirty, ignored, found]
          · rfl
    | some ours =>
        rw [found] at fine
        have allowed : (child.fresh && !ours.coin.isSpent) = false := by
          simpa [misappliedFresh, dirty] using fine
        by_cases erased : (ours.fresh && child.coin.isSpent) = true
        · refine ⟨parent.erase key, by simp [allowed, erased], fun a => ?_⟩
          rw [AList.lookup_erase_eq_ite]
          split
          · rename_i here
            subst here
            simp [writtenEntry, dirty, erased, found]
          · rfl
        · refine ⟨parent.insert key ⟨child.coin, true, ours.fresh⟩, by simp [allowed, erased], fun a => ?_⟩
          rw [AList.lookup_insert_eq_ite]
          split
          · rename_i here
            subst here
            simp [writtenEntry, dirty, erased, found]
          · rfl

theorem syncEntry_changesAt :
    AList.ChangesAt (fun (cache : CCoinsMap) key => cache.lookup key) syncEntry
      (fun _ entry old => if !(entry.dirty || entry.fresh) then old else syncedEntry entry) := by
  intro cache key entry a
  unfold syncEntry
  by_cases clean : (!(entry.dirty || entry.fresh)) = true
  · simp only [clean, if_true, ite_self]
  · rw [if_neg clean]
    dsimp only
    split
    · rename_i spent
      rw [AList.lookup_erase_eq_ite]
      simp [clean, syncedEntry, spent]
    · rename_i unspent
      rw [AList.lookup_insert_eq_ite]
      simp [clean, syncedEntry, unspent]

/-- A coherent child entry written over a coherent parent entry: no throw, the
parent then reports what the child reported, and its entry stays coherent. -/
theorem writtenEntry_spec {child : CCoinsCacheEntry} {ours : Option CCoinsCacheEntry} {grand : Option Coin}
    (childAgrees : EntryCoherent (ours.elim grand CCoinsCacheEntry.unspent) child)
    (parentAgrees : ∀ entry, ours = some entry → EntryCoherent grand entry) :
    misappliedFresh child ours = false ∧
      (writtenEntry child ours).elim grand CCoinsCacheEntry.unspent = child.unspent ∧
      ∀ entry, writtenEntry child ours = some entry → EntryCoherent grand entry := by
  cases ours with
  | none =>
      simp only [Option.elim_none] at childAgrees
      refine ⟨by simp [misappliedFresh], ?_⟩
      cases dirty : child.dirty
      · refine ⟨?_, fun entry written => by simp [writtenEntry, dirty] at written⟩
        simpa [writtenEntry, dirty] using (childAgrees.1 dirty).symm
      · by_cases ignored : (child.fresh && child.coin.isSpent) = true
        · rw [Bool.and_eq_true] at ignored
          refine ⟨?_, fun entry written => by simp [writtenEntry, dirty, ignored] at written⟩
          simp only [writtenEntry, dirty, ignored, Bool.not_true, Bool.and_self, Bool.or_true, if_true,
            Option.elim_none]
          rw [childAgrees.2 ignored.1, CCoinsCacheEntry.unspent_of_isSpent ignored.2]
        · simp only [writtenEntry, dirty, Bool.not_true, Bool.false_or, ignored]
          refine ⟨rfl, ?_⟩
          rintro entry ⟨⟩
          exact ⟨fun written => (by cases written), childAgrees.2⟩
  | some ours =>
      have agrees := parentAgrees ours rfl
      simp only [Option.elim_some] at childAgrees
      refine ⟨?_, ?_⟩
      · cases fresh : child.fresh
        · simp [misappliedFresh, fresh]
        · have spent := childAgrees.2 fresh
          simp [misappliedFresh, fresh, CCoinsCacheEntry.unspent] at spent ⊢
          exact fun _ => spent
      cases dirty : child.dirty
      · simp only [writtenEntry, dirty, Bool.not_false, if_true, Option.elim_some]
        refine ⟨(childAgrees.1 dirty).symm, ?_⟩
        rintro entry ⟨⟩
        exact agrees
      · by_cases erased : (ours.fresh && child.coin.isSpent) = true
        · rw [Bool.and_eq_true] at erased
          simp only [writtenEntry, dirty, Bool.not_true, erased, Bool.and_self, if_true, Option.elim_none,
            Bool.false_eq_true, if_false]
          refine ⟨?_, fun entry written => by cases written⟩
          rw [agrees.2 erased.1, CCoinsCacheEntry.unspent_of_isSpent erased.2]
        · simp only [writtenEntry, dirty, Bool.not_true, erased, Bool.false_eq_true, if_false]
          refine ⟨rfl, ?_⟩
          rintro entry ⟨⟩
          exact ⟨fun written => (by cases written), agrees.2⟩

theorem syncedEntry_spec {entry synced : CCoinsCacheEntry} (left : syncedEntry entry = some synced) :
    synced.dirty = false ∧ synced.fresh = false ∧ synced.unspent = entry.unspent := by
  unfold syncedEntry at left
  split at left
  · rename_i clean
    cases left
    simpa using clean
  · split at left
    · cases left
    · cases left
      exact ⟨rfl, rfl, rfl⟩

/-- An entry without flags agrees with a view that reports its coin. -/
theorem entryCoherent_of_clean {entry : CCoinsCacheEntry} (clean : entry.fresh = false) :
    EntryCoherent entry.unspent entry :=
  ⟨fun _ => rfl, fun fresh => by rw [clean] at fresh; cases fresh⟩

/-! ## Whole writes -/

section

variable {db db' : CoinsDB} {cache parent : CCoinsMap} {below' rest : List CCoinsMap}

theorem lookup_syncEntries (cache : CCoinsMap) (key : COutPoint) :
    (syncEntries cache).lookup key = (cache.lookup key).bind syncedEntry := by
  have walked := AList.look_foldl syncEntry_changesAt cache cache key
  rw [syncEntries, walked]
  cases found : cache.lookup key with
  | none => rfl
  | some entry =>
      simp only [AList.changedAt, Option.bind_some]
      split
      · rename_i clean
        simp [syncedEntry, clean]
      · rfl

/-- `CCoinsViewCache::BatchWrite` of a coherent cache into its parent succeeds,
and the parent then reports what the cache reported and stays coherent. -/
theorem batchWrite_spec (coherent : Coherent db (cache :: parent :: rest)) :
    ∃ parent', batchWrite parent cache = .ok parent' ∧
      (∀ key, report db (parent' :: rest) key = report db (cache :: parent :: rest) key) ∧
      Coherent db (parent' :: rest) := by
  have visit : ∀ key child, cache.lookup key = some child →
      misappliedFresh child (parent.lookup key) = false ∧
        (writtenEntry child (parent.lookup key)).elim (report db rest key) CCoinsCacheEntry.unspent =
          child.unspent ∧
        ∀ entry, writtenEntry child (parent.lookup key) = some entry →
          EntryCoherent (report db rest key) entry := by
    intro key child found
    apply writtenEntry_spec
    · rw [← report_cons]
      exact coherent.entry found
    · intro entry stored
      exact coherent.tail.entry stored
  obtain ⟨parent', written, atKeys⟩ :=
    AList.foldlM_of_changesAt batchWriteEntry_changesAt cache parent fun key child found => by
      simp [(visit key child found).1]
  refine ⟨parent', written, fun key => ?_, ⟨fun key entry stored => ?_, coherent.tail.tail⟩⟩
  · rw [report_cons, atKeys]
    cases found : cache.lookup key with
    | none =>
        rw [report_cons_of_lookup_none found, report_cons]
        rfl
    | some child =>
        rw [report_cons_of_lookup found]
        exact (visit key child found).2.1
  · rw [atKeys] at stored
    cases found : cache.lookup key with
    | none =>
        rw [found] at stored
        exact coherent.tail.entry stored
    | some child =>
        rw [found] at stored
        exact (visit key child found).2.2 entry stored

/-- `CCoinsViewDB::BatchWrite` of a coherent cache leaves the database holding
what the cache reported. -/
theorem lookup_batchWrite (coherent : Coherent db [cache]) (key : COutPoint) :
    (db.batchWrite cache).coins.lookup key = report db [cache] key := by
  have changes : AList.ChangesAt (fun (db : CoinsDB) key => db.coins.lookup key) CoinsDB.batchWriteEntry
      (fun _ entry old => if entry.dirty then entry.unspent else old) :=
    fun db key entry a => db.lookup_batchWriteEntry key entry a
  have walked := AList.look_foldl changes cache db key
  rw [CoinsDB.batchWrite, walked, report_cons]
  cases found : cache.lookup key with
  | none => rfl
  | some entry =>
      simp only [AList.changedAt, Option.elim_some]
      cases dirty : entry.dirty
      · exact ((coherent.entry found).1 dirty).symm
      · rfl

/-- What `Flush` or `Sync` leaves of a cache, over a base that now reports what
the cache reported, reports the same and is coherent; `Sync`'s check passes. -/
theorem afterWrite_spec (written : ∀ key, report db' below' key = report db (cache :: rest) key)
    (coherentBelow : Coherent db' below') (erase : Bool) :
    ∃ cache', afterWrite erase cache = .ok cache' ∧
      (∀ key, report db' (cache' :: below') key = report db (cache :: rest) key) ∧
      Coherent db' (cache' :: below') := by
  cases erase with
  | true =>
      refine ⟨∅, rfl, fun key => ?_, coherent_empty_cons coherentBelow⟩
      rw [report_empty_cons, written]
  | false =>
      have left : ∀ key synced, (syncEntries cache).lookup key = some synced →
          ∃ entry, cache.lookup key = some entry ∧ syncedEntry entry = some synced := by
        intro key synced stored
        rw [lookup_syncEntries, Option.bind_eq_some_iff] at stored
        exact stored
      have noFlags : ((syncEntries cache).entries.any fun entry => entry.2.dirty || entry.2.fresh) = false := by
        rw [List.any_eq_false]
        intro entry mem
        obtain ⟨old, -, synced⟩ := left entry.1 entry.2 (AList.mem_lookup_iff.mpr mem)
        obtain ⟨clean, unfresh, -⟩ := syncedEntry_spec synced
        simp [clean, unfresh]
      refine ⟨syncEntries cache, by simp [afterWrite, noFlags], fun key => ?_, ⟨fun key synced stored => ?_,
        coherentBelow⟩⟩
      · rw [report_cons, lookup_syncEntries, written]
        cases found : cache.lookup key with
        | none => rfl
        | some entry =>
            rw [report_cons_of_lookup found, Option.bind_some]
            cases staying : syncedEntry entry with
            | none => rfl
            | some synced => exact (syncedEntry_spec staying).2.2
      · obtain ⟨entry, found, staying⟩ := left key synced stored
        obtain ⟨-, unfresh, same⟩ := syncedEntry_spec staying
        rw [written, report_cons_of_lookup found, ← same]
        exact entryCoherent_of_clean unfresh

end

/-! ## The stack -/

section

variable {db : CoinsDB} {layers : List CCoinsMap}

/-- `Flush` or `Sync` of the cache at `depth` succeeds, changes no report of
the stack, keeps it coherent, and leaves the base of that cache reporting what
the cache reported. -/
theorem writeBack_spec (coherent : Coherent db layers) (erase : Bool) {depth : Nat}
    (inRange : depth < layers.length) :
    ∃ db' layers', writeBack erase depth db layers = .ok (db', layers') ∧
      (∀ key, report db' layers' key = report db layers key) ∧ Coherent db' layers' ∧
      ∀ key, report db' (layers'.drop (depth + 1)) key = report db (layers.drop depth) key := by
  induction depth generalizing layers with
  | zero =>
      match layers, coherent with
      | [cache], coherent =>
          have written : ∀ key, report (db.batchWrite cache) [] key = report db [cache] key :=
            lookup_batchWrite coherent
          obtain ⟨cache', after, reports, coherent'⟩ := afterWrite_spec written trivial erase
          exact ⟨db.batchWrite cache, [cache'], by simp [writeBack, after], reports, coherent', written⟩
      | cache :: parent :: rest, coherent =>
          obtain ⟨parent', batched, written, coherentParent⟩ := batchWrite_spec coherent
          obtain ⟨cache', after, reports, coherent'⟩ := afterWrite_spec written coherentParent erase
          exact ⟨db, cache' :: parent' :: rest, by simp [writeBack, batched, after], reports, coherent',
            written⟩
  | succ depth inDepth =>
      match layers, coherent, inRange with
      | cache :: rest, coherent, inRange =>
          obtain ⟨db', rest', back, reports, coherentRest, parentReports⟩ :=
            inDepth coherent.tail (by simpa using inRange)
          refine ⟨db', cache :: rest', by simp [writeBack, back], fun key => report_cons_congr reports key,
            coherent.congr_below reports coherentRest, ?_⟩
          simpa using parentReports

/-- `Uncache` at any depth changes no report and keeps the stack coherent. -/
theorem uncacheAt_spec (coherent : Coherent db layers) (outpoint : COutPoint) {depth : Nat}
    (inRange : depth < layers.length) :
    ∃ layers', uncacheAt outpoint depth layers = .ok layers' ∧
      (∀ key, report db layers' key = report db layers key) ∧ Coherent db layers' := by
  induction depth generalizing layers with
  | zero =>
      match layers, coherent with
      | cache :: below, coherent =>
          obtain ⟨reports, coherent'⟩ := uncache_spec coherent outpoint
          exact ⟨_, rfl, reports, coherent'⟩
  | succ depth inDepth =>
      match layers, coherent, inRange with
      | cache :: below, coherent, inRange =>
          obtain ⟨below', uncached, reports, coherentBelow⟩ := inDepth coherent.tail (by simpa using inRange)
          exact ⟨cache :: below', by simp [uncacheAt, uncached], fun key => report_cons_congr reports key,
            coherent.congr_below reports coherentBelow⟩

end

end Qbitcoin
