import Qbitcoin.Coins.Cache
import Qbitcoin.Lib.AListFold

/-!
# Coherent stacks of caches

The invariant the flags of `coins.h` document: an entry that is not `DIRTY`
agrees with the view below its cache, and where an entry is `FRESH` that view
has no unspent coin.  Every operation keeps it, and none changes what the top
of the stack reports except `AddCoin` and `SpendCoin` at their outpoint.
`Flush` and `Sync` of a cache leave its base reporting what the cache
reported.
-/

namespace Qbitcoin

section

variable {db db' : CoinsDB} {cache : CCoinsMap} {below below' layers layers' : List CCoinsMap}
  {outpoint : COutPoint}

/-! ## Reports -/

@[simp]
theorem report_nil : report db [] outpoint = db.coins.lookup outpoint := rfl

theorem report_cons_of_lookup {entry : CCoinsCacheEntry} (found : cache.lookup outpoint = some entry) :
    report db (cache :: below) outpoint = entry.unspent := by
  simp [report, found]

theorem report_cons_of_lookup_none (missing : cache.lookup outpoint = none) :
    report db (cache :: below) outpoint = report db below outpoint := by
  simp [report, missing]

/-- A cache over two views that report alike reports alike. -/
theorem report_cons_congr (same : ∀ key, report db' below' key = report db below key) (key : COutPoint) :
    report db' (cache :: below') key = report db (cache :: below) key := by
  cases found : cache.lookup key with
  | none => rw [report_cons_of_lookup_none found, report_cons_of_lookup_none found, same]
  | some entry => rw [report_cons_of_lookup found, report_cons_of_lookup found]

/-- A cache reports its entry's coin, or what the view below it reports. -/
theorem report_cons (key : COutPoint) :
    report db (cache :: below) key = (cache.lookup key).elim (report db below key) CCoinsCacheEntry.unspent := by
  cases found : cache.lookup key with
  | none => exact report_cons_of_lookup_none found
  | some entry => exact report_cons_of_lookup found

theorem report_insert_cons (entry : CCoinsCacheEntry) (key : COutPoint) :
    report db (cache.insert outpoint entry :: below) key =
      if key = outpoint then entry.unspent else report db (cache :: below) key := by
  by_cases here : key = outpoint
  · subst here
    rw [report_cons_of_lookup (AList.lookup_insert _), if_pos rfl]
  · rw [if_neg here]
    cases found : cache.lookup key with
    | none =>
        rw [report_cons_of_lookup_none found,
          report_cons_of_lookup_none (by rw [AList.lookup_insert_ne here]; exact found)]
    | some old =>
        rw [report_cons_of_lookup found,
          report_cons_of_lookup (by rw [AList.lookup_insert_ne here]; exact found)]

theorem report_erase_cons (key : COutPoint) :
    report db (cache.erase outpoint :: below) key =
      if key = outpoint then report db below key else report db (cache :: below) key := by
  by_cases here : key = outpoint
  · subst here
    rw [report_cons_of_lookup_none (AList.lookup_erase _ _), if_pos rfl]
  · rw [if_neg here]
    cases found : cache.lookup key with
    | none =>
        rw [report_cons_of_lookup_none found,
          report_cons_of_lookup_none (by rw [AList.lookup_erase_ne here]; exact found)]
    | some old =>
        rw [report_cons_of_lookup found,
          report_cons_of_lookup (by rw [AList.lookup_erase_ne here]; exact found)]

@[simp]
theorem report_empty_cons (key : COutPoint) :
    report db ((∅ : CCoinsMap) :: below) key = report db below key :=
  report_cons_of_lookup_none (AList.lookup_empty key)

/-- The database holds no spent coin, and no cache reports one. -/
theorem report_unspent {coin : Coin} (reported : report db layers outpoint = some coin) :
    coin.isSpent = false := by
  induction layers with
  | nil => exact db.unspent outpoint coin reported
  | cons cache below inBelow =>
      cases found : cache.lookup outpoint with
      | none =>
          rw [report_cons_of_lookup_none found] at reported
          exact inBelow reported
      | some entry =>
          rw [report_cons_of_lookup found] at reported
          exact (CCoinsCacheEntry.unspent_eq_some reported).2

/-! ## The invariant -/

/-- An entry agrees with `below`, what the view under its cache reports for
its outpoint. -/
def EntryCoherent (below : Option Coin) (entry : CCoinsCacheEntry) : Prop :=
  (entry.dirty = false → entry.unspent = below) ∧ (entry.fresh = true → below = none)

variable (db) in
/-- Every entry of every cache agrees with the view under its cache. -/
def Coherent : List CCoinsMap → Prop
  | [] => True
  | cache :: below =>
      (∀ key entry, cache.lookup key = some entry → EntryCoherent (report db below key) entry) ∧
        Coherent below

@[simp]
theorem coherent_nil : Coherent db [] := trivial

theorem Coherent.entry (coherent : Coherent db (cache :: below)) {key : COutPoint}
    {entry : CCoinsCacheEntry} (found : cache.lookup key = some entry) :
    EntryCoherent (report db below key) entry :=
  coherent.1 key entry found

theorem Coherent.tail (coherent : Coherent db (cache :: below)) : Coherent db below :=
  coherent.2

/-- A coherent cache stays coherent over a coherent view that reports alike. -/
theorem Coherent.congr_below (coherent : Coherent db (cache :: below))
    (same : ∀ key, report db' below' key = report db below key) (coherentBelow : Coherent db' below') :
    Coherent db' (cache :: below') :=
  ⟨fun key entry found => by rw [same]; exact coherent.entry found, coherentBelow⟩

theorem Coherent.insert (coherent : Coherent db (cache :: below)) {entry : CCoinsCacheEntry}
    (agrees : EntryCoherent (report db below outpoint) entry) :
    Coherent db (cache.insert outpoint entry :: below) := by
  refine ⟨fun key stored found => ?_, coherent.tail⟩
  by_cases here : key = outpoint
  · subst here
    rw [AList.lookup_insert, Option.some.injEq] at found
    exact found ▸ agrees
  · rw [AList.lookup_insert_ne here] at found
    exact coherent.entry found

theorem Coherent.erase (coherent : Coherent db (cache :: below)) :
    Coherent db (cache.erase outpoint :: below) := by
  refine ⟨fun key stored found => ?_, coherent.tail⟩
  by_cases here : key = outpoint
  · subst here
    rw [AList.lookup_erase] at found
    cases found
  · rw [AList.lookup_erase_ne here] at found
    exact coherent.entry found

/-- A fresh cache is coherent. -/
theorem coherent_empty_cons (coherentBelow : Coherent db below) :
    Coherent db ((∅ : CCoinsMap) :: below) :=
  ⟨fun key entry found => (by rw [AList.lookup_empty] at found; cases found), coherentBelow⟩

end

/-! ## Reads -/

section

variable {db : CoinsDB} {cache : CCoinsMap} {below layers : List CCoinsMap} {outpoint : COutPoint}

/-- `GetCoin` returns what the view reports, changes no report and keeps the
stack coherent: an entry it fills holds the unspent coin the view below
reported. -/
theorem getCoinThrough_spec (coherent : Coherent db layers) (outpoint : COutPoint) :
    (getCoinThrough db layers outpoint).1 = report db layers outpoint ∧
      (∀ key, report db (getCoinThrough db layers outpoint).2 key = report db layers key) ∧
      Coherent db (getCoinThrough db layers outpoint).2 := by
  induction layers with
  | nil => exact ⟨rfl, fun _ => rfl, trivial⟩
  | cons cache below inBelow =>
      cases found : cache.lookup outpoint with
      | some entry =>
          have unfolded : getCoinThrough db (cache :: below) outpoint = (entry.unspent, cache :: below) := by
            simp [getCoinThrough, found]
          rw [unfolded]
          exact ⟨(report_cons_of_lookup found).symm, fun _ => rfl, coherent⟩
      | none =>
          obtain ⟨fetched, sameBelow, coherentBelow⟩ := inBelow coherent.tail
          have reportsOver : ∀ key, report db (cache :: (getCoinThrough db below outpoint).2) key =
              report db (cache :: below) key := report_cons_congr sameBelow
          have coherentOver := coherent.congr_below sameBelow coherentBelow
          have unfolded : getCoinThrough db (cache :: below) outpoint =
              ((fillEntry cache outpoint (getCoinThrough db below outpoint).1).1.bind
                CCoinsCacheEntry.unspent,
                (fillEntry cache outpoint (getCoinThrough db below outpoint).1).2 ::
                  (getCoinThrough db below outpoint).2) := by
            simp [getCoinThrough, found]
          rw [unfolded, fetched]
          cases reported : report db below outpoint with
          | none =>
              refine ⟨by rw [report_cons_of_lookup_none found, reported]; rfl, reportsOver, coherentOver⟩
          | some coin =>
              have unspentCoin := report_unspent reported
              have filled : (⟨coin, false, coin.isSpent⟩ : CCoinsCacheEntry).unspent = some coin := by
                simp [CCoinsCacheEntry.unspent, unspentCoin]
              dsimp only [fillEntry]
              refine ⟨by rw [report_cons_of_lookup_none found, reported]; exact filled, fun key => ?_, ?_⟩
              · rw [report_insert_cons, reportsOver key]
                split
                · rename_i here
                  subst here
                  rw [filled, report_cons_of_lookup_none found, reported]
                · rfl
              · refine coherentOver.insert ⟨fun _ => ?_, fun fresh => ?_⟩
                · rw [filled, sameBelow, reported]
                · simp [unspentCoin] at fresh

theorem getCoinThrough_cons :
    getCoinThrough db (cache :: below) outpoint =
      ((fetchCoin db cache below outpoint).1.bind CCoinsCacheEntry.unspent,
        (fetchCoin db cache below outpoint).2.1 :: (fetchCoin db cache below outpoint).2.2) := by
  unfold getCoinThrough fetchCoin
  split <;> rfl

/-- `FetchCoin` returns the entry it leaves in the cache, finds none only where
the view reports nothing, changes no report and keeps the stack coherent. -/
theorem fetchCoin_spec (coherent : Coherent db (cache :: below)) {entry : Option CCoinsCacheEntry}
    {cache' : CCoinsMap} {below' : List CCoinsMap}
    (fetched : fetchCoin db cache below outpoint = (entry, cache', below')) :
    cache'.lookup outpoint = entry ∧ (entry = none → report db below' outpoint = none) ∧
      (∀ key, report db (cache' :: below') key = report db (cache :: below) key) ∧
      Coherent db (cache' :: below') := by
  obtain ⟨gotten, sameReports, stillCoherent⟩ := getCoinThrough_spec coherent outpoint
  rw [getCoinThrough_cons, fetched] at gotten sameReports stillCoherent
  have stored : cache'.lookup outpoint = entry := by
    unfold fetchCoin at fetched
    split at fetched
    · rename_i stored found
      cases fetched
      exact found
    · rename_i missing
      cases read : (getCoinThrough db below outpoint).1 with
      | none =>
          simp only [read, fillEntry, Prod.mk.injEq] at fetched
          obtain ⟨rfl, rfl, -⟩ := fetched
          exact missing
      | some coin =>
          simp only [read, fillEntry, Prod.mk.injEq] at fetched
          obtain ⟨rfl, rfl, -⟩ := fetched
          exact AList.lookup_insert _
  refine ⟨stored, fun missing => ?_, sameReports, stillCoherent⟩
  subst missing
  rw [← report_cons_of_lookup_none stored, sameReports, ← gotten]
  rfl

end

/-! ## The operations of the top cache -/

section

variable {db : CoinsDB} {cache cache' : CCoinsMap} {below below' : List CCoinsMap} {outpoint : COutPoint}
  {coin : Coin} {possible_overwrite : Bool}

/-- What a successful `AddCoin` did: its coin is unspent, and either the output
is unspendable and nothing changed, or the entry there, or a default spent one,
is replaced by a `DIRTY` entry, `FRESH` if the old one was or if it was not
`DIRTY` and the call had no `possible_overwrite`. -/
theorem addCoin_eq_ok (added : addCoin cache outpoint coin possible_overwrite = .ok cache') :
    coin.isSpent = false ∧
      (coin.out.scriptPubKey.isUnspendable = true ∧ cache' = cache ∨
        coin.out.scriptPubKey.isUnspendable = false ∧
          ∃ existing, (cache.lookup outpoint).getD ⟨Coin.empty, false, false⟩ = existing ∧
            (possible_overwrite = false → existing.coin.isSpent = true) ∧
            cache' = cache.insert outpoint
              ⟨coin, true, existing.fresh || (!possible_overwrite && !existing.dirty)⟩) := by
  unfold addCoin at added
  dsimp only at added
  by_cases spent : coin.isSpent
  · rw [if_pos spent] at added
    cases added
  rw [if_neg spent] at added
  refine ⟨by simpa using spent, ?_⟩
  by_cases unspendable : coin.out.scriptPubKey.isUnspendable
  · rw [if_pos unspendable] at added
    cases added
    exact .inl ⟨unspendable, rfl⟩
  rw [if_neg unspendable] at added
  refine .inr ⟨by simpa using unspendable, _, rfl, ?_⟩
  generalize (cache.lookup outpoint).getD ⟨Coin.empty, false, false⟩ = existing at added
  cases possible_overwrite with
  | true =>
      cases added
      simp
  | false =>
      by_cases unspent : existing.coin.isSpent
      · simp only [unspent, Bool.not_true, Bool.false_eq_true, if_false] at added
        cases added
        simp [unspent]
      · simp only [unspent, Bool.not_false, if_true] at added
        cases added

/-- `AddCoin` of an unspent coin succeeds where the contract allows it: with
`possible_overwrite`, or where the top reports no unspent coin. -/
theorem addCoin_succeeds (unspentCoin : coin.isSpent = false)
    (allowed : possible_overwrite = false → report db (cache :: below) outpoint = none) :
    ∃ cache', addCoin cache outpoint coin possible_overwrite = .ok cache' := by
  unfold addCoin
  dsimp only
  rw [if_neg (by simp [unspentCoin])]
  split
  · exact ⟨cache, rfl⟩
  cases possible_overwrite with
  | true => exact ⟨_, rfl⟩
  | false =>
      have spentThere : ((cache.lookup outpoint).getD ⟨Coin.empty, false, false⟩).coin.isSpent = true := by
        cases found : cache.lookup outpoint with
        | none => rfl
        | some entry =>
            have reported := allowed rfl
            rw [report_cons_of_lookup found] at reported
            simpa [CCoinsCacheEntry.unspent] using reported
      simp only [spentThere, Bool.not_true, Bool.false_eq_true, if_false, Bool.not_false, if_true]
      exact ⟨_, rfl⟩

/-- `AddCoin` makes the top report its coin, unless the output is unspendable,
and keeps the stack coherent when, without `possible_overwrite`, the top
reported no unspent coin there. -/
theorem addCoin_spec (coherent : Coherent db (cache :: below))
    (allowed : possible_overwrite = false → report db (cache :: below) outpoint = none)
    (added : addCoin cache outpoint coin possible_overwrite = .ok cache') :
    (∀ key, report db (cache' :: below) key =
      if coin.out.scriptPubKey.isUnspendable then report db (cache :: below) key
      else if key = outpoint then some coin else report db (cache :: below) key) ∧
      Coherent db (cache' :: below) := by
  obtain ⟨unspentCoin, ⟨unspendable, rfl⟩ | ⟨spendable, existing, found, spentBefore, rfl⟩⟩ :=
    addCoin_eq_ok added
  · exact ⟨fun key => by rw [if_pos unspendable], coherent⟩
  refine ⟨fun key => ?_, coherent.insert ⟨fun dirty => (by cases dirty), fun fresh => ?_⟩⟩
  · simp only [spendable, Bool.false_eq_true, if_false]
    rw [report_insert_cons, CCoinsCacheEntry.unspent_of_not_isSpent unspentCoin]
  cases stored : cache.lookup outpoint with
  | none =>
      rw [stored, Option.getD_none] at found
      subst found
      have noOverwrite : possible_overwrite = false := by simpa using fresh
      rw [← report_cons_of_lookup_none stored]
      exact allowed noOverwrite
  | some entry =>
      rw [stored, Option.getD_some] at found
      subst found
      have agrees := coherent.entry stored
      rcases Bool.or_eq_true_iff.mp fresh with wasFresh | clean
      · exact agrees.2 wasFresh
      · simp only [Bool.and_eq_true, Bool.not_eq_eq_eq_not, Bool.not_true] at clean
        rw [← agrees.1 clean.2, CCoinsCacheEntry.unspent_of_isSpent (spentBefore clean.1)]

/-- `SpendCoin` makes the top report nothing at its outpoint, changes no other
report and keeps the stack coherent. -/
theorem spendCoin_spec (coherent : Coherent db (cache :: below)) {found : Bool} {moved : Option Coin}
    (spent : spendCoin db cache below outpoint = (found, moved, cache', below')) :
    (∀ key, report db (cache' :: below') key = if key = outpoint then none else report db (cache :: below) key) ∧
      Coherent db (cache' :: below') := by
  rcases fetched : fetchCoin db cache below outpoint with ⟨entry, cache₁, below₁⟩
  obtain ⟨stored, missing, sameReports, coherent₁⟩ := fetchCoin_spec coherent fetched
  cases entry with
  | none =>
      simp only [spendCoin, fetched, Prod.mk.injEq] at spent
      obtain ⟨-, -, rfl, rfl⟩ := spent
      refine ⟨fun key => ?_, coherent₁⟩
      split
      · rename_i here
        subst here
        rw [report_cons_of_lookup_none stored, missing rfl]
      · exact sameReports key
  | some entry =>
      have agrees := coherent₁.entry stored
      simp only [spendCoin, fetched] at spent
      by_cases fresh : entry.fresh
      · rw [if_pos fresh, Prod.mk.injEq, Prod.mk.injEq, Prod.mk.injEq] at spent
        obtain ⟨-, -, rfl, rfl⟩ := spent
        refine ⟨fun key => ?_, coherent₁.erase⟩
        rw [report_erase_cons]
        split
        · rename_i here
          subst here
          exact agrees.2 fresh
        · exact sameReports key
      · rw [if_neg fresh, Prod.mk.injEq, Prod.mk.injEq, Prod.mk.injEq] at spent
        obtain ⟨-, -, rfl, rfl⟩ := spent
        refine ⟨fun key => ?_, coherent₁.insert ⟨fun dirty => (by cases dirty), agrees.2⟩⟩
        rw [report_insert_cons]
        split
        · exact CCoinsCacheEntry.unspent_of_isSpent Coin.isSpent_empty
        · exact sameReports key

/-- `Uncache` drops only an entry that agrees with the view below, so no report
changes. -/
theorem uncache_spec (coherent : Coherent db (cache :: below)) (outpoint : COutPoint) :
    (∀ key, report db (uncache cache outpoint :: below) key = report db (cache :: below) key) ∧
      Coherent db (uncache cache outpoint :: below) := by
  unfold uncache
  cases found : cache.lookup outpoint with
  | none => exact ⟨fun _ => rfl, coherent⟩
  | some entry =>
      dsimp only
      split
      · rename_i clean
        simp only [Bool.and_eq_true, Bool.not_eq_true'] at clean
        refine ⟨fun key => ?_, coherent.erase⟩
        rw [report_erase_cons]
        split
        · rename_i here
          subst here
          rw [report_cons_of_lookup found, (coherent.entry found).1 clean.1]
        · rfl
      · exact ⟨fun _ => rfl, coherent⟩

end

end Qbitcoin
