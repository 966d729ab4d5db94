import Qbitcoin.Primitives.BitStream
import Qbitcoin.Primitives.Unserialize

/-!
# Golomb-coded set filters

`GCSFilter` of `blockfilter.cpp` (BIP 158).  The filter of a set of elements
hashes each into `[0, F)`, sorts the hashes and writes the differences of
consecutive ones as Golomb-Rice codes after the count `N`.  `MatchInternal`
decodes the hashes one by one, skipping the sorted queries below each.

The element hash `CSipHasher(k0, k1).Write(element).Finalize()` is a parameter
`sipHash` of every definition: the results hold whatever the hash.  An element
set is a list, in whatever order the `unordered_set` is iterated.

Decoding reads `N` with `ReadCompactSize`, whose range check refuses counts above
`MAX_SIZE`: a filter of more elements than that is built, but neither decoded nor
matched against.
-/

namespace Qbitcoin

open MsbBits Decoding

/-- `FastRange64`: the high 64 bits of the 128-bit product `x * n`, a number
below `n`. -/
def fastRange64 (x n : UInt64) : UInt64 := UInt64.ofNat (x.toNat * n.toNat / 2 ^ 64)

/-- `GCSFilter::Params`: the SipHash keys, the Golomb-Rice parameter `P` and the
inverse false positive rate `M`. -/
structure GCSFilter.Params where
  siphashK0 : UInt64
  siphashK1 : UInt64
  P : UInt8
  M : UInt32
  deriving DecidableEq

/-- A `GCSFilter`: its parameters, the number `N` of elements, the range `F` of
their hashes and the encoded filter. -/
structure GCSFilter where
  params : GCSFilter.Params
  N : UInt32
  F : UInt64
  encoded : List UInt8
  deriving DecidableEq

/-- The Golomb-Rice codes of the differences of consecutive values, from `last`. -/
def deltaCodes (P : Nat) : UInt64 → List UInt64 → List Bool
  | _, [] => []
  | last, value :: rest => golombRiceBits P (value - last).toNat ++ deltaCodes P value rest

/-- The loop of the constructor from elements: each value as its difference
from the one before. -/
def encodeDeltas (P : UInt8) : BitStreamWriter → UInt64 → List UInt64 → Except String BitStreamWriter
  | bitwriter, _, [] => pure bitwriter
  | bitwriter, lastValue, value :: rest => do
    let bitwriter ← golombRiceEncode bitwriter P (value - lastValue)
    encodeDeltas P bitwriter value rest

/-- The loop of the decoding constructor: `count` values decoded and dropped. -/
def decodeValues (P : UInt8) : BitStreamReader → Nat → Except String BitStreamReader
  | bitreader, 0 => pure bitreader
  | bitreader, count + 1 => do
    let (_, bitreader) ← golombRiceDecode bitreader P
    decodeValues P bitreader count

/-- The outer loop of `MatchInternal` with `count` values to decode after
`value`: the inner loop skips the queries below the next value, then a query
equal to it is a match, a larger one waits for the values after it, and no query
left ends the search. -/
def matchLoop (P : UInt8) : BitStreamReader → UInt64 → List UInt64 → Nat → Except String Bool
  | _, _, _, 0 => pure false
  | bitreader, value, queries, count + 1 => do
    let (delta, bitreader) ← golombRiceDecode bitreader P
    let value := value + delta
    match queries.dropWhile (· < value) with
    | [] => pure false
    | query :: rest => if query = value then pure true else matchLoop P bitreader value (query :: rest) count

/-- The search of `MatchInternal` on the decoded values themselves. -/
def matchSorted : List UInt64 → List UInt64 → Bool
  | [], _ => false
  | value :: values, queries =>
    match queries.dropWhile (· < value) with
    | [] => false
    | query :: rest => if query = value then true else matchSorted values (query :: rest)

namespace GCSFilter

section
variable (sipHash : UInt64 → UInt64 → List UInt8 → UInt64)

/-- `GCSFilter::HashToRange`: the SipHash of the element, reduced into `[0, F)`. -/
def hashToRange (filter : GCSFilter) (element : List UInt8) : UInt64 :=
  fastRange64 (sipHash filter.params.siphashK0 filter.params.siphashK1 element) filter.F

/-- `GCSFilter::BuildHashedSet`: the hashes of the elements, sorted. -/
def buildHashedSet (filter : GCSFilter) (elements : List (List UInt8)) : List UInt64 :=
  (elements.map (filter.hashToRange sipHash)).mergeSort fun a b => decide (a ≤ b)

/-- The constructor from an element set: `N`, then the codes of the sorted
hashes' differences, flushed to a byte; the bit writer appends its bytes to
the stream after `N`. -/
def ofElements (params : Params) (elements : List (List UInt8)) : Except String GCSFilter :=
  let mN := UInt32.ofNat elements.length
  if mN.toNat ≠ elements.length then throw "N must be <2^32"
  else
    let filter : GCSFilter := ⟨params, mN, mN.toUInt64 * params.M.toUInt64, writeCompactSize mN.toNat⟩
    if elements.isEmpty then pure filter
    else do
      let bitwriter ← encodeDeltas params.P (BitStreamWriter.init []) 0 (filter.buildHashedSet sipHash elements)
      pure { filter with encoded := filter.encoded ++ bitwriter.flush.stream }

/-- `GCSFilter::MatchInternal` on sorted query hashes; the assertion that the
count read is `m_N` is an error here. -/
def matchInternal (filter : GCSFilter) (elementHashes : List UInt64) : Except String Bool := do
  let (N, stream) ← (readCompactSize true).run filter.encoded
  if N ≠ filter.N.toNat then throw "Assertion N == m_N failed"
  matchLoop filter.params.P (BitStreamReader.init stream) 0 elementHashes filter.N.toNat

/-- `GCSFilter::Match`. -/
def matchElement (filter : GCSFilter) (element : List UInt8) : Except String Bool :=
  filter.matchInternal [filter.hashToRange sipHash element]

/-- `GCSFilter::MatchAny`. -/
def matchAny (filter : GCSFilter) (elements : List (List UInt8)) : Except String Bool :=
  filter.matchInternal (filter.buildHashedSet sipHash elements)

end

/-- The constructor from an encoded filter: `N`, then, unless the check is
skipped, `N` codes that must use up the stream. -/
def ofEncoded (params : Params) (encoded : List UInt8) (skipDecodeCheck : Bool) : Except String GCSFilter := do
  let (N, stream) ← (readCompactSize true).run encoded
  let mN := UInt32.ofNat N
  if mN.toNat ≠ N then throw "N must be <2^32"
  let filter : GCSFilter := ⟨params, mN, mN.toUInt64 * params.M.toUInt64, encoded⟩
  if skipDecodeCheck then return filter
  let bitreader ← decodeValues params.P (BitStreamReader.init stream) mN.toNat
  if bitreader.stream ≠ [] then throw "encoded_filter contains excess data"
  pure filter

end GCSFilter

/-! ## Sorted lists of hashes -/

/-- A query not below the cut point stays in what the inner loop leaves. -/
theorem mem_dropWhile_of_not_lt {queries : List UInt64} {query value : UInt64} (present : query ∈ queries)
    (notBelow : ¬ query < value) : query ∈ queries.dropWhile (· < value) := by
  induction queries with
  | nil => simp at present
  | cons first rest inductionHypothesis =>
    rw [List.dropWhile_cons]
    split_ifs with below
    · have : query ≠ first := fun same => notBelow (same ▸ of_decide_eq_true below)
      exact inductionHypothesis (List.mem_of_ne_of_mem this present)
    · exact present

/-- Sorted values and queries meet exactly when the scan of `MatchInternal` finds
a match. -/
theorem matchSorted_iff {values queries : List UInt64} (sortedValues : values.Pairwise (· ≤ ·))
    (sortedQueries : queries.Pairwise (· ≤ ·)) :
    matchSorted values queries = true ↔ ∃ value ∈ values, value ∈ queries := by
  induction values generalizing queries with
  | nil => simp [matchSorted]
  | cons value values inductionHypothesis =>
    obtain ⟨above, sortedRest⟩ := List.pairwise_cons.mp sortedValues
    have kept : ∀ other ∈ value :: values, other ∈ queries → other ∈ queries.dropWhile (· < value) := by
      intro other mem present
      refine mem_dropWhile_of_not_lt present fun below => ?_
      rcases List.mem_cons.mp mem with rfl | later
      · exact UInt64.lt_irrefl _ below
      · exact UInt64.not_lt.mpr (above other later) below
    have left : ∀ query ∈ queries.dropWhile (· < value), query ∈ queries :=
      fun _ mem => (List.dropWhile_sublist _).subset mem
    rw [matchSorted]
    split
    · case h_1 skipped =>
      simp only [Bool.false_eq_true, false_iff, not_exists, not_and]
      intro other mem present
      simpa [skipped] using kept other mem present
    · case h_2 query rest skipped =>
      have notBelow : ¬ query < value := by
        have := List.head_dropWhile_not (fun q => decide (q < value)) (l := queries) (by simp [skipped])
        simpa [skipped] using this
      split_ifs with found
      · exact iff_of_true rfl ⟨value, List.mem_cons_self, left _ (by simp [skipped, found])⟩
      · have sortedLeft : (query :: rest).Pairwise (· ≤ ·) := skipped ▸ sortedQueries.sublist (List.dropWhile_sublist _)
        rw [inductionHypothesis sortedRest sortedLeft]
        constructor
        · rintro ⟨other, mem, present⟩
          exact ⟨other, List.mem_cons_of_mem _ mem, left _ (skipped ▸ present)⟩
        · rintro ⟨other, mem, present⟩
          refine ⟨other, ?_, skipped ▸ kept other mem present⟩
          rcases List.mem_cons.mp mem with rfl | later
          · exfalso
            have larger : other < query := UInt64.lt_of_le_of_ne (UInt64.not_lt.mp notBelow) (Ne.symm found)
            have present' := skipped ▸ kept other mem present
            rcases List.mem_cons.mp present' with same | inRest
            · exact found same.symm
            · exact UInt64.not_lt.mpr ((List.pairwise_cons.mp sortedLeft).1 other inRest) larger
          · exact later

/-! ## The codes of the differences -/

section
variable {P : UInt8} (small : P.toNat < 64)
include small

/-- The loop of the constructor appends the codes of the differences. -/
theorem bits_encodeDeltas {w : BitStreamWriter} (clear : w.Clear) (last : UInt64) (values : List UInt64) :
    ∃ next, encodeDeltas P w last values = .ok next ∧
      next.bits = w.bits ++ deltaCodes P.toNat last values ∧ next.Clear := by
  induction values generalizing w last with
  | nil => exact ⟨w, rfl, by simp [deltaCodes], clear⟩
  | cons value rest inductionHypothesis =>
    obtain ⟨coded, encoded, codedBits, codedClear⟩ := bits_golombRiceEncode clear small (value - last)
    obtain ⟨next, run, nextBits, nextClear⟩ := inductionHypothesis codedClear value
    refine ⟨next, ?_, ?_, nextClear⟩
    · rw [encodeDeltas, encoded]
      exact run
    · rw [nextBits, codedBits, deltaCodes, List.append_assoc]

/-- Decoding `values.length` codes reads the codes of the differences. -/
theorem decodeValues_of_bits {last : UInt64} {values : List UInt64} {r : BitStreamReader} {rest : List Bool}
    (split : r.bits = deltaCodes P.toNat last values ++ rest) :
    ∃ next, decodeValues P r values.length = .ok next ∧ next.bits = rest := by
  induction values generalizing r last with
  | nil => exact ⟨r, rfl, split⟩
  | cons value values inductionHypothesis =>
    rw [deltaCodes, List.append_assoc] at split
    obtain ⟨decoded, decode, decodedBits⟩ := golombRiceDecode_of_bits small (value - last) split
    obtain ⟨next, run, nextBits⟩ := inductionHypothesis decodedBits
    refine ⟨next, ?_, nextBits⟩
    rw [List.length_cons, decodeValues, decode]
    exact run

/-- The outer loop of `MatchInternal` decodes the values and scans them as
`matchSorted` does. -/
theorem matchLoop_of_bits {last : UInt64} {values : List UInt64} {r : BitStreamReader} {rest : List Bool}
    (split : r.bits = deltaCodes P.toNat last values ++ rest) (queries : List UInt64) :
    matchLoop P r last queries values.length = .ok (matchSorted values queries) := by
  induction values generalizing r last queries with
  | nil => rfl
  | cons value values inductionHypothesis =>
    rw [deltaCodes, List.append_assoc] at split
    obtain ⟨decoded, decode, decodedBits⟩ := golombRiceDecode_of_bits small (value - last) split
    have restored : last + (value - last) = value := by rw [UInt64.add_comm, UInt64.sub_add_cancel]
    rw [List.length_cons, matchLoop, decode]
    simp only [bind, Except.bind, restored, matchSorted]
    split
    · rfl
    · split_ifs
      · rfl
      · exact inductionHypothesis decodedBits _

end

namespace GCSFilter

/-! ## The encoded filter -/

/-- The encoded filter holds `N`, then the codes of the differences of `values`,
padded to a byte; `F` is `N * M`. -/
structure EncodesValues (filter : GCSFilter) (values : List UInt64) : Prop where
  length_values : values.length = filter.N.toNat
  encoded_eq : ∃ body pad, filter.encoded = writeCompactSize filter.N.toNat ++ body ∧ pad < 8 ∧
    bytesBits body = deltaCodes filter.params.P.toNat 0 values ++ List.replicate pad false
  range_eq : filter.F = filter.N.toUInt64 * filter.params.M.toUInt64

/-- A reader left with fewer than eight bits has taken every byte of its stream. -/
theorem stream_eq_nil_of_bits {r : BitStreamReader} {pad : Nat} (padFits : pad < 8)
    (padding : r.bits = List.replicate pad false) : r.stream = [] := by
  have lengths := congrArg List.length padding
  rw [BitStreamReader.bits, List.length_append, length_bytesBits, List.length_replicate] at lengths
  exact List.eq_nil_of_length_eq_zero (by omega)

/-- Reading the count of a filter that holds its values leaves the codes of the
values, padded to a byte. -/
theorem EncodesValues.readCount {filter : GCSFilter} {values : List UInt64} (encodes : filter.EncodesValues values)
    (inRange : filter.N.toNat ≤ MAX_SIZE) :
    ∃ stream pad, (readCompactSize true).run filter.encoded = .ok (filter.N.toNat, stream) ∧ pad < 8 ∧
      (BitStreamReader.init stream).bits = deltaCodes filter.params.P.toNat 0 values ++ List.replicate pad false := by
  obtain ⟨body, pad, encoded, padFits, bodyBits⟩ := encodes.encoded_eq
  have read := @run_readCompactSize_writeCompactSize true _ (lt_of_le_MAX_SIZE inRange) body
  rw [if_neg (by omega)] at read
  exact ⟨body, pad, encoded ▸ read, padFits, by rw [BitStreamReader.bits_init, bodyBits]⟩

/-- The count of a filter of more than `MAX_SIZE` elements is refused. -/
theorem EncodesValues.readCount_of_large {filter : GCSFilter} {values : List UInt64}
    (encodes : filter.EncodesValues values) (large : MAX_SIZE < filter.N.toNat) :
    (readCompactSize true).run filter.encoded = .error "ReadCompactSize(): size too large" := by
  obtain ⟨body, pad, encoded, -⟩ := encodes.encoded_eq
  rw [encoded, readCompactSize_of_large large (by have := filter.N.toNat_lt; omega)]

section
variable {filter : GCSFilter} {values : List UInt64} (encodes : filter.EncodesValues values)
  (small : filter.params.P.toNat < 64) (inRange : filter.N.toNat ≤ MAX_SIZE)
include encodes small inRange

/-- A filter that holds its values is accepted by the decoding constructor, which
rebuilds it, as long as `ReadCompactSize` accepts its `N`. -/
theorem ofEncoded_of_encodesValues : ofEncoded filter.params filter.encoded false = .ok filter := by
  obtain ⟨stream, pad, read, padFits, streamBits⟩ := encodes.readCount inRange
  obtain ⟨decoded, decode, padding⟩ := decodeValues_of_bits small streamBits
  rw [ofEncoded, read]
  simp only [bind, Except.bind, UInt32.ofNat_toNat, ne_eq, not_true_eq_false, if_false, ← encodes.range_eq]
  rw [← encodes.length_values, decode]
  simp only [Bool.false_eq_true, if_false, stream_eq_nil_of_bits padFits padding, not_true_eq_false]
  rfl

/-- On a filter that holds its values, `MatchInternal` decodes them and scans
them against the queries. -/
theorem matchInternal_of_encodesValues (queries : List UInt64) :
    filter.matchInternal queries = .ok (matchSorted values queries) := by
  obtain ⟨stream, pad, read, -, streamBits⟩ := encodes.readCount inRange
  rw [matchInternal, read]
  simp only [bind, Except.bind, ne_eq, not_true_eq_false, if_false]
  rw [← encodes.length_values]
  exact matchLoop_of_bits small streamBits queries

end

section
variable {filter : GCSFilter} {values : List UInt64} (encodes : filter.EncodesValues values)
  (large : MAX_SIZE < filter.N.toNat)
include encodes large

/-- The count of a filter of more than `MAX_SIZE` elements is refused when read
back, whether or not the codes are checked. -/
theorem ofEncoded_of_large (skipDecodeCheck : Bool) :
    ofEncoded filter.params filter.encoded skipDecodeCheck = .error "ReadCompactSize(): size too large" := by
  rw [ofEncoded, encodes.readCount_of_large large]
  rfl

/-- `MatchInternal` on a filter of more than `MAX_SIZE` elements fails on reading
its count. -/
theorem matchInternal_of_large (queries : List UInt64) :
    filter.matchInternal queries = .error "ReadCompactSize(): size too large" := by
  rw [matchInternal, encodes.readCount_of_large large]
  rfl

end

/-! ## Building the filter -/

section
variable (sipHash : UInt64 → UInt64 → List UInt8 → UInt64)

theorem sorted_buildHashedSet (filter : GCSFilter) (elements : List (List UInt8)) :
    (filter.buildHashedSet sipHash elements).Pairwise (· ≤ ·) := by
  have sorted := @List.pairwise_mergeSort UInt64 (fun a b => decide (a ≤ b))
    (fun _ _ _ first second => decide_eq_true (UInt64.le_trans (of_decide_eq_true first) (of_decide_eq_true second)))
    (fun a b => by simpa using UInt64.le_total a b) (elements.map (filter.hashToRange sipHash))
  exact sorted.imp of_decide_eq_true

@[simp] theorem mem_buildHashedSet {filter : GCSFilter} {elements : List (List UInt8)} {value : UInt64} :
    value ∈ filter.buildHashedSet sipHash elements ↔ ∃ element ∈ elements, filter.hashToRange sipHash element = value := by
  simp [buildHashedSet]

@[simp] theorem length_buildHashedSet (filter : GCSFilter) (elements : List (List UInt8)) :
    (filter.buildHashedSet sipHash elements).length = elements.length := by
  rw [buildHashedSet, (List.mergeSort_perm _ _).length_eq, List.length_map]

/-- The constructor from fewer than `2 ^ 32` elements builds a filter that holds
their sorted hashes. -/
theorem ofElements_encodesValues {params : Params} (small : params.P.toNat < 64) {elements : List (List UInt8)}
    (fits : elements.length < 2 ^ 32) :
    ∃ filter, ofElements sipHash params elements = .ok filter ∧ filter.params = params ∧
      filter.N.toNat = elements.length ∧ filter.EncodesValues (filter.buildHashedSet sipHash elements) := by
  have counted : (UInt32.ofNat elements.length).toNat = elements.length := by
    rw [UInt32.toNat_ofNat', Nat.mod_eq_of_lt fits]
  rw [ofElements, if_neg (by rw [counted]; exact not_not_intro rfl)]
  split_ifs with empty
  · have none : elements = [] := List.isEmpty_iff.mp empty
    subst none
    refine ⟨_, rfl, rfl, counted, ⟨by simp, ⟨[], 0, by simp, by norm_num, by simp [deltaCodes, buildHashedSet]⟩, rfl⟩⟩
  · obtain ⟨coded, encoded, codedBits, codedClear⟩ :=
      bits_encodeDeltas small (BitStreamWriter.clear_init []) 0
        (buildHashedSet sipHash ⟨params, UInt32.ofNat elements.length, (UInt32.ofNat elements.length).toUInt64 *
          params.M.toUInt64, writeCompactSize (UInt32.ofNat elements.length).toNat⟩ elements)
    dsimp only
    rw [encoded]
    refine ⟨_, rfl, rfl, counted, ⟨by simp [counted], ⟨coded.flush.stream, (8 - coded.offset) % 8, rfl,
      Nat.mod_lt _ (by norm_num), ?_⟩, rfl⟩⟩
    rw [BitStreamWriter.bytesBits_flush codedClear, codedBits, BitStreamWriter.bits_init, bytesBits_nil, List.nil_append]
    rfl

end

/-! ## Filters decode exactly and match without false negatives -/

/-- A filter of more than `MAX_SIZE` elements is built, and then refused by the
decoding constructor and by `Match`. -/
theorem ofElements_of_large (sipHash : UInt64 → UInt64 → List UInt8 → UInt64) (params : Params)
    (small : params.P.toNat < 64) (elements : List (List UInt8)) (large : MAX_SIZE < elements.length)
    (fits : elements.length < 2 ^ 32) :
    ∃ filter, ofElements sipHash params elements = .ok filter ∧
      ofEncoded params filter.encoded false = .error "ReadCompactSize(): size too large" ∧
      ∀ element, filter.matchElement sipHash element = .error "ReadCompactSize(): size too large" := by
  obtain ⟨filter, built, sameParams, counted, encodes⟩ := ofElements_encodesValues sipHash small fits
  refine ⟨filter, built, ?_, fun element => matchInternal_of_large encodes (counted ▸ large) _⟩
  rw [← sameParams]
  exact ofEncoded_of_large encodes (counted ▸ large) false

end GCSFilter

open GCSFilter

/-- Filters of at most `MAX_SIZE` elements are rebuilt by the decoding constructor,
and `Match` and `MatchAny` answer whether the hashes meet those of the elements. -/
theorem gcsFilter_decodes_and_matches (sipHash : UInt64 → UInt64 → List UInt8 → UInt64) (params : GCSFilter.Params)
    (small : params.P.toNat < 64) (elements : List (List UInt8)) (inRange : elements.length ≤ MAX_SIZE) :
    ∃ filter, GCSFilter.ofElements sipHash params elements = .ok filter ∧
      GCSFilter.ofEncoded params filter.encoded false = .ok filter ∧
      (∀ element, filter.matchElement sipHash element =
        .ok (decide (∃ e ∈ elements, filter.hashToRange sipHash e = filter.hashToRange sipHash element))) ∧
      (∀ queries, filter.matchAny sipHash queries =
        .ok (decide (∃ q ∈ queries, ∃ e ∈ elements, filter.hashToRange sipHash q = filter.hashToRange sipHash e))) ∧
      ∀ x : UInt64, ∃ bitwriter, golombRiceEncode (BitStreamWriter.init []) params.P x = .ok bitwriter ∧
        ∃ bitreader, golombRiceDecode (BitStreamReader.init bitwriter.flush.stream) params.P = .ok (x, bitreader) := by
  obtain ⟨filter, built, sameParams, counted, encodes⟩ :=
    ofElements_encodesValues sipHash small (lt_of_le_of_lt inRange (by decide))
  have filterSmall : filter.params.P.toNat < 64 := sameParams ▸ small
  have filterInRange : filter.N.toNat ≤ MAX_SIZE := counted ▸ inRange
  have sortedValues := sorted_buildHashedSet sipHash filter elements
  refine ⟨filter, built, sameParams ▸ ofEncoded_of_encodesValues encodes filterSmall filterInRange, fun element => ?_,
    fun queries => ?_, golombRice_roundTrip small⟩
  · rw [matchElement, matchInternal_of_encodesValues encodes filterSmall filterInRange]
    congr 1
    rw [Bool.eq_iff_iff, matchSorted_iff sortedValues (List.pairwise_singleton _ _), decide_eq_true_iff]
    simp
  · rw [matchAny, matchInternal_of_encodesValues encodes filterSmall filterInRange]
    congr 1
    rw [Bool.eq_iff_iff, matchSorted_iff sortedValues (sorted_buildHashedSet sipHash filter queries),
      decide_eq_true_iff]
    simp only [mem_buildHashedSet]
    constructor
    · rintro ⟨_, ⟨e, mem, rfl⟩, q, query, same⟩
      exact ⟨q, query, e, mem, same⟩
    · rintro ⟨q, query, e, mem, same⟩
      exact ⟨_, ⟨e, mem, rfl⟩, q, query, same⟩

theorem gcsFilter_decodes_and_matches_basic :
    ∃ filter, GCSFilter.ofElements (fun _ _ element => UInt64.ofNat element.length) ⟨0, 0, 19, 784931⟩ [[1], [2, 3]] =
        .ok filter ∧
      GCSFilter.ofEncoded ⟨0, 0, 19, 784931⟩ filter.encoded false = .ok filter ∧
      (∀ element, filter.matchElement (fun _ _ element => UInt64.ofNat element.length) element =
        .ok (decide (∃ e ∈ ([[1], [2, 3]] : List (List UInt8)), filter.hashToRange (fun _ _ element => UInt64.ofNat element.length) e =
          filter.hashToRange (fun _ _ element => UInt64.ofNat element.length) element))) ∧
      (∀ queries, filter.matchAny (fun _ _ element => UInt64.ofNat element.length) queries =
        .ok (decide (∃ q ∈ queries, ∃ e ∈ ([[1], [2, 3]] : List (List UInt8)),
          filter.hashToRange (fun _ _ element => UInt64.ofNat element.length) q =
            filter.hashToRange (fun _ _ element => UInt64.ofNat element.length) e))) ∧
      ∀ x : UInt64, ∃ bitwriter, golombRiceEncode (BitStreamWriter.init []) 19 x = .ok bitwriter ∧
        ∃ bitreader, golombRiceDecode (BitStreamReader.init bitwriter.flush.stream) 19 = .ok (x, bitreader) :=
  gcsFilter_decodes_and_matches _ ⟨0, 0, 19, 784931⟩ (by decide) [[1], [2, 3]] (by decide)

/-- A filter of `MAX_SIZE + 1` elements is refused by the decoding constructor. -/
theorem gcsFilter_oversized_rejected :
    ∃ filter, GCSFilter.ofElements (fun _ _ _ => 0) ⟨0, 0, 19, 784931⟩
        ((List.range (MAX_SIZE + 1)).map (ByteCodec.leBytes 4)) = .ok filter ∧
      GCSFilter.ofEncoded ⟨0, 0, 19, 784931⟩ filter.encoded false = .error "ReadCompactSize(): size too large" := by
  obtain ⟨filter, built, refused, -⟩ := ofElements_of_large (fun _ _ _ => 0) ⟨0, 0, 19, 784931⟩ (by decide)
    ((List.range (MAX_SIZE + 1)).map (ByteCodec.leBytes 4)) (by simp) (by simp [MAX_SIZE])
  exact ⟨filter, built, refused⟩

end Qbitcoin
