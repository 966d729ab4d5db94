import Qbitcoin.Primitives.VarInt
import Qbitcoin.Key.QKey
import Qbitcoin.Script.Script

/-!
# Compressed transaction outputs

`compressor.cpp` and `compressor.h`: the form in which the coins database
stores a `CTxOut`.  The amount is written as the `VARINT` of `CompressAmount`,
the script as one of the special forms of `CompressScript`, or else as the
`VARINT` of its size plus `nSpecialScripts` followed by its bytes.

`CPubKey` is the Dilithium `CQPubKey`, whose only size is 1952 bytes.
`IsToPubKey` sets a key from the 33 or 65 bytes of a pay-to-pubkey script,
which invalidates it, so `CompressScript` never takes its pay-to-pubkey forms
(`compressScript_eq_some`) and `DecompressScript` never rebuilds a script from
forms 4 and 5 (`decompressScript_uncompressedKey`).
-/

namespace Qbitcoin

open ByteCodec Decoding

/-! ## Scripts -/

/-- `IsToKeyID`: the hash of a pay-to-pubkey-hash script. -/
def isToKeyID (script : CScript) : Option valtype :=
  if script.length = 25 ∧ script[0]! = OP_DUP ∧ script[1]! = OP_HASH160 ∧ script[2]! = 20 ∧
      script[23]! = OP_EQUALVERIFY ∧ script[24]! = OP_CHECKSIG then
    some ((script.drop 3).take 20)
  else none

/-- `IsToScriptID`: the hash of a pay-to-script-hash script. -/
def isToScriptID (script : CScript) : Option valtype :=
  if script.length = 23 ∧ script[0]! = OP_HASH160 ∧ script[1]! = 20 ∧ script[22]! = OP_EQUAL then
    some ((script.drop 2).take 20)
  else none

/-- `IsToPubKey`: the key of a pay-to-pubkey script with a 33-byte key, or with
a 65-byte key that is fully valid. -/
def isToPubKey (script : CScript) : Option CQPubKey :=
  if script.length = 35 ∧ script[0]! = 33 ∧ script[34]! = OP_CHECKSIG ∧
      (script[1]! = 0x02 ∨ script[1]! = 0x03) then
    some (CQPubKey.ofBytes ((script.drop 1).take 33))
  else if script.length = 67 ∧ script[0]! = 65 ∧ script[66]! = OP_CHECKSIG ∧ script[1]! = 0x04 then
    let pubkey := CQPubKey.ofBytes ((script.drop 1).take 65)
    if pubkey.isFullyValid then some pubkey else none
  else none

/-- `CompressScript`: the compressed script `out`, when `CompressScript`
returns `true`.  A key is written as `out.resize(33)`: a tag byte and the 32
bytes after the key's first. -/
def compressScript (script : CScript) : Option (List UInt8) :=
  match isToKeyID script with
  | some keyID => some (0x00 :: keyID)
  | none =>
    match isToScriptID script with
    | some scriptID => some (0x01 :: scriptID)
    | none =>
      match isToPubKey script with
      | some pubkey =>
          let body := (pubkey.toBytes.drop 1).take 32
          if pubkey.vch[0] = 0x02 ∨ pubkey.vch[0] = 0x03 then some (pubkey.vch[0] :: body)
          else if pubkey.vch[0] = 0x04 then some (((0x04 : UInt8) ||| (pubkey.vch[64] &&& 0x01)) :: body)
          else none
      | none => none

/-- `GetSpecialScriptSize`. -/
def getSpecialScriptSize (nSize : Nat) : Nat :=
  if nSize = 0 ∨ nSize = 1 then 20
  else if nSize = 2 ∨ nSize = 3 ∨ nSize = 4 ∨ nSize = 5 then 32
  else 0

/-- `DecompressScript`: the script of a special form, `none` where the C++
returns `false`. -/
def decompressScript (nSize : Nat) (input : List UInt8) : Option CScript :=
  match nSize with
  | 0x00 => some ([OP_DUP, OP_HASH160, 20] ++ input.take 20 ++ [OP_EQUALVERIFY, OP_CHECKSIG])
  | 0x01 => some ([OP_HASH160, 20] ++ input.take 20 ++ [OP_EQUAL])
  | 0x02 | 0x03 => some ([33, UInt8.ofNat nSize] ++ input.take 32 ++ [OP_CHECKSIG])
  | 0x04 | 0x05 =>
      let pubkey := CQPubKey.ofBytes (UInt8.ofNat (nSize - 2) :: input.take 32)
      if !pubkey.decompress then none
      else some ([65] ++ pubkey.toBytes.take 65 ++ [OP_CHECKSIG])
  | _ => none

/-- `ScriptCompression::nSpecialScripts`. -/
def nSpecialScripts : Nat := 6

/-- `ScriptCompression::Ser`: the compressed form, or the size, offset past the
special forms and kept in an `unsigned int`, and the bytes. -/
def ScriptCompression.ser (script : CScript) : List UInt8 :=
  match compressScript script with
  | some compr => compr
  | none => writeVarInt ((script.length + nSpecialScripts) % 2 ^ 32) ++ script

/-- `ScriptCompression::Unser` into `script`.  The result of
`DecompressScript` is not checked: on failure the script is left as it was.
An overly long script is skipped and replaced with a short invalid one. -/
def ScriptCompression.unser (script : CScript) : ByteDecoder CScript := do
  let nSize ← readVarInt 32
  if nSize < nSpecialScripts then
    let vch ← readBytes (getSpecialScriptSize nSize)
    pure ((decompressScript nSize vch).getD script)
  else
    let nSize := nSize - nSpecialScripts
    if nSize > MAX_SCRIPT_SIZE then do
      let _ ← take "DataStream::ignore(): end of data" nSize
      pure (script ++ [OP_RETURN])
    else readBytes nSize

/-! ## Amounts -/

/-- The loop of `CompressAmount` that divides out up to nine factors of ten,
returning the quotient and their number. -/
def stripZeros (n e : Nat) : Nat × Nat :=
  if n % 10 = 0 ∧ e < 9 then stripZeros (n / 10) (e + 1) else (n, e)
termination_by 9 - e

/-- `CompressAmount` on a `uint64_t`. -/
def compressAmount (n : Nat) : Nat :=
  if n = 0 then 0
  else
    let (n, e) := stripZeros n 0
    if e < 9 then
      let d := n % 10
      let n := n / 10
      (1 + (n * 9 + d - 1) * 10 + e) % 2 ^ 64
    else (1 + (n - 1) * 10 + 9) % 2 ^ 64

/-- The loop `while (e) { n *= 10; e--; }` of `DecompressAmount`. -/
def timesTen : Nat → Nat → Nat
  | n, 0 => n
  | n, e + 1 => timesTen (n * 10 % 2 ^ 64) e

/-- `DecompressAmount` on a `uint64_t`; the quotients it builds before the loop
are below its argument, so only the loop can wrap. -/
def decompressAmount (x : Nat) : Nat :=
  if x = 0 then 0
  else
    let x := x - 1
    let e := x % 10
    let x := x / 10
    let n :=
      if e < 9 then
        let d := x % 9 + 1
        let x := x / 9
        x * 10 + d
      else x + 1
    timesTen n e

/-- `AmountCompression::Ser` of a `CAmount`, converted to the `uint64_t` that
`CompressAmount` takes. -/
def AmountCompression.ser (val : CAmount) : List UInt8 := writeVarInt (compressAmount (val % 2 ^ 64).toNat)

/-- `AmountCompression::Unser` into a `CAmount`. -/
def AmountCompression.unser : ByteDecoder CAmount := do
  let v ← readVarInt 64
  pure (ofTwosComplement 64 (decompressAmount v))

/-- `TxOutCompression`: the compressed amount, then the compressed script. -/
def TxOutCompression.ser (output : CTxOut) : List UInt8 :=
  AmountCompression.ser output.nValue ++ ScriptCompression.ser output.scriptPubKey

/-- `TxOutCompression` unserialization into `output`. -/
def TxOutCompression.unser (output : CTxOut) : ByteDecoder CTxOut := do
  let nValue ← AmountCompression.unser
  let scriptPubKey ← ScriptCompression.unser output.scriptPubKey
  pure ⟨nValue, scriptPubKey⟩

/-! ## The special script forms -/

section Frames

variable {α : Type} {l pre post : List α}

/-- A list is its first elements, the next `m`, and the rest. -/
theorem eq_append_middle {m : Nat} (front : l.take pre.length = pre) (back : l.drop (pre.length + m) = post) :
    l = pre ++ (l.drop pre.length).take m ++ post :=
  calc l = l.take pre.length ++ l.drop pre.length := (List.take_append_drop _ _).symm
    _ = pre ++ ((l.drop pre.length).take m ++ (l.drop pre.length).drop m) := by rw [front, List.take_append_drop]
    _ = pre ++ (l.drop pre.length).take m ++ post := by rw [List.drop_drop, back, List.append_assoc]

theorem take_eq_of_getElem! [Inhabited α] (long : pre.length ≤ l.length) (same : ∀ i < pre.length, l[i]! = pre[i]!) :
    l.take pre.length = pre := by
  apply List.ext_getElem
  · simp [long]
  · intro i inTake inPre
    rw [List.getElem_take, ← getElem!_pos l i (by omega), ← getElem!_pos pre i inPre]
    exact same i inPre

theorem drop_eq_of_getElem! [Inhabited α] {k : Nat} (len : l.length = k + post.length)
    (same : ∀ i < post.length, l[k + i]! = post[i]!) : l.drop k = post := by
  apply List.ext_getElem
  · simp [len]
  · intro i inDrop inPost
    rw [List.getElem_drop, ← getElem!_pos l (k + i) (by omega), ← getElem!_pos post i inPost]
    exact same i inPost

end Frames

theorem isToKeyID_eq_some {script hash : List UInt8} (found : isToKeyID script = some hash) :
    hash.length = 20 ∧ script = [OP_DUP, OP_HASH160, 20] ++ hash ++ [OP_EQUALVERIFY, OP_CHECKSIG] := by
  unfold isToKeyID at found
  split_ifs at found with shape
  obtain ⟨len, b0, b1, b2, b23, b24⟩ := shape
  cases found
  have front : script.take [OP_DUP, OP_HASH160, 20].length = [OP_DUP, OP_HASH160, 20] :=
    take_eq_of_getElem! (by simp [len]) fun i below => by
      obtain rfl | rfl | rfl : i = 0 ∨ i = 1 ∨ i = 2 := by simp at below; omega
      exacts [b0, b1, b2]
  have back : script.drop ([OP_DUP, OP_HASH160, 20].length + 20) = [OP_EQUALVERIFY, OP_CHECKSIG] :=
    drop_eq_of_getElem! (by simp [len]) fun i below => by
    obtain rfl | rfl : i = 0 ∨ i = 1 := by simp at below; omega
    exacts [b23, b24]
  exact ⟨by simp [len], eq_append_middle front back⟩

theorem isToScriptID_eq_some {script hash : List UInt8} (found : isToScriptID script = some hash) :
    hash.length = 20 ∧ script = [OP_HASH160, 20] ++ hash ++ [OP_EQUAL] := by
  unfold isToScriptID at found
  split_ifs at found with shape
  obtain ⟨len, b0, b1, b22⟩ := shape
  cases found
  have front : script.take [OP_HASH160, 20].length = [OP_HASH160, 20] :=
    take_eq_of_getElem! (by simp [len]) fun i below => by
      obtain rfl | rfl : i = 0 ∨ i = 1 := by simp at below; omega
      exacts [b0, b1]
  have back : script.drop ([OP_HASH160, 20].length + 20) = [OP_EQUAL] :=
    drop_eq_of_getElem! (by simp [len]) fun i below => by
    obtain rfl : i = 0 := by simp at below; omega
    exact b22
  exact ⟨by simp [len], eq_append_middle front back⟩

/-- The key `IsToPubKey` sets from a pay-to-pubkey script is the invalid key:
its 33 or 65 bytes are not a Dilithium key's 1952. -/
theorem isToPubKey_eq_some {script : CScript} {pubkey : CQPubKey} (found : isToPubKey script = some pubkey) :
    pubkey = CQPubKey.invalid := by
  unfold isToPubKey at found
  split_ifs at found with short long
  · cases found
    exact CQPubKey.ofBytes_of_length_ne (by simp [short.1, DILITHIUM_PUBLICKEY_SIZE])
  · have invalid : CQPubKey.ofBytes ((script.drop 1).take 65) = CQPubKey.invalid :=
      CQPubKey.ofBytes_of_length_ne (by simp [long.1, DILITHIUM_PUBLICKEY_SIZE])
    dsimp only at found
    rw [invalid, CQPubKey.isFullyValid, CQPubKey.invalid_not_isValid] at found
    cases found

/-- The first byte of the invalid key, all `0xFF`. -/
theorem invalid_vch_zero : CQPubKey.invalid.vch[0] = 0xFF := by
  simp [CQPubKey.invalid]

/-- `CompressScript` succeeds only on pay-to-pubkey-hash and pay-to-script-hash
scripts, as the form byte and the hash: the key it reads from a pay-to-pubkey
script is invalid, and the invalid key's first byte, `0xFF`, is no key form. -/
theorem compressScript_eq_some {script out : List UInt8} (compressed : compressScript script = some out) :
    ∃ hash : valtype, hash.length = 20 ∧
      ((out = 0x00 :: hash ∧ script = [OP_DUP, OP_HASH160, 20] ++ hash ++ [OP_EQUALVERIFY, OP_CHECKSIG]) ∨
        (out = 0x01 :: hash ∧ script = [OP_HASH160, 20] ++ hash ++ [OP_EQUAL])) := by
  unfold compressScript at compressed
  cases keyID : isToKeyID script with
  | some hash =>
      rw [keyID] at compressed
      cases compressed
      obtain ⟨len, shape⟩ := isToKeyID_eq_some keyID
      exact ⟨hash, len, .inl ⟨rfl, shape⟩⟩
  | none =>
      cases scriptID : isToScriptID script with
      | some hash =>
          rw [keyID, scriptID] at compressed
          cases compressed
          obtain ⟨len, shape⟩ := isToScriptID_eq_some scriptID
          exact ⟨hash, len, .inr ⟨rfl, shape⟩⟩
      | none =>
          cases pubKey : isToPubKey script with
          | none => simp [keyID, scriptID, pubKey] at compressed
          | some pubkey =>
              rw [keyID, scriptID, pubKey, isToPubKey_eq_some pubKey] at compressed
              simp [invalid_vch_zero] at compressed

/-- Forms 4 and 5 never decompress: the 33 bytes `DecompressScript` gives
`CPubKey` make the invalid key, which `Decompress` rejects. -/
theorem decompressScript_uncompressedKey {nSize : Nat} (form : nSize = 4 ∨ nSize = 5) (input : List UInt8) :
    decompressScript nSize input = none := by
  have invalid : CQPubKey.ofBytes (UInt8.ofNat (nSize - 2) :: input.take 32) = CQPubKey.invalid :=
    CQPubKey.ofBytes_of_length_ne (by simp [DILITHIUM_PUBLICKEY_SIZE]; omega)
  rcases form with rfl | rfl
  all_goals
    simp only [decompressScript]
    rw [invalid, CQPubKey.decompress, CQPubKey.invalid_not_isValid]
    rfl

/-- What `CompressScript` writes is a form byte below `nSpecialScripts`, then
the bytes `DecompressScript` rebuilds the script from. -/
theorem decompressScript_of_compressScript {script out : List UInt8} (compressed : compressScript script = some out) :
    ∃ nSize compr, out = UInt8.ofNat nSize :: compr ∧ nSize < nSpecialScripts ∧
      compr.length = getSpecialScriptSize nSize ∧ decompressScript nSize compr = some script := by
  obtain ⟨hash, len, ⟨rfl, shape⟩ | ⟨rfl, shape⟩⟩ := compressScript_eq_some compressed
  · refine ⟨0, hash, rfl, by decide, by rw [len]; rfl, ?_⟩
    simp [decompressScript, List.take_of_length_le (Nat.le_of_eq len), shape]
  · refine ⟨1, hash, rfl, by decide, by rw [len]; rfl, ?_⟩
    simp [decompressScript, List.take_of_length_le (Nat.le_of_eq len), shape]

theorem writeVarInt_of_le {n : Nat} (small : n ≤ 0x7F) : writeVarInt n = [UInt8.ofNat n] := by
  rw [writeVarInt, writeVarIntDigits_of_le small, if_neg Bool.false_ne_true, Nat.or_zero, and_0x7f_eq_mod,
    Nat.mod_eq_of_lt (by omega)]

/-- A special form's size below `nSpecialScripts` is its own `VARINT`, and
the bytes after it are what `DecompressScript` reads. -/
theorem ScriptCompression.unser_special {init : CScript} {nSize : Nat} (special : nSize < nSpecialScripts)
    (vch rest : List UInt8) (size : vch.length = getSpecialScriptSize nSize) :
    (ScriptCompression.unser init).run (UInt8.ofNat nSize :: vch ++ rest) =
      .ok ((decompressScript nSize vch).getD init, rest) := by
  have oneByte : nSize ≤ 0x7F := by
    unfold nSpecialScripts at special
    omega
  have varint : UInt8.ofNat nSize :: (vch ++ rest) = writeVarInt nSize ++ (vch ++ rest) := by
    rw [writeVarInt_of_le oneByte]
    rfl
  unfold ScriptCompression.unser
  rw [List.cons_append, varint, run_bind_encodes (readVarInt_writeVarInt 32 (by omega)), if_pos special, ← size,
    run_bind_of_ok (run_readBytes_append vch rest)]
  rfl

/-- A script of at most `MAX_SCRIPT_SIZE` bytes is read back from its
`ScriptCompression` serialization into any script. -/
theorem ScriptCompression.unser_ser {script : CScript} (init : CScript) (short : script.length ≤ MAX_SCRIPT_SIZE) :
    Encodes (ScriptCompression.unser init) ScriptCompression.ser script := by
  intro rest
  unfold ScriptCompression.ser
  cases compressed : compressScript script with
  | some out =>
      obtain ⟨nSize, compr, rfl, special, size, decompressed⟩ := decompressScript_of_compressScript compressed
      dsimp only
      rw [ScriptCompression.unser_special special compr rest size, decompressed]
      rfl
  | none =>
      have fits : (script.length + nSpecialScripts) % 2 ^ 32 = script.length + nSpecialScripts :=
        Nat.mod_eq_of_lt (by unfold MAX_SCRIPT_SIZE at short; unfold nSpecialScripts; omega)
      dsimp only
      unfold ScriptCompression.unser
      rw [fits, List.append_assoc, run_bind_encodes (readVarInt_writeVarInt 32 (by rw [← fits]; omega)),
        if_neg (by omega), Nat.add_sub_cancel, if_neg (by omega)]
      exact run_readBytes_append script rest

/-! ## Amounts -/

/-- The loop of `CompressAmount` leaves a quotient that, times the tens it
divided out, is the amount, and that ends in a non-zero digit unless nine tens
were divided out. -/
theorem stripZeros_spec (n e : Nat) (atMost : e ≤ 9) :
    (stripZeros n e).1 * 10 ^ ((stripZeros n e).2 - e) = n ∧ e ≤ (stripZeros n e).2 ∧
      (stripZeros n e).2 ≤ 9 ∧ ((stripZeros n e).2 < 9 → (stripZeros n e).1 % 10 ≠ 0) := by
  fun_induction stripZeros n e with
  | case1 n e divides inductionHypothesis =>
      obtain ⟨scaled, above, below, lastDigit⟩ := inductionHypothesis (by omega)
      generalize stripZeros (n / 10) (e + 1) = stripped at *
      obtain ⟨m, e'⟩ := stripped
      dsimp only at *
      refine ⟨?_, by omega, below, lastDigit⟩
      calc m * 10 ^ (e' - e) = m * 10 ^ (e' - (e + 1)) * 10 := by
            rw [show e' - e = e' - (e + 1) + 1 by omega, pow_succ, Nat.mul_assoc]
        _ = n / 10 * 10 := by rw [scaled]
        _ = n := Nat.div_mul_cancel (Nat.dvd_of_mod_eq_zero divides.1)
  | case2 n e stops =>
      refine ⟨by simp, le_rfl, atMost, fun short => ?_⟩
      omega

/-- Without wrapping, the loop of `DecompressAmount` multiplies by ten `e`
times. -/
theorem timesTen_eq {n e : Nat} (fits : n * 10 ^ e < 2 ^ 64) : timesTen n e = n * 10 ^ e := by
  induction e generalizing n with
  | zero => simp [timesTen]
  | succ e inductionHypothesis =>
      have once : n * 10 < 2 ^ 64 :=
        lt_of_le_of_lt (Nat.mul_le_mul_left n (Nat.le_self_pow (by omega) 10)) fits
      rw [timesTen, Nat.mod_eq_of_lt once, inductionHypothesis (by rwa [Nat.mul_assoc, ← pow_succ']),
        Nat.mul_assoc, ← pow_succ']

theorem compressAmount_lt (n : Nat) : compressAmount n < 2 ^ 64 := by
  unfold compressAmount
  split_ifs
  · norm_num
  · dsimp only
    split_ifs <;> exact Nat.mod_lt _ (by norm_num)

/-- `DecompressAmount` undoes `CompressAmount` on every amount below `2 ^ 60`:
the last digit `d` and the count `e` of tens divided out are read back from
the residues modulo 10 and 9. -/
theorem decompressAmount_compressAmount {n : Nat} (fits : n < 2 ^ 60) :
    decompressAmount (compressAmount n) = n := by
  rcases Nat.eq_zero_or_pos n with zero | positive
  · simp [zero, compressAmount, decompressAmount]
  have spec := stripZeros_spec n 0 (by norm_num)
  unfold compressAmount
  rw [if_neg (by omega)]
  generalize stripZeros n 0 = stripped at spec ⊢
  obtain ⟨m, e⟩ := stripped
  obtain ⟨scaled, -, atMost, lastDigit⟩ := spec
  dsimp only at scaled atMost lastDigit ⊢
  rw [Nat.sub_zero] at scaled
  have below : m ≤ n := by
    rw [← scaled]
    exact Nat.le_mul_of_pos_right m (pow_pos (by norm_num) e)
  have back : timesTen m e = n := by
    rw [timesTen_eq (by omega), scaled]
  have leading : 0 < m := Nat.pos_of_ne_zero fun zero => by
    rw [zero, Nat.zero_mul] at scaled
    omega
  unfold decompressAmount
  by_cases short : e < 9
  · have digit := lastDigit short
    rw [if_pos short, Nat.mod_eq_of_lt (by omega), if_neg (by omega)]
    dsimp only
    have count : (1 + (m / 10 * 9 + m % 10 - 1) * 10 + e - 1) % 10 = e := by omega
    have quotient : (1 + (m / 10 * 9 + m % 10 - 1) * 10 + e - 1) / 10 = m / 10 * 9 + m % 10 - 1 := by omega
    have lastDigitBack : (m / 10 * 9 + m % 10 - 1) % 9 + 1 = m % 10 := by omega
    have leadingBack : (m / 10 * 9 + m % 10 - 1) / 9 * 10 + m % 10 = m := by omega
    rw [count, quotient, if_pos short, lastDigitBack, leadingBack, back]
  · rw [if_neg short, Nat.mod_eq_of_lt (by omega), if_neg (by omega)]
    dsimp only
    have count : (1 + (m - 1) * 10 + 9 - 1) % 10 = 9 := by omega
    have quotient : (1 + (m - 1) * 10 + 9 - 1) / 10 + 1 = m := by omega
    rw [count, if_neg (by omega), quotient, show 9 = e by omega, back]

/-- An amount in `[0, MAX_MONEY]` is read back from its `AmountCompression`
serialization. -/
theorem AmountCompression.unser_ser {val : Int} (nonneg : 0 ≤ val) (atMost : val ≤ MAX_MONEY) :
    Encodes AmountCompression.unser AmountCompression.ser val := by
  intro rest
  have range : val ≤ 2100000000000000 := atMost
  have small : (val % 2 ^ 64).toNat < 2 ^ 60 := by omega
  unfold AmountCompression.unser AmountCompression.ser
  rw [run_bind_encodes (readVarInt_writeVarInt 64 (compressAmount_lt _)), decompressAmount_compressAmount small,
    ofTwosComplement_toNat_emod ⟨by omega, by omega⟩]
  rfl

/-- A `CTxOut` with an amount in `[0, MAX_MONEY]` and a script of at most
`MAX_SCRIPT_SIZE` bytes is read back from its `TxOutCompression`
serialization into any output. -/
theorem TxOutCompression.unser_ser {output : CTxOut} (init : CTxOut) (nonneg : 0 ≤ output.nValue)
    (atMost : output.nValue ≤ MAX_MONEY) (short : output.scriptPubKey.length ≤ MAX_SCRIPT_SIZE) :
    Encodes (TxOutCompression.unser init) TxOutCompression.ser output := by
  intro rest
  unfold TxOutCompression.unser TxOutCompression.ser
  rw [List.append_assoc, run_bind_encodes (AmountCompression.unser_ser nonneg atMost),
    run_bind_encodes (ScriptCompression.unser_ser init.scriptPubKey short)]
  rfl

/-- The coins database's compressed outputs round-trip: every output with an
amount in `[0, MAX_MONEY]` and a script of at most `MAX_SCRIPT_SIZE` bytes is
read back from its `TxOutCompression` serialization, `DecompressAmount` undoes
`CompressAmount` on `[0, MAX_MONEY]`, and every script `CompressScript`
compresses is rebuilt by `DecompressScript` from the form byte and the bytes
after it. -/
theorem txOutCompression_roundTrip :
    (∀ output init : CTxOut, 0 ≤ output.nValue → output.nValue ≤ MAX_MONEY →
      output.scriptPubKey.length ≤ MAX_SCRIPT_SIZE →
        Encodes (TxOutCompression.unser init) TxOutCompression.ser output) ∧
    (∀ n : Nat, n ≤ MAX_MONEY.toNat → decompressAmount (compressAmount n) = n) ∧
    (∀ script out, compressScript script = some out →
      ∃ nSize compr, out = nSize :: compr ∧ decompressScript nSize.toNat compr = some script) := by
  refine ⟨fun output init nonneg atMost short => TxOutCompression.unser_ser init nonneg atMost short,
    fun n atMost => decompressAmount_compressAmount (lt_of_le_of_lt atMost (by decide)),
    fun script out compressed => ?_⟩
  obtain ⟨nSize, compr, rfl, special, -, decompressed⟩ := decompressScript_of_compressScript compressed
  have byte : (UInt8.ofNat nSize).toNat = nSize := by
    unfold nSpecialScripts at special
    exact UInt8.toNat_ofNat_of_lt' (by simp [UInt8.size]; omega)
  refine ⟨UInt8.ofNat nSize, compr, rfl, ?_⟩
  rw [byte]
  exact decompressed

end Qbitcoin
