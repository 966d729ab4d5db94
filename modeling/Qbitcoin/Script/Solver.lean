import Qbitcoin.Key.QKey
import Qbitcoin.Script.Verify
import Mathlib.Tactic.IntervalCases

/-!
# `Solver`

The classification of output scripts into the standard templates of
`solver.cpp`, with the parsed keys or hashes.

`MatchPayToPubkey` was rewritten in this fork for 1952-byte keys, but it asks
for a script of `CPubKey::SIZE + 3` bytes: the push opcode, the two size bytes
and the key, without the final `OP_CHECKSIG`.  The script `<pubkey> OP_CHECKSIG`
that `GetScriptForRawPubKey` builds has one byte more, so it is not classified as
`PUBKEY` (`solver_payToPubKeyScript`), and a script that is classified so is
not the script of the key it returns.  `MatchMultisig` reads the pushes of
1952-byte keys as keys, so the scripts `GetScriptForMultisig` builds are
classified `MULTISIG` with their keys.
-/

namespace Qbitcoin

open ByteCodec

/-- `TxoutType`. -/
inductive TxoutType where
  | nonstandard
  | pubkey
  | pubkeyhash
  | scripthash
  | multisig
  | nullData
  | anchor
  | witnessV0ScriptHash
  | witnessV0KeyHash
  | witnessV1Taproot
  | witnessUnknown
  deriving DecidableEq, Repr

/-- `MatchPayToPubkey`.  `ValidSize` rejects every key of the legacy 33-byte
branch. -/
def matchPayToPubkey (script : CScript) : Option valtype :=
  if script.length ≥ 3 ∧ script.getLast? = some OP_CHECKSIG then
    if script.length = DILITHIUM_PUBLICKEY_SIZE + 3 ∧ script[0]? = some OP_PUSHDATA2 ∧
        script[1]? = some (UInt8.ofNat (DILITHIUM_PUBLICKEY_SIZE &&& 0xFF)) ∧
        script[2]? = some (UInt8.ofNat ((DILITHIUM_PUBLICKEY_SIZE >>> 8) &&& 0xFF)) then
      let pubkey := (script.drop 3).take DILITHIUM_PUBLICKEY_SIZE
      if CQPubKey.validSize pubkey then some pubkey else none
    else if script.length = 35 ∧ script[0]? = some 33 then
      let pubkey := (script.drop 1).take 33
      if CQPubKey.validSize pubkey then some pubkey else none
    else none
  else none

/-- `MatchPayToPubkeyHash`. -/
def matchPayToPubkeyHash (script : CScript) : Option valtype :=
  if script.length = 25 ∧ script[0]? = some OP_DUP ∧ script[1]? = some OP_HASH160 ∧
      script[2]? = some 20 ∧ script[23]? = some OP_EQUALVERIFY ∧ script[24]? = some OP_CHECKSIG then
    some ((script.drop 3).take 20)
  else none

/-- `IsSmallInteger`: `OP_1` to `OP_16`. -/
def isSmallInteger (opcode : opcodetype) : Bool := OP_1 ≤ opcode && opcode ≤ OP_16

/-- `IsPushdataOp`. -/
def isPushdataOp (opcode : opcodetype) : Bool := OP_0 < opcode && opcode ≤ OP_PUSHDATA4

/-- `GetScriptNumber`: a minimally encoded number in `[min, max]`, written as
`OP_n` or pushed. -/
def getScriptNumber (opcode : opcodetype) (data : valtype) (min max : Int) : Option Int := do
  let count ←
    if isSmallInteger opcode then some (decodeOpN opcode : Int)
    else if isPushdataOp opcode then
      if !checkMinimalPush data opcode then none
      else (CScriptNum.decode data true CScriptNum.nDefaultMaxNumSize).map CScriptNum.getint
    else none
  if count < min ∨ count > max then none else some count

/-- The key loop of `MatchMultisig`: the pushes of valid key size, then the first
operation that is not one, with the bytes after it.  `none` when an operation
cannot be read, where the C++ goes on with `OP_INVALIDOPCODE`, which no number
test accepts. -/
def matchMultisigKeys (pc : List UInt8) (pubkeys : List valtype) :
    Option (opcodetype × valtype × List UInt8 × List valtype) :=
  match reading : getScriptOp pc with
  | none => none
  | some (opcode, data, rest) =>
      if CQPubKey.validSize data then matchMultisigKeys rest (pubkeys ++ [data])
      else some (opcode, data, rest, pubkeys)
termination_by pc.length
decreasing_by exact getScriptOp_rest_lt reading

/-- `MatchMultisig`: the number of required signatures and the keys.  Only
the final `OP_CHECKMULTISIG` may follow the key count. -/
def matchMultisig (script : CScript) : Option (Int × List valtype) := do
  if script.length < 1 ∨ script.getLast? ≠ some OP_CHECKMULTISIG then none
  let (opcode, data, rest) ← getScriptOp script
  let required ← getScriptNumber opcode data 1 MAX_PUBKEYS_PER_MULTISIG
  let (opcode, data, rest, pubkeys) ← matchMultisigKeys rest []
  let numKeys ← getScriptNumber opcode data required MAX_PUBKEYS_PER_MULTISIG
  if pubkeys.length ≠ numKeys then none
  if rest.length ≠ 1 then none
  pure (required, pubkeys)

/-- The member `CScript::IsPayToAnchor()`: exactly `OP_1 <0x4e73>`. -/
def CScript.isPayToAnchor (script : CScript) : Bool :=
  script == [OP_1, 0x02, 0x4e, 0x73]

/-- `Solver`: the template of a script and its solutions. -/
def solver (scriptPubKey : CScript) : TxoutType × List valtype :=
  if isPayToScriptHash scriptPubKey then (.scripthash, [(scriptPubKey.drop 2).take 20])
  else
    match isWitnessProgram scriptPubKey with
    | some (witnessversion, witnessprogram) =>
        if witnessversion = 0 ∧ witnessprogram.length = WITNESS_V0_KEYHASH_SIZE then
          (.witnessV0KeyHash, [witnessprogram])
        else if witnessversion = 0 ∧ witnessprogram.length = WITNESS_V0_SCRIPTHASH_SIZE then
          (.witnessV0ScriptHash, [witnessprogram])
        else if witnessversion = 1 ∧ witnessprogram.length = WITNESS_V1_TAPROOT_SIZE then
          (.witnessV1Taproot, [witnessprogram])
        else if CScript.isPayToAnchor scriptPubKey then (.anchor, [])
        else if witnessversion ≠ 0 then
          (.witnessUnknown, [[UInt8.ofNat witnessversion], witnessprogram])
        else (.nonstandard, [])
    | none =>
        if scriptPubKey[0]? = some OP_RETURN ∧ isPushOnly (scriptPubKey.drop 1) then (.nullData, [])
        else
          match matchPayToPubkey scriptPubKey with
          | some data => (.pubkey, [data])
          | none =>
              match matchPayToPubkeyHash scriptPubKey with
              | some data => (.pubkeyhash, [data])
              | none =>
                  match matchMultisig scriptPubKey with
                  | some (required, keys) =>
                      (.multisig, [UInt8.ofNat required.toNat] :: keys ++ [[UInt8.ofNat keys.length]])
                  | none => (.nonstandard, [])

/-- Whatever `MatchPayToPubkey` accepts is `CPubKey::SIZE + 3` bytes long: the
33-byte branch never passes `ValidSize`. -/
theorem length_of_matchPayToPubkey {script pubkey : valtype}
    (matched : matchPayToPubkey script = some pubkey) :
    script.length = DILITHIUM_PUBLICKEY_SIZE + 3 := by
  unfold matchPayToPubkey at matched
  dsimp only at matched
  split_ifs at matched with _ dilithiumShape _ legacyShape legacyValid
  · exact dilithiumShape.1
  · simp [CQPubKey.validSize, legacyShape.1, DILITHIUM_PUBLICKEY_SIZE] at legacyValid

/-- `GetScriptForRawPubKey` of a 1952-byte key is not a `PUBKEY` script. -/
theorem matchPayToPubkey_payToPubKeyScript {pubkey : valtype}
    (sized : pubkey.length = DILITHIUM_PUBLICKEY_SIZE) :
    matchPayToPubkey (payToPubKeyScript pubkey) = none := by
  cases matched : matchPayToPubkey (payToPubKeyScript pubkey) with
  | none => rfl
  | some data =>
      have scriptLength := length_of_matchPayToPubkey matched
      simp [payToPubKeyScript, pushData, sized, appendDataSize, DILITHIUM_PUBLICKEY_SIZE,
        OP_PUSHDATA1] at scriptLength

theorem solver_payToPubKeyHashScript {hash : valtype} (sized : hash.length = 20) :
    solver (payToPubKeyHashScript hash) = (.pubkeyhash, [hash]) := by
  have short : hash.length < OP_PUSHDATA1.toNat := by
    rw [sized]
    decide
  simp +decide [solver, payToPubKeyHashScript, pushData_of_short short, sized, isPayToScriptHash,
    isWitnessProgram, matchPayToPubkey, matchPayToPubkeyHash, DILITHIUM_PUBLICKEY_SIZE]

theorem solver_payToWitnessScript {program : valtype} (sized : program.length = 20) :
    solver (payToWitnessScript program) = (.witnessV0KeyHash, [program]) := by
  have short : program.length < OP_PUSHDATA1.toNat := by
    rw [sized]
    decide
  simp +decide [solver, payToWitnessScript, pushData_of_short short, sized, isPayToScriptHash,
    isWitnessProgram, decodeOpN, WITNESS_V0_KEYHASH_SIZE]

/-- The pay-to-pubkey script of a 1952-byte key is classified `NONSTANDARD`. -/
theorem solver_payToPubKeyScript {pubkey : valtype} (sized : pubkey.length = DILITHIUM_PUBLICKEY_SIZE) :
    solver (payToPubKeyScript pubkey) = (.nonstandard, []) := by
  have pushed : payToPubKeyScript pubkey = OP_PUSHDATA2 :: leBytes 2 pubkey.length ++ pubkey ++ [OP_CHECKSIG] := by
    have large : 0xff < pubkey.length := by
      rw [sized]
      decide
    have small : pubkey.length ≤ 0xffff := by
      rw [sized]
      decide
    rw [payToPubKeyScript, pushData_of_pushdata2 large small]
  have scriptLength : (payToPubKeyScript pubkey).length = DILITHIUM_PUBLICKEY_SIZE + 4 := by
    simp [pushed, sized]
    omega
  have notScriptHash : isPayToScriptHash (payToPubKeyScript pubkey) = false := by
    simp [isPayToScriptHash, scriptLength, DILITHIUM_PUBLICKEY_SIZE]
  have notWitness : isWitnessProgram (payToPubKeyScript pubkey) = none := by
    simp [isWitnessProgram, scriptLength, DILITHIUM_PUBLICKEY_SIZE]
  have notNullData : ¬ ((payToPubKeyScript pubkey)[0]? = some OP_RETURN ∧
      isPushOnly ((payToPubKeyScript pubkey).drop 1) = true) := by
    rw [pushed]
    simp +decide
  have notKeyHash : matchPayToPubkeyHash (payToPubKeyScript pubkey) = none := by
    simp [matchPayToPubkeyHash, scriptLength, DILITHIUM_PUBLICKEY_SIZE]
  have notMultisig : matchMultisig (payToPubKeyScript pubkey) = none := by
    rw [matchMultisig, pushed, List.getLast?_concat]
    simp +decide
  simp only [solver, notScriptHash, notWitness, if_neg notNullData, Bool.false_eq_true, if_false,
    matchPayToPubkey_payToPubKeyScript sized, notKeyHash, notMultisig]

/-! ## The scripts of keys -/

/-- `GetScriptForRawPubKey`. -/
def getScriptForRawPubKey (pubKey : CQPubKey) : CScript := payToPubKeyScript pubKey.toBytes

/-- `GetScriptForMultisig`: the required count, the keys and the key count,
each written by `CScript::operator<<`. -/
def getScriptForMultisig (nRequired : Int) (keys : List CQPubKey) : CScript :=
  pushInt64 nRequired ++ keys.flatMap (fun key => pushData key.toBytes) ++ pushInt64 keys.length ++
    [OP_CHECKMULTISIG]

theorem op1_toNat : OP_1.toNat = 81 := rfl

theorem pushInt64_of_le_sixteen {n : Nat} (positive : 1 ≤ n) (small : n ≤ 16) :
    pushInt64 n = [encodeOpN n] := by
  have opcode : (((n : Int) + (OP_1.toNat - 1 : Nat)).toNat) = OP_1.toNat + n - 1 := by
    rw [op1_toNat]
    omega
  simp [pushInt64, encodeOpN, opcode, Nat.pos_iff_ne_zero.mp positive, positive, small]

theorem decodeOpN_encodeOpN {n : Nat} (small : n ≤ 16) : decodeOpN (encodeOpN n) = n := by
  by_cases zero : n = 0
  · subst zero
    rfl
  · have value : (encodeOpN n).toNat = 80 + n := by
      simp only [encodeOpN, if_neg zero, op1_toNat, UInt8.toNat_ofNat']
      omega
    have notZero : encodeOpN n ≠ OP_0 := by
      intro same
      have := congrArg UInt8.toNat same
      simp [value, OP_0] at this
    simp only [decodeOpN, if_neg notZero, value, op1_toNat]
    omega

theorem pushdata4_lt_encodeOpN {n : Nat} (positive : 1 ≤ n) (small : n ≤ 16) :
    OP_PUSHDATA4 < encodeOpN n := by
  have value : (encodeOpN n).toNat = 80 + n := by
    simp only [encodeOpN, if_neg (by omega : n ≠ 0), op1_toNat, UInt8.toNat_ofNat']
    omega
  rw [UInt8.lt_iff_toNat_lt, value]
  simp [OP_PUSHDATA4]
  omega

theorem isSmallInteger_encodeOpN {n : Nat} (positive : 1 ≤ n) (small : n ≤ 16) :
    isSmallInteger (encodeOpN n) = true := by
  have value : (encodeOpN n).toNat = 80 + n := by
    simp only [encodeOpN, if_neg (by omega : n ≠ 0), op1_toNat, UInt8.toNat_ofNat']
    omega
  simp only [isSmallInteger, Bool.and_eq_true, decide_eq_true_eq, UInt8.le_iff_toNat_le, value]
  simp [OP_1, OP_16]
  omega

/-- `CScript() << n` for a count of 1 to 20 reads back as one operation, no key,
that `GetScriptNumber` takes for `n`. -/
theorem getScriptOp_pushInt64 {n : Nat} (positive : 1 ≤ n) (small : n ≤ 20) (rest : List UInt8) :
    ∃ opcode data, getScriptOp (pushInt64 n ++ rest) = some (opcode, data, rest) ∧
      CQPubKey.validSize data = false ∧
      ∀ min max : Int, min ≤ n → n ≤ max → getScriptNumber opcode data min max = some (n : Int) := by
  by_cases direct : n ≤ 16
  · refine ⟨encodeOpN n, [], ?_, rfl, fun min max low high => ?_⟩
    · rw [pushInt64_of_le_sixteen positive direct, List.singleton_append]
      exact getScriptOp_of_not_push rest (pushdata4_lt_encodeOpN positive direct)
    · simp only [getScriptNumber, isSmallInteger_encodeOpN positive direct, if_true,
        decodeOpN_encodeOpN direct, Option.bind_eq_bind, Option.bind_some]
      rw [if_neg (by omega)]
  · have pushed : pushInt64 n = pushData [UInt8.ofNat n] := by
      rw [pushInt64, if_neg (by omega), if_neg (by omega), CScriptNum.serialize_of_small (by omega) (by omega)]
    refine ⟨pushOpcode 1, [UInt8.ofNat n], ?_, rfl, fun min max low high => ?_⟩
    · rw [pushed]
      exact getScriptOp_pushData _ rest (by simp)
    · have decoded : (CScriptNum.decode [UInt8.ofNat n] true CScriptNum.nDefaultMaxNumSize).map
          CScriptNum.getint = some (n : Int) := by
        interval_cases n <;> decide
      have minimal : checkMinimalPush [UInt8.ofNat n] (pushOpcode 1) = true := by
        interval_cases n <;> decide
      have notSmall : isSmallInteger (pushOpcode 1) = false := by decide
      have pushdata : isPushdataOp (pushOpcode 1) = true := by decide
      simp only [getScriptNumber, notSmall, pushdata, minimal, decoded, Bool.not_true, Bool.false_eq_true,
        if_false, if_true, Option.bind_eq_bind, Option.bind_some]
      rw [if_neg (by omega)]

/-- The key loop on a script whose next operation reads: a key goes on, the
first operation that is not one ends the loop. -/
theorem matchMultisigKeys_of_getScriptOp {pc rest : List UInt8} {opcode : opcodetype} {data : valtype}
    (reading : getScriptOp pc = some (opcode, data, rest)) (pubkeys : List valtype) :
    matchMultisigKeys pc pubkeys =
      if CQPubKey.validSize data then matchMultisigKeys rest (pubkeys ++ [data])
      else some (opcode, data, rest, pubkeys) := by
  rw [matchMultisigKeys]
  split
  · rename_i noOperation
    rw [reading] at noOperation
    cases noOperation
  · rename_i opcode' data' rest' reading'
    rw [reading] at reading'
    cases reading'
    rfl

/-- The pushes of `GetScriptForMultisig`'s keys are read as keys, in order. -/
theorem matchMultisigKeys_pushKeys (keys : List CQPubKey) (pubkeys : List valtype) (rest : List UInt8) :
    matchMultisigKeys (keys.flatMap (fun key => pushData key.toBytes) ++ rest) pubkeys =
      matchMultisigKeys rest (pubkeys ++ keys.map CQPubKey.toBytes) := by
  induction keys generalizing pubkeys with
  | nil => simp
  | cons key keys ih =>
      have reading := getScriptOp_pushData key.toBytes (keys.flatMap (fun key => pushData key.toBytes) ++ rest)
        (by simp [DILITHIUM_PUBLICKEY_SIZE])
      rw [List.flatMap_cons, List.append_assoc, matchMultisigKeys_of_getScriptOp reading,
        if_pos (by simp [CQPubKey.validSize]), ih]
      simp

theorem matchMultisig_getScriptForMultisig {nRequired : Nat} {keys : List CQPubKey} (positive : 1 ≤ nRequired)
    (enough : nRequired ≤ keys.length) (few : keys.length ≤ 20) :
    matchMultisig (getScriptForMultisig nRequired keys) = some ((nRequired : Int), keys.map CQPubKey.toBytes) := by
  obtain ⟨required, requiredData, readRequired, -, requiredNumber⟩ := getScriptOp_pushInt64 positive
    (by omega) (keys.flatMap (fun key => pushData key.toBytes) ++ (pushInt64 keys.length ++ [OP_CHECKMULTISIG]))
  have keysPositive : 1 ≤ keys.length := by omega
  obtain ⟨count, countData, readCount, countNotKey, countNumber⟩ := getScriptOp_pushInt64 keysPositive
    few [OP_CHECKMULTISIG]
  have shape : getScriptForMultisig nRequired keys = pushInt64 nRequired ++
      (keys.flatMap (fun key => pushData key.toBytes) ++ (pushInt64 keys.length ++ [OP_CHECKMULTISIG])) := by
    simp [getScriptForMultisig]
  have keysRead : matchMultisigKeys (keys.flatMap (fun key => pushData key.toBytes) ++
      (pushInt64 keys.length ++ [OP_CHECKMULTISIG])) [] =
        some (count, countData, [OP_CHECKMULTISIG], keys.map CQPubKey.toBytes) := by
    rw [matchMultisigKeys_pushKeys, matchMultisigKeys_of_getScriptOp readCount, countNotKey]
    simp
  have requiredCount := requiredNumber 1 MAX_PUBKEYS_PER_MULTISIG (by omega)
    (by simp [MAX_PUBKEYS_PER_MULTISIG]; omega)
  have keyCount := countNumber nRequired MAX_PUBKEYS_PER_MULTISIG (by omega)
    (by simp [MAX_PUBKEYS_PER_MULTISIG]; omega)
  rw [matchMultisig, if_neg (by simp [shape, pushInt64])]
  simp only [shape, readRequired, Option.bind_eq_bind, Option.bind_some]
  rw [requiredCount, Option.bind_some, keysRead, Option.bind_some]
  simp [keyCount]

theorem pushInt64_ne_nil (n : Int) : pushInt64 n ≠ [] := by
  unfold pushInt64 pushData appendDataSize
  split_ifs <;> simp

/-- Each key of `GetScriptForMultisig` is pushed behind `OP_PUSHDATA2` and two
size bytes. -/
theorem length_pushData_toBytes (key : CQPubKey) : (pushData key.toBytes).length = DILITHIUM_PUBLICKEY_SIZE + 3 := by
  have large : 0xff < key.toBytes.length := by simp [DILITHIUM_PUBLICKEY_SIZE]
  have small : key.toBytes.length ≤ 0xffff := by simp [DILITHIUM_PUBLICKEY_SIZE]
  rw [pushData_of_pushdata2 large small]
  simp [leBytes_length]
  omega

theorem length_getScriptForMultisig (nRequired : Int) (keys : List CQPubKey) :
    (DILITHIUM_PUBLICKEY_SIZE + 3) * keys.length + 3 ≤ (getScriptForMultisig nRequired keys).length := by
  have required := List.length_pos_iff.mpr (pushInt64_ne_nil nRequired)
  have count := List.length_pos_iff.mpr (pushInt64_ne_nil keys.length)
  have pushes : (keys.flatMap fun key => pushData key.toBytes).length = (DILITHIUM_PUBLICKEY_SIZE + 3) * keys.length := by
    simp [List.length_flatMap, length_pushData_toBytes, Nat.mul_comm]
  simp only [getScriptForMultisig, List.length_append, pushes, List.length_singleton]
  omega

/-- `OP_RETURN` is no number. -/
theorem getScriptNumber_opReturn (data : valtype) (min max : Int) :
    getScriptNumber OP_RETURN data min max = none := by
  have notSmall : isSmallInteger OP_RETURN = false := by decide
  have notPush : isPushdataOp OP_RETURN = false := by decide
  simp [getScriptNumber, notSmall, notPush]

/-- The opcode `GetScriptOp` returns is the first byte. -/
theorem getElem_zero_of_getScriptOp {pc rest : List UInt8} {opcode : opcodetype} {data : valtype}
    (reading : getScriptOp pc = some (opcode, data, rest)) : pc[0]? = some opcode := by
  cases pc with
  | nil => simp [getScriptOp] at reading
  | cons first tail =>
      simp only [getScriptOp] at reading
      split_ifs at reading
      · split at reading
        · cases reading
        · split_ifs at reading
          cases reading
          rfl
      · cases reading
        rfl

theorem solver_getScriptForMultisig {nRequired : Nat} {keys : List CQPubKey} (positive : 1 ≤ nRequired)
    (enough : nRequired ≤ keys.length) (few : keys.length ≤ 20) :
    solver (getScriptForMultisig nRequired keys) =
      (.multisig, [UInt8.ofNat nRequired] :: keys.map CQPubKey.toBytes ++ [[UInt8.ofNat keys.length]]) := by
  have long := length_getScriptForMultisig nRequired keys
  have someKey : 1 ≤ keys.length := by omega
  have notScriptHash : isPayToScriptHash (getScriptForMultisig nRequired keys) = false := by
    simp [isPayToScriptHash, DILITHIUM_PUBLICKEY_SIZE] at long ⊢
    omega
  have notWitness : isWitnessProgram (getScriptForMultisig nRequired keys) = none := by
    unfold isWitnessProgram
    rw [if_pos (.inr (by simp [DILITHIUM_PUBLICKEY_SIZE] at long; omega))]
  have notNullData : ¬ ((getScriptForMultisig nRequired keys)[0]? = some OP_RETURN ∧
      isPushOnly ((getScriptForMultisig nRequired keys).drop 1) = true) := by
    rintro ⟨first, -⟩
    obtain ⟨required, requiredData, readRequired, -, requiredNumber⟩ := getScriptOp_pushInt64 positive
      (by omega) (keys.flatMap (fun key => pushData key.toBytes) ++ (pushInt64 keys.length ++ [OP_CHECKMULTISIG]))
    have shape : getScriptForMultisig nRequired keys = pushInt64 nRequired ++
        (keys.flatMap (fun key => pushData key.toBytes) ++ (pushInt64 keys.length ++ [OP_CHECKMULTISIG])) := by
      simp [getScriptForMultisig]
    rw [shape, getElem_zero_of_getScriptOp readRequired, Option.some.injEq] at first
    have number := requiredNumber 1 MAX_PUBKEYS_PER_MULTISIG (by omega)
      (by simp [MAX_PUBKEYS_PER_MULTISIG]; omega)
    rw [first, getScriptNumber_opReturn] at number
    cases number
  have notPubkey : matchPayToPubkey (getScriptForMultisig nRequired keys) = none := by
    cases matched : matchPayToPubkey (getScriptForMultisig nRequired keys) with
    | none => rfl
    | some pubkey =>
        have sized := length_of_matchPayToPubkey matched
        simp only [DILITHIUM_PUBLICKEY_SIZE] at long sized
        omega
  have notKeyHash : matchPayToPubkeyHash (getScriptForMultisig nRequired keys) = none := by
    simp [matchPayToPubkeyHash, DILITHIUM_PUBLICKEY_SIZE] at long ⊢
    omega
  simp only [solver, notScriptHash, notWitness, if_neg notNullData, Bool.false_eq_true, if_false, notPubkey,
    notKeyHash, matchMultisig_getScriptForMultisig positive enough few]
  simp

/-- A script `Solver` classifies `PUBKEY` is one `MatchPayToPubkey` accepts, and
the solution is the key it read. -/
theorem matchPayToPubkey_of_solver {script : CScript} {solutions : List valtype}
    (solved : solver script = (.pubkey, solutions)) :
    ∃ pubkey, matchPayToPubkey script = some pubkey ∧ solutions = [pubkey] := by
  unfold solver at solved
  by_cases scriptHash : isPayToScriptHash script = true
  · rw [if_pos scriptHash] at solved
    cases solved
  rw [if_neg scriptHash] at solved
  cases witness : isWitnessProgram script with
  | some program =>
      obtain ⟨version, bytes⟩ := program
      simp only [witness] at solved
      split_ifs at solved <;> cases solved
  | none =>
      simp only [witness] at solved
      by_cases nullData : script[0]? = some OP_RETURN ∧ isPushOnly (script.drop 1) = true
      · rw [if_pos nullData] at solved
        cases solved
      rw [if_neg nullData] at solved
      cases matched : matchPayToPubkey script with
      | some pubkey =>
          simp only [matched] at solved
          cases solved
          exact ⟨pubkey, rfl, rfl⟩
      | none =>
          simp only [matched] at solved
          split at solved
          · cases solved
          · split at solved <;> cases solved

theorem validSize_of_matchPayToPubkey {script pubkey : valtype}
    (matched : matchPayToPubkey script = some pubkey) : CQPubKey.validSize pubkey = true := by
  unfold matchPayToPubkey at matched
  dsimp only at matched
  split_ifs at matched with _ _ valid _ valid
  · cases matched
    exact valid
  · cases matched
    exact valid

theorem solver_dilithium_templates :
    (∀ pubKey : CQPubKey, solver (getScriptForRawPubKey pubKey) = (.nonstandard, [])) ∧
    (∀ (nRequired : Nat) (keys : List CQPubKey), 1 ≤ nRequired → nRequired ≤ keys.length → keys.length ≤ 20 →
      solver (getScriptForMultisig nRequired keys) =
        (.multisig, [UInt8.ofNat nRequired] :: keys.map CQPubKey.toBytes ++ [[UInt8.ofNat keys.length]])) ∧
    (∀ script pubkey, solver script = (.pubkey, [pubkey]) → script ≠ payToPubKeyScript pubkey) := by
  refine ⟨fun pubKey => solver_payToPubKeyScript (CQPubKey.toBytes_length pubKey),
    fun nRequired keys positive enough few => solver_getScriptForMultisig positive enough few, ?_⟩
  intro script pubkey solved same
  obtain ⟨read, matched, single⟩ := matchPayToPubkey_of_solver solved
  cases single
  have scriptLength := length_of_matchPayToPubkey matched
  have keyLength : pubkey.length = DILITHIUM_PUBLICKEY_SIZE := by
    simpa [CQPubKey.validSize] using validSize_of_matchPayToPubkey matched
  have pushed : (payToPubKeyScript pubkey).length = DILITHIUM_PUBLICKEY_SIZE + 4 := by
    have large : 0xff < pubkey.length := by simp [keyLength, DILITHIUM_PUBLICKEY_SIZE]
    have small : pubkey.length ≤ 0xffff := by simp [keyLength, DILITHIUM_PUBLICKEY_SIZE]
    simp [payToPubKeyScript, pushData_of_pushdata2 large small, leBytes_length, keyLength]
    omega
  rw [same, pushed] at scriptLength
  omega

/-- The 1952 bytes `MatchPayToPubkey` reads from the script below: a 1951-byte
key prefix and the final `OP_CHECKSIG`. -/
def truncatedKey : valtype := List.replicate 1951 0 ++ [OP_CHECKSIG]

/-- A script of `CPubKey::SIZE + 3` bytes: `OP_PUSHDATA2`, the size of a key,
and 1951 bytes of key before `OP_CHECKSIG`. -/
def truncatedPayToPubKey : CScript := OP_PUSHDATA2 :: leBytes 2 DILITHIUM_PUBLICKEY_SIZE ++ truncatedKey

set_option maxRecDepth 20000 in
theorem solver_truncatedPayToPubKey :
    solver truncatedPayToPubKey = (.pubkey, [truncatedKey]) ∧
      truncatedPayToPubKey ≠ payToPubKeyScript truncatedKey := by
  have solved : solver truncatedPayToPubKey = (.pubkey, [truncatedKey]) := by decide
  exact ⟨solved, solver_dilithium_templates.2.2 _ _ solved⟩

end Qbitcoin
