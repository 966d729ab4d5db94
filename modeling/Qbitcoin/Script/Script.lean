import Qbitcoin.Script.ScriptNum

/-!
# Scripts

A `CScript` is its serialized byte string and an opcode is one byte, as in
`script/script.h`.  This module holds the byte-level operations every other
part of the interpreter reads scripts through: the opcode reader
`GetScriptOp`, the push encoder behind `CScript::operator<<`, and the template
tests on raw scripts.

`getScriptOp` returns the opcode, the pushed data and the remaining bytes, or
`none` where the C++ returns `false`.  It always consumes at least one byte
(`getScriptOp_rest_lt`), which is the termination measure of every loop over a
script.
-/

namespace Qbitcoin

open ByteCodec

/-- A serialized script (`CScript`). -/
abbrev CScript := List UInt8

/-- An opcode (`opcodetype`): any byte may occur. -/
abbrev opcodetype := UInt8

def OP_0 : opcodetype := 0x00
def OP_PUSHDATA1 : opcodetype := 0x4c
def OP_PUSHDATA2 : opcodetype := 0x4d
def OP_PUSHDATA4 : opcodetype := 0x4e
def OP_1NEGATE : opcodetype := 0x4f
def OP_1 : opcodetype := 0x51
def OP_16 : opcodetype := 0x60
def OP_NOP : opcodetype := 0x61
def OP_IF : opcodetype := 0x63
def OP_NOTIF : opcodetype := 0x64
def OP_ELSE : opcodetype := 0x67
def OP_ENDIF : opcodetype := 0x68
def OP_VERIFY : opcodetype := 0x69
def OP_RETURN : opcodetype := 0x6a
def OP_DUP : opcodetype := 0x76
def OP_EQUAL : opcodetype := 0x87
def OP_EQUALVERIFY : opcodetype := 0x88
def OP_HASH160 : opcodetype := 0xa9
def OP_CODESEPARATOR : opcodetype := 0xab
def OP_CHECKSIG : opcodetype := 0xac
def OP_CHECKSIGVERIFY : opcodetype := 0xad
def OP_CHECKMULTISIG : opcodetype := 0xae
def OP_CHECKMULTISIGVERIFY : opcodetype := 0xaf
def OP_CHECKLOCKTIMEVERIFY : opcodetype := 0xb1
def OP_CHECKSEQUENCEVERIFY : opcodetype := 0xb2
def OP_CHECKSIGADD : opcodetype := 0xba
def OP_INVALIDOPCODE : opcodetype := 0xff

/-- `MAX_SCRIPT_ELEMENT_SIZE`, raised by this fork from 520 to hold Dilithium signatures. -/
def MAX_SCRIPT_ELEMENT_SIZE : Nat := 4096
/-- `MAX_OPS_PER_SCRIPT`. -/
def MAX_OPS_PER_SCRIPT : Nat := 201
/-- `MAX_SCRIPT_SIZE`. -/
def MAX_SCRIPT_SIZE : Nat := 460000
/-- `MAX_PUBKEYS_PER_MULTISIG`. -/
def MAX_PUBKEYS_PER_MULTISIG : Int := 20
/-- `MAX_STACK_SIZE`. -/
def MAX_STACK_SIZE : Nat := 1000
/-- `CScript::IsUnspendable`. -/
def CScript.isUnspendable (script : CScript) : Bool :=
  script.head? == some OP_RETURN || decide (script.length > MAX_SCRIPT_SIZE)

/-- `LOCKTIME_THRESHOLD`: lock times below it are block heights. -/
def LOCKTIME_THRESHOLD : Nat := 500000000

/-- The width of the size field that follows a push opcode, and the size it
encodes: the immediate-operand branch of `GetScriptOp`. -/
def readPushSize (opcode : opcodetype) (rest : List UInt8) : Option (Nat × List UInt8) :=
  if opcode < OP_PUSHDATA1 then some (opcode.toNat, rest)
  else if opcode = OP_PUSHDATA1 then
    match rest with
    | [] => none
    | size :: after => some (size.toNat, after)
  else if opcode = OP_PUSHDATA2 then
    if rest.length < 2 then none else some (readLE (rest.take 2), rest.drop 2)
  else
    if rest.length < 4 then none else some (readLE (rest.take 4), rest.drop 4)

/-- `GetScriptOp`: the next opcode, its pushed data and the bytes after it. -/
def getScriptOp : List UInt8 → Option (opcodetype × valtype × List UInt8)
  | [] => none
  | opcode :: rest =>
      if opcode ≤ OP_PUSHDATA4 then
        match readPushSize opcode rest with
        | none => none
        | some (nSize, afterSize) =>
            if afterSize.length < nSize then none
            else some (opcode, afterSize.take nSize, afterSize.drop nSize)
      else some (opcode, [], rest)

theorem readPushSize_rest_le {opcode : opcodetype} {rest after : List UInt8} {nSize : Nat}
    (read : readPushSize opcode rest = some (nSize, after)) : after.length ≤ rest.length := by
  unfold readPushSize at read
  split_ifs at read
  · cases read
    exact le_refl _
  · split at read
    · cases read
    · cases read
      simp
  · cases read
    simp
  · cases read
    simp

/-- Every successful read consumes at least the opcode byte. -/
theorem getScriptOp_rest_lt {script rest : List UInt8} {opcode : opcodetype} {data : valtype}
    (read : getScriptOp script = some (opcode, data, rest)) : rest.length < script.length := by
  cases script with
  | nil => simp [getScriptOp] at read
  | cons first tail =>
      simp only [getScriptOp] at read
      split_ifs at read
      · split at read
        · cases read
        · rename_i nSize afterSize sized
          split_ifs at read
          cases read
          have shorter := readPushSize_rest_le sized
          simp only [List.length_drop, List.length_cons]
          omega
      · cases read
        simp

/-- An opcode above `OP_PUSHDATA4` is read alone, with no data. -/
theorem getScriptOp_of_not_push {opcode : opcodetype} (rest : List UInt8)
    (notPush : OP_PUSHDATA4 < opcode) : getScriptOp (opcode :: rest) = some (opcode, [], rest) := by
  simp [getScriptOp, UInt8.not_le.mpr notPush]

/-- `CScript::AppendDataSize` for a size below `2 ^ 32`: the push opcode and size field. -/
def appendDataSize (size : Nat) : List UInt8 :=
  if size < OP_PUSHDATA1.toNat then [UInt8.ofNat size]
  else if size ≤ 0xff then [OP_PUSHDATA1, UInt8.ofNat size]
  else if size ≤ 0xffff then OP_PUSHDATA2 :: leBytes 2 size
  else OP_PUSHDATA4 :: leBytes 4 size

/-- `CScript() << data`: a push of a byte vector.  The C++ passes the size as
a `uint32_t`, so only its low 32 bits select the encoding. -/
def pushData (data : valtype) : CScript :=
  appendDataSize (data.length % 2 ^ 32) ++ data

theorem length_le_pushData (data : valtype) : data.length ≤ (pushData data).length := by
  simp [pushData]

/-- Data shorter than `OP_PUSHDATA1` is pushed behind its length byte. -/
theorem pushData_of_short {data : valtype} (short : data.length < OP_PUSHDATA1.toNat) :
    pushData data = UInt8.ofNat data.length :: data := by
  have fits : data.length % 2 ^ 32 = data.length := Nat.mod_eq_of_lt (by
    have pushdata1 : OP_PUSHDATA1.toNat = 76 := rfl
    omega)
  rw [pushData, fits, appendDataSize, if_pos short]
  rfl

/-- Data of 256 to 65535 bytes is pushed by `OP_PUSHDATA2` and a two-byte size. -/
theorem pushData_of_pushdata2 {data : valtype} (large : 0xff < data.length)
    (small : data.length ≤ 0xffff) :
    pushData data = OP_PUSHDATA2 :: leBytes 2 data.length ++ data := by
  have fits : data.length % 2 ^ 32 = data.length := Nat.mod_eq_of_lt (by omega)
  have notShort : ¬ data.length < OP_PUSHDATA1.toNat := by
    have pushdata1 : OP_PUSHDATA1.toNat = 76 := rfl
    omega
  rw [pushData, fits, appendDataSize, if_neg notShort, if_neg (Nat.not_le.mpr large), if_pos small]

/-- Once the size field reads as the data's length, the reader returns the data. -/
theorem getScriptOp_of_readPushSize {opcode : opcodetype} {afterOpcode data rest : List UInt8}
    (isPush : opcode ≤ OP_PUSHDATA4)
    (sized : readPushSize opcode afterOpcode = some (data.length, data ++ rest)) :
    getScriptOp (opcode :: afterOpcode) = some (opcode, data, rest) := by
  simp [getScriptOp, isPush, sized]

/-- The opcode `AppendDataSize` starts a push of `size` bytes with. -/
def pushOpcode (size : Nat) : opcodetype := (appendDataSize size).headD OP_0

/-- `GetScriptOp` reads back exactly the data that `CScript() << data` pushed,
for every size the `uint32_t` size field can carry. -/
theorem getScriptOp_pushData (data rest : valtype) (fits : data.length < 2 ^ 32) :
    getScriptOp (pushData data ++ rest) = some (pushOpcode data.length, data, rest) := by
  have sizeMod : data.length % 2 ^ 32 = data.length := Nat.mod_eq_of_lt fits
  unfold pushData pushOpcode appendDataSize
  rw [sizeMod]
  by_cases direct : data.length < OP_PUSHDATA1.toNat
  · have opcodeValue : (UInt8.ofNat data.length).toNat = data.length :=
      UInt8.toNat_ofNat_of_lt' (by simp [OP_PUSHDATA1] at direct; simp [UInt8.size]; omega)
    have below : UInt8.ofNat data.length < OP_PUSHDATA1 := by
      rw [UInt8.lt_iff_toNat_lt, opcodeValue]
      exact direct
    have isPush : UInt8.ofNat data.length ≤ OP_PUSHDATA4 := by
      rw [UInt8.le_iff_toNat_le, opcodeValue]
      simp [OP_PUSHDATA1, OP_PUSHDATA4] at direct ⊢
      omega
    rw [if_pos direct, List.singleton_append, List.cons_append]
    refine getScriptOp_of_readPushSize isPush ?_
    simp [readPushSize, below, opcodeValue]
  · by_cases oneByte : data.length ≤ 0xff
    · have sizeValue : (UInt8.ofNat data.length).toNat = data.length :=
        UInt8.toNat_ofNat_of_lt' (by simp [UInt8.size]; omega)
      rw [if_neg direct, if_pos oneByte, List.cons_append, List.cons_append]
      refine getScriptOp_of_readPushSize (by decide) ?_
      simp [readPushSize, OP_PUSHDATA1, sizeValue]
    · by_cases twoBytes : data.length ≤ 0xffff
      · rw [if_neg direct, if_neg oneByte, if_pos twoBytes, List.cons_append]
        refine getScriptOp_of_readPushSize (by decide) ?_
        have value : readLE (leBytes 2 data.length) = data.length :=
          readLE_leBytes 2 data.length (by omega)
        have lengthTwo := leBytes_length 2 data.length
        have longEnough : ¬ ((leBytes 2 data.length ++ data).append rest).length < 2 := by
          rw [List.append_eq, List.length_append, List.length_append, lengthTwo]
          omega
        unfold readPushSize
        rw [if_neg (by decide), if_neg (by decide), if_pos rfl, if_neg longEnough, List.append_eq,
          List.append_assoc, List.take_left' lengthTwo, List.drop_left' lengthTwo, value]
      · rw [if_neg direct, if_neg oneByte, if_neg twoBytes, List.cons_append]
        refine getScriptOp_of_readPushSize (by decide) ?_
        have value : readLE (leBytes 4 data.length) = data.length :=
          readLE_leBytes 4 data.length (by omega)
        simp [readPushSize, OP_PUSHDATA1, OP_PUSHDATA2, OP_PUSHDATA4, value]

theorem pushOpcode_le (size : Nat) : pushOpcode size ≤ OP_PUSHDATA4 := by
  unfold pushOpcode appendDataSize
  split_ifs with direct
  · have opcodeValue : (UInt8.ofNat size).toNat = size :=
      UInt8.toNat_ofNat_of_lt' (by simp [OP_PUSHDATA1] at direct; simp [UInt8.size]; omega)
    simp only [List.headD_cons]
    rw [UInt8.le_iff_toNat_le, opcodeValue]
    simp [OP_PUSHDATA1, OP_PUSHDATA4] at direct ⊢
    omega
  all_goals simp only [List.headD_cons]; decide

/-- `CScript() << OP_DUP << OP_HASH160 << hash << OP_EQUALVERIFY << OP_CHECKSIG`:
the script of a key-hash destination, and the script a P2WPKH program runs. -/
def payToPubKeyHashScript (hash : valtype) : CScript :=
  [OP_DUP, OP_HASH160] ++ pushData hash ++ [OP_EQUALVERIFY, OP_CHECKSIG]

/-- `CScript() << pubkey << OP_CHECKSIG`: the script of a bare public key. -/
def payToPubKeyScript (pubkey : valtype) : CScript :=
  pushData pubkey ++ [OP_CHECKSIG]

/-- `CScript::EncodeOP_N` for `0 ..= 16`. -/
def encodeOpN (n : Nat) : opcodetype :=
  if n = 0 then OP_0 else UInt8.ofNat (OP_1.toNat + n - 1)

/-- `CScript::DecodeOP_N`. -/
def decodeOpN (opcode : opcodetype) : Nat :=
  if opcode = OP_0 then 0 else opcode.toNat - (OP_1.toNat - 1)

/-- `CScript::push_int64`, the `CScript() << int64_t` operator. -/
def pushInt64 (n : Int) : CScript :=
  if n = -1 ∨ (1 ≤ n ∧ n ≤ 16) then [UInt8.ofNat ((n + (OP_1.toNat - 1 : Nat)).toNat)]
  else if n = 0 then [OP_0]
  else pushData (CScriptNum.serialize n)

/-- `CScript::IsPushOnly`: every opcode reads and is at most `OP_16`. -/
def isPushOnly (script : CScript) : Bool :=
  match reading : getScriptOp script with
  | none => script.isEmpty
  | some (opcode, _, rest) => decide (opcode ≤ OP_16) && isPushOnly rest
termination_by script.length
decreasing_by exact getScriptOp_rest_lt reading

/-- `CScript::IsPayToScriptHash`: `OP_HASH160 <20 bytes> OP_EQUAL`. -/
def isPayToScriptHash (script : CScript) : Bool :=
  script.length == 23 && script[0]? == some OP_HASH160 && script[1]? == some 0x14 &&
    script[22]? == some OP_EQUAL

/-- `CScript::IsWitnessProgram`: a version opcode followed by one direct push of
2 to 40 bytes, returning the version and the program. -/
def isWitnessProgram (script : CScript) : Option (Nat × valtype) :=
  if script.length < 4 ∨ script.length > 42 then none
  else
    match script with
    | version :: size :: program =>
        if version ≠ OP_0 ∧ (version < OP_1 ∨ version > OP_16) then none
        else if size.toNat + 2 = script.length then some (decodeOpN version, program)
        else none
    | _ => none

/-- `CScript() << OP_0 << program`: the output script of a version 0 witness program. -/
def payToWitnessScript (program : valtype) : CScript := OP_0 :: pushData program

theorem isWitnessProgram_payToWitnessScript {program : valtype}
    (sized : 2 ≤ program.length ∧ program.length ≤ 40) :
    isWitnessProgram (payToWitnessScript program) = some (0, program) := by
  have short : program.length < OP_PUSHDATA1.toNat := by
    have pushdata1 : OP_PUSHDATA1.toNat = 76 := rfl
    omega
  have sizeByte : (UInt8.ofNat program.length).toNat = program.length := by
    simp only [UInt8.toNat_ofNat']
    omega
  simp only [isWitnessProgram, payToWitnessScript, pushData_of_short short, List.length_cons,
    sizeByte]
  rw [if_neg (by omega), if_neg (by decide)]
  simp [decodeOpN]

/-- The static `CScript::IsPayToAnchor(version, program)`. -/
def isPayToAnchor (version : Nat) (program : valtype) : Bool :=
  version == 1 && program == [0x4e, 0x73]

/-- `IsOpSuccess`: the opcodes that make a Tapscript succeed unconditionally. -/
def isOpSuccess (opcode : opcodetype) : Bool :=
  let n := opcode.toNat
  n == 80 || n == 98 || (126 ≤ n && n ≤ 129) || (131 ≤ n && n ≤ 134) ||
    (137 ≤ n && n ≤ 138) || (141 ≤ n && n ≤ 142) || (149 ≤ n && n ≤ 153) ||
    (187 ≤ n && n ≤ 254)

/-- `CheckMinimalPush`: a push opcode uses the shortest encoding of its data. -/
def checkMinimalPush (data : valtype) (opcode : opcodetype) : Bool :=
  if data.length = 0 then opcode == OP_0
  else if data.length = 1 ∧ 1 ≤ data.head! ∧ data.head! ≤ 16 then false
  else if data.length = 1 ∧ data.head! = 0x81 then false
  else if data.length ≤ 75 then opcode.toNat == data.length
  else if data.length ≤ 255 then opcode == OP_PUSHDATA1
  else if data.length ≤ 65535 then opcode == OP_PUSHDATA2
  else true

/-- `CScript() << data` is the minimal push of its data, except for the one-byte
values that `OP_1NEGATE` and `OP_1` to `OP_16` push. -/
theorem checkMinimalPush_pushOpcode (data : valtype) (notSingle : data.length ≠ 1) :
    checkMinimalPush data (pushOpcode data.length) = true := by
  unfold checkMinimalPush pushOpcode appendDataSize
  by_cases empty : data.length = 0
  · simp [empty, OP_PUSHDATA1, OP_0]
  · have small : ¬ (data.length = 1 ∧ 1 ≤ data.head! ∧ data.head! ≤ 16) := fun h => notSingle h.1
    have negOne : ¬ (data.length = 1 ∧ data.head! = 0x81) := fun h => notSingle h.1
    rw [if_neg empty, if_neg small, if_neg negOne]
    simp only [OP_PUSHDATA1, OP_PUSHDATA2, OP_PUSHDATA4]
    split_ifs <;> simp_all <;> omega

/-- A one-byte push of a value other than those `OP_1NEGATE` and `OP_1` to
`OP_16` push is minimal. -/
theorem checkMinimalPush_pushOpcode_single {b : UInt8} (notSmall : b < 1 ∨ 16 < b) (notNegOne : b ≠ 0x81) :
    checkMinimalPush [b] (pushOpcode [b].length) = true := by
  have small : ¬ ([b].length = 1 ∧ 1 ≤ [b].head! ∧ [b].head! ≤ 16) := by
    simp only [List.length_singleton, List.head!_cons, true_and, not_and]
    intro low
    rcases notSmall with tooLow | high
    · exact absurd low (UInt8.not_le.mpr tooLow)
    · exact UInt8.not_le.mpr high
  have negOne : ¬ ([b].length = 1 ∧ [b].head! = 0x81) := by simpa using notNegOne
  unfold checkMinimalPush
  rw [if_neg (by simp), if_neg small, if_neg negOne]
  simp only [List.length_singleton]
  decide

/-! ## Reading a script operation by operation -/

/-- A push whose size field or data runs past the end of the script. -/
def TruncatedPush (script : List UInt8) : Prop :=
  ∃ opcode rest, script = opcode :: rest ∧ opcode ≤ OP_PUSHDATA4 ∧
    ∀ nSize afterSize, readPushSize opcode rest = some (nSize, afterSize) → afterSize.length < nSize

/-- `GetScriptOp` fails only at the end of the script or on a truncated push. -/
theorem getScriptOp_eq_none_iff {script : List UInt8} :
    getScriptOp script = none ↔ script = [] ∨ TruncatedPush script := by
  cases script with
  | nil => simp [getScriptOp]
  | cons opcode rest =>
      simp only [getScriptOp, reduceCtorEq, false_or, TruncatedPush, List.cons.injEq]
      constructor
      · intro failed
        split_ifs at failed with isPush
        refine ⟨opcode, rest, ⟨rfl, rfl⟩, isPush, fun nSize afterSize read => ?_⟩
        rw [read] at failed
        simp only at failed
        split_ifs at failed with short
        exact short
      · rintro ⟨_, _, ⟨rfl, rfl⟩, isPush, truncated⟩
        rw [if_pos isPush]
        cases read : readPushSize opcode rest with
        | none => rfl
        | some sized =>
            obtain ⟨nSize, afterSize⟩ := sized
            simp [truncated nSize afterSize read]

/-- The loop `while (pc < end()) { if (!GetOp(pc, opcode, data)) break; ... }`
of `HasValidOps`, `GetSigOpCount` and the other walks over a script: the
operations read from the start, and the bytes at which it stopped. -/
def readOps (script : List UInt8) : List (opcodetype × valtype) × List UInt8 :=
  match reading : getScriptOp script with
  | none => ([], script)
  | some (opcode, data, rest) =>
      let (ops, stop) := readOps rest
      ((opcode, data) :: ops, stop)
termination_by script.length
decreasing_by exact getScriptOp_rest_lt reading

/-- The walk past an operation that reads: that operation, then the walk from
the bytes after it. -/
theorem readOps_of_getScriptOp {script rest : List UInt8} {opcode : opcodetype} {data : valtype}
    (reading : getScriptOp script = some (opcode, data, rest)) :
    readOps script = ((opcode, data) :: (readOps rest).1, (readOps rest).2) := by
  rw [readOps]
  split
  · rename_i failed
    rw [reading] at failed
    cases failed
  · rename_i opcode' data' rest' reading'
    rw [reading] at reading'
    cases reading'
    rfl

/-- The walk reads a push of `data` as that push, then goes on after it. -/
theorem readOps_pushData (data rest : valtype) (fits : data.length < 2 ^ 32) :
    readOps (pushData data ++ rest) = ((pushOpcode data.length, data) :: (readOps rest).1, (readOps rest).2) :=
  readOps_of_getScriptOp (getScriptOp_pushData data rest fits)

/-- The walk stops at the end of the script or at a truncated push. -/
theorem readOps_stop (script : List UInt8) :
    (readOps script).2 = [] ∨ TruncatedPush (readOps script).2 := by
  cases reading : getScriptOp script with
  | none =>
      have stopped : readOps script = ([], script) := by
        rw [readOps]
        split
        · rfl
        · rename_i read
          rw [reading] at read
          cases read
      rw [stopped]
      exact getScriptOp_eq_none_iff.mp reading
  | some operation =>
      obtain ⟨opcode, data, rest⟩ := operation
      rw [readOps_of_getScriptOp reading]
      exact readOps_stop rest
termination_by script.length
decreasing_by exact getScriptOp_rest_lt reading

/-- `CScriptWitness`: the witness stack of an input, bottom element first. -/
structure CScriptWitness where
  stack : List valtype
  deriving DecidableEq, Repr

/-- `CScriptWitness::IsNull`. -/
def CScriptWitness.isNull (witness : CScriptWitness) : Bool := witness.stack.isEmpty

end Qbitcoin
