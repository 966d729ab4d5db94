import Qbitcoin.Script.SignatureEncoding

/-!
# `FindAndDelete` against its reference

`FindAndDelete(script, b)` walks the script with `GetOp`, and at each position
it reaches removes the copies of `b` that start there, one after another.  The
reference cuts the script into the pieces that walk meets (`scriptPieces`): an
occurrence of the pattern at a boundary, an instruction `GetOp` reads, or the
rest after a position where `GetOp` fails.  The pieces put back together are
the script; `FindAndDelete` counts the occurrences and keeps the other pieces.
-/

namespace Qbitcoin

/-- A piece of a script as `FindAndDelete` walks it. -/
inductive ScriptPiece where
  | occurrence
  | instruction (bytes : List UInt8)
  | unreadable (bytes : List UInt8)
  deriving DecidableEq, Repr

namespace ScriptPiece

/-- The bytes of a piece; an occurrence is a copy of the pattern. -/
def bytes (pattern : valtype) : ScriptPiece → List UInt8
  | occurrence => pattern
  | instruction bytes => bytes
  | unreadable bytes => bytes

def isOccurrence : ScriptPiece → Bool
  | occurrence => true
  | _ => false

end ScriptPiece

/-- The pieces of `script`: at a boundary, an occurrence of the pattern if the
script goes on with it, else the instruction `GetOp` reads there, or the
unreadable rest. -/
def scriptPieces (pattern : valtype) (script : List UInt8) : List ScriptPiece :=
  if matched : pattern ≠ [] ∧ pattern <+: script then
    .occurrence :: scriptPieces pattern (script.drop pattern.length)
  else
    match reading : getScriptOp script with
    | none => if script = [] then [] else [.unreadable script]
    | some (_, _, rest) => .instruction (script.take (script.length - rest.length)) :: scriptPieces pattern rest
termination_by script.length
decreasing_by
  · have long := matched.2.length_le
    have : 0 < pattern.length := List.length_pos_iff.mpr matched.1
    simp only [List.length_drop]
    omega
  · exact getScriptOp_rest_lt reading

/-- The removed count and the kept bytes of the pieces. -/
def piecesRemoved (pattern : valtype) (pieces : List ScriptPiece) : Nat × List UInt8 :=
  (pieces.countP ScriptPiece.isOccurrence, (pieces.filter fun piece => !piece.isOccurrence).flatMap (·.bytes pattern))

theorem isPrefix_iff_take {pattern pc : List UInt8} :
    pattern <+: pc ↔ pattern.length ≤ pc.length ∧ pc.take pattern.length = pattern := by
  rw [List.prefix_iff_eq_take]
  constructor
  · intro taken
    refine ⟨?_, taken.symm⟩
    rw [taken]
    exact List.length_take_le' _ _
  · exact fun ⟨_, taken⟩ => taken.symm

theorem readPushSize_suffix {opcode : opcodetype} {rest after : List UInt8} {nSize : Nat}
    (read : readPushSize opcode rest = some (nSize, after)) : after <:+ rest := by
  unfold readPushSize at read
  split_ifs at read
  · cases read
    exact List.suffix_refl _
  · split at read
    · cases read
    · cases read
      exact List.suffix_cons _ _
  · cases read
    exact List.drop_suffix _ _
  · cases read
    exact List.drop_suffix _ _

/-- What `GetOp` leaves is the end of the script. -/
theorem getScriptOp_suffix {script rest : List UInt8} {opcode : opcodetype} {data : valtype}
    (read : getScriptOp script = some (opcode, data, rest)) : rest <:+ script := by
  cases script with
  | nil => simp [getScriptOp] at read
  | cons first tail =>
    simp only [getScriptOp] at read
    split_ifs at read
    · split at read
      · cases read
      · rename_i nSize afterSize sized
        split_ifs at read
        cases read
        exact ((List.drop_suffix _ _).trans (readPushSize_suffix sized)).trans (List.suffix_cons _ _)
    · cases read
      exact List.suffix_cons _ _

theorem take_append_of_suffix {rest script : List UInt8} (suffix : rest <:+ script) :
    script.take (script.length - rest.length) ++ rest = script := by
  obtain ⟨front, rfl⟩ := suffix
  simp

/-- The pieces put back together are the script. -/
theorem flatMap_scriptPieces (pattern : valtype) (script : List UInt8) :
    (scriptPieces pattern script).flatMap (·.bytes pattern) = script := by
  fun_induction scriptPieces pattern script with
  | case1 script matched inductionHypothesis =>
    rw [List.flatMap_cons, inductionHypothesis, ScriptPiece.bytes]
    exact (List.prefix_iff_eq_append.mp matched.2)
  | case2 => rfl
  | case3 script _ _ _ => simp [ScriptPiece.bytes]
  | case4 script _ _ _ rest reading inductionHypothesis =>
    rw [List.flatMap_cons, inductionHypothesis, ScriptPiece.bytes]
    exact take_append_of_suffix (getScriptOp_suffix reading)

/-- Where no occurrence starts, the next piece is what `GetOp` reads. -/
theorem scriptPieces_of_not_match {pattern : valtype} {script : List UInt8}
    (unmatched : ¬(pattern ≠ [] ∧ pattern <+: script)) :
    scriptPieces pattern script =
      match getScriptOp script with
      | none => if script = [] then [] else [.unreadable script]
      | some (_, _, rest) => .instruction (script.take (script.length - rest.length)) :: scriptPieces pattern rest := by
  rw [scriptPieces, dif_neg unmatched]
  split
  next reading => rw [reading]
  next _ _ rest reading => rw [reading]

/-- The inner loop of `FindAndDelete` removes the occurrences that follow one
another from where it starts, and stops where none starts. -/
theorem scriptPieces_skipMatches (pattern : valtype) (pc : List UInt8) :
    scriptPieces pattern pc =
        List.replicate (skipMatches pattern pc).1 .occurrence ++ scriptPieces pattern (skipMatches pattern pc).2 ∧
      ¬(pattern ≠ [] ∧ pattern <+: (skipMatches pattern pc).2) := by
  fun_induction skipMatches pattern pc with
  | case1 pc matched found rest skipped inductionHypothesis =>
    have prefixed : pattern ≠ [] ∧ pattern <+: pc := ⟨matched.1, isPrefix_iff_take.mpr matched.2⟩
    rw [skipped] at inductionHypothesis
    refine ⟨?_, inductionHypothesis.2⟩
    rw [scriptPieces, dif_pos prefixed, inductionHypothesis.1]
    rfl
  | case2 pc unmatched =>
    refine ⟨rfl, fun matched => unmatched ⟨matched.1, isPrefix_iff_take.mp matched.2⟩⟩

@[simp] theorem piecesRemoved_nil (pattern : valtype) : piecesRemoved pattern [] = (0, []) := rfl

theorem piecesRemoved_occurrences (pattern : valtype) (found : Nat) (pieces : List ScriptPiece) :
    piecesRemoved pattern (List.replicate found .occurrence ++ pieces) =
      (found + (piecesRemoved pattern pieces).1, (piecesRemoved pattern pieces).2) := by
  simp [piecesRemoved, List.countP_replicate, ScriptPiece.isOccurrence]

theorem piecesRemoved_instruction (pattern : valtype) (bytes : List UInt8) (pieces : List ScriptPiece) :
    piecesRemoved pattern (.instruction bytes :: pieces) =
      ((piecesRemoved pattern pieces).1, bytes ++ (piecesRemoved pattern pieces).2) := by
  simp [piecesRemoved, ScriptPiece.isOccurrence, ScriptPiece.bytes]

/-- The loop of `FindAndDelete` counts the occurrences among the pieces and
keeps the other pieces. -/
theorem findAndDeleteLoop_eq (pattern : valtype) (pc : List UInt8) :
    findAndDeleteLoop pattern pc = piecesRemoved pattern (scriptPieces pattern pc) := by
  induction pc using Nat.strongRecMeasure List.length with
  | ind pc inductionHypothesis =>
    rw [findAndDeleteLoop]
    split
    rename_i found afterMatches skipping
    obtain ⟨skippedPieces, unmatched⟩ := scriptPieces_skipMatches pattern pc
    rw [skipping] at skippedPieces unmatched
    rw [skippedPieces, piecesRemoved_occurrences, scriptPieces_of_not_match unmatched]
    split
    · rename_i reading
      rw [reading]
      by_cases empty : afterMatches = []
      · simp [empty]
      · simp [empty, piecesRemoved, ScriptPiece.isOccurrence, ScriptPiece.bytes]
    · rename_i rest reading
      rw [reading, piecesRemoved_instruction]
      have shorter : rest.length < pc.length :=
        lt_of_lt_of_le (getScriptOp_rest_lt reading) (skipMatches_rest_le_of_eq skipping)
      rw [← inductionHypothesis rest shorter]

end Qbitcoin
