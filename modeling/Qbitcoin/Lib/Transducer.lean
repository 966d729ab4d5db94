import Mathlib.Data.List.Infix

/-!
# Stream receivers fed in pieces

A receiver that takes its input in reads of any size is a function from its
state and the bytes of one read to what it hands out and its next state, or
`none` when it gives up on the stream.  It is *chunked* on a set of good states
when feeding `a ++ b` is feeding `a` and then `b` from where `a` left it, the
outputs joined.  Then how the stream is cut into reads does not matter
(`Chunked.feedAll_eq`), and a receiver that accepts a whole stream accepted
every prefix of it, handing out a prefix of the output (`Chunked.append_eq_some`).
-/

namespace Qbitcoin

variable {σ α β : Type*}

/-- Feed the reads one after another, joining what each hands out; `none` once a
read is refused. -/
def feedAll (f : σ → List α → Option (List β × σ)) (state : σ) : List (List α) → Option (List β × σ)
  | [] => some ([], state)
  | read :: reads =>
    (f state read).bind fun (out, next) => (feedAll f next reads).map fun (more, last) => (out ++ more, last)

/-- `f` takes its input in pieces: from a good state, no input changes nothing,
every result is good again, and `a ++ b` is `a` and then `b`. -/
structure Chunked (f : σ → List α → Option (List β × σ)) (good : σ → Prop) : Prop where
  nil : ∀ {s}, good s → f s [] = some ([], s)
  stays : ∀ {s a out t}, good s → f s a = some (out, t) → good t
  append : ∀ {s} (a b : List α), good s →
    f s (a ++ b) = (f s a).bind fun (out, t) => (f t b).map fun (more, u) => (out ++ more, u)

namespace Chunked

variable {f : σ → List α → Option (List β × σ)} {good : σ → Prop}

/-- A stream accepted whole was accepted up to any cut, and the rest from there. -/
theorem append_eq_some (chunked : Chunked f good) {s : σ} (start : good s) {a b : List α} {out : List β}
    {u : σ} :
    f s (a ++ b) = some (out, u) ↔
      ∃ first t rest, f s a = some (first, t) ∧ f t b = some (rest, u) ∧ out = first ++ rest := by
  rw [chunked.append a b start]
  constructor
  · intro fed
    obtain ⟨⟨first, t⟩, firstPart, restPart⟩ := Option.bind_eq_some_iff.mp fed
    obtain ⟨⟨rest, u'⟩, restFed, joined⟩ := Option.map_eq_some_iff.mp restPart
    cases joined
    exact ⟨first, t, rest, firstPart, restFed, rfl⟩
  · rintro ⟨first, t, rest, firstPart, restFed, rfl⟩
    rw [firstPart, Option.bind_some]
    dsimp only
    rw [restFed, Option.map_some]

/-- A stream refused up to a cut is refused whole. -/
theorem append_eq_none (chunked : Chunked f good) {s : σ} (start : good s) {a : List α} (b : List α)
    (refused : f s a = none) : f s (a ++ b) = none := by
  rw [chunked.append a b start, refused, Option.bind_none]

/-- The reads of a stream, however it is cut, give what the whole stream gives
in one read.  The induction is on the reads; each is joined to the rest by the
append law, at the good state the reads before it left. -/
theorem feedAll_eq (chunked : Chunked f good) {s : σ} (start : good s) (reads : List (List α)) :
    feedAll f s reads = f s reads.flatten := by
  induction reads generalizing s with
  | nil => exact (chunked.nil start).symm
  | cons read reads inductionHypothesis =>
    rw [feedAll, List.flatten_cons, chunked.append read reads.flatten start]
    cases first : f s read with
    | none => rfl
    | some result =>
      obtain ⟨out, next⟩ := result
      rw [Option.bind_some, Option.bind_some]
      dsimp only
      rw [inductionHypothesis (chunked.stays start first)]

end Chunked

end Qbitcoin
