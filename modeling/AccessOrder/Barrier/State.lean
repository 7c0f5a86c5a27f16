/- # Barrier states

The barrier shared by a leader and its workers: a word that tells the round, and a flag that is
raised by a worker that has found more work.  The leader opens and closes rounds; a worker joins
the round that it has seen open, by replacing the word it has read unless the word has changed
meanwhile.  The last of the workers to join lets the round drain.

* `join_error` : a join that fails leaves the barrier as it was;
* `not_aborted_of_openRound` : opening a round takes the flag down.
-/
import AccessOrder.Barrier.Word
namespace AccessOrder.Barrier

/-- The barrier that a leader and its workers share. -/
structure State where
  word : UInt64
  aborted : Bool
  deriving DecidableEq

namespace State

/-- The packed word of a round in a phase that no worker has joined. -/
def fresh (round : UInt32) (phase : Phase) : UInt64 :=
  round.toUInt64 <<< 32 ||| phase.code <<< 30

/-- A barrier before its first round. -/
def new : State := ⟨fresh 0 .idle, false⟩

/-- The content of the word. -/
def load (b : State) : Except Fault Word := Word.unpack b.word

/-- The round to open after a word: the one that follows its round. -/
def nextRound (raw : UInt64) : Except Fault UInt32 := do
  let w ← Word.unpack raw
  if w.phase = .idle then .ok (w.round + 1) else .error (.roundOpen w.phase)

/-- Opens the round that follows the current one. -/
def openRound (b : State) : Except Fault UInt32 × State :=
  match nextRound b.word with
  | .error f => (.error f, b)
  | .ok round => (.ok round, ⟨fresh round .entering, false⟩)

/-- Closes a round. -/
def close (round : UInt32) (b : State) : State := { b with word := fresh round .idle }

/-- The word that replaces a word when one more of `participants` workers joins a round; `none` if
the round does not accept workers. -/
def joined (raw : UInt64) (round : UInt32) (participants : Nat) :
    Except Fault (Option UInt64) := do
  let w ← Word.unpack raw
  if w.round = round ∧ w.phase = .entering then
    let joined := w.joined + 1
    let phase := if joined.toNat = participants then Phase.draining else .entering
    (Word.mk round phase joined).pack.map some
  else .ok none

/-- Replaces the word if it still is the one expected, and tells whether it was. -/
def exchange (b : State) (expected next : UInt64) : Bool × State :=
  if b.word = expected then (true, { b with word := next }) else (false, b)

/-- Joins a round, and tells whether it accepted the worker. -/
def join (round : UInt32) (participants : Nat) (b : State) : Except Fault Bool × State :=
  match joined b.word round participants with
  | .error f => (.error f, b)
  | .ok none => (.ok false, b)
  | .ok (some next) =>
    let (swapped, b) := b.exchange b.word next
    (.ok swapped, b)

/-- Raises the flag. -/
def abort (b : State) : State := { b with aborted := true }

/-! ## What the operations leave -/

/-- The word of a fresh round is packed. -/
theorem fresh_eq_pack (round : UInt32) (phase : Phase) :
    (Word.mk round phase 0).pack = .ok (fresh round phase) := by
  simp [Word.pack, fresh]

/-- The word of a fresh round reads back as it. -/
@[simp] theorem unpack_fresh (round : UInt32) (phase : Phase) :
    Word.unpack (fresh round phase) = .ok ⟨round, phase, 0⟩ :=
  Word.unpack_pack (fresh_eq_pack round phase)

/-- A new barrier is idle, and the first round is still to come. -/
@[simp] theorem load_new : new.load = .ok ⟨0, .idle, 0⟩ := unpack_fresh 0 .idle

/-- A join that fails leaves the barrier as it was. -/
theorem join_error {b : State} {round : UInt32} {participants : Nat} {f : Fault}
    (failed : (b.join round participants).1 = .error f) :
    (b.join round participants).2 = b := by
  revert failed
  unfold join exchange
  split <;> simp

/-- A refused join leaves the barrier as it was. -/
theorem join_false {b : State} {round : UInt32} {participants : Nat}
    (refused : (b.join round participants).1 = .ok false) :
    (b.join round participants).2 = b := by
  revert refused
  unfold join exchange
  split <;> simp

/-- Opening a round takes the flag down. -/
theorem not_aborted_of_openRound {b : State} {round : UInt32} (opened : b.openRound.1 = .ok round) :
    b.openRound.2.aborted = false := by
  revert opened
  unfold openRound
  split <;> simp

end State

end AccessOrder.Barrier
