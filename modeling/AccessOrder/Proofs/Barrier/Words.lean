/- # What the words of a barrier allow

Whether a round may be opened after a word, and whether a worker may join a round whose word it has
read, told by the content of the word.

* `joined_eq_ok_some_iff`, `joined_eq_ok_none_iff` : who may join, and what the word is then;
* `exists_joined` : a word that has room counts one more;
* `nextRound_eq_ok_iff`, `nextRound_of_idle`, `nextRound_of_open` : when a round may be opened.
-/
import AccessOrder.Barrier.State
import Mathlib.Tactic.Common
namespace AccessOrder.Barrier.State

variable {raw next : UInt64} {w : Word} {round : UInt32} {participants : Nat}

/-- The phase of a round that so many have joined. -/
def phaseAt (participants joined : Nat) : Phase :=
  if joined = participants then .draining else .entering

/-- A round that has been joined is not idle. -/
theorem phaseAt_ne_idle (participants joined : Nat) : phaseAt participants joined ≠ .idle := by
  unfold phaseAt
  split <;> rintro ⟨⟩

/-- A round is entered until all have joined. -/
theorem phaseAt_eq_entering_iff {joined : Nat} :
    phaseAt participants joined = .entering ↔ joined ≠ participants := by
  unfold phaseAt
  split <;> simp_all

/-- A round drains once all have joined. -/
theorem phaseAt_eq_draining_iff {joined : Nat} :
    phaseAt participants joined = .draining ↔ joined = participants := by
  unfold phaseAt
  split <;> simp_all

/-- What becomes of a word whose content is known when someone joins. -/
theorem joined_eq (read : Word.unpack raw = .ok w) (round : UInt32) (participants : Nat) :
    joined raw round participants =
      if w.round = round ∧ w.phase = .entering then
        (Word.mk round (phaseAt participants (w.joined + 1).toNat) (w.joined + 1)).pack.map some
      else .ok none := by
  unfold joined
  rw [read]
  rfl

/-- Someone may join exactly the round of a word that is being entered, and is counted. -/
theorem joined_eq_ok_some_iff : joined raw round participants = .ok (some next) ↔
    ∃ count, Word.unpack raw = .ok ⟨round, .entering, count⟩ ∧
      (Word.mk round (phaseAt participants (count + 1).toNat) (count + 1)).pack = .ok next := by
  constructor
  · intro accepted
    cases read : Word.unpack raw with
    | error f =>
        unfold joined at accepted
        rw [read] at accepted
        cases accepted
    | ok w =>
        rw [joined_eq read] at accepted
        split at accepted
        · next entering =>
          obtain ⟨r, phase, count⟩ := w
          obtain ⟨rfl, rfl⟩ := entering
          refine ⟨count, rfl, ?_⟩
          generalize (Word.mk r _ (count + 1)).pack = packed at accepted ⊢
          cases packed <;> cases accepted
          rfl
        · cases accepted
  · rintro ⟨count, read, packed⟩
    rw [joined_eq read, if_pos ⟨rfl, rfl⟩]
    show Except.map some (Word.mk round (phaseAt participants (count + 1).toNat) _).pack = _
    rw [packed]
    rfl

/-- Nobody may join a round that is not the one of the word, or is not being entered. -/
theorem joined_eq_ok_none_iff : joined raw round participants = .ok none ↔
    ∃ w, Word.unpack raw = .ok w ∧ ¬(w.round = round ∧ w.phase = .entering) := by
  constructor
  · intro refused
    cases read : Word.unpack raw with
    | error f =>
        unfold joined at refused
        rw [read] at refused
        cases refused
    | ok w =>
        refine ⟨w, rfl, fun entering => ?_⟩
        rw [joined_eq read, if_pos entering] at refused
        generalize (Word.mk round _ (w.joined + 1)).pack = packed at refused
        cases packed <;> cases refused
  · rintro ⟨w, read, unentered⟩
    rw [joined_eq read, if_neg unentered]

/-- A count that fits into a word is the next number. -/
theorem toNat_succ {count : UInt32} (room : count.toNat < Word.maxJoined) :
    (count + 1).toNat = count.toNat + 1 := by
  unfold Word.maxJoined at room
  rw [UInt32.toNat_add]
  exact Nat.mod_eq_of_lt (show count.toNat + 1 < 2 ^ 32 by omega)

/-- A round that has room may be joined. -/
theorem exists_joined {count : UInt32} (read : Word.unpack raw = .ok ⟨round, .entering, count⟩)
    (room : count.toNat < Word.maxJoined) (participants : Nat) :
    ∃ next, joined raw round participants = .ok (some next) ∧
      Word.unpack next = .ok ⟨round, phaseAt participants (count.toNat + 1), count + 1⟩ := by
  obtain ⟨next, packed⟩ : ∃ next,
      (Word.mk round (phaseAt participants (count + 1).toNat) (count + 1)).pack = .ok next := by
    unfold Word.pack
    rw [if_pos (show (count + 1).toNat ≤ Word.maxJoined by rw [toNat_succ room]; exact room)]
    exact ⟨_, rfl⟩
  refine ⟨next, joined_eq_ok_some_iff.2 ⟨count, read, packed⟩, ?_⟩
  rw [← toNat_succ room]
  exact Word.unpack_pack packed

/-- The round that may be opened is the one after that of an idle word. -/
theorem nextRound_eq_ok_iff : nextRound raw = .ok round ↔
    ∃ w, Word.unpack raw = .ok w ∧ w.phase = .idle ∧ round = w.round + 1 := by
  unfold nextRound
  cases read : Word.unpack raw with
  | error f => simp [bind, Except.bind]
  | ok w =>
      simp only [bind, Except.bind, Except.ok.injEq, exists_eq_left']
      split
      · next idle => simp [idle, eq_comm]
      · next busy => simp [busy]

/-- The round that follows that of an idle word may be opened. -/
theorem nextRound_of_idle (read : Word.unpack raw = .ok w) (idle : w.phase = .idle) :
    nextRound raw = .ok (w.round + 1) :=
  nextRound_eq_ok_iff.2 ⟨w, read, idle, rfl⟩

/-- No round may be opened while another one is open. -/
theorem nextRound_of_open (read : Word.unpack raw = .ok w) (busy : w.phase ≠ .idle) :
    nextRound raw = .error (.roundOpen w.phase) := by
  unfold nextRound
  rw [read]
  exact if_neg busy

end AccessOrder.Barrier.State
