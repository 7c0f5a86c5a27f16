/- # Barrier words and their numbers

Words and numbers of 64 bits match.  A word has a number exactly if its count fits into 30 bits, and
a number has a word exactly if the two bits of the phase are not both set; a word is read back from
its number, and a number is that of the word read from it.  Therefore to compare numbers is to
compare rounds, phases and counts.  Whoever joins a round adds one to the count, and one to the
phase if nobody is missing any more, and nothing is carried from one field into another.

* `pack_eq_ok_iff`, `unpack_eq_ok_iff`, `exists_unpack_iff` : what is packed and what is unpacked;
* `bijOn_number` : the words that can be packed and the numbers that can be unpacked;
* `exchange_iff` : an exchange compares all three fields;
* `counts_of_joined` : what a join does to the number;
* `codec_exact` : all of this together.
-/
import AccessOrder.Proofs.Barrier.Words
import Mathlib
namespace AccessOrder.Barrier

variable {raw next : UInt64} {w : Word}

namespace Word

/-! ## Packing -/

/-- The three fields of a word side by side. -/
def number (w : Word) : UInt64 :=
  w.round.toUInt64 <<< 32 ||| w.phase.code <<< 30 ||| w.joined.toUInt64

/-- A word has a number exactly if its count is not too large, and it is the one that its fields
make up. -/
theorem pack_eq_ok_iff : w.pack = .ok raw ↔ w.joined.toNat ≤ maxJoined ∧ raw = w.number := by
  unfold pack
  split
  · next small =>
    constructor
    · intro packed
      cases packed
      exact ⟨small, rfl⟩
    · rintro ⟨-, rfl⟩
      rfl
  · next large => exact iff_of_false nofun fun fits => large fits.1

/-- The words that have a number. -/
theorem exists_pack_iff : (∃ raw, w.pack = .ok raw) ↔ w.joined.toNat ≤ maxJoined := by
  simp only [pack_eq_ok_iff, exists_and_left, exists_eq, and_true]

/-- The value of the number of a word. -/
theorem toNat_number (small : w.joined.toNat ≤ maxJoined) :
    w.number.toNat = w.round.toNat * 2 ^ 32 + w.phase.code.toNat * 2 ^ 30 + w.joined.toNat :=
  toNat_of_pack (pack_eq_ok_iff.2 ⟨small, rfl⟩)

/-! ## Unpacking -/

/-- The phase of a number is the one that has this number. -/
theorem ofCode?_eq_some_iff {code : UInt64} {p : Phase} :
    Phase.ofCode? code = some p ↔ code = p.code := by
  constructor
  · intro known
    unfold Phase.ofCode? at known
    split at known
    · cases known
      assumption
    · split at known
      · cases known
        assumption
      · split at known
        · cases known
          assumption
        · cases known
  · rintro rfl
    cases p <;> rfl

/-- A number of two bits is that of a phase unless both bits are set. -/
theorem exists_code_iff {code : UInt64} (small : code.toNat < 4) :
    (∃ p : Phase, code = p.code) ↔ code.toNat ≠ 3 := by
  constructor
  · rintro ⟨p, rfl⟩
    cases p <;> decide
  · intro known
    have cases : code.toNat = 0 ∨ code.toNat = 1 ∨ code.toNat = 2 := by omega
    rcases cases with zero | one | two
    · exact ⟨.idle, UInt64.toNat_inj.1 zero⟩
    · exact ⟨.entering, UInt64.toNat_inj.1 one⟩
    · exact ⟨.draining, UInt64.toNat_inj.1 two⟩

/-- The two bits of the phase. -/
theorem toNat_phase (raw : UInt64) : (raw / 0x40000000 % 4).toNat = raw.toNat / 2 ^ 30 % 4 := by
  rw [UInt64.toNat_mod, UInt64.toNat_div]
  rfl

/-- What is read from a number are its fields. -/
theorem fields_of_unpack (read : unpack raw = .ok w) :
    raw.toNat / 2 ^ 32 = w.round.toNat ∧ raw.toNat / 2 ^ 30 % 4 = w.phase.code.toNat ∧
      raw.toNat % 2 ^ 30 = w.joined.toNat := by
  have bound := raw.toNat_lt
  unfold unpack at read
  split at read
  · cases read
  · next phase known =>
    cases read
    refine ⟨?_, ?_, ?_⟩
    · simp only [UInt64.toNat_toUInt32, UInt64.toNat_div, UInt64.reduceToNat]
      omega
    · rw [← ofCode?_eq_some_iff.1 known, toNat_phase]
    · simp only [UInt64.toNat_toUInt32, UInt64.toNat_mod, UInt64.reduceToNat]
      omega

/-- A word is read from a number exactly if it has that number. -/
theorem unpack_eq_ok_iff : unpack raw = .ok w ↔ w.pack = .ok raw := by
  constructor
  · intro read
    obtain ⟨round, phase, joined⟩ := fields_of_unpack read
    have small : w.joined.toNat ≤ maxJoined := by
      unfold maxJoined
      omega
    refine pack_eq_ok_iff.2 ⟨small, UInt64.toNat_inj.1 ?_⟩
    rw [toNat_number small]
    omega
  · exact unpack_pack

/-- Both bits of the phase of a number are set. -/
def Phaseless (raw : UInt64) : Prop :=
  raw.toNat.testBit 30 = true ∧ raw.toNat.testBit 31 = true

/-- Both bits of the phase are set if they make up a three. -/
theorem phaseless_iff : Phaseless raw ↔ raw.toNat / 2 ^ 30 % 4 = 3 := by
  unfold Phaseless
  simp only [Nat.testBit_eq_decide_div_mod_eq, decide_eq_true_eq]
  omega

/-- The numbers that have a word. -/
theorem exists_unpack_iff : (∃ w, unpack raw = .ok w) ↔ ¬ Phaseless raw := by
  have small : (raw / 0x40000000 % 4).toNat < 4 := by
    rw [toNat_phase]
    omega
  rw [phaseless_iff, ← toNat_phase, ← Ne, ← exists_code_iff small]
  constructor
  · rintro ⟨w, read⟩
    refine ⟨w.phase, UInt64.toNat_inj.1 ?_⟩
    rw [toNat_phase]
    exact (fields_of_unpack read).2.1
  · rintro ⟨p, code⟩
    exact ⟨⟨(raw / 0x100000000).toUInt32, p, (raw % 0x40000000).toUInt32⟩,
      by rw [unpack, ofCode?_eq_some_iff.2 code]⟩

/-- The words whose count fits and the numbers with a phase belong together one to one. -/
theorem bijOn_number :
    Set.BijOn number {w | w.joined.toNat ≤ maxJoined} {raw | ¬ Phaseless raw} := by
  have packed : ∀ w : Word, w.joined.toNat ≤ maxJoined → unpack w.number = .ok w :=
    fun w small => unpack_eq_ok_iff.2 (pack_eq_ok_iff.2 ⟨small, rfl⟩)
  refine ⟨?_, ?_, ?_⟩
  · intro w small
    exact exists_unpack_iff.1 ⟨w, packed w small⟩
  · intro v small w small' same
    have read := packed v small
    rw [same, packed w small'] at read
    exact (Except.ok.inj read).symm
  · intro raw phase
    obtain ⟨w, read⟩ := exists_unpack_iff.2 phase
    obtain ⟨small, rfl⟩ := pack_eq_ok_iff.1 (unpack_eq_ok_iff.1 read)
    exact ⟨w, small, rfl⟩

end Word

namespace State

/-! ## Exchanges -/

/-- An exchange takes place exactly if the content of the word is the one expected, in all three
fields. -/
theorem exchange_iff {b : State} {expected : UInt64} (read : Word.unpack expected = .ok w)
    (next : UInt64) : (b.exchange expected next).1 = true ↔ b.load = .ok w := by
  have compares : (b.exchange expected next).1 = true ↔ b.word = expected := by
    unfold exchange
    split <;> simp_all
  rw [compares]
  constructor
  · rintro rfl
    exact read
  · intro loaded
    have packed := Word.unpack_eq_ok_iff.1 loaded
    rw [Word.unpack_eq_ok_iff.1 read] at packed
    exact (Except.ok.inj packed).symm

/-- How far the phase goes on when someone joins the round of a number: one further if nobody of
`participants` is missing any more. -/
def phaseStep (participants : Nat) (raw : UInt64) : Nat :=
  if raw.toNat % 2 ^ 30 + 1 = participants then 1 else 0

theorem phaseStep_le_one (participants : Nat) (raw : UInt64) : phaseStep participants raw ≤ 1 := by
  unfold phaseStep
  split <;> decide

/-- One more of `participants` workers has joined the round of a number: the count goes up by one
and the phase by one at most, and the round stays. -/
structure Counts (participants : Nat) (raw next : UInt64) : Prop where
  value : next.toNat = raw.toNat + 1 + phaseStep participants raw * 2 ^ 30
  joined : next.toNat % 2 ^ 30 = raw.toNat % 2 ^ 30 + 1
  phase : next.toNat / 2 ^ 30 % 4 = raw.toNat / 2 ^ 30 % 4 + phaseStep participants raw
  round : next.toNat / 2 ^ 32 = raw.toNat / 2 ^ 32

/-- Whoever joins is counted in the number. -/
theorem counts_of_joined {round : UInt32} {participants : Nat}
    (accepted : joined raw round participants = .ok (some next)) :
    Counts participants raw next := by
  obtain ⟨count, read, packed⟩ := joined_eq_ok_some_iff.1 accepted
  obtain ⟨round_eq, phase_eq, count_eq⟩ := Word.fields_of_unpack read
  obtain ⟨round_eq', phase_eq', count_eq'⟩ := Word.fields_of_unpack (Word.unpack_pack packed)
  have step := phaseStep_le_one participants raw
  have succ : (count + 1).toNat = count.toNat + 1 := by
    rw [UInt32.toNat_add]
    exact Nat.mod_eq_of_lt (show count.toNat + 1 < 2 ^ 32 by dsimp only at count_eq; omega)
  have phases : (phaseAt participants (count + 1).toNat).code.toNat =
      Phase.entering.code.toNat + phaseStep participants raw := by
    rw [phaseStep, count_eq, succ]
    unfold phaseAt
    split <;> rfl
  dsimp only at round_eq phase_eq count_eq round_eq' phase_eq' count_eq'
  rw [phases] at phase_eq'
  rw [succ] at count_eq'
  exact ⟨by omega, by omega, by omega, by omega⟩

/-- What an exchange that takes place has found and what it leaves. -/
theorem exchange_eq_true {b b' : State} {expected : UInt64}
    (swapped : b.exchange expected next = (true, b')) :
    b.word = expected ∧ b' = { b with word := next } := by
  unfold exchange at swapped
  split at swapped
  · next same =>
    cases swapped
    exact ⟨same, rfl⟩
  · cases swapped

/-- A join that is accepted replaces the word. -/
theorem joined_of_join {b b' : State} {round : UInt32} {participants : Nat}
    (accepted : b.join round participants = (.ok true, b')) :
    joined b.word round participants = .ok (some b'.word) ∧ b'.aborted = b.aborted := by
  unfold join at accepted
  split at accepted
  · cases accepted
  · cases accepted
  · next next known =>
    have swapped : b.exchange b.word next = (true, b') := by
      cases exchanged : b.exchange b.word next with
      | mk swapped after =>
          rw [exchanged] at accepted
          cases accepted
          rfl
    obtain ⟨-, rfl⟩ := exchange_eq_true swapped
    exact ⟨known, rfl⟩

/-- A word is packed exactly if its count fits into 30 bits, and is read back then.  A number is
unpacked exactly if the two bits of its phase are not both set, and is the number of what is read
then.  So the words that fit and the numbers with a phase belong together one to one, and an
exchange that expects a number expects its three fields.  An exchange that lets someone join, as
every accepted join does, adds one to the count and at most one to the phase, and carries nothing
into the phase or the round. -/
theorem codec_exact :
    (∀ w : Word, ((∃ raw, w.pack = .ok raw) ↔ w.joined.toNat ≤ 2 ^ 30 - 1) ∧
      ∀ raw, w.pack = .ok raw → Word.unpack raw = .ok w) ∧
    (∀ raw : UInt64, ((∃ w, Word.unpack raw = .ok w) ↔
        ¬(raw.toNat.testBit 30 = true ∧ raw.toNat.testBit 31 = true)) ∧
      ∀ w, Word.unpack raw = .ok w → w.pack = .ok raw) ∧
    (Set.BijOn Word.number {w | ∃ raw, w.pack = .ok raw} {raw | raw.toNat / 2 ^ 30 % 4 ≠ 3} ∧
      ∀ (w : Word) raw, w.pack = .ok raw → w.number = raw) ∧
    (∀ (b : State) expected next w, Word.unpack expected = .ok w →
      ((b.exchange expected next).1 = true ↔ b.load = .ok w)) ∧
    (∀ (b b' : State) expected next round participants,
      joined expected round participants = .ok (some next) →
      b.exchange expected next = (true, b') →
      Counts participants b.word b'.word ∧ b'.aborted = b.aborted) ∧
    ∀ (b b' : State) round participants, b.join round participants = (.ok true, b') →
      Counts participants b.word b'.word ∧ b'.aborted = b.aborted := by
  refine ⟨fun w => ⟨Word.exists_pack_iff, fun raw => Word.unpack_pack⟩,
    fun raw => ⟨Word.exists_unpack_iff, fun w => Word.unpack_eq_ok_iff.1⟩, ⟨?_, ?_⟩, ?_, ?_, ?_⟩
  · simp only [Word.exists_pack_iff, ne_eq, ← Word.phaseless_iff]
    exact Word.bijOn_number
  · intro w raw packed
    exact (Word.pack_eq_ok_iff.1 packed).2.symm
  · intro b expected next w read
    exact exchange_iff read next
  · intro b b' expected next round participants accepted swapped
    obtain ⟨rfl, rfl⟩ := exchange_eq_true swapped
    exact ⟨counts_of_joined accepted, rfl⟩
  · intro b b' round participants accepted
    obtain ⟨known, flag⟩ := joined_of_join accepted
    exact ⟨counts_of_joined known, flag⟩

/-- The second of two workers joins the first round. -/
theorem codec_exact_second_join :
    Word.pack ⟨1, .entering, 1⟩ = .ok 0x140000001 ∧
    Word.unpack 0x140000001 = .ok ⟨1, .entering, 1⟩ ∧
    joined 0x140000001 1 2 = .ok (some 0x180000002) ∧
    exchange ⟨0x140000001, false⟩ 0x140000001 0x180000002 = (true, ⟨0x180000002, false⟩) ∧
    join 1 2 ⟨0x140000001, false⟩ = (.ok true, ⟨0x180000002, false⟩) ∧
    Word.number ⟨1, .entering, 1⟩ = 0x140000001 ∧
    load ⟨0x140000001, false⟩ = .ok ⟨1, .entering, 1⟩ ∧
    Counts 2 0x140000001 0x180000002 := by
  have packed : Word.pack ⟨1, .entering, 1⟩ = .ok 0x140000001 := by rfl
  have accepted : joined 0x140000001 1 2 = .ok (some 0x180000002) := by rfl
  have swapped : exchange ⟨0x140000001, false⟩ 0x140000001 0x180000002 =
      (true, ⟨0x180000002, false⟩) := by rfl
  have joins : join 1 2 ⟨0x140000001, false⟩ = (.ok true, ⟨0x180000002, false⟩) := by rfl
  obtain ⟨packs, unpacks, ⟨-, numbers⟩, compares, counts, -⟩ := codec_exact
  have read := (packs _).2 _ packed
  exact ⟨(unpacks _).2 _ read, read, accepted, swapped, joins, numbers _ _ packed,
    (compares ⟨0x140000001, false⟩ _ 0x180000002 _ read).1 rfl,
    (counts _ _ _ _ _ _ accepted swapped).1⟩

end State

end AccessOrder.Barrier
