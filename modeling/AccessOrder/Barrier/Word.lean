/- # Barrier words

The state of a barrier in one 64-bit number: the round in the upper 32 bits, the phase in the next
two, and in the lower 30 the number of workers that have joined the round.

* `unpack_pack` : a packed word reads back as itself.
-/
import AccessOrder.Text.Report
namespace AccessOrder.Barrier

/-- What a barrier is doing. -/
inductive Phase where
  /-- No round is open. -/
  | idle
  /-- Workers are joining the round. -/
  | entering
  /-- Every worker has joined, and the leader is looking whether all work is done. -/
  | draining
  deriving DecidableEq

/-- The number of a phase inside a word. -/
def Phase.code : Phase → UInt64
  | .idle => 0
  | .entering => 1
  | .draining => 2

/-- The phase of a number. -/
def Phase.ofCode? (code : UInt64) : Option Phase :=
  if code = 0 then some .idle
  else if code = 1 then some .entering
  else if code = 2 then some .draining
  else none

/-- The text of a phase. -/
def Phase.text : Phase → String
  | .idle => "Idle"
  | .entering => "Entering"
  | .draining => "Draining"

/-- The content of a barrier word. -/
structure Word where
  round : UInt32
  phase : Phase
  joined : UInt32
  deriving DecidableEq

/-- The ways in which an operation on a barrier fails. -/
inductive Fault where
  /-- More workers have joined than a word can count. -/
  | joinedTooMany
  /-- The phase bits of a number are both set. -/
  | phaseUnknown
  /-- A round is opened while another is open. -/
  | roundOpen (phase : Phase)
  deriving DecidableEq

/-- The text of a fault. -/
def Fault.message : Fault → String
  | .joinedTooMany => "Word::pack: [1]"
  | .phaseUnknown => Text.unreachable "Word::unpack: [1]"
  | .roundOpen phase => Text.unequal "BarrierState::open: [1]" phase.text Phase.idle.text

namespace Word

/-- The most workers that a word can count. -/
def maxJoined : Nat := 0x3fffffff

/-- The number of a word. -/
def pack (w : Word) : Except Fault UInt64 :=
  if w.joined.toNat ≤ maxJoined then
    .ok (w.round.toUInt64 <<< 32 ||| w.phase.code <<< 30 ||| w.joined.toUInt64)
  else .error .joinedTooMany

/-- The word of a number. -/
def unpack (raw : UInt64) : Except Fault Word :=
  match Phase.ofCode? (raw / 0x40000000 % 4) with
  | none => .error .phaseUnknown
  | some phase =>
    .ok ⟨(raw / 0x100000000).toUInt32, phase, (raw % 0x40000000).toUInt32⟩

/-! ## Packing and unpacking -/

/-- A bound on the numbers of phases. -/
theorem toNat_code_lt (p : Phase) : p.code.toNat < 4 := by cases p <;> decide

/-- Fields set side by side are added up. -/
theorem toNat_fields {round phase joined : UInt64} (round_lt : round.toNat < 0x100000000)
    (phase_lt : phase.toNat < 4) (joined_lt : joined.toNat < 0x40000000) :
    (round <<< 32 ||| phase <<< 30 ||| joined).toNat =
      round.toNat * 0x100000000 + phase.toNat * 0x40000000 + joined.toNat := by
  have upper : (round <<< 32).toNat = 2 ^ 32 * round.toNat := by
    rw [UInt64.toNat_shiftLeft, Nat.shiftLeft_eq]
    simp only [UInt64.reduceToNat, Nat.reduceMod]
    omega
  have middle : (phase <<< 30).toNat = 2 ^ 30 * phase.toNat := by
    rw [UInt64.toNat_shiftLeft, Nat.shiftLeft_eq]
    simp only [UInt64.reduceToNat, Nat.reduceMod]
    omega
  rw [UInt64.toNat_or, UInt64.toNat_or, upper, middle,
    ← Nat.two_pow_add_eq_or_of_lt (show 2 ^ 30 * phase.toNat < 2 ^ 32 by omega),
    show 2 ^ 32 * round.toNat + 2 ^ 30 * phase.toNat =
      2 ^ 30 * (2 ^ 2 * round.toNat + phase.toNat) by omega,
    ← Nat.two_pow_add_eq_or_of_lt (show joined.toNat < 2 ^ 30 from joined_lt)]
  omega

/-- The number of a packed word, its three fields side by side. -/
theorem toNat_of_pack {w : Word} {raw : UInt64} (h : w.pack = .ok raw) :
    raw.toNat =
      w.round.toNat * 0x100000000 + w.phase.code.toNat * 0x40000000 + w.joined.toNat := by
  unfold pack at h
  split at h
  · next small =>
    unfold maxJoined at small
    cases h
    have joined : w.joined.toUInt64.toNat < 0x40000000 := by
      rw [UInt32.toNat_toUInt64]
      omega
    rw [toNat_fields (by simpa using w.round.toNat_lt) (toNat_code_lt _) joined,
      UInt32.toNat_toUInt64, UInt32.toNat_toUInt64]
  · cases h

/-- A packed word reads back as itself. -/
theorem unpack_pack {w : Word} {raw : UInt64} (h : w.pack = .ok raw) : unpack raw = .ok w := by
  have value := toNat_of_pack h
  have small : w.joined.toNat ≤ 0x3fffffff := by
    unfold pack at h
    split at h
    · next small => exact small
    · cases h
  have round := w.round.toNat_lt
  have bound := toNat_code_lt w.phase
  have code : raw / 0x40000000 % 4 = w.phase.code := by
    apply UInt64.toNat_inj.1
    simp only [UInt64.toNat_mod, UInt64.toNat_div, UInt64.reduceToNat, value]
    omega
  have upper : (raw / 0x100000000).toUInt32 = w.round := by
    apply UInt32.toNat_inj.1
    simp only [UInt64.toNat_toUInt32, UInt64.toNat_div, UInt64.reduceToNat, value]
    omega
  have lower : (raw % 0x40000000).toUInt32 = w.joined := by
    apply UInt32.toNat_inj.1
    simp only [UInt64.toNat_toUInt32, UInt64.toNat_mod, UInt64.reduceToNat, value]
    omega
  have phase : Phase.ofCode? w.phase.code = some w.phase := by cases w.phase <;> rfl
  simp only [unpack, code, phase, upper, lower]

end Word

end AccessOrder.Barrier
