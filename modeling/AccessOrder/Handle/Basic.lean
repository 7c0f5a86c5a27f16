/- # Handles

A handle orders the accesses of one unit of data.  Every access that is scheduled gets a version;
an access may run once the handle has completed all versions below its own.  Accesses of one
commutative kind that are scheduled in a row share a version.  The handle keeps a slot for every
version from the completed one to the newest: how many accesses still hold it, and who waits for
it.  A lock, independent of all this, keeps accesses apart that share a version and must not
overlap.

Every operation returns its result together with the handle as it is then, also when it fails.

* `schedule_error`, `register_error`, `advance_error_of_passed` : a failing call leaves the
  handle as it was.
-/
import AccessOrder.Access.Kind
import AccessOrder.Text.Address
import AccessOrder.Text.Report
namespace AccessOrder

/-- The number of a version; a new handle is at version `0`. -/
abbrev Version := Nat

/-- What a handle knows about one version. -/
structure Handle.Slot (τ : Type) where
  /-- The scheduled accesses of this version that have not been released. -/
  holders : Nat
  /-- Who waits for the handle to reach this version, in order. -/
  listeners : List τ

/-- The bookkeeping of one unit of data, where `τ` is what waits for a version. -/
structure Handle (τ : Type) where
  /-- The version that accesses may now run at: all versions below it are fully released. -/
  completed : Version
  /-- The completed version as it is read without the lock of the bookkeeping. -/
  published : Version
  /-- The version that the next access of each kind gets, by the index of the kind. -/
  nextRequired : List Version
  /-- The slots of the completed version and of those after it. -/
  slots : List (Handle.Slot τ)
  /-- Whether an access that must not overlap with others of its version is under way. -/
  locked : Bool

namespace Handle

/-- The ways in which an operation on a handle fails. -/
inductive Fault where
  /-- The kind has no place in the table of a handle. -/
  | kindMissing
  /-- The place of the kind lies outside of the table. -/
  | kindOutside (size index : Nat)
  /-- The version of an access whose order matters has already been completed. -/
  | scheduleStale
  /-- The version has as many holders as can be counted. -/
  | scheduleCrowded
  /-- There would be a gap between the newest slot and the slot of a new version. -/
  | scheduleGap (offset size : Nat)
  /-- The version waited for has already been completed. -/
  | listenPassed
  /-- The version waited for was never scheduled. -/
  | listenUnscheduled
  /-- The version released is not the completed one. -/
  | releaseOther (completed version : Version)
  /-- The version released was never scheduled. -/
  | releaseUnscheduled
  /-- The version released has no holder. -/
  | releaseUnheld
  /-- Someone still waits for a version that has been reached. -/
  | releaseForgotten
  /-- The lock given back is not held. -/
  | unlockFree
  deriving DecidableEq

/-- The text of a fault. -/
def Fault.message : Fault → String
  | .kindMissing => "AccessKind::index: kind is missing from AccessKind::ALL"
  | .kindOutside size index => Text.indexOutside size index
  | .scheduleStale => "HandleState::schedule: [1]"
  | .scheduleCrowded => "HandleState::schedule: [3]"
  | .scheduleGap offset size =>
    Text.unequal "HandleState::schedule: [4]" (toString offset) (toString size)
  | .listenPassed => "Handle::register_listener: [1]"
  | .listenUnscheduled => "Handle::register_listener: [3]"
  | .releaseOther completed version =>
    Text.unequal "Handle::advance_and_notify: [1]" (toString completed) (toString version)
  | .releaseUnscheduled => "Handle::advance_and_notify: [2]"
  | .releaseUnheld => "Handle::advance_and_notify: [3]"
  | .releaseForgotten => "Handle::advance_and_notify: [5]"
  | .unlockFree => "Handle::unlock: [1]"

/-- The most holders that one version can have. -/
def maxHolders : Nat := UInt32.size - 1

variable {τ : Type}

/-- A handle at version `0` for a kind set of the given size, with nothing scheduled. -/
def new (kinds : Nat) : Handle τ := ⟨0, 0, List.replicate kinds 0, [], false⟩

/-- Whether an access of this version may run now. -/
def isReady (h : Handle τ) (version : Version) : Bool := h.published = version

/-! ## Scheduling -/

/-- Counts one more holder of the version that lies `offset` after the completed one, which may be
the version after the newest. -/
def hold (h : Handle τ) (offset : Nat) : Except Fault (List (Slot τ)) :=
  match h.slots[offset]? with
  | some slot =>
    if slot.holders < maxHolders then
      .ok (h.slots.set offset { slot with holders := slot.holders + 1 })
    else .error .scheduleCrowded
  | none =>
    if offset = h.slots.length then .ok (h.slots ++ [⟨1, []⟩])
    else .error (.scheduleGap offset h.slots.length)

/-- The table after an access has got `version`: later accesses of the same commutative kind join
it, and all others come after it. -/
def following (table : List Version) (index : Nat) (commutative : Bool) (version : Version) :
    List Version :=
  table.mapIdx fun i _ => if i = index && commutative then version else version + 1

/-- Reserves the version of a new access.  A commutative group that has already been completed is
joined at the completed version. -/
def schedule (h : Handle τ) (k : Access.Kind) : Except Fault Version × Handle τ :=
  match k.index with
  | none => (.error .kindMissing, h)
  | some index =>
    match h.nextRequired[index]? with
    | none => (.error (.kindOutside h.nextRequired.length index), h)
    | some required =>
      if required < h.completed && !k.properties.commutative then (.error .scheduleStale, h)
      else
        let version := max required h.completed
        match h.hold (version - h.completed) with
        | .error f => (.error f, h)
        | .ok slots =>
          (.ok version,
            { h with
              slots := slots
              nextRequired := following h.nextRequired index k.properties.commutative version })

/-! ## Waiting -/

/-- What becomes of a task that is offered to wait. -/
inductive Registration (τ : Type) where
  /-- It waits for its version. -/
  | parked
  /-- Its version is the completed one, so it need not wait. -/
  | handedBack (task : τ)

/-- Lets a task wait for a version, unless the version is already the completed one. -/
def register (h : Handle τ) (task : τ) (version : Version) :
    Except Fault (Registration τ) × Handle τ :=
  if h.completed = version then (.ok (.handedBack task), h)
  else if version < h.completed then (.error .listenPassed, h)
  else
    let offset := version - h.completed
    match h.slots[offset]? with
    | none => (.error .listenUnscheduled, h)
    | some slot =>
      let slot := { slot with listeners := slot.listeners ++ [task] }
      (.ok .parked, { h with slots := h.slots.set offset slot })

/-! ## Releasing -/

/-- Makes the version after the completed one the completed one, and returns those who waited for
it; `rest` are the slots from the new version on. -/
def enter (h : Handle τ) (rest : List (Slot τ)) : List τ × Handle τ :=
  let reached := { h with completed := h.completed + 1, published := h.completed + 1 }
  match rest with
  | [] => ([], { reached with slots := [] })
  | slot :: later =>
    (slot.listeners, { reached with slots := { slot with listeners := [] } :: later })

/-- Releases one holder of `version`, which is the completed one.  When it was the last, the handle
reaches the next version and those who waited for it are returned. -/
def advance (h : Handle τ) (version : Version) : Except Fault (List τ) × Handle τ :=
  if h.completed = version then
    match h.slots with
    | [] => (.error .releaseUnscheduled, h)
    | slot :: rest =>
      match slot.holders with
      | 0 => (.error .releaseUnheld, h)
      | 1 =>
        if slot.listeners.isEmpty then
          let (woken, h) := h.enter rest
          (.ok woken, h)
        else (.error .releaseForgotten, { h with slots := rest })
      | left + 2 => (.ok [], { h with slots := { slot with holders := left + 1 } :: rest })
  else (.error (.releaseOther h.completed version), h)

/-! ## The lock -/

/-- Takes the lock if it is free, and tells whether it was. -/
def tryLock (h : Handle τ) : Bool × Handle τ := (!h.locked, { h with locked := true })

/-- Gives the lock back. -/
def unlock (h : Handle τ) : Except Fault Unit × Handle τ :=
  (if h.locked then .ok () else .error .unlockFree, { h with locked := false })

/-- The one-line text of a handle. -/
def text (h : Handle τ) : String :=
  Text.record "Handle" [("addr", Text.hiddenAddress), ("completed", toString h.published)]

/-! ## Failing calls -/

/-- A failing attempt to schedule leaves the handle as it was. -/
theorem schedule_error {h : Handle τ} {k : Access.Kind} {f : Fault}
    (failed : (h.schedule k).1 = .error f) : (h.schedule k).2 = h := by
  revert failed
  unfold schedule
  split
  · simp
  · split
    · simp
    · split
      · simp
      · simp only
        split <;> simp

/-- A failing attempt to wait leaves the handle as it was. -/
theorem register_error {h : Handle τ} {task : τ} {version : Version} {f : Fault}
    (failed : (h.register task version).1 = .error f) : (h.register task version).2 = h := by
  revert failed
  unfold register
  split
  · simp
  · split
    · simp
    · simp only
      split <;> simp

/-- Releasing a version other than the completed one leaves the handle as it was. -/
theorem advance_error_of_passed {h : Handle τ} {version : Version}
    (other : h.completed ≠ version) :
    h.advance version = (.error (.releaseOther h.completed version), h) := by
  simp [advance, other]

/-- The lock is free after an attempt to give it back, whether or not it was held. -/
@[simp] theorem locked_unlock (h : Handle τ) : h.unlock.2.locked = false := rfl

/-- The lock is held after an attempt to take it, whether or not it succeeds. -/
@[simp] theorem locked_tryLock (h : Handle τ) : h.tryLock.2.locked = true := rfl

end Handle

end AccessOrder
