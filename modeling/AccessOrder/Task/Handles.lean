/- # The handles of tasks

All handles, each with the tasks that wait for it, and the numbers by which they are referred to.
An operation on one of them leaves the others alone, and no operation changes what a number refers
to.

* `get_run_of_ne` : an operation on one handle leaves the others alone;
* `nodup_locate` : no handle is accessed twice.
-/
import AccessOrder.Task.Failure
namespace AccessOrder

/-- All handles, and the handle that each number refers to. -/
structure Handles where
  units : Array (Handle Task)
  references : Array HandleId

namespace Handles

variable {α : Type}

/-- No handle and no number. -/
def empty : Handles := ⟨#[], #[]⟩

/-- New handles for a kind set of the given size, each with one number. -/
def fresh (count kinds : Nat) : Handles :=
  ⟨Array.replicate count (.new kinds), Array.range count⟩

/-- Gives a handle one more number, and tells it. -/
def refer (hs : Handles) (id : HandleId) : HandleNumber × Handles :=
  (hs.references.size, { hs with references := hs.references.push id })

/-- Makes a new handle for a kind set of the given size, and tells its number. -/
def create (hs : Handles) (kinds : Nat) : HandleNumber × Handles :=
  ({ hs with units := hs.units.push (.new kinds) } : Handles).refer hs.units.size

/-- The handle that a number refers to. -/
def lookUp (hs : Handles) (number : HandleNumber) : Except Failure HandleId :=
  match hs.references[number]? with
  | some id => .ok id
  | none => .error (.unknownHandle hs.references.size number)

/-- A handle. -/
def get (hs : Handles) (id : HandleId) : Handle Task := hs.units.getD id (.new 0)

/-- The version that a handle has reached, as it is read without a lock. -/
def reached (hs : Handles) (id : HandleId) : Version := (hs.get id).published

/-- Looks the handles of accesses up, in order; none of them may be among those already seen. -/
def locateFrom (hs : Handles) (seen : List HandleId) :
    List Access → Except Failure (List Access.Located)
  | [] => .ok []
  | a :: accesses =>
    match hs.lookUp a.number with
    | .error f => .error f
    | .ok id =>
      if id ∈ seen then .error (.repeatedAccess (hs.reached id))
      else
        match hs.locateFrom (id :: seen) accesses with
        | .error f => .error f
        | .ok located => .ok (⟨a, id⟩ :: located)

/-- Looks the handles of accesses up, in order; no handle may be accessed twice. -/
def locate (hs : Handles) (accesses : List Access) : Except Failure (List Access.Located) :=
  hs.locateFrom [] accesses

/-- The least number that refers to a handle. -/
def numberOf (hs : Handles) (id : HandleId) : HandleNumber :=
  (hs.references.findIdx? (· = id)).getD 0

/-- Whether the handle of a dependency allows the access now. -/
def meets (hs : Handles) (d : Dependency) : Bool := (hs.get d.handle).isReady d.version

/-- Whether all dependencies of a task are met now. -/
def ready (hs : Handles) (t : Task) : Bool := t.dependencies.all hs.meets

/-- The text of a task as it is shown now. -/
def taskText (hs : Handles) (t : Task) : String :=
  t.text (t.dependencies.map fun d => hs.reached d.handle)

/-- Runs an operation on a handle. -/
def run (hs : Handles) (id : HandleId)
    (operation : Handle Task → Except Handle.Fault α × Handle Task) : Except Failure α × Handles :=
  let r := operation (hs.get id)
  (r.1.mapError .handle, { hs with units := hs.units.setIfInBounds id r.2 })

/-- Takes the lock of a handle if it is free, and tells whether it was. -/
def tryLock (hs : Handles) (id : HandleId) : Bool × Handles :=
  let r := (hs.get id).tryLock
  (r.1, { hs with units := hs.units.setIfInBounds id r.2 })

/-! ## What the operations leave -/

/-- An operation creates no handle and removes none. -/
@[simp] theorem size_run (hs : Handles) (id : HandleId)
    (operation : Handle Task → Except Handle.Fault α × Handle Task) :
    (hs.run id operation).2.units.size = hs.units.size := by
  simp [run]

/-- An operation leaves the numbers as they are. -/
@[simp] theorem references_run (hs : Handles) (id : HandleId)
    (operation : Handle Task → Except Handle.Fault α × Handle Task) :
    (hs.run id operation).2.references = hs.references := rfl

/-- Taking a lock leaves the numbers as they are. -/
@[simp] theorem references_tryLock (hs : Handles) (id : HandleId) :
    (hs.tryLock id).2.references = hs.references := rfl

/-- An operation on a handle leaves it as the operation says. -/
theorem get_run_self {hs : Handles} {id : HandleId} (h : id < hs.units.size)
    (operation : Handle Task → Except Handle.Fault α × Handle Task) :
    (hs.run id operation).2.get id = (operation (hs.get id)).2 := by
  simp [run, get, h]

/-- An operation on one handle leaves the others alone. -/
theorem get_run_of_ne {hs : Handles} {id other : HandleId} (h : id ≠ other)
    (operation : Handle Task → Except Handle.Fault α × Handle Task) :
    (hs.run id operation).2.get other = hs.get other := by
  simp [run, get, Array.getD_eq_getD_getElem?, Array.getElem?_setIfInBounds_ne h]

/-- The accesses that are looked up are those given, and their handles are new and differ from each
other. -/
theorem locateFrom_eq_ok {hs : Handles} {seen : List HandleId} {accesses : List Access}
    {located : List Access.Located} (found : hs.locateFrom seen accesses = .ok located) :
    located.map Access.Located.toAccess = accesses ∧
      (located.map Access.Located.handle).Nodup ∧ ∀ a ∈ located, a.handle ∉ seen := by
  induction accesses generalizing seen located with
  | nil =>
    cases found
    simp
  | cons a accesses ih =>
    unfold locateFrom at found
    split at found
    · cases found
    · next id _ =>
      split at found
      · cases found
      · next new =>
        split at found
        · cases found
        · next rest located found =>
          cases found
          obtain ⟨same, distinct, fresh⟩ := ih found
          refine ⟨by simp [same], ?_, ?_⟩
          · rw [List.map_cons, List.nodup_cons]
            refine ⟨fun h => ?_, distinct⟩
            obtain ⟨b, hb, equal⟩ := List.mem_map.1 h
            exact fresh b hb (equal ▸ List.mem_cons_self)
          · intro b hb
            rcases List.mem_cons.1 hb with rfl | hb
            · exact new
            · exact fun h => fresh b hb (List.mem_cons_of_mem _ h)

/-- The accesses that are looked up are those given. -/
theorem toAccess_locate {hs : Handles} {accesses : List Access} {located : List Access.Located}
    (found : hs.locate accesses = .ok located) :
    located.map Access.Located.toAccess = accesses :=
  (locateFrom_eq_ok found).1

/-- No handle is accessed twice. -/
theorem nodup_locate {hs : Handles} {accesses : List Access} {located : List Access.Located}
    (found : hs.locate accesses = .ok located) : (located.map Access.Located.handle).Nodup :=
  (locateFrom_eq_ok found).2.1

end Handles

end AccessOrder
