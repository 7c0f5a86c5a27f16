/- # Calls

What may be asked of a session, and what it replies.  A call that fails changes what it had changed
before it failed, and the session goes on, unless it has waited at the barrier of the pool.
-/
import AccessOrder.Session.Basic
namespace AccessOrder

/-- What may be asked of a session. -/
inductive Call where
  /-- Makes a new handle. -/
  | createHandle
  /-- Gives a handle one more number. -/
  | share (h : HandleNumber)
  /-- Asks whether two numbers refer to one handle. -/
  | same (a b : HandleNumber)
  | schedule (h : HandleNumber) (kind : Access.Kind)
  | completed (h : HandleNumber)
  | isReady (h : HandleNumber) (version : Version)
  | advance (h : HandleNumber) (version : Version)
  | tryLock (h : HandleNumber)
  | unlock (h : HandleNumber)
  | handleText (h : HandleNumber)
  /-- Lets a task wait for a version. -/
  | register (name : String) (h : HandleNumber) (version : Version)
  /-- Builds a task and takes it in hand. -/
  | build (b : Blueprint Act)
  | blueprintText (b : Blueprint Act)
  | taskInfo (name : String)
  | taskText (name : String)
  | readyOrPark (name : String)
  /-- Releases the versions of a task that is given up. -/
  | complete (name : String)
  /-- Gives a task up; its versions stay scheduled. -/
  | discard (name : String)
  | submit (name : String)
  /-- Builds a task and hands it in. -/
  | spawn (b : Blueprint Act)
  | barrier
  | start
  /-- Shuts the pool down. -/
  | close
  | workers
  | readiness
  | poolText

/-- What is told about a task in hand. -/
structure TaskInfo where
  /-- Each dependency with the least number of its handle, and whether it is met. -/
  dependencies : List (Nat × Dependency × Bool)
  ready : Bool
  executed : Bool
  priority : Priority
  pin : Option WorkerId
  label : Option String

/-- What a session replies. -/
inductive Reply where
  | nothing
  | number (n : Nat)
  | flag (b : Bool)
  | text (s : String)
  | failed (f : Failure)
  /-- There is no task in hand under the name. -/
  | noTask (name : String)
  /-- There is no pool. -/
  | noPool
  /-- The labels of tasks that were woken. -/
  | woken (labels : List (Option String))
  /-- Whether a task waits, or else need not wait. -/
  | waits (parked : Bool)
  /-- Whether a task is ready, or else waits. -/
  | vetted (ready : Bool)
  | versions (vs : List Version)
  /-- The versions of a task that was built, and whether it is ready. -/
  | built (vs : List Version) (ready : Bool)
  | info (i : TaskInfo)
  /-- The labels of the tasks woken by each release, and the failure that ended the releases. -/
  | releases (labels : List (List (Option String))) (failure : Option Failure)

namespace Session

/-- The reply to a call that may have failed. -/
def replyOf : Option Failure → Reply
  | none => .nothing
  | some f => .failed f

/-- Calls for the handle of a number. -/
def onNumber (s : Session) (number : HandleNumber) (call : HandleId → Reply × Session) :
    Reply × Session :=
  match s.machine.handles.lookUp number with
  | .error f => (.failed f, s)
  | .ok h => call h

/-- Runs an operation on the handle of a number and replies with what `reply` makes of its
result. -/
def onHandle {α : Type} (s : Session) (number : HandleNumber)
    (operation : Handle Task → Except Handle.Fault α × Handle Task)
    (reply : Session → α → Reply × Session) : Reply × Session :=
  s.onNumber number fun h =>
    let r := s.machine.handles.run h operation
    let s := s.withHandles r.2
    match r.1 with
    | .error f => (.failed f, s)
    | .ok a => reply s a

/-- Calls for a task in hand. -/
def onTask (s : Session) (name : String) (call : Task → Reply × Session) : Reply × Session :=
  match s.find? name with
  | none => (.noTask name, s)
  | some t => call t

/-- Calls for the pool. -/
def onPool (s : Session) (call : Reply × Session) : Reply × Session :=
  if s.machine.manned then call else (.noPool, s)

/-- Replies with a number that has been given to a handle. -/
def numbered (s : Session) (r : HandleNumber × Handles) : Reply × Session :=
  (.number r.1, s.withHandles r.2)

/-- What is told about a task. -/
def infoOf (s : Session) (t : Task) : TaskInfo where
  dependencies := t.dependencies.map fun d =>
    (s.machine.handles.numberOf d.handle, d, s.machine.handles.meets d)
  ready := s.machine.handles.ready t
  executed := t.executed
  priority := t.priority
  pin := t.pin
  label := t.label

/-- Releases the versions of dependencies, in order, until a release fails. -/
def releaseAll (s : Session) :
    List Dependency → List (List (Option String)) × Option Failure × Session
  | [] => ([], none, s)
  | d :: ds =>
    let r := s.machine.handles.run d.handle (·.advance d.version)
    let s := s.withHandles r.2
    match r.1 with
    | .error f => ([], some f, s)
    | .ok woken =>
      let (labels, failure, s) := (s.holdWoken woken).releaseAll ds
      (woken.map Task.label :: labels, failure, s)

/-- Hands a task in. -/
def submitTask (s : Session) (t : Task) (reply : Reply) : Reply × Session :=
  let r := s.machine.submit t
  let s := { s with machine := r.2 }
  match r.1 with
  | none => (reply, s)
  | some f => (.failed f, s)

/-- Waits at the barrier of the pool; a failure puts an end to the session. -/
def awaitPool (s : Session) : Reply × Session :=
  let r := s.machine.awaitAll
  (replyOf r.1, { s with machine := r.2, ended := r.1 })

/-- Shuts the pool down, for which it waits at the barrier; the handles and what has happened are
kept. -/
def closePool (s : Session) : Reply × Session :=
  let r := s.machine.shutDown
  (replyOf r.1,
    { s with
      machine := { Pool.Machine.vacant r.2.handles r.2.begun with
        events := r.2.events
        crash := r.2.crash }
      ended := r.1 })

/-- The reply to a call, and the session after it, in a session that has not come to its end. -/
def respond (s : Session) : Call → Reply × Session
  | .createHandle => s.numbered (s.machine.handles.create s.vocabulary.listed.length)
  | .share h => s.onNumber h fun h => s.numbered (s.machine.handles.refer h)
  | .same a b => s.onNumber a fun a => s.onNumber b fun b => (.flag (a = b), s)
  | .schedule h kind => s.onHandle h (·.schedule kind) fun s v => (.number v, s)
  | .completed h => s.onNumber h fun h => (.number (s.machine.handles.reached h), s)
  | .isReady h version =>
    s.onNumber h fun h => (.flag ((s.machine.handles.get h).isReady version), s)
  | .advance h version =>
    s.onHandle h (·.advance version) fun s woken =>
      (.woken (woken.map Task.label), s.holdWoken woken)
  | .tryLock h =>
    s.onNumber h fun h =>
      let r := s.machine.handles.tryLock h
      (.flag r.1, s.withHandles r.2)
  | .unlock h => s.onHandle h Handle.unlock fun s _ => (.nothing, s)
  | .handleText h => s.onNumber h fun h => (.text (s.machine.handles.get h).text, s)
  | .register name h version =>
    s.onTask name fun t =>
      (s.release name).onHandle h (·.register t version) fun s r =>
        match r with
        | .parked => (.waits true, s)
        | .handedBack t => (.waits false, s.hold name t)
  | .build b =>
    let r := s.machine.build b
    let s := { s with machine := r.2 }
    match r.1 with
    | .error f => (.failed f, s)
    | .ok t => (.built t.versions (s.machine.handles.ready t), s.hold b.name t)
  | .blueprintText b =>
    match s.machine.handles.locate b.accesses with
    | .error f => (.failed f, s)
    | .ok located => (.text (b.text (located.map fun a => s.machine.handles.reached a.handle)), s)
  | .taskInfo name => s.onTask name fun t => (.info (s.infoOf t), s)
  | .taskText name => s.onTask name fun t => (.text (s.machine.handles.taskText t), s)
  | .readyOrPark name =>
    s.onTask name fun t =>
      let r := t.readyOrPark s.machine.handles
      let s := (s.release name).withHandles r.2
      match r.1 with
      | .error f => (.failed f, s)
      | .ok none => (.vetted false, s)
      | .ok (some t) => (.vetted true, s.hold name t)
  | .complete name =>
    s.onTask name fun t =>
      let (labels, failure, s) := (s.release name).releaseAll t.dependencies
      (.releases labels failure, s)
  | .discard name => s.onTask name fun _ => (.nothing, s.release name)
  | .submit name =>
    s.onPool (s.onTask name fun t => (s.release name).submitTask t .nothing)
  | .spawn b =>
    s.onPool <|
      let r := s.machine.build b
      let s := { s with machine := r.2 }
      match r.1 with
      | .error f => (.failed f, s)
      | .ok t => s.submitTask t (.versions t.versions)
  | .barrier => s.onPool s.awaitPool
  | .start => s.onPool (.nothing, { s with machine := s.machine.start })
  | .close => s.onPool s.closePool
  | .workers => s.onPool (.number s.machine.size, s)
  | .readiness => s.onPool (.text s.machine.readiness.word, s)
  | .poolText => s.onPool (.text (Text.openRecord "Runtime" []), s)

/-- The reply to a call, and the session after it; a session that has come to its end stays as it
is. -/
def perform (s : Session) (call : Call) : Reply × Session :=
  match s.ended with
  | some f => (.failed f, s)
  | none => s.respond call

end Session

end AccessOrder
