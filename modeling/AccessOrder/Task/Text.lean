/- # Texts of tasks

The one-line texts of dependencies, tasks and blueprints.  A handle is shown with the version it
has reached, so each text takes those versions, in the order of the accesses.
-/
import AccessOrder.Task.Basic
import AccessOrder.Text.Quoted
import AccessOrder.Text.Record
namespace AccessOrder

/-- The text of a label. -/
def labelText (label : String) : String := Text.hideAddresses (Text.quote label)

/-- The text of a handle that has reached a version. -/
def Handle.textAt (reached : Version) : String :=
  Text.record "Handle" [("addr", Text.hiddenAddress), ("completed", toString reached)]

/-- The text of a dependency whose handle has reached a version. -/
def Dependency.text (d : Dependency) (reached : Version) : String :=
  Text.record "Dependency"
    [("handle", Handle.textAt reached), ("kind", d.kind.text), ("version", toString d.version)]

/-- The text of a task, given the versions that the handles of its dependencies have reached. -/
def Task.text (t : Task) (reached : List Version) : String :=
  Text.record "Task"
    [("label", Text.optional (t.label.map labelText)),
      ("executed", Text.flag t.executed),
      ("dependencies", Text.sequence (List.zipWith Dependency.text t.dependencies reached)),
      ("cursor", toString t.cursor),
      ("priority", t.priority.text),
      ("pinned_to", Text.optional (t.pin.map toString))]

/-- The text of a blueprint, given the versions that the handles of its accesses have reached. -/
def Blueprint.text {α : Type} (b : Blueprint α) (reached : List Version) : String :=
  Text.openRecord "TaskBuilder"
    [("accesses", Text.sequence
        (List.zipWith (fun a v => Text.pair (Handle.textAt v) a.kind.text) b.accesses reached)),
      ("priority", b.priority.text),
      ("pinned_to", Text.optional (b.pin.map toString)),
      ("label", Text.optional (b.label.map labelText))]

end AccessOrder
