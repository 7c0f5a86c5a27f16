/- # Who is served when

The operations on a queue that nobody else uses, one after the other, compared with a list of the
items that are queued, the newest first.  The owner is served the newest item, a thief the oldest
one that it may have; a priority queue looks at its high items first.  Whatever has been asked of a
queue before, in whatever way its items are kept, it answers as that list says.

* `Lanes.Lists.apply` : an operation on lanes does what it does to the list of the queued items;
* `Shared.steal_changes_nothing` : a thief that gets nothing leaves a queue as it is;
* `takes_serve` : an operation takes at most one item out and leaves the order of the others;
* `serves_by_age` : the answers to any sequence of operations.
-/
import AccessOrder.Proofs.Queue.Threads
namespace AccessOrder.Queue

variable {τ : Type}

/-! ## A list of queued items -/

/-- The newest item that passes a test, and the list without it. -/
def newest (p : τ → Bool) (ts : List τ) : Option τ × List τ := (ts.find? p, ts.eraseP p)

/-- The oldest item that passes a test, and the list without it. -/
def oldest (p : τ → Bool) (ts : List τ) : Option τ × List τ :=
  (ts.reverse.find? p, (ts.reverse.eraseP p).reverse)

/-- Tries the first way to take an item, and the second one if it gives nothing. -/
def firstOf (first second : Option τ × List τ) : Option τ × List τ :=
  match first.1 with
  | some _ => first
  | none => second

section Strategy

variable [Queueable τ]

/-- Whether an item is of high priority. -/
def isHigh (t : τ) : Bool := Queueable.priority t = .high

/-- The oldest item that passes a test, unless it is pinned, and the list without it. -/
def oldestFree (p : τ → Bool) (ts : List τ) : Option τ × List τ :=
  match (oldest p ts).1.filter stealable with
  | some t => (some t, (oldest p ts).2)
  | none => (none, ts)

/-- What the owner gets from a list of queued items, and what it leaves. -/
def Strategy.owner (s : Strategy) (ts : List τ) : Option τ × List τ :=
  match s with
  | .plain | .pinned => newest (fun _ => true) ts
  | .priority => firstOf (newest isHigh ts) (newest (!isHigh ·) ts)

/-- What a thief gets from a list of queued items, and what it leaves. -/
def Strategy.thief (s : Strategy) (ts : List τ) : Option τ × List τ :=
  match s with
  | .plain => oldestFree (fun _ => true) ts
  | .priority => firstOf (oldestFree isHigh ts) (oldestFree (!isHigh ·) ts)
  | .pinned => oldest stealable ts

/-- What an operation answers on a list of queued items, and what it makes of the list. -/
def Strategy.serve (s : Strategy) (r : Request τ) (ts : List τ) : Option τ × List τ :=
  match r with
  | .push t => (none, t :: ts)
  | .pop => s.owner ts
  | .steal => s.thief ts

/-- The items that are queued after some operations, the last one first, on an empty queue. -/
def backlog (s : Strategy) : List (Request τ) → List τ
  | [] => []
  | r :: past => (s.serve r (backlog s past)).2

/-- The answers to operations on an empty queue, each beside its operation. -/
def answers (s : Strategy) : List (Request τ) → List (Option τ)
  | [] => []
  | r :: past => (s.serve r (backlog s past)).1 :: answers s past

end Strategy

/-! ## Taking one item out -/

/-- At most one item is taken out of a list, and the others stay in their order. -/
inductive Takes : List τ → Option τ → List τ → Prop where
  | nothing (ts : List τ) : Takes ts none ts
  | one (newer older : List τ) (t : τ) : Takes (newer ++ t :: older) (some t) (newer ++ older)

namespace Takes

variable {ts rest : List τ} {x : Option τ}

/-- What is taken and what is left make up the list. -/
theorem perm (h : Takes ts x rest) : (x.toList ++ rest).Perm ts := by
  cases h with
  | nothing => exact .refl _
  | one newer older t =>
      rw [Option.toList_some, List.singleton_append]
      exact List.perm_middle.symm

/-- What is left is in its old order. -/
theorem sublist (h : Takes ts x rest) : rest.Sublist ts := by
  cases h with
  | nothing => exact .refl _
  | one newer older t => exact (List.sublist_cons_self t older).append_left newer

/-- Nothing is missing if nothing is taken. -/
theorem eq_of_none (h : Takes ts none rest) : rest = ts := by
  cases h
  rfl

/-- What passes a test stays if what is taken does not pass it. -/
theorem filter_eq {p : τ → Bool} (h : Takes ts x rest) (fails : ∀ t ∈ x, p t = false) :
    rest.filter p = ts.filter p := by
  cases h with
  | nothing => rfl
  | one newer older t =>
      have out : ¬ p t = true := by simp [fails t rfl]
      rw [List.filter_append, List.filter_append, List.filter_cons_of_neg out]

/-- The same from the other end of the list. -/
theorem reverse (h : Takes ts x rest) : Takes ts.reverse x rest.reverse := by
  cases h with
  | nothing => exact .nothing _
  | one newer older t =>
      simpa using Takes.one older.reverse newer.reverse t

end Takes

theorem takes_newest (p : τ → Bool) (ts : List τ) : Takes ts (newest p ts).1 (newest p ts).2 := by
  induction ts with
  | nil => exact .nothing []
  | cons t ts ih =>
      by_cases hit : p t = true
      · simpa [newest, hit] using Takes.one [] ts t
      · simp only [newest, List.find?_cons_of_neg hit, List.eraseP_cons_of_neg hit] at ih ⊢
        generalize ts.find? p = x, ts.eraseP p = rest at ih
        cases ih with
        | nothing => exact .nothing _
        | one newer older u => exact .one (t :: newer) older u

theorem takes_oldest (p : τ → Bool) (ts : List τ) : Takes ts (oldest p ts).1 (oldest p ts).2 := by
  have taken := (takes_newest p ts.reverse).reverse
  rw [List.reverse_reverse] at taken
  exact taken

theorem Takes.firstOf {ts : List τ} {first second : Option τ × List τ}
    (h : Takes ts first.1 first.2) (h' : Takes ts second.1 second.2) :
    Takes ts (Queue.firstOf first second).1 (Queue.firstOf first second).2 := by
  unfold Queue.firstOf
  split
  · exact h
  · exact h'

section Order

variable [Queueable τ]

theorem takes_oldestFree (p : τ → Bool) (ts : List τ) :
    Takes ts (oldestFree p ts).1 (oldestFree p ts).2 := by
  have taken := takes_oldest p ts
  unfold oldestFree
  cases free : (oldest p ts).1.filter stealable with
  | none => exact .nothing ts
  | some t => rwa [(Option.filter_eq_some_iff.1 free).1] at taken

/-- An operation takes at most one item out of the list and leaves the others in their order. -/
theorem takes_serve (s : Strategy) (r : Request τ) (ts : List τ) :
    Takes (r.added ++ ts) (s.serve r ts).1 (s.serve r ts).2 := by
  cases r with
  | push t => exact .nothing _
  | pop =>
      cases s with
      | plain => exact takes_newest _ ts
      | priority => exact (takes_newest _ ts).firstOf (takes_newest _ ts)
      | pinned => exact takes_newest _ ts
  | steal =>
      cases s with
      | plain => exact takes_oldestFree _ ts
      | priority => exact (takes_oldestFree _ ts).firstOf (takes_oldestFree _ ts)
      | pinned => exact takes_oldest _ ts

/-- The queued items are in the order in which they have been added. -/
theorem backlog_sublist (s : Strategy) (past : List (Request τ)) :
    (backlog s past).Sublist (past.flatMap Request.added) := by
  induction past with
  | nil => exact .slnil
  | cons r past ih =>
      exact (takes_serve s r (backlog s past)).sublist.trans (ih.append_left _)

/-- What has been answered and what is queued make up what has been added. -/
theorem answers_backlog_perm (s : Strategy) (past : List (Request τ)) :
    ((answers s past).flatMap Option.toList ++ backlog s past).Perm
      (past.flatMap Request.added) := by
  induction past with
  | nil => exact .refl _
  | cons r past ih =>
      let given := (answers s past).flatMap Option.toList
      have served := (takes_serve s r (backlog s past)).perm
      calc (answers s (r :: past)).flatMap Option.toList ++ backlog s (r :: past)
        _ = (s.serve r (backlog s past)).1.toList ++ given ++ (s.serve r (backlog s past)).2 := rfl
        _ |>.Perm (given ++ ((s.serve r (backlog s past)).1.toList ++
              (s.serve r (backlog s past)).2)) := by
            rw [List.append_assoc]
            exact List.perm_append_comm_assoc ..
        _ |>.Perm (given ++ (r.added ++ backlog s past)) := served.append_left _
        _ |>.Perm (r.added ++ (given ++ backlog s past)) := List.perm_append_comm_assoc ..
        _ |>.Perm ((r :: past).flatMap Request.added) := ih.append_left _

end Order

/-! ## What the lanes keep -/

/-- Without the newest item that passes a test, the items that pass it are the same but for the
first. -/
theorem filter_newest (p : τ → Bool) (ts : List τ) :
    (newest p ts).2.filter p = (ts.filter p).tail := by
  unfold newest
  induction ts with
  | nil => rfl
  | cons t ts ih =>
      by_cases hit : p t = true
      · simp [hit]
      · simpa [hit] using ih

theorem newest_fst (p : τ → Bool) (ts : List τ) : (newest p ts).1 = (ts.filter p).head? :=
  List.head?_filter.symm

theorem oldest_fst (p : τ → Bool) (ts : List τ) : (oldest p ts).1 = (ts.filter p).getLast? :=
  List.getLast?_filter.symm

/-- Without the oldest item that passes a test, the items that pass it are the same but for the
last. -/
theorem filter_oldest (p : τ → Bool) (ts : List τ) :
    (oldest p ts).2.filter p = (ts.filter p).dropLast := by
  have kept := filter_newest p ts.reverse
  rw [oldest, List.filter_reverse]
  rw [newest, List.filter_reverse] at kept
  rw [kept, List.tail_reverse, List.reverse_reverse]

theorem oldestFree_of_free [Queueable τ] {p : τ → Bool} {ts : List τ} {t : τ}
    (last : (oldest p ts).1 = some t) (free : stealable t = true) :
    oldestFree p ts = (some t, (oldest p ts).2) := by
  rw [oldestFree, last, Option.filter_some_pos free]

theorem oldestFree_of_pinned [Queueable τ] {p : τ → Bool} {ts : List τ}
    (pinned : ∀ t ∈ (oldest p ts).1, ¬ stealable t = true) : oldestFree p ts = (none, ts) := by
  rw [oldestFree, Option.filter_eq_none_iff.2 pinned]

theorem newest_passes {p : τ → Bool} {ts : List τ} : ∀ t ∈ (newest p ts).1, p t = true :=
  fun _ found => List.find?_some found

theorem oldestFree_passes [Queueable τ] {p : τ → Bool} {ts : List τ} :
    ∀ t ∈ (oldestFree p ts).1, p t = true := by
  intro t found
  unfold oldestFree at found
  cases last : (oldest p ts).1.filter stealable with
  | none => simp [last] at found
  | some u =>
      obtain rfl : u = t := by simpa [last] using found
      exact List.find?_some (Option.filter_eq_some_iff.1 last).1

/-- A search from the back of a list finds the oldest item that passes the test. -/
theorem extract_eq (p : τ → Bool) (ts : List τ) :
    Sequence.Flat.extract (fun () t => (p t, ())) () ts =
      ⟨(newest p ts).1, (newest p ts).2, ()⟩ := by
  unfold newest
  induction ts with
  | nil => rfl
  | cons t ts ih =>
      by_cases hit : p t = true
      · simp [Sequence.Flat.extract, hit]
      · simp [Sequence.Flat.extract, hit, ih]

theorem removeLast_eq (p : τ → Bool) (ts : List τ) :
    Sequence.Flat.removeLast (fun () t => (p t, ())) () ts =
      ⟨(oldest p ts).1, (oldest p ts).2, ()⟩ := by
  rw [Sequence.Flat.removeLast, extract_eq]
  rfl

/-- A sequence that keeps those of the queued items that pass a test. -/
structure Keeps (p : τ → Bool) (ts : List τ) (items : Sequence τ) : Prop where
  sound : items.Sound
  contents : items.contents = ts.filter p

namespace Keeps

variable {p other : τ → Bool} {ts : List τ} {items : Sequence τ}

theorem of_filter_eq {rest : List τ} (h : Keeps p ts items) (same : rest.filter p = ts.filter p) :
    Keeps p rest items := ⟨h.sound, h.contents.trans same.symm⟩

theorem pushFront (h : Keeps p ts items) {t : τ} (passes : p t = true) :
    ∃ items', items.pushFront t = .ok items' ∧ Keeps p (t :: ts) items' := by
  obtain ⟨items', pushed, sound, same⟩ := h.sound.pushFront t
  exact ⟨items', pushed, sound, by rw [same, h.contents, List.filter_cons_of_pos passes]⟩

theorem popFront (h : Keeps p ts items) :
    ∃ items', items.popFront = .ok ((newest p ts).1, items') ∧ Keeps p (newest p ts).2 items' := by
  obtain ⟨items', popped, sound, same⟩ := h.sound.popFront
  refine ⟨items', ?_, sound, ?_⟩
  · rw [popped, h.contents, newest_fst]
  · rw [same, h.contents, filter_newest]

theorem popStealable [Queueable τ] (h : Keeps p ts items) :
    ∃ items', Lanes.popStealable items = .ok ((oldestFree p ts).1, items') ∧
      Keeps p (oldestFree p ts).2 items' := by
  have seen := h.sound.back
  rw [h.contents, ← oldest_fst] at seen
  unfold Lanes.popStealable
  cases last : (oldest p ts).1 with
  | none =>
      rw [oldestFree_of_pinned (by simp [last]), seen, last]
      exact ⟨items, rfl, h⟩
  | some t =>
      by_cases free : stealable t = true
      · obtain ⟨items', popped, sound, same⟩ := h.sound.popBack
        rw [h.contents, ← oldest_fst, last] at popped
        rw [oldestFree_of_free last free, seen, last]
        refine ⟨items', ?_, sound, ?_⟩
        · simp only [bind, Except.bind, free, if_true, popped]
        · rw [same, h.contents, filter_oldest]
      · rw [oldestFree_of_pinned (by simpa [last] using free), seen, last]
        refine ⟨items, ?_, h⟩
        simp only [bind, Except.bind]
        rw [if_neg free]

end Keeps

namespace Lanes

variable [Queueable τ]

/-- Takes an item from the high lane, or from the normal one if the high one gives none. -/
def inTurn (take : Sequence τ → Except Sequence.Fault (Option τ × Sequence τ))
    (high normal : Sequence τ) : Except Sequence.Fault (Option τ × Lanes τ) := do
  let (t, high) ← take high
  match t with
  | some t => .ok (some t, .priority high normal)
  | none =>
    let (t, normal) ← take normal
    .ok (t, .priority high normal)

/-- The lanes of a queue, which keep the queued items in their order. -/
def Lists (s : Strategy) (ts : List τ) (l : Lanes τ) : Prop :=
  match s, l with
  | .plain, .plain items | .pinned, .pinned items => Keeps (fun _ => true) ts items
  | .priority, .priority high normal => Keeps isHigh ts high ∧ Keeps (!isHigh ·) ts normal
  | _, _ => False

namespace Lists

variable {s : Strategy} {ts : List τ} {l : Lanes τ}

theorem empty (s : Strategy) (b : Sequence.Backing) : (Lanes.empty s b : Lanes τ).Lists s [] := by
  have nothing (p : τ → Bool) : Keeps p [] (Sequence.empty b) :=
    ⟨Sequence.sound_empty b, Sequence.contents_empty b⟩
  cases s with
  | plain => exact nothing _
  | priority => exact ⟨nothing _, nothing _⟩
  | pinned => exact nothing _

theorem sound (h : l.Lists s ts) : l.Sound := by
  cases s <;> cases l <;> first | exact h.elim | exact h.sound | exact ⟨h.1.sound, h.2.sound⟩

/-- The lanes keep the queued items and no others. -/
theorem perm (h : l.Lists s ts) : l.contents.Perm ts := by
  cases s <;> cases l <;> try exact h.elim
  case plain.plain items => exact .of_eq (h.contents.trans (List.filter_true ts))
  case priority.priority high normal =>
    rw [Lanes.contents, h.1.contents, h.2.contents]
    exact List.filter_append_perm isHigh ts
  case pinned.pinned items => exact .of_eq (h.contents.trans (List.filter_true ts))

/-- The lanes keep as many items as are queued. -/
theorem size_eq (h : l.Lists s ts) : l.size = ts.length := h.sound.size_eq.trans h.perm.length_eq

theorem push (h : l.Lists s ts) (t : τ) : ∃ l', l.push t = .ok l' ∧ l'.Lists s (t :: ts) := by
  cases s <;> cases l <;> try exact h.elim
  case plain.plain items =>
    obtain ⟨items', pushed, keeps⟩ := h.pushFront (t := t) rfl
    exact ⟨.plain items', by rw [Lanes.push, pushed]; rfl, keeps⟩
  case priority.priority high normal =>
    cases level : Queueable.priority t with
    | high =>
      have above : isHigh t = true := decide_eq_true level
      obtain ⟨high', pushed, keeps⟩ := h.1.pushFront above
      refine ⟨.priority high' normal, ?_, keeps, h.2.of_filter_eq (by simp [above])⟩
      simp only [Lanes.push, level, pushed, Except.map]
    | normal =>
      have below : isHigh t = false := by simp [isHigh, level]
      obtain ⟨normal', pushed, keeps⟩ := h.2.pushFront (t := t) (by simp [below])
      refine ⟨.priority high normal', ?_, h.1.of_filter_eq (by simp [below]), keeps⟩
      simp only [Lanes.push, level, pushed, Except.map]
  case pinned.pinned items =>
    obtain ⟨items', pushed, keeps⟩ := h.pushFront (t := t) rfl
    exact ⟨.pinned items', by rw [Lanes.push, pushed]; rfl, keeps⟩

/-- A way to take items that does to each lane what it does to the list of the queued items does so
to the two lanes in turn. -/
theorem inTurn {take : Sequence τ → Except Sequence.Fault (Option τ × Sequence τ)}
    {give : (τ → Bool) → List τ → Option τ × List τ} {high normal : Sequence τ}
    (above : Keeps isHigh ts high) (below : Keeps (!isHigh ·) ts normal)
    (correct : ∀ {p : τ → Bool} {ts : List τ} {items : Sequence τ}, Keeps p ts items →
      ∃ items', take items = .ok ((give p ts).1, items') ∧ Keeps p (give p ts).2 items')
    (takes : ∀ p ts, Takes ts (give p ts).1 (give p ts).2)
    (passes : ∀ {p ts}, ∀ t ∈ (give p ts).1, p t = true) :
    ∃ l', Lanes.inTurn take high normal =
        .ok ((firstOf (give isHigh ts) (give (!isHigh ·) ts)).1, l') ∧
      l'.Lists .priority (firstOf (give isHigh ts) (give (!isHigh ·) ts)).2 := by
  obtain ⟨high', taken, keeps⟩ := correct above
  have out := takes isHigh ts
  unfold Lanes.inTurn firstOf
  cases first : (give isHigh ts).1 with
  | some t =>
      have kept := out.filter_eq (p := (!isHigh ·)) fun u found => by simp [passes u found]
      refine ⟨.priority high' normal, ?_, keeps, below.of_filter_eq kept⟩
      simp only [taken, first, bind, Except.bind]
  | none =>
      obtain ⟨normal', taken', keeps'⟩ := correct below
      have kept := (takes (!isHigh ·) ts).filter_eq (p := isHigh) fun u found => by
        simpa using passes u found
      refine ⟨.priority high' normal', ?_, ?_, keeps'⟩
      · simp only [taken, taken', first, bind, Except.bind]
      · rw [first] at out
        rw [out.eq_of_none] at keeps
        exact keeps.of_filter_eq kept

theorem pop (h : l.Lists s ts) :
    ∃ l', l.pop = .ok ((s.owner ts).1, l') ∧ l'.Lists s (s.owner ts).2 := by
  cases s <;> cases l <;> try exact h.elim
  case plain.plain items =>
    obtain ⟨items', popped, keeps⟩ := Keeps.popFront h
    exact ⟨.plain items', by rw [Lanes.pop, popped]; rfl, keeps⟩
  case priority.priority high normal =>
    exact inTurn h.1 h.2 Keeps.popFront takes_newest newest_passes
  case pinned.pinned items =>
    obtain ⟨items', popped, keeps⟩ := Keeps.popFront h
    exact ⟨.pinned items', by rw [Lanes.pop, popped]; rfl, keeps⟩

theorem steal (h : l.Lists s ts) :
    ∃ l', l.steal = .ok ((s.thief ts).1, l') ∧ l'.Lists s (s.thief ts).2 := by
  cases s <;> cases l <;> try exact h.elim
  case plain.plain items =>
    obtain ⟨items', stolen, keeps⟩ := Keeps.popStealable h
    exact ⟨.plain items', by rw [Lanes.steal, stolen]; rfl, keeps⟩
  case priority.priority high normal =>
    exact inTurn h.1 h.2 Keeps.popStealable takes_oldestFree oldestFree_passes
  case pinned.pinned items =>
    obtain ⟨items', removed, sound, same⟩ :=
      (Keeps.sound h).removeLast (fun () t => (stealable t, ())) ()
    rw [Keeps.contents h, List.filter_true, removeLast_eq] at removed same
    exact ⟨.pinned items', by rw [Lanes.steal, removed]; rfl, sound,
      same.trans (List.filter_true _).symm⟩

/-- An operation on lanes does what it does to the list of the queued items. -/
theorem apply (h : l.Lists s ts) (r : Request τ) :
    ∃ l', r.apply l = .ok ((s.serve r ts).1, l') ∧ l'.Lists s (s.serve r ts).2 := by
  cases r with
  | push t =>
      obtain ⟨l', pushed, lists⟩ := h.push t
      exact ⟨l', by rw [Request.apply, pushed]; rfl, lists⟩
  | pop => exact h.pop
  | steal => exact h.steal

end Lists

/-- A thief that finds nothing to take at the back of a sequence leaves it as it is. -/
theorem popStealable_none {items items' : Sequence τ} (h : items.Sound)
    (missed : popStealable items = .ok (none, items')) : items' = items := by
  unfold popStealable at missed
  rw [h.back] at missed
  cases last : items.contents.getLast? with
  | none =>
      rw [last] at missed
      exact (Prod.mk.inj (Except.ok.inj missed)).2.symm
  | some t =>
      simp only [last, bind, Except.bind] at missed
      by_cases free : stealable t = true
      · obtain ⟨rest, popped, -⟩ := h.popBack
        rw [if_pos free, popped, last] at missed
        simp at missed
      · rw [if_neg free] at missed
        exact (Prod.mk.inj (Except.ok.inj missed)).2.symm

/-- A thief that gets nothing leaves the lanes as they are. -/
theorem steal_none {l l' : Lanes τ} (h : l.Sound) (missed : l.steal = .ok (none, l')) : l' = l := by
  cases l with
  | plain items =>
      obtain ⟨x, items', stolen, -⟩ := Sound.popStealable (s := items) h
      rw [Lanes.steal, stolen] at missed
      obtain ⟨rfl, rfl⟩ := Prod.mk.inj (Except.ok.inj missed)
      rw [popStealable_none h stolen]
  | priority high normal =>
      obtain ⟨x, high', stolen, -⟩ := Sound.popStealable h.1
      obtain ⟨y, normal', stolen', -⟩ := Sound.popStealable h.2
      simp only [Lanes.steal, stolen, stolen', bind, Except.bind] at missed
      cases x with
      | some t => simp at missed
      | none =>
          obtain ⟨rfl, rfl⟩ := Prod.mk.inj (Except.ok.inj missed)
          rw [popStealable_none h.1 stolen, popStealable_none h.2 stolen']
  | pinned items =>
      obtain ⟨items', removed, -⟩ :=
        Sequence.Sound.removeLast (s := items) h (fun () t => (stealable t, ())) ()
      rw [Lanes.steal, removed] at missed
      obtain ⟨nothing, rfl⟩ := Prod.mk.inj (Except.ok.inj missed)
      rw [nothing] at removed
      rw [Sequence.removeLast_none removed]

end Lanes

/-! ## One operation after the other -/

section Operations

variable [Queueable τ]

namespace Shared

/-- Carries operations out undisturbed on an empty queue, the last one first, and tells the answer
to each. -/
def play (s : Strategy) (b : Sequence.Backing) :
    List (Request τ) → Except Sequence.Fault (List (Option τ) × Shared τ)
  | [] => .ok ([], .empty s b)
  | r :: past => do
    let (given, q) ← play s b past
    let (x, q) ← q.perform r
    .ok (x :: given, q)

/-- A queue that nobody uses, with the items that are queued. -/
structure Serves (s : Strategy) (ts : List τ) (q : Shared τ) : Prop where
  tidy : q.Tidy
  lists : q.lanes.Lists s ts

namespace Serves

variable {s : Strategy} {ts : List τ} {q : Shared τ}

theorem published_eq (h : q.Serves s ts) : q.published = ts.length :=
  h.tidy.published.trans h.lists.size_eq

/-- An undisturbed operation answers as it does on the list of the queued items, and makes of the
queue what it makes of that list. -/
theorem perform (h : q.Serves s ts) (r : Request τ) :
    ∃ q', q.perform r = .ok ((s.serve r ts).1, q') ∧ q'.Serves s (s.serve r ts).2 := by
  obtain ⟨l, applied, lists⟩ := h.lists.apply r
  exact ⟨_, h.tidy.perform_eq applied, ⟨rfl, lists.sound, rfl⟩, lists⟩

/-- A thief that gets nothing leaves the queue as it is. -/
theorem steal_changes_nothing (h : q.Serves s ts) {q' : Shared τ}
    (missed : q.steal = .ok (none, q')) : q' = q := by
  obtain ⟨l, applied, -⟩ := h.lists.apply .steal
  have stolen := h.tidy.perform_eq applied
  rw [← steal, missed] at stolen
  obtain ⟨nothing, rfl⟩ := Prod.mk.inj (Except.ok.inj stolen)
  rw [← nothing] at applied
  rw [Lanes.steal_none h.tidy.sound applied]
  exact h.tidy.eq_of_lanes.symm

end Serves

/-- Whatever is asked of an empty queue, it answers as the list of the queued items does. -/
theorem play_eq (s : Strategy) (b : Sequence.Backing) (past : List (Request τ)) :
    ∃ q, play s b past = .ok (answers s past, q) ∧ q.Serves s (backlog s past) := by
  induction past with
  | nil => exact ⟨_, rfl, tidy_empty s b, .empty s b⟩
  | cons r past ih =>
      obtain ⟨q, played, serves⟩ := ih
      obtain ⟨q', performed, serves'⟩ := serves.perform r
      refine ⟨q', ?_, serves'⟩
      rw [play, played]
      simp only [bind, Except.bind, performed]
      rfl

end Shared

/-! ## Who is served -/

/-- What the owner is due, given the queued items: the newest item, and of a priority queue the
newest high item if there is one. -/
def Strategy.due (s : Strategy) (queued : List τ) : Option τ :=
  match s with
  | .plain | .pinned => queued.head?
  | .priority => (queued.find? isHigh).or (queued.find? (!isHigh ·))

/-- What a thief may have, given the queued items: the oldest item if it is not pinned, and of a
priority queue the oldest high item if it is not pinned, or else the oldest normal item if it is
not.  A pinned queue gives its oldest item that is not pinned. -/
def Strategy.spare (s : Strategy) (queued : List τ) : Option τ :=
  match s with
  | .plain => queued.getLast?.filter stealable
  | .priority =>
    ((queued.filter isHigh).getLast?.filter stealable).or
      ((queued.filter (!isHigh ·)).getLast?.filter stealable)
  | .pinned => (queued.filter stealable).getLast?

omit [Queueable τ] in
theorem firstOf_fst (first second : Option τ × List τ) :
    (firstOf first second).1 = first.1.or second.1 := by
  unfold firstOf
  cases taken : first.1 <;> simp [taken]

theorem oldestFree_fst (p : τ → Bool) (ts : List τ) :
    (oldestFree p ts).1 = (ts.filter p).getLast?.filter stealable := by
  rw [oldestFree, ← oldest_fst]
  cases (oldest p ts).1.filter stealable <;> rfl

theorem Strategy.owner_fst (s : Strategy) (ts : List τ) : (s.owner ts).1 = s.due ts := by
  cases s with
  | plain => exact (newest_fst _ ts).trans (by rw [List.filter_true]; rfl)
  | priority => exact firstOf_fst _ _
  | pinned => exact (newest_fst _ ts).trans (by rw [List.filter_true]; rfl)

theorem Strategy.thief_fst (s : Strategy) (ts : List τ) : (s.thief ts).1 = s.spare ts := by
  cases s with
  | plain => exact (oldestFree_fst _ ts).trans (by rw [List.filter_true]; rfl)
  | priority =>
      rw [thief, firstOf_fst, oldestFree_fst, oldestFree_fst]
      rfl
  | pinned => exact oldest_fst stealable ts

/-- The owner is due an item as long as there is one. -/
theorem Strategy.eq_nil_of_due {s : Strategy} {queued : List τ} (nothing : s.due queued = none) :
    queued = [] := by
  cases s with
  | plain => exact List.head?_eq_none_iff.1 nothing
  | priority =>
      obtain ⟨no_high, no_normal⟩ := Option.or_eq_none_iff.1 nothing
      refine List.eq_nil_iff_forall_not_mem.2 fun t queued => ?_
      have high := List.find?_eq_none.1 no_high t queued
      have normal := List.find?_eq_none.1 no_normal t queued
      simp_all
  | pinned => exact List.head?_eq_none_iff.1 nothing

/-- Taking as many items as there are takes every one of them, each as often as it is queued. -/
theorem exists_drained (s : Strategy) (past : List (Request τ)) (n : Nat)
    (all : (backlog s past).length = n) :
    ∃ given : List τ, given.Perm (backlog s past) ∧ backlog s (.replicate n .pop ++ past) = [] ∧
      answers s (.replicate n .pop ++ past) = given.map some ++ answers s past := by
  induction n generalizing past with
  | zero =>
      obtain none_left : backlog s past = [] := List.eq_nil_of_length_eq_zero all
      exact ⟨[], by rw [none_left], none_left, rfl⟩
  | succ n ih =>
      have takes : Takes (backlog s past) (s.owner (backlog s past)).1
          (backlog s (.pop :: past)) := takes_serve s .pop (backlog s past)
      cases taken : (s.owner (backlog s past)).1 with
      | none =>
          rw [s.owner_fst] at taken
          rw [Strategy.eq_nil_of_due taken] at all
          cases all
      | some t =>
          rw [taken] at takes
          have fewer := takes.perm.length_eq
          rw [all, List.length_append, Option.toList_some, List.length_singleton] at fewer
          obtain ⟨given, same, none_left, answered⟩ := ih (.pop :: past) (by omega)
          rw [List.replicate_succ', List.append_assoc, List.singleton_append]
          refine ⟨given ++ [t], ?_, none_left, ?_⟩
          · exact (List.perm_append_comm.trans (same.cons t)).trans takes.perm
          · rw [answered, List.map_append, List.append_assoc, answers]
            exact congrArg (given.map some ++ · :: answers s past) taken

/-! ## The answers to any sequence of operations -/

/-- Whatever has been asked of a queue that was empty, the last operation first, its length is the
number of items added less those returned, and what it holds are the others, in the order in which
they have been added.  A new item is the newest one.  The owner gets what it is due and a thief
what it may have, the other items stay in their order, and a thief that gets nothing has changed
nothing.  Taking items until none is left returns every item that is queued exactly once. -/
theorem serves_by_age (s : Strategy) (b : Sequence.Backing) (past : List (Request τ)) :
    let queued := backlog s past
    let returned := (answers s past).flatMap Option.toList
    let pushed := past.flatMap Request.added
    ∃ q, Shared.play s b past = .ok (answers s past, q) ∧
      q.lanes.Lists s queued ∧ q.published = queued.length ∧
      q.published + returned.length = pushed.length ∧
      (returned ++ queued).Perm pushed ∧ queued.Sublist pushed ∧
      (∀ t, ∃ q', q.push t = .ok q' ∧ q'.lanes.Lists s (t :: queued)) ∧
      (∃ q' rest, q.pop = .ok (s.due queued, q') ∧ q'.lanes.Lists s rest ∧
        Takes queued (s.due queued) rest) ∧
      (∃ q' rest, q.steal = .ok (s.spare queued, q') ∧ q'.lanes.Lists s rest ∧
        Takes queued (s.spare queued) rest ∧ (s.spare queued = none → q' = q)) ∧
      ∃ (given : List τ) (q' : Shared τ),
        Shared.play s b (.replicate queued.length .pop ++ past) =
          .ok (given.map some ++ answers s past, q') ∧
        given.Perm queued ∧ q'.published = 0 ∧ q'.pop = .ok (none, q') := by
  intro queued returned pushed
  obtain ⟨q, played, serves⟩ := Shared.play_eq s b past
  have all : (returned ++ queued).Perm pushed := answers_backlog_perm s past
  refine ⟨q, played, serves.lists, serves.published_eq, ?_, all, backlog_sublist s past, ?_, ?_, ?_,
    ?_⟩
  · rw [serves.published_eq, ← all.length_eq, List.length_append, Nat.add_comm]
  · intro t
    obtain ⟨q', added, serves'⟩ := serves.perform (.push t)
    exact ⟨q', by rw [Shared.push, added]; rfl, serves'.lists⟩
  · obtain ⟨q', popped, serves'⟩ := serves.perform .pop
    rw [← s.owner_fst]
    exact ⟨q', _, popped, serves'.lists, takes_serve s .pop queued⟩
  · obtain ⟨q', stolen, serves'⟩ := serves.perform .steal
    rw [← s.thief_fst]
    refine ⟨q', _, stolen, serves'.lists, takes_serve s .steal queued, fun nothing => ?_⟩
    exact serves.steal_changes_nothing (by rw [← nothing]; exact stolen)
  · obtain ⟨given, same, none_left, answered⟩ := exists_drained s past _ rfl
    obtain ⟨q', played', serves'⟩ := Shared.play_eq s b (.replicate queued.length .pop ++ past)
    rw [none_left] at serves'
    refine ⟨given, q', by rw [played', answered], same, serves'.published_eq, ?_⟩
    exact Shared.pop_eq_of_published_eq_zero serves'.published_eq

end Operations

end AccessOrder.Queue
