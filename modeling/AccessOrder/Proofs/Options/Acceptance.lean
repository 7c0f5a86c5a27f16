/- # What is read from variables

Reading options succeeds exactly if every variable that is set has a value of its form, and the
options are what the values denote then, with the defaults for the variables that are not set.
Otherwise the first variable whose value has not the form is reported, and none after it is looked
up.

* `Denotes`, `Refuses` : what the value of a variable says, and how it is refused;
* `assign_eq_ok_iff`, `assign_eq_error_iff` : one variable;
* `readFrom_eq_ok_iff`, `readFrom_eq_error_iff`, `readFrom_congr` : any variables in any order;
* `read_exact` : all variables, and that options that are written out are read again.
-/
import AccessOrder.Proofs.Options.Grammar
namespace AccessOrder.Options

/-! ## What a value says -/

/-- Options have in the field of a variable what other options have there. -/
def Agrees (o base : Options) : Variable → Prop
  | .numWorkers => o.workers = base.workers
  | .pinWorkers => o.pinWorkers = base.pinWorkers
  | .startPaused => o.startPaused = base.startPaused
  | .readiness => o.readiness = base.readiness

/-- Options have in the field of a variable what a value denotes. -/
def Denotes (value : String) (o : Options) : Variable → Prop
  | .numWorkers => ∃ core, Core value core ∧
      ∃ n, Numeral core n ∧ (1 ≤ n ∧ n ≤ 2 ^ 64 - 1) ∧ o.workers.map WorkerCount.val = some n
  | .pinWorkers => ∃ core, Core value core ∧ ∃ word ∈ flagWords o.pinWorkers, Spells core word
  | .startPaused => ∃ core, Core value core ∧ ∃ word ∈ flagWords o.startPaused, Spells core word
  | .readiness => ∃ core, Core value core ∧ Spells core o.readiness.word

/-- How a value is refused that denotes nothing: as no number of workers if it denotes zero, else
with the variable and the value as it is. -/
inductive Refuses (value : String) : Variable → Fault → Prop
  | zero {core : List Char} : Core value core → Numeral core 0 →
      Refuses value .numWorkers .zeroWorkers
  | invalid {var : Variable} : (∀ o, ¬ Denotes value o var) →
      (var = .numWorkers → ∀ core, Core value core → ¬ Numeral core 0) →
      Refuses value var (.invalidValue var value)

/-- Options are the same if they have the same in every field. -/
theorem eq_of_agrees {o base : Options} (same : ∀ var, o.Agrees base var) : o = base := by
  cases o
  cases base
  obtain rfl := same .numWorkers
  obtain rfl := same .pinWorkers
  obtain rfl := same .startPaused
  obtain rfl := same .readiness
  rfl

section OneVariable

variable {value : String} {o base mid : Options} {var : Variable} {f : Fault}

/-- What a number of workers is said to be, once the core is found. -/
theorem denotes_numWorkers_iff : Denotes value o .numWorkers ↔
    ∃ n, parseCount? (trimmed value) = some n ∧ 1 ≤ n ∧ o.workers.map WorkerCount.val = some n := by
  simp only [Denotes, exists_core_iff, parseCount?_eq_some_iff]
  constructor
  · rintro ⟨n, numeral, ⟨pos, small⟩, here⟩
    exact ⟨n, ⟨numeral, small⟩, pos, here⟩
  · rintro ⟨n, ⟨numeral, small⟩, pos, here⟩
    exact ⟨n, numeral, ⟨pos, small⟩, here⟩

/-- What a flag is said to be, once the core is found. -/
theorem exists_word_iff {b : Bool} :
    (∃ core, Core value core ∧ ∃ word ∈ flagWords b, Spells core word) ↔
      parseFlag? value = some b := by
  rw [exists_core_iff, parseFlag?_eq_some_iff]

/-- What the readiness discipline is said to be, once the core is found. -/
theorem denotes_readiness_iff :
    Denotes value o .readiness ↔ parseReadiness? value = some o.readiness := by
  rw [Denotes, exists_core_iff, parseReadiness?_eq_some_iff]

/-- A value denotes one thing only. -/
theorem Denotes.agrees (denotes : Denotes value o var) (denotes' : Denotes value mid var) :
    o.Agrees mid var := by
  cases var with
  | numWorkers =>
      obtain ⟨n, read, -, here⟩ := denotes_numWorkers_iff.1 denotes
      obtain ⟨k, read', -, here'⟩ := denotes_numWorkers_iff.1 denotes'
      obtain rfl := Option.some.inj (read.symm.trans read')
      apply Option.map_injective _ (here.trans here'.symm)
      rintro ⟨n, _⟩ ⟨k, _⟩ rfl
      rfl
  | pinWorkers | startPaused =>
      exact Option.some.inj ((exists_word_iff.1 denotes).symm.trans (exists_word_iff.1 denotes'))
  | readiness =>
      exact Option.some.inj
        ((denotes_readiness_iff.1 denotes).symm.trans (denotes_readiness_iff.1 denotes'))

/-- What a value denotes is about the field of its variable alone. -/
theorem Denotes.of_agrees (denotes : Denotes value mid var) (agrees : o.Agrees mid var) :
    Denotes value o var := by
  cases var <;> unfold Agrees at agrees <;> unfold Denotes at denotes ⊢ <;> rwa [agrees]

/-- A value that is refused denotes nothing. -/
theorem Refuses.not_denotes (refuses : Refuses value var f) : ¬ Denotes value o var := by
  cases refuses with
  | zero core zero =>
      rintro ⟨core', whole, n, numeral, ⟨pos, -⟩, -⟩
      rw [core_iff.1 whole, ← core_iff.1 core] at numeral
      exact absurd (numeral.unique zero) (by omega)
  | invalid none _ => exact none o

/-- A value is refused in one way only. -/
theorem Refuses.unique {g : Fault} (refuses : Refuses value var f)
    (refuses' : Refuses value var g) : f = g := by
  cases refuses with
  | zero core zero =>
      cases refuses' with
      | zero => rfl
      | invalid _ nonzero => exact absurd zero (nonzero rfl _ core)
  | invalid _ nonzero =>
      cases refuses' with
      | zero core zero => exact absurd zero (nonzero rfl _ core)
      | invalid => rfl

/-! ## One variable -/

/-- Setting the option of a variable either succeeds with what the value denotes, leaving the other
options as they are, or refuses the value. -/
theorem assign_cases (base : Options) (var : Variable) (value : String) :
    (∃ o, base.assign var value = .ok o ∧ Denotes value o var ∧
      ∀ other, other ≠ var → o.Agrees base other) ∨
    ∃ f, base.assign var value = .error f ∧ Refuses value var f := by
  cases var with
  | numWorkers =>
      cases read : parseCount? (trimmed value) with
      | none =>
          right
          refine ⟨.invalidValue .numWorkers value, by rw [assign, read], .invalid ?_ ?_⟩
          · intro o denotes
            obtain ⟨n, read', -⟩ := denotes_numWorkers_iff.1 denotes
            cases read.symm.trans read'
          · intro _ core whole zero
            rw [core_iff.1 whole] at zero
            cases read.symm.trans (parseCount?_eq_some_iff.2 ⟨zero, by decide⟩)
      | some n =>
          have assigned : base.assign .numWorkers value = base.withWorkers n := by rw [assign, read]
          rw [assigned]
          cases n with
          | zero =>
              right
              exact ⟨.zeroWorkers, rfl, .zero (core_iff.2 rfl) (parseCount?_eq_some_iff.1 read).1⟩
          | succ n =>
              left
              refine ⟨_, base.withWorkers_succ n,
                denotes_numWorkers_iff.2 ⟨n + 1, read, by omega, rfl⟩, ?_⟩
              intro other different
              cases other <;> first | rfl | exact absurd rfl different
  | pinWorkers | startPaused =>
      cases read : parseFlag? value with
      | none =>
          right
          refine ⟨.invalidValue _ value, by rw [assign, read], .invalid ?_ nofun⟩
          intro o denotes
          cases read.symm.trans (exists_word_iff.1 denotes)
      | some b =>
          left
          refine ⟨_, by rw [assign, read], exists_word_iff.2 read, ?_⟩
          intro other different
          cases other <;> first | rfl | exact absurd rfl different
  | readiness =>
      cases read : parseReadiness? value with
      | none =>
          right
          refine ⟨.invalidValue .readiness value, by rw [assign, parseReadiness, read]; rfl,
            .invalid ?_ nofun⟩
          intro o denotes
          cases read.symm.trans (denotes_readiness_iff.1 denotes)
      | some r =>
          left
          refine ⟨{ base with readiness := r }, by rw [assign, parseReadiness, read]; rfl,
            denotes_readiness_iff.2 read, ?_⟩
          intro other different
          cases other <;> first | rfl | exact absurd rfl different

/-- Setting the option of a variable succeeds exactly with what the value denotes. -/
theorem assign_eq_ok_iff : base.assign var value = .ok o ↔
    Denotes value o var ∧ ∀ other, other ≠ var → o.Agrees base other := by
  rcases assign_cases base var value with ⟨mid, assigned, denotes, rest⟩ | ⟨f, assigned, refuses⟩
  · rw [assigned]
    constructor
    · intro same
      cases same
      exact ⟨denotes, rest⟩
    · rintro ⟨denotes', rest'⟩
      congr 1
      apply eq_of_agrees
      intro other
      by_cases own : other = var
      · subst own
        exact denotes.agrees denotes'
      · have here := rest other own
        have there := rest' other own
        cases other <;> exact here.trans there.symm
  · rw [assigned]
    exact iff_of_false nofun fun ⟨denotes, _⟩ => refuses.not_denotes denotes

/-- Setting the option of a variable fails exactly if the value denotes nothing. -/
theorem assign_eq_error_iff : base.assign var value = .error f ↔ Refuses value var f := by
  rcases assign_cases base var value with ⟨mid, assigned, denotes, -⟩ | ⟨g, assigned, refuses⟩
  · rw [assigned]
    exact iff_of_false nofun fun refuses => refuses.not_denotes denotes
  · rw [assigned]
    constructor
    · intro same
      cases same
      exact refuses
    · intro refuses'
      rw [refuses.unique refuses']

end OneVariable

/-! ## One variable after the other -/

/-- Options have in the field of a variable what its value denotes, or what other options have there
if the variable is not set. -/
def Takes (base o : Options) (var : Variable) : Option String → Prop
  | none => o.Agrees base var
  | some value => Denotes value o var

/-- A variable is not set, or its value denotes something. -/
def Fine (var : Variable) : Option String → Prop
  | none => True
  | some value => ∃ o, Denotes value o var

variable {lookup : Variable → Option String} {vars looked : List Variable} {o base : Options}
  {f : Fault}

/-- A variable that is not set is only looked up. -/
theorem readFrom_of_unset {var : Variable} (unset : lookup var = none) :
    readFrom lookup (var :: vars) base =
      ⟨var :: (readFrom lookup vars base).looked, (readFrom lookup vars base).result⟩ := by
  rw [readFrom, unset]

/-- A variable whose value denotes something is followed by the next one. -/
theorem readFrom_of_assigned {var : Variable} {value : String} {mid : Options}
    (set : lookup var = some value) (assigned : base.assign var value = .ok mid) :
    readFrom lookup (var :: vars) base =
      ⟨var :: (readFrom lookup vars mid).looked, (readFrom lookup vars mid).result⟩ := by
  rw [readFrom, set]
  simp only [assigned]

/-- A variable whose value is refused is the last one. -/
theorem readFrom_of_refused {var : Variable} {value : String}
    (set : lookup var = some value) (refused : base.assign var value = .error f) :
    readFrom lookup (var :: vars) base = ⟨[var], .error f⟩ := by
  rw [readFrom, set]
  simp only [refused]

/-- What has been read when one more variable is looked up before. -/
theorem reading_eq_iff {r : Reading} {var : Variable} {result : Except Fault Options} :
    (⟨var :: r.looked, r.result⟩ : Reading) = ⟨looked, result⟩ ↔
      ∃ rest, looked = var :: rest ∧ r = ⟨rest, result⟩ := by
  constructor
  · intro same
    cases same
    exact ⟨r.looked, rfl, rfl⟩
  · rintro ⟨rest, rfl, rfl⟩
    rfl

/-- One more variable to be read makes no difference to the others. -/
theorem told_cons {var v : Variable} (other : v ≠ var) :
    (if v ∈ var :: vars then lookup v else none) = if v ∈ vars then lookup v else none := by
  simp [other]

/-- Once the option of a variable has been set to what its value denotes, the other variables tell
the rest. -/
theorem takes_iff {var : Variable} {value : String} {mid : Options} (fresh : var ∉ vars)
    (set : lookup var = some value) (denotes : Denotes value mid var)
    (rest : ∀ other, other ≠ var → mid.Agrees base other) (v : Variable) :
    Takes mid o v (if v ∈ vars then lookup v else none) ↔
      Takes base o v (if v ∈ var :: vars then lookup v else none) := by
  by_cases own : v = var
  · subst own
    rw [if_neg fresh, if_pos List.mem_cons_self, set]
    exact ⟨denotes.of_agrees, fun denotes' => denotes'.agrees denotes⟩
  · rw [told_cons own]
    cases (if v ∈ vars then lookup v else none) with
    | none =>
        have agrees := rest v own
        show o.Agrees mid v ↔ o.Agrees base v
        cases v <;> unfold Agrees at agrees ⊢ <;> rw [agrees]
    | some value => exact Iff.rfl

/-- Variables are read without fault exactly if they are all looked up, and what comes of it are the
options in which each field is told by its variable. -/
theorem readFrom_eq_ok_iff (once : vars.Nodup) :
    readFrom lookup vars base = ⟨looked, .ok o⟩ ↔
      looked = vars ∧ ∀ var, Takes base o var (if var ∈ vars then lookup var else none) := by
  induction vars generalizing base looked with
  | nil =>
      constructor
      · intro same
        cases same
        exact ⟨rfl, fun var => by cases var <;> rfl⟩
      · rintro ⟨rfl, agrees⟩
        obtain rfl : o = base := eq_of_agrees agrees
        rfl
  | cons var vars ih =>
      obtain ⟨fresh, once⟩ := List.nodup_cons.1 once
      cases set : lookup var with
      | none =>
          have tells : ∀ v, (if v ∈ var :: vars then lookup v else none) =
              if v ∈ vars then lookup v else none := by
            intro v
            by_cases own : v = var
            · subst own
              rw [if_pos List.mem_cons_self, if_neg fresh, set]
            · exact told_cons own
          rw [readFrom_of_unset set, reading_eq_iff]
          simp only [tells, ih once]
          constructor
          · rintro ⟨rest, rfl, rfl, takes⟩
            exact ⟨rfl, takes⟩
          · rintro ⟨rfl, takes⟩
            exact ⟨vars, rfl, rfl, takes⟩
      | some value =>
          rcases assign_cases base var value with
            ⟨mid, assigned, denotes, rest⟩ | ⟨f, assigned, refuses⟩
          · rw [readFrom_of_assigned set assigned, reading_eq_iff]
            simp only [ih once, takes_iff fresh set denotes rest]
            constructor
            · rintro ⟨rest, rfl, rfl, takes⟩
              exact ⟨rfl, takes⟩
            · rintro ⟨rfl, takes⟩
              exact ⟨vars, rfl, rfl, takes⟩
          · rw [readFrom_of_refused set assigned]
            refine iff_of_false nofun fun ⟨_, takes⟩ => ?_
            have denotes := takes var
            rw [if_pos List.mem_cons_self, set] at denotes
            exact refuses.not_denotes denotes

/-- Reading variables ends with a fault exactly if the value of one of them is refused, none of
those before it has a value that would be, and those after it are not looked up. -/
theorem readFrom_eq_error_iff :
    readFrom lookup vars base = ⟨looked, .error f⟩ ↔
      ∃ before var after value, vars = before ++ var :: after ∧
        (∀ v ∈ before, Fine v (lookup v)) ∧ lookup var = some value ∧ Refuses value var f ∧
        looked = before ++ [var] := by
  induction vars generalizing base looked with
  | nil =>
      refine iff_of_false nofun ?_
      rintro ⟨before, var, after, value, none, -⟩
      cases before <;> cases none
  | cons var vars ih =>
      -- a variable that is not refused is one of those before
      have passes {mid : Options} (fine : Fine var (lookup var))
          (goes : readFrom lookup (var :: vars) base =
            ⟨var :: (readFrom lookup vars mid).looked, (readFrom lookup vars mid).result⟩) :
          readFrom lookup (var :: vars) base = ⟨looked, .error f⟩ ↔
            ∃ before v after value, var :: vars = before ++ v :: after ∧
              (∀ v ∈ before, Fine v (lookup v)) ∧ lookup v = some value ∧ Refuses value v f ∧
              looked = before ++ [v] := by
        rw [goes, reading_eq_iff]
        simp only [ih]
        constructor
        · rintro ⟨_, rfl, before, v, after, value, rfl, fines, set, refuses, rfl⟩
          exact ⟨var :: before, v, after, value, rfl, List.forall_mem_cons.2 ⟨fine, fines⟩, set,
            refuses, rfl⟩
        · rintro ⟨before, v, after, value, whole, fines, set, refuses, rfl⟩
          cases before with
          | nil =>
              obtain ⟨rfl, rfl⟩ := List.cons.inj whole
              rw [set] at fine
              obtain ⟨o, denotes⟩ := fine
              exact absurd denotes refuses.not_denotes
          | cons u before =>
              obtain ⟨rfl, rfl⟩ := List.cons.inj whole
              exact ⟨before ++ [v], rfl, before, v, after, value, rfl,
                (List.forall_mem_cons.1 fines).2, set, refuses, rfl⟩
      cases set : lookup var with
      | none => exact passes (by rw [set]; trivial) (readFrom_of_unset set)
      | some value =>
          rcases assign_cases base var value with
            ⟨mid, assigned, denotes, -⟩ | ⟨g, assigned, refuses⟩
          · exact passes (by rw [set]; exact ⟨mid, denotes⟩) (readFrom_of_assigned set assigned)
          · rw [readFrom_of_refused set assigned]
            constructor
            · intro same
              cases same
              exact ⟨[], var, vars, value, rfl, nofun, set, refuses, rfl⟩
            · rintro ⟨before, v, after, value', whole, fines, set', refuses', rfl⟩
              cases before with
              | nil =>
                  obtain ⟨rfl, rfl⟩ := List.cons.inj whole
                  obtain rfl := Option.some.inj (set.symm.trans set')
                  rw [refuses.unique refuses']
                  rfl
              | cons u before =>
                  obtain ⟨rfl, rfl⟩ := List.cons.inj whole
                  have fine := (List.forall_mem_cons.1 fines).1
                  rw [set] at fine
                  obtain ⟨o, denotes⟩ := fine
                  exact absurd denotes refuses.not_denotes

/-- What is read depends on nothing that is not looked up. -/
theorem readFrom_congr {other : Variable → Option String}
    (same : ∀ var ∈ (readFrom lookup vars base).looked, other var = lookup var) :
    readFrom other vars base = readFrom lookup vars base := by
  induction vars generalizing base with
  | nil => rfl
  | cons var vars ih =>
      cases set : lookup var with
      | none =>
          rw [readFrom_of_unset set] at same ⊢
          rw [List.forall_mem_cons] at same
          rw [readFrom_of_unset (same.1.trans set), ih same.2]
      | some value =>
          rcases assign_cases base var value with ⟨mid, assigned, -⟩ | ⟨g, refused, -⟩
          · rw [readFrom_of_assigned set assigned] at same ⊢
            rw [List.forall_mem_cons] at same
            rw [readFrom_of_assigned (same.1.trans set) assigned, ih same.2]
          · rw [readFrom_of_refused set refused] at same ⊢
            rw [readFrom_of_refused ((same var List.mem_cons_self).trans set) refused]

/-! ## All variables -/

/-- The field of a variable written out: a number in decimal, possibly after a plus sign and zeros,
or a word in letters of either case. -/
def Writes (o : Options) (core : List Char) : Variable → Prop
  | .numWorkers => ∃ n sign zeros, o.workers = some n ∧ (sign = [] ∨ sign = ['+']) ∧
      core = sign ++ (List.replicate zeros '0' ++ (toString n.val).toList)
  | .pinWorkers => ∃ word ∈ flagWords o.pinWorkers, Spells core word
  | .startPaused => ∃ word ∈ flagWords o.startPaused, Spells core word
  | .readiness => Spells core o.readiness.word

/-- A value is the field of a variable written out, with any blanks around. -/
def Prints (o : Options) (value : String) (var : Variable) : Prop :=
  ∃ front core back, value.toList = front ++ core ++ back ∧
    (∀ c ∈ front, Text.isBlank c = true) ∧ (∀ c ∈ back, Text.isBlank c = true) ∧
    o.Writes core var

/-- No blank is written out. -/
theorem Writes.solid {core : List Char} {var : Variable} (writes : o.Writes core var) :
    ∀ c ∈ core, Text.isBlank c = false := by
  cases var with
  | numWorkers =>
      obtain ⟨n, sign, zeros, -, signs, rfl⟩ := writes
      intro c mem
      rcases List.mem_append.1 mem with mem | mem
      · rcases signs with rfl | rfl
        · cases mem
        · rw [List.mem_singleton.1 mem]
          decide
      · have digit := isDigit_of_mem_written c mem
        exact isBlank_of_isAlphanum (by rw [Char.isAlphanum, digit, Bool.or_true])
  | pinWorkers | startPaused =>
      obtain ⟨word, mem, spells⟩ := writes
      exact spells.solid (flagWords_small _ word mem).2
  | readiness => exact Spells.solid writes (word_small _).2

/-- A field that is written out denotes itself, if a number of workers fits into a word. -/
theorem Prints.denotes {value : String} {var : Variable} (prints : o.Prints value var)
    (fits : ∀ n ∈ o.workers, n.val < 2 ^ 64) : Denotes value o var := by
  obtain ⟨front, core, back, whole, before, after, writes⟩ := prints
  have found : Core value core := core_of_forall whole before after writes.solid
  cases var with
  | numWorkers =>
      obtain ⟨n, sign, zeros, workers, signs, rfl⟩ := writes
      have small := fits n workers
      refine ⟨_, found, n.val, numeral_written signs zeros n.val, ⟨n.pos, by omega⟩, ?_⟩
      rw [workers]
      rfl
  | pinWorkers | startPaused | readiness => exact ⟨core, found, writes⟩

/-- Each variable is read once. -/
theorem Variable.nodup_all : Variable.all.Nodup := by decide

/-- Every variable is read. -/
theorem Variable.mem_all (var : Variable) : var ∈ Variable.all := by cases var <;> decide

/-- Whatever the variables are set to, reading them yields options exactly if each is unset or has a
value of its form, and then those that the values denote, with the defaults for the rest.  Otherwise
it reports the first value that is refused, and looks up nothing after it; what is not looked up
makes no difference.  Options that are written out to the variables are read again. -/
theorem read_exact (lookup : String → Option String) :
    (∀ looked o, read (fun var => lookup var.name) = ⟨looked, .ok o⟩ ↔
      looked = Variable.all ∧ ∀ var, Takes default o var (lookup var.name)) ∧
    (∀ looked f, read (fun var => lookup var.name) = ⟨looked, .error f⟩ ↔
      ∃ before var after value, Variable.all = before ++ var :: after ∧
        (∀ v ∈ before, Fine v (lookup v.name)) ∧ lookup var.name = some value ∧
        Refuses value var f ∧ looked = before ++ [var]) ∧
    (∀ other : String → Option String,
      (∀ var ∈ (read fun var => lookup var.name).looked, other var.name = lookup var.name) →
      read (fun var => other var.name) = read fun var => lookup var.name) ∧
    ∀ (o : Options) (n : WorkerCount), o.workers = some n → n.val < 2 ^ 64 →
      (∀ var : Variable, ∃ value, lookup var.name = some value ∧ o.Prints value var) →
      read (fun var => lookup var.name) = ⟨Variable.all, .ok o⟩ := by
  have accepts : ∀ looked o, read (fun var => lookup var.name) = ⟨looked, .ok o⟩ ↔
      looked = Variable.all ∧ ∀ var, Takes default o var (lookup var.name) := by
    intro looked o
    rw [read, readFrom_eq_ok_iff Variable.nodup_all]
    simp only [if_pos (Variable.mem_all _)]
  refine ⟨accepts, fun looked f => readFrom_eq_error_iff, fun other => readFrom_congr, ?_⟩
  intro o n workers small printed
  apply (accepts _ o).2
  refine ⟨rfl, fun var => ?_⟩
  obtain ⟨value, set, prints⟩ := printed var
  rw [set]
  apply prints.denotes
  intro k mem
  cases workers.symm.trans mem
  exact small

/-- Variables that are written out generously, as far as they are set. -/
def generous (name : String) : Option String :=
  if name = Variable.numWorkers.name then some "\u3000+007\n"
  else if name = Variable.pinWorkers.name then some "YeS"
  else if name = Variable.startPaused.name then some "\tofF "
  else some " LAZY"

/-- Generously written options are read as they are meant. -/
theorem read_exact_generous :
    (∀ var : Variable, ∃ value, generous var.name = some value ∧
      Prints ⟨some ⟨7, by decide⟩, true, false, .lazy⟩ value var) ∧
    read (fun var => generous var.name) =
      ⟨Variable.all, .ok ⟨some ⟨7, by decide⟩, true, false, .lazy⟩⟩ := by
  have printed : ∀ var : Variable, ∃ value, generous var.name = some value ∧
      Prints ⟨some ⟨7, by decide⟩, true, false, .lazy⟩ value var := by
    intro var
    have blank : Text.isBlank '\u3000' = true ∧ Text.isBlank '\n' = true ∧
        Text.isBlank '\t' = true ∧ Text.isBlank ' ' = true := by decide
    cases var with
    | numWorkers =>
        exact ⟨_, rfl, ['\u3000'], ['+', '0', '0', '7'], ['\n'], by decide, by simp [blank],
          by simp [blank], ⟨7, by decide⟩, ['+'], 2, rfl, .inr rfl, by decide⟩
    | pinWorkers =>
        exact ⟨_, rfl, [], ['Y', 'e', 'S'], [], by decide, nofun, nofun, "yes", by decide,
          spells_iff.2 (by decide)⟩
    | startPaused =>
        exact ⟨_, rfl, ['\t'], ['o', 'f', 'F'], [' '], by decide, by simp [blank], by simp [blank],
          "off", by decide, spells_iff.2 (by decide)⟩
    | readiness =>
        exact ⟨_, rfl, [' '], ['L', 'A', 'Z', 'Y'], [], by decide, by simp [blank], nofun,
          spells_iff.2 (by decide)⟩
  exact ⟨printed, (read_exact generous).2.2.2 _ ⟨7, by decide⟩ rfl (by decide) printed⟩

end AccessOrder.Options
