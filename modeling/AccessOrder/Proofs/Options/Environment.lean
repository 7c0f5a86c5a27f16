/- # What is read from an environment

An environment sets variables to byte strings, of which not all are texts.  A variable that is set
to a text is read as it would be from a look-up of texts.  One that is set to bytes that are no text
is read as if it were not set, and nobody is told of it.

* `fromUTF8?_eq_some_iff`, `fromUTF8?_eq_none_iff` : bytes of a text, and bytes that are none;
* `TakesBytes`, `takesBytes_iff` : what the bytes of a variable say;
* `readBytes_exact` : what is read, and what is refused;
* `garbled_value_unreported` : bytes that are no text are not refused.
-/
import AccessOrder.Proofs.Options.Acceptance
namespace AccessOrder.Options

/-! ## Bytes and texts -/

/-- Bytes that are no text. -/
def Garbled (bytes : ByteArray) : Prop := ∀ text : String, text.toUTF8 ≠ bytes

/-- A text is read from its bytes and from no others. -/
theorem fromUTF8?_eq_some_iff {bytes : ByteArray} {text : String} :
    String.fromUTF8? bytes = some text ↔ text.toUTF8 = bytes := by
  unfold String.fromUTF8?
  constructor
  · intro read
    split at read
    · cases read
      rfl
    · cases read
  · rintro rfl
    rw [String.toUTF8_eq_toByteArray, dif_pos text.isValidUTF8]
    rfl

/-- No text is read from bytes exactly if they are none. -/
theorem fromUTF8?_eq_none_iff {bytes : ByteArray} :
    String.fromUTF8? bytes = none ↔ Garbled bytes := by
  rw [Option.eq_none_iff_forall_ne_some]
  exact forall_congr' fun text => not_congr fromUTF8?_eq_some_iff

/-! ## What bytes say -/

/-- Options have in the field of a variable what its bytes say: what a text denotes, and what other
options have there if the variable is not set or the bytes are no text. -/
inductive TakesBytes (base o : Options) (var : Variable) : Option ByteArray → Prop
  | unset : o.Agrees base var → TakesBytes base o var none
  | garbled {bytes : ByteArray} : Garbled bytes → o.Agrees base var →
      TakesBytes base o var (some bytes)
  | text {text : String} : Denotes text o var → TakesBytes base o var (some text.toUTF8)

/-- Bytes from which the option of a variable cannot be told: they are no text, or one that denotes
nothing. -/
def Unparsable (bytes : ByteArray) (var : Variable) : Prop :=
  ∀ text : String, text.toUTF8 = bytes → ∀ o, ¬ Denotes text o var

variable {base o : Options} {var : Variable} {setting : Option ByteArray}

/-- A variable is found as a text if it is set to the bytes of that text. -/
theorem bind_eq_some_iff {text : String} :
    setting.bind String.fromUTF8? = some text ↔ setting = some text.toUTF8 := by
  rw [Option.bind_eq_some_iff]
  constructor
  · rintro ⟨bytes, rfl, read⟩
    rw [fromUTF8?_eq_some_iff.1 read]
  · rintro rfl
    exact ⟨_, rfl, fromUTF8?_eq_some_iff.2 rfl⟩

/-- What is taken from bytes is what is taken from the text that is read from them. -/
theorem takesBytes_iff :
    TakesBytes base o var setting ↔ Takes base o var (setting.bind String.fromUTF8?) := by
  constructor
  · intro takes
    cases takes with
    | unset agrees => exact agrees
    | garbled garbled agrees =>
        rw [Option.bind_some, fromUTF8?_eq_none_iff.2 garbled]
        exact agrees
    | text denotes =>
        rw [bind_eq_some_iff.2 rfl]
        exact denotes
  · intro takes
    cases read : setting.bind String.fromUTF8? with
    | none =>
        rw [read] at takes
        cases setting with
        | none => exact .unset takes
        | some bytes => exact .garbled (fromUTF8?_eq_none_iff.1 read) takes
    | some text =>
        rw [read] at takes
        rw [bind_eq_some_iff.1 read]
        exact .text takes

/-- Something can be taken from bytes unless they are a text that denotes nothing. -/
theorem exists_takesBytes_iff :
    (∃ o, TakesBytes base o var setting) ↔ Fine var (setting.bind String.fromUTF8?) := by
  simp only [takesBytes_iff]
  cases setting.bind String.fromUTF8? with
  | none =>
      have agrees : base.Agrees base var := by cases var <;> rfl
      exact iff_of_true ⟨base, agrees⟩ trivial
  | some text => exact Iff.rfl

/-- What is taken from the bytes of a text is what it denotes. -/
theorem TakesBytes.exists_text {bytes : ByteArray} (takes : TakesBytes base o var (some bytes))
    (legible : ¬ Garbled bytes) : ∃ text, text.toUTF8 = bytes ∧ Denotes text o var := by
  cases takes with
  | garbled garbled => exact absurd garbled legible
  | text denotes => exact ⟨_, rfl, denotes⟩

/-- Nothing is taken from the bytes of a text from which the option cannot be told. -/
theorem Unparsable.not_takesBytes {bytes : ByteArray} (unparsable : Unparsable bytes var)
    (legible : ¬ Garbled bytes) : ¬ TakesBytes base o var (some bytes) := by
  intro takes
  obtain ⟨text, same, denotes⟩ := takes.exists_text legible
  exact unparsable text same o denotes

/-! ## All variables -/

section Environments

variable {environment : String → Option ByteArray} {looked : List Variable} {f : Fault}

/-- An environment is read without fault exactly if something can be taken from each variable, and
what comes of it are the options in which each field is told by its variable. -/
theorem readBytes_eq_ok_iff : readBytes (fun var => environment var.name) = ⟨looked, .ok o⟩ ↔
    looked = Variable.all ∧ ∀ var, TakesBytes default o var (environment var.name) := by
  rw [readBytes, read, readFrom_eq_ok_iff Variable.nodup_all]
  simp only [if_pos (Variable.mem_all _), takesBytes_iff]

/-- An environment is refused at the first variable that is set to a text that is refused. -/
theorem readBytes_eq_error_iff : readBytes (fun var => environment var.name) = ⟨looked, .error f⟩ ↔
    ∃ before var after text, Variable.all = before ++ var :: after ∧
      (∀ v ∈ before, ∃ o, TakesBytes default o v (environment v.name)) ∧
      environment var.name = some text.toUTF8 ∧ Refuses text var f ∧ looked = before ++ [var] := by
  rw [readBytes, read, readFrom_eq_error_iff]
  simp only [exists_takesBytes_iff, bind_eq_some_iff]

/-- The options that are read have what is taken from the variables. -/
theorem takesBytes_of_read (result : (readBytes fun var => environment var.name).result = .ok o)
    (var : Variable) : TakesBytes default o var (environment var.name) :=
  (readBytes_eq_ok_iff.1 (congrArg (Reading.mk _) result)).2 var

/-- An environment is refused exactly if some variable is set to a text from which its option cannot
be told. -/
theorem exists_error_iff : (∃ f, (readBytes fun var => environment var.name).result = .error f) ↔
    ∃ var bytes, environment (Variable.name var) = some bytes ∧ ¬ Garbled bytes ∧
      Unparsable bytes var := by
  constructor
  · rintro ⟨f, result⟩
    obtain ⟨-, var, -, text, -, -, set, refuses, -⟩ :=
      readBytes_eq_error_iff.1 (congrArg (Reading.mk _) result)
    refine ⟨var, _, set, fun garbled => garbled text rfl, ?_⟩
    intro other same o
    rw [String.toByteArray_inj.1 same]
    exact refuses.not_denotes
  · rintro ⟨var, bytes, set, legible, unparsable⟩
    cases result : (readBytes fun var => environment var.name).result with
    | error f => exact ⟨f, rfl⟩
    | ok o =>
        have takes := takesBytes_of_read result var
        rw [set] at takes
        exact absurd takes (unparsable.not_takesBytes legible)

end Environments

/-- Reading an environment yields what the variables say that are set to texts, with the defaults
for the others, and is refused at the first text that denotes nothing.  So it fails exactly if some
variable is set to a text from which its option cannot be told.  If whatever is set is a text, then
only variables that are not set count as such. -/
theorem readBytes_exact (environment : String → Option ByteArray) :
    (∀ looked o, readBytes (fun var => environment var.name) = ⟨looked, .ok o⟩ ↔
      looked = Variable.all ∧ ∀ var, TakesBytes default o var (environment var.name)) ∧
    (∀ looked f, readBytes (fun var => environment var.name) = ⟨looked, .error f⟩ ↔
      ∃ before var after text, Variable.all = before ++ var :: after ∧
        (∀ v ∈ before, ∃ o, TakesBytes default o v (environment v.name)) ∧
        environment var.name = some text.toUTF8 ∧ Refuses text var f ∧ looked = before ++ [var]) ∧
    ((∃ f, (readBytes fun var => environment var.name).result = .error f) ↔
      ∃ var bytes, environment var.name = some bytes ∧ ¬ Garbled bytes ∧ Unparsable bytes var) ∧
    ((∀ var bytes, environment (Variable.name var) = some bytes → ¬ Garbled bytes) →
      ∀ o, (readBytes fun var => environment var.name).result = .ok o → ∀ var,
        (environment var.name = none → o.Agrees default var) ∧
        ∀ bytes, environment var.name = some bytes →
          ∃ text, text.toUTF8 = bytes ∧ Denotes text o var) := by
  refine ⟨fun looked o => readBytes_eq_ok_iff, fun looked f => readBytes_eq_error_iff,
    exists_error_iff, ?_⟩
  intro legible o result var
  have takes := takesBytes_of_read result var
  constructor
  · intro unset
    rw [unset] at takes
    cases takes with
    | unset agrees => exact agrees
  · intro bytes set
    rw [set] at takes
    exact takes.exists_text (legible var bytes set)

/-- An environment in which the number of workers is set to three, and nothing else is set. -/
def threeWorkers (name : String) : Option ByteArray :=
  if name = Variable.numWorkers.name then some "3".toUTF8 else none

/-- Three workers are read as they are set. -/
theorem readBytes_exact_three :
    (∀ var bytes, threeWorkers (Variable.name var) = some bytes → ¬ Garbled bytes) ∧
    (readBytes fun var => threeWorkers var.name).result =
      .ok ⟨some ⟨3, by decide⟩, false, false, .eager⟩ ∧
    ∃ text, text.toUTF8 = "3".toUTF8 ∧
      Denotes text ⟨some ⟨3, by decide⟩, false, false, .eager⟩ .numWorkers := by
  have legible : ∀ var bytes, threeWorkers (Variable.name var) = some bytes → ¬ Garbled bytes := by
    intro var bytes set garbled
    unfold threeWorkers at set
    split at set
    · exact garbled _ (Option.some.inj set)
    · cases set
  have result : (readBytes fun var => threeWorkers var.name).result =
      .ok ⟨some ⟨3, by decide⟩, false, false, .eager⟩ := by rfl
  exact ⟨legible, result,
    ((readBytes_exact threeWorkers).2.2.2 legible _ result .numWorkers).2 _ rfl⟩

/-- An environment in which the number of workers is set to a byte that is no text, and nothing else
is set. -/
def garbledWorkers (name : String) : Option ByteArray :=
  if name = Variable.numWorkers.name then some ⟨#[0xff]⟩ else none

/-- Bytes that are no text are not refused, although no option can be told from them: the variable
counts as not set. -/
theorem garbled_value_unreported :
    garbledWorkers Variable.numWorkers.name = some ⟨#[0xff]⟩ ∧
    Unparsable ⟨#[0xff]⟩ .numWorkers ∧
    readBytes (fun var => garbledWorkers var.name) = ⟨Variable.all, .ok default⟩ ∧
    ¬ ∀ (environment : String → Option ByteArray) (var : Variable) bytes,
      environment var.name = some bytes → Unparsable bytes var →
        ∃ f, (readBytes fun var => environment var.name).result = .error f := by
  have garbled : Garbled ⟨#[0xff]⟩ := fromUTF8?_eq_none_iff.1 (by decide)
  have unparsable : Unparsable ⟨#[0xff]⟩ .numWorkers :=
    fun text same => absurd same (garbled text)
  have reading : readBytes (fun var => garbledWorkers var.name) = ⟨Variable.all, .ok default⟩ := by
    rfl
  refine ⟨rfl, unparsable, reading, fun reported => ?_⟩
  obtain ⟨f, refused⟩ := reported garbledWorkers .numWorkers _ rfl unparsable
  rw [reading] at refused
  cases refused

end AccessOrder.Options
