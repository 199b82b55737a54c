import SlothBox.Library.Except

/-! Schemas that collect issues. A value of the wrong type is aborted: it yields nothing
and is not refined. A value that breaks a bound is kept and refined all the same.
Refinements run after all bounds of all fields, in rounds, and may throw. -/

namespace SlothBox.Library

variable {ι ε α β : Type}

/-- What a schema makes of one value, refinements included but not yet run. -/
structure Parsed (ι ε α : Type) where
  value : Option α
  issues : List ι := []
  refined : Except ε (List ι) := .ok []
  late : List ι := []

namespace Parsed

def abort (issue : ι) : Parsed ι ε α where
  value := none
  issues := [issue]

def pass (a : α) : Parsed ι ε α where
  value := some a

/-- A bound. -/
def check (parsed : Parsed ι ε α) (holds : α → Bool) (issue : ι) : Parsed ι ε α :=
  { parsed with issues := parsed.issues ++ if parsed.value.all holds then [] else [issue] }

/-- A refinement of the first round. -/
def refine (parsed : Parsed ι ε α) (holds : α → Except ε Bool) (issue : ι) : Parsed ι ε α :=
  { parsed with
    refined := do
      let earlier ← parsed.refined
      match parsed.value with
      | none => return earlier
      | some a => return earlier ++ if ← holds a then [] else [issue] }

/-- A refinement of a refinement. -/
def refineAgain (parsed : Parsed ι ε α) (holds : α → Bool) (issue : ι) : Parsed ι ε α :=
  { parsed with late := parsed.late ++ if parsed.value.all holds then [] else [issue] }

def map (f : α → β) (parsed : Parsed ι ε α) : Parsed ι ε β :=
  { parsed with value := parsed.value.map f }

/-- One more field of an object. -/
def field (object : Parsed ι ε (α → β)) (parsed : Parsed ι ε α) : Parsed ι ε β where
  value := object.value.bind parsed.value.map
  issues := object.issues ++ parsed.issues
  refined := do
    let first ← object.refined
    let second ← parsed.refined
    return first ++ second
  late := object.late ++ parsed.late

/-- The end of the run: a refinement of the whole value sees it only if no field was
aborted, and any issue refuses the value. -/
def outcome (parsed : Parsed ι ε α) (whole : α → List ι) : Except ε (Except (List ι) α) := do
  let refined ← parsed.refined
  let found := parsed.issues ++ refined ++ parsed.late ++ parsed.value.elim [] whole
  match parsed.value with
  | some a => return if found.isEmpty then .ok a else .error found
  | none => return .error found

/-- The value, without a single issue. -/
structure Accepts (parsed : Parsed ι ε α) (a : α) : Prop where
  value : parsed.value = some a
  issues : parsed.issues = []
  refined : parsed.refined = .ok []
  late : parsed.late = []

@[simp] theorem accepts_abort {issue : ι} {a : α} : ¬(abort issue : Parsed ι ε α).Accepts a := by
  rintro ⟨value, -, -, -⟩
  cases value

@[simp] theorem accepts_pass {a b : α} : (pass a : Parsed ι ε α).Accepts b ↔ a = b :=
  ⟨fun accepted => Option.some.inj accepted.value, fun same => ⟨congrArg some same, rfl, rfl, rfl⟩⟩

@[simp] theorem accepts_check {parsed : Parsed ι ε α} {holds : α → Bool} {issue : ι} {a : α} :
    (parsed.check holds issue).Accepts a ↔ parsed.Accepts a ∧ holds a := by
  constructor
  · rintro ⟨value, issues, refined, late⟩
    simp only [check, List.append_eq_nil_iff] at value issues
    refine ⟨⟨value, issues.1, refined, late⟩, ?_⟩
    have bound := issues.2
    rw [value] at bound
    simpa using bound
  · rintro ⟨⟨value, issues, refined, late⟩, bound⟩
    exact ⟨value, by simp [check, issues, value, bound], refined, late⟩

@[simp] theorem accepts_refine {parsed : Parsed ι ε α} {holds : α → Except ε Bool} {issue : ι} {a : α} :
    (parsed.refine holds issue).Accepts a ↔ parsed.Accepts a ∧ holds a = .ok true := by
  constructor
  · rintro ⟨value, issues, refined, late⟩
    obtain ⟨earlier, ran, refined⟩ := bind_ok.mp refined
    have value : parsed.value = some a := value
    simp only [value] at refined
    obtain ⟨verdict, judged, refined⟩ := bind_ok.mp refined
    obtain ⟨nothing, fine⟩ := List.append_eq_nil_iff.mp (Except.ok.inj refined)
    refine ⟨⟨value, issues, nothing ▸ ran, late⟩, ?_⟩
    cases verdict
    · cases fine
    · exact judged
  · rintro ⟨⟨value, issues, refined, late⟩, judged⟩
    exact ⟨value, issues, by simp [refine, refined, value, judged, bind, Except.bind, pure, Except.pure], late⟩

@[simp] theorem accepts_refineAgain {parsed : Parsed ι ε α} {holds : α → Bool} {issue : ι} {a : α} :
    (parsed.refineAgain holds issue).Accepts a ↔ parsed.Accepts a ∧ holds a := by
  constructor
  · rintro ⟨value, issues, refined, late⟩
    simp only [refineAgain, List.append_eq_nil_iff] at value late
    refine ⟨⟨value, issues, refined, late.1⟩, ?_⟩
    have bound := late.2
    rw [value] at bound
    simpa using bound
  · rintro ⟨⟨value, issues, refined, late⟩, bound⟩
    exact ⟨value, issues, refined, by simp [refineAgain, late, value, bound]⟩

@[simp] theorem accepts_map {parsed : Parsed ι ε α} {f : α → β} {b : β} :
    (parsed.map f).Accepts b ↔ ∃ a, parsed.Accepts a ∧ f a = b := by
  constructor
  · rintro ⟨value, issues, refined, late⟩
    obtain ⟨a, value, same⟩ := Option.map_eq_some_iff.mp value
    exact ⟨a, ⟨value, issues, refined, late⟩, same⟩
  · rintro ⟨a, ⟨value, issues, refined, late⟩, same⟩
    exact ⟨Option.map_eq_some_iff.mpr ⟨a, value, same⟩, issues, refined, late⟩

/-- An object is accepted with its fields. -/
@[simp] theorem accepts_field {object : Parsed ι ε (α → β)} {parsed : Parsed ι ε α} {b : β} :
    (object.field parsed).Accepts b ↔ ∃ f a, object.Accepts f ∧ parsed.Accepts a ∧ f a = b := by
  constructor
  · rintro ⟨value, issues, refined, late⟩
    obtain ⟨f, constructed, value⟩ := Option.bind_eq_some_iff.mp value
    obtain ⟨a, value, same⟩ := Option.map_eq_some_iff.mp value
    obtain ⟨objectIssues, issues⟩ := List.append_eq_nil_iff.mp issues
    obtain ⟨objectLate, late⟩ := List.append_eq_nil_iff.mp late
    obtain ⟨first, objectRefined, refined⟩ := bind_ok.mp refined
    obtain ⟨second, refinement, refined⟩ := bind_ok.mp refined
    obtain ⟨rfl, rfl⟩ := List.append_eq_nil_iff.mp (Except.ok.inj refined)
    exact ⟨f, a, ⟨constructed, objectIssues, objectRefined, objectLate⟩, ⟨value, issues, refinement, late⟩, same⟩
  · rintro ⟨f, a, object, parsed, rfl⟩
    exact ⟨by simp [field, object.value, parsed.value], by simp [field, object.issues, parsed.issues],
      by simp [field, object.refined, parsed.refined, bind, Except.bind, pure, Except.pure],
      by simp [field, object.late, parsed.late]⟩

/-- A value comes out exactly when nothing found an issue with it. -/
theorem outcome_ok {parsed : Parsed ι ε α} {whole : α → List ι} {a : α} :
    parsed.outcome whole = .ok (.ok a) ↔ parsed.Accepts a ∧ whole a = [] := by
  constructor
  · intro accepted
    obtain ⟨refined, ran, accepted⟩ := bind_ok.mp accepted
    cases value : parsed.value with
    | none =>
      rw [value] at accepted
      cases accepted
    | some b =>
      simp only [value, Option.elim_some] at accepted
      split at accepted
      next clean =>
        cases accepted
        simp only [List.isEmpty_iff, List.append_eq_nil_iff] at clean
        obtain ⟨⟨⟨issues, none⟩, late⟩, whole⟩ := clean
        exact ⟨⟨value, issues, none ▸ ran, late⟩, whole⟩
      next => cases accepted
  · rintro ⟨⟨value, issues, refined, late⟩, clean⟩
    simp [outcome, value, issues, refined, late, clean, bind, Except.bind, pure, Except.pure]

end Parsed

end SlothBox.Library
