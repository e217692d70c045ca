/-
What a verdict records of the findings.

Findings are recorded one after another, and each recording only adds to the end of some
lists.  So the verdict of some findings followed by others is the one verdict followed by
the other, list by list (`ofFindings_append`), and whatever holds of a single finding and
is kept when verdicts are put together holds of all verdicts.  `Consistent` is such a
property: the mark of validity says whether there are errors, and the line numbers are
those of the contexts.
-/
import Scrutiny.Report.Verdict

namespace Scrutiny

variable {finding : Finding}

namespace Verdict

/-! ### One verdict after another -/

/-- One verdict after another, list by list. -/
def append (a b : Verdict) : Verdict where
  isValid := a.isValid && b.isValid
  errors := a.errors ++ b.errors
  warnings := a.warnings ++ b.warnings
  lineNumbers := a.lineNumbers ++ b.lineNumbers
  suggestions := a.suggestions ++ b.suggestions
  contexts := a.contexts ++ b.contexts

instance : Append Verdict := ⟨append⟩

@[simp] theorem append_isValid (a b : Verdict) : (a ++ b).isValid = (a.isValid && b.isValid) := rfl

@[simp] theorem append_errors (a b : Verdict) : (a ++ b).errors = a.errors ++ b.errors := rfl

@[simp] theorem append_warnings (a b : Verdict) :
    (a ++ b).warnings = a.warnings ++ b.warnings := rfl

@[simp] theorem append_lineNumbers (a b : Verdict) :
    (a ++ b).lineNumbers = a.lineNumbers ++ b.lineNumbers := rfl

@[simp] theorem append_suggestions (a b : Verdict) :
    (a ++ b).suggestions = a.suggestions ++ b.suggestions := rfl

@[simp] theorem append_contexts (a b : Verdict) :
    (a ++ b).contexts = a.contexts ++ b.contexts := rfl

attribute [ext] Verdict

theorem append_assoc (a b c : Verdict) : a ++ b ++ c = a ++ (b ++ c) := by
  ext1 <;> simp [Bool.and_assoc]

theorem append_empty (a : Verdict) : a ++ empty = a := by
  ext1 <;> simp [empty]

/-! ### Recording adds to the end -/

theorem addWarning_eq (v : Verdict) (text : String) :
    v.addWarning text = v ++ empty.addWarning text := by
  ext1 <;> simp [addWarning, empty]

theorem record_eq (finding : Finding) (v : Verdict) :
    finding.record v = v ++ finding.record empty := by
  unfold Finding.record
  split
  · split
    · ext1 <;> simp [addErrorAt, addError, empty]
    · ext1 <;> simp [addError, empty]
  · exact addWarning_eq v finding.text
  · ext1 <;> simp [addSuggestion, empty]

theorem ofFindings_cons (finding : Finding) (findings : List Finding) :
    ofFindings (finding :: findings) = finding.record empty ++ ofFindings findings := by
  have hstart : ∀ (findings : List Finding) (v : Verdict),
      findings.foldl (fun v finding => finding.record v) v = v ++ ofFindings findings := by
    intro findings
    induction findings with
    | nil => intro v; exact (append_empty v).symm
    | cons finding findings ih =>
      intro v
      show findings.foldl _ (finding.record v) = v ++ findings.foldl _ (finding.record empty)
      rw [ih, ih, record_eq, append_assoc]
  exact hstart findings (finding.record empty)

/-- **Findings after findings give a verdict after a verdict.** -/
theorem ofFindings_append (first second : List Finding) :
    ofFindings (first ++ second) = ofFindings first ++ ofFindings second := by
  induction first with
  | nil => rfl
  | cons finding first ih =>
    rw [List.cons_append, ofFindings_cons, ofFindings_cons, ih, append_assoc]

/-- Warnings alone. -/
theorem foldl_addWarning (texts : List String) (v : Verdict) :
    texts.foldl addWarning v = { v with warnings := v.warnings ++ texts } := by
  induction texts generalizing v with
  | nil => rw [List.append_nil]; rfl
  | cons text texts ih =>
    rw [List.foldl_cons, ih]
    simp [addWarning]

/-! ### Consistent verdicts -/

/-- The parts of a verdict are in step. -/
structure Consistent (v : Verdict) : Prop where
  /-- A verdict is valid just when there is no error. -/
  valid : v.isValid = true ↔ v.errors = []
  /-- The lines are those of the contexts. -/
  lines : v.lineNumbers = v.contexts.map Context.line

theorem Consistent.append {a b : Verdict} (ha : a.Consistent) (hb : b.Consistent) :
    (a ++ b).Consistent where
  valid := by
    rw [append_isValid, Bool.and_eq_true, ha.valid, hb.valid, append_errors, List.append_eq_nil_iff]
  lines := by rw [append_lineNumbers, append_contexts, List.map_append, ha.lines, hb.lines]

theorem consistent_record (finding : Finding) : (finding.record empty).Consistent := by
  unfold Finding.record
  split
  · split
    · exact ⟨by simp [addErrorAt, addError, empty], rfl⟩
    · exact ⟨by simp [addError, empty], rfl⟩
  · exact ⟨by simp [addWarning, empty], rfl⟩
  · exact ⟨by simp [addSuggestion, empty], rfl⟩

theorem consistent_ofFindings (findings : List Finding) : (ofFindings findings).Consistent := by
  induction findings with
  | nil => exact ⟨by simp [ofFindings, empty], rfl⟩
  | cons finding findings ih =>
    rw [ofFindings_cons]
    exact (consistent_record finding).append ih

theorem consistent_warnings (texts : List String) : (texts.foldl addWarning empty).Consistent := by
  rw [foldl_addWarning]
  exact ⟨by simp [empty], rfl⟩

end Verdict

/-! ### Findings of one kind -/

/-- An error that points at a place. -/
def Finding.IsPlacedError (finding : Finding) : Prop :=
  finding.severity = .error ∧ ∃ context, finding.diagnostic.context = some context

/-- A warning. -/
def Finding.IsWarning (finding : Finding) : Prop := finding.severity = .warning

namespace Verdict

variable {findings : List Finding}

/-- Every error has a line and a context of its own. -/
structure Aligned (v : Verdict) : Prop where
  lines : v.lineNumbers = v.contexts.map Context.line
  errors : v.errors.length = v.contexts.length

theorem record_of_context {context : Context}
    (hseverity : finding.severity = .error) (hcontext : finding.diagnostic.context = some context) :
    finding.record empty = empty.addErrorAt finding.text context := by
  simp only [Finding.record, hseverity, hcontext]

theorem record_of_placedError (h : finding.IsPlacedError) :
    ∃ context, finding.record empty = empty.addErrorAt finding.text context := by
  obtain ⟨hseverity, context, hcontext⟩ := h
  exact ⟨context, record_of_context hseverity hcontext⟩

theorem record_of_warning (h : finding.IsWarning) :
    finding.record empty = empty.addWarning finding.text := by
  simp only [Finding.record, show finding.severity = .warning from h]

/-- Errors make neither warnings nor suggestions. -/
theorem ofFindings_of_errors (h : ∀ finding ∈ findings, finding.IsPlacedError) :
    (ofFindings findings).warnings = [] ∧ (ofFindings findings).suggestions = [] := by
  induction findings with
  | nil => exact ⟨rfl, rfl⟩
  | cons finding findings ih =>
    rw [List.forall_mem_cons] at h
    obtain ⟨context, hrecord⟩ := record_of_placedError h.1
    rw [ofFindings_cons, hrecord]
    exact ih h.2

/-- Warnings make nothing else. -/
theorem ofFindings_of_warnings (h : ∀ finding ∈ findings, finding.IsWarning) :
    ofFindings findings = { empty with warnings := findings.map Finding.text } := by
  induction findings with
  | nil => rfl
  | cons finding findings ih =>
    rw [List.forall_mem_cons] at h
    rw [ofFindings_cons, record_of_warning h.1, ih h.2]
    rfl

theorem aligned_ofFindings (h : ∀ finding ∈ findings, finding.IsPlacedError ∨ finding.IsWarning) :
    (ofFindings findings).Aligned := by
  refine ⟨(consistent_ofFindings findings).lines, ?_⟩
  induction findings with
  | nil => rfl
  | cons finding findings ih =>
    rw [List.forall_mem_cons] at h
    rw [ofFindings_cons, append_errors, append_contexts, List.length_append, List.length_append,
      ih h.2]
    rcases h.1 with hplaced | hwarning
    · obtain ⟨context, hrecord⟩ := record_of_placedError hplaced
      rw [hrecord]
      rfl
    · rw [record_of_warning hwarning]
      rfl

/-! ### Verdicts within verdicts -/

/-- Whatever one verdict tells, the other tells too, in the same order. -/
structure Within (a b : Verdict) : Prop where
  errors : a.errors.Sublist b.errors
  warnings : a.warnings.Sublist b.warnings
  lineNumbers : a.lineNumbers.Sublist b.lineNumbers
  contexts : a.contexts.Sublist b.contexts

theorem Within.refl (v : Verdict) : v.Within v :=
  ⟨.refl _, .refl _, .refl _, .refl _⟩

/-- A verdict without a part of it. -/
theorem within_append (before block after : Verdict) :
    (before ++ after).Within (before ++ block ++ after) := by
  have hlists : ∀ {α : Type} (before block after : List α),
      (before ++ after).Sublist (before ++ block ++ after) :=
    fun before block after => (List.sublist_append_left before block).append_right after
  exact ⟨hlists _ _ _, hlists _ _ _, hlists _ _ _, hlists _ _ _⟩

end Verdict

end Scrutiny
