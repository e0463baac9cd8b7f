import BuildDigest.Assembly.Basic
import BuildDigest.Proofs.Ledger.Basic

/-!
# Events that fit

A decoded event has whatever values the producer put into its text fields. An assembly uses
few of them as texts: the file of a project, the name of a target or of a task where it
starts, and the task and the line of a command line. An event fits when these can be used
so: each is a text, or counts as empty and then stands for the empty text.

* `Value.ReadsAsText` — a value can be used as a text.
* `Event.Fits` — the fields of an event that are used as texts can be.
-/

namespace BuildDigest

namespace Value

/-- A value can be used as a text: it is one, or it counts as empty. -/
def ReadsAsText (v : Value) : Prop :=
  v.orEmpty.kind = .text

instance (v : Value) : Decidable v.ReadsAsText :=
  inferInstanceAs (Decidable (v.orEmpty.kind = .text))

variable {v : Value}

theorem orEmpty_of_holds (h : v.holds = true) : v.orEmpty = v := by
  rw [orEmpty, if_pos h]

theorem orEmpty_of_not_holds (h : v.holds = false) : v.orEmpty = .text "" := by
  rw [orEmpty, h, if_neg Bool.false_ne_true]

/-- What cannot be used as a text counts as given and is none. -/
theorem not_readsAsText_iff : ¬ v.ReadsAsText ↔ v.holds = true ∧ v.kind ≠ .text := by
  unfold ReadsAsText
  cases hHolds : v.holds with
  | true => simp [orEmpty_of_holds hHolds]
  | false => simp [orEmpty_of_not_holds hHolds, kind]

/-- A value that can be used as a text stands for the text that it shows, or for the empty one. -/
theorem ReadsAsText.orEmpty_eq (h : v.ReadsAsText) : v.orEmpty = .text v.plain := by
  cases hHolds : v.holds with
  | true =>
    rw [ReadsAsText, orEmpty_of_holds hHolds] at h
    rw [orEmpty_of_holds hHolds]
    cases v with
    | text s => rfl
    | null | bool _ | int _ | float _ | list _ | object _ => cases h
  | false =>
    rw [orEmpty_of_not_holds hHolds]
    cases v with
    | text s => rw [plain, (by simpa using hHolds : s = "")]
    | null | bool _ | int _ | float _ | list _ | object _ => rfl

/-- A value that can be used as a text, or a text that stands in for it when it is empty. -/
theorem ReadsAsText.orElse_eq (h : v.ReadsAsText) (s : String) :
    Assembly.orElse v (.text s) = .text (if v.plain = "" then s else v.plain) := by
  have hEmpty := h.orEmpty_eq
  rw [Assembly.orElse]
  cases hHolds : v.holds with
  | true =>
    rw [orEmpty_of_holds hHolds] at hEmpty
    have hGiven : v.plain ≠ "" := by
      intro hPlain
      rw [hEmpty, hPlain] at hHolds
      cases hHolds
    rw [if_pos rfl, if_neg hGiven, hEmpty, plain]
  | false =>
    rw [orEmpty_of_not_holds hHolds] at hEmpty
    rw [if_neg Bool.false_ne_true, ← Value.text.inj hEmpty, if_pos rfl]

/-- A textual value can be used as a text. -/
theorem IsTextual.readsAsText (h : v.IsTextual) : v.ReadsAsText := by
  obtain ⟨s, hEmpty⟩ := h.orEmpty_eq
  rw [ReadsAsText, hEmpty]
  rfl

end Value

namespace Event

/-- Whether an event is a message that carries a command line. -/
def isCall (e : Event) : Bool :=
  match e.kind with
  | .message | .warning | .error => e.isCommandLine
  | _ => false

/-- Messages, warnings and errors may be calls, if they carry a command line. -/
theorem isCall_iff {e : Event} : e.isCall = true ↔
    (e.kind = .message ∨ e.kind = .warning ∨ e.kind = .error) ∧ e.isCommandLine = true := by
  rw [isCall]
  cases e.kind <;> simp

/-- The fields of an event that are used as texts can be used so. -/
structure Fits (e : Event) : Prop where
  projectFile : e.kind = .projectStarted → e.projectFile.ReadsAsText
  targetName : e.kind = .targetStarted → e.targetName.ReadsAsText
  taskName : e.kind = .taskStarted ∨ e.isCall = true → e.taskName.ReadsAsText
  commandLine : e.isCall = true → e.commandLine.ReadsAsText

/-- An event that does not fit has one of four fields wrong, by its kind. -/
theorem not_fits_cases {e : Event} (h : ¬ e.Fits) :
    (e.kind = .projectStarted ∧ ¬ e.projectFile.ReadsAsText) ∨
      (e.kind = .targetStarted ∧ ¬ e.targetName.ReadsAsText) ∨
      ((e.kind = .taskStarted ∨ e.isCall = true) ∧ ¬ e.taskName.ReadsAsText) ∨
      (e.isCall = true ∧ e.taskName.ReadsAsText ∧ ¬ e.commandLine.ReadsAsText) := by
  by_contra hNone
  simp only [not_or, not_and, not_not] at hNone
  obtain ⟨hProject, hTarget, hTask, hLine⟩ := hNone
  exact h ⟨hProject, hTarget, hTask, fun hCall => hLine hCall (hTask (.inr hCall))⟩

/-- All fields of a textual event can be used as texts. -/
theorem Textual.fits {e : Event} (h : e.Textual) : e.Fits where
  projectFile _ := h.projectFile.readsAsText
  targetName _ := h.targetName.readsAsText
  taskName _ := h.taskName.readsAsText
  commandLine _ := h.commandLine.readsAsText

end Event

end BuildDigest
