import FunctionGraph.Proofs.Axis.Labels
import FunctionGraph.Proofs.Screen.Gestures

/-!
# The settings dialog

The dialog shows the labels of the bounds and, when it is accepted, reads its fields. Accepting it with
nothing edited is therefore a round trip of each bound through its label. It is no identity: a bound
near zero is refused, and a bound with a whole part and a fraction may come back as its neighbour.
-/

namespace FunctionGraph.Window

open Number (IsTiny ReturnsAs)
open Bounds (readTexts)

/-! ### Stored bounds -/

section Stored

variable {w : Window}

/-- A gesture stores only bounds that can be plotted. -/
theorem isUsable_next (h : w.session.bounds.IsUsable) (gesture : Gesture) :
    (w.next gesture).session.bounds.IsUsable := by
  rcases w.next_session gesture with ⟨functions, hsession⟩ | ⟨edits, texts, b, -, hb, hsession⟩
  · rw [hsession]
    exact h
  · rw [hsession]
    exact Bounds.isUsable_of_checked hb

theorem isUsable_run (h : w.session.bounds.IsUsable) (gestures : List Gesture) :
    (w.run gestures).session.bounds.IsUsable :=
  List.foldlRecOn (motive := fun w : Window => w.session.bounds.IsUsable) gestures next h
    fun _ h gesture _ => isUsable_next h gesture

end Stored

/-! ### Nothing edited -/

def unedited : Bounds (Option String) :=
  ⟨none, none, none, none⟩

/-- What comes of accepting the dialog with the texts that it opens with. -/
structure AcceptsShown (w : Window) (shown : Bounds String) : Prop where
  returns : ∀ side, ReturnsAs (w.session.bounds.side side) ((readTexts shown).side side)
  accepted : (readTexts shown).Ascends →
    (w.next (.settings (some unedited))).session = w.session.withBounds (readTexts shown)
      ∧ (w.next (.settings (some unedited))).message = w.message
  rejected : ¬(readTexts shown).Ascends →
    w.perform (.settings (some unedited)) = (w.say .error invalidBounds, .done)
  tiny : (∃ side, IsTiny (w.session.bounds.side side)) → ¬(readTexts shown).Ascends
  ascends : (∀ side, ¬IsTiny (w.session.bounds.side side)) → w.session.bounds.IsRoomy →
    (readTexts shown).Ascends

section Unedited

variable {w : Window} {b : Bounds Float} {shown : Bounds String}

theorem perform_unedited (h : w.session.bounds.toTexts = .ok shown) :
    w.perform (.settings (some unedited)) = (w.configure shown).outcome :=
  perform_settings h unedited

theorem replot_message (w : Window) : (w.replot false).1.message = w.message := by
  rw [replot]
  cases Drawing.summary w.session.plot <;> rfl

theorem configureAxes_message (w : Window) : w.configureAxes.1.message = w.message := by
  obtain ⟨bottomTicks, leftTicks, haxes⟩ := configureAxes_fst w
  rw [haxes]

theorem configure_of_ofTexts (h : Bounds.ofTexts shown = .ok b) :
    (w.configure shown).1.session = w.session.withBounds b
      ∧ (w.configure shown).1.message = w.message := by
  rw [configure, h]
  refine ⟨configureAxes_replot_session _, ?_⟩
  rw [andThen_fst]
  split
  · rw [replot_message, configureAxes_message]
  · rw [configureAxes_message]

theorem exists_ofTexts_error (h : ¬(readTexts shown).Ascends) :
    ∃ reason, Bounds.ofTexts shown = .error reason := by
  cases hchecked : Bounds.ofTexts shown with
  | error reason => exact ⟨reason, rfl⟩
  | ok c =>
    rw [Bounds.ofTexts_eq] at hchecked
    obtain ⟨-, husable⟩ := Bounds.checked_eq_ok_iff.mp hchecked
    exact absurd ⟨husable.xMin_lt, husable.yMin_lt⟩ h

/-- **The dialog with nothing edited**, over any bounds that can be stored. -/
theorem exists_acceptsShown (h : w.session.bounds.IsUsable) :
    ∃ shown, w.session.bounds.toTexts = .ok shown ∧ w.AcceptsShown shown := by
  obtain ⟨shown, hshown, hreturns⟩ := Bounds.exists_toTexts h.finite
  refine ⟨shown, hshown, ?_⟩
  exact
    { returns := hreturns
      accepted := fun hascends => by
        rw [next, perform_unedited hshown, outcome_fst]
        exact configure_of_ofTexts (hascends.isUsable h hreturns).checked
      rejected := fun hnot => by
        obtain ⟨reason, hreason⟩ := exists_ofTexts_error hnot
        rw [perform_unedited hshown, configure, hreason]
        rfl
      tiny := fun ⟨side, htiny⟩ hascends => hascends.not_isTiny hreturns side htiny
      ascends := fun htiny hroomy => Bounds.ascends_of_returnsAs h hreturns htiny hroomy }

/-- The window of a new session with these bounds. -/
def openedAt (b : Bounds Float) : Window :=
  (opened (Session.initial.withBounds b) 800 600).1

theorem exists_acceptsShown_of_fractions :
    ∃ shown, (openedAt ⟨-0.001, 1.14, -10, 10⟩).session.bounds.toTexts = .ok shown
      ∧ (openedAt ⟨-0.001, 1.14, -10, 10⟩).AcceptsShown shown :=
  exists_acceptsShown (by decide +kernel)

/-- A bound that is written with an exponent is refused, and `1.14` comes back as the next number. -/
theorem unedited_not_identity :
    ((openedAt ⟨0.00001, 1, -10, 10⟩).session.bounds.IsUsable ∧
      ((openedAt ⟨0.00001, 1, -10, 10⟩).next (.settings (some unedited))).message = invalidBounds) ∧
    ((openedAt ⟨1.14, 2, -10, 10⟩).session.bounds.IsUsable ∧
      (((openedAt ⟨1.14, 2, -10, 10⟩).next (.settings (some unedited))).session.bounds.xMin == 1.14)
        = false) := by
  decide +kernel

end Unedited

end FunctionGraph.Window
