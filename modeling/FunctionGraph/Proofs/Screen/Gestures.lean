import FunctionGraph.Proofs.Plot.Moves
import FunctionGraph.Screen.Window

/-!
# Gestures one after another

What the steps of a gesture leave as it was. A plot touches only what is drawn, the axes touch only
ranges and ticks, and the rows touch neither, so a gesture that has changed the session can be checked
for the parts of the window one by one. What a gesture does to the session depends on the text that was
typed: whether it is a formula, and in the settings dialog whether it gives bounds.
-/

namespace FunctionGraph

theorem Text.isEmpty_ofList (text : List Char) : (String.ofList text).isEmpty = text.isEmpty := by
  rw [Bool.eq_iff_iff, String.isEmpty_iff, List.isEmpty_iff, String.ofList_eq_empty_iff]

/-- Only a text of nothing but blanks is refused as empty. -/
theorem Formula.rejection_eq {text : String} {reason : Rejection} (h : compile text = .error reason) :
    reason = if (Text.trim text.toList).isEmpty then .empty else .invalid := by
  rw [compile] at h
  cases hempty : (Text.trim text.toList).isEmpty with
  | true =>
    simp only [hempty, if_true] at h
    exact (Except.error.inj h).symm
  | false =>
    simp only [hempty, Bool.false_eq_true, if_false] at h ⊢
    split at h
    · cases h
    · exact (Except.error.inj h).symm

namespace Window

def next (w : Window) (gesture : Gesture) : Window :=
  (w.perform gesture).1

/-- The window after gestures. A gesture that fails leaves what it had done by then. -/
def run (w : Window) (gestures : List Gesture) : Window :=
  gestures.foldl next w

@[simp]
theorem run_nil (w : Window) : w.run [] = w :=
  rfl

theorem run_concat (w : Window) (gestures : List Gesture) (gesture : Gesture) :
    w.run (gestures ++ [gesture]) = (w.run gestures).next gesture :=
  List.foldl_append

section Steps

variable (w : Window)

@[simp]
theorem outcome_fst (progress : Progress) : progress.outcome.1 = progress.1 := by
  rcases progress with ⟨w, _ | failure⟩ <;> rfl

theorem eq_of_succeeds (progress : Progress) (h : progress.2 = none) :
    progress = (progress.1, none) := by
  obtain ⟨w, failure⟩ := progress
  obtain rfl : failure = none := h
  rfl

theorem andThen_fst (progress : Progress) (work : Window → Progress) :
    (progress.andThen work).1 = if progress.2.isNone then (work progress.1).1 else progress.1 := by
  rcases progress with ⟨w, _ | failure⟩ <;> rfl

/-- Drawing replaces the drawing and the list of landmarks, and reports a success if it is asked to. -/
theorem replot_fst (announce : Bool) :
    ∃ summary message tone, (w.replot announce).1 =
      { w with
        drawn := Drawing.items w.canvas w.session.plot
        plotted := true
        summary
        message
        tone } := by
  rw [replot]
  cases Drawing.summary w.session.plot with
  | error fault => exact ⟨w.summary, w.message, w.tone, rfl⟩
  | ok summary =>
    cases announce
    · exact ⟨summary, w.message, w.tone, rfl⟩
    · exact ⟨summary, _, _, rfl⟩

/-- The axes replace the range and as many of the ticks as can be computed. -/
theorem configureAxes_fst :
    ∃ bottomTicks leftTicks, w.configureAxes.1 =
      { w with range := w.session.bounds, bottomTicks, leftTicks } := by
  rw [configureAxes]
  cases labelledTicks w.session.bounds.xMin w.session.bounds.xMax with
  | error fault => exact ⟨_, _, rfl⟩
  | ok bottomTicks =>
    cases labelledTicks w.session.bounds.yMin w.session.bounds.yMax <;> exact ⟨_, _, rfl⟩

theorem replot_session (announce : Bool) : (w.replot announce).1.session = w.session := by
  obtain ⟨summary, message, tone, hreplot⟩ := replot_fst w announce
  rw [hreplot]

@[simp]
theorem replot_plotted (announce : Bool) : (w.replot announce).1.plotted = true := by
  obtain ⟨summary, message, tone, hreplot⟩ := replot_fst w announce
  rw [hreplot]

theorem configureAxes_session : w.configureAxes.1.session = w.session := by
  obtain ⟨bottomTicks, leftTicks, haxes⟩ := configureAxes_fst w
  rw [haxes]

/-- The axes and then the plot follow new bounds. -/
theorem configureAxes_replot_session :
    (w.configureAxes.andThen (·.replot false)).1.session = w.session := by
  rw [andThen_fst]
  split
  · rw [replot_session, configureAxes_session]
  · exact configureAxes_session w

/-- A gesture changes the functions of the session, or it is an accepted dialog and stores bounds that
were read and checked. -/
theorem next_session (gesture : Gesture) :
    (∃ functions, (w.next gesture).session = w.session.withFunctions functions) ∨
      ∃ edits texts b, gesture = .settings (some edits) ∧ Bounds.ofTexts texts = .ok b ∧
        (w.next gesture).session = w.session.withBounds b := by
  have hkeeps : ∃ functions, w.session = w.session.withFunctions functions :=
    ⟨w.session.functions, rfl⟩
  rw [next]
  cases gesture with
  | add text =>
    left
    rw [perform, outcome_fst, submit]
    simp only
    split
    · exact hkeeps
    · exact ⟨_, replot_session _ false⟩
  | check position =>
    left
    rw [perform, onRow]
    split
    · rw [outcome_fst, check]
      simp only
      split
      · exact hkeeps
      · exact ⟨_, replot_session _ false⟩
    · exact hkeeps
  | delete position =>
    left
    rw [perform, onRow]
    split
    · rw [outcome_fst, delete]
      split
      · exact hkeeps
      · exact ⟨_, replot_session _ false⟩
    · exact hkeeps
  | plot =>
    left
    rw [perform]
    split
    · rw [outcome_fst, replot_session]
      exact hkeeps
    · exact hkeeps
  | resize width height =>
    left
    rw [perform, outcome_fst, resize]
    simp only
    split
    · rw [replot_session]
      exact hkeeps
    · exact hkeeps
  | timeout => exact Or.inl hkeeps
  | settings reply =>
    rw [perform, outcome_fst]
    unfold changeSettings
    split
    · exact Or.inl hkeeps
    · exact Or.inl hkeeps
    · next edits _ =>
      rw [configure]
      split
      · exact Or.inl hkeeps
      · next b hb => exact Or.inr ⟨edits, _, b, rfl, hb, configureAxes_replot_session _⟩

/-- Only the settings dialog stores bounds. -/
theorem run_bounds {gestures : List Gesture}
    (h : ∀ gesture ∈ gestures, ∀ reply, gesture ≠ .settings reply) :
    (w.run gestures).session.bounds = w.session.bounds := by
  refine List.foldlRecOn (motive := fun v : Window => v.session.bounds = w.session.bounds) gestures next
    rfl fun v hv gesture hgesture => ?_
  rcases v.next_session gesture with ⟨functions, hsession⟩ | ⟨edits, texts, b, rfl, -, -⟩
  · rw [hsession]
    exact hv
  · exact absurd rfl (h _ hgesture (some edits))

end Steps

/-! ### What a typed text comes to -/

/-- The message about a text that is not accepted. -/
def notice : Formula.Rejection → String
  | .empty => Formula.Rejection.empty.message
  | .invalid => invalidFormula

/-- The session with an entry for the text behind the others. -/
def withEntry (w : Window) (text : String) (formula : Formula) : Session :=
  w.session.withEntries (w.session.functions.entries ++
    [⟨String.ofList (Text.trim text.toList), formula,
      w.session.functions.palette.color w.session.functions.entries.length, true⟩])

section Answers

variable {w : Window} {text : String} {reason : Formula.Rejection} {formula : Formula}
  {shown : Bounds String} {edits : Bounds (Option String)}

theorem submit_of_error (h : Formula.compile w.input = .error reason) :
    w.submit = (w.say .error (notice reason), none) := by
  have hadd : w.session.functions.add (String.ofList (Text.trim w.input.toList)) = .error reason := by
    rw [FunctionList.add, FunctionList.entryOf, Formula.compile_trim, h]
    rfl
  rw [submit]
  simp only [hadd, Text.isEmpty_ofList]
  rw [Formula.rejection_eq h]
  cases (Text.trim w.input.toList).isEmpty <;> rfl

theorem submit_of_ok (h : Formula.compile w.input = .ok formula) :
    w.submit = { w with session := w.withEntry w.input formula, input := "" }.refreshRows.replot
      false := by
  have hadd : w.session.functions.add (String.ofList (Text.trim w.input.toList))
      = .ok (w.withEntry w.input formula).functions := by
    rw [FunctionList.add, FunctionList.entryOf, Formula.compile_trim, h, String.toList_ofList,
      Text.trim_trim]
    rfl
  rw [submit]
  simp only [hadd]
  rfl

/-- An accepted text gives an entry, and the input line is cleared. -/
theorem next_add_of_ok (h : Formula.compile text = .ok formula) :
    (w.next (.add text)).input = "" ∧ (w.next (.add text)).session = w.withEntry text formula := by
  rw [next, perform, outcome_fst, submit_of_ok (w := { w with input := text }) h]
  obtain ⟨summary, message, tone, hreplot⟩ := replot_fst
    { w with session := w.withEntry text formula, input := "" }.refreshRows false
  exact ⟨congrArg Window.input hreplot, congrArg Window.session hreplot⟩

theorem perform_settings (h : w.session.bounds.toTexts = .ok shown) (edits : Bounds (Option String)) :
    w.perform (.settings (some edits)) = (w.configure (edited shown edits)).outcome := by
  simp only [perform, changeSettings, h]

theorem perform_cancel (h : w.session.bounds.toTexts = .ok shown) :
    w.perform (.settings none) = (w, .done) := by
  simp only [perform, changeSettings, h]
  rfl

theorem configure_of_error {texts : Bounds String} {reason : Bounds.Unusable}
    (h : Bounds.ofTexts texts = .error reason) : w.configure texts = (w.say .error invalidBounds, none) := by
  rw [configure, h]

end Answers

end Window

end FunctionGraph
