import FunctionGraph.Proofs.Plot.Showable
import FunctionGraph.Proofs.Screen.Rows

/-!
# What the window shows is up to date

The axes, the drawing and the list of landmarks are kept from gesture to gesture. No gesture forgets
one of them: after each, the axes show the bounds of the session, and from the first gesture on that
plots, the drawing and the list are those of the session at the present size, as in a new window. A
failure in the middle of a gesture breaks this, so every tick and every landmark that is met is required
to have a label.
-/

namespace FunctionGraph.Window

/-- The ticks of both axes can be computed and labelled. -/
def HasTicks (b : Bounds Float) : Prop :=
  (∃ ticks, labelledTicks b.xMin b.xMax = .ok ticks) ∧ ∃ ticks, labelledTicks b.yMin b.yMax = .ok ticks

/-- Everything that the window has to label has a label. -/
structure IsLabelled (w : Window) : Prop where
  ticks : HasTicks w.session.bounds
  landmarks : w.plotted = true → w.session.plot.HasNumbers

instance : DecidablePred HasTicks := fun b =>
  match hx : labelledTicks b.xMin b.xMax, hy : labelledTicks b.yMin b.yMax with
  | .ok _, .ok _ => isTrue ⟨⟨_, hx⟩, ⟨_, hy⟩⟩
  | .error _, _ => isFalse fun ⟨⟨_, hok⟩, _⟩ => nomatch hx.symm.trans hok
  | _, .error _ => isFalse fun ⟨_, ⟨_, hok⟩⟩ => nomatch hy.symm.trans hok

instance : DecidablePred IsLabelled := fun w =>
  decidable_of_iff (HasTicks w.session.bounds ∧ (w.plotted = true → w.session.plot.HasNumbers))
    ⟨fun h => ⟨h.1, h.2⟩, fun h => ⟨h.ticks, h.landmarks⟩⟩

/-- The axes show the bounds of the session. -/
structure ShowsAxes (w : Window) : Prop where
  range_eq : w.range = w.session.bounds
  bottom : labelledTicks w.session.bounds.xMin w.session.bounds.xMax = .ok w.bottomTicks
  left : labelledTicks w.session.bounds.yMin w.session.bounds.yMax = .ok w.leftTicks

/-- The drawing and the list of landmarks are those of the session, once there was a plot. -/
structure ShowsPlot (w : Window) : Prop where
  drawn_eq : w.plotted = true → w.drawn = Drawing.items w.canvas w.session.plot
  summary_eq : w.plotted = true → Drawing.summary w.session.plot = .ok w.summary
  blank : w.plotted = false → w.drawn = []

structure IsUpToDate (w : Window) : Prop extends ShowsAxes w, ShowsPlot w

section Steps

variable {w : Window}

theorem replot_of_summary {summary : String} (h : Drawing.summary w.session.plot = .ok summary)
    (announce : Bool) :
    (w.replot announce).1.summary = summary ∧ (w.replot announce).2 = none := by
  rw [replot, h]
  cases announce <;> exact ⟨rfl, rfl⟩

theorem configureAxes_of_hasTicks (h : HasTicks w.session.bounds) :
    w.configureAxes.1.ShowsAxes ∧ w.configureAxes.2 = none := by
  obtain ⟨⟨bottomTicks, hbottom⟩, leftTicks, hleft⟩ := h
  rw [configureAxes]
  simp only [hbottom, hleft, and_true]
  exact ⟨rfl, hbottom, hleft⟩

/-- After a plot nothing of the plot before it is left. -/
theorem IsLabelled.isUpToDate {announce : Bool} (hlabelled : (w.replot announce).1.IsLabelled)
    (h : w.ShowsAxes) : (w.replot announce).1.IsUpToDate := by
  obtain ⟨summary, message, tone, hreplot⟩ := replot_fst w announce
  have hnumbers : w.session.plot.HasNumbers := by
    rw [hreplot] at hlabelled
    exact hlabelled.landmarks rfl
  obtain ⟨text, htext⟩ := Plot.HasNumbers.exists_summary hnumbers
  have hsummary := (replot_of_summary htext announce).1
  rw [hreplot] at hsummary ⊢
  obtain rfl : summary = text := hsummary
  exact
    { range_eq := h.range_eq
      bottom := h.bottom
      left := h.left
      drawn_eq := fun _ => rfl
      summary_eq := fun _ => htext
      blank := fun hplotted => by cases hplotted }

theorem IsUpToDate.say (h : w.IsUpToDate) (tone : Tone) (message : String) :
    (w.say tone message).IsUpToDate :=
  ⟨⟨h.range_eq, h.bottom, h.left⟩, ⟨h.drawn_eq, h.summary_eq, h.blank⟩⟩

theorem IsUpToDate.submit (h : w.IsUpToDate) :
    w.submit.1.IsLabelled → w.submit.1.IsUpToDate := by
  unfold Window.submit
  simp only
  split <;> intro hlabelled
  · exact h.say _ _
  · exact hlabelled.isUpToDate ⟨h.range_eq, h.bottom, h.left⟩

theorem IsUpToDate.check (h : w.IsUpToDate) (position : Nat) (row : Row) :
    (w.check position row).1.IsLabelled → (w.check position row).1.IsUpToDate := by
  unfold Window.check
  simp only
  split <;> intro hlabelled
  · exact ⟨⟨h.range_eq, h.bottom, h.left⟩, ⟨h.drawn_eq, h.summary_eq, h.blank⟩⟩
  · exact hlabelled.isUpToDate ⟨h.range_eq, h.bottom, h.left⟩

theorem IsUpToDate.delete (h : w.IsUpToDate) (row : Row) :
    (w.delete row).1.IsLabelled → (w.delete row).1.IsUpToDate := by
  unfold Window.delete
  split <;> intro hlabelled
  · exact h
  · exact hlabelled.isUpToDate ⟨h.range_eq, h.bottom, h.left⟩

/-- Only the drawing depends on the size, so without one a new size changes nothing. -/
theorem IsUpToDate.resize (h : w.IsUpToDate) (width height : Int) :
    (w.resize width height).1.IsLabelled → (w.resize width height).1.IsUpToDate := by
  unfold Window.resize
  simp only
  split <;> intro hlabelled
  · exact hlabelled.isUpToDate ⟨h.range_eq, h.bottom, h.left⟩
  · next hplotted =>
    exact ⟨⟨h.range_eq, h.bottom, h.left⟩,
      ⟨fun htrue => absurd htrue hplotted, fun htrue => absurd htrue hplotted, h.blank⟩⟩

/-- New bounds reach the axes before the plot. -/
theorem IsUpToDate.configure (h : w.IsUpToDate) (texts : Bounds String) :
    (w.configure texts).1.IsLabelled → (w.configure texts).1.IsUpToDate := by
  unfold Window.configure
  split
  · exact fun _ => h.say _ _
  · next b _ =>
    intro hlabelled
    set stored : Window := { w with session := w.session.withBounds b } with hstored
    have hticks : HasTicks stored.session.bounds := by
      rw [← configureAxes_replot_session stored]
      exact hlabelled.ticks
    obtain ⟨haxes, hsucceeds⟩ := configureAxes_of_hasTicks hticks
    rw [andThen_fst, hsucceeds] at hlabelled ⊢
    exact hlabelled.isUpToDate haxes

theorem IsUpToDate.next (h : w.IsUpToDate) (gesture : Gesture) :
    (w.next gesture).IsLabelled → (w.next gesture).IsUpToDate := by
  rw [Window.next]
  cases gesture with
  | add text =>
    rw [perform, outcome_fst]
    exact IsUpToDate.submit ⟨⟨h.range_eq, h.bottom, h.left⟩, ⟨h.drawn_eq, h.summary_eq, h.blank⟩⟩
  | check position =>
    rw [perform, onRow]
    cases w.rowAt? position with
    | none => exact fun _ => h
    | some row =>
      simp only [outcome_fst]
      exact h.check _ row
  | delete position =>
    rw [perform, onRow]
    cases w.rowAt? position with
    | none => exact fun _ => h
    | some row =>
      simp only [outcome_fst]
      exact h.delete row
  | plot =>
    rw [perform]
    split
    · rw [outcome_fst]
      exact fun hlabelled => hlabelled.isUpToDate h.toShowsAxes
    · exact fun _ => h
  | resize width height =>
    rw [perform, outcome_fst]
    exact h.resize width height
  | timeout =>
    exact fun _ => ⟨⟨h.range_eq, h.bottom, h.left⟩, ⟨h.drawn_eq, h.summary_eq, h.blank⟩⟩
  | settings reply =>
    rw [perform, outcome_fst]
    unfold changeSettings
    split
    · exact fun _ => h
    · exact fun _ => h
    · exact h.configure _

end Steps

/-! ### When there is a plot -/

/-- The gesture plots even when there was no plot before: a text that is accepted, a click in a row that
is there, the button while there are functions, and bounds that are accepted. A new size is not among
them, for it only repeats a plot. -/
def Plots (w : Window) : Gesture → Prop
  | .add text => ∃ formula, Formula.compile text = .ok formula
  | .check position | .delete position =>
    0 ≤ position ∧ position < w.session.functions.entries.length
  | .plot => w.session.functions.entries ≠ []
  | .settings (some edits) =>
    ∃ shown b, w.session.bounds.toTexts = .ok shown ∧ Bounds.ofTexts (edited shown edits) = .ok b
  | .settings none | .resize _ _ | .timeout => False

section Plots

variable {w : Window}

theorem plotted_add_iff (text : String) :
    (w.next (.add text)).plotted = true ↔ w.plotted = true ∨ w.Plots (.add text) := by
  rw [next, perform, outcome_fst]
  cases hcompile : Formula.compile text with
  | error reason =>
    rw [submit_of_error (w := { w with input := text }) hcompile]
    refine (or_iff_left ?_).symm
    rintro ⟨formula, hformula⟩
    rw [hcompile] at hformula
    contradiction
  | ok formula =>
    rw [submit_of_ok (w := { w with input := text }) hcompile]
    exact iff_of_true (replot_plotted _ _) (Or.inr ⟨formula, hcompile⟩)

/-- A click is about a row that is there, and then what it does ends with a plot. -/
theorem IsRefreshed.plotted_onRow_iff (h : w.IsRefreshed) {work : Row → Progress}
    (hwork : ∀ row, row.index < w.session.functions.entries.length → (work row).1.plotted = true)
    (position : Int) :
    (w.onRow position work).1.plotted = true ↔
      w.plotted = true ∨ 0 ≤ position ∧ position < w.session.functions.entries.length := by
  rw [onRow]
  by_cases hrow : 0 ≤ position ∧ position < w.session.functions.entries.length
  · obtain ⟨n, rfl⟩ := Int.eq_ofNat_of_zero_le hrow.1
    have hn : n < w.session.functions.entries.length := by omega
    rw [h.rowAt?_natCast (List.getElem?_eq_getElem hn)]
    simp only [outcome_fst]
    exact iff_of_true (hwork _ hn) (Or.inr hrow)
  · rw [h.rowAt?_eq_none (by omega)]
    exact (or_iff_left hrow).symm

theorem plotted_check (position : Nat) {row : Row}
    (h : row.index < w.session.functions.entries.length) :
    (w.check position row).1.plotted = true := by
  rw [check, toggle_natCast h]
  exact replot_plotted _ _

theorem plotted_delete {row : Row} (h : row.index < w.session.functions.entries.length) :
    (w.delete row).1.plotted = true := by
  rw [delete, remove_natCast h]
  exact replot_plotted _ _

theorem IsRefreshed.plotted_plot_iff (h : w.IsRefreshed) :
    (w.next .plot).plotted = true ↔ w.plotted = true ∨ w.Plots .plot := by
  have hbutton := h.listsEntries.plot
  rw [Window.next, perform]
  split
  · next henabled =>
    rw [outcome_fst]
    exact iff_of_true (replot_plotted _ _) (Or.inr (hbutton.mp henabled))
  · next hdisabled => exact (or_iff_left fun hentries => hdisabled (hbutton.mpr hentries)).symm

/-- Accepted bounds are plotted once the axes show them. -/
theorem plotted_configure_iff {texts : Bounds String}
    (hticks : HasTicks (w.configure texts).1.session.bounds) :
    (w.configure texts).1.plotted = true ↔ w.plotted = true ∨ ∃ b, Bounds.ofTexts texts = .ok b := by
  cases hb : Bounds.ofTexts texts with
  | error reason =>
    rw [configure_of_error hb]
    refine (or_iff_left ?_).symm
    rintro ⟨b, hok⟩
    cases hok
  | ok b =>
    rw [configure, hb] at hticks ⊢
    simp only [configureAxes_replot_session] at hticks
    have hsucceeds := (configureAxes_of_hasTicks
      (w := { w with session := w.session.withBounds b }) hticks).2
    simp only [andThen_fst, hsucceeds, Option.isNone_none, if_true, replot_plotted]
    exact iff_of_true trivial (Or.inr ⟨b, rfl⟩)

theorem plotted_settings_iff {reply : Option (Bounds (Option String))}
    (hticks : HasTicks (w.next (.settings reply)).session.bounds) :
    (w.next (.settings reply)).plotted = true ↔ w.plotted = true ∨ w.Plots (.settings reply) := by
  cases hshown : w.session.bounds.toTexts with
  | error fault =>
    have hsame : w.next (.settings reply) = w := by
      simp only [next, perform, changeSettings, hshown]
      rfl
    rw [hsame]
    refine (or_iff_left ?_).symm
    cases reply with
    | none => exact id
    | some edits =>
      rintro ⟨shown, b, hok, -⟩
      rw [hshown] at hok
      contradiction
  | ok shown =>
    cases reply with
    | none =>
      rw [next, perform_cancel hshown]
      exact (or_iff_left id).symm
    | some edits =>
      rw [next, perform_settings hshown, outcome_fst] at hticks ⊢
      rw [plotted_configure_iff hticks, Plots, hshown]
      simp

theorem IsRefreshed.plotted_next_iff (h : w.IsRefreshed) {gesture : Gesture}
    (hticks : HasTicks (w.next gesture).session.bounds) :
    (w.next gesture).plotted = true ↔ w.plotted = true ∨ w.Plots gesture := by
  cases gesture with
  | add text => exact plotted_add_iff text
  | check position => exact h.plotted_onRow_iff (fun _ => plotted_check position.toNat) position
  | delete position => exact h.plotted_onRow_iff (fun _ => plotted_delete) position
  | plot => exact h.plotted_plot_iff
  | resize width height =>
    rw [Window.next, perform, outcome_fst, resize]
    simp only [Plots, or_false]
    split
    · next hplotted => exact iff_of_true (replot_plotted _ _) hplotted
    · exact Iff.rfl
  | timeout => exact (or_iff_left id).symm
  | settings reply => exact plotted_settings_iff hticks

end Plots

section Runs

variable {session : Session} {width height : Int} {w : Window} {gestures : List Gesture}

/-- Opening a window fills in its axes and its rows. -/
theorem opened_fst (session : Session) (width height : Int) :
    ∃ bottomTicks leftTicks rows plotEnabled, (opened session width height).1 =
    { blank session width height with
      range := session.bounds, bottomTicks, leftTicks, rows, plotEnabled } := by
  obtain ⟨bottomTicks, leftTicks, haxes⟩ := configureAxes_fst (blank session width height)
  rw [opened, andThen_fst, haxes]
  split <;> exact ⟨bottomTicks, leftTicks, _, _, rfl⟩

theorem opened_session : (opened session width height).1.session = session := by
  obtain ⟨bottomTicks, leftTicks, rows, plotEnabled, hopened⟩ := opened_fst session width height
  rw [hopened]
  rfl

/-- A window without a plot has nothing to redraw. -/
theorem opened_of_hasTicks (h : HasTicks session.bounds) :
    (opened session width height).1.IsUpToDate ∧ (opened session width height).2 = none := by
  obtain ⟨haxes, hsucceeds⟩ := configureAxes_of_hasTicks (w := blank session width height) h
  obtain ⟨bottomTicks, leftTicks, hconfigured⟩ := configureAxes_fst (blank session width height)
  rw [opened, eq_of_succeeds _ hsucceeds]
  refine ⟨⟨⟨haxes.range_eq, haxes.bottom, haxes.left⟩, ?_⟩, rfl⟩
  rw [hconfigured]
  exact
    { drawn_eq := fun hplotted => absurd hplotted Bool.false_ne_true
      summary_eq := fun hplotted => absurd hplotted Bool.false_ne_true
      blank := fun _ => rfl }

/-- A new window with the same session and of the same size, plotted at once. -/
def fromScratch (w : Window) : Progress :=
  (opened w.session w.width w.height).andThen (·.replot false)

/-- The window is up to date, and once there was a plot it shows what a new window shows. -/
structure IsFresh (w : Window) : Prop extends IsUpToDate w where
  scratch : w.plotted = true → ∃ fresh, w.fromScratch = (fresh, none) ∧ w.drawn = fresh.drawn
    ∧ w.summary = fresh.summary

theorem IsUpToDate.isFresh (h : w.IsUpToDate) : w.IsFresh := by
  refine ⟨h, fun hplotted => ?_⟩
  have hticks : HasTicks w.session.bounds := ⟨⟨_, h.bottom⟩, ⟨_, h.left⟩⟩
  have hsucceeds : (opened w.session w.width w.height).2 = none := (opened_of_hasTicks hticks).2
  obtain ⟨bottomTicks, leftTicks, rows, plotEnabled, hopened⟩ := opened_fst w.session w.width w.height
  set new := (opened w.session w.width w.height).1 with hnew
  have hsession : new.session = w.session := by rw [hopened]; rfl
  have hcanvas : new.canvas = w.canvas := by rw [hopened]; rfl
  have hsummary := h.summary_eq hplotted
  rw [← hsession] at hsummary
  obtain ⟨htext, hdone⟩ := replot_of_summary hsummary false
  obtain ⟨summary, message, tone, hreplot⟩ := replot_fst new false
  refine ⟨(new.replot false).1, ?_, ?_, htext.symm⟩
  · rw [fromScratch, eq_of_succeeds _ hsucceeds]
    exact eq_of_succeeds _ hdone
  · rw [hreplot, h.drawn_eq hplotted, hsession, hcanvas]

theorem plotted_opened : (opened session width height).1.plotted = false := by
  obtain ⟨bottomTicks, leftTicks, rows, plotEnabled, hopened⟩ := opened_fst session width height
  rw [hopened]
  rfl

theorem isUpToDate_run
    (h : ∀ front, front <+: gestures → ((opened session width height).1.run front).IsLabelled) :
    ((opened session width height).1.run gestures).IsUpToDate := by
  induction gestures using List.reverseRecOn with
  | nil =>
    have hticks := (h [] List.nil_prefix).ticks
    rw [run_nil, opened_session] at hticks
    exact (opened_of_hasTicks hticks).1
  | append_singleton front gesture ih =>
    have hfront := ih fun front' hinit => h front' (hinit.trans (List.prefix_append _ _))
    have hlabelled := h _ (List.prefix_refl _)
    rw [run_concat] at hlabelled ⊢
    exact hfront.next gesture hlabelled

/-- Landmarks are numbers wherever the hundredfolds of the bounds are finite, so as long as the settings
dialog is left alone, everything has a label. -/
theorem isLabelled_run (hticks : HasTicks w.session.bounds) (husable : w.session.bounds.IsUsable)
    (hfinite : ∀ side, (Number.hundredfold (w.session.bounds.side side)).isFinite = true)
    (h : ∀ gesture ∈ gestures, ∀ reply, gesture ≠ .settings reply) {front : List Gesture}
    (hinit : front <+: gestures) : (w.run front).IsLabelled := by
  have hbounds : (w.run front).session.bounds = w.session.bounds :=
    run_bounds w fun gesture hgesture => h gesture (hinit.subset hgesture)
  rw [← hbounds] at hticks husable hfinite
  exact ⟨hticks, fun _ => Plot.hasNumbers_of_bounds husable hfinite _⟩

/-- There is a plot just when one of the gestures plots. -/
theorem plotted_run_iff (hrefreshed : w.IsRefreshed) (hstart : w.plotted = false)
    (h : ∀ front, front <+: gestures → HasTicks (w.run front).session.bounds) :
    (w.run gestures).plotted = true ↔
      ∃ front gesture, front ++ [gesture] <+: gestures ∧ (w.run front).Plots gesture := by
  induction gestures using List.reverseRecOn with
  | nil => simp [hstart]
  | append_singleton gestures last ih =>
    have hticks := h _ (List.prefix_refl _)
    have hfront := ih fun front hinit => h front (hinit.trans (List.prefix_append _ _))
    rw [run_concat] at hticks ⊢
    rw [(hrefreshed.run gestures).plotted_next_iff hticks, hfront]
    constructor
    · rintro (⟨front, gesture, hinit, hplots⟩ | hplots)
      · exact ⟨front, gesture, hinit.trans (List.prefix_append _ _), hplots⟩
      · exact ⟨gestures, last, List.prefix_refl _, hplots⟩
    · rintro ⟨front, gesture, hinit, hplots⟩
      rcases List.prefix_concat_iff.mp hinit with heq | hinit
      · obtain ⟨rfl, rfl⟩ := List.append_singleton_inj.mp heq
        exact Or.inr hplots
      · exact Or.inl ⟨front, gesture, hinit, hplots⟩

/-- **The window is never stale** after gestures through which everything has a label, and there is a
plot from the first gesture on that plots. -/
theorem run_isFresh
    (h : ∀ front, front <+: gestures → ((opened session width height).1.run front).IsLabelled) :
    (opened session width height).2 = none ∧
      ((opened session width height).1.run gestures).IsFresh ∧
      (((opened session width height).1.run gestures).plotted = true ↔
        ∃ front gesture, front ++ [gesture] <+: gestures ∧
          ((opened session width height).1.run front).Plots gesture) := by
  have hticks : HasTicks session.bounds := by
    have hstart := (h [] List.nil_prefix).ticks
    rwa [run_nil, opened_session] at hstart
  have hsucceeds : (opened session width height).2 = none := (opened_of_hasTicks hticks).2
  have hrefreshed := isRefreshed_of_opened (eq_of_succeeds _ hsucceeds)
  exact ⟨hsucceeds, (isUpToDate_run h).isFresh,
    plotted_run_iff hrefreshed plotted_opened fun front hinit => (h front hinit).ticks⟩

theorem next_resize_canvas (w : Window) (width height : Int) :
    (w.next (.resize width height)).session = w.session ∧
      (w.next (.resize width height)).canvas
        = ⟨Float.ofInt width, Float.ofInt height, Canvas.standardMargin⟩ := by
  rw [next, perform, outcome_fst, resize]
  simp only
  split
  · obtain ⟨summary, message, tone, hreplot⟩ := replot_fst { w with width, height } false
    rw [hreplot]
    exact ⟨rfl, rfl⟩
  · exact ⟨rfl, rfl⟩

/-- Two functions and then a new size: both are plotted, the point at zero of the first is a landmark, and
the drawing is that for the new size. -/
theorem run_isFresh_of_quotient :
    ∃ w, (opened .initial 800 600).1.run [.add "x", .add "1/x", .resize 400 300] = w ∧ w.IsFresh ∧
      w.plotted = true ∧ w.session.functions.enabled.map Entry.expression = ["x", "1/x"] ∧
      (∃ t ∈ w.session.plot.traces, ⟨0, 0⟩ ∈ t.landmarks) ∧
      w.drawn = Drawing.items ⟨400, 300, Canvas.standardMargin⟩ w.session.plot := by
  have hstart : (opened .initial 800 600).1.session = .initial := opened_session
  have hlabelled : ∀ front, front <+: [.add "x", .add "1/x", .resize 400 300] →
      ((opened .initial 800 600).1.run front).IsLabelled := by
    intro front hinit
    refine isLabelled_run ?_ ?_ ?_ (by simp) hinit <;> rw [hstart]
    · decide +kernel
    · exact Session.isUsable_initial
    · intro side
      cases side <;> decide +kernel
  have hdiagonal : Formula.compile "x" = .ok Plot.diagonal.formula := by cbv
  obtain ⟨quotient, hquotient⟩ : ∃ formula, Formula.compile "1/x" = .ok formula := by
    cbv
    exact ⟨_, rfl⟩
  obtain ⟨-, hfresh, hplotted⟩ := run_isFresh hlabelled
  have hplots := hplotted.mpr ⟨[], .add "x", List.prefix_append _ _, _, hdiagonal⟩
  -- Only the session of the new window matters from here on, so the window need not be computed.
  obtain ⟨v, hv⟩ : ∃ v, v = (opened .initial 800 600).1 := ⟨_, rfl⟩
  rw [← hv] at hstart hfresh hplots ⊢
  have hrun : v.run [.add "x", .add "1/x", .resize 400 300]
      = ((v.next (.add "x")).next (.add "1/x")).next (.resize 400 300) := rfl
  obtain ⟨hsession, hcanvas⟩ :=
    next_resize_canvas ((v.next (.add "x")).next (.add "1/x")) 400 300
  rw [(next_add_of_ok hquotient).2, withEntry, (next_add_of_ok hdiagonal).2, withEntry, hstart]
    at hsession
  refine ⟨_, rfl, hfresh, hplots, ?_, ⟨Plot.trace .initial Plot.diagonal, ?_, ?_⟩, ?_⟩
  · rw [hrun, hsession]
    rfl
  · rw [hrun, hsession]
    exact List.mem_map_of_mem List.mem_cons_self
  · have hzero : Plot.zero? .initial Plot.diagonal = some ⟨0, 0⟩ := by decide +kernel
    rw [Plot.landmarks_of_zero?_eq_some hzero]
    exact (Landmark.insertZero_perm _ _).mem_iff.mpr List.mem_cons_self
  · have hsize : (⟨Float.ofInt 400, Float.ofInt 300, Canvas.standardMargin⟩ : Canvas Float)
        = ⟨400, 300, Canvas.standardMargin⟩ := by decide +kernel
    rw [hfresh.drawn_eq hplots, hrun, hcanvas, hsize]

end Runs

end FunctionGraph.Window
