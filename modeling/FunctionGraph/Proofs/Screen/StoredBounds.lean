import FunctionGraph.Proofs.Axis.Placement
import FunctionGraph.Proofs.Screen.RejectedInput

/-!
# Stored bounds

Bounds reach a session in three ways: as numbers, as texts, and as texts from the settings dialog. All
three pass one check, so in every session the bounds can be plotted, a plot pass succeeds, and nothing
that is drawn is divided by zero.
-/

namespace FunctionGraph.Window

/-- What can happen to a window: a gesture, or a step of its session that no gesture causes. -/
inductive Event where
  | step (step : Session.Step)
  | gesture (gesture : Gesture)

def handle (w : Window) : Event → Window
  | .step step => { w with session := w.session.after step }
  | .gesture gesture => w.next gesture

def handleAll (w : Window) (events : List Event) : Window :=
  events.foldl handle w

/-- The window's session can be plotted and drawn at any size, and takes new bounds if these can be,
in whichever way they come. -/
structure IsPlottable (w : Window) : Prop where
  bounds : w.session.bounds.IsPlottable
  pass : Plot.checkedPass w.session.functions.entries w.session.bounds = .ok w.session.plot
  places : w.session.bounds.HasPlaces
  configure : ∀ b : Bounds Float, b.IsPlottable →
    (w.handle (.step (.configure b))).session = w.session.withBounds b
  texts : ∀ texts, (Bounds.readTexts texts).IsPlottable →
    (w.handle (.step (.configureTexts texts))).session = w.session.withBounds (Bounds.readTexts texts)
  dialog : ∃ shown, w.session.bounds.toTexts = .ok shown ∧ ∀ edits,
    (Bounds.readTexts (edited shown edits)).IsPlottable →
      (w.handle (.gesture (.settings (some edits)))).session
        = w.session.withBounds (Bounds.readTexts (edited shown edits))

section Events

variable {w : Window}

theorem isUsable_handle (h : w.session.bounds.IsUsable) (event : Event) :
    (w.handle event).session.bounds.IsUsable := by
  cases event with
  | step step => exact Session.isUsable_run h [step]
  | gesture gesture => exact isUsable_next h gesture

theorem isUsable_handleAll (h : w.session.bounds.IsUsable) (events : List Event) :
    (w.handleAll events).session.bounds.IsUsable :=
  List.foldlRecOn (motive := fun w : Window => w.session.bounds.IsUsable) events handle h
    fun _ h event _ => isUsable_handle h event

theorem isPlottable_of_isUsable (h : w.session.bounds.IsUsable) : w.IsPlottable where
  bounds := h.isPlottable
  pass := by
    rw [Plot.checkedPass, h.checked]
    rfl
  places := h.isPlottable.hasPlaces
  configure b hb := Session.after_of_moves (.configure hb.toIsUsable)
  texts texts htexts := Session.after_of_moves (.configureTexts htexts.toIsUsable)
  dialog := by
    obtain ⟨shown, hshown, -⟩ := Bounds.exists_toTexts h.finite
    refine ⟨shown, hshown, fun edits hedits => ?_⟩
    exact ((answersInput hshown).stored edits _ hedits.toIsUsable.checked).2

end Events

/-- **Stored bounds can always be plotted**, whatever numbers and texts a session is given, and all
bounds that can be are taken. -/
theorem handleAll_isPlottable {session : Session}
    (h : session.bounds = .initial ∨ ∃ given : Bounds Float, given.checked = .ok session.bounds)
    (width height : Int) (events : List Event) :
    ((opened session width height).1.handleAll events).IsPlottable ∧
      ∀ b : Bounds Float, (∃ c, b.checked = .ok c) ↔ b.IsPlottable := by
  have husable : (opened session width height).1.session.bounds.IsUsable := by
    rw [opened_session]
    rcases h with h | ⟨given, h⟩
    · rw [h]
      exact Session.isUsable_initial
    · exact Bounds.isUsable_of_checked h
  exact ⟨isPlottable_of_isUsable (isUsable_handleAll husable events),
    fun _ => Bounds.exists_checked_iff⟩

/-- Two events are refused, and the last is taken. -/
theorem handleAll_isPlottable_of_nan :
    ((opened .initial 800 600).1.handleAll
      [.step (.configure ⟨Number.nan, 1, -10, 10⟩),
        .step (.configureTexts ⟨"-1", "1e400", "0", "0"⟩),
        .gesture (.settings (some ⟨some "-2.5", some "0.5", none, none⟩))]).IsPlottable :=
  (handleAll_isPlottable (Or.inl rfl) 800 600 _).1

end FunctionGraph.Window
