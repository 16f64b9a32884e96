import FunctionGraph.Axis.Ticks
import FunctionGraph.Plot.Session
import FunctionGraph.Screen.Drawing

/-!
# The window

The state of the program's window and what each gesture of the user does to it. The list of functions,
the axes, the drawing and the list of landmarks are kept as they are shown: a gesture that changes the
session has to bring each of them up to date, and not every gesture touches each.

A gesture can fail on a number that has no label. What it did before that stays done.
-/

namespace FunctionGraph

/-- A row of the list of functions. Its checkbox and its button act on the function at `index`. -/
structure Row where
  index : Nat
  color : String
  expression : String
  checked : Bool
  deriving DecidableEq, Repr

inductive Tone where
  | error
  | success
  deriving DecidableEq, Repr

/-- How long a message stays, in milliseconds. -/
def Tone.duration : Tone → Nat
  | .error => 5000
  | .success => 3000

structure Tick where
  value : Float
  label : String

structure Window where
  session : Session
  /-- The width of the plot, in pixels. -/
  width : Int
  /-- The height of the plot, in pixels. -/
  height : Int
  input : String
  rows : List Row
  plotEnabled : Bool
  message : String
  /-- The tone of the latest message, which outlives its text. -/
  tone : Option Tone
  range : Bounds Float
  bottomTicks : List Tick
  leftTicks : List Tick
  drawn : List Item
  summary : String
  /-- A plot has been drawn since the start. -/
  plotted : Bool

namespace Window

inductive Failure where
  | fault (fault : Fault)
  | missing (index : MissingIndex)
  deriving DecidableEq, Repr

/-- The window after some work, and the failure that ended the work early. -/
abbrev Progress := Window × Option Failure

/-- Goes on with further work unless a failure has ended it. -/
def Progress.andThen (progress : Progress) (work : Window → Progress) : Progress :=
  match progress with
  | (w, none) => work w
  | (w, some failure) => (w, some failure)

def rowsOf (entries : List Entry) : List Row :=
  entries.zipIdx.map fun (entry, index) =>
    { index, color := entry.color, expression := entry.expression, checked := entry.enabled }

def refreshRows (w : Window) : Window :=
  { w with
    rows := rowsOf w.session.functions.entries
    plotEnabled := !w.session.functions.entries.isEmpty }

def labelledTicks (lo hi : Float) : Except Fault (List Tick) := do
  (← Ticks.values lo hi (Ticks.step lo hi)).mapM fun value => do
    return ⟨value, ← Number.label value⟩

/-- Shows the bounds of the session on the axes: the ranges, then the ticks below and on the left. -/
def configureAxes (w : Window) : Progress :=
  let b := w.session.bounds
  let ranged := { w with range := b }
  match labelledTicks b.xMin b.xMax with
  | .error fault => (ranged, some (.fault fault))
  | .ok bottomTicks =>
    match labelledTicks b.yMin b.yMax with
    | .error fault => ({ ranged with bottomTicks }, some (.fault fault))
    | .ok leftTicks => ({ ranged with bottomTicks, leftTicks }, none)

def say (w : Window) (tone : Tone) (message : String) : Window :=
  { w with message, tone := some tone }

def canvas (w : Window) : Canvas Float :=
  ⟨Float.ofInt w.width, Float.ofInt w.height, Canvas.standardMargin⟩

/-- Plots the session and draws the result; the user's own request for it is acknowledged. -/
def replot (w : Window) (announce : Bool) : Progress :=
  let plot := w.session.plot
  let drawn := { w with drawn := Drawing.items w.canvas plot, plotted := true }
  match Drawing.summary plot with
  | .error fault => (drawn, some (.fault fault))
  | .ok summary =>
    let shown := { drawn with summary }
    (if announce then shown.say .success "Graphs plotted" else shown, none)

/-- The window before anything is shown in it. -/
def blank (session : Session) (width height : Int) : Window where
  session
  width
  height
  input := ""
  rows := []
  plotEnabled := false
  message := ""
  tone := none
  range := session.bounds
  bottomTicks := []
  leftTicks := []
  drawn := []
  summary := ""
  plotted := false

/-- A new window shows the axes and the functions of its session; nothing is plotted yet. -/
def opened (session : Session) (width height : Int) : Progress :=
  (blank session width height).configureAxes.andThen fun w => (w.refreshRows, none)

def invalidFormula : String :=
  "Enter the function in a valid format, e.g. y = 2 * (x + 1) or y = x^2"

def invalidBounds : String :=
  "Axis minimum values must be less than the maximum values"

/-- Adds the text of the input line, which is cleared when the text is accepted. -/
def submit (w : Window) : Progress :=
  let text := String.ofList (Text.trim w.input.toList)
  match w.session.functions.add text with
  | .error reason =>
    (w.say .error (if text.isEmpty then reason.message else invalidFormula), none)
  | .ok functions =>
    let added := { w with session := w.session.withFunctions functions, input := "" }
    added.refreshRows.replot false

def check (w : Window) (position : Nat) (row : Row) : Progress :=
  let flipped := { w with rows := w.rows.set position { row with checked := !row.checked } }
  match w.session.functions.toggle row.index !row.checked with
  | .error index => (flipped, some (.missing index))
  | .ok functions => { flipped with session := w.session.withFunctions functions }.replot false

def delete (w : Window) (row : Row) : Progress :=
  match w.session.functions.remove row.index with
  | .error index => (w, some (.missing index))
  | .ok functions => { w with session := w.session.withFunctions functions }.refreshRows.replot false

def resize (w : Window) (width height : Int) : Progress :=
  let resized := { w with width, height }
  if resized.plotted then resized.replot false else (resized, none)

/-- The fields of the settings dialog once the user has edited some of them. -/
def edited (shown : Bounds String) (edits : Bounds (Option String)) : Bounds String :=
  ⟨edits.xMin.getD shown.xMin, edits.xMax.getD shown.xMax, edits.yMin.getD shown.yMin,
    edits.yMax.getD shown.yMax⟩

def configure (w : Window) (texts : Bounds String) : Progress :=
  match Bounds.ofTexts texts with
  | .error _ => (w.say .error invalidBounds, none)
  | .ok b =>
    { w with session := w.session.withBounds b }.configureAxes.andThen (·.replot false)

/-- Opens the settings dialog. It is cancelled, or some of its fields are edited and it is accepted. -/
def changeSettings (w : Window) (reply : Option (Bounds (Option String))) : Progress :=
  match w.session.bounds.toTexts, reply with
  | .error fault, _ => (w, some (.fault fault))
  | .ok _, none => (w, none)
  | .ok shown, some edits => w.configure (edited shown edits)

inductive Gesture where
  | add (text : String)
  | check (position : Int)
  | delete (position : Int)
  | plot
  | resize (width height : Int)
  | timeout
  | settings (reply : Option (Bounds (Option String)))

/-- What comes of a gesture. A row that is not there cannot be clicked. -/
inductive Outcome where
  | done
  | noRow
  | failed (reason : Failure)
  deriving DecidableEq, Repr

def Progress.outcome : Progress → Window × Outcome
  | (w, none) => (w, .done)
  | (w, some reason) => (w, .failed reason)

def rowAt? (w : Window) (position : Int) : Option Row :=
  if position < 0 then none else w.rows[position.toNat]?

def onRow (w : Window) (position : Int) (work : Row → Progress) : Window × Outcome :=
  match w.rowAt? position with
  | some row => (work row).outcome
  | none => (w, .noRow)

def perform (w : Window) : Gesture → Window × Outcome
  | .add text => { w with input := text }.submit.outcome
  | .check position => w.onRow position (w.check position.toNat)
  | .delete position => w.onRow position w.delete
  | .plot => if w.plotEnabled then (w.replot true).outcome else (w, .done)
  | .resize width height => (w.resize width height).outcome
  | .timeout => ({ w with message := "" }, .done)
  | .settings reply => (w.changeSettings reply).outcome

end Window

end FunctionGraph
