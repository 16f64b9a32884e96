import FunctionGraph.Plot.Pass

/-!
# Sessions

A session holds the functions and the bounds that the user has chosen. A step makes new ones from them
and stores what it made, or fails; either way a session is there after it.
-/

namespace FunctionGraph

structure Session where
  functions : FunctionList
  bounds : Bounds Float

namespace Session

def initial : Session :=
  ⟨.empty .standard, .initial⟩

inductive Error where
  | rejected (reason : Formula.Rejection)
  | missing (index : MissingIndex)
  | unusable (reason : Bounds.Unusable)

inductive Step where
  | add (text : String)
  | remove (index : Int)
  | toggle (index : Int) (enabled : Bool)
  | configure (bounds : Bounds Float)
  | configureTexts (texts : Bounds String)
  | plot

def withFunctions (s : Session) (functions : FunctionList) : Session :=
  { s with functions }

def withBounds (s : Session) (bounds : Bounds Float) : Session :=
  { s with bounds }

/-- The session after some work, and the error that ended the work early. -/
abbrev Progress := Session × Option Error

/-- Stores what was made for the session, or passes on the error that kept it from being made. -/
def keep {α : Type} (s : Session) (store : Session → α → Session) (made : Except Error α) : Progress :=
  match made with
  | .ok value => (store s value, none)
  | .error reason => (s, some reason)

def take (s : Session) : Step → Progress
  | .add text => s.keep withFunctions ((s.functions.add text).mapError .rejected)
  | .remove index => s.keep withFunctions ((s.functions.remove index).mapError .missing)
  | .toggle index enabled => s.keep withFunctions ((s.functions.toggle index enabled).mapError .missing)
  | .configure bounds => s.keep withBounds (bounds.checked.mapError .unusable)
  | .configureTexts texts => s.keep withBounds ((Bounds.ofTexts texts).mapError .unusable)
  | .plot => (s, none)

/-- The session after a step, whether the step succeeds or not. -/
def after (s : Session) (step : Step) : Session :=
  (s.take step).1

def run (s : Session) (steps : List Step) : Session :=
  steps.foldl after s

def plot (s : Session) : Plot :=
  .pass s.functions.entries s.bounds

end Session

end FunctionGraph
