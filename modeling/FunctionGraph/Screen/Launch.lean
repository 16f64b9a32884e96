import FunctionGraph.Logging
import FunctionGraph.Screen.View

/-!
# Launching

What the program sets up before the user can do anything: its reports, the look of plots, and a window
over a session without functions. It ends with the code that the window's event loop returns.
-/

namespace FunctionGraph

structure PlotOptions where
  antialias : Bool
  background : String
  foreground : String
  deriving DecidableEq, Repr

structure Launch where
  logger : Logging.Logger
  options : PlotOptions
  window : Window
  exitCode : Int

def PlotOptions.standard : PlotOptions :=
  ⟨true, "w", "k"⟩

namespace Launch

inductive Failure where
  | noLevel (refusal : Logging.NoLevel)
  | window (failure : Window.Failure)
  deriving DecidableEq, Repr

/-- A launch whose plot is `width` by `height` and whose event loop returns `exitCode`. -/
def start (width height exitCode : Int) : Except Failure Launch := do
  let logger ← (Logging.Logger.initial.take Logging.defaultName).mapError .noLevel
  match Window.opened .initial width height with
  | (window, none) => return ⟨logger, .standard, window, exitCode⟩
  | (_, some failure) => throw (.window failure)

end Launch

end FunctionGraph
