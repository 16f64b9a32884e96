import FunctionGraph.Screen.Widget
import FunctionGraph.Screen.Window

/-!
# Views

How the window and its settings dialog are built, from their state.
-/

namespace FunctionGraph

def Tone.style : Tone → String
  | .error => "color: #c0392b; font-style: italic;"
  | .success => "color: #27ae60; font-style: italic;"

def Row.swatchStyle (row : Row) : String :=
  "background-color: " ++ row.color ++ "; border-radius: 3px;"

def Row.view (row : Row) : Widget :=
  .filled .panel []
    (.inOrder .row [.margins 2 1 2 1, .spacing 6]
      [.control .label [.text "", .fixedSize 14 14, .style row.swatchStyle],
        .label row.expression,
        .stretch 1,
        .control .checkBox [.checked row.checked],
        .control .button [.text "×", .fixedWidth 24, .tooltip "Remove function"]])

namespace Window

def noFunctions : String := "No functions added"

def rowViews (w : Window) : List Widget :=
  if w.rows.isEmpty then
    [.control .label [.text noFunctions, .style "color: #6c757d;"]]
  else
    w.rows.map Row.view

def inputRow (w : Window) : Widget :=
  .inOrder .row []
    [.control .lineEdit [.text w.input, .placeholder "y = 2 * (x + 1)   or   y = x^2"],
      .button "Add",
      .control .button ([.text "Plot"] ++ if w.plotEnabled then [] else [.disabled]),
      .button "Settings"]

def messageLabel (w : Window) : Widget :=
  .control .label ([.text w.message] ++ (w.tone.map fun tone => .style tone.style).toList)

def plotColumn (w : Window) : Widget :=
  .inOrder .column [] [.control .plotArea [], w.inputRow, w.messageLabel]

def listColumn (w : Window) : Widget :=
  .inOrder .column []
    [.filled .groupBox [.text "Functions"] (.inOrder .column [.spacing 2] w.rowViews),
      .label "Significant points:",
      .control .textPane [.text w.summary, .readOnly]]

def view (w : Window) : Widget :=
  .frame .mainWindow [.title "Function Plotter", .geometry 100 100 1200 760]
    (.filled .panel [] (.layout .row [] [([3], w.plotColumn), ([1], w.listColumn)]))

end Window

/-- The settings dialog with what its four fields hold. -/
def dialogView (fields : Bounds String) : Widget :=
  let field (row : Nat) (name text : String) : List (List Nat × Widget) :=
    [([row, 0], .label name), ([row, 1], .control .lineEdit [.text text])]
  .filled .dialog [.title "Axis Bounds"]
    (.layout .grid []
      (field 0 "X Min:" fields.xMin ++ field 1 "X Max:" fields.xMax ++ field 2 "Y Min:" fields.yMin
        ++ field 3 "Y Max:" fields.yMax
        ++ [([4, 0, 1, 2], .inOrder .row [] [.button "OK", .button "Cancel"])]))

def Window.dialog (w : Window) : Except Fault Widget :=
  w.session.bounds.toTexts.map dialogView

end FunctionGraph
