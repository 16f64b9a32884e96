/-!
# Widgets

The parts that windows are put together from: controls, panels that hold a layout, and layouts that
hold controls, panels and other layouts.
-/

namespace FunctionGraph

inductive Kind where
  | mainWindow
  | dialog
  | panel
  | plotArea
  | label
  | lineEdit
  | button
  | checkBox
  | groupBox
  | textPane
  | row
  | column
  | grid
  deriving DecidableEq, Repr

/-- What has been set on a widget or a layout. -/
inductive Attribute where
  | text (text : String)
  | checked (checked : Bool)
  | disabled
  | title (title : String)
  | style (sheet : String)
  | tooltip (text : String)
  | placeholder (text : String)
  | readOnly
  | geometry (left top width height : Nat)
  | fixedSize (width height : Nat)
  | fixedWidth (width : Nat)
  | spacing (pixels : Nat)
  | margins (left top right bottom : Nat)
  deriving DecidableEq, Repr

inductive Widget where
  | control (kind : Kind) (attributes : List Attribute)
  /-- A window around one central panel. -/
  | frame (kind : Kind) (attributes : List Attribute) (central : Widget)
  /-- A panel that is filled by a layout. -/
  | filled (kind : Kind) (attributes : List Attribute) (layout : Widget)
  /-- A layout, with the place of each part in it. -/
  | layout (kind : Kind) (attributes : List Attribute) (parts : List (List Nat × Widget))
  /-- Empty space that takes up what is left. -/
  | stretch (factor : Nat)

namespace Widget

def inOrder (kind : Kind) (attributes : List Attribute) (parts : List Widget) : Widget :=
  .layout kind attributes (parts.map fun part => ([], part))

def label (text : String) : Widget :=
  .control .label [.text text]

def button (text : String) : Widget :=
  .control .button [.text text]

end Widget

end FunctionGraph
