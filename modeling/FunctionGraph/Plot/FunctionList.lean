import FunctionGraph.Formula.Basic

/-!
# The list of functions

The functions the user has entered, in the order of entry. A new function takes the colour that the
number of functions points to, going round the palette, so after a removal two may share a colour.
-/

namespace FunctionGraph

/-- A function of the plot; `expression` is what the user typed. -/
structure Entry where
  expression : String
  formula : Formula
  color : String
  enabled : Bool

/-- Colours to choose from, at least one. -/
structure Palette where
  colors : List String
  nonempty : colors ≠ [] := by decide

namespace Palette

inductive Error where
  | empty
  deriving DecidableEq, Repr

def Error.message : Error → String
  | .empty => "palette must not be empty"

def ofList (colors : List String) : Except Error Palette :=
  if h : colors = [] then .error .empty else .ok ⟨colors, h⟩

def standard : Palette where
  colors :=
    ["#e74c3c", "#3498db", "#2ecc71", "#f39c12", "#9b59b6", "#1abc9c", "#d35400", "#c0392b"]

/-- The colour of the function that is entered when there are `count` others. -/
def color (palette : Palette) (count : Nat) : String :=
  palette.colors.get
    ⟨count % palette.colors.length, Nat.mod_lt _ (List.length_pos_iff.mpr palette.nonempty)⟩

end Palette

inductive MissingIndex where
  | outOfRange
  | removeOutOfRange
  | removeFromEmpty
  deriving DecidableEq, Repr

def MissingIndex.message : MissingIndex → String
  | .outOfRange => "list index out of range"
  | .removeOutOfRange => "pop index out of range"
  | .removeFromEmpty => "pop from empty list"

structure FunctionList where
  palette : Palette
  entries : List Entry

namespace FunctionList

def empty (palette : Palette) : FunctionList :=
  ⟨palette, []⟩

/-- The position that an index means; negative indexes count from the end. -/
def position? (count : Nat) (index : Int) : Option Nat :=
  let position := if index < 0 then index + count else index
  if 0 ≤ position ∧ position < count then some position.toNat else none

theorem position?_natCast {count index : Nat} (h : index < count) :
    position? count index = some index := by
  have hsign : ¬(index : Int) < 0 := by omega
  simp [position?, hsign, h]

def get (fs : FunctionList) (index : Int) : Except MissingIndex Entry :=
  match (position? fs.entries.length index).bind (fs.entries[·]?) with
  | some entry => .ok entry
  | none => .error .outOfRange

def enabled (fs : FunctionList) : List Entry :=
  fs.entries.filter Entry.enabled

/-- The entry that a text gives, as the next of the list. -/
def entryOf (fs : FunctionList) (text : String) : Except Formula.Rejection Entry := do
  let formula ← Formula.compile text
  return ⟨String.ofList (Text.trim text.toList), formula, fs.palette.color fs.entries.length, true⟩

def add (fs : FunctionList) (text : String) : Except Formula.Rejection FunctionList := do
  return { fs with entries := fs.entries ++ [← fs.entryOf text] }

def remove (fs : FunctionList) (index : Int) : Except MissingIndex FunctionList :=
  match position? fs.entries.length index with
  | some position => .ok { fs with entries := fs.entries.eraseIdx position }
  | none => .error (if fs.entries.isEmpty then .removeFromEmpty else .removeOutOfRange)

def toggle (fs : FunctionList) (index : Int) (enabled : Bool) : Except MissingIndex FunctionList :=
  match position? fs.entries.length index with
  | some position =>
    .ok { fs with entries := fs.entries.modify position fun entry => { entry with enabled } }
  | none => .error .outOfRange

end FunctionList

end FunctionGraph
