import FunctionGraph.Text.Blank
import FunctionGraph.Text.Lowercase

/-!
# Canonical form

A formula may be typed with capitals, blanks, an assignment to `y` and several signs for one
operation. The canonical form has none of these left.
-/

namespace FunctionGraph.Formula

/-- What follows an assignment to `y` that starts the text, with the blanks inside and behind it. -/
def afterAssignment? : List Char → Option (List Char)
  | 'y' :: rest =>
    match Text.trimStart rest with
    | '=' :: rest => some (Text.trimStart rest)
    | _ => none
  | _ => none

/-- Drops the first assignment to `y`, wherever it stands. -/
def dropAssignment : List Char → List Char
  | [] => []
  | c :: rest => (afterAssignment? (c :: rest)).getD (c :: dropAssignment rest)

/-- The one spelling of each operation. -/
def spell : Char → List Char
  | '^' => ['*', '*']
  | '×' => ['*']
  | '÷' => ['/']
  | c => [c]

def canonical (text : List Char) : List Char :=
  (Text.dropBlanks (dropAssignment (Text.lower text))).flatMap spell

end FunctionGraph.Formula
