import FunctionGraph.Text.CaseTable

/-!
# Lowercase text

Lowercasing works on a whole text and not on one character: `İ` becomes two characters, and `Σ`
becomes `ς` at the end of a word and `σ` elsewhere.
-/

namespace FunctionGraph.Text

def isCased (c : Char) : Bool :=
  inRanges casedRanges c

def isCaseIgnorable (c : Char) : Bool :=
  inRanges caseIgnorableRanges c

/-- The nearest character that is not passed over has a case. -/
def meetsCased (text : List Char) : Bool :=
  (text.find? fun c => !isCaseIgnorable c).any isCased

/-- A sigma ends a word when a letter stands before it and none behind it. -/
def lowerSigma (before after : List Char) : Char :=
  if meetsCased before && !meetsCased after then 'ς' else 'σ'

/-- The lowercase of a character whose surroundings do not matter. -/
def lowerChar (c : Char) : List Char :=
  if c.toNat < 128 then
    [c.toLower]
  else if c = 'İ' then
    ['i', '\u0307']
  else
    match lowercaseRuns.find? fun run => run.covers c.toNat with
    | some run => [Char.ofNat ((c.toNat : Int) + run.shift).toNat]
    | none => [c]

/-- Lowercases the text behind `before`, which is held in reverse. -/
def lowerAfter (before : List Char) : List Char → List Char
  | [] => []
  | c :: after =>
    (if c = 'Σ' then [lowerSigma before after] else lowerChar c) ++ lowerAfter (c :: before) after

def lower (text : List Char) : List Char :=
  lowerAfter [] text

end FunctionGraph.Text
