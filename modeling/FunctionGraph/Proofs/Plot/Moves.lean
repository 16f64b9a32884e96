import FunctionGraph.Proofs.Axis.Labels
import FunctionGraph.Proofs.Text.Blank

/-!
# Moves of a session

A list machine adds an entry at the end of its list, removes or switches one entry and leaves the order
of the others, or exchanges the bounds. Each step of a session is a move of this machine, and it fails
just when the machine has no move for it: on a text that is not accepted, an index out of range, or
bounds that cannot be plotted.
-/

namespace FunctionGraph

/-! ### Typed text -/

/-- A text compiles to what its trimmed form compiles to. -/
theorem Formula.compile_trim (text : String) :
    compile (String.ofList (Text.trim text.toList)) = compile text := by
  rw [compile, compile, String.toList_ofList, Text.trim_trim]

/-! ### Positions -/

namespace FunctionList

variable {count position : Nat} {index : Int}

/-- The index counts from the front, or from the end when it is negative. -/
def IsIndexOf (count : Nat) (index : Int) (position : Nat) : Prop :=
  index = position ∨ index = position - count

theorem position?_eq_some_iff :
    position? count index = some position ↔ position < count ∧ IsIndexOf count index position := by
  rw [position?, IsIndexOf, Option.ite_none_right_eq_some, Option.some.injEq]
  split <;> omega

theorem position?_eq_none_iff : position? count index = none ↔ index < -count ∨ count ≤ index := by
  rw [position?]
  split <;> simp only [ite_eq_right_iff, reduceCtorEq, imp_false] <;> omega

/-- The entry that an index means, and what stands on its two sides. -/
theorem position?_length_eq_some_iff {entries : List Entry} :
    position? entries.length index = some position ↔
      ∃ before entry behind, entries = before ++ entry :: behind ∧ before.length = position ∧
        IsIndexOf entries.length index position := by
  rw [position?_eq_some_iff]
  constructor
  · rintro ⟨hlt, hindex⟩
    refine ⟨entries.take position, entries[position], entries.drop (position + 1), ?_,
      List.length_take_of_le hlt.le, hindex⟩
    rw [← List.drop_eq_getElem_cons hlt, List.take_append_drop]
  · rintro ⟨before, entry, behind, hentries, rfl, hindex⟩
    exact ⟨by simp [hentries], hindex⟩

end FunctionList

theorem Palette.getElem?_color (palette : Palette) (count : Nat) :
    palette.colors[count % palette.colors.length]? = some (palette.color count) := by
  rw [color, List.get_eq_getElem, List.getElem?_eq_getElem]

/-! ### Moves -/

namespace Session

variable {s t u : Session} {step : Step}

def withEntries (s : Session) (entries : List Entry) : Session :=
  s.withFunctions { s.functions with entries }

/-- The moves of the list machine. -/
inductive Moves (s : Session) : Step → Session → Prop
  | add {text : String} {entry : Entry}
      (hexpression : entry.expression = String.ofList (Text.trim text.toList))
      (hformula : Formula.compile entry.expression = .ok entry.formula)
      (hcolor : s.functions.palette.colors[
        s.functions.entries.length % s.functions.palette.colors.length]? = some entry.color)
      (henabled : entry.enabled = true) :
      Moves s (.add text) (s.withEntries (s.functions.entries ++ [entry]))
  | remove {index : Int} {before behind : List Entry} {entry : Entry}
      (hentries : s.functions.entries = before ++ entry :: behind)
      (hindex : FunctionList.IsIndexOf s.functions.entries.length index before.length) :
      Moves s (.remove index) (s.withEntries (before ++ behind))
  | toggle {index : Int} {enabled : Bool} {before behind : List Entry} {entry : Entry}
      (hentries : s.functions.entries = before ++ entry :: behind)
      (hindex : FunctionList.IsIndexOf s.functions.entries.length index before.length) :
      Moves s (.toggle index enabled) (s.withEntries (before ++ { entry with enabled } :: behind))
  | configure {bounds : Bounds Float} (husable : bounds.IsUsable) :
      Moves s (.configure bounds) (s.withBounds bounds)
  | configureTexts {texts : Bounds String} (husable : (Bounds.readTexts texts).IsUsable) :
      Moves s (.configureTexts texts) (s.withBounds (Bounds.readTexts texts))
  | plot : Moves s .plot s

/-- The steps that the list machine refuses. -/
def Refuses (s : Session) : Step → Prop
  | .add text => ∃ reason, Formula.compile text = .error reason
  | .remove index | .toggle index _ =>
    index < -s.functions.entries.length ∨ s.functions.entries.length ≤ index
  | .configure bounds => ¬bounds.IsUsable
  | .configureTexts texts => ¬(Bounds.readTexts texts).IsUsable
  | .plot => False

section Steps

variable {text : String} {formula : Formula} {index : Int} {enabled : Bool} {position : Nat}
  {before behind : List Entry} {entry : Entry}

theorem take_add_of_ok (h : Formula.compile text = .ok formula) :
    s.take (.add text) = (s.withEntries (s.functions.entries ++
      [⟨String.ofList (Text.trim text.toList), formula,
        s.functions.palette.color s.functions.entries.length, true⟩]), none) := by
  rw [take, FunctionList.add, FunctionList.entryOf, h]
  rfl

theorem take_add_of_error {reason : Formula.Rejection} (h : Formula.compile text = .error reason) :
    s.take (.add text) = (s, some (.rejected reason)) := by
  rw [take, FunctionList.add, FunctionList.entryOf, h]
  rfl

theorem take_remove_of_position (hentries : s.functions.entries = before ++ entry :: behind)
    (hindex : FunctionList.IsIndexOf s.functions.entries.length index before.length) :
    s.take (.remove index) = (s.withEntries (before ++ behind), none) := by
  have hposition : FunctionList.position? s.functions.entries.length index = some before.length :=
    FunctionList.position?_length_eq_some_iff.mpr ⟨before, entry, behind, hentries, rfl, hindex⟩
  have herase : s.functions.entries.eraseIdx before.length = before ++ behind := by
    rw [hentries, List.eraseIdx_append_of_length_le le_rfl, Nat.sub_self, List.eraseIdx_cons_zero]
  simp only [take, FunctionList.remove, hposition, herase]
  rfl

theorem take_toggle_of_position (hentries : s.functions.entries = before ++ entry :: behind)
    (hindex : FunctionList.IsIndexOf s.functions.entries.length index before.length) :
    s.take (.toggle index enabled)
      = (s.withEntries (before ++ { entry with enabled } :: behind), none) := by
  have hposition : FunctionList.position? s.functions.entries.length index = some before.length :=
    FunctionList.position?_length_eq_some_iff.mpr ⟨before, entry, behind, hentries, rfl, hindex⟩
  have hmodify : s.functions.entries.modify before.length (fun entry => { entry with enabled })
      = before ++ { entry with enabled } :: behind := by
    simp [hentries, List.modify_eq_take_cons_drop]
  simp only [take, FunctionList.toggle, hposition, hmodify]
  rfl

theorem take_add_eq_iff : s.take (.add text) = (t, none) ↔ Moves s (.add text) t := by
  constructor
  · intro h
    cases hcompile : Formula.compile text with
    | error reason =>
      rw [take_add_of_error hcompile] at h
      cases h
    | ok formula =>
      rw [take_add_of_ok hcompile] at h
      cases h
      exact .add rfl ((Formula.compile_trim text).trans hcompile)
        (Palette.getElem?_color _ _) rfl
  · intro h
    cases h with
    | @add text entry hexpression hformula hcolor henabled =>
      obtain ⟨expression, formula, color, enabled⟩ := entry
      simp only at hexpression hformula hcolor henabled
      subst hexpression henabled
      rw [Formula.compile_trim] at hformula
      rw [Palette.getElem?_color, Option.some.injEq] at hcolor
      rw [take_add_of_ok hformula, hcolor]

theorem take_remove_eq_iff : s.take (.remove index) = (t, none) ↔ Moves s (.remove index) t := by
  constructor
  · intro h
    cases hposition : FunctionList.position? s.functions.entries.length index with
    | none =>
      simp only [take, FunctionList.remove, hposition] at h
      cases h
    | some position =>
      obtain ⟨before, entry, behind, hentries, rfl, hindex⟩ :=
        FunctionList.position?_length_eq_some_iff.mp hposition
      rw [take_remove_of_position hentries hindex] at h
      cases h
      exact .remove hentries hindex
  · intro h
    cases h with
    | remove hentries hindex => exact take_remove_of_position hentries hindex

theorem take_toggle_eq_iff :
    s.take (.toggle index enabled) = (t, none) ↔ Moves s (.toggle index enabled) t := by
  constructor
  · intro h
    cases hposition : FunctionList.position? s.functions.entries.length index with
    | none =>
      simp only [take, FunctionList.toggle, hposition] at h
      cases h
    | some position =>
      obtain ⟨before, entry, behind, hentries, rfl, hindex⟩ :=
        FunctionList.position?_length_eq_some_iff.mp hposition
      rw [take_toggle_of_position hentries hindex] at h
      cases h
      exact .toggle hentries hindex
  · intro h
    cases h with
    | toggle hentries hindex => exact take_toggle_of_position hentries hindex

theorem keep_checked_eq_iff (bounds : Bounds Float) :
    s.keep withBounds (bounds.checked.mapError .unusable) = (t, none)
      ↔ bounds.IsUsable ∧ s.withBounds bounds = t := by
  constructor
  · intro h
    cases hchecked : bounds.checked with
    | error reason =>
      rw [hchecked] at h
      cases h
    | ok checked =>
      obtain ⟨rfl, husable⟩ := Bounds.checked_eq_ok_iff.mp hchecked
      rw [hchecked] at h
      exact ⟨husable, congrArg Prod.fst h⟩
  · rintro ⟨husable, rfl⟩
    rw [husable.checked]
    rfl

/-- A step succeeds just when it is a move, and gives the session that the move gives. -/
theorem take_eq_iff_moves : s.take step = (t, none) ↔ Moves s step t := by
  cases step with
  | add text => exact take_add_eq_iff
  | remove index => exact take_remove_eq_iff
  | toggle index enabled => exact take_toggle_eq_iff
  | configure bounds =>
    refine (keep_checked_eq_iff bounds).trans ⟨?_, fun h => ?_⟩
    · rintro ⟨husable, rfl⟩
      exact .configure husable
    · cases h with
      | configure husable => exact ⟨husable, rfl⟩
  | configureTexts texts =>
    refine (keep_checked_eq_iff (Bounds.readTexts texts)).trans ⟨?_, fun h => ?_⟩
    · rintro ⟨husable, rfl⟩
      exact .configureTexts husable
    · cases h with
      | configureTexts husable => exact ⟨husable, rfl⟩
  | plot =>
    constructor <;> intro h <;> cases h
    · exact .plot
    · rfl

/-- An index is out of range when it is that of no entry. -/
theorem out_of_range_iff :
    (index < -s.functions.entries.length ∨ s.functions.entries.length ≤ index) ↔
      ∀ before entry behind, s.functions.entries = before ++ entry :: behind →
        ¬FunctionList.IsIndexOf s.functions.entries.length index before.length := by
  rw [← FunctionList.position?_eq_none_iff, Option.eq_none_iff_forall_ne_some]
  simp only [ne_eq, FunctionList.position?_length_eq_some_iff]
  constructor
  · exact fun hnever before entry behind hentries hindex =>
      hnever before.length ⟨before, entry, behind, hentries, rfl, hindex⟩
  · rintro hnever position ⟨before, entry, behind, hentries, rfl, hindex⟩
    exact hnever before entry behind hentries hindex

/-- The machine refuses a step just when it has no move for it. -/
theorem refuses_iff : Refuses s step ↔ ∀ t, ¬Moves s step t := by
  cases step with
  | add text =>
    constructor
    · rintro ⟨reason, hreason⟩ t h
      cases h with
      | add hexpression hformula =>
        rw [hexpression, Formula.compile_trim, hreason] at hformula
        cases hformula
    · intro hnever
      cases hcompile : Formula.compile text with
      | error reason => exact ⟨reason, hcompile⟩
      | ok formula => exact absurd (take_eq_iff_moves.mp (take_add_of_ok hcompile)) (hnever _)
  | remove index =>
    refine out_of_range_iff.trans ⟨fun hnever t h => ?_, ?_⟩
    · cases h with
      | remove hentries hindex => exact hnever _ _ _ hentries hindex
    · exact fun hnever before entry behind hentries hindex => hnever _ (.remove hentries hindex)
  | toggle index enabled =>
    refine out_of_range_iff.trans ⟨fun hnever t h => ?_, ?_⟩
    · cases h with
      | toggle hentries hindex => exact hnever _ _ _ hentries hindex
    · exact fun hnever before entry behind hentries hindex => hnever _ (.toggle hentries hindex)
  | configure bounds =>
    refine ⟨fun hunusable t h => ?_, fun hnever husable => hnever _ (.configure husable)⟩
    cases h with
    | configure husable => exact hunusable husable
  | configureTexts texts =>
    refine ⟨fun hunusable t h => ?_, fun hnever husable => hnever _ (.configureTexts husable)⟩
    cases h with
    | configureTexts husable => exact hunusable husable
  | plot => exact iff_of_false id fun hnever => hnever s .plot

/-- Nothing is stored on the way to an error. -/
theorem after_of_error {reason : Error} (h : (s.take step).2 = some reason) : s.after step = s := by
  have hkeep {α : Type} {store : Session → α → Session} {made : Except Error α}
      (hfails : (s.keep store made).2 = some reason) : (s.keep store made).1 = s := by
    cases made with
    | ok value => exact absurd hfails (by simp [keep])
    | error reason => rfl
  cases step with
  | add text => exact hkeep h
  | remove index => exact hkeep h
  | toggle index enabled => exact hkeep h
  | configure bounds => exact hkeep h
  | configureTexts texts => exact hkeep h
  | plot => rfl

/-- A step fails just when the machine refuses it. -/
theorem exists_error_iff_refuses : (∃ reason, (s.take step).2 = some reason) ↔ Refuses s step := by
  rw [refuses_iff, ← Option.isSome_iff_exists]
  constructor
  · intro hfails t hmove
    rw [take_eq_iff_moves.mpr hmove] at hfails
    contradiction
  · intro hnever
    rw [Option.isSome_iff_ne_none]
    intro hnone
    exact hnever (s.take step).1 (take_eq_iff_moves.mp (Prod.ext rfl hnone))

theorem after_of_moves (h : Moves s step t) : s.after step = t := by
  rw [after, take_eq_iff_moves.mpr h]

theorem after_of_refuses (h : Refuses s step) : s.after step = s := by
  obtain ⟨reason, hreason⟩ := exists_error_iff_refuses.mpr h
  exact after_of_error hreason

end Steps

end Session

end FunctionGraph
