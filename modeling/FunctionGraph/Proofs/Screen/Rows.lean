import FunctionGraph.Proofs.Screen.Gestures
import FunctionGraph.Screen.View

/-!
# Rows and functions

A row keeps the index it was built with, and a click on its checkbox changes the row without building
the rows anew. That the index stays right rests on one fact, which no gesture breaks: the rows are what
building them now would give.
-/

namespace FunctionGraph

def Entry.flipped (entry : Entry) : Entry :=
  { entry with enabled := !entry.enabled }

namespace Window

/-- The rows and the button are as they would be if they were built now. -/
structure IsRefreshed (w : Window) : Prop where
  rows_eq : w.rows = rowsOf w.session.functions.entries
  plotEnabled_eq : w.plotEnabled = !w.session.functions.entries.isEmpty

section Rows

variable {entries : List Entry} {position : Nat} {entry : Entry}

@[simp]
theorem length_rowsOf (entries : List Entry) : (rowsOf entries).length = entries.length := by
  simp [rowsOf]

theorem getElem?_rowsOf (entries : List Entry) (position : Nat) :
    (rowsOf entries)[position]? = entries[position]?.map fun entry =>
      ⟨position, entry.color, entry.expression, entry.enabled⟩ := by
  rw [rowsOf, List.getElem?_map, List.getElem?_zipIdx, Option.map_map, Nat.zero_add]
  rfl

/-- Checking the row of an entry does what building the rows of the changed entries would do. -/
theorem set_rowsOf (h : entries[position]? = some entry) :
    (rowsOf entries).set position ⟨position, entry.color, entry.expression, !entry.enabled⟩
      = rowsOf (entries.modify position fun entry' => { entry' with enabled := !entry.enabled }) := by
  have hlt : position < entries.length := (List.getElem?_eq_some_iff.mp h).1
  refine List.ext_getElem? fun i => ?_
  rw [getElem?_rowsOf, List.getElem?_set, getElem?_rowsOf, List.getElem?_modify, length_rowsOf]
  by_cases hi : position = i
  · subst hi
    rw [if_pos rfl, if_pos hlt, h]
    simp
  · simp [hi]

theorem isEmpty_modify (entries : List Entry) (position : Nat) (f : Entry → Entry) :
    (entries.modify position f).isEmpty = entries.isEmpty := by
  cases entries <;> cases position <;> rfl

end Rows

section Steps

variable {w : Window}

theorem isRefreshed_refreshRows (w : Window) : w.refreshRows.IsRefreshed :=
  ⟨rfl, rfl⟩

theorem IsRefreshed.replot (h : w.IsRefreshed) (announce : Bool) :
    (w.replot announce).1.IsRefreshed := by
  obtain ⟨summary, message, tone, hreplot⟩ := replot_fst w announce
  rw [hreplot]
  exact ⟨h.rows_eq, h.plotEnabled_eq⟩

theorem IsRefreshed.configureAxes (h : w.IsRefreshed) : w.configureAxes.1.IsRefreshed := by
  obtain ⟨bottomTicks, leftTicks, haxes⟩ := configureAxes_fst w
  rw [haxes]
  exact ⟨h.rows_eq, h.plotEnabled_eq⟩

theorem IsRefreshed.say (h : w.IsRefreshed) (tone : Tone) (message : String) :
    (w.say tone message).IsRefreshed :=
  ⟨h.rows_eq, h.plotEnabled_eq⟩

theorem IsRefreshed.submit (h : w.IsRefreshed) : w.submit.1.IsRefreshed := by
  rw [Window.submit]
  simp only
  split
  · exact h.say _ _
  · exact (isRefreshed_refreshRows _).replot false

/-- The row at a position belongs to the entry at that position. -/
theorem IsRefreshed.rowAt? (h : w.IsRefreshed) {position : Int} {row : Row}
    (hrow : w.rowAt? position = some row) :
    ∃ entry, 0 ≤ position ∧ w.session.functions.entries[position.toNat]? = some entry
      ∧ row = ⟨position.toNat, entry.color, entry.expression, entry.enabled⟩ := by
  rw [Window.rowAt?, h.rows_eq, getElem?_rowsOf] at hrow
  split at hrow
  · cases hrow
  · next hnonneg =>
    obtain ⟨entry, hentry, rfl⟩ := Option.map_eq_some_iff.mp hrow
    exact ⟨entry, by omega, hentry, rfl⟩

theorem toggle_natCast {fs : FunctionList} {position : Nat} (h : position < fs.entries.length)
    (enabled : Bool) :
    fs.toggle position enabled
      = .ok { fs with entries := fs.entries.modify position fun entry => { entry with enabled } } := by
  rw [FunctionList.toggle, FunctionList.position?_natCast h]

theorem remove_natCast {fs : FunctionList} {position : Nat} (h : position < fs.entries.length) :
    fs.remove position = .ok { fs with entries := fs.entries.eraseIdx position } := by
  rw [FunctionList.remove, FunctionList.position?_natCast h]

theorem IsRefreshed.check (h : w.IsRefreshed) {position : Nat} {entry : Entry}
    (hentry : w.session.functions.entries[position]? = some entry) :
    (w.check position ⟨position, entry.color, entry.expression, entry.enabled⟩).1.IsRefreshed := by
  have hlt := (List.getElem?_eq_some_iff.mp hentry).1
  rw [Window.check, toggle_natCast hlt]
  refine IsRefreshed.replot ⟨?_, ?_⟩ false
  · rw [h.rows_eq]
    exact set_rowsOf hentry
  · rw [h.plotEnabled_eq]
    exact congrArg _ (isEmpty_modify _ _ _).symm

theorem IsRefreshed.next (h : w.IsRefreshed) (gesture : Gesture) : (w.next gesture).IsRefreshed := by
  rw [Window.next]
  cases gesture with
  | add text =>
    rw [perform, outcome_fst]
    exact IsRefreshed.submit ⟨h.rows_eq, h.plotEnabled_eq⟩
  | check position =>
    rw [perform, onRow]
    cases hrow : w.rowAt? position with
    | none => exact h
    | some row =>
      obtain ⟨entry, -, hentry, rfl⟩ := h.rowAt? hrow
      simp only [outcome_fst]
      exact h.check hentry
  | delete position =>
    rw [perform, onRow]
    cases hrow : w.rowAt? position with
    | none => exact h
    | some row =>
      simp only [outcome_fst, delete]
      split
      · exact h
      · exact (isRefreshed_refreshRows _).replot false
  | plot =>
    rw [perform]
    split
    · rw [outcome_fst]
      exact h.replot true
    · exact h
  | resize width height =>
    rw [perform, outcome_fst, resize]
    have hresized : { w with width, height }.IsRefreshed := ⟨h.rows_eq, h.plotEnabled_eq⟩
    simp only
    split
    · exact hresized.replot false
    · exact hresized
  | timeout => exact ⟨h.rows_eq, h.plotEnabled_eq⟩
  | settings reply =>
    rw [perform, outcome_fst]
    unfold changeSettings
    split
    · exact h
    · exact h
    · rw [configure]
      split
      · exact ⟨h.rows_eq, h.plotEnabled_eq⟩
      · next b _ =>
        have hstored : { w with session := w.session.withBounds b }.IsRefreshed :=
          ⟨h.rows_eq, h.plotEnabled_eq⟩
        rw [andThen_fst]
        split
        · exact hstored.configureAxes.replot false
        · exact hstored.configureAxes

theorem IsRefreshed.run (h : w.IsRefreshed) (gestures : List Gesture) :
    (w.run gestures).IsRefreshed :=
  List.foldlRecOn gestures Window.next h fun _ h gesture _ => h.next gesture

theorem isRefreshed_of_opened {session : Session} {width height : Int}
    (h : opened session width height = (w, none)) : w.IsRefreshed := by
  rw [opened] at h
  cases haxes : (blank session width height).configureAxes with
  | mk v failure =>
    rw [haxes] at h
    cases failure with
    | none =>
      obtain rfl := (Prod.mk.inj h).1
      exact isRefreshed_refreshRows v
    | some failure => cases (Prod.mk.inj h).2

end Steps

/-! ### The list as it is shown -/

def emptyNote : Widget :=
  .control .label [.text noFunctions, .style "color: #6c757d;"]

/-- The list shows the functions of the session, and a click in a row is about the function there. -/
structure ListsEntries (w : Window) : Prop where
  rows : w.rows.map (fun row => (row.color, row.expression, row.checked))
    = w.session.functions.entries.map fun entry => (entry.color, entry.expression, entry.enabled)
  views : w.session.functions.entries ≠ [] → w.rowViews = w.rows.map Row.view
  note : emptyNote ∈ w.rowViews ↔ w.session.functions.entries = []
  plot : w.plotEnabled = true ↔ w.session.functions.entries ≠ []
  check : ∀ position < w.session.functions.entries.length,
    (w.perform (.check position)).1.session = w.session.withFunctions
      { w.session.functions with
        entries := w.session.functions.entries.modify position Entry.flipped }
  delete : ∀ position < w.session.functions.entries.length,
    (w.perform (.delete position)).1.session = w.session.withFunctions
      { w.session.functions with entries := w.session.functions.entries.eraseIdx position }
  missing : ∀ position : Int, position < 0 ∨ w.session.functions.entries.length ≤ position →
    w.perform (.check position) = (w, .noRow) ∧ w.perform (.delete position) = (w, .noRow)

section Lists

variable {w : Window} {position : Nat}

theorem IsRefreshed.rowAt?_natCast (h : w.IsRefreshed) {entry : Entry}
    (hentry : w.session.functions.entries[position]? = some entry) :
    w.rowAt? position = some ⟨position, entry.color, entry.expression, entry.enabled⟩ := by
  rw [Window.rowAt?, if_neg (by omega), h.rows_eq, Int.toNat_natCast, getElem?_rowsOf, hentry]
  rfl

theorem IsRefreshed.rowAt?_eq_none (h : w.IsRefreshed) {position : Int}
    (hposition : position < 0 ∨ w.session.functions.entries.length ≤ position) :
    w.rowAt? position = none := by
  rw [Window.rowAt?]
  split
  · rfl
  · rw [h.rows_eq, List.getElem?_eq_none]
    rw [length_rowsOf]
    omega

theorem modify_flipped {entries : List Entry} {entry : Entry}
    (hentry : entries[position]? = some entry) :
    (entries.modify position fun entry' => { entry' with enabled := !entry.enabled })
      = entries.modify position Entry.flipped := by
  refine List.ext_getElem? fun i => ?_
  rw [List.getElem?_modify, List.getElem?_modify]
  by_cases hi : position = i
  · subst hi
    simp [hentry, Entry.flipped]
  · simp [hi]

theorem IsRefreshed.check_session (h : w.IsRefreshed)
    (hposition : position < w.session.functions.entries.length) :
    (w.perform (.check position)).1.session = w.session.withFunctions
      { w.session.functions with
        entries := w.session.functions.entries.modify position Entry.flipped } := by
  have hentry := List.getElem?_eq_getElem hposition
  rw [perform, onRow, h.rowAt?_natCast hentry]
  simp only [outcome_fst, Int.toNat_natCast]
  rw [Window.check, toggle_natCast hposition]
  exact (replot_session _ false).trans (by rw [modify_flipped hentry])

theorem IsRefreshed.delete_session (h : w.IsRefreshed)
    (hposition : position < w.session.functions.entries.length) :
    (w.perform (.delete position)).1.session = w.session.withFunctions
      { w.session.functions with entries := w.session.functions.entries.eraseIdx position } := by
  rw [perform, onRow, h.rowAt?_natCast (List.getElem?_eq_getElem hposition)]
  simp only [outcome_fst]
  rw [Window.delete, remove_natCast hposition]
  exact replot_session _ false

theorem IsRefreshed.listsEntries (h : w.IsRefreshed) : w.ListsEntries := by
  have hempty : w.rows = [] ↔ w.session.functions.entries = [] := by
    rw [← List.length_eq_zero_iff, ← List.length_eq_zero_iff, h.rows_eq, length_rowsOf]
  refine ⟨?_, ?_, ?_, ?_, fun _ => h.check_session, fun _ => h.delete_session, ?_⟩
  · refine List.ext_getElem? fun i => ?_
    rw [List.getElem?_map, List.getElem?_map, h.rows_eq, getElem?_rowsOf, Option.map_map]
    rfl
  · intro hentries
    rw [rowViews, if_neg]
    rw [List.isEmpty_iff, hempty]
    exact hentries
  · rw [rowViews, ← hempty]
    split
    · next hnone => exact iff_of_true (List.mem_singleton.mpr rfl) (List.isEmpty_iff.mp hnone)
    · next hsome =>
      refine iff_of_false (fun hmem => ?_) fun hnone => hsome (List.isEmpty_iff.mpr hnone)
      obtain ⟨row, -, hview⟩ := List.mem_map.mp hmem
      cases hview
  · rw [h.plotEnabled_eq, Bool.not_eq_true', ← Bool.not_eq_true, List.isEmpty_iff]
  · intro position hposition
    have hnone := h.rowAt?_eq_none hposition
    constructor <;> rw [perform, onRow, hnone]

end Lists

end Window

end FunctionGraph
