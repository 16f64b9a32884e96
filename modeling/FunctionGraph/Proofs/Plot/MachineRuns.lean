import FunctionGraph.Proofs.Plot.Moves

/-!
# Runs of a session

Every step of a run is a move of the list machine or is refused. Leaving out the refused steps gives a
run of the machine with the same final session and the same plots. What an entry is, its expression,
formula and colour, stays with it as long as it is in the list.
-/

namespace FunctionGraph

/-- What never changes of an entry. -/
structure Core where
  expression : String
  formula : Formula
  color : String

def Entry.core (entry : Entry) : Core :=
  ⟨entry.expression, entry.formula, entry.color⟩

namespace Session

/-- A run of the list machine. -/
inductive Path : Session → List Step → Session → Prop
  | nil {s : Session} : Path s [] s
  | cons {s t u : Session} {step : Step} {steps : List Step} (hmove : Moves s step t)
      (hpath : Path t steps u) : Path s (step :: steps) u

/-- The steps of a run that succeed. -/
def succeeding (s : Session) : List Step → List Step
  | [] => []
  | step :: steps =>
    match s.take step with
    | (t, none) => step :: succeeding t steps
    | (t, some _) => succeeding t steps

/-- What a step shows. -/
def shown (s : Session) : Step → List Plot
  | .plot => [s.plot]
  | _ => []

/-- The plots that are shown during a run. -/
def plots (s : Session) : List Step → List Plot
  | [] => []
  | step :: steps => s.shown step ++ plots (s.after step) steps

def cores (s : Session) : List Core :=
  s.functions.entries.map Entry.core

section Runs

variable {s t u : Session} {step : Step} {steps : List Step}

theorem moves_or_refuses (s : Session) (step : Step) : (∃ t, Moves s step t) ∨ Refuses s step := by
  rw [refuses_iff, ← not_exists]
  exact em _

theorem succeeding_cons_of_moves (h : Moves s step t) (steps : List Step) :
    succeeding s (step :: steps) = step :: succeeding t steps := by
  rw [succeeding, take_eq_iff_moves.mpr h]

theorem succeeding_cons_of_refuses (h : Refuses s step) (steps : List Step) :
    succeeding s (step :: steps) = succeeding s steps := by
  obtain ⟨reason, hreason⟩ := exists_error_iff_refuses.mpr h
  have htake : s.take step = (s, some reason) := Prod.ext (after_of_refuses h) hreason
  rw [succeeding, htake]

theorem run_cons (s : Session) (step : Step) (steps : List Step) :
    s.run (step :: steps) = (s.after step).run steps :=
  List.foldl_cons ..

theorem succeeding_sublist (s : Session) (steps : List Step) : (succeeding s steps).Sublist steps := by
  induction steps generalizing s with
  | nil => exact List.Sublist.refl []
  | cons step steps ih =>
    rcases moves_or_refuses s step with ⟨t, hmove⟩ | hrefuses
    · rw [succeeding_cons_of_moves hmove]
      exact (ih t).cons_cons step
    · rw [succeeding_cons_of_refuses hrefuses]
      exact (ih s).cons step

theorem path_succeeding (s : Session) (steps : List Step) :
    Path s (succeeding s steps) (s.run steps) := by
  induction steps generalizing s with
  | nil => exact .nil
  | cons step steps ih =>
    rw [run_cons]
    rcases moves_or_refuses s step with ⟨t, hmove⟩ | hrefuses
    · rw [succeeding_cons_of_moves hmove, after_of_moves hmove]
      exact .cons hmove (ih t)
    · rw [succeeding_cons_of_refuses hrefuses, after_of_refuses hrefuses]
      exact ih s

theorem Path.run_eq (h : Path s steps u) : s.run steps = u := by
  induction h with
  | nil => rfl
  | cons hmove _ ih => rw [run_cons, after_of_moves hmove, ih]

theorem plots_succeeding (s : Session) (steps : List Step) :
    plots s (succeeding s steps) = plots s steps := by
  induction steps generalizing s with
  | nil => rfl
  | cons step steps ih =>
    rcases moves_or_refuses s step with ⟨t, hmove⟩ | hrefuses
    · rw [succeeding_cons_of_moves hmove, plots, plots, after_of_moves hmove, ih]
    · have hshown : s.shown step = [] := by
        cases step with
        | plot => exact hrefuses.elim
        | _ => rfl
      rw [succeeding_cons_of_refuses hrefuses, plots, after_of_refuses hrefuses, hshown, ih]
      rfl

/-! ### What stays with an entry -/

/-- The text that a step adds. -/
def addedText? : Step → Option String
  | .add text => some text
  | _ => none

/-- The core of an entry that the text gives. -/
def IsCoreOf (text : String) (core : Core) : Prop :=
  core.expression = String.ofList (Text.trim text.toList) ∧
    Formula.compile core.expression = .ok core.formula

/-- The cores of `t` are those of `s` and added ones for the steps, in this order; some may be gone. -/
def KeepsCores (s : Session) (steps : List Step) (t : Session) : Prop :=
  ∃ added, List.Forall₂ IsCoreOf (steps.filterMap addedText?) added ∧
    t.cores.Sublist (s.cores ++ added)

theorem Moves.keepsCores (h : Moves s step t) : KeepsCores s [step] t := by
  cases h with
  | @add text entry hexpression hformula hcolor henabled =>
    have hcores : (s.withEntries (s.functions.entries ++ [entry])).cores = s.cores ++ [entry.core] :=
      List.map_append
    exact ⟨[entry.core], .cons ⟨hexpression, hformula⟩ .nil, by rw [hcores]⟩
  | @remove index before behind entry hentries hindex =>
    refine ⟨[], .nil, ?_⟩
    rw [List.append_nil, cores, cores, hentries]
    exact ((List.sublist_cons_self entry behind).append_left before).map Entry.core
  | @toggle index enabled before behind entry hentries hindex =>
    have hcores : (s.withEntries (before ++ { entry with enabled } :: behind)).cores = s.cores := by
      rw [cores, cores, hentries, List.map_append]
      exact List.map_append
    exact ⟨[], .nil, by rw [hcores, List.append_nil]⟩
  | configure husable => exact ⟨[], .nil, List.sublist_append_left _ _⟩
  | configureTexts husable => exact ⟨[], .nil, List.sublist_append_left _ _⟩
  | plot => exact ⟨[], .nil, List.sublist_append_left _ _⟩

theorem Path.keepsCores (h : Path s steps u) : KeepsCores s steps u := by
  induction h with
  | nil => exact ⟨[], .nil, List.sublist_append_left _ _⟩
  | @cons s t u step steps hmove hpath ih =>
    obtain ⟨first, hfirst, hfirstKept⟩ := hmove.keepsCores
    obtain ⟨later, hlater, hlaterKept⟩ := ih
    refine ⟨first ++ later, ?_, ?_⟩
    · rw [← List.singleton_append, List.filterMap_append]
      exact List.rel_append hfirst hlater
    · rw [← List.append_assoc]
      exact hlaterKept.trans (hfirstKept.append_right later)

/-! ### Plots on the way -/

/-- Each enabled entry has the curve that it has when it is plotted alone. -/
theorem forall₂_traces_plot (s : Session) :
    List.Forall₂ (fun entry curve => (Plot.pass [entry] s.bounds).traces = [curve])
      s.functions.enabled s.plot.traces := by
  rw [plot, Plot.pass, List.forall₂_map_right_iff, FunctionList.enabled, List.forall₂_same]
  intro entry hentry
  have henabled : entry.enabled = true := (List.mem_filter.mp hentry).2
  rw [Plot.pass, List.filter_cons_of_pos henabled]
  rfl

/-- A step is a move of the list machine or changes nothing, and a plot has one curve for each enabled
entry, in their order. -/
structure StepFollowsMachine (s : Session) (step : Step) : Prop where
  succeeds_iff : ∀ t, s.take step = (t, none) ↔ Moves s step t
  fails_iff : (∃ reason, (s.take step).2 = some reason) ↔ Refuses s step
  unchanged : Refuses s step → s.after step = s
  plotted : ∀ plot ∈ s.shown step, plot.bounds = s.bounds ∧
    List.Forall₂ (fun entry curve => (Plot.pass [entry] s.bounds).traces = [curve])
      s.functions.enabled plot.traces

/-- The run does what the list machine does on the steps that succeed. -/
structure FollowsMachine (s : Session) (steps : List Step) : Prop where
  step : ∀ front step back, steps = front ++ step :: back → StepFollowsMachine (s.run front) step
  sublist : (succeeding s steps).Sublist steps
  path : Path s (succeeding s steps) (s.run steps)
  run_eq : s.run (succeeding s steps) = s.run steps
  plots_eq : plots s (succeeding s steps) = plots s steps
  kept : ∀ front back, steps = front ++ back →
    KeepsCores (s.run front) (succeeding (s.run front) back) (s.run steps)

theorem stepFollowsMachine (s : Session) (step : Step) : StepFollowsMachine s step where
  succeeds_iff _ := take_eq_iff_moves
  fails_iff := exists_error_iff_refuses
  unchanged := after_of_refuses
  plotted plot hplot := by
    cases step with
    | plot =>
      rw [List.mem_singleton.mp hplot]
      exact ⟨rfl, forall₂_traces_plot s⟩
    | _ => exact absurd hplot List.not_mem_nil

/-- Refused steps can be left out of a run: what remains is a run of the list machine. -/
theorem run_followsMachine (s : Session) (steps : List Step) : FollowsMachine s steps where
  step front step _ _ := stepFollowsMachine (s.run front) step
  sublist := succeeding_sublist s steps
  path := path_succeeding s steps
  run_eq := (path_succeeding s steps).run_eq
  plots_eq := plots_succeeding s steps
  kept front back hsplit := by
    have hrun : s.run steps = (s.run front).run back := by
      rw [hsplit, run, List.foldl_append]
      rfl
    rw [hrun]
    exact (path_succeeding (s.run front) back).keepsCores

end Runs

end Session

end FunctionGraph
