import FunctionGraph.Logging

/-!
# The level of the last request

A logger and its handler take their levels under different conditions: the logger from every request,
the handler only from the one that attaches it. So after a sequence of requests the logger has the level
of the last and the handler that of the first, and both are at the level that was asked for last only
where the two agree. A name that stands for no level ends the sequence.
-/

namespace FunctionGraph.Logging

/-- The name stands for a level, or is unknown and means that of information. -/
def NamesLevel (name : String) : Prop :=
  ∃ level, levelOf name = .ok level

/-- The level that a request is meant to bring. Names of no level mean that of information. -/
def wanted (name : String) : Nat :=
  (levelOf name).toOption.getD 20

theorem NamesLevel.levelOf_eq {name : String} (h : NamesLevel name) :
    levelOf name = .ok (wanted name) := by
  obtain ⟨level, hlevel⟩ := h
  rw [wanted, hlevel]
  rfl

/-- A sequence has a first name that is refused, or none. -/
theorem forall_namesLevel_or_refused (names : List String) :
    (∀ name ∈ names, NamesLevel name) ∨
      ∃ front name back refusal, names = front ++ name :: back ∧
        (∀ earlier ∈ front, NamesLevel earlier) ∧ levelOf name = .error refusal := by
  induction names with
  | nil => exact .inl fun name hname => absurd hname List.not_mem_nil
  | cons first names ih =>
    cases hfirst : levelOf first with
    | error refusal => exact .inr ⟨[], first, names, refusal, rfl, by simp, hfirst⟩
    | ok level =>
      have hlevel : NamesLevel first := ⟨level, hfirst⟩
      rcases ih with hall | ⟨front, name, back, refusal, rfl, hfront, hname⟩
      · exact .inl (List.forall_mem_cons.mpr ⟨hlevel, hall⟩)
      · exact .inr ⟨first :: front, name, back, refusal, rfl,
          List.forall_mem_cons.mpr ⟨hlevel, hfront⟩, hname⟩

namespace Logger

/-- There is one handler, and it has the level of the logger. -/
structure IsAt (logger : Logger) (wanted : Nat) : Prop where
  level : logger.level = wanted
  handlers : logger.handlers = [wanted]

section Requests

variable {name : String}

theorem take_of_namesLevel (logger : Logger) (h : NamesLevel name) :
    logger.take name = .ok { logger with
      level := wanted name
      handlers := if logger.handlers.isEmpty then [wanted name] else logger.handlers } := by
  rw [take, h.levelOf_eq]
  rfl

theorem take_of_error (logger : Logger) {refusal : NoLevel} (h : levelOf name = .error refusal) :
    logger.take name = .error refusal := by
  rw [take, h]
  rfl

theorem takeAll_cons_of_namesLevel (logger : Logger) (h : NamesLevel name) (names : List String) :
    logger.takeAll (name :: names) = takeAll { logger with
      level := wanted name
      handlers := if logger.handlers.isEmpty then [wanted name] else logger.handlers } names := by
  rw [takeAll, List.foldlM_cons, take_of_namesLevel logger h]
  rfl

/-- From any state, the level follows the last request. The handlers follow the first, and only if there
are none. -/
theorem takeAll_of_namesLevel (logger : Logger) {names : List String}
    (h : ∀ name ∈ names, NamesLevel name) :
    logger.takeAll names = .ok { logger with
      level := (names.map wanted).getLastD logger.level
      handlers :=
        if logger.handlers.isEmpty then (names.map wanted).head?.toList else logger.handlers } := by
  induction names generalizing logger with
  | nil =>
    obtain ⟨name, level, handlers⟩ := logger
    cases handlers <;> rfl
  | cons name names ih =>
    obtain ⟨hname, hnames⟩ := List.forall_mem_cons.mp h
    rw [takeAll_cons_of_namesLevel logger hname, ih _ hnames, List.map_cons, List.getLastD_cons]
    -- The handler is there from this request on, so the levels behind it do not matter.
    cases hhandlers : logger.handlers <;> simp

theorem takeAll_of_refused (logger : Logger) {front back : List String} {refusal : NoLevel}
    (hfront : ∀ earlier ∈ front, NamesLevel earlier) (h : levelOf name = .error refusal) :
    logger.takeAll (front ++ name :: back) = .error refusal := by
  induction front generalizing logger with
  | nil =>
    rw [List.nil_append, takeAll, List.foldlM_cons, take_of_error logger h]
    rfl
  | cons first front ih =>
    obtain ⟨hfirst, hfront⟩ := List.forall_mem_cons.mp hfront
    rw [List.cons_append, takeAll_cons_of_namesLevel logger hfirst, ih _ hfront]

theorem takeAll_eq_error_iff {logger : Logger} {names : List String} {refusal : NoLevel} :
    logger.takeAll names = .error refusal ↔
      ∃ front name back, names = front ++ name :: back ∧
        (∀ earlier ∈ front, NamesLevel earlier) ∧ levelOf name = .error refusal := by
  constructor
  · intro h
    rcases forall_namesLevel_or_refused names with hall | ⟨front, name, back, reason, rfl, hfront, hname⟩
    · rw [takeAll_of_namesLevel logger hall] at h
      contradiction
    · rw [takeAll_of_refused logger hfront hname] at h
      cases h
      exact ⟨front, name, back, rfl, hfront, hname⟩
  · rintro ⟨front, name, back, rfl, hfront, hname⟩
    exact takeAll_of_refused logger hfront hname

end Requests

/-- The handler keeps the level of the first request, and the logger has that of the last. -/
theorem takeAll_initial_eq_ok_iff {earlier : List String} {last : String} {logger : Logger} :
    initial.takeAll (earlier ++ [last]) = .ok logger ↔
      (∀ name ∈ earlier ++ [last], NamesLevel name) ∧
        logger = ⟨initial.name, wanted last, [wanted (earlier.headD last)]⟩ := by
  have hfollows (h : ∀ name ∈ earlier ++ [last], NamesLevel name) :
      initial.takeAll (earlier ++ [last])
        = .ok ⟨initial.name, wanted last, [wanted (earlier.headD last)]⟩ := by
    have hlast : ((earlier ++ [last]).map wanted).getLastD initial.level = wanted last := by simp
    have hfirst : ((earlier ++ [last]).map wanted).head?.toList = [wanted (earlier.headD last)] := by
      cases earlier <;> rfl
    rw [takeAll_of_namesLevel initial h, hlast, hfirst]
    rfl
  constructor
  · intro h
    have hall : ∀ name ∈ earlier ++ [last], NamesLevel name := by
      rcases forall_namesLevel_or_refused (earlier ++ [last]) with
        hall | ⟨front, name, back, refusal, hnames, hfront, hname⟩
      · exact hall
      · rw [hnames, takeAll_of_refused initial hfront hname] at h
        contradiction
    rw [hfollows hall] at h
    cases h
    exact ⟨hall, rfl⟩
  · rintro ⟨hall, rfl⟩
    exact hfollows hall

/-- **The last request decides alone just when the first named its level too.** A sequence ends with the
first name that stands for no level. When none does, the logger follows the last request and the handler
stays at the first. -/
theorem takeAll_followsLast_iff (earlier : List String) (last : String) :
    (∀ refusal, initial.takeAll (earlier ++ [last]) = .error refusal ↔
        ∃ front name back, earlier ++ [last] = front ++ name :: back ∧
          (∀ previous ∈ front, NamesLevel previous) ∧ levelOf name = .error refusal) ∧
      (∀ logger, initial.takeAll (earlier ++ [last]) = .ok logger ↔
        (∀ name ∈ earlier ++ [last], NamesLevel name) ∧
          logger = ⟨initial.name, wanted last, [wanted (earlier.headD last)]⟩) ∧
      ((∃ logger, initial.takeAll (earlier ++ [last]) = .ok logger ∧ logger.IsAt (wanted last)) ↔
        (∀ name ∈ earlier ++ [last], NamesLevel name) ∧
          wanted (earlier.headD last) = wanted last) := by
  refine ⟨fun refusal => takeAll_eq_error_iff, fun logger => takeAll_initial_eq_ok_iff, ?_⟩
  constructor
  · rintro ⟨logger, h, hat⟩
    obtain ⟨hall, rfl⟩ := takeAll_initial_eq_ok_iff.mp h
    exact ⟨hall, by simpa using hat.handlers⟩
  · rintro ⟨hall, hfirst⟩
    exact ⟨_, takeAll_initial_eq_ok_iff.mpr ⟨hall, rfl⟩, rfl, congrArg (fun level => [level]) hfirst⟩

/-- Debug reports that are asked for after others stay unwritten, since the handler drops them; and a
name that stands for the layout of reports ends a sequence before there is a handler. -/
theorem takeAll_later_level_not_followed :
    (initial.takeAll ["info", "debug"] = .ok ⟨"func_plotter", 10, [20]⟩ ∧ wanted "debug" = 10 ∧
        ¬(⟨"func_plotter", 10, [20]⟩ : Logger).IsAt (wanted "debug")) ∧
      initial.takeAll ["basic_format"] = .error .layout := by
  refine ⟨⟨rfl, rfl, ?_⟩, rfl⟩
  intro h
  exact absurd h.handlers (by decide)

end Logger

end FunctionGraph.Logging
