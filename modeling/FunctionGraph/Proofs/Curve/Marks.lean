import FunctionGraph.Proofs.Curve.Runs

/-!
# How runs are marked

The samples of a curve are one record for each point of the grid, and behind the last record of a run
its repetition with a closing mark. The sampler decides this with the latest sample in its hand; here
it is said of the points alone, and shown for every pattern of values and failures.
-/

namespace FunctionGraph.Sample

/-- What is known of a point of the grid: a value, or nothing where the evaluation failed. -/
abbrev Outcome := Float × Option Float

def isValid (o : Outcome) : Bool :=
  o.2.any Float.isFinite

/-- Point `i` is valid, and there is a next point, which is not. -/
def isBoundary (outcomes : List Outcome) (i : Nat) : Bool :=
  outcomes[i]?.any isValid && outcomes[i + 1]?.any fun next => !isValid next

def boundariesBefore (outcomes : List Outcome) (i : Nat) : Nat :=
  (List.range i).countP (isBoundary outcomes)

/-- Where the record of point `i` stands: behind the records and the marks of the points before it. -/
def place (outcomes : List Outcome) (i : Nat) : Nat :=
  i + boundariesBefore outcomes i

/-! ### One outcome and the next -/

/-- The sample in hand behind an outcome. -/
def held (o : Outcome) : Option Sample :=
  o.2.map fun y => ⟨o.1, y, y.isFinite, false, false⟩

/-- The sample in hand behind some outcomes that follow `last`. -/
def heldAfter (last : Option Sample) (outcomes : List Outcome) : Option Sample :=
  outcomes.foldl (fun _ o => held o) last

/-- The record of an outcome behind the sample in hand. -/
def recordAfter (last : Option Sample) (o : Outcome) : Sample where
  x := o.1
  y := o.2.getD Number.nan
  valid := isValid o
  opens := o.2.isSome && opensAfter last (isValid o)
  closes := false

/-- The mark that stands in front of the record. -/
def markAfter (last : Option Sample) (o : Outcome) : List Sample :=
  if isValid o then [] else closing last

theorem classifyAfter_cons (last : Option Sample) (o : Outcome) (rest : List Outcome) :
    classifyAfter last (o :: rest)
      = markAfter last o ++ recordAfter last o :: classifyAfter (held o) rest := by
  obtain ⟨x, _ | y⟩ := o
  · rfl
  · rfl

theorem classifyAfter_append (last : Option Sample) (front back : List Outcome) :
    classifyAfter last (front ++ back)
      = classifyAfter last front ++ classifyAfter (heldAfter last front) back := by
  induction front generalizing last with
  | nil => rfl
  | cons o rest ih =>
    rw [List.cons_append, classifyAfter_cons, classifyAfter_cons, ih]
    simp [heldAfter]

/-- A mark is the sample before a boundary, with nothing changed but the flags. -/
theorem markAfter_held (o next : Outcome) :
    markAfter (held o) next
      = if isValid o && !isValid next then [⟨o.1, o.2.getD Number.nan, true, false, true⟩] else [] := by
  obtain ⟨x, _ | y⟩ := o
  · have hvalid : isValid (x, none) = false := rfl
    rw [hvalid, markAfter]
    split <;> rfl
  · have hvalid : isValid (x, some y) = y.isFinite := rfl
    rw [hvalid, markAfter]
    cases hnext : isValid next <;> cases hy : y.isFinite <;> simp [held, closing, hy]

theorem closes_of_mem_markAfter {last : Option Sample} {o : Outcome} {s : Sample}
    (h : s ∈ markAfter last o) : s.closes = true := by
  rw [markAfter] at h
  split at h
  · contradiction
  · cases last with
    | none => contradiction
    | some held =>
      rw [closing] at h
      split at h
      · rw [List.mem_singleton.mp h]
      · contradiction

/-! ### The place of a record -/

section Place

variable {outcomes : List Outcome} {i : Nat} {o : Outcome}

theorem take_succ_of_getElem? (h : outcomes[i]? = some o) :
    outcomes.take (i + 1) = outcomes.take i ++ [o] := by
  rw [List.take_add_one, h]
  rfl

theorem heldAfter_take_succ (h : outcomes[i]? = some o) :
    heldAfter none (outcomes.take (i + 1)) = held o := by
  rw [take_succ_of_getElem? h, heldAfter, List.foldl_append]
  rfl

theorem classify_split (h : outcomes[i]? = some o) :
    classify outcomes = classify (outcomes.take i)
      ++ (markAfter (heldAfter none (outcomes.take i)) o
        ++ recordAfter (heldAfter none (outcomes.take i)) o
          :: classifyAfter (held o) (outcomes.drop (i + 1))) := by
  obtain ⟨hi, rfl⟩ := List.getElem?_eq_some_iff.mp h
  conv_lhs => rw [← List.take_append_drop i outcomes, List.drop_eq_getElem_cons hi]
  rw [classify, classifyAfter_append, classifyAfter_cons]
  rfl

theorem isBoundary_eq (h : outcomes[i]? = some o) {next : Outcome}
    (hnext : outcomes[i + 1]? = some next) :
    isBoundary outcomes i = (isValid o && !isValid next) := by
  rw [isBoundary, h, hnext]
  rfl

theorem isBoundary_eq_false (h : outcomes.length ≤ i + 1) : isBoundary outcomes i = false := by
  rw [isBoundary, List.getElem?_eq_none h]
  exact Bool.and_false _

theorem boundariesBefore_succ (outcomes : List Outcome) (i : Nat) :
    boundariesBefore outcomes (i + 1)
      = boundariesBefore outcomes i + if isBoundary outcomes i then 1 else 0 := by
  rw [boundariesBefore, List.range_succ, List.countP_append, List.countP_singleton]
  rfl

/-- What precedes the record of a point is as long as `place` says. -/
theorem length_before_record (h : outcomes[i]? = some o) :
    (classify (outcomes.take i)).length + (markAfter (heldAfter none (outcomes.take i)) o).length
      = place outcomes i := by
  induction i generalizing o with
  | zero =>
    rw [List.take_zero, markAfter]
    split <;> rfl
  | succ i ih =>
    have hi : i < outcomes.length := by
      have := (List.getElem?_eq_some_iff.mp h).1
      omega
    have hprevious : outcomes[i]? = some outcomes[i] := List.getElem?_eq_getElem hi
    have hbefore := ih hprevious
    have htake : (classify (outcomes.take (i + 1))).length = place outcomes i + 1 := by
      rw [take_succ_of_getElem? hprevious, classify, classifyAfter_append, classifyAfter_cons,
        List.length_append, List.length_append, List.length_cons]
      rw [classify] at hbefore
      simp only [classifyAfter, List.length_nil]
      omega
    rw [htake, heldAfter_take_succ hprevious, markAfter_held, place, place, boundariesBefore_succ,
      isBoundary_eq hprevious h]
    split
    · simp only [List.length_singleton]
      omega
    · simp only [List.length_nil]
      omega

theorem getElem?_place (h : outcomes[i]? = some o) :
    (classify outcomes)[place outcomes i]?
      = some (recordAfter (heldAfter none (outcomes.take i)) o) := by
  rw [classify_split h, ← List.append_assoc, ← length_before_record h, ← List.length_append,
    List.getElem?_append_right (Nat.le_refl _), Nat.sub_self]
  rfl

theorem length_classify (outcomes : List Outcome) :
    (classify outcomes).length = outcomes.length + boundariesBefore outcomes outcomes.length := by
  cases hlength : outcomes.length with
  | zero =>
    rw [List.eq_nil_of_length_eq_zero hlength]
    rfl
  | succ i =>
    have hi : i < outcomes.length := by omega
    have hlast : outcomes[i]? = some outcomes[i] := List.getElem?_eq_getElem hi
    have hnone : outcomes.drop (i + 1) = [] := List.drop_eq_nil_of_le (by rw [hlength])
    have hboundary : isBoundary outcomes i = false := isBoundary_eq_false (by rw [hlength])
    have hbefore := length_before_record hlast
    rw [classify_split hlast, ← List.append_assoc, List.length_append, List.length_append, hbefore,
      hnone, boundariesBefore_succ, hboundary, place]
    simp only [classifyAfter, List.length_cons, List.length_nil, Bool.false_eq_true, if_false]
    omega

/-- Directly behind the record of a point before a boundary stands its mark. -/
theorem getElem?_mark (h : outcomes[i]? = some o) (hboundary : isBoundary outcomes i = true) :
    (classify outcomes)[place outcomes i + 1]?
      = some ⟨o.1, o.2.getD Number.nan, true, false, true⟩ := by
  obtain ⟨next, hnext⟩ : ∃ next, outcomes[i + 1]? = some next := by
    rw [isBoundary, Bool.and_eq_true] at hboundary
    exact Option.isSome_iff_exists.mp (Option.isSome_of_any hboundary.2)
  have hmark : markAfter (heldAfter none (outcomes.take (i + 1))) next
      = [⟨o.1, o.2.getD Number.nan, true, false, true⟩] := by
    rw [heldAfter_take_succ h, markAfter_held, ← isBoundary_eq h hnext, if_pos hboundary]
  have hbefore := length_before_record hnext
  rw [hmark, List.length_singleton, place, boundariesBefore_succ, if_pos hboundary] at hbefore
  have hplace : place outcomes i + 1 = (classify (outcomes.take (i + 1))).length := by
    rw [place]
    omega
  rw [classify_split hnext, hmark, hplace, List.getElem?_append_right (Nat.le_refl _), Nat.sub_self]
  rfl

/-- Without a boundary there is no mark: the next record follows, or nothing does. -/
theorem not_closes_of_not_boundary (h : outcomes[i]? = some o)
    (hboundary : isBoundary outcomes i = false) {s : Sample}
    (hs : (classify outcomes)[place outcomes i + 1]? = some s) : s.closes = false := by
  have hplace : place outcomes i + 1 = place outcomes (i + 1) := by
    rw [place, place, boundariesBefore_succ, hboundary]
    simp only [Bool.false_eq_true, if_false]
    omega
  have hi := (List.getElem?_eq_some_iff.mp h).1
  cases hnext : outcomes[i + 1]? with
  | some next =>
    rw [hplace, getElem?_place hnext] at hs
    obtain rfl := Option.some.inj hs
    rfl
  | none =>
    have hlast : outcomes.length = i + 1 := by
      have := List.getElem?_eq_none_iff.mp hnext
      omega
    have hlength := (List.getElem?_eq_some_iff.mp hs).1
    rw [hplace, length_classify, hlast, place] at hlength
    omega

end Place

/-! ### Without the marks -/

def records (samples : List Sample) : List Sample :=
  samples.filter fun s => !s.closes

theorem records_append (front back : List Sample) :
    records (front ++ back) = records front ++ records back :=
  List.filter_append ..

theorem records_markAfter (last : Option Sample) (o : Outcome) : records (markAfter last o) = [] := by
  rw [records, List.filter_eq_nil_iff]
  intro s hs
  rw [closes_of_mem_markAfter hs]
  decide

theorem records_classifyAfter_cons (last : Option Sample) (o : Outcome) (rest : List Outcome) :
    records (classifyAfter last (o :: rest))
      = recordAfter last o :: records (classifyAfter (held o) rest) := by
  rw [classifyAfter_cons, records_append, records_markAfter]
  rfl

theorem getElem?_records (last : Option Sample) (outcomes : List Outcome) {i : Nat} {o : Outcome}
    (h : outcomes[i]? = some o) :
    (records (classifyAfter last outcomes))[i]?
      = some (recordAfter (heldAfter last (outcomes.take i)) o) := by
  induction outcomes generalizing last i with
  | nil => contradiction
  | cons first rest ih =>
    rw [records_classifyAfter_cons]
    cases i with
    | zero =>
      obtain rfl := Option.some.inj h
      rfl
    | succ i => exact ih (held first) h

theorem map_records (last : Option Sample) (outcomes : List Outcome) :
    (records (classifyAfter last outcomes)).map (fun s => (s.x, s.y, s.valid))
      = outcomes.map fun o => (o.1, o.2.getD Number.nan, isValid o) := by
  induction outcomes generalizing last with
  | nil => rfl
  | cons first rest ih =>
    rw [records_classifyAfter_cons, List.map_cons, List.map_cons, ih]
    rfl

/-! ### The whole layout -/

def ReturnsAt (outcomes : List Outcome) (i : Nat) : Prop :=
  ∃ o, outcomes[i]? = some o ∧ o.2.isSome = true

def FailsAt (outcomes : List Outcome) (i : Nat) : Prop :=
  ∃ o, outcomes[i]? = some o ∧ o.2 = none

def IsValidAt (outcomes : List Outcome) (i : Nat) : Prop :=
  ∃ o, outcomes[i]? = some o ∧ isValid o = true

/-- A point opens a run at the start, behind a failed evaluation, and where values become finite. -/
def OpensAt (outcomes : List Outcome) (i : Nat) : Prop :=
  ReturnsAt outcomes i ∧ (i = 0 ∨ ∃ j, i = j + 1 ∧ (FailsAt outcomes j
    ∨ (ReturnsAt outcomes j ∧ ¬IsValidAt outcomes j ∧ IsValidAt outcomes i)))

/-- A valid point as a vertex, whatever part of the plane is shown. -/
def vertex? (o : Outcome) : Option (Point Float) :=
  if isValid o then some ⟨o.1, o.2.getD Number.nan⟩ else none

structure IsMarked (outcomes : List Outcome) (samples : List Sample) : Prop where
  length_eq : samples.length = outcomes.length + boundariesBefore outcomes outcomes.length
  records_eq : (records samples).map (fun s => (s.x, s.y, s.valid))
    = outcomes.map fun o => (o.1, o.2.getD Number.nan, isValid o)
  record : ∀ i < outcomes.length, ∃ s, (records samples)[i]? = some s
    ∧ samples[place outcomes i]? = some s ∧ (s.opens = true ↔ OpensAt outcomes i)
  mark_iff : ∀ i < outcomes.length,
    (∃ s, samples[place outcomes i + 1]? = some s ∧ s.closes = true)
      ↔ IsValidAt outcomes i ∧ i + 1 < outcomes.length ∧ ¬IsValidAt outcomes (i + 1)
  mark_eq : ∀ i < outcomes.length, ∀ s, samples[place outcomes i + 1]? = some s → s.closes = true →
    ∃ r, samples[place outcomes i]? = some r ∧ s = { r with opens := false, closes := true }
      ∧ s.valid = true
  runs : ∀ start stop, start < stop → IsRun (outcomes.map vertex?) start stop →
    (∃ s, samples[place outcomes start]? = some s ∧ s.opens = true)
      ∧ (stop < outcomes.length →
        ∃ s, samples[place outcomes (stop - 1) + 1]? = some s ∧ s.closes = true)

section Layout

variable {outcomes : List Outcome} {i : Nat}

theorem IsValidAt.iff_of_getElem? {o : Outcome} (h : outcomes[i]? = some o) :
    IsValidAt outcomes i ↔ isValid o = true := by
  simp [IsValidAt, h]

theorem FailsAt.iff_of_getElem? {o : Outcome} (h : outcomes[i]? = some o) :
    FailsAt outcomes i ↔ o.2 = none := by
  simp [FailsAt, h]

theorem ReturnsAt.iff_of_getElem? {o : Outcome} (h : outcomes[i]? = some o) :
    ReturnsAt outcomes i ↔ o.2.isSome = true := by
  simp [ReturnsAt, h]

theorem isBoundary_iff : isBoundary outcomes i = true
    ↔ IsValidAt outcomes i ∧ i + 1 < outcomes.length ∧ ¬IsValidAt outcomes (i + 1) := by
  by_cases hi : i + 1 < outcomes.length
  · have h : outcomes[i]? = some outcomes[i] := List.getElem?_eq_getElem (by omega)
    have hnext : outcomes[i + 1]? = some outcomes[i + 1] := List.getElem?_eq_getElem hi
    rw [isBoundary_eq h hnext, IsValidAt.iff_of_getElem? h, IsValidAt.iff_of_getElem? hnext]
    simp [hi]
  · rw [isBoundary_eq_false (by omega)]
    simp [hi]

theorem shows_iff_isValidAt : Shows (outcomes.map vertex?) i ↔ IsValidAt outcomes i := by
  simp [Shows, IsValidAt, vertex?]

/-- The two ways to say where a run opens: by the sample in hand, and by the points. -/
theorem opens_recordAfter_iff {o : Outcome} (h : outcomes[i]? = some o) :
    (recordAfter (heldAfter none (outcomes.take i)) o).opens = true ↔ OpensAt outcomes i := by
  rw [OpensAt, ReturnsAt.iff_of_getElem? h, IsValidAt.iff_of_getElem? h, recordAfter,
    Bool.and_eq_true]
  refine and_congr_right fun _ => ?_
  cases i with
  | zero => simp [heldAfter, opensAfter]
  | succ j =>
    have hj : j < outcomes.length := by
      have := (List.getElem?_eq_some_iff.mp h).1
      omega
    have hprevious : outcomes[j]? = some outcomes[j] := List.getElem?_eq_getElem hj
    rw [heldAfter_take_succ hprevious]
    simp only [Nat.add_one_ne_zero, false_or, Nat.add_right_cancel_iff, exists_eq_left']
    rw [FailsAt.iff_of_getElem? hprevious, ReturnsAt.iff_of_getElem? hprevious,
      IsValidAt.iff_of_getElem? hprevious]
    obtain ⟨x, _ | y⟩ := outcomes[j]
    · simp [held, opensAfter]
    · simp [held, opensAfter, isValid]

theorem opensAt_of_valid_behind {o : Outcome} (h : outcomes[i]? = some o) (hvalid : isValid o = true)
    (hbefore : ∀ j, j + 1 = i → ¬IsValidAt outcomes j) : OpensAt outcomes i := by
  have hreturns : ReturnsAt outcomes i := ⟨o, h, Option.isSome_of_any hvalid⟩
  refine ⟨hreturns, ?_⟩
  cases i with
  | zero => exact Or.inl rfl
  | succ j =>
    refine Or.inr ⟨j, rfl, ?_⟩
    have hj : j < outcomes.length := by
      have := (List.getElem?_eq_some_iff.mp h).1
      omega
    have hprevious : outcomes[j]? = some outcomes[j] := List.getElem?_eq_getElem hj
    cases hvalue : outcomes[j].2 with
    | none => exact Or.inl ⟨_, hprevious, hvalue⟩
    | some y =>
      exact Or.inr ⟨⟨_, hprevious, by rw [hvalue]; rfl⟩, hbefore j rfl, ⟨o, h, hvalid⟩⟩

theorem isMarked_classify (outcomes : List Outcome) : IsMarked outcomes (classify outcomes) where
  length_eq := length_classify outcomes
  records_eq := map_records none outcomes
  record i hi := by
    have h : outcomes[i]? = some outcomes[i] := List.getElem?_eq_getElem hi
    exact ⟨_, getElem?_records none outcomes h, getElem?_place h, opens_recordAfter_iff h⟩
  mark_iff i hi := by
    have h : outcomes[i]? = some outcomes[i] := List.getElem?_eq_getElem hi
    rw [← isBoundary_iff]
    constructor
    · rintro ⟨s, hs, hcloses⟩
      by_contra hboundary
      rw [Bool.not_eq_true] at hboundary
      rw [not_closes_of_not_boundary h hboundary hs] at hcloses
      contradiction
    · intro hboundary
      exact ⟨_, getElem?_mark h hboundary, rfl⟩
  mark_eq i hi s hs hcloses := by
    have h : outcomes[i]? = some outcomes[i] := List.getElem?_eq_getElem hi
    have hboundary : isBoundary outcomes i = true := by
      by_contra hboundary
      rw [Bool.not_eq_true] at hboundary
      rw [not_closes_of_not_boundary h hboundary hs] at hcloses
      contradiction
    have hvalid : isValid outcomes[i] = true :=
      (IsValidAt.iff_of_getElem? h).mp (isBoundary_iff.mp hboundary).1
    rw [getElem?_mark h hboundary] at hs
    obtain rfl := Option.some.inj hs
    refine ⟨_, getElem?_place h, ?_, rfl⟩
    rw [recordAfter, hvalid]
  runs start stop hlong hrun := by
    obtain ⟨o, ho, hvalid⟩ := shows_iff_isValidAt.mp (hrun.inside start (Nat.le_refl _) hlong)
    refine ⟨⟨_, getElem?_place ho, (opens_recordAfter_iff ho).mpr ?_⟩, ?_⟩
    · exact opensAt_of_valid_behind ho hvalid fun j hj =>
        mt shows_iff_isValidAt.mpr (hrun.before j hj)
    · intro hstop
      have hlast : stop - 1 + 1 = stop := by omega
      have hend : IsValidAt outcomes (stop - 1) :=
        shows_iff_isValidAt.mp (hrun.inside (stop - 1) (by omega) (by omega))
      have hbehind : ¬IsValidAt outcomes (stop - 1 + 1) := by
        rw [hlast]
        exact mt shows_iff_isValidAt.mpr hrun.behind
      have hboundary : isBoundary outcomes (stop - 1) = true :=
        isBoundary_iff.mpr ⟨hend, by omega, hbehind⟩
      obtain ⟨p, hp, -⟩ := hend
      exact ⟨_, getElem?_mark hp hboundary, rfl⟩

end Layout

/-- **How a sampled curve is marked.** Along the grid of any domain, and for any pattern of values and
failures there, the samples are one record for each point, in order, and a closing mark directly behind
each valid point that is followed by one that is not. -/
theorem along_isMarked (curve : Float → Option Float) (xMin xMax : Float) {intervals : Int}
    (h : 1 ≤ intervals) :
    ∃ grid, Grid.points? xMin xMax intervals = .ok grid
      ∧ grid.length = intervals.toNat + 1
      ∧ IsMarked (grid.map fun x => (x, curve x)) (along curve grid)
      ∧ ∀ outcomes : List Outcome, outcomes.map Prod.fst = grid →
        IsMarked outcomes (classify outcomes) := by
  refine ⟨Grid.points xMin xMax intervals.toNat, ?_, Grid.length_points _ _ _, ?_, ?_⟩
  · rw [Grid.points?, if_neg (by omega), if_neg (by omega)]
  · exact isMarked_classify _
  · intro outcomes _
    exact isMarked_classify outcomes

/-- The curve of `1/x` has one mark, in front of the point where the division fails. -/
theorem along_isMarked_of_reciprocal :
    1 ≤ (4 : Int) ∧ ∃ grid, Grid.points? (-2) 2 4 = .ok grid
      ∧ IsMarked (grid.map fun x => (x, if x == 0 then none else some (1 / x)))
        (along (fun x => if x == 0 then none else some (1 / x)) grid)
      ∧ (along (fun x => if x == 0 then none else some (1 / x)) grid).length = 6 := by
  have hintervals : 1 ≤ (4 : Int) := by decide
  obtain ⟨grid, hgrid, -, hmarked, -⟩ :=
    along_isMarked (fun x => if x == 0 then none else some (1 / x)) (-2) 2 hintervals
  refine ⟨hintervals, grid, hgrid, hmarked, ?_⟩
  obtain rfl := Except.ok.inj hgrid
  decide +kernel

end FunctionGraph.Sample
