import FunctionGraph.Plot.Session
import FunctionGraph.Proofs.Number.Truncation
import FunctionGraph.Screen.Drawing

/-!
# Labels of landmarks

A landmark is rounded to two decimals before it is kept, and such a number is never infinite. So the
labels of landmarks exist, and with them the list of landmarks, unless a coordinate is no number.
-/

namespace FunctionGraph

theorem Number.exists_label {x : Float} (h : x.isFinite = true) : ∃ text, Number.label x = .ok text := by
  obtain ⟨q, hx⟩ := exists_rational? h
  rw [Number.label, truncate_eq hx]
  exact ⟨_, rfl⟩

namespace Landmark

/-- Each coordinate is finite or no number. -/
def IsRounded (p : Point Float) : Prop :=
  (p.x.isFinite = true ∨ p.x.isNaN = true) ∧ (p.y.isFinite = true ∨ p.y.isNaN = true)

def HasNumbers (p : Point Float) : Prop :=
  p.x.isNaN = false ∧ p.y.isNaN = false

instance : DecidablePred HasNumbers := fun p =>
  inferInstanceAs (Decidable (p.x.isNaN = false ∧ p.y.isNaN = false))

section Rounded

variable {p : Point Float}

theorem isRounded_rounded (p : Point Float) : IsRounded p.rounded :=
  ⟨Number.isFinite_or_isNaN_roundHundredths p.x, Number.isFinite_or_isNaN_roundHundredths p.y⟩

theorem separate_subset (points : List (Point Float)) : separate points ⊆ points := by
  rw [separate]
  refine List.foldlRecOn (motive := (· ⊆ points)) points _ (List.nil_subset _) fun kept hkept q hq => ?_
  split
  · exact hkept
  · exact List.append_subset.mpr ⟨hkept, List.cons_subset.mpr ⟨hq, List.nil_subset _⟩⟩

theorem isRounded_of_mem_ends {lo hi : Float} {samples : List Sample} (h : p ∈ ends lo hi samples) :
    IsRounded p := by
  unfold ends at h
  simp only at h
  split at h
  · rcases List.mem_pair.mp (separate_subset _ h) with rfl | rfl <;> exact isRounded_rounded _
  · exact absurd h List.not_mem_nil

theorem mem_insertZero {zero : Point Float} {points : List (Point Float)}
    (h : p ∈ insertZero zero points) : p = zero ∨ p ∈ points := by
  unfold insertZero at h
  split at h
  · simp only [List.mem_cons] at h ⊢
    tauto
  · simpa [or_comm] using h

theorem isRounded_atZero {value : Option Float} (h : atZero value = some p) : IsRounded p := by
  unfold atZero at h
  split at h
  · split at h
    · obtain rfl := Option.some.inj h
      have hzero : (0 : Float).isFinite = true := by decide +kernel
      exact ⟨Or.inl hzero, Number.isFinite_or_isNaN_roundHundredths _⟩
    · cases h
  · cases h

theorem isRounded_of_mem_withZero {b : Bounds Float} {points : List (Point Float)}
    {zero : Option (Point Float)} (hpoints : ∀ q ∈ points, IsRounded q)
    (hzero : ∀ q, zero = some q → IsRounded q) (h : p ∈ withZero b points zero) : IsRounded p := by
  unfold withZero at h
  split at h
  · split at h
    · rcases mem_insertZero h with rfl | hmem
      · exact hzero _ rfl
      · exact hpoints p hmem
    · exact hpoints p h
  · exact hpoints p h

end Rounded

end Landmark

theorem Plot.isRounded_of_mem_landmarks {bounds : Bounds Float} {entry : Entry} {p : Point Float}
    (h : p ∈ (Plot.trace bounds entry).landmarks) : Landmark.IsRounded p :=
  Landmark.isRounded_of_mem_withZero (fun _ => Landmark.isRounded_of_mem_ends)
    (fun _ => Landmark.isRounded_atZero) h

/-! ### The list of landmarks -/

theorem exists_mapM_ok {α β ε : Type} {f : α → Except ε β} {l : List α}
    (h : ∀ a ∈ l, ∃ b, f a = .ok b) : ∃ bs, l.mapM f = .ok bs := by
  induction l with
  | nil => exact ⟨[], rfl⟩
  | cons a l ih =>
    obtain ⟨b, hb⟩ := h a List.mem_cons_self
    obtain ⟨bs, hbs⟩ := ih fun a' ha' => h a' (List.mem_cons_of_mem _ ha')
    refine ⟨b :: bs, ?_⟩
    rw [List.mapM_cons, hb, hbs]
    rfl

theorem Point.exists_label {p : Point Float} (hrounded : Landmark.IsRounded p)
    (hnumbers : Landmark.HasNumbers p) (separator : String) :
    ∃ text, p.label separator = .ok text := by
  have hfinite : ∀ {x : Float}, x.isFinite = true ∨ x.isNaN = true → x.isNaN = false →
      x.isFinite = true := fun hor hnot => hor.resolve_right (by rw [hnot]; exact Bool.false_ne_true)
  obtain ⟨x, hx⟩ := Number.exists_label (hfinite hrounded.1 hnumbers.1)
  obtain ⟨y, hy⟩ := Number.exists_label (hfinite hrounded.2 hnumbers.2)
  rw [Point.label, hx, hy]
  exact ⟨_, rfl⟩

/-- No landmark of a plot has a coordinate that is no number. -/
def Plot.HasNumbers (plot : Plot) : Prop :=
  ∀ trace ∈ plot.traces, ∀ p ∈ trace.landmarks, Landmark.HasNumbers p

instance : DecidablePred Plot.HasNumbers := fun plot =>
  inferInstanceAs (Decidable (∀ trace ∈ plot.traces, ∀ p ∈ trace.landmarks, Landmark.HasNumbers p))

theorem Plot.HasNumbers.exists_summary {entries : List Entry} {bounds : Bounds Float}
    (h : (Plot.pass entries bounds).HasNumbers) :
    ∃ text, Drawing.summary (Plot.pass entries bounds) = .ok text := by
  have hblocks : ∀ trace ∈ (Plot.pass entries bounds).traces.filter fun t => !t.landmarks.isEmpty,
      ∃ text, Drawing.block trace = .ok text := by
    intro trace hmem
    have htrace := (List.mem_filter.mp hmem).1
    have hlabels : ∃ labels, trace.landmarks.mapM (Point.label ", ") = .ok labels := by
      refine exists_mapM_ok fun p hp => ?_
      obtain ⟨entry, -, rfl⟩ := List.mem_map.mp htrace
      exact Point.exists_label (isRounded_of_mem_landmarks hp) (h _ htrace p hp) _
    obtain ⟨labels, hlabels⟩ := hlabels
    rw [Drawing.block, hlabels]
    exact ⟨_, rfl⟩
  obtain ⟨blocks, hblocks⟩ := exists_mapM_ok hblocks
  rw [Drawing.summary, hblocks]
  exact ⟨_, rfl⟩

end FunctionGraph
