import FunctionGraph.Text.Blank
import FunctionGraph.Text.Lowercase
import Mathlib.Tactic.Push

/-!
# Lowercase formulas

Of all characters only two are changed by lowercasing into ones that a formula may have: `X` and `Y`.
Whatever else has another lowercase, or two characters for one, or a lowercase that depends on its
neighbours, is foreign to formulas before and after. So lowercasing acts on a formula letter by letter,
and on any other text it leaves something that no formula has.
-/

namespace FunctionGraph.Text

/-- What a formula may be typed with in lowercase: blanks, digits, the letters and signs of its grammar
and of an assignment, and the other signs for its operations. -/
def plainRanges : List (Nat × Nat) :=
  blankRanges ++
    [(0x28, 0x2B), (0x2D, 0x39), (0x3D, 0x3D), (0x5E, 0x5E), (0x78, 0x79), (0xD7, 0xD7), (0xF7, 0xF7)]

def isPlain (c : Char) : Bool :=
  inRanges plainRanges c

/-- Some character of the text is not one of a formula. -/
def HasForeign (text : List Char) : Prop :=
  ∃ c ∈ text, isPlain c = false

instance : DecidablePred HasForeign :=
  List.decidableBEx fun c => isPlain c = false

/-- The lowercase of the two letters of a formula. -/
def lowerLetter : Char → Char
  | 'X' => 'x'
  | 'Y' => 'y'
  | c => c

section Characters

variable {c : Char}

theorem lowerLetter_of_ne (hx : c ≠ 'X') (hy : c ≠ 'Y') : lowerLetter c = c := by
  unfold lowerLetter
  split
  · exact absurd rfl hx
  · exact absurd rfl hy
  · rfl

theorem isPlain_eq_false_iff :
    isPlain c = false ↔ ∀ range ∈ plainRanges, c.toNat < range.1 ∨ range.2 < c.toNat := by
  rw [isPlain, ← Bool.not_eq_true, inRanges_iff]
  push Not
  refine forall₂_congr fun range _ => ?_
  omega

/-- The character is one of a formula and becomes the letter or sign that it stands for, or it is
foreign to formulas and becomes something that is foreign as well. -/
def LowersApart (c : Char) : Prop :=
  isPlain (lowerLetter c) = true ∧ lowerChar c = [lowerLetter c] ∨
    isPlain (lowerLetter c) = false ∧ HasForeign (lowerChar c)

instance : DecidablePred LowersApart := fun c =>
  inferInstanceAs (Decidable (_ ∧ lowerChar c = [lowerLetter c] ∨ _))

theorem lowersApart_of_ascii (h : c.toNat < 128) : LowersApart c := by
  have hall : ∀ n < 128, LowersApart (Char.ofNat n) := by decide +kernel
  have hc := hall c.toNat h
  rwa [Char.ofNat_toNat] at hc

/-- No run of the table meets a range of plain characters, neither before nor after lowercasing. -/
theorem lowercaseRuns_apart :
    ∀ run ∈ lowercaseRuns, ∀ range ∈ plainRanges,
      (run.last < range.1 ∨ range.2 < run.first) ∧
        (run.last + run.shift < range.1 ∨ range.2 < run.first + run.shift) := by
  decide +kernel

theorem zero_apart : ∀ range ∈ plainRanges, 0 < range.1 := by
  decide

theorem covers_bounds {run : CaseRun} {code : Nat} (h : run.covers code = true) :
    run.first ≤ code ∧ code ≤ run.last := by
  simp only [CaseRun.covers, Bool.and_eq_true, decide_eq_true_eq] at h
  exact h.1

/-- A number that no plain character has is that of a foreign character, or of none and then of the
first character of all, which is foreign too. -/
theorem isPlain_ofNat_eq_false {n : Nat}
    (h : ∀ range ∈ plainRanges, n < range.1 ∨ range.2 < n) : isPlain (Char.ofNat n) = false := by
  by_cases hvalid : n.isValidChar
  · have hcode : (Char.ofNat n).toNat = n := by
      rw [Char.ofNat, dif_pos hvalid]
      rfl
    rw [isPlain_eq_false_iff, hcode]
    exact h
  · have hnull : Char.ofNat n = Char.ofNat 0 := by
      rw [Char.ofNat, dif_neg hvalid]
      rfl
    rw [hnull]
    decide

theorem lowersApart_of_run {run : CaseRun} (hrun : run ∈ lowercaseRuns)
    (hcovers : run.covers c.toNat = true) :
    isPlain c = false ∧
      isPlain (Char.ofNat ((c.toNat : Int) + run.shift).toNat) = false := by
  obtain ⟨hfirst, hlast⟩ := covers_bounds hcovers
  constructor
  · rw [isPlain_eq_false_iff]
    intro range hrange
    have hrun := (lowercaseRuns_apart run hrun range hrange).1
    omega
  · refine isPlain_ofNat_eq_false fun range hrange => ?_
    have hshifted := (lowercaseRuns_apart run hrun range hrange).2
    have hzero := zero_apart range hrange
    omega

theorem lowersApart (c : Char) : LowersApart c := by
  by_cases hascii : c.toNat < 128
  · exact lowersApart_of_ascii hascii
  have hletter : lowerLetter c = c :=
    lowerLetter_of_ne (fun h => hascii (by rw [h]; decide)) fun h => hascii (by rw [h]; decide)
  rw [LowersApart, hletter, lowerChar, if_neg hascii]
  split
  · next hdotted =>
    rw [hdotted]
    exact Or.inr (by decide)
  · split
    · next run hfind =>
      have hcovers : run.covers c.toNat = true :=
        List.find?_some (p := fun run => CaseRun.covers run c.toNat) hfind
      obtain ⟨hforeign, hlower⟩ := lowersApart_of_run (List.mem_of_find?_eq_some hfind) hcovers
      exact Or.inr ⟨hforeign, _, List.mem_singleton_self _, hlower⟩
    · cases hplain : isPlain c with
      | true => exact Or.inl ⟨rfl, rfl⟩
      | false => exact Or.inr ⟨rfl, c, List.mem_singleton_self c, hplain⟩

theorem isPlain_lowerSigma (before after : List Char) : isPlain (lowerSigma before after) = false := by
  rw [lowerSigma]
  split <;> decide

end Characters

section Texts

variable {text before : List Char}

theorem lowerAfter_of_isPlain (h : ∀ c ∈ text, isPlain (lowerLetter c) = true) :
    lowerAfter before text = text.map lowerLetter := by
  induction text generalizing before with
  | nil => rfl
  | cons c after ih =>
    have hc : isPlain (lowerLetter c) = true := h c List.mem_cons_self
    have hsigma : c ≠ 'Σ' := by
      rintro rfl
      revert hc
      decide
    rw [lowerAfter, if_neg hsigma, ih fun d hd => h d (List.mem_cons_of_mem c hd)]
    rcases lowersApart c with ⟨-, hlower⟩ | ⟨hforeign, -⟩
    · rw [hlower]
      rfl
    · rw [hc] at hforeign
      cases hforeign

theorem hasForeign_lowerAfter (h : ∃ c ∈ text, isPlain (lowerLetter c) = false) :
    HasForeign (lowerAfter before text) := by
  induction text generalizing before with
  | nil => simp at h
  | cons c after ih =>
    rw [lowerAfter]
    obtain ⟨d, hd, hforeign⟩ := h
    rcases List.mem_cons.mp hd with rfl | hafter
    · split
      · exact ⟨_, List.mem_append_left _ (List.mem_singleton_self _), isPlain_lowerSigma _ _⟩
      · rcases lowersApart d with ⟨hplain, -⟩ | ⟨-, e, he, hlower⟩
        · rw [hforeign] at hplain
          cases hplain
        · exact ⟨e, List.mem_append_left _ he, hlower⟩
    · obtain ⟨e, he, hlower⟩ := ih ⟨d, hafter, hforeign⟩
      exact ⟨e, List.mem_append_right _ he, hlower⟩

/-- Lowercasing acts letter by letter, or the text is foreign to formulas either way. -/
theorem lower_cases (text : List Char) :
    lower text = text.map lowerLetter ∨
      HasForeign (lower text) ∧ HasForeign (text.map lowerLetter) := by
  by_cases hforeign : ∃ c ∈ text, isPlain (lowerLetter c) = false
  · refine Or.inr ⟨hasForeign_lowerAfter hforeign, ?_⟩
    obtain ⟨c, hc, hplain⟩ := hforeign
    exact ⟨lowerLetter c, List.mem_map_of_mem hc, hplain⟩
  · push Not at hforeign
    exact Or.inl (lowerAfter_of_isPlain fun c hc => by simpa using hforeign c hc)

end Texts

end FunctionGraph.Text
