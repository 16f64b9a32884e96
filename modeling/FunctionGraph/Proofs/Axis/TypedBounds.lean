import FunctionGraph.Proofs.Axis.Labels
import FunctionGraph.Proofs.Number.StepwiseReading

/-!
# Typed bounds

Four texts make bounds of an axis when each spells a number and the numbers can be plotted. Anything
else is refused by the check of bounds: a text that spells no number is read as NaN, and reading itself
does not fail.
-/

namespace FunctionGraph.Bounds

open Number (IsReading Spelling)

/-- What texts could be refused for: while they are read, or when their numbers are checked. -/
inductive Refusal where
  | notDigits (reason : Number.NotDigits)
  | unusable (reason : Unusable)

/-- The bounds of four texts that are read step by step. -/
def ofTextsStepwise (texts : Bounds String) : Except Refusal (Bounds Float) := do
  let xMin ← (Number.readStepwise texts.xMin.toList).mapError .notDigits
  let xMax ← (Number.readStepwise texts.xMax.toList).mapError .notDigits
  let yMin ← (Number.readStepwise texts.yMin.toList).mapError .notDigits
  let yMax ← (Number.readStepwise texts.yMax.toList).mapError .notDigits
  (checked ⟨xMin, xMax, yMin, yMax⟩).mapError .unusable

theorem ofTextsStepwise_eq (texts : Bounds String) :
    ofTextsStepwise texts = (ofTexts texts).mapError .unusable := by
  simp only [ofTextsStepwise, Number.readStepwise_eq]
  rfl

/-- Bounds are refused for what they are, or taken as they were read. -/
theorem mapError_ofTexts_cases (texts : Bounds String) :
    (readTexts texts).IsUsable ∧ (ofTexts texts).mapError Refusal.unusable = .ok (readTexts texts) ∨
      ¬(readTexts texts).IsUsable ∧ ∃ reason,
        (ofTexts texts).mapError Refusal.unusable = .error (.unusable reason) := by
  rw [ofTexts_eq]
  cases hchecked : (readTexts texts).checked with
  | ok b =>
    obtain ⟨rfl, husable⟩ := checked_eq_ok_iff.mp hchecked
    exact Or.inl ⟨husable, rfl⟩
  | error reason =>
    refine Or.inr ⟨fun husable => ?_, reason, rfl⟩
    rw [husable.checked] at hchecked
    cases hchecked

/-- **Typed numbers are read by their grammar and nothing else is**, without ever failing. So texts give
bounds, or the check of bounds says why not. -/
theorem ofTexts_readsNumerals :
    (∀ text, Number.readStepwise text = .ok (Number.read text) ∧ IsReading text (Number.read text)) ∧
      ∀ texts, ofTextsStepwise texts = (ofTexts texts).mapError .unusable ∧
        ((readTexts texts).IsUsable ∧ ofTextsStepwise texts = .ok (readTexts texts) ∨
          ¬(readTexts texts).IsUsable ∧ ∃ reason,
            ofTextsStepwise texts = .error (.unusable reason)) := by
  refine ⟨fun text => ⟨Number.readStepwise_eq text, Number.isReading_read text⟩, fun texts => ?_⟩
  rw [ofTextsStepwise_eq]
  exact ⟨rfl, mapError_ofTexts_cases texts⟩

/-- A minus sign reaches the fraction behind it although the whole part has no digits. -/
theorem ofTexts_readsNumerals_of_minus_half :
    (Number.read " -.٥".toList).isNaN = false ∧
      (Spelling.mk ['-'] [] (some ['٥'])).Gives (Number.read " -.٥".toList) := by
  have hreading := (ofTexts_readsNumerals.1 " -.٥".toList).2
  have hfive : Text.isDecimalDigit '٥' = true := by decide
  have hnumeral : (Spelling.mk ['-'] [] (some ['٥'])).IsNumeral :=
    ⟨by decide, fun c hc => absurd hc List.not_mem_nil,
      fun c hc => List.mem_singleton.mp hc ▸ hfive, by decide⟩
  have htext : (Spelling.mk ['-'] [] (some ['٥'])).text = Text.trim " -.٥".toList := by decide
  exact ⟨hreading.isNaN_iff.mpr ⟨_, hnumeral, htext⟩, hreading.gives _ hnumeral htext⟩

end FunctionGraph.Bounds
