import FunctionGraph.Proofs.Formula.Tokens

/-!
# How far tokens look ahead

A token ends where the next character cannot go on with it, so what tokens a text begins with is decided
by the characters they take and the one behind them. Only of the token that stands next less can be
known: two characters tell which one it is, except that a number may still be longer.
-/

namespace FunctionGraph.Formula

/-- No token goes on with the character behind this one. -/
def Token.endsBefore (t : Token) (c : Char) : Bool :=
  match t with
  | .number _ => !isNumeric c
  | .times => c != '*'
  | _ => true

/-- The same token, or two numbers that begin with the same character. -/
def Token.Alike (t u : Token) : Prop :=
  t = u ∨ ∃ c run more, t = .number (c :: run) ∧ u = .number (c :: more)

section Lookahead

variable {text behind front : List Char} {t u : Token} {ts us seen rest : List Token} {c : Char}

theorem Token.ofChar_of_isProper (h : (Token.other c).IsProper) : Token.ofChar c = .other c := by
  obtain ⟨-, hsign⟩ := h
  unfold Token.ofChar
  split <;> first | rfl | exact absurd (by decide) hsign

theorem parts_of_ne_star (hc : isNumeric c = false) (hstar : c ≠ '*') (d : Char) :
    parts c d = true := by
  simp [parts, hc, hstar]

/-- A token is read back in front of what does not go on with it. -/
theorem tokens_text_append (ht : t.IsProper) (hends : ∀ c ∈ behind.head?, t.endsBefore c = true) :
    tokens (t.text ++ behind) = t :: tokens behind := by
  have hsign : ∀ {c : Char}, isNumeric c = false → c ≠ '*' →
      tokens (c :: behind) = .ofChar c :: tokens behind := fun hc hstar =>
    tokens_sign hc fun d _ => parts_of_ne_star hc hstar d
  cases t with
  | number run =>
    have hcut : IsCut run behind := by
      intro c hc d hd
      have hnumeric : isNumeric c = true := List.all_eq_true.mp ht.2 c (List.mem_of_mem_getLast? hc)
      have hbehind : isNumeric d = false := by simpa [Token.endsBefore] using hends d hd
      have hstar : c ≠ '*' := by
        rintro rfl
        rw [isNumeric_star] at hnumeric
        contradiction
      simp [parts, hbehind, hstar]
    rw [Token.text, tokens_append hcut, tokens_run ht.1 ht.2]
    rfl
  | times =>
    refine tokens_sign isNumeric_star fun d hd => ?_
    have hstar : d ≠ '*' := by simpa [Token.endsBefore] using hends d hd
    simp [parts, isNumeric_star, hstar]
  | power => exact tokens_star_star behind
  | «variable» | plus | minus | «over» | opening | closing => exact hsign (by decide) (by decide)
  | other c =>
    have hstar : c ≠ '*' := by
      rintro rfl
      exact ht.2 (by decide)
    rw [← Token.ofChar_of_isProper ht, Token.text_ofChar]
    exact hsign ht.1 hstar

theorem exists_joinNumber (c : Char) (ts : List Token) :
    ∃ run us, joinNumber c ts = .number (c :: run) :: us := by
  unfold joinNumber
  split
  · exact ⟨_, _, rfl⟩
  · exact ⟨_, _, rfl⟩

/-- The tokens behind the first one are those of the text behind it. -/
theorem tokens_textOf_tail (h : tokens text = t :: ts) : tokens (textOf ts) = ts := by
  fun_induction tokens text generalizing t ts with
  | case1 => contradiction
  | case2 rest _ | case4 _ rest _ _ _ =>
    obtain ⟨-, rfl⟩ := List.cons.inj h
    rw [textOf_tokens]
  | case3 c rest _ _ ih =>
    unfold joinNumber at h
    split at h
    · next literal behind htokens =>
      obtain ⟨-, rfl⟩ := List.cons.inj h
      exact ih htokens
    · obtain ⟨-, rfl⟩ := List.cons.inj h
      rw [textOf_tokens]

theorem Token.Parts.endsBefore (h : t.Parts u) (hu : u.IsProper) :
    ∀ c ∈ u.text.head?, t.endsBefore c = true := by
  intro c hc
  cases t with
  | number run =>
    have hnumeric := isNumeric_of_mem_text hu (Token.parts_number_iff.mp h) c (List.mem_of_mem_head? hc)
    rw [Token.endsBefore, hnumeric]
    rfl
  | times =>
    have hstar : c ≠ '*' := by
      rintro rfl
      cases u with
      | number run =>
        have hnumeric := List.all_eq_true.mp hu.2 '*' (List.mem_of_mem_head? hc)
        rw [isNumeric_star] at hnumeric
        contradiction
      | other d =>
        obtain rfl : d = '*' := by simpa [Token.text] using hc
        exact hu.2 (by decide)
      | times | power => exact h
      | _ => exact absurd hc (by decide)
    simpa [Token.endsBefore] using hstar
  | _ => rfl

theorem endsBefore_of_tokens (h : tokens text = t :: ts) :
    ∀ c ∈ (textOf ts).head?, t.endsBefore c = true := by
  cases ts with
  | nil => simp
  | cons u us =>
    have hmem : u ∈ tokens text := by
      rw [h]
      exact List.mem_cons_of_mem t List.mem_cons_self
    have hproper := isProper_of_mem_tokens u hmem
    have hchain := isChain_tokens text
    rw [h, List.isChain_cons_cons] at hchain
    rw [textOf_cons, List.head?_append_of_ne_nil _ hproper.text_ne_nil]
    exact hchain.1.endsBefore hproper

/-- Two characters tell the first token. -/
theorem exists_alike (c d : Char) (rest more : List Char) :
    ∃ t ts u us, tokens (c :: d :: rest) = t :: ts ∧ tokens (c :: d :: more) = u :: us ∧ t.Alike u := by
  by_cases hstars : c = '*' ∧ d = '*'
  · obtain ⟨rfl, rfl⟩ := hstars
    exact ⟨_, _, _, _, tokens_star_star rest, tokens_star_star more, Or.inl rfl⟩
  · cases hc : isNumeric c with
    | true =>
      obtain ⟨run, ts, hrun⟩ := exists_joinNumber c (tokens (d :: rest))
      obtain ⟨run', us, hmore⟩ := exists_joinNumber c (tokens (d :: more))
      exact ⟨_, _, _, _, (tokens_numeric hc _).trans hrun, (tokens_numeric hc _).trans hmore,
        Or.inr ⟨c, run, run', rfl, rfl⟩⟩
    | false =>
      have hparts : parts c d = true := by
        rw [not_and_or] at hstars
        simpa [parts, hc] using hstars
      exact ⟨_, _, _, _, tokens_sign hc (by simpa using hparts), tokens_sign hc (by simpa using hparts),
        Or.inl rfl⟩

/-- **Two characters decide.** A text that has the same characters up to two behind some of its first
tokens begins with these tokens too, and has a token like the next one behind them. -/
theorem tokens_append_of_front (h : tokens (front ++ behind) = seen ++ t :: rest)
    (hfront : front.length = (textOf seen).length + 2) (other : List Char) :
    ∃ u us, tokens (front ++ other) = seen ++ u :: us ∧ t.Alike u := by
  induction seen generalizing front with
  | nil =>
    obtain ⟨c, d, rfl⟩ := List.length_eq_two.mp hfront
    obtain ⟨t', ts, u, us, ht, hu, halike⟩ := exists_alike c d behind other
    obtain ⟨rfl, -⟩ := List.cons.inj (ht.symm.trans h)
    exact ⟨u, us, hu, halike⟩
  | cons s seen ih =>
    have htext : front ++ behind = s.text ++ textOf (seen ++ t :: rest) := by
      rw [← textOf_tokens (front ++ behind), h]
      rfl
    rw [textOf_cons, List.length_append] at hfront
    have hmem : s ∈ tokens (front ++ behind) := by
      rw [h]
      exact List.mem_cons_self
    have hproper := isProper_of_mem_tokens s hmem
    have hprefix : s.text <+: front ++ behind := htext ▸ List.prefix_append _ _
    obtain ⟨front, rfl⟩ : s.text <+: front :=
      List.prefix_of_prefix_length_le hprefix (List.prefix_append _ _) (by omega)
    rw [List.append_assoc, List.append_cancel_left_eq] at htext
    rw [List.length_append] at hfront
    have hne : front ≠ [] := List.ne_nil_of_length_pos (by omega)
    obtain ⟨u, us, hu, halike⟩ := ih (htext ▸ tokens_textOf_tail h) (by omega)
    refine ⟨u, us, ?_, halike⟩
    have hends := endsBefore_of_tokens h
    change ∀ c ∈ (textOf (seen ++ t :: rest)).head?, s.endsBefore c = true at hends
    rw [← htext, List.head?_append_of_ne_nil _ hne] at hends
    rw [List.append_assoc, tokens_text_append hproper, hu]
    · rfl
    · rwa [List.head?_append_of_ne_nil _ hne]

end Lookahead

end FunctionGraph.Formula
