import FunctionGraph.Proofs.Formula.Grammar
import Mathlib.Data.List.Chain

/-!
# What the tokens of a text are

Tokens are taken as long as they can be, so a text can be cut between two tokens and nowhere else:
`tokens_append` says where a cut is one. The tokens of an expression are then those of its tree, and
the numbers among the tokens of any text are exactly its maximal runs of digits and points.
-/

namespace FunctionGraph.Formula

/-- No token goes on from the character into the next one. -/
def parts (c d : Char) : Bool :=
  !(isNumeric c && isNumeric d) && !(c == '*' && d == '*')

theorem isNumeric_star : isNumeric '*' = false := by
  decide

theorem tokens_star_star (rest : List Char) : tokens ('*' :: '*' :: rest) = .power :: tokens rest := by
  rw [tokens]

theorem tokens_numeric {c : Char} (hc : isNumeric c = true) (rest : List Char) :
    tokens (c :: rest) = joinNumber c (tokens rest) := by
  have hstar : ∀ behind, c = '*' → rest = '*' :: behind → False := by
    intro behind heq _
    rw [heq, isNumeric_star] at hc
    contradiction
  rw [tokens.eq_3 c rest hstar, if_pos hc]

theorem tokens_sign {c : Char} {rest : List Char} (hc : isNumeric c = false)
    (hrest : ∀ d ∈ rest.head?, parts c d = true) : tokens (c :: rest) = .ofChar c :: tokens rest := by
  have hstar : ∀ behind, c = '*' → rest = '*' :: behind → False := by
    intro behind hc hrest'
    subst hc hrest'
    have := hrest '*' rfl
    contradiction
  rw [tokens.eq_3 c rest hstar, hc, if_neg Bool.false_ne_true]

theorem joinNumber_append (c : Char) {ts : List Token} (hts : ts ≠ []) (us : List Token) :
    joinNumber c (ts ++ us) = joinNumber c ts ++ us := by
  cases ts with
  | nil => contradiction
  | cons t ts => cases t <;> rfl

theorem tokens_ne_nil {text : List Char} (h : text ≠ []) : tokens text ≠ [] := by
  intro htokens
  apply h
  rw [← textOf_tokens text, htokens]
  rfl

/-! ### The shape of the tokens of a text -/

/-- A number is a run, and what has no meaning is not one of the characters that do. -/
def Token.IsProper : Token → Prop
  | .number literal => literal ≠ [] ∧ literal.all isNumeric = true
  | .other c => isNumeric c = false ∧ c ∉ ['x', '+', '-', '*', '/', '(', ')']
  | _ => True

theorem Token.isProper_ofChar {c : Char} (hc : isNumeric c = false) : (Token.ofChar c).IsProper := by
  unfold Token.ofChar
  split <;> first | trivial | exact ⟨hc, by simp_all⟩

theorem isProper_joinNumber {c : Char} (hc : isNumeric c = true) {ts : List Token}
    (hts : ∀ t ∈ ts, t.IsProper) : ∀ t ∈ joinNumber c ts, t.IsProper := by
  have hsingle : (Token.number [c]).IsProper := ⟨by simp, by simp [hc]⟩
  intro t ht
  unfold joinNumber at ht
  split at ht
  · next literal rest =>
    obtain ⟨_, hall⟩ := hts (.number literal) List.mem_cons_self
    rcases List.mem_cons.mp ht with rfl | hmem
    · exact ⟨by simp, by simp [hc, hall]⟩
    · exact hts t (List.mem_cons_of_mem _ hmem)
  · rcases List.mem_cons.mp ht with rfl | hmem
    · exact hsingle
    · exact hts t hmem

theorem isProper_of_mem_tokens {text : List Char} : ∀ t ∈ tokens text, t.IsProper := by
  fun_induction tokens text with
  | case1 => simp
  | case2 rest ih =>
    intro t ht
    rcases List.mem_cons.mp ht with rfl | hmem
    · trivial
    · exact ih t hmem
  | case3 c rest _ hc ih => exact isProper_joinNumber hc ih
  | case4 c rest _ hc ih =>
    intro t ht
    rcases List.mem_cons.mp ht with rfl | hmem
    · exact Token.isProper_ofChar (by simpa using hc)
    · exact ih t hmem

theorem Token.IsProper.text_ne_nil {t : Token} (h : t.IsProper) : t.text ≠ [] := by
  cases t with
  | number literal => exact h.1
  | _ => simp [Token.text]

@[simp]
theorem textOf_nil : textOf [] = [] :=
  rfl

@[simp]
theorem textOf_cons (t : Token) (ts : List Token) : textOf (t :: ts) = t.text ++ textOf ts :=
  rfl

@[simp]
theorem textOf_append (ts us : List Token) : textOf (ts ++ us) = textOf ts ++ textOf us := by
  simp [textOf]

/-- The first token begins with the first character. -/
theorem head?_text_of_tokens {text : List Char} {t : Token} {ts : List Token}
    (h : tokens text = t :: ts) : t.text.head? = text.head? := by
  have hne : t.text ≠ [] :=
    (isProper_of_mem_tokens t (h ▸ List.mem_cons_self)).text_ne_nil
  have htext : text = t.text ++ textOf ts := by
    rw [← textOf_tokens text, h, textOf_cons]
  rw [htext, List.head?_append_of_ne_nil _ hne]

/-- Two tokens that can stand side by side: numbers would be one number, and a star in front of another
one would be a power sign. -/
def Token.Parts : Token → Token → Prop
  | .number _, .number _ => False
  | .times, .times => False
  | .times, .power => False
  | _, _ => True

theorem Token.parts_number_iff {literal : List Char} {t : Token} :
    (Token.number literal).Parts t ↔ ∀ other, t ≠ .number other := by
  cases t <;> simp [Token.Parts]

theorem Token.parts_of_ne {t : Token} (hnumber : ∀ literal, t ≠ .number literal)
    (htimes : t ≠ .times) (u : Token) : t.Parts u := by
  cases t with
  | number literal => exact absurd rfl (hnumber literal)
  | times => exact absurd rfl htimes
  | _ => trivial

theorem isChain_joinNumber (c : Char) {ts : List Token} (hts : ts.IsChain Token.Parts) :
    (joinNumber c ts).IsChain Token.Parts := by
  unfold joinNumber
  split
  · next literal rest =>
    obtain ⟨hhead, hrest⟩ := List.isChain_cons.mp hts
    refine List.isChain_cons.mpr ⟨?_, hrest⟩
    intro t ht
    exact Token.parts_number_iff.mpr (Token.parts_number_iff.mp (hhead t ht))
  · next hnumber =>
    refine List.isChain_cons.mpr ⟨?_, hts⟩
    intro t ht
    apply Token.parts_number_iff.mpr
    rintro other rfl
    obtain ⟨rest, hrest⟩ := List.head?_eq_some_iff.mp ht
    exact hnumber other rest hrest

theorem Token.ofChar_ne_number (c : Char) (literal : List Char) :
    Token.ofChar c ≠ .number literal := by
  unfold Token.ofChar
  split <;> simp

theorem Token.eq_star_of_ofChar {c : Char} (h : Token.ofChar c = .times) : c = '*' := by
  have htext := Token.text_ofChar c
  rw [h] at htext
  simpa [Token.text] using htext.symm

theorem Token.parts_ofChar {c : Char} {t : Token} (ht : t.text.head? = some '*' → c ≠ '*') :
    (Token.ofChar c).Parts t := by
  by_cases hc : c = '*'
  · subst hc
    cases t with
    | times | power => exact absurd rfl (ht rfl)
    | _ => trivial
  · exact Token.parts_of_ne (Token.ofChar_ne_number c) (fun h => hc (Token.eq_star_of_ofChar h)) t

theorem isChain_tokens (text : List Char) : (tokens text).IsChain Token.Parts := by
  fun_induction tokens text with
  | case1 => simp
  | case2 rest ih =>
    refine List.isChain_cons.mpr ⟨?_, ih⟩
    intro t _
    cases t <;> trivial
  | case3 c rest _ _ ih => exact isChain_joinNumber c ih
  | case4 c rest hstar _ ih =>
    refine List.isChain_cons.mpr ⟨?_, ih⟩
    intro t ht
    obtain ⟨ts, hts⟩ := List.head?_eq_some_iff.mp ht
    apply Token.parts_ofChar
    intro hhead hc
    rw [head?_text_of_tokens hts] at hhead
    obtain ⟨behind, hbehind⟩ := List.head?_eq_some_iff.mp hhead
    exact hstar behind hc hbehind

/-! ### Cutting a text between two tokens -/

/-- The first text ends with a token, whatever it begins with. -/
def IsCut (before behind : List Char) : Prop :=
  ∀ c ∈ before.getLast?, ∀ d ∈ behind.head?, parts c d = true

theorem IsCut.of_cons {c : Char} {rest behind : List Char} (h : IsCut (c :: rest) behind) :
    IsCut rest behind :=
  fun d hd => h d (List.mem_getLast?_cons hd)

theorem tokens_append {before behind : List Char} (hcut : IsCut before behind) :
    tokens (before ++ behind) = tokens before ++ tokens behind := by
  fun_induction tokens before with
  | case1 => rfl
  | case2 rest ih =>
    have hrest := ih hcut.of_cons.of_cons
    rw [List.cons_append, List.cons_append, tokens_star_star, hrest]
    rfl
  | case3 c rest _ hc ih =>
    rw [List.cons_append, tokens_numeric hc, ih hcut.of_cons]
    by_cases hnil : rest = []
    · -- The run ends here, because what is behind it does not begin with a numeric character.
      subst hnil
      cases htokens : tokens behind with
      | nil => rfl
      | cons t ts =>
        have hhead := head?_text_of_tokens htokens
        cases t with
        | number literal =>
          have hproper : (Token.number literal).IsProper :=
            isProper_of_mem_tokens _ (htokens ▸ List.mem_cons_self)
          obtain ⟨d, tail, rfl⟩ := List.exists_cons_of_ne_nil hproper.1
          have hd : isNumeric d = true := List.all_eq_true.mp hproper.2 d List.mem_cons_self
          have hparts := hcut c rfl d hhead.symm
          simp [parts, hc, hd] at hparts
        | _ => rfl
    · exact joinNumber_append c (tokens_ne_nil hnil) _
  | case4 c rest hstar hc ih =>
    have hc : isNumeric c = false := by simpa using hc
    have hrest : ∀ d ∈ (rest ++ behind).head?, parts c d = true := by
      intro d hd
      cases rest with
      | nil => exact hcut c rfl d hd
      | cons e rest =>
        obtain rfl : e = d := by simpa using hd
        have hne : ¬c = '*' ∨ ¬e = '*' := by
          rw [← not_and_or]
          rintro ⟨rfl, rfl⟩
          exact hstar rest rfl rfl
        simpa [parts, hc] using hne
    rw [List.cons_append, tokens_sign hc hrest, ih hcut.of_cons]
    rfl

theorem tokens_run {run : List Char} (hne : run ≠ []) (hrun : run.all isNumeric = true) :
    tokens run = [.number run] := by
  induction run with
  | nil => contradiction
  | cons c rest ih =>
    simp only [List.all_cons, Bool.and_eq_true] at hrun
    rw [tokens_numeric hrun.1]
    by_cases hnil : rest = []
    · subst hnil
      rfl
    · rw [ih hnil hrun.2]
      rfl

/-! ### The tokens of an expression -/

theorem parts_of_canBegin {c d : Char} (hc : isNumeric c = false) (hd : canBegin d = true) :
    parts c d = true := by
  have hstar : d ≠ '*' := by
    rintro rfl
    exact absurd hd (by decide)
  simp [parts, hc, hstar]

theorem parts_of_canEnd {c d : Char} (hc : canEnd c = true) (hd : isNumeric d = false) :
    parts c d = true := by
  have hstar : c ≠ '*' := by
    rintro rfl
    exact absurd hc (by decide)
  simp [parts, hd, hstar]

theorem Parses.isCut_before {level : Level} {text : List Char} {expr : Expr}
    (h : Parses level text expr) {d : Char} (hd : isNumeric d = false) (rest : List Char) :
    IsCut text (d :: rest) := by
  obtain ⟨begun, c, rfl, hc⟩ := h.ends
  intro c' hc' d' hd'
  obtain rfl : c = c' := by simpa using hc'
  obtain rfl : d = d' := by simpa using hd'
  exact parts_of_canEnd hc hd

theorem Parses.parts_head {level : Level} {text : List Char} {expr : Expr}
    (h : Parses level text expr) {c : Char} (hc : isNumeric c = false) (behind : List Char) :
    ∀ d ∈ (text ++ behind).head?, parts c d = true := by
  obtain ⟨d, rest, rfl, hd⟩ := h.begins
  intro d' hd'
  obtain rfl : d = d' := by simpa using hd'
  exact parts_of_canBegin hc hd

@[simp]
theorem Operation.isNumeric_sign (operation : Operation) : isNumeric operation.sign = false := by
  cases operation <;> decide

@[simp]
theorem Operation.ofChar_sign (operation : Operation) :
    Token.ofChar operation.sign = operation.token := by
  cases operation <;> rfl

/-- The tokens of an expression are those of its tree, whichever tree that is. -/
theorem Parses.tokens_eq {level : Level} {text : List Char} {expr : Expr}
    (h : Parses level text expr) : tokens text = expr.tokens := by
  induction h with
  | number h => exact tokens_run h.ne_nil h.1
  | «variable» => rfl
  | @group text inner h ih =>
    have hclosing : isNumeric ')' = false := by decide
    rw [tokens_sign (by decide) (h.parts_head (by decide) _),
      tokens_append (h.isCut_before hclosing []), ih]
    rfl
  | @negate text inner h ih =>
    have hhead := h.parts_head (c := '-') (by decide) []
    rw [List.append_nil] at hhead
    rw [tokens_sign (by decide) hhead, ih]
    rfl
  | base _ ih | single _ ih | summand _ ih => exact ih
  | @raise left right base exponent hbase _ ihbase ihexponent =>
    rw [tokens_append (hbase.isCut_before isNumeric_star _), tokens_star_star, ihbase, ihexponent]
    rfl
  | @operate operation left right a b hleft hright ihleft ihright =>
    have hsign := operation.isNumeric_sign
    have hhead := hright.parts_head hsign []
    rw [List.append_nil] at hhead
    rw [tokens_append (hleft.isCut_before hsign _), tokens_sign hsign hhead, ihleft, ihright,
      operation.ofChar_sign]
    rfl

/-! ### The numbers among the tokens -/

/-- The run of digits and points stands in the text and cannot be made longer there. -/
def IsMaximalRun (run text : List Char) : Prop :=
  run ≠ [] ∧ run.all isNumeric = true ∧ ∃ before behind, text = before ++ run ++ behind ∧
    (∀ c ∈ before.getLast?, isNumeric c = false) ∧ ∀ d ∈ behind.head?, isNumeric d = false

/-- Digits and points stand in numbers only. -/
theorem isNumeric_of_mem_text {t : Token} (ht : t.IsProper) (hnumber : ∀ run, t ≠ .number run) :
    ∀ c ∈ t.text, isNumeric c = false := by
  cases t with
  | number run => exact absurd rfl (hnumber run)
  | other c => simpa [Token.text] using ht.1
  | _ => simp [Token.text, isNumeric, isDigit]

theorem isMaximalRun_of_mem_tokens {run text : List Char} (h : .number run ∈ tokens text) :
    IsMaximalRun run text := by
  obtain ⟨hne, hall⟩ := isProper_of_mem_tokens _ h
  obtain ⟨ts, us, htokens⟩ := List.append_of_mem h
  have htext : text = textOf ts ++ run ++ textOf us := by
    rw [← Formula.textOf_tokens text, htokens]
    simp [Token.text]
  have hproper : ∀ t ∈ ts ++ .number run :: us, t.IsProper := htokens ▸ isProper_of_mem_tokens
  have hchain := isChain_tokens text
  rw [htokens] at hchain
  refine ⟨hne, hall, textOf ts, textOf us, htext, ?_, ?_⟩
  · intro c hc
    rcases List.eq_nil_or_concat ts with rfl | ⟨ts, t, rfl⟩
    · simp at hc
    · have ht : t.IsProper := hproper t (by simp)
      have hparts : t.Parts (.number run) := by
        rw [List.concat_eq_append, List.append_assoc] at hchain
        exact (List.isChain_append_cons_cons.mp hchain).2.1
      have hnumber : ∀ other, t ≠ .number other := by
        rintro other rfl
        exact hparts
      apply isNumeric_of_mem_text ht hnumber
      rw [List.concat_eq_append, textOf_append, textOf_cons, textOf_nil, List.append_nil,
        List.getLast?_append_of_ne_nil _ ht.text_ne_nil] at hc
      exact List.mem_of_mem_getLast? hc
  · intro d hd
    cases us with
    | nil => simp at hd
    | cons t us =>
      have ht : t.IsProper := hproper t (by simp)
      have hparts : (Token.number run).Parts t :=
        (List.isChain_append_cons_cons.mp hchain).2.1
      apply isNumeric_of_mem_text ht (Token.parts_number_iff.mp hparts)
      rw [textOf_cons, List.head?_append_of_ne_nil _ ht.text_ne_nil] at hd
      exact List.mem_of_mem_head? hd

/-- **Numbers are maximal runs.** The numbers among the tokens of a text are its maximal runs of digits
and points. -/
theorem number_mem_tokens_iff {run text : List Char} :
    .number run ∈ tokens text ↔ IsMaximalRun run text := by
  refine ⟨isMaximalRun_of_mem_tokens, ?_⟩
  rintro ⟨hne, hall, before, behind, rfl, hbefore, hbehind⟩
  have hstar : ∀ {c : Char}, isNumeric c = true → c ≠ '*' := by
    rintro c hc rfl
    exact absurd hc (by decide)
  have hcut : IsCut run behind := by
    intro c hc d hd
    have hnumeric := List.all_eq_true.mp hall c (List.mem_of_mem_getLast? hc)
    simp [parts, hbehind d hd, hstar hnumeric]
  have hcut' : IsCut before (run ++ behind) := by
    intro c hc d hd
    rw [List.head?_append_of_ne_nil _ hne] at hd
    have hnumeric := List.all_eq_true.mp hall d (List.mem_of_mem_head? hd)
    simp [parts, hbefore c hc, hstar hnumeric]
  rw [List.append_assoc, tokens_append hcut', tokens_append hcut, tokens_run hne hall]
  simp

end FunctionGraph.Formula
