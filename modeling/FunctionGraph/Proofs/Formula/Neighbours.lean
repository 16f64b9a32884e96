import FunctionGraph.Proofs.Formula.Arrangement

/-!
# The language of the grammar, character by character

Apart from its parentheses and its numbers, the grammar only says which characters may stand side by
side, with one rule more: of three stars in a row the third has no operand in front of it. A check that
looks at single characters and their neighbours is compared with this, and not with trees.
-/

namespace FunctionGraph.Formula

def isSign (c : Char) : Bool :=
  c == '+' || c == '-' || c == '*' || c == '/'

/-- May follow a character that ends an operand. -/
def canFollow (d : Char) : Bool :=
  isSign d || d == ')'

/-- Two characters that can be neighbours in an expression. -/
def adjoins (c d : Char) : Bool :=
  if canEnd c then canFollow d || (isNumeric c && isNumeric d)
  else (isSign c || c == '(') && (canBegin d || (c == '*' && d == '*'))

/-- What the grammar asks of the characters of a text. -/
structure IsPlaced (text : List Char) : Prop where
  begins : ∃ c rest, text = c :: rest ∧ canBegin c = true
  ends : ∃ rest c, text = rest ++ [c] ∧ canEnd c = true
  adjoin : text.IsChain fun c d => adjoins c d = true
  stars : ¬['*', '*', '*'] <:+: text
  nests : nests 0 text = true
  numbers : ∀ run, IsMaximalRun run text → IsNumber run

theorem rel_of_isChain {R : Char → Char → Prop} {text : List Char} (h : text.IsChain R) {c d : Char}
    (hpair : [c, d] <:+: text) : R c d := by
  have hchain := List.IsChain.infix h hpair
  exact (List.isChain_cons_cons.mp hchain).1

/-! ### Expressions are placed in this way -/

theorem adjoins_of_canEnd {c d : Char} (hc : canEnd c = true) (hd : canFollow d = true) :
    adjoins c d = true := by
  rw [adjoins, if_pos hc, hd, Bool.true_or]

theorem adjoins_of_canBegin {c d : Char} (hc : canEnd c = false)
    (hsign : (isSign c || c == '(') = true) (hd : canBegin d = true) : adjoins c d = true := by
  rw [adjoins, hc, if_neg Bool.false_ne_true, hsign, hd]
  rfl

theorem adjoins_of_numeric {c d : Char} (hc : isNumeric c = true) (hd : isNumeric d = true) :
    adjoins c d = true := by
  have hend : canEnd c = true := by simp [canEnd, hc]
  rw [adjoins, if_pos hend, hc, hd]
  simp

theorem Operation.canFollow_sign (operation : Operation) : canFollow operation.sign = true := by
  cases operation <;> decide

theorem Parses.isChain_append {level : Level} {left right : List Char} {expr : Expr}
    (h : Parses level left expr) (hleft : left.IsChain fun c d => adjoins c d = true) {d : Char}
    (hd : canFollow d = true) (hright : (d :: right).IsChain fun c d => adjoins c d = true) :
    (left ++ d :: right).IsChain fun c d => adjoins c d = true := by
  obtain ⟨rest, c, rfl, hc⟩ := h.ends
  refine List.isChain_append.mpr ⟨hleft, hright, ?_⟩
  intro c' hc' d' hd'
  obtain rfl : c = c' := by simpa using hc'
  obtain rfl : d = d' := by simpa using hd'
  exact adjoins_of_canEnd hc hd

theorem Parses.isChain_cons {level : Level} {text : List Char} {expr : Expr}
    (h : Parses level text expr) (behind : List Char)
    (htext : (text ++ behind).IsChain fun c d => adjoins c d = true) {c : Char}
    (hc : canEnd c = false) (hsign : (isSign c || c == '(') = true) :
    (c :: (text ++ behind)).IsChain fun c d => adjoins c d = true := by
  obtain ⟨d, rest, rfl, hd⟩ := h.begins
  exact List.isChain_cons_cons.mpr ⟨adjoins_of_canBegin hc hsign hd, htext⟩

theorem Parses.isChain {level : Level} {text : List Char} {expr : Expr}
    (h : Parses level text expr) : text.IsChain fun c d => adjoins c d = true := by
  induction h with
  | @number literal h =>
    refine List.Pairwise.isChain (List.pairwise_of_forall_mem_list ?_)
    intro c hc d hd
    exact adjoins_of_numeric (h.isNumeric_of_mem hc) (h.isNumeric_of_mem hd)
  | «variable» => exact List.isChain_singleton _
  | @group text inner h ih =>
    exact h.isChain_cons [')'] (h.isChain_append ih (by decide) (List.isChain_singleton _))
      (by decide) (by decide)
  | @negate text inner h ih =>
    have hchain := h.isChain_cons (c := '-') [] (by simpa using ih) (by decide) (by decide)
    simpa using hchain
  | base _ ih | single _ ih | summand _ ih => exact ih
  | @raise left right base exponent hbase hexponent ihbase ihexponent =>
    have hright := hexponent.isChain_cons (c := '*') [] (by simpa using ihexponent)
      (by decide) (by decide)
    rw [List.append_nil] at hright
    exact hbase.isChain_append ihbase (by decide) (List.isChain_cons_cons.mpr ⟨by decide, hright⟩)
  | @operate operation left right a b hleft hright ihleft ihright =>
    have hend : canEnd operation.sign = false := by cases operation <;> decide
    have hsign : (isSign operation.sign || operation.sign == '(') = true := by
      cases operation <;> decide
    have hchain := hright.isChain_cons [] (by simpa using ihright) hend hsign
    rw [List.append_nil] at hchain
    exact hleft.isChain_append ihleft operation.canFollow_sign hchain

/-- Stars that are no neighbours do not meet where two texts are put together. -/
theorem not_stars_infix_append {left right : List Char} (hleft : ¬['*', '*', '*'] <:+: left)
    (hright : ¬['*', '*', '*'] <:+: right)
    (h : left.getLast? = some '*' → right.head? ≠ some '*') :
    ¬['*', '*', '*'] <:+: left ++ right := by
  rw [List.infix_append_iff_ne_nil]
  rintro (hin | hin | ⟨stars, more, hstars, hmore, heq, hsuffix, hprefix⟩)
  · exact hleft hin
  · exact hright hin
  · have hall : ∀ c ∈ stars ++ more, c = '*' := by
      rw [← heq]
      simp
    have hlast : left.getLast? = some '*' := by
      obtain ⟨before, rfl⟩ := hsuffix
      rw [List.getLast?_append_of_ne_nil _ hstars, List.getLast?_eq_some_getLast hstars]
      exact congrArg some (hall _ (List.mem_append_left _ (List.getLast_mem hstars)))
    have hhead : right.head? = some '*' := by
      obtain ⟨behind, rfl⟩ := hprefix
      rw [List.head?_append_of_ne_nil _ hmore, List.head?_eq_some_head hmore]
      exact congrArg some (hall _ (List.mem_append_right _ (List.head_mem hmore)))
    exact h hlast hhead

theorem not_stars_infix_of_forall {text : List Char} (h : ∀ c ∈ text, c ≠ '*') :
    ¬['*', '*', '*'] <:+: text := by
  intro hin
  exact h '*' (hin.subset List.mem_cons_self) rfl

theorem Parses.getLast?_ne_star {level : Level} {text : List Char} {expr : Expr}
    (h : Parses level text expr) : text.getLast? ≠ some '*' := by
  obtain ⟨rest, c, rfl, hc⟩ := h.ends
  rw [List.getLast?_concat]
  rintro ⟨⟩
  exact absurd hc (by decide)

theorem Parses.head?_ne_star {level : Level} {text : List Char} {expr : Expr}
    (h : Parses level text expr) : text.head? ≠ some '*' := by
  obtain ⟨c, rest, rfl, hc⟩ := h.begins
  rintro ⟨⟩
  exact absurd hc (by decide)

theorem Parses.not_stars_infix {level : Level} {text : List Char} {expr : Expr}
    (h : Parses level text expr) : ¬['*', '*', '*'] <:+: text := by
  induction h with
  | @number literal h =>
    apply not_stars_infix_of_forall
    rintro c hc rfl
    exact absurd (h.isNumeric_of_mem hc) (by decide)
  | «variable» => exact not_stars_infix_of_forall (by simp)
  | @group text inner _ ih =>
    have hopening : ¬['*', '*', '*'] <:+: ['('] := not_stars_infix_of_forall (by simp)
    have hclosing : ¬['*', '*', '*'] <:+: [')'] := not_stars_infix_of_forall (by simp)
    exact not_stars_infix_append hopening (not_stars_infix_append ih hclosing (by simp)) (by simp)
  | @negate text inner _ ih =>
    have hminus : ¬['*', '*', '*'] <:+: ['-'] := not_stars_infix_of_forall (by simp)
    exact not_stars_infix_append hminus ih (by simp)
  | base _ ih | single _ ih | summand _ ih => exact ih
  | @raise left right base exponent hbase hexponent ihbase ihexponent =>
    have hpower : ¬['*', '*', '*'] <:+: ['*', '*'] := by decide
    have hright : ¬['*', '*', '*'] <:+: ['*', '*'] ++ right :=
      not_stars_infix_append hpower ihexponent fun _ => hexponent.head?_ne_star
    exact not_stars_infix_append ihbase hright fun hlast => absurd hlast hbase.getLast?_ne_star
  | @operate operation left right a b hleft hright ihleft ihright =>
    have hsign : ¬['*', '*', '*'] <:+: [operation.sign] := by cases operation <;> decide
    have hbehind : ¬['*', '*', '*'] <:+: [operation.sign] ++ right :=
      not_stars_infix_append hsign ihright fun _ => hright.head?_ne_star
    exact not_stars_infix_append ihleft hbehind fun hlast => absurd hlast hleft.getLast?_ne_star

theorem Parses.isPlaced {text : List Char} {expr : Expr} (h : Parses .sum text expr) :
    IsPlaced text where
  begins := h.begins
  ends := h.ends
  adjoin := h.isChain
  stars := h.not_stars_infix
  nests := h.isArranged.nests
  numbers _ hrun := h.isArranged.numbers _ (number_mem_tokens_iff.mpr hrun)

/-! ### What is placed in this way is an expression -/

namespace Token

variable {t u : Token}

theorem canBegin_head {d : Char} {tail : List Char} (ht : t.IsProper) (htext : t.text = d :: tail) :
    canBegin d = t.beginsOperand := by
  cases t with
  | number literal =>
    obtain rfl : literal = d :: tail := htext
    have hd : isNumeric d = true := List.all_eq_true.mp ht.2 d List.mem_cons_self
    simp [canBegin, hd, beginsOperand]
  | other c =>
    obtain ⟨rfl, -⟩ := List.cons.inj htext
    have hmem := ht.2
    simp only [List.mem_cons, List.not_mem_nil, or_false, not_or] at hmem
    simp [canBegin, ht.1, hmem, beginsOperand]
  | _ =>
    obtain ⟨rfl, -⟩ := List.cons.inj htext
    rfl

theorem canFollow_of_isNumeric {d : Char} (hd : isNumeric d = true) : canFollow d = false := by
  by_contra hne
  simp only [canFollow, isSign, Bool.not_eq_false, Bool.or_eq_true, beq_iff_eq] at hne
  rcases hne with (((rfl | rfl) | rfl) | rfl) | rfl <;> exact absurd hd (by decide)

theorem canFollow_head {d : Char} {tail : List Char} (ht : t.IsProper) (htext : t.text = d :: tail) :
    canFollow d = t.followsOperand := by
  cases t with
  | number literal =>
    obtain rfl : literal = d :: tail := htext
    have hd : isNumeric d = true := List.all_eq_true.mp ht.2 d List.mem_cons_self
    exact canFollow_of_isNumeric hd
  | other c =>
    obtain ⟨rfl, -⟩ := List.cons.inj htext
    have hmem := ht.2
    simp only [List.mem_cons, List.not_mem_nil, or_false, not_or] at hmem
    simp [canFollow, isSign, hmem, followsOperand]
  | _ =>
    obtain ⟨rfl, -⟩ := List.cons.inj htext
    rfl

theorem canEnd_getLast {c : Char} (ht : t.IsProper) (htext : t.text.getLast? = some c) :
    canEnd c = t.completesOperand := by
  cases t with
  | number literal =>
    have hc : isNumeric c = true :=
      List.all_eq_true.mp ht.2 c (List.mem_of_mem_getLast? htext)
    simp [canEnd, hc, completesOperand]
  | other d =>
    obtain rfl : d = c := by simpa [text] using htext
    have hmem := ht.2
    simp only [List.mem_cons, List.not_mem_nil, or_false, not_or] at hmem
    simp [canEnd, ht.1, hmem, completesOperand]
  | _ =>
    obtain rfl := Option.some.inj htext
    rfl

theorem eq_number_of_mem {c : Char} (ht : t.IsProper) (hmem : c ∈ t.text)
    (hc : isNumeric c = true) : ∃ run, t = .number run := by
  by_contra hnumber
  have hnone := isNumeric_of_mem_text ht (fun run heq => hnumber ⟨run, heq⟩) c hmem
  rw [hc] at hnone
  contradiction

theorem eq_star_of_mem (ht : t.IsProper) (hmem : '*' ∈ t.text) : t = .times ∨ t = .power := by
  cases t with
  | times => exact Or.inl rfl
  | power => exact Or.inr rfl
  | number literal => exact absurd (List.all_eq_true.mp ht.2 '*' hmem) (by decide)
  | other c =>
    obtain rfl : '*' = c := by simpa [text] using hmem
    exact absurd ht.2 (by decide)
  | _ => simp [text] at hmem

/-- Where the characters at the border of two tokens can be neighbours, so can the tokens. -/
theorem mayStand_of_adjoins {c d : Char} {rest tail : List Char} (hu : u.IsProper) (ht : t.IsProper)
    (hparts : u.Parts t) (hpower : u = .power → t ≠ .times ∧ t ≠ .power)
    (hleft : u.text = rest ++ [c]) (hright : t.text = d :: tail) (h : adjoins c d = true) :
    t.mayStand u.completesOperand = true := by
  have hlast : u.text.getLast? = some c := by rw [hleft, List.getLast?_concat]
  have hcmem : c ∈ u.text := List.mem_of_getLast? hlast
  have hdmem : d ∈ t.text := by simp [hright]
  rw [mayStand, ← canEnd_getLast hu hlast]
  rw [adjoins] at h
  by_cases hc : canEnd c = true
  · rw [if_pos hc] at h ⊢
    rw [← canFollow_head ht hright]
    rcases Bool.or_eq_true _ _ ▸ h with hfollow | hnumeric
    · exact hfollow
    · -- Two numbers in a row would be one number.
      rw [Bool.and_eq_true] at hnumeric
      obtain ⟨run, rfl⟩ := eq_number_of_mem hu hcmem hnumeric.1
      obtain ⟨other, rfl⟩ := eq_number_of_mem ht hdmem hnumeric.2
      exact absurd hparts id
  · rw [if_neg hc] at h ⊢
    rw [← canBegin_head ht hright]
    rw [Bool.and_eq_true, Bool.or_eq_true (canBegin d)] at h
    rcases h.2 with hbegin | hstars
    · exact hbegin
    · simp only [Bool.and_eq_true, beq_iff_eq] at hstars
      obtain ⟨rfl, rfl⟩ := hstars
      have hstar := eq_star_of_mem ht hdmem
      rcases eq_star_of_mem hu hcmem with rfl | rfl
      · rcases hstar with rfl | rfl <;> exact absurd hparts id
      · obtain ⟨htimes, hne⟩ := hpower rfl
        exact absurd hstar (by simp [htimes, hne])

end Token

theorem takeTurns_of_isChain {u : Token} {ts : List Token}
    (hchain : (u :: ts).IsChain fun u t => t.mayStand u.completesOperand = true)
    (hlast : ∀ t ∈ (u :: ts).getLast?, t.completesOperand = true) :
    takeTurns u.completesOperand ts = true := by
  induction ts generalizing u with
  | nil => exact hlast u rfl
  | cons t ts ih =>
    obtain ⟨hmay, hchain⟩ := List.isChain_cons_cons.mp hchain
    rw [takeTurns, hmay, Bool.true_and]
    exact ih hchain (by simpa using hlast)

theorem isChain_mayStand {ts : List Token} (hproper : ∀ t ∈ ts, t.IsProper)
    (hparts : ts.IsChain Token.Parts) (hadjoin : (textOf ts).IsChain fun c d => adjoins c d = true)
    (hstars : ¬['*', '*', '*'] <:+: textOf ts) :
    ts.IsChain fun u t => t.mayStand u.completesOperand = true := by
  induction ts with
  | nil => exact List.isChain_nil
  | cons u ts ih =>
    rw [textOf_cons] at hadjoin hstars
    obtain ⟨-, hadjoin', hborder⟩ := List.isChain_append.mp hadjoin
    have hstars' : ¬['*', '*', '*'] <:+: textOf ts :=
      fun h => hstars (h.trans (List.suffix_append _ _).isInfix)
    have hrest := ih (fun t ht => hproper t (List.mem_cons_of_mem _ ht)) hparts.tail hadjoin' hstars'
    cases ts with
    | nil => exact List.isChain_singleton _
    | cons t ts =>
      refine List.isChain_cons_cons.mpr ⟨?_, hrest⟩
      have hu : u.IsProper := hproper u (by simp)
      have ht : t.IsProper := hproper t (by simp)
      obtain ⟨d, tail, hd⟩ := List.exists_cons_of_ne_nil ht.text_ne_nil
      have hc := List.dropLast_concat_getLast hu.text_ne_nil
      refine Token.mayStand_of_adjoins hu ht (List.isChain_cons_cons.mp hparts).1 ?_ hc.symm hd ?_
      · -- A star behind a power sign would be the third in a row.
        rintro rfl
        constructor
        · rintro rfl
          exact hstars ⟨[], textOf ts, by simp [Token.text]⟩
        · rintro rfl
          exact hstars ⟨[], '*' :: textOf ts, by simp [Token.text]⟩
      · apply hborder
        · exact List.getLast?_eq_some_getLast hu.text_ne_nil
        · simp [hd]

theorem IsPlaced.isArranged {text : List Char} (h : IsPlaced text) : IsArranged text where
  nests := h.nests
  numbers _ hmem := h.numbers _ (number_mem_tokens_iff.mp hmem)
  turns := by
    have hproper : ∀ t ∈ tokens text, t.IsProper := isProper_of_mem_tokens
    have hadjoin := h.adjoin
    have hstars := h.stars
    rw [← textOf_tokens text] at hadjoin hstars
    have hchain := isChain_mayStand hproper (isChain_tokens text) hadjoin hstars
    obtain ⟨d, tail, hd, hbegin⟩ := h.begins
    obtain ⟨rest, c, hc, hend⟩ := h.ends
    have htext := textOf_tokens text
    cases htokens : tokens text with
    | nil =>
      rw [htokens, hd] at htext
      contradiction
    | cons t ts =>
      rw [htokens] at hproper hchain htext
      have ht : t.IsProper := hproper t List.mem_cons_self
      obtain ⟨d', tail', hd'⟩ := List.exists_cons_of_ne_nil ht.text_ne_nil
      have hhead : d' = d := by
        rw [textOf_cons, hd', hd] at htext
        exact (List.cons.inj htext).1
      have hmay : t.mayStand false = true := by
        rw [Token.mayStand, if_neg Bool.false_ne_true, ← Token.canBegin_head ht hd', hhead]
        exact hbegin
      rw [takeTurns, hmay, Bool.true_and]
      refine takeTurns_of_isChain hchain ?_
      intro u hu
      have hu' : u.IsProper := hproper u (List.mem_of_mem_getLast? hu)
      obtain ⟨before, hbefore⟩ := List.getLast?_eq_some_iff.mp hu
      have hlast : u.text.getLast? = some c := by
        rw [← List.getLast?_append_of_ne_nil (textOf before) hu'.text_ne_nil]
        rw [hbefore, textOf_append, textOf_cons, textOf_nil, List.append_nil, hc] at htext
        rw [htext, List.getLast?_concat]
      rw [← Token.canEnd_getLast hu' hlast]
      exact hend

/-- **Neighbours.** The language of the grammar is what its neighbours, its parentheses and its numbers
make of it. -/
theorem isExpression_iff_isPlaced {text : List Char} : IsExpression text ↔ IsPlaced text := by
  constructor
  · rintro ⟨expr, h⟩
    exact h.isPlaced
  · intro h
    exact isExpression_iff_isArranged.mpr h.isArranged

end FunctionGraph.Formula
