import PocketCalculator.Proofs.Keypad.Lengths

/-!
# Going on with a result

An operator that is pressed on a result goes behind it, and what is typed then is evaluated together
with it. Only the result zero is not kept: the operator takes its place, as on the zero of a new
keypad (`operator_goes_on_iff`).
-/

namespace PocketCalculator

/-- A part without `c` lies before `c` or after it. -/
theorem infix_of_infix_append_cons {α : Type} {a b run : List α} {c : α}
    (h : run <:+: a ++ c :: b) (hc : c ∉ run) : run <:+: a ∨ run <:+: b := by
  obtain ⟨front, back, h⟩ := h
  rw [List.append_assoc] at h
  rcases List.append_eq_append_iff.mp h with ⟨part, ha, hrest⟩ | ⟨part, hfront, hrest⟩
  · rcases List.append_eq_append_iff.mp hrest with ⟨part', hpart, hback⟩ | ⟨part', hrun, hback⟩
    · exact .inl ⟨front, part', by rw [ha, hpart, List.append_assoc]⟩
    · cases part' with
      | nil => exact .inl ⟨front, [], by rw [ha, hrun, List.append_nil, List.append_nil]⟩
      | cons d part' =>
        obtain ⟨rfl, _⟩ := List.cons_eq_cons.mp hback
        exact absurd (by simp [hrun]) hc
  · cases part with
    | nil =>
      cases run with
      | nil => exact .inl (List.nil_infix ..)
      | cons d run =>
        obtain ⟨rfl, _⟩ := List.cons_eq_cons.mp hrest
        exact absurd List.mem_cons_self hc
    | cons d part =>
      obtain ⟨_, hb⟩ := List.cons_eq_cons.mp hrest
      exact .inr ⟨part, back, (List.append_assoc ..).trans hb.symm⟩

namespace Keypad

/-! ### Lines that go on -/

/-- A number without a sign, as it is typed. -/
structure IsUnsigned (w : List Char) : Prop where
  chars : ∀ c ∈ w, c ∈ "0123456789.".toList
  points : w.count '.' ≤ 1
  digit : ∃ c ∈ w, c ≠ '.'

section Typable

variable {places : ℕ} {line w : List Char} {c o : Char}

theorem exists_text_cons (t : Display.NumberText places) :
    ∃ c rest, t.text = c :: rest ∧ c ≠ '.' ∧ c ≠ '%' := by
  obtain ⟨c, rest, hwhole⟩ := List.exists_cons_of_ne_nil t.whole_ne_nil
  have hdigit : c.isDigit = true := t.whole_digits c (by simp [hwhole])
  unfold Display.NumberText.text
  rw [hwhole]
  cases t.negative with
  | true => exact ⟨'-', _, rfl, by decide, by decide⟩
  | false =>
    exact ⟨c, _, rfl, Display.NumberText.ne_of_isDigit hdigit (by decide),
      Display.NumberText.ne_of_isDigit hdigit (by decide)⟩

/-- Only a point follows a zero at the beginning of a number. -/
theorem eq_point_of_text (t : Display.NumberText places) {rest : List Char}
    (h : t.text = '0' :: c :: rest) : c = '.' := by
  unfold Display.NumberText.text at h
  cases hnegative : t.negative with
  | true =>
    rw [hnegative] at h
    exact absurd (List.cons_eq_cons.mp h).1 (by decide)
  | false =>
    rw [hnegative] at h
    obtain ⟨d, whole, hwhole⟩ := List.exists_cons_of_ne_nil t.whole_ne_nil
    have hzero : d = '0' := by
      rw [hwhole] at h
      exact (List.cons_eq_cons.mp h).1
    have hone := t.whole_head (by rw [hwhole, hzero]; rfl)
    rw [hone] at h
    have hpointed : Display.pointed t.fraction = c :: rest := (List.cons_eq_cons.mp h).2
    unfold Display.pointed at hpointed
    split at hpointed
    · cases hpointed
    · exact (List.cons_eq_cons.mp hpointed).1.symm

/-- The text of a result is typed as it is written. -/
theorem typable_of_isNumberText (h : Display.IsNumberText places line) : Typable line := by
  have hwell := wellFormed_of_isNumberText h
  obtain ⟨t, rfl⟩ := h
  obtain ⟨c, rest, htext, hpoint, _⟩ := exists_text_cons t
  refine ⟨hwell, fun hsigns => ?_, ?_, fun c rest hzero => .inl (eq_point_of_text t hzero)⟩
  · rcases t.cases_of_mem (hsigns.subset (List.mem_cons_self ..)) with h | h | h
    · exact absurd h (by decide)
    · exact absurd h (by decide)
    · exact absurd h (by decide)
  · rw [htext]
    exact fun h => hpoint (Option.some.inj h)

theorem operator_cases (ho : isOperatorSign o = true) :
    o ∈ lineChars ∧ o ≠ '.' ∧ o ≠ '%' ∧ o ≠ '0' ∧ isDigitOrPoint o = false := by
  simp only [isOperatorSign, Bool.or_eq_true, decide_eq_true_eq] at ho
  rcases ho with ((rfl | rfl) | rfl) | rfl <;> decide

theorem IsUnsigned.mem_lineChars (hw : IsUnsigned w) (hc : c ∈ w) : c ∈ lineChars ∧ c ≠ '%' := by
  have hall : "0123456789.".toList.all (fun c => c ∈ lineChars ∧ c ≠ '%') = true := by decide
  exact of_decide_eq_true (List.all_eq_true.mp hall c (hw.chars c hc))

theorem IsUnsigned.percent_not_mem (hw : IsUnsigned w) : '%' ∉ w :=
  fun hmem => (hw.mem_lineChars hmem).2 rfl

/-- A sign and a number are an expression. -/
theorem typable_operator (ho : isOperatorSign o = true) (hw : IsUnsigned w) :
    Typable (o :: w) := by
  obtain ⟨hmem, hpoint, hpercent, hzero, _⟩ := operator_cases ho
  refine ⟨⟨List.cons_ne_nil _ _, ?_, singlePoints_of_count ?_, ?_⟩, ?_, ?_, ?_⟩
  · intro c hc
    rcases List.mem_cons.mp hc with rfl | hc
    · exact hmem
    · exact (hw.mem_lineChars hc).1
  · rw [List.count_cons_of_ne hpoint]
    exact hw.points
  · exact fun h => hpercent (Option.some.inj h)
  · intro hsigns
    have hsecond : '%' ∈ o :: w := hsigns.subset List.mem_cons_self
    rcases List.mem_cons.mp hsecond with h | h
    · exact hpercent h.symm
    · exact hw.percent_not_mem h
  · exact fun h => hpoint (Option.some.inj h)
  · exact fun c rest h => absurd (List.cons_eq_cons.mp h).1 hzero

/-- An operator and a number can be typed behind every line but a zero. -/
theorem Typable.append_operator (h : Typable line) (hline : line ≠ blankLine)
    (ho : isOperatorSign o = true) (hw : IsUnsigned w) : Typable (line ++ o :: w) := by
  obtain ⟨hmem, _, hpercent, _, hdigit⟩ := operator_cases ho
  refine ⟨⟨by simp, fun c hc => ?_, fun run hrun hall => ?_, ?_⟩, fun hsigns => ?_, ?_, ?_⟩
  · rcases List.mem_append.mp hc with hc | hc
    · exact h.chars c hc
    · exact (typable_operator ho hw).chars c hc
  · -- No digits and points go on across the operator.
    have hoperator : o ∉ run := fun hrun => by simp [hall o hrun] at hdigit
    rcases infix_of_infix_append_cons hrun hoperator with hrun | hrun
    · exact h.points run hrun hall
    · exact singlePoints_of_count hw.points run hrun hall
  · rw [List.head?_append_of_ne_nil _ h.nonempty]
    exact h.head
  · rcases infix_of_infix_append_cons hsigns (by simp [hpercent]) with hsigns | hsigns
    · exact h.percents hsigns
    · exact hw.percent_not_mem (hsigns.subset List.mem_cons_self)
  · rw [List.head?_append_of_ne_nil _ h.nonempty]
    exact h.point
  · intro c rest hzero
    match line, h, hline with
    | [], h, _ => exact absurd rfl h.nonempty
    | [d], _, hline =>
      obtain ⟨rfl, _⟩ := List.cons_eq_cons.mp hzero
      exact absurd rfl hline
    | d :: e :: more, h, _ =>
      obtain ⟨rfl, htail⟩ := List.cons_eq_cons.mp hzero
      obtain ⟨rfl, _⟩ := List.cons_eq_cons.mp htail
      exact h.zero e more rfl

end Typable

/-! ### Going on -/

section Continue

variable {s : Keypad} {w : List Char} {o : Char}

/-- What stays on the line when an operator is pressed on a result. -/
def carried (s : Keypad) : List Char := if s.line = blankLine then [] else s.line

theorem append_operator_of_room (hphase : s.phase = .result) (hne : s.line ≠ [])
    (hroom : s.line.length < s.limits.length) (ho : isOperatorSign o = true) :
    s.press [o] = changed { s with phase := .typing, line := s.carried ++ [o] } := by
  rw [press_operator ho, append_operator hphase ho, carried]
  by_cases hline : s.line = blankLine
  · rw [if_pos (isBlankLine_iff.mpr (.inr hline)), if_pos hline]
    rfl
  · have hblank : ¬ s.isBlankLine = true := fun hblank =>
      (isBlankLine_iff.mp hblank).elim hne hline
    rw [if_neg hblank, if_neg (Nat.not_le.mpr hroom), if_neg hline]

/-- What is typed goes behind the line, as long as the whole is an expression that fits. -/
theorem pressAll_of_typable (hphase : s.phase = .typing) (hne : s.line ≠ [])
    (h : Typable (s.line ++ w)) (hlength : (s.line ++ w).length ≤ s.limits.length) :
    s.pressAll (w.map List.singleton) =
      { s with line := s.line ++ w, revision := s.revision + w.length } := by
  induction w using List.reverseRecOn with
  | nil => rw [List.append_nil]; rfl
  | append_singleton w c ih =>
    rw [← List.append_assoc] at h hlength ⊢
    rw [List.length_append, List.length_singleton] at hlength
    have hfront : s.line ++ w ≠ [] := List.append_ne_nil_of_left_ne_nil hne _
    rw [List.map_append, pressAll_append, ih (h.of_concat hfront) (by omega), List.length_append]
    exact congrArg Prod.fst (press_of_typable
      (s := { s with line := s.line ++ w, revision := s.revision + w.length })
      hphase h hfront hlength)

theorem length_carried_le (s : Keypad) : s.carried.length ≤ s.line.length := by
  unfold carried
  split
  · exact Nat.zero_le _
  · exact Nat.le_refl _

theorem typable_carried (h : Typable s.line) (ho : isOperatorSign o = true) (hw : IsUnsigned w) :
    Typable (s.carried ++ o :: w) := by
  unfold carried
  split
  · exact typable_operator ho hw
  · next hblank => exact h.append_operator hblank ho hw

/-- An operator and a number are typed behind what stays of a result. -/
theorem pressAll_operator (hphase : s.phase = .result) (h : Typable s.line)
    (ho : isOperatorSign o = true) (hw : IsUnsigned w)
    (hlength : s.line.length + 1 + w.length ≤ s.limits.length) :
    s.pressAll ([o] :: w.map List.singleton) = { s with
      phase := .typing, line := s.carried ++ o :: w, revision := s.revision + 1 + w.length } := by
  have hpress := append_operator_of_room hphase h.nonempty (by omega) ho
  have hline : s.carried ++ [o] ++ w = s.carried ++ o :: w := by simp
  have hfits : (s.carried ++ o :: w).length ≤ s.limits.length := by
    have hshort := s.length_carried_le
    rw [List.length_append, List.length_cons]
    omega
  have htyped := pressAll_of_typable (w := w)
    (s := { s with phase := .typing, line := s.carried ++ [o], revision := s.revision + 1 })
    rfl (by simp) (by simpa only [hline] using typable_carried h ho hw) (by simpa only [hline])
  simp only [hline] at htyped
  show ((s.press [o]).1).pressAll (w.map List.singleton) = _
  rw [hpress]
  exact htyped

end Continue

/-- An operator that is pressed on a result goes behind it, if and only if the result is not zero,
and a zero makes way for it. When a number is typed behind the operator, the equals key shows what
the line evaluates to. -/
theorem operator_goes_on_iff {limits : Limits} {codes : List (List Char)} {o : Char}
    (hresult : ((fresh limits).pressAll codes).phase = .result)
    (hroom : ((fresh limits).pressAll codes).line.length < limits.length)
    (ho : isOperatorSign o = true) :
    let s := (fresh limits).pressAll codes
    ((s.press [o]).1.line = s.line ++ [o] ↔ s.line ≠ blankLine) ∧
      (s.press [o]).1.line = s.carried ++ [o] ∧
      ∀ w, IsUnsigned w → s.line.length + 1 + w.length ≤ limits.length →
        Shows (evaluate limits (s.carried ++ o :: w))
          ((fresh limits).pressAll (codes ++ [o] :: w.map List.singleton ++ [['=']])).display := by
  intro s
  have hlimits : s.limits = limits :=
    (orderly_pressAll (s := fresh limits) (Nat.zero_lt_of_lt hroom) (orderly_fresh limits) codes).2
  have hlength : limits.length = s.limits.length := congrArg Limits.length hlimits.symm
  have hshows := showsResult_pressAll (showsResult_of_typing (s := fresh limits) rfl) codes
  obtain ⟨x, _, _, hshown⟩ := hshows hresult
  have htypable : Typable s.line :=
    typable_of_isNumberText (Display.isNumberText_of_shown hshown)
  have hline : (s.press [o]).1.line = s.carried ++ [o] :=
    congrArg (·.1.line) (append_operator_of_room hresult htypable.nonempty
      (hroom.trans_eq hlength) ho)
  refine ⟨?_, hline, fun w hw hfits => ?_⟩
  · rw [hline, List.append_cancel_right_eq, carried]
    split
    · next hblank =>
      rw [hblank]
      decide
    · next hblank => exact iff_of_true rfl hblank
  · have htyped := pressAll_operator hresult htypable ho hw (hfits.trans_eq hlength)
    have hevaluate : evaluate limits = evaluate s.limits := by rw [hlimits]
    rw [pressAll_concat, pressAll_append, htyped, hevaluate]
    exact shows_equals (s := { s with
      phase := .typing, line := s.carried ++ o :: w, revision := s.revision + 1 + w.length })
      rfl (typable_carried htypable ho hw).nonempty

/-- The product of the result of `2+2` and three. -/
theorem operator_goes_on_iff_of_sum :
    ((fresh .standard).pressAll ("2+2=*".toList.map List.singleton)).line = "4*".toList ∧
      ((fresh .standard).pressAll ("2+2=*3=".toList.map List.singleton)).display = "12".toList := by
  have hline : ((fresh .standard).pressAll ("2+2=".toList.map List.singleton)).line =
      "4".toList := by
    decide +kernel
  have hcarried : ((fresh .standard).pressAll ("2+2=".toList.map List.singleton)).carried =
      "4".toList := by
    decide +kernel
  have hvalue : evaluate .standard "4*3".toList = .ok ⟨false, 12, 0⟩ := by decide +kernel
  have hnumber : Display.number Display.standardPlaces (.finite ⟨false, 12, 0⟩) =
      .ok "12".toList := by decide +kernel
  obtain ⟨_, hpress, hgoes⟩ :=
    @operator_goes_on_iff .standard ("2+2=".toList.map List.singleton) '*' (by decide +kernel)
      (by decide +kernel) rfl
  have hthree : IsUnsigned ['3'] :=
    ⟨List.forall_mem_singleton.mpr (by decide), by decide, '3', by decide, by decide⟩
  have hshows := hgoes ['3'] hthree (by rw [hline]; decide)
  rw [hcarried] at hpress hshows
  obtain ⟨text, htext, hdisplay⟩ := Ensures.of_ok hshows hvalue
  rw [hnumber] at htext
  cases htext
  exact ⟨hpress, hdisplay⟩

/-- The result of `5-5` is not gone on with: the product of it and three would be zero. -/
theorem zero_makes_way :
    let s := (fresh .standard).pressAll ("5-5=".toList.map List.singleton)
    s.phase = .result ∧ s.line = "0".toList ∧ (s.press ['*']).1.line = "*".toList ∧
      evaluate .standard "0*3".toList = .ok ⟨false, 0, 0⟩ ∧
      ((fresh .standard).pressAll ("5-5=*3=".toList.map List.singleton)).display =
        "Error: Unexpected '*'".toList := by
  decide +kernel

end Keypad

end PocketCalculator
