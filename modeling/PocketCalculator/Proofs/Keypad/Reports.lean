import PocketCalculator.Proofs.Keypad.Restoring

/-!
# Reports of changes

Whoever presses a key learns whether there was a change. A reported change counts a revision, and
without a report the state stays as it is, with one exception: an operator that finds no room behind
a result is refused, and yet the result is from then on a line that is being typed
(`reports_changes_iff`).
-/

namespace PocketCalculator.Keypad

/-! ### Keys and what they do -/

/-- What the key with a code does. -/
inductive Action : List Char → (Keypad → Keypad × Bool) → Prop where
  | append {c : Char} (mem : c ∈ lineChars) (percent : c ≠ '%') : Action [c] (·.append c)
  | togglePercent : Action ['%'] togglePercent
  | equals : Action ['='] equals
  | clear : Action ['C'] clear
  | delete : Action "DEL".toList delete
  | applyUnary (op : Unary) : Action (Key.unary op).code (·.applyUnary op)
  | unchanged {code : List Char} (unknown : Key.ofCode? code = none) : Action code unchanged

theorem code_of_ofCode? {code : List Char} {key : Key} (h : Key.ofCode? code = some key) :
    key.code = code := by
  unfold Key.ofCode? at h
  simpa using List.find?_some h

theorem press_code (s : Keypad) (key : Key) : s.press key.code = s.pressKey key := by
  unfold press
  rw [Key.ofCode?_code]

theorem action_code (key : Key) : Action key.code (·.press key.code) := by
  have hpress : (fun s : Keypad => s.press key.code) = (·.pressKey key) :=
    funext fun s => s.press_code key
  rw [hpress]
  cases hsymbol : key.symbol? with
  | some c =>
    obtain ⟨hc, hpercent⟩ := mem_lineChars_of_symbol? hsymbol
    have happend : (fun s : Keypad => s.pressKey key) = (·.append c) := by
      funext s
      simp only [pressKey, hsymbol]
    have hcode : key.code = [c] := by simp only [Key.code, hsymbol]
    rw [happend, hcode]
    exact .append hc hpercent
  | none =>
    cases key with
    | percent => exact .togglePercent
    | equals => exact .equals
    | clear => exact .clear
    | delete => exact .delete
    | unary op => exact .applyUnary op
    | _ => cases hsymbol

theorem action_press (code : List Char) : Action code (·.press code) := by
  cases hkey : Key.ofCode? code with
  | some key =>
    rw [← code_of_ofCode? hkey]
    exact action_code key
  | none =>
    have hpress : (fun s : Keypad => s.press code) = unchanged := by
      funext s
      simp only [press, hkey]
    rw [hpress]
    exact .unchanged hkey

/-! ### Characters after a result or an error -/

section Append

variable {s : Keypad} {c : Char}

/-- A character that starts anew stands alone on the line. -/
theorem append_anew (hlimit : 0 < s.limits.length)
    (h : s.phase = .failure ∨ s.phase = .result ∧ isOperatorSign c = false) :
    s.append c = changed { s with phase := .typing, line := [c] } := by
  have hstart : s.startTyping c = { s with phase := .typing, line := [] } := by
    rcases h with hphase | ⟨hphase, hc⟩
    · simp only [startTyping, hphase]
    · simp only [startTyping, hphase, hc, Bool.false_eq_true, if_false]
  have hroom : ¬ s.limits.length ≤ 0 := Nat.not_le.mpr hlimit
  simp only [append, hstart, isBlankLine, lastNumber, List.isEmpty_nil, Bool.true_or,
    Bool.true_and, List.length_nil, if_neg hroom, List.nil_append]
  split
  · rfl
  · simp

/-- An operator after a result goes behind it, if there is room, but takes the place of a zero. -/
theorem append_operator (hphase : s.phase = .result) (hc : isOperatorSign c = true) :
    s.append c =
      if s.isBlankLine then changed { s with phase := .typing, line := [c] }
      else if s.limits.length ≤ s.line.length then ({ s with phase := .typing }, false)
      else changed { s with phase := .typing, line := s.line ++ [c] } := by
  have hstart : s.startTyping c = { s with phase := .typing } := by
    simp only [startTyping, hphase, hc, if_true]
  have hpoint : c ≠ '.' := by
    rintro rfl
    cases hc
  simp only [append, hstart, isBlankLine, hpoint, ne_eq, not_false_eq_true, decide_true,
    decide_false, Bool.and_true, Bool.false_and, Bool.false_eq_true, if_false]
  rfl

end Append

/-! ### Reports -/

def operatorCodes : List (List Char) := [['+'], ['-'], ['*'], ['/']]

theorem singleton_mem_operatorCodes {c : Char} :
    [c] ∈ operatorCodes ↔ isOperatorSign c = true := by
  simp [operatorCodes, isOperatorSign, or_assoc]

/-- An operator is pressed on a result that leaves no room for it. -/
structure NoRoom (s : Keypad) (code : List Char) : Prop where
  phase : s.phase = .result
  operator : code ∈ operatorCodes
  line : s.line ≠ blankLine
  full : s.limits.length ≤ s.line.length

variable {s : Keypad} {code : List Char}

theorem isBlankLine_iff : s.isBlankLine = true ↔ s.line = [] ∨ s.line = blankLine := by
  simp [isBlankLine]

theorem press_operator {c : Char} (h : isOperatorSign c = true) : s.press [c] = s.append c := by
  simp only [isOperatorSign, Bool.or_eq_true, decide_eq_true_eq] at h
  rcases h with ((rfl | rfl) | rfl) | rfl <;> rfl

theorem press_of_noRoom (hlimit : 0 < s.limits.length) (h : s.NoRoom code) :
    s.press code = ({ s with phase := .typing }, false) := by
  obtain ⟨c, rfl⟩ : ∃ c, code = [c] := by
    have hcodes : ∀ code ∈ operatorCodes, ∃ c, code = [c] := by simp [operatorCodes]
    exact hcodes code h.operator
  have hc := singleton_mem_operatorCodes.mp h.operator
  have hne : s.line ≠ [] := by
    intro hnil
    have hfull := h.full
    rw [hnil] at hfull
    exact absurd hlimit (Nat.not_lt.mpr hfull)
  have hblank : ¬ s.isBlankLine = true := fun hblank =>
    (isBlankLine_iff.mp hblank).elim hne h.line
  rw [press_operator hc, append_operator h.phase hc, if_neg hblank, if_pos h.full]

/-! Keys that do not stand for a character report a change, or they leave the state alone. -/

theorem reported_clear (s : Keypad) : s.clear.2 = true ∨ s.clear = s.unchanged := by
  rcases s.clear_cases with ⟨_, _, h⟩ | h
  · exact .inr h
  · rw [h]
    exact .inl rfl

theorem reported_delete (s : Keypad) : s.delete.2 = true ∨ s.delete = s.unchanged := by
  unfold delete
  split
  · exact s.reported_clear
  · split
    · split
      · exact .inr rfl
      · exact .inl rfl
    · exact .inl rfl

theorem reported_equals (s : Keypad) : s.equals.2 = true ∨ s.equals = s.unchanged := by
  unfold equals
  split
  · exact .inr rfl
  · exact .inl (s.reported_showOutcome _)

theorem reported_applyUnary (s : Keypad) (op : Unary) :
    (s.applyUnary op).2 = true ∨ s.applyUnary op = s.unchanged := by
  unfold applyUnary
  split
  · exact .inr rfl
  · exact .inl (s.reported_showOutcome _)

/-- Of a result nothing but a refused operator makes a line without a report. -/
theorem Action.noRoom {f : Keypad → Keypad × Bool} (hf : Action code f)
    (hlimit : 0 < s.limits.length) (hphase : s.phase = .result)
    (h : f s = ({ s with phase := .typing }, false)) :
    s.NoRoom code := by
  have hsilent : ¬ ((f s).2 = true ∨ f s = s.unchanged) := by
    rw [h]
    rintro (hreport | hkept)
    · cases hreport
    · have htyping : Phase.typing = s.phase := congrArg (·.1.phase) hkept
      rw [hphase] at htyping
      cases htyping
  cases hf with
  | @append c mem percent =>
    simp only at hsilent
    cases hc : isOperatorSign c with
    | false =>
      rw [append_anew hlimit (.inr ⟨hphase, hc⟩)] at hsilent
      exact absurd (.inl rfl) hsilent
    | true =>
      rw [append_operator hphase hc] at hsilent
      split at hsilent
      · exact absurd (.inl rfl) hsilent
      · next hblank =>
        split at hsilent
        · next hfull =>
          exact ⟨hphase, singleton_mem_operatorCodes.mpr hc,
            fun hline => hblank (isBlankLine_iff.mpr (.inr hline)), hfull⟩
        · exact absurd (.inl rfl) hsilent
  | togglePercent => exact absurd (.inl rfl) hsilent
  | equals => exact absurd s.reported_equals hsilent
  | clear => exact absurd s.reported_clear hsilent
  | delete => exact absurd s.reported_delete hsilent
  | applyUnary op => exact absurd (s.reported_applyUnary op) hsilent
  | unchanged => exact absurd (.inr rfl) hsilent

theorem press_cases (hlimit : 0 < s.limits.length) (code : List Char) :
    (s.revision < (s.press code).1.revision ∧ (s.press code).2 = true) ∨
      s.press code = (s, false) ∨ s.NoRoom code := by
  have hstep := step_press hlimit code
  generalize hp : s.press code = p at hstep
  cases hstep with
  | changed t revision _ => exact .inl ⟨revision, rfl⟩
  | unchanged => exact .inr (.inl rfl)
  | continued phase => exact .inr (.inr ((action_press code).noRoom hlimit phase hp))

/-- A reported change counts a revision. Without a report the whole state is as it was, if and only
if the key is not an operator that finds no room behind a result; such an operator makes the result
a line that is being typed, and nothing else. -/
theorem reports_changes_iff {limits : Limits} (hlimit : 0 < limits.length)
    (codes : List (List Char)) (code : List Char) :
    let s := (fresh limits).pressAll codes
    ((s.press code).2 = true → s.revision < (s.press code).1.revision) ∧
      ((s.press code).2 = false → ((s.press code).1 = s ↔ ¬ s.NoRoom code)) ∧
      (s.NoRoom code → s.press code = ({ s with phase := .typing }, false)) := by
  intro s
  have hpos : 0 < s.limits.length := by
    rw [(orderly_pressAll hlimit (orderly_fresh limits) codes).2]
    exact hlimit
  have hrefused : s.NoRoom code → s.press code = ({ s with phase := .typing }, false) :=
    press_of_noRoom hpos
  refine ⟨fun hreport => ?_, fun hsilent => ⟨fun hsame hfull => ?_, fun hroom => ?_⟩, hrefused⟩
  · rcases press_cases hpos code with ⟨hrevision, _⟩ | hkept | hfull
    · exact hrevision
    · rw [hkept] at hreport
      cases hreport
    · rw [hrefused hfull] at hreport
      cases hreport
  · rw [hrefused hfull] at hsame
    have htyping : Phase.typing = s.phase := congrArg phase hsame
    rw [hfull.phase] at htyping
    cases htyping
  · rcases press_cases hpos code with ⟨_, hreport⟩ | hkept | hfull
    · rw [hsilent] at hreport
      cases hreport
    · rw [hkept]
    · exact absurd hfull hroom

/-- The result of `1/3` is longer than the limit: the sign finds no room. The equals key reports a
change, and a key that does not exist changes nothing. -/
theorem reports_changes_iff_of_third :
    let s := (fresh (.ofLength 3)).pressAll ("1/3=".toList.map List.singleton)
    s.press ['+'] = ({ s with phase := .typing }, false) ∧
      s.revision < (s.press ['=']).1.revision ∧ (s.press ['?']).1 = s := by
  intro s
  obtain ⟨_, _, hrefused⟩ := @reports_changes_iff (.ofLength 3) (by decide) _ ['+']
  obtain ⟨hreported, _, _⟩ := @reports_changes_iff (.ofLength 3) (by decide) _ ['=']
  obtain ⟨_, hkept, _⟩ := @reports_changes_iff (.ofLength 3) (by decide) _ ['?']
  refine ⟨hrefused ⟨?_, ?_, ?_, ?_⟩, hreported ?_, (hkept ?_).mpr fun h => ?_⟩
  · decide +kernel
  · decide
  · decide +kernel
  · decide +kernel
  · decide +kernel
  · decide +kernel
  · exact absurd h.operator (by decide)

/-- The sign is refused without a report, and the state is another one. -/
theorem refused_sign_changes_state :
    let s := (fresh (.ofLength 3)).pressAll ("1/3=".toList.map List.singleton)
    (s.press ['+']).2 = false ∧ (s.press ['+']).1 ≠ s ∧
      s.phase = .result ∧ (s.press ['+']).1.phase = .typing := by
  decide +kernel

end PocketCalculator.Keypad
