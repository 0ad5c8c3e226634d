import Mathlib.Data.List.Induction
import PocketCalculator.Proofs.Display.Results
import PocketCalculator.Proofs.Keypad.Restoring

/-!
# Typing an expression

None of the rules by which a keypad refuses or replaces characters gets in the way of an expression:
what is typed stands on the line, character by character (`pressAll_fresh_of_typable`), and is what
the equals key evaluates (`typed_and_evaluated`).
-/

namespace PocketCalculator.Keypad

/-- The expressions that are typed as they are written. -/
structure Typable (w : List Char) : Prop extends WellFormed w where
  percents : ¬ ['%', '%'] <:+: w
  point : w.head? ≠ some '.'
  zero : ∀ c rest, w = '0' :: c :: rest → c = '.' ∨ c = '%'

/-! ### Keys -/

section Press

variable {s : Keypad} {c : Char} {line : List Char}

theorem exists_ofCode? (hc : c ∈ lineChars) (hpercent : c ≠ '%') :
    ∃ key, Key.ofCode? [c] = some key ∧ key.symbol? = some c := by
  have hall : lineChars.all (fun c => c = '%' || (Key.ofCode? [c]).bind Key.symbol? = some c) =
      true := by decide
  have hkey := List.all_eq_true.mp hall c hc
  rw [Bool.or_eq_true, decide_eq_true_eq, decide_eq_true_eq] at hkey
  exact Option.bind_eq_some_iff.mp (hkey.resolve_left hpercent)

theorem press_singleton (hc : c ∈ lineChars) (hpercent : c ≠ '%') : s.press [c] = s.append c := by
  obtain ⟨key, hkey, hsymbol⟩ := exists_ofCode? hc hpercent
  simp only [press, hkey, pressKey, hsymbol]

theorem pressAll_append (s : Keypad) (codes more : List (List Char)) :
    s.pressAll (codes ++ more) = (s.pressAll codes).pressAll more :=
  List.foldl_append

/-! ### Typed characters -/

theorem append_fresh (limits : Limits) (hc : c ≠ '.') :
    ((fresh limits).append c).1 = ⟨[c], .typing, 1, limits⟩ := by
  have hblank : ((fresh limits).isBlankLine && decide (c ≠ '.')) = true := by
    rw [decide_eq_true hc]
    rfl
  unfold append
  exact congrArg Prod.fst (if_pos hblank)

theorem lastNumber_suffix (hline : '\n' ∉ line) : lastNumber line <:+ line := by
  rw [lastNumber_eq hline, ← List.reverse_prefix, List.reverse_reverse]
  exact List.takeWhile_prefix _

theorem isDigitOrPoint_of_mem_lastNumber (hline : '\n' ∉ line) (hc : c ∈ lastNumber line) :
    isDigitOrPoint c = true := by
  rw [lastNumber_eq hline, List.mem_reverse] at hc
  exact List.mem_takeWhile_imp hc

/-- A point begins no second fraction. -/
theorem not_mem_lastNumber (h : Typable (line ++ ['.'])) : '.' ∉ lastNumber line := by
  have hline : '\n' ∉ line := fun hend =>
    absurd (h.chars _ (List.mem_append_left _ hend)) (by decide)
  obtain ⟨front, hfront⟩ := lastNumber_suffix hline
  intro hmem
  have hrun : lastNumber line ++ ['.'] <:+: line ++ ['.'] :=
    ⟨front, [], by rw [List.append_nil, ← List.append_assoc, hfront]⟩
  have hall : ∀ d ∈ lastNumber line ++ ['.'], isDigitOrPoint d = true := by
    intro d hd
    rcases List.mem_append.mp hd with hd | hd
    · exact isDigitOrPoint_of_mem_lastNumber hline hd
    · rw [List.mem_singleton.mp hd]
      decide
  have hcount := h.points _ hrun hall
  have hpos := List.count_pos_iff.mpr hmem
  rw [List.count_append, List.count_singleton_self] at hcount
  omega

theorem append_of_typable (hphase : s.phase = .typing) (h : Typable (s.line ++ [c]))
    (hpercent : c ≠ '%') (hne : s.line ≠ []) (hroom : s.line.length < s.limits.length) :
    s.append c = changed { s with line := s.line ++ [c] } := by
  have hblank : (s.isBlankLine && decide (c ≠ '.')) = false := by
    rw [Bool.and_eq_false_imp, isBlankLine, Bool.or_eq_true, List.isEmpty_iff, decide_eq_true_eq]
    intro hzero
    have hline : s.line = ['0'] := hzero.resolve_left hne
    rw [hline] at h
    simpa using (h.zero c [] rfl).resolve_right hpercent
  have hpoint : (decide (c = '.') && (lastNumber s.line).contains '.') = false := by
    rw [Bool.and_eq_false_imp, decide_eq_true_eq]
    rintro rfl
    simpa using not_mem_lastNumber h
  have hstart : s.startTyping c = s := by simp only [startTyping, hphase]
  simp only [append, hstart, hblank, hpoint, Nat.not_le.mpr hroom, Bool.false_eq_true, if_false]

theorem togglePercent_of_typable (hphase : s.phase = .typing) (h : Typable (s.line ++ ['%'])) :
    s.togglePercent = changed { s with line := s.line ++ ['%'] } := by
  have hline : (if s.isBlankLine then blankLine ++ ['%']
      else if s.line.getLast? = some '%' then s.line.dropLast else s.line ++ ['%']) =
      s.line ++ ['%'] := by
    split
    · next hblank =>
      rw [isBlankLine, Bool.or_eq_true, List.isEmpty_iff, decide_eq_true_eq] at hblank
      rcases hblank with hnil | hzero
      · rw [hnil] at h
        exact absurd rfl h.head
      · rw [hzero]
    · split
      · next hlast =>
        obtain ⟨front, hfront⟩ := List.getLast?_eq_some_iff.mp hlast
        refine absurd ⟨front, [], ?_⟩ h.percents
        rw [hfront, List.append_nil, List.append_assoc]
        rfl
      · rfl
  have hfailure : s.phase ≠ .failure := by simp [hphase]
  simp only [togglePercent, if_neg hfailure, hline]
  rw [← hphase]

/-- Every key of an expression adds its character. -/
theorem press_of_typable (hphase : s.phase = .typing) (h : Typable (s.line ++ [c]))
    (hne : s.line ≠ []) (hroom : s.line.length < s.limits.length) :
    s.press [c] = changed { s with line := s.line ++ [c] } := by
  have hc : c ∈ lineChars := h.chars c (List.mem_append_right _ (List.mem_singleton_self c))
  by_cases hpercent : c = '%'
  · subst hpercent
    exact togglePercent_of_typable hphase h
  · rw [press_singleton hc hpercent]
    exact append_of_typable hphase h hpercent hne hroom

end Press

theorem Typable.of_concat {front : List Char} {c : Char} (h : Typable (front ++ [c]))
    (hne : front ≠ []) : Typable front where
  nonempty := hne
  chars d hd := h.chars d (List.mem_append_left _ hd)
  points := h.points.of_infix (List.prefix_append ..).isInfix
  head := by
    rw [← List.head?_append_of_ne_nil _ hne]
    exact h.head
  percents hsigns := h.percents (hsigns.trans (List.prefix_append ..).isInfix)
  point := by
    rw [← List.head?_append_of_ne_nil _ hne]
    exact h.point
  zero d rest hfront := h.zero d (rest ++ [c]) (by rw [hfront]; rfl)

theorem pressAll_fresh_of_typable {limits : Limits} {w : List Char} (h : Typable w)
    (hlength : w.length ≤ limits.length) :
    (fresh limits).pressAll (w.map List.singleton) = ⟨w, .typing, w.length, limits⟩ := by
  induction w using List.reverseRecOn with
  | nil => exact absurd rfl h.nonempty
  | append_singleton front c ih =>
    have hc : c ∈ lineChars := h.chars c (List.mem_append_right _ (List.mem_singleton_self c))
    rw [List.length_append, List.length_singleton] at hlength
    rw [List.map_append, pressAll_append]
    rcases eq_or_ne front [] with rfl | hne
    -- The first character takes the place of the zero, every other one comes after the line.
    · have hpoint : c ≠ '.' := by simpa using h.point
      have hpercent : c ≠ '%' := by simpa using h.head
      exact (congrArg Prod.fst (press_singleton hc hpercent)).trans (append_fresh limits hpoint)
    · rw [ih (h.of_concat hne) (by omega), List.length_append]
      exact congrArg Prod.fst
        (press_of_typable (s := ⟨front, .typing, front.length, limits⟩) rfl h hne hlength)

theorem equals_of_typing {s : Keypad} (hphase : s.phase = .typing) (hne : s.line ≠ []) :
    s.equals = s.showOutcome (do
      let x ← evaluate s.limits s.line
      Display.shown x) := by
  unfold equals
  exact if_neg (by simp [hphase, hne])

/-- The display has the text of a value, or the message of a fault. -/
def Shows (outcome : Except Fault Decimal) (display : List Char) : Prop :=
  Ensures outcome
    (fun v => ∃ text, Display.number Display.standardPlaces (.finite v) = .ok text ∧
      display = text)
    (fun fault => display = "Error: ".toList ++ fault.message.toList)

theorem shows_equals {s : Keypad} (hphase : s.phase = .typing) (hne : s.line ≠ []) :
    Shows (evaluate s.limits s.line) s.equals.1.display := by
  rw [equals_of_typing hphase hne]
  refine Ensures.intro (fun v hv => ?_) (fun fault hfault => ?_)
  · obtain ⟨text, htext, ⟨t, rfl⟩, _⟩ := exists_number_of_evaluate hv
    have hshown : Display.shown v = .ok t.text := by
      rw [Display.shown, htext]
      rfl
    rw [hv, ok_bind, hshown]
    exact ⟨t.text, htext, display_of_line t.text_ne_nil⟩
  · rw [hfault, error_bind]
    exact (display_of_line fault.text_ne_nil).trans fault.text_toList

/-- An expression is typed as it is written, and the equals key shows its value or its fault. -/
theorem typed_and_evaluated {limits : Limits} {w : List Char} (h : Typable w)
    (hlength : w.length ≤ limits.length) :
    ((fresh limits).pressAll (w.map List.singleton)).display = w ∧
      Ensures (evaluate limits w)
        (fun v => ∃ text, Display.number Display.standardPlaces (.finite v) = .ok text ∧
          ((fresh limits).pressAll (w.map List.singleton ++ [['=']])).display = text)
        (fun fault => ((fresh limits).pressAll (w.map List.singleton ++ [['=']])).display =
          "Error: ".toList ++ fault.message.toList) := by
  have htyped := pressAll_fresh_of_typable h hlength
  have hequals : (fresh limits).pressAll (w.map List.singleton ++ [['=']]) =
      (equals ⟨w, .typing, w.length, limits⟩).1 := by
    rw [pressAll_append, htyped]
    rfl
  rw [hequals, htyped]
  exact ⟨display_of_line h.nonempty,
    shows_equals (s := ⟨w, .typing, w.length, limits⟩) rfl h.nonempty⟩

theorem typed_and_evaluated_of_percent :
    ((fresh .standard).pressAll ("0.5+10%".toList.map List.singleton)).display = "0.5+10%".toList ∧
      ((fresh .standard).pressAll ("0.5+10%".toList.map List.singleton ++ [['=']])).display =
        "0.55".toList := by
  have hzero : ∀ c rest, "0.5+10%".toList = '0' :: c :: rest → c = '.' ∨ c = '%' := by
    intro c rest h
    injection h with _ h
    injection h with h
    exact Or.inl h.symm
  have hchars : "0.5+10%".toList.all (· ∈ lineChars) = true := by decide
  have htypable : Typable "0.5+10%".toList :=
    ⟨⟨by decide, fun c hc => of_decide_eq_true (List.all_eq_true.mp hchars c hc),
      singlePoints_of_count (by decide), by decide⟩, by decide, by decide, hzero⟩
  have hvalue : evaluate .standard "0.5+10%".toList = .ok ⟨false, 55, -2⟩ := by decide +kernel
  have hnumber : Display.number Display.standardPlaces (.finite ⟨false, 55, -2⟩) =
      .ok "0.55".toList := by decide +kernel
  obtain ⟨htyped, hequals⟩ := @typed_and_evaluated .standard _ htypable (by decide)
  obtain ⟨text, htext, hdisplay⟩ := hequals.of_ok hvalue
  rw [hnumber] at htext
  cases htext
  exact ⟨htyped, hdisplay⟩

end PocketCalculator.Keypad
