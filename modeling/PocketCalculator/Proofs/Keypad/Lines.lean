import PocketCalculator.Proofs.Display.Number
import PocketCalculator.Proofs.Expression.Scan
import PocketCalculator.Proofs.Keypad.Press

/-!
# What a keypad shows

A line that is typed or calculated has no blanks in it, and an error is the text of a fault, which
has one (`legible_press`). So what a message shows tells whether it is an error, and a keypad that
is set up again from it shows the same, or nothing in place of an error.
-/

namespace PocketCalculator

/-! ### Texts without blanks -/

/-- No character of the text is blank. -/
def Unbroken (cs : List Char) : Prop := ∀ c ∈ cs, isBlank c = false

section Unbroken

variable {cs ds : List Char}

theorem unbroken_nil : Unbroken [] := fun c hc => by cases hc

theorem unbroken_of_subset (hds : Unbroken ds) (h : ∀ c ∈ cs, c ∈ ds) : Unbroken cs :=
  fun c hc => hds c (h c hc)

theorem Unbroken.cons {c : Char} (hc : isBlank c = false) (hcs : Unbroken cs) :
    Unbroken (c :: cs) := by
  intro d hd
  rcases List.mem_cons.mp hd with rfl | hd
  · exact hc
  · exact hcs d hd

theorem Unbroken.append (hcs : Unbroken cs) (hds : Unbroken ds) : Unbroken (cs ++ ds) :=
  fun c hc => (List.mem_append.mp hc).elim (hcs c) (hds c)

end Unbroken

/-! ### Texts of numbers -/

theorem isBlank_of_isDigit {c : Char} (h : c.isDigit = true) : isBlank c = false := by
  simp only [Char.isDigit, Bool.and_eq_true, decide_eq_true_eq] at h
  have hlow : 0x30 ≤ c.toNat := UInt32.le_iff_toNat_le.mp h.1
  have hhigh : c.toNat ≤ 0x39 := UInt32.le_iff_toNat_le.mp h.2
  exact isBlank_of_apart (by decide) hlow hhigh

theorem Display.unbroken_shown {x : Decimal} {text : List Char} (h : shown x = .ok text) :
    Unbroken text := by
  obtain ⟨t, rfl⟩ := isNumberText_of_shown h
  intro c hc
  rcases t.cases_of_mem hc with rfl | hdigit | rfl
  · decide
  · exact isBlank_of_isDigit hdigit
  · decide

/-! ### Texts of errors -/

/-- The text starts with a character that is not blank. -/
def startsSolid (cs : List Char) : Bool := cs.head?.any (!isBlank ·)

theorem startsSolid_append {s : String} (h : startsSolid s.toList = true) (t : String) :
    startsSolid (s ++ t).toList = true := by
  unfold startsSolid at h ⊢
  rw [String.toList_append, List.head?_append]
  cases hs : s.toList.head? with
  | none =>
    rw [hs] at h
    cases h
  | some c =>
    rw [hs] at h
    exact h

theorem Fault.startsSolid_message (fault : Fault) : startsSolid fault.message.toList = true := by
  cases fault with
  | invalidCharacter c => exact startsSolid_append (by decide +kernel) _
  | unexpected text =>
    exact startsSolid_append (startsSolid_append (by decide +kernel) _) _
  | _ => decide +kernel

theorem exists_trimEnd {c : Char} (hc : isBlank c = false) (cs rest : List Char) :
    ∃ tail, trimEnd (cs ++ c :: rest) = cs ++ c :: tail := by
  unfold trimEnd
  rw [List.reverse_append, List.reverse_cons, List.append_assoc, List.dropWhile_append]
  split
  · exact ⟨[], by simp [hc]⟩
  · exact ⟨(rest.reverse.dropWhile isBlank).reverse, by simp⟩

/-- The text starts as an error does. -/
def IsErrorText (text : List Char) : Prop := errorLabel.toList <+: text

instance (text : List Char) : Decidable (IsErrorText text) :=
  inferInstanceAs (Decidable (_ <+: _))

theorem Unbroken.not_isErrorText {text : List Char} (h : Unbroken text) : ¬ IsErrorText text := by
  intro herror
  -- There is a blank in the label.
  have hblank := h ' ' (herror.subset (by decide))
  exact absurd hblank (by decide)

theorem Fault.text_toList (fault : Fault) :
    fault.text.toList = errorLabel.toList ++ fault.message.toList :=
  String.toList_append ..

theorem Fault.text_ne_nil (fault : Fault) : fault.text.toList ≠ [] := by
  rw [fault.text_toList]
  exact List.append_ne_nil_of_left_ne_nil (by decide) _

theorem isErrorText_trim (fault : Fault) : IsErrorText (trim fault.text.toList) := by
  -- The label ends with a blank, which is not trimmed, since a message follows.
  obtain ⟨c, hhead, hc⟩ := (Option.any_eq_true _ _).mp fault.startsSolid_message
  obtain ⟨rest, hmessage⟩ := List.head?_eq_some_iff.mp hhead
  rw [Bool.not_eq_true'] at hc
  obtain ⟨tail, htail⟩ := exists_trimEnd hc errorLabel.toList rest
  have hstart : trimStart fault.text.toList = fault.text.toList := by
    rw [fault.text_toList]
    exact trimStart_cons_of_not_blank (by decide) _
  unfold trim
  rw [hstart, fault.text_toList, hmessage, htail]
  exact List.prefix_append ..

theorem isErrorText_text (fault : Fault) : IsErrorText fault.text.toList := by
  rw [fault.text_toList]
  exact List.prefix_append ..

namespace Keypad

variable {s : Keypad} {c : Char}

/-! ### Lines -/

/-- A line without blanks, or the text of a fault, which is then shown as one. -/
inductive Legible (s : Keypad) : Prop where
  | line (phase : s.phase ≠ .failure) (unbroken : Unbroken s.line)
  | error (phase : s.phase = .failure) (fault : Fault) (text : s.line = fault.text.toList)

theorem unbroken_blankLine : Unbroken blankLine := .cons (by decide) unbroken_nil

theorem legible_fresh (limits : Limits) : (fresh limits).Legible :=
  .line (fun h => by cases h) unbroken_blankLine

theorem Legible.unbroken (hs : s.Legible) (hphase : s.phase ≠ .failure) : Unbroken s.line := by
  cases hs with
  | line _ unbroken => exact unbroken
  | error phase => exact absurd phase hphase

theorem unbroken_startTyping (hs : s.Legible) (c : Char) :
    (s.startTyping c).phase = .typing ∧ Unbroken (s.startTyping c).line := by
  cases hphase : s.phase with
  | typing =>
    simp only [startTyping, hphase]
    exact ⟨trivial, hs.unbroken (by simp [hphase])⟩
  | result =>
    simp only [startTyping, hphase]
    refine ⟨trivial, ?_⟩
    split
    · exact hs.unbroken (by simp [hphase])
    · exact unbroken_nil
  | failure =>
    simp only [startTyping, hphase]
    exact ⟨trivial, unbroken_nil⟩

theorem legible_append (hs : s.Legible) (hc : isBlank c = false) : (s.append c).1.Legible := by
  obtain ⟨hphase, hline⟩ := unbroken_startTyping hs c
  simp only [append]
  split
  · exact .line (by simp [hphase, changed]) (.cons hc unbroken_nil)
  split
  · exact .line (by simp [hphase, unchanged]) hline
  split
  · exact .line (by simp [hphase, unchanged]) hline
  · exact .line (by simp [hphase, changed]) (hline.append (.cons hc unbroken_nil))

theorem legible_clear (s : Keypad) : s.clear.1.Legible := by
  have hcleared : ({ s with line := blankLine, phase := .typing } : Keypad).Legible :=
    .line (fun h => by cases h) unbroken_blankLine
  unfold clear
  simp only
  split
  · exact hcleared
  · exact .line (fun h => by cases h) unbroken_blankLine

theorem legible_delete (hs : s.Legible) : s.delete.1.Legible := by
  unfold delete
  split
  · exact s.legible_clear
  · next hphase =>
    split
    · split
      · exact hs
      · exact .line (fun h => by cases h) unbroken_blankLine
    · exact .line (fun h => by cases h)
        (unbroken_of_subset (hs.unbroken hphase) fun c hc => (List.dropLast_sublist _).mem hc)

theorem legible_togglePercent (hs : s.Legible) : s.togglePercent.1.Legible := by
  have hpercent : Unbroken ['%'] := .cons (by decide) unbroken_nil
  have hline : Unbroken (if s.phase = .failure then s.clear.1 else s).line := by
    split
    · rcases s.clear_cases with ⟨hblank, _, h⟩ | h
      · rw [h, hblank]
        exact unbroken_blankLine
      · rw [h]
        exact unbroken_blankLine
    · next hphase => exact hs.unbroken hphase
  simp only [togglePercent]
  generalize (if s.phase = .failure then s.clear.1 else s) = t at hline ⊢
  refine .line (fun h => by cases h) ?_
  simp only [changed]
  split
  · exact unbroken_blankLine.append hpercent
  split
  · exact unbroken_of_subset hline fun c hc => (List.dropLast_sublist _).mem hc
  · exact hline.append hpercent

theorem legible_showOutcome (s : Keypad) {outcome : Except Fault (List Char)}
    (h : ∀ text, outcome = .ok text → Unbroken text) : (s.showOutcome outcome).1.Legible := by
  cases outcome with
  | ok text => exact .line (fun h => by cases h) (h text rfl)
  | error fault => exact .error rfl fault rfl

theorem legible_equals (hs : s.Legible) : s.equals.1.Legible := by
  unfold equals
  split
  · exact hs
  · refine s.legible_showOutcome fun text h => ?_
    obtain ⟨x, _, hshown⟩ := bind_eq_ok.mp h
    exact Display.unbroken_shown hshown

theorem legible_applyUnary (hs : s.Legible) (op : Unary) : (s.applyUnary op).1.Legible := by
  unfold applyUnary
  split
  · exact hs
  · refine s.legible_showOutcome fun text h => ?_
    obtain ⟨x, _, h⟩ := bind_eq_ok.mp h
    obtain ⟨y, _, hshown⟩ := bind_eq_ok.mp h
    exact Display.unbroken_shown hshown

theorem isBlank_of_symbol? {key : Key} (h : key.symbol? = some c) : isBlank c = false := by
  cases key with
  | digit d =>
    cases h
    revert d
    decide
  | _ => cases h <;> decide

theorem Operation.legible {f : Keypad → Keypad × Bool} (hf : Operation f) (hs : s.Legible) :
    (f s).1.Legible := by
  cases hf with
  | append key symbol => exact legible_append hs (isBlank_of_symbol? symbol)
  | togglePercent => exact legible_togglePercent hs
  | equals => exact legible_equals hs
  | clear => exact s.legible_clear
  | delete => exact legible_delete hs
  | applyUnary op => exact legible_applyUnary hs op
  | unchanged => exact hs

theorem legible_press (hs : s.Legible) (code : List Char) : (s.press code).1.Legible :=
  (operation_press code).legible hs

/-! ### What is shown -/

theorem display_of_line (h : s.line ≠ []) : s.display = s.line := by
  simp [display, h]

theorem unbroken_display (hs : s.Legible) (hphase : s.phase ≠ .failure) : Unbroken s.display := by
  unfold display
  split
  · exact unbroken_blankLine
  · exact hs.unbroken hphase

theorem display_ne_nil (s : Keypad) : s.display ≠ [] := by
  unfold display
  split
  · decide
  · next h => simpa using h

theorem exists_fault_of_legible (hs : s.Legible) (hphase : s.phase = .failure) :
    ∃ fault : Fault, s.display = fault.text.toList := by
  cases hs with
  | line phase => exact absurd hphase phase
  | error _ fault text =>
    refine ⟨fault, ?_⟩
    have hne : s.line ≠ [] := by
      rw [text, fault.text_toList]
      simp [errorLabel]
    rw [display_of_line hne, text]

/-- An error is told by its text. -/
theorem isErrorText_display_iff (hs : s.Legible) : IsErrorText s.display ↔ s.phase = .failure := by
  constructor
  · intro herror
    by_contra hphase
    exact (unbroken_display hs hphase).not_isErrorText herror
  · intro hphase
    obtain ⟨fault, hfault⟩ := exists_fault_of_legible hs hphase
    rw [hfault]
    exact isErrorText_text fault

/-- A keypad that is set up again from an error is a new one. -/
theorem ofDisplay_of_failure (hs : s.Legible) (hphase : s.phase = .failure) (limits : Limits) :
    ofDisplay limits s.display = fresh limits := by
  obtain ⟨fault, hfault⟩ := exists_fault_of_legible hs hphase
  have herror : errorLabel.toList.isPrefixOf (trim s.display) = true := by
    rw [hfault, List.isPrefixOf_iff_prefix]
    exact isErrorText_trim fault
  simp only [ofDisplay, herror, Bool.or_true, if_true]

/-- A keypad that is set up again from anything else shows the same. -/
theorem ofDisplay_of_line (hs : s.Legible) (hphase : s.phase ≠ .failure) (limits : Limits) :
    ofDisplay limits s.display = ⟨s.display, .typing, 0, limits⟩ := by
  have hunbroken := unbroken_display hs hphase
  have herror : errorLabel.toList.isPrefixOf s.display = false := by
    rw [← Bool.not_eq_true, List.isPrefixOf_iff_prefix]
    exact hunbroken.not_isErrorText
  have hne : s.display.isEmpty = false := by simp [display_ne_nil]
  simp only [ofDisplay, trim_eq_self hunbroken, herror, hne, Bool.or_false, Bool.false_eq_true,
    if_false]

theorem legible_ofDisplay (hs : s.Legible) (limits : Limits) :
    (ofDisplay limits s.display).Legible := by
  by_cases hphase : s.phase = .failure
  · rw [ofDisplay_of_failure hs hphase]
    exact legible_fresh limits
  · rw [ofDisplay_of_line hs hphase]
    exact .line (fun h => by cases h) (unbroken_display hs hphase)

/-- What is shown stays if a key reports no change. -/
theorem display_of_step {p : Keypad × Bool} (h : Step s p) (hp : p.2 = false) :
    p.1.display = s.display := by
  cases h with
  | changed => cases hp
  | unchanged => rfl
  | continued _ => rfl

end Keypad

end PocketCalculator
