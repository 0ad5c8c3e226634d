import PocketCalculator.Proofs.Display.Number
import PocketCalculator.Proofs.Keypad.Lines

/-!
# Restoring a keypad

While an expression is typed, the state of a keypad is what it shows: a keypad that is set up again
from its message goes on as the first one would have (`coherent_pressAll_fresh`). This rests on what
can stand on a line (`WellFormed`), which every key keeps (`orderly_press`).
-/

namespace PocketCalculator.Keypad

/-! ### Lines -/

/-- The characters that can stand on a line. -/
def lineChars : List Char := "0123456789.+-*/()%".toList

def isDigitOrPoint (c : Char) : Bool := isDecimalDigit c || c = '.'

/-- Among digits and points side by side there is at most one point. -/
def SinglePoints (line : List Char) : Prop :=
  ∀ run, run <:+: line → (∀ c ∈ run, isDigitOrPoint c = true) → run.count '.' ≤ 1

/-- A line that is no error. -/
structure WellFormed (line : List Char) : Prop where
  nonempty : line ≠ []
  chars : ∀ c ∈ line, c ∈ lineChars
  points : SinglePoints line
  head : line.head? ≠ some '%'

variable {line : List Char} {c : Char}

theorem singlePoints_of_count (h : line.count '.' ≤ 1) : SinglePoints line :=
  fun _ hrun _ => Nat.le_trans (hrun.sublist.count_le _) h

theorem SinglePoints.of_infix {part : List Char} (h : SinglePoints line) (hpart : part <:+: line) :
    SinglePoints part :=
  fun run hrun hall => h run (hrun.trans hpart) hall

theorem lastNumber_eq (hline : '\n' ∉ line) :
    lastNumber line = (line.reverse.takeWhile isDigitOrPoint).reverse := by
  have hend : line.reverse.head? ≠ some '\n' := by
    intro h
    exact hline (List.mem_reverse.mp (List.mem_of_mem_head? h))
  simp only [lastNumber, if_neg hend]
  rfl

/-- The last number has all digits and points at the end. -/
theorem mem_lastNumber {run : List Char} (hline : '\n' ∉ line) (hrun : run <:+ line)
    (hall : ∀ d ∈ run, isDigitOrPoint d = true) (hc : c ∈ run) : c ∈ lastNumber line := by
  rw [lastNumber_eq hline, List.mem_reverse]
  obtain ⟨front, rfl⟩ := hrun
  rw [List.reverse_append,
    List.takeWhile_append_of_pos fun d hd => hall d (List.mem_reverse.mp hd)]
  exact List.mem_append_left _ (List.mem_reverse.mpr hc)

theorem SinglePoints.concat (h : SinglePoints line) (hline : '\n' ∉ line)
    (hpoint : c = '.' → '.' ∉ lastNumber line) : SinglePoints (line ++ [c]) := by
  intro run hrun hall
  rcases List.infix_concat_iff.mp hrun with hsuffix | hinfix
  · rcases List.suffix_concat_iff.mp hsuffix with rfl | ⟨front, rfl, hfront⟩
    · exact Nat.zero_le _
    · have hdigits : ∀ d ∈ front, isDigitOrPoint d = true :=
        fun d hd => hall d (List.mem_append_left _ hd)
      by_cases hc : c = '.'
      · have hnone : '.' ∉ front :=
          fun hmem => hpoint hc (mem_lastNumber hline hfront hdigits hmem)
        simp [List.count_append, List.count_eq_zero_of_not_mem hnone, hc]
      · simpa [List.count_append, List.count_cons, hc] using h front hfront.isInfix hdigits
  · exact h run hinfix hall

theorem wellFormed_singleton (hc : c ∈ lineChars) (hpercent : c ≠ '%') : WellFormed [c] where
  nonempty := List.cons_ne_nil _ _
  chars d hd := by
    rw [List.mem_singleton.mp hd]
    exact hc
  points := singlePoints_of_count List.count_le_length
  head := by simpa using hpercent

theorem wellFormed_blankLine : WellFormed blankLine := wellFormed_singleton (by decide) (by decide)

theorem WellFormed.concat (h : WellFormed line) (hc : c ∈ lineChars)
    (hpoint : c = '.' → '.' ∉ lastNumber line) : WellFormed (line ++ [c]) where
  nonempty := by simp
  chars d hd := by
    rcases List.mem_append.mp hd with hd | hd
    · exact h.chars d hd
    · rw [List.mem_singleton.mp hd]
      exact hc
  points := h.points.concat (fun hend => absurd (h.chars _ hend) (by decide)) hpoint
  head := by
    rw [List.head?_append_of_ne_nil _ h.nonempty]
    exact h.head

theorem WellFormed.dropLast (h : WellFormed line) (hlength : 1 < line.length) :
    WellFormed line.dropLast where
  nonempty := by
    intro hnil
    have hzero : line.dropLast.length = 0 := by rw [hnil]; rfl
    rw [List.length_dropLast] at hzero
    omega
  chars d hd := h.chars d ((List.dropLast_sublist _).mem hd)
  points := h.points.of_infix (List.dropLast_prefix _).isInfix
  head := by
    rw [List.head?_dropLast, if_pos hlength]
    exact h.head

/-- A percent sign stands behind something. -/
theorem WellFormed.one_lt_length (h : WellFormed line) (hlast : line.getLast? = some '%') :
    1 < line.length := by
  match line, h, hlast with
  | [d], h, hlast => exact absurd hlast h.head
  | _ :: _ :: _, _, _ => simp

theorem mem_lineChars_of_isDigit (h : c.isDigit = true) : c ∈ lineChars := by
  simp only [Char.isDigit, Bool.and_eq_true, decide_eq_true_eq] at h
  have hlow : 48 ≤ c.toNat := UInt32.le_iff_toNat_le.mp h.1
  have hhigh : c.toNat ≤ 57 := UInt32.le_iff_toNat_le.mp h.2
  have hdigit : ∀ n < 58, 48 ≤ n → Char.ofNat n ∈ lineChars := by decide
  rw [← Char.ofNat_toNat c]
  exact hdigit c.toNat (by omega) hlow

theorem wellFormed_of_isNumberText {places : Nat} (h : Display.IsNumberText places line) :
    WellFormed line := by
  obtain ⟨t, rfl⟩ := h
  have hpercent : '%' ∉ t.text := by
    intro hmem
    rcases t.cases_of_mem hmem with h | h | h
    · exact absurd h (by decide)
    · exact absurd h (by decide)
    · exact absurd h (by decide)
  refine ⟨t.text_ne_nil, fun c hc => ?_, singlePoints_of_count t.count_point_le, fun h => ?_⟩
  · rcases t.cases_of_mem hc with rfl | h | rfl
    · decide
    · exact mem_lineChars_of_isDigit h
    · decide
  · exact hpercent (List.mem_of_mem_head? h)

theorem WellFormed.unbroken (h : WellFormed line) : Unbroken line := by
  have hsolid : lineChars.all (!isBlank ·) = true := by decide
  intro c hc
  simpa using List.all_eq_true.mp hsolid c (h.chars c hc)

/-! ### States -/

variable {s : Keypad}

/-- What every key keeps: in each phase the line is what the phase says. -/
inductive Orderly (s : Keypad) : Prop where
  | typing (phase : s.phase = .typing) (line : WellFormed s.line)
  | result (phase : s.phase = .result) (x : Decimal) (shown : Display.shown x = .ok s.line)
  | failure (phase : s.phase = .failure) (fault : Fault) (text : s.line = fault.text.toList)

theorem orderly_fresh (limits : Limits) : (fresh limits).Orderly := .typing rfl wellFormed_blankLine

theorem Orderly.wellFormed (hs : s.Orderly) (hphase : s.phase ≠ .failure) : WellFormed s.line := by
  cases hs with
  | typing _ line => exact line
  | result _ x shown => exact wellFormed_of_isNumberText (Display.isNumberText_of_shown shown)
  | failure phase => exact absurd phase hphase

theorem Orderly.legible (hs : s.Orderly) : s.Legible := by
  cases hs with
  | typing phase line => exact .line (by simp [phase]) line.unbroken
  | result phase x shown => exact .line (by simp [phase]) (Display.unbroken_shown shown)
  | failure phase fault text => exact .error phase fault text

theorem startTyping_cases (hs : s.Orderly) (c : Char) :
    (s.startTyping c).phase = .typing ∧ (s.startTyping c).limits = s.limits ∧
      ((s.startTyping c).line = [] ∨ WellFormed (s.startTyping c).line) := by
  refine ⟨s.phase_startTyping c, ?_, ?_⟩
  · cases hphase : s.phase <;> simp only [startTyping, hphase]
  · cases hphase : s.phase with
    | typing =>
      simp only [startTyping, hphase]
      exact .inr (hs.wellFormed (by simp [hphase]))
    | result =>
      simp only [startTyping, hphase]
      split
      · exact .inr (hs.wellFormed (by simp [hphase]))
      · exact .inl rfl
    | failure =>
      simp only [startTyping, hphase, true_or]

theorem orderly_append (hlimit : 0 < s.limits.length) (hs : s.Orderly) (hc : c ∈ lineChars)
    (hpercent : c ≠ '%') : (s.append c).1.Orderly := by
  obtain ⟨hphase, ht, hline⟩ := startTyping_cases hs c
  simp only [append]
  generalize s.startTyping c = t at hphase ht hline
  split
  · exact .typing hphase (wellFormed_singleton hc hpercent)
  · next hblank =>
    rcases hline with hnil | hline
    · -- On an empty line there is room, and no other point.
      have hlast : lastNumber t.line = [] := by rw [hnil]; rfl
      rw [if_neg (by simp [hlast]), if_neg (by rw [hnil, ht]; exact Nat.not_le.mpr hlimit)]
      refine .typing hphase ?_
      simp only [changed, hnil]
      exact wellFormed_singleton hc hpercent
    · split
      · exact .typing hphase hline
      · next hpoint =>
        split
        · exact .typing hphase hline
        · refine .typing hphase (hline.concat hc fun hc hmem => hpoint ?_)
          simp [hc, hmem]

theorem orderly_clear (s : Keypad) : s.clear.1.Orderly := by
  rcases s.clear_cases with ⟨hline, hphase, h⟩ | h
  · rw [h]
    exact .typing hphase (by rw [hline]; exact wellFormed_blankLine)
  · rw [h]
    exact .typing rfl wellFormed_blankLine

theorem orderly_delete (hs : s.Orderly) : s.delete.1.Orderly := by
  unfold delete
  split
  · exact s.orderly_clear
  · next hphase =>
    split
    · split
      · exact hs
      · exact .typing rfl wellFormed_blankLine
    · next hlength =>
      exact .typing rfl ((hs.wellFormed hphase).dropLast (Nat.lt_of_not_le hlength))

theorem orderly_togglePercent (hs : s.Orderly) : s.togglePercent.1.Orderly := by
  have hline : WellFormed (if s.phase = .failure then s.clear.1 else s).line := by
    split
    · exact s.orderly_clear.wellFormed (by simp [s.phase_clear])
    · next hphase => exact hs.wellFormed hphase
  have hpercent : ∀ {line}, WellFormed line → WellFormed (line ++ ['%']) :=
    fun h => h.concat (by decide) fun h => absurd h (by decide)
  simp only [togglePercent]
  generalize (if s.phase = .failure then s.clear.1 else s) = t at hline ⊢
  refine .typing rfl ?_
  simp only [changed]
  split
  · exact hpercent wellFormed_blankLine
  · split
    · next hlast => exact hline.dropLast (hline.one_lt_length hlast)
    · exact hpercent hline

theorem orderly_showOutcome (s : Keypad) {outcome : Except Fault (List Char)}
    (h : ∀ text, outcome = .ok text → ∃ x, Display.shown x = .ok text) :
    (s.showOutcome outcome).1.Orderly := by
  cases outcome with
  | ok text =>
    obtain ⟨x, hx⟩ := h text rfl
    exact .result rfl x hx
  | error fault => exact .failure rfl fault rfl

theorem orderly_equals (hs : s.Orderly) : s.equals.1.Orderly := by
  unfold equals
  split
  · exact hs
  · refine s.orderly_showOutcome fun text h => ?_
    obtain ⟨x, _, hshown⟩ := bind_eq_ok.mp h
    exact ⟨x, hshown⟩

theorem orderly_applyUnary (hs : s.Orderly) (op : Unary) : (s.applyUnary op).1.Orderly := by
  unfold applyUnary
  split
  · exact hs
  · refine s.orderly_showOutcome fun text h => ?_
    obtain ⟨x, _, h⟩ := bind_eq_ok.mp h
    obtain ⟨y, _, hshown⟩ := bind_eq_ok.mp h
    exact ⟨y, hshown⟩

theorem mem_lineChars_of_symbol? {key : Key} (h : key.symbol? = some c) :
    c ∈ lineChars ∧ c ≠ '%' := by
  cases key with
  | digit d =>
    cases h
    revert d
    decide
  | _ => cases h <;> decide

theorem Operation.orderly {f : Keypad → Keypad × Bool} (hf : Operation f)
    (hlimit : 0 < s.limits.length) (hs : s.Orderly) : (f s).1.Orderly := by
  cases hf with
  | append key symbol =>
    obtain ⟨hc, hpercent⟩ := mem_lineChars_of_symbol? symbol
    exact orderly_append hlimit hs hc hpercent
  | togglePercent => exact orderly_togglePercent hs
  | equals => exact orderly_equals hs
  | clear => exact s.orderly_clear
  | delete => exact orderly_delete hs
  | applyUnary op => exact orderly_applyUnary hs op
  | unchanged => exact hs

theorem orderly_press (hlimit : 0 < s.limits.length) (hs : s.Orderly) (code : List Char) :
    (s.press code).1.Orderly :=
  (operation_press code).orderly hlimit hs

theorem limits_press (hlimit : 0 < s.limits.length) (code : List Char) :
    (s.press code).1.limits = s.limits :=
  limits_of_step (step_press hlimit code)

theorem orderly_pressAll (hlimit : 0 < s.limits.length) (hs : s.Orderly)
    (codes : List (List Char)) :
    (s.pressAll codes).Orderly ∧ (s.pressAll codes).limits = s.limits := by
  induction codes generalizing s with
  | nil => exact ⟨hs, rfl⟩
  | cons code codes ih =>
    have hkept := limits_press hlimit code
    obtain ⟨horderly, hlimits⟩ := ih (by rwa [hkept]) (orderly_press hlimit hs code)
    exact ⟨horderly, hlimits.trans hkept⟩

/-! ### Restored keypads -/

/-- The state as it is when its changes have not been counted. -/
def uncounted (s : Keypad) : Keypad := { s with revision := 0 }

theorem uncounted_ite {p : Prop} [Decidable p] (a b : Keypad × Bool) :
    (if p then a else b).1.uncounted = if p then a.1.uncounted else b.1.uncounted :=
  apply_ite (fun a : Keypad × Bool => a.1.uncounted) p a b

theorem uncounted_append (s : Keypad) (c : Char) :
    (s.uncounted.append c).1.uncounted = (s.append c).1.uncounted := by
  have hstart : s.uncounted.startTyping c = (s.startTyping c).uncounted := by
    cases hphase : s.phase <;> simp only [startTyping, uncounted, hphase]
  simp only [append, hstart, uncounted_ite]
  rfl

theorem uncounted_clear (s : Keypad) : s.uncounted.clear.1.uncounted = s.clear.1.uncounted := by
  simp only [clear, uncounted_ite]
  rfl

theorem uncounted_delete (s : Keypad) :
    s.uncounted.delete.1.uncounted = s.delete.1.uncounted := by
  simp only [delete, uncounted_ite, uncounted_clear]
  rfl

theorem uncounted_togglePercent (s : Keypad) :
    s.uncounted.togglePercent.1.uncounted = s.togglePercent.1.uncounted := by
  have hclear := s.uncounted_clear
  by_cases hphase : s.phase = .failure
  · simp only [togglePercent, if_pos hphase, if_pos (show s.uncounted.phase = .failure from hphase)]
    generalize s.uncounted.clear.1 = t at hclear
    generalize s.clear.1 = u at hclear
    cases t
    cases u
    simp only [uncounted, mk.injEq] at hclear
    obtain ⟨rfl, rfl, -, rfl⟩ := hclear
    rfl
  · simp only [togglePercent, if_neg hphase, if_neg (show s.uncounted.phase ≠ .failure from hphase)]
    rfl

theorem uncounted_showOutcome (s : Keypad) (outcome : Except Fault (List Char)) :
    (s.uncounted.showOutcome outcome).1.uncounted = (s.showOutcome outcome).1.uncounted := by
  cases outcome with
  | ok text => rfl
  | error fault => rfl

theorem uncounted_equals (s : Keypad) :
    s.uncounted.equals.1.uncounted = s.equals.1.uncounted := by
  simp only [equals, uncounted_ite, uncounted_showOutcome]
  rfl

theorem uncounted_applyUnary (s : Keypad) (op : Unary) :
    (s.uncounted.applyUnary op).1.uncounted = (s.applyUnary op).1.uncounted := by
  simp only [applyUnary, uncounted_ite, uncounted_showOutcome]
  rfl

/-- What a key does does not depend on how many changes there have been. -/
theorem Operation.uncounted {f : Keypad → Keypad × Bool} (hf : Operation f) (s : Keypad) :
    (f s.uncounted).1.uncounted = (f s).1.uncounted := by
  cases hf with
  | append => exact s.uncounted_append _
  | togglePercent => exact s.uncounted_togglePercent
  | equals => exact s.uncounted_equals
  | clear => exact s.uncounted_clear
  | delete => exact s.uncounted_delete
  | applyUnary op => exact s.uncounted_applyUnary op
  | unchanged => rfl

theorem uncounted_press (s : Keypad) (code : List Char) :
    (s.uncounted.press code).1.uncounted = (s.press code).1.uncounted :=
  (operation_press code).uncounted s

theorem uncounted_pressAll (s : Keypad) (codes : List (List Char)) :
    (s.uncounted.pressAll codes).uncounted = (s.pressAll codes).uncounted := by
  induction codes generalizing s with
  | nil => rfl
  | cons code codes ih =>
    calc ((s.uncounted.press code).1.pressAll codes).uncounted
        = ((s.uncounted.press code).1.uncounted.pressAll codes).uncounted := (ih _).symm
      _ = ((s.press code).1.uncounted.pressAll codes).uncounted := by rw [uncounted_press]
      _ = ((s.press code).1.pressAll codes).uncounted := ih _

theorem display_uncounted (s : Keypad) : s.uncounted.display = s.display := rfl

/-- A keypad on which an expression is typed is restored from what it shows. -/
theorem ofDisplay_of_typing (hs : s.Orderly) (hphase : s.phase = .typing) :
    ofDisplay s.limits s.display = s.uncounted := by
  have hfailure : s.phase ≠ .failure := by simp [hphase]
  rw [ofDisplay_of_line hs.legible hfailure, display_of_line (hs.wellFormed hfailure).nonempty,
    uncounted, hphase]

/-- What is told by a keypad for lines of up to `limit` characters. -/
structure Coherent (limits : Limits) (s : Keypad) : Prop where
  /-- An error is shown as one and gives way to the next character. -/
  failure : s.phase = .failure → IsErrorText s.display ∧ ∀ c, (s.startTyping c).line = []
  line : s.phase ≠ .failure → WellFormed s.line
  result : s.phase = .result →
    Display.IsNumberText Display.standardPlaces.toNat s.line ∧ ∃ x, Display.shown x = .ok s.line
  /-- While an expression is typed, the keypad is what it shows. -/
  restored : s.phase = .typing → ofDisplay limits s.display = { s with revision := 0 }
  continued : s.phase = .typing → ∀ codes : List (List Char),
    ((ofDisplay limits s.display).pressAll codes).display = (s.pressAll codes).display

theorem Orderly.coherent (hs : s.Orderly) : s.Coherent s.limits where
  failure hphase := by
    refine ⟨(isErrorText_display_iff hs.legible).mpr hphase, fun c => ?_⟩
    simp only [startTyping, hphase]
  line := hs.wellFormed
  result hphase := by
    cases hs with
    | typing phase => rw [hphase] at phase; cases phase
    | result _ x shown => exact ⟨Display.isNumberText_of_shown shown, x, shown⟩
    | failure phase => rw [hphase] at phase; cases phase
  restored hphase := ofDisplay_of_typing hs hphase
  continued hphase codes := by
    rw [ofDisplay_of_typing hs hphase, ← display_uncounted (s.uncounted.pressAll codes),
      uncounted_pressAll, display_uncounted]

/-- Whatever keys are pressed on a new keypad, it stays coherent. -/
theorem coherent_pressAll_fresh {limits : Limits} (hlimit : 0 < limits.length)
    (codes : List (List Char)) : ((fresh limits).pressAll codes).Coherent limits := by
  obtain ⟨hs, hkept⟩ := orderly_pressAll hlimit (orderly_fresh limits) codes
  have hcoherent := hs.coherent
  rw [hkept] at hcoherent
  exact hcoherent

/-- Going on with the result of `7/8`. -/
theorem coherent_pressAll_fresh_of_continued :
    ofDisplay (.ofLength 20) "0.875+.".toList =
      { (fresh (.ofLength 20)).pressAll ("7/8=+.".toList.map List.singleton) with
        revision := 0 } := by
  have hcoherent : Coherent (.ofLength 20)
      ((fresh (.ofLength 20)).pressAll ("7/8=+.".toList.map List.singleton)) :=
    coherent_pressAll_fresh (by decide) _
  have hrestored := hcoherent.restored (by decide +kernel)
  have hdisplay : ((fresh (.ofLength 20)).pressAll ("7/8=+.".toList.map List.singleton)).display =
      "0.875+.".toList := by
    decide +kernel
  rwa [hdisplay] at hrestored

end PocketCalculator.Keypad
