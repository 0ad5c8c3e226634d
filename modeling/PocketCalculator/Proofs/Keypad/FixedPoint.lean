import PocketCalculator.Proofs.Display.Reread
import PocketCalculator.Proofs.Keypad.Typing

/-!
# Results stay as they are

What a keypad shows as a result is a value that the calculator has returned
(`showsResult_pressAll`), and the text of such a value is an expression for the number that it
denotes. So the equals key finds this number, and shows the same text again (`result_is_fixed`).
-/

namespace PocketCalculator

theorem contains_of_power {n : ℕ} {x y : Decimal} (h : power n (.finite x) = .ok y) :
    calculator.Contains y := by
  simp only [power] at h
  split at h
  · exact contains_of_inRange h
  · cases h

theorem contains_of_apply {op : Unary} {x y : Decimal} (h : op.apply (.finite x) = .ok y) :
    calculator.Contains y := by
  cases op with
  | square => exact contains_of_power (n := 2) h
  | cube => exact contains_of_power (n := 3) h
  | factorial =>
    replace h : PocketCalculator.factorial (.finite x) = .ok y := h
    simp only [PocketCalculator.factorial] at h
    split at h
    · cases h
    split at h
    · cases h
    split at h
    · cases h
    · exact contains_of_inRange h

namespace Keypad

variable {s : Keypad}

/-- What is shown as a result is the text of one. -/
def ShowsResult (s : Keypad) : Prop :=
  s.phase = .result →
    ∃ x : Decimal, x.IsResult ∧ calculator.Contains x ∧ Display.shown x = .ok s.line

theorem showsResult_of_typing (h : s.phase = .typing) : s.ShowsResult := by
  intro hresult
  rw [h] at hresult
  cases hresult

theorem showsResult_showOutcome (s : Keypad) {outcome : Except Fault (List Char)}
    (h : ∀ text, outcome = .ok text →
      ∃ x : Decimal, x.IsResult ∧ calculator.Contains x ∧ Display.shown x = .ok text) :
    (s.showOutcome outcome).1.ShowsResult := by
  cases outcome with
  | ok text => exact fun _ => h text rfl
  | error fault => exact fun hresult => by cases hresult

theorem showsResult_equals (hs : s.ShowsResult) : s.equals.1.ShowsResult := by
  unfold equals
  split
  · exact hs
  · refine s.showsResult_showOutcome fun text h => ?_
    obtain ⟨x, hx, hshown⟩ := bind_eq_ok.mp h
    exact ⟨x, (ensures_evaluate _ _).of_ok hx, contains_of_evaluate hx, hshown⟩

theorem showsResult_applyUnary (hs : s.ShowsResult) (op : Unary) :
    (s.applyUnary op).1.ShowsResult := by
  unfold applyUnary
  split
  · exact hs
  · refine s.showsResult_showOutcome fun text h => ?_
    obtain ⟨x, _, h⟩ := bind_eq_ok.mp h
    obtain ⟨y, hy, hshown⟩ := bind_eq_ok.mp h
    exact ⟨y, (op.ensures_apply x).of_ok hy, contains_of_apply hy, hshown⟩

theorem showsResult_delete (hs : s.ShowsResult) : s.delete.1.ShowsResult := by
  unfold delete
  split
  · exact showsResult_of_typing s.phase_clear
  · split
    · split
      · exact hs
      · exact showsResult_of_typing rfl
    · exact showsResult_of_typing rfl

theorem Operation.showsResult {f : Keypad → Keypad × Bool} (hf : Operation f)
    (hs : s.ShowsResult) : (f s).1.ShowsResult := by
  cases hf with
  | append => exact showsResult_of_typing (s.phase_append _)
  | togglePercent => exact showsResult_of_typing rfl
  | equals => exact showsResult_equals hs
  | clear => exact showsResult_of_typing s.phase_clear
  | delete => exact showsResult_delete hs
  | applyUnary op => exact showsResult_applyUnary hs op
  | unchanged => exact hs

theorem showsResult_pressAll (hs : s.ShowsResult) (codes : List (List Char)) :
    (s.pressAll codes).ShowsResult := by
  induction codes generalizing s with
  | nil => exact hs
  | cons code codes ih => exact ih ((operation_press code).showsResult hs)

theorem equals_of_shown {v : Decimal} (hphase : s.phase = .result) (hne : s.line ≠ [])
    (hv : evaluate s.limits s.line = .ok v) (hshown : Display.shown v = .ok s.line) :
    s.equals = s.changed := by
  have hready : ¬ (s.line.isEmpty || decide (s.phase = .failure)) = true := by
    simp [hphase, hne]
  unfold equals
  rw [if_neg hready, hv, ok_bind, hshown]
  show changed { s with line := s.line, phase := .result } = _
  rw [← hphase]

/-- The text of a result has the number that it denotes as its value, whatever limit of 310 or more
characters there is, and the equals key changes nothing but the count. -/
theorem result_is_fixed {limits : Limits} (hlimit : 310 ≤ limits.length) {codes : List (List Char)}
    (hresult : ((fresh limits).pressAll codes).phase = .result) :
    ∃ v, (∀ limits' : Limits, 310 ≤ limits'.length →
        evaluate limits' ((fresh limits).pressAll codes).display = .ok v) ∧
      Denotes ((fresh limits).pressAll codes).display v.toRat ∧
      (fresh limits).pressAll (codes ++ [['=']]) = { (fresh limits).pressAll codes with
        revision := ((fresh limits).pressAll codes).revision + 1 } := by
  have hpos : 0 < (fresh limits).limits.length := Nat.lt_of_lt_of_le (by decide) hlimit
  obtain ⟨horderly, hkept⟩ := orderly_pressAll hpos (orderly_fresh limits) codes
  have hshows := showsResult_pressAll (showsResult_of_typing (s := fresh limits) rfl) codes
  rw [pressAll_append]
  generalize (fresh limits).pressAll codes = s at hresult horderly hkept hshows
  obtain ⟨x, hx, hcontains, hshown⟩ := hshows hresult
  have hne : s.line ≠ [] := (horderly.wellFormed (by simp [hresult])).nonempty
  obtain ⟨v, hevaluate, hdenotes, hagain⟩ := exists_evaluate_of_shown hx hcontains hshown
  rw [display_of_line hne]
  refine ⟨v, hevaluate, hdenotes, ?_⟩
  have hequals := equals_of_shown hresult hne (hevaluate s.limits (hkept ▸ hlimit)) hagain
  exact congrArg Prod.fst hequals

/-- The quotient is rounded on the display, and the shown number is found again exactly. -/
theorem result_is_fixed_of_quotient :
    ((fresh (.ofLength 310)).pressAll ("-2/3=".toList.map List.singleton)).display =
        "-0.66666667".toList ∧
      ((fresh (.ofLength 310)).pressAll ("-2/3=".toList.map List.singleton ++ [['=']])).display =
        "-0.66666667".toList ∧
      ∃ v, evaluate .standard "-0.66666667".toList = .ok v ∧
        Denotes "-0.66666667".toList v.toRat := by
  have hdisplay : ((fresh (.ofLength 310)).pressAll ("-2/3=".toList.map List.singleton)).display =
      "-0.66666667".toList := by decide +kernel
  obtain ⟨v, hevaluate, hdenotes, hequals⟩ :=
    @result_is_fixed (.ofLength 310) (Nat.le_refl 310) ("-2/3=".toList.map List.singleton)
      (by decide +kernel)
  rw [hdisplay] at hevaluate hdenotes
  refine ⟨hdisplay, ?_, v, hevaluate .standard (by decide), hdenotes⟩
  rw [hequals]
  exact hdisplay

end Keypad

end PocketCalculator
