import PocketCalculator.Proofs.Chat.Inline
import PocketCalculator.Proofs.Display.Amounts

/-!
# The sign of amounts of money

The text of an amount has the sign of the value as it was before rounding. So a negative value that
is rounded to zero is shown as a negative zero, in the article on money too (`amount_sign`).
-/

namespace PocketCalculator

/-- Rounding keeps the sign, unless it leaves zero. -/
theorem Decimal.roundedTo_toRat_neg_iff (x : Decimal) (places : ℕ) :
    roundedTo places x.toRat < 0 ↔ x.negative = true ∧ roundedTo places x.toRat ≠ 0 := by
  rw [← toRat_toExponent_away, toRat_neg_iff, negative_toExponent, isZero_eq_false]

theorem Decimal.IsResult.toRat_neg_iff {x : Decimal} (hx : x.IsResult) :
    x.toRat < 0 ↔ x.negative = true := by
  rw [Decimal.toRat_neg_iff]
  refine ⟨And.left, fun hminus => ⟨hminus, ?_⟩⟩
  rw [← Bool.not_eq_true]
  intro hzero
  rw [hx.not_negative_zero hzero] at hminus
  cases hminus

namespace Chat

variable {limits : Limits} {text : List Char} {v : Decimal}

/-- A value of the evaluator is shown as an amount with a minus exactly if it is negative. That is
the sign of the rounded value, too, unless a negative value is rounded to zero. The last article for
an inline query shows this amount. -/
theorem amount_sign (h : evaluate limits text = .ok v) :
    (∀ (places : ℕ) (money : List Char),
      Display.amount places Display.standardSeparator (.finite v) = .ok money →
        (money.head? = some '-' ↔ v.toRat < 0) ∧
        ((money.head? = some '-' ↔ roundedTo places v.toRat < 0) ↔
          ¬ (v.toRat < 0 ∧ roundedTo places v.toRat = 0))) ∧
    (∀ places : ℕ, places ≤ Display.mostPlaces → ∃ money,
      Display.amount places Display.standardSeparator (.finite v) = .ok money) ∧
    ∀ query, trim query = text → ∃ (equation number amount : Article) (money : List Char),
      inlineAnswer limits query = [equation, number, amount] ∧
        Display.amount Display.moneyPlaces Display.standardSeparator (.finite v) = .ok money ∧
        amount.title = "Money (2 places): ".toList ++ money ∧
        amount.description = text ++ " = ".toList ++ money ∧
        amount.text = Markup.code text ++ " = ".toList ++
          ("<b>".toList ++ money ++ "</b>".toList) := by
  have hresult : v.IsResult := (ensures_evaluate limits text).of_ok h
  refine ⟨fun places money hmoney => ?_, fun places hplaces => ?_, ?_⟩
  · have hsign := (Display.head?_amount hmoney).trans hresult.toRat_neg_iff.symm
    have hrounded := v.roundedTo_toRat_neg_iff places
    rw [← hresult.toRat_neg_iff] at hrounded
    refine ⟨hsign, ?_⟩
    rw [hsign, hrounded]
    tauto
  · have hseparator : Display.standardSeparator.filter (· ≠ '’') = [] := by decide
    obtain ⟨money, hmoney, _⟩ := Display.exists_amount keeps_numeral_chars hseparator
      (hresult.displayable (contains_of_evaluate h)) hplaces
      fun _ => hresult.representable_roundedTo hplaces
    exact ⟨money, hmoney⟩
  · rintro query rfl
    have hne : trim query ≠ [] := by
      intro hnil
      rw [hnil] at h
      cases h
    obtain ⟨result, hnumber, _⟩ := exists_number_of_evaluate h
    obtain ⟨money, hmoney, _⟩ := exists_amount_of_evaluate h
    exact ⟨_, _, _, money, inlineAnswer_of_ok hne h hnumber hmoney, hmoney, rfl, rfl, rfl⟩

/-- Half a unit is rounded to a whole one, so this negative value is not shown as zero. -/
theorem amount_sign_of_half :
    evaluate .standard "-0.005".toList = .ok ⟨true, 5, -3⟩ ∧
      Display.amount 2 Display.standardSeparator (.finite ⟨true, 5, -3⟩) = .ok "-0.01".toList ∧
      Decimal.toRat ⟨true, 5, -3⟩ < 0 := by
  have hvalue : evaluate .standard "-0.005".toList = .ok ⟨true, 5, -3⟩ := by decide +kernel
  have hmoney : Display.amount 2 Display.standardSeparator (.finite ⟨true, 5, -3⟩) =
      .ok "-0.01".toList := by decide +kernel
  exact ⟨hvalue, hmoney, (((amount_sign hvalue).1 2 _ hmoney).1).mp (by decide)⟩

/-- A tenth of a unit below zero is shown as a negative zero. -/
theorem inline_negative_zero :
    evaluate .standard "-0.001".toList = .ok ⟨true, 1, -3⟩ ∧
      (inlineAnswer .standard "-0.001".toList).getLast? =
        some ⟨"Money (2 places): -0.00".toList, "-0.001 = -0.00".toList,
          "<code>-0.001</code> = <b>-0.00</b>".toList, true⟩ ∧
      roundedTo 2 (Decimal.toRat ⟨true, 1, -3⟩) = 0 := by
  refine ⟨by decide +kernel, by decide +kernel, ?_⟩
  rw [← Decimal.toRat_toExponent_away, Decimal.toRat_eq_zero]
  decide +kernel

end Chat

end PocketCalculator
