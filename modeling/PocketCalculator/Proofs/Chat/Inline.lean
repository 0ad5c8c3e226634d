import PocketCalculator.Chat.Bot
import PocketCalculator.Proofs.Display.Results
import PocketCalculator.Proofs.Expression.Scan

/-!
# Answers to inline queries

Every inline query is answered once: a blank one with a hint, one that has no value with its fault,
and any other one with three articles, whose texts denote the value rounded half away from zero
(`inline_query_answered`).
-/

namespace PocketCalculator

variable {limits : Limits}

namespace Chat

theorem inlineAnswer_of_ok {v : Decimal} {query result money : List Char}
    (hne : trim query ≠ []) (hv : evaluate limits (trim query) = .ok v)
    (hresult : Display.number Display.standardPlaces (.finite v) = .ok result)
    (hmoney : Display.amount Display.moneyPlaces Display.standardSeparator (.finite v) =
      .ok money) : inlineAnswer limits query = resultArticles (trim query) result money := by
  have hempty : (trim query).isEmpty = false := List.isEmpty_eq_false_iff.mpr hne
  unfold inlineAnswer
  simp only [hempty, Bool.false_eq_true, if_false, hv, ok_bind, Display.shown, hresult,
    Display.shownMoney, hmoney, Except.mapError]

theorem inlineAnswer_of_error {fault : Fault} {query : List Char} (hne : trim query ≠ [])
    (hfault : evaluate limits (trim query) = .error fault) :
    inlineAnswer limits query = [faultArticle (trim query) fault] := by
  have hempty : (trim query).isEmpty = false := List.isEmpty_eq_false_iff.mpr hne
  unfold inlineAnswer
  simp only [hempty, Bool.false_eq_true, if_false, hfault, error_bind]

/-- A new inline query is answered once, and the answer is a hint for a blank query, an article with
the fault for one that has none, and else three articles for its value: the text of the second one
is that value rounded half away from zero to eight places, and the third one shows an amount that,
without its separators, is the value rounded to two. The arithmetic signals nothing but an overflow,
which is a fault, unless the query has hundreds of quadrillions of characters. -/
theorem inline_query_answered (limits : Limits) (query : List Char) :
    ((∀ c ∈ query, isBlank c = true) → inlineAnswer limits query = [inlineHint]) ∧
    ((∃ c ∈ query, isBlank c = false) →
      Ensures (evaluate limits (trim query))
        (fun v => ∃ (equation number amount : Article) (money : List Char),
          inlineAnswer limits query = [equation, number, amount] ∧
          equation.text = Markup.code (trim query) ++ " = ".toList ++
            ("<b>".toList ++ number.text ++ "</b>".toList) ∧
          amount.text = Markup.code (trim query) ++ " = ".toList ++
            ("<b>".toList ++ money ++ "</b>".toList) ∧
          (equation.markup = true ∧ number.markup = false ∧ amount.markup = true) ∧
          Display.number Display.standardPlaces (.finite v) = .ok number.text ∧
          Display.amount Display.moneyPlaces Display.standardSeparator (.finite v) = .ok money ∧
          Display.IsNumberText 8 number.text ∧ Denotes number.text (roundedTo 8 v.toRat) ∧
          Denotes (money.filter (· ≠ '’')) (roundedTo 2 v.toRat))
        (fun fault => ∃ article : Article,
          inlineAnswer limits query = [article] ∧
          article.description = fault.message.toList ∧
          article.text = "❌ ".toList ++ Markup.escape fault.text.toList ++ ": ".toList ++
            Markup.code (trim query))) ∧
    (∀ ts s, query.length ≤ 4 * 10 ^ 17 → tokenize limits.length (trim query) = .ok ts →
      compute limits.nesting (resolvePercents ts) = .error (.signal s) → s = .overflow) ∧
    ∀ (b : Bot) (id : List Char) (refusal : Option (List Char)), b.limits = limits →
      (b.inlines.receive (some (.inline id))).1 = true →
      (b.handle (.inline id query) refusal).1 = [.answerInline id (inlineAnswer limits query)] := by
  refine ⟨?_, ?_, ?_, ?_⟩
  · intro hblank
    unfold inlineAnswer
    rw [trim_eq_nil_iff.mpr hblank]
    rfl
  · rintro ⟨c, hc, hblank⟩
    have hne : trim query ≠ [] := by
      intro hnil
      rw [trim_eq_nil_iff.mp hnil c hc] at hblank
      cases hblank
    refine Ensures.intro (fun v hv => ?_) fun fault hfault =>
      ⟨_, inlineAnswer_of_error hne hfault, rfl, rfl⟩
    obtain ⟨result, hresult, htext, hdenotes⟩ := exists_number_of_evaluate hv
    obtain ⟨money, hmoney, hamount⟩ := exists_amount_of_evaluate hv
    exact ⟨_, _, _, money, inlineAnswer_of_ok hne hv hresult hmoney, rfl, rfl, ⟨rfl, rfl, rfl⟩,
      hresult, hmoney, htext, hdenotes, hamount⟩
  · intro ts s hlength htokens hs
    have hexpected := (ensures_compute _ (isNumeral_of_tokenize htokens)).of_error hs
    have htrim := length_trim_le query
    refine hexpected ?_
    simp only [Context.maxPrecision]
    omega
  · rintro b id refusal rfl hnew
    simp only [Bot.handle, hnew, if_true]
    rfl

/-- The amount is rounded away from zero, and not to the even digit. -/
theorem inline_query_answered_of_half :
    ∃ equation number amount : Article,
      inlineAnswer .standard " -1234.565".toList = [equation, number, amount] ∧
      equation.text = "<code>-1234.565</code> = <b>-1234.565</b>".toList ∧
      number.text = "-1234.565".toList ∧
      amount.text = "<code>-1234.565</code> = <b>-1’234.57</b>".toList ∧
      Denotes "-1234.57".toList (roundedTo 2 (Decimal.toRat ⟨true, 1234565, -3⟩)) := by
  have htrim : trim " -1234.565".toList = "-1234.565".toList := by decide
  have hvalue : evaluate .standard "-1234.565".toList = .ok ⟨true, 1234565, -3⟩ := by decide +kernel
  have hresult : Display.number Display.standardPlaces (.finite ⟨true, 1234565, -3⟩) =
      .ok "-1234.565".toList := by decide +kernel
  have hmoney : Display.amount Display.moneyPlaces Display.standardSeparator
      (.finite ⟨true, 1234565, -3⟩) = .ok "-1’234.57".toList := by decide +kernel
  have hanswer :=
    (inline_query_answered .standard " -1234.565".toList).2.1 ⟨'-', by decide, by decide⟩
  rw [htrim] at hanswer
  obtain ⟨equation, number, amount, money, harticles, hequation, hamount, _, hnumber, hshown, _, _,
    hdenotes⟩ := hanswer.of_ok hvalue
  have htext : number.text = "-1234.565".toList := Except.ok.inj (hnumber.symm.trans hresult)
  rw [hmoney] at hshown
  cases hshown
  rw [htext] at hequation
  exact ⟨equation, number, amount, harticles, hequation.trans (by decide), htext,
    hamount.trans (by decide), hdenotes⟩

end Chat

end PocketCalculator
