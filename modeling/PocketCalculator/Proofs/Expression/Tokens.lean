import PocketCalculator.Expression.Evaluate
import PocketCalculator.Proofs.Expression.Reading

/-!
# Tokens of a text

What the scanner takes from a text holds of all its tokens if it holds of a first one
(`forall_mem_scan`).
-/

namespace PocketCalculator

theorem forall_mem_scan {P : Token → Prop} {size : Nat}
    (hP : ∀ c rest t tail, rest.length < size → takeToken c rest = .ok (t, tail) → P t)
    {cs : List Char} {ts : List Token} (hsize : cs.length ≤ size) (h : scan cs = .ok ts) :
    ∀ t ∈ ts, P t := by
  fun_induction scan cs generalizing ts with
  | case1 =>
    cases h
    simp
  | case2 c rest hblank ih => exact ih (Nat.le_of_succ_le hsize) h
  | case3 c rest hblank fault hfault => cases h
  | case4 c rest hblank t tail htoken hle ih =>
    obtain ⟨us, hus, rfl⟩ := map_eq_ok.mp h
    intro u hu
    rcases List.mem_cons.mp hu with rfl | hu
    · exact hP c rest u tail hsize htoken
    · exact ih (Nat.le_trans hle (Nat.le_of_succ_le hsize)) hus u hu

theorem scan_of_tokenize {limit : Nat} {text : List Char} {ts : List Token}
    (h : tokenize limit text = .ok ts) :
    (normalizeText text).length ≤ limit ∧ scan (normalizeText text) = .ok ts := by
  unfold tokenize at h
  simp only at h
  split at h
  · cases h
  · split at h
    · cases h
    · next hle => exact ⟨Nat.le_of_not_lt hle, h⟩

theorem forall_mem_resolvePercents {P : Token → Prop} (hmodulus : P .modulus) {ts : List Token}
    (hts : ∀ t ∈ ts, P t) : ∀ t ∈ resolvePercents ts, P t := by
  induction ts with
  | nil => simp [resolvePercents]
  | cons t ts ih =>
    intro u hu
    rw [resolvePercents, List.mem_cons] at hu
    rcases hu with rfl | hu
    · split
      · exact hmodulus
      · exact hts t (List.mem_cons_self ..)
    · exact ih (fun u hu => hts u (List.mem_cons_of_mem t hu)) u hu

theorem isSpelled_of_takeToken {c : Char} {rest tail : List Char} {t : Token}
    (h : takeToken c rest = .ok (t, tail)) : t.IsSpelled := by
  unfold takeToken at h
  split at h
  · cases h
    trivial
  split at h
  · cases h
    rfl
  split at h
  · cases h
    rfl
  split at h
  · cases h
    rfl
  split at h
  · cases h
    trivial
  split at h
  · unfold takeNumber at h
    simp only at h
    split at h
    · cases h
    · cases h
      trivial
  · cases h

theorem isSpelled_of_tokenize {limit : Nat} {text : List Char} {ts : List Token}
    (h : tokenize limit text = .ok ts) : ∀ t ∈ resolvePercents ts, t.IsSpelled :=
  forall_mem_resolvePercents trivial
    (forall_mem_scan (fun _ _ _ _ _ => isSpelled_of_takeToken) (Nat.le_refl _)
      (scan_of_tokenize h).2)

/-! ### Parentheses -/

theorem openAfter_cons {depth : Nat} {t : Token} {ts : List Token} (hopening : t.kind ≠ .opening)
    (hclosing : t.kind ≠ .closing) : openAfter depth (t :: ts) = openAfter depth ts := by
  cases h : t.kind with
  | opening => exact absurd h hopening
  | closing => exact absurd h hclosing
  | number => simp only [openAfter, h]
  | operator => simp only [openAfter, h]
  | percent => simp only [openAfter, h]

theorem openAfter_percents (depth k : Nat) :
    openAfter depth (List.replicate k .percent) = some depth := by
  induction k with
  | zero => rfl
  | succ k ih =>
    rw [List.replicate_succ, openAfter_cons (fun h => by cases h) (fun h => by cases h)]
    exact ih

mutual

/-- The tokens of a tree close every parenthesis that they open. -/
theorem Expr.openAfter_tokens (depth : Nat) :
    ∀ e : Expr, openAfter depth e.tokens = some depth
  | .single t => t.openAfter_tokens depth
  | .chain e minus t => by
    rw [Expr.tokens, openAfter_append, e.openAfter_tokens depth, Option.bind_some,
      openAfter_cons (fun h => by cases h) (fun h => by cases h)]
    exact t.openAfter_tokens depth

theorem Term.openAfter_tokens (depth : Nat) :
    ∀ t : Term, openAfter depth t.tokens = some depth
  | .single f => f.openAfter_tokens depth
  | .chain t op f => by
    have hkind : op.token.kind = .operator := by cases op <;> rfl
    rw [Term.tokens, openAfter_append, t.openAfter_tokens depth, Option.bind_some,
      openAfter_cons (by simp [hkind]) (by simp [hkind])]
    exact f.openAfter_tokens depth

theorem Factor.openAfter_tokens (depth : Nat) :
    ∀ f : Factor, openAfter depth f.tokens = some depth
  | .signed minus f => by
    rw [Factor.tokens, openAfter_cons (fun h => by cases h) (fun h => by cases h)]
    exact f.openAfter_tokens depth
  | .plain x percents => by
    rw [Factor.tokens, openAfter_append, x.openAfter_tokens depth, Option.bind_some]
    exact openAfter_percents depth percents

theorem Primary.openAfter_tokens (depth : Nat) :
    ∀ x : Primary, openAfter depth x.tokens = some depth
  | .number text => rfl
  | .group e => by
    have hopening : openAfter depth (.opening :: (e.tokens ++ [.closing])) =
        openAfter (depth + 1) (e.tokens ++ [.closing]) := rfl
    rw [Primary.tokens, hopening, openAfter_append, e.openAfter_tokens (depth + 1),
      Option.bind_some]
    rfl

end

theorem openAfter_resolvePercents (depth : Nat) (ts : List Token) :
    openAfter depth (resolvePercents ts) = openAfter depth ts := by
  induction ts generalizing depth with
  | nil => rfl
  | cons t ts ih =>
    rw [resolvePercents]
    split
    · next h =>
      have hkind : t.kind = .percent := by simpa using (Bool.and_eq_true_iff.mp h).1
      rw [openAfter_cons (fun h => by cases h) (fun h => by cases h),
        openAfter_cons (by simp [hkind]) (by simp [hkind]), ih]
    · cases hkind : t.kind with
      | opening => simp only [openAfter, hkind, ih]
      | closing => cases depth <;> simp only [openAfter, hkind, ih]
      | number => simp only [openAfter, hkind, ih]
      | operator => simp only [openAfter, hkind, ih]
      | percent => simp only [openAfter, hkind, ih]

theorem checkParentheses_of_tokens {e : Expr} {ts : List Token}
    (h : e.tokens = resolvePercents ts) : checkParentheses ts = .ok () := by
  have hopen : openAfter 0 ts = some 0 := by
    rw [← openAfter_resolvePercents, ← h, e.openAfter_tokens]
  refine if_pos ?_
  rw [balanced, hopen]
  rfl

end PocketCalculator
