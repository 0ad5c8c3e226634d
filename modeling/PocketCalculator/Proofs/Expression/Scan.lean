import PocketCalculator.Proofs.Expression.Literal

/-!
# Scanning parts of a text

A blank or a parenthesis ends the token before it. So a text that is cut there has the tokens of its
two parts (`scan_append`), and the blanks around a text do not count (`tokenize_eq`).
-/

namespace PocketCalculator

/-! ### Blanks -/

section Blanks

variable {c : Char}

theorem isNumberChar_of_isBlank (h : isBlank c = true) : isNumberChar c = false := by
  rw [← Bool.not_eq_true]
  intro hnumber
  rw [isBlank_of_isNumberChar hnumber] at h
  cases h

theorem isBlank_of_apart {low high : Nat}
    (hapart : ∀ range ∈ blankRanges, range.2 < low ∨ high < range.1) (hlow : low ≤ c.toNat)
    (hhigh : c.toNat ≤ high) : isBlank c = false := by
  rw [← Bool.not_eq_true]
  intro h
  obtain ⟨range, hrange, hbetween⟩ := List.any_eq_true.mp h
  simp only [Bool.and_eq_true, decide_eq_true_eq] at hbetween
  have := hapart range hrange
  omega

theorem toLower_of_isBlank (h : isBlank c = true) : c.toLower = c := by
  refine dif_neg fun hle => ?_
  have hlow : 0x41 ≤ c.toNat := UInt32.le_iff_toNat_le.mp hle.1
  have hhigh : c.toNat ≤ 0x5A := UInt32.le_iff_toNat_le.mp hle.2
  rw [isBlank_of_apart (by decide) hlow hhigh] at h
  cases h

theorem ne_of_isBlank {d : Char} (hc : isBlank c = true) (hd : isBlank d = false) : c ≠ d := by
  rintro rfl
  rw [hc] at hd
  cases hd

/-- What is left of a text without the blanks around it. -/
theorem exists_trim (cs : List Char) : ∃ before after, (∀ c ∈ before, isBlank c = true) ∧
    (∀ c ∈ after, isBlank c = true) ∧ cs = before ++ (trim cs ++ after) := by
  refine ⟨cs.takeWhile isBlank, ((trimStart cs).reverse.takeWhile isBlank).reverse,
    fun c hc => List.mem_takeWhile_imp hc,
    fun c hc => List.mem_takeWhile_imp (List.mem_reverse.mp hc), ?_⟩
  have hend : trimStart cs = trim cs ++ ((trimStart cs).reverse.takeWhile isBlank).reverse := by
    unfold trim trimEnd
    rw [← List.reverse_append, List.takeWhile_append_dropWhile, List.reverse_reverse]
  rw [← hend]
  exact (List.takeWhile_append_dropWhile ..).symm

theorem trim_eq_nil_iff {cs : List Char} : trim cs = [] ↔ ∀ c ∈ cs, isBlank c = true := by
  constructor
  · intro h
    obtain ⟨before, after, hbefore, hafter, hcs⟩ := exists_trim cs
    rw [h, List.nil_append] at hcs
    rw [hcs]
    intro c hc
    exact (List.mem_append.mp hc).elim (hbefore c) (hafter c)
  · intro h
    have hstart : trimStart cs = [] := List.dropWhile_eq_nil_iff.mpr h
    unfold trim
    rw [hstart]
    rfl

theorem trim_append_blanks {before after : List Char} (hbefore : ∀ c ∈ before, isBlank c = true)
    (hafter : ∀ c ∈ after, isBlank c = true) (cs : List Char) :
    trim (before ++ (cs ++ after)) = trim cs := by
  have hend : ∀ ds : List Char, trimEnd (ds ++ after) = trimEnd ds := by
    intro ds
    unfold trimEnd
    rw [List.reverse_append,
      List.dropWhile_append_of_pos fun c hc => hafter c (List.mem_reverse.mp hc)]
  unfold trim trimStart
  rw [List.dropWhile_append_of_pos hbefore, List.dropWhile_append]
  split
  · next h =>
    rw [List.isEmpty_iff.mp h, List.dropWhile_eq_nil_iff.mpr hafter]
  · exact hend _

theorem trim_trim (cs : List Char) : trim (trim cs) = trim cs := by
  obtain ⟨before, after, hbefore, hafter, hcs⟩ := exists_trim cs
  have h := trim_append_blanks hbefore hafter (trim cs)
  rw [← hcs] at h
  exact h.symm

end Blanks

theorem plainSign_cases (c : Char) :
    plainSign c = c ∨ (isBlank c = false ∧ isBlank (plainSign c) = false) := by
  unfold plainSign
  split
  · exact .inr (by decide)
  · exact .inr (by decide)
  · exact .inr (by decide)
  · exact .inr (by decide)
  · exact .inl rfl

theorem isBlank_plainSign (c : Char) : isBlank (plainSign c) = isBlank c := by
  rcases plainSign_cases c with h | ⟨h, hplain⟩
  · rw [h]
  · rw [h, hplain]

theorem isBlank_of_mem_map {cs : List Char} (h : ∀ c ∈ cs, isBlank c = true) :
    ∀ c ∈ cs.map plainSign, isBlank c = true := by
  intro c hc
  obtain ⟨d, hd, rfl⟩ := List.mem_map.mp hc
  rw [isBlank_plainSign]
  exact h d hd

/-! ### Where a token ends -/

/-- No number goes on with this character, nor does the word `mod`. -/
def endsToken (d : Char) : Bool := !isNumberChar d && d.toLower ≠ 'o' && d.toLower ≠ 'd'

theorem endsToken_of_isBlank {d : Char} (h : isBlank d = true) : endsToken d = true := by
  have hnumber := isNumberChar_of_isBlank h
  have ho : d ≠ 'o' := ne_of_isBlank h (by decide)
  have hd : d ≠ 'd' := ne_of_isBlank h (by decide)
  simp [endsToken, hnumber, toLower_of_isBlank h, ho, hd]

section Ends

variable {d : Char} (hd : endsToken d = true)
include hd

theorem startsWithMod_append (c : Char) (rest s : List Char) :
    startsWithMod (c :: (rest ++ d :: s)) = startsWithMod (c :: rest) := by
  simp only [endsToken, Bool.and_eq_true, decide_eq_true_eq] at hd
  unfold startsWithMod
  match rest with
  | [] => simp [hd.1.2]
  | [r] => simp [hd.2]
  | r :: r' :: rest => rfl

theorem takeToken_append (c : Char) (rest s : List Char) :
    takeToken c (rest ++ d :: s) =
      (fun p => (p.1, p.2 ++ d :: s)) <$> takeToken c rest := by
  have hnumber : isNumberChar d = false := by
    simp only [endsToken, Bool.and_eq_true, Bool.not_eq_true'] at hd
    exact hd.1.1
  have hrun : (c :: (rest ++ d :: s)).takeWhile isNumberChar =
      (c :: rest).takeWhile isNumberChar := by
    rw [← List.cons_append, List.takeWhile_append]
    split
    · next h =>
      rw [(List.takeWhile_prefix _).eq_of_length h, List.takeWhile_cons,
        if_neg (by simp [hnumber]), List.append_nil]
    · rfl
  have hrest : (c :: (rest ++ d :: s)).dropWhile isNumberChar =
      (c :: rest).dropWhile isNumberChar ++ d :: s := by
    rw [← List.cons_append, List.dropWhile_append]
    split
    · next h =>
      rw [List.isEmpty_iff.mp h, List.dropWhile_cons, if_neg (by simp [hnumber]), List.nil_append]
    · rfl
  unfold takeToken takeNumber
  rw [startsWithMod_append hd, hrun, hrest]
  split
  · rfl
  split
  · rfl
  split
  · rfl
  split
  · rfl
  split
  · next hmod =>
    have hlength : 2 ≤ rest.length := by
      unfold startsWithMod at hmod
      have := congrArg List.length (beq_iff_eq.mp hmod)
      simp only [List.length_map, List.length_take, List.length_cons, List.length_nil] at this
      omega
    rw [List.drop_append_of_le_length hlength]
    rfl
  split
  · simp only
    split
    · rfl
    · rfl
  · rfl

end Ends

theorem takeToken_cases {c : Char} {rest tail : List Char} {t : Token}
    (h : takeToken c rest = .ok (t, tail)) :
    (c ∈ ['+', '-', '*', '/'] ∧ t = .operator c ∧ tail = rest) ∨
    (c = '%' ∧ t = .percent ∧ tail = rest) ∨
    (c = '(' ∧ t = .opening ∧ tail = rest) ∨
    (c = ')' ∧ t = .closing ∧ tail = rest) ∨
    (startsWithMod (c :: rest) = true ∧ t = .modulus ∧ tail = rest.drop 2) ∨
    (t = .number ((c :: rest).takeWhile isNumberChar) ∧
      tail = (c :: rest).dropWhile isNumberChar) := by
  unfold takeToken at h
  split at h
  · next hsign =>
    cases h
    refine .inl ⟨?_, rfl, rfl⟩
    simpa [or_assoc] using hsign
  split at h
  · next hpercent =>
    cases h
    exact .inr (.inl ⟨hpercent, rfl, rfl⟩)
  split at h
  · next hopening =>
    cases h
    exact .inr (.inr (.inl ⟨hopening, rfl, rfl⟩))
  split at h
  · next hclosing =>
    cases h
    exact .inr (.inr (.inr (.inl ⟨hclosing, rfl, rfl⟩)))
  split at h
  · next hmod =>
    cases h
    exact .inr (.inr (.inr (.inr (.inl ⟨hmod, rfl, rfl⟩))))
  split at h
  · unfold takeNumber at h
    simp only at h
    split at h
    · cases h
    · cases h
      exact .inr (.inr (.inr (.inr (.inr ⟨rfl, rfl⟩))))
  · cases h

/-! ### The scanner -/

theorem scan_cons_blank {c : Char} (h : isBlank c = true) (rest : List Char) :
    scan (c :: rest) = scan rest := by
  rw [scan, if_pos h]

theorem scan_cons {c : Char} (h : isBlank c = false) (rest : List Char) :
    scan (c :: rest) = (do
      let p ← takeToken c rest
      (p.1 :: ·) <$> scan p.2) := by
  rw [scan, if_neg (by simp [h])]
  split
  · next fault hfault => simp only [hfault, error_bind]
  · next t tail htoken => simp only [htoken, ok_bind]

/-- A text that is cut where a token ends has the tokens of its two parts. -/
theorem scan_append {d : Char} (hd : endsToken d = true) (cs s : List Char) :
    scan (cs ++ d :: s) = (do
      let ts ← scan cs
      let us ← scan (d :: s)
      .ok (ts ++ us)) := by
  fun_induction scan cs with
  | case1 => exact (bind_ok_eq _).symm
  | case2 c rest hblank ih =>
    rw [List.cons_append, scan_cons_blank hblank, ih]
  | case3 c rest hblank fault hfault =>
    rw [List.cons_append, scan_cons (Bool.eq_false_iff.mpr hblank), takeToken_append hd, hfault]
    rfl
  | case4 c rest hblank t tail htoken hle ih =>
    rw [List.cons_append, scan_cons (Bool.eq_false_iff.mpr hblank), takeToken_append hd, htoken]
    simp only [ok_map, ok_bind, ih]
    cases scan tail with
    | error fault => rfl
    | ok ts => cases scan (d :: s) <;> rfl

theorem scan_blanks_append {before : List Char} (h : ∀ c ∈ before, isBlank c = true)
    (cs : List Char) : scan (before ++ cs) = scan cs := by
  induction before with
  | nil => rfl
  | cons c before ih =>
    rw [List.cons_append, scan_cons_blank (h c (List.mem_cons_self ..))]
    exact ih fun d hd => h d (List.mem_cons_of_mem c hd)

theorem scan_append_blanks {after : List Char} (h : ∀ c ∈ after, isBlank c = true)
    (cs : List Char) : scan (cs ++ after) = scan cs := by
  cases after with
  | nil => rw [List.append_nil]
  | cons d after =>
    have hnone : scan (d :: after) = .ok [] := by
      rw [← List.append_nil (d :: after), scan_blanks_append h, scan]
    rw [scan_append (endsToken_of_isBlank (h d (List.mem_cons_self ..))), hnone]
    simp only [ok_bind, List.append_nil]
    exact bind_ok_eq _

theorem scan_normalizeText (text : List Char) :
    scan (normalizeText text) = scan (text.map plainSign) := by
  obtain ⟨before, after, hbefore, hafter, htext⟩ := exists_trim text
  have hmap : text.map plainSign =
      before.map plainSign ++ (normalizeText text ++ after.map plainSign) := by
    rw [normalizeText, ← List.map_append, ← List.map_append, ← htext]
  rw [hmap, scan_blanks_append (isBlank_of_mem_map hbefore),
    scan_append_blanks (isBlank_of_mem_map hafter)]

/-- The blanks around a text do not count. -/
theorem tokenize_eq (limit : Nat) (text : List Char) :
    tokenize limit text =
      if trim text = [] then .error .emptyExpression
      else if limit < (trim text).length then .error .tooLong
      else scan (text.map plainSign) := by
  unfold tokenize
  simp only [scan_normalizeText]
  unfold normalizeText
  rw [List.length_map]
  by_cases h : trim text = []
  · rw [if_pos h, h]
    rfl
  · rw [if_neg h, if_neg (by simpa using h)]

end PocketCalculator
