import PocketCalculator.Proofs.Expression.Groups

/-!
# The word `mod` and the percent sign

Between two operands a percent sign means the same as the word `mod`, as long as the divisor is a
group, or a number that no other remainder is taken of. With a second percent sign behind it the
number counts as a percentage, so a chain of remainders can only be written with the word.
-/

namespace PocketCalculator

/-! ### Percent signs for the word -/

/-- The text with a percent sign in place of every `mod`. -/
def modToPercent : List Char → List Char
  | [] => []
  | c :: rest =>
    if startsWithMod (c :: rest) then '%' :: modToPercent (rest.drop 2)
    else c :: modToPercent rest
termination_by cs => cs.length
decreasing_by
  · simp only [List.length_drop, List.length_cons]
    omega
  · simp only [List.length_cons]
    omega

def Token.modToPercent (t : Token) : Token := if t = .modulus then .percent else t

section Words

variable {c : Char}

theorem startsWithMod_cons_iff {m o d : Char} {rest : List Char} :
    startsWithMod (m :: o :: d :: rest) = true ↔
      m.toLower = 'm' ∧ o.toLower = 'o' ∧ d.toLower = 'd' := by
  simp [startsWithMod]

theorem exists_of_startsWithMod {rest : List Char} (h : startsWithMod (c :: rest) = true) :
    c.toLower = 'm' ∧ 2 ≤ rest.length := by
  match rest with
  | [] => simp [startsWithMod] at h
  | [o] => simp [startsWithMod] at h
  | o :: d :: rest => exact ⟨(startsWithMod_cons_iff.mp h).1, by simp⟩

theorem startsWithMod_of_ne (h : c.toLower ≠ 'm') (rest : List Char) :
    startsWithMod (c :: rest) = false := by
  rw [← Bool.not_eq_true]
  exact fun hmod => h (exists_of_startsWithMod hmod).1

theorem toLower_ne_of_isBlank (h : isBlank c = true) : c.toLower ≠ 'm' := by
  rw [toLower_of_isBlank h]
  exact ne_of_isBlank h (by decide)

theorem toLower_ne_of_isNumberChar (h : isNumberChar c = true) : c.toLower ≠ 'm' := by
  rw [toLower_of_isNumberChar h]
  exact ne_of_isNumberChar h (by decide)

theorem takeToken_of_isNumberChar (h : isNumberChar c = true) (rest : List Char) :
    takeToken c rest = takeNumber (c :: rest) := by
  have hother : ∀ {d}, isNumberChar d = false → c ≠ d := ne_of_isNumberChar h
  have hsigns : ¬ (decide (c = '+') || decide (c = '-') || decide (c = '*') ||
      decide (c = '/')) = true := by
    simp [hother (d := '+') (by decide), hother (d := '-') (by decide),
      hother (d := '*') (by decide), hother (d := '/') (by decide)]
  have hmod := startsWithMod_of_ne (toLower_ne_of_isNumberChar h) rest
  rw [takeToken, if_neg hsigns, if_neg (hother (by decide)), if_neg (hother (by decide)),
    if_neg (hother (by decide)), if_neg (by simp [hmod]), if_pos h]

theorem toLower_plainSign_iff {letter : Char} (h : letter = 'm' ∨ letter = 'o' ∨ letter = 'd')
    (c : Char) : (plainSign c).toLower = letter ↔ c.toLower = letter := by
  unfold plainSign
  split
  · rcases h with rfl | rfl | rfl <;> decide
  · rcases h with rfl | rfl | rfl <;> decide
  · rcases h with rfl | rfl | rfl <;> decide
  · rcases h with rfl | rfl | rfl <;> decide
  · exact Iff.rfl

theorem startsWithMod_map (cs : List Char) :
    startsWithMod (cs.map plainSign) = startsWithMod cs := by
  match cs with
  | [] => rfl
  | [m] => simp [startsWithMod]
  | [m, o] => simp [startsWithMod]
  | m :: o :: d :: rest =>
    rw [Bool.eq_iff_iff, List.map_cons, List.map_cons, List.map_cons, startsWithMod_cons_iff,
      startsWithMod_cons_iff, toLower_plainSign_iff (.inl rfl),
      toLower_plainSign_iff (.inr (.inl rfl)), toLower_plainSign_iff (.inr (.inr rfl))]

theorem modToPercent_cons_of_ne (h : c.toLower ≠ 'm') (rest : List Char) :
    modToPercent (c :: rest) = c :: modToPercent rest := by
  rw [modToPercent, if_neg (by simp [startsWithMod_of_ne h])]

theorem modToPercent_map (cs : List Char) :
    (modToPercent cs).map plainSign = modToPercent (cs.map plainSign) := by
  fun_induction modToPercent cs with
  | case1 => rw [List.map_nil, modToPercent]
  | case2 c rest hmod ih =>
    rw [← startsWithMod_map, List.map_cons] at hmod
    rw [List.map_cons, List.map_cons, modToPercent, if_pos hmod, ih, List.map_drop]
    rfl
  | case3 c rest hmod ih =>
    rw [← startsWithMod_map, List.map_cons] at hmod
    rw [List.map_cons, List.map_cons, modToPercent, if_neg hmod, ih]

theorem modToPercent_append {d : Char} (hd : endsToken d = true) (cs s : List Char) :
    modToPercent (cs ++ d :: s) = modToPercent cs ++ modToPercent (d :: s) := by
  fun_induction modToPercent cs with
  | case1 => rfl
  | case2 c rest hmod ih =>
    have hlength := (exists_of_startsWithMod hmod).2
    rw [← startsWithMod_append hd c rest s] at hmod
    rw [List.cons_append, modToPercent, if_pos hmod, List.drop_append_of_le_length hlength, ih,
      List.cons_append]
  | case3 c rest hmod ih =>
    rw [← startsWithMod_append hd c rest s] at hmod
    rw [List.cons_append, modToPercent, if_neg hmod, ih, List.cons_append]

theorem length_modToPercent_le (cs : List Char) : (modToPercent cs).length ≤ cs.length := by
  fun_induction modToPercent cs with
  | case1 => exact Nat.le_refl _
  | case2 c rest hmod ih =>
    simp only [List.length_cons, List.length_drop] at ih ⊢
    omega
  | case3 c rest hmod ih => exact Nat.succ_le_succ ih

/-! ### Blanks around a text -/

theorem modToPercent_blanks {before : List Char} (h : ∀ c ∈ before, isBlank c = true)
    (cs : List Char) : modToPercent (before ++ cs) = before ++ modToPercent cs := by
  induction before with
  | nil => rfl
  | cons c before ih =>
    have hc := toLower_ne_of_isBlank (h c (List.mem_cons_self ..))
    rw [List.cons_append, modToPercent_cons_of_ne hc,
      ih fun d hd => h d (List.mem_cons_of_mem c hd), List.cons_append]

theorem modToPercent_append_blanks {after : List Char} (h : ∀ c ∈ after, isBlank c = true)
    (cs : List Char) : modToPercent (cs ++ after) = modToPercent cs ++ after := by
  have hafter : modToPercent after = after := by
    have hall := modToPercent_blanks h []
    rwa [List.append_nil, modToPercent, List.append_nil] at hall
  cases after with
  | nil => rw [List.append_nil, List.append_nil]
  | cons d after =>
    rw [modToPercent_append (endsToken_of_isBlank (h d (List.mem_cons_self ..))), hafter]

theorem isBlank_of_modToPercent {cs : List Char} (h : ∀ c ∈ modToPercent cs, isBlank c = true) :
    ∀ c ∈ cs, isBlank c = true := by
  fun_induction modToPercent cs with
  | case1 => exact h
  | case2 c rest hmod ih =>
    have hpercent := h '%' (List.mem_cons_self ..)
    exact absurd hpercent (by decide)
  | case3 c rest hmod ih =>
    intro d hd
    rcases List.mem_cons.mp hd with rfl | hd
    · exact h d (List.mem_cons_self ..)
    · exact ih (fun d hd => h d (List.mem_cons_of_mem c hd)) d hd

theorem length_trim_modToPercent_le (cs : List Char) :
    (trim (modToPercent cs)).length ≤ (trim cs).length := by
  obtain ⟨before, after, hbefore, hafter, hcs⟩ := exists_trim cs
  have hsplit : modToPercent cs = before ++ (modToPercent (trim cs) ++ after) := by
    rw [← modToPercent_append_blanks hafter, ← modToPercent_blanks hbefore, ← hcs]
  rw [hsplit, trim_append_blanks hbefore hafter]
  exact (length_trim_le _).trans (length_modToPercent_le _)

end Words

/-! ### Tokens -/

theorem takeWhile_modToPercent (cs : List Char) :
    (modToPercent cs).takeWhile isNumberChar = cs.takeWhile isNumberChar ∧
      (modToPercent cs).dropWhile isNumberChar = modToPercent (cs.dropWhile isNumberChar) := by
  induction cs with
  | nil =>
    rw [modToPercent]
    exact ⟨rfl, by rw [List.dropWhile_nil, modToPercent]⟩
  | cons c cs ih =>
    by_cases hc : isNumberChar c = true
    · rw [modToPercent_cons_of_ne (toLower_ne_of_isNumberChar hc), List.takeWhile_cons,
        List.takeWhile_cons, List.dropWhile_cons, List.dropWhile_cons, if_pos hc, if_pos hc,
        if_pos hc, if_pos hc, ih.1]
      exact ⟨rfl, ih.2⟩
    · rw [List.takeWhile_cons, List.dropWhile_cons, if_neg hc, if_neg hc, modToPercent]
      have hpercent : ¬ isNumberChar '%' = true := by decide
      split
      · rw [List.takeWhile_cons, List.dropWhile_cons, if_neg hpercent, if_neg hpercent]
        exact ⟨rfl, rfl⟩
      · rw [List.takeWhile_cons, List.dropWhile_cons, if_neg hc, if_neg hc]
        exact ⟨rfl, rfl⟩

/-- The first token of a text stays as it is, unless it is the word. -/
theorem takeToken_modToPercent {c : Char} {rest tail : List Char} {t : Token}
    (h : takeToken c rest = .ok (t, tail)) :
    ∃ c' rest', modToPercent (c :: rest) = c' :: rest' ∧ isBlank c' = isBlank c ∧
      takeToken c' rest' = .ok (t.modToPercent, modToPercent tail) := by
  have hsame : ∀ {c : Char}, c.toLower ≠ 'm' → ∀ {t : Token}, t ≠ .modulus →
      takeToken c (modToPercent rest) = .ok (t, modToPercent tail) →
      ∃ c' rest', modToPercent (c :: rest) = c' :: rest' ∧ isBlank c' = isBlank c ∧
        takeToken c' rest' = .ok (t.modToPercent, modToPercent tail) := by
    intro c hc t ht htoken
    refine ⟨c, modToPercent rest, modToPercent_cons_of_ne hc rest, rfl, ?_⟩
    rw [Token.modToPercent, if_neg ht]
    exact htoken
  unfold takeToken at h
  split at h
  · next hsign =>
    cases h
    simp only [Bool.or_eq_true, decide_eq_true_eq] at hsign
    rcases hsign with ((rfl | rfl) | rfl) | rfl
    · exact hsame (by decide) (by decide) rfl
    · exact hsame (by decide) (by decide) rfl
    · exact hsame (by decide) (by decide) rfl
    · exact hsame (by decide) (by decide) rfl
  split at h
  · next hc =>
    cases h
    subst hc
    exact hsame (by decide) (by decide) rfl
  split at h
  · next hc =>
    cases h
    subst hc
    exact hsame (by decide) (by decide) rfl
  split at h
  · next hc =>
    cases h
    subst hc
    exact hsame (by decide) (by decide) rfl
  split at h
  · next hmod =>
    cases h
    refine ⟨'%', modToPercent (rest.drop 2), by rw [modToPercent, if_pos hmod], ?_, rfl⟩
    rw [show isBlank '%' = false by decide, eq_comm, ← Bool.not_eq_true]
    exact fun hblank => toLower_ne_of_isBlank hblank (exists_of_startsWithMod hmod).1
  split at h
  · next hnumber =>
    have hc := toLower_ne_of_isNumberChar hnumber
    unfold takeNumber at h
    simp only at h
    split at h
    · cases h
    · next hpoints =>
      cases h
      obtain ⟨hrun, hrest⟩ := takeWhile_modToPercent (c :: rest)
      refine ⟨c, modToPercent rest, modToPercent_cons_of_ne hc rest, rfl, ?_⟩
      rw [modToPercent_cons_of_ne hc] at hrun hrest
      rw [takeToken_of_isNumberChar hnumber, takeNumber]
      simp only [hrun, hrest]
      rw [if_neg hpoints]
      rfl
  · cases h

theorem scan_modToPercent {cs : List Char} {ts : List Token} (h : scan cs = .ok ts) :
    scan (modToPercent cs) = .ok (ts.map Token.modToPercent) := by
  fun_induction scan cs generalizing ts with
  | case1 =>
    cases h
    rw [modToPercent, scan]
    rfl
  | case2 c rest hblank ih =>
    rw [modToPercent_cons_of_ne (toLower_ne_of_isBlank hblank), scan_cons_blank hblank]
    exact ih h
  | case3 c rest hblank fault hfault => cases h
  | case4 c rest hblank t tail htoken hle ih =>
    obtain ⟨us, hus, rfl⟩ := map_eq_ok.mp h
    obtain ⟨c', rest', hcs, hsame, htoken'⟩ := takeToken_modToPercent htoken
    rw [hcs, scan_cons (hsame.trans (Bool.eq_false_iff.mpr hblank)), htoken', ok_bind, ih hus]
    rfl

theorem tokenize_modToPercent {limit : Nat} {text : List Char} {ts : List Token}
    (h : tokenize limit text = .ok ts) :
    tokenize limit (modToPercent text) = .ok (ts.map Token.modToPercent) := by
  have hlength := length_trim_modToPercent_le text
  rw [tokenize_eq] at h ⊢
  split at h
  · cases h
  · next hblank =>
    split at h
    · cases h
    · next hlimit =>
      rw [if_neg, if_neg (by omega), modToPercent_map]
      · exact scan_modToPercent h
      · intro hnone
        exact hblank (trim_eq_nil_iff.mpr (isBlank_of_modToPercent (trim_eq_nil_iff.mp hnone)))

/-! ### The meaning of the percent signs -/

def startsOperand : List Token → Bool
  | [] => false
  | t :: _ => t.kind = .number || t.kind = .opening

/-- Every remainder is taken by a number or a group. -/
def plainDivisors : List Token → Bool
  | [] => true
  | t :: ts => (t ≠ .modulus || startsOperand ts) && plainDivisors ts

/-- A number that a remainder is taken by stands before another remainder. -/
def hasChain : List Token → Bool
  | [] => false
  | t :: ts =>
    hasChain ts ||
      match ts with
      | u :: w :: _ => t = .modulus && u.kind = .number && w = .modulus
      | _ => false

section Tokens

variable {ts : List Token}

theorem resolvePercents_eq_self (h : ∀ t ∈ ts, t.kind ≠ .percent) : resolvePercents ts = ts := by
  induction ts with
  | nil => rfl
  | cons t ts ih =>
    rw [resolvePercents, if_neg (by simp [h t (List.mem_cons_self ..)]),
      ih fun u hu => h u (List.mem_cons_of_mem t hu)]

theorem Token.modToPercent_of_ne {t : Token} (h : t ≠ .modulus) : t.modToPercent = t := if_neg h

theorem Token.kind_modToPercent_ne {t : Token} (h : t.kind ≠ .percent) (hmod : t ≠ .modulus) :
    t.modToPercent.kind ≠ .percent := by
  rw [Token.modToPercent_of_ne hmod]
  exact h

theorem openAfter_modToPercent (depth : Nat) (ts : List Token) :
    openAfter depth (ts.map Token.modToPercent) = openAfter depth ts := by
  induction ts generalizing depth with
  | nil => rfl
  | cons t ts ih =>
    rw [List.map_cons]
    by_cases ht : t = .modulus
    · subst ht
      rw [openAfter_cons (fun h => by cases h) (fun h => by cases h)]
      exact ih depth
    · rw [Token.modToPercent_of_ne ht]
      cases hkind : t.kind with
      | opening => simp only [openAfter, hkind, ih]
      | closing => cases depth <;> simp only [openAfter, hkind, ih]
      | number => simp only [openAfter, hkind, ih]
      | operator => simp only [openAfter, hkind, ih]
      | percent => simp only [openAfter, hkind, ih]

theorem startsDivisor_modToPercent (hpercent : ∀ t ∈ ts, t.kind ≠ .percent)
    (hoperand : startsOperand ts = true) (hchain : hasChain (.modulus :: ts) = false) :
    startsDivisor (ts.map Token.modToPercent) = true := by
  cases ts with
  | nil => cases hoperand
  | cons t ts =>
    have hkind : t.kind = .number ∨ t.kind = .opening := by simpa [startsOperand] using hoperand
    have ht : t ≠ .modulus := by
      rintro rfl
      rcases hkind with h | h <;> cases h
    rw [List.map_cons, Token.modToPercent_of_ne ht]
    rcases hkind with hnumber | hopening
    · cases ts with
      | nil => simp [startsDivisor, hnumber]
      | cons u ts =>
        have hu : u ≠ .modulus := by
          rintro rfl
          simp [hasChain, hnumber] at hchain
        have hafter := Token.kind_modToPercent_ne (hpercent u (by simp)) hu
        simp [startsDivisor, hnumber, hafter]
    · cases ts with
      | nil => simp [startsDivisor, hopening]
      | cons u ts => simp [startsDivisor, hopening]

/-- Without chains the percent signs are read as the word again. -/
theorem resolvePercents_modToPercent (hpercent : ∀ t ∈ ts, t.kind ≠ .percent)
    (hdivisors : plainDivisors ts = true) (hchain : hasChain ts = false) :
    resolvePercents (ts.map Token.modToPercent) = ts := by
  induction ts with
  | nil => rfl
  | cons t ts ih =>
    simp only [plainDivisors, Bool.and_eq_true] at hdivisors
    have hrest : hasChain ts = false := (Bool.or_eq_false_iff.mp hchain).1
    have htail : ∀ u ∈ ts, u.kind ≠ .percent := fun u hu => hpercent u (List.mem_cons_of_mem t hu)
    rw [List.map_cons, resolvePercents, ih htail hdivisors.2 hrest]
    by_cases ht : t = .modulus
    · subst ht
      have hoperand : startsOperand ts = true := by simpa using hdivisors.1
      have hstarts := startsDivisor_modToPercent htail hoperand hchain
      rw [if_pos (by rw [hstarts]; rfl)]
    · have hkind := hpercent t (List.mem_cons_self ..)
      rw [Token.modToPercent_of_ne ht, if_neg (by simp [hkind])]

theorem exists_of_hasChain (h : hasChain ts = true) : ∃ before t after,
    ts = before ++ .modulus :: t :: .modulus :: after ∧ t.kind = .number := by
  induction ts with
  | nil => cases h
  | cons t ts ih =>
    rcases Bool.or_eq_true_iff.mp h with h | h
    · obtain ⟨before, u, after, rfl, hu⟩ := ih h
      exact ⟨t :: before, u, after, rfl, hu⟩
    · match ts with
      | [] => cases h
      | [u] => cases h
      | u :: w :: after =>
        simp only [Bool.and_eq_true, decide_eq_true_eq] at h
        obtain ⟨⟨rfl, hu⟩, rfl⟩ := h
        exact ⟨[], u, after, rfl, hu⟩

theorem exists_resolvePercents_append (ts us : List Token) :
    ∃ before, resolvePercents (ts ++ us) = before ++ resolvePercents us := by
  induction ts with
  | nil => exact ⟨[], rfl⟩
  | cons t ts ih =>
    obtain ⟨before, hbefore⟩ := ih
    rw [List.cons_append, resolvePercents, hbefore]
    exact ⟨_ :: before, rfl⟩

/-- In a chain a number follows a percentage. -/
theorem exists_percentage_of_hasChain (h : hasChain ts = true) : ∃ before t after,
    resolvePercents (ts.map Token.modToPercent) = before ++ .percent :: t :: after ∧
      t.kind = .number := by
  obtain ⟨first, t, last, rfl, ht⟩ := exists_of_hasChain h
  have hmod : t ≠ .modulus := by
    rintro rfl
    cases ht
  have hmap : (first ++ .modulus :: t :: .modulus :: last).map Token.modToPercent =
      first.map Token.modToPercent ++
        .percent :: t :: .percent :: last.map Token.modToPercent := by
    rw [List.map_append, List.map_cons, List.map_cons, List.map_cons, Token.modToPercent_of_ne hmod]
    rfl
  obtain ⟨before, hbefore⟩ := exists_resolvePercents_append (first.map Token.modToPercent)
    (.percent :: t :: .percent :: last.map Token.modToPercent)
  rw [hmap, hbefore, resolvePercents, if_neg (by simp [startsDivisor, ht, Token.percent]),
    resolvePercents, if_neg (by simp [ht])]
  exact ⟨before, t, _, rfl, ht⟩

end Tokens

theorem Progress.not_ok_after_percent {nesting : Nat} {p q : Progress} {t u : Token}
    (ht : t.kind = .percent) (hu : u.kind = .number) (h : p.read nesting t = .ok q)
    (r : Progress) : q.read nesting u ≠ .ok r := by
  obtain ⟨outer, g, operand⟩ := p
  cases operand with
  | none =>
    have hread : readOperand nesting ⟨outer, g, none⟩ t = .ok q := h
    simp [readOperand, ht] at hread
  | some x =>
    have hread : readAfter ⟨outer, g, some x⟩ x t = .ok q := h
    unfold readAfter at hread
    simp only [ht] at hread
    obtain ⟨y, _, hq⟩ := bind_eq_ok.mp hread
    cases hq
    intro hr
    have hnext : readAfter ⟨outer, g, some y⟩ y u = .ok r := hr
    unfold readAfter at hnext
    simp only [hu] at hnext
    obtain ⟨value, _, hnext⟩ := bind_eq_ok.mp hnext
    cases hnext

/-- What has a number after a percentage has no value. -/
theorem compute_ne_ok_of_percentage {nesting : Nat} {t : Token} (ht : t.kind = .number)
    (before after : List Token) (v : Extended) :
    compute nesting (before ++ .percent :: t :: after) ≠ .ok v := by
  intro h
  rw [compute_eq] at h
  obtain ⟨p, hp, _⟩ := bind_eq_ok.mp h
  rw [Progress.readAll_append] at hp
  obtain ⟨q, _, hq⟩ := bind_eq_ok.mp hp
  obtain ⟨r, hr, hq⟩ := bind_eq_ok.mp hq
  obtain ⟨s, hs, _⟩ := bind_eq_ok.mp hq
  exact Progress.not_ok_after_percent rfl ht hr s hs

/-! ### Texts -/

/-- Percent signs may stand for the word `mod` in a text without percentages whose remainders are
taken by numbers and groups, unless it has a chain of remainders. With a chain there is no value. -/
theorem evaluate_modToPercent {limits : Limits} {text : List Char} {ts : List Token}
    (h : tokenize limits.length text = .ok ts) (hpercent : Token.percent ∉ ts)
    (hdivisors : plainDivisors ts = true) :
    (hasChain ts = false → evaluate limits (modToPercent text) = evaluate limits text) ∧
    (hasChain ts = true → ∃ fault, evaluate limits (modToPercent text) = .error fault) := by
  have hkinds : ∀ t ∈ ts, t.kind ≠ .percent := by
    intro t ht hkind
    have hspelled : t.IsSpelled := forall_mem_scan
      (fun _ _ _ _ _ => isSpelled_of_takeToken) (Nat.le_refl _) (scan_of_tokenize h).2 t ht
    exact hpercent (Token.eq_percent hspelled hkind ▸ ht)
  have hsame : checkParentheses (ts.map Token.modToPercent) = checkParentheses ts := by
    rw [checkParentheses, balanced, openAfter_modToPercent]
    rfl
  constructor
  · intro hchain
    simp only [evaluate_eq_tokenize, tokenize_modToPercent h, h, ok_bind, evaluateTokens, hsame,
      resolvePercents_modToPercent hkinds hdivisors hchain, resolvePercents_eq_self hkinds]
  · intro hchain
    obtain ⟨before, t, after, hresolve, ht⟩ := exists_percentage_of_hasChain hchain
    cases hvalue : evaluate limits (modToPercent text) with
    | error fault => exact ⟨fault, rfl⟩
    | ok v =>
      simp only [evaluate_eq_tokenize, tokenize_modToPercent h, ok_bind, evaluateTokens,
        hresolve] at hvalue
      obtain ⟨_, _, hvalue⟩ := bind_eq_ok.mp hvalue
      obtain ⟨x, hx, _⟩ := bind_eq_ok.mp hvalue
      exact absurd (mapError_eq_ok.mp hx) (compute_ne_ok_of_percentage ht before after x)

/-- A remainder of a product by a group, with a remainder in the group; and a chain in a group. -/
theorem evaluate_modToPercent_group :
    evaluate .standard (modToPercent "2*17 mod (9 MOD (1+4)) - 7 mod 4".toList) =
        evaluate .standard "2*17 mod (9 MOD (1+4)) - 7 mod 4".toList ∧
      ∃ fault, evaluate .standard (modToPercent "(2*17 mod 9 mod 4)".toList) = .error fault := by
  have htokens : tokenize Limits.standard.length "2*17 mod (9 MOD (1+4)) - 7 mod 4".toList =
      .ok [.number ['2'], .operator '*', .number ['1', '7'], .modulus, .opening, .number ['9'],
        .modulus, .opening, .number ['1'], .operator '+', .number ['4'], .closing, .closing,
        .operator '-', .number ['7'], .modulus, .number ['4']] :=
    toOption_eq_some.mp (by decide +kernel)
  have hchain : tokenize Limits.standard.length "(2*17 mod 9 mod 4)".toList =
      .ok [.opening, .number ['2'], .operator '*', .number ['1', '7'], .modulus, .number ['9'],
        .modulus, .number ['4'], .closing] :=
    toOption_eq_some.mp (by decide +kernel)
  exact ⟨(evaluate_modToPercent htokens (by decide) (by decide)).1 (by decide),
    (evaluate_modToPercent hchain (by decide) (by decide)).2 (by decide)⟩

/-- The word takes the remainder of ten by three, and of that the remainder by two. With percent
signs the three becomes a percentage, and a number follows it. -/
theorem chain_refused_with_percent_signs :
    evaluate .standard "10 mod 3 mod 2".toList = .ok ⟨false, 1, 0⟩ ∧
      modToPercent "10 mod 3 mod 2".toList = "10 % 3 % 2".toList ∧
      evaluate .standard "10 % 3 % 2".toList = .error (.unexpected ['3']) := by
  refine ⟨?_, ?_, ?_⟩
  · decide +kernel
  · decide +kernel
  · decide +kernel

end PocketCalculator
