import PocketCalculator.Proofs.Expression.Scan

/-!
# Balanced texts

The parentheses of a text are balanced if and only if those of its tokens are (`balanced_iff`): no
token has a parenthesis in it but the two that are one.
-/

namespace PocketCalculator

/-! ### Balanced texts -/

/-- Reading from the left, no parenthesis is closed that is not open, and in the end none is
open. -/
structure Balanced (text : List Char) : Prop where
  closed_le : ∀ start, start <+: text → start.count ')' ≤ start.count '('
  count_eq : text.count '(' = text.count ')'

/-- How many parentheses are open after a text, if none is closed that is not open. -/
def openIn : Nat → List Char → Option Nat
  | depth, [] => some depth
  | depth, c :: cs =>
    if c = '(' then openIn (depth + 1) cs
    else if c = ')' then
      match depth with
      | 0 => none
      | depth + 1 => openIn depth cs
    else openIn depth cs

section OpenIn

variable {depth n : Nat} {c : Char} {cs : List Char}

theorem openIn_opening (depth : Nat) (cs : List Char) :
    openIn depth ('(' :: cs) = openIn (depth + 1) cs := rfl

theorem openIn_closing (depth : Nat) (cs : List Char) :
    openIn (depth + 1) (')' :: cs) = openIn depth cs := rfl

theorem openIn_closing_zero (cs : List Char) : openIn 0 (')' :: cs) = none := rfl

theorem openIn_cons_of_ne (hopening : c ≠ '(') (hclosing : c ≠ ')') :
    openIn depth (c :: cs) = openIn depth cs := by
  simp only [openIn, hopening, hclosing, if_false]

theorem openIn_append_of_forall {run : List Char} (h : ∀ c ∈ run, c ≠ '(' ∧ c ≠ ')') :
    openIn depth (run ++ cs) = openIn depth cs := by
  induction run with
  | nil => rfl
  | cons c run ih =>
    obtain ⟨hopening, hclosing⟩ := h c (List.mem_cons_self ..)
    rw [List.cons_append, openIn_cons_of_ne hopening hclosing]
    exact ih fun d hd => h d (List.mem_cons_of_mem c hd)

theorem forall_prefix_cons {P : List Char → Prop} :
    (∀ start, start <+: c :: cs → P start) ↔ P [] ∧ ∀ start, start <+: cs → P (c :: start) := by
  constructor
  · intro h
    exact ⟨h [] List.nil_prefix, fun start hstart =>
      h (c :: start) (List.cons_prefix_cons.mpr ⟨rfl, hstart⟩)⟩
  · rintro ⟨hnil, hcons⟩ start hstart
    rcases List.prefix_cons_iff.mp hstart with rfl | ⟨rest, rfl, hrest⟩
    · exact hnil
    · exact hcons rest hrest

theorem openIn_eq_some_iff : openIn depth cs = some n ↔
    (∀ start, start <+: cs → start.count ')' ≤ depth + start.count '(') ∧
      n + cs.count ')' = depth + cs.count '(' := by
  -- A start of the text is empty, or the first character with a start of the rest.
  induction cs generalizing depth with
  | nil =>
    simp only [openIn, List.prefix_nil, forall_eq, List.count_nil, Option.some.injEq]
    omega
  | cons c cs ih =>
    rw [forall_prefix_cons]
    by_cases hopening : c = '('
    · subst hopening
      have hne : '(' ≠ ')' := by decide
      simp only [openIn_opening, ih, List.count_cons_self, List.count_cons_of_ne hne,
        List.count_nil, Nat.zero_le, true_and, Nat.add_assoc, Nat.add_comm 1]
    · by_cases hclosing : c = ')'
      · subst hclosing
        simp only [List.count_cons_self, List.count_cons_of_ne hopening, List.count_nil,
          Nat.zero_le, true_and]
        cases depth with
        | zero =>
          rw [openIn_closing_zero]
          refine iff_of_false (fun h => by cases h) fun h => ?_
          have hnil := h.1 [] List.nil_prefix
          simp at hnil
        | succ depth =>
          rw [openIn_closing, ih]
          simp only [Nat.add_right_comm depth 1, Nat.add_le_add_iff_right, ← Nat.add_assoc,
            Nat.add_right_cancel_iff]
      · simp only [openIn_cons_of_ne hopening hclosing, ih, List.count_cons_of_ne hopening,
          List.count_cons_of_ne hclosing, List.count_nil, Nat.zero_le, true_and]

theorem openIn_zero_iff {text : List Char} : openIn 0 text = some 0 ↔ Balanced text := by
  simp only [openIn_eq_some_iff, Nat.zero_add]
  constructor
  · rintro ⟨hle, hcount⟩
    exact ⟨hle, hcount.symm⟩
  · rintro ⟨hle, hcount⟩
    exact ⟨hle, hcount.symm⟩

instance (text : List Char) : Decidable (Balanced text) := decidable_of_iff _ openIn_zero_iff

theorem openIn_map (depth : Nat) (cs : List Char) :
    openIn depth (cs.map plainSign) = openIn depth cs := by
  induction cs generalizing depth with
  | nil => rfl
  | cons c cs ih =>
    have hopening : plainSign c = '(' ↔ c = '(' := by
      unfold plainSign
      split <;> simp
    have hclosing : plainSign c = ')' ↔ c = ')' := by
      unfold plainSign
      split <;> simp
    simp only [List.map_cons, openIn, hopening, hclosing, ih]

end OpenIn

/-! ### Parentheses of a text and of its tokens -/

theorem ne_parentheses_of_isNumberChar {c : Char} (h : isNumberChar c = true) :
    c ≠ '(' ∧ c ≠ ')' := by
  constructor
  · rintro rfl
    exact absurd h (by decide)
  · rintro rfl
    exact absurd h (by decide)

theorem openIn_dropWhile_isNumberChar (depth : Nat) (cs : List Char) :
    openIn depth cs = openIn depth (cs.dropWhile isNumberChar) := by
  have hrun : ∀ c ∈ cs.takeWhile isNumberChar, c ≠ '(' ∧ c ≠ ')' :=
    fun c hc => ne_parentheses_of_isNumberChar (List.mem_takeWhile_imp hc)
  calc openIn depth cs
      = openIn depth (cs.takeWhile isNumberChar ++ cs.dropWhile isNumberChar) :=
        congrArg (openIn depth) (List.takeWhile_append_dropWhile ..).symm
    _ = openIn depth (cs.dropWhile isNumberChar) := openIn_append_of_forall hrun

theorem openIn_of_startsWithMod {c : Char} {rest : List Char}
    (h : startsWithMod (c :: rest) = true) (depth : Nat) :
    openIn depth (c :: rest) = openIn depth (rest.drop 2) := by
  have hword := beq_iff_eq.mp h
  have hplain : ∀ d ∈ (c :: rest).take 3, d ≠ '(' ∧ d ≠ ')' := by
    intro d hd
    have hlower : d.toLower ∈ ['m', 'o', 'd'] := hword ▸ List.mem_map_of_mem hd
    constructor
    · rintro rfl
      exact absurd hlower (by decide)
    · rintro rfl
      exact absurd hlower (by decide)
  calc openIn depth (c :: rest)
      = openIn depth ((c :: rest).take 3 ++ rest.drop 2) :=
        congrArg (openIn depth) (List.take_append_drop 3 (c :: rest)).symm
    _ = openIn depth (rest.drop 2) := openIn_append_of_forall hplain

theorem openIn_of_takeToken {c : Char} {rest tail : List Char} {t : Token}
    (h : takeToken c rest = .ok (t, tail)) (depth : Nat) :
    (c = '(' ∧ t = .opening ∧ tail = rest) ∨ (c = ')' ∧ t = .closing ∧ tail = rest) ∨
      (t.kind ≠ .opening ∧ t.kind ≠ .closing ∧ openIn depth (c :: rest) = openIn depth tail) := by
  rcases takeToken_cases h with ⟨hc, rfl, rfl⟩ | ⟨rfl, rfl, rfl⟩ | ⟨rfl, rfl, rfl⟩ |
    ⟨rfl, rfl, rfl⟩ | ⟨hmod, rfl, rfl⟩ | ⟨rfl, rfl⟩
  · refine .inr (.inr ⟨fun h => (by cases h), fun h => (by cases h), openIn_cons_of_ne ?_ ?_⟩)
    · rintro rfl
      exact absurd hc (by decide)
    · rintro rfl
      exact absurd hc (by decide)
  · exact .inr (.inr ⟨fun h => (by cases h), fun h => (by cases h), rfl⟩)
  · exact .inl ⟨rfl, rfl, rfl⟩
  · exact .inr (.inl ⟨rfl, rfl, rfl⟩)
  · exact .inr (.inr ⟨fun h => (by cases h), fun h => (by cases h),
      openIn_of_startsWithMod hmod depth⟩)
  · exact .inr (.inr ⟨fun h => (by cases h), fun h => (by cases h),
      openIn_dropWhile_isNumberChar depth (c :: rest)⟩)

theorem openIn_of_scan {cs : List Char} {ts : List Token} (h : scan cs = .ok ts) (depth : Nat) :
    openIn depth cs = openAfter depth ts := by
  fun_induction scan cs generalizing ts depth with
  | case1 =>
    cases h
    rfl
  | case2 c rest hblank ih =>
    rw [openIn_cons_of_ne (ne_of_isBlank hblank (by decide)) (ne_of_isBlank hblank (by decide))]
    exact ih h depth
  | case3 c rest hblank fault hfault => cases h
  | case4 c rest hblank t tail htoken hle ih =>
    obtain ⟨us, hus, rfl⟩ := map_eq_ok.mp h
    rcases openIn_of_takeToken htoken depth with
      ⟨rfl, rfl, rfl⟩ | ⟨rfl, rfl, rfl⟩ | ⟨hopening, hclosing, hrest⟩
    · exact ih hus (depth + 1)
    · cases depth with
      | zero => rfl
      | succ depth => exact ih hus depth
    · rw [hrest, openAfter_cons hopening hclosing]
      exact ih hus depth

theorem balanced_iff {limit : Nat} {text : List Char} {ts : List Token}
    (h : tokenize limit text = .ok ts) : balanced ts = true ↔ Balanced text := by
  have hscan : scan (text.map plainSign) = .ok ts := by
    rw [← scan_normalizeText]
    exact (scan_of_tokenize h).2
  rw [balanced, beq_iff_eq, ← openIn_of_scan hscan, openIn_map, openIn_zero_iff]

end PocketCalculator
