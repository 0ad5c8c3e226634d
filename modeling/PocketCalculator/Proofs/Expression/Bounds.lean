import PocketCalculator.Expression.Evaluate
import PocketCalculator.Expression.Unary
import PocketCalculator.Proofs.Expression.Literal
import PocketCalculator.Proofs.Expression.Operation

/-!
# Bounds of values and of failures

Whatever the text, the evaluator holds only decimals, it fails only in the ways that it announces,
and what it returns is within the calculator's range. The invariant is kept by every token.
-/

namespace PocketCalculator

/-! ### Values -/

/-- A value on the way: not negative, or rounded; its first digit is not further from the point than
a text of `size` characters can place it. -/
structure Decimal.Sound (size : Nat) (x : Decimal) : Prop where
  rounded : x.negative = false ∨ calculator.Contains x
  low : -(size + 1000026 : Int) ≤ x.adjusted
  high : x.adjusted ≤ size + 1000026

def Extended.Sound (size : Nat) (x : Extended) : Prop := ∃ d : Decimal, x = .finite d ∧ d.Sound size

/-- The families of faults that an expression can have. -/
def expressionFamilies : List Family := [.number, .parentheses, .division, .modulus, .range]

/-- A fault of the expression, or an overflow. In a text of half a quintillion characters the
operands of a remainder may be too far apart. -/
def Failure.Expected (size : Nat) : Failure → Prop
  | .fault f => f.family ∈ expressionFamilies
  | .signal s => 2 * (size + 1000026 : Int) + 30 ≤ Context.maxPrecision → s = .overflow

section Values

variable {size : Nat} {x y : Decimal}

theorem Decimal.sound_of_contains (size : Nat) (h : calculator.Contains x) : x.Sound size := by
  have hdigits := x.digits_pos
  have hfinest : (-1000026 : Int) ≤ x.exponent := h.finest_le
  have hadjusted : x.adjusted ≤ 999999 := h.adjusted_le
  have hexponent : x.adjusted = x.exponent + x.digits - 1 := rfl
  exact ⟨Or.inr h, by omega, by omega⟩

/-- What is brought into range has at most 28 digits, is not too large and is no negative zero. -/
structure Decimal.IsResult (x : Decimal) : Prop where
  digits_le : x.digits ≤ 28
  magnitude_le : x.magnitude ≤ largest.magnitude
  not_negative_zero : x.isZero = true → x.negative = false

theorem isResult_of_inRange (hx : x.negative = false ∨ calculator.Contains x)
    (h : inRange (.finite x) = .ok y) : y.IsResult := by
  refine ⟨(contains_of_inRange h).digits_le, magnitude_le_of_inRange h, fun hy => ?_⟩
  have hplus := (inRange_eq_ok.mp h).1
  unfold Context.plus at hplus
  split at hplus
  · exact Context.negative_of_round hplus
  · next hzero =>
    rcases hx with hnegative | hcontains
    · rw [Context.negative_of_round hplus, hnegative]
    · -- A rounded value is not changed, so it has not become zero.
      rw [Context.round_of_contains hcontains] at hplus
      cases hplus
      exact absurd hy hzero

theorem outOfRange_of_inRange {x : Extended} {fault : Fault} (h : inRange x = .error fault) :
    fault = .outOfRange := by
  unfold inRange at h
  split at h
  · split at h
    · split at h
      · cases h
        rfl
      · cases h
    · cases h
      rfl
  · cases h
    rfl

theorem outOfRange_of_settle {x : Extended} {e : Failure} (h : settle (.ok x) = .error e) :
    e = .fault .outOfRange := by
  cases hrange : inRange x with
  | ok y =>
    simp only [settle, hrange] at h
    cases h
  | error fault =>
    simp only [settle, hrange] at h
    cases h
    rw [outOfRange_of_inRange hrange]

theorem ensures_inRange {Q : Fault → Prop} (hx : x.negative = false ∨ calculator.Contains x)
    (hQ : Q .outOfRange) : Ensures (inRange (.finite x)) Decimal.IsResult Q := by
  refine Ensures.intro (fun y hy => isResult_of_inRange hx hy) (fun fault hfault => ?_)
  rw [outOfRange_of_inRange hfault]
  exact hQ

theorem ensures_settle {r : Except Signal Decimal}
    (hr : ∀ s, r = .error s → Failure.Expected size (.signal s)) :
    Ensures (settle (.finite <$> r)) (Decimal.Sound size) (Failure.Expected size) := by
  cases r with
  | error s => exact hr s rfl
  | ok x =>
    refine Ensures.intro (fun y hy => ?_) (fun e he => ?_)
    · obtain ⟨z, _, hz⟩ := settle_finite_eq_ok.mp hy
      exact Decimal.sound_of_contains size (contains_of_inRange hz)
    · rw [outOfRange_of_settle he]
      show Fault.outOfRange.family ∈ expressionFamilies
      decide

theorem ensures_apply {op : Operator} (hx : x.Sound size) (hy : y.Sound size) :
    Ensures (op.apply (.finite x) (.finite y)) (Decimal.Sound size) (Failure.Expected size) := by
  by_cases hzero : op.divides = true ∧ y.isZero = true
  · rw [Operator.apply_of_isZero hzero.1 hzero.2]
    show op.zeroFault.family ∈ expressionFamilies
    cases op <;> decide
  · have hdivisor : op.divides = true → y.isZero = false := fun hdivides =>
      Bool.eq_false_iff.mpr fun hy => hzero ⟨hdivides, hy⟩
    rw [Operator.apply_finite hdivisor]
    refine ensures_settle fun s hs hsize => ?_
    cases op with
    | add => exact Context.overflow_of_round hs
    | sub => exact Context.overflow_of_round hs
    | mul => exact Context.overflow_of_round hs
    | div => exact Context.overflow_of_divide (hdivisor rfl) hs
    | rem =>
      have hhigh := hx.high
      have hlow := hy.low
      obtain ⟨c, hc, _⟩ := exists_remainderContext (x := x) (y := y) (by omega)
      rw [Operator.rounded, hc] at hs
      exact Context.overflow_of_round hs

theorem ensures_negated (size : Nat) (x : Decimal) :
    Ensures (negated (.finite x)) (Extended.Sound size) (Failure.Expected size) := by
  have hnegated : negated (.finite x) = (.finite <$> calculator.minus x).mapError .signal := rfl
  rw [hnegated]
  cases h : calculator.minus x with
  | error s =>
    intro _
    exact Context.overflow_of_round h
  | ok y => exact ⟨y, rfl, Decimal.sound_of_contains size (Context.contains_of_round (by decide) h)⟩

theorem ensures_percent (size : Nat) (x : Decimal) :
    Ensures (percent (.finite x)) (Decimal.Sound size) (Failure.Expected size) :=
  ensures_settle fun _ hs _ => Context.overflow_of_divide (by decide) hs

theorem ensures_percentOf (size : Nat) (x y : Decimal) :
    Ensures (percentOf (.finite x) (.finite y)) (Decimal.Sound size) (Failure.Expected size) := by
  have hproduct : percentOf (.finite x) (.finite y) =
      settle (.finite <$> (do calculator.divide (← calculator.round (x.mul y)) (.ofNat 100))) := by
    unfold percentOf
    rw [Context.mul_finite]
    cases calculator.round (x.mul y) with
    | error s => rfl
    | ok z => rfl
  rw [hproduct]
  refine ensures_settle fun s hs _ => ?_
  rcases bind_eq_error.mp hs with hround | ⟨z, _, hdivide⟩
  · exact Context.overflow_of_round hround
  · exact Context.overflow_of_divide (by decide) hdivide

theorem sound_of_ofText? {text : List Char} {x : Extended} (h : IsNumeral size text)
    (hx : Extended.ofText? text = some x) : x.Sound size := by
  rw [ofText?_of_isNumberChar h.chars, Option.map_eq_some_iff] at hx
  obtain ⟨d, hd, rfl⟩ := hx
  obtain ⟨fixed, hfixed, rfl⟩ := Option.map_eq_some_iff.mp (Option.filter_eq_some_iff.mp hd).1
  obtain ⟨hcoefficient, hplaces⟩ := readFixed?_lt hfixed
  have hlength := h.length_le
  have hpos := List.length_pos_of_ne_nil h.ne_nil
  have hdigits := Decimal.digitCount_le hpos hcoefficient
  have hone := Decimal.digitCount_pos fixed.1
  have hadjusted : (fixedDecimal fixed).adjusted =
      -(fixed.2 : Int) + Decimal.digitCount fixed.1 - 1 := rfl
  exact ⟨fixedDecimal fixed, rfl, Or.inl rfl, by omega, by omega⟩

end Values

/-! ### The evaluator -/

structure Group.Sound (size : Nat) (g : Group) : Prop where
  sum : ∀ s ∈ g.sum, s.left.Sound size ∧ ∀ w ∈ s.whole, w.Sound size
  product : ∀ q ∈ g.product, q.left.Sound size

structure Progress.Sound (size : Nat) (p : Progress) : Prop where
  outer : ∀ g ∈ p.outer, g.Sound size
  group : p.group.Sound size
  operand : ∀ x ∈ p.operand, x.value.Sound size

namespace Group

variable {size : Nat} {g : Group} {x : Extended}

theorem sound_empty (size : Nat) : Group.empty.Sound size where
  sum := fun s h => by cases h
  product := fun q h => by cases h

theorem Sound.whole {w : Extended} (hg : g.Sound size) (h : g.whole = some w) : w.Sound size := by
  unfold Group.whole at h
  split at h
  · obtain ⟨s, hs, hw⟩ := Option.bind_eq_some_iff.mp h
    exact (hg.sum s hs).2 w hw
  · cases h

theorem ensures_signed (g : Group) (hx : x.Sound size) :
    Ensures (g.signed x) (Extended.Sound size) (Failure.Expected size) := by
  unfold Group.signed
  induction g.signs generalizing x with
  | nil => exact hx
  | cons minus signs ih =>
    rw [List.foldlM_cons]
    refine Ensures.bind (P := Extended.Sound size) ?_ fun y hy => ih hy
    split
    · obtain ⟨d, rfl, _⟩ := hx
      exact ensures_negated size d
    · exact hx

theorem ensures_closeProduct (hg : g.Sound size) (hx : x.Sound size) :
    Ensures (g.closeProduct x) (Extended.Sound size) (Failure.Expected size) := by
  unfold closeProduct
  refine (ensures_signed g hx).bind fun y hy => ?_
  cases hproduct : g.product with
  | none => exact hy
  | some q =>
    obtain ⟨a, ha, hleft⟩ := hg.product q hproduct
    obtain ⟨b, rfl, hb⟩ := hy
    show Ensures (Extended.finite <$> q.op.apply q.left (.finite b)) _ _
    rw [ha]
    exact (ensures_apply hleft hb).map fun d hd => ⟨d, rfl, hd⟩

theorem ensures_closeSum (hg : g.Sound size) (hx : x.Sound size) :
    Ensures (g.closeSum x) (Extended.Sound size) (Failure.Expected size) := by
  unfold closeSum
  refine (ensures_closeProduct hg hx).bind fun y hy => ?_
  cases hsum : g.sum with
  | none => exact hy
  | some s =>
    obtain ⟨a, ha, hleft⟩ := (hg.sum s hsum).1
    obtain ⟨b, rfl, hb⟩ := hy
    show Ensures (Extended.finite <$> Operator.apply _ s.left (.finite b)) _ _
    rw [ha]
    exact (ensures_apply hleft hb).map fun d hd => ⟨d, rfl, hd⟩

end Group

theorem Operand.ensures_withPercent {size : Nat} {x : Operand} {whole : Option Extended}
    (hx : x.value.Sound size) (hwhole : ∀ w ∈ whole, w.Sound size) :
    Ensures (x.withPercent whole) (fun y => y.value.Sound size) (Failure.Expected size) := by
  obtain ⟨a, ha, _⟩ := hx
  unfold withPercent
  have hok : ∀ d : Decimal, d.Sound size →
      Ensures (.ok (Operand.mk (.finite d) false)) (fun y => y.value.Sound size)
        (Failure.Expected size) := fun d hd => ⟨d, rfl, hd⟩
  split
  · obtain ⟨b, rfl, _⟩ := hwhole _ rfl
    rw [ha]
    exact (ensures_percentOf size b a).bind hok
  · rw [ha]
    exact (ensures_percent size a).bind hok

namespace Progress

variable {size nesting : Nat} {p : Progress} {x : Operand} {t : Token}

theorem sound_start (size : Nat) : start.Sound size where
  outer := fun g h => by cases h
  group := Group.sound_empty size
  operand := fun x h => by cases h

theorem ensures_checkDepth (hp : p.Sound size) :
    Ensures (p.checkDepth nesting) (Sound size) (Failure.Expected size) := by
  unfold checkDepth
  split
  · show Fault.tooComplex.family ∈ expressionFamilies
    decide
  · exact hp

theorem expected_number (size : Nat) (fault : Fault) (h : fault.family = .number) :
    (Failure.fault fault).Expected size := by
  show fault.family ∈ expressionFamilies
  rw [h]
  decide

theorem expected_misplaced (size : Nat) (p : Progress) (t : Token) :
    (Failure.fault (p.misplaced t)).Expected size := by
  unfold misplaced
  split
  · exact expected_number size (.unexpected t.text) rfl
  · show Fault.unbalanced.family ∈ expressionFamilies
    decide

theorem ensures_readOperand (hp : p.Sound size)
    (ht : t.kind = .number → IsNumeral size t.text) :
    Ensures (p.readOperand nesting t) (Sound size) (Failure.Expected size) := by
  unfold readOperand
  split
  · next hkind =>
    split
    · next y hy =>
      exact ⟨hp.outer, hp.group, fun z hz => by
        cases hz
        exact sound_of_ofText? (ht hkind) hy⟩
    · exact expected_number size _ rfl
  · refine ensures_checkDepth ⟨?_, Group.sound_empty size, fun z hz => by cases hz⟩
    intro g hg
    rcases List.mem_cons.mp hg with rfl | hg
    · exact hp.group
    · exact hp.outer g hg
  · split
    · exact expected_number size _ rfl
    · exact expected_number size _ rfl
  · split
    · exact ensures_checkDepth ⟨hp.outer, ⟨hp.group.sum, hp.group.product⟩, hp.operand⟩
    · exact ensures_checkDepth ⟨hp.outer, ⟨hp.group.sum, hp.group.product⟩, hp.operand⟩
    · exact expected_number size _ rfl
  · exact expected_number size _ rfl

theorem asWhole_sound (hx : x.value.Sound size) : ∀ w ∈ x.asWhole, w.Sound size := by
  intro w hw
  unfold Operand.asWhole at hw
  split at hw
  · cases hw
    exact hx
  · cases hw

theorem ensures_readOperator (hp : p.Sound size) (hx : x.value.Sound size) (op : Operator) :
    Ensures (p.readOperator x op) (Sound size) (Failure.Expected size) := by
  have hsum : ∀ minus : Bool, Ensures (do
      let left ← p.group.closeSum x.value
      .ok { p with group := ⟨some ⟨left, minus, x.asWhole⟩, none, []⟩, operand := none })
      (Sound size) (Failure.Expected size) := by
    intro minus
    refine (Group.ensures_closeSum hp.group hx).bind fun y hy => ?_
    refine ⟨hp.outer, ⟨?_, fun q hq => by cases hq⟩, fun z hz => by cases hz⟩
    intro s hs
    cases hs
    exact ⟨hy, asWhole_sound hx⟩
  have hproduct : Ensures (do
      let left ← p.group.closeProduct x.value
      .ok { p with group := ⟨p.group.sum, some ⟨left, op⟩, []⟩, operand := none })
      (Sound size) (Failure.Expected size) := by
    refine (Group.ensures_closeProduct hp.group hx).bind fun y hy => ?_
    refine ⟨hp.outer, ⟨hp.group.sum, ?_⟩, fun z hz => by cases hz⟩
    intro q hq
    cases hq
    exact hy
  cases op with
  | add => exact hsum false
  | sub => exact hsum true
  | mul => exact hproduct
  | div => exact hproduct
  | rem => exact hproduct

theorem ensures_readAfter (hp : p.Sound size) (hx : x.value.Sound size) (t : Token) :
    Ensures (p.readAfter x t) (Sound size) (Failure.Expected size) := by
  unfold readAfter
  split
  · refine (Operand.ensures_withPercent hx fun w hw => hp.group.whole hw).bind fun y hy => ?_
    exact ⟨hp.outer, hp.group, fun z hz => by
      cases hz
      exact hy⟩
  · refine (Group.ensures_closeSum hp.group hx).bind fun y hy => ?_
    cases houter : p.outer with
    | nil => exact expected_misplaced size p t
    | cons g outer =>
      have hmem := hp.outer
      rw [houter] at hmem
      exact ⟨fun g' hg' => hmem g' (List.mem_cons_of_mem g hg'), hmem g (List.mem_cons_self ..),
        fun z hz => by
          cases hz
          exact hy⟩
  · split
    · exact ensures_readOperator hp hx _
    · exact (Group.ensures_closeSum hp.group hx).bind fun _ _ => expected_misplaced size p t
  · exact (Group.ensures_closeSum hp.group hx).bind fun _ _ => expected_misplaced size p t

/-- One token keeps the values sound, or it is refused in an announced way. -/
theorem ensures_read (hp : p.Sound size) (ht : t.kind = .number → IsNumeral size t.text) :
    Ensures (p.read nesting t) (Sound size) (Failure.Expected size) := by
  unfold read
  cases hoperand : p.operand with
  | none => exact ensures_readOperand hp ht
  | some x => exact ensures_readAfter hp (hp.operand x hoperand) t

theorem ensures_readAll (hp : p.Sound size) {ts : List Token}
    (hts : AllNumbers (IsNumeral size) ts) :
    Ensures (p.readAll nesting ts) (Sound size) (Failure.Expected size) := by
  induction ts generalizing p with
  | nil => exact hp
  | cons t ts ih =>
    have ht : t.kind = .number → IsNumeral size t.text := by
      intro hkind
      have htoken : Token.number t.text = t := by
        cases t
        cases hkind
        rfl
      exact hts t.text (htoken ▸ List.mem_cons_self ..)
    exact (ensures_read hp ht).bind fun q hq => ih hq hts.tail

theorem ensures_finish (hp : p.Sound size) :
    Ensures p.finish (Extended.Sound size) (Failure.Expected size) := by
  unfold finish
  cases hoperand : p.operand with
  | none => exact expected_number size _ rfl
  | some x =>
    refine (Group.ensures_closeSum hp.group (hp.operand x hoperand)).bind fun y hy => ?_
    split
    · exact hy
    · show Fault.unbalanced.family ∈ expressionFamilies
      decide

end Progress

theorem ensures_compute (nesting : Nat) {size : Nat} {ts : List Token}
    (hts : AllNumbers (IsNumeral size) ts) :
    Ensures (compute nesting ts) (Extended.Sound size) (Failure.Expected size) :=
  (Progress.ensures_readAll (Progress.sound_start size) hts).bind fun _ hp =>
    Progress.ensures_finish hp

/-! ### Whole texts -/

theorem family_of_takeToken {c : Char} {rest : List Char} {fault : Fault}
    (h : takeToken c rest = .error fault) : fault.family = .number := by
  unfold takeToken at h
  split at h
  · cases h
  split at h
  · cases h
  split at h
  · cases h
  split at h
  · cases h
  split at h
  · cases h
  split at h
  · unfold takeNumber at h
    simp only at h
    split at h
    · cases h
      rfl
    · cases h
  · cases h
    rfl

theorem family_of_scan {cs : List Char} {fault : Fault} (h : scan cs = .error fault) :
    fault.family = .number := by
  fun_induction scan cs with
  | case1 => cases h
  | case2 c rest hblank ih => exact ih h
  | case3 c rest hblank fault' hfault =>
    cases h
    exact family_of_takeToken hfault
  | case4 c rest hblank t tail htoken hle ih =>
    cases htail : scan tail with
    | error fault' =>
      rw [htail] at h ih
      cases h
      exact ih rfl
    | ok us =>
      rw [htail] at h
      cases h

theorem family_of_tokenize {limit : Nat} {text : List Char} {fault : Fault}
    (h : tokenize limit text = .error fault) : fault.family = .number := by
  unfold tokenize at h
  simp only at h
  split at h
  · cases h
    rfl
  · split at h
    · cases h
      rfl
    · exact family_of_scan h

theorem ensures_evaluate (limits : Limits) (text : List Char) :
    Ensures (evaluate limits text) Decimal.IsResult
      (fun fault => fault.family ∈ expressionFamilies) := by
  have hrange : Fault.outOfRange.family ∈ expressionFamilies := by decide
  unfold evaluate
  cases htokens : tokenize limits.length text with
  | error fault =>
    show fault.family ∈ expressionFamilies
    rw [family_of_tokenize htokens]
    decide
  | ok ts =>
    rw [ok_bind]
    unfold checkParentheses
    split
    · rw [ok_bind]
      have hcompute := ensures_compute limits.nesting (isNumeral_of_tokenize htokens)
      cases hvalue : compute limits.nesting (resolvePercents ts) with
      | error failure =>
        rw [hvalue] at hcompute
        cases failure with
        | fault fault => exact hcompute
        | signal s => exact hrange
      | ok x =>
        rw [hvalue] at hcompute
        obtain ⟨d, rfl, hd⟩ := hcompute
        exact ensures_inRange hd.rounded hrange
    · show Fault.unbalanced.family ∈ expressionFamilies
      decide

/-! ### Operations on one value -/

theorem product_rounded {x y : Decimal} {n : Nat} (h : product x n = .ok y) :
    y.negative = false ∨ calculator.Contains y := by
  cases n with
  | zero =>
    cases h
    exact Or.inl rfl
  | succ n =>
    obtain ⟨z, _, hround⟩ := bind_eq_ok.mp h
    exact Or.inr (Context.contains_of_round (by decide) hround)

theorem overflow_of_product {x : Decimal} {n : Nat} {s : Signal} (h : product x n = .error s) :
    s = .overflow := by
  induction n with
  | zero => cases h
  | succ n ih =>
    rcases bind_eq_error.mp h with hproduct | ⟨y, _, hround⟩
    · exact ih hproduct
    · exact Context.overflow_of_round hround

/-- The families of faults that an operation on one value can have. -/
def unaryFamilies : List Family := [.range, .domain]

theorem Unary.ensures_apply (op : Unary) (x : Decimal) :
    Ensures (op.apply (.finite x)) Decimal.IsResult
      (fun fault => fault.family ∈ unaryFamilies) := by
  have hrange : Fault.outOfRange.family ∈ unaryFamilies := by decide
  have hpower : ∀ n, Ensures (power n (.finite x)) Decimal.IsResult
      (fun fault => fault.family ∈ unaryFamilies) := by
    intro n
    simp only [power]
    cases hproduct : product x n with
    | error s => exact hrange
    | ok y => exact ensures_inRange (product_rounded hproduct) hrange
  cases op with
  | square => exact hpower 2
  | cube => exact hpower 3
  | factorial =>
    show Ensures (PocketCalculator.factorial (.finite x)) _ _
    simp only [PocketCalculator.factorial]
    split
    · show Fault.notWhole.family ∈ unaryFamilies
      decide
    split
    · show Fault.negative.family ∈ unaryFamilies
      decide
    split
    · show Fault.tooLarge.family ∈ unaryFamilies
      decide
    · exact ensures_inRange (Or.inl rfl) hrange

/-- Every text has a fault of an expression, or its value is in range, and so are the values of the
operations on it that are not refused. Inside, the arithmetic signals nothing but an overflow,
unless the text has hundreds of quadrillions of characters; no text stands for an empty one. -/
theorem evaluate_total (limits : Limits) (text : Option (List Char)) :
    Ensures (evaluate limits (text.getD []))
      (fun d => d.IsResult ∧ ∀ op : Unary, Ensures (op.apply (.finite d)) Decimal.IsResult
        fun fault => fault.family ∈ unaryFamilies)
      (fun fault => fault.family ∈ expressionFamilies) ∧
    (∀ ts s, (text.getD []).length ≤ 4 * 10 ^ 17 → tokenize limits.length (text.getD []) = .ok ts →
      compute limits.nesting (resolvePercents ts) = .error (.signal s) → s = .overflow) ∧
    (∀ x n s, product x n = .error s → s = .overflow) := by
  refine ⟨?_, ?_, fun x n s h => overflow_of_product h⟩
  · refine Ensures.intro (fun d hd => ?_) fun fault hfault => ?_
    · exact ⟨(ensures_evaluate limits _).of_ok hd, fun op => op.ensures_apply d⟩
    · exact (ensures_evaluate limits _).of_error hfault
  · intro ts s hlength htokens hs
    have hexpected := (ensures_compute _ (isNumeral_of_tokenize htokens)).of_error hs
    refine hexpected ?_
    simp only [Context.maxPrecision]
    omega

end PocketCalculator
