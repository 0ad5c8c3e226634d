import PocketCalculator.Proofs.Expression.Grammar
import PocketCalculator.Proofs.Outcome

/-!
# Values in two arithmetics

If one arithmetic follows another step by step, then every tree that has a value in the second has
a related one in the first.
-/

namespace PocketCalculator

variable {ε ε' α β : Type} {A : Arithmetic ε α} {B : Arithmetic ε' β} {R : α → β → Prop}
  {texts : List Char → Prop}

/-- Where `B` has a value, `A` has one that `R` relates to it; of the number texts this is asked for
`texts` only. -/
structure Arithmetic.Follows (A : Arithmetic ε α) (B : Arithmetic ε' β) (R : α → β → Prop)
    (texts : List Char → Prop) : Prop where
  number : ∀ {text b}, texts text → B.number text = .ok b → ∃ a, A.number text = .ok a ∧ R a b
  negate : ∀ {x y b}, R x y → B.negate y = .ok b → ∃ a, A.negate x = .ok a ∧ R a b
  apply : ∀ {op x x' y y' b}, R x y → R x' y' → B.apply op y y' = .ok b →
    ∃ a, A.apply op x x' = .ok a ∧ R a b
  percent : ∀ {x y b}, R x y → B.percent y = .ok b → ∃ a, A.percent x = .ok a ∧ R a b
  percentOf : ∀ {x x' y y' b}, R x y → R x' y' → B.percentOf y y' = .ok b →
    ∃ a, A.percentOf x x' = .ok a ∧ R a b

namespace Arithmetic

theorem Follows.signed (h : A.Follows B R texts) {minus : Bool} {x : α} {y b : β} (hxy : R x y)
    (hb : B.signed minus y = .ok b) : ∃ a, A.signed minus x = .ok a ∧ R a b := by
  cases minus with
  | true => exact h.negate hxy hb
  | false =>
    cases hb
    exact ⟨x, rfl, hxy⟩

theorem Follows.marked (h : A.Follows B R texts) {v : Option α} {w : Option β}
    (hvw : Option.Rel R v w) {x : α} {y : β} (hxy : R x y) {k : Nat} {b : β}
    (hb : B.marked w y k = .ok b) : ∃ a, A.marked v x k = .ok a ∧ R a b := by
  induction k generalizing b with
  | zero =>
    cases hb
    exact ⟨x, rfl, hxy⟩
  | succ k ih =>
    cases k with
    | zero =>
      cases hvw with
      | none => exact h.percent hxy hb
      | some hvw => exact h.percentOf hvw hxy hb
    | succ k =>
      obtain ⟨b', hb', hb⟩ := bind_eq_ok.mp hb
      obtain ⟨a', ha', hr'⟩ := ih hb'
      obtain ⟨a, ha, hr⟩ := h.percent hr' hb
      exact ⟨a, bind_eq_ok.mpr ⟨a', ha', ha⟩, hr⟩

end Arithmetic

/-- The number texts of the tokens. -/
def AllNumbers (texts : List Char → Prop) (ts : List Token) : Prop :=
  ∀ text, Token.number text ∈ ts → texts text

theorem AllNumbers.left {ts us : List Token} (h : AllNumbers texts (ts ++ us)) :
    AllNumbers texts ts :=
  fun text ht => h text (List.mem_append_left us ht)

theorem AllNumbers.tail {us : List Token} {t : Token} (h : AllNumbers texts (t :: us)) :
    AllNumbers texts us :=
  fun text ht => h text (List.mem_cons_of_mem t ht)

theorem AllNumbers.right {ts us : List Token} {t : Token}
    (h : AllNumbers texts (ts ++ t :: us)) : AllNumbers texts us :=
  AllNumbers.tail fun text ht => h text (List.mem_append_right ts ht)

theorem AllNumbers.append {ts us : List Token} (h : AllNumbers texts ts)
    (h' : AllNumbers texts us) : AllNumbers texts (ts ++ us) :=
  fun text ht => (List.mem_append.mp ht).elim (h text) (h' text)

theorem AllNumbers.cons {us : List Token} {t : Token} (ht : ∀ text, .number text ≠ t)
    (h : AllNumbers texts us) : AllNumbers texts (t :: us) :=
  fun text hmem => h text ((List.mem_cons.mp hmem).resolve_left (ht text))

mutual

theorem Expr.value_follows (h : A.Follows B R texts) :
    ∀ (e : Expr) {b : β}, AllNumbers texts e.tokens → e.value B = .ok b →
      ∃ a, e.value A = .ok a ∧ R a b
  | .single t, _, ht, hb => t.value_follows h ht Option.Rel.none hb
  | .chain e minus t, b, ht, hb => by
    obtain ⟨y, hy, hb⟩ := bind_eq_ok.mp hb
    obtain ⟨w, hw, hb⟩ := bind_eq_ok.mp hb
    obtain ⟨y', hy', hb⟩ := bind_eq_ok.mp hb
    obtain ⟨x, hx, hxy⟩ := e.value_follows h ht.left hy
    obtain ⟨v, hv, hvw⟩ := e.whole_follows h ht.left hw
    obtain ⟨x', hx', hxy'⟩ := t.value_follows h ht.right hvw hy'
    obtain ⟨a, ha, hab⟩ := h.apply hxy hxy' hb
    refine ⟨a, ?_, hab⟩
    simp only [Expr.value, hx, hv, hx', ok_bind, ha]

theorem Expr.whole_follows (h : A.Follows B R texts) :
    ∀ (e : Expr) {w : Option β}, AllNumbers texts e.tokens → e.whole B = .ok w →
      ∃ v, e.whole A = .ok v ∧ Option.Rel R v w
  | .single t, _, ht, hw => t.whole_follows h ht hw
  | .chain _ _ t, _, ht, hw => t.whole_follows h ht.right hw

theorem Term.value_follows (h : A.Follows B R texts) :
    ∀ (t : Term) {v : Option α} {w : Option β} {b : β}, AllNumbers texts t.tokens →
      Option.Rel R v w → t.value B w = .ok b → ∃ a, t.value A v = .ok a ∧ R a b
  | .single f, _, _, _, ht, hvw, hb => f.value_follows h ht hvw hb
  | .chain t op f, v, w, b, ht, hvw, hb => by
    obtain ⟨y, hy, hb⟩ := bind_eq_ok.mp hb
    obtain ⟨y', hy', hb⟩ := bind_eq_ok.mp hb
    obtain ⟨x, hx, hxy⟩ := t.value_follows h ht.left hvw hy
    obtain ⟨x', hx', hxy'⟩ := f.value_follows h ht.right Option.Rel.none hy'
    obtain ⟨a, ha, hab⟩ := h.apply hxy hxy' hb
    refine ⟨a, ?_, hab⟩
    simp only [Term.value, hx, hx', ok_bind, ha]

theorem Term.whole_follows (h : A.Follows B R texts) :
    ∀ (t : Term) {w : Option β}, AllNumbers texts t.tokens → t.whole B = .ok w →
      ∃ v, t.whole A = .ok v ∧ Option.Rel R v w
  | .single f, _, ht, hw => f.whole_follows h ht hw
  | .chain _ _ f, _, ht, hw => f.whole_follows h ht.right hw

theorem Factor.value_follows (h : A.Follows B R texts) :
    ∀ (f : Factor) {v : Option α} {w : Option β} {b : β}, AllNumbers texts f.tokens →
      Option.Rel R v w → f.value B w = .ok b → ∃ a, f.value A v = .ok a ∧ R a b
  | .signed minus f, v, w, b, ht, _, hb => by
    obtain ⟨y, hy, hb⟩ := bind_eq_ok.mp hb
    obtain ⟨x, hx, hxy⟩ := f.value_follows h ht.tail Option.Rel.none hy
    obtain ⟨a, ha, hab⟩ := h.signed hxy hb
    refine ⟨a, ?_, hab⟩
    simp only [Factor.value, hx, ok_bind, ha]
  | .plain x percents, v, w, b, ht, hvw, hb => by
    obtain ⟨y, hy, hb⟩ := bind_eq_ok.mp hb
    obtain ⟨x', hx', hxy⟩ := x.value_follows h ht.left hy
    obtain ⟨a, ha, hab⟩ := h.marked hvw hxy hb
    refine ⟨a, ?_, hab⟩
    simp only [Factor.value, hx', ok_bind, ha]

theorem Factor.whole_follows (h : A.Follows B R texts) :
    ∀ (f : Factor) {w : Option β}, AllNumbers texts f.tokens → f.whole B = .ok w →
      ∃ v, f.whole A = .ok v ∧ Option.Rel R v w
  | .signed _ f, _, ht, hw => f.whole_follows h ht.tail hw
  | .plain x percents, w, ht, hw => by
    simp only [Factor.whole] at hw ⊢
    split at hw
    · next hzero =>
      obtain ⟨y, hy, rfl⟩ := map_eq_ok.mp hw
      obtain ⟨x', hx', hxy⟩ := x.value_follows h ht.left hy
      refine ⟨some x', ?_, Option.Rel.some hxy⟩
      rw [if_pos hzero, hx', ok_map]
    · next hpos =>
      cases hw
      exact ⟨none, if_neg hpos, Option.Rel.none⟩

theorem Primary.value_follows (h : A.Follows B R texts) :
    ∀ (x : Primary) {b : β}, AllNumbers texts x.tokens → x.value B = .ok b →
      ∃ a, x.value A = .ok a ∧ R a b
  | .number text, _, ht, hb => h.number (ht text (List.mem_singleton_self _)) hb
  | .group e, _, ht, hb => e.value_follows h ht.tail.left hb

end

end PocketCalculator
