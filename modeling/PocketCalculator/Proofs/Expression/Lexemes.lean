import PocketCalculator.Proofs.Display.Value
import PocketCalculator.Proofs.Expression.Remainders

/-!
# Lexemes

A text consists of the lexemes of its tokens, and of blanks. The scanner finds the tokens of a text
that is put together like this, if no number touches another one (`scan_of_cutInto`), and it accepts
no other text (`exists_cutInto`). So cutting a text into tokens loses nothing but blanks
(`tokenize_lossless`).
-/

namespace PocketCalculator

/-! ### Tokens in a text -/

namespace Token

/-- The tokens that a text can have. -/
inductive IsLexical : Token → Prop where
  | number {text : List Char} (chars : ∀ c ∈ text, isNumberChar c = true)
      (points : text.count '.' ≤ 1) (digit : ∃ c ∈ text, isDigitChar c = true) :
      IsLexical (number text)
  | operator {c : Char} (sign : c ∈ ['+', '-', '*', '/', '%']) : IsLexical (operator c)
  | percent : IsLexical percent
  | opening : IsLexical opening
  | closing : IsLexical closing

/-- How a token is written: the remainder operator as the word `mod` in any case, any other token
as its text. -/
def WrittenAs (t : Token) (lexeme : List Char) : Prop :=
  if t = .modulus then lexeme.map Char.toLower = "mod".toList else lexeme = t.text

def lexeme (t : Token) : List Char := if t = .modulus then "mod".toList else t.text

variable {t : Token} {lexeme : List Char} {c : Char}

theorem writtenAs_lexeme (t : Token) : t.WrittenAs t.lexeme := by
  unfold WrittenAs Token.lexeme
  split
  · rfl
  · rfl

theorem length_of_writtenAs (h : t.WrittenAs lexeme) : lexeme.length = t.lexeme.length := by
  unfold WrittenAs at h
  unfold Token.lexeme
  split at h
  · next hmodulus => rw [if_pos hmodulus, ← h, List.length_map]
  · next hmodulus => rw [if_neg hmodulus, h]

theorem writtenAs_iff (ht : t ≠ .modulus) : t.WrittenAs lexeme ↔ lexeme = t.text := by
  rw [WrittenAs, if_neg ht]

theorem writtenAs_modulus_iff {m o d : Char} :
    modulus.WrittenAs [m, o, d] ↔ m.toLower = 'm' ∧ o.toLower = 'o' ∧ d.toLower = 'd' := by
  simp [WrittenAs]

theorem exists_of_writtenAs_modulus (h : modulus.WrittenAs lexeme) :
    ∃ m o d, lexeme = [m, o, d] := by
  rw [WrittenAs, if_pos rfl] at h
  exact List.length_eq_three.mp (by simpa using congrArg List.length h)

theorem isNumeral_of_number {text : List Char} (chars : ∀ c ∈ text, isNumberChar c = true)
    (points : text.count '.' ≤ 1) (digit : ∃ c ∈ text, isDigitChar c = true) :
    IsNumeral text.length text := by
  obtain ⟨c, hc, hdigit⟩ := digit
  refine ⟨chars, points, List.ne_nil_of_mem hc, ?_, Nat.le_refl _⟩
  rintro rfl
  rw [List.mem_singleton.mp hc] at hdigit
  exact absurd hdigit (by decide)

/-- A numeral has a digit, because it has at most one point and is no point alone. -/
theorem isLexical_of_isNumeral {size : Nat} {text : List Char} (h : IsNumeral size text) :
    (number text).IsLexical := by
  refine .number h.chars h.points ?_
  by_contra hnone
  have hpoint : ∀ c ∈ text, c = '.' := fun c hc => by
    rcases Bool.or_eq_true_iff.mp (h.chars c hc) with hdigit | hpoint
    · exact absurd ⟨c, hc, hdigit⟩ hnone
    · exact of_decide_eq_true hpoint
  match text, h, hpoint with
  | [], h, _ => exact h.ne_nil rfl
  | [c], h, hpoint => exact h.ne_point (by rw [hpoint c List.mem_cons_self])
  | c :: d :: rest, h, hpoint =>
    have hpoints := h.points
    rw [hpoint c List.mem_cons_self, hpoint d (by simp)] at hpoints
    simp at hpoints

end Token

open Token

/-- No number goes on with this character. -/
def EndsNumber (c? : Option Char) : Prop := ∀ c ∈ c?, isNumberChar c = false

section Step

variable {t : Token} {lexeme rest tail : List Char} {c : Char}

theorem endsNumber_dropWhile (cs : List Char) : EndsNumber (cs.dropWhile isNumberChar).head? := by
  intro c hc
  have hhead := List.head?_dropWhile_not isNumberChar cs
  rw [Option.mem_def.mp hc] at hhead
  exact hhead

/-- The first token of a text is written at the beginning of it. -/
theorem writtenAs_of_takeToken (h : takeToken c rest = .ok (t, tail)) :
    t.IsLexical ∧ ∃ lexeme, c :: rest = lexeme ++ tail ∧ t.WrittenAs lexeme ∧
      (t.kind = .number → EndsNumber tail.head?) := by
  have hnumeral : ∀ text, t = .number text → IsNumeral (rest.length + 1) text := by
    rintro text rfl
    exact isNumeral_of_takeToken (Nat.lt_succ_self _) h
  rcases takeToken_cases h with ⟨hc, rfl, rfl⟩ | ⟨rfl, rfl, rfl⟩ | ⟨rfl, rfl, rfl⟩ |
    ⟨rfl, rfl, rfl⟩ | ⟨hmod, rfl, rfl⟩ | ⟨rfl, rfl⟩
  · have hmodulus : operator c ≠ modulus := by
      rintro ⟨⟩
      exact absurd hc (by decide)
    refine ⟨.operator (List.mem_append_left ['%'] hc), [c], rfl,
      (writtenAs_iff hmodulus).mpr rfl, fun hkind => by cases hkind⟩
  · exact ⟨.percent, ['%'], rfl, writtenAs_lexeme .percent, fun hkind => by cases hkind⟩
  · exact ⟨.opening, ['('], rfl, writtenAs_lexeme .opening, fun hkind => by cases hkind⟩
  · exact ⟨.closing, [')'], rfl, writtenAs_lexeme .closing, fun hkind => by cases hkind⟩
  · obtain ⟨o, d, rest', rfl⟩ : ∃ o d rest', rest = o :: d :: rest' :=
      match rest, (exists_of_startsWithMod hmod).2 with
      | o :: d :: rest', _ => ⟨o, d, rest', rfl⟩
    refine ⟨.operator (by decide), [c, o, d], rfl, ?_, fun hkind => by cases hkind⟩
    exact writtenAs_modulus_iff.mpr (startsWithMod_cons_iff.mp hmod)
  · refine ⟨isLexical_of_isNumeral (hnumeral _ rfl), _,
      (List.takeWhile_append_dropWhile ..).symm, (writtenAs_iff ?_).mpr rfl,
      fun _ => endsNumber_dropWhile _⟩
    exact fun hmodulus => by cases hmodulus

theorem takeWhile_number (hchars : ∀ c ∈ lexeme, isNumberChar c = true)
    (hend : EndsNumber tail.head?) :
    (lexeme ++ tail).takeWhile isNumberChar = lexeme ∧
      (lexeme ++ tail).dropWhile isNumberChar = tail := by
  rw [List.takeWhile_append_of_pos hchars, List.dropWhile_append_of_pos hchars]
  cases tail with
  | nil => exact ⟨List.append_nil _, rfl⟩
  | cons d tail =>
    have hd : ¬ isNumberChar d = true := by simp [hend d rfl]
    rw [List.takeWhile_cons, List.dropWhile_cons, if_neg hd, if_neg hd, List.append_nil]
    exact ⟨rfl, rfl⟩

theorem takeToken_of_startsWithMod (h : startsWithMod (c :: rest) = true) :
    takeToken c rest = .ok (.modulus, rest.drop 2) := by
  have hc := (exists_of_startsWithMod h).1
  have hother : ∀ {d : Char}, d.toLower ≠ 'm' → c ≠ d := by
    rintro d hd rfl
    exact hd hc
  have hsigns : ¬ (decide (c = '+') || decide (c = '-') || decide (c = '*') ||
      decide (c = '/')) = true := by
    simp [hother (d := '+') (by decide), hother (d := '-') (by decide),
      hother (d := '*') (by decide), hother (d := '/') (by decide)]
  rw [takeToken, if_neg hsigns, if_neg (hother (by decide)), if_neg (hother (by decide)),
    if_neg (hother (by decide)), if_pos h]

theorem solid_of_toLower {letter : Char} (h : c.toLower = letter)
    (hblank : isBlank letter = false) (hnumber : isNumberChar letter = false) :
    isBlank c = false ∧ isNumberChar c = false := by
  constructor
  · rw [← Bool.not_eq_true]
    intro hc
    rw [← h, toLower_of_isBlank hc, hc] at hblank
    cases hblank
  · rw [← Bool.not_eq_true]
    intro hc
    rw [← h, toLower_of_isNumberChar hc, hc] at hnumber
    cases hnumber

/-- A token is written as one sign, as the word, or as a number. -/
theorem writtenAs_cases (ht : t.IsLexical) (hwritten : t.WrittenAs lexeme) :
    (∃ c, lexeme = [c] ∧ t.kind ≠ .number ∧ isBlank c = false ∧ isNumberChar c = false ∧
      ∀ rest, takeToken c rest = .ok (t, rest)) ∨
    (∃ m o d, lexeme = [m, o, d] ∧ t = .modulus ∧
      m.toLower = 'm' ∧ o.toLower = 'o' ∧ d.toLower = 'd') ∨
    (t = .number lexeme ∧ IsNumeral lexeme.length lexeme) := by
  have htext : t ≠ .modulus → lexeme = t.text :=
    fun hmodulus => (writtenAs_iff hmodulus).mp hwritten
  cases ht with
  | number chars points digit =>
    rw [htext (fun hmodulus => by cases hmodulus)]
    exact .inr (.inr ⟨rfl, isNumeral_of_number chars points digit⟩)
  | operator sign =>
    simp only [List.mem_cons, List.not_mem_nil, or_false] at sign
    rcases sign with rfl | rfl | rfl | rfl | rfl
    · exact .inl ⟨'+', htext (by decide), by decide, by decide, by decide, fun _ => rfl⟩
    · exact .inl ⟨'-', htext (by decide), by decide, by decide, by decide, fun _ => rfl⟩
    · exact .inl ⟨'*', htext (by decide), by decide, by decide, by decide, fun _ => rfl⟩
    · exact .inl ⟨'/', htext (by decide), by decide, by decide, by decide, fun _ => rfl⟩
    · obtain ⟨m, o, d, rfl⟩ := exists_of_writtenAs_modulus hwritten
      exact .inr (.inl ⟨m, o, d, rfl, rfl, writtenAs_modulus_iff.mp hwritten⟩)
  | percent => exact .inl ⟨'%', htext (by decide), by decide, by decide, by decide, fun _ => rfl⟩
  | opening => exact .inl ⟨'(', htext (by decide), by decide, by decide, by decide, fun _ => rfl⟩
  | closing => exact .inl ⟨')', htext (by decide), by decide, by decide, by decide, fun _ => rfl⟩

/-- What is written at the beginning of a text is the first token of it. -/
theorem takeToken_of_writtenAs (ht : t.IsLexical) (hwritten : t.WrittenAs lexeme)
    (hend : t.kind = .number → EndsNumber tail.head?) :
    ∃ c rest, lexeme ++ tail = c :: rest ∧ isBlank c = false ∧
      takeToken c rest = .ok (t, tail) := by
  rcases writtenAs_cases ht hwritten with ⟨c, rfl, _, hblank, _, htoken⟩ |
    ⟨m, o, d, rfl, rfl, hletters⟩ | ⟨rfl, hnumeral⟩
  · exact ⟨c, tail, rfl, hblank, htoken tail⟩
  · have hmod : startsWithMod (m :: o :: d :: tail) = true :=
      startsWithMod_cons_iff.mpr hletters
    refine ⟨m, o :: d :: tail, rfl, ?_, takeToken_of_startsWithMod hmod⟩
    exact (solid_of_toLower hletters.1 (by decide) (by decide)).1
  · obtain ⟨hrun, hrest⟩ := takeWhile_number hnumeral.chars (hend rfl)
    obtain ⟨c, rest, rfl⟩ := List.exists_cons_of_ne_nil hnumeral.ne_nil
    have hc := hnumeral.chars c List.mem_cons_self
    have hpoints : ¬ (decide (1 < (c :: rest).count '.') || decide (c :: rest = ['.'])) = true := by
      simp [hnumeral.ne_point, Nat.not_lt.mpr hnumeral.points]
    refine ⟨c, rest ++ tail, rfl, isBlank_of_isNumberChar hc, ?_⟩
    rw [takeToken_of_isNumberChar hc, ← List.cons_append, takeNumber]
    simp only [hrun, hrest]
    exact if_neg hpoints

theorem scan_writtenAs (ht : t.IsLexical) (hwritten : t.WrittenAs lexeme)
    (hend : t.kind = .number → EndsNumber tail.head?) :
    scan (lexeme ++ tail) = (t :: ·) <$> scan tail := by
  obtain ⟨c, rest, hsplit, hblank, htoken⟩ := takeToken_of_writtenAs ht hwritten hend
  rw [hsplit, scan_cons hblank, htoken, ok_bind]

/-- A lexeme has no blanks, and digits and points are in those of numbers only. -/
theorem solid_of_writtenAs (ht : t.IsLexical) (hwritten : t.WrittenAs lexeme) (hc : c ∈ lexeme) :
    isBlank c = false ∧ (isNumberChar c = true ↔ t.kind = .number) := by
  rcases writtenAs_cases ht hwritten with ⟨d, rfl, hkind, hblank, hnumber, _⟩ |
    ⟨m, o, d, rfl, rfl, hm, ho, hd⟩ | ⟨rfl, hnumeral⟩
  · rw [List.mem_singleton.mp hc]
    exact ⟨hblank, iff_of_false (Bool.eq_false_iff.mp hnumber) hkind⟩
  · have hsolid : isBlank c = false ∧ isNumberChar c = false := by
      simp only [List.mem_cons, List.not_mem_nil, or_false] at hc
      rcases hc with rfl | rfl | rfl
      · exact solid_of_toLower hm (by decide) (by decide)
      · exact solid_of_toLower ho (by decide) (by decide)
      · exact solid_of_toLower hd (by decide) (by decide)
    exact ⟨hsolid.1, iff_of_false (Bool.eq_false_iff.mp hsolid.2) (by decide)⟩
  · have hnumber := hnumeral.chars c hc
    exact ⟨isBlank_of_isNumberChar hnumber, iff_of_true hnumber rfl⟩

end Step

/-! ### Texts -/

/-- A token where it stands in a text: behind some blanks, written in plain or typographic
signs. -/
structure Piece where
  gap : List Char
  lexeme : List Char
  token : Token
  blank : ∀ c ∈ gap, isBlank c = true
  lexical : token.IsLexical
  written : token.WrittenAs (lexeme.map plainSign)

/-- The text that the pieces make up, and its end. -/
def layOut : List Piece → List Char → List Char
  | [], tail => tail
  | p :: ps, tail => p.gap ++ (p.lexeme ++ layOut ps tail)

/-- The text consists of the lexemes of the tokens, and of blanks. -/
structure CutInto (text : List Char) (ts : List Token) (ps : List Piece) (tail : List Char) :
    Prop where
  text : layOut ps tail = text
  tokens : ps.map Piece.token = ts
  tail : ∀ c ∈ tail, isBlank c = true

/-- No number goes on behind its lexeme. -/
def Apart : List Piece → List Char → Prop
  | [], _ => True
  | p :: ps, tail =>
    (p.token.kind = .number → EndsNumber ((layOut ps tail).head?.map plainSign)) ∧ Apart ps tail

section Pieces

variable {p : Piece} {ps : List Piece} {text tail : List Char} {ts : List Token} {c : Char}

theorem Piece.solid (p : Piece) (hc : c ∈ p.lexeme) :
    isBlank c = false ∧ (isNumberChar (plainSign c) = true ↔ p.token.kind = .number) := by
  rw [← isBlank_plainSign]
  exact solid_of_writtenAs p.lexical p.written (List.mem_map_of_mem hc)

theorem endsNumber_of_isBlank (h : isBlank c = true) : EndsNumber (some (plainSign c)) := by
  rintro d ⟨⟩
  exact isNumberChar_of_isBlank ((isBlank_plainSign c).trans h)

/-- The scanner finds the tokens of a text. -/
theorem scan_of_cutInto (h : CutInto text ts ps tail) (hapart : Apart ps tail) :
    scan (text.map plainSign) = .ok ts := by
  obtain ⟨rfl, rfl, htail⟩ := h
  induction ps with
  | nil =>
    rw [layOut, ← List.append_nil (tail.map plainSign),
      scan_blanks_append (isBlank_of_mem_map htail), scan]
    rfl
  | cons p ps ih =>
    obtain ⟨hnumber, hrest⟩ := hapart
    rw [← List.head?_map] at hnumber
    rw [layOut, List.map_append, List.map_append, scan_blanks_append (isBlank_of_mem_map p.blank),
      scan_writtenAs p.lexical p.written hnumber, ih hrest]
    rfl

theorem CutInto.blank (h : CutInto text ts ps tail) (hapart : Apart ps tail)
    (hc : isBlank c = true) :
    ∃ ps' tail', CutInto (c :: text) ts ps' tail' ∧ Apart ps' tail' := by
  obtain ⟨rfl, rfl, htail⟩ := h
  cases ps with
  | nil => exact ⟨[], c :: tail, ⟨rfl, rfl, List.forall_mem_cons.mpr ⟨hc, htail⟩⟩, trivial⟩
  | cons p ps =>
    have hblank : ∀ d ∈ c :: p.gap, isBlank d = true := List.forall_mem_cons.mpr ⟨hc, p.blank⟩
    exact ⟨{ p with gap := c :: p.gap, blank := hblank } :: ps, tail, ⟨rfl, rfl, htail⟩, hapart⟩

/-- A text that is accepted is cut into its tokens. -/
theorem exists_cutInto (h : scan (text.map plainSign) = .ok ts) :
    ∃ ps tail, CutInto text ts ps tail ∧ Apart ps tail := by
  generalize hplain : text.map plainSign = plain at h
  fun_induction scan plain generalizing text ts with
  | case1 =>
    cases h
    exact ⟨[], [], ⟨(List.map_eq_nil_iff.mp hplain).symm, rfl, List.forall_mem_nil _⟩, trivial⟩
  | case2 c rest hblank ih =>
    obtain ⟨d, text, rfl, rfl, rfl⟩ := List.map_eq_cons_iff.mp hplain
    obtain ⟨ps, tail, hcut, hapart⟩ := ih rfl h
    exact hcut.blank hapart (isBlank_plainSign d ▸ hblank)
  | case3 c rest hblank fault hfault => cases h
  | case4 c rest hblank t more htoken hle ih =>
    obtain ⟨us, hus, rfl⟩ := map_eq_ok.mp h
    obtain ⟨hlexical, lexeme, hsplit, hwritten, hend⟩ := writtenAs_of_takeToken htoken
    rw [hsplit] at hplain
    obtain ⟨first, others, rfl, rfl, rfl⟩ := List.map_eq_append_iff.mp hplain
    obtain ⟨ps, tail, ⟨rfl, rfl, htail⟩, hapart⟩ := ih rfl hus
    rw [List.head?_map] at hend
    exact ⟨⟨[], first, t, List.forall_mem_nil _, hlexical, hwritten⟩ :: ps, tail,
      ⟨rfl, rfl, htail⟩, hend, hapart⟩

theorem layOut_append (ps : List Piece) (cs ds : List Char) :
    layOut ps (cs ++ ds) = layOut ps cs ++ ds := by
  induction ps with
  | nil => rfl
  | cons p ps ih => simp only [layOut, ih, List.append_assoc]

theorem layOut_concat (ps : List Piece) (p : Piece) (cs : List Char) :
    layOut (ps ++ [p]) cs = layOut ps (p.gap ++ (p.lexeme ++ cs)) := by
  induction ps with
  | nil => rfl
  | cons q ps ih => simp only [List.cons_append, layOut, ih]

theorem Piece.lexeme_ne_nil (p : Piece) : p.lexeme ≠ [] := by
  intro hnil
  have hwritten := p.written
  rw [hnil, List.map_nil] at hwritten
  rcases writtenAs_cases p.lexical hwritten with ⟨_, h, _⟩ | ⟨_, _, _, h, _⟩ | ⟨_, hnumeral⟩
  · cases h
  · cases h
  · exact hnumeral.ne_nil rfl

theorem takeWhile_gap (p : Piece) (cs : List Char) :
    (p.gap ++ (p.lexeme ++ cs)).takeWhile isBlank = p.gap := by
  obtain ⟨c, rest, hlexeme⟩ := List.exists_cons_of_ne_nil p.lexeme_ne_nil
  have hc := (p.solid (c := c) (by simp [hlexeme])).1
  rw [List.takeWhile_append_of_pos p.blank, hlexeme, List.cons_append, List.takeWhile_cons,
    if_neg (by simp [hc]), List.append_nil]

/-- A text can be cut into its tokens in one way only. -/
theorem layOut_injective {qs : List Piece} {tail' : List Char}
    (htokens : ps.map Piece.token = qs.map Piece.token) (h : layOut ps tail = layOut qs tail') :
    ps = qs ∧ tail = tail' := by
  induction ps generalizing qs with
  | nil =>
    obtain rfl := List.map_eq_nil_iff.mp htokens.symm
    exact ⟨rfl, h⟩
  | cons p ps ih =>
    obtain ⟨q, qs, rfl, htoken, htokens⟩ := List.map_eq_cons_iff.mp htokens.symm
    have hgap : p.gap = q.gap := by
      rw [← takeWhile_gap p (layOut ps tail), ← takeWhile_gap q (layOut qs tail')]
      exact congrArg (List.takeWhile isBlank) h
    rw [layOut, layOut, hgap] at h
    have hlength : p.lexeme.length = q.lexeme.length := by
      rw [← List.length_map plainSign, length_of_writtenAs p.written, ← htoken,
        ← length_of_writtenAs q.written, List.length_map]
    obtain ⟨hlexeme, hrest⟩ := List.append_inj (List.append_cancel_left h) hlength
    obtain ⟨rfl, rfl⟩ := ih htokens.symm hrest
    refine ⟨congrArg (· :: ps) ?_, rfl⟩
    cases p
    cases q
    cases hgap
    cases hlexeme
    cases htoken
    rfl

/-! ### No character is lost -/

theorem filter_blanks {cs : List Char} (h : ∀ c ∈ cs, isBlank c = true) :
    cs.filter (!isBlank ·) = [] :=
  List.filter_eq_nil_iff.mpr fun c hc => by simp [h c hc]

theorem filter_layOut (htail : ∀ c ∈ tail, isBlank c = true) :
    (layOut ps tail).filter (!isBlank ·) = (ps.map Piece.lexeme).flatten := by
  induction ps with
  | nil => exact filter_blanks htail
  | cons p ps ih =>
    have hlexeme : p.lexeme.filter (!isBlank ·) = p.lexeme :=
      List.filter_eq_self.mpr fun c hc => by simp [(p.solid hc).1]
    rw [layOut, List.filter_append, List.filter_append, filter_blanks p.blank, hlexeme, ih,
      List.map_cons, List.flatten_cons]
    rfl

theorem filter_trim (text : List Char) :
    (trim text).filter (!isBlank ·) = text.filter (!isBlank ·) := by
  obtain ⟨before, after, hbefore, hafter, htext⟩ := exists_trim text
  conv_rhs => rw [htext]
  rw [List.filter_append, List.filter_append, filter_blanks hbefore, filter_blanks hafter,
    List.append_nil, List.nil_append]

theorem filter_normalizeText (text : List Char) :
    (normalizeText text).filter (!isBlank ·) = (text.filter (!isBlank ·)).map plainSign := by
  rw [normalizeText, List.filter_map, ← filter_trim]
  refine congrArg (List.map plainSign) (List.filter_congr fun c _ => ?_)
  rw [Function.comp_apply, isBlank_plainSign]

/-! ### Numbers are whole -/

theorem Apart.append {qs : List Piece} (h : Apart (ps ++ qs) tail) : Apart qs tail := by
  induction ps with
  | nil => exact h
  | cons p ps ih => exact ih h.2

theorem getLast?_layOut (ps : List Piece) (cs : List Char) (c : Char) :
    (layOut ps (cs ++ [c])).getLast? = some c := by
  rw [layOut_append, List.getLast?_append]
  rfl

/-- What stands before a number is not part of one. -/
theorem endsNumber_before {front back : List Piece} (h : Apart (front ++ p :: back) tail)
    (hp : p.token.kind = .number) : EndsNumber ((layOut front p.gap).getLast?.map plainSign) := by
  rcases List.eq_nil_or_concat' p.gap with hgap | ⟨gap, c, hgap⟩
  · rw [hgap]
    rcases List.eq_nil_or_concat' front with rfl | ⟨front, q, rfl⟩
    · exact fun c hc => by cases hc
    · -- The lexeme before touches the number, so it is not a number itself.
      rw [List.append_assoc] at h
      have hq : q.token.kind ≠ .number := by
        intro hq
        have hend : EndsNumber ((layOut (p :: back) tail).head?.map plainSign) := h.append.1 hq
        obtain ⟨d, rest, hlexeme⟩ := List.exists_cons_of_ne_nil p.lexeme_ne_nil
        rw [layOut, hgap, hlexeme] at hend
        have hnumber := (p.solid (c := d) (by simp [hlexeme])).2.mpr hp
        rw [hend _ rfl] at hnumber
        cases hnumber
      rcases List.eq_nil_or_concat' q.lexeme with hnil | ⟨init, c, hlexeme⟩
      · exact absurd hnil q.lexeme_ne_nil
      · have hc := (q.solid (c := c) (by simp [hlexeme])).2.not.mpr hq
        rw [layOut_concat, hlexeme, List.append_nil, ← List.append_assoc, getLast?_layOut]
        rintro d ⟨⟩
        exact Bool.eq_false_iff.mpr hc
  · rw [hgap, getLast?_layOut]
    exact endsNumber_of_isBlank (p.blank c (by simp [hgap]))

/-! ### Blanks between tokens -/

/-- The same lexemes with other blanks around them, but not without blanks where there were some. -/
def Respaced : List Piece → List Piece → Prop :=
  List.Forall₂ fun p q => q.lexeme = p.lexeme ∧ q.token = p.token ∧ (q.gap = [] → p.gap = [])

theorem endsNumber_head? {c? : Option Char} (h : ∀ c ∈ c?, isBlank c = true) :
    EndsNumber (c?.map plainSign) := by
  cases c? with
  | none => exact fun c hc => by cases hc
  | some c => exact endsNumber_of_isBlank (h c rfl)

theorem Respaced.endsNumber {qs : List Piece} {tail' : List Char} (hps : Respaced ps qs)
    (htail' : ∀ c ∈ tail', isBlank c = true)
    (h : EndsNumber ((layOut ps tail).head?.map plainSign)) :
    EndsNumber ((layOut qs tail').head?.map plainSign) := by
  cases hps with
  | nil => exact endsNumber_head? fun c hc => htail' c (List.mem_of_mem_head? hc)
  | @cons p q ps qs hpq hps =>
    obtain ⟨hlexeme, _, hgap⟩ := hpq
    cases hq : q.gap with
    | nil =>
      obtain ⟨c, rest, hc⟩ := List.exists_cons_of_ne_nil p.lexeme_ne_nil
      rw [layOut, hgap hq, hc] at h
      rw [layOut, hq, hlexeme, hc]
      exact h
    | cons c gap =>
      rw [layOut, hq]
      exact endsNumber_of_isBlank (q.blank c (by simp [hq]))

theorem Respaced.apart {qs : List Piece} {tail' : List Char} (hps : Respaced ps qs)
    (htail' : ∀ c ∈ tail', isBlank c = true) (h : Apart ps tail) : Apart qs tail' := by
  induction hps with
  | nil => trivial
  | cons hpq hps ih =>
    refine ⟨fun hnumber => ?_, ih h.2⟩
    rw [hpq.2.1] at hnumber
    exact Respaced.endsNumber hps htail' (h.1 hnumber)

end Pieces

/-! ### Tokens with spaces between them -/

def spaced (ts : List Token) : List Char := [' '].intercalate (ts.map Token.lexeme)

section Spaced

variable {t : Token} {ts : List Token}

theorem map_plainSign_lexeme (ht : t.IsLexical) : t.lexeme.map plainSign = t.lexeme := by
  cases ht with
  | @number text chars points digit =>
    have hlexeme : (Token.number text).lexeme = text := if_neg (fun h => by cases h)
    rw [hlexeme]
    exact (List.map_congr_left fun c hc => plainSign_of_isNumberChar (chars c hc)).trans
      (List.map_id _)
  | operator sign =>
    simp only [List.mem_cons, List.not_mem_nil, or_false] at sign
    rcases sign with rfl | rfl | rfl | rfl | rfl <;> decide
  | percent => rfl
  | opening => rfl
  | closing => rfl

theorem scan_spaced (hts : ∀ t ∈ ts, t.IsLexical) :
    scan ((spaced ts).map plainSign) = .ok ts := by
  induction ts with
  | nil => rw [spaced, List.map_nil, List.intercalate_nil, List.map_nil, scan]
  | cons t ts ih =>
    have ht := hts t List.mem_cons_self
    have hrest := ih fun u hu => hts u (List.mem_cons_of_mem t hu)
    have hlexeme := map_plainSign_lexeme ht
    cases ts with
    | nil =>
      rw [spaced, List.map_singleton, List.intercalate_singleton, hlexeme,
        ← List.append_nil t.lexeme, scan_writtenAs ht t.writtenAs_lexeme ?_, scan]
      · rfl
      · exact fun _ c hc => by cases hc
    | cons u us =>
      have hsplit : spaced (t :: u :: us) = t.lexeme ++ ([' '] ++ spaced (u :: us)) := by
        simp only [spaced, List.map_cons, List.intercalate_cons_cons, List.append_assoc]
      have hspace : isBlank ' ' = true := by decide
      rw [hsplit, List.map_append, List.map_append, hlexeme,
        scan_writtenAs ht t.writtenAs_lexeme ?_, List.map_singleton, List.singleton_append,
        scan_cons_blank ((isBlank_plainSign ' ').trans hspace), hrest]
      · rfl
      · exact fun _ => endsNumber_of_isBlank hspace

end Spaced

/-! ### Texts and their tokens -/

section Lossless

variable {limit : Nat} {text : List Char} {ts : List Token}

theorem tokenize_of_scan (hscan : scan (text.map plainSign) = .ok ts) (hts : ts ≠ [])
    (hlength : (trim text).length ≤ limit) : tokenize limit text = .ok ts := by
  have hne : trim text ≠ [] := by
    intro hnil
    have hblank := isBlank_of_mem_map (trim_eq_nil_iff.mp hnil)
    rw [← List.append_nil (text.map plainSign), scan_blanks_append hblank, scan] at hscan
    exact hts (Except.ok.inj hscan).symm
  rw [tokenize_eq, if_neg hne, if_neg (Nat.not_lt.mpr hlength)]
  exact hscan

theorem scan_ne_nil_of_tokenize (h : tokenize limit text = .ok ts) :
    scan (text.map plainSign) = .ok ts ∧ ts ≠ [] := by
  rw [tokenize_eq] at h
  split at h
  · cases h
  · next hne =>
    split at h
    · cases h
    · obtain ⟨ps, tail, hcut, _⟩ := exists_cutInto h
      refine ⟨h, fun hnil => hne (trim_eq_nil_iff.mpr ?_)⟩
      have hps : ps = [] := List.map_eq_nil_iff.mp (hcut.tokens.trans hnil)
      rw [← hcut.text, hps]
      exact hcut.tail

/-- Tokens that are written with spaces between them are found again. A text that is accepted is cut
into its tokens: nothing but blanks is left out, and the characters on both sides of a number are
not part of one. More blanks between the tokens, or others, change nothing. -/
theorem tokenize_lossless (limits : Limits) :
    (∀ ts, ts ≠ [] → (∀ t ∈ ts, t.IsLexical) → (spaced ts).length ≤ limits.length →
      tokenize limits.length (spaced ts) = .ok ts) ∧
    ∀ text ts, tokenize limits.length text = .ok ts →
      (∃ ps tail, CutInto text ts ps tail ∧ (∀ t ∈ ts, t.IsLexical) ∧
        (ps.map Piece.lexeme).flatten.map plainSign = (normalizeText text).filter (!isBlank ·) ∧
        ∀ front p back, ps = front ++ p :: back → p.token.kind = .number →
          EndsNumber ((layOut front p.gap).getLast?.map plainSign) ∧
            EndsNumber ((layOut back tail).head?.map plainSign)) ∧
      ∀ ps tail, CutInto text ts ps tail → ∀ text' qs tail', CutInto text' ts qs tail' →
        Respaced ps qs → (trim text').length ≤ limits.length →
          tokenize limits.length text' = .ok ts ∧ evaluate limits text' = evaluate limits text := by
  refine ⟨fun ts hts hlexical hlength => ?_, fun text ts h => ?_⟩
  · exact tokenize_of_scan (scan_spaced hlexical) hts ((length_trim_le _).trans hlength)
  · obtain ⟨hscan, hts⟩ := scan_ne_nil_of_tokenize h
    obtain ⟨ps, tail, hcut, hapart⟩ := exists_cutInto hscan
    constructor
    · refine ⟨ps, tail, hcut, fun t ht => ?_, ?_, ?_⟩
      · obtain ⟨p, _, rfl⟩ := List.mem_map.mp (hcut.tokens ▸ ht)
        exact p.lexical
      · rw [filter_normalizeText, ← hcut.text, filter_layOut hcut.tail]
      · rintro front p back rfl hp
        exact ⟨endsNumber_before hapart hp, hapart.append.1 hp⟩
    · intro qs tail' hcut' text' rs tail'' hcut'' hspaced hlength
      obtain ⟨rfl, rfl⟩ := layOut_injective (hcut'.tokens.trans hcut.tokens.symm)
        (hcut'.text.trans hcut.text.symm)
      have hscan' := scan_of_cutInto hcut'' (hspaced.apart hcut''.tail hapart)
      have htokens := tokenize_of_scan hscan' hts hlength
      refine ⟨htokens, ?_⟩
      rw [evaluate_eq_tokenize, evaluate_eq_tokenize, htokens, h]

/-- A comma and a word in capitals, and then blanks around the word. -/
theorem tokenize_lossless_of_word :
    tokenize 9 (spaced [.number "3.5".toList, .modulus, .number "2".toList]) =
        .ok [.number "3.5".toList, .modulus, .number "2".toList] ∧
      evaluate (.ofLength 12) " 3,5 MOD\t2 ".toList =
        evaluate (.ofLength 12) " 3,5MOD2".toList := by
  have hspace : ∀ c ∈ [' '], isBlank c = true := List.forall_mem_singleton.mpr (by decide)
  have htab : ∀ c ∈ ['\t'], isBlank c = true := List.forall_mem_singleton.mpr (by decide)
  have hfirst : "3.5".toList.all isNumberChar = true := by decide
  let first : Piece := ⟨[' '], "3,5".toList, .number "3.5".toList, hspace,
    .number (List.all_eq_true.mp hfirst) (by decide) ⟨'3', by decide, by decide⟩,
    (writtenAs_iff (by decide)).mpr (by decide)⟩
  let word : Piece := ⟨[], "MOD".toList, .modulus, List.forall_mem_nil _,
    .operator (by decide), writtenAs_modulus_iff.mpr (by decide)⟩
  let last : Piece := ⟨[], "2".toList, .number "2".toList, List.forall_mem_nil _,
    .number (List.forall_mem_singleton.mpr (by decide)) (by decide) ⟨'2', by decide, by decide⟩,
    (writtenAs_iff (by decide)).mpr (by decide)⟩
  have hcut : CutInto " 3,5MOD2".toList [first.token, word.token, last.token]
      [first, word, last] [] := ⟨rfl, rfl, List.forall_mem_nil _⟩
  have hspaced : CutInto " 3,5 MOD\t2 ".toList [first.token, word.token, last.token]
      [first, { word with gap := [' '], blank := hspace },
        { last with gap := ['\t'], blank := htab }] [' '] := ⟨rfl, rfl, hspace⟩
  have hrespaced : Respaced [first, word, last]
      [first, { word with gap := [' '], blank := hspace },
        { last with gap := ['\t'], blank := htab }] :=
    .cons ⟨rfl, rfl, id⟩ (.cons ⟨rfl, rfl, fun _ => rfl⟩ (.cons ⟨rfl, rfl, fun _ => rfl⟩ .nil))
  have htokens : tokenize 12 " 3,5MOD2".toList =
      .ok [.number "3.5".toList, .modulus, .number "2".toList] := by decide +kernel
  constructor
  · refine (tokenize_lossless (.ofLength 9)).1 _ (by decide) ?_ (by decide)
    simp only [List.forall_mem_cons, List.not_mem_nil, false_implies, implies_true, and_true]
    exact ⟨first.lexical, word.lexical, last.lexical⟩
  · obtain ⟨_, hsame⟩ := (tokenize_lossless (.ofLength 12)).2 _ _ htokens
    exact (hsame _ _ hcut _ _ _ hspaced hrespaced (by decide)).2

end Lossless

end PocketCalculator
