import PocketCalculator.Proofs.Expression.Interruption
import PocketCalculator.Proofs.Keypad.FixedPoint
import PocketCalculator.Proofs.Keypad.Reports

/-!
# Lengths of lines

A line that is typed is meant to be no longer than the limit of the expressions that are evaluated.
Characters keep to it, but a percent sign goes behind a line that is full, and a result that is
longer than the limit can become a line that is being typed. Nothing else makes a line too long, and
the lines that are too long are those that are refused for it (`typed_lines_fit_iff`).
-/

namespace PocketCalculator

/-! ### Expressions that are too long -/

/-- A value, or a failure for another reason than the length of the text. -/
def FitsLimit {α : Type} (x : Except Failure α) : Prop :=
  Ensures x (fun _ => True) fun failure => failure.toFault ≠ .tooLong

section FitsLimit

variable {α β : Type}

theorem Calculates.fitsLimit {x : Except Failure α} (h : Calculates x) : FitsLimit x := by
  refine Ensures.intro (fun _ _ => trivial) fun failure hfailure hlong => ?_
  have hfamily := Ensures.of_error h hfailure
  rw [hlong] at hfamily
  exact absurd hfamily (by decide)

theorem FitsLimit.bind {x : Except Failure α} {f : α → Except Failure β} (hx : FitsLimit x)
    (hf : ∀ a, FitsLimit (f a)) : FitsLimit (x >>= f) :=
  Ensures.bind hx fun a _ => hf a

theorem fitsLimit_ok (a : α) : FitsLimit (.ok a : Except Failure α) := trivial

theorem fitsLimit_fault {fault : Fault} (h : fault ≠ .tooLong) :
    FitsLimit (.error (.fault fault) : Except Failure α) := h

end FitsLimit

namespace Progress

variable (nesting : Nat) (p : Progress) (t : Token)

theorem fitsLimit_checkDepth : FitsLimit (p.checkDepth nesting) := by
  unfold checkDepth
  split
  · exact fitsLimit_fault (by decide)
  · exact fitsLimit_ok _

theorem fitsLimit_readOperand : FitsLimit (p.readOperand nesting t) := by
  unfold readOperand
  split
  · split
    · exact fitsLimit_ok _
    · exact fitsLimit_fault (by decide)
  · exact fitsLimit_checkDepth nesting _
  · split
    · exact fitsLimit_fault (by decide)
    · exact fitsLimit_fault (fun h => by cases h)
  · split
    · exact fitsLimit_checkDepth nesting _
    · exact fitsLimit_checkDepth nesting _
    · exact fitsLimit_fault (fun h => by cases h)
  · exact fitsLimit_fault (fun h => by cases h)

theorem fitsLimit_readOperator (x : Operand) (op : Operator) :
    FitsLimit (p.readOperator x op) := by
  cases op with
  | add => exact (p.group.calculates_closeSum _).fitsLimit.bind fun _ => fitsLimit_ok _
  | sub => exact (p.group.calculates_closeSum _).fitsLimit.bind fun _ => fitsLimit_ok _
  | mul => exact (p.group.calculates_closeProduct _).fitsLimit.bind fun _ => fitsLimit_ok _
  | div => exact (p.group.calculates_closeProduct _).fitsLimit.bind fun _ => fitsLimit_ok _
  | rem => exact (p.group.calculates_closeProduct _).fitsLimit.bind fun _ => fitsLimit_ok _

theorem misplaced_ne_tooLong : p.misplaced t ≠ .tooLong := by
  unfold misplaced
  split
  · exact fun h => by cases h
  · decide

theorem fitsLimit_readAfter (x : Operand) : FitsLimit (p.readAfter x t) := by
  have hsum := (p.group.calculates_closeSum x.value).fitsLimit
  have hmisplaced : FitsLimit (.error (.fault (p.misplaced t)) : Except Failure Progress) :=
    fitsLimit_fault (p.misplaced_ne_tooLong t)
  unfold readAfter
  split
  · exact (x.calculates_withPercent _).fitsLimit.bind fun _ => fitsLimit_ok _
  · refine hsum.bind fun _ => ?_
    split
    · exact hmisplaced
    · exact fitsLimit_ok _
  · split
    · exact p.fitsLimit_readOperator x _
    · exact hsum.bind fun _ => hmisplaced
  · exact hsum.bind fun _ => hmisplaced

theorem fitsLimit_read : FitsLimit (p.read nesting t) := by
  unfold read
  split
  · exact p.fitsLimit_readOperand nesting t
  · exact p.fitsLimit_readAfter t _

theorem fitsLimit_readAll (ts : List Token) : FitsLimit (p.readAll nesting ts) := by
  induction ts generalizing p with
  | nil => exact fitsLimit_ok p
  | cons t ts ih => exact (p.fitsLimit_read nesting t).bind ih

theorem fitsLimit_finish : FitsLimit p.finish := by
  unfold finish
  split
  · exact fitsLimit_fault (by decide)
  · refine (p.group.calculates_closeSum _).fitsLimit.bind fun _ => ?_
    split
    · exact fitsLimit_ok _
    · exact fitsLimit_fault (by decide)

end Progress

theorem fitsLimit_compute (nesting : Nat) (ts : List Token) : FitsLimit (compute nesting ts) :=
  (Progress.start.fitsLimit_readAll nesting ts).bind fun p => p.fitsLimit_finish

theorem takeToken_ne_tooLong (c : Char) (rest : List Char) :
    takeToken c rest ≠ .error .tooLong := by
  intro h
  unfold takeToken at h
  split at h
  · cases h
  split at h
  · cases h
  split at h
  · cases h
  split at h
  · cases h
  split at h
  · cases h
  split at h
  · unfold takeNumber at h
    simp only at h
    split at h
    · cases h
    · cases h
  · cases h

theorem scan_ne_tooLong (cs : List Char) : scan cs ≠ .error .tooLong := by
  fun_induction scan cs with
  | case1 => exact fun h => by cases h
  | case2 c rest hblank ih => exact ih
  | case3 c rest hblank fault hfault =>
    rintro ⟨⟩
    exact takeToken_ne_tooLong c rest hfault
  | case4 c rest hblank t tail htoken hle ih =>
    intro h
    cases htail : scan tail with
    | ok us =>
      rw [htail] at h
      cases h
    | error fault =>
      rw [htail] at h
      cases h
      exact ih htail

theorem evaluateTokens_ne_tooLong (nesting : Nat) (ts : List Token) :
    evaluateTokens nesting ts ≠ .error .tooLong := by
  intro h
  rcases bind_eq_error.mp h with hparentheses | ⟨_, _, h⟩
  · unfold checkParentheses at hparentheses
    split at hparentheses
    · cases hparentheses
    · cases hparentheses
  · rcases bind_eq_error.mp h with hcompute | ⟨v, _, hrange⟩
    · have hfits := fitsLimit_compute nesting (resolvePercents ts)
      cases hvalue : compute nesting (resolvePercents ts) with
      | ok v =>
        rw [hvalue] at hcompute
        cases hcompute
      | error failure =>
        rw [hvalue] at hcompute
        exact hfits.of_error hvalue (Except.error.inj hcompute)
    · cases outOfRange_of_inRange hrange

/-- Only the length of a text makes it too long. -/
theorem evaluate_eq_tooLong_iff {limits : Limits} {text : List Char} (hne : trim text ≠ []) :
    evaluate limits text = .error .tooLong ↔ limits.length < (trim text).length := by
  rw [evaluate_eq_tokenize, tokenize_eq, if_neg hne]
  constructor
  · intro h
    by_contra hlength
    rw [if_neg hlength] at h
    rcases bind_eq_error.mp h with hscan | ⟨ts, _, htokens⟩
    · exact scan_ne_tooLong _ hscan
    · exact evaluateTokens_ne_tooLong _ ts htokens
  · intro hlength
    rw [if_pos hlength]
    rfl

/-! ### What is shown for it -/

theorem head?_toList_append {s : String} (hs : s.toList ≠ []) (t : String) :
    (s ++ t).toList.head? = s.toList.head? := by
  rw [String.toList_append, List.head?_append_of_ne_nil _ hs]

theorem Fault.eq_tooLong_of_text {fault : Fault}
    (h : fault.text.toList = Fault.tooLong.text.toList) : fault = .tooLong := by
  rw [fault.text_toList, Fault.text_toList] at h
  have hmessage : fault.message.toList = Fault.tooLong.message.toList := List.append_cancel_left h
  cases fault with
  | tooLong => rfl
  | invalidCharacter c =>
    have hhead : (invalidCharacter c).message.toList.head? = some 'I' :=
      head?_toList_append (by decide) _
    rw [hmessage] at hhead
    exact absurd hhead (by decide)
  | unexpected text =>
    have hhead : (unexpected text).message.toList.head? = some 'U' := by
      refine (head?_toList_append ?_ _).trans (head?_toList_append (by decide) _)
      rw [String.toList_append]
      exact List.append_ne_nil_of_left_ne_nil (by decide) _
    rw [hmessage] at hhead
    exact absurd hhead (by decide)
  | _ => exact absurd hmessage (by decide)

theorem Unary.apply_ne_tooLong (op : Unary) (x : Decimal) :
    op.apply (.finite x) ≠ .error .tooLong := by
  intro h
  have hfamily := (op.ensures_apply x).of_error h
  exact absurd hfamily (by decide)

theorem Display.shown_ne_tooLong (x : Decimal) : shown x ≠ .error .tooLong := by
  unfold shown
  cases number standardPlaces (.finite x) with
  | ok text => exact fun h => by cases h
  | error e => exact fun h => by cases h

namespace Keypad

variable {s : Keypad} {code : List Char}

theorem display_showOutcome_iff (s : Keypad) {outcome : Except Fault (List Char)}
    (h : ∀ text, outcome = .ok text → Unbroken text) :
    (s.showOutcome outcome).1.display = Fault.tooLong.text.toList ↔
      outcome = .error .tooLong := by
  cases houtcome : outcome with
  | ok text =>
    rw [← houtcome]
    have hlegible := s.legible_showOutcome h
    have hresult : (s.showOutcome outcome).1.phase = .result := by rw [houtcome]; rfl
    refine iff_of_false (fun hdisplay => ?_) (by simp [houtcome])
    have herror := (isErrorText_display_iff hlegible).mp (hdisplay ▸ isErrorText_text _)
    rw [hresult] at herror
    cases herror
  | error fault =>
    have hdisplay : (s.showOutcome (.error fault)).1.display = fault.text.toList :=
      display_of_line fault.text_ne_nil
    rw [hdisplay, Except.error.injEq]
    exact ⟨Fault.eq_tooLong_of_text, fun hfault => hfault ▸ rfl⟩

theorem evaluate_line_iff (hline : WellFormed s.line) :
    evaluate s.limits s.line = .error .tooLong ↔ s.limits.length < s.line.length := by
  have htrim : trim s.line = s.line := trim_eq_self hline.unbroken
  have hne : trim s.line ≠ [] := by
    rw [htrim]
    exact hline.nonempty
  rw [evaluate_eq_tooLong_iff hne, htrim]

theorem display_equals_iff (hs : s.Orderly) (hphase : s.phase = .typing) :
    s.equals.1.display = Fault.tooLong.text.toList ↔ s.limits.length < s.line.length := by
  have hline := hs.wellFormed (s := s) (by simp [hphase])
  rw [equals_of_typing hphase hline.nonempty, ← evaluate_line_iff hline,
    display_showOutcome_iff]
  · constructor
    · intro h
      rcases bind_eq_error.mp h with h | ⟨x, _, hshown⟩
      · exact h
      · exact absurd hshown (Display.shown_ne_tooLong x)
    · intro h
      rw [h]
      rfl
  · intro text h
    obtain ⟨x, _, hshown⟩ := bind_eq_ok.mp h
    exact Display.unbroken_shown hshown

theorem display_applyUnary_iff (hs : s.Orderly) (hphase : s.phase = .typing) (op : Unary) :
    (s.applyUnary op).1.display = Fault.tooLong.text.toList ↔ s.limits.length < s.line.length := by
  have hline := hs.wellFormed (s := s) (by simp [hphase])
  unfold applyUnary
  rw [if_neg (by simp [hphase]), ← evaluate_line_iff hline, display_showOutcome_iff]
  · constructor
    · intro h
      rcases bind_eq_error.mp h with h | ⟨x, _, h⟩
      · exact h
      · rcases bind_eq_error.mp h with happly | ⟨y, _, hshown⟩
        · exact absurd happly (op.apply_ne_tooLong x)
        · exact absurd hshown (Display.shown_ne_tooLong y)
    · intro h
      rw [h]
      rfl
  · intro text h
    obtain ⟨x, _, h⟩ := bind_eq_ok.mp h
    obtain ⟨y, _, hshown⟩ := bind_eq_ok.mp h
    exact Display.unbroken_shown hshown

/-- The keys that evaluate what stands on the line. -/
def evaluatingCodes : List (List Char) := [['='], "SQ".toList, "CUBE".toList, "FACT".toList]

theorem display_press_iff (hs : s.Orderly) (hphase : s.phase = .typing)
    (hcode : code ∈ evaluatingCodes) :
    (s.press code).1.display = Fault.tooLong.text.toList ↔ s.limits.length < s.line.length := by
  simp only [evaluatingCodes, List.mem_cons, List.not_mem_nil, or_false] at hcode
  rcases hcode with rfl | rfl | rfl | rfl
  · exact display_equals_iff hs hphase
  · exact display_applyUnary_iff hs hphase .square
  · exact display_applyUnary_iff hs hphase .cube
  · exact display_applyUnary_iff hs hphase .factorial

/-! ### Lines that fit -/

/-- What is typed is no longer than the limit. -/
def Fits (s : Keypad) : Prop := s.phase = .typing → s.line.length ≤ s.limits.length

theorem fits_iff_of_typing (h : s.phase = .typing) : s.Fits ↔ s.line.length ≤ s.limits.length :=
  ⟨fun hfits => hfits h, fun hlength _ => hlength⟩

theorem fits_of_ne_typing (h : s.phase ≠ .typing) : s.Fits := fun htyping => absurd htyping h

/-- The line that a percent sign is put behind: a zero takes the place of an error. -/
def clearedLine (s : Keypad) : List Char := if s.phase = .failure then blankLine else s.line

/-- The keys that make a line longer than the limit: a percent sign behind a full line, and, on a
result that is itself too long, a key that goes on with it. -/
inductive Overflows (s : Keypad) (code : List Char) : Prop where
  | percent (key : code = ['%']) (bare : s.clearedLine.getLast? ≠ some '%')
    (full : s.limits.length ≤ s.clearedLine.length)
  | delete (key : code = "DEL".toList) (phase : s.phase = .result)
    (long : s.limits.length + 1 < s.line.length)
  | operator (key : code ∈ operatorCodes) (phase : s.phase = .result)
    (long : s.limits.length < s.line.length)

theorem overflows_singleton_iff {c : Char} (hpercent : c ≠ '%') :
    s.Overflows [c] ↔
      s.phase = .result ∧ isOperatorSign c = true ∧ s.limits.length < s.line.length := by
  constructor
  · intro h
    cases h with
    | percent key => exact absurd (List.singleton_inj.mp key) hpercent
    | delete key =>
      have hlength : 1 = "DEL".toList.length := congrArg List.length key
      exact absurd hlength (by decide)
    | operator key phase long => exact ⟨phase, singleton_mem_operatorCodes.mp key, long⟩
  · rintro ⟨hphase, hc, hlong⟩
    exact .operator (singleton_mem_operatorCodes.mpr hc) hphase hlong

theorem overflows_percent_iff :
    s.Overflows ['%'] ↔
      s.clearedLine.getLast? ≠ some '%' ∧ s.limits.length ≤ s.clearedLine.length := by
  constructor
  · intro h
    cases h with
    | percent _ bare full => exact ⟨bare, full⟩
    | delete key =>
      have hlength : 1 = "DEL".toList.length := congrArg List.length key
      exact absurd hlength (by decide)
    | operator key => exact absurd key (by decide)
  · rintro ⟨hbare, hfull⟩
    exact .percent rfl hbare hfull

theorem overflows_delete_iff :
    s.Overflows "DEL".toList ↔ s.phase = .result ∧ s.limits.length + 1 < s.line.length := by
  constructor
  · intro h
    cases h with
    | percent key => exact absurd key (by decide)
    | delete _ phase long => exact ⟨phase, long⟩
    | operator key => exact absurd key (by decide)
  · rintro ⟨hphase, hlong⟩
    exact .delete rfl hphase hlong

theorem not_overflows {code : List Char} (hpercent : code ≠ ['%']) (hdelete : code ≠ "DEL".toList)
    (hoperator : code ∉ operatorCodes) : ¬ s.Overflows code := by
  intro h
  cases h with
  | percent key => exact hpercent key
  | delete key => exact hdelete key
  | operator key => exact hoperator key

theorem fits_append_iff {c : Char} (hlimit : 0 < s.limits.length) (hfits : s.Fits)
    (hpercent : c ≠ '%') : (s.append c).1.Fits ↔ ¬ s.Overflows [c] := by
  have hone : [c].length ≤ s.limits.length := hlimit
  rw [overflows_singleton_iff hpercent]
  cases hphase : s.phase with
  | typing =>
    refine iff_of_true ?_ (by simp)
    have hstart : s.startTyping c = s := by simp only [startTyping, hphase]
    simp only [append, hstart]
    split
    · exact fun _ => hone
    split
    · exact hfits
    split
    · exact hfits
    · next hroom =>
      intro _
      simp only [changed, List.length_append, List.length_singleton]
      omega
  | failure =>
    rw [append_anew hlimit (.inl hphase)]
    exact iff_of_true (fun _ => hone) (by simp)
  | result =>
    cases hc : isOperatorSign c with
    | false =>
      rw [append_anew hlimit (.inr ⟨hphase, hc⟩)]
      exact iff_of_true (fun _ => hone) (by simp)
    | true =>
      rw [append_operator hphase hc]
      split
      · next hblank =>
        have hlength : s.line.length ≤ 1 := by
          rcases isBlankLine_iff.mp hblank with h | h
          · simp [h]
          · simp [h, blankLine]
        refine iff_of_true (fun _ => hone) ?_
        rintro ⟨_, _, hlong⟩
        omega
      split
      · simp only [Fits, true_implies, true_and, Nat.not_lt]
      · next hroom =>
        refine iff_of_true (fun _ => ?_) ?_
        · simp only [changed, List.length_append, List.length_singleton]
          omega
        · rintro ⟨_, _, hlong⟩
          omega

theorem clearedLine_ne_nil (hs : s.Orderly) : s.clearedLine ≠ [] := by
  unfold clearedLine
  split
  · decide
  · next hphase => exact (hs.wellFormed hphase).nonempty

theorem togglePercent_eq (hs : s.Orderly) :
    s.togglePercent.1.phase = .typing ∧ s.togglePercent.1.limits = s.limits ∧
      s.togglePercent.1.line =
        if s.clearedLine.getLast? = some '%' then s.clearedLine.dropLast
        else s.clearedLine ++ ['%'] := by
  have hne := clearedLine_ne_nil hs
  have hline : (if s.phase = .failure then s.clear.1 else s).line = s.clearedLine ∧
      (if s.phase = .failure then s.clear.1 else s).limits = s.limits := by
    unfold clearedLine
    split
    · rcases s.clear_cases with ⟨hblank, _, h⟩ | h
      · rw [h]
        exact ⟨hblank, rfl⟩
      · rw [h]
        exact ⟨rfl, rfl⟩
    · exact ⟨rfl, rfl⟩
  simp only [togglePercent]
  generalize (if s.phase = .failure then s.clear.1 else s) = t at hline ⊢
  obtain ⟨hline, hlimit⟩ := hline
  refine ⟨rfl, hlimit, ?_⟩
  rw [← hline] at hne ⊢
  simp only [changed]
  split
  · next hblank =>
    rw [(isBlankLine_iff.mp hblank).resolve_left hne]
    rfl
  · rfl

theorem percent_not_mem_of_result (hs : s.Orderly) (hphase : s.phase = .result) :
    '%' ∉ s.line := by
  cases hs with
  | result _ x shown =>
    obtain ⟨t, ht⟩ := Display.isNumberText_of_shown shown
    rw [← ht]
    intro hmem
    rcases t.cases_of_mem hmem with h | h | h
    · exact absurd h (by decide)
    · exact absurd h (by decide)
    · exact absurd h (by decide)
  | typing phase =>
    rw [hphase] at phase
    cases phase
  | failure phase =>
    rw [hphase] at phase
    cases phase

theorem fits_togglePercent_iff (hs : s.Orderly) (hfits : s.Fits) :
    s.togglePercent.1.Fits ↔ ¬ s.Overflows ['%'] := by
  obtain ⟨hphase, hlimit, hline⟩ := togglePercent_eq hs
  rw [overflows_percent_iff, fits_iff_of_typing hphase, hlimit, hline]
  split
  · next hlast =>
    refine iff_of_true ?_ (fun h => h.1 hlast)
    -- Only of a line that is being typed a percent sign is taken back.
    have htyping : s.clearedLine = s.line ∧ s.phase = .typing := by
      unfold clearedLine at hlast ⊢
      cases hphase : s.phase with
      | typing => exact ⟨rfl, rfl⟩
      | failure =>
        rw [if_pos hphase] at hlast
        exact absurd hlast (by decide)
      | result =>
        rw [if_neg (by simp [hphase])] at hlast
        exact absurd (List.mem_of_getLast? hlast) (percent_not_mem_of_result hs hphase)
    have hlength := hfits htyping.2
    rw [htyping.1, List.length_dropLast]
    omega
  · next hlast =>
    simp only [List.length_append, List.length_singleton, ne_eq, hlast, not_false_eq_true,
      true_and]
    omega

theorem fits_clear (hlimit : 0 < s.limits.length) : s.clear.1.Fits := by
  have hone : blankLine.length ≤ s.limits.length := hlimit
  rcases s.clear_cases with ⟨hline, _, h⟩ | h
  · rw [h]
    exact fun _ => hline ▸ hone
  · rw [h]
    exact fun _ => hone

theorem fits_delete_iff (hlimit : 0 < s.limits.length) (hfits : s.Fits) :
    s.delete.1.Fits ↔ ¬ s.Overflows "DEL".toList := by
  rw [overflows_delete_iff]
  unfold delete
  split
  · next hphase => exact iff_of_true (fits_clear hlimit) (by simp [hphase])
  split
  · next hlength =>
    refine iff_of_true ?_ (by omega)
    split
    · exact hfits
    · exact fun _ => hlimit
  · next hlength =>
    simp only [Fits, changed, true_implies, List.length_dropLast]
    constructor
    · omega
    · intro hnot
      by_cases hresult : s.phase = .result
      · have hlong : ¬ s.limits.length + 1 < s.line.length := fun hlong => hnot ⟨hresult, hlong⟩
        omega
      · next hphase =>
        have hshort : s.line.length ≤ s.limits.length := hfits (by cases h : s.phase <;> simp_all)
        omega

theorem fits_showOutcome (s : Keypad) (outcome : Except Fault (List Char)) :
    (s.showOutcome outcome).1.Fits := by
  cases outcome with
  | ok text => exact fits_of_ne_typing (by simp [showOutcome, changed])
  | error fault => exact fits_of_ne_typing (by simp [showOutcome, showFault, changed])

theorem fits_equals (hfits : s.Fits) : s.equals.1.Fits := by
  unfold equals
  split
  · exact hfits
  · exact s.fits_showOutcome _

theorem fits_applyUnary (hfits : s.Fits) (op : Unary) : (s.applyUnary op).1.Fits := by
  unfold applyUnary
  split
  · exact hfits
  · exact s.fits_showOutcome _

theorem Action.fits_iff {f : Keypad → Keypad × Bool} (hf : Action code f)
    (hlimit : 0 < s.limits.length) (hs : s.Orderly) (hfits : s.Fits) :
    (f s).1.Fits ↔ ¬ s.Overflows code := by
  cases hf with
  | append mem percent => exact fits_append_iff hlimit hfits percent
  | togglePercent => exact fits_togglePercent_iff hs hfits
  | equals =>
    exact iff_of_true (fits_equals hfits) (not_overflows (by decide) (by decide) (by decide))
  | clear =>
    exact iff_of_true (fits_clear hlimit) (not_overflows (by decide) (by decide) (by decide))
  | delete => exact fits_delete_iff hlimit hfits
  | applyUnary op =>
    refine iff_of_true (fits_applyUnary hfits op) (not_overflows ?_ ?_ ?_)
    · cases op <;> decide
    · cases op <;> decide
    · cases op <;> decide
  | unchanged unknown =>
    refine iff_of_true hfits (not_overflows ?_ ?_ ?_)
    · rintro rfl
      exact absurd unknown (by decide)
    · rintro rfl
      exact absurd unknown (by decide)
    · intro hcode
      have hknown : ∀ code ∈ operatorCodes, Key.ofCode? code ≠ none := by decide
      exact hknown code hcode unknown

/-- A line that fits goes on to fit, unless the key is one that overflows. -/
theorem fits_press_iff (hlimit : 0 < s.limits.length) (hs : s.Orderly) (hfits : s.Fits)
    (code : List Char) : (s.press code).1.Fits ↔ ¬ s.Overflows code :=
  (action_press code).fits_iff hlimit hs hfits

/-! ### Runs -/

theorem length_of_result {limits : Limits} {codes : List (List Char)}
    (hresult : ((fresh limits).pressAll codes).phase = .result) :
    ((fresh limits).pressAll codes).line.length ≤ 310 := by
  have hshows := showsResult_pressAll (showsResult_of_typing (s := fresh limits) rfl) codes
  obtain ⟨x, hx, hcontains, hshown⟩ := hshows hresult
  obtain ⟨t, ht, hrepresentable⟩ := exists_numberText_of_shown hx hcontains hshown
  rw [← ht]
  exact t.length_text_le (Nat.le_refl 8) hrepresentable

/-- Under a limit of 310 or more, as the standard one is, no result is too long, and only a percent
sign overflows. -/
theorem percent_of_overflows {limits : Limits} (hlimit : 310 ≤ limits.length)
    {codes : List (List Char)} {code : List Char}
    (h : ((fresh limits).pressAll codes).Overflows code) : code = ['%'] := by
  have hkept : ((fresh limits).pressAll codes).limits = limits :=
    (orderly_pressAll (s := fresh limits) (Nat.lt_of_lt_of_le (by decide) hlimit)
      (orderly_fresh limits) codes).2
  cases h with
  | percent key => exact key
  | delete _ phase long =>
    have hlength := length_of_result phase
    rw [hkept] at long
    omega
  | operator _ phase long =>
    have hlength := length_of_result phase
    rw [hkept] at long
    omega

theorem pressAll_concat (s : Keypad) (codes : List (List Char)) (code : List Char) :
    s.pressAll (codes ++ [code]) = ((s.pressAll codes).press code).1 :=
  pressAll_append s codes [code]

theorem fits_pressAll_iff (hlimit : 0 < s.limits.length) (hs : s.Orderly) (hfits : s.Fits)
    (codes : List (List Char)) :
    (∀ typed, typed <+: codes → (s.pressAll typed).Fits) ↔
      ∀ typed code, typed ++ [code] <+: codes → ¬ (s.pressAll typed).Overflows code := by
  have hstep : ∀ typed code, (s.pressAll typed).Fits →
      ((s.pressAll (typed ++ [code])).Fits ↔ ¬ (s.pressAll typed).Overflows code) := by
    intro typed code hfits
    obtain ⟨horderly, hkept⟩ := orderly_pressAll hlimit hs typed
    rw [pressAll_concat]
    exact fits_press_iff (hkept ▸ hlimit) horderly hfits code
  constructor
  · intro hall typed code hprefix
    exact (hstep typed code (hall typed ((List.prefix_append ..).trans hprefix))).mp
      (hall _ hprefix)
  · intro hnone typed
    -- The line fits before the last key, and that key does not overflow.
    induction typed using List.reverseRecOn with
    | nil => exact fun _ => hfits
    | append_singleton typed code ih =>
      intro hprefix
      have hbefore := ih ((List.prefix_append ..).trans hprefix)
      exact (hstep typed code hbefore).mpr (hnone typed code hprefix)

/-- Whatever keys are pressed on a new keypad, what is typed is never longer than the limit, if and
only if no percent sign is put behind a full line and no result that is too long is gone on with.
What is typed is refused as too long if and only if it is longer than the limit. -/
theorem typed_lines_fit_iff {limits : Limits} (hlimit : 0 < limits.length)
    (codes : List (List Char)) :
    ((∀ typed, typed <+: codes → ((fresh limits).pressAll typed).phase = .typing →
        ((fresh limits).pressAll typed).line.length ≤ limits.length) ↔
      ∀ typed code, typed ++ [code] <+: codes →
        ¬ ((fresh limits).pressAll typed).Overflows code) ∧
    (((fresh limits).pressAll codes).phase = .typing → ∀ code ∈ evaluatingCodes,
      (((fresh limits).pressAll (codes ++ [code])).display = "Error: Expression too long".toList ↔
        limits.length < ((fresh limits).pressAll codes).line.length)) := by
  have hkept := fun typed =>
    orderly_pressAll (s := fresh limits) hlimit (orderly_fresh limits) typed
  constructor
  · rw [← fits_pressAll_iff hlimit (orderly_fresh limits) (fun _ => hlimit) codes]
    refine forall_congr' fun typed => ?_
    rw [Fits, (hkept typed).2]
    rfl
  · intro hphase code hcode
    have hiff := display_press_iff (hkept codes).1 hphase hcode
    rw [(hkept codes).2] at hiff
    rw [pressAll_concat]
    exact hiff

/-- The result of `1/3` is too long, and it is still too long when its last digit is taken back. -/
theorem typed_lines_fit_iff_of_third :
    let codes := "1/3=".toList.map List.singleton ++ ["DEL".toList]
    (¬ ∀ typed, typed <+: codes → ((fresh (.ofLength 3)).pressAll typed).phase = .typing →
      ((fresh (.ofLength 3)).pressAll typed).line.length ≤ 3) ∧
    ((fresh (.ofLength 3)).pressAll (codes ++ ["SQ".toList])).display =
      "Error: Expression too long".toList := by
  intro codes
  obtain ⟨hfit, hrefused⟩ := @typed_lines_fit_iff (.ofLength 3) (by decide) codes
  refine ⟨fun hall => ?_, (hrefused ?_ _ ?_).mpr ?_⟩
  · refine hfit.mp hall ("1/3=".toList.map List.singleton) "DEL".toList (List.prefix_refl _) ?_
    exact .delete rfl (by decide +kernel) (by decide +kernel)
  · decide +kernel
  · decide
  · decide +kernel

/-- The line is full when the percent sign is put behind it, and the equals key refuses what has
been typed. -/
theorem percent_behind_full_line :
    ((fresh (.ofLength 3)).pressAll ("123%".toList.map List.singleton)).phase = .typing ∧
      3 < ((fresh (.ofLength 3)).pressAll ("123%".toList.map List.singleton)).line.length ∧
      ((fresh (.ofLength 3)).pressAll ("123%=".toList.map List.singleton)).display =
        "Error: Expression too long".toList := by
  decide +kernel

end Keypad

end PocketCalculator
