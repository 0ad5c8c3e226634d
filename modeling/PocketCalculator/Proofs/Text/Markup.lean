import Mathlib.Data.List.Infix
import PocketCalculator.Text.Markup

/-!
# Reading markup

A reader cuts markup at its tags and decodes the entities between them. It finds what was escaped as
it was (`encodes_escape`), and no other tags than those that were laid out (`cut_write`).
-/

namespace PocketCalculator.Markup

/-- The characters that are written as entities. -/
def markupChars : List Char := ['&', '<', '>', '"', '\'']

def entities : List (List Char) :=
  ["&amp;".toList, "&lt;".toList, "&gt;".toList, "&quot;".toList, "&#x27;".toList]

/-- The text with the characters that its entities stand for. -/
def decode : List Char → List Char
  | '&' :: 'a' :: 'm' :: 'p' :: ';' :: cs => '&' :: decode cs
  | '&' :: 'l' :: 't' :: ';' :: cs => '<' :: decode cs
  | '&' :: 'g' :: 't' :: ';' :: cs => '>' :: decode cs
  | '&' :: 'q' :: 'u' :: 'o' :: 't' :: ';' :: cs => '"' :: decode cs
  | '&' :: '#' :: 'x' :: '2' :: '7' :: ';' :: cs => '\'' :: decode cs
  | c :: cs => c :: decode cs
  | [] => []

/-- Text without brackets, where every ampersand begins an entity. -/
structure IsPlain (cs : List Char) : Prop where
  brackets : ∀ c ∈ cs, c ≠ '<' ∧ c ≠ '>'
  ampersands : ∀ rest, '&' :: rest <:+ cs → ∃ e ∈ entities, e <+: '&' :: rest

/-- Text that means the same in markup and outside. -/
def Inert (cs : List Char) : Prop := ∀ c ∈ cs, c ≠ '&' ∧ c ≠ '<' ∧ c ≠ '>'

instance (cs : List Char) : Decidable (Inert cs) := List.decidableBAll _ cs

/-- Text in markup, and what it is read as. -/
structure Encodes (markup shown : List Char) : Prop where
  plain : IsPlain markup
  decode_eq : decode markup = shown

section Text

variable {c : Char} {cs ds rest shown : List Char}

theorem escapeChar_of_not_mem (h : c ∉ markupChars) : escapeChar c = [c] := by
  unfold escapeChar
  split
  · exact absurd (by decide) h
  · exact absurd (by decide) h
  · exact absurd (by decide) h
  · exact absurd (by decide) h
  · exact absurd (by decide) h
  · rfl

theorem escape_cons (c : Char) (cs : List Char) : escape (c :: cs) = escapeChar c ++ escape cs :=
  List.flatMap_cons

/-! ### Entities are decoded -/

theorem decode_cons (h : c ≠ '&') (cs : List Char) : decode (c :: cs) = c :: decode cs := by
  conv_lhs => unfold decode
  split <;> simp_all

theorem decode_append (h : Inert cs) (rest : List Char) :
    decode (cs ++ rest) = cs ++ decode rest := by
  induction cs with
  | nil => rfl
  | cons c cs ih =>
    have htail : Inert cs := fun d hd => h d (List.mem_cons_of_mem c hd)
    rw [List.cons_append, decode_cons (h c List.mem_cons_self).1, ih htail, List.cons_append]

theorem decode_entity (h : c ∈ markupChars) (rest : List Char) :
    decode (escapeChar c ++ rest) = c :: decode rest := by
  simp only [markupChars, List.mem_cons, List.not_mem_nil, or_false] at h
  rcases h with rfl | rfl | rfl | rfl | rfl
  all_goals simp only [escapeChar, List.cons_append, List.nil_append, decode]

theorem decode_escape_append (cs rest : List Char) :
    decode (escape cs ++ rest) = cs ++ decode rest := by
  induction cs with
  | nil => rfl
  | cons c cs ih =>
    rw [escape_cons, List.append_assoc, List.cons_append]
    by_cases hc : c ∈ markupChars
    · rw [decode_entity hc, ih]
    · have hamp : c ≠ '&' := by
        rintro rfl
        exact hc (by decide)
      rw [escapeChar_of_not_mem hc, List.singleton_append, decode_cons hamp, ih]

/-! ### Escaped text is plain -/

theorem isPlain_nil : IsPlain [] :=
  ⟨fun c hc => absurd hc List.not_mem_nil, fun rest hrest => by simp at hrest⟩

theorem IsPlain.not_mem (h : IsPlain cs) : '<' ∉ cs := fun hmem => (h.brackets _ hmem).1 rfl

theorem IsPlain.cons (hamp : c ≠ '&') (hbrackets : c ≠ '<' ∧ c ≠ '>') (h : IsPlain cs) :
    IsPlain (c :: cs) where
  brackets d hd := by
    rcases List.mem_cons.mp hd with rfl | hd
    · exact hbrackets
    · exact h.brackets d hd
  ampersands rest hrest := by
    rcases List.suffix_cons_iff.mp hrest with heq | hsuffix
    · injection heq with heq _
      exact absurd heq.symm hamp
    · exact h.ampersands rest hsuffix

theorem IsPlain.append (hcs : Inert cs) (h : IsPlain rest) : IsPlain (cs ++ rest) := by
  induction cs with
  | nil => exact h
  | cons c cs ih =>
    obtain ⟨hamp, hbrackets⟩ := hcs c List.mem_cons_self
    exact (ih fun d hd => hcs d (List.mem_cons_of_mem c hd)).cons hamp hbrackets

theorem IsPlain.entity (hc : c ∈ markupChars) (h : IsPlain rest) :
    IsPlain (escapeChar c ++ rest) := by
  obtain ⟨hmem, hbody, hinert⟩ : escapeChar c ∈ entities ∧
      escapeChar c = '&' :: (escapeChar c).tail ∧ Inert (escapeChar c).tail := by
    simp only [markupChars, List.mem_cons, List.not_mem_nil, or_false] at hc
    rcases hc with rfl | rfl | rfl | rfl | rfl <;> decide
  generalize (escapeChar c).tail = body at hbody hinert
  have htail : IsPlain (body ++ rest) := h.append hinert
  rw [hbody, List.cons_append]
  refine ⟨fun d hd => ?_, fun after hafter => ?_⟩
  · rcases List.mem_cons.mp hd with rfl | hd
    · decide
    · exact htail.brackets d hd
  · rcases List.suffix_cons_iff.mp hafter with heq | hsuffix
    · refine ⟨escapeChar c, hmem, ?_⟩
      rw [heq, hbody]
      exact ⟨rest, rfl⟩
    · exact htail.ampersands after hsuffix

theorem IsPlain.escape_append (cs : List Char) (h : IsPlain rest) :
    IsPlain (escape cs ++ rest) := by
  induction cs with
  | nil => exact h
  | cons c cs ih =>
    rw [escape_cons, List.append_assoc]
    by_cases hc : c ∈ markupChars
    · exact ih.entity hc
    · have hne : c ≠ '&' ∧ c ≠ '<' ∧ c ≠ '>' := by
        refine ⟨?_, ?_, ?_⟩ <;> rintro rfl <;> exact hc (by decide)
      rw [escapeChar_of_not_mem hc, List.singleton_append]
      exact ih.cons hne.1 hne.2

/-! ### Embedded text -/

theorem encodes_nil : Encodes [] [] := ⟨isPlain_nil, rfl⟩

theorem Encodes.append (h : Encodes rest shown) (hcs : Inert cs) :
    Encodes (cs ++ rest) (cs ++ shown) :=
  ⟨h.plain.append hcs, by rw [decode_append hcs, h.decode_eq]⟩

theorem Encodes.escape_append (h : Encodes rest shown) (cs : List Char) :
    Encodes (escape cs ++ rest) (cs ++ shown) :=
  ⟨h.plain.escape_append cs, by rw [decode_escape_append, h.decode_eq]⟩

theorem Inert.encodes (h : Inert cs) : Encodes cs cs := by
  rw [← List.append_nil cs]
  exact encodes_nil.append h

theorem encodes_escape (cs : List Char) : Encodes (escape cs) cs := by
  have happend := encodes_nil.escape_append cs
  rwa [List.append_nil, List.append_nil] at happend

theorem escape_injective (h : escape cs = escape ds) : cs = ds := by
  rw [← (encodes_escape cs).decode_eq, h, (encodes_escape ds).decode_eq]

theorem code_injective (h : code cs = code ds) : cs = ds :=
  escape_injective (List.append_cancel_left (List.append_cancel_right h))

end Text

/-! ### Tags -/

/-- Markup that has been cut at its tags: the text before the first one, and each tag with the text
after it. -/
structure Layout where
  front : List Char
  tagged : List (List Char × List Char)
  deriving DecidableEq

namespace Layout

def writeTagged (tagged : List (List Char × List Char)) : List Char :=
  tagged.flatMap fun p => '<' :: p.1 ++ '>' :: p.2

def write (l : Layout) : List Char := l.front ++ writeTagged l.tagged

def decoded (l : Layout) : Layout :=
  ⟨decode l.front, l.tagged.map fun p => (p.1, decode p.2)⟩

end Layout

/-- The markup cut at its tags. A tag goes from an opening bracket to the next closing one. -/
def cut : List Char → Layout
  | [] => ⟨[], []⟩
  | c :: cs =>
    let rest := cut cs
    if c = '<' then
      ⟨[], (rest.front.takeWhile (· ≠ '>'), (rest.front.dropWhile (· ≠ '>')).drop 1) :: rest.tagged⟩
    else ⟨c :: rest.front, rest.tagged⟩

theorem cut_append {cs : List Char} (h : '<' ∉ cs) (rest : List Char) :
    cut (cs ++ rest) = ⟨cs ++ (cut rest).front, (cut rest).tagged⟩ := by
  induction cs with
  | nil => rfl
  | cons c cs ih =>
    rw [List.mem_cons, not_or] at h
    rw [List.cons_append, cut, ih h.2]
    exact if_neg (Ne.symm h.1)

theorem cut_tag {tag text rest : List Char} (htag : '<' ∉ tag ∧ '>' ∉ tag) (htext : '<' ∉ text)
    (hrest : (cut rest).front = []) :
    cut ('<' :: tag ++ '>' :: text ++ rest) = ⟨[], (tag, text) :: (cut rest).tagged⟩ := by
  have hname : ∀ c ∈ tag, decide (c ≠ '>') = true := fun c hc =>
    decide_eq_true fun heq => htag.2 (heq ▸ hc)
  have hpiece : '<' ∉ tag ++ '>' :: text := by
    simp only [List.mem_append, List.mem_cons, not_or]
    exact ⟨htag.1, by decide, htext⟩
  rw [List.cons_append, List.cons_append, cut, if_pos rfl, cut_append hpiece, hrest,
    List.append_nil, List.takeWhile_append_of_pos hname, List.dropWhile_append_of_pos hname,
    List.takeWhile_cons_of_neg (by decide), List.dropWhile_cons_of_neg (by decide),
    List.append_nil]
  rfl

theorem cut_writeTagged {tagged : List (List Char × List Char)}
    (h : ∀ p ∈ tagged, ('<' ∉ p.1 ∧ '>' ∉ p.1) ∧ '<' ∉ p.2) :
    cut (Layout.writeTagged tagged) = ⟨[], tagged⟩ := by
  induction tagged with
  | nil => rfl
  | cons p tagged ih =>
    have hrest := ih fun q hq => h q (List.mem_cons_of_mem p hq)
    obtain ⟨htag, htext⟩ := h p List.mem_cons_self
    calc cut (Layout.writeTagged (p :: tagged))
        = cut ('<' :: p.1 ++ '>' :: p.2 ++ Layout.writeTagged tagged) := rfl
      _ = ⟨[], (p.1, p.2) :: tagged⟩ := by rw [cut_tag htag htext (by rw [hrest]), hrest]

theorem cut_write {l : Layout} (hfront : '<' ∉ l.front)
    (htagged : ∀ p ∈ l.tagged, ('<' ∉ p.1 ∧ '>' ∉ p.1) ∧ '<' ∉ p.2) : cut l.write = l := by
  rw [Layout.write, cut_append hfront, cut_writeTagged htagged, List.append_nil]

example : cut "1 <b>&lt;</b>".toList =
    ⟨"1 ".toList, [("b".toList, "&lt;".toList), ("/b".toList, [])]⟩ := by
  decide

/-! ### Readers -/

/-- A reader of the markup sees these texts between these tags, and nothing in the markup is
anything else than a tag, an entity or a character that stands for itself. -/
structure ReadsAs (markup : List Char) (shown : Layout) : Prop where
  whole : (cut markup).write = markup
  plain_front : IsPlain (cut markup).front
  plain_tagged : ∀ p ∈ (cut markup).tagged, IsPlain p.2
  decoded : (cut markup).decoded = shown

/-- A tag with the text after it, and what the text is read as. -/
structure EncodesTagged (p shown : List Char × List Char) : Prop where
  tag_eq : p.1 = shown.1
  tag : '<' ∉ p.1 ∧ '>' ∉ p.1
  text : Encodes p.2 shown.2

theorem Encodes.tagged {tag text shown : List Char} (h : Encodes text shown)
    (htag : '<' ∉ tag ∧ '>' ∉ tag) : EncodesTagged (tag, text) (tag, shown) :=
  ⟨rfl, htag, h⟩

theorem plain_and_decoded {tagged shown : List (List Char × List Char)}
    (h : List.Forall₂ EncodesTagged tagged shown) :
    (∀ p ∈ tagged, ('<' ∉ p.1 ∧ '>' ∉ p.1) ∧ IsPlain p.2) ∧
      (tagged.map fun p => (p.1, decode p.2)) = shown := by
  induction h with
  | nil => exact ⟨fun p hp => absurd hp List.not_mem_nil, rfl⟩
  | cons hp _ ih =>
    obtain ⟨hplain, hdecoded⟩ := ih
    exact ⟨List.forall_mem_cons.mpr ⟨⟨hp.tag, hp.text.plain⟩, hplain⟩,
      congrArg₂ List.cons (Prod.ext hp.tag_eq hp.text.decode_eq) hdecoded⟩

theorem readsAs_write {l shown : Layout} (hfront : Encodes l.front shown.front)
    (htagged : List.Forall₂ EncodesTagged l.tagged shown.tagged) : ReadsAs l.write shown := by
  obtain ⟨hplain, hdecoded⟩ := plain_and_decoded htagged
  have hcut : cut l.write = l :=
    cut_write hfront.plain.not_mem fun p hp => ⟨(hplain p hp).1, (hplain p hp).2.not_mem⟩
  constructor
  · rw [hcut]
  · rw [hcut]
    exact hfront.plain
  · rw [hcut]
    exact fun p hp => (hplain p hp).2
  · rw [hcut, Layout.decoded, hfront.decode_eq, hdecoded]

end PocketCalculator.Markup
