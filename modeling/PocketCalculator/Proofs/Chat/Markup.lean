import PocketCalculator.Proofs.Chat.Inline
import PocketCalculator.Proofs.Text.Markup

/-!
# What readers of markup see

Whoever reads the markup of a message sees exactly what was put into it: the display of a keypad, or
an expression with its result or its fault (`markup_reads_back`). Everything else that is sent as
markup is a fixed text.
-/

namespace PocketCalculator.Chat

open Markup

/-! ### Texts without markup -/

theorem not_markup_of_isNumberChar {c : Char} (h : c = '-' ∨ c = '.' ∨ c.isDigit = true) :
    c ≠ '&' ∧ c ≠ '<' ∧ c ≠ '>' := by
  refine ⟨?_, ?_, ?_⟩ <;> rintro rfl <;> exact absurd h (by decide)

theorem inert_number {places : ℤ} {value : Extended} {text : List Char}
    (h : Display.number places value = .ok text) : Inert text := by
  obtain ⟨t, rfl⟩ := Display.isNumberText_of_number h
  intro c hc
  refine not_markup_of_isNumberChar ?_
  rcases t.cases_of_mem hc with hc | hc | hc
  · exact Or.inl hc
  · exact Or.inr (Or.inr hc)
  · exact Or.inr (Or.inl hc)

theorem inert_amount {places : ℤ} {separator : List Char} {value : Extended} {text : List Char}
    (hseparator : Inert separator) (h : Display.amount places separator value = .ok text) :
    Inert text := by
  intro c hc
  rcases Display.mem_amount h hc with hc | hc
  · exact hseparator c hc
  · exact not_markup_of_isNumberChar hc

/-! ### Templates -/

def displayLayout (text : List Char) : Layout :=
  ⟨[], [("code".toList, text), ("/code".toList, [])]⟩

def equationLayout (expression result : List Char) : Layout :=
  ⟨[], [("code".toList, expression), ("/code".toList, " = ".toList), ("b".toList, result),
    ("/b".toList, [])]⟩

def faultLayout (expression : List Char) (fault : Fault) : Layout :=
  ⟨"❌ ".toList ++ fault.text.toList ++ ": ".toList,
    [("code".toList, expression), ("/code".toList, [])]⟩

theorem readsAs_code (text : List Char) : ReadsAs (code text) (displayLayout text) := by
  have hwrite : code text = (displayLayout (escape text)).write := rfl
  rw [hwrite]
  exact readsAs_write encodes_nil
    (.cons ((encodes_escape text).tagged (by decide)) (.cons (encodes_nil.tagged (by decide)) .nil))

theorem readsAs_equation (expression : List Char) {result : List Char} (h : Inert result) :
    ReadsAs (code expression ++ " = ".toList ++ bold result)
      (equationLayout expression result) := by
  have hequals : Inert " = ".toList := by decide
  -- With the texts in place, rewriting would compute them.
  have hassoc : ∀ a x b s c y d : List Char,
      a ++ x ++ b ++ s ++ (c ++ y ++ d) = a ++ (x ++ (b ++ (s ++ (c ++ (y ++ d))))) := by
    intro a x b s c y d
    simp only [List.append_assoc]
  have hwrite : code expression ++ " = ".toList ++ bold result =
      (equationLayout (escape expression) result).write := (hassoc ..).trans rfl
  rw [hwrite]
  exact readsAs_write encodes_nil
    (.cons ((encodes_escape expression).tagged (by decide))
      (.cons (hequals.encodes.tagged (by decide))
        (.cons (h.encodes.tagged (by decide)) (.cons (encodes_nil.tagged (by decide)) .nil))))

theorem readsAs_fault (expression : List Char) (fault : Fault) :
    ReadsAs (faultArticle expression fault).text (faultLayout expression fault) := by
  have hmark : Inert "❌ ".toList := by decide
  have hcolon : Inert ": ".toList := by decide
  have hfront : Encodes ("❌ ".toList ++ escape fault.text.toList ++ ": ".toList)
      ("❌ ".toList ++ fault.text.toList ++ ": ".toList) := by
    rw [List.append_assoc, List.append_assoc]
    exact (hcolon.encodes.escape_append _).append hmark
  have hwrite : (faultArticle expression fault).text =
      Layout.write ⟨"❌ ".toList ++ escape fault.text.toList ++ ": ".toList,
        (displayLayout (escape expression)).tagged⟩ := rfl
  rw [hwrite]
  exact readsAs_write hfront (.cons ((encodes_escape expression).tagged (by decide))
    (.cons (encodes_nil.tagged (by decide)) .nil))

/-! ### What keypads send -/

/-- The effect shows nothing but keypads. -/
def Effect.Renders : Effect → Prop
  | .sent _ message => ∃ s, message = Keypads.render s
  | .edited _ message => ∃ s, message = Keypads.render s
  | .acknowledged => True

namespace Keypads

variable {k : Keypads} {place : Place} {refusal : Option (List Char)} {e : Effect}

theorem renders_openAt (h : e ∈ (k.openAt place).1) : e.Renders := by
  rw [List.mem_singleton.mp h]
  exact ⟨_, rfl⟩

theorem renders_redraw {state : Keypad} (h : e ∈ (k.redraw place state refusal).1) : e.Renders := by
  rw [List.mem_singleton.mp h]
  exact ⟨_, rfl⟩

theorem renders_pressAt {shown code : List Char} (h : e ∈ (k.pressAt place shown code refusal).1) :
    e.Renders := by
  simp only [pressAt] at h
  rcases List.mem_append.mp h with h | h
  · split at h
    · exact renders_redraw h
    · cases h
  · rw [List.mem_singleton.mp h]
    trivial

theorem renders_press {data : List Char} {source : Option (Place × List Char)}
    (h : e ∈ (k.press data source refusal).1) : e.Renders := by
  have hacknowledged : ∀ {e : Effect}, e ∈ [Effect.acknowledged] → e.Renders := by
    intro e he
    rw [List.mem_singleton.mp he]
    trivial
  simp only [press] at h
  split at h
  · split at h
    · exact hacknowledged h
    · exact renders_pressAt h
  · exact hacknowledged h

theorem renders_ring {alarm : Alarm} (h : e ∈ (k.ring alarm refusal).1) : e.Renders := by
  simp only [ring] at h
  split at h
  · cases h
  · split at h
    · cases h
    · split at h
      · exact renders_redraw h
      · cases h

theorem renders_elapse (h : e ∈ (k.elapse refusal).1) : e.Renders := by
  have hfold : ∀ (alarms : List Alarm) (s : List Effect × Keypads), (∀ e ∈ s.1, e.Renders) →
      ∀ e ∈ (alarms.foldl (fun s alarm =>
        (s.1 ++ (s.2.ring alarm refusal).1, (s.2.ring alarm refusal).2)) s).1, e.Renders := by
    intro alarms
    induction alarms with
    | nil => exact fun s hs => hs
    | cons alarm alarms ih =>
      refine fun s hs => ih _ fun e he => ?_
      rcases List.mem_append.mp he with he | he
      · exact hs e he
      · exact renders_ring he
  exact hfold k.alarms ([], { k with alarms := [] }) (fun e he => absurd he List.not_mem_nil) e h

end Keypads

/-! ### What the bot sends -/

/-- The texts that a call sends as markup. -/
def Call.markups : Call → List (List Char)
  | .send _ message => if message.markup then [message.text] else []
  | .edit _ message => if message.markup then [message.text] else []
  | .answerInline _ articles => (articles.filter (·.markup)).map (·.text)
  | .answerCallback _ => []

/-- The texts in markup that nothing is put into. -/
def fixedMarkup : List (List Char) := [greeting.text, help.text, inlineHint.text]

section Calls

variable {text id : List Char}

theorem render_of_mem_callOf {e : Effect} (he : e.Renders) (h : text ∈ (Bot.callOf id e).markups) :
    ∃ s, text = (Keypads.render s).text := by
  cases e with
  | sent place message =>
    obtain ⟨s, rfl⟩ := he
    exact ⟨s, List.mem_singleton.mp h⟩
  | edited place message =>
    obtain ⟨s, rfl⟩ := he
    exact ⟨s, List.mem_singleton.mp h⟩
  | acknowledged => cases h

theorem markup_unaryAnswer (limits : Limits) (op : Unary) (command arguments : List Char) :
    (unaryAnswer limits op command arguments).markup = false := by
  simp only [unaryAnswer]
  split
  · rfl
  · split <;> rfl

theorem markup_slashAnswer {limits : Limits} {expression : List Char} {message : Message}
    (h : slashAnswer limits expression = some message) : message.markup = false := by
  simp only [slashAnswer] at h
  split at h
  · cases h
  · cases h
    rfl

theorem mem_markups_send {place : Place} {message : Message}
    (h : text ∈ (Call.send place message).markups) :
    message.markup = true ∧ text = message.text := by
  simp only [Call.markups] at h
  split at h
  · next hmarkup => exact ⟨hmarkup, List.mem_singleton.mp h⟩
  · cases h

/-- The text is one of the fixed ones, or it shows a keypad. -/
def Template (text : List Char) : Prop :=
  text ∈ fixedMarkup ∨ ∃ s : Keypad, text = (Keypads.render s).text

theorem template_answer {b : Bot} {chat : Int} {request : Request} {call : Call}
    (hcall : call ∈ (b.answer chat request).1) (h : text ∈ call.markups) : Template text := by
  have hplain : ∀ {place : Place} {message : Message}, message.markup = false →
      text ∉ (Call.send place message).markups := by
    intro place message hmarkup htext
    rw [(mem_markups_send htext).1] at hmarkup
    cases hmarkup
  cases request with
  | greeting =>
    rw [List.mem_singleton.mp hcall] at h
    exact Or.inl (by simp [fixedMarkup, (mem_markups_send h).2])
  | help =>
    rw [List.mem_singleton.mp hcall] at h
    exact Or.inl (by simp [fixedMarkup, (mem_markups_send h).2])
  | keypad =>
    obtain ⟨e, he, rfl⟩ := List.mem_map.mp hcall
    exact Or.inr (render_of_mem_callOf (Keypads.renders_openAt he) h)
  | unary op command arguments =>
    rw [List.mem_singleton.mp hcall] at h
    exact absurd h (hplain (markup_unaryAnswer ..))
  | expression expression =>
    simp only [Bot.answer] at hcall
    split at hcall
    · next message hmessage =>
      rw [List.mem_singleton.mp hcall] at h
      exact absurd h (hplain (markup_slashAnswer hmessage))
    · cases hcall
  | _ =>
    rw [List.mem_singleton.mp hcall] at h
    exact absurd h (hplain rfl)

theorem template_or_article_of_handle {b : Bot} {u : Update} {refusal : Option (List Char)}
    {call : Call} (hcall : call ∈ (b.handle u refusal).1) (h : text ∈ call.markups) :
    Template text ∨ ∃ id query, u = .inline id query ∧ trim query ≠ [] ∧
      ∃ article ∈ inlineAnswer b.limits query, article.markup = true ∧
        text = article.text := by
  cases u with
  | message chat id text caption edited =>
    simp only [Bot.handle] at hcall
    split at hcall
    · cases hcall
    · split at hcall
      · exact Or.inl (template_answer hcall h)
      · cases hcall
  | editedMessage => cases hcall
  | callback id data source =>
    simp only [Bot.handle] at hcall
    split at hcall
    · split at hcall
      · obtain ⟨e, he, rfl⟩ := List.mem_map.mp hcall
        exact Or.inl (Or.inr (render_of_mem_callOf (Keypads.renders_press he) h))
      · cases hcall
    · cases hcall
  | inline id query =>
    simp only [Bot.handle] at hcall
    split at hcall
    · rw [List.mem_singleton.mp hcall] at h
      obtain ⟨article, harticle, rfl⟩ := List.mem_map.mp h
      obtain ⟨hmem, hmarkup⟩ : article ∈ inlineAnswer b.limits query ∧ article.markup = true :=
        List.mem_filter.mp harticle
      by_cases hblank : trim query = []
      · have hhint : inlineAnswer b.limits query = [inlineHint] := by
          unfold inlineAnswer
          rw [hblank]
          rfl
        rw [hhint] at hmem
        rw [List.mem_singleton.mp hmem]
        exact Or.inl (Or.inl (by simp [fixedMarkup]))
      · exact Or.inr ⟨id, query, rfl, hblank, article, hmem, hmarkup, rfl⟩
    · cases hcall
  | elapsed =>
    obtain ⟨e, he, rfl⟩ := List.mem_map.mp hcall
    exact Or.inl (Or.inr (render_of_mem_callOf (Keypads.renders_elapse he) h))

end Calls

/-- What is put into markup is read back from it: the display of every keypad, and the expression of
every inline query with its result, with its amount or with its fault. A number that is sent alone
is no markup. Whatever the bot is asked, the only other markup that it sends are fixed texts. -/
theorem markup_reads_back :
    (∀ s : Keypad, ReadsAs (Keypads.render s).text (displayLayout s.display)) ∧
      (∀ limits query, trim query ≠ [] →
        Ensures (evaluate limits (trim query))
          (fun v => ∃ result money full alone amount,
            Display.number Display.standardPlaces (.finite v) = .ok result ∧
            Display.amount Display.moneyPlaces Display.standardSeparator (.finite v) = .ok money ∧
            inlineAnswer limits query = [full, alone, amount] ∧ alone.markup = false ∧
            ReadsAs full.text (equationLayout (trim query) result) ∧
            ReadsAs amount.text (equationLayout (trim query) money))
          (fun fault => ∃ article, inlineAnswer limits query = [article] ∧
            ReadsAs article.text (faultLayout (trim query) fault))) ∧
      (∀ (b : Bot) u refusal, ∀ call ∈ (b.handle u refusal).1, ∀ text ∈ call.markups,
        text ∈ fixedMarkup ∨ (∃ s : Keypad, text = (Keypads.render s).text) ∨
          ∃ id query, u = .inline id query ∧ trim query ≠ [] ∧
            ∃ article ∈ inlineAnswer b.limits query, article.markup = true ∧
              text = article.text) := by
  refine ⟨fun s => readsAs_code s.display, fun limits query hne => ?_, ?_⟩
  · refine Ensures.intro (fun v hv => ?_) fun fault hfault =>
      ⟨_, inlineAnswer_of_error hne hfault, readsAs_fault ..⟩
    obtain ⟨result, hresult, _⟩ := exists_number_of_evaluate hv
    obtain ⟨money, hmoney, _⟩ := exists_amount_of_evaluate hv
    have hseparator : Inert Display.standardSeparator := by decide
    exact ⟨result, money, _, _, _, hresult, hmoney, inlineAnswer_of_ok hne hv hresult hmoney, rfl,
      readsAs_equation _ (inert_number hresult),
      readsAs_equation _ (inert_amount hseparator hmoney)⟩
  · intro b u refusal call hcall text htext
    rcases template_or_article_of_handle hcall htext with htemplate | harticle
    · exact htemplate.imp_right Or.inl
    · exact Or.inr (Or.inr harticle)

/-- Neither a tag nor an entity in a query is taken for one. -/
theorem markup_reads_back_of_tag :
    ∃ article, inlineAnswer .standard " 2<b>&amp; ".toList = [article] ∧
      ReadsAs article.text ⟨"❌ Error: Invalid character: <: ".toList,
        [("code".toList, "2<b>&amp;".toList), ("/code".toList, [])]⟩ := by
  have htrim : trim " 2<b>&amp; ".toList = "2<b>&amp;".toList := by decide
  have hfault : evaluate .standard "2<b>&amp;".toList = .error (.invalidCharacter '<') := by
    decide +kernel
  have hanswer := markup_reads_back.2.1 .standard " 2<b>&amp; ".toList (by decide)
  rw [htrim] at hanswer
  obtain ⟨article, harticle, hreads⟩ := hanswer.of_error hfault
  have hfront : "❌ ".toList ++ (Fault.invalidCharacter '<').text.toList ++ ": ".toList =
      "❌ Error: Invalid character: <: ".toList := by decide
  rw [faultLayout, hfront] at hreads
  exact ⟨article, harticle, hreads⟩

end PocketCalculator.Chat
