import PocketCalculator.Chat.Bot
import PocketCalculator.Proofs.Chat.Runs

/-!
# Repeated deliveries have no effect

An update that has been handled is remembered until a thousand other updates of its kind have been
handled. As long as it is remembered, another copy of it is answered by no call and leaves the bot
as it is (`redelivery_changes_nothing`). What happens afterwards is then the same with and without
the copy.
-/

namespace PocketCalculator.Chat

/-! ### How long a key is remembered -/

namespace Deliveries

variable {d : Deliveries} {key key' : DeliveryKey} {age : Nat}

/-- The key is remembered, and this many newer ones are. -/
def Remembers (d : Deliveries) (key : DeliveryKey) (age : Nat) : Prop :=
  ∃ older newer, d.keys = older ++ key :: newer ∧ newer.length = age

theorem Remembers.mem (h : d.Remembers key age) : key ∈ d.keys := by
  obtain ⟨older, newer, hkeys, _⟩ := h
  rw [hkeys]
  exact List.mem_append_right _ (List.mem_cons_self ..)

theorem capacity_receive (d : Deliveries) (key : Option DeliveryKey) :
    (d.receive key).2.capacity = d.capacity := by
  unfold receive
  split
  · rfl
  · split
    · rfl
    · rfl

theorem receive_of_dropped (h : (d.receive (some key)).1 = false) :
    d.receive (some key) = (false, d) := by
  simp only [receive] at h ⊢
  split at h
  · next hmem => rw [if_pos hmem]
  · cases h

theorem keys_of_passed (h : (d.receive (some key)).1 = true) :
    (d.receive (some key)).2.keys = bounded d.capacity (d.keys ++ [key]) := by
  simp only [receive] at h ⊢
  split at h
  · cases h
  · next hnew => rw [if_neg hnew]

/-- A new key is added at the end, and what is let go of is older than a key that there is room
for. -/
theorem remembers_of_bounded (older newer : List DeliveryKey) (hroom : newer.length < d.capacity)
    (hkeys : d.keys = bounded d.capacity (older ++ key :: newer)) :
    d.Remembers key newer.length := by
  unfold bounded at hkeys
  split at hkeys
  · next hfull =>
    cases older with
    | nil =>
      rw [List.nil_append, List.length_cons] at hfull
      omega
    | cons oldest older => exact ⟨older, newer, hkeys, rfl⟩
  · exact ⟨older, newer, hkeys, rfl⟩

theorem remembers_passed (hroom : 0 < d.capacity) (h : (d.receive (some key)).1 = true) :
    (d.receive (some key)).2.Remembers key 0 := by
  apply remembers_of_bounded d.keys []
  · rw [capacity_receive]
    exact hroom
  · rw [keys_of_passed h, capacity_receive]

theorem Remembers.passed (hkey : d.Remembers key age) (hroom : age + 1 < d.capacity)
    (h : (d.receive (some key')).1 = true) : (d.receive (some key')).2.Remembers key (age + 1) := by
  obtain ⟨older, newer, hkeys, rfl⟩ := hkey
  have hlength : newer.length + 1 = (newer ++ [key']).length := by simp
  rw [hlength]
  refine remembers_of_bounded older (newer ++ [key']) ?_ ?_
  · rw [capacity_receive, ← hlength]
    exact hroom
  · rw [keys_of_passed h, capacity_receive, hkeys, List.append_assoc, List.cons_append]

end Deliveries

/-! ### What is handled -/

/-- The kinds of updates; each has a memory of its own. -/
inductive Kind where
  | message
  | callback
  | inline
  deriving DecidableEq

def DeliveryKey.kind : DeliveryKey → Kind
  | .message .. => .message
  | .callback _ => .callback
  | .inline _ => .inline

/-- The key of an update that asks for something on this platform. -/
def Update.key? (p : Platform) : Update → Option DeliveryKey
  | .message chat id text caption edited =>
    (Request.ofMessage? p.command? text caption).map fun _ => .message chat id edited
  | .callback id data _ => if Key.dataMark.isPrefixOf data then some (.callback id) else none
  | .inline id _ => some (.inline id)
  | .editedMessage => none
  | .elapsed => none

namespace Bot

/-- What can happen next: an update comes in, or one of the alarms of keypads goes off. -/
inductive Occurrence where
  | received (update : Update) (refusal : Option (List Char))
  | rang (index : Nat) (refusal : Option (List Char))

def occur (b : Bot) : Occurrence → List Call × Bot
  | .received update refusal => b.handle update refusal
  | .rang index refusal =>
    let (effects, keypads) := b.keypads.ringAt index refusal
    (effects.map (callOf []), { b with keypads := keypads })

/-- The calls of each occurrence. -/
def calls (b : Bot) : List Occurrence → List (List Call)
  | [] => []
  | o :: os => (b.occur o).1 :: (b.occur o).2.calls os

def run (b : Bot) (os : List Occurrence) : Bot := os.foldl (fun b o => (b.occur o).2) b

def memoryOf (b : Bot) : Kind → Deliveries
  | .message => b.messages
  | .callback => b.callbacks
  | .inline => b.inlines

/-- The update asks for something and is not dropped. -/
def handles (b : Bot) (u : Update) : Bool :=
  match u.key? b.platform with
  | some key => ((b.memoryOf key.kind).receive (some key)).1
  | none => false

/-- The update is one of this kind that is handled. -/
def counts (b : Bot) (kind : Kind) (u : Update) : Bool :=
  (u.key? b.platform).any (·.kind = kind) && b.handles u

/-- How many updates of a kind are handled. -/
def handledCount (kind : Kind) (b : Bot) : List Occurrence → Nat
  | [] => 0
  | o :: os =>
    let rest := (b.occur o).2.handledCount kind os
    match o with
    | .received u _ => if b.counts kind u then rest + 1 else rest
    | .rang _ _ => rest

variable {p : Platform} {b : Bot} {u : Update} {kind : Kind} {key : DeliveryKey}

theorem run_append (b : Bot) (os os' : List Occurrence) :
    b.run (os ++ os') = (b.run os).run os' := List.foldl_append

/-! ### The platform -/

theorem platform_answer (b : Bot) (chat : Int) (request : Request) :
    (b.answer chat request).2.platform = b.platform := by
  cases request with
  | expression text =>
    simp only [answer]
    split
    · rfl
    · rfl
  | _ => rfl

theorem platform_handle (b : Bot) (u : Update) (refusal : Option (List Char)) :
    (b.handle u refusal).2.platform = b.platform := by
  cases u with
  | message chat id text caption edited =>
    simp only [handle]
    split
    · rfl
    · split
      · exact platform_answer ..
      · rfl
  | callback id data source =>
    simp only [handle]
    split
    · split
      · rfl
      · rfl
    · rfl
  | inline id query =>
    simp only [handle]
    split
    · rfl
    · rfl
  | editedMessage => rfl
  | elapsed => rfl

theorem platform_occur (b : Bot) (o : Occurrence) : (b.occur o).2.platform = b.platform := by
  cases o with
  | received u refusal => exact b.platform_handle u refusal
  | rang index refusal => rfl

theorem platform_run (b : Bot) (os : List Occurrence) : (b.run os).platform = b.platform := by
  induction os generalizing b with
  | nil => rfl
  | cons o os ih => exact (ih _).trans (b.platform_occur o)

/-! ### Memories -/

theorem memoryOf_answer (b : Bot) (chat : Int) (request : Request) (kind : Kind) :
    (b.answer chat request).2.memoryOf kind = b.memoryOf kind := by
  cases request with
  | expression text =>
    simp only [answer]
    split
    · rfl
    · rfl
  | _ => rfl

/-- An update is noted in the memory of its kind only. -/
theorem memoryOf_handle (b : Bot) (u : Update) (refusal : Option (List Char)) (kind : Kind) :
    (b.handle u refusal).2.memoryOf kind =
      ((b.memoryOf kind).receive ((u.key? b.platform).filter (·.kind = kind))).2 := by
  cases u with
  | message chat id text caption edited =>
    cases hrequest : Request.ofMessage? b.platform.command? text caption with
    | none =>
      simp only [handle, Update.key?, hrequest]
      rfl
    | some request =>
      simp only [handle, Update.key?, hrequest, Option.map_some]
      split
      · rw [memoryOf_answer]
        cases kind <;> rfl
      · cases kind <;> rfl
  | callback id data source =>
    simp only [handle, Update.key?]
    split
    · split
      · cases kind <;> rfl
      · cases kind <;> rfl
    · rfl
  | inline id query =>
    simp only [handle, Update.key?]
    split
    · cases kind <;> rfl
    · cases kind <;> rfl
  | editedMessage => rfl
  | elapsed => rfl

theorem capacity_occur (b : Bot) (o : Occurrence) (kind : Kind) :
    ((b.occur o).2.memoryOf kind).capacity = (b.memoryOf kind).capacity := by
  cases o with
  | received u refusal =>
    show ((b.handle u refusal).2.memoryOf kind).capacity = _
    rw [memoryOf_handle, Deliveries.capacity_receive]
  | rang index refusal => rfl

theorem capacity_run (b : Bot) (os : List Occurrence) (kind : Kind) :
    ((b.run os).memoryOf kind).capacity = (b.memoryOf kind).capacity := by
  induction os generalizing b with
  | nil => rfl
  | cons o os ih => exact (ih _).trans (b.capacity_occur o kind)

theorem capacity_start (p : Platform) (settings : Settings) (first : Int) (kind : Kind) :
    ((start p settings first).memoryOf kind).capacity = memory := by
  cases kind <;> rfl

/-! ### Remembered updates -/

theorem passed_of_handles (hkey : u.key? b.platform = some key) (h : b.handles u = true) :
    ((b.memoryOf key.kind).receive (some key)).1 = true := by
  simpa only [handles, hkey] using h

theorem filter_key (hkey : u.key? p = some key) :
    (u.key? p).filter (·.kind = key.kind) = some key := by
  rw [hkey]
  exact Option.filter_some_pos (decide_eq_true rfl)

theorem remembers_handled (hroom : 0 < (b.memoryOf key.kind).capacity)
    (hkey : u.key? b.platform = some key) (h : b.handles u = true) (refusal : Option (List Char)) :
    ((b.handle u refusal).2.memoryOf key.kind).Remembers key 0 := by
  rw [memoryOf_handle, filter_key hkey]
  exact Deliveries.remembers_passed hroom (passed_of_handles hkey h)

theorem exists_key_of_counts (h : b.counts kind u = true) :
    ∃ key, u.key? b.platform = some key ∧ key.kind = kind ∧ b.handles u = true := by
  obtain ⟨hkind, hhandled⟩ := Bool.and_eq_true_iff.mp h
  obtain ⟨key, hkey, hsame⟩ := (Option.any_eq_true _ _).mp hkind
  exact ⟨key, hkey, of_decide_eq_true hsame, hhandled⟩

/-- Without an update of its kind being handled, a memory stays as it is. -/
theorem memoryOf_of_not_counts (h : b.counts kind u = false) (refusal : Option (List Char)) :
    (b.handle u refusal).2.memoryOf kind = b.memoryOf kind := by
  rw [memoryOf_handle]
  cases hkey : u.key? b.platform with
  | none => rfl
  | some key =>
    by_cases hkind : key.kind = kind
    · subst hkind
      have hdropped : ((b.memoryOf key.kind).receive (some key)).1 = false := by
        simpa only [counts, handles, hkey, Option.any_some, decide_true, Bool.true_and] using h
      rw [← hkey, filter_key hkey, Deliveries.receive_of_dropped hdropped]
    · have hnone : (some key).filter (·.kind = kind) = none :=
        Option.filter_some_neg (decide_eq_false hkind)
      rw [hnone]
      rfl

/-- A key grows older by the updates of its kind that are handled. -/
theorem remembers_run {os : List Occurrence} {age : Nat}
    (h : (b.memoryOf kind).Remembers key age)
    (hroom : age + b.handledCount kind os < (b.memoryOf kind).capacity) :
    ((b.run os).memoryOf kind).Remembers key (age + b.handledCount kind os) := by
  induction os generalizing b age with
  | nil => exact h
  | cons o os ih =>
    rw [← b.capacity_occur o kind] at hroom
    cases o with
    | rang index refusal => exact ih (b := (b.occur (.rang index refusal)).2) h hroom
    | received u refusal =>
      show (((b.handle u refusal).2.run os).memoryOf kind).Remembers key _
      cases hcounts : b.counts kind u with
      | true =>
        obtain ⟨key', hkey, rfl, hhandled⟩ := exists_key_of_counts hcounts
        have hcount : b.handledCount key'.kind (.received u refusal :: os) =
            (b.handle u refusal).2.handledCount key'.kind os + 1 := if_pos hcounts
        rw [hcount] at hroom ⊢
        rw [Nat.add_comm _ 1, ← Nat.add_assoc] at hroom ⊢
        refine ih ?_ hroom
        rw [memoryOf_handle, filter_key hkey]
        refine h.passed ?_ (passed_of_handles hkey hhandled)
        rw [← b.capacity_occur (.received u refusal) key'.kind]
        omega
      | false =>
        have hcount : b.handledCount kind (.received u refusal :: os) =
            (b.handle u refusal).2.handledCount kind os := if_neg (by simp [hcounts])
        rw [hcount] at hroom ⊢
        refine ih ?_ hroom
        rw [memoryOf_of_not_counts hcounts]
        exact h

/-- An update whose key is remembered has no effect. -/
theorem handle_of_mem (hkey : u.key? b.platform = some key)
    (h : key ∈ (b.memoryOf key.kind).keys) (refusal : Option (List Char)) :
    b.handle u refusal = ([], b) := by
  cases u with
  | message chat id text caption edited =>
    obtain ⟨request, hrequest, rfl⟩ := Option.map_eq_some_iff.mp hkey
    simp only [handle, hrequest, Deliveries.receive_of_mem b.messages h]
    rfl
  | callback id data source =>
    simp only [Update.key?] at hkey
    split at hkey
    · next hdata =>
      cases hkey
      simp only [handle, hdata, Deliveries.receive_of_mem b.callbacks h]
      rfl
    · cases hkey
  | inline id query =>
    cases hkey
    simp only [handle, Deliveries.receive_of_mem b.inlines h]
    rfl
  | editedMessage => cases hkey
  | elapsed => cases hkey

/-- An update that asks for nothing has no effect. -/
theorem handle_of_key_none (hkey : u.key? b.platform = none) (hu : u ≠ .elapsed)
    (refusal : Option (List Char)) : b.handle u refusal = ([], b) := by
  cases u with
  | message chat id text caption edited =>
    simp only [handle, Option.map_eq_none_iff.mp hkey]
  | callback id data source =>
    simp only [Update.key?] at hkey
    split at hkey
    · cases hkey
    · next hdata => simp only [handle, if_neg hdata]
  | inline id query => cases hkey
  | editedMessage => rfl
  | elapsed => exact absurd rfl hu

/-! ### Runs with a copy -/

/-- An occurrence without calls that leaves the bot as it is can be left out. -/
theorem calls_of_idle {os later : List Occurrence} {o : Occurrence}
    (h : (b.run os).occur o = ([], b.run os)) :
    b.calls (os ++ o :: later) = (b.calls (os ++ later)).insertIdx os.length [] := by
  induction os generalizing b with
  | nil =>
    have ho : b.occur o = ([], b) := h
    rw [List.nil_append, calls, ho]
    rfl
  | cons o' os ih =>
    rw [List.cons_append, List.cons_append, calls, calls, ih h]
    rfl

theorem run_of_idle {os later : List Occurrence} {o : Occurrence}
    (h : (b.run os).occur o = ([], b.run os)) : b.run (os ++ o :: later) = b.run (os ++ later) := by
  rw [run_append, run_append, run, List.foldl_cons, h]
  rfl

/-- Redelivery has no effect. Another copy of an update adds no call, and leaves all other calls and
the bot at the end as they are, if the update asks for nothing, or has been handled and fewer than a
thousand others of its kind have been handled since. -/
theorem redelivery_changes_nothing (p : Platform) (settings : Settings) (first : Int)
    (before between later : List Occurrence) {u : Update} (hu : u ≠ .elapsed)
    (refusal refusal' : Option (List Char))
    (hrecent : ∀ key, u.key? p = some key →
      ((start p settings first).run before).handles u = true ∧
        ((start p settings first).run (before ++ [.received u refusal])).handledCount key.kind
          between < memory) :
    let b := start p settings first
    let os := before ++ .received u refusal :: between
    b.calls (os ++ .received u refusal' :: later) =
        (b.calls (os ++ later)).insertIdx os.length [] ∧
      b.run (os ++ .received u refusal' :: later) = b.run (os ++ later) := by
  intro b os
  have hidle : (b.run os).occur (.received u refusal') = ([], b.run os) := by
    have hplatform : ∀ os, (b.run os).platform = p := b.platform_run
    cases hkey : u.key? p with
    | none => exact handle_of_key_none (by rw [hplatform, hkey]) hu refusal'
    | some key =>
      obtain ⟨hhandled, hcount⟩ := hrecent key hkey
      have hroom : ∀ os, ((b.run os).memoryOf key.kind).capacity = memory := fun os =>
        (b.capacity_run os key.kind).trans (capacity_start p settings first key.kind)
      have hnew :
          ((b.run (before ++ [.received u refusal])).memoryOf key.kind).Remembers key 0 := by
        rw [run_append]
        exact remembers_handled (by rw [hroom]; decide) (by rw [hplatform, hkey]) hhandled refusal
      have hold := remembers_run hnew (by rw [hroom, Nat.zero_add]; exact hcount)
      rw [← run_append, List.append_assoc, List.singleton_append] at hold
      exact handle_of_mem (by rw [hplatform, hkey]) hold.mem refusal'
  exact ⟨calls_of_idle hidle, run_of_idle hidle⟩

/-- The key that shows an error comes in again after another key and after the alarm. -/
theorem redelivery_changes_nothing_of_error :
    let b := start (.named "Bot".toList)
      ⟨"42:TEST".toList, .finite false 1 0, 1024, 1, "INFO".toList⟩ 1001
    let first : Occurrence :=
      .received (.callback ['a'] "kp:(".toList (some (⟨1, 10⟩, ['0']))) none
    let u : Update := .callback ['b'] "kp:=".toList (some (⟨1, 10⟩, ['(']))
    let between : List Occurrence := [.rang 0 none,
      .received (.callback ['c'] "kp:7".toList (some (⟨1, 10⟩, ['0']))) none]
    let later : List Occurrence :=
      [.received (.callback ['d'] "kp:8".toList (some (⟨1, 10⟩, ['7']))) none]
    (b.run [first]).handles u = true ∧
      (b.run [first, .received u none]).handledCount .callback between = 1 ∧
      b.calls ([first, .received u none] ++ between ++ .received u none :: later) =
        (b.calls ([first, .received u none] ++ between ++ later)).insertIdx 4 [] ∧
      b.run ([first, .received u none] ++ between ++ .received u none :: later) =
        b.run ([first, .received u none] ++ between ++ later) := by
  intro b first u between later
  have hhandled : (b.run [first]).handles u = true := by decide +kernel
  have hcount : (b.run [first, .received u none]).handledCount .callback between = 1 := by
    decide +kernel
  refine ⟨hhandled, hcount, ?_⟩
  have hu : u ≠ .elapsed := by simp [u]
  refine redelivery_changes_nothing _ _ 1001 [first] between later hu none none ?_
  intro key hkey
  have hkind : key = .callback ['b'] := by
    have hkey' : some (DeliveryKey.callback ['b']) = some key := hkey
    exact (Option.some.inj hkey').symm
  subst hkind
  have hfew : (b.run [first, .received u none]).handledCount .callback between < memory := by
    rw [hcount]
    decide
  exact ⟨hhandled, hfew⟩

end Bot
end PocketCalculator.Chat
