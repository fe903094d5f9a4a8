import SegsLauncher.Lib.Runs
/-!
# Many requests, one variable for the reply

A client sends requests and keeps the reply of the *latest* one in a variable. When some reply
finishes, its handler is told that a reply has finished but not which one: it looks at the variable,
and unless that reply has failed, it takes all bytes received for it so far and merges them into a value.

`Faithful` is what such a client is meant to guarantee: every reply is merged once, whole and by its
own completion. It holds along a run exactly when every completion finds the variable on its own reply,
or is a failure that finds it on a failed one (`faithful_iff`).
-/
namespace ReplySlot

inductive Status where
  | pending
  | succeeded
  | failed
deriving DecidableEq, Repr

structure Reply (α : Type) where
  /-- All the bytes received. -/
  body : List α
  /-- The bytes received and not taken yet. -/
  unread : List α
  status : Status
deriving DecidableEq, Repr

/-- One merge: the completion that caused it, the reply it read, the bytes it took and the status of
that reply then. -/
structure Taken (α : Type) where
  trigger : Nat
  reply : Nat
  bytes : List α
  status : Status
deriving DecidableEq, Repr

/-- Replies are numbered in the order of their requests; `latest` is the variable. -/
structure Slot (α σ : Type) where
  replies : List (Reply α)
  latest : Option Nat
  value : σ
  taken : List (Taken α)

inductive Event (α : Type) where
  | request
  | receive (id : Nat) (chunk : List α)
  | finish (id : Nat) (ok : Bool)

section
variable {α σ : Type} (merge : List α → σ → σ)

def Slot.new (value : σ) : Slot α σ := ⟨[], none, value, []⟩

/-- Another reply in the place of one that is known. -/
def Slot.put (slot : Slot α σ) (id : Nat) (reply : Reply α) : Slot α σ :=
  { slot with replies := slot.replies.set id reply }

/-- The handler of a completion. -/
def handle (trigger : Nat) (slot : Slot α σ) : Slot α σ :=
  match slot.latest with
  | none => slot
  | some id =>
    match slot.replies[id]? with
    | none => slot
    | some reply =>
      if reply.status = .failed then slot
      else
        { slot.put id { reply with unread := [] } with
          value := merge reply.unread slot.value
          taken := slot.taken ++ [⟨trigger, id, reply.unread, reply.status⟩] }

/-- The status a reply finishes with. -/
def outcome (ok : Bool) : Status := if ok then .succeeded else .failed

def step (slot : Slot α σ) : Event α → Option (Slot α σ)
  | .request => some { slot with replies := slot.replies ++ [⟨[], [], .pending⟩], latest := some slot.replies.length }
  | .receive id chunk =>
    match slot.replies[id]? with
    | some ⟨body, unread, .pending⟩ =>
      some (slot.put id ⟨body ++ chunk, unread ++ chunk, .pending⟩)
    | _ => none
  | .finish id ok =>
    match slot.replies[id]? with
    | some ⟨body, unread, .pending⟩ =>
      some (handle merge id (slot.put id ⟨body, unread, outcome ok⟩))
    | _ => none

/-- Every reply is merged once, whole and by its own completion, and nothing else is. -/
structure Faithful (init : σ) (slot : Slot α σ) : Prop where
  succeeded : ∀ id body unread, slot.replies[id]? = some ⟨body, unread, .succeeded⟩ →
    slot.taken.filter (fun t => t.trigger = id ∨ t.reply = id) = [⟨id, id, body, .succeeded⟩]
  failed : ∀ id body unread, slot.replies[id]? = some ⟨body, unread, .failed⟩ →
    ∀ t ∈ slot.taken, t.trigger ≠ id ∧ t.reply ≠ id
  pending : ∀ t ∈ slot.taken, t.status ≠ .pending
  value : slot.value = slot.taken.foldl (fun v t => merge t.bytes v) init

/-- The exact condition on a completion: it finds its own reply, or it failed and finds a failed one. -/
def FindsOwn (slot : Slot α σ) : Event α → Prop
  | .request | .receive _ _ => True
  | .finish id ok => slot.latest = some id ∨
      ok = false ∧ ∃ c body unread, slot.latest = some c ∧ slot.replies[c]? = some ⟨body, unread, .failed⟩

/-! ## The invariant -/

def Slot.Settled (slot : Slot α σ) (id : Nat) : Prop :=
  ∃ reply, slot.replies[id]? = some reply ∧ reply.status ≠ .pending

/-- What holds of every reachable slot, faithful or not. -/
structure Inv (init : σ) (slot : Slot α σ) : Prop where
  latest : slot.replies ≠ [] → ∃ c reply, slot.latest = some c ∧ slot.replies[c]? = some reply
  trigger : ∀ t ∈ slot.taken, slot.Settled t.trigger
  read : ∀ t ∈ slot.taken, t.status ≠ .pending → slot.Settled t.reply
  known : ∀ t ∈ slot.taken, t.reply < slot.replies.length
  unread : ∀ id body unread, slot.replies[id]? = some ⟨body, unread, .pending⟩ →
    (∀ t ∈ slot.taken, t.reply ≠ id) → unread = body
  value : slot.value = slot.taken.foldl (fun v t => merge t.bytes v) init

variable {merge} {init : σ} {slot slot' : Slot α σ}

@[simp] theorem put_latest (id : Nat) (reply : Reply α) : (slot.put id reply).latest = slot.latest := rfl

@[simp] theorem put_taken (id : Nat) (reply : Reply α) : (slot.put id reply).taken = slot.taken := rfl

@[simp] theorem put_value (id : Nat) (reply : Reply α) : (slot.put id reply).value = slot.value := rfl

@[simp] theorem put_length (id : Nat) (reply : Reply α) :
    (slot.put id reply).replies.length = slot.replies.length := List.length_set

theorem put_replies {id : Nat} {old : Reply α} (h : slot.replies[id]? = some old) (reply : Reply α) (j : Nat) :
    (slot.put id reply).replies[j]? = if id = j then some reply else slot.replies[j]? := by
  have hlt : id < slot.replies.length := (List.getElem?_eq_some_iff.1 h).1
  rw [Slot.put, List.getElem?_set]
  simp [hlt]

/-- The handler does nothing on a failed reply. -/
theorem handle_failed {c : Nat} {body unread : List α} (trigger : Nat) (hc : slot.latest = some c)
    (hr : slot.replies[c]? = some ⟨body, unread, .failed⟩) : handle merge trigger slot = slot := by
  unfold handle
  simp only [hc, hr, if_true]

/-- On any other reply it takes and merges what has been received for it. -/
theorem handle_take {c : Nat} {reply : Reply α} (trigger : Nat) (hc : slot.latest = some c)
    (hr : slot.replies[c]? = some reply) (hs : reply.status ≠ .failed) :
    handle merge trigger slot =
      { slot.put c { reply with unread := [] } with
        value := merge reply.unread slot.value
        taken := slot.taken ++ [⟨trigger, c, reply.unread, reply.status⟩] } := by
  unfold handle
  simp only [hc, hr, hs, if_false]

theorem step_receive {id : Nat} {chunk : List α} (h : step merge slot (.receive id chunk) = some slot') :
    ∃ body unread, slot.replies[id]? = some ⟨body, unread, .pending⟩ ∧
      slot' = slot.put id ⟨body ++ chunk, unread ++ chunk, .pending⟩ := by
  simp only [step] at h
  split at h
  · rename_i body unread hr
    exact ⟨body, unread, hr, (Option.some.inj h).symm⟩
  · cases h

theorem step_finish {id : Nat} {ok : Bool} (h : step merge slot (.finish id ok) = some slot') :
    ∃ body unread, slot.replies[id]? = some ⟨body, unread, .pending⟩ ∧
      slot' = handle merge id (slot.put id ⟨body, unread, outcome ok⟩) := by
  simp only [step] at h
  split at h
  · rename_i body unread hr
    exact ⟨body, unread, hr, (Option.some.inj h).symm⟩
  · cases h

theorem outcome_ne_pending (ok : Bool) : outcome ok ≠ .pending := by
  cases ok <;> decide

/-- A reply that is settled stays so when one that is still pending is replaced. -/
theorem Slot.Settled.put {id j : Nat} {old new : Reply α} (hold : slot.replies[id]? = some old)
    (hpending : old.status = .pending) (h : slot.Settled j) :
    (slot.put id new).Settled j := by
  obtain ⟨reply, hr, hs⟩ := h
  refine ⟨reply, ?_, hs⟩
  have hne : id ≠ j := by
    rintro rfl
    rw [hr, Option.some.injEq] at hold
    exact hs (hold ▸ hpending)
  rw [put_replies hold, if_neg hne]
  exact hr

theorem inv_request (h : Inv merge init slot) :
    Inv merge init { slot with replies := slot.replies ++ [⟨[], [], .pending⟩], latest := some slot.replies.length } where
  latest := fun _ => ⟨slot.replies.length, ⟨[], [], .pending⟩, rfl, List.getElem?_concat_length⟩
  trigger := fun t ht => by
    obtain ⟨reply, hr, hs⟩ := h.trigger t ht
    exact ⟨reply, List.getElem?_append_left (List.getElem?_eq_some_iff.1 hr).1 ▸ hr, hs⟩
  read := fun t ht hp => by
    obtain ⟨reply, hr, hs⟩ := h.read t ht hp
    exact ⟨reply, List.getElem?_append_left (List.getElem?_eq_some_iff.1 hr).1 ▸ hr, hs⟩
  known := fun t ht => by
    have := h.known t ht
    simp only [List.length_append, List.length_singleton]
    omega
  unread := fun id body unread hr hno => by
    rcases Nat.lt_trichotomy id slot.replies.length with hlt | rfl | hgt
    · rw [List.getElem?_append_left hlt] at hr
      exact h.unread id body unread hr hno
    · rw [List.getElem?_concat_length, Option.some.injEq, Reply.mk.injEq] at hr
      rw [← hr.1, ← hr.2.1]
    · rw [List.getElem?_eq_none (by simp only [List.length_append, List.length_singleton]; omega)] at hr
      cases hr
  value := h.value

/-- Replacing a pending reply, by one that is settled or has its bytes unread. -/
theorem inv_put {id : Nat} {old new : Reply α} (h : Inv merge init slot) (hold : slot.replies[id]? = some old)
    (hpending : old.status = .pending)
    (hnew : new.status = .pending → (∀ t ∈ slot.taken, t.reply ≠ id) → new.unread = new.body) :
    Inv merge init (slot.put id new) where
  latest := fun _ => by
    obtain ⟨c, reply, hc, hr⟩ := h.latest (List.ne_nil_of_mem (List.mem_of_getElem? hold))
    by_cases hcid : id = c
    · exact ⟨c, new, hc, by rw [put_replies hold, if_pos hcid]⟩
    · exact ⟨c, reply, hc, by rw [put_replies hold, if_neg hcid, hr]⟩
  trigger := fun t ht => (h.trigger t ht).put hold hpending
  read := fun t ht hp => (h.read t ht hp).put hold hpending
  known := fun t ht => by
    rw [put_length]
    exact h.known t ht
  unread := fun j body unread hr hno => by
    rw [put_replies hold] at hr
    split at hr
    · rename_i hj
      rw [Option.some.injEq] at hr
      subst hr; subst hj
      exact hnew rfl hno
    · exact h.unread j body unread hr hno
  value := h.value

theorem inv_handle {trigger : Nat} (h : Inv merge init slot) (ht : slot.Settled trigger) :
    Inv merge init (handle merge trigger slot) := by
  obtain ⟨settled, hset, _⟩ := ht
  obtain ⟨c, reply, hc, hr⟩ := h.latest (List.ne_nil_of_mem (List.mem_of_getElem? hset))
  by_cases hfailed : reply.status = .failed
  · obtain ⟨body, unread, status⟩ := reply
    obtain rfl : status = .failed := hfailed
    rw [handle_failed trigger hc hr]
    exact h
  · rw [handle_take trigger hc hr hfailed]
    -- the statuses stay; what is taken was received for the reply the variable names
    have hsettled : ∀ j, slot.Settled j → (slot.put c { reply with unread := [] }).Settled j := by
      rintro j ⟨r, hj, hs⟩
      by_cases hcj : c = j
      · subst hcj
        rw [hr, Option.some.injEq] at hj
        subst hj
        exact ⟨{ reply with unread := [] }, by rw [put_replies hr, if_pos rfl], hs⟩
      · exact ⟨r, by rw [put_replies hr, if_neg hcj, hj], hs⟩
    refine ⟨fun _ => ⟨c, { reply with unread := [] }, hc, ?_⟩, ?_, ?_, ?_, ?_, ?_⟩
    · rw [put_replies hr, if_pos rfl]
    · intro t ht
      rcases List.mem_append.1 ht with ht | ht
      · exact hsettled _ (h.trigger t ht)
      · rw [List.mem_singleton.1 ht]
        exact hsettled _ ⟨settled, hset, ‹_›⟩
    · intro t ht hp
      rcases List.mem_append.1 ht with ht | ht
      · exact hsettled _ (h.read t ht hp)
      · rw [List.mem_singleton.1 ht] at hp ⊢
        exact hsettled _ ⟨reply, hr, hp⟩
    · intro t ht
      rw [put_length]
      rcases List.mem_append.1 ht with ht | ht
      · exact h.known t ht
      · rw [List.mem_singleton.1 ht]
        exact (List.getElem?_eq_some_iff.1 hr).1
    · intro j body unread hj hno
      have hcj : c ≠ j := by
        apply hno ⟨trigger, c, reply.unread, reply.status⟩
        exact List.mem_append_right _ (List.mem_singleton_self _)
      rw [put_replies hr, if_neg hcj] at hj
      exact h.unread j body unread hj fun t ht => hno t (List.mem_append_left _ ht)
    · simp only [List.foldl_append, List.foldl_cons, List.foldl_nil, ← h.value]

theorem inv_new : Inv merge init (Slot.new init : Slot α σ) where
  latest := fun h => absurd rfl h
  trigger := fun _ ht => nomatch ht
  read := fun _ ht => nomatch ht
  known := fun _ ht => nomatch ht
  unread := fun _ _ _ hr => by simp [Slot.new] at hr
  value := rfl

theorem inv_step {e : Event α} (h : step merge slot e = some slot') (hi : Inv merge init slot) :
    Inv merge init slot' := by
  cases e with
  | request =>
    obtain rfl := Option.some.inj h
    exact inv_request hi
  | receive id chunk =>
    obtain ⟨body, unread, hr, rfl⟩ := step_receive h
    apply inv_put hi hr rfl
    intro _ hno
    have hall := hi.unread id body unread hr hno
    simp only [hall]
  | finish id ok =>
    obtain ⟨body, unread, hr, rfl⟩ := step_finish h
    have hne := outcome_ne_pending ok
    refine inv_handle (inv_put hi hr rfl fun hp => absurd hp hne) ?_
    refine ⟨⟨body, unread, outcome ok⟩, ?_, hne⟩
    rw [put_replies hr, if_pos rfl]

/-! ## The exact condition -/

/-- In a faithful slot nothing has been read for a pending reply, nor because of it. -/
theorem Faithful.untouched {id : Nat} {body unread : List α} (hf : Faithful merge init slot)
    (hi : Inv merge init slot) (hr : slot.replies[id]? = some ⟨body, unread, .pending⟩) :
    ∀ t ∈ slot.taken, t.trigger ≠ id ∧ t.reply ≠ id := by
  have hpending : ¬ slot.Settled id := by
    rintro ⟨reply, hr', hs⟩
    rw [hr, Option.some.injEq] at hr'
    exact hs (hr' ▸ rfl)
  intro t ht
  constructor
  · rintro rfl
    exact hpending (hi.trigger t ht)
  · rintro rfl
    exact hpending (hi.read t ht (hf.pending t ht))

/-- Replacing a pending reply by one that has not succeeded keeps everything as it was. -/
theorem Faithful.put {id : Nat} {body unread : List α} {new : Reply α} (hf : Faithful merge init slot)
    (hi : Inv merge init slot) (hr : slot.replies[id]? = some ⟨body, unread, .pending⟩)
    (hnew : new.status ≠ .succeeded) : Faithful merge init (slot.put id new) where
  succeeded := fun j b u hj => by
    rw [put_replies hr] at hj
    split at hj
    · rw [Option.some.injEq] at hj
      exact absurd (hj ▸ rfl) hnew
    · exact hf.succeeded j b u hj
  failed := fun j b u hj => by
    rw [put_replies hr] at hj
    split at hj
    · rename_i hij
      subst hij
      exact hf.untouched hi hr
    · exact hf.failed j b u hj
  pending := hf.pending
  value := hf.value

theorem faithful_request (hf : Faithful merge init slot) :
    Faithful merge init
      { slot with replies := slot.replies ++ [⟨[], [], .pending⟩], latest := some slot.replies.length } := by
  have hold : ∀ (j : Nat) (reply : Reply α), reply.status ≠ .pending →
      (slot.replies ++ [⟨[], [], .pending⟩])[j]? = some reply → slot.replies[j]? = some reply := by
    intro j reply hs hj
    rw [List.getElem?_append] at hj
    split at hj
    · exact hj
    · have hmem := List.mem_of_getElem? hj
      rw [List.mem_singleton] at hmem
      exact absurd (hmem ▸ rfl) hs
  refine ⟨fun j b u hj => ?_, fun j b u hj => ?_, hf.pending, hf.value⟩
  · exact hf.succeeded j b u (hold j _ (by simp) hj)
  · exact hf.failed j b u (hold j _ (by simp) hj)

/-- A success that finds its own reply merges its whole body. -/
theorem faithful_finish_own {id : Nat} {body unread : List α} (hf : Faithful merge init slot)
    (hi : Inv merge init slot) (hr : slot.replies[id]? = some ⟨body, unread, .pending⟩) (hc : slot.latest = some id) :
    Faithful merge init (handle merge id (slot.put id ⟨body, unread, .succeeded⟩)) := by
  have hno := hf.untouched hi hr
  have hall : unread = body := hi.unread id body unread hr fun t ht => (hno t ht).2
  have hown : (slot.put id ⟨body, unread, .succeeded⟩).replies[id]? = some ⟨body, unread, .succeeded⟩ := by
    rw [put_replies hr, if_pos rfl]
  rw [handle_take id ((put_latest _ _).trans hc) hown (by simp)]
  have hlook : ∀ j, ((slot.put id ⟨body, unread, .succeeded⟩).put id ⟨body, [], .succeeded⟩).replies[j]? =
      if id = j then some ⟨body, [], .succeeded⟩ else slot.replies[j]? := by
    intro j
    rw [put_replies hown, put_replies hr]
    split <;> rfl
  refine ⟨fun j b u hj => ?_, fun j b u hj => ?_, ?_, ?_⟩
  · rw [hlook] at hj
    rw [List.filter_append, put_taken]
    split at hj
    · rename_i hij
      subst hij
      rw [Option.some.injEq, Reply.mk.injEq] at hj
      have hnone : slot.taken.filter (fun t => t.trigger = id ∨ t.reply = id) = [] := by
        rw [List.filter_eq_nil_iff]
        intro t ht
        simp [hno t ht]
      rw [hnone, ← hj.1, hall]
      simp
    · rename_i hij
      rw [hf.succeeded j b u hj]
      simp [hij]
  · rw [hlook] at hj
    intro t ht
    split at hj
    · simp at hj
    · rename_i hij
      rcases List.mem_append.1 ht with ht | ht
      · exact hf.failed j b u hj t ht
      · rw [List.mem_singleton.1 ht]
        exact ⟨hij, hij⟩
  · intro t ht
    rcases List.mem_append.1 ht with ht | ht
    · exact hf.pending t ht
    · rw [List.mem_singleton.1 ht]
      simp
  · simp only [put_taken, put_value, List.foldl_append, List.foldl_cons, List.foldl_nil, ← hf.value]

/-- A completion that finds another reply, one that has not failed, breaks the promise: its own body is
    not what is merged, and a failure merges something. -/
theorem not_faithful_finish_other {id c : Nat} {body unread : List α} {ok : Bool} {reply : Reply α}
    (hr : slot.replies[id]? = some ⟨body, unread, .pending⟩) (hc : slot.latest = some c) (hne : c ≠ id)
    (hreply : slot.replies[c]? = some reply) (hs : reply.status ≠ .failed) :
    ¬ Faithful merge init (handle merge id (slot.put id ⟨body, unread, outcome ok⟩)) := by
  have hread : (slot.put id ⟨body, unread, outcome ok⟩).replies[c]? = some reply := by
    rw [put_replies hr, if_neg (Ne.symm hne), hreply]
  have hown : ((slot.put id ⟨body, unread, outcome ok⟩).put c { reply with unread := [] }).replies[id]? =
      some ⟨body, unread, outcome ok⟩ := by
    rw [put_replies hread, if_neg hne, put_replies hr, if_pos rfl]
  rw [handle_take id ((put_latest _ _).trans hc) hread hs]
  intro hf'
  let read : Taken α := ⟨id, c, reply.unread, reply.status⟩
  have hmem : read ∈ slot.taken ++ [read] := List.mem_append_right _ (List.mem_singleton_self _)
  cases ok with
  | true =>
    have honly := hf'.succeeded id body unread hown
    have hin : read ∈ (slot.taken ++ [read]).filter (fun t => t.trigger = id ∨ t.reply = id) :=
      List.mem_filter.2 ⟨hmem, by simp [read]⟩
    have hread' : read = ⟨id, id, body, .succeeded⟩ := List.mem_singleton.1 (honly ▸ hin)
    exact hne (congrArg Taken.reply hread')
  | false => exact (hf'.failed id body unread hown read hmem).1 rfl

theorem faithful_finish {id : Nat} {body unread : List α} {ok : Bool} (hf : Faithful merge init slot)
    (hi : Inv merge init slot) (hr : slot.replies[id]? = some ⟨body, unread, .pending⟩) :
    Faithful merge init (handle merge id (slot.put id ⟨body, unread, outcome ok⟩)) ↔
      FindsOwn slot (.finish id ok) := by
  obtain ⟨c, reply, hc, hreply⟩ := hi.latest (List.ne_nil_of_mem (List.mem_of_getElem? hr))
  by_cases hcid : c = id
  · rw [hcid] at hc
    refine iff_of_true ?_ (Or.inl hc)
    cases ok with
    | true => exact faithful_finish_own hf hi hr hc
    | false =>
      rw [handle_failed id ((put_latest _ _).trans hc) (by rw [put_replies hr, if_pos rfl, outcome, if_neg (by simp)])]
      exact hf.put hi hr (by simp [outcome])
  · by_cases hs : reply.status = .failed
    · obtain ⟨b, u, status⟩ := reply
      obtain rfl : status = .failed := hs
      have hread : (slot.put id ⟨body, unread, outcome ok⟩).replies[c]? = some ⟨b, u, .failed⟩ := by
        rw [put_replies hr, if_neg (Ne.symm hcid), hreply]
      rw [handle_failed id ((put_latest _ _).trans hc) hread]
      cases ok with
      | true =>
        -- nothing is merged for a success
        refine iff_of_false (fun hf' => ?_) ?_
        · have honly := hf'.succeeded id body unread (by rw [put_replies hr, if_pos rfl]; rfl)
          rw [put_taken] at honly
          have hmem : (⟨id, id, body, .succeeded⟩ : Taken α) ∈
              slot.taken.filter (fun t => t.trigger = id ∨ t.reply = id) := by
            rw [honly]
            exact List.mem_singleton_self _
          exact (hf.untouched hi hr _ (List.mem_filter.1 hmem).1).1 rfl
        · rintro (h | ⟨h, _⟩)
          · rw [hc, Option.some.injEq] at h
            exact hcid h
          · cases h
      | false =>
        refine iff_of_true (hf.put hi hr (by simp [outcome])) (Or.inr ⟨rfl, c, b, u, hc, hreply⟩)
    · refine iff_of_false (not_faithful_finish_other hr hc hcid hreply hs) ?_
      rintro (h | ⟨_, c', b, u, hc', hfailed⟩)
      · rw [hc, Option.some.injEq] at h
        exact hcid h
      · rw [hc, Option.some.injEq] at hc'
        subst hc'
        rw [hreply, Option.some.injEq] at hfailed
        exact hs (hfailed ▸ rfl)

theorem faithful_step {e : Event α} (h : step merge slot e = some slot') (hi : Inv merge init slot)
    (hf : Faithful merge init slot) : Faithful merge init slot' ↔ FindsOwn slot e := by
  cases e with
  | request =>
    obtain rfl := Option.some.inj h
    exact iff_of_true (faithful_request hf) trivial
  | receive id chunk =>
    obtain ⟨body, unread, hr, rfl⟩ := step_receive h
    exact iff_of_true (hf.put hi hr (by simp)) trivial
  | finish id ok =>
    obtain ⟨body, unread, hr, rfl⟩ := step_finish h
    exact faithful_finish hf hi hr

/-- **A run treats every reply as itself exactly when every completion finds its own reply in the
    variable**, or fails and finds a failed one. -/
theorem faithful_iff (merge : List α → σ → σ) (init : σ) (events : List (Event α)) :
    Runs.AllStates (step merge) (Faithful merge init) (Slot.new init) events ↔
      Runs.AllSteps (step merge) FindsOwn (Slot.new init) events := by
  refine Runs.allStates_iff_allSteps inv_step faithful_step inv_new ?_
  exact ⟨fun _ _ _ hr => by simp [Slot.new] at hr, fun _ _ _ hr => by simp [Slot.new] at hr,
    fun _ ht => (nomatch ht), rfl⟩

end

end ReplySlot
