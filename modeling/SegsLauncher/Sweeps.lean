import SegsLauncher.Lib.Runs
import SegsLauncher.Worker
import SegsLauncher.Records
/-!
# Does a status sweep cover the list that is shown?

`get_server_list` and `server_status_dispatcher` walk the store separately. What a dispatcher call has
reported and what it still has to report together make its *course*; the worker's own steps keep the
course of every call, nested ones included, and a call starts on the course `get_server_list` returns.
Only a save can change a course, and never at an entry whose group it does not write.
-/
namespace SegsLauncher

open Launcher

/-- The worker and the store it reads. -/
structure WorkerState where
  store : Store
  worker : Worker

inductive WorkerEvent where
  /-- The main thread leaves another store behind. -/
  | save (st : Store)
  | dispatch
  | step (e : Worker.Event)

def WorkerState.step (s : WorkerState) : WorkerEvent → Option WorkerState
  | .save st => some { s with store := st }
  | .dispatch => (s.worker.dispatch s.store).map fun w => { s with worker := w }
  | .step e => (s.worker.step s.store e).map fun w => { s with worker := w }

/-! ## Entries -/

/-- One entry of the list: the loop that visits it, its group and its `server_name`. -/
abbrev Entry := Loop × String × String

def Loop.entry (st : Store) (l : Loop) (group : String) : Entry :=
  (l, group, ((l.settings.beginGroup group).value st "ServerName" (.string "")).toString)

/-- The entries of one section. -/
def Loop.entries (st : Store) (l : Loop) : List Entry := (l.settings.childGroups st).map (l.entry st)

/-- The entries of `get_server_list`. -/
def entries (st : Store) : List Entry := Loop.communityServers.entries st ++ Loop.localServers.entries st

theorem entries_names (st : Store) :
    (entries st).map (fun e => e.2.2) = (getServerList st).map ServerRecord.serverName := by
  simp only [entries, Loop.entries, getServerList, List.map_append, List.map_map]
  rfl

/-! ## Courses -/

/-- The entry a turn is at: its name is read from the store or has been read. -/
def Turn.entry (st : Store) (l : Loop) (t : Turn) : Entry :=
  if t.phase = .readServerName then l.entry st t.group else (l, t.group, t.serverName)

/-- What a call still has to report, as the store is now. -/
def Sweep.pending (st : Store) (s : Sweep) : List Entry :=
  (s.turn.map (Turn.entry st s.loop)).toList ++ s.groups.map (s.loop.entry st) ++
    match s.loop with
    | .communityServers => Loop.localServers.entries st
    | .localServers => []

def pendingOf (st : Store) (i : Nat) : List Sweep → List Entry
  | [] => []
  | s :: rest => if s.id = i then s.pending st else pendingOf st i rest

def Result.entry (r : Result) : Entry := (r.loop, r.group, r.server)

namespace Worker

def results (i : Nat) (w : Worker) : List Entry := (w.emitted.filter (·.sweep = i)).map Result.entry

/-- What call `i` has reported, then what it still has to report. -/
def course (st : Store) (i : Nat) (w : Worker) : List Entry := w.results i ++ pendingOf st i w.sweeps

/-- The settings object of a call stands in the group the call is at. -/
def SettingsOk (s : Sweep) : Prop :=
  s.settings = match s.turn with
    | none => s.loop.settings
    | some t => s.loop.settings.beginGroup t.group

structure Inv (w : Worker) : Prop where
  nodup : (w.sweeps.map Sweep.id).Nodup
  known : ∀ s ∈ w.sweeps, s.id < w.dispatched
  emitted : ∀ r ∈ w.emitted, r.sweep < w.dispatched
  settings : ∀ s ∈ w.sweeps, SettingsOk s

theorem inv_init : Inv {} where
  nodup := List.nodup_nil
  known := fun _ h => nomatch h
  emitted := fun _ h => nomatch h
  settings := fun _ h => nomatch h

variable {st : Store} {w w' : Worker}

theorem inv_dispatch (hi : Inv w) (h : w.dispatch st = some w') : Inv w' := by
  obtain ⟨_, rfl⟩ := dispatch_eq h
  refine ⟨?_, ?_, ?_, ?_⟩
  · rw [List.map_cons, List.nodup_cons]
    refine ⟨fun hmem => ?_, hi.nodup⟩
    obtain ⟨s, hs, hid⟩ := List.mem_map.1 hmem
    have hlt := hi.known s hs
    rw [hid] at hlt
    exact Nat.lt_irrefl _ hlt
  · intro s hs
    rcases List.mem_cons.1 hs with rfl | hs
    · exact Nat.lt_succ_self _
    · exact Nat.lt_succ_of_lt (hi.known s hs)
  · intro r hr
    exact Nat.lt_succ_of_lt (hi.emitted r hr)
  · intro s hs
    rcases List.mem_cons.1 hs with rfl | hs
    · rfl
    · exact hi.settings s hs

/-- The innermost call changes in place. -/
theorem Inv.replace {s : Sweep} {rest : List Sweep} (hi : Inv w) (hs : w.sweeps = s :: rest) (s' : Sweep)
    (hid : s'.id = s.id) (hok : SettingsOk s') {started : List Probe} {emitted : List Result}
    (hem : ∀ r ∈ emitted, r ∈ w.emitted ∨ r.sweep = s.id) :
    Inv { w with sweeps := s' :: rest, started := started, emitted := emitted } := by
  have hlt : s.id < w.dispatched := hi.known s (mem_top hs)
  refine ⟨?_, ?_, ?_, ?_⟩
  · have hn := hi.nodup
    rw [hs] at hn
    rw [List.map_cons, hid]
    exact hn
  · intro x hx
    rcases List.mem_cons.1 hx with rfl | hx
    · rw [hid]; exact hlt
    · exact hi.known x (mem_rest hs hx)
  · intro r hr
    rcases hem r hr with hr | hr
    · exact hi.emitted r hr
    · rw [hr]; exact hlt
  · intro x hx
    rcases List.mem_cons.1 hx with rfl | hx
    · exact hok
    · exact hi.settings x (mem_rest hs hx)

theorem Inv.top {s : Sweep} {rest : List Sweep} (hi : Inv w) (hs : w.sweeps = s :: rest) : SettingsOk s :=
  hi.settings s (mem_top hs)

theorem settings_none {s : Sweep} (h : SettingsOk s) (ht : s.turn = none) : s.settings = s.loop.settings := by
  rw [SettingsOk, ht] at h
  exact h

theorem settings_some {s : Sweep} {t : Turn} (h : SettingsOk s) (ht : s.turn = some t) :
    s.settings = s.loop.settings.beginGroup t.group := by
  rw [SettingsOk, ht] at h
  exact h

theorem inv_moves (hi : Inv w) (h : Moves st w w') : Inv w' := by
  cases h with
  | @beginTurn s rest group groups hs ht hg =>
    refine hi.replace hs (s.beginTurn st group groups) rfl ?_ fun r hr => Or.inl hr
    exact congrArg (QSettings.beginGroup · group) (settings_none (hi.top hs) ht)
  | @nextLoop s rest hs ht hg hl =>
    refine hi.replace hs (s.nextLoop st) rfl ?_ fun r hr => Or.inl hr
    have hset : s.settings = Loop.communityServers.settings := hl ▸ settings_none (hi.top hs) ht
    have hturn : (s.nextLoop st).turn = none := ht
    rw [SettingsOk, hturn]
    simp only [Sweep.nextLoop, hset]
    rfl
  | @done s rest hs ht hg hl =>
    have hn := hi.nodup
    rw [hs, List.map_cons, List.nodup_cons] at hn
    exact ⟨hn.2, fun x hx => hi.known x (mem_rest hs hx), hi.emitted, fun x hx => hi.settings x (mem_rest hs hx)⟩
  | @probe s rest t hs ht hp =>
    have hset := settings_some (hi.top hs) ht
    exact hi.replace hs (s.probe w.started.length (s.serverName st) t) rfl hset fun r hr => Or.inl hr
  | @call s rest t phase hs ht hp hp' _ =>
    have hset := settings_some (hi.top hs) ht
    exact hi.replace hs { s with turn := some { t with phase := phase } } rfl hset fun r hr => Or.inl hr
  | @report s rest t status uptime hs ht hp =>
    refine hi.replace hs s.endTurn rfl ?_ fun r hr => ?_
    · exact congrArg QSettings.endGroup (settings_some (hi.top hs) ht)
    · rcases List.mem_append.1 hr with hr | hr
      · exact Or.inl hr
      · exact Or.inr (List.mem_singleton.1 hr ▸ rfl)

/-! ### Steps keep courses -/

theorem pendingOf_eq_nil {i : Nat} : ∀ {l : List Sweep}, (∀ s ∈ l, s.id ≠ i) → pendingOf st i l = []
  | [], _ => rfl
  | s :: rest, h => by
    rw [pendingOf, if_neg (h s List.mem_cons_self)]
    exact pendingOf_eq_nil fun x hx => h x (List.mem_cons_of_mem _ hx)

theorem pendingOf_replace {i : Nat} {s s' : Sweep} {rest : List Sweep} (hid : s'.id = s.id)
    (h : s'.pending st = s.pending st) : pendingOf st i (s' :: rest) = pendingOf st i (s :: rest) := by
  rw [pendingOf, pendingOf, hid, h]

/-- A step of the innermost call keeps the course of every call. -/
theorem course_moves (i : Nat) (hi : Inv w) (h : Moves st w w') : w'.course st i = w.course st i := by
  unfold course
  cases h with
  | @beginTurn s rest group groups hs ht hg =>
    refine congrArg (w.results i ++ ·) ?_
    rw [hs]
    refine pendingOf_replace rfl ?_
    simp only [Sweep.pending, Sweep.beginTurn, ht, hg, Turn.entry, Option.map_some, Option.map_none,
      Option.toList_some, Option.toList_none, List.map_cons, if_true, List.nil_append, List.cons_append]
  | @nextLoop s rest hs ht hg hl =>
    refine congrArg (w.results i ++ ·) ?_
    rw [hs]
    refine pendingOf_replace rfl ?_
    have hset : s.settings = Loop.communityServers.settings := hl ▸ settings_none (hi.top hs) ht
    simp only [Sweep.pending, Sweep.nextLoop, ht, hg, hl, hset, Option.map_none, Option.toList_none, List.map_nil,
      List.nil_append, List.append_nil]
    rfl
  | @done s rest hs ht hg hl =>
    refine congrArg (w.results i ++ ·) ?_
    rw [hs, pendingOf]
    by_cases hid : s.id = i
    · rw [if_pos hid]
      have hn := hi.nodup
      rw [hs, List.map_cons, List.nodup_cons] at hn
      have hrest : ∀ x ∈ rest, x.id ≠ i := by
        intro x hx hxi
        exact hn.1 (List.mem_map.2 ⟨x, hx, hxi.trans hid.symm⟩)
      rw [pendingOf_eq_nil hrest]
      simp only [Sweep.pending, ht, hg, hl, Option.map_none, Option.toList_none, List.map_nil, List.append_nil]
    · rw [if_neg hid]
  | @probe s rest t hs ht hp =>
    refine congrArg (w.results i ++ ·) ?_
    rw [hs]
    refine pendingOf_replace rfl ?_
    have hname : s.serverName st = (s.loop.entry st t.group).2.2 := by
      rw [Sweep.serverName, settings_some (hi.top hs) ht]
      rfl
    simp only [Sweep.pending, Sweep.probe, ht, Turn.entry, hp, hname, Option.map_some, if_true]
    rfl
  | @call s rest t phase hs ht hp hp' _ =>
    refine congrArg (w.results i ++ ·) ?_
    rw [hs]
    refine pendingOf_replace rfl ?_
    simp only [Sweep.pending, ht, Turn.entry, hp, hp', Option.map_some, if_false]
  | @report s rest t status uptime hs ht hp =>
    rw [hs]
    unfold results
    rw [List.filter_append, List.map_append, List.append_assoc]
    refine congrArg _ ?_
    rw [pendingOf, pendingOf]
    by_cases hid : s.id = i
    · have hid' : s.endTurn.id = i := hid
      rw [if_pos hid, if_pos hid']
      simp only [Sweep.result, hid, decide_true, List.filter_cons_of_pos, List.filter_nil, List.map_cons, List.map_nil,
        Result.entry, Sweep.pending, Sweep.endTurn, ht, Turn.entry, hp, Option.map_some, Option.map_none,
        Option.toList_some, Option.toList_none, if_false, List.nil_append, List.cons_append]
    · have hid' : s.endTurn.id ≠ i := hid
      rw [if_neg hid, if_neg hid']
      simp [Sweep.result, hid]

/-- A new call keeps the course of every other one. -/
theorem course_dispatch {i : Nat} (hlt : i < w.dispatched) (h : w.dispatch st = some w') :
    w'.course st i = w.course st i := by
  obtain ⟨_, rfl⟩ := dispatch_eq h
  have hne : (serverStatusDispatcher w.dispatched st).id ≠ i := by
    have hid : (serverStatusDispatcher w.dispatched st).id = w.dispatched := rfl
    omega
  rw [course, course, pendingOf, if_neg hne]
  rfl

/-- The course a new call starts on is the list. -/
theorem course_new (hi : Inv w) (h : w.dispatch st = some w') : w'.course st w.dispatched = entries st := by
  obtain ⟨_, rfl⟩ := dispatch_eq h
  have hres : w.emitted.filter (·.sweep = w.dispatched) = [] := by
    rw [List.filter_eq_nil_iff]
    intro r hr
    have hlt := hi.emitted r hr
    simp only [decide_eq_true_eq]
    omega
  rw [course, results, pendingOf, if_pos (show (serverStatusDispatcher w.dispatched st).id = w.dispatched from rfl)]
  simp only [hres, List.map_nil, List.nil_append]
  rfl

end Worker

/-! ## Every call comes to its end -/

/-- How many steps a call can still take, as the store is now. -/
def Sweep.work (st : Store) (s : Sweep) : Nat :=
  (s.turn.map fun t => t.phase.work).getD 0 + 5 * s.groups.length +
    match s.loop with
    | .communityServers => 2 + 5 * (Loop.localServers.settings.childGroups st).length
    | .localServers => 1

namespace Worker

def work (st : Store) (w : Worker) : Nat := (w.sweeps.map (Sweep.work st)).sum

section Work
variable {st : Store} {w w' : Worker}

/-- The innermost call has fewer steps left; the others have as many. -/
theorem work_replace {s s' : Sweep} {rest : List Sweep} (hs : w.sweeps = s :: rest) (hs' : w'.sweeps = s' :: rest)
    (h : s'.work st < s.work st) : w'.work st < w.work st := by
  unfold work
  rw [hs, hs', List.map_cons, List.map_cons, List.sum_cons, List.sum_cons]
  omega

theorem work_moves (hi : Inv w) (h : Moves st w w') : w'.work st < w.work st := by
  cases h with
  | @beginTurn s rest group groups hs ht hg =>
    refine work_replace hs rfl ?_
    simp only [Sweep.work, Sweep.beginTurn, ht, hg, Phase.work, List.length_cons, Option.map_some, Option.map_none,
      Option.getD_some, Option.getD_none]
    omega
  | @nextLoop s rest hs ht hg hl =>
    refine work_replace hs rfl ?_
    have hset : s.settings = Loop.communityServers.settings := hl ▸ settings_none (hi.top hs) ht
    have hgroups : (s.nextLoop st).groups = Loop.localServers.settings.childGroups st := by
      simp only [Sweep.nextLoop, hset]
      rfl
    have hturn : (s.nextLoop st).turn = none := ht
    have hloop : (s.nextLoop st).loop = .localServers := rfl
    simp only [Sweep.work, ht, hturn, hg, hgroups, hl, hloop, List.length_nil, Option.map_none, Option.getD_none]
    omega
  | @done s rest hs ht hg hl =>
    unfold work
    rw [hs, List.map_cons, List.sum_cons]
    simp only [Sweep.work, hl]
    omega
  | @probe s rest t hs ht hp =>
    refine work_replace hs rfl ?_
    simp only [Sweep.work, Sweep.probe, ht, hp, Phase.work, Option.map_some, Option.getD_some]
    omega
  | @call s rest t phase hs ht hp hp' hw =>
    refine work_replace hs rfl ?_
    simp only [Sweep.work, ht, Option.map_some, Option.getD_some]
    omega
  | @report s rest t status uptime hs ht hp =>
    refine work_replace hs rfl ?_
    have hpos : 0 < t.phase.work := by cases t.phase <;> decide
    simp only [Sweep.work, Sweep.endTurn, ht, Option.map_some, Option.map_none, Option.getD_some, Option.getD_none]
    omega

/-- A call in progress goes on, whatever the RPC call it waits in returns. -/
theorem step_isSome (hs : w.sweeps ≠ []) (result : Option QVariant) (utcOffset now : Int) :
    (w.step st .advance).isSome ∨ (w.step st (.returns result utcOffset now)).isSome := by
  unfold step
  cases hw : w.sweeps with
  | nil => exact absurd hw hs
  | cons s rest =>
    simp only
    cases ht : s.turn with
    | none =>
      left
      cases hg : s.groups with
      | cons group groups => rfl
      | nil => cases hl : s.loop <;> rfl
    | some t =>
      by_cases hp : t.phase = .readServerName
      · left
        simp only [hp, if_true, Option.isSome_some]
      · right
        obtain ⟨r, hr⟩ := Option.isSome_iff_exists.1 (fetchServerStatus_isSome result utcOffset now hp)
        simp only [hr]
        cases r <;> rfl

end Work

end Worker

/-- Left alone, the calls in progress come to their ends: they go on as long as there is one, whatever the
RPC calls return, and only finitely often. -/
structure ComesToRest (s : WorkerState) : Prop where
  bounded : ∃ n, ∀ (es : List WorkerEvent) (t : WorkerState), (∀ e ∈ es, ∃ e', e = .step e') →
    Runs.run WorkerState.step s es = some t → es.length ≤ n
  goesOn : s.worker.sweeps ≠ [] → ∀ (result : Option QVariant) (utcOffset now : Int),
    (s.step (.step .advance)).isSome ∨ (s.step (.step (.returns result utcOffset now))).isSome

/-! ## Groups that are not written -/

/-- Every key below a group keeps its value. -/
def GroupKept (l : Loop) (group : String) (st st' : Store) : Prop :=
  ∀ a r, st'.lookup ((l.settings.beginGroup group).groupPrefix ++ a :: r) =
    st.lookup ((l.settings.beginGroup group).groupPrefix ++ a :: r)

theorem loop_groupPrefix (l : Loop) : l.settings.groupPrefix =
    match l with
    | .communityServers => communityServers
    | .localServers => localServers := by
  cases l with
  | communityServers => exact communityServers_groupPrefix
  | localServers => exact localServers_groupPrefix

section Kept
variable {l : Loop} {group : String} {st st' : Store}

theorem GroupKept.entry (h : GroupKept l group st st') : l.entry st' group = l.entry st group := by
  have hname : normalizedKey "ServerName" = [seg "ServerName"] := normalizedKey_seg _ (by decide)
  unfold Loop.entry QSettings.value QSettings.actualKey
  rw [hname, h]

theorem GroupKept.mem_childGroups (h : GroupKept l group st st') (hg : group ∈ l.settings.childGroups st) :
    group ∈ l.settings.childGroups st' := by
  obtain ⟨g, rfl, hmem⟩ := QSettings.exists_segment_of_mem_childGroups hg
  rw [QSettings.mem_childGroups]
  rw [KeyTree.mem_childGroups] at hmem ⊢
  obtain ⟨a, r, hmem⟩ := hmem
  have hkept := h a r
  rw [QSettings.groupPrefix_beginGroup, normalizedKey_segment, List.append_assoc, List.singleton_append] at hkept
  exact ⟨a, r, (KeyTree.mem_congr hkept).2 hmem⟩

/-- Whether an entry is the one of a group. -/
def isEntryOf (l : Loop) (group : String) (e : Entry) : Bool := e.1 = l ∧ e.2.1 = group

theorem isEntryOf_iff (e : Entry) : isEntryOf l group e = true ↔ e.1 = l ∧ e.2.1 = group := by
  unfold isEntryOf
  exact decide_eq_true_iff

theorem isEntryOf_entry (l' : Loop) (group' : String) :
    isEntryOf l group (l'.entry st group') = decide (l' = l ∧ group' = group) := rfl

/-- The entry of a group that exists occurs once among those of its section. -/
theorem filter_entries (hg : group ∈ l.settings.childGroups st) :
    (l.entries st).filter (isEntryOf l group) = [l.entry st group] := by
  have hcomp : (isEntryOf l group ∘ l.entry st) = fun group' => decide (group' = group) := by
    funext group'
    simp [isEntryOf_entry]
  rw [Loop.entries, List.filter_map, hcomp]
  have hone : (l.settings.childGroups st).filter (fun group' => decide (group' = group)) = [group] := by
    rw [List.filter_eq, List.count_eq_one_of_mem (QSettings.nodup_childGroups _ _) hg]
    rfl
  rw [hone]
  rfl

theorem filter_entries_other {l' : Loop} (hne : l' ≠ l) : (l'.entries st).filter (isEntryOf l group) = [] := by
  rw [List.filter_eq_nil_iff]
  intro e he
  obtain ⟨group', _, rfl⟩ := List.mem_map.1 he
  simp [isEntryOf_entry, hne]

theorem filter_map_entry (h : GroupKept l group st st') (l' : Loop) (groups : List String) :
    (groups.map (l'.entry st')).filter (isEntryOf l group) = (groups.map (l'.entry st)).filter (isEntryOf l group) := by
  induction groups with
  | nil => rfl
  | cons group' groups ih =>
    rw [List.map_cons, List.map_cons, List.filter_cons, List.filter_cons, isEntryOf_entry, isEntryOf_entry, ih]
    by_cases hgroup : l' = l ∧ group' = group
    · obtain ⟨rfl, rfl⟩ := hgroup
      rw [h.entry]
    · rw [if_neg (by simpa using hgroup), if_neg (by simpa using hgroup)]

theorem filter_turn_entry (h : GroupKept l group st st') (l' : Loop) (t : Turn) :
    [t.entry st' l'].filter (isEntryOf l group) = [t.entry st l'].filter (isEntryOf l group) := by
  unfold Turn.entry
  split
  · exact filter_map_entry h l' [t.group]
  · rfl

theorem filter_entries_kept (h : GroupKept l group st st') (hg : group ∈ l.settings.childGroups st) (l' : Loop) :
    (l'.entries st').filter (isEntryOf l group) = (l'.entries st).filter (isEntryOf l group) := by
  by_cases hl : l' = l
  · subst hl
    rw [filter_entries hg, filter_entries (h.mem_childGroups hg), h.entry]
  · rw [filter_entries_other hl, filter_entries_other hl]

theorem filter_pending (h : GroupKept l group st st') (hg : group ∈ l.settings.childGroups st) (s : Sweep) :
    (s.pending st').filter (isEntryOf l group) = (s.pending st).filter (isEntryOf l group) := by
  unfold Sweep.pending
  rw [List.filter_append, List.filter_append, List.filter_append, List.filter_append, filter_map_entry h]
  have hturn : ((s.turn.map (Turn.entry st' s.loop)).toList).filter (isEntryOf l group) =
      ((s.turn.map (Turn.entry st s.loop)).toList).filter (isEntryOf l group) := by
    cases s.turn with
    | none => rfl
    | some t => exact filter_turn_entry h s.loop t
  rw [hturn]
  cases s.loop with
  | communityServers => rw [filter_entries_kept h hg]
  | localServers => rfl

/-- A save keeps every course at the groups it does not write. -/
theorem Worker.filter_course (h : GroupKept l group st st') (hg : group ∈ l.settings.childGroups st) (i : Nat)
    (w : Worker) :
    (w.course st' i).filter (isEntryOf l group) = (w.course st i).filter (isEntryOf l group) := by
  unfold Worker.course
  rw [List.filter_append, List.filter_append]
  refine congrArg _ ?_
  induction w.sweeps with
  | nil => rfl
  | cons s rest ih =>
    rw [pendingOf, pendingOf]
    split
    · exact filter_pending h hg s
    · exact ih

end Kept

/-- An `add_local_server` keeps every community group, and every local group its name does not begin with. -/
theorem groupKept_addLocalServer {l : Loop} {g : Segment} (server : QVariantMap) (st : Store)
    (h : l = .localServers → (normalizedKey (server.get "server_name").toString).head? ≠ some g) :
    GroupKept l g.1 st (addLocalServer server st) := by
  intro a r
  rw [QSettings.groupPrefix_beginGroup, normalizedKey_segment, loop_groupPrefix, List.append_assoc,
    List.singleton_append]
  cases l with
  | communityServers => exact addLocalServer_lookup server st _ (communityServers_ne_local _)
  | localServers =>
    rw [addLocalServer_eq]
    apply KeyTree.lookup_setFields_of_ne
    intro f _ e
    simp only [List.append_assoc, List.append_cancel_left_eq] at e
    cases hn : normalizedKey (server.get "server_name").toString with
    | nil => simp [hn] at e
    | cons b r' =>
      rw [hn, List.cons_append, List.cons.injEq] at e
      exact h rfl (by rw [hn, e.1]; rfl)

/-- A reply keeps every local group, and every community group that none of its names begins with. -/
theorem groupKept_saveServersReply {l : Loop} {g : Segment} (jsonResponse : Document) (st : Store)
    (h : l = .communityServers →
      ∀ value ∈ serversArray jsonResponse, (normalizedKey (communityName value)).head? ≠ some g) :
    GroupKept l g.1 st (saveServersReply jsonResponse st) := by
  intro a r
  rw [QSettings.groupPrefix_beginGroup, normalizedKey_segment, loop_groupPrefix, List.append_assoc,
    List.singleton_append]
  cases l with
  | localServers => exact saveServersReply_lookup jsonResponse st _ (localServers_ne_community _)
  | communityServers =>
    rw [saveServersReply_eq]
    have hall := h rfl
    clear h
    revert hall
    -- one `Servers` element after the other, each below a group of its own
    induction serversArray jsonResponse generalizing st with
    | nil => exact fun _ => rfl
    | cons value values ih =>
      intro hall
      rw [List.foldl_cons, ih _ fun v hv => hall v (List.mem_cons_of_mem _ hv)]
      apply KeyTree.lookup_setFields_of_ne
      intro f _ e
      simp only [List.append_assoc, List.append_cancel_left_eq] at e
      cases hn : normalizedKey (communityName value) with
      | nil => simp [hn] at e
      | cons b r' =>
        rw [hn, List.cons_append, List.cons.injEq] at e
        exact hall value List.mem_cons_self (by rw [hn, e.1]; rfl)

/-! ## Runs -/

def WorkerState.Inv (s : WorkerState) : Prop := s.worker.Inv

theorem workerState_inv {s t : WorkerState} {e : WorkerEvent} (h : s.step e = some t) (hi : s.Inv) : t.Inv := by
  cases e with
  | save st =>
    obtain rfl := Option.some.inj h
    exact hi
  | dispatch =>
    obtain ⟨w, hw, rfl⟩ := Option.map_eq_some_iff.1 h
    exact Worker.inv_dispatch hi hw
  | step e =>
    obtain ⟨w, hw, rfl⟩ := Option.map_eq_some_iff.1 h
    exact Worker.inv_moves hi (Worker.step_moves hw)

theorem dispatched_mono {s t : WorkerState} {e : WorkerEvent} {n : Nat} (h : s.step e = some t)
    (hn : n < s.worker.dispatched) : n < t.worker.dispatched := by
  cases e with
  | save st =>
    obtain rfl := Option.some.inj h
    exact hn
  | dispatch =>
    obtain ⟨w, hw, rfl⟩ := Option.map_eq_some_iff.1 h
    obtain ⟨_, rfl⟩ := Worker.dispatch_eq hw
    exact Nat.lt_succ_of_lt hn
  | step e =>
    obtain ⟨w, hw, rfl⟩ := Option.map_eq_some_iff.1 h
    cases Worker.step_moves hw <;> exact hn

/-- A step that is no save keeps the course of every call made before it. -/
theorem course_step {s t : WorkerState} {e : WorkerEvent} {i : Nat} (hi : s.worker.Inv)
    (hlt : i < s.worker.dispatched) (h : s.step e = some t) (hst : ∀ st, e ≠ .save st) :
    t.store = s.store ∧ t.worker.course s.store i = s.worker.course s.store i := by
  cases e with
  | save st => exact absurd rfl (hst st)
  | dispatch =>
    obtain ⟨w, hw, rfl⟩ := Option.map_eq_some_iff.1 h
    exact ⟨rfl, Worker.course_dispatch hlt hw⟩
  | step e =>
    obtain ⟨w, hw, rfl⟩ := Option.map_eq_some_iff.1 h
    exact ⟨rfl, Worker.course_moves i hi (Worker.step_moves hw)⟩

/-- Call `i` is known and its course is `c` under `f`, as the store is now. -/
structure OnCourse (i : Nat) (f : List Entry → List Entry) (c : List Entry) (s : WorkerState) : Prop where
  inv : s.worker.Inv
  known : i < s.worker.dispatched
  course : f (s.worker.course s.store i) = c

/-- A course is kept by every step as far as the saves among them keep it. -/
theorem OnCourse.step {i : Nat} {f : List Entry → List Entry} {c : List Entry} {s t : WorkerState} {e : WorkerEvent}
    (h : OnCourse i f c s) (hstep : s.step e = some t)
    (hsave : ∀ st, e = .save st → f (s.worker.course st i) = f (s.worker.course s.store i)) : OnCourse i f c t := by
  refine ⟨workerState_inv hstep h.inv, dispatched_mono hstep h.known, ?_⟩
  by_cases hst : ∃ st, e = .save st
  · obtain ⟨st, rfl⟩ := hst
    obtain rfl := Option.some.inj hstep
    exact (hsave st rfl).trans h.course
  · obtain ⟨hstore, hcourse⟩ := course_step h.inv h.known hstep fun st he => hst ⟨st, he⟩
    rw [hstore, hcourse]
    exact h.course

theorem comesToRest_of_inv {s : WorkerState} (hi : s.Inv) : ComesToRest s where
  bounded := by
    refine ⟨s.worker.work s.store, fun es t hes hrun => ?_⟩
    refine Runs.length_run_le workerState_inv ?_ hrun hes hi (μ := fun s => s.worker.work s.store)
    rintro u e v hstep ⟨e', rfl⟩ hu
    obtain ⟨w, hw, rfl⟩ := Option.map_eq_some_iff.1 hstep
    exact Worker.work_moves hu (Worker.step_moves hw)
  goesOn := by
    intro hs result utcOffset now
    simp only [WorkerState.step, Option.isSome_map]
    exact Worker.step_isSome hs result utcOffset now

/-- A course is kept by a run through stores with `Q`, if a save that leads from one such store to another
keeps it. -/
theorem OnCourse.run {Q : Store → Prop} {i : Nat} {f : List Entry → List Entry} {c : List Entry}
    {es : List WorkerEvent} {s t : WorkerState}
    (hsave : ∀ (w : Worker) (st st' : Store), Q st → Q st' → f (w.course st' i) = f (w.course st i))
    (hrun : Runs.run WorkerState.step s es = some t)
    (hq : Runs.AllStates WorkerState.step (fun u => Q u.store) s es) (h : OnCourse i f c s) : OnCourse i f c t := by
  refine Runs.run_inv_of_allStates ?_ hrun hq h
  intro u e v hstep hu hv hcourse
  apply hcourse.step hstep
  rintro st rfl
  obtain rfl := Option.some.inj hstep
  exact hsave u.worker u.store st hu hv

section Sweep
variable {st₀ : Store} {before after : List WorkerEvent} {s s₁ s₂ : WorkerState}

theorem onCourse_new (hb : Runs.run WorkerState.step ⟨st₀, {}⟩ before = some s) (hd : s.step .dispatch = some s₁)
    (f : List Entry → List Entry) : OnCourse s.worker.dispatched f (f (entries s.store)) s₁ := by
  have hinv : s.Inv := Runs.run_inv workerState_inv hb Worker.inv_init
  obtain ⟨w, hw, rfl⟩ := Option.map_eq_some_iff.1 hd
  refine ⟨Worker.inv_dispatch hinv hw, ?_, ?_⟩
  · obtain ⟨_, rfl⟩ := Worker.dispatch_eq hw
    exact Nat.lt_succ_self _
  · exact congrArg f (Worker.course_new hinv hw)

theorem OnCourse.results {i : Nat} {f : List Entry → List Entry} {c : List Entry} (h : OnCourse i f c s)
    (hend : ∀ sweep ∈ s.worker.sweeps, sweep.id ≠ i) : f (s.worker.results i) = c := by
  have hc := h.course
  rw [Worker.course, Worker.pendingOf_eq_nil hend, List.append_nil] at hc
  exact hc

theorem results_names (i : Nat) (w : Worker) :
    (w.results i).map (fun e => e.2.2) = (w.emitted.filter (·.sweep = i)).map Result.server := by
  rw [Worker.results, List.map_map]
  rfl

theorem filter_results (i : Nat) (l : Loop) (group : String) (w : Worker) :
    (w.results i).filter (isEntryOf l group) =
      (w.emitted.filter fun r => r.sweep = i ∧ r.loop = l ∧ r.group = group).map Result.entry := by
  rw [Worker.results, List.filter_map, List.filter_filter]
  refine congrArg (List.map Result.entry) (List.filter_congr fun r _ => ?_)
  rw [Bool.eq_iff_iff, Bool.and_eq_true, Function.comp_apply, isEntryOf_iff, decide_eq_true_iff, decide_eq_true_iff]
  exact and_comm

/-- If the store has not changed meanwhile, a call has reported the names of `get_server_list`. -/
theorem names_of_unchanged (hb : Runs.run WorkerState.step ⟨st₀, {}⟩ before = some s)
    (hd : s.step .dispatch = some s₁) (ha : Runs.run WorkerState.step s₁ after = some s₂)
    (hend : ∀ sweep ∈ s₂.worker.sweeps, sweep.id ≠ s.worker.dispatched)
    (hstore : Runs.AllStates WorkerState.step (fun t => t.store = s.store) s₁ after) :
    (s₂.worker.emitted.filter (·.sweep = s.worker.dispatched)).map Result.server =
      (getServerList s.store).map ServerRecord.serverName := by
  have hsave : ∀ (w : Worker) (st st' : Store), st = s.store → st' = s.store →
      id (w.course st' s.worker.dispatched) = id (w.course st s.worker.dispatched) := by
    rintro w st st' rfl rfl
    rfl
  have hcourse := (onCourse_new hb hd id).run (Q := (· = s.store)) hsave ha hstore
  have hres := hcourse.results hend
  rw [← results_names, ← entries_names]
  exact congrArg _ hres

/-- If a group has been kept, a call has reported its entry once. -/
theorem names_of_kept {l : Loop} {group : String} (hb : Runs.run WorkerState.step ⟨st₀, {}⟩ before = some s)
    (hd : s.step .dispatch = some s₁) (ha : Runs.run WorkerState.step s₁ after = some s₂)
    (hend : ∀ sweep ∈ s₂.worker.sweeps, sweep.id ≠ s.worker.dispatched)
    (hg : group ∈ l.settings.childGroups s.store)
    (hkept : Runs.AllStates WorkerState.step (fun t => GroupKept l group s.store t.store) s₁ after) :
    (s₂.worker.emitted.filter fun r => r.sweep = s.worker.dispatched ∧ r.loop = l ∧ r.group = group).map
      Result.server = [(readServer l.settings s.store group).serverName] := by
  let f : List Entry → List Entry := List.filter (isEntryOf l group)
  have hsave : ∀ (w : Worker) (st st' : Store), GroupKept l group s.store st → GroupKept l group s.store st' →
      f (w.course st' s.worker.dispatched) = f (w.course st s.worker.dispatched) := by
    intro w st st' h h'
    have hback : GroupKept l group st st' := fun a r => (h' a r).trans (h a r).symm
    exact Worker.filter_course hback (h.mem_childGroups hg) _ _
  have hcourse := (onCourse_new hb hd f).run (Q := GroupKept l group s.store) hsave ha hkept
  have hres : (s₂.worker.results s.worker.dispatched).filter (isEntryOf l group) =
      (entries s.store).filter (isEntryOf l group) := hcourse.results hend
  have hlist : (entries s.store).filter (isEntryOf l group) = [l.entry s.store group] := by
    rw [entries, List.filter_append]
    cases l with
    | communityServers => rw [filter_entries hg, filter_entries_other (by decide)]; rfl
    | localServers => rw [filter_entries hg, filter_entries_other (by decide)]; rfl
  rw [filter_results, hlist] at hres
  have hnames := congrArg (List.map fun e : Entry => e.2.2) hres
  rw [List.map_map] at hnames
  exact hnames

/-- **A sweep covers the list.** Take any run of the worker, with any saves of the main thread, any
    outcomes of the calls and any other dispatcher calls before, inside and after this one. Left alone, the
    calls in progress come to their ends. When this one has ended: if the store has not changed meanwhile,
    the names it reported are those of `get_server_list`, in length and order; and every entry whose group
    has been kept, whatever else was saved, has been reported once, under its name. -/
theorem sweep_covers_list (hb : Runs.run WorkerState.step ⟨st₀, {}⟩ before = some s)
    (hd : s.step .dispatch = some s₁) (ha : Runs.run WorkerState.step s₁ after = some s₂) :
    ComesToRest s₂ ∧ ((∀ sweep ∈ s₂.worker.sweeps, sweep.id ≠ s.worker.dispatched) →
      (Runs.AllStates WorkerState.step (fun t => t.store = s.store) s₁ after →
        (s₂.worker.emitted.filter (·.sweep = s.worker.dispatched)).map Result.server =
          (getServerList s.store).map ServerRecord.serverName) ∧
      ∀ l group, group ∈ l.settings.childGroups s.store →
        Runs.AllStates WorkerState.step (fun t => GroupKept l group s.store t.store) s₁ after →
        (s₂.worker.emitted.filter fun r => r.sweep = s.worker.dispatched ∧ r.loop = l ∧ r.group = group).map
          Result.server = [(readServer l.settings s.store group).serverName]) := by
  constructor
  · have hinv : s.Inv := Runs.run_inv workerState_inv hb Worker.inv_init
    exact comesToRest_of_inv (Runs.run_inv workerState_inv ha (workerState_inv hd hinv))
  · intro hend
    exact ⟨names_of_unchanged hb hd ha hend, fun l group => names_of_kept hb hd ha hend⟩

end Sweep

/-- What the store and all that is saved have, the store has throughout. -/
theorem allStates_store {Q : Store → Prop} : ∀ {es : List WorkerEvent} {s : WorkerState}, (∀ st, .save st ∈ es → Q st) →
    Q s.store → Runs.AllStates WorkerState.step (fun t => Q t.store) s es
  | [], _, _, hs => hs
  | e :: es, s, hes, hs => by
    refine ⟨hs, fun t ht => allStates_store (fun st hst => hes st (List.mem_cons_of_mem _ hst)) ?_⟩
    cases e with
    | save st =>
      obtain rfl := Option.some.inj ht
      exact hes st List.mem_cons_self
    | dispatch =>
      obtain ⟨w, _, rfl⟩ := Option.map_eq_some_iff.1 ht
      exact hs
    | step e =>
      obtain ⟨w, _, rfl⟩ := Option.map_eq_some_iff.1 ht
      exact hs

/-- A store with a community server and two local ones. -/
def listStore : Store :=
  addLocalServer (serverObj "Test" "10.0.0.2") (addLocalServer (serverObj "Main" "10.0.0.1")
    (saveServersReply (some (.object [("Servers", .array [.object [("ServerDetails", .object
      [("Name", .string "Official"), ("IP", .string "10.0.0.9")])]])])) ∅))

/-- A sweep over it, with `inside` in the ping of the first server. -/
def listSweep (inside : List WorkerEvent) : List WorkerEvent :=
  [.step .advance, .step .advance, .step (.returns (some .invalid) 0 0)] ++ inside ++
    [.step (.returns (some .invalid) 0 0), .step (.returns (some (.int 0)) 0 86400), .step .advance,
      .step .advance, .step .advance, .step (.returns none 0 0),
      .step .advance, .step .advance, .step (.returns (some .invalid) 0 0), .step (.returns none 0 0), .step .advance]

/-- Another dispatcher call that reaches no server. -/
def failingSweep : List WorkerEvent :=
  [.dispatch, .step .advance, .step .advance, .step (.returns none 0 0), .step .advance,
    .step .advance, .step .advance, .step (.returns none 0 0),
    .step .advance, .step .advance, .step (.returns none 0 0), .step .advance]

/-- The main thread gives one of the local servers another address. -/
def savedStore : Store := addLocalServer (serverObj "Test" "10.0.0.3") listStore

/-- A sweep reports the three servers of the list, another call inside it; and when one of them is saved again
meanwhile, each of the others once. -/
theorem sweep_covers_list_three :
    let s₁ : WorkerState := ⟨listStore, { sweeps := [serverStatusDispatcher 0 listStore], dispatched := 1 }⟩
    (∃ s₂, Runs.run WorkerState.step s₁ (listSweep failingSweep) = some s₂ ∧
      (s₂.worker.emitted.filter (·.sweep = 0)).map Result.server =
        (getServerList listStore).map ServerRecord.serverName ∧
      (getServerList listStore).map ServerRecord.serverName = ["Official", "Main", "Test"]) ∧
    ∃ s₂, Runs.run WorkerState.step s₁ (listSweep [.save savedStore]) = some s₂ ∧
      (s₂.worker.emitted.filter fun r => r.sweep = 0 ∧ r.loop = .communityServers ∧ r.group = "Official").map
        Result.server = [(readServer Loop.communityServers.settings listStore "Official").serverName] ∧
      (s₂.worker.emitted.filter fun r => r.sweep = 0 ∧ r.loop = .localServers ∧ r.group = "Main").map
        Result.server = [(readServer Loop.localServers.settings listStore "Main").serverName] := by
  intro s₁
  have hb : Runs.run WorkerState.step ⟨listStore, {}⟩ [] = some ⟨listStore, {}⟩ := rfl
  have hd : WorkerState.step ⟨listStore, {}⟩ .dispatch = some s₁ := rfl
  have hruns : ∀ inside ∈ [failingSweep, [.save savedStore]],
      ∃ s₂, Runs.run WorkerState.step s₁ (listSweep inside) = some s₂ ∧ s₂.worker.sweeps = [] := by
    have hall : [failingSweep, [.save savedStore]].all (fun inside =>
        (Runs.run WorkerState.step s₁ (listSweep inside)).any fun s₂ => s₂.worker.sweeps.isEmpty) = true := by
      decide +kernel
    intro inside hinside
    obtain ⟨s₂, hs₂, hempty⟩ := (Option.any_eq_true _ _).1 (List.all_eq_true.1 hall inside hinside)
    exact ⟨s₂, hs₂, List.isEmpty_iff.1 hempty⟩
  have hended : ∀ {s₂ : WorkerState}, s₂.worker.sweeps = [] → ∀ sweep ∈ s₂.worker.sweeps, sweep.id ≠ 0 := by
    intro s₂ hsweeps
    rw [hsweeps]
    exact fun _ h => nomatch h
  have hkept : ∀ l (g : Segment), (l = .localServers → some (seg "Test") ≠ some g) →
      Runs.AllStates WorkerState.step (fun t => GroupKept l g.1 listStore t.store) s₁
        (listSweep [.save savedStore]) := by
    intro l g hg
    have hsave : GroupKept l g.1 listStore savedStore := groupKept_addLocalServer _ _ hg
    refine allStates_store (fun st hst => ?_) fun _ _ => rfl
    obtain rfl : st = savedStore := by simpa [listSweep] using hst
    exact hsave
  constructor
  · obtain ⟨s₂, ha, hsweeps⟩ := hruns _ List.mem_cons_self
    have hsame : Runs.AllStates WorkerState.step (fun t => t.store = listStore) s₁ (listSweep failingSweep) := by
      refine @allStates_store (· = listStore) _ s₁ (fun st hst => ?_) rfl
      simp [listSweep, failingSweep] at hst
    refine ⟨s₂, ha, ((sweep_covers_list hb hd ha).2 (hended hsweeps)).1 hsame, ?_⟩
    decide +kernel
  · obtain ⟨s₂, ha, hsweeps⟩ := hruns _ (List.mem_cons_of_mem _ List.mem_cons_self)
    have hcovers := ((sweep_covers_list hb hd ha).2 (hended hsweeps)).2
    refine ⟨s₂, ha, hcovers .communityServers "Official" ?_ (hkept _ (seg "Official") (fun h => nomatch h)),
      hcovers .localServers "Main" ?_ (hkept _ (seg "Main") (fun _ => by decide))⟩
    · decide +kernel
    · decide +kernel

end SegsLauncher
