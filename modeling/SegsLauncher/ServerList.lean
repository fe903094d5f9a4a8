import SegsLauncher.Lib.Runs
import SegsLauncher.Records
import SegsLauncher.Handlers
/-!
# Does the list shown agree with the list saved?

`ListAgrees` compares the rows of `server_list_model` with `get_server_list()`, record by record, from
the first `populate_server_list` on. Rows are only ever appended, so it survives exactly the steps that
append what the store gains (`listAgrees_iff`): a reply must find no rows and one connected
`populate_server_list` (or nothing saved at all), and a server added by hand must open a new group of
its own.
-/
namespace SegsLauncher

open Launcher MainWindow

/-! ## The saved list under a save -/

/-- The records `get_server_list` reads in one section. -/
def recordsOf (p : List Segment) (st : Store) : List ServerRecord := (groupsOf p st).map (recordAt p st)

theorem getServerList_sections (st : Store) :
    getServerList st = recordsOf communityServers st ++ recordsOf localServers st := getServerList_eq st

theorem recordAt_congr {p : List Segment} {st st' : Store} {g : Segment}
    (h : ∀ f, st'.lookup (p ++ [g] ++ [f]) = st.lookup (p ++ [g] ++ [f])) :
    recordAt p st' g = recordAt p st g := by
  unfold recordAt fieldAt
  rw [h, h, h]

/-- The groups are the same and so is their order, since no two have the same code units. -/
theorem groupsOf_congr {p : List Segment} {st st' : Store}
    (h : ∀ k, st'.lookup (p ++ k) = st.lookup (p ++ k)) : groupsOf p st' = groupsOf p st := by
  have hperm : (groupsOf p st').Perm (groupsOf p st) := by
    rw [List.perm_ext_iff_of_nodup (nodup_groupsOf _ _) (nodup_groupsOf _ _)]
    intro g
    rw [mem_groupsOf, mem_groupsOf, KeyTree.childGroups_congr h]
  refine hperm.eq_of_pairwise ?_ (groupsOf_pairwise p st') (groupsOf_pairwise p st)
  intro a b _ _ hab hba
  exact Subtype.ext (utf16_injective (le_antisymm hab hba))

/-- A save elsewhere leaves a section's records alone. -/
theorem recordsOf_congr {p : List Segment} {st st' : Store}
    (h : ∀ k, st'.lookup (p ++ k) = st.lookup (p ++ k)) : recordsOf p st' = recordsOf p st := by
  have hr : recordAt p st' = recordAt p st := by
    funext g
    apply recordAt_congr
    intro f
    rw [List.append_assoc]
    exact h _
  rw [recordsOf, recordsOf, hr, groupsOf_congr h]

section Save
variable {p w : List Segment} {fs : List (Segment × QVariant)} {st : Store}

theorem mem_groupsOf_save (hfs : fs ≠ []) (g : Segment) :
    g ∈ groupsOf p (KeyTree.setFields (p ++ w) fs st) ↔ g ∈ groupsOf p st ∨ w.head? = some g := by
  rw [mem_groupsOf, mem_groupsOf, KeyTree.mem_childGroups_setFields hfs]

/-- A record saved under a path that opens no new group changes no group. -/
theorem groupsOf_save_old (hfs : fs ≠ []) (hw : ∀ g, w.head? = some g → g ∈ groupsOf p st) :
    (groupsOf p (KeyTree.setFields (p ++ w) fs st)).Perm (groupsOf p st) := by
  rw [List.perm_ext_iff_of_nodup (nodup_groupsOf _ _) (nodup_groupsOf _ _)]
  intro g
  rw [mem_groupsOf_save hfs]
  exact ⟨fun h => h.elim id (hw g), Or.inl⟩

/-- A record saved under a path whose first segment is new adds that group. -/
theorem groupsOf_save_new (hfs : fs ≠ []) {g : Segment} (hw : w.head? = some g) (hg : g ∉ groupsOf p st) :
    (groupsOf p (KeyTree.setFields (p ++ w) fs st)).Perm (g :: groupsOf p st) := by
  rw [List.perm_ext_iff_of_nodup (nodup_groupsOf _ _) (List.nodup_cons.2 ⟨hg, nodup_groupsOf _ _⟩)]
  intro g'
  rw [mem_groupsOf_save hfs, hw, List.mem_cons, Option.some.injEq]
  exact ⟨fun h => h.elim Or.inr fun e => Or.inl e.symm, fun h => h.elim (fun e => Or.inr e.symm) Or.inl⟩

theorem recordAt_save_of_ne {g : Segment} (h : w ≠ [g]) :
    recordAt p (KeyTree.setFields (p ++ w) fs st) g = recordAt p st g :=
  recordAt_congr fun _ => KeyTree.lookup_setFields_of_path_ne _ _ fun e => h (List.append_cancel_left e).symm

/-- The records after a save that opens the group `g`: what is read there, and the records from before. -/
theorem recordsOf_save_new (hfs : fs ≠ []) {g : Segment} (hw : w.head? = some g) (hg : g ∉ groupsOf p st) :
    (recordsOf p (KeyTree.setFields (p ++ w) fs st)).Perm
      (recordAt p (KeyTree.setFields (p ++ w) fs st) g :: recordsOf p st) := by
  refine ((groupsOf_save_new hfs hw hg).map _).trans ?_
  rw [List.map_cons, recordsOf]
  refine List.Perm.cons _ (List.Perm.of_eq (List.map_congr_left fun g' hg' => recordAt_save_of_ne ?_))
  rintro rfl
  obtain rfl : g' = g := by simpa using hw
  exact hg hg'

/-- In a group that no key lies below, the readers get the defaults. -/
theorem recordAt_blank {g : Segment} (hg : g ∉ groupsOf p st) : recordAt p st g = ⟨"", "", ""⟩ := by
  have hnone : ∀ f, st.lookup (p ++ [g] ++ [f]) = none := by
    intro f
    rw [AList.lookup_eq_none]
    intro hmem
    refine hg (mem_groupsOf.2 (KeyTree.mem_childGroups.2 ⟨f, [], ?_⟩))
    rwa [List.append_assoc] at hmem
  unfold recordAt fieldAt
  rw [hnone, hnone, hnone]
  rfl

end Save

/-- Only the keys of the two sections are read by `get_server_list`. -/
theorem getServerList_congr {st st' : Store}
    (hc : ∀ k, st'.lookup (communityServers ++ k) = st.lookup (communityServers ++ k))
    (hl : ∀ k, st'.lookup (localServers ++ k) = st.lookup (localServers ++ k)) :
    getServerList st' = getServerList st := by
  rw [getServerList_sections, getServerList_sections, recordsOf_congr hc, recordsOf_congr hl]

theorem recordsOf_community_addLocalServer (server : QVariantMap) (st : Store) :
    recordsOf communityServers (addLocalServer server st) = recordsOf communityServers st :=
  recordsOf_congr fun k => addLocalServer_lookup server st _ (communityServers_ne_local k)

theorem recordsOf_local_saveServersReply (jsonResponse : Document) (st : Store) :
    recordsOf localServers (saveServersReply jsonResponse st) = recordsOf localServers st :=
  recordsOf_congr fun k => saveServersReply_lookup jsonResponse st _ (localServers_ne_community k)

/-- Neither section has a group. -/
def NoGroups (st : Store) : Prop :=
  KeyTree.childGroups communityServers st = [] ∧ KeyTree.childGroups localServers st = []

theorem recordsOf_eq_nil {p : List Segment} {st : Store} : recordsOf p st = [] ↔ KeyTree.childGroups p st = [] := by
  rw [recordsOf, List.map_eq_nil_iff]
  constructor
  · intro h
    have hp := groupsOf_perm p st
    rw [h] at hp
    exact hp.nil_eq.symm
  · intro h
    have hp := groupsOf_perm p st
    rw [h] at hp
    exact hp.eq_nil

theorem getServerList_eq_nil {st : Store} : getServerList st = [] ↔ NoGroups st := by
  rw [getServerList_sections, List.append_eq_nil_iff, recordsOf_eq_nil, recordsOf_eq_nil, NoGroups]

/-- A reply opens the groups that its names begin with. -/
theorem mem_childGroups_saveServersReply {jsonResponse : Document} {st : Store} {g : Segment} :
    g ∈ KeyTree.childGroups communityServers (saveServersReply jsonResponse st) ↔
      g ∈ KeyTree.childGroups communityServers st ∨
        ∃ value ∈ serversArray jsonResponse, (normalizedKey (communityName value)).head? = some g := by
  have hne : ∀ value, communityFields value ≠ [] := fun _ => List.cons_ne_nil _ _
  rw [saveServersReply_replay, KeyTree.mem_childGroups_replay hne]
  simp only [SaveOp.communitySave, KeyTree.byPath, List.map_map, List.mem_map, Function.comp_apply,
    exists_exists_and_eq_and]

/-- A reply leaves nothing to list exactly when there was nothing and none of its names has a segment. -/
theorem saveServersReply_noGroups (jsonResponse : Document) (st : Store) :
    NoGroups (saveServersReply jsonResponse st) ↔
      NoGroups st ∧ ∀ value ∈ serversArray jsonResponse, normalizedKey (communityName value) = [] := by
  have hl : KeyTree.childGroups localServers (saveServersReply jsonResponse st) = [] ↔
      KeyTree.childGroups localServers st = [] := by
    rw [← recordsOf_eq_nil, ← recordsOf_eq_nil, recordsOf_local_saveServersReply]
  have hc : KeyTree.childGroups communityServers (saveServersReply jsonResponse st) = [] ↔
      KeyTree.childGroups communityServers st = [] ∧
        ∀ value ∈ serversArray jsonResponse, normalizedKey (communityName value) = [] := by
    simp only [List.eq_nil_iff_forall_not_mem, mem_childGroups_saveServersReply, not_or, forall_and]
    refine and_congr_right fun _ => ⟨fun h value hv a ha => ?_, fun h g hg => ?_⟩
    · obtain ⟨g, r, hk⟩ := List.exists_cons_of_ne_nil (List.ne_nil_of_mem ha)
      exact h g ⟨value, hv, by rw [hk]; rfl⟩
    · obtain ⟨value, hv, hhead⟩ := hg
      exact h value hv g (List.mem_of_mem_head? hhead)
  rw [NoGroups, NoGroups, hl, hc]
  tauto

/-! ## The invariant and its exact condition -/

/-- A `populate_server_list` has run: each run connects `serverStatusReady` once more. -/
def Populated (app : App) : Prop := 0 < app.serverStatusReady

/-- The rows are the saved records, in some order. -/
def Agrees (app : App) : Prop :=
  (app.serverListModel.map Row.record).Perm (getServerList app.stores.settings)

def ListAgrees (app : App) : Prop := Populated app → Agrees app

instance (app : App) : Decidable (Populated app) := inferInstanceAs (Decidable (_ < _))

instance (app : App) : Decidable (Agrees app) := inferInstanceAs (Decidable (List.Perm _ _))

/-- What the state before an event must be like for the event to keep `ListAgrees`. -/
def KeepsList (app : App) : Event → Prop
  | .addToServerList serverName _ => Populated app →
      ∃ g, normalizedKey serverName = [g] ∧ g ∉ KeyTree.childGroups localServers app.stores.settings
  | .serversReply jsonResponse => app.serverListModel = [] ∧
      (app.fetchServerListFinished = 1 ∨ NoGroups app.stores.settings ∧
        ∀ value ∈ serversArray jsonResponse, normalizedKey (communityName value) = [])
  | .populateServerList => app.serverListModel = []
  | .startUp | .fetchServerList | .getLastUsedServer | .select _ | .serversReplyError | .serverStatus _ _ _ => True

/-! ### Selections and status results -/

theorem Selects.getServerList {app app' : App} (h : Selects app app') :
    getServerList app'.stores.settings = getServerList app.stores.settings := by
  have hk : ∀ k, Location.settings k ∉ Region.selectedServer.locations →
      app'.stores.settings.lookup k = app.stores.settings.lookup k := fun k hk => h.stores (.settings k) hk
  refine getServerList_congr (fun k => hk _ ?_) (fun k => hk _ ?_) <;>
    simp [Region.locations, communityServers, localServers]

theorem Selects.agrees {app app' : App} (h : Selects app app') : Agrees app' ↔ Agrees app := by
  unfold Agrees
  rw [h.serverListModel, h.getServerList]

theorem Selects.listAgrees {app app' : App} (h : Selects app app') : ListAgrees app' ↔ ListAgrees app := by
  unfold ListAgrees Populated
  rw [h.serverStatusReady, h.agrees]

theorem Reports.listAgrees {app app' : App} (h : Reports app app') : ListAgrees app' ↔ ListAgrees app := by
  unfold ListAgrees Populated Agrees
  rw [h.serverStatusReady, h.records, h.stores]

/-! ### `populate_server_list`, run once per connection -/

/-- `n` runs of `populate_server_list` append the saved records `n` times. -/
structure Populates (n : Nat) (app app' : App) : Prop where
  records : (app'.serverListModel.map Row.record).Perm
    (app.serverListModel.map Row.record ++ (List.replicate n (getServerList app.stores.settings)).flatten)
  list : getServerList app'.stores.settings = getServerList app.stores.settings
  serverStatusReady : app'.serverStatusReady = app.serverStatusReady + n
  fetchServerListFinished : app'.fetchServerListFinished = app.fetchServerListFinished
  serversInFlight : app'.serversInFlight = app.serversInFlight

theorem populateServerList_populates (app : App) : Populates 1 app (populateServerList app) := by
  obtain ⟨rows, hrec, _, happ⟩ := populateServerList_spec app
  have hsel := happ ▸ getLastUsedServer_selects _
  refine ⟨?_, hsel.getServerList, hsel.serverStatusReady, hsel.fetchServerListFinished, hsel.serversInFlight⟩
  rw [hsel.serverListModel, List.map_append, hrec]
  simp

theorem Populates.succ {n : Nat} {a b c : App} (h : Populates n a b) (h' : Populates 1 b c) :
    Populates (n + 1) a c where
  records := by
    have hlist : (List.replicate 1 (getServerList b.stores.settings)).flatten.Perm
        (getServerList a.stores.settings) := by simp [h.list]
    refine h'.records.trans ((h.records.append hlist).trans ?_)
    rw [List.replicate_succ', List.flatten_append, List.append_assoc]
    simp
  list := h'.list.trans h.list
  serverStatusReady := by rw [h'.serverStatusReady, h.serverStatusReady]; omega
  fetchServerListFinished := h'.fetchServerListFinished.trans h.fetchServerListFinished
  serversInFlight := h'.serversInFlight.trans h.serversInFlight

theorem populateServerList_iterate (n : Nat) (app : App) : Populates n app (populateServerList^[n] app) := by
  induction n with
  | zero => exact ⟨by simp, rfl, rfl, rfl, rfl⟩
  | succ n ih =>
    rw [Function.iterate_succ_apply']
    exact ih.succ (populateServerList_populates _)

/-- After at least one run the list agrees exactly when no row was there before, and the records are
    listed once or there are none. -/
theorem Populates.listAgrees {n : Nat} {app app' : App} (h : Populates n app app') (hn : 0 < n) :
    ListAgrees app' ↔ app.serverListModel = [] ∧ (n = 1 ∨ getServerList app.stores.settings = []) := by
  have hpop : Populated app' := by
    have := h.serverStatusReady
    unfold Populated
    omega
  unfold ListAgrees Agrees
  constructor
  · intro ha
    -- the rows and `n` copies of the list have the length of one list
    have hlen := (h.records.symm.trans (ha hpop)).length_eq
    rw [h.list] at hlen
    simp only [List.length_append, List.length_map, List.length_flatten, List.map_replicate,
      List.sum_replicate_nat] at hlen
    obtain ⟨m, rfl⟩ : ∃ m, n = m + 1 := ⟨n - 1, by omega⟩
    rw [Nat.succ_mul] at hlen
    have hrows : app.serverListModel.length = 0 := by omega
    have hprod : m * (getServerList app.stores.settings).length = 0 := by omega
    refine ⟨List.length_eq_zero_iff.1 hrows, ?_⟩
    rcases Nat.mul_eq_zero.1 hprod with hm | hl
    · left; omega
    · right; exact List.length_eq_zero_iff.1 hl
  · rintro ⟨hrows, hn1⟩ _
    have hrec := h.records
    rw [hrows, List.map_nil, List.nil_append] at hrec
    rw [h.list]
    refine hrec.trans ?_
    rcases hn1 with rfl | hl
    · simp
    · rw [hl]; simp

/-! ### `add_to_server_list` -/

/-- What the readers get in the group a local server is saved in. -/
theorem recordAt_addLocalServer {serverName serverIp : String} {g : Segment} (st : Store)
    (hk : normalizedKey serverName = [g]) :
    recordAt localServers (addLocalServer (serverObj serverName serverIp) st) g = localRecord (serverName, serverIp) := by
  have hfield : ∀ f v, (f, v) ∈ localFields (serverObj serverName serverIp) →
      fieldAt (addLocalServer (serverObj serverName serverIp) st) (localServers ++ [g]) f = v.toString := by
    intro f v hf
    rw [addLocalServer_eq, serverObj_name, QVariant.toString_string, hk, fieldAt,
      KeyTree.lookup_setFields_of_mem (localFields_nodup _) hf]
    rfl
  rw [recordAt, hfield (seg "ServerName") (.string serverName) (by simp [localFields]),
    hfield (seg "ServerIP") (.string serverIp) (by simp [localFields]),
    hfield (seg "ServerType") (.string "L") (by simp [localFields])]
  rfl

theorem getServerList_addLocalServer_new (serverIp : String) {serverName : String} {st : Store} {g : Segment}
    (hw : (normalizedKey serverName).head? = some g) (hg : g ∉ groupsOf localServers st) :
    (getServerList (addLocalServer (serverObj serverName serverIp) st)).Perm
      (recordAt localServers (addLocalServer (serverObj serverName serverIp) st) g :: getServerList st) := by
  have hne : localFields (serverObj serverName serverIp) ≠ [] := List.cons_ne_nil _ _
  have hlocal := recordsOf_save_new hne hw hg
  have haddr : addLocalServer (serverObj serverName serverIp) st =
      KeyTree.setFields (localServers ++ normalizedKey serverName) (localFields (serverObj serverName serverIp)) st :=
    addLocalServer_eq _ _
  rw [← haddr] at hlocal
  rw [getServerList_sections, getServerList_sections, recordsOf_community_addLocalServer]
  exact (hlocal.append_left _).trans List.perm_middle

theorem getServerList_addLocalServer_old (serverIp : String) {serverName : String} {st : Store}
    (hw : ∀ g, (normalizedKey serverName).head? = some g → g ∈ groupsOf localServers st) :
    (getServerList (addLocalServer (serverObj serverName serverIp) st)).length = (getServerList st).length := by
  have hne : localFields (serverObj serverName serverIp) ≠ [] := List.cons_ne_nil _ _
  have hgroups := (groupsOf_save_old hne hw).length_eq
  have hlocal : (recordsOf localServers (addLocalServer (serverObj serverName serverIp) st)).length =
      (recordsOf localServers st).length := by
    rw [addLocalServer_eq, recordsOf, recordsOf, List.length_map, List.length_map]
    exact hgroups
  rw [getServerList_sections, getServerList_sections, recordsOf_community_addLocalServer, List.length_append,
    List.length_append, hlocal]

/-- The row `add_to_server_list` appends is what the saved list gains exactly when the name opens a
    group of its own: a name without a segment opens none, one with several segments leaves a record
    without fields, and a name saved before changes its record in place. -/
theorem perm_getServerList_addLocalServer (serverName serverIp : String) {st : Store} {l : List ServerRecord}
    (hl : l.Perm (getServerList st)) :
    (l ++ [localRecord (serverName, serverIp)]).Perm
        (getServerList (addLocalServer (serverObj serverName serverIp) st)) ↔
      ∃ g, normalizedKey serverName = [g] ∧ g ∉ KeyTree.childGroups localServers st := by
  by_cases hnew : ∃ g, (normalizedKey serverName).head? = some g ∧ g ∉ groupsOf localServers st
  · obtain ⟨g, hw, hg⟩ := hnew
    have hlist := getServerList_addLocalServer_new serverIp hw hg
    by_cases hk : normalizedKey serverName = [g]
    · rw [recordAt_addLocalServer st hk] at hlist
      have hperm : (l ++ [localRecord (serverName, serverIp)]).Perm
          (localRecord (serverName, serverIp) :: getServerList st) :=
        (List.perm_append_singleton _ _).trans (hl.cons _)
      exact iff_of_true (hperm.trans hlist.symm) ⟨g, hk, fun h => hg (mem_groupsOf.2 h)⟩
    · refine iff_of_false (fun hp => ?_) ?_
      · -- the record read in the new group is the blank one
        have hblank : recordAt localServers (addLocalServer (serverObj serverName serverIp) st) g = ⟨"", "", ""⟩ := by
          rw [addLocalServer_eq, serverObj_name, QVariant.toString_string, recordAt_save_of_ne hk, recordAt_blank hg]
        rw [hblank] at hlist
        have hcons := ((List.perm_append_singleton _ _).symm.trans hp).trans (hlist.trans (hl.symm.cons _))
        have hcount := hcons.count_eq (localRecord (serverName, serverIp))
        have hne : (⟨"", "", ""⟩ : ServerRecord) ≠ localRecord (serverName, serverIp) := by simp [localRecord]
        rw [List.count_cons_self, List.count_cons_of_ne hne] at hcount
        omega
      · rintro ⟨g', hk', _⟩
        rw [hk'] at hw
        exact hk (hk'.trans (by simpa using hw))
  · have hold : ∀ g, (normalizedKey serverName).head? = some g → g ∈ groupsOf localServers st := by
      intro g hg
      by_contra hn
      exact hnew ⟨g, hg, hn⟩
    refine iff_of_false (fun hp => ?_) ?_
    · have hlen := hp.length_eq
      rw [getServerList_addLocalServer_old serverIp hold, List.length_append, hl.length_eq,
      List.length_singleton] at hlen
      omega
    · rintro ⟨g, hk, hg⟩
      exact hg (mem_groupsOf.1 (hold g (by rw [hk]; rfl)))

theorem addToServerList_listAgrees (serverName serverIp : String) {app : App} (h : ListAgrees app) :
    ListAgrees (addToServerList serverName serverIp app) ↔ KeepsList app (.addToServerList serverName serverIp) := by
  obtain ⟨row, hrow, _, happ⟩ := addToServerList_spec serverName serverIp app
  have hsel := setCurrentIndex_selects app.serverListModel.length
    { app with
      stores := { app.stores with settings := addLocalServer (serverObj serverName serverIp) app.stores.settings }
      serverListModel := app.serverListModel ++ [row] }
  rw [happ]
  refine (hsel.listAgrees).trans (forall_congr' fun hpop => ?_)
  unfold Agrees
  rw [List.map_append, List.map_singleton, hrow]
  exact perm_getServerList_addLocalServer serverName serverIp (h hpop)

/-! ### Runs -/

/-- A request that is still out was sent by a `fetch_server_list`, which connected a handler. -/
def Requested (app : App) : Prop := app.serversInFlight ≤ app.fetchServerListFinished

theorem requested_step {app app' : App} {e : Event} (h : app.step e = some app') (hi : Requested app) :
    Requested app' := by
  unfold Requested at *
  cases step_handles h with
  | startUpSetup => exact hi
  | startUpFetches x y f =>
    simp only [fetchServerList]
    omega
  | fetchServerList =>
    simp only [fetchServerList]
    omega
  | populateServerList =>
    have hp := populateServerList_populates app
    rw [hp.serversInFlight, hp.fetchServerListFinished]
    exact hi
  | getLastUsedServer =>
    have hs := getLastUsedServer_selects app
    rw [hs.serversInFlight, hs.fetchServerListFinished]
    exact hi
  | addToServerList serverName serverIp =>
    obtain ⟨row, _, _, happ⟩ := addToServerList_spec serverName serverIp app
    have hs := setCurrentIndex_selects app.serverListModel.length
      { app with
        stores := { app.stores with settings := addLocalServer (serverObj serverName serverIp) app.stores.settings }
        serverListModel := app.serverListModel ++ [row] }
    rw [happ]
    exact hs.serversInFlight.trans_le (hi.trans hs.fetchServerListFinished.ge)
  | @select i hrow =>
    have hs := setCurrentIndex_selects i app
    rw [hs.serversInFlight, hs.fetchServerListFinished]
    exact hi
  | serversReply jsonResponse hpos =>
    unfold handleServersReply
    have hp := populateServerList_iterate app.fetchServerListFinished
      { app with serversInFlight := app.serversInFlight - 1
                 stores := { app.stores with settings := saveServersReply jsonResponse app.stores.settings } }
    refine hp.serversInFlight.trans_le (Nat.le_trans ?_ hp.fetchServerListFinished.ge)
    simp only
    omega
  | serversReplyError hpos =>
    simp only
    omega
  | serverStatus status server uptime =>
    have hr := handleServerStatusWorker_reports status server uptime app
    rw [hr.serversInFlight, hr.fetchServerListFinished]
    exact hi

theorem listAgrees_step {app app' : App} {e : Event} (h : app.step e = some app') (hi : Requested app)
    (ha : ListAgrees app) : ListAgrees app' ↔ KeepsList app e := by
  cases step_handles h with
  | startUpSetup => exact iff_of_true ha trivial
  | startUpFetches x y f => exact iff_of_true ha trivial
  | fetchServerList => exact iff_of_true ha trivial
  | populateServerList =>
    rw [(populateServerList_populates app).listAgrees Nat.one_pos]
    simp only [true_or, and_true]
    rfl
  | getLastUsedServer => exact iff_of_true ((getLastUsedServer_selects app).listAgrees.2 ha) trivial
  | addToServerList serverName serverIp => exact addToServerList_listAgrees serverName serverIp ha
  | @select i hrow => exact iff_of_true ((setCurrentIndex_selects i app).listAgrees.2 ha) trivial
  | serversReply jsonResponse hpos =>
    have hfetch : 0 < app.fetchServerListFinished := Nat.lt_of_lt_of_le hpos hi
    have hp := populateServerList_iterate app.fetchServerListFinished
      { app with serversInFlight := app.serversInFlight - 1
                 stores := { app.stores with settings := saveServersReply jsonResponse app.stores.settings } }
    refine (hp.listAgrees hfetch).trans ?_
    rw [getServerList_eq_nil, saveServersReply_noGroups]
    rfl
  | serversReplyError hpos => exact iff_of_true ha trivial
  | serverStatus status server uptime =>
    exact iff_of_true ((handleServerStatusWorker_reports status server uptime app).listAgrees.2 ha) trivial

/-- **The list shown agrees with the list saved all along a run exactly when every step of it meets
    `KeepsList`**, whatever the stores hold at the start. -/
theorem listAgrees_iff (stores : Stores) (events : List Event) :
    Runs.AllStates App.step ListAgrees (App.init stores) events ↔
      Runs.AllSteps App.step KeepsList (App.init stores) events := by
  refine Runs.allStates_iff_allSteps requested_step listAgrees_step ?_ ?_
  · exact Nat.le_refl 0
  · intro hpop
    exact absurd hpop (Nat.lt_irrefl 0)

/-- Saving a server again with a new address shows it twice. -/
theorem listAgrees_fails_edit :
    ¬ Runs.AllStates App.step ListAgrees (App.init ⟨∅, ∅⟩)
      [.fetchServerList, .serversReply none, .addToServerList "Main" "10.0.0.1",
       .addToServerList "Main" "10.0.0.2"] := by
  intro h
  have hlast := Runs.allStates_iff_run.1 h _ List.prefix_rfl _ rfl (by decide)
  exact absurd hlast (by decide)

end SegsLauncher
