import SegsLauncher.Lib.Directory
import SegsLauncher.Confinement
/-!
# Are saved servers read back? (`add_local_server`, `handle_servers_reply`, and the two readers)

A server is filed in the group its *raw name* spells, and read back from the groups of its section.
`RoundTrip` is the purpose of the encoding: after any saves, the readers return one record per
distinct name, the last one saved. It holds exactly for the names the key space keeps apart
(`roundTrip_iff_separated`): a name that is empty or made of `/` only has no group at all, a name with
an inner `/` has its record one level too deep, where the readers see a group with no fields, and two
names that differ by outer or repeated `/` share one group.
-/
namespace SegsLauncher

open KeyTree (latest directory Separated byPath replay Reads)
open Launcher

/-- The calls that save servers. -/
inductive SaveOp where
  | addLocalServer (serverName serverIp : String)
  | serversReply (jsonResponse : Document)

def SaveOp.run (st : Store) : SaveOp → Store
  | .addLocalServer serverName serverIp => Launcher.addLocalServer (serverObj serverName serverIp) st
  | .serversReply jsonResponse => Launcher.saveServersReply jsonResponse st

def saveAll (ops : List SaveOp) : Store := ops.foldl SaveOp.run ∅

/-! ## What was saved, by name -/

def SaveOp.localSave : SaveOp → List (String × String × String)
  | .addLocalServer serverName serverIp => [(serverName, serverName, serverIp)]
  | .serversReply _ => []

def SaveOp.communitySave : SaveOp → List (String × Json)
  | .addLocalServer _ _ => []
  | .serversReply jsonResponse => (serversArray jsonResponse).map fun value => (communityName value, value)

/-- Every local save in order: the name, then the record's two strings. -/
def localSaves (ops : List SaveOp) : List (String × String × String) := ops.flatMap SaveOp.localSave

/-- Every element of every reply in order, under its `Name`. -/
def communitySaves (ops : List SaveOp) : List (String × Json) := ops.flatMap SaveOp.communitySave

def localRecord (b : String × String) : ServerRecord := ⟨b.1, b.2, "L"⟩
def communityRecord (value : Json) : ServerRecord := ⟨communityName value, serverDetail value "IP", "C"⟩
def communityInfo (value : Json) : ServerInfo :=
  ⟨communityName value, serverDetail value "Description", serverDetail value "WebURL"⟩

/-- The readers return one record per distinct name saved, the last one saved under it. -/
def RoundTrip (ops : List SaveOp) : Prop :=
  (getServerList (saveAll ops)).Perm
      (directory communityRecord (communitySaves ops) ++ directory localRecord (localSaves ops)) ∧
    (getServerInformation (saveAll ops)).Perm (directory communityInfo (communitySaves ops))

/-- In each section, every name has one segment and no two names share it. -/
def SeparateNames (ops : List SaveOp) : Prop :=
  Separated normalizedKey (localSaves ops) ∧ Separated normalizedKey (communitySaves ops)

/-! ## Each section of the store is its own saves, replayed -/

theorem localServers_ne_community (k : List Segment) (a : Segment) (r : List Segment) :
    localServers ++ k ≠ communityServers ++ a :: r := by
  simp [localServers, communityServers]

theorem communityServers_ne_local (k : List Segment) (a : Segment) (r : List Segment) :
    communityServers ++ k ≠ localServers ++ a :: r := by
  simp [localServers, communityServers]

def localFieldsOf (b : String × String) : List (Segment × QVariant) := localFields (serverObj b.1 b.2)

theorem saveServersReply_replay (jsonResponse : Document) (st : Store) :
    saveServersReply jsonResponse st =
      replay communityServers communityFields
        (byPath normalizedKey (SaveOp.communitySave (.serversReply jsonResponse))) st := by
  rw [saveServersReply_eq, replay, byPath, SaveOp.communitySave, List.map_map, List.foldl_map]
  rfl

theorem saveAll_community (ops : List SaveOp) (k : List Segment) :
    (saveAll ops).lookup (communityServers ++ k) =
      (replay communityServers communityFields (byPath normalizedKey (communitySaves ops)) ∅).lookup
        (communityServers ++ k) := by
  induction ops using List.reverseRecOn with
  | nil => rfl
  | append_singleton ops op ih =>
    rw [saveAll, List.foldl_append, List.foldl_cons, List.foldl_nil]
    cases op with
    | addLocalServer n ip =>
      have hs : communitySaves (ops ++ [.addLocalServer n ip]) = communitySaves ops := by
        simp [communitySaves, SaveOp.communitySave]
      rw [hs, ← ih]
      exact addLocalServer_lookup _ _ _ (communityServers_ne_local k)
    | serversReply doc =>
      have hs : communitySaves (ops ++ [.serversReply doc]) =
          communitySaves ops ++ SaveOp.communitySave (.serversReply doc) := by
        simp [communitySaves]
      rw [hs, byPath, List.map_append, replay, List.foldl_append, ← replay, ← replay]
      exact (saveServersReply_congr doc _ _ _ ih).trans (by rw [saveServersReply_replay]; rfl)

theorem saveAll_local (ops : List SaveOp) (k : List Segment) :
    (saveAll ops).lookup (localServers ++ k) =
      (replay localServers localFieldsOf (byPath normalizedKey (localSaves ops)) ∅).lookup
        (localServers ++ k) := by
  induction ops using List.reverseRecOn with
  | nil => rfl
  | append_singleton ops op ih =>
    rw [saveAll, List.foldl_append, List.foldl_cons, List.foldl_nil]
    cases op with
    | addLocalServer n ip =>
      have hs : localSaves (ops ++ [.addLocalServer n ip]) = localSaves ops ++ [(n, n, ip)] := by
        simp [localSaves, SaveOp.localSave]
      rw [hs, byPath, List.map_append, List.map_singleton, KeyTree.replay_snoc, SaveOp.run, addLocalServer_eq]
      exact KeyTree.lookup_setFields_congr ih
    | serversReply doc =>
      have hs : localSaves (ops ++ [.serversReply doc]) = localSaves ops := by
        simp [localSaves, SaveOp.localSave]
      rw [hs, ← ih]
      exact saveServersReply_lookup _ _ _ (localServers_ne_community k)

/-! ## What the readers see of a replayed section -/

section Section
variable {β : Type} {p : List Segment} {fields : β → List (Segment × QVariant)} {saves : List (String × β)}
  {st : Store}

/-- A string read in a group is the field of the last save whose name spells that group, or the default. -/
theorem fieldAt_replay
    (hst : ∀ k, st.lookup (p ++ k) = (replay p fields (byPath normalizedKey saves) ∅).lookup (p ++ k))
    (hn : ∀ b, ((fields b).map Prod.fst).Nodup) (f : Segment) (val : β → QVariant)
    (hf : ∀ b, (f, val b) ∈ fields b) (g : Segment) :
    fieldAt st (p ++ [g]) f =
      ((latest [g] (byPath normalizedKey saves)).map fun b => (val b).toString).getD "" := by
  have hl : st.lookup (p ++ [g] ++ [f]) = (latest [g] (byPath normalizedKey saves)).map val := by
    have := KeyTree.lookup_replay (p := p) hn hf [g] ∅ (byPath normalizedKey saves)
    rw [AList.lookup_empty, Option.or_none] at this
    rw [List.append_assoc, hst, ← List.append_assoc, this]
  rw [fieldAt, hl]
  cases latest [g] (byPath normalizedKey saves) <;> rfl

theorem mem_groupsOf_replay
    (hst : ∀ k, st.lookup (p ++ k) = (replay p fields (byPath normalizedKey saves) ∅).lookup (p ++ k))
    (hne : ∀ b, fields b ≠ []) (g : Segment) :
    g ∈ groupsOf p st ↔ ∃ e ∈ saves, (normalizedKey e.1).head? = some g := by
  have hempty : g ∉ KeyTree.childGroups p (∅ : Store) := by
    rw [KeyTree.mem_childGroups]
    rintro ⟨a, r, h⟩
    exact absurd h (AList.notMem_empty _)
  rw [mem_groupsOf, KeyTree.childGroups_congr hst, KeyTree.mem_childGroups_replay hne]
  simp only [hempty, false_or, byPath, List.mem_map, exists_exists_and_eq_and]

end Section

theorem reads_community (ops : List SaveOp) :
    Reads normalizedKey communityRecord (communitySaves ops) ⟨"", "", ""⟩
      (groupsOf communityServers (saveAll ops)) (recordAt communityServers (saveAll ops)) where
  nodup := nodup_groupsOf _ _
  mem := mem_groupsOf_replay (saveAll_community ops) (fun _ => List.cons_ne_nil _ _)
  read := fun g => by
    have h := fun f val hf => fieldAt_replay (saveAll_community ops) communityFields_nodup f val hf g
    rw [recordAt, h (seg "ServerName") (fun v => .string (communityName v)) (by simp [communityFields]),
      h (seg "ServerIP") (fun v => .string (serverDetail v "IP")) (by simp [communityFields]),
      h (seg "ServerType") (fun _ => .string "C") (by simp [communityFields])]
    cases latest [g] (byPath normalizedKey (communitySaves ops)) <;> rfl

theorem reads_info (ops : List SaveOp) :
    Reads normalizedKey communityInfo (communitySaves ops) ⟨"", "", ""⟩
      (groupsOf communityServers (saveAll ops)) (infoAt communityServers (saveAll ops)) where
  nodup := nodup_groupsOf _ _
  mem := mem_groupsOf_replay (saveAll_community ops) (fun _ => List.cons_ne_nil _ _)
  read := fun g => by
    have h := fun f val hf => fieldAt_replay (saveAll_community ops) communityFields_nodup f val hf g
    rw [infoAt, h (seg "ServerName") (fun v => .string (communityName v)) (by simp [communityFields]),
      h (seg "ServerDescription") (fun v => .string (serverDetail v "Description")) (by simp [communityFields]),
      h (seg "ServerWebURL") (fun v => .string (serverDetail v "WebURL")) (by simp [communityFields])]
    cases latest [g] (byPath normalizedKey (communitySaves ops)) <;> rfl

theorem reads_local (ops : List SaveOp) :
    Reads normalizedKey localRecord (localSaves ops) ⟨"", "", ""⟩
      (groupsOf localServers (saveAll ops)) (recordAt localServers (saveAll ops)) where
  nodup := nodup_groupsOf _ _
  mem := mem_groupsOf_replay (saveAll_local ops) (fun _ => List.cons_ne_nil _ _)
  read := fun g => by
    have h := fun f val hf => fieldAt_replay (saveAll_local ops) (fun b => localFields_nodup _) f val hf g
    rw [recordAt, h (seg "ServerName") (fun b => .string b.1) (by simp [localFieldsOf, localFields]),
      h (seg "ServerIP") (fun b => .string b.2) (by simp [localFieldsOf, localFields]),
      h (seg "ServerType") (fun _ => .string "L") (by simp [localFieldsOf, localFields])]
    cases latest [g] (byPath normalizedKey (localSaves ops)) <;> rfl

theorem communityRecord_name (ops : List SaveOp) :
    ∀ e ∈ communitySaves ops, (communityRecord e.2).serverName = e.1 := by
  intro e he
  obtain ⟨op, _, ho⟩ := List.mem_flatMap.1 he
  cases op with
  | addLocalServer n ip => simp [SaveOp.communitySave] at ho
  | serversReply doc =>
    obtain ⟨v, _, rfl⟩ := List.mem_map.1 ho
    rfl

theorem localRecord_name (ops : List SaveOp) : ∀ e ∈ localSaves ops, (localRecord e.2).serverName = e.1 := by
  intro e he
  obtain ⟨op, _, ho⟩ := List.mem_flatMap.1 he
  cases op with
  | addLocalServer n ip =>
    obtain rfl : e = (n, n, ip) := by simpa [SaveOp.localSave] using ho
    rfl
  | serversReply doc => simp [SaveOp.localSave] at ho

/-- A record of one section is never read in the other: the types differ. -/
theorem type_of_community (ops : List SaveOp) (g : Segment) :
    (recordAt communityServers (saveAll ops) g).serverType ≠ "L" := by
  rw [(reads_community ops).read]
  cases latest [g] (byPath normalizedKey (communitySaves ops)) with
  | none => simp
  | some v => simp [communityRecord]

theorem type_of_local (ops : List SaveOp) (g : Segment) :
    (recordAt localServers (saveAll ops) g).serverType ≠ "C" := by
  rw [(reads_local ops).read]
  cases latest [g] (byPath normalizedKey (localSaves ops)) with
  | none => simp
  | some b => simp [localRecord]

/-! ## The exact condition -/

/-- **The saved servers are read back, one record per name, exactly when the key space keeps the saved
    names apart**: every name has one segment, and no two names of a section share it. -/
theorem roundTrip_iff_separated (ops : List SaveOp) : RoundTrip ops ↔ SeparateNames ops := by
  constructor
  · rintro ⟨hlist, -⟩
    rw [getServerList_eq] at hlist
    constructor
    · refine (reads_local ops).separated_of_subset (localRecord_name ops) (fun b => by simp [localRecord]) ?_
      intro r hr
      rcases List.mem_append.1 (hlist.mem_iff.2 (List.mem_append_right _ hr)) with h | h
      · obtain ⟨g, _, rfl⟩ := List.mem_map.1 h
        obtain ⟨n, b, _, hb⟩ := KeyTree.mem_directory.1 hr
        exact absurd (hb ▸ rfl) (type_of_community ops g)
      · exact h
    · have hblank : ∀ value, communityRecord value ≠ ⟨"", "", ""⟩ := by
        intro value
        simp [communityRecord]
      refine (reads_community ops).separated_of_subset (communityRecord_name ops) hblank ?_
      intro r hr
      rcases List.mem_append.1 (hlist.mem_iff.2 (List.mem_append_left _ hr)) with h | h
      · exact h
      · obtain ⟨g, _, rfl⟩ := List.mem_map.1 h
        obtain ⟨n, v, _, hv⟩ := KeyTree.mem_directory.1 hr
        exact absurd (hv ▸ rfl) (type_of_local ops g)
  · rintro ⟨hl, hc⟩
    rw [RoundTrip, getServerList_eq, getServerInformation_eq]
    refine ⟨((reads_community ops).perm_directory (communityRecord_name ops) hc).append
      ((reads_local ops).perm_directory (localRecord_name ops) hl), ?_⟩
    have hname : ∀ e ∈ communitySaves ops, (communityInfo e.2).serverName = e.1 := communityRecord_name ops
    exact (reads_info ops).perm_directory hname hc

/-- A name with an inner `/` is listed without its name, address and type. -/
theorem roundTrip_fails_slash : ¬ RoundTrip [.addLocalServer "EU/Main" "10.0.0.1"] := by
  rintro ⟨hlist, -⟩
  exact absurd hlist (by decide)

end SegsLauncher
