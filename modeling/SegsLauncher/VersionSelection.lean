import SegsLauncher.VersionCheck
/-!
# What one reply to the version check announces

The updates of a reply are the elements of `version_data` that are on the launcher's channel and newer than
the launcher. They are sorted by version; the greatest version and the notes in that order are kept and
announced. A reply that does not get as far as the loop, or has no update, changes nothing.

| here | there |
| --- | --- |
| `HasVersionData`   | the early returns are passed: no error, the first 64 KB parse to an object, `version_data` is an array |
| `Newer`            | the two tests in the loop (`LauncherSetup.cpp:112-114`) |
| `Announces`        | what `m_latest_version` and `m_changelogs` are to be |
| `SelectsUpdates`   | what one run of `version_check_finished` is to do with the members and the signal |

A field that is missing or not a string reads as the empty string, as `QJsonValue::toString` has it.
-/
namespace SegsLauncher

/-! ## Elements of `version_data` -/

def channelOf (version : Json) : String := (JsonObject.get version.toObject "channel").toString
def versionOf (version : Json) : QVersionNumber :=
  versionFromString (JsonObject.get version.toObject "version").toString
def notesOf (version : Json) : String := (JsonObject.get version.toObject "notes").toString

/-- The element offers an update on the channel. -/
def Newer (channel : String) (version : Json) : Prop :=
  channelOf version = channel ∧ launcherVersion < versionOf version

instance (channel : String) : DecidablePred (Newer channel) := fun version =>
  inferInstanceAs (Decidable (channelOf version = channel ∧ launcherVersion < versionOf version))

def newerElements (channel : String) (data : List Json) : List Json := data.filter fun v => Newer channel v

/-- What the loop pushes for an element. -/
def offer (version : Json) : QVersionNumber × String := (versionOf version, notesOf version)

theorem newVersion_eq (channel : String) (version : Json) :
    newVersion channel version = if Newer channel version then some (offer version) else none := by
  by_cases hc : channelOf version = channel
  · by_cases hv : launcherVersion < versionOf version
    · rw [if_pos ⟨hc, hv⟩]
      exact (if_pos hc).trans (if_pos hv)
    · rw [if_neg fun h => hv h.2]
      exact (if_pos hc).trans (if_neg hv)
  · rw [if_neg fun h => hc h.1]
    exact if_neg hc

/-- The offers are those of the elements that are newer. -/
theorem offers_eq (channel : String) (data : List Json) :
    offers channel data = (newerElements channel data).map offer := by
  induction data with
  | nil => rfl
  | cons v data ih =>
    have hnew := newVersion_eq channel v
    rw [offers, List.filterMap_cons, ← offers, ih, hnew]
    by_cases h : Newer channel v
    · simp [newerElements, h]
    · simp [newerElements, h]

/-! ## Replies that reach the loop -/

def HasVersionData (fromJson : QByteArray → Document) (reply : VersionReply) (data : List Json) : Prop :=
  reply.error = false ∧ ∃ members, fromJson (reply.body.take 65536) = some (.object members) ∧
    JsonObject.get members "version_data" = .array data

theorem versionData_eq_some_iff {fromJson : QByteArray → Document} {reply : VersionReply} {data : List Json} :
    versionData fromJson reply = some data ↔ HasVersionData fromJson reply data := by
  have hsize : 1024 * 64 = 65536 := rfl
  simp only [versionData, HasVersionData, hsize]
  cases reply.error with
  | true => simp
  | false =>
    simp only [Bool.false_eq_true, if_false, true_and]
    cases fromJson (reply.body.take 65536) with
    | none => simp
    | some doc =>
      cases doc with
      | object members =>
        simp only [Json.toObject, JsonObject.contains, JsonObject.get, Option.some.injEq, Json.object.injEq,
          exists_eq_left']
        rcases Option.eq_none_or_eq_some (members.lookup "version_data") with hv | ⟨v, hv⟩
        · simp [hv]
        · cases v <;> simp [hv, Json.isArray, Json.toArray]
      | _ => simp [Json.toObject, JsonObject.contains]

/-! ## What is announced -/

/-- The greatest version on offer, and the notes of the offering elements from the greatest version down. -/
structure Announces (channel : String) (data : List Json) (latest : QVersionNumber) (changelogs : List String) :
    Prop where
  latest_mem : ∃ v ∈ data, Newer channel v ∧ versionOf v = latest
  latest_max : ∀ v ∈ data, Newer channel v → versionOf v ≤ latest
  changelogs : ∃ sel : List Json, sel.Perm (newerElements channel data) ∧ sel.map notesOf = changelogs ∧
    (sel.map versionOf).Pairwise (· ≥ ·) ∧ sel.head?.map versionOf = some latest

/-- One run of `version_check_finished`: from `s` to `r.1`, with the signal `r.2`. -/
structure SelectsUpdates (s : LauncherSetup) (data : List Json) (r : LauncherSetup × Option QVersionNumber) :
    Prop where
  channel : r.1.mChannel = s.mChannel
  emits_iff : r.2.isSome ↔ ∃ v ∈ data, Newer s.mChannel v
  announces : ∀ latest, r.2 = some latest →
    r.1.mLatestVersion = latest ∧ Announces s.mChannel data latest r.1.mChangelogs
  unchanged : r.2 = none → r.1 = s

theorem mem_newerElements {channel : String} {data : List Json} {v : Json} :
    v ∈ newerElements channel data ↔ v ∈ data ∧ Newer channel v := by
  simp [newerElements]

section
variable (sorter : Sorter (QVersionNumber × String) newerFirst) {fromJson : QByteArray → Document}

theorem announces_of_sort {channel : String} {data : List Json} {x : QVersionNumber × String}
    {t : List (QVersionNumber × String)} (hx : sorter.sort (offers channel data) = x :: t) :
    Announces channel data x.1 ((x :: t).map Prod.snd) := by
  obtain ⟨hmem, hfirst⟩ := sorter.head_first (by simp [newerFirst]) hx
  have hsorted := sorter.sorted (offers channel data)
  rw [offers_eq] at hx hmem hfirst hsorted
  obtain ⟨sel, hperm, hsel⟩ := sorter.exists_map offer (newerElements channel data)
  have hxt : sel.map offer = x :: t := hsel.symm.trans hx
  constructor
  · obtain ⟨v, hv, hoffer⟩ := List.mem_map.1 hmem
    obtain ⟨hdata, hnew⟩ := mem_newerElements.1 hv
    exact ⟨v, hdata, hnew, congrArg Prod.fst hoffer⟩
  · intro v hv hnew
    have hlt := hfirst (offer v) (List.mem_map_of_mem (mem_newerElements.2 ⟨hv, hnew⟩))
    exact not_lt.1 (of_decide_eq_false hlt)
  · refine ⟨sel, hperm, ?_, ?_, ?_⟩
    · rw [← hxt, List.map_map]
      rfl
    · rw [hsel, List.pairwise_map] at hsorted
      rw [List.pairwise_map]
      refine hsorted.imp ?_
      intro a b hab
      exact not_lt.1 (of_decide_eq_false hab)
    · have hhead := congrArg List.head? hxt
      rw [List.head?_map] at hhead
      have := congrArg (Option.map Prod.fst) hhead
      rwa [Option.map_map] at this

/-- What a reply that reaches the loop does. -/
theorem versionCheckFinished_selects {reply : VersionReply} {data : List Json}
    (hdata : HasVersionData fromJson reply data) (s : LauncherSetup) :
    SelectsUpdates s data (s.versionCheckFinished sorter fromJson reply) := by
  have hr := versionData_eq_some_iff.2 hdata
  have hany : (∃ v ∈ data, Newer s.mChannel v) ↔ offers s.mChannel data ≠ [] := by
    rw [offers_eq, ne_eq, List.map_eq_nil_iff, newerElements, List.filter_eq_nil_iff]
    simp
  by_cases ho : offers s.mChannel data = []
  · have hstep : s.versionCheckFinished sorter fromJson reply = (s, none) := by
      simp only [LauncherSetup.versionCheckFinished, hr]
      rw [← offers, ho]
      rfl
    rw [hstep]
    refine ⟨rfl, ?_, fun latest h => absurd h (by simp), fun _ => rfl⟩
    rw [hany]
    simp [ho]
  · obtain ⟨x, t, hx⟩ := List.exists_cons_of_ne_nil (sorter.sort_ne_nil ho)
    have hne : (offers s.mChannel data).isEmpty = false := by simpa using ho
    have hstep : s.versionCheckFinished sorter fromJson reply =
        ({ s with mLatestVersion := x.1, mChangelogs := (x :: t).map Prod.snd }, some x.1) := by
      simp only [LauncherSetup.versionCheckFinished, hr]
      rw [← offers, hne, hx]
      rfl
    rw [hstep]
    refine ⟨rfl, ?_, ?_, fun h => absurd h (by simp)⟩
    · rw [hany]
      simp [ho]
    · intro latest h
      obtain rfl := Option.some.inj h
      exact ⟨rfl, announces_of_sort sorter hx⟩

theorem versionCheckFinished_of_early_return {reply : VersionReply}
    (hdata : ∀ data, ¬ HasVersionData fromJson reply data) (s : LauncherSetup) :
    s.versionCheckFinished sorter fromJson reply = (s, none) := by
  have hr : versionData fromJson reply = none := by
    rw [Option.eq_none_iff_forall_not_mem]
    exact fun data h => hdata data (versionData_eq_some_iff.1 h)
  simp only [LauncherSetup.versionCheckFinished, hr]

end

/-! ## The order of the array -/

/-- The greatest version does not depend on the order, nor do the notes of different versions. -/
theorem Announces.unique {channel : String} {data data' : List Json} {latest latest' : QVersionNumber}
    {changelogs changelogs' : List String} (h : Announces channel data latest changelogs)
    (h' : Announces channel data' latest' changelogs') (hp : data'.Perm data) :
    latest' = latest ∧ (((newerElements channel data).map versionOf).Nodup → changelogs' = changelogs) := by
  constructor
  · obtain ⟨v, hv, hnew, rfl⟩ := h.latest_mem
    obtain ⟨v', hv', hnew', rfl⟩ := h'.latest_mem
    exact le_antisymm (h.latest_max v' (hp.mem_iff.1 hv') hnew') (h'.latest_max v (hp.mem_iff.2 hv) hnew)
  · intro hnodup
    obtain ⟨sel, hperm, rfl, hsorted, _⟩ := h.changelogs
    obtain ⟨sel', hperm', rfl, hsorted', _⟩ := h'.changelogs
    have hsame : sel'.Perm sel := (hperm'.trans (hp.filter _)).trans hperm.symm
    have hinj : ∀ a ∈ sel, ∀ b ∈ sel, versionOf a = versionOf b → a = b :=
      List.inj_on_of_nodup_map ((hperm.map versionOf).nodup_iff.2 hnodup)
    rw [List.pairwise_map] at hsorted hsorted'
    have heq : sel' = sel := by
      refine hsame.eq_of_pairwise ?_ hsorted' hsorted
      intro a b ha hb hab hba
      exact hinj a (hsame.mem_iff.1 ha) b hb (le_antisymm hba hab)
    rw [heq]

/-- Two runs over the same elements announce the same, up to the order of equal versions. -/
theorem SelectsUpdates.unique {s : LauncherSetup} {data data' : List Json}
    {r r' : LauncherSetup × Option QVersionNumber} (h : SelectsUpdates s data r) (h' : SelectsUpdates s data' r')
    (hp : data'.Perm data) :
    r'.2 = r.2 ∧ r'.1.mLatestVersion = r.1.mLatestVersion ∧
      (((newerElements s.mChannel data).map versionOf).Nodup → r'.1.mChangelogs = r.1.mChangelogs) := by
  have hsame : r'.2.isSome ↔ r.2.isSome := by
    rw [h.emits_iff, h'.emits_iff]
    simp only [hp.mem_iff]
  cases hr : r.2 with
  | none =>
    have hr' : r'.2 = none := by simpa [hr] using hsame
    rw [h.unchanged hr, h'.unchanged hr', hr']
    exact ⟨rfl, rfl, fun _ => rfl⟩
  | some latest =>
    obtain ⟨latest', hr'⟩ : ∃ latest', r'.2 = some latest' := by
      rw [← Option.isSome_iff_exists, hsame, hr]
      rfl
    obtain ⟨hlatest, hann⟩ := h.announces latest hr
    obtain ⟨hlatest', hann'⟩ := h'.announces latest' hr'
    obtain ⟨heq, hlogs⟩ := hann.unique hann' hp
    rw [hr', hlatest, hlatest', heq]
    exact ⟨rfl, rfl, hlogs⟩

/-- **The version check selects and orders updates correctly**, whatever the reply, the members before it
    and the sort: a reply that reaches the loop announces the greatest version on offer, if any is, with
    the notes in the order of their versions, and no order of the array changes that; every other reply
    changes nothing. -/
theorem versionCheck_selects (sorter : Sorter (QVersionNumber × String) newerFirst)
    (fromJson : QByteArray → Document) (s : LauncherSetup) (reply : VersionReply) :
    (∀ data, HasVersionData fromJson reply data →
      SelectsUpdates s data (s.versionCheckFinished sorter fromJson reply) ∧
      ∀ (sorter' : Sorter (QVersionNumber × String) newerFirst) (reply' : VersionReply) (data' : List Json),
        HasVersionData fromJson reply' data' → data'.Perm data →
          let r := s.versionCheckFinished sorter fromJson reply
          let r' := s.versionCheckFinished sorter' fromJson reply'
          r'.2 = r.2 ∧ r'.1.mLatestVersion = r.1.mLatestVersion ∧
            (((newerElements s.mChannel data).map versionOf).Nodup → r'.1.mChangelogs = r.1.mChangelogs)) ∧
    ((∀ data, ¬ HasVersionData fromJson reply data) →
      s.versionCheckFinished sorter fromJson reply = (s, none)) := by
  refine ⟨?_, fun h => versionCheckFinished_of_early_return sorter h s⟩
  intro data hdata
  have hselects := versionCheckFinished_selects sorter hdata s
  refine ⟨hselects, ?_⟩
  intro sorter' reply' data' hdata' hp
  exact hselects.unique (versionCheckFinished_selects sorter' hdata' s) hp

/-- Of five versions out of order, the four of the channel that are newer are announced, the one that comes twice
first. -/
theorem versionCheck_selects_later :
    let r := LauncherSetup.versionCheckFinished sortVersions parseFile ⟨false, laterFile⟩ { mChannel := "beta" }
    SelectsUpdates { mChannel := "beta" } laterData r ∧ r.2 = some [2, 0, 0] ∧
      r.1.mChangelogs = ["New renderer", "Rebuilt", "Fixes"] := by
  have hdata := versionData_eq_some_iff.1 versionData_laterFile
  refine ⟨((versionCheck_selects sortVersions parseFile { mChannel := "beta" } ⟨false, laterFile⟩).1 _ hdata).1, ?_⟩
  decide +kernel

end SegsLauncher
