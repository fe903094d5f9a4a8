import SegsLauncher.Lib.Runs
import SegsLauncher.Lib.Sorter
import SegsLauncher.Qt
/-!
# The version check (LauncherSetup.cpp:38-129)

| here | there |
| --- | --- |
| `QVersionNumber`        | its segments; `compare` is lexicographic, a longer number being greater than its beginning |
| `versionFromString`     | `QVersionNumber::fromString`: the leading numbers separated by `.`, as `strtoull` reads them, each an `int` |
| `LauncherSetup`         | the members `m_channel`, `m_latest_version`, `m_changelogs` (`LauncherSetup.h:34-36`) |
| `prepareLauncherSetup`  | `prepare_launcher_setup` (`LauncherSetup.cpp:38`); the request it sends is a later `reply` event |
| `versionCheckFinished`  | `version_check_finished` (`:88`), with the argument of `newVersionAvailable` when it is emitted |

`QJsonDocument::fromJson` enters as `fromJson` and `std::sort` as any `Sorter` for the source's
comparison, which leaves equal versions in an unspecified order.
-/
namespace SegsLauncher

abbrev QVersionNumber := List Nat

/-- The white space that the parse of a number skips. -/
def asciiIsSpace (c : Char) : Bool := [' ', '\t', '\n', '\x0b', '\x0c', '\r'].contains c

/-- A decimal number, with what comes after it: white space and one plus sign may come first. -/
def versionSegment (piece : List Char) : Option (Nat × List Char) :=
  let digits := match piece.dropWhile asciiIsSpace with
    | '+' :: cs => cs
    | cs => cs
  match decimal (digits.takeWhile Char.isDigit) with
  | some n => if n < 2 ^ 31 then some (n, digits.dropWhile Char.isDigit) else none
  | none => none

/-- The numbers of the pieces between dots, up to the first piece that is none or goes on after its number. -/
def versionSegments : List (List Char) → QVersionNumber
  | [] => []
  | piece :: pieces =>
    match versionSegment piece with
    | none => []
    | some (n, []) => n :: versionSegments pieces
    | some (n, _ :: _) => [n]

def versionFromString (s : String) : QVersionNumber := versionSegments (s.toList.splitOn '.')

example : ["1.2.3-rc", " 1.+2.", "1..2", "-1", "2147483648"].map versionFromString =
    [[1, 2, 3], [1, 2], [1], [], []] := by
  decide

/-- `Launcher::m_version` (`Launcher.cpp:18`). -/
def launcherVersion : QVersionNumber := [0, 0, 1]

/-- An answer to the request for the version file. -/
structure VersionReply where
  error : Bool
  body : QByteArray

structure LauncherSetup where
  mChannel : String := ""
  mLatestVersion : QVersionNumber := []
  mChangelogs : List String := []
deriving DecidableEq, Repr

/-- The comparison `std::sort` is called with (`LauncherSetup.cpp:120-122`). -/
def newerFirst (a b : QVersionNumber × String) : Bool := b.1 < a.1

/-- One turn of the loop over `version_data` (`:111-116`): what it pushes, if anything. -/
def newVersion (channel : String) (version : Json) : Option (QVersionNumber × String) :=
  let ver := version.toObject
  if (ver.get "channel").toString = channel then
    let newVersion := versionFromString (ver.get "version").toString
    if launcherVersion < newVersion then some (newVersion, (ver.get "notes").toString) else none
  else none

/-- `version_data` as an array, when the reply gets as far as the loop. -/
def versionData (fromJson : QByteArray → Document) (reply : VersionReply) : Option (List Json) :=
  if reply.error then none
  else
    let data := reply.body.take (1024 * 64)
    match fromJson data with
    | none => none
    | some doc =>
      let obj := doc.toObject
      if !obj.contains "version_data" || !(obj.get "version_data").isArray then none
      else some (obj.get "version_data").toArray

namespace LauncherSetup

def prepareLauncherSetup (channel : String) (s : LauncherSetup) : LauncherSetup := { s with mChannel := channel }

def versionCheckFinished (sorter : Sorter (QVersionNumber × String) newerFirst)
    (fromJson : QByteArray → Document) (reply : VersionReply) (s : LauncherSetup) :
    LauncherSetup × Option QVersionNumber :=
  match versionData fromJson reply with
  | none => (s, none)
  | some versionData =>
    let newVersions := versionData.filterMap (newVersion s.mChannel)
    if newVersions.isEmpty then (s, none)
    else
      let newVersions := sorter.sort newVersions
      let latest := (newVersions.map Prod.fst).headD []
      ({ s with mLatestVersion := latest, mChangelogs := newVersions.map Prod.snd }, some latest)

end LauncherSetup

/-! ## Histories of channel switches and replies -/

inductive VersionEvent where
  | prepareLauncherSetup (channel : String)
  | reply (reply : VersionReply)

section
variable (sorter : Sorter (QVersionNumber × String) newerFirst) (fromJson : QByteArray → Document)

def versionStep (s : LauncherSetup) : VersionEvent → LauncherSetup
  | .prepareLauncherSetup channel => s.prepareLauncherSetup channel
  | .reply reply => (s.versionCheckFinished sorter fromJson reply).1

/-- The launcher setup after a history that starts with a new object. -/
def versionRun (es : List VersionEvent) : LauncherSetup := es.foldl (versionStep sorter fromJson) {}

/-- The entries of a valid reply that offer an update on a channel. -/
def offers (channel : String) (versionData : List Json) : List (QVersionNumber × String) :=
  versionData.filterMap (newVersion channel)

/-- What is shown belongs to these entries: one changelog each, and the greatest of their versions,
or nothing at all when there is none. -/
structure Shows (s : LauncherSetup) (entries : List (QVersionNumber × String)) : Prop where
  changelogs : s.mChangelogs.Perm (entries.map Prod.snd)
  latest : entries ≠ [] →
    s.mLatestVersion ∈ entries.map Prod.fst ∧ ∀ v ∈ entries.map Prod.fst, v ≤ s.mLatestVersion
  none : entries = [] → s.mLatestVersion = []

/-- Nothing is offered. -/
def Unoffered (s : LauncherSetup) : Prop := s.mChangelogs = [] ∧ s.mLatestVersion = []

variable {sorter fromJson}

theorem versionCheckFinished_of_offers {s : LauncherSetup} {reply : VersionReply} {data : List Json}
    (hr : versionData fromJson reply = some data) (ho : offers s.mChannel data ≠ []) :
    Shows (s.versionCheckFinished sorter fromJson reply).1 (offers s.mChannel data) := by
  have hne : (offers s.mChannel data).isEmpty = false := by simpa using ho
  obtain ⟨x, t, hx⟩ := List.exists_cons_of_ne_nil (sorter.sort_ne_nil ho)
  have hstep : (s.versionCheckFinished sorter fromJson reply).1 =
      { s with mLatestVersion := x.1, mChangelogs := (sorter.sort (offers s.mChannel data)).map Prod.snd } := by
    simp only [LauncherSetup.versionCheckFinished, hr]
    rw [← offers, hne, hx]
    rfl
  rw [hstep]
  refine ⟨(sorter.perm _).map Prod.snd, fun _ => ?_, fun h => absurd h ho⟩
  obtain ⟨hmem, hfirst⟩ := sorter.head_first (by simp [newerFirst]) hx
  refine ⟨List.mem_map_of_mem hmem, ?_⟩
  intro v hv
  obtain ⟨a, ha, rfl⟩ := List.mem_map.1 hv
  have := hfirst a ha
  simpa [newerFirst] using this

theorem versionCheckFinished_of_none {s : LauncherSetup} {reply : VersionReply} {data : List Json}
    (hr : versionData fromJson reply = some data) (ho : offers s.mChannel data = []) :
    (s.versionCheckFinished sorter fromJson reply).1 = s := by
  simp only [LauncherSetup.versionCheckFinished, hr]
  rw [← offers, ho]
  rfl

/-- **The offered update after a valid reply.** In every history, what is shown belongs to the current
    channel and to this reply exactly when the reply offers something on that channel or nothing was
    offered before it: the branch that finds no newer version leaves the old offer standing. -/
theorem shows_after_reply_iff (sorter : Sorter (QVersionNumber × String) newerFirst)
    (fromJson : QByteArray → Document) (es : List VersionEvent) (reply : VersionReply) (data : List Json)
    (hr : versionData fromJson reply = some data) :
    Shows (versionRun sorter fromJson (es ++ [.reply reply]))
        (offers (versionRun sorter fromJson (es ++ [.reply reply])).mChannel data) ↔
      offers (versionRun sorter fromJson es).mChannel data ≠ [] ∨ Unoffered (versionRun sorter fromJson es) := by
  have hsnoc : versionRun sorter fromJson (es ++ [.reply reply]) =
      ((versionRun sorter fromJson es).versionCheckFinished sorter fromJson reply).1 := by
    simp [versionRun, versionStep]
  have hchan : ∀ s : LauncherSetup, (s.versionCheckFinished sorter fromJson reply).1.mChannel = s.mChannel := by
    intro s
    simp only [LauncherSetup.versionCheckFinished]
    split
    · rfl
    · split <;> rfl
  rw [hsnoc, hchan]
  generalize versionRun sorter fromJson es = s
  by_cases ho : offers s.mChannel data = []
  · rw [versionCheckFinished_of_none hr ho]
    constructor
    · intro h
      refine Or.inr ⟨?_, h.none ho⟩
      have := h.changelogs
      rw [ho] at this
      exact List.perm_nil.1 this
    · rintro (h | ⟨hc, hl⟩)
      · exact absurd ho h
      · exact ⟨by rw [ho, hc]; exact .nil, fun h => absurd ho h, fun _ => hl⟩
  · exact ⟨fun _ => Or.inl ho, fun _ => versionCheckFinished_of_offers hr ho⟩

end

/-! ## A withdrawn offer that stays -/

/-- One sort `std::sort` may be. -/
def sortVersions : Sorter (QVersionNumber × String) newerFirst :=
  let byVersion := Sorter.descending fun version : QVersionNumber × String => version.1
  { sort := byVersion.sort
    perm := byVersion.perm
    sorted := fun l => by simpa [newerFirst] using byVersion.sorted l }

def ascii (s : String) : QByteArray := s.toList.map fun c => UInt8.ofNat c.toNat

/-- The version file of the format comment (`LauncherSetup.cpp:20-28`), without its signature. -/
def offeringFile : QByteArray :=
  ascii ("\x7b\"version_data\":[\x7b\"version\":\"1.0.0\",\"channel\":\"stable\"," ++
    "\"notes\":\"Release notes\"\x7d]\x7d")

/-- A version file with no entries. -/
def emptyFile : QByteArray := ascii "\x7b\"version_data\":[]\x7d"

/-- The entries of a later version file: four on the channel `beta`, out of order, one version twice, and one of another
channel. -/
def laterEntries : List (String × String × String) :=
  [("1.1.0", "beta", "Fixes"), ("2.0.0", "beta", "New renderer"), ("3.0.0", "stable", "Stable only"),
   ("2.0.0", "beta", "Rebuilt"), ("0.0.1", "beta", "First")]

def laterFile : QByteArray :=
  ascii "\x7b\"version_data\":[" ++ List.intercalate (ascii ",") (laterEntries.map fun (version, channel, notes) =>
    ascii "\x7b\"version\":\"" ++ ascii version ++ ascii "\",\"channel\":\"" ++ ascii channel ++
      ascii "\",\"notes\":\"" ++ ascii notes ++ ascii "\"\x7d") ++ ascii "]\x7d"

/-- The entries as JSON. -/
def laterData : List Json :=
  laterEntries.map fun (version, channel, notes) =>
    .object [("version", .string version), ("channel", .string channel), ("notes", .string notes)]

/-- `fromJson` on these files. -/
def parseFile (data : QByteArray) : Document :=
  if data = offeringFile then
    some (.object [("version_data", .array [.object [("version", .string "1.0.0"),
      ("channel", .string "stable"), ("notes", .string "Release notes")]])])
  else if data = emptyFile then some (.object [("version_data", .array [])])
  else if data = laterFile then some (.object [("version_data", .array laterData)])
  else none

theorem versionData_laterFile : versionData parseFile ⟨false, laterFile⟩ = some laterData := by
  have hlength : laterFile.length ≤ 1024 * 64 := by
    decide +kernel
  have hoffering : laterFile ≠ offeringFile := by
    decide +kernel
  have hempty : laterFile ≠ emptyFile := by
    decide +kernel
  have hparse : parseFile laterFile = some (.object [("version_data", .array laterData)]) := by
    rw [parseFile, if_neg hoffering, if_neg hempty, if_pos rfl]
  simp only [versionData, List.take_of_length_le hlength, hparse]
  rfl

/-- After a switch to another channel and a valid reply that offers nothing on it, the update offered on
    the first channel is still shown. -/
theorem shows_after_reply_fails :
    versionData parseFile ⟨false, emptyFile⟩ = some [] ∧
      ¬ Shows (versionRun sortVersions parseFile
          ([.prepareLauncherSetup "stable", .reply ⟨false, offeringFile⟩, .prepareLauncherSetup "beta"] ++
            [.reply ⟨false, emptyFile⟩]))
        (offers "beta" []) := by
  have hempty : versionData parseFile ⟨false, emptyFile⟩ = some [] := by rfl
  refine ⟨hempty, ?_⟩
  intro h
  have hlen := h.changelogs.length_eq
  revert hlen
  decide

/-- A launcher that was offered a version on one channel, is switched to another and gets a later reply. -/
def switchedHistory : List VersionEvent :=
  [.prepareLauncherSetup "stable", .reply ⟨false, offeringFile⟩, .prepareLauncherSetup "beta"]

/-- The later reply replaces the offer of the first channel. -/
theorem shows_after_reply_iff_switched :
    let s := versionRun sortVersions parseFile (switchedHistory ++ [.reply ⟨false, laterFile⟩])
    Shows s (offers s.mChannel laterData) ∧ s.mChannel = "beta" ∧ s.mLatestVersion = [2, 0, 0] ∧
      s.mChangelogs = ["New renderer", "Rebuilt", "Fixes"] := by
  have hoffers : offers (versionRun sortVersions parseFile switchedHistory).mChannel laterData ≠ [] := by
    decide +kernel
  refine ⟨(shows_after_reply_iff sortVersions parseFile switchedHistory _ _ versionData_laterFile).2 (.inl hoffers), ?_⟩
  decide +kernel

end SegsLauncher
