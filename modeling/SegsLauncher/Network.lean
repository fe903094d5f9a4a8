import SegsLauncher.Lib.ReplySlot
import SegsLauncher.Launcher
/-!
# The replies of `fetch_community_servers` and `fetch_release_notes` (Launcher.cpp:67-116, 226-273)

Both fetches keep the reply of the latest request in a member of `Launcher`, and both handlers are slots
without an argument that read this member, where `version_check_finished` takes its reply from the signal.

| here | there |
| --- | --- |
| `ReplySlot.Slot.latest`  | `m_servers_network_reply`, `m_releases_network_reply` |
| `ReplySlot.handle`       | `handle_servers_reply`, `handle_releases_reply`: `error()`, then `readAll()` |
| `ReplySlot.Event.finish` | `QNetworkAccessManager::finished`, once per reply |
| `ReplySlot.Slot.taken`   | what each run of a handler past its `if` read; it emits `fetchServerListFinished` or `fetchReleasesFinished` as often |
| `Slot.value`             | the settings store; `m_release_info` |
-/
namespace SegsLauncher

open ReplySlot (Slot Faithful FindsOwn)

/-- `m_release_info` -/
structure ReleaseInfo where
  releaseNotes : Option String := none
  versionString : Option String := none
deriving DecidableEq, Repr

namespace Launcher

/-- `version_number` in `handle_releases_reply` (`Launcher.cpp:246-247`). -/
def versionNumber : String := "v" ++ "0.6.1"

/-- One turn of the loop over the releases (`:250-258`): a tag that is no string equals none. -/
def saveRelease (info : ReleaseInfo) (value : Json) : ReleaseInfo :=
  let jsonObj := value.toObject
  match jsonObj.get "tag_name" with
  | .string tagName =>
    if tagName = versionNumber then { info with releaseNotes := some (jsonObj.get "body").toString } else info
  | _ => info

/-- `handle_releases_reply` on a parsed reply (`:244-262`). -/
def saveReleasesReply (jsonResponse : Document) (info : ReleaseInfo) : ReleaseInfo :=
  let releasesArray := jsonResponse.array
  { releasesArray.foldl saveRelease info with versionString := some (versionNumber ++ " Outbreak") }

end Launcher

section
variable (fromJson : QByteArray → Document)

/-- What `handle_servers_reply` does with the bytes it read. -/
def mergeServers (reply : QByteArray) (st : Store) : Store := Launcher.saveServersReply (fromJson reply) st

/-- What `handle_releases_reply` does with the bytes it read. -/
def mergeReleases (reply : QByteArray) (info : ReleaseInfo) : ReleaseInfo :=
  Launcher.saveReleasesReply (fromJson reply) info

def serversStep : Slot UInt8 Store → ReplySlot.Event UInt8 → Option (Slot UInt8 Store) :=
  ReplySlot.step (mergeServers fromJson)

def releasesStep : Slot UInt8 ReleaseInfo → ReplySlot.Event UInt8 → Option (Slot UInt8 ReleaseInfo) :=
  ReplySlot.step (mergeReleases fromJson)

/-- **Every reply is processed once and as itself, of both kinds, exactly when every completion finds its
    own reply in the member** (or fails and finds a failed one there), whatever the settings hold at the
    start. -/
theorem replies_faithful_iff (st : Store) (serversEvents releasesEvents : List (ReplySlot.Event UInt8)) :
    (Runs.AllStates (serversStep fromJson) (Faithful (mergeServers fromJson) st) (Slot.new st) serversEvents ↔
      Runs.AllSteps (serversStep fromJson) FindsOwn (Slot.new st) serversEvents) ∧
    (Runs.AllStates (releasesStep fromJson) (Faithful (mergeReleases fromJson) {}) (Slot.new {}) releasesEvents ↔
      Runs.AllSteps (releasesStep fromJson) FindsOwn (Slot.new {}) releasesEvents) :=
  ⟨ReplySlot.faithful_iff (mergeServers fromJson) st serversEvents,
   ReplySlot.faithful_iff (mergeReleases fromJson) {} releasesEvents⟩

end

/-- Two fetches, and the first reply completes while the second is still in flight: the beginning of the
    second is read in its place. -/
theorem replies_faithful_fails_overlap :
    ¬ Runs.AllStates (serversStep fun _ => none) (Faithful (mergeServers fun _ => none) ∅) (Slot.new ∅)
      [.request, .request, .receive 0 [0x7b, 0x7d], .finish 0 true] := by
  intro h
  have hlast := Runs.allStates_iff_run.1 h _ List.prefix_rfl _ rfl
  have hread : (⟨0, 1, [], .pending⟩ : ReplySlot.Taken UInt8) ∈ [⟨0, 1, [], .pending⟩] := List.mem_singleton_self _
  exact hlast.pending _ hread rfl

end SegsLauncher
