import SegsLauncher.Worker
/-!
# The uptime of a server

The start time a server returns is narrowed to a 32-bit `int`, moved to the client's calendar and compared
with the current date there.

| here | there |
| --- | --- |
| `Emits`       | `serverStatusWorkerReady(true, server_name, uptime_days)` at the end of a probe (`Worker.cpp:70-75`) |
| `startSecs`   | `res_2.toInt()` |
| `UptimeSound` | the count stands for the time since the start, to the day |
-/
namespace SegsLauncher

/-- The probe that is told `startTime` reports `d` days. -/
def Emits (startTime utcOffset now d : Int) : Prop :=
  fetchServerStatus (some (.int startTime)) utcOffset now .getStartTime =
    some (.inr (true, (QVariant.int d).toString))

/-- The count reported at `now` is not negative, is less than a day off and is not undercut later. -/
def UptimeSound (startTime utcOffset now : Int) : Prop :=
  ∃ d, Emits startTime utcOffset now d ∧ 0 ≤ d ∧ (86400 * d - (now - startTime)).natAbs < 86400 ∧
    ∀ later ≥ now, ∀ d', Emits startTime utcOffset later d' → d ≤ d'

/-- The start time as the worker reads it. -/
abbrev startSecs (startTime : Int) : Int := (QVariant.int startTime).toInt

theorem startSecs_of_lt {startTime : Int} (hs : 0 ≤ startTime) (h : startTime < 2 ^ 31) :
    startSecs startTime = startTime := QVariant.toInt_int_eq_self_iff.2 ⟨by omega, h⟩

/-- From 2038 on the start is read as one at least 2 ^ 32 seconds earlier. -/
theorem startSecs_of_le {startTime : Int} (h : 2 ^ 31 ≤ startTime) :
    startSecs startTime + 2 ^ 32 ≤ startTime := by
  simp only [startSecs, QVariant.toInt]
  omega

/-! ## Calendar days -/

theorem daysTo_nonneg (utcOffset : Int) {start current : Int} (h : start ≤ current) :
    0 ≤ daysTo utcOffset start current := by
  have := Int.ediv_le_ediv (show 0 < (86400 : Int) by omega) (Int.add_le_add_right h utcOffset)
  unfold daysTo
  omega

theorem daysTo_mono (utcOffset start : Int) {current later : Int} (h : current ≤ later) :
    daysTo utcOffset start current ≤ daysTo utcOffset start later := by
  have := Int.ediv_le_ediv (show 0 < (86400 : Int) by omega) (Int.add_le_add_right h utcOffset)
  unfold daysTo
  omega

/-- A difference of dates is less than a day off the difference of times. -/
theorem natAbs_daysTo_lt (utcOffset start current : Int) :
    (86400 * daysTo utcOffset start current - (current - start)).natAbs < 86400 := by
  unfold daysTo
  omega

/-! ## The reported count -/

theorem emits_iff {startTime utcOffset now d : Int} :
    Emits startTime utcOffset now d ↔ d = daysTo utcOffset (startSecs startTime) now := by
  constructor
  · intro h
    simp only [Emits, fetchServerStatus, Option.some.injEq, Sum.inr.injEq, Prod.mk.injEq, true_and] at h
    exact (QVariant.toString_int_injective h).symm
  · rintro rfl
    rfl

/-- **The reported uptime is sound** exactly for start times of a 32-bit `int`. -/
theorem uptimeSound_iff (startTime utcOffset now : Int) (hs : 0 ≤ startTime) (hnow : startTime ≤ now) :
    UptimeSound startTime utcOffset now ↔ startTime < 2 ^ 31 := by
  constructor
  · rintro ⟨d, hd, _, hoff, _⟩
    by_contra hlt
    -- the narrowed start is 2 ^ 32 seconds too early, and the count is off by as much
    have hearly := startSecs_of_le (Int.not_lt.1 hlt)
    have hdays := natAbs_daysTo_lt utcOffset (startSecs startTime) now
    rw [emits_iff.1 hd] at hoff
    omega
  · intro hlt
    have hstart := startSecs_of_lt hs hlt
    refine ⟨daysTo utcOffset (startSecs startTime) now, emits_iff.2 rfl, ?_, ?_, ?_⟩
    · rw [hstart]
      exact daysTo_nonneg utcOffset hnow
    · rw [hstart]
      exact natAbs_daysTo_lt utcOffset startTime now
    · intro later hlater d' hd'
      rw [emits_iff.1 hd']
      exact daysTo_mono utcOffset (startSecs startTime) hlater

theorem uptimeSound_2026 : UptimeSound 1767225600 (-18000) 1769904000 :=
  (uptimeSound_iff 1767225600 (-18000) 1769904000 (by decide) (by decide)).2 (by decide)

/-- A server started at 2 ^ 31 seconds is reported with 49711 days in its first second. -/
theorem not_uptimeSound_2038 : ¬ UptimeSound (2 ^ 31) 0 (2 ^ 31) := by
  rintro ⟨d, hd, _, hoff, _⟩
  have hdays : d = 49711 := (emits_iff.1 hd).trans (by decide)
  omega

end SegsLauncher
