import Mathlib.Data.List.Basic
/-!
# Updates that find their rows by a key

A sequence of updates is applied to a list of rows, each update to every row. When an update touches only
the rows of its own key, and no update changes a key, what becomes of a row is decided by the updates of
its key, in their order. Rows of different keys take no notice of each other, so sequences that agree key
by key end in the same rows (`Keyed.foldl_rows_congr`).
-/
namespace KeyedUpdates

variable {κ U R : Type} {updateKey : U → κ} {rowKey : R → κ} {apply : U → R → R}

/-- Each update keeps the keys and leaves the rows of other keys alone. -/
structure Keyed (updateKey : U → κ) (rowKey : R → κ) (apply : U → R → R) : Prop where
  rowKey_apply : ∀ u r, rowKey (apply u r) = rowKey r
  apply_of_ne : ∀ u r, updateKey u ≠ rowKey r → apply u r = r

/-- A sequence of updates goes through the rows one by one. -/
theorem foldl_rows (us : List U) (rows : List R) :
    us.foldl (fun rows u => rows.map (apply u)) rows =
      rows.map fun r => us.foldl (fun r u => apply u r) r := by
  induction us generalizing rows with
  | nil => simp
  | cons u us ih =>
    rw [List.foldl_cons, ih, List.map_map]
    rfl

variable [DecidableEq κ]

/-- A row sees the updates of its own key only. -/
theorem Keyed.foldl_filter (h : Keyed updateKey rowKey apply) (us : List U) (r : R) :
    us.foldl (fun r u => apply u r) r =
      (us.filter fun u => updateKey u = rowKey r).foldl (fun r u => apply u r) r := by
  induction us generalizing r with
  | nil => rfl
  | cons u us ih =>
    by_cases hu : updateKey u = rowKey r
    · have hkey : rowKey (apply u r) = rowKey r := h.rowKey_apply u r
      simp only [List.filter_cons, hu, decide_true, if_true, List.foldl_cons]
      rw [ih (apply u r), hkey]
    · simp only [List.filter_cons, hu, decide_false, Bool.false_eq_true, if_false, List.foldl_cons]
      rw [h.apply_of_ne u r hu, ih r]

/-- **Sequences that agree key by key leave the same rows.** -/
theorem Keyed.foldl_rows_congr (h : Keyed updateKey rowKey apply) {us us' : List U}
    (hsame : ∀ k, (us.filter fun u => updateKey u = k) = us'.filter fun u => updateKey u = k) (rows : List R) :
    us.foldl (fun rows u => rows.map (apply u)) rows = us'.foldl (fun rows u => rows.map (apply u)) rows := by
  rw [foldl_rows, foldl_rows]
  apply List.map_congr_left
  intro r _
  rw [h.foldl_filter us, h.foldl_filter us', hsame]

end KeyedUpdates
