import Mathlib.Data.List.AList
import Mathlib.Data.List.Dedup
/-!
# Hierarchical key spaces

A written path is cut at a separator into *segments*; empty pieces (a leading, trailing or
repeated separator) vanish. A `Tree` maps lists of segments to values. Over an arbitrary
alphabet `α`, arbitrary segments `σ` and arbitrary values `ν`:

* `segments` — the normal form of a written path;
* `childGroups p t` — the first segments, below `p`, of the keys that go on after them;
* `setFields p fs t` — a record written field by field under `p`.
-/
namespace KeyTree

/-! ## Written paths -/

section Paths
variable {α : Type} [DecidableEq α]

/-- The non-empty pieces between separators. -/
def segments (sep : α) (l : List α) : List (List α) := (l.splitOn sep).filter (· ≠ [])

theorem sep_not_mem_of_mem_splitOn (sep : α) :
    ∀ {l w : List α}, w ∈ l.splitOn sep → sep ∉ w
  | [], w, h => by
    simp only [List.splitOn_nil, List.mem_singleton] at h
    simp [h]
  | c :: l, w, h => by
    have ih := fun {w} => sep_not_mem_of_mem_splitOn sep (l := l) (w := w)
    rw [List.splitOn, List.splitOnP_cons_eq_if_modifyHead] at h
    change w ∈ if (c == sep) = true then [] :: l.splitOn sep else (l.splitOn sep).modifyHead (List.cons c) at h
    by_cases hc : c = sep
    · simp only [hc, beq_self_eq_true, if_true, List.mem_cons] at h
      rcases h with rfl | h
      · simp
      · exact ih h
    · simp only [beq_eq_false_iff_ne.2 hc, Bool.false_eq_true, if_false] at h
      cases hl : l.splitOn sep with
      | nil => simp [hl] at h
      | cons v vs =>
        simp only [hl, List.modifyHead_cons, List.mem_cons] at h
        rcases h with rfl | h
        · have hv : sep ∉ v := ih (by simp [hl])
          simp [hv, Ne.symm hc]
        · exact ih (by simp [hl, h])

theorem segments_clean {sep : α} {l w : List α} (h : w ∈ segments sep l) : w ≠ [] ∧ sep ∉ w := by
  simp only [segments, List.mem_filter, decide_eq_true_eq] at h
  exact ⟨h.2, sep_not_mem_of_mem_splitOn sep h.1⟩

/-- A clean piece is its own only segment. -/
theorem segments_of_clean {sep : α} {w : List α} (h : w ≠ [] ∧ sep ∉ w) : segments sep w = [w] := by
  have hs : w.splitOn sep = [w] := by
    apply List.splitOnP_eq_singleton
    intro x hx
    have : x ≠ sep := fun e => h.2 (e ▸ hx)
    simpa using this
  simp [segments, hs, h.1]

end Paths

/-! ## Trees -/

section Trees
variable {σ ν : Type}

/-- Values addressed by lists of segments. -/
abbrev Tree (σ ν : Type) := AList (fun _ : List σ => ν)

/-- The first segment of a key that goes on after it. -/
def groupOf : List σ → Option σ
  | g :: _ :: _ => some g
  | _ => none

theorem groupOf_eq_some {k : List σ} {g : σ} : groupOf k = some g ↔ ∃ a r, k = g :: a :: r := by
  match k with
  | [] => simp [groupOf]
  | [_] => simp [groupOf]
  | x :: y :: r => simp [groupOf]

variable [DecidableEq σ]

/-- What is left of the key `k` below `p`. -/
def below : List σ → List σ → Option (List σ)
  | [], k => some k
  | _ :: _, [] => none
  | a :: p, b :: k => if a = b then below p k else none

theorem below_eq_some : ∀ {p k r : List σ}, below p k = some r ↔ k = p ++ r
  | [], k, r => by simp [below]
  | _ :: _, [], r => by simp [below]
  | a :: p, b :: k, r => by
    by_cases h : a = b
    · subst h; simp [below, below_eq_some (p := p)]
    · simp [below, h, Ne.symm h]

/-- The groups directly below `p`, each once. -/
def childGroups (p : List σ) (t : Tree σ ν) : List σ :=
  (t.keys.filterMap fun k => (below p k).bind groupOf).dedup

theorem nodup_childGroups (p : List σ) (t : Tree σ ν) : (childGroups p t).Nodup :=
  List.nodup_dedup _

theorem mem_childGroups {p : List σ} {t : Tree σ ν} {g : σ} :
    g ∈ childGroups p t ↔ ∃ a r, p ++ g :: a :: r ∈ t := by
  simp only [childGroups, List.mem_dedup, List.mem_filterMap, Option.bind_eq_some_iff, groupOf_eq_some,
    below_eq_some, AList.mem_keys]
  constructor
  · rintro ⟨k, hk, r, rfl, a, r', rfl⟩; exact ⟨a, r', hk⟩
  · rintro ⟨a, r, hk⟩; exact ⟨_, hk, _, rfl, a, r, rfl⟩

/-- Equal as lookups: what the rest of a program can tell apart. -/
theorem mem_congr {t t' : Tree σ ν} {k : List σ} (h : t.lookup k = t'.lookup k) : k ∈ t ↔ k ∈ t' := by
  rw [← AList.lookup_isSome, ← AList.lookup_isSome, h]

/-- The groups below `p` depend on the keys below `p` only. -/
theorem childGroups_congr {p : List σ} {t t' : Tree σ ν}
    (h : ∀ r, t.lookup (p ++ r) = t'.lookup (p ++ r)) (g : σ) :
    g ∈ childGroups p t ↔ g ∈ childGroups p t' := by
  simp only [mem_childGroups, mem_congr (h _)]

/-! ## Records -/

/-- The record with the given fields, written under `p` field by field. -/
def setFields (p : List σ) (fs : List (σ × ν)) (t : Tree σ ν) : Tree σ ν :=
  fs.foldl (fun t f => t.insert (p ++ [f.1]) f.2) t

@[simp] theorem setFields_nil (p : List σ) (t : Tree σ ν) : setFields p [] t = t := rfl

@[simp] theorem setFields_cons (p : List σ) (f : σ × ν) (fs : List (σ × ν)) (t : Tree σ ν) :
    setFields p (f :: fs) t = setFields p fs (t.insert (p ++ [f.1]) f.2) := rfl

/-- Keys that are not one of the written fields keep their value. -/
theorem lookup_setFields_of_ne {p k : List σ} :
    ∀ {fs : List (σ × ν)} {t : Tree σ ν}, (∀ f ∈ fs, k ≠ p ++ [f.1]) →
      (setFields p fs t).lookup k = t.lookup k
  | [], _, _ => rfl
  | f :: fs, t, h => by
    rw [setFields_cons, lookup_setFields_of_ne (fun g hg => h g (List.mem_cons_of_mem _ hg)),
      AList.lookup_insert_ne (h f List.mem_cons_self)]

/-- A record never touches another record's fields, nor any key elsewhere. -/
theorem lookup_setFields_of_path_ne {p q : List σ} {f : σ} (fs : List (σ × ν)) (t : Tree σ ν) (h : q ≠ p) :
    (setFields p fs t).lookup (q ++ [f]) = t.lookup (q ++ [f]) :=
  lookup_setFields_of_ne fun _ _ e => h (List.append_inj_left' e rfl)

theorem lookup_setFields_of_mem {p : List σ} {f : σ} {v : ν} :
    ∀ {fs : List (σ × ν)} {t : Tree σ ν}, (fs.map Prod.fst).Nodup → (f, v) ∈ fs →
      (setFields p fs t).lookup (p ++ [f]) = some v
  | [], _, _, h => by simp at h
  | (g, w) :: fs, t, hn, h => by
    simp only [List.map_cons, List.nodup_cons, List.mem_map, not_exists, not_and] at hn
    rw [setFields_cons]
    rcases List.mem_cons.1 h with h | h
    · obtain ⟨rfl, rfl⟩ := Prod.mk.inj h
      rw [lookup_setFields_of_ne, AList.lookup_insert]
      intro x hx e
      exact hn.1 x hx (by simpa using e.symm)
    · exact lookup_setFields_of_mem hn.2 h

/-- What a record leaves at a key is decided by what was there. -/
theorem lookup_setFields_congr {p k : List σ} : ∀ {fs : List (σ × ν)} {t t' : Tree σ ν},
    t.lookup k = t'.lookup k → (setFields p fs t).lookup k = (setFields p fs t').lookup k
  | [], _, _, h => h
  | f :: fs, t, t', h => by
    rw [setFields_cons, setFields_cons]
    apply lookup_setFields_congr
    by_cases hk : k = p ++ [f.1]
    · rw [hk, AList.lookup_insert, AList.lookup_insert]
    · rw [AList.lookup_insert_ne hk, AList.lookup_insert_ne hk, h]

/-- A record written under `p ++ w` changes keys strictly below `p` only. -/
theorem lookup_setFields_of_not_below {p w k : List σ} {fs : List (σ × ν)} {t : Tree σ ν}
    (h : ∀ a r, k ≠ p ++ a :: r) : (setFields (p ++ w) fs t).lookup k = t.lookup k := by
  apply lookup_setFields_of_ne
  intro f _ e
  rw [List.append_assoc] at e
  cases w with
  | nil => exact h f.1 [] e
  | cons a w => exact h a (w ++ [f.1]) e

theorem mem_setFields {p k : List σ} :
    ∀ {fs : List (σ × ν)} {t : Tree σ ν}, k ∈ setFields p fs t ↔ k ∈ t ∨ ∃ f ∈ fs, k = p ++ [f.1]
  | [], t => by simp
  | f :: fs, t => by
    rw [setFields_cons, mem_setFields, AList.mem_insert]
    simp only [List.mem_cons, exists_eq_or_imp]
    tauto

/-- Writing a record at `p ++ w` adds the group of `w` below `p`, and nothing when `w` is empty. -/
theorem mem_childGroups_setFields {p w : List σ} {fs : List (σ × ν)} {t : Tree σ ν} {g : σ}
    (hfs : fs ≠ []) :
    g ∈ childGroups p (setFields (p ++ w) fs t) ↔ g ∈ childGroups p t ∨ w.head? = some g := by
  simp only [mem_childGroups, mem_setFields]
  constructor
  · rintro ⟨a, r, h | ⟨f, _, h⟩⟩
    · exact Or.inl ⟨a, r, h⟩
    · rw [List.append_assoc, List.append_cancel_left_eq] at h
      cases w with
      | nil => simp at h
      | cons x w => simp only [List.cons_append, List.cons.injEq] at h; simp [h.1]
  · rintro (⟨a, r, h⟩ | h)
    · exact ⟨a, r, Or.inl h⟩
    · obtain ⟨f, fs', rfl⟩ := List.exists_cons_of_ne_nil hfs
      match w, h with
      | [x], h =>
        obtain rfl : x = g := by simpa using h
        exact ⟨f.1, [], Or.inr ⟨f, by simp, by simp⟩⟩
      | x :: y :: w, h =>
        obtain rfl : x = g := by simpa using h
        exact ⟨y, w ++ [f.1], Or.inr ⟨f, by simp, by simp⟩⟩

end Trees

end KeyTree
