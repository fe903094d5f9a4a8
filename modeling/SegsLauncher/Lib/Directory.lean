import SegsLauncher.Lib.KeyTree
import Mathlib.Data.List.Induction
import Mathlib.Data.List.Perm.Basic
/-!
# Directories: records filed under paths made from their names

A log of saves `(name, record)` is replayed into a tree, each record below a section `p` at the path
`key name`; readers list the groups of the section and take one record from each. What they return is
compared with the directory the saves describe: one record per distinct name, the last one saved
under it (`directory`). The two agree exactly when the paths keep the names apart (`Separated`):
every name that occurs has a path of one segment, and no two of them share it.
-/
namespace KeyTree

/-! ## Update logs -/

section Latest
variable {κ β : Type} [DecidableEq κ]

/-- The last entry for `k` in a log. -/
def latest (k : κ) : List (κ × β) → Option β
  | [] => none
  | e :: l => (latest k l).or (if e.1 = k then some e.2 else none)

@[simp] theorem latest_nil (k : κ) : latest k ([] : List (κ × β)) = none := rfl

theorem latest_snoc (k : κ) (l : List (κ × β)) (e : κ × β) :
    latest k (l ++ [e]) = if e.1 = k then some e.2 else latest k l := by
  induction l with
  | nil => simp [latest]
  | cons x l ih =>
    rw [List.cons_append, latest, ih, latest]
    by_cases h : e.1 = k <;> simp [h]

theorem latest_isSome {k : κ} : ∀ {l : List (κ × β)}, (latest k l).isSome ↔ k ∈ l.map Prod.fst
  | [] => by simp
  | e :: l => by
    have ih := latest_isSome (k := k) (l := l)
    by_cases h : e.1 = k
    · simp [latest, h]
    · simp only [latest, h, if_false, Option.or_none, ih, List.map_cons, List.mem_cons]
      simp [Ne.symm h]

theorem mem_of_latest {k : κ} {v : β} : ∀ {l : List (κ × β)}, latest k l = some v → (k, v) ∈ l
  | [], h => by simp at h
  | e :: l, h => by
    rw [latest, Option.or_eq_some_iff] at h
    rcases h with h | ⟨_, h⟩
    · exact List.mem_cons_of_mem _ (mem_of_latest h)
    · by_cases hk : e.1 = k
      · simp only [hk, if_true, Option.some.injEq] at h
        subst hk; subst h; simp
      · simp [hk] at h

/-- The last entry for `k` has a place, and no entry for `k` stands after it. -/
theorem exists_index_of_latest {k : κ} {v : β} : ∀ {l : List (κ × β)}, latest k l = some v →
    ∃ i : Nat, l[i]? = some (k, v) ∧ ∀ (j : Nat) (v' : β), l[j]? = some (k, v') → j ≤ i
  | [], h => by simp at h
  | e :: l, h => by
    rw [latest, Option.or_eq_some_iff] at h
    rcases h with h | ⟨hnone, h⟩
    · obtain ⟨i, hi, hlast⟩ := exists_index_of_latest h
      refine ⟨i + 1, by rw [List.getElem?_cons_succ]; exact hi, fun j v' hj => ?_⟩
      cases j with
      | zero => omega
      | succ j =>
        have := hlast j v' (by rw [List.getElem?_cons_succ] at hj; exact hj)
        omega
    · by_cases hk : e.1 = k
      · simp only [hk, if_true, Option.some.injEq] at h
        refine ⟨0, by rw [List.getElem?_cons_zero, ← h, ← hk], fun j v' hj => ?_⟩
        cases j with
        | zero => omega
        | succ j =>
          rw [List.getElem?_cons_succ] at hj
          have hsome : (latest k l).isSome := latest_isSome.2 (List.mem_map_of_mem (List.mem_of_getElem? hj))
          rw [hnone] at hsome
          cases hsome
      · simp [hk] at h

/-- Renaming the keys of a log by a function that keeps apart the keys that occur keeps every last entry. -/
theorem latest_map {κ' : Type} [DecidableEq κ'] (f : κ → κ') {k : κ} :
    ∀ {l : List (κ × β)}, (∀ e ∈ l, f e.1 = f k → e.1 = k) →
      latest (f k) (l.map fun e => (f e.1, e.2)) = latest k l
  | [], _ => rfl
  | e :: l, h => by
    have ih := latest_map f (k := k) (l := l) fun x hx => h x (List.mem_cons_of_mem _ hx)
    have he : f e.1 = f k ↔ e.1 = k := ⟨h e List.mem_cons_self, congrArg f⟩
    simp only [List.map_cons, latest, ih, he]

end Latest

/-! ## Replaying a log into a tree -/

section Replay
variable {σ ν β : Type} [DecidableEq σ] (p : List σ) (fields : β → List (σ × ν))

/-- Each save of the log written below `p`, in order. -/
def replay (saves : List (List σ × β)) (t : Tree σ ν) : Tree σ ν :=
  saves.foldl (fun t s => setFields (p ++ s.1) (fields s.2) t) t

theorem replay_snoc (saves : List (List σ × β)) (s : List σ × β) (t : Tree σ ν) :
    replay p fields (saves ++ [s]) t = setFields (p ++ s.1) (fields s.2) (replay p fields saves t) := by
  simp [replay]

variable {p fields}

/-- A field at a path holds what the last save at that path gave it. -/
theorem lookup_replay {f : σ} {val : β → ν} (hn : ∀ b, ((fields b).map Prod.fst).Nodup)
    (hf : ∀ b, (f, val b) ∈ fields b) (w : List σ) (t : Tree σ ν) (saves : List (List σ × β)) :
    (replay p fields saves t).lookup (p ++ w ++ [f]) =
      ((latest w saves).map val).or (t.lookup (p ++ w ++ [f])) := by
  induction saves using List.reverseRecOn with
  | nil => simp [replay]
  | append_singleton saves s ih =>
    rw [replay_snoc, latest_snoc]
    by_cases h : s.1 = w
    · subst h
      rw [lookup_setFields_of_mem (hn s.2) (hf s.2)]
      simp
    · have hne : p ++ w ≠ p ++ s.1 := fun e => h (List.append_cancel_left e).symm
      rw [lookup_setFields_of_path_ne _ _ hne, ih, if_neg h]

/-- The groups of the section are the first segments of the paths that have one. -/
theorem mem_childGroups_replay (hne : ∀ b, fields b ≠ []) {g : σ} {t : Tree σ ν} (saves : List (List σ × β)) :
    g ∈ childGroups p (replay p fields saves t) ↔
      g ∈ childGroups p t ∨ ∃ s ∈ saves, s.1.head? = some g := by
  induction saves using List.reverseRecOn with
  | nil => simp [replay]
  | append_singleton saves s ih =>
    rw [replay_snoc, mem_childGroups_setFields (hne s.2), ih]
    simp only [List.mem_append, List.mem_singleton, or_and_right, exists_or, exists_eq_left, or_assoc]

end Replay

/-! ## Reading a directory back -/

section Directory
variable {N σ β ρ : Type} [DecidableEq N] [DecidableEq σ] (key : N → List σ) (mk : β → ρ)

/-- One record per distinct name, the last saved under it. -/
def directory (saves : List (N × β)) : List ρ :=
  ((saves.map Prod.fst).dedup.filterMap fun n => latest n saves).map mk

/-- The names that occur have one segment each, and no two of them share it. -/
def Separated (saves : List (N × β)) : Prop :=
  (∀ e ∈ saves, ∃ g, key e.1 = [g]) ∧ ∀ e ∈ saves, ∀ e' ∈ saves, key e.1 = key e'.1 → e.1 = e'.1

/-- The log with each name replaced by its path. -/
def byPath (saves : List (N × β)) : List (List σ × β) := saves.map fun e => (key e.1, e.2)

variable {key mk}

omit [DecidableEq σ] in
theorem mem_directory {saves : List (N × β)} {r : ρ} :
    r ∈ directory mk saves ↔ ∃ n b, latest n saves = some b ∧ mk b = r := by
  simp only [directory, List.mem_map, List.mem_filterMap, List.mem_dedup]
  constructor
  · rintro ⟨b, ⟨n, _, hb⟩, rfl⟩; exact ⟨n, b, hb, rfl⟩
  · rintro ⟨n, b, hb, rfl⟩
    have hn : n ∈ saves.map Prod.fst := latest_isSome.1 (by simp [hb])
    exact ⟨b, ⟨n, List.mem_map.1 hn, hb⟩, rfl⟩

/-- What the readers see of a section: which groups it has, and what they read in each. -/
structure Reads (key : N → List σ) (mk : β → ρ) (saves : List (N × β)) (blank : ρ) (groups : List σ)
    (read : σ → ρ) : Prop where
  nodup : groups.Nodup
  mem : ∀ g, g ∈ groups ↔ ∃ e ∈ saves, (key e.1).head? = some g
  read : ∀ g, read g = ((latest [g] (byPath key saves)).map mk).getD blank

variable {saves : List (N × β)} {blank : ρ} {groups : List σ} {read : σ → ρ} {nameOf : ρ → N}

omit [DecidableEq N] in
theorem latest_byPath_mem {w : List σ} {b : β} (h : latest w (byPath key saves) = some b) :
    ∃ n, (n, b) ∈ saves ∧ key n = w := by
  have hm := mem_of_latest h
  simp only [byPath, List.mem_map, Prod.mk.injEq] at hm
  obtain ⟨e, he, rfl, rfl⟩ := hm
  exact ⟨e.1, he, rfl⟩

/-- With separated names, the record read in a group is the last one saved under some name, and that
    name's path is the group. -/
theorem Reads.read_separated (h : Reads key mk saves blank groups read) (hs : Separated key saves)
    {g : σ} (hg : g ∈ groups) : ∃ n b, key n = [g] ∧ latest n saves = some b ∧ read g = mk b := by
  obtain ⟨e, he, hhead⟩ := (h.mem g).1 hg
  obtain ⟨g', hg'⟩ := hs.1 e he
  have hkey : key e.1 = [g] := by rw [hg'] at hhead ⊢; simpa using hhead
  have hlast : latest [g] (byPath key saves) = latest e.1 saves := by
    rw [← hkey]
    exact latest_map key fun x hx hk => hs.2 x hx e he hk
  obtain ⟨b, hb⟩ := Option.isSome_iff_exists.1 (latest_isSome.2 (List.mem_map_of_mem he))
  exact ⟨e.1, b, hkey, hb, by rw [h.read, hlast, hb]; rfl⟩

/-- **Separated names read back**: one record per name, the last saved. -/
theorem Reads.perm_directory (h : Reads key mk saves blank groups read)
    (hname : ∀ e ∈ saves, nameOf (mk e.2) = e.1) (hs : Separated key saves) :
    (groups.map read).Perm (directory mk saves) := by
  have hnames : ∀ {n b}, latest n saves = some b → nameOf (mk b) = n := fun hb => hname _ (mem_of_latest hb)
  rw [List.perm_ext_iff_of_nodup]
  · intro r
    rw [mem_directory, List.mem_map]
    constructor
    · rintro ⟨g, hg, rfl⟩
      obtain ⟨n, b, _, hb, hr⟩ := h.read_separated hs hg
      exact ⟨n, b, hb, hr.symm⟩
    · rintro ⟨n, b, hb, rfl⟩
      have hmem := mem_of_latest hb
      obtain ⟨g, hg⟩ := hs.1 _ hmem
      have hgm : g ∈ groups := (h.mem g).2 ⟨_, hmem, by rw [hg]; rfl⟩
      obtain ⟨n', b', hk', hb', hr⟩ := h.read_separated hs hgm
      obtain rfl : n' = n := hs.2 _ (mem_of_latest hb') _ hmem (hk'.trans hg.symm)
      obtain rfl : b' = b := Option.some.inj (hb'.symm.trans hb)
      exact ⟨g, hgm, hr⟩
  · apply h.nodup.map_on
    intro g hg g' hg' e
    obtain ⟨n, b, hk, hb, hr⟩ := h.read_separated hs hg
    obtain ⟨n', b', hk', hb', hr'⟩ := h.read_separated hs hg'
    have hn : n = n' := by rw [← hnames hb, ← hnames hb', ← hr, ← hr', e]
    subst hn
    exact List.singleton_injective (hk.symm.trans hk')
  · rw [directory]
    refine List.Nodup.map_on (fun b hb b' hb' e => ?_) (List.Nodup.filterMap ?_ (List.nodup_dedup _))
    · obtain ⟨n, _, hn⟩ := List.mem_filterMap.1 hb
      obtain ⟨n', _, hn'⟩ := List.mem_filterMap.1 hb'
      have : n = n' := by rw [← hnames hn, ← hnames hn', e]
      subst this
      exact Option.some.inj (hn.symm.trans hn')
    · intro n n' b hn hn'
      rw [← hnames hn, ← hnames hn']

/-- **Only separated names read back**: if every record of the directory is read somewhere, the names
    are separated. -/
theorem Reads.separated_of_subset (h : Reads key mk saves blank groups read)
    (hname : ∀ e ∈ saves, nameOf (mk e.2) = e.1) (hblank : ∀ b, mk b ≠ blank)
    (hsub : ∀ r ∈ directory mk saves, r ∈ groups.map read) : Separated key saves := by
  have key_of : ∀ e ∈ saves, ∃ g, key e.1 = [g] ∧ nameOf (read g) = e.1 := by
    intro e he
    obtain ⟨b, hb⟩ := Option.isSome_iff_exists.1 (latest_isSome.2 (List.mem_map_of_mem he))
    obtain ⟨g, _, hg⟩ := List.mem_map.1 (hsub _ (mem_directory.2 ⟨_, b, hb, rfl⟩))
    have hn : nameOf (mk b) = e.1 := hname _ (mem_of_latest hb)
    rw [h.read] at hg
    cases hl : latest [g] (byPath key saves) with
    | none => rw [hl] at hg; exact absurd hg.symm (hblank b)
    | some b' =>
      obtain ⟨n', hmem, hk⟩ := latest_byPath_mem hl
      have hb' : mk b' = mk b := by rw [hl] at hg; exact hg
      have hn' : n' = e.1 := by rw [← hn, ← hb']; exact (hname _ hmem).symm
      refine ⟨g, hn' ▸ hk, ?_⟩
      rw [h.read, hl]
      exact (congrArg nameOf hb').trans hn
  refine ⟨fun e he => ⟨_, (key_of e he).choose_spec.1⟩, ?_⟩
  intro e he e' he' hk
  obtain ⟨g, hg, hr⟩ := key_of e he
  obtain ⟨g', hg', hr'⟩ := key_of e' he'
  have hgg : g = g' := List.singleton_injective (hg.symm.trans (hk.trans hg'))
  rw [← hr, ← hr', hgg]

end Directory

end KeyTree
