import Mathlib.Data.Set.Lattice
import Mathlib.Order.CompletePartialOrder
/-!
# Frames: what an operation may change, and what decides the result

States are read at locations through `get`. An operation is `Confined` to a region when no
location outside it changes, and `Determined` on a region when what it leaves there depends on
what was there only. If every operation of a list is confined to the region of its owner and
determined on it, each region is as if only its own operations had run (`agreeOn_run_filter`).
-/
namespace Frames

variable {S L V : Type} (get : S → L → V)

/-- The two states read the same at every location of `R`. -/
def AgreeOn (R : Set L) (s t : S) : Prop := ∀ l ∈ R, get s l = get t l

/-- No location outside `R` changes. -/
def Confined (R : Set L) (f : S → S) : Prop := ∀ s, ∀ l ∉ R, get (f s) l = get s l

/-- What `f` leaves in `R` is decided by what was in `R`. -/
def Determined (R : Set L) (f : S → S) : Prop := ∀ s t, AgreeOn get R s t → AgreeOn get R (f s) (f t)

variable {get}

theorem AgreeOn.trans {R : Set L} {s t u : S} (h : AgreeOn get R s t) (h' : AgreeOn get R t u) :
    AgreeOn get R s u := fun l hl => (h l hl).trans (h' l hl)

theorem Confined.mono {R R' : Set L} {f : S → S} (h : Confined get R f) (hR : R ⊆ R') : Confined get R' f :=
  fun s l hl => h s l fun hm => hl (hR hm)

theorem Confined.id (R : Set L) : Confined get R (fun s => s) := fun _ _ _ => rfl

/-- An operation leaves every region disjoint from its own alone. -/
theorem Confined.agreeOn {R R' : Set L} {f : S → S} (h : Confined get R f) (hd : Disjoint R R') (s : S) :
    AgreeOn get R' (f s) s := fun l hl => h s l (Set.disjoint_right.1 hd hl)

section Owners
variable {O ι : Type} (get) (run : O → S → S) (owner : O → Option ι) (region : ι → Set L)

/-- Every operation stays in the region of its owner and is decided there; an unowned one changes nothing. -/
structure Owned : Prop where
  confined : ∀ o i, owner o = some i → Confined get (region i) (run o)
  determined : ∀ o i, owner o = some i → Determined get (region i) (run o)
  unowned : ∀ o, owner o = none → Confined get ∅ (run o)
  disjoint : ∀ i j, i ≠ j → Disjoint (region i) (region j)

variable {get run owner region}

/-- An operation of another owner leaves region `i` alone. -/
theorem Owned.agreeOn_other (h : Owned get run owner region) {o : O} {i : ι} (ho : owner o ≠ some i)
    (s : S) : AgreeOn get (region i) (run o s) s := by
  cases hw : owner o with
  | none => exact (h.unowned o hw).agreeOn (Set.empty_disjoint _) s
  | some j =>
    have hji : j ≠ i := fun e => ho (by rw [hw, e])
    exact (h.confined o j hw).agreeOn (h.disjoint j i hji) s

/-- A location in nobody's region is never changed. -/
theorem Owned.get_run_of_unowned (h : Owned get run owner region) {l : L} (hl : ∀ i, l ∉ region i)
    (ops : List O) (s : S) : get (ops.foldl (fun s o => run o s) s) l = get s l := by
  induction ops generalizing s with
  | nil => rfl
  | cons o ops ih =>
    rw [List.foldl_cons, ih]
    cases hw : owner o with
    | none => exact h.unowned o hw s l (Set.notMem_empty l)
    | some i => exact h.confined o i hw s l (hl i)

variable [DecidableEq ι]

/-- **Independence**: after any operations, region `i` is what its own operations alone would have
    left, from any start that agrees on it. -/
theorem Owned.agreeOn_run_filter (h : Owned get run owner region) (i : ι) :
    ∀ (ops : List O) (s t : S), AgreeOn get (region i) s t →
      AgreeOn get (region i) (ops.foldl (fun s o => run o s) s)
        ((ops.filter fun o => owner o = some i).foldl (fun s o => run o s) t)
  | [], _, _, hst => hst
  | o :: ops, s, t, hst => by
    by_cases ho : owner o = some i
    · simp only [List.filter_cons, ho, decide_true, if_true, List.foldl_cons]
      exact h.agreeOn_run_filter i ops _ _ (h.determined o i ho s t hst)
    · simp only [List.filter_cons, ho, decide_false, Bool.false_eq_true, if_false, List.foldl_cons]
      exact h.agreeOn_run_filter i ops _ _ ((h.agreeOn_other ho s).trans hst)

/-- A region that one operation of a list owns is as that operation leaves it. -/
theorem Owned.get_run_of_filter_eq (h : Owned get run owner region) {i : ι} {o : O} {ops : List O}
    (hops : (ops.filter fun o => owner o = some i) = [o]) (s : S) {l : L} (hl : l ∈ region i) :
    get (ops.foldl (fun s o => run o s) s) l = get (run o s) l := by
  have hrun := h.agreeOn_run_filter i ops s s fun _ _ => rfl
  rw [hops] at hrun
  exact hrun l hl

end Owners

end Frames
