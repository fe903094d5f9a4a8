import Mathlib.Data.List.Basic
import Mathlib.Data.List.Induction
/-!
# Runs of a deterministic labelled step function

`step s e = none` means that the event `e` cannot happen in `s`. A run is a list of events;
`AllStates P` says that `P` holds of every state on the way (the first and the last included),
`AllSteps C` that every step taken meets the condition `C` on the state before it.
-/
namespace Runs

variable {S E : Type} (step : S → E → Option S)

/-- The state after a list of events, if each of them can happen in its turn. -/
def run : S → List E → Option S
  | s, [] => some s
  | s, e :: es => (step s e).bind fun s' => run s' es

/-- `P` holds in every state the run goes through. -/
def AllStates (P : S → Prop) : S → List E → Prop
  | s, [] => P s
  | s, e :: es => P s ∧ ∀ s', step s e = some s' → AllStates P s' es

/-- Every step of the run is taken from a state where its event meets `C`. -/
def AllSteps (C : S → E → Prop) : S → List E → Prop
  | _, [] => True
  | s, e :: es => ∀ s', step s e = some s' → C s e ∧ AllSteps C s' es

variable {step}

@[simp] theorem run_nil (s : S) : run step s [] = some s := rfl

theorem run_cons {s u : S} {e : E} {es : List E} :
    run step s (e :: es) = some u ↔ ∃ t, step s e = some t ∧ run step t es = some u := by
  simp [run, Option.bind_eq_some_iff]

@[simp] theorem run_singleton (s : S) (e : E) : run step s [e] = step s e := by
  cases h : step s e <;> simp [run, h]

theorem run_append {s u : S} : ∀ {es fs : List E},
    run step s (es ++ fs) = some u ↔ ∃ t, run step s es = some t ∧ run step t fs = some u
  | [], fs => by simp
  | e :: es, fs => by
    simp only [List.cons_append, run_cons, run_append]
    constructor
    · rintro ⟨t, ht, v, hv, hu⟩; exact ⟨v, ⟨t, ht, hv⟩, hu⟩
    · rintro ⟨v, ⟨t, ht, hv⟩, hu⟩; exact ⟨t, ht, v, hv, hu⟩

/-- What every step keeps, every run keeps. -/
theorem run_inv {Inv : S → Prop} (hstep : ∀ {s e t}, step s e = some t → Inv s → Inv t) :
    ∀ {es : List E} {s u : S}, run step s es = some u → Inv s → Inv u
  | [], s, u, h, hi => by simp only [run_nil, Option.some.injEq] at h; exact h ▸ hi
  | e :: es, s, u, h, hi => by
    obtain ⟨t, ht, hu⟩ := run_cons.1 h
    exact run_inv hstep hu (hstep ht hi)

/-- A reflexive and transitive relation between each state and the next holds between the ends of every run. -/
theorem run_rel {R : S → S → Prop} {Inv : S → Prop} (hrefl : ∀ s, R s s)
    (htrans : ∀ {s t u}, R s t → R t u → R s u) (hinv : ∀ {s e t}, step s e = some t → Inv s → Inv t)
    (hstep : ∀ {s e t}, step s e = some t → Inv s → R s t) :
    ∀ {es : List E} {s u : S}, run step s es = some u → Inv s → R s u
  | [], s, u, h, _ => by simp only [run_nil, Option.some.injEq] at h; exact h ▸ hrefl s
  | e :: es, s, u, h, hi => by
    obtain ⟨t, ht, hu⟩ := run_cons.1 h
    have hrest : R t u := run_rel hrefl htrans hinv hstep hu (hinv ht hi)
    exact htrans (hstep ht hi) hrest

theorem allStates_head {P : S → Prop} {s : S} {es : List E} (h : AllStates step P s es) : P s := by
  cases es with
  | nil => exact h
  | cons e es => exact h.1

/-- `AllStates` in terms of the states that the initial parts of the run reach. -/
theorem allStates_iff_run {P : S → Prop} : ∀ {es : List E} {s : S},
    AllStates step P s es ↔ ∀ fs, fs <+: es → ∀ t, run step s fs = some t → P t
  | [], s => by simp [AllStates]
  | e :: es, s => by
    constructor
    · rintro ⟨hs, hes⟩ fs hfs t ht
      match fs, hfs, ht with
      | [], _, ht => simp only [run_nil, Option.some.injEq] at ht; exact ht ▸ hs
      | f :: fs, hfs, ht =>
        obtain ⟨rfl, hp⟩ := List.cons_prefix_cons.1 hfs
        obtain ⟨u, hu, ht⟩ := run_cons.1 ht
        exact allStates_iff_run.1 (hes u hu) fs hp t ht
    · intro h
      refine ⟨h [] List.nil_prefix s rfl, fun u hu => allStates_iff_run.2 fun fs hfs t ht => ?_⟩
      exact h (e :: fs) (List.cons_prefix_cons.2 ⟨rfl, hfs⟩) t (run_cons.2 ⟨u, hu, ht⟩)

/-- **Exact conditions lift from steps to runs**: if, in states that satisfy the invariant and `P`, a
    step keeps `P` exactly when it meets `C`, then `P` holds all along a run exactly when every step of
    it meets `C`. -/
theorem allStates_iff_allSteps {Inv P : S → Prop} {C : S → E → Prop}
    (hinv : ∀ {s e t}, step s e = some t → Inv s → Inv t)
    (hstep : ∀ {s e t}, step s e = some t → Inv s → P s → (P t ↔ C s e)) :
    ∀ {es : List E} {s : S}, Inv s → P s → (AllStates step P s es ↔ AllSteps step C s es)
  | [], s, _, hp => by simp [AllStates, AllSteps, hp]
  | e :: es, s, hi, hp => by
    simp only [AllStates, AllSteps, hp, true_and]
    refine forall_congr' fun t => forall_congr' fun ht => ?_
    constructor
    · intro h
      have hpt : P t := allStates_head h
      exact ⟨(hstep ht hi hp).1 hpt, (allStates_iff_allSteps hinv hstep (hinv ht hi) hpt).1 h⟩
    · rintro ⟨hc, h⟩
      have hpt : P t := (hstep ht hi hp).2 hc
      exact (allStates_iff_allSteps hinv hstep (hinv ht hi) hpt).2 h

/-- What every step between two states with `Q` keeps, every run through states with `Q` keeps. -/
theorem run_inv_of_allStates {Q Inv : S → Prop}
    (hstep : ∀ {s e t}, step s e = some t → Q s → Q t → Inv s → Inv t) :
    ∀ {es : List E} {s u : S}, run step s es = some u → AllStates step Q s es → Inv s → Inv u
  | [], s, u, h, _, hi => by simp only [run_nil, Option.some.injEq] at h; exact h ▸ hi
  | e :: es, s, u, h, hq, hi => by
    obtain ⟨t, ht, hu⟩ := run_cons.1 h
    have hqt : AllStates step Q t es := hq.2 t ht
    exact run_inv_of_allStates hstep hu hqt (hstep ht hq.1 (allStates_head hqt) hi)

/-- What every step of a kind keeps, every run of such steps keeps. -/
theorem run_inv_of_forall {Inv : S → Prop} {C : E → Prop} (hstep : ∀ {s e t}, step s e = some t → C e → Inv s → Inv t) :
    ∀ {es : List E} {s u : S}, run step s es = some u → (∀ e ∈ es, C e) → Inv s → Inv u
  | [], s, u, h, _, hi => by simp only [run_nil, Option.some.injEq] at h; exact h ▸ hi
  | e :: es, s, u, h, hc, hi => by
    obtain ⟨t, ht, hu⟩ := run_cons.1 h
    have ht' : Inv t := hstep ht (hc e List.mem_cons_self) hi
    exact run_inv_of_forall hstep hu (fun f hf => hc f (List.mem_cons_of_mem _ hf)) ht'

/-- What no step can bring about held all along a run that ends with it. -/
theorem allStates_of_run {Q : S → Prop} (hback : ∀ {s e t}, step s e = some t → Q t → Q s) :
    ∀ {es : List E} {s u : S}, run step s es = some u → Q u → AllStates step Q s es
  | [], s, u, h, hq => by
    simp only [run_nil, Option.some.injEq] at h
    exact h ▸ hq
  | e :: es, s, u, h, hq => by
    obtain ⟨t, ht, hu⟩ := run_cons.1 h
    have ih := allStates_of_run hback hu hq
    refine ⟨hback ht (allStates_head ih), ?_⟩
    intro t' ht'
    rw [ht, Option.some.injEq] at ht'
    exact ht' ▸ ih

/-- **A system whose every step is a run of another one has only runs of that one.** -/
theorem run_project {T F : Type} {step' : T → F → Option T} {π : S → T}
    (hstep : ∀ {s e t}, step s e = some t → ∃ fs, run step' (π s) fs = some (π t)) :
    ∀ {es : List E} {s u : S}, run step s es = some u → ∃ fs, run step' (π s) fs = some (π u)
  | [], s, u, h => by
    simp only [run_nil, Option.some.injEq] at h
    exact ⟨[], h ▸ rfl⟩
  | e :: es, s, u, h => by
    obtain ⟨t, ht, hu⟩ := run_cons.1 h
    obtain ⟨fs, hfs⟩ := hstep ht
    obtain ⟨gs, hgs⟩ := run_project hstep hu
    exact ⟨fs ++ gs, run_append.2 ⟨π t, hfs, hgs⟩⟩

/-- A run of events that each lower a measure is no longer than the measure. -/
theorem length_run_le {Inv : S → Prop} {C : E → Prop} {μ : S → Nat}
    (hinv : ∀ {s e t}, step s e = some t → Inv s → Inv t)
    (hμ : ∀ {s e t}, step s e = some t → C e → Inv s → μ t < μ s) :
    ∀ {es : List E} {s u : S}, run step s es = some u → (∀ e ∈ es, C e) → Inv s → es.length ≤ μ s
  | [], s, _, _, _, _ => Nat.zero_le (μ s)
  | e :: es, s, u, h, hc, hi => by
    obtain ⟨t, ht, hu⟩ := run_cons.1 h
    have hlt : μ t < μ s := hμ ht (hc e List.mem_cons_self) hi
    have hle : es.length ≤ μ t := length_run_le hinv hμ hu (fun f hf => hc f (List.mem_cons_of_mem _ hf)) (hinv ht hi)
    rw [List.length_cons]
    omega

/-- An invariant holds all along every run. -/
theorem allStates_of_inv {Inv : S → Prop} (hstep : ∀ {s e t}, step s e = some t → Inv s → Inv t)
    {es : List E} {s : S} (hi : Inv s) : AllStates step Inv s es :=
  allStates_iff_run.2 fun _ _ _ ht => run_inv hstep ht hi

/-- What a step that meets `C` keeps holds all along a run whose steps all meet `C`. -/
theorem allStates_of_allSteps {Inv : S → Prop} {C : S → E → Prop}
    (hstep : ∀ {s e t}, step s e = some t → C s e → Inv s → Inv t) :
    ∀ {es : List E} {s : S}, Inv s → AllSteps step C s es → AllStates step Inv s es
  | [], _, hi, _ => hi
  | e :: es, s, hi, hc => by
    refine ⟨hi, ?_⟩
    intro t ht
    obtain ⟨hce, hrest⟩ := hc t ht
    exact allStates_of_allSteps hstep (hstep ht hce hi) hrest

/-- Whether a run meets a condition on its steps, when the condition can be decided. -/
instance decidableAllSteps {C : S → E → Prop} [∀ s e, Decidable (C s e)] :
    ∀ (s : S) (es : List E), Decidable (AllSteps step C s es)
  | _, [] => isTrue trivial
  | s, e :: es =>
    match h : step s e with
    | none => isTrue fun t ht => by rw [h] at ht; cases ht
    | some t =>
      match decidableAllSteps t es, (inferInstance : Decidable (C s e)) with
      | isTrue hes, isTrue hc => isTrue fun u hu => by
          rw [h, Option.some.injEq] at hu
          exact hu ▸ ⟨hc, hes⟩
      | isFalse hes, _ => isFalse fun hall => hes (hall t h).2
      | _, isFalse hc => isFalse fun hall => hc (hall t h).1

/-- `AllSteps` in terms of the steps of a run that comes to its end. -/
theorem allSteps_iff_at {C : S → E → Prop} : ∀ {es : List E} {s u : S}, run step s es = some u →
    (AllSteps step C s es ↔ ∀ before e after t t', es = before ++ e :: after → run step s before = some t →
      step t e = some t' → run step t' after = some u → C t e)
  | [], s, u, _ => by simp [AllSteps]
  | e :: es, s, u, h => by
    obtain ⟨v, hv, hu⟩ := run_cons.1 h
    constructor
    · rintro hall (_ | ⟨f, before⟩) e' after t t' heq ht ht' hafter
      · obtain ⟨rfl, rfl⟩ := List.cons.inj heq
        simp only [run_nil, Option.some.injEq] at ht
        exact ht ▸ (hall v hv).1
      · obtain ⟨rfl, rfl⟩ := List.cons.inj heq
        obtain ⟨v', hv', ht⟩ := run_cons.1 ht
        obtain rfl : v = v' := Option.some.inj (hv.symm.trans hv')
        exact (allSteps_iff_at hu).1 (hall v hv).2 before e' after t t' rfl ht ht' hafter
    · intro h' v' hv'
      obtain rfl : v = v' := Option.some.inj (hv.symm.trans hv')
      refine ⟨h' [] e es s v rfl rfl hv hu, (allSteps_iff_at hu).2 ?_⟩
      rintro before e' after t t' rfl ht ht' hafter
      exact h' (e :: before) e' after t t' rfl (run_cons.2 ⟨v, hv, ht⟩) ht' hafter

/-- A count that no step raises by more than one passes each number below its last at some step. -/
theorem exists_step_of_count {μ : S → Nat} (hμ : ∀ {s e t}, step s e = some t → μ t ≤ μ s + 1) {k : Nat} :
    ∀ {es : List E} {s u : S}, run step s es = some u → μ s ≤ k → k < μ u →
      ∃ before e after t t', es = before ++ e :: after ∧ run step s before = some t ∧ step t e = some t' ∧
        run step t' after = some u ∧ μ t = k ∧ μ t' = k + 1
  | [], s, u, h, hle, hlt => by
    simp only [run_nil, Option.some.injEq] at h
    subst h
    omega
  | e :: es, s, u, h, hle, hlt => by
    obtain ⟨t, ht, hu⟩ := run_cons.1 h
    have hone := hμ ht
    by_cases hk : k < μ t
    · exact ⟨[], e, es, s, t, rfl, rfl, ht, hu, by omega, by omega⟩
    · obtain ⟨before, e', after, v, v', rfl, hv, hv', hafter, hcount⟩ :=
        exists_step_of_count hμ hu (by omega) hlt
      exact ⟨e :: before, e', after, v, v', rfl, run_cons.2 ⟨t, ht, hv⟩, hv', hafter, hcount⟩

theorem allStates_concat {P : S → Prop} {es : List E} {e : E} {s u : S} (h : run step s (es ++ [e]) = some u) :
    AllStates step P s (es ++ [e]) ↔ AllStates step P s es ∧ P u := by
  simp only [allStates_iff_run, List.prefix_concat_iff]
  constructor
  · intro hall
    exact ⟨fun fs hfs => hall fs (.inr hfs), hall _ (.inl rfl) u h⟩
  · rintro ⟨hes, hu⟩ fs (rfl | hfs) t ht
    · rw [h, Option.some.injEq] at ht
      exact ht ▸ hu
    · exact hes fs hfs t ht

/-- Where every step keeps to a preorder `R` or establishes `P`, some state of the run has `P` and has kept to `R` ever
since. -/
theorem exists_since {R : S → S → Prop} {Inv P : S → Prop} (hrefl : ∀ s, R s s)
    (htrans : ∀ {s t u}, R s t → R t u → R s u) (hinv : ∀ {s e t}, step s e = some t → Inv s → Inv t)
    (hstep : ∀ {s e t}, step s e = some t → Inv s → R s t ∨ P t) {s : S} (hi : Inv s) (hp : P s) {es : List E} :
    ∀ {u : S}, run step s es = some u → ∃ before after t, es = before ++ after ∧ run step s before = some t ∧
      run step t after = some u ∧ P t ∧ R t u ∧ AllStates step (R t) t after := by
  induction es using List.reverseRecOn with
  | nil =>
    intro u h
    obtain rfl := Option.some.inj h
    exact ⟨[], [], s, rfl, rfl, rfl, hp, hrefl s, hrefl s⟩
  | append_singleton es e ih =>
    intro u h
    obtain ⟨t, ht, hu⟩ := run_append.1 h
    rw [run_singleton] at hu
    rcases hstep hu (run_inv hinv ht hi) with hr | hp'
    · obtain ⟨before, after, v, rfl, hv, hafter, hpv, hvt, hall⟩ := ih ht
      have hrun : run step v (after ++ [e]) = some u := run_append.2 ⟨t, hafter, by rw [run_singleton]; exact hu⟩
      exact ⟨before, after ++ [e], v, List.append_assoc .., hv, hrun, hpv, htrans hvt hr,
        (allStates_concat hrun).2 ⟨hall, htrans hvt hr⟩⟩
    · exact ⟨es ++ [e], [], u, (List.append_nil _).symm, h, rfl, hp', hrefl u, hrefl u⟩

theorem AllStates.imp {P Q : S → Prop} (h : ∀ s, P s → Q s) {es : List E} {s : S}
    (hp : AllStates step P s es) : AllStates step Q s es :=
  allStates_iff_run.2 fun fs hfs t ht => h t (allStates_iff_run.1 hp fs hfs t ht)

end Runs
