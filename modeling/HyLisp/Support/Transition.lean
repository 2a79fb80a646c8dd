import Mathlib.Data.List.Basic
import Mathlib.Tactic.Common

/-!
# Runs of a partial transition function

A step function takes a state and an event to the next state, or fails.  A run
feeds it a list of events.  `Along` says that every step a run takes satisfies a
condition on the state it starts from and its event.  Two rules carry facts
along a run: an invariant is preserved, and an abstract state follows its own
step function.
-/

namespace Transition

variable {σ α τ : Type*} (step : σ → α → Option σ)

/-- The state after a list of events. -/
def run : σ → List α → Option σ
  | s, [] => some s
  | s, a :: as => (step s a).bind fun s' => run s' as

/-- Each step of the run satisfies `P` in the state it starts from. -/
def Along (P : σ → α → Prop) : σ → List α → Prop
  | _, [] => True
  | s, a :: as => P s a ∧ ∀ s', step s a = some s' → Along P s' as

variable {step}

@[simp] theorem run_nil (s : σ) : run step s [] = some s := rfl

theorem run_cons (s : σ) (a : α) (as : List α) :
    run step s (a :: as) = (step s a).bind fun s' => run step s' as := rfl

theorem run_cons_eq_some {s t : σ} {a : α} {as : List α} :
    run step s (a :: as) = some t ↔
      ∃ s', step s a = some s' ∧ run step s' as = some t := by
  rw [run_cons, Option.bind_eq_some_iff]

theorem run_append {s t u : σ} {as bs : List α} (h : run step s as = some t)
    (h' : run step t bs = some u) : run step s (as ++ bs) = some u := by
  induction as generalizing s with
  | nil =>
      rw [run_nil, Option.some_inj] at h
      rw [h]
      exact h'
  | cons a as ih =>
      obtain ⟨s', hs', hrest⟩ := run_cons_eq_some.mp h
      exact run_cons_eq_some.mpr ⟨s', hs', ih hrest⟩

/-- What a step preserves, a run preserves. -/
theorem run_invariant {Inv : σ → Prop} {P : σ → α → Prop}
    (hstep : ∀ {s a s'}, Inv s → P s a → step s a = some s' → Inv s')
    {s t : σ} {as : List α} (hs : Inv s) (hP : Along step P s as)
    (hrun : run step s as = some t) : Inv t := by
  induction as generalizing s with
  | nil =>
      rw [run_nil, Option.some_inj] at hrun
      rw [← hrun]
      exact hs
  | cons a as ih =>
      obtain ⟨s', hs', hrest⟩ := run_cons_eq_some.mp hrun
      exact ih (hstep hs hP.1 hs') (hP.2 s' hs') hrest

/-- If every step succeeds and preserves the invariant, so does the run. -/
theorem exists_run_of_along {Inv : σ → Prop} {P : σ → α → Prop}
    (hstep : ∀ {s a}, Inv s → P s a → ∃ s', step s a = some s' ∧ Inv s')
    {s : σ} {as : List α} (hs : Inv s) (hP : Along step P s as) :
    ∃ t, run step s as = some t ∧ Inv t := by
  induction as generalizing s with
  | nil => exact ⟨s, rfl, hs⟩
  | cons a as ih =>
      obtain ⟨s', hs', hinv⟩ := hstep hs hP.1
      obtain ⟨t, hrun, ht⟩ := ih hinv (hP.2 s' hs')
      exact ⟨t, run_cons_eq_some.mpr ⟨s', hs', hrun⟩, ht⟩

theorem along_true (s : σ) (as : List α) : Along step (fun _ _ => True) s as := by
  induction as generalizing s with
  | nil => trivial
  | cons a as ih => exact ⟨trivial, fun s' _ => ih s'⟩

/-- Whether a condition holds along a run can be tried out. -/
instance decidableAlong {P : σ → α → Prop} [∀ s a, Decidable (P s a)] :
    ∀ (s : σ) (as : List α), Decidable (Along step P s as)
  | _, [] => .isTrue trivial
  | s, a :: as =>
      match hstep : step s a with
      | none => decidable_of_iff (P s a) <| by
          simp only [Along, hstep, reduceCtorEq, false_imp_iff, implies_true, and_true]
      | some s' =>
          have := decidableAlong (P := P) s' as
          decidable_of_iff (P s a ∧ Along step P s' as) <| by
            simp only [Along, hstep, Option.some_inj, forall_eq']

theorem Along.append {P : σ → α → Prop} {s t : σ} {as bs : List α} (h : Along step P s as)
    (hrun : run step s as = some t) (h' : Along step P t bs) :
    Along step P s (as ++ bs) := by
  induction as generalizing s with
  | nil =>
      rw [run_nil, Option.some_inj] at hrun
      rw [hrun]
      exact h'
  | cons a as ih =>
      obtain ⟨s', hs', hrest⟩ := run_cons_eq_some.mp hrun
      refine ⟨h.1, fun s'' hs'' => ?_⟩
      obtain rfl : s' = s'' := Option.some_inj.mp (hs'.symm.trans hs'')
      exact ih (h.2 s' hs') hrest

/-- A condition on all the events holds along the run. -/
theorem along_of_forall {P : α → Prop} {as : List α} (h : ∀ a ∈ as, P a) (s : σ) :
    Along step (fun _ a => P a) s as := by
  induction as generalizing s with
  | nil => trivial
  | cons a as ih =>
      rw [List.forall_mem_cons] at h
      exact ⟨h.1, fun s' _ => ih h.2 s'⟩

/-- What an invariant of the steps entails holds along the run. -/
theorem Along.of_invariant {Inv : σ → Prop} {P Q : σ → α → Prop}
    (hstep : ∀ {s a s'}, Inv s → P s a → step s a = some s' → Inv s')
    (hPQ : ∀ {s a}, Inv s → P s a → Q s a) {s : σ} {as : List α}
    (hs : Inv s) (h : Along step P s as) : Along step Q s as := by
  induction as generalizing s with
  | nil => trivial
  | cons a as ih =>
      exact ⟨hPQ hs h.1, fun s' hs' => ih (hstep hs h.1 hs') (h.2 s' hs')⟩

/-- Two conditions that agree under an invariant of the steps that meet them hold
along the same runs. -/
theorem along_iff_of_invariant {Inv : σ → Prop} {P Q : σ → α → Prop}
    (hstep : ∀ {s a s'}, Inv s → P s a → step s a = some s' → Inv s')
    (hPQ : ∀ {s a}, Inv s → (P s a ↔ Q s a)) {s : σ} {as : List α}
    (hs : Inv s) : Along step P s as ↔ Along step Q s as := by
  induction as generalizing s with
  | nil => exact Iff.rfl
  | cons a as ih =>
      constructor
      · rintro ⟨hP, hrest⟩
        exact ⟨(hPQ hs).mp hP, fun s' hs' => (ih (hstep hs hP hs')).mp (hrest s' hs')⟩
      · rintro ⟨hQ, hrest⟩
        have hP := (hPQ hs).mpr hQ
        exact ⟨hP, fun s' hs' => (ih (hstep hs hP hs')).mpr (hrest s' hs')⟩

/-- Two conditions that agree hold along the same runs. -/
theorem along_congr {P Q : σ → α → Prop} (h : ∀ s a, P s a ↔ Q s a) {s : σ}
    {as : List α} : Along step P s as ↔ Along step Q s as := by
  have hinv : (fun _ : σ => True) s := trivial
  exact along_iff_of_invariant (fun _ _ _ => trivial) (fun _ => h _ _) hinv

/-- A property holds in every state a run reaches exactly when it holds at its
start and after each of its steps. -/
theorem forall_reached_iff_along {Good : σ → Prop} {s : σ} {as : List α} :
    (∀ bs, bs <+: as → ∀ t, run step s bs = some t → Good t) ↔
      Good s ∧ Along step (fun s a => ∀ s', step s a = some s' → Good s') s as := by
  induction as generalizing s with
  | nil =>
      constructor
      · intro h
        exact ⟨h [] (List.prefix_refl []) s rfl, trivial⟩
      · rintro ⟨hs, -⟩ bs hbs t hrun
        rw [List.prefix_nil.mp hbs, run_nil, Option.some_inj] at hrun
        rw [← hrun]
        exact hs
  | cons a as ih =>
      constructor
      · intro h
        have hfirst : ∀ s', step s a = some s' → ∀ bs, bs <+: as →
            ∀ t, run step s' bs = some t → Good t := by
          intro s' hs' bs hbs t hrun
          exact h (a :: bs) (List.cons_prefix_cons.mpr ⟨rfl, hbs⟩) t
            (run_cons_eq_some.mpr ⟨s', hs', hrun⟩)
        exact ⟨h [] List.nil_prefix s rfl,
          fun s' hs' => (ih.mp (hfirst s' hs')).1,
          fun s' hs' => (ih.mp (hfirst s' hs')).2⟩
      · rintro ⟨hs, hstep, hrest⟩ bs hbs t hrun
        cases bs with
        | nil =>
            rw [run_nil, Option.some_inj] at hrun
            rw [← hrun]
            exact hs
        | cons b bs =>
            obtain ⟨hba, htail⟩ := List.cons_prefix_cons.mp hbs
            subst hba
            obtain ⟨s', hs', hrun'⟩ := run_cons_eq_some.mp hrun
            exact ih.mpr ⟨hstep s' hs', hrest s' hs'⟩ bs htail t hrun'

/-- Two step functions whose steps succeed together and keep a relation run together. -/
theorem exists_run_of_rel {step' : τ → α → Option τ} {Rel : σ → τ → Prop}
    (hstep : ∀ {s t} a, Rel s t →
      ∃ s' t', step s a = some s' ∧ step' t a = some t' ∧ Rel s' t')
    {s : σ} {t : τ} (h : Rel s t) (as : List α) :
    ∃ s' t', run step s as = some s' ∧ run step' t as = some t' ∧ Rel s' t' := by
  induction as generalizing s t with
  | nil => exact ⟨s, t, rfl, rfl, h⟩
  | cons a as ih =>
      obtain ⟨s', t', hs', ht', hrel⟩ := hstep a h
      obtain ⟨u, v, hu, hv, hend⟩ := ih hrel
      exact ⟨u, v, run_cons_eq_some.mpr ⟨s', hs', hu⟩, run_cons_eq_some.mpr ⟨t', ht', hv⟩,
        hend⟩

/-! ## Refinement of an abstract step function -/

section Refinement

variable (step) (abs : σ → τ) (spec : τ → α → τ)

/-- The step succeeds, and its abstraction is the abstract step. -/
def Implements (s : σ) (a : α) : Prop :=
  ∃ s', step s a = some s' ∧ abs s' = spec (abs s) a

variable {step} {abs} {spec}

/-- A run follows the abstract run at every point exactly when each of its
steps implements the abstract step. -/
theorem forall_isPrefix_iff_along {s : σ} {as : List α} :
    (∀ bs, bs <+: as →
      ∃ t, run step s bs = some t ∧ abs t = bs.foldl spec (abs s)) ↔
      Along step (Implements step abs spec) s as := by
  induction as generalizing s with
  | nil =>
      constructor
      · intro _
        trivial
      · intro _ bs hbs
        rw [List.prefix_nil.mp hbs]
        exact ⟨s, rfl, rfl⟩
  | cons a as ih =>
      constructor
      · intro h
        obtain ⟨t, hrun, habs⟩ := h [a] ⟨as, rfl⟩
        obtain ⟨s', hs', hnil⟩ := run_cons_eq_some.mp hrun
        rw [run_nil, Option.some_inj] at hnil
        subst hnil
        refine ⟨⟨s', hs', habs⟩, fun s'' hs'' => ?_⟩
        obtain rfl : s' = s'' := Option.some_inj.mp (hs'.symm.trans hs'')
        apply ih.mp
        intro bs hbs
        obtain ⟨t, hrun, hfold⟩ := h (a :: bs) (List.cons_prefix_cons.mpr ⟨rfl, hbs⟩)
        obtain ⟨u, hu, hrest⟩ := run_cons_eq_some.mp hrun
        obtain rfl : s' = u := Option.some_inj.mp (hs'.symm.trans hu)
        refine ⟨t, hrest, ?_⟩
        rw [hfold, List.foldl_cons, habs, List.foldl_cons, List.foldl_nil]
      · rintro ⟨⟨s', hs', habs⟩, hrest⟩ bs hbs
        cases bs with
        | nil => exact ⟨s, rfl, rfl⟩
        | cons b bs =>
            obtain ⟨hba, htail⟩ := List.cons_prefix_cons.mp hbs
            subst hba
            obtain ⟨t, hrun, hfold⟩ := ih.mpr (hrest s' hs') bs htail
            refine ⟨t, run_cons_eq_some.mpr ⟨s', hs', hrun⟩, ?_⟩
            rw [hfold, List.foldl_cons, habs]

end Refinement

end Transition
