import HyLisp.Support.Transition
import Mathlib.Data.Fintype.Pi
import Mathlib.Logic.Function.Basic

/-!
# Threads under reader-writer locks

A thread runs bodies of code one after the other; of a body only the steps that
take and release locks and those that enter and leave calls are kept.  The
threads interleave at every step.  A body is guarded by a condition on the locks
held when it meets the condition whenever it is inside a call; then so does the
thread in every interleaving, and what a lock excludes is excluded for the calls.
-/

namespace RwLock

open Transition

/-- The modes in which a lock is held. -/
inductive Mode
  | rd
  | wr
  deriving DecidableEq

/-- The steps of a body. -/
inductive Op (L C : Type*)
  | lock (l : L) (m : Mode)
  | unlock (l : L)
  | enter (c : C)
  | leave (c : C)
  deriving DecidableEq

/-- What a thread holds, and the call it is inside of. -/
@[ext]
structure Local (L C : Type*) where
  held : L → Option Mode
  inside : Option C

namespace Local

variable {L C : Type*}

/-- A thread between two bodies. -/
def idle : Local L C where
  held := fun _ => none
  inside := none

theorem eq_idle_iff {x : Local L C} :
    x = .idle ↔ x.held = (fun _ => none) ∧ x.inside = none := by
  rw [Local.ext_iff]
  rfl

variable [DecidableEq L]

/-- The effect of a step on its own thread. -/
def after (x : Local L C) : Op L C → Local L C
  | .lock l m => { x with held := Function.update x.held l (some m) }
  | .unlock l => { x with held := Function.update x.held l none }
  | .enter c => { x with inside := some c }
  | .leave _ => { x with inside := none }

/-- The step is well bracketed: locks are not nested, nor are calls. -/
def Fits (x : Local L C) : Op L C → Prop
  | .lock l _ => x.held l = none
  | .unlock l => x.held l ≠ none
  | .enter _ => x.inside = none
  | .leave c => x.inside = some c

instance [DecidableEq C] (x : Local L C) : ∀ op : Op L C, Decidable (x.Fits op)
  | .lock l _ => inferInstanceAs (Decidable (x.held l = none))
  | .unlock l => inferInstanceAs (Decidable (x.held l ≠ none))
  | .enter _ => inferInstanceAs (Decidable (x.inside = none))
  | .leave c => inferInstanceAs (Decidable (x.inside = some c))

end Local

section Guards

variable {L C : Type*} [DecidableEq L] (P : C → (L → Option Mode) → Prop)

/-- The rest of a body is well bracketed, and wherever it is inside a call the
locks held meet the condition of the call. -/
def Guarded : Local L C → List (Op L C) → Prop
  | x, [] => x = .idle
  | x, op :: ops =>
      (∀ c, x.inside = some c → P c x.held) ∧ x.Fits op ∧ Guarded (x.after op) ops

/-- Over finitely many locks and calls the condition can be checked. -/
instance decidableGuarded [Fintype L] [Fintype C] [DecidableEq C]
    [∀ c held, Decidable (P c held)] :
    ∀ (x : Local L C) (ops : List (Op L C)), Decidable (Guarded P x ops)
  | x, [] => decidable_of_iff (x.held = (fun _ => none) ∧ x.inside = none)
      Local.eq_idle_iff.symm
  | x, op :: ops =>
      have := decidableGuarded (x.after op) ops
      inferInstanceAs (Decidable ((∀ c, x.inside = some c → P c x.held) ∧
        x.Fits op ∧ Guarded P (x.after op) ops))

variable {P} {x : Local L C} {ops : List (Op L C)}

theorem Guarded.holds (h : Guarded P x ops) {c : C} (hc : x.inside = some c) :
    P c x.held := by
  cases ops with
  | nil =>
      obtain rfl : x = .idle := h
      cases hc
  | cons op ops => exact h.1 c hc

/-- A thread inside a call has yet to leave it. -/
theorem Guarded.leave_mem (h : Guarded P x ops) {c : C} (hc : x.inside = some c) :
    Op.leave c ∈ ops := by
  induction ops generalizing x with
  | nil =>
      obtain rfl : x = .idle := h
      cases hc
  | cons op ops ih =>
      obtain ⟨-, hfits, hrest⟩ := h
      cases op with
      | lock l m => exact List.mem_cons_of_mem _ (ih hrest hc)
      | unlock l => exact List.mem_cons_of_mem _ (ih hrest hc)
      | enter c' =>
          rw [show x.inside = none from hfits] at hc
          cases hc
      | leave c' =>
          rw [show x.inside = some c' from hfits] at hc
          rw [Option.some_inj.mp hc]
          exact List.mem_cons_self

end Guards

/-! ## Interleavings -/

/-- What each thread holds and is inside of, and what is left of its body. -/
structure State (T L C : Type*) where
  threads : T → Local L C
  code : T → List (Op L C)

/-- A thread begins a body, or takes the next step of the one it runs. -/
inductive Event (T L C : Type*)
  | start (t : T) (body : List (Op L C))
  | advance (t : T)

section Interleaving

variable {T L C : Type*}

/-- No thread has begun. -/
def State.init : State T L C where
  threads := fun _ => .idle
  code := fun _ => []

/-- The step can be taken: a lock is granted for reading when no thread holds it
for writing, and for writing when no thread holds it. -/
def State.Grants (s : State T L C) : Op L C → Prop
  | .lock l .rd => ∀ u, (s.threads u).held l ≠ some .wr
  | .lock l .wr => ∀ u, (s.threads u).held l = none
  | _ => True

instance [Fintype T] (s : State T L C) : ∀ op : Op L C, Decidable (s.Grants op)
  | .lock l .rd => inferInstanceAs (Decidable (∀ u, (s.threads u).held l ≠ some .wr))
  | .lock l .wr => inferInstanceAs (Decidable (∀ u, (s.threads u).held l = none))
  | .unlock _ => isTrue trivial
  | .enter _ => isTrue trivial
  | .leave _ => isTrue trivial

/-! ## What every interleaving keeps -/

/-- A lock held for writing is held by no other thread. -/
def State.Exclusive (s : State T L C) : Prop :=
  ∀ t u l, t ≠ u → (s.threads t).held l = some .wr → (s.threads u).held l = none

theorem exclusive_init : (State.init : State T L C).Exclusive := by
  intro t u l _ hwr
  cases hwr

section Kept

variable [DecidableEq L]

/-- A lock is held after a step only if it was before, or was just taken. -/
theorem held_after {x : Local L C} {op : Op L C} {l : L} {m : Mode}
    (h : (x.after op).held l = some m) : x.held l = some m ∨ op = .lock l m := by
  cases op with
  | lock l' m' =>
      change Function.update x.held l' (some m') l = some m at h
      by_cases hl : l = l'
      · subst hl
        rw [Function.update_self, Option.some_inj] at h
        exact Or.inr (by rw [h])
      · rw [Function.update_of_ne hl] at h
        exact Or.inl h
  | unlock l' =>
      change Function.update x.held l' none l = some m at h
      by_cases hl : l = l'
      · subst hl
        rw [Function.update_self] at h
        cases h
      · rw [Function.update_of_ne hl] at h
        exact Or.inl h
  | enter c => exact Or.inl h
  | leave c => exact Or.inl h

/-- Every thread has a guarded rest of a body. -/
def State.AllGuarded (P : T → C → (L → Option Mode) → Prop) (s : State T L C) :
    Prop :=
  ∀ t, Guarded (P t) (s.threads t) (s.code t)

variable {P : T → C → (L → Option Mode) → Prop} {s : State T L C} {t : T}

theorem allGuarded_init : (State.init : State T L C).AllGuarded P :=
  fun _ => rfl

/-- Between two bodies nothing is held. -/
theorem State.AllGuarded.held_eq_none (h : s.AllGuarded P) (hcode : s.code t = [])
    (l : L) : (s.threads t).held l = none := by
  have hidle := h t
  rw [hcode] at hidle
  rw [show s.threads t = .idle from hidle]
  rfl

end Kept

/-! ## One step -/

variable [DecidableEq T] [Fintype T] [DecidableEq L] [DecidableEq C]

/-- One step of an interleaving, where `bodies` lists the bodies of each
thread. -/
def step (bodies : T → List (List (Op L C))) (s : State T L C) :
    Event T L C → Option (State T L C)
  | .start t body =>
      if s.code t = [] ∧ body ∈ bodies t then
        some { s with code := Function.update s.code t body }
      else none
  | .advance t =>
      match s.code t with
      | [] => none
      | op :: rest =>
          if s.Grants op then
            some
              { threads := Function.update s.threads t ((s.threads t).after op)
                code := Function.update s.code t rest }
          else none

variable {bodies : T → List (List (Op L C))} {s s' : State T L C} {t : T}

theorem step_start_cases {body : List (Op L C)}
    (hstep : step bodies s (.start t body) = some s') :
    s.code t = [] ∧ body ∈ bodies t ∧
      s' = { s with code := Function.update s.code t body } := by
  rw [step] at hstep
  split at hstep
  next hfree => exact ⟨hfree.1, hfree.2, (Option.some_inj.mp hstep).symm⟩
  · cases hstep

theorem step_advance_cases (hstep : step bodies s (.advance t) = some s') :
    ∃ op rest, s.code t = op :: rest ∧ s.Grants op ∧
      s' =
        { threads := Function.update s.threads t ((s.threads t).after op)
          code := Function.update s.code t rest } := by
  rw [step] at hstep
  split at hstep
  · cases hstep
  next op rest hcode =>
    split at hstep
    next hgrants =>
      exact ⟨op, rest, hcode, hgrants, (Option.some_inj.mp hstep).symm⟩
    · cases hstep

theorem State.Exclusive.step (h : s.Exclusive) {e : Event T L C}
    (hstep : RwLock.step bodies s e = some s') : s'.Exclusive := by
  cases e with
  | start t body =>
      obtain ⟨-, -, rfl⟩ := step_start_cases hstep
      exact h
  | advance t =>
      obtain ⟨op, rest, -, hgrants, rfl⟩ := step_advance_cases hstep
      intro u v l huv hwr
      dsimp only at hwr ⊢
      by_cases hu : u = t
      · -- the thread that moved holds the lock for writing
        subst hu
        rw [Function.update_self] at hwr
        rw [Function.update_of_ne huv.symm]
        rcases held_after hwr with hbefore | rfl
        · exact h u v l huv hbefore
        · exact hgrants v
      · rw [Function.update_of_ne hu] at hwr
        by_cases hv : v = t
        · -- it does not take a lock another one holds for writing
          subst hv
          rw [Function.update_self]
          by_contra hheld
          obtain ⟨m, hm⟩ := Option.ne_none_iff_exists'.mp hheld
          rcases held_after hm with hbefore | rfl
          · rw [h u v l huv hwr] at hbefore
            cases hbefore
          · cases m with
            | rd => exact hgrants u hwr
            | wr =>
                rw [hgrants u] at hwr
                cases hwr
        · rw [Function.update_of_ne hv]
          exact h u v l huv hwr

section AllGuarded

variable {P : T → C → (L → Option Mode) → Prop}

/-- When all bodies are guarded, threads stay guarded in every interleaving. -/
theorem State.AllGuarded.step
    (hbodies : ∀ t, ∀ body ∈ bodies t, Guarded (P t) .idle body)
    (h : s.AllGuarded P) {e : Event T L C}
    (hstep : RwLock.step bodies s e = some s') : s'.AllGuarded P := by
  cases e with
  | start t body =>
      obtain ⟨hfree, hbody, rfl⟩ := step_start_cases hstep
      intro u
      by_cases hu : u = t
      · subst hu
        have hidle : s.threads u = .idle := by
          have hu := h u
          rwa [hfree] at hu
        dsimp only
        rw [Function.update_self, hidle]
        exact hbodies u body hbody
      · dsimp only
        rw [Function.update_of_ne hu]
        exact h u
  | advance t =>
      obtain ⟨op, rest, hcode, -, rfl⟩ := step_advance_cases hstep
      intro u
      by_cases hu : u = t
      · subst hu
        have hrest := h u
        rw [hcode] at hrest
        dsimp only
        rw [Function.update_self, Function.update_self]
        exact hrest.2.2
      · dsimp only
        rw [Function.update_of_ne hu, Function.update_of_ne hu]
        exact h u

end AllGuarded

end Interleaving

end RwLock
