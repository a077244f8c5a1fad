-- SUMMARY: Labelled transition systems: reachability, inductive invariants and histories.
import Mathlib.Data.List.Basic

/-!
# Labelled transition systems

A system has initial states and labelled steps. `Reachable` collects the states some run visits;
`ReachableBy Ok` only those visited by runs whose every step meets the condition `Ok` in the state
where it is taken. `History` keeps the whole run, which is what an exact condition on runs is
about.
-/

universe u v

structure Lts (σ : Type u) (ℓ : Type v) where
  init : σ → Prop
  step : σ → ℓ → σ → Prop

namespace Lts

variable {σ : Type u} {ℓ : Type v} {S : Lts σ ℓ}

/-- States visited by runs all of whose steps meet `Ok`. -/
inductive ReachableBy (S : Lts σ ℓ) (Ok : σ → ℓ → Prop) : σ → Prop
  | init {s : σ} : S.init s → ReachableBy S Ok s
  | step {s t : σ} {a : ℓ} : ReachableBy S Ok s → Ok s a → S.step s a t → ReachableBy S Ok t

/-- States visited by any run. -/
def Reachable (S : Lts σ ℓ) : σ → Prop :=
  S.ReachableBy fun _ _ => True

theorem ReachableBy.invariant {Ok : σ → ℓ → Prop} {I : σ → Prop} (hinit : ∀ s, S.init s → I s)
    (hstep : ∀ s a t, I s → Ok s a → S.step s a t → I t)
    {s : σ} (h : S.ReachableBy Ok s) : I s := by
  induction h with
  | init h0 => exact hinit _ h0
  | step _ hok hs ih => exact hstep _ _ _ ih hok hs

theorem Reachable.invariant {I : σ → Prop} (hinit : ∀ s, S.init s → I s)
    (hstep : ∀ s a t, I s → S.step s a t → I t) {s : σ} (h : S.Reachable s) : I s :=
  ReachableBy.invariant hinit (fun s a t hi _ hs => hstep s a t hi hs) h

theorem Reachable.step {s t : σ} {a : ℓ} (h : S.Reachable s) (hs : S.step s a t) : S.Reachable t :=
  ReachableBy.step h trivial hs

/-! ## Histories -/

/-- `S.History s past`: a run that ends in `s`; `past` lists its steps, the last one first, each
    with the state it was taken in. -/
inductive History (S : Lts σ ℓ) : σ → List (σ × ℓ) → Prop
  | init {s : σ} : S.init s → History S s []
  | step {s t : σ} {a : ℓ} {past : List (σ × ℓ)} :
      History S s past → S.step s a t → History S t ((s, a) :: past)

theorem History.reachable {s : σ} {past : List (σ × ℓ)} (h : S.History s past) : S.Reachable s := by
  induction h with
  | init h0 => exact .init h0
  | step _ hs ih => exact ih.step hs

/-- The run up to one of its steps. -/
theorem History.exists_of_mem {s : σ} {past : List (σ × ℓ)} (h : S.History s past) :
    ∀ e ∈ past, ∃ before, S.History e.1 before ∧ before ⊆ past := by
  induction h with
  | init => exact fun _ he => absurd he List.not_mem_nil
  | step hh _ ih =>
    refine List.forall_mem_cons.2 ⟨⟨_, hh, List.subset_cons_self _ _⟩, fun e he => ?_⟩
    obtain ⟨before, hbefore, hsub⟩ := ih e he
    exact ⟨before, hbefore, List.subset_cons_of_subset _ hsub⟩

/-- If, under an invariant, a step keeps `P` exactly when it meets `Ok`, then `P` holds all along
    a run exactly when all of the run's steps meet `Ok`. -/
theorem History.forall_states_iff {I P : σ → Prop} {Ok : σ → ℓ → Prop}
    (hI : ∀ s, S.Reachable s → I s) (hinit : ∀ s, S.init s → P s)
    (hstep : ∀ s a t, I s → P s → S.step s a t → (P t ↔ Ok s a))
    {s : σ} {past : List (σ × ℓ)} (h : S.History s past) :
    (P s ∧ ∀ e ∈ past, P e.1) ↔ ∀ e ∈ past, Ok e.1 e.2 := by
  induction h with
  | init h0 => simp [hinit _ h0]
  | @step s t a past hh hs ih =>
    simp only [List.forall_mem_cons]
    constructor
    · rintro ⟨ht, hp, hpast⟩
      exact ⟨(hstep s a t (hI s hh.reachable) hp hs).1 ht, ih.1 ⟨hp, hpast⟩⟩
    · rintro ⟨hok, hpast⟩
      obtain ⟨hp, hpast'⟩ := ih.2 hpast
      exact ⟨(hstep s a t (hI s hh.reachable) hp hs).2 hok, hp, hpast'⟩

/-! ## History variables

A value that follows the steps of a run and does not change them. -/

section Tracked

variable {γ : Type*}

def tracked (S : Lts σ ℓ) (start : γ) (track : σ → ℓ → γ → γ) : Lts (σ × γ) ℓ where
  init x := S.init x.1 ∧ x.2 = start
  step x a y := S.step x.1 a y.1 ∧ y.2 = track x.1 a x.2

/-- The value at the end of a run. -/
def trackedValue (start : γ) (track : σ → ℓ → γ → γ) : List (σ × ℓ) → γ
  | [] => start
  | e :: past => track e.1 e.2 (trackedValue start track past)

/-- The steps of a run, with the value before each of them. -/
def trackedPast (start : γ) (track : σ → ℓ → γ → γ) : List (σ × ℓ) → List ((σ × γ) × ℓ)
  | [] => []
  | e :: past => ((e.1, trackedValue start track past), e.2) :: trackedPast start track past

/-- Every run can be tracked. -/
theorem History.tracked (start : γ) (track : σ → ℓ → γ → γ) {s : σ} {past : List (σ × ℓ)}
    (h : S.History s past) :
    (S.tracked start track).History (s, trackedValue start track past)
      (trackedPast start track past) := by
  induction h with
  | init h0 => exact .init ⟨h0, rfl⟩
  | step _ hs ih => exact ih.step ⟨hs, rfl⟩

end Tracked

/-! ## Step functions

A system whose steps are the values of a partial function can be run on a list of calls. -/

section Calls

variable {call : σ → ℓ → Option σ} {init : σ → Prop} {s t : σ} {calls : List ℓ}

def ofCall (init : σ → Prop) (call : σ → ℓ → Option σ) : Lts σ ℓ where
  init
  step s a t := call s a = some t

/-- The state after some calls, if all of them are possible. -/
def replay (call : σ → ℓ → Option σ) : σ → List ℓ → Option σ
  | s, [] => some s
  | s, a :: calls => (call s a).bind fun t => replay call t calls

theorem replay_cons {a : ℓ} : replay call s (a :: calls) = some t ↔
    ∃ u, call s a = some u ∧ replay call u calls = some t := by
  rw [replay, Option.bind_eq_some_iff]

/-- What every possible call preserves, every run preserves. -/
theorem replay_invariant {I : σ → Prop} {Ok : ℓ → Prop}
    (hcall : ∀ s a t, I s → Ok a → call s a = some t → I t) (hs : I s) (hok : ∀ a ∈ calls, Ok a)
    (h : replay call s calls = some t) : I t := by
  induction calls generalizing s with
  | nil =>
    cases h
    exact hs
  | cons a calls ih =>
    obtain ⟨u, hu, hrest⟩ := replay_cons.1 h
    obtain ⟨ha, hcalls⟩ := List.forall_mem_cons.1 hok
    exact ih (hcall s a u hs ha hu) hcalls hrest

theorem Reachable.replay (hs : (ofCall init call).Reachable s)
    (h : replay call s calls = some t) : (ofCall init call).Reachable t :=
  replay_invariant (fun _ _ _ hreach _ hstep => hreach.step hstep) hs (fun _ _ => trivial) h

end Calls

end Lts
