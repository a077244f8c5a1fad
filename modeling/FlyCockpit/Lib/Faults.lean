-- SUMMARY: Programs over a store whose calls may fail, lose their answer or never return.
import FlyCockpit.Lib.Fallible

/-!
# Programs over a faulty store

A program works on a store through calls. For each call the environment decides whether it takes
effect and whether the program learns of it; a script lists these decisions, and the calls beyond
its end proceed. A program may also be stopped before a call, which no handler catches. `Triple`
bounds what a program does to the store under every script.
-/

namespace Faults

open Fallible

/-- What the environment does with one call. -/
inductive Answer
  /-- The call takes effect and answers. -/
  | proceed
  /-- The call is refused for now, without effect. -/
  | busy
  /-- The call fails without effect. -/
  | refuse
  /-- The call takes effect and reports an error. -/
  | lose
  /-- The program stops before the call. -/
  | stop
  deriving DecidableEq, Repr

/-- Why a program ends without a result. -/
inductive Abort (ε : Type) : Type
  | error (e : ε)
  | stopped
  deriving DecidableEq, Repr

structure World (σ : Type) where
  store : σ
  script : List Answer

abbrev Program (ε σ α : Type) := EStateM (Abort ε) (World σ) α

variable {ε σ α β : Type}

/-- The store as it is, without a call. -/
def view : Program ε σ σ := do
  return (← get).store

/-- A change of the store outside any call. -/
def update (f : σ → σ) : Program ε σ PUnit :=
  modify fun w => { w with store := f w.store }

/-- The next decision of the environment. -/
def answer : Program ε σ Answer := fun w =>
  match w.script with
  | [] => .ok .proceed w
  | a :: rest => .ok a { w with script := rest }

def fail (e : ε) : Program ε σ α := throw (.error e)

/-- A value or an error as a program. -/
def ofResult : Except ε α → Program ε σ α
  | .ok a => pure a
  | .error e => fail e

/-- The value of an option, or an error. -/
def okOr (o : Option α) (e : ε) : Program ε σ α := ofResult (o.elim (.error e) .ok)

/-- A result with the store it belongs to, or the error of a refused change. -/
def commit (a : Answer) (e : ε) (result : Except ε (α × σ)) : Program ε σ α :=
  match result with
  | .error e' => fail e'
  | .ok (b, s) => do
    update fun _ => s
    if a = .lose then fail e else return b

/-- A call that changes the store as `f` says; `e` reports a failure of the environment. -/
def call (e : ε) (f : σ → Except ε (α × σ)) : Program ε σ α := do
  let a ← answer
  let s ← view
  match a with
  | .stop => throw .stopped
  | .busy | .refuse => fail e
  | .proceed | .lose => commit a e (f s)

/-- A call that only reads. -/
def read (e : ε) (f : σ → α) : Program ε σ α :=
  call e fun s => .ok (f s, s)

/-- The outcome of a program as a value; a stop is not an outcome. -/
def attempt (x : Program ε σ α) : Program ε σ (Except ε α) := fun w =>
  match x.run w with
  | .ok a w' => .ok (.ok a) w'
  | .error (.error e) w' => .ok (.error e) w'
  | .error .stopped w' => .error .stopped w'

/-- A call whose errors are honest: where it would lose its answer it fails without effect. -/
def atomically (x : Program ε σ α) : Program ε σ α := fun w =>
  match w.script with
  | .lose :: rest => x ⟨w.store, .refuse :: rest⟩
  | _ => x w

/-! ## Single runs -/

/-- Under a script that starts with `script`, `x` uses just these decisions and returns. -/
def Runs (x : Program ε σ α) (s : σ) (script : List Answer) (a : α) (s' : σ) : Prop :=
  ∀ rest, x.run ⟨s, script ++ rest⟩ = .ok a ⟨s', rest⟩

section Runs

variable {x : Program ε σ α} {f : α → Program ε σ β} {s s' s'' : σ} {l l' : List Answer} {a : α}
  {b : β} {e : Abort ε}

theorem Runs.pure (a : α) (s : σ) : Runs (pure a : Program ε σ α) s [] a s := by
  intro rest
  rfl

theorem Runs.bind (hx : Runs x s l a s') (hf : Runs (f a) s' l' b s'') :
    Runs (x >>= f) s (l ++ l') b s'' := by
  intro rest
  rw [EStateM.run_bind, List.append_assoc, hx]
  exact hf rest

theorem Runs.call {e : ε} {f : σ → Except ε (α × σ)} (h : f s = .ok (a, s')) :
    Runs (call e f) s [.proceed] a s' := by
  intro rest
  have hcommit : (Faults.call e f).run ⟨s, .proceed :: rest⟩ =
      (commit .proceed e (f s)).run ⟨s, rest⟩ := rfl
  rw [List.singleton_append, hcommit, h]
  rfl

theorem Runs.read (e : ε) (f : σ → α) (s : σ) : Runs (read e f) s [.proceed] (f s) s :=
  Runs.call rfl

theorem Runs.view_bind {f : σ → Program ε σ β} (h : Runs (f s) s l b s') : Runs (view >>= f) s l b s' :=
  h

theorem Runs.ite {c : Prop} [Decidable c] {y : Program ε σ α} (hx : c → Runs x s l a s')
    (hy : ¬c → Runs y s l a s') : Runs (if c then x else y) s l a s' := by
  split
  · exact hx ‹_›
  · exact hy ‹_›

theorem Runs.attempt (hx : Runs x s l a s') : Runs (attempt x) s l (.ok a) s' := by
  intro rest
  have hrun := hx rest
  simp only [Faults.attempt, EStateM.run] at hrun ⊢
  rw [hrun]

end Runs

/-! ## Outcomes -/

/-- How a run ends: with a value, an error, or a stop. -/
abbrev Outcome (ε α : Type) := Except (Abort ε) α

/-- The outcome of a run and the store it leaves. -/
def outcome (x : Program ε σ α) (s : σ) (script : List Answer) : Outcome ε α × σ :=
  match x.run ⟨s, script⟩ with
  | .ok a w => (.ok a, w.store)
  | .error e w => (.error e, w.store)

/-- Under every script, the outcome of `x` from `s` and the store it leaves meet `Q`. -/
def Ensures (x : Program ε σ α) (s : σ) (Q : Outcome ε α → σ → Prop) : Prop :=
  ∀ script, Q (outcome x s script).1 (outcome x s script).2

section Ensures

variable {x : Program ε σ α} {f : α → Program ε σ β} {s : σ} {Q : Outcome ε β → σ → Prop}
  {R : Outcome ε α → σ → Prop}

theorem outcome_of_run_ok {script : List Answer} {a : α} {w : World σ}
    (h : x.run ⟨s, script⟩ = .ok a w) : outcome x s script = (.ok a, w.store) := by
  rw [outcome, h]

theorem outcome_of_run_error {script : List Answer} {e : Abort ε} {w : World σ}
    (h : x.run ⟨s, script⟩ = .error e w) : outcome x s script = (.error e, w.store) := by
  rw [outcome, h]

/-- A run step by step: first `x`, and behind it `f` if `x` returned. -/
theorem Ensures.bind (hx : Ensures x s R) (hok : ∀ a s', R (.ok a) s' → Ensures (f a) s' Q)
    (herror : ∀ e s', R (.error e) s' → Q (.error e) s') : Ensures (x >>= f) s Q := by
  intro script
  have hx := hx script
  cases hrun : x.run ⟨s, script⟩ with
  | ok a w =>
    obtain ⟨s', rest⟩ := w
    rw [outcome_of_run_ok hrun] at hx
    have hf : outcome (x >>= f) s script = outcome (f a) s' rest := by
      rw [outcome, EStateM.run_bind, hrun]
      rfl
    rw [hf]
    exact hok a s' hx rest
  | error e w =>
    rw [outcome_of_run_error hrun] at hx
    have hf : outcome (x >>= f) s script = (.error e, w.store) := by
      rw [outcome, EStateM.run_bind, hrun]
    rw [hf]
    exact herror e w.store hx

theorem Ensures.conseq {Q' : Outcome ε α → σ → Prop} (hx : Ensures x s R)
    (h : ∀ r s', R r s' → Q' r s') : Ensures x s Q' :=
  fun script => h _ _ (hx script)

theorem Ensures.pure {a : α} (h : R (.ok a) s) : Ensures (pure a : Program ε σ α) s R :=
  fun _ => h

theorem Ensures.fail {e : ε} (h : R (.error (.error e)) s) : Ensures (fail e : Program ε σ α) s R :=
  fun _ => h

/-- A call that may take effect and report an error. -/
theorem Ensures.call {e : ε} {g : σ → Except ε (α × σ)}
    (hok : ∀ a s', g s = .ok (a, s') → R (.ok a) s' ∧ R (.error (.error e)) s')
    (herror : ∀ e', g s = .error e' → R (.error (.error e')) s)
    (hrefused : R (.error (.error e)) s) (hstopped : R (.error .stopped) s) :
    Ensures (call e g) s R := by
  intro script
  have hproceed : ∀ rest, R (outcome (commit .proceed e (g s)) s rest).1
      (outcome (commit .proceed e (g s)) s rest).2 := by
    intro rest
    cases hg : g s with
    | error e' => exact herror e' hg
    | ok r => exact (hok r.1 r.2 hg).1
  have hlose : ∀ rest, R (outcome (commit .lose e (g s)) s rest).1
      (outcome (commit .lose e (g s)) s rest).2 := by
    intro rest
    cases hg : g s with
    | error e' => exact herror e' hg
    | ok r => exact (hok r.1 r.2 hg).2
  cases script with
  | nil => exact hproceed []
  | cons a rest =>
    cases a with
    | stop => exact hstopped
    | busy => exact hrefused
    | refuse => exact hrefused
    | proceed => exact hproceed rest
    | lose => exact hlose rest

theorem Ensures.read {e : ε} {g : σ → α} (hok : R (.ok (g s)) s) (herror : R (.error (.error e)) s)
    (hstopped : R (.error .stopped) s) : Ensures (read e g) s R := by
  refine .call (fun a s' h => ?_) (fun e' h => ?_) herror hstopped
  · cases h
    exact ⟨hok, herror⟩
  · cases h

theorem Ensures.ite {c : Prop} [Decidable c] {y : Program ε σ α} (hx : c → Ensures x s R)
    (hy : ¬c → Ensures y s R) : Ensures (if c then x else y) s R := by
  split
  · exact hx ‹_›
  · exact hy ‹_›

theorem Ensures.view_bind {f : σ → Program ε σ β} (h : Ensures (f s) s Q) : Ensures (view >>= f) s Q :=
  h

theorem Ensures.fail_bind {e : ε} (h : Q (.error (.error e)) s) : Ensures (Faults.fail e >>= f) s Q :=
  fun _ => h

theorem Ensures.atomically (hx : Ensures x s R) : Ensures (atomically x) s R := by
  intro script
  cases script with
  | nil => exact hx []
  | cons answer rest =>
    cases answer with
    | lose => exact hx (.refuse :: rest)
    | proceed => exact hx (.proceed :: rest)
    | busy => exact hx (.busy :: rest)
    | refuse => exact hx (.refuse :: rest)
    | stop => exact hx (.stop :: rest)

/-- The outcome with its error caught. -/
def Outcome.caught : Outcome ε α → Outcome ε (Except ε α)
  | .ok a => .ok (.ok a)
  | .error (.error e) => .ok (.error e)
  | .error .stopped => .error .stopped

theorem outcome_attempt (x : Program ε σ α) (s : σ) (script : List Answer) :
    outcome (attempt x) s script = ((outcome x s script).1.caught, (outcome x s script).2) := by
  simp only [outcome, EStateM.run, attempt]
  cases x ⟨s, script⟩ with
  | ok a w => rfl
  | error e w => cases e <;> rfl

theorem Ensures.attempt {R : Outcome ε (Except ε α) → σ → Prop}
    (hx : Ensures x s fun r s' => R r.caught s') : Ensures (attempt x) s R := by
  intro script
  rw [outcome_attempt]
  exact hx script

end Ensures

/-! ## Returning runs -/

/-- Whenever `x` from `s` returns, its value and the store it leaves meet `Q`. -/
def Returns (x : Program ε σ α) (s : σ) (Q : α → σ → Prop) : Prop :=
  Ensures x s fun r s' => ∀ a, r = .ok a → Q a s'

section Returns

variable {x : Program ε σ α} {f : α → Program ε σ β} {s : σ} {Q : β → σ → Prop} {R : α → σ → Prop}

theorem Returns.of_outcome (h : Returns x s R) {script : List Answer} {a : α} {s' : σ}
    (hrun : outcome x s script = (.ok a, s')) : R a s' := by
  have hR := h script a (by rw [hrun])
  rwa [hrun] at hR

theorem Returns.bind (hx : Returns x s R) (hf : ∀ a s', R a s' → Returns (f a) s' Q) :
    Returns (x >>= f) s Q := by
  refine Ensures.bind hx (fun a s' h => hf a s' (h a rfl)) ?_
  intro e s' _ a h
  cases h

theorem Returns.conseq {R' : α → σ → Prop} (hx : Returns x s R) (h : ∀ a s', R a s' → R' a s') :
    Returns x s R' :=
  Ensures.conseq hx fun _ s' hR a ha => h a s' (hR a ha)

theorem Returns.pure {a : α} (h : R a s) : Returns (pure a : Program ε σ α) s R :=
  Ensures.pure fun _ ha => Except.ok.inj ha ▸ h

theorem Returns.fail {e : ε} : Returns (fail e : Program ε σ α) s R := by
  refine Ensures.fail fun a h => ?_
  cases h

theorem Returns.fail_bind {e : ε} : Returns (Faults.fail e >>= f) s Q :=
  Returns.bind (R := fun _ _ => False) Returns.fail fun _ _ h => h.elim

theorem Returns.view_bind {f : σ → Program ε σ β} (h : Returns (f s) s Q) :
    Returns (view >>= f) s Q :=
  h

theorem Returns.call {e : ε} {g : σ → Except ε (α × σ)} (h : ∀ a s', g s = .ok (a, s') → R a s') :
    Returns (call e g) s R := by
  refine Ensures.call (fun a s' hg => ⟨fun b hb => ?_, fun b hb => ?_⟩) (fun e' _ b hb => ?_)
    (fun b hb => ?_) (fun b hb => ?_) <;> cases hb
  exact h a s' hg

/-- A call leaves the store alone or as it does when it returns. -/
theorem Ensures.of_returns_call {e : ε} {g : σ → Except ε (α × σ)} {P : σ → Prop} (hs : P s)
    (h : Returns (Faults.call e g) s fun _ s' => P s') : Ensures (Faults.call e g) s fun _ s' => P s' := by
  refine Ensures.call (fun a s' hg => ?_) (fun _ _ => hs) hs hs
  have hrun := Runs.call (e := e) hg []
  have hP := h.of_outcome (outcome_of_run_ok hrun)
  exact ⟨hP, hP⟩

theorem Returns.read {e : ε} {g : σ → α} (h : R (g s) s) : Returns (read e g) s R := by
  refine Returns.call fun a s' hg => ?_
  cases hg
  exact h

/-- A failed read may be taken for a value. -/
theorem Returns.attempt_read {e : ε} {g : σ → α} {R : Except ε α → σ → Prop}
    (hok : R (.ok (g s)) s) (herror : R (.error e) s) :
    Returns (Faults.attempt (Faults.read e g)) s R := by
  refine Ensures.attempt (Ensures.read ?_ ?_ ?_) <;> intro a ha <;> cases ha
  · exact hok
  · exact herror

theorem Returns.ite {c : Prop} [Decidable c] {y : Program ε σ α} (hx : c → Returns x s R)
    (hy : ¬c → Returns y s R) : Returns (if c then x else y) s R :=
  Ensures.ite hx hy

end Returns

/-! ## Reading runs -/

/-- If every call proceeds, `x` returns `a` and leaves the store alone. -/
def Reads (x : Program ε σ α) (s : σ) (a : α) : Prop := x.run ⟨s, []⟩ = .ok a ⟨s, []⟩

section Reads

variable {x : Program ε σ α} {f : α → Program ε σ β} {s : σ} {a : α} {b : β}

theorem Reads.outcome (h : Reads x s a) : outcome x s [] = (.ok a, s) :=
  outcome_of_run_ok h

theorem Reads.pure (a : α) (s : σ) : Reads (pure a : Program ε σ α) s a :=
  rfl

theorem Reads.bind (hx : Reads x s a) (hf : Reads (f a) s b) : Reads (x >>= f) s b := by
  rw [Reads, EStateM.run_bind, hx]
  exact hf

theorem Reads.view_bind {f : σ → Program ε σ β} (h : Reads (f s) s b) : Reads (view >>= f) s b :=
  h

theorem Reads.read (e : ε) (f : σ → α) (s : σ) : Reads (read e f) s (f s) :=
  rfl

theorem Reads.attempt (hx : Reads x s a) : Reads (attempt x) s (.ok a) := by
  have hrun : x ⟨s, []⟩ = .ok a ⟨s, []⟩ := hx
  simp only [Reads, Faults.attempt, EStateM.run, hrun]

end Reads

/-! ## Runs that only look -/

/-- The decision on the call after the next `n`. -/
def answerAt (script : List Answer) (n : Nat) : Answer := script.getD n .proceed

/-- The next `n` calls proceed. -/
def Proceeds (n : Nat) (script : List Answer) : Prop := ∀ i < n, answerAt script i = .proceed

/-- If its `n` calls proceed and the condition holds, `x` returns `a`; in all other cases it ends
    without a result. It leaves the store alone. -/
def Looks (x : Program ε σ α) (s : σ) (n : Nat) (condition : Prop) (a : α) : Prop :=
  ∀ script, (Proceeds n script ∧ condition → x.run ⟨s, script⟩ = .ok a ⟨s, script.drop n⟩) ∧
    (¬(Proceeds n script ∧ condition) → ∃ e rest, x.run ⟨s, script⟩ = .error e ⟨s, rest⟩)

/-- Whatever happens, `x` ends without a result and leaves the store alone. -/
def Refuses (x : Program ε σ α) (s : σ) : Prop :=
  ∀ script, ∃ e rest, x.run ⟨s, script⟩ = .error e ⟨s, rest⟩

section Looks

variable {x : Program ε σ α} {f : α → Program ε σ β} {s : σ} {n k : Nat} {p q : Prop} {a : α} {b : β}

theorem answerAt_drop (script : List Answer) (n i : Nat) :
    answerAt (script.drop n) i = answerAt script (n + i) := by
  simp only [answerAt, List.getD_eq_getElem?_getD, List.getElem?_drop]

theorem proceeds_add {script : List Answer} :
    Proceeds (n + k) script ↔ Proceeds n script ∧ Proceeds k (script.drop n) := by
  constructor
  · intro h
    refine ⟨fun i hi => h i (by omega), fun i hi => ?_⟩
    rw [answerAt_drop]
    exact h (n + i) (by omega)
  · rintro ⟨hn, hk⟩ i hi
    by_cases hlt : i < n
    · exact hn i hlt
    · have hi' := hk (i - n) (by omega)
      rwa [answerAt_drop, Nat.add_sub_cancel' (by omega)] at hi'

theorem Looks.read (e : ε) (g : σ → α) (s : σ) : Looks (read e g) s 1 True (g s) := by
  intro script
  cases script with
  | nil =>
    refine ⟨fun _ => rfl, fun h => absurd ⟨fun i hi => ?_, trivial⟩ h⟩
    obtain rfl : i = 0 := by omega
    rfl
  | cons answer rest =>
    have hproceeds : Proceeds 1 (answer :: rest) ↔ answer = .proceed := by
      refine ⟨fun h => h 0 Nat.one_pos, fun h i hi => ?_⟩
      obtain rfl : i = 0 := by omega
      exact h
    rw [hproceeds]
    cases answer with
    | proceed => exact ⟨fun _ => rfl, fun h => absurd ⟨rfl, trivial⟩ h⟩
    | busy => exact ⟨fun h => (Answer.noConfusion h.1), fun _ => ⟨_, rest, rfl⟩⟩
    | refuse => exact ⟨fun h => (Answer.noConfusion h.1), fun _ => ⟨_, rest, rfl⟩⟩
    | lose => exact ⟨fun h => (Answer.noConfusion h.1), fun _ => ⟨_, rest, rfl⟩⟩
    | stop => exact ⟨fun h => (Answer.noConfusion h.1), fun _ => ⟨_, rest, rfl⟩⟩

theorem Looks.bind {l : Nat} {r : Prop} (hx : Looks x s n p a) (hf : Looks (f a) s k q b)
    (hl : n + k = l) (hr : p ∧ q ↔ r) : Looks (x >>= f) s l r b := by
  subst hl
  intro script
  rw [EStateM.run_bind, ← hr]
  by_cases hfirst : Proceeds n script ∧ p
  · rw [(hx script).1 hfirst]
    have hiff : Proceeds (n + k) script ∧ p ∧ q ↔ Proceeds k (script.drop n) ∧ q := by
      rw [proceeds_add]
      tauto
    rw [hiff, ← List.drop_drop]
    exact hf (script.drop n)
  · obtain ⟨e, rest, hrun⟩ := (hx script).2 hfirst
    rw [hrun]
    refine ⟨fun h => absurd ⟨(proceeds_add.1 h.1).1, h.2.1⟩ hfirst, fun _ => ⟨e, rest, rfl⟩⟩

/-- A program that fails at once, whatever would follow. -/
theorem Looks.fail_bind {e : ε} {f : β → Program ε σ α} (h : ¬p) : Looks (Faults.fail e >>= f) s n p a :=
  fun script => ⟨fun hp => absurd hp.2 h, fun _ => ⟨.error e, script, rfl⟩⟩

theorem Looks.fail {e : ε} (h : ¬p) : Looks (fail e : Program ε σ α) s n p a :=
  fun script => ⟨fun hp => absurd hp.2 h, fun _ => ⟨.error e, script, rfl⟩⟩

theorem Looks.pure (h : p) : Looks (pure a : Program ε σ α) s 0 p a := by
  refine fun script => ⟨fun _ => rfl, fun hnot => absurd ⟨fun i hi => ?_, h⟩ hnot⟩
  omega

theorem Looks.view_bind {f : σ → Program ε σ β} (h : Looks (f s) s n p b) : Looks (view >>= f) s n p b :=
  h

theorem Looks.check {r : Except ε Unit} : Looks (ofResult r) s 0 (r = .ok ()) () := by
  cases r with
  | ok u => exact Looks.pure rfl
  | error e => exact Looks.fail fun h => by cases h

theorem Looks.ite {c : Prop} [Decidable c] {y : Program ε σ α} (hx : c → Looks x s n p a)
    (hy : ¬c → Looks y s n p a) : Looks (if c then x else y) s n p a := by
  split
  · exact hx ‹_›
  · exact hy ‹_›

theorem Looks.bind_refuses (hx : Looks x s n p a) (hf : Refuses (f a) s) : Refuses (x >>= f) s := by
  intro script
  rw [EStateM.run_bind]
  by_cases h : Proceeds n script ∧ p
  · rw [(hx script).1 h]
    exact hf (script.drop n)
  · obtain ⟨e, rest, hrun⟩ := (hx script).2 h
    rw [hrun]
    exact ⟨e, rest, rfl⟩

theorem Refuses.bind (hx : Refuses x s) (f : α → Program ε σ β) : Refuses (x >>= f) s := by
  intro script
  obtain ⟨e, rest, hrun⟩ := hx script
  exact ⟨e, rest, by rw [EStateM.run_bind, hrun]⟩

theorem Refuses.fail (e : ε) (s : σ) : Refuses (fail e : Program ε σ α) s :=
  fun script => ⟨.error e, script, rfl⟩

theorem Refuses.outcome (h : Refuses x s) (script : List Answer) : ∃ e, outcome x s script = (.error e, s) := by
  obtain ⟨e, rest, hrun⟩ := h script
  exact ⟨e, outcome_of_run_error hrun⟩

theorem Looks.refuses (hx : Looks x s n p a) (hp : ¬p) : Refuses x s :=
  fun script => (hx script).2 fun h => hp h.2

/-- A run of a program that only looks goes on or ends there. -/
theorem Looks.outcome_bind (hx : Looks x s n p a) (script : List Answer) :
    (Proceeds n script ∧ p ∧ outcome (x >>= f) s script = outcome (f a) s (script.drop n)) ∨
      (¬(Proceeds n script ∧ p) ∧ ∃ e, outcome (x >>= f) s script = (.error e, s)) := by
  by_cases h : Proceeds n script ∧ p
  · refine .inl ⟨h.1, h.2, ?_⟩
    rw [outcome, EStateM.run_bind, (hx script).1 h]
    rfl
  · obtain ⟨e, rest, hrun⟩ := (hx script).2 h
    refine .inr ⟨h, e, ?_⟩
    rw [outcome, EStateM.run_bind, hrun]

theorem Looks.read_bind {e : ε} {g : σ → α} {l : Nat} (h : Looks (f (g s)) s k q b) (hl : 1 + k = l) :
    Looks (Faults.read e g >>= f) s l q b :=
  (Looks.read e g s).bind h hl (iff_of_eq (true_and q))

end Looks

/-! ## Single calls -/

/-- How a call ends under a decision of the environment. -/
def settle (answer : Answer) (e : ε) (s : σ) (result : Except ε (α × σ)) : Outcome ε α × σ :=
  match answer, result with
  | .stop, _ => (.error .stopped, s)
  | .busy, _ | .refuse, _ => (.error (.error e), s)
  | _, .error e' => (.error (.error e'), s)
  | .lose, .ok (_, s') => (.error (.error e), s')
  | .proceed, .ok (a, s') => (.ok a, s')

/-- An outcome with the decisions that are left. -/
def resume (r : Outcome ε α × σ) (rest : List Answer) : EStateM.Result (Abort ε) (World σ) α :=
  match r.1 with
  | .ok a => .ok a ⟨r.2, rest⟩
  | .error e => .error e ⟨r.2, rest⟩

section Calls

variable {f : α → Program ε σ β} {e : ε} {g : σ → Except ε (α × σ)} {s s' : σ} {a : α}
  {script : List Answer}

theorem run_call :
    (call e g).run ⟨s, script⟩ = resume (settle (answerAt script 0) e s (g s)) (script.drop 1) := by
  have hproceed : ∀ rest, (commit .proceed e (g s)).run ⟨s, rest⟩ =
      resume (settle .proceed e s (g s)) rest := by
    intro rest
    cases g s <;> rfl
  have hlose : ∀ rest, (commit .lose e (g s)).run ⟨s, rest⟩ = resume (settle .lose e s (g s)) rest := by
    intro rest
    cases g s <;> rfl
  cases script with
  | nil => exact hproceed []
  | cons answer rest =>
    cases answer with
    | proceed => exact hproceed rest
    | lose => exact hlose rest
    | stop => rfl
    | busy => rfl
    | refuse => rfl

variable {answer : Answer} {r : Except ε (α × σ)}

theorem outcome_call_bind_of_ok (hanswer : answerAt script 0 = answer) (hg : g s = r)
    (h : settle answer e s r = (.ok a, s')) :
    outcome (call e g >>= f) s script = outcome (f a) s' (script.drop 1) := by
  rw [outcome, EStateM.run_bind, run_call, hanswer, hg, h]
  rfl

theorem outcome_call_bind_of_error {err : Abort ε} (hanswer : answerAt script 0 = answer) (hg : g s = r)
    (h : settle answer e s r = (.error err, s')) : outcome (call e g >>= f) s script = (.error err, s') := by
  rw [outcome, EStateM.run_bind, run_call, hanswer, hg, h]
  rfl

/-- A call that the store itself rejects has no effect. -/
theorem store_of_rejected {o : Outcome ε β} {e' : ε} (h : outcome (call e g >>= f) s script = (o, s'))
    (hg : g s = .error e') : s' = s := by
  have hsettle : ∃ err, settle (answerAt script 0) e s (.error e' : Except ε (α × σ)) = (.error err, s) := by
    cases answerAt script 0 <;> exact ⟨_, rfl⟩
  obtain ⟨err, herr⟩ := hsettle
  rw [outcome_call_bind_of_error rfl hg herr] at h
  cases h
  rfl

/-- Where the outcome of a call is ignored, only a stop ends the run. -/
theorem outcome_attempt_call_bind {y : Program ε σ β} :
    outcome (attempt (call e g) >>= fun _ => y) s script =
      if answerAt script 0 = .stop then (.error .stopped, s)
      else outcome y (settle (answerAt script 0) e s (g s)).2 (script.drop 1) := by
  have hattempt : (attempt (call e g)).run ⟨s, script⟩ = resume
      ((settle (answerAt script 0) e s (g s)).1.caught, (settle (answerAt script 0) e s (g s)).2)
      (script.drop 1) := by
    have hrun : (call e g) ⟨s, script⟩ = _ := run_call
    simp only [attempt, EStateM.run, hrun]
    obtain ⟨r, s'⟩ := settle (answerAt script 0) e s (g s)
    cases r with
    | ok a => rfl
    | error err => cases err <;> rfl
  rw [outcome, EStateM.run_bind, hattempt]
  cases answerAt script 0 <;> cases g s <;> rfl

/-- The decision as an honest call takes it. -/
def Answer.honest (answer : Answer) : Answer := if answer = .lose then .refuse else answer

theorem outcome_atomically_call_bind : outcome (atomically (call e g) >>= f) s script =
      outcome (call e g >>= f) s ((answerAt script 0).honest :: script.drop 1) := by
  rw [outcome, outcome, EStateM.run_bind, EStateM.run_bind]
  cases script with
  | nil => rfl
  | cons answer rest => cases answer <;> rfl

/-- Where it does not proceed, an atomic call has no effect. -/
theorem store_of_held_back {o : Outcome ε β} {rest : List Answer}
    (h : outcome (call e g >>= f) s (answer.honest :: rest) = (o, s')) (hanswer : answer ≠ .proceed) : s' = s := by
  have hsettle : ∃ err, settle (answerAt (answer.honest :: rest) 0) e s (g s) = (.error err, s) := by
    cases answer with
    | proceed => exact absurd rfl hanswer
    | stop | busy | refuse | lose => exact ⟨_, rfl⟩
  obtain ⟨err, herr⟩ := hsettle
  rw [outcome_call_bind_of_error rfl rfl herr] at h
  cases h
  rfl

end Calls

/-! ## Failing runs -/

/-- Under some script, `x` from `s` fails with an error and leaves `s'`. -/
def Fails (x : Program ε σ α) (s s' : σ) : Prop :=
  ∃ script e, outcome x s script = (.error (.error e), s')

section Fails

variable {x : Program ε σ α} {f : α → Program ε σ β} {s s' : σ}

theorem Fails.fail {e : ε} : Fails (fail e : Program ε σ α) s s :=
  ⟨[], e, rfl⟩

theorem Fails.fail_bind {e : ε} : Fails (Faults.fail e >>= f) s s :=
  ⟨[], e, rfl⟩

/-- A call can be refused. -/
theorem Fails.call {e : ε} {g : σ → Except ε (α × σ)} : Fails (call e g) s s :=
  ⟨[.refuse], e, rfl⟩

theorem Fails.view_bind {f : σ → Program ε σ β} (h : Fails (f s) s s') : Fails (view >>= f) s s' :=
  h

theorem Fails.ite {c : Prop} [Decidable c] {y : Program ε σ α} (hx : c → Fails x s s')
    (hy : ¬c → Fails y s s') : Fails (if c then x else y) s s' := by
  split
  · exact hx ‹_›
  · exact hy ‹_›

theorem Runs.bind_fails {l : List Answer} {a : α} {s'' : σ} (hx : Runs x s l a s')
    (hf : Fails (f a) s' s'') : Fails (x >>= f) s s'' := by
  obtain ⟨script, e, hf⟩ := hf
  refine ⟨l ++ script, e, ?_⟩
  rw [← hf, outcome, EStateM.run_bind, hx script]
  rfl

end Fails

end Faults
