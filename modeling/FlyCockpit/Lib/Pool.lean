-- SUMMARY: Tasks interleaved over a shared state, and an invariant rule by ownership.
import FlyCockpit.Lib.Transition

/-!
# Interleaved tasks

Tasks in flight take atomic steps on a shared state in any order. A step replaces a task by what
is left of it and what it spawned. The ownership rule proves facts about things (`κ`) that steps
change: a task may own a thing for a while, then it alone answers for it, and a thing that nobody
owns is good.
-/

/-- Tasks in flight over a shared state. -/
structure Pool (σ τ : Type) where
  shared : σ
  tasks : List τ

namespace Pool

open List

variable {σ τ ι ε : Type}

/-- What happens next: a call begins, or a task in flight takes its next step. -/
inductive Move (ι ε : Type)
  | start (call : ι)
  | step (index : Nat) (env : ε)

section System

variable (init : σ → Prop) (begin : ι → τ) (step : ε → σ → τ → σ × List τ)

def advance (pool : Pool σ τ) : Move ι ε → Option (Pool σ τ)
  | .start call => some { pool with tasks := pool.tasks ++ [begin call] }
  | .step index env => match pool.tasks[index]? with
    | none => none
    | some t =>
      let (shared, rest) := step env pool.shared t
      some ⟨shared, pool.tasks.take index ++ (rest ++ pool.tasks.drop (index + 1))⟩

/-- All interleavings of calls. -/
def lts : Lts (Pool σ τ) (Move ι ε) where
  init pool := init pool.shared ∧ pool.tasks = []
  step pool move pool' := advance begin step pool move = some pool'

variable {init begin step}

/-- What a move does. -/
theorem advance_cases {pool pool' : Pool σ τ} {move : Move ι ε}
    (h : advance begin step pool move = some pool') :
    (∃ call, move = .start call ∧ pool' = { pool with tasks := pool.tasks ++ [begin call] }) ∨
    ∃ front t back env, move = .step front.length env ∧ pool.tasks = front ++ t :: back ∧
      pool' = ⟨(step env pool.shared t).1, front ++ ((step env pool.shared t).2 ++ back)⟩ := by
  cases move with
  | start call => exact .inl ⟨call, rfl, (Option.some.inj h).symm⟩
  | step index env =>
    rw [advance] at h
    cases htask : pool.tasks[index]? with
    | none =>
      rw [htask] at h
      cases h
    | some t =>
      rw [htask] at h
      obtain ⟨hindex, rfl⟩ := List.getElem?_eq_some_iff.1 htask
      refine .inr ⟨pool.tasks.take index, _, pool.tasks.drop (index + 1), env, ?_, ?_,
        (Option.some.inj h).symm⟩
      · rw [length_take, Nat.min_eq_left (Nat.le_of_lt hindex)]
      · rw [getElem_cons_drop, take_append_drop]

/-- A property of the step that a move makes a task take. -/
def OnStep (P : σ → τ → ε → Prop) (pool : Pool σ τ) : Move ι ε → Prop
  | .start _ => True
  | .step index env => ∀ t, pool.tasks[index]? = some t → P pool.shared t env

instance decidableOnStep {P : σ → τ → ε → Prop} [∀ s t env, Decidable (P s t env)] (pool : Pool σ τ)
    (move : Move ι ε) : Decidable (pool.OnStep P move) :=
  match move with
  | .start _ => isTrue trivial
  | .step index env => inferInstanceAs (Decidable (∀ t ∈ pool.tasks[index]?, P pool.shared t env))

theorem onStep_iff {P : σ → τ → ε → Prop} {pool : Pool σ τ} {front back : List τ} {t : τ}
    (h : pool.tasks = front ++ t :: back) (env : ε) :
    pool.OnStep P (.step front.length env : Move ι ε) ↔ P pool.shared t env := by
  have htask : pool.tasks[front.length]? = some t := by simp [h]
  rw [OnStep, htask]
  exact ⟨fun hP => hP t rfl, fun hP u hu => Option.some.inj hu ▸ hP⟩

theorem onStep_of_forall {P : σ → τ → ε → Prop} {pool : Pool σ τ} (h : ∀ t env, P pool.shared t env)
    (move : Move ι ε) : pool.OnStep P move := by
  cases move with
  | start call => trivial
  | step index env => exact fun t _ => h t env

theorem OnStep.mono {P Q : σ → τ → ε → Prop} {pool : Pool σ τ} {move : Move ι ε}
    (h : pool.OnStep P move) (hPQ : ∀ t env, P pool.shared t env → Q pool.shared t env) :
    pool.OnStep Q move := by
  cases move with
  | start call => trivial
  | step index env => exact fun t ht => hPQ t env (h t ht)

theorem onStep_congr {P Q : σ → τ → ε → Prop} {pool : Pool σ τ}
    (h : ∀ t ∈ pool.tasks, ∀ env, P pool.shared t env ↔ Q pool.shared t env) (move : Move ι ε) :
    pool.OnStep P move ↔ pool.OnStep Q move := by
  cases move with
  | start call => exact Iff.rfl
  | step index env => exact forall₂_congr fun t ht => h t (mem_of_getElem? ht) env

/-- Several moves in a row, with the pool each of them was made in, the last one first. -/
def advanceAll (begin : ι → τ) (step : ε → σ → τ → σ × List τ) :
    Pool σ τ → List (Pool σ τ × Move ι ε) → List (Move ι ε) →
      Option (Pool σ τ × List (Pool σ τ × Move ι ε))
  | pool, past, [] => some (pool, past)
  | pool, past, move :: moves => match advance begin step pool move with
    | none => none
    | some pool' => advanceAll begin step pool' ((pool, move) :: past) moves

theorem history_of_advanceAll {pool pool' : Pool σ τ} {past past' : List (Pool σ τ × Move ι ε)}
    {moves : List (Move ι ε)} (hpast : (lts init begin step).History pool past)
    (h : advanceAll begin step pool past moves = some (pool', past')) :
    (lts init begin step).History pool' past' := by
  induction moves generalizing pool past with
  | nil =>
    obtain ⟨rfl, rfl⟩ := Prod.mk.inj (Option.some.inj h)
    exact hpast
  | cons move moves ih =>
    rw [advanceAll] at h
    cases hmove : advance begin step pool move with
    | none =>
      rw [hmove] at h
      cases h
    | some next =>
      rw [hmove] at h
      exact ih (hpast.step hmove) h

/-- What every call starts with and every step passes on holds of all tasks of a run. -/
theorem History.forall_tasks {P : τ → Prop} {Ok : σ → τ → ε → Prop} (hbegin : ∀ call, P (begin call))
    (hstep : ∀ {env s t}, Ok s t env → P t → ∀ u ∈ (step env s t).2, P u) {pool : Pool σ τ}
    {past : List (Pool σ τ × Move ι ε)} (h : (lts init begin step).History pool past)
    (hok : ∀ e ∈ past, e.1.OnStep Ok e.2) : ∀ t ∈ pool.tasks, P t := by
  induction h with
  | init h0 =>
    rw [h0.2]
    exact forall_mem_nil _
  | @step pool pool' move past _ hmove ih =>
    obtain ⟨hokmove, hok⟩ := forall_mem_cons.1 hok
    have hpool := ih hok
    obtain ⟨call, rfl, rfl⟩ | ⟨front, t, back, env, rfl, htasks, rfl⟩ := advance_cases hmove
    · exact forall_mem_append.2 ⟨hpool, forall_mem_singleton.2 (hbegin call)⟩
    · rw [htasks] at hpool
      simp only [forall_mem_append, forall_mem_cons] at hpool ⊢
      obtain ⟨hfront, ht, hback⟩ := hpool
      exact ⟨hfront, hstep ((onStep_iff htasks env).1 hokmove) ht, hback⟩

end System

/-! ## Annotations

A task may carry a note about what it did so far. The notes follow the steps and do not change
them. -/

section Notes

variable {κ : Type} {init : σ → Prop} {begin : ι → τ} {step : ε → σ → τ → σ × List τ}

/-- A step that passes a note on to what is left of the task. -/
def noted (step : ε → σ → τ → σ × List τ) (note : σ → σ → τ → κ → κ) (env : ε) (s : σ) (t : τ × κ) :
    σ × List (τ × κ) :=
  ((step env s t.1).1, (step env s t.1).2.map (·, note s (step env s t.1).1 t.1 t.2))

/-- The pool without the notes. -/
def unnoted (pool : Pool σ (τ × κ)) : Pool σ τ := ⟨pool.shared, pool.tasks.map Prod.fst⟩

theorem advance_unnoted (start : κ) (note : σ → σ → τ → κ → κ) (pool : Pool σ (τ × κ)) (move : Move ι ε) :
    advance begin step pool.unnoted move =
      (advance (fun call => (begin call, start)) (noted step note) pool move).map unnoted := by
  cases move with
  | start call => simp [advance, unnoted]
  | step index env =>
    rw [advance, advance, unnoted, List.getElem?_map]
    cases pool.tasks[index]? with
    | none => rfl
    | some t => simp [unnoted, noted, map_take, map_drop, Function.comp_def]

/-- Every run has notes. -/
theorem History.exists_noted (start : κ) (note : σ → σ → τ → κ → κ) {pool : Pool σ τ}
    {past : List (Pool σ τ × Move ι ε)} (h : (lts init begin step).History pool past) :
    ∃ pool' past', (lts init (fun call => (begin call, start)) (noted step note)).History pool' past' ∧
      pool'.unnoted = pool ∧ past'.map (Prod.map unnoted id) = past := by
  induction h with
  | @init pool h0 =>
    obtain ⟨shared, tasks⟩ := pool
    obtain ⟨hshared, rfl⟩ := h0
    exact ⟨⟨shared, []⟩, [], .init ⟨hshared, rfl⟩, rfl, rfl⟩
  | step _ hmove ih =>
    obtain ⟨pool', past', hhistory, rfl, rfl⟩ := ih
    obtain ⟨next, hnext, rfl⟩ := Option.map_eq_some_iff.1 ((advance_unnoted start note ..).symm.trans hmove)
    exact ⟨next, _, hhistory.step hnext, rfl, rfl⟩

end Notes

/-! ## Ownership -/

section Ownership

variable {κ : Type} (Owns : τ → κ → Prop)

def OwnedBy (tasks : List τ) (k : κ) : Prop := ∃ t ∈ tasks, Owns t k

/-- No thing has two owners. -/
def Exclusive (tasks : List τ) : Prop := tasks.Pairwise fun t u => ∀ k, ¬(Owns t k ∧ Owns u k)

/-- What a step owes to the things its task owns, to the things it comes to own and to the rest.
`Good` is what holds of a thing without an owner, `Promise` what an owner knows of its things, and
`Frame` how a step may change the things of others; it is told what the stepping task owns. -/
structure Discipline (begin : ι → τ) (step : ε → σ → τ → σ × List τ) (Ok : σ → τ → ε → Prop)
    (Good : σ → κ → Prop) (Promise : τ → σ → Prop) (Frame : (κ → Prop) → σ → σ → κ → Prop) :
    Prop where
  good_frame : ∀ {owned s s' k}, ¬owned k → Frame owned s s' k → Good s k → Good s' k
  promise_frame : ∀ {owned s s' t}, (∀ k, Owns t k → ¬owned k ∧ Frame owned s s' k) →
    Promise t s → Promise t s'
  start : ∀ {call s}, (∀ k, Owns (begin call) k → Good s k) → Promise (begin call) s
  frame : ∀ {env s t k}, Ok s t env → Promise t s → ¬Owns t k →
    ¬OwnedBy Owns (step env s t).2 k → Frame (Owns t) s (step env s t).1 k
  settle : ∀ {env s t k}, Ok s t env → Promise t s → Owns t k →
    ¬OwnedBy Owns (step env s t).2 k → Good (step env s t).1 k
  promise : ∀ {env s t}, Ok s t env → Promise t s →
    (∀ k, OwnedBy Owns (step env s t).2 k → ¬Owns t k → Good s k) →
    ∀ u ∈ (step env s t).2, Promise u (step env s t).1

variable {Owns} {begin : ι → τ} {step : ε → σ → τ → σ × List τ} {Ok : σ → τ → ε → Prop}
  {Good : σ → κ → Prop} {Promise : τ → σ → Prop} {Frame : (κ → Prop) → σ → σ → κ → Prop}

/-- Things without an owner are good and owners keep their promises. -/
def Disciplined (Owns : τ → κ → Prop) (Good : σ → κ → Prop) (Promise : τ → σ → Prop)
    (pool : Pool σ τ) : Prop :=
  (∀ k, ¬OwnedBy Owns pool.tasks k → Good pool.shared k) ∧ ∀ t ∈ pool.tasks, Promise t pool.shared

theorem ownedBy_append {a b : List τ} {k : κ} :
    OwnedBy Owns (a ++ b) k ↔ OwnedBy Owns a k ∨ OwnedBy Owns b k := by
  simp [OwnedBy, or_and_right, exists_or]

theorem ownedBy_cons {t : τ} {ts : List τ} {k : κ} :
    OwnedBy Owns (t :: ts) k ↔ Owns t k ∨ OwnedBy Owns ts k := by
  simp [OwnedBy]

theorem Exclusive.append {a b : List τ} (h : Exclusive Owns (a ++ b)) {k : κ}
    (ha : OwnedBy Owns a k) (hb : OwnedBy Owns b k) : False := by
  obtain ⟨t, ht, hkt⟩ := ha
  obtain ⟨u, hu, hku⟩ := hb
  exact (pairwise_append.1 h).2.2 t ht u hu k ⟨hkt, hku⟩

/-- A task's step keeps the discipline as long as no thing gets a second owner. -/
theorem Discipline.step_disciplined (D : Discipline Owns begin step Ok Good Promise Frame) {s : σ}
    {front back : List τ} {t : τ} {env : ε} (hok : Ok s t env)
    (hbefore : Exclusive Owns (front ++ t :: back))
    (hafter : Exclusive Owns (front ++ ((step env s t).2 ++ back)))
    (h : Disciplined Owns Good Promise ⟨s, front ++ t :: back⟩) :
    Disciplined Owns Good Promise ⟨(step env s t).1, front ++ ((step env s t).2 ++ back)⟩ := by
  obtain ⟨hgood, hpromise⟩ := h
  have ht : Promise t s := hpromise t (by simp)
  -- What the others own is owned neither by the task nor by what is left of it.
  have hothers : ∀ u ∈ front ++ back, ∀ k, Owns u k → ¬Owns t k ∧ ¬OwnedBy Owns (step env s t).2 k := by
    intro u hu k hk
    obtain hu | hu := mem_append.1 hu
    · have hfront : OwnedBy Owns front k := ⟨u, hu, hk⟩
      exact ⟨fun hkt => hbefore.append hfront ⟨t, mem_cons_self, hkt⟩,
        fun hrest => hafter.append hfront (ownedBy_append.2 (.inl hrest))⟩
    · have hback : OwnedBy Owns back k := ⟨u, hu, hk⟩
      have hcons : Exclusive Owns ([t] ++ back) := (pairwise_append.1 hbefore).2.1
      have hrests : Exclusive Owns ((step env s t).2 ++ back) := (pairwise_append.1 hafter).2.1
      exact ⟨fun hkt => hcons.append ⟨t, mem_cons_self, hkt⟩ hback,
        fun hrest => hrests.append hrest hback⟩
  have hfree : ∀ k, ¬Owns t k → (OwnedBy Owns (step env s t).2 k ∨ ¬OwnedBy Owns (front ++ back) k) →
      Good s k := by
    intro k hkt hk
    refine hgood k fun howned => ?_
    have hother : OwnedBy Owns (front ++ back) k := by
      rw [ownedBy_append, ownedBy_cons] at howned
      rw [ownedBy_append]
      exact howned.imp_right fun h => h.resolve_left hkt
    obtain hrest | hnone := hk
    · obtain ⟨u, hu, hku⟩ := hother
      exact (hothers u hu k hku).2 hrest
    · exact hnone hother
  constructor
  · intro k hk
    rw [ownedBy_append, ownedBy_append, not_or, not_or] at hk
    by_cases hkt : Owns t k
    · exact D.settle hok ht hkt hk.2.1
    · refine D.good_frame hkt (D.frame hok ht hkt hk.2.1) (hfree k hkt (.inr ?_))
      rw [ownedBy_append, not_or]
      exact ⟨hk.1, hk.2.2⟩
  · intro u hu
    have hkept : u ∈ front ++ back → Promise u (step env s t).1 := by
      intro hmem
      have hpu : Promise u s := by
        refine hpromise u ?_
        rw [mem_append, mem_cons]
        exact (mem_append.1 hmem).imp_right .inr
      have hframe : ∀ k, Owns u k → ¬Owns t k ∧ Frame (Owns t) s (step env s t).1 k := by
        intro k hk
        obtain ⟨hkt, hrest⟩ := hothers u hmem k hk
        exact ⟨hkt, D.frame hok ht hkt hrest⟩
      exact D.promise_frame hframe hpu
    rw [mem_append, mem_append] at hu
    obtain hu | hu | hu := hu
    · exact hkept (mem_append_left _ hu)
    · exact D.promise hok ht (fun k hk hkt => hfree k hkt (.inl hk)) u hu
    · exact hkept (mem_append_right _ hu)

/-- Along a run in which no thing ever has two owners the discipline holds. -/
theorem Discipline.history (D : Discipline Owns begin step Ok Good Promise Frame)
    {init : σ → Prop} (hinit : ∀ s, init s → ∀ k, Good s k) {pool : Pool σ τ}
    {past : List (Pool σ τ × Move ι ε)} (hrun : (lts init begin step).History pool past)
    (hok : ∀ e ∈ past, e.1.OnStep Ok e.2) (hpast : ∀ e ∈ past, Exclusive Owns e.1.tasks)
    (hlast : Exclusive Owns pool.tasks) : Disciplined Owns Good Promise pool := by
  induction hrun with
  | init h0 =>
    obtain ⟨hshared, htasks⟩ := h0
    refine ⟨fun k _ => hinit _ hshared k, fun t ht => ?_⟩
    rw [htasks] at ht
    cases ht
  | @step pool pool' move past _ hmove ih =>
    obtain ⟨hokmove, hok⟩ := forall_mem_cons.1 hok
    obtain ⟨hbefore, hpast⟩ := forall_mem_cons.1 hpast
    have hpool := ih hok hpast hbefore
    obtain ⟨call, rfl, rfl⟩ | ⟨front, t, back, env, rfl, htasks, rfl⟩ := advance_cases hmove
    · refine ⟨fun k hk => hpool.1 k fun hown => hk (ownedBy_append.2 (.inl hown)), ?_⟩
      intro t ht
      obtain ht | ht := mem_append.1 ht
      · exact hpool.2 t ht
      · rw [mem_singleton.1 ht]
        refine D.start fun k hk => hpool.1 k fun hown => ?_
        exact Exclusive.append hlast hown ⟨_, mem_cons_self, hk⟩
    · obtain ⟨s, tasks⟩ := pool
      obtain rfl : tasks = front ++ t :: back := htasks
      refine D.step_disciplined ?_ hbefore hlast hpool
      exact hokmove t (by simp)

end Ownership

end Pool
