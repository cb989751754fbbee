import Mathlib.Data.List.Basic

/-!
# Labelled transition systems, their runs and their invariants

A system is a set of initial states and a partial labelled step. Runs record
every state left together with the action that left it, so that a condition on
the steps of a run is a condition on its trace. The induction over a run is made
once, here: an inductive invariant is checked on the initial states and on one
step, under an optional condition on the steps taken.
-/
namespace NumentaApps.TransitionSystem

universe u v w

/-- A labelled system whose step is a partial function of the state and the
action; every source of nondeterminism is in the action. -/
structure System (σ : Type u) (α : Type v) where
  init : σ → Prop
  next : α → σ → Option σ

variable {σ : Type u} {α : Type v} {τ : Type w} {β : Type*}

inductive Reachable (S : System σ α) : σ → Prop where
  | init {s} (h : S.init s) : Reachable S s
  | step {s t} (a : α) (hs : Reachable S s) (h : S.next a s = some t) : Reachable S t

/-- A run from an initial state, with the trace of the steps it took. -/
inductive Run (S : System σ α) : List (σ × α) → σ → Prop where
  | init {s} (h : S.init s) : Run S [] s
  | step {tr s t} (a : α) (hs : Run S tr s) (h : S.next a s = some t) :
      Run S (tr ++ [(s, a)]) t

theorem Run.reachable {S : System σ α} {tr : List (σ × α)} {s : σ} (h : Run S tr s) :
    Reachable S s := by
  induction h with
  | init h => exact .init h
  | step a _ h ih => exact .step a ih h

/-- The invariant rule. -/
theorem Reachable.invariant {S : System σ α} {I : σ → Prop}
    (hinit : ∀ s, S.init s → I s)
    (hstep : ∀ a s t, Reachable S s → I s → S.next a s = some t → I t)
    {s : σ} (h : Reachable S s) : I s := by
  induction h with
  | init h => exact hinit _ h
  | step a hs h ih => exact hstep a _ _ hs ih h

/-- The invariant rule for the runs all of whose steps meet a condition. -/
theorem Run.invariant {S : System σ α} {G : σ → α → Prop} {I : σ → Prop}
    (hinit : ∀ s, S.init s → I s)
    (hstep : ∀ a s t, I s → G s a → S.next a s = some t → I t)
    {tr : List (σ × α)} {s : σ} (h : Run S tr s) (hg : ∀ p ∈ tr, G p.1 p.2) : I s := by
  induction h with
  | init h => exact hinit _ h
  | @step tr s t a hs h ih =>
    have hI := ih (fun p hp => hg p (List.mem_append_left _ hp))
    exact hstep a s t hI (hg (s, a) (by simp)) h

/-- What holds of every step of a run taken from a state satisfying the invariant. -/
theorem Run.forall_steps {S : System σ α} {G : σ → α → Prop} {I : σ → Prop} {P : σ → α → σ → Prop}
    (hinit : ∀ s, S.init s → I s)
    (hstep : ∀ a s t, I s → G s a → S.next a s = some t → I t)
    (hP : ∀ a s t, I s → G s a → S.next a s = some t → P s a t)
    {tr : List (σ × α)} {s : σ} (h : Run S tr s) (hg : ∀ p ∈ tr, G p.1 p.2) :
    ∀ p ∈ tr, ∃ t, S.next p.2 p.1 = some t ∧ P p.1 p.2 t := by
  induction h with
  | init h => simp
  | @step tr s t a hs h ih =>
    have hg' : ∀ p ∈ tr, G p.1 p.2 := fun p hp => hg p (List.mem_append_left _ hp)
    intro p hp
    rcases List.mem_append.mp hp with hp | hp
    · exact ih hg' p hp
    · obtain rfl := List.mem_singleton.mp hp
      have hI := hs.invariant hinit hstep hg'
      exact ⟨t, h, hP a s t hI (hg (s, a) (by simp)) h⟩

/-- What a step of a run brings about and every later step keeps. -/
theorem Run.of_mem {S : System σ α} {P : σ → Prop} {tr : List (σ × α)} {s : σ} {p : σ × α}
    (h : Run S tr s) (hp : p ∈ tr)
    (hstart : ∀ t, Reachable S p.1 → S.next p.2 p.1 = some t → P t)
    (hstep : ∀ a s t, P s → S.next a s = some t → P t) : P s := by
  induction h with
  | init h => exact absurd hp List.not_mem_nil
  | @step tr s t a hs hn ih =>
    rcases List.mem_append.mp hp with hp | hp
    · exact hstep a s t (ih hp) hn
    · obtain rfl := List.mem_singleton.mp hp
      exact hstart t hs.reachable hn

/-- A run without end. -/
structure InfiniteRun (S : System σ α) (states : ℕ → σ) (actions : ℕ → α) : Prop where
  init : S.init (states 0)
  next : ∀ n, S.next (actions n) (states n) = some (states (n + 1))

/-- The first steps of a run without end. -/
theorem InfiniteRun.run {S : System σ α} {states : ℕ → σ} {actions : ℕ → α}
    (h : InfiniteRun S states actions) (n : ℕ) :
    Run S ((List.range n).map fun k => (states k, actions k)) (states n) := by
  induction n with
  | zero => exact .init h.init
  | succ n ih =>
    rw [List.range_succ, List.map_append]
    exact .step (actions n) ih (h.next n)

/-- The states that a run passes through, its last one included. -/
def statesOf (tr : List (σ × α)) (s : σ) : List σ := tr.map Prod.fst ++ [s]

/-- The invariant rule for every state of a run all of whose steps meet a condition. -/
theorem Run.forall_states {S : System σ α} {G : σ → α → Prop} {I Q : σ → Prop}
    (hinit : ∀ s, S.init s → I s)
    (hstep : ∀ a s t, I s → G s a → S.next a s = some t → I t) (hQ : ∀ s, I s → Q s)
    {tr : List (σ × α)} {s : σ} (h : Run S tr s) (hg : ∀ p ∈ tr, G p.1 p.2) :
    ∀ t ∈ statesOf tr s, Q t := by
  induction h with
  | init h =>
    intro t ht
    obtain rfl := List.mem_singleton.mp ht
    exact hQ _ (hinit _ h)
  | @step tr s t a hs hn ih =>
    have hg' : ∀ p ∈ tr, G p.1 p.2 := fun p hp => hg p (List.mem_append_left _ hp)
    have hIt := hstep a s t (hs.invariant hinit hstep hg') (hg (s, a) (by simp)) hn
    intro u hu
    rw [statesOf, List.map_append, List.mem_append] at hu
    rcases hu with hu | hu
    · exact ih hg' u hu
    · exact hQ u (List.mem_singleton.mp hu ▸ hIt)

/-- A property of the states of a run in terms of its steps: from a state in which a
stronger property holds, the steps that meet a condition keep that property, and after any
other step the weaker one fails. -/
theorem Run.forall_states_iff {S : System σ α} {I P Q : σ → Prop} {G : σ → α → Prop}
    (hinit : ∀ s, S.init s → I s ∧ P s)
    (hI : ∀ a s t, I s → S.next a s = some t → I t)
    (hgood : ∀ a s t, I s → P s → S.next a s = some t → G s a → P t)
    (hbad : ∀ a s t, I s → P s → S.next a s = some t → ¬ G s a → ¬ Q t)
    (hQ : ∀ s, P s → Q s) {tr : List (σ × α)} {s : σ} (h : Run S tr s) :
    (∀ t ∈ statesOf tr s, Q t) ↔ ∀ p ∈ tr, G p.1 p.2 := by
  have hstep : ∀ a s t, I s ∧ P s → G s a → S.next a s = some t → I t ∧ P t :=
    fun a s t hs hg hn => ⟨hI a s t hs.1 hn, hgood a s t hs.1 hs.2 hn hg⟩
  constructor
  · induction h with
    | init h => simp
    | @step tr s t a hs hn ih =>
      intro hall
      have hg : ∀ p ∈ tr, G p.1 p.2 := by
        apply ih
        intro u hu
        apply hall
        rw [statesOf, List.map_append]
        exact List.mem_append_left _ hu
      obtain ⟨hIs, hPs⟩ := hs.invariant hinit hstep hg
      intro p hp
      rcases List.mem_append.mp hp with hp | hp
      · exact hg p hp
      · obtain rfl := List.mem_singleton.mp hp
        by_contra hng
        exact hbad a s t hIs hPs hn hng (hall t (by simp [statesOf]))
  · intro hg
    exact h.forall_states hinit hstep (fun s hs => hQ s hs.2) hg

/-- A forward simulation: every step of the concrete system is matched by a
step, or by a stutter, of the abstract one. -/
theorem Reachable.simulation {S : System σ α} {T : System τ β} {R : σ → τ → Prop}
    (hinit : ∀ s, S.init s → ∃ u, T.init u ∧ R s u)
    (hstep : ∀ a s t u, Reachable S s → R s u → S.next a s = some t →
      R t u ∨ ∃ b u', T.next b u = some u' ∧ R t u')
    {s : σ} (h : Reachable S s) : ∃ u, Reachable T u ∧ R s u := by
  induction h with
  | init h =>
    obtain ⟨u, hu, hr⟩ := hinit _ h
    exact ⟨u, .init hu, hr⟩
  | @step s t a hs h ih =>
    obtain ⟨u, hu, hr⟩ := ih
    rcases hstep a s t u hs hr h with hr | ⟨b, u', hb, hr⟩
    · exact ⟨u, hu, hr⟩
    · exact ⟨u', .step b hu hb, hr⟩

/-- Executes a list of actions. -/
def System.exec (S : System σ α) : List α → σ → Option σ
  | [], s => some s
  | a :: as, s => (S.next a s).bind (S.exec as)

theorem Reachable.exec {S : System σ α} {as : List α} {s t : σ} (hs : Reachable S s)
    (h : S.exec as s = some t) : Reachable S t := by
  induction as generalizing s with
  | nil =>
    obtain rfl := Option.some.inj h
    exact hs
  | cons a as ih =>
    obtain ⟨u, hu, ht⟩ := Option.bind_eq_some_iff.mp h
    exact ih (.step a hs hu) ht

theorem Run.exec {S : System σ α} {as : List α} {tr : List (σ × α)} {s t : σ} (hs : Run S tr s)
    (h : S.exec as s = some t) : ∃ tr', Run S (tr ++ tr') t ∧ tr'.map Prod.snd = as := by
  induction as generalizing tr s with
  | nil =>
    obtain rfl := Option.some.inj h
    exact ⟨[], by simpa using hs, rfl⟩
  | cons a as ih =>
    obtain ⟨u, hu, ht⟩ := Option.bind_eq_some_iff.mp h
    obtain ⟨tr', hr, rfl⟩ := ih (.step a hs hu) ht
    exact ⟨(s, a) :: tr', by simpa using hr, rfl⟩

/-- The steps taken while a list of actions is executed. -/
def System.trace (S : System σ α) : List α → σ → List (σ × α)
  | [], _ => []
  | a :: as, s => (s, a) :: match S.next a s with
    | some t => S.trace as t
    | none => []

theorem Run.exec_trace {S : System σ α} {as : List α} {tr : List (σ × α)} {s t : σ}
    (hs : Run S tr s) (h : S.exec as s = some t) : Run S (tr ++ S.trace as s) t := by
  induction as generalizing tr s with
  | nil =>
    obtain rfl := Option.some.inj h
    simpa [System.trace] using hs
  | cons a as ih =>
    obtain ⟨u, hu, ht⟩ := Option.bind_eq_some_iff.mp h
    simpa [System.trace, hu] using ih (.step a hs hu) ht

end NumentaApps.TransitionSystem
