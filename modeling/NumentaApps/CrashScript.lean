import Mathlib.Logic.Basic

/-!
# Scripts that a crash may cut short

A script makes steps on a state one after the other. A job stands for many steps, of which
only the kind is known, and what they have brought about when the job is done. A crash may
come between any two steps, those of a job included. `Ensures` holds of a script in a state
from which no step fails, every state that the script passes through is good, and it returns
as asked for.
-/
namespace NumentaApps.CrashScript

universe u v w

variable {σ : Type u} {α : Type v} {ρ : Type w}

inductive Script (σ : Type u) (α : Type v) (ρ : Type w) where
  | done (result : ρ)
  | step (a : α) (rest : Script σ α ρ)
  | job (kind : α → Prop) (post : σ → σ → Prop) (rest : Script σ α ρ)
  | read (rest : σ → Script σ α ρ)

variable (next : α → σ → Option σ)

/-- A state after some steps of a kind. -/
inductive Through (kind : α → Prop) : σ → σ → Prop where
  | refl (s : σ) : Through kind s s
  | step {s t u : σ} {a : α} (h : Through kind s t) (ha : kind a) (hnext : next a t = some u) :
      Through kind s u

/-- An invariant of the steps of a kind. -/
theorem Through.invariant {next : α → σ → Option σ} {kind : α → Prop} {I : σ → Prop} {s t : σ}
    (hstep : ∀ a t u, kind a → next a t = some u → I t → I u) (h : Through next kind s t)
    (hs : I s) : I t := by
  induction h with
  | refl => exact hs
  | step _ ha hnext ih => exact hstep _ _ _ ha hnext ih

namespace Script

/-- The states at which a crash may cut a script short. -/
inductive Passes : Script σ α ρ → σ → σ → Prop where
  | here (script : Script σ α ρ) (s : σ) : Passes script s s
  | step {a : α} {rest : Script σ α ρ} {s t u : σ} (hnext : next a s = some t)
      (h : Passes rest t u) : Passes (.step a rest) s u
  | during {kind : α → Prop} {post : σ → σ → Prop} {rest : Script σ α ρ} {s t : σ}
      (hjob : Through next kind s t) : Passes (.job kind post rest) s t
  | job {kind : α → Prop} {post : σ → σ → Prop} {rest : Script σ α ρ} {s t u : σ}
      (hjob : Through next kind s t) (hpost : post s t) (h : Passes rest t u) :
      Passes (.job kind post rest) s u
  | read {rest : σ → Script σ α ρ} {s t : σ} (h : Passes (rest s) s t) : Passes (.read rest) s t

inductive Returns : Script σ α ρ → σ → ρ → σ → Prop where
  | done (result : ρ) (s : σ) : Returns (.done result) s result s
  | step {a : α} {rest : Script σ α ρ} {s t u : σ} {result : ρ} (hnext : next a s = some t)
      (h : Returns rest t result u) : Returns (.step a rest) s result u
  | job {kind : α → Prop} {post : σ → σ → Prop} {rest : Script σ α ρ} {s t u : σ} {result : ρ}
      (hjob : Through next kind s t) (hpost : post s t) (h : Returns rest t result u) :
      Returns (.job kind post rest) s result u
  | read {rest : σ → Script σ α ρ} {s t : σ} {result : ρ} (h : Returns (rest s) s result t) :
      Returns (.read rest) s result t

/-- A step is reached that cannot be made. -/
inductive Fails : Script σ α ρ → σ → Prop where
  | here {a : α} {rest : Script σ α ρ} {s : σ} (hnext : next a s = none) : Fails (.step a rest) s
  | step {a : α} {rest : Script σ α ρ} {s t : σ} (hnext : next a s = some t) (h : Fails rest t) :
      Fails (.step a rest) s
  | job {kind : α → Prop} {post : σ → σ → Prop} {rest : Script σ α ρ} {s t : σ}
      (hjob : Through next kind s t) (hpost : post s t) (h : Fails rest t) :
      Fails (.job kind post rest) s
  | read {rest : σ → Script σ α ρ} {s : σ} (h : Fails (rest s) s) : Fails (.read rest) s

def Ensures (P : σ → Prop) (Q : ρ → σ → Prop) : Script σ α ρ → σ → Prop
  | .done result, s => P s ∧ Q result s
  | .step a rest, s => P s ∧ ∃ t, next a s = some t ∧ rest.Ensures P Q t
  | .job kind post rest, s =>
    ∀ t, Through next kind s t → P t ∧ (post s t → rest.Ensures P Q t)
  | .read rest, s => (rest s).Ensures P Q s

variable {next} {P : σ → Prop} {Q : ρ → σ → Prop} {script : Script σ α ρ} {s t : σ} {result : ρ}

/-- A script is safe to be cut short before it has begun. -/
theorem Ensures.start (h : script.Ensures next P Q s) : P s := by
  induction script with
  | done => exact h.1
  | step => exact h.1
  | job => exact (h s (.refl s)).1
  | read rest ih => exact ih s h

theorem Ensures.passes (h : script.Ensures next P Q s) (hpasses : script.Passes next s t) :
    P t := by
  induction hpasses with
  | here => exact h.start
  | step hnext _ ih =>
    obtain ⟨-, u, hu, hrest⟩ := h
    obtain rfl := Option.some.inj (hnext.symm.trans hu)
    exact ih hrest
  | during hjob => exact (h _ hjob).1
  | job hjob hpost _ ih => exact ih ((h _ hjob).2 hpost)
  | read _ ih => exact ih h

theorem Ensures.returns (h : script.Ensures next P Q s)
    (hreturns : script.Returns next s result t) : P t ∧ Q result t := by
  induction hreturns with
  | done => exact h
  | step hnext _ ih =>
    obtain ⟨-, u, hu, hrest⟩ := h
    obtain rfl := Option.some.inj (hnext.symm.trans hu)
    exact ih hrest
  | job hjob hpost _ ih => exact ih ((h _ hjob).2 hpost)
  | read _ ih => exact ih h

theorem Ensures.not_fails (h : script.Ensures next P Q s) : ¬ script.Fails next s := by
  intro hfails
  induction hfails with
  | here hnext =>
    obtain ⟨-, u, hu, -⟩ := h
    rw [hnext] at hu
    cases hu
  | step hnext _ ih =>
    obtain ⟨-, u, hu, hrest⟩ := h
    obtain rfl := Option.some.inj (hnext.symm.trans hu)
    exact ih hrest
  | job hjob hpost _ ih => exact ih ((h _ hjob).2 hpost)
  | read _ ih => exact ih h

end Script

end NumentaApps.CrashScript
