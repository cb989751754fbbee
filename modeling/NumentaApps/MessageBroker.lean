import Mathlib.Data.List.Perm.Basic

/-!
# Message queues with explicit acknowledgement

A queue keeps a delivered message, with its delivery tag, until its ack has been
received; when the consumer's channel dies, what is unacked goes back to the
front in the original order. A broker is a table of named queues.
-/
namespace NumentaApps.MessageBroker

/-- The messages ready for delivery, oldest first, those delivered and unacked
with their delivery tags, oldest first, and the next delivery tag. -/
structure AckedQueue (B : Type) where
  ready : List B
  unacked : List (ℕ × B)
  nextTag : ℕ
  deriving DecidableEq, Repr

namespace AckedQueue

variable {B : Type}

def empty (B : Type) : AckedQueue B := ⟨[], [], 1⟩

def publish (b : B) (q : AckedQueue B) : AckedQueue B := { q with ready := q.ready ++ [b] }

def deliver (q : AckedQueue B) : Option (B × AckedQueue B) :=
  match q.ready with
  | [] => none
  | b :: rest => some (b,
      { ready := rest, unacked := q.unacked ++ [(q.nextTag, b)], nextTag := q.nextTag + 1 })

/-- The broker receives the ack of one delivery, or of all up to it. -/
def settle (tag : ℕ) (multiple : Bool) (q : AckedQueue B) : AckedQueue B :=
  { q with unacked := q.unacked.filter fun p => if multiple then tag < p.1 else p.1 ≠ tag }

/-- The deliveries that an ack settles. -/
def settled (tag : ℕ) (multiple : Bool) (q : AckedQueue B) : List (ℕ × B) :=
  q.unacked.filter fun p => if multiple then p.1 ≤ tag else p.1 = tag

/-- The channel is gone: the unacked messages are ready again. -/
def requeue (q : AckedQueue B) : AckedQueue B :=
  { ready := q.unacked.map Prod.snd ++ q.ready, unacked := [], nextTag := 1 }

def purge (q : AckedQueue B) : AckedQueue B := { q with ready := [] }

/-- The queue is deleted, with what is unacked; the delivery tags of the channel go on. -/
def drop (q : AckedQueue B) : AckedQueue B := { q with ready := [], unacked := [] }

/-- Every message the broker still holds, in the order of publication. -/
def held (q : AckedQueue B) : List B := q.unacked.map Prod.snd ++ q.ready

@[simp] theorem ready_settle (tag : ℕ) (multiple : Bool) (q : AckedQueue B) :
    (q.settle tag multiple).ready = q.ready := rfl

@[simp] theorem held_publish (b : B) (q : AckedQueue B) : (q.publish b).held = q.held ++ [b] := by
  simp [held, publish]

@[simp] theorem held_requeue (q : AckedQueue B) : q.requeue.held = q.held := by
  simp [held, requeue]

theorem mem_held_settle {tag : ℕ} {multiple : Bool} {q : AckedQueue B} {b : B}
    (h : b ∈ (q.settle tag multiple).held) : b ∈ q.held := by
  rcases List.mem_append.mp h with h | h
  · obtain ⟨p, hp, rfl⟩ := List.mem_map.mp h
    exact List.mem_append_left _ (List.mem_map_of_mem (List.mem_of_mem_filter hp))
  · exact List.mem_append_right _ h

/-- What an ack takes away was unacked. -/
theorem mem_held_settle_or {q : AckedQueue B} {b : B} (h : b ∈ q.held) (tag : ℕ)
    (multiple : Bool) : b ∈ (q.settle tag multiple).held ∨ ∃ p ∈ q.unacked, p.2 = b := by
  rcases List.mem_append.mp h with h | h
  · obtain ⟨p, hp, hb⟩ := List.mem_map.mp h
    exact .inr ⟨p, hp, hb⟩
  · exact .inl (List.mem_append_right _ h)

theorem deliver_eq_none {q : AckedQueue B} : q.deliver = none ↔ q.ready = [] := by
  unfold deliver
  cases q.ready <;> simp

theorem held_deliver {q q' : AckedQueue B} {b : B} (h : q.deliver = some (b, q')) :
    q'.held = q.held ∧ q.ready = b :: q'.ready ∧ q'.unacked = q.unacked ++ [(q.nextTag, b)] ∧
      q'.nextTag = q.nextTag + 1 := by
  unfold deliver at h
  cases hr : q.ready with
  | nil => simp [hr] at h
  | cons c rest =>
    simp only [hr, Option.some.injEq, Prod.mk.injEq] at h
    obtain ⟨rfl, rfl⟩ := h
    exact ⟨by simp [held, hr], rfl, rfl, rfl⟩

end AckedQueue

/-- The named queues of a broker, in an arbitrary order. -/
structure Broker (Q B : Type) where
  queues : List (Q × AckedQueue B)
  deriving DecidableEq, Repr

namespace Broker

variable {Q B : Type}

def names (k : Broker Q B) : List Q := k.queues.map Prod.fst

variable [DecidableEq Q]

def find? (n : Q) (k : Broker Q B) : Option (AckedQueue B) :=
  (k.queues.find? fun p => p.1 = n).map Prod.snd

def update (n : Q) (f : AckedQueue B → AckedQueue B) (k : Broker Q B) : Broker Q B :=
  ⟨k.queues.map fun p => if p.1 = n then (p.1, f p.2) else p⟩

/-- Declares a queue; one that exists is left alone. -/
def create (n : Q) (k : Broker Q B) : Broker Q B :=
  if n ∈ k.names then k else ⟨k.queues ++ [(n, .empty B)]⟩

def delete (n : Q) (k : Broker Q B) : Broker Q B := ⟨k.queues.filter fun p => p.1 ≠ n⟩

theorem find?_update (n m : Q) (f : AckedQueue B → AckedQueue B) (k : Broker Q B) :
    (k.update n f).find? m = if m = n then (k.find? m).map f else k.find? m := by
  obtain ⟨qs⟩ := k
  simp only [find?, update]
  induction qs with
  | nil => simp
  | cons p qs ih =>
    rw [List.map_cons, List.find?_cons, List.find?_cons]
    by_cases hpm : p.1 = m
    · by_cases hpn : p.1 = n
      · simp [hpm, ← hpn]
      · have hmn : ¬ m = n := fun h => hpn (hpm.trans h)
        simp [hpm, hmn]
    · by_cases hpn : p.1 = n
      · simpa [hpn, show ¬ n = m from fun h => hpm (hpn.trans h)] using ih
      · simpa [hpm, hpn] using ih

theorem mem_names_of_find? {n : Q} {q : AckedQueue B} {k : Broker Q B} (h : k.find? n = some q) :
    n ∈ k.names := by
  obtain ⟨p, hp, rfl⟩ := Option.map_eq_some_iff.mp h
  have hn : p.1 = n := by simpa using List.find?_some hp
  exact hn ▸ List.mem_map_of_mem (List.mem_of_find?_eq_some hp)

theorem find?_create_cases {n m : Q} {q : AckedQueue B} {k : Broker Q B}
    (h : (k.create n).find? m = some q) : k.find? m = some q ∨ (m = n ∧ q = .empty B) := by
  unfold create at h
  split at h
  · exact .inl h
  · rename_i hn
    simp only [find?, List.find?_append, List.find?_singleton] at h
    cases hm : k.queues.find? (fun p => p.1 = m) with
    | some p =>
      rw [hm] at h
      exact .inl (by simpa [find?, hm] using h)
    | none =>
      rw [hm] at h
      by_cases hnm : n = m
      · exact .inr ⟨hnm.symm, by simpa [hnm] using h.symm⟩
      · simp [hnm] at h

theorem find?_delete (n m : Q) (k : Broker Q B) :
    (k.delete n).find? m = if m = n then none else k.find? m := by
  obtain ⟨qs⟩ := k
  simp only [find?, delete, List.find?_filter]
  split
  · rename_i h
    subst h
    simp
  · rename_i h
    congr 2
    funext p
    by_cases hp : p.1 = m <;> simp [hp, h]

end Broker

end NumentaApps.MessageBroker
