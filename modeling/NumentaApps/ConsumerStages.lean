import Mathlib.Data.List.Basic
import NumentaApps.SynchronousAmqpClient

/-!
# The stages of a consumer

A channel as one consumer sees it: the calls, methods and frames that name its tag, its events that
the user has taken, that are pending and that were sent. From its creation to its cancellation it
goes through stages, and at each of them the events that the user took, the pending ones and those
on their way are all that were sent, in order.
-/
namespace NumentaApps.AmqpClient
open TransitionSystem

variable {M : Type}

/-! ## What concerns a consumer -/

def Event.deliveryTag : Event M → Option ℕ
  | .consumerMessage _ deliveryTag _ => some deliveryTag
  | .consumerCancellation _ => none

/-- What the user gets by a call. -/
def Outcome.handed : Outcome M → List (Event M)
  | .nextEvent event => [event]
  | .cancelledConsumer _ messages _ => messages
  | _ => []

/-- What a call takes from the pending events; a cancellation is dropped when its consumer is
cancelled. -/
def Outcome.taken : Outcome M → List (Event M)
  | .nextEvent event => [event]
  | .cancelledConsumer _ messages discarded => messages ++ discarded
  | _ => []

def Outcome.cancels (consumerTag : ℕ) : Outcome M → Bool
  | .cancelledConsumer tag _ _ => tag = consumerTag
  | _ => false

def Method.consumerTag : Method M → Option ℕ
  | .consume consumerTag => some consumerTag
  | .cancel consumerTag => some consumerTag
  | _ => none

def Frame.consumerTag : Frame M → Option ℕ
  | .event e => some e.consumerTag
  | .consumeOk consumerTag => some consumerTag
  | .cancelOk consumerTag => some consumerTag
  | _ => none

def Frame.consumerEvent : Frame M → Option (Event M)
  | .event e => some e
  | _ => none

def Call.ofConsumer (consumerTag : ℕ) : Call → Call
  | .createConsumer tag answered =>
      if tag = consumerTag then .createConsumer tag answered else .idle
  | .cancelConsumer tag answered =>
      if tag = consumerTag then .cancelConsumer tag answered else .idle
  | _ => .idle

/-- A channel as one consumer sees it. -/
structure ConsumerView (M : Type) where
  isNew : Prop
  call : Call
  methods : List (Method M)
  frames : List (Frame M)
  consuming : Prop
  cancelled : Bool
  taken : List (Event M)
  pending : List (Event M)
  sent : List (Event M)

def Channel.consumerView (c : ℕ) (s : Channel M) : ConsumerView M where
  isNew := s.client.nextConsumerTag ≤ c
  call := s.client.call.ofConsumer c
  methods := s.methods.filter (·.consumerTag = some c)
  frames := s.frames.filter (·.consumerTag = some c)
  consuming := c ∈ s.broker.consumers
  cancelled := s.client.outcomes.any (·.cancels c)
  taken := (s.client.outcomes.flatMap Outcome.taken).filter (·.consumerTag = c)
  pending := s.client.pendingEvents.filter (·.consumerTag = c)
  sent := s.broker.sent.filter (·.consumerTag = c)

/-! ## The stages -/

/-- Its creation is requested, handled by the broker, and known to the client; it runs; then its
cancellation is. -/
inductive ConsumerStage where
  | fresh
  | requested
  | accepted
  | created
  | running
  | cancelling
  | released
  | cancelled
  deriving DecidableEq

namespace ConsumerStage

def call (c : ℕ) : ConsumerStage → Call
  | .requested => .createConsumer c false
  | .accepted => .createConsumer c false
  | .created => .createConsumer c true
  | .cancelling => .cancelConsumer c false
  | .released => .cancelConsumer c false
  | .cancelled => .cancelConsumer c true
  | _ => .idle

def methods (c : ℕ) : ConsumerStage → List (Method M)
  | .requested => [.consume c]
  | .cancelling => [.cancel c]
  | _ => []

/-- The frame ahead of its events. -/
def first (c : ℕ) : ConsumerStage → List (Frame M)
  | .accepted => [.consumeOk c]
  | _ => []

/-- The frame behind its events. -/
def last (c : ℕ) : ConsumerStage → List (Frame M)
  | .released => [.cancelOk c]
  | _ => []

/-- The broker has not begun to send. -/
def NotBegun (d : ConsumerStage) : Prop := d = .fresh ∨ d = .requested

/-- The broker does not send any more. -/
def Ended (d : ConsumerStage) : Prop := d = .released ∨ d = .cancelled

/-- The user may have cancelled it before. -/
def MayBeCancelled (d : ConsumerStage) : Prop :=
  d = .running ∨ d = .cancelling ∨ d = .released ∨ d = .cancelled

end ConsumerStage

/-- After a cancellation nothing is sent to the consumer. -/
def CancelsLast (events : List (Event M)) : Prop :=
  ∀ pre c post, events = pre ++ .consumerCancellation c :: post → post = []

/-- A consumer is at a stage, with the events on their way. -/
structure AtConsumerStage (c : ℕ) (d : ConsumerStage) (es : List (Event M))
    (v : ConsumerView M) : Prop where
  isNew : v.isNew ↔ d = .fresh
  call : v.call = d.call c
  methods : v.methods = d.methods c
  frames : v.frames = d.first c ++ es.map .event ++ d.last c
  silent : d.NotBegun ∨ d.Ended → ¬ v.consuming
  unsent : d.NotBegun → v.sent = []
  read : d = .cancelled → es = []
  ledger : v.taken ++ v.pending ++ es = v.sent
  messages : v.consuming → ∀ e ∈ v.sent, e.deliveryTag ≠ none
  cancelsLast : CancelsLast v.sent
  closed : v.cancelled = true →
    d.MayBeCancelled ∧ ¬ v.consuming ∧ v.pending = [] ∧ es = []

/-- The consumer is at a stage. -/
def Consuming (c : ℕ) (s : Channel M) : Prop :=
  ∃ d es, AtConsumerStage c d es (s.consumerView c)

/-! ## The loop over the pending events -/

/-- The events of the consumer are split off, and the order of all is kept. -/
theorem Client.splitEvents_eq (c : ℕ) (events remainingEvents unprocessedMessages discarded :
    List (Event M)) :
    splitEvents c remainingEvents unprocessedMessages discarded events =
      (remainingEvents ++ events.filter (·.consumerTag ≠ c),
        unprocessedMessages ++ events.filter fun e => e.consumerTag = c ∧ e.deliveryTag ≠ none,
        discarded ++ events.filter fun e => e.consumerTag = c ∧ e.deliveryTag = none) := by
  induction events generalizing remainingEvents unprocessedMessages discarded with
  | nil => simp [splitEvents]
  | cons event events ih =>
    cases event with
    | consumerMessage tag deliveryTag body =>
      by_cases htag : tag = c
      · simp [splitEvents, htag, ih, Event.consumerTag, Event.deliveryTag]
      · simp [splitEvents, htag, ih, Event.consumerTag]
    | consumerCancellation tag =>
      by_cases htag : tag = c
      · simp [splitEvents, htag, ih, Event.consumerTag, Event.deliveryTag]
      · simp [splitEvents, htag, ih, Event.consumerTag]

theorem CancelsLast.of_append {events events' : List (Event M)} (h : CancelsLast (events' ++ events)) :
    CancelsLast events :=
  fun pre c post hsplit => h (events' ++ pre) c post (by rw [hsplit, List.append_assoc])

/-- When a cancellation comes last, splitting messages and cancellations off keeps their order. -/
theorem CancelsLast.split {events : List (Event M)} (h : CancelsLast events) :
    events.filter (·.deliveryTag ≠ none) ++ events.filter (·.deliveryTag = none) = events := by
  induction events with
  | nil => rfl
  | cons event events ih =>
    have htail : CancelsLast events := fun pre c post he => h (event :: pre) c post (by rw [he]; rfl)
    cases event with
    | consumerMessage tag deliveryTag body =>
      simpa [Event.deliveryTag] using ih htail
    | consumerCancellation tag =>
      obtain rfl : events = [] := h [] tag events rfl
      rfl

end NumentaApps.AmqpClient
