import Mathlib.Data.List.Basic
import Mathlib.Data.List.Nodup
import NumentaApps.TransitionSystem

/-!
# The synchronous AMQP client

One channel of `SynchronousAmqpClient` with its broker. The calls of the client send their methods
and block until the answer is there; whatever frames come meanwhile, `read_frames` hands to the
callbacks, which only keep them in the channel context. The broker handles the methods in the order
in which they were sent. It returns an unroutable message of a confirmed channel before it confirms
it, confirms every message once, and sends a consumer nothing after its cancellation.
-/
namespace NumentaApps.AmqpClient
open TransitionSystem

/-- A published message, by the number of its publish on the channel. -/
structure Published (M : Type) where
  number : ℕ
  message : M
  mandatory : Bool
  deriving DecidableEq, Repr

/-- What `getNextEvent` returns; the broker numbers its deliveries on a channel. -/
inductive Event (M : Type) where
  | consumerMessage (consumerTag deliveryTag : ℕ) (body : M)
  | consumerCancellation (consumerTag : ℕ)
  deriving DecidableEq, Repr

def Event.consumerTag {M : Type} : Event M → ℕ
  | consumerMessage consumerTag _ _ => consumerTag
  | consumerCancellation consumerTag => consumerTag

/-- Methods from the client to the broker; a consumer's tag is the number in it. -/
inductive Method (M : Type) where
  | publish (published : Published M)
  | confirmSelect
  | consume (consumerTag : ℕ)
  | cancel (consumerTag : ℕ)
  deriving DecidableEq, Repr

inductive How where
  | ack
  | nack
  deriving DecidableEq, Repr

/-- What comes from the broker. -/
inductive Frame (M : Type) where
  | event (event : Event M)
  | basicReturn (published : Published M)
  | confirm (how : How) (deliveryTag : ℕ)
  | confirmSelectOk
  | consumeOk (consumerTag : ℕ)
  | cancelOk (consumerTag : ℕ)
  deriving DecidableEq, Repr

/-- The call that the user is in. `publish` keeps the values of its `_PubackState`, the others
whether their answer has come. -/
inductive Call where
  | idle
  | enablePublisherAcks (answered : Bool)
  | publish (number deliveryTag : ℕ) (values : List (How × ℕ))
  | createConsumer (consumerTag : ℕ) (answered : Bool)
  | cancelConsumer (consumerTag : ℕ) (answered : Bool)
  | getNextEvent
  deriving DecidableEq, Repr

/-- How a call ends. A publish without acks that raises has sent nothing. -/
inductive Outcome (M : Type) where
  | publishedUnconfirmed
  | published (number : ℕ)
  | unroutableError (number : Option ℕ) (messages : List (Published M))
  | nackError (number : ℕ) (messages : List (Published M))
  | enabledPublisherAcks
  | createdConsumer (consumerTag : ℕ)
  | nextEvent (event : Event M)
  | cancelledConsumer (consumerTag : ℕ) (messages : List (Event M)) (discarded : List (Event M))
  | assertionError
  deriving DecidableEq, Repr

/-- The channel context, what the AMQP library counts, the user's call, and the outcomes of all
calls so far. -/
structure Client (M : Type) where
  nextConsumerTag : ℕ
  consumerSet : List ℕ
  pendingEvents : List (Event M)
  pubacksSelected : Bool
  returnedMessages : List (Published M)
  numPublished : ℕ
  msgId : ℕ
  call : Call
  outcomes : List (Outcome M)
  deriving DecidableEq, Repr

/-- A message that is not confirmed yet. -/
structure Unconfirmed (M : Type) where
  deliveryTag : ℕ
  published : Published M
  returned : Bool
  deriving DecidableEq, Repr

/-- The broker's side of the channel, with a record of what it returned, confirmed and sent to
consumers. -/
structure Broker (M : Type) where
  confirms : Bool
  numConfirmable : ℕ
  unconfirmed : List (Unconfirmed M)
  consumers : List ℕ
  numDelivered : ℕ
  returned : List (Published M)
  confirmed : List (ℕ × How)
  sent : List (Event M)
  deriving DecidableEq, Repr

/-- Both sides, the methods that the broker has not handled and the frames that were not read. -/
structure Channel (M : Type) where
  client : Client M
  methods : List (Method M)
  frames : List (Frame M)
  broker : Broker M
  deriving DecidableEq, Repr

variable {M : Type}

/-! ## The callbacks -/

namespace Client

/-- A method is sent in a call. -/
def inCall (call : Call) (c : Client M) : Client M := { c with call := call }

def ends (outcome : Outcome M) (c : Client M) : Client M :=
  { c with call := .idle, outcomes := c.outcomes ++ [outcome] }

def onEvent (event : Event M) (c : Client M) : Client M :=
  match event with
  | .consumerMessage _ _ _ => { c with pendingEvents := c.pendingEvents ++ [event] }
  | .consumerCancellation consumerTag =>
      { c with
        pendingEvents := c.pendingEvents ++ [event]
        consumerSet := c.consumerSet.filter (· ≠ consumerTag) }

def onMessageReturn (published : Published M) (c : Client M) : Client M :=
  { c with returnedMessages := c.returnedMessages ++ [published] }

/-- `_PubackState.handleAck` and `handleNack`; the state of a publish that has ended is ready. -/
def onConfirm (how : How) (deliveryTag : ℕ) (c : Client M) : Client M :=
  match c.call with
  | .publish number tag [] => c.inCall (.publish number tag [(how, deliveryTag)])
  | _ => c.ends .assertionError

/-- One frame of `read_frames`. -/
def dispatch (frame : Frame M) (c : Client M) : Client M :=
  match frame with
  | .event event => c.onEvent event
  | .basicReturn published => c.onMessageReturn published
  | .confirm how deliveryTag => c.onConfirm how deliveryTag
  | .confirmSelectOk =>
      match c.call with
      | .enablePublisherAcks _ => c.inCall (.enablePublisherAcks true)
      | _ => c
  | .consumeOk _ =>
      match c.call with
      | .createConsumer consumerTag _ => c.inCall (.createConsumer consumerTag true)
      | _ => c
  | .cancelOk _ =>
      match c.call with
      | .cancelConsumer consumerTag _ => c.inCall (.cancelConsumer consumerTag true)
      | _ => c

/-- `_raiseAndClearIfReturnedMessages`, and how the call ends that makes it. -/
def raiseIfReturned (number : Option ℕ) (outcome : Outcome M) (c : Client M) : Client M :=
  match c.returnedMessages with
  | [] => c.ends outcome
  | messages => { c with returnedMessages := [] }.ends (.unroutableError number messages)

/-- The loop of `cancelConsumer` over the pending events: the messages of the consumer, its
cancellations and the remaining events. -/
def splitEvents (consumerTag : ℕ) (remainingEvents unprocessedMessages discarded : List (Event M)) :
    List (Event M) → List (Event M) × List (Event M) × List (Event M)
  | [] => (remainingEvents, unprocessedMessages, discarded)
  | .consumerMessage tag deliveryTag body :: events =>
      if tag = consumerTag then
        splitEvents consumerTag remainingEvents
          (unprocessedMessages ++ [.consumerMessage tag deliveryTag body]) discarded events
      else
        splitEvents consumerTag (remainingEvents ++ [.consumerMessage tag deliveryTag body])
          unprocessedMessages discarded events
  | .consumerCancellation tag :: events =>
      if tag = consumerTag then
        splitEvents consumerTag remainingEvents unprocessedMessages
          (discarded ++ [.consumerCancellation tag]) events
      else
        splitEvents consumerTag (remainingEvents ++ [.consumerCancellation tag])
          unprocessedMessages discarded events

/-- The rest of a call once it need not wait any more. -/
def finish (c : Client M) : Option (Client M) :=
  match c.call with
  | .idle => none
  | .enablePublisherAcks answered =>
      if answered then
        some ({ c with pubacksSelected := true }.raiseIfReturned none .enabledPublisherAcks)
      else none
  | .publish number deliveryTag values =>
      match values with
      | [] => none
      | [(how, responseTag)] =>
          if responseTag ≠ deliveryTag then some (c.ends .assertionError)
          else match how with
            | .nack => some ({ c with returnedMessages := [] }.ends
                (.nackError number c.returnedMessages))
            | .ack => some (c.raiseIfReturned (some number) (.published number))
      | _ => some (c.ends .assertionError)
  | .createConsumer consumerTag answered =>
      if answered then
        some ({ c with consumerSet := consumerTag :: c.consumerSet }.ends
          (.createdConsumer consumerTag))
      else none
  | .cancelConsumer consumerTag answered =>
      if answered then
        let (remainingEvents, unprocessedMessages, discarded) :=
          splitEvents consumerTag [] [] [] c.pendingEvents
        some ({ c with pendingEvents := remainingEvents }.ends
          (.cancelledConsumer consumerTag unprocessedMessages discarded))
      else none
  | .getNextEvent =>
      match c.pendingEvents with
      | [] => none
      | event :: events => some ({ c with pendingEvents := events }.ends (.nextEvent event))

end Client

/-! ## The broker -/

namespace Broker

/-- The handling of one method, and the frames that it sends. Without confirmations a message is
returned as it is handled. -/
def handle (unroutable : Bool) (method : Method M) (b : Broker M) : Broker M × List (Frame M) :=
  match method with
  | .publish published =>
      if b.confirms then
        ({ b with
          numConfirmable := b.numConfirmable + 1
          unconfirmed := b.unconfirmed ++ [⟨b.numConfirmable + 1, published, false⟩] }, [])
      else if published.mandatory ∧ unroutable then
        ({ b with returned := b.returned ++ [published] }, [.basicReturn published])
      else (b, [])
  | .confirmSelect => ({ b with confirms := true, numConfirmable := 0 }, [.confirmSelectOk])
  | .consume consumerTag =>
      ({ b with consumers := consumerTag :: b.consumers }, [.consumeOk consumerTag])
  | .cancel consumerTag =>
      ({ b with consumers := b.consumers.filter (· ≠ consumerTag) }, [.cancelOk consumerTag])

end Broker

/-! ## The channel -/

namespace Channel

/-- The calls of the user, the end of a call, the reading of a frame, and the broker's doings. -/
inductive Action (M : Type) where
  | enablePublisherAcks
  | publish (message : M) (mandatory : Bool)
  | createConsumer
  | cancelConsumer (consumerTag : ℕ)
  | getNextEvent
  | readFrame
  | finish
  | handle (unroutable : Bool)
  | sendReturn (i : ℕ)
  | sendConfirm (i : ℕ) (how : How)
  | deliver (consumerTag : ℕ) (body : M)
  | cancelByBroker (consumerTag : ℕ)
  deriving DecidableEq, Repr

/-- The client sends a method and waits. -/
def send (method : Method M) (call : Call) (s : Channel M) : Channel M :=
  { s with client := s.client.inCall call, methods := s.methods ++ [method] }

/-- `publish`, up to where it waits for its ack. -/
def publish (message : M) (mandatory : Bool) (s : Channel M) : Channel M :=
  let published : Published M := ⟨s.client.numPublished, message, mandatory⟩
  if s.client.pubacksSelected then
    if s.client.returnedMessages ≠ [] then { s with client := s.client.ends .assertionError }
    else
      { s with
        client := { s.client with
          numPublished := s.client.numPublished + 1
          msgId := s.client.msgId + 1
          call := .publish s.client.numPublished (s.client.msgId + 1) [] }
        methods := s.methods ++ [.publish published] }
  else if s.client.returnedMessages ≠ [] then
    { s with client := s.client.raiseIfReturned none .publishedUnconfirmed }
  else
    { s with
      client := { s.client with numPublished := s.client.numPublished + 1 }.ends
        .publishedUnconfirmed
      methods := s.methods ++ [.publish published] }

def act : Action M → Channel M → Option (Channel M)
  | .enablePublisherAcks, s =>
      if s.client.call ≠ .idle then none
      else if s.client.pubacksSelected then
        some { s with client := s.client.ends .enabledPublisherAcks }
      else
        -- the library counts the messages from here on
        some ({ s with client := { s.client with msgId := 0 } }.send .confirmSelect
          (.enablePublisherAcks false))
  | .publish message mandatory, s =>
      if s.client.call ≠ .idle then none else some (s.publish message mandatory)
  | .createConsumer, s =>
      if s.client.call ≠ .idle then none
      else
        some ({ s with client := { s.client with
            nextConsumerTag := s.client.nextConsumerTag + 1 } }.send
          (.consume s.client.nextConsumerTag) (.createConsumer s.client.nextConsumerTag false))
  | .cancelConsumer consumerTag, s =>
      -- of a consumer that was created
      if s.client.call ≠ .idle ∨ s.client.nextConsumerTag ≤ consumerTag then none
      else
        some ({ s with client := { s.client with
            consumerSet := s.client.consumerSet.filter (· ≠ consumerTag) } }.send
          (.cancel consumerTag) (.cancelConsumer consumerTag false))
  | .getNextEvent, s =>
      if s.client.call ≠ .idle then none
      else some { s with client := s.client.inCall .getNextEvent }
  | .readFrame, s =>
      if s.client.call = .idle then none
      else match s.frames with
        | [] => none
        | frame :: frames => some { s with client := s.client.dispatch frame, frames := frames }
  | .finish, s => s.client.finish.map fun client => { s with client := client }
  | .handle unroutable, s =>
      match s.methods with
      | [] => none
      | method :: methods =>
          let (broker, frames) := s.broker.handle unroutable method
          some { s with methods := methods, broker := broker, frames := s.frames ++ frames }
  | .sendReturn i, s =>
      s.broker.unconfirmed[i]?.bind fun u =>
        if u.published.mandatory ∧ ¬u.returned then
          some { s with
            broker := { s.broker with
              unconfirmed := s.broker.unconfirmed.set i { u with returned := true }
              returned := s.broker.returned ++ [u.published] }
            frames := s.frames ++ [.basicReturn u.published] }
        else none
  | .sendConfirm i how, s =>
      s.broker.unconfirmed[i]?.map fun u =>
        { s with
          broker := { s.broker with
            unconfirmed := s.broker.unconfirmed.eraseIdx i
            confirmed := s.broker.confirmed ++ [(u.published.number, how)] }
          frames := s.frames ++ [.confirm how u.deliveryTag] }
  | .deliver consumerTag body, s =>
      if consumerTag ∈ s.broker.consumers then
        let event : Event M := .consumerMessage consumerTag (s.broker.numDelivered + 1) body
        some { s with
          broker := { s.broker with
            numDelivered := s.broker.numDelivered + 1
            sent := s.broker.sent ++ [event] }
          frames := s.frames ++ [.event event] }
      else none
  | .cancelByBroker consumerTag, s =>
      if consumerTag ∈ s.broker.consumers then
        some { s with
          broker := { s.broker with
            consumers := s.broker.consumers.filter (· ≠ consumerTag)
            sent := s.broker.sent ++ [.consumerCancellation consumerTag] }
          frames := s.frames ++ [.event (.consumerCancellation consumerTag)] }
      else none

end Channel

def newChannel (M : Type) : Channel M :=
  ⟨⟨1, [], [], false, [], 0, 0, .idle, []⟩, [], [], ⟨false, 0, [], [], 0, [], [], []⟩⟩

def channelSystem (M : Type) : System (Channel M) (Channel.Action M) where
  init s := s = newChannel M
  next := Channel.act

/-- In a list whose numbers are distinct, one element has a number that occurs. -/
theorem filter_eq_singleton {α : Type} {f : α → Option ℕ} {l : List α} (h : (l.filterMap f).Nodup)
    {n : ℕ} (hn : n ∈ l.filterMap f) : ∃ a, f a = some n ∧ l.filter (f · = some n) = [a] := by
  induction l with
  | nil => cases hn
  | cons a l ih =>
    cases ha : f a with
    | none =>
      rw [List.filterMap_cons_none ha] at h hn
      obtain ⟨b, hb, hl⟩ := ih h hn
      refine ⟨b, hb, ?_⟩
      rw [List.filter_cons_of_neg (by simp [ha]), hl]
    | some m =>
      rw [List.filterMap_cons_some ha] at h hn
      obtain ⟨hm, hl⟩ := List.nodup_cons.mp h
      by_cases hmn : m = n
      · subst hmn
        have hnone : l.filter (f · = some m) = [] := by
          apply List.filter_eq_nil_iff.mpr
          intro b hb hbm
          exact hm (List.mem_filterMap.mpr ⟨b, hb, of_decide_eq_true hbm⟩)
        refine ⟨a, ha, ?_⟩
        rw [List.filter_cons_of_pos (by simp [ha]), hnone]
      · have hn' : n ∈ l.filterMap f := (List.mem_cons.mp hn).resolve_left fun h => hmn h.symm
        obtain ⟨b, hb, hlb⟩ := ih hl hn'
        refine ⟨b, hb, ?_⟩
        rw [List.filter_cons_of_neg (by simp [ha, hmn]), hlb]

end NumentaApps.AmqpClient
