import Mathlib.Data.List.Basic
import NumentaApps.SynchronousAmqpClient

/-!
# The stages of publishing

What of a channel the publishing depends on, the stages in which it can be, and what the records of
the broker and the outcomes of the calls have in common at each of them. While acks are off, any
number of messages is on the way; with them on, there is one.
-/
namespace NumentaApps.AmqpClient
open TransitionSystem

variable {M : Type}

/-! ## What concerns publishing -/

/-- The publish with acks that ended so. -/
def Outcome.number : Outcome M → Option ℕ
  | .published number => some number
  | .unroutableError number _ => number
  | .nackError number _ => some number
  | _ => none

/-- The messages of an error. -/
def Outcome.messages : Outcome M → List (Published M)
  | .unroutableError _ messages => messages
  | .nackError _ messages => messages
  | _ => []

/-- The messages of an `UnroutableError`. -/
def Outcome.unroutable : Outcome M → List (Published M)
  | .unroutableError _ messages => messages
  | _ => []

def Outcome.Quiet (o : Outcome M) : Prop :=
  o.number = none ∧ o.messages = [] ∧ o ≠ .assertionError

def Method.ofPublish : Method M → Bool
  | .publish _ => true
  | .confirmSelect => true
  | _ => false

def Frame.ofPublish : Frame M → Bool
  | .basicReturn _ => true
  | .confirm _ _ => true
  | .confirmSelectOk => true
  | _ => false

def Frame.returned : Frame M → Option (Published M)
  | .basicReturn published => some published
  | _ => none

def Call.ofPublish : Call → Call
  | .enablePublisherAcks answered => .enablePublisherAcks answered
  | .publish number deliveryTag values => .publish number deliveryTag values
  | _ => .idle

def Client.ofPublish (c : Client M) : Client M :=
  { c with
    nextConsumerTag := 1
    consumerSet := []
    pendingEvents := []
    call := c.call.ofPublish
    outcomes := [] }

def Broker.ofPublish (b : Broker M) : Broker M :=
  { b with consumers := [], numDelivered := 0, sent := [] }

/-- The channel without what consumers need, and without the outcomes. -/
def Channel.ofPublish (s : Channel M) : Channel M :=
  ⟨s.client.ofPublish, s.methods.filter Method.ofPublish, s.frames.filter Frame.ofPublish,
    s.broker.ofPublish⟩

/-- What the broker returned of a publish. -/
def Broker.returnedFor (number : ℕ) (b : Broker M) : List (Published M) :=
  b.returned.filter (·.number = number)

def Broker.confirmsOf (number : ℕ) (b : Broker M) : List (ℕ × How) :=
  b.confirmed.filter (·.1 = number)

/-- How a publish with acks ends if it reports the fate of its message. -/
def Broker.fate (how : How) (number : ℕ) (b : Broker M) : Outcome M :=
  match how with
  | .nack => .nackError number (b.returnedFor number)
  | .ack =>
      match b.returnedFor number with
      | [] => .published number
      | messages => .unroutableError (some number) messages

/-! ## The stages -/

/-- Without acks the messages are waiting for the broker, maybe with the request to confirm behind
them; then the broker has switched, and its answer may have been read. With acks a message was
published, handled, maybe returned, and confirmed. -/
inductive Stage (M : Type) where
  | unconfirmed (waiting : List (Published M)) (selecting : Bool)
  | selected (answered : Bool)
  | idle
  | published (p : Published M)
  | handled (p : Published M) (returned : Bool)
  | confirmed (p : Published M) (how : How) (answered : Bool)

namespace Stage

def acks : Stage M → Bool
  | .unconfirmed _ _ => false
  | .selected _ => false
  | _ => true

def confirms : Stage M → Bool
  | .unconfirmed _ _ => false
  | _ => true

/-- The message of the call. -/
def current : Stage M → Option (Published M)
  | .published p => some p
  | .handled p _ => some p
  | .confirmed p _ _ => some p
  | _ => none

/-- What the broker may still return. -/
def waiting : Stage M → List (Published M)
  | .unconfirmed waiting _ => waiting
  | .published p => [p]
  | .handled p false => [p]
  | _ => []

def call (tag : ℕ) : Stage M → Call
  | .unconfirmed _ selecting => if selecting then .enablePublisherAcks false else .idle
  | .selected answered => .enablePublisherAcks answered
  | .idle => .idle
  | .published p => .publish p.number tag []
  | .handled p _ => .publish p.number tag []
  | .confirmed p how answered => .publish p.number tag (if answered then [(how, tag)] else [])

def methods : Stage M → List (Method M)
  | .unconfirmed waiting selecting =>
      waiting.map .publish ++ if selecting then [.confirmSelect] else []
  | .published p => [.publish p]
  | _ => []

/-- The last frame on the way to the client. -/
def answer (tag : ℕ) : Stage M → List (Frame M)
  | .selected false => [.confirmSelectOk]
  | .confirmed _ how false => [.confirm how tag]
  | _ => []

def unconfirmedMessages (tag : ℕ) : Stage M → List (Unconfirmed M)
  | .handled p returned => [⟨tag, p, returned⟩]
  | _ => []

/-- The broker's confirms of the current message. -/
def confirmedBy (number : ℕ) : Stage M → List (ℕ × How)
  | .confirmed _ how _ => [(number, how)]
  | _ => []

/-- The tag that the broker gave last. -/
def Counted (tag numConfirmable : ℕ) : Stage M → Prop
  | .unconfirmed _ _ => tag = 0
  | .selected _ => tag = 0 ∧ numConfirmable = 0
  | .published _ => tag = numConfirmable + 1
  | _ => tag = numConfirmable

/-- All returns have been read. -/
def AllRead : Stage M → Prop
  | .selected answered => answered = true
  | .idle => True
  | .published _ => True
  | .confirmed _ _ answered => answered = true
  | _ => False

/-- Nothing returned is kept. -/
def AllReported : Stage M → Prop
  | .idle => True
  | .published _ => True
  | _ => False

/-- The publishes with acks that have ended. -/
def ended (tag : ℕ) (d : Stage M) : ℕ :=
  if d.current.isSome then tag - 1 else tag

end Stage

/-- A channel is at a stage, with the returns that it has not read. -/
structure AtStage (d : Stage M) (rs : List (Published M)) (v : Channel M) : Prop where
  acks : v.client.pubacksSelected = d.acks
  call : v.client.call = d.call v.client.msgId
  methods : v.methods = d.methods
  frames : v.frames = rs.map .basicReturn ++ d.answer v.client.msgId
  confirms : v.broker.confirms = d.confirms
  unconfirmed : v.broker.unconfirmed = d.unconfirmedMessages v.client.msgId
  counted : d.Counted v.client.msgId v.broker.numConfirmable
  read : d.AllRead → rs = []
  reported : d.AllReported → v.client.returnedMessages = []

/-- The records of the broker, the messages on their way and the outcomes agree. -/
structure Accounts (d : Stage M) (rs : List (Published M)) (outcomes : List (Outcome M))
    (v : Channel M) : Prop where
  ledger : outcomes.flatMap Outcome.messages ++ v.client.returnedMessages ++ rs = v.broker.returned
  increasing : (v.broker.returned ++ d.waiting).Pairwise (·.number < ·.number)
  bounded : ∀ p ∈ v.broker.returned ++ d.waiting, p.number < v.client.numPublished
  msgId_le : v.client.msgId ≤ v.client.numPublished
  numbers : outcomes.filterMap Outcome.number =
    List.range' (v.client.numPublished - v.client.msgId) (d.ended v.client.msgId)
  confirmed : ∀ c ∈ v.broker.confirmed, c.1 < v.client.numPublished
  fates : ∀ o ∈ outcomes, o ≠ .assertionError ∧ ∀ n, o.number = some n →
    ∃ how, v.broker.confirmsOf n = [(n, how)] ∧ o = v.broker.fate how n
  current : ∀ p, d.current = some p →
    v.client.numPublished = p.number + 1 ∧ 0 < v.client.msgId ∧
    v.broker.returnedFor p.number = v.client.returnedMessages ++ rs ∧
    v.broker.confirmsOf p.number = d.confirmedBy p.number

/-- Publishing is at a stage, and all is accounted for. -/
def Publishing (s : Channel M) : Prop :=
  ∃ d rs, AtStage d rs s.ofPublish ∧ Accounts d rs s.client.outcomes s.ofPublish

end NumentaApps.AmqpClient
