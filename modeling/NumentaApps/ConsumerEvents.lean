import NumentaApps.ConsumerRuns

/-!
# Every delivered message is accounted for

What the broker sent to a consumer is pending or on its way, or the user has got it, once and in
order: by `getNextEvent`, or from the cancellation of the consumer.
-/
namespace NumentaApps.AmqpClient
open TransitionSystem

variable {M : Type} {s t : Channel M}

/-! ## The outcomes -/

/-- The lists of a cancellation are the messages and the cancellations of its own consumer. -/
def Outcome.OwnEvents : Outcome M → Prop
  | .cancelledConsumer consumerTag messages discarded =>
      (∀ e ∈ messages, e.consumerTag = consumerTag ∧ e.deliveryTag ≠ none) ∧
        ∀ e ∈ discarded, e.consumerTag = consumerTag ∧ e.deliveryTag = none
  | _ => True

/-- A call ends with events that were pending. -/
structure Outcome.TakesFrom (pending : List (Event M)) (o : Outcome M) : Prop where
  pending : ∀ e ∈ o.taken, e ∈ pending
  own : o.OwnEvents

theorem Outcome.TakesFrom.of_eventless {pending : List (Event M)} {o : Outcome M}
    (h : o.Eventless) : o.TakesFrom pending := by
  obtain ⟨htaken, hcancels⟩ := h
  refine ⟨fun e he => ?_, ?_⟩
  · rw [htaken] at he
    cases he
  · cases o with
    | cancelledConsumer tag messages discarded =>
      have htag := hcancels tag
      simp [cancels] at htag
    | _ => trivial

/-- A step ends no call, or one. -/
def Channel.EndsCall (s t : Channel M) : Prop :=
  t.client.outcomes = s.client.outcomes ∨
    ∃ o, t.client.outcomes = s.client.outcomes ++ [o] ∧ o.TakesFrom s.client.pendingEvents

theorem Client.finish_outcomes {k k' : Client M} (h : k.finish = some k') :
    ∃ o, k'.outcomes = k.outcomes ++ [o] ∧ o.TakesFrom k.pendingEvents := by
  have hraise : ∀ (k' : Client M) number outcome, outcome.Eventless → k'.outcomes = k.outcomes →
      ∃ o, (k'.raiseIfReturned number outcome).outcomes = k.outcomes ++ [o] ∧
        o.TakesFrom k.pendingEvents := by
    intro k' number outcome hquiet hk
    obtain ⟨o, hraise, ho⟩ := k'.raiseIfReturned_eq number outcome
    refine ⟨o, ?_, .of_eventless ?_⟩
    · rw [hraise, ← hk]
      rfl
    · rcases ho with ⟨-, rfl⟩ | ⟨-, rfl⟩
      · exact hquiet
      · exact ⟨rfl, fun _ => rfl⟩
  simp only [Client.finish] at h
  split at h
  · cases h
  · split at h
    · obtain rfl := Option.some.inj h
      exact hraise _ _ _ ⟨rfl, fun _ => rfl⟩ rfl
    · cases h
  · split at h
    · cases h
    · split at h
      · obtain rfl := Option.some.inj h
        exact ⟨_, rfl, .of_eventless ⟨rfl, fun _ => rfl⟩⟩
      · split at h
        · obtain rfl := Option.some.inj h
          exact ⟨_, rfl, .of_eventless ⟨rfl, fun _ => rfl⟩⟩
        · obtain rfl := Option.some.inj h
          exact hraise _ _ _ ⟨rfl, fun _ => rfl⟩ rfl
    · obtain rfl := Option.some.inj h
      exact ⟨_, rfl, .of_eventless ⟨rfl, fun _ => rfl⟩⟩
  · split at h
    · obtain rfl := Option.some.inj h
      exact ⟨_, rfl, .of_eventless ⟨rfl, fun _ => rfl⟩⟩
    · cases h
  · split at h
    · obtain rfl := Option.some.inj h
      refine ⟨_, rfl, ?_, ?_⟩
      · intro e he
        rw [splitEvents_eq] at he
        rcases List.mem_append.mp he with he | he
        · exact (List.mem_filter.mp he).1
        · exact (List.mem_filter.mp he).1
      · rw [splitEvents_eq]
        constructor
        · intro e he
          exact of_decide_eq_true (List.mem_filter.mp he).2
        · intro e he
          exact of_decide_eq_true (List.mem_filter.mp he).2
    · cases h
  · split at h
    · cases h
    · next event events hevents =>
      obtain rfl := Option.some.inj h
      refine ⟨_, rfl, ?_, trivial⟩
      intro e he
      rw [hevents, List.mem_singleton.mp he]
      exact List.mem_cons_self

theorem Channel.publish_outcomes (message : M) (mandatory : Bool) (s : Channel M) :
    s.EndsCall (s.publish message mandatory) := by
  unfold publish
  split
  · split
    · exact .inr ⟨_, rfl, .of_eventless ⟨rfl, fun _ => rfl⟩⟩
    · exact .inl rfl
  · split
    · obtain ⟨o, hraise, ho⟩ := s.client.raiseIfReturned_eq none .publishedUnconfirmed
      refine .inr ⟨o, by rw [hraise]; rfl, .of_eventless ?_⟩
      rcases ho with ⟨-, rfl⟩ | ⟨-, rfl⟩ <;> exact ⟨rfl, fun _ => rfl⟩
    · exact .inr ⟨_, rfl, .of_eventless ⟨rfl, fun _ => rfl⟩⟩

theorem Client.dispatch_outcomes (frame : Frame M) (k : Client M) :
    (k.dispatch frame).outcomes = k.outcomes ∨
      (k.dispatch frame).outcomes = k.outcomes ++ [.assertionError] := by
  cases frame with
  | event e => cases e <;> exact .inl rfl
  | basicReturn p => exact .inl rfl
  | confirm how tag =>
    simp only [dispatch, onConfirm]
    split
    · exact .inl rfl
    · exact .inr rfl
  | confirmSelectOk => simp only [dispatch]; split <;> exact .inl rfl
  | consumeOk tag => simp only [dispatch]; split <;> exact .inl rfl
  | cancelOk tag => simp only [dispatch]; split <;> exact .inl rfl

theorem Channel.endsCall {a : Channel.Action M} (hnext : (channelSystem M).next a s = some t) :
    s.EndsCall t := by
  have hact : Channel.act a s = some t := hnext
  cases a with
  | enablePublisherAcks =>
    simp only [act] at hact
    split at hact
    · cases hact
    · split at hact
      · obtain rfl := Option.some.inj hact
        exact .inr ⟨_, rfl, .of_eventless ⟨rfl, fun _ => rfl⟩⟩
      · obtain rfl := Option.some.inj hact
        exact .inl rfl
  | publish message mandatory =>
    simp only [act] at hact
    split at hact
    · cases hact
    · obtain rfl := Option.some.inj hact
      exact s.publish_outcomes message mandatory
  | createConsumer =>
    simp only [act] at hact
    split at hact
    · cases hact
    · obtain rfl := Option.some.inj hact
      exact .inl rfl
  | cancelConsumer consumerTag =>
    simp only [act] at hact
    split at hact
    · cases hact
    · obtain rfl := Option.some.inj hact
      exact .inl rfl
  | getNextEvent =>
    simp only [act] at hact
    split at hact
    · cases hact
    · obtain rfl := Option.some.inj hact
      exact .inl rfl
  | readFrame =>
    simp only [act] at hact
    split at hact
    · cases hact
    · split at hact
      · cases hact
      · obtain rfl := Option.some.inj hact
        rcases Client.dispatch_outcomes _ s.client with hsame | hassert
        · exact .inl hsame
        · exact .inr ⟨_, hassert, .of_eventless ⟨rfl, fun _ => rfl⟩⟩
  | finish =>
    obtain ⟨client, hfinish, rfl⟩ := Option.map_eq_some_iff.mp hact
    exact .inr (Client.finish_outcomes hfinish)
  | handle unroutable =>
    simp only [act] at hact
    split at hact
    · cases hact
    · obtain rfl := Option.some.inj hact
      exact .inl rfl
  | sendReturn i =>
    obtain ⟨u, hu, hact⟩ := Option.bind_eq_some_iff.mp hact
    split at hact
    · obtain rfl := Option.some.inj hact
      exact .inl rfl
    · cases hact
  | sendConfirm i how =>
    obtain ⟨u, hu, rfl⟩ := Option.map_eq_some_iff.mp hact
    exact .inl rfl
  | deliver consumerTag body =>
    simp only [act] at hact
    split at hact
    · obtain rfl := Option.some.inj hact
      exact .inl rfl
    · cases hact
  | cancelByBroker consumerTag =>
    simp only [act] at hact
    split at hact
    · obtain rfl := Option.some.inj hact
      exact .inl rfl
    · cases hact

/-- No call gives events of a consumer that was cancelled before. -/
structure Settled (outcomes : List (Outcome M)) : Prop where
  own : ∀ o ∈ outcomes, o.OwnEvents
  cancelled : outcomes.Pairwise fun o o' =>
    ∀ c, o.cancels c = true → ∀ e ∈ o'.taken, e.consumerTag ≠ c

theorem Settled.next (h : Settled s.client.outcomes) (hall : ∀ c, Consuming c s)
    (hends : s.EndsCall t) : Settled t.client.outcomes := by
  rcases hends with hsame | ⟨o, ho, htakes⟩
  · rw [hsame]
    exact h
  · rw [ho]
    constructor
    · intro o' ho'
      rcases List.mem_append.mp ho' with ho' | ho'
      · exact h.own o' ho'
      · exact List.mem_singleton.mp ho' ▸ htakes.own
    · apply List.pairwise_append.mpr
      refine ⟨h.cancelled, List.pairwise_singleton _ _, fun o₁ ho₁ o₂ ho₂ c hc e he htag => ?_⟩
      obtain rfl := List.mem_singleton.mp ho₂
      obtain ⟨d, es, hd⟩ := hall c
      have hcancelled : s.client.outcomes.any (·.cancels c) = true :=
        List.any_eq_true.mpr ⟨o₁, ho₁, hc⟩
      have hnil : s.client.pendingEvents.filter (·.consumerTag = c) = [] :=
        (hd.closed hcancelled).2.2.1
      have hmem : e ∈ s.client.pendingEvents.filter (·.consumerTag = c) :=
        List.mem_filter.mpr ⟨htakes.pending e he, decide_eq_true htag⟩
      rw [hnil] at hmem
      cases hmem

/-! ## The deliveries -/

/-- The broker numbers its deliveries. -/
structure Numbered (b : Broker M) : Prop where
  increasing : (b.sent.filterMap Event.deliveryTag).Pairwise (· < ·)
  bounded : ∀ n ∈ b.sent.filterMap Event.deliveryTag, n ≤ b.numDelivered

theorem Numbered.deliver {b : Broker M} (h : Numbered b) (consumerTag : ℕ) (body : M) :
    Numbered { b with
      numDelivered := b.numDelivered + 1
      sent := b.sent ++ [.consumerMessage consumerTag (b.numDelivered + 1) body] } := by
  have htags : (b.sent ++ [Event.consumerMessage consumerTag (b.numDelivered + 1) body]).filterMap
      Event.deliveryTag = b.sent.filterMap Event.deliveryTag ++ [b.numDelivered + 1] := by
    rw [List.filterMap_append]
    rfl
  constructor
  · rw [htags]
    apply List.pairwise_append.mpr
    refine ⟨h.increasing, List.pairwise_singleton _ _, fun n hn m hm => ?_⟩
    rw [List.mem_singleton.mp hm]
    exact Nat.lt_succ_of_le (h.bounded n hn)
  · rw [htags]
    intro n hn
    rcases List.mem_append.mp hn with hn | hn
    · exact Nat.le_succ_of_le (h.bounded n hn)
    · exact Nat.le_of_eq (List.mem_singleton.mp hn)

theorem Numbered.next {a : Channel.Action M} (h : Numbered s.broker)
    (hnext : (channelSystem M).next a s = some t) : Numbered t.broker := by
  have hact : Channel.act a s = some t := hnext
  cases a with
  | deliver consumerTag body =>
    simp only [Channel.act] at hact
    split at hact
    · obtain rfl := Option.some.inj hact
      exact h.deliver consumerTag body
    · cases hact
  | cancelByBroker consumerTag =>
    simp only [Channel.act] at hact
    split at hact
    · obtain rfl := Option.some.inj hact
      have htags : (s.broker.sent ++ [Event.consumerCancellation consumerTag]).filterMap
          Event.deliveryTag = s.broker.sent.filterMap Event.deliveryTag := by
        rw [List.filterMap_append]
        exact List.append_nil _
      exact ⟨by rw [htags]; exact h.increasing, by rw [htags]; exact h.bounded⟩
    · cases hact
  | handle unroutable =>
    simp only [Channel.act] at hact
    split at hact
    · cases hact
    · next method methods hmethods =>
      obtain rfl := Option.some.inj hact
      cases method with
      | publish p =>
        simp only [Broker.handle]
        split
        · exact ⟨h.increasing, h.bounded⟩
        · split <;> exact ⟨h.increasing, h.bounded⟩
      | _ => exact ⟨h.increasing, h.bounded⟩
  | sendReturn i =>
    obtain ⟨u, hu, hact⟩ := Option.bind_eq_some_iff.mp hact
    split at hact
    · obtain rfl := Option.some.inj hact
      exact ⟨h.increasing, h.bounded⟩
    · cases hact
  | sendConfirm i how =>
    obtain ⟨u, hu, rfl⟩ := Option.map_eq_some_iff.mp hact
    exact ⟨h.increasing, h.bounded⟩
  | finish =>
    obtain ⟨client, hfinish, rfl⟩ := Option.map_eq_some_iff.mp hact
    exact h
  | enablePublisherAcks =>
    simp only [Channel.act] at hact
    split at hact
    · cases hact
    · split at hact <;> (obtain rfl := Option.some.inj hact; exact h)
  | publish message mandatory =>
    simp only [Channel.act] at hact
    split at hact
    · cases hact
    · obtain rfl := Option.some.inj hact
      unfold Channel.publish
      split <;> split <;> exact h
  | readFrame =>
    simp only [Channel.act] at hact
    split at hact
    · cases hact
    · split at hact
      · cases hact
      · obtain rfl := Option.some.inj hact
        exact h
  | createConsumer =>
    simp only [Channel.act] at hact
    split at hact
    · cases hact
    · obtain rfl := Option.some.inj hact
      exact h
  | cancelConsumer consumerTag =>
    simp only [Channel.act] at hact
    split at hact
    · cases hact
    · obtain rfl := Option.some.inj hact
      exact h
  | getNextEvent =>
    simp only [Channel.act] at hact
    split at hact
    · cases hact
    · obtain rfl := Option.some.inj hact
      exact h

theorem Reachable.settled (h : Reachable (channelSystem M) s) :
    Settled s.client.outcomes ∧ Numbered s.broker := by
  apply h.invariant
  · rintro s rfl
    exact ⟨⟨fun o ho => absurd ho List.not_mem_nil, List.Pairwise.nil⟩,
      ⟨List.Pairwise.nil, fun n hn => absurd hn List.not_mem_nil⟩⟩
  · intro a s t hreach hs hnext
    exact ⟨hs.1.next (Reachable.consuming hreach) (Channel.endsCall hnext), hs.2.next hnext⟩

/-! ## What the user gets -/

/-- The frames that carry events. -/
theorem filterMap_consumerEvent (c : ℕ) (frames : List (Frame M)) :
    (frames.filterMap Frame.consumerEvent).filter (·.consumerTag = c) =
      (frames.filter (·.consumerTag = some c)).filterMap Frame.consumerEvent := by
  rw [List.filter_filterMap, List.filterMap_filter]
  congr 1
  funext frame
  cases frame with
  | event e =>
    by_cases htag : e.consumerTag = c <;>
      simp [Frame.consumerEvent, Frame.consumerTag, htag, Option.filter]
  | consumeOk tag => simp [Frame.consumerEvent]
  | cancelOk tag => simp [Frame.consumerEvent]
  | basicReturn p => rfl
  | confirm how tag => rfl
  | confirmSelectOk => rfl

/-- Of each consumer: what was taken, what is pending and what is on its way is what was sent. -/
theorem Consuming.ledger {c : ℕ} (h : Consuming c s) :
    (s.client.outcomes.flatMap Outcome.taken ++ s.client.pendingEvents ++
        s.frames.filterMap Frame.consumerEvent).filter (·.consumerTag = c) =
      s.broker.sent.filter (·.consumerTag = c) := by
  obtain ⟨d, es, hd⟩ := h
  have hevents : (s.frames.filterMap Frame.consumerEvent).filter (·.consumerTag = c) = es := by
    have hframes : s.frames.filter (·.consumerTag = some c) =
        d.first c ++ es.map .event ++ d.last c := hd.frames
    have hfirst : (d.first (M := M) c).filterMap Frame.consumerEvent = [] := by cases d <;> rfl
    have hlast : (d.last (M := M) c).filterMap Frame.consumerEvent = [] := by cases d <;> rfl
    have hmap : (es.map Frame.event).filterMap Frame.consumerEvent = es := by
      rw [List.filterMap_map]
      exact List.filterMap_some
    rw [filterMap_consumerEvent, hframes, List.filterMap_append, List.filterMap_append, hfirst,
      hlast, hmap, List.nil_append, List.append_nil]
  rw [List.filter_append, List.filter_append, hevents]
  exact hd.ledger

/-- What is not with the broker or on its way any more was given to the user once. -/
theorem handed_once (hall : ∀ c, Consuming c s) (hsettled : Settled s.client.outcomes)
    (hnumbered : Numbered s.broker) {e : Event M} {n : ℕ} (he : e ∈ s.broker.sent)
    (hn : e.deliveryTag = some n) (hpending : e ∉ s.client.pendingEvents)
    (hframes : .event e ∉ s.frames) :
    (s.client.outcomes.flatMap Outcome.handed).filter (·.deliveryTag = some n) = [e] := by
  have hsent : s.broker.sent.filter (·.deliveryTag = some n) = [e] := by
    have hnodup : (s.broker.sent.filterMap Event.deliveryTag).Nodup :=
      hnumbered.increasing.imp fun h => Nat.ne_of_lt h
    obtain ⟨x, hx, hfilter⟩ :=
      filter_eq_singleton hnodup (List.mem_filterMap.mpr ⟨e, he, hn⟩)
    have hmem : e ∈ s.broker.sent.filter (·.deliveryTag = some n) :=
      List.mem_filter.mpr ⟨he, decide_eq_true hn⟩
    rw [hfilter] at hmem
    rw [hfilter, List.mem_singleton.mp hmem]
  have hunique : ∀ x ∈ s.broker.sent, x.deliveryTag = some n → x = e := by
    intro x hx hxn
    have hmem : x ∈ s.broker.sent.filter (·.deliveryTag = some n) :=
      List.mem_filter.mpr ⟨hx, decide_eq_true hxn⟩
    rw [hsent] at hmem
    exact List.mem_singleton.mp hmem
  let total := s.client.outcomes.flatMap Outcome.taken ++ s.client.pendingEvents ++
    s.frames.filterMap Frame.consumerEvent
  have htotal : ∀ x ∈ total, x ∈ s.broker.sent := by
    intro x hx
    have hmem : x ∈ total.filter (·.consumerTag = x.consumerTag) :=
      List.mem_filter.mpr ⟨hx, decide_eq_true rfl⟩
    rw [(hall x.consumerTag).ledger] at hmem
    exact (List.mem_filter.mp hmem).1
  -- all of this delivery tag is of the consumer of `e`
  have hown : ∀ l : List (Event M), (∀ x ∈ l, x ∈ s.broker.sent) →
      l.filter (·.deliveryTag = some n) =
        (l.filter (·.consumerTag = e.consumerTag)).filter (·.deliveryTag = some n) := by
    intro l hl
    rw [List.filter_filter]
    apply List.filter_congr
    intro x hx
    by_cases hxn : x.deliveryTag = some n
    · simp [hunique x (hl x hx) hxn]
    · simp [hxn]
  have hall' : total.filter (·.deliveryTag = some n) = [e] := by
    rw [hown total htotal, (hall e.consumerTag).ledger, ← hown _ fun x hx => hx, hsent]
  have hnone : ∀ l : List (Event M), (∀ x ∈ l, x ∈ total) → e ∉ l →
      l.filter (·.deliveryTag = some n) = [] := by
    intro l hl hel
    apply List.filter_eq_nil_iff.mpr
    intro x hx hxn
    exact hel (hunique x (htotal x (hl x hx)) (of_decide_eq_true hxn) ▸ hx)
  have hrest : s.client.pendingEvents.filter (·.deliveryTag = some n) = [] :=
    hnone _ (fun x hx => List.mem_append_left _ (List.mem_append_right _ hx)) hpending
  have hway : (s.frames.filterMap Frame.consumerEvent).filter (·.deliveryTag = some n) = [] := by
    apply hnone _ fun x hx => List.mem_append_right _ hx
    intro hmem
    obtain ⟨frame, hframe, hfe⟩ := List.mem_filterMap.mp hmem
    cases frame with
    | event x =>
      obtain rfl := Option.some.inj hfe
      exact hframes hframe
    | _ => cases hfe
  have hhanded : (s.client.outcomes.flatMap Outcome.handed).filter (·.deliveryTag = some n) =
      (s.client.outcomes.flatMap Outcome.taken).filter (·.deliveryTag = some n) := by
    rw [List.filter_flatMap, List.filter_flatMap]
    apply List.flatMap_congr
    intro o ho
    cases o with
    | cancelledConsumer tag messages discarded =>
      have hdiscarded : discarded.filter (·.deliveryTag = some n) = [] := by
        apply List.filter_eq_nil_iff.mpr
        intro x hx
        simp [((hsettled.own _ ho).2 x hx).2]
      show messages.filter _ = (messages ++ discarded).filter _
      rw [List.filter_append, hdiscarded, List.append_nil]
    | _ => rfl
  rw [List.filter_append, List.filter_append, hrest, hway, List.append_nil, List.append_nil]
    at hall'
  exact hhanded.trans hall'

/-- A cancellation that the user gets is the last event of its consumer. -/
theorem Consuming.cancellation_last {c : ℕ} (h : Consuming c s) {pre post : List (Outcome M)}
    (houtcomes : s.client.outcomes = pre ++ .nextEvent (.consumerCancellation c) :: post) :
    (pre.flatMap Outcome.taken).filter (·.consumerTag = c) ++ [.consumerCancellation c] =
        s.broker.sent.filter (·.consumerTag = c) ∧
      ∀ o ∈ post, ∀ e ∈ o.taken, e.consumerTag ≠ c := by
  have hledger := h.ledger
  obtain ⟨d, es, hd⟩ := h
  have hlast : CancelsLast (s.broker.sent.filter (·.consumerTag = c)) := hd.cancelsLast
  have hcons : ∀ l : List (Event M), (.consumerCancellation c :: l).filter (·.consumerTag = c) =
      .consumerCancellation c :: l.filter (·.consumerTag = c) :=
    fun l => List.filter_cons_of_pos (by simp [Event.consumerTag])
  rw [houtcomes, List.flatMap_append, List.flatMap_cons] at hledger
  rw [show Outcome.taken (.nextEvent (Event.consumerCancellation (M := M) c)) =
    [.consumerCancellation c] from rfl] at hledger
  simp only [List.filter_append, hcons, List.nil_append, List.append_assoc,
    List.cons_append] at hledger
  have hnil := hlast _ c _ hledger.symm
  rw [hnil] at hledger
  refine ⟨hledger, fun o ho e he htag => ?_⟩
  have hmem : e ∈ (post.flatMap Outcome.taken).filter (·.consumerTag = c) :=
    List.mem_filter.mpr ⟨List.mem_flatMap.mpr ⟨o, ho, he⟩, decide_eq_true htag⟩
  rw [(List.append_eq_nil_iff.mp hnil).1] at hmem
  cases hmem

/-- Cancelling a consumer takes its own events and leaves the others as they are. -/
theorem cancelConsumer_finish {c : ℕ} {answered : Bool}
    (hcall : s.client.call = .cancelConsumer c answered)
    (hnext : (channelSystem M).next .finish s = some t) :
    t.client.pendingEvents = s.client.pendingEvents.filter (·.consumerTag ≠ c) ∧
      t.client.outcomes = s.client.outcomes ++ [.cancelledConsumer c
        (s.client.pendingEvents.filter fun e => e.consumerTag = c ∧ e.deliveryTag ≠ none)
        (s.client.pendingEvents.filter fun e => e.consumerTag = c ∧ e.deliveryTag = none)] := by
  obtain ⟨client, hfinish, rfl⟩ := Option.map_eq_some_iff.mp hnext
  simp only [Client.finish, hcall] at hfinish
  split at hfinish
  · obtain rfl := Option.some.inj hfinish
    rw [Client.splitEvents_eq]
    exact ⟨rfl, rfl⟩
  · cases hfinish

/-- Every message that is not pending any more was given to the user once, by `getNextEvent` or by
the cancellation of its consumer, and for each consumer in order of arrival. A cancellation takes no
event of another consumer. What the broker cancels is reported after all messages of the consumer,
once, and nothing of a consumer comes after the user has cancelled it. -/
theorem every_event_once (h : Reachable (channelSystem M) s) :
    (∀ e n, e ∈ s.broker.sent → e.deliveryTag = some n → e ∉ s.client.pendingEvents →
      .event e ∉ s.frames →
      (s.client.outcomes.flatMap Outcome.handed).filter (·.deliveryTag = some n) = [e]) ∧
    (∀ c, (s.client.outcomes.flatMap Outcome.taken ++ s.client.pendingEvents ++
        s.frames.filterMap Frame.consumerEvent).filter (·.consumerTag = c) =
      s.broker.sent.filter (·.consumerTag = c)) ∧
    (∀ o ∈ s.client.outcomes, o.OwnEvents) ∧
    (∀ c answered t, s.client.call = .cancelConsumer c answered →
      (channelSystem M).next .finish s = some t →
      t.client.pendingEvents = s.client.pendingEvents.filter (·.consumerTag ≠ c)) ∧
    (∀ pre c post, s.client.outcomes = pre ++ .nextEvent (.consumerCancellation c) :: post →
      (pre.flatMap Outcome.taken).filter (·.consumerTag = c) ++ [.consumerCancellation c] =
          s.broker.sent.filter (·.consumerTag = c) ∧
        ∀ o ∈ post, ∀ e ∈ o.taken, e.consumerTag ≠ c) ∧
    (∀ pre c messages discarded post,
      s.client.outcomes = pre ++ .cancelledConsumer c messages discarded :: post →
      ∀ o ∈ post, ∀ e ∈ o.taken, e.consumerTag ≠ c) := by
  have hall : ∀ c, Consuming c s := Reachable.consuming h
  obtain ⟨hsettled, hnumbered⟩ := Reachable.settled h
  refine ⟨?_, fun c => (hall c).ledger, hsettled.own, ?_, ?_, ?_⟩
  · intro e n he hn hpending hframes
    exact handed_once hall hsettled hnumbered he hn hpending hframes
  · exact fun c answered t hcall hnext => (cancelConsumer_finish hcall hnext).1
  · exact fun pre c post houtcomes => (hall c).cancellation_last houtcomes
  · intro pre c messages discarded post houtcomes o ho
    have hcancelled := hsettled.cancelled
    rw [houtcomes] at hcancelled
    have hrest := (List.pairwise_cons.mp (List.pairwise_append.mp hcancelled).2.1).1
    exact hrest o ho c (decide_eq_true rfl)

/-- Two consumers; the first is cancelled with a message pending, the second by the broker. -/
def consumedActions : List (Channel.Action ℕ) :=
  [.createConsumer, .handle false, .readFrame, .finish, .createConsumer, .handle false, .readFrame,
    .finish, .deliver 1 5, .deliver 2 6, .cancelConsumer 1, .deliver 1 7, .handle false,
    .cancelByBroker 2, .readFrame, .readFrame, .readFrame, .readFrame, .finish, .getNextEvent,
    .finish, .getNextEvent, .readFrame, .finish]

theorem every_event_once_consumed :
    ∃ s, (channelSystem ℕ).exec consumedActions (newChannel ℕ) = some s ∧
      s.client.outcomes = [.createdConsumer 1, .createdConsumer 2,
        .cancelledConsumer 1 [.consumerMessage 1 1 5, .consumerMessage 1 3 7] [],
        .nextEvent (.consumerMessage 2 2 6), .nextEvent (.consumerCancellation 2)] ∧
      (s.client.outcomes.flatMap Outcome.handed).filter (·.deliveryTag = some 3) =
        [.consumerMessage 1 3 7] ∧
      [.consumerMessage 2 2 6, .consumerCancellation 2] =
        s.broker.sent.filter (·.consumerTag = 2) := by
  have hexec : ∃ s, (channelSystem ℕ).exec consumedActions (newChannel ℕ) = some s := ⟨_, rfl⟩
  obtain ⟨s, hs⟩ := hexec
  have hreach : Reachable (channelSystem ℕ) s := (Reachable.init rfl).exec hs
  obtain ⟨honce, -, -, -, hcancellation, -⟩ := every_event_once hreach
  obtain rfl := Option.some.inj hs
  exact ⟨_, rfl, rfl, honce _ 3 (List.mem_of_getElem? (i := 2) rfl) rfl List.not_mem_nil
    List.not_mem_nil, (hcancellation _ 2 [] rfl).1⟩

end NumentaApps.AmqpClient
