import NumentaApps.PublishSteps

/-!
# Publishing in runs

In every state that a channel reaches, publishing is at a stage; and what every step keeps of the
counters, of the outcomes and of the messages on their way.
-/
namespace NumentaApps.AmqpClient
open TransitionSystem

variable {M : Type} {s t : Channel M}

/-! ## Every step -/

theorem publishing_init (h : (channelSystem M).init s) : Publishing s := by
  obtain rfl := h
  refine ⟨.unconfirmed [] false, [], ?_, ?_⟩
  · exact {
      acks := rfl, call := rfl, methods := rfl, frames := rfl, confirms := rfl, unconfirmed := rfl
      counted := rfl, read := fun h => h.elim, reported := fun h => h.elim }
  · exact {
      ledger := rfl, increasing := List.Pairwise.nil
      bounded := fun p hp => absurd hp List.not_mem_nil
      msgId_le := Nat.le_refl 0, numbers := rfl
      confirmed := fun c hc => absurd hc List.not_mem_nil
      fates := fun o ho => absurd ho List.not_mem_nil
      current := fun p hp => by cases hp }

/-- A call begins or ends that is none of publishing. -/
theorem Publishing.other (h : Publishing s) (hcall : s.client.call.ofPublish = .idle)
    (c : Client M) (hc : c.ofPublish = { s.client with call := .idle }.ofPublish)
    (os : List (Outcome M)) (hos : c.outcomes = s.client.outcomes ++ os)
    (hquiet : ∀ o ∈ os, o.Quiet) : Publishing { s with client := c } := by
  have hsame : c.ofPublish = s.client.ofPublish := by
    rw [hc, Client.ofPublish, Client.ofPublish, hcall]
    rfl
  apply h.quiet _ os hos hquiet
  simp only [Channel.ofPublish, hsame]

/-- And its method is sent. -/
theorem Publishing.send {method : Method M} {call : Call}
    (h : Publishing { s with client := s.client.inCall call })
    (hmethod : method.ofPublish = false) : Publishing (s.send method call) := by
  refine h.same ?_ (by rfl)
  have hfilter : (s.methods ++ [method]).filter Method.ofPublish =
      s.methods.filter Method.ofPublish := by
    rw [List.filter_append, List.filter_singleton, hmethod]
    exact List.append_nil _
  exact congrArg (Channel.mk _ · _ _) hfilter

/-- The end of a call. -/
theorem Publishing.finish (h : Publishing s) {client : Client M}
    (hfinish : s.client.finish = some client) : Publishing { s with client := client } := by
  cases hcall : s.client.call with
  | idle =>
    simp only [Client.finish, hcall] at hfinish
    cases hfinish
  | enablePublisherAcks answered =>
    simp only [Client.finish, hcall] at hfinish
    split at hfinish
    · next hanswered =>
      obtain rfl := Option.some.inj hfinish
      exact h.enabled (by rw [hcall, hanswered])
    · cases hfinish
  | publish number deliveryTag values => exact h.published hcall hfinish
  | createConsumer consumerTag answered =>
    simp only [Client.finish, hcall] at hfinish
    split at hfinish
    · obtain rfl := Option.some.inj hfinish
      refine h.other (by rw [hcall]; rfl) _ (by rfl) [.createdConsumer consumerTag]
        (by rfl) ?_
      exact List.forall_mem_singleton.mpr ⟨rfl, rfl, fun h => by cases h⟩
    · cases hfinish
  | cancelConsumer consumerTag answered =>
    simp only [Client.finish, hcall] at hfinish
    split at hfinish
    · obtain rfl := Option.some.inj hfinish
      refine h.other (by rw [hcall]; rfl) _ (by rfl) [.cancelledConsumer consumerTag _ _]
        (by rfl) ?_
      exact List.forall_mem_singleton.mpr ⟨rfl, rfl, fun h => by cases h⟩
    · cases hfinish
  | getNextEvent =>
    simp only [Client.finish, hcall] at hfinish
    split at hfinish
    · cases hfinish
    · next event events hevents =>
      obtain rfl := Option.some.inj hfinish
      refine h.other (by rw [hcall]; rfl) _ (by rfl) [.nextEvent event] (by rfl) ?_
      exact List.forall_mem_singleton.mpr ⟨rfl, rfl, fun h => by cases h⟩

theorem publishing_next {a : Channel.Action M} (h : Publishing s)
    (hnext : (channelSystem M).next a s = some t) : Publishing t := by
  have hact : Channel.act a s = some t := hnext
  cases a with
  | enablePublisherAcks =>
    simp only [Channel.act] at hact
    split at hact
    · cases hact
    · next hcall =>
      split at hact
      · obtain rfl := Option.some.inj hact
        refine h.other (by rw [not_not.mp hcall]; rfl) _ (by rfl) [.enabledPublisherAcks]
          (by rfl) ?_
        exact List.forall_mem_singleton.mpr ⟨rfl, rfl, fun h => by cases h⟩
      · next hacks =>
        obtain rfl := Option.some.inj hact
        exact h.enable (not_not.mp hcall) (Bool.eq_false_iff.mpr hacks)
  | publish message mandatory =>
    simp only [Channel.act] at hact
    split at hact
    · cases hact
    · next hcall =>
      obtain rfl := Option.some.inj hact
      cases hacks : s.client.pubacksSelected with
      | true => exact h.publish_confirmed (not_not.mp hcall) hacks message mandatory
      | false => exact h.publish_unconfirmed (not_not.mp hcall) hacks message mandatory
  | createConsumer =>
    simp only [Channel.act] at hact
    split at hact
    · cases hact
    · next hcall =>
      obtain rfl := Option.some.inj hact
      have hidle : s.client.call = .idle := not_not.mp hcall
      refine Publishing.send ?_ (by rfl)
      refine h.other (by rw [hidle]; rfl) _ (by rfl) [] (by exact (List.append_nil _).symm) ?_
      exact fun o ho => absurd ho List.not_mem_nil
  | cancelConsumer consumerTag =>
    simp only [Channel.act] at hact
    split at hact
    · cases hact
    · next hcall =>
      obtain rfl := Option.some.inj hact
      have hidle : s.client.call = .idle := not_not.mp (fun h => hcall (.inl h))
      refine Publishing.send ?_ (by rfl)
      refine h.other (by rw [hidle]; rfl) _ (by rfl) [] (by exact (List.append_nil _).symm) ?_
      exact fun o ho => absurd ho List.not_mem_nil
  | getNextEvent =>
    simp only [Channel.act] at hact
    split at hact
    · cases hact
    · next hcall =>
      obtain rfl := Option.some.inj hact
      have hidle : s.client.call = .idle := not_not.mp hcall
      refine h.other (by rw [hidle]; rfl) _ (by rfl) [] (by exact (List.append_nil _).symm) ?_
      exact fun o ho => absurd ho List.not_mem_nil
  | readFrame =>
    simp only [Channel.act] at hact
    split at hact
    · cases hact
    · split at hact
      · cases hact
      · next frame frames hframes =>
        obtain rfl := Option.some.inj hact
        exact h.readFrame hframes
  | finish =>
    obtain ⟨client, hfinish, rfl⟩ := Option.map_eq_some_iff.mp hact
    exact h.finish hfinish
  | handle unroutable =>
    simp only [Channel.act] at hact
    split at hact
    · cases hact
    · next method methods hmethods =>
      obtain rfl := Option.some.inj hact
      exact h.handle hmethods unroutable
  | sendReturn i =>
    obtain ⟨u, hu, hact⟩ := Option.bind_eq_some_iff.mp hact
    split at hact
    · next hr =>
      obtain rfl := Option.some.inj hact
      obtain ⟨d, rs, hd, ha⟩ := h
      obtain ⟨p, returned, rfl, rfl, rfl⟩ := hd.handled_of_getElem? hu
      obtain rfl : returned = false := Bool.eq_false_iff.mpr hr.2
      have hset : s.broker.unconfirmed.set 0 ⟨s.client.msgId, p, true⟩ =
          [⟨s.client.msgId, p, true⟩] := by
        rw [show s.broker.unconfirmed = [⟨s.client.msgId, p, false⟩] from hd.unconfirmed]
        rfl
      rw [hset]
      exact Publishing.sendReturn hd ha
    · cases hact
  | sendConfirm i how =>
    obtain ⟨u, hu, rfl⟩ := Option.map_eq_some_iff.mp hact
    obtain ⟨d, rs, hd, ha⟩ := h
    obtain ⟨p, returned, rfl, rfl, rfl⟩ := hd.handled_of_getElem? hu
    have herase : s.broker.unconfirmed.eraseIdx 0 = [] := by
      rw [show s.broker.unconfirmed = [⟨s.client.msgId, p, returned⟩] from hd.unconfirmed]
      rfl
    rw [herase]
    exact Publishing.sendConfirm hd ha how
  | deliver consumerTag body =>
    simp only [Channel.act] at hact
    split at hact
    · obtain rfl := Option.some.inj hact
      refine h.same ?_ (by rfl)
      simp only [Channel.ofPublish, List.filter_append]
      exact congrArg (Channel.mk _ _ · _) (List.append_nil _)
    · cases hact
  | cancelByBroker consumerTag =>
    simp only [Channel.act] at hact
    split at hact
    · obtain rfl := Option.some.inj hact
      refine h.same ?_ (by rfl)
      simp only [Channel.ofPublish, List.filter_append]
      exact congrArg (Channel.mk _ _ · _) (List.append_nil _)
    · cases hact

theorem Reachable.publishing (h : Reachable (channelSystem M) s) : Publishing s :=
  h.invariant (fun _ hinit => publishing_init hinit) fun _ _ _ _ hs hnext => publishing_next hs hnext

/-! ## What every step keeps -/

/-- What reading a frame and ending a call leave of a client. -/
structure Client.Extends (c c' : Client M) : Prop where
  outcomes : c.outcomes <+: c'.outcomes
  acks : c.pubacksSelected = true → c'.pubacksSelected = true
  numPublished : c'.numPublished = c.numPublished
  msgId : c'.msgId = c.msgId

theorem Client.Extends.refl (c : Client M) : c.Extends c := ⟨List.prefix_refl _, id, rfl, rfl⟩

theorem Client.Extends.raiseIfReturned (number : Option ℕ) (outcome : Outcome M) (c : Client M) :
    c.Extends (c.raiseIfReturned number outcome) := by
  obtain ⟨o, hraise, -⟩ := c.raiseIfReturned_eq number outcome
  rw [hraise]
  exact ⟨List.prefix_append _ _, id, rfl, rfl⟩

theorem Client.Extends.dispatch (frame : Frame M) (c : Client M) :
    c.Extends (c.dispatch frame) := by
  cases frame with
  | event event => cases event <;> exact ⟨List.prefix_refl _, id, rfl, rfl⟩
  | basicReturn p => exact ⟨List.prefix_refl _, id, rfl, rfl⟩
  | confirm how tag =>
    simp only [Client.dispatch, Client.onConfirm]
    split
    · exact ⟨List.prefix_refl _, id, rfl, rfl⟩
    · exact ⟨List.prefix_append _ _, id, rfl, rfl⟩
  | confirmSelectOk =>
    simp only [Client.dispatch]
    split <;> exact ⟨List.prefix_refl _, id, rfl, rfl⟩
  | consumeOk tag =>
    simp only [Client.dispatch]
    split <;> exact ⟨List.prefix_refl _, id, rfl, rfl⟩
  | cancelOk tag =>
    simp only [Client.dispatch]
    split <;> exact ⟨List.prefix_refl _, id, rfl, rfl⟩

theorem Client.Extends.finish {c c' : Client M} (h : c.finish = some c') : c.Extends c' := by
  have hends : ∀ (c' : Client M) (o : Outcome M), c.Extends c' → c.Extends (c'.ends o) :=
    fun _ _ h => ⟨h.outcomes.trans (List.prefix_append _ _), h.acks, h.numPublished, h.msgId⟩
  simp only [Client.finish] at h
  split at h
  · cases h
  · split at h
    · obtain rfl := Option.some.inj h
      have hraise := raiseIfReturned none .enabledPublisherAcks
        { c with pubacksSelected := true }
      exact ⟨hraise.outcomes, fun _ => hraise.acks rfl, hraise.numPublished, hraise.msgId⟩
    · cases h
  · split at h
    · cases h
    · split at h
      · obtain rfl := Option.some.inj h
        exact hends c _ (.refl c)
      · split at h
        · obtain rfl := Option.some.inj h
          exact hends _ _ ⟨List.prefix_refl _, id, rfl, rfl⟩
        · obtain rfl := Option.some.inj h
          exact raiseIfReturned _ _ c
    · obtain rfl := Option.some.inj h
      exact hends c _ (.refl c)
  · split at h
    · obtain rfl := Option.some.inj h
      exact hends _ _ ⟨List.prefix_refl _, id, rfl, rfl⟩
    · cases h
  · split at h
    · obtain rfl := Option.some.inj h
      exact hends _ _ ⟨List.prefix_refl _, id, rfl, rfl⟩
    · cases h
  · split at h
    · cases h
    · obtain rfl := Option.some.inj h
      exact hends _ _ ⟨List.prefix_refl _, id, rfl, rfl⟩

/-- The messages that the broker returned or can still return. -/
def Channel.Carries (p : Published M) (s : Channel M) : Prop :=
  p ∈ s.broker.returned ∨ (∃ u ∈ s.broker.unconfirmed, u.published = p) ∨ .publish p ∈ s.methods

/-- What a step leaves: the counters stay, or a message is published, with acks or without, or acks
are being enabled. -/
structure Channel.Follows (s t : Channel M) : Prop where
  outcomes : s.client.outcomes <+: t.client.outcomes
  acks : s.client.pubacksSelected = true → t.client.pubacksSelected = true
  counters :
    t.client.numPublished = s.client.numPublished ∧ t.client.msgId = s.client.msgId ∨
    s.client.pubacksSelected = true ∧ t.client.numPublished = s.client.numPublished + 1 ∧
      t.client.msgId = s.client.msgId + 1 ∨
    s.client.pubacksSelected = false ∧ s.client.numPublished ≤ t.client.numPublished ∧
      (t.client.msgId = s.client.msgId ∨ t.client.msgId = 0)
  carries : ∀ p, t.Carries p → s.Carries p ∨
    p.number = s.client.numPublished ∧ s.client.numPublished < t.client.numPublished

theorem Channel.Follows.of_client {c : Client M} (h : s.client.Extends c) (frames : List (Frame M)) :
    s.Follows { s with client := c, frames := frames } :=
  ⟨h.outcomes, h.acks, .inl ⟨h.numPublished, h.msgId⟩, fun _ hp => .inl hp⟩

theorem Channel.Carries.of_append {p : Published M} {method : Method M} {c : Client M}
    (h : { s with client := c, methods := s.methods ++ [method] }.Carries p) :
    s.Carries p ∨ method = .publish p := by
  rcases h with h | h | h
  · exact .inl (.inl h)
  · exact .inl (.inr (.inl h))
  · rcases List.mem_append.mp h with h | h
    · exact .inl (.inr (.inr h))
    · exact .inr (List.mem_singleton.mp h).symm

theorem Channel.publish_follows (message : M) (mandatory : Bool) (s : Channel M) :
    s.Follows (s.publish message mandatory) := by
  have hcarries : ∀ {p : Published M} {c : Client M},
      { s with
        client := c
        methods := s.methods ++
          [Method.publish ⟨s.client.numPublished, message, mandatory⟩] }.Carries p →
      s.Carries p ∨ p.number = s.client.numPublished := by
    intro p c hp
    refine hp.of_append.imp_right fun h => ?_
    rw [← Method.publish.inj h]
  unfold publish
  split
  · next hacks =>
    split
    · refine .of_client ?_ _
      exact ⟨List.prefix_append _ _, id, rfl, rfl⟩
    · exact ⟨List.prefix_refl _, id, .inr (.inl ⟨hacks, rfl, rfl⟩),
        fun p hp => (hcarries hp).imp_right fun h => ⟨h, Nat.lt_succ_self _⟩⟩
  · next hacks =>
    split
    · exact .of_client (.raiseIfReturned _ _ _) _
    · exact ⟨List.prefix_append _ _, id,
        .inr (.inr ⟨Bool.eq_false_iff.mpr hacks, Nat.le_succ _, .inl rfl⟩),
        fun p hp => (hcarries hp).imp_right fun h => ⟨h, Nat.lt_succ_self _⟩⟩

theorem Broker.handle_carries {p : Published M} {method : Method M} {methods : List (Method M)}
    (hmethods : s.methods = method :: methods) {unroutable : Bool} {frames : List (Frame M)}
    (h : { s with
      methods := methods
      broker := (s.broker.handle unroutable method).1
      frames := frames }.Carries p) : s.Carries p := by
  have hrest : .publish p ∈ methods → s.Carries p := by
    intro hp
    refine .inr (.inr ?_)
    rw [hmethods]
    exact List.mem_cons_of_mem _ hp
  cases method with
  | publish q =>
    have hhead : q = p → s.Carries p := by
      rintro rfl
      refine .inr (.inr ?_)
      rw [hmethods]
      exact List.mem_cons_self
    simp only [handle] at h
    split at h
    · rcases h with h | ⟨u, hu, rfl⟩ | h
      · exact .inl h
      · rcases List.mem_append.mp hu with hu | hu
        · exact .inr (.inl ⟨u, hu, rfl⟩)
        · exact hhead (by rw [List.mem_singleton.mp hu])
      · exact hrest h
    · split at h
      · rcases h with h | h | h
        · rcases List.mem_append.mp h with h | h
          · exact .inl h
          · exact hhead (List.mem_singleton.mp h).symm
        · exact .inr (.inl h)
        · exact hrest h
      · rcases h with h | h | h
        · exact .inl h
        · exact .inr (.inl h)
        · exact hrest h
  | confirmSelect => exact h.elim .inl fun h => h.elim (fun h => .inr (.inl h)) hrest
  | consume consumerTag => exact h.elim .inl fun h => h.elim (fun h => .inr (.inl h)) hrest
  | cancel consumerTag => exact h.elim .inl fun h => h.elim (fun h => .inr (.inl h)) hrest

theorem Channel.follows {a : Channel.Action M} (hnext : (channelSystem M).next a s = some t) :
    s.Follows t := by
  have hact : Channel.act a s = some t := hnext
  have hsend : ∀ {method : Method M} {c : Client M}, s.client.Extends c →
      (∀ p, method ≠ .publish p) →
      s.Follows { s with client := c, methods := s.methods ++ [method] } := by
    intro method c hc hmethod
    exact ⟨hc.outcomes, hc.acks, .inl ⟨hc.numPublished, hc.msgId⟩,
      fun p hp => .inl (hp.of_append.resolve_right (hmethod p))⟩
  cases a with
  | enablePublisherAcks =>
    simp only [act] at hact
    split at hact
    · cases hact
    · split at hact
      · obtain rfl := Option.some.inj hact
        refine .of_client ?_ _
        exact ⟨List.prefix_append _ _, id, rfl, rfl⟩
      · next hacks =>
        obtain rfl := Option.some.inj hact
        exact ⟨List.prefix_refl _, id,
          .inr (.inr ⟨Bool.eq_false_iff.mpr hacks, Nat.le_refl _, .inr rfl⟩),
          fun p hp => .inl (hp.of_append.resolve_right fun h => (by cases h))⟩
  | publish message mandatory =>
    simp only [act] at hact
    split at hact
    · cases hact
    · obtain rfl := Option.some.inj hact
      exact s.publish_follows message mandatory
  | createConsumer =>
    simp only [act] at hact
    split at hact
    · cases hact
    · obtain rfl := Option.some.inj hact
      exact hsend ⟨List.prefix_refl _, id, rfl, rfl⟩ fun _ h => (by cases h)
  | cancelConsumer consumerTag =>
    simp only [act] at hact
    split at hact
    · cases hact
    · obtain rfl := Option.some.inj hact
      exact hsend ⟨List.prefix_refl _, id, rfl, rfl⟩ fun _ h => (by cases h)
  | getNextEvent =>
    simp only [act] at hact
    split at hact
    · cases hact
    · obtain rfl := Option.some.inj hact
      refine .of_client ?_ _
      exact ⟨List.prefix_refl _, id, rfl, rfl⟩
  | readFrame =>
    simp only [act] at hact
    split at hact
    · cases hact
    · split at hact
      · cases hact
      · obtain rfl := Option.some.inj hact
        exact .of_client (.dispatch _ _) _
  | finish =>
    obtain ⟨client, hfinish, rfl⟩ := Option.map_eq_some_iff.mp hact
    exact .of_client (.finish hfinish) _
  | handle unroutable =>
    simp only [act] at hact
    split at hact
    · cases hact
    · next method methods hmethods =>
      obtain rfl := Option.some.inj hact
      exact ⟨List.prefix_refl _, id, .inl ⟨rfl, rfl⟩,
        fun p hp => .inl (Broker.handle_carries hmethods hp)⟩
  | sendReturn i =>
    obtain ⟨u, hu, hact⟩ := Option.bind_eq_some_iff.mp hact
    split at hact
    · obtain rfl := Option.some.inj hact
      refine ⟨List.prefix_refl _, id, .inl ⟨rfl, rfl⟩, fun p hp => .inl ?_⟩
      have hmem : s.Carries u.published := .inr (.inl ⟨u, List.mem_of_getElem? hu, rfl⟩)
      rcases hp with hp | ⟨u', hu', rfl⟩ | hp
      · rcases List.mem_append.mp hp with hp | hp
        · exact .inl hp
        · exact List.mem_singleton.mp hp ▸ hmem
      · rcases List.mem_or_eq_of_mem_set hu' with hu' | rfl
        · exact .inr (.inl ⟨u', hu', rfl⟩)
        · exact hmem
      · exact .inr (.inr hp)
    · cases hact
  | sendConfirm i how =>
    obtain ⟨u, hu, rfl⟩ := Option.map_eq_some_iff.mp hact
    refine ⟨List.prefix_refl _, id, .inl ⟨rfl, rfl⟩, fun p hp => .inl ?_⟩
    rcases hp with hp | ⟨u', hu', rfl⟩ | hp
    · exact .inl hp
    · exact .inr (.inl ⟨u', List.mem_of_mem_eraseIdx hu', rfl⟩)
    · exact .inr (.inr hp)
  | deliver consumerTag body =>
    simp only [act] at hact
    split at hact
    · obtain rfl := Option.some.inj hact
      exact ⟨List.prefix_refl _, id, .inl ⟨rfl, rfl⟩, fun p hp => .inl hp⟩
    · cases hact
  | cancelByBroker consumerTag =>
    simp only [act] at hact
    split at hact
    · obtain rfl := Option.some.inj hact
      exact ⟨List.prefix_refl _, id, .inl ⟨rfl, rfl⟩, fun p hp => .inl hp⟩
    · cases hact

end NumentaApps.AmqpClient
