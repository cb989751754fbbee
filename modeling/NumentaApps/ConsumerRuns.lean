import NumentaApps.ConsumerSteps

/-!
# Consumers in runs

In every state that a channel reaches, every consumer is at a stage.
-/
namespace NumentaApps.AmqpClient
open TransitionSystem

variable {M : Type} {c : ℕ} {s t : Channel M}

theorem Consuming.same (h : Consuming c s) (hv : t.consumerView c = s.consumerView c) :
    Consuming c t := by
  obtain ⟨d, es, hd⟩ := h
  exact ⟨d, es, hv ▸ hd⟩

/-! ## Steps that do not concern consumers -/

def Outcome.Eventless (o : Outcome M) : Prop := o.taken = [] ∧ ∀ c, o.cancels c = false

/-- No consumer sees what happens to the client. -/
structure Client.KeepsEvents (k k' : Client M) : Prop where
  nextConsumerTag : k'.nextConsumerTag = k.nextConsumerTag
  pendingEvents : k'.pendingEvents = k.pendingEvents
  call : ∀ c, k'.call.ofConsumer c = k.call.ofConsumer c
  outcomes : ∃ os, k'.outcomes = k.outcomes ++ os ∧ ∀ o ∈ os, o.Eventless

theorem Outcome.Eventless.view (outcomes : List (Outcome M)) {os : List (Outcome M)}
    (h : ∀ o ∈ os, o.Eventless) :
    (outcomes ++ os).flatMap Outcome.taken = outcomes.flatMap Outcome.taken ∧
      ∀ c, (outcomes ++ os).any (·.cancels c) = outcomes.any (·.cancels c) := by
  constructor
  · rw [List.flatMap_append, List.flatMap_eq_nil_iff.mpr fun o ho => (h o ho).1, List.append_nil]
  · intro c
    have hnone : os.any (·.cancels c) = false :=
      List.any_eq_false.mpr fun o ho => by rw [(h o ho).2 c]; exact Bool.false_ne_true
    rw [List.any_append, hnone, Bool.or_false]

theorem Channel.consumerView_keeps (hk : s.client.KeepsEvents t.client)
    (hmethods : t.methods.filter (·.consumerTag = some c) =
      s.methods.filter (·.consumerTag = some c))
    (hframes : t.frames.filter (·.consumerTag = some c) =
      s.frames.filter (·.consumerTag = some c))
    (hconsumers : t.broker.consumers = s.broker.consumers) (hsent : t.broker.sent = s.broker.sent) :
    t.consumerView c = s.consumerView c := by
  obtain ⟨os, hos, hquiet⟩ := hk.outcomes
  obtain ⟨htaken, hcancels⟩ := Outcome.Eventless.view s.client.outcomes hquiet
  simp only [consumerView, hk.nextConsumerTag, hk.pendingEvents, hk.call, hmethods, hframes,
    hconsumers, hsent, hos, htaken, hcancels]

/-- Only the client takes a step. -/
theorem Consuming.client (h : Consuming c s) {k : Client M} (hk : s.client.KeepsEvents k) :
    Consuming c { s with client := k } :=
  h.same (Channel.consumerView_keeps hk rfl rfl rfl rfl)

theorem filter_append_of_none {α : Type} {p : α → Bool} {l : List α} {a : α} (ha : p a = false) :
    (l ++ [a]).filter p = l.filter p := by
  rw [List.filter_append, List.filter_singleton, ha]
  exact List.append_nil _

theorem filter_append_of_some {α : Type} {p : α → Bool} {l : List α} {a : α} (ha : p a = true) :
    (l ++ [a]).filter p = l.filter p ++ [a] := by
  rw [List.filter_append, List.filter_singleton, ha]
  rfl

theorem Client.KeepsEvents.ends {k k' : Client M} (h : k.KeepsEvents k') (o : Outcome M)
    (ho : o.Eventless) (hcall : ∀ c, k.call.ofConsumer c = .idle) : k.KeepsEvents (k'.ends o) := by
  obtain ⟨os, hos, hquiet⟩ := h.outcomes
  refine ⟨h.nextConsumerTag, h.pendingEvents, fun c => (hcall c).symm, os ++ [o], ?_, ?_⟩
  · show k'.outcomes ++ [o] = _
    rw [hos, List.append_assoc]
  · intro o' ho'
    rcases List.mem_append.mp ho' with ho' | ho'
    · exact hquiet _ ho'
    · exact List.mem_singleton.mp ho' ▸ ho

theorem Client.KeepsEvents.of_eq {k k' : Client M} (hnext : k'.nextConsumerTag = k.nextConsumerTag)
    (hpending : k'.pendingEvents = k.pendingEvents)
    (hcall : ∀ c, k'.call.ofConsumer c = k.call.ofConsumer c) (houtcomes : k'.outcomes = k.outcomes) :
    k.KeepsEvents k' :=
  ⟨hnext, hpending, hcall, [], houtcomes.trans (List.append_nil _).symm,
    fun _ ho => absurd ho List.not_mem_nil⟩

theorem Client.KeepsEvents.raiseIfReturned {k k' : Client M} (h : k.KeepsEvents k')
    (number : Option ℕ) (outcome : Outcome M) (ho : outcome.Eventless)
    (hcall : ∀ c, k.call.ofConsumer c = .idle) :
    k.KeepsEvents (k'.raiseIfReturned number outcome) := by
  obtain ⟨o, hraise, hcase⟩ := k'.raiseIfReturned_eq number outcome
  rw [hraise]
  have hk : k.KeepsEvents { k' with returnedMessages := [] } :=
    ⟨h.nextConsumerTag, h.pendingEvents, h.call, h.outcomes⟩
  apply hk.ends o _ hcall
  rcases hcase with ⟨-, rfl⟩ | ⟨-, rfl⟩
  · exact ho
  · exact ⟨rfl, fun _ => rfl⟩

/-! ## The calls -/

/-- A call of the client and the method that it sends, which no consumer sees. -/
theorem Consuming.send (h : Consuming c s) {method : Method M} (hmethod : method.consumerTag = none)
    {k : Client M} (hk : s.client.KeepsEvents k) :
    Consuming c { s with client := k, methods := s.methods ++ [method] } := by
  apply h.same
  apply Channel.consumerView_keeps (t := { s with client := k, methods := s.methods ++ [method] })
    hk _ rfl rfl rfl
  apply filter_append_of_none
  simp [hmethod]

theorem Consuming.publish (h : Consuming c s) (hcall : s.client.call = .idle) (message : M)
    (mandatory : Bool) : Consuming c (s.publish message mandatory) := by
  have hidle : ∀ c, s.client.call.ofConsumer c = .idle := fun c => by rw [hcall]; rfl
  have heventless : ∀ {o : Outcome M}, o = .assertionError ∨ o = .publishedUnconfirmed →
      o.Eventless := by
    rintro o (rfl | rfl) <;> exact ⟨rfl, fun _ => rfl⟩
  unfold Channel.publish
  split
  · split
    · exact h.client ((Client.KeepsEvents.of_eq rfl rfl (fun _ => rfl) rfl).ends _
        (heventless (.inl rfl)) hidle)
    · exact h.send rfl (.of_eq rfl rfl (fun c => (hidle c).symm) rfl)
  · split
    · exact h.client ((Client.KeepsEvents.of_eq rfl rfl (fun _ => rfl) rfl).raiseIfReturned _ _
        (heventless (.inr rfl)) hidle)
    · refine h.send rfl (Client.KeepsEvents.ends ?_ _ (heventless (.inr rfl)) hidle)
      exact .of_eq rfl rfl (fun _ => rfl) rfl

/-- The stage of a consumer by the call. -/
theorem Consuming.stage_of_call (h : Consuming c s) {call : Call}
    (hcall : s.client.call.ofConsumer c = call) :
    ∃ d es, AtConsumerStage c d es (s.consumerView c) ∧ d.call c = call := by
  obtain ⟨d, es, hd⟩ := h
  exact ⟨d, es, hd, hd.call.symm.trans hcall⟩

theorem Call.ofConsumer_of_ne {tag : ℕ} (h : tag ≠ c) (answered : Bool) :
    (Call.createConsumer tag answered).ofConsumer c = .idle ∧
      (Call.cancelConsumer tag answered).ofConsumer c = .idle :=
  ⟨if_neg h, if_neg h⟩

theorem Call.ofConsumer_self (answered : Bool) :
    (Call.createConsumer c answered).ofConsumer c = .createConsumer c answered ∧
      (Call.cancelConsumer c answered).ofConsumer c = .cancelConsumer c answered :=
  ⟨if_pos rfl, if_pos rfl⟩

theorem Consuming.createConsumer (h : Consuming c s) (hcall : s.client.call = .idle) :
    Consuming c ({ s with client := { s.client with
        nextConsumerTag := s.client.nextConsumerTag + 1 } }.send
      (.consume s.client.nextConsumerTag) (.createConsumer s.client.nextConsumerTag false)) := by
  have hidle : s.client.call.ofConsumer c = .idle := by rw [hcall]; rfl
  obtain ⟨d, es, hd, hdc⟩ := h.stage_of_call hidle
  by_cases hc : s.client.nextConsumerTag = c
  · obtain rfl : d = .fresh := hd.isNew.mp (Nat.le_of_eq hc)
    refine ⟨.requested, es, ?_⟩
    have hreq := hd.request
    have hview : ({ s with client := { s.client with
          nextConsumerTag := s.client.nextConsumerTag + 1 } }.send
        (.consume s.client.nextConsumerTag)
        (.createConsumer s.client.nextConsumerTag false)).consumerView c =
          { s.consumerView c with
            isNew := False
            call := .createConsumer c false
            methods := (s.consumerView c).methods ++ [.consume c] } := by
      simp only [Channel.consumerView, Channel.send, Client.inCall, hc, Call.ofConsumer, if_true]
      rw [filter_append_of_some (by simp [Method.consumerTag]), eq_false (Nat.not_succ_le_self c)]
    rw [hview]
    exact hreq
  · apply Consuming.same ⟨d, es, hd⟩
    simp only [Channel.consumerView, Channel.send, Client.inCall, hidle]
    rw [filter_append_of_none (by simp [Method.consumerTag, hc]), (Call.ofConsumer_of_ne hc false).1,
      propext (by omega : s.client.nextConsumerTag + 1 ≤ c ↔ s.client.nextConsumerTag ≤ c)]

theorem Consuming.cancelConsumer (h : Consuming c s) (hcall : s.client.call = .idle) {tag : ℕ}
    (htag : tag < s.client.nextConsumerTag) :
    Consuming c ({ s with client := { s.client with
        consumerSet := s.client.consumerSet.filter (· ≠ tag) } }.send
      (.cancel tag) (.cancelConsumer tag false)) := by
  have hidle : s.client.call.ofConsumer c = .idle := by rw [hcall]; rfl
  obtain ⟨d, es, hd, hdc⟩ := h.stage_of_call hidle
  by_cases hc : tag = c
  · subst hc
    have hrunning : d = .running := by
      cases d with
      | running => rfl
      | fresh => exact absurd (hd.isNew.mpr rfl) (Nat.not_le.mpr htag)
      | _ => cases hdc
    subst hrunning
    refine ⟨.cancelling, es, ?_⟩
    have hview : ({ s with client := { s.client with
          consumerSet := s.client.consumerSet.filter (· ≠ tag) } }.send
        (.cancel tag) (.cancelConsumer tag false)).consumerView tag =
          { s.consumerView tag with
            call := .cancelConsumer tag false
            methods := (s.consumerView tag).methods ++ [.cancel tag] } := by
      simp only [Channel.consumerView, Channel.send, Client.inCall, Call.ofConsumer, if_true]
      rw [filter_append_of_some (by simp [Method.consumerTag])]
    rw [hview]
    exact hd.cancel
  · apply Consuming.same ⟨d, es, hd⟩
    simp only [Channel.consumerView, Channel.send, Client.inCall, hidle]
    rw [filter_append_of_none (by simp [Method.consumerTag, hc]), (Call.ofConsumer_of_ne hc false).2]

/-! ## Reading a frame -/

theorem Consuming.readFrame_other (h : Consuming c s) {frame : Frame M} {frames : List (Frame M)}
    (hframes : s.frames = frame :: frames) (htag : frame.consumerTag = none) {k : Client M}
    (hk : s.client.KeepsEvents k) : Consuming c { s with client := k, frames := frames } := by
  apply h.same
  apply Channel.consumerView_keeps (t := { s with client := k, frames := frames })
    hk rfl _ rfl rfl
  rw [hframes]
  simp [htag]

theorem Consuming.readEvent (h : Consuming c s) {e : Event M} {frames : List (Frame M)}
    (hframes : s.frames = .event e :: frames) :
    Consuming c { s with client := s.client.onEvent e, frames := frames } := by
  obtain ⟨d, es, hd⟩ := h
  have hclient : (s.client.onEvent e).nextConsumerTag = s.client.nextConsumerTag ∧
      (s.client.onEvent e).call = s.client.call ∧
      (s.client.onEvent e).outcomes = s.client.outcomes ∧
      (s.client.onEvent e).pendingEvents = s.client.pendingEvents ++ [e] := by
    cases e <;> exact ⟨rfl, rfl, rfl, rfl⟩
  obtain ⟨hnext, hcall, houtcomes, hpending⟩ := hclient
  by_cases htag : e.consumerTag = c
  · have hhead : (s.consumerView c).frames =
        .event e :: frames.filter (·.consumerTag = some c) := by
      simp only [Channel.consumerView, hframes]
      rw [List.filter_cons_of_pos (by simp [Frame.consumerTag, htag])]
    obtain ⟨es', hd'⟩ := hd.receive hhead
    have hview : ({ s with client := s.client.onEvent e, frames := frames }).consumerView c =
        { s.consumerView c with
          pending := (s.consumerView c).pending ++ [e]
          frames := frames.filter (·.consumerTag = some c) } := by
      simp only [Channel.consumerView, hnext, hcall, houtcomes, hpending]
      rw [filter_append_of_some (by simp [htag])]
    exact ⟨d, es', hview ▸ hd'⟩
  · apply Consuming.same ⟨d, es, hd⟩
    simp only [Channel.consumerView, hnext, hcall, houtcomes, hpending, hframes]
    rw [filter_append_of_none (by simp [htag]),
      List.filter_cons_of_neg (by simp [Frame.consumerTag, htag])]

/-- The answer to a creation is read in the call that asked for it. -/
theorem Consuming.call_of_consumeOk (h : Consuming c s) {frames : List (Frame M)}
    (hframes : s.frames = .consumeOk c :: frames) :
    s.client.call.ofConsumer c = .createConsumer c false ∧
      Consuming c { s with client := s.client.inCall (.createConsumer c true), frames := frames } := by
  obtain ⟨d, es, hd⟩ := h
  have hhead : (s.consumerView c).frames =
      .consumeOk c :: frames.filter (·.consumerTag = some c) := by
    simp only [Channel.consumerView, hframes]
    rw [List.filter_cons_of_pos (by simp [Frame.consumerTag])]
  have haccepted : d = .accepted := by
    have hf := hhead.symm.trans hd.frames
    cases d with
    | accepted => rfl
    | _ => cases es <;> cases hf
  subst haccepted
  refine ⟨hd.call, .created, es, ?_⟩
  have hview : ({ s with
      client := s.client.inCall (.createConsumer c true), frames := frames }).consumerView c =
        { s.consumerView c with
          call := .createConsumer c true, frames := frames.filter (·.consumerTag = some c) } := by
    simp only [Channel.consumerView, Client.inCall, (Call.ofConsumer_self true).1]
  rw [hview]
  exact hd.create hhead

theorem Consuming.call_of_cancelOk (h : Consuming c s) {frames : List (Frame M)}
    (hframes : s.frames = .cancelOk c :: frames) :
    s.client.call.ofConsumer c = .cancelConsumer c false ∧
      Consuming c { s with client := s.client.inCall (.cancelConsumer c true), frames := frames } := by
  obtain ⟨d, es, hd⟩ := h
  have hhead : (s.consumerView c).frames =
      .cancelOk c :: frames.filter (·.consumerTag = some c) := by
    simp only [Channel.consumerView, hframes]
    rw [List.filter_cons_of_pos (by simp [Frame.consumerTag])]
  have hreleased : d = .released := by
    have hf := hhead.symm.trans hd.frames
    cases d with
    | released => rfl
    | _ => cases es <;> cases hf
  subst hreleased
  refine ⟨hd.call, .cancelled, [], ?_⟩
  have hview : ({ s with
      client := s.client.inCall (.cancelConsumer c true), frames := frames }).consumerView c =
        { s.consumerView c with
          call := .cancelConsumer c true, frames := frames.filter (·.consumerTag = some c) } := by
    simp only [Channel.consumerView, Client.inCall, (Call.ofConsumer_self true).2]
  rw [hview]
  exact (hd.cancelAnswered hhead).1

theorem Call.eq_of_ofConsumer {call : Call} {answered : Bool} :
    (call.ofConsumer c = .createConsumer c answered → call = .createConsumer c answered) ∧
      (call.ofConsumer c = .cancelConsumer c answered → call = .cancelConsumer c answered) := by
  cases call with
  | createConsumer tag b =>
    by_cases htag : tag = c
    · subst htag
      simp [Call.ofConsumer]
    · simp [Call.ofConsumer, htag]
  | cancelConsumer tag b =>
    by_cases htag : tag = c
    · subst htag
      simp [Call.ofConsumer]
    · simp [Call.ofConsumer, htag]
  | _ => simp [Call.ofConsumer]

/-- A confirm is read in the publish that waits for it. -/
theorem Publishing.confirmed_keepsEvents (h : Publishing s) {how : How} {tag : ℕ}
    {frames : List (Frame M)} (hframes : s.frames = .confirm how tag :: frames) :
    s.client.KeepsEvents (s.client.onConfirm how tag) := by
  obtain ⟨d, rs, hd, -⟩ := h
  have hf : s.frames.filter Frame.ofPublish = rs.map .basicReturn ++ d.answer s.client.msgId :=
    hd.frames
  rw [hframes] at hf
  have hcall : ∃ p, s.client.call = .publish p s.client.msgId [] := by
    cases rs with
    | cons r rs => cases hf
    | nil =>
      cases d with
      | confirmed p how' answered =>
        cases answered with
        | true => cases hf
        | false => exact ⟨p.number, Call.eq_of_ofPublish hd.call Call.noConfusion⟩
      | selected answered => cases answered <;> cases hf
      | unconfirmed waiting selecting => cases hf
      | idle => cases hf
      | published p => cases hf
      | handled p returned => cases hf
  obtain ⟨p, hcall⟩ := hcall
  simp only [Client.onConfirm, hcall]
  exact .of_eq rfl rfl (fun _ => by rw [hcall]; rfl) rfl

theorem Consuming.readFrame (hall : ∀ c, Consuming c s) (hp : Publishing s) {frame : Frame M}
    {frames : List (Frame M)} (hframes : s.frames = frame :: frames) (c : ℕ) :
    Consuming c { s with client := s.client.dispatch frame, frames := frames } := by
  cases frame with
  | event e => exact (hall c).readEvent hframes
  | basicReturn p =>
    exact (hall c).readFrame_other hframes rfl (.of_eq rfl rfl (fun _ => rfl) rfl)
  | confirm how tag =>
    exact (hall c).readFrame_other hframes rfl (hp.confirmed_keepsEvents hframes)
  | confirmSelectOk =>
    apply (hall c).readFrame_other hframes rfl
    simp only [Client.dispatch]
    split
    · next hcall => exact .of_eq rfl rfl (fun _ => by rw [hcall]; rfl) rfl
    · exact .of_eq rfl rfl (fun _ => rfl) rfl
  | consumeOk tag =>
    obtain ⟨hcall, hself⟩ := (hall tag).call_of_consumeOk hframes
    have hcall := Call.eq_of_ofConsumer.1 hcall
    simp only [Client.dispatch, hcall]
    by_cases htag : tag = c
    · exact htag ▸ hself
    · apply (hall c).same
      simp only [Channel.consumerView, Client.inCall, hframes, hcall]
      rw [(Call.ofConsumer_of_ne htag true).1, (Call.ofConsumer_of_ne htag false).1,
        List.filter_cons_of_neg (by simp [Frame.consumerTag, htag])]
  | cancelOk tag =>
    obtain ⟨hcall, hself⟩ := (hall tag).call_of_cancelOk hframes
    have hcall := Call.eq_of_ofConsumer.2 hcall
    simp only [Client.dispatch, hcall]
    by_cases htag : tag = c
    · exact htag ▸ hself
    · apply (hall c).same
      simp only [Channel.consumerView, Client.inCall, hframes, hcall]
      rw [(Call.ofConsumer_of_ne htag true).2, (Call.ofConsumer_of_ne htag false).2,
        List.filter_cons_of_neg (by simp [Frame.consumerTag, htag])]

/-! ## The end of a call -/

theorem Consuming.created (h : Consuming c s) {tag : ℕ}
    (hcall : s.client.call = .createConsumer tag true) (consumerSet : List ℕ) :
    Consuming c { s with
      client := Client.ends (.createdConsumer tag)
        { s.client with consumerSet := consumerSet } } := by
  have hquiet : ∀ o ∈ [Outcome.createdConsumer (M := M) tag], o.Eventless :=
    List.forall_mem_singleton.mpr ⟨rfl, fun _ => rfl⟩
  obtain ⟨htaken, hcancels⟩ := Outcome.Eventless.view s.client.outcomes hquiet
  obtain ⟨d, es, hd⟩ := h
  have hview : Channel.consumerView c { s with
      client := Client.ends (.createdConsumer tag)
        { s.client with consumerSet := consumerSet } } =
        { s.consumerView c with call := .idle } := by
    simp only [Channel.consumerView, Client.ends, htaken, hcancels]
    rfl
  by_cases htag : tag = c
  · have hc : d.call c = .createConsumer c true := by
      have hc := hd.call
      simp only [Channel.consumerView, hcall, htag, (Call.ofConsumer_self true).1] at hc
      exact hc.symm
    have hcreated : d = .created := by cases d <;> first | rfl | cases hc
    subst hcreated
    exact ⟨.running, es, hview ▸ hd.run⟩
  · apply Consuming.same ⟨d, es, hd⟩
    rw [hview]
    simp only [Channel.consumerView, hcall, (Call.ofConsumer_of_ne htag true).1]

theorem Consuming.nextEvent (h : Consuming c s) (hcall : s.client.call = .getNextEvent)
    {e : Event M} {events : List (Event M)} (hevents : s.client.pendingEvents = e :: events) :
    Consuming c { s with
      client := Client.ends (.nextEvent e) { s.client with pendingEvents := events } } := by
  have hidle : s.client.call.ofConsumer c = .idle := by rw [hcall]; rfl
  have houtcomes : (s.client.outcomes ++ [Outcome.nextEvent e]).flatMap Outcome.taken =
      s.client.outcomes.flatMap Outcome.taken ++ [e] := by
    rw [List.flatMap_append, List.flatMap_singleton]
    rfl
  have hcancels : (s.client.outcomes ++ [Outcome.nextEvent e]).any (·.cancels c) =
      s.client.outcomes.any (·.cancels c) := by
    rw [List.any_append]
    exact Bool.or_false _
  obtain ⟨d, es, hd⟩ := h
  by_cases htag : e.consumerTag = c
  · have hpending : (s.consumerView c).pending =
        e :: events.filter (·.consumerTag = c) := by
      simp only [Channel.consumerView, hevents]
      rw [List.filter_cons_of_pos (by simp [htag])]
    have hview : Channel.consumerView c { s with
        client := Client.ends (.nextEvent e) { s.client with pendingEvents := events } } =
          { s.consumerView c with
            taken := (s.consumerView c).taken ++ [e]
            pending := events.filter (·.consumerTag = c) } := by
      simp only [Channel.consumerView, Client.ends, houtcomes, hcancels, hidle]
      rw [filter_append_of_some (by simp [htag])]
      rfl
    exact ⟨d, es, hview ▸ hd.takeNext hpending⟩
  · apply Consuming.same ⟨d, es, hd⟩
    simp only [Channel.consumerView, Client.ends, houtcomes, hcancels, hidle, hevents]
    rw [filter_append_of_none (by simp [htag]), List.filter_cons_of_neg (by simp [htag])]
    rfl

/-- Of the events split off for one consumer, another sees none, and it sees all of its own. -/
theorem filter_split (events : List (Event M)) (tag c : ℕ) :
    ((events.filter fun e => e.consumerTag = tag ∧ e.deliveryTag ≠ none) ++
        events.filter fun e => e.consumerTag = tag ∧ e.deliveryTag = none).filter
        (·.consumerTag = c) =
      if tag = c then
        (events.filter (·.consumerTag = c)).filter (·.deliveryTag ≠ none) ++
          (events.filter (·.consumerTag = c)).filter (·.deliveryTag = none)
      else [] := by
  rw [List.filter_append]
  simp only [List.filter_filter]
  by_cases htag : tag = c
  · subst htag
    rw [if_pos rfl]
    congr 1
    · apply List.filter_congr
      intro e _
      by_cases he : e.consumerTag = tag <;> simp [he]
    · apply List.filter_congr
      intro e _
      by_cases he : e.consumerTag = tag <;> simp [he]
  · rw [if_neg htag]
    apply List.append_eq_nil_iff.mpr
    constructor
    · apply List.filter_eq_nil_iff.mpr
      intro e _
      by_cases he : e.consumerTag = tag <;> simp [he, htag]
    · apply List.filter_eq_nil_iff.mpr
      intro e _
      by_cases he : e.consumerTag = tag <;> simp [he, htag]

/-- Of the events that remain, the other consumers see all of theirs, in order. -/
theorem filter_remaining (events : List (Event M)) (tag c : ℕ) :
    (events.filter (·.consumerTag ≠ tag)).filter (·.consumerTag = c) =
      if tag = c then [] else events.filter (·.consumerTag = c) := by
  rw [List.filter_filter]
  by_cases htag : tag = c
  · rw [if_pos htag]
    apply List.filter_eq_nil_iff.mpr
    intro e _
    by_cases he : e.consumerTag = c <;> simp [he, htag]
  · rw [if_neg htag]
    apply List.filter_congr
    intro e _
    by_cases he : e.consumerTag = c
    · simp [he, Ne.symm htag]
    · simp [he]

theorem Consuming.cancelled (h : Consuming c s) {tag : ℕ}
    (hcall : s.client.call = .cancelConsumer tag true) {messages discarded : List (Event M)}
    (hmessages : messages =
      s.client.pendingEvents.filter fun e => e.consumerTag = tag ∧ e.deliveryTag ≠ none)
    (hdiscarded : discarded =
      s.client.pendingEvents.filter fun e => e.consumerTag = tag ∧ e.deliveryTag = none) :
    Consuming c { s with
      client := Client.ends (.cancelledConsumer tag messages discarded)
        { s.client with
          pendingEvents := s.client.pendingEvents.filter (·.consumerTag ≠ tag) } } := by
  have houtcomes :
      (s.client.outcomes ++ [Outcome.cancelledConsumer tag messages discarded]).flatMap
        Outcome.taken = s.client.outcomes.flatMap Outcome.taken ++ (messages ++ discarded) := by
    rw [List.flatMap_append, List.flatMap_singleton]
    rfl
  have hcancels :
      (s.client.outcomes ++ [Outcome.cancelledConsumer tag messages discarded]).any (·.cancels c) =
        (s.client.outcomes.any (·.cancels c) || decide (tag = c)) := by
    rw [List.any_append]
    exact congrArg _ (Bool.or_false _)
  have hmine := filter_split s.client.pendingEvents tag c
  rw [← hmessages, ← hdiscarded] at hmine
  have hrest := filter_remaining s.client.pendingEvents tag c
  obtain ⟨d, es, hd⟩ := h
  by_cases htag : tag = c
  · subst htag
    have hc : d.call tag = .cancelConsumer tag true := by
      have hc := hd.call
      simp only [Channel.consumerView, hcall, (Call.ofConsumer_self true).2] at hc
      exact hc.symm
    have hcancelled : d = .cancelled := by cases d <;> first | rfl | cases hc
    subst hcancelled
    have hpending : CancelsLast (s.client.pendingEvents.filter (·.consumerTag = tag)) := by
      have hlast := hd.cancelsLast
      rw [← hd.ledger, hd.read rfl, List.append_nil] at hlast
      exact hlast.of_append
    rw [if_pos rfl, hpending.split] at hmine
    rw [if_pos rfl] at hrest
    have hview : Channel.consumerView tag { s with
        client := Client.ends (.cancelledConsumer tag messages discarded)
          { s.client with
            pendingEvents := s.client.pendingEvents.filter (·.consumerTag ≠ tag) } } =
          { s.consumerView tag with
            call := .idle
            cancelled := true
            taken := (s.consumerView tag).taken ++ (s.consumerView tag).pending
            pending := [] } := by
      simp only [Channel.consumerView, Client.ends, houtcomes, hcancels, hrest, decide_true,
        Bool.or_true, List.filter_append _ (messages ++ discarded), hmine]
      rfl
    exact ⟨.running, es, hview ▸ hd.finishCancel⟩
  · rw [if_neg htag] at hmine hrest
    apply Consuming.same ⟨d, es, hd⟩
    simp only [Channel.consumerView, Client.ends, houtcomes, hcancels, hrest, hcall, htag,
      decide_false, Bool.or_false, List.filter_append _ (messages ++ discarded), hmine,
      List.append_nil, (Call.ofConsumer_of_ne htag true).2]
    rfl

theorem Consuming.finish (h : Consuming c s) {client : Client M}
    (hfinish : s.client.finish = some client) : Consuming c { s with client := client } := by
  cases hcall : s.client.call with
  | idle =>
    simp only [Client.finish, hcall] at hfinish
    cases hfinish
  | enablePublisherAcks answered =>
    have hidle : ∀ c, s.client.call.ofConsumer c = .idle := fun c => by rw [hcall]; rfl
    simp only [Client.finish, hcall] at hfinish
    split at hfinish
    · obtain rfl := Option.some.inj hfinish
      refine h.client (Client.KeepsEvents.raiseIfReturned ?_ _ _ ⟨rfl, fun _ => rfl⟩ hidle)
      exact .of_eq rfl rfl (fun _ => (hidle _).symm) rfl
    · cases hfinish
  | publish number deliveryTag values =>
    have hidle : ∀ c, s.client.call.ofConsumer c = .idle := fun c => by rw [hcall]; rfl
    have hsame : s.client.KeepsEvents s.client := .of_eq rfl rfl (fun _ => rfl) rfl
    simp only [Client.finish, hcall] at hfinish
    split at hfinish
    · cases hfinish
    · split at hfinish
      · obtain rfl := Option.some.inj hfinish
        exact h.client (hsame.ends _ ⟨rfl, fun _ => rfl⟩ hidle)
      · split at hfinish
        · obtain rfl := Option.some.inj hfinish
          refine h.client (Client.KeepsEvents.ends ?_ _ ⟨rfl, fun _ => rfl⟩ hidle)
          exact .of_eq rfl rfl (fun _ => (hidle _).symm) rfl
        · obtain rfl := Option.some.inj hfinish
          exact h.client (hsame.raiseIfReturned _ _ ⟨rfl, fun _ => rfl⟩ hidle)
    · obtain rfl := Option.some.inj hfinish
      exact h.client (hsame.ends _ ⟨rfl, fun _ => rfl⟩ hidle)
  | createConsumer consumerTag answered =>
    simp only [Client.finish, hcall] at hfinish
    split at hfinish
    · next hanswered =>
      obtain rfl := Option.some.inj hfinish
      rw [hanswered] at hcall
      exact h.created hcall (consumerTag :: s.client.consumerSet)
    · cases hfinish
  | cancelConsumer consumerTag answered =>
    simp only [Client.finish, hcall] at hfinish
    split at hfinish
    · next hanswered =>
      obtain rfl := Option.some.inj hfinish
      rw [hanswered] at hcall
      rw [Client.splitEvents_eq]
      exact h.cancelled hcall (List.nil_append _) (List.nil_append _)
    · cases hfinish
  | getNextEvent =>
    simp only [Client.finish, hcall] at hfinish
    split at hfinish
    · cases hfinish
    · next event events hevents =>
      obtain rfl := Option.some.inj hfinish
      exact h.nextEvent hcall hevents

/-! ## The broker -/

/-- Only the broker takes a step, which no consumer sees. -/
theorem Consuming.broker (h : Consuming c s) {methods : List (Method M)} {fs : List (Frame M)}
    {b : Broker M} (hmethods : methods.filter (·.consumerTag = some c) =
      s.methods.filter (·.consumerTag = some c))
    (hframes : fs.filter (·.consumerTag = some c) = [])
    (hconsumers : c ∈ b.consumers ↔ c ∈ s.broker.consumers)
    (hsent : b.sent.filter (·.consumerTag = c) = s.broker.sent.filter (·.consumerTag = c)) :
    Consuming c { s with methods := methods, frames := s.frames ++ fs, broker := b } := by
  apply h.same
  simp only [Channel.consumerView, hmethods, List.filter_append, hframes, List.append_nil,
    hconsumers, hsent]

theorem Consuming.handle (h : Consuming c s) {method : Method M} {methods : List (Method M)}
    (hmethods : s.methods = method :: methods) (unroutable : Bool) :
    Consuming c { s with
      methods := methods
      broker := (s.broker.handle unroutable method).1
      frames := s.frames ++ (s.broker.handle unroutable method).2 } := by
  have hrest : method.consumerTag ≠ some c → methods.filter (·.consumerTag = some c) =
      s.methods.filter (·.consumerTag = some c) := by
    intro htag
    rw [hmethods, List.filter_cons_of_neg (by simp [htag])]
  have hhead : method.consumerTag = some c →
      (s.consumerView c).methods = method :: methods.filter (·.consumerTag = some c) := by
    intro htag
    simp only [Channel.consumerView, hmethods]
    rw [List.filter_cons_of_pos (by simp [htag])]
  have hnone : (none : Option ℕ) ≠ some c := fun h => by cases h
  cases method with
  | publish p =>
    simp only [Broker.handle]
    split
    · exact h.broker (hrest hnone) rfl Iff.rfl rfl
    · split
      · exact h.broker (hrest hnone) rfl Iff.rfl rfl
      · exact h.broker (hrest hnone) rfl Iff.rfl rfl
  | confirmSelect => exact h.broker (hrest hnone) rfl Iff.rfl rfl
  | consume tag =>
    by_cases htag : tag = c
    · subst htag
      obtain ⟨d, es, hd⟩ := h
      have hm := (hhead rfl).symm.trans hd.methods
      have hrequested : d = .requested := by cases d <;> first | rfl | cases hm
      subst hrequested
      have hview : Channel.consumerView tag { s with
          methods := methods
          broker := { s.broker with consumers := tag :: s.broker.consumers }
          frames := s.frames ++ [.consumeOk tag] } =
            { s.consumerView tag with
              methods := [], consuming := True
              frames := (s.consumerView tag).frames ++ [.consumeOk tag] } := by
        simp only [Channel.consumerView, List.mem_cons_self, (List.cons.inj hm).2]
        rw [filter_append_of_some (by simp [Frame.consumerTag])]
      exact ⟨.accepted, es, hview ▸ hd.accept⟩
    · have hne : some tag ≠ some c := fun h => htag (Option.some.inj h)
      refine h.broker (hrest hne) ?_ ?_ (by rfl)
      · simp [Broker.handle, Frame.consumerTag, htag]
      · simp [Broker.handle, Ne.symm htag]
  | cancel tag =>
    by_cases htag : tag = c
    · subst htag
      obtain ⟨d, es, hd⟩ := h
      have hm := (hhead rfl).symm.trans hd.methods
      have hcancelling : d = .cancelling := by cases d <;> first | rfl | cases hm
      subst hcancelling
      have hview : Channel.consumerView tag { s with
          methods := methods
          broker := { s.broker with consumers := s.broker.consumers.filter (· ≠ tag) }
          frames := s.frames ++ [.cancelOk tag] } =
            { s.consumerView tag with
              methods := [], consuming := False
              frames := (s.consumerView tag).frames ++ [.cancelOk tag] } := by
        have hnone : (tag ∈ s.broker.consumers.filter (· ≠ tag)) = False := by simp
        simp only [Channel.consumerView, hnone, (List.cons.inj hm).2]
        rw [filter_append_of_some (by simp [Frame.consumerTag])]
      exact ⟨.released, es, hview ▸ hd.release⟩
    · have hne : some tag ≠ some c := fun h => htag (Option.some.inj h)
      refine h.broker (hrest hne) ?_ ?_ (by rfl)
      · simp [Broker.handle, Frame.consumerTag, htag]
      · simp [Broker.handle, Ne.symm htag]

/-- The broker sends an event. -/
theorem Consuming.sendEvent (h : Consuming c s) {e : Event M}
    (hconsuming : e.consumerTag ∈ s.broker.consumers) {b : Broker M}
    (hsent : b.sent = s.broker.sent ++ [e])
    (hothers : c ≠ e.consumerTag → (c ∈ b.consumers ↔ c ∈ s.broker.consumers))
    (hlast : e.consumerTag ∈ b.consumers → e.deliveryTag ≠ none) :
    Consuming c { s with broker := b, frames := s.frames ++ [.event e] } := by
  by_cases htag : e.consumerTag = c
  · subst htag
    obtain ⟨d, es, hd⟩ := h
    have hview : Channel.consumerView e.consumerTag
        { s with broker := b, frames := s.frames ++ [.event e] } =
          { s.consumerView e.consumerTag with
            consuming := e.consumerTag ∈ b.consumers
            sent := (s.consumerView e.consumerTag).sent ++ [e]
            frames := (s.consumerView e.consumerTag).frames ++ [.event e] } := by
      simp only [Channel.consumerView, hsent]
      rw [filter_append_of_some (by simp [Frame.consumerTag]), filter_append_of_some (by simp)]
    exact ⟨d, es ++ [e], hview ▸ hd.send hconsuming e _ hlast⟩
  · refine h.broker rfl ?_ (hothers (Ne.symm htag)) ?_
    · simp [Frame.consumerTag, htag]
    · rw [hsent, filter_append_of_none (by simp [htag])]

/-! ## Every step -/

theorem consuming_init (h : (channelSystem M).init s) (c : ℕ) : Consuming c s := by
  obtain rfl := h
  have hnil : CancelsLast ([] : List (Event M)) := fun pre c post h => by cases pre <;> cases h
  by_cases hc : 1 ≤ c
  · exact ⟨.fresh, [], {
      isNew := ⟨fun _ => rfl, fun _ => hc⟩
      call := rfl, methods := rfl, frames := rfl
      silent := fun _ h => absurd h List.not_mem_nil
      unsent := fun _ => rfl, read := fun h => by cases h
      ledger := rfl, messages := fun h => absurd h List.not_mem_nil
      cancelsLast := hnil, closed := fun h => by cases h }⟩
  · exact ⟨.running, [], {
      isNew := ⟨fun h => absurd h hc, fun h => by cases h⟩
      call := rfl, methods := rfl, frames := rfl
      silent := fun _ h => absurd h List.not_mem_nil
      unsent := fun _ => rfl, read := fun h => by cases h
      ledger := rfl, messages := fun h => absurd h List.not_mem_nil
      cancelsLast := hnil, closed := fun h => by cases h }⟩

theorem consuming_next {a : Channel.Action M} (hall : ∀ c, Consuming c s) (hp : Publishing s)
    (hnext : (channelSystem M).next a s = some t) (c : ℕ) : Consuming c t := by
  have hact : Channel.act a s = some t := hnext
  have h := hall c
  cases a with
  | enablePublisherAcks =>
    simp only [Channel.act] at hact
    split at hact
    · cases hact
    · next hcall =>
      have hidle : ∀ c, s.client.call.ofConsumer c = .idle :=
        fun c => by rw [not_not.mp hcall]; rfl
      split at hact
      · obtain rfl := Option.some.inj hact
        have hsame : s.client.KeepsEvents s.client := .of_eq rfl rfl (fun _ => rfl) rfl
        exact h.client (hsame.ends _ ⟨rfl, fun _ => rfl⟩ hidle)
      · obtain rfl := Option.some.inj hact
        refine h.send rfl ?_
        exact .of_eq rfl rfl (fun c => (hidle c).symm) rfl
  | publish message mandatory =>
    simp only [Channel.act] at hact
    split at hact
    · cases hact
    · next hcall =>
      obtain rfl := Option.some.inj hact
      exact h.publish (not_not.mp hcall) message mandatory
  | createConsumer =>
    simp only [Channel.act] at hact
    split at hact
    · cases hact
    · next hcall =>
      obtain rfl := Option.some.inj hact
      exact h.createConsumer (not_not.mp hcall)
  | cancelConsumer consumerTag =>
    simp only [Channel.act] at hact
    split at hact
    · cases hact
    · next hcall =>
      obtain rfl := Option.some.inj hact
      obtain ⟨hidle, htag⟩ := not_or.mp hcall
      exact h.cancelConsumer (not_not.mp hidle) (Nat.lt_of_not_le htag)
  | getNextEvent =>
    simp only [Channel.act] at hact
    split at hact
    · cases hact
    · next hcall =>
      obtain rfl := Option.some.inj hact
      refine h.client ?_
      exact .of_eq rfl rfl (fun c => by rw [not_not.mp hcall]; rfl) rfl
  | readFrame =>
    simp only [Channel.act] at hact
    split at hact
    · cases hact
    · split at hact
      · cases hact
      · next frame frames hframes =>
        obtain rfl := Option.some.inj hact
        exact Consuming.readFrame hall hp hframes c
  | finish =>
    obtain ⟨client, hfinish, rfl⟩ := Option.map_eq_some_iff.mp hact
    exact h.finish hfinish
  | handle unroutable =>
    simp only [Channel.act] at hact
    split at hact
    · cases hact
    · next method methods hmethods =>
      obtain rfl := Option.some.inj hact
      exact h.handle hmethods unroutable
  | sendReturn i =>
    obtain ⟨u, hu, hact⟩ := Option.bind_eq_some_iff.mp hact
    split at hact
    · obtain rfl := Option.some.inj hact
      exact h.broker rfl rfl Iff.rfl rfl
    · cases hact
  | sendConfirm i how =>
    obtain ⟨u, hu, rfl⟩ := Option.map_eq_some_iff.mp hact
    exact h.broker rfl rfl Iff.rfl rfl
  | deliver consumerTag body =>
    simp only [Channel.act] at hact
    split at hact
    · next htag =>
      obtain rfl := Option.some.inj hact
      exact h.sendEvent (e := .consumerMessage _ _ _) htag rfl (fun _ => Iff.rfl)
        fun _ h => by cases h
    · cases hact
  | cancelByBroker consumerTag =>
    simp only [Channel.act] at hact
    split at hact
    · next htag =>
      obtain rfl := Option.some.inj hact
      refine h.sendEvent (e := .consumerCancellation _) htag rfl (fun hc => ?_) fun h => ?_
      · have hne : c ≠ consumerTag := hc
        simp [hne]
      · simp [Event.consumerTag] at h
    · cases hact

theorem Reachable.consuming (h : Reachable (channelSystem M) s) (c : ℕ) : Consuming c s := by
  have hall : ∀ c, Consuming c s := by
    apply h.invariant
    · exact fun s hs => consuming_init hs
    · exact fun a s t hreach hs hnext => consuming_next hs (Reachable.publishing hreach) hnext
  exact hall c

end NumentaApps.AmqpClient
