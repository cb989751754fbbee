import NumentaApps.PublishRuns

/-!
# What publishing reports

A publish with acks reports the fate of its own message, and what was returned of the messages
published before is in one `UnroutableError`.
-/
namespace NumentaApps.AmqpClient
open TransitionSystem

variable {M : Type} {s t : Channel M} {tr : List (Channel M × Channel.Action M)}

/-! ## A publish of the run -/

/-- The messages on their way have numbers that were given. -/
theorem Publishing.number_lt (h : Publishing s) {p : Published M} (hp : s.Carries p) :
    p.number < s.client.numPublished := by
  obtain ⟨d, rs, hd, ha⟩ := h
  have hcurrent : ∀ q, d.current = some q → q.number < s.client.numPublished := by
    intro q hq
    have hnumber : s.client.numPublished = q.number + 1 := (ha.current q hq).1
    omega
  rcases hp with hp | ⟨u, hu, rfl⟩ | hp
  · exact ha.bounded p (List.mem_append_left _ hp)
  · obtain ⟨i, hi⟩ := List.getElem?_of_mem hu
    obtain ⟨p, returned, rfl, -, rfl⟩ := hd.handled_of_getElem? hi
    exact hcurrent p rfl
  · have hm : Method.publish p ∈ d.methods := by
      rw [← show s.methods.filter Method.ofPublish = d.methods from hd.methods]
      exact List.mem_filter.mpr ⟨hp, rfl⟩
    cases d with
    | unconfirmed waiting selecting =>
      rcases List.mem_append.mp hm with hm | hm
      · obtain ⟨q, hq, hqp⟩ := List.mem_map.mp hm
        obtain rfl := Method.publish.inj hqp
        exact ha.bounded q (List.mem_append_right _ hq)
      · cases selecting <;> simp at hm
    | published q =>
      obtain rfl := Method.publish.inj (List.mem_singleton.mp hm)
      exact hcurrent _ rfl
    | selected answered => cases hm
    | idle => cases hm
    | handled q returned => cases hm
    | confirmed q how answered => cases hm

/-- A message was published with this number; every message on its way with the number is it. -/
def Channel.Sent (p : Published M) (s : Channel M) : Prop :=
  p.number < s.client.numPublished ∧ ∀ q, s.Carries q → q.number = p.number → q = p

/-- Its publish has acks. -/
def Channel.SentConfirmed (p : Published M) (s : Channel M) : Prop :=
  s.Sent p ∧ s.client.pubacksSelected = true ∧
    s.client.numPublished ≤ p.number + s.client.msgId

/-- Its publish has none. -/
def Channel.SentUnconfirmed (p : Published M) (s : Channel M) : Prop :=
  s.Sent p ∧ p.number + s.client.msgId < s.client.numPublished

theorem Channel.Sent.next {p : Published M} (h : s.Sent p) (hf : s.Follows t) : t.Sent p := by
  obtain ⟨hlt, honly⟩ := h
  constructor
  · have := hf.counters
    omega
  · intro q hq hnumber
    rcases hf.carries q hq with hq | ⟨hq, -⟩
    · exact honly q hq hnumber
    · omega

theorem Channel.SentConfirmed.next {p : Published M} (h : s.SentConfirmed p) (hf : s.Follows t) :
    t.SentConfirmed p := by
  obtain ⟨hsent, hacks, hle⟩ := h
  refine ⟨hsent.next hf, hf.acks hacks, ?_⟩
  rcases hf.counters with ⟨hn, hm⟩ | ⟨-, hn, hm⟩ | ⟨hoff, -⟩
  · omega
  · omega
  · rw [hacks] at hoff
    cases hoff

theorem Channel.SentUnconfirmed.next {p : Published M} (h : s.SentUnconfirmed p)
    (hf : s.Follows t) : t.SentUnconfirmed p := by
  obtain ⟨hsent, hlt⟩ := h
  refine ⟨hsent.next hf, ?_⟩
  rcases hf.counters with ⟨hn, hm⟩ | ⟨-, hn, hm⟩ | ⟨-, hn, hm⟩ <;> omega

theorem Publishing.publish_sent (h : Publishing s) {message : M} {mandatory : Bool}
    (hnext : (channelSystem M).next (.publish message mandatory) s = some t) :
    (s.client.pubacksSelected = true →
      t.SentConfirmed ⟨s.client.numPublished, message, mandatory⟩) ∧
    (s.client.pubacksSelected = false →
      (s.client.returnedMessages ≠ [] →
        .unroutableError none s.client.returnedMessages ∈ t.client.outcomes) ∧
      (s.client.returnedMessages = [] →
        t.SentUnconfirmed ⟨s.client.numPublished, message, mandatory⟩)) := by
  have hact : Channel.act (.publish message mandatory) s = some t := hnext
  simp only [Channel.act] at hact
  split at hact
  · cases hact
  · next hcall =>
    have hidle : s.client.call = .idle := not_not.mp hcall
    obtain rfl := Option.some.inj hact
    let p : Published M := ⟨s.client.numPublished, message, mandatory⟩
    have hsent : ∀ {c : Client M}, c.numPublished = s.client.numPublished + 1 →
        { s with client := c, methods := s.methods ++ [Method.publish p] }.Sent p := by
      intro c hc
      refine ⟨Nat.lt_of_lt_of_eq (Nat.lt_succ_self s.client.numPublished) hc.symm,
        fun q hq hnumber => ?_⟩
      rcases hq.of_append with hq | hq
      · exact absurd hnumber (Nat.ne_of_lt (h.number_lt hq))
      · exact (Method.publish.inj hq).symm
    obtain ⟨d, rs, hd, ha⟩ := h
    constructor
    · intro hacks
      obtain rfl := hd.idle_of_idle hidle hacks
      have hkept : s.client.returnedMessages = [] := hd.reported trivial
      rw [Channel.publish, if_pos hacks, if_neg (not_not.mpr hkept)]
      refine ⟨hsent rfl, hacks, ?_⟩
      show s.client.numPublished + 1 ≤ s.client.numPublished + (s.client.msgId + 1)
      omega
    · intro hacks
      obtain ⟨waiting, rfl⟩ := hd.unconfirmed_of_idle hidle hacks
      have hmsgId : s.client.msgId = 0 := hd.counted
      rw [Channel.publish, if_neg (by rw [hacks]; exact Bool.false_ne_true)]
      constructor
      · intro hkept
        rw [if_pos hkept]
        obtain ⟨o, hraise, ho⟩ := s.client.raiseIfReturned_eq none .publishedUnconfirmed
        obtain ⟨-, rfl⟩ := ho.resolve_left fun h => hkept h.1
        rw [hraise]
        exact List.mem_append_right _ (List.mem_singleton_self _)
      · intro hkept
        rw [if_neg (not_not.mpr hkept)]
        refine ⟨hsent rfl, ?_⟩
        show s.client.numPublished + s.client.msgId < s.client.numPublished + 1
        omega

/-! ## What it reports -/

/-- A publish with acks is still waiting, or has reported the fate of its message. -/
theorem Publishing.outcome (h : Publishing s) {p : Published M} (hp : s.SentConfirmed p) :
    (∃ tag values, s.client.call = .publish p.number tag values) ∨
      ∃ how, s.broker.confirmsOf p.number = [(p.number, how)] ∧
        s.client.outcomes.filter (·.number = some p.number) = [s.broker.fate how p.number] := by
  obtain ⟨⟨hlt, -⟩, -, hle⟩ := hp
  obtain ⟨d, rs, hd, ha⟩ := h
  have hwaiting : ∀ q, d.current = some q → q.number = p.number →
      ∃ tag values, s.client.call = .publish p.number tag values := by
    intro q hq hqp
    have hcall := hd.call
    rw [← hqp]
    cases d with
    | unconfirmed waiting selecting => cases hq
    | selected answered => cases hq
    | idle => cases hq
    | published r =>
      obtain rfl := Option.some.inj hq
      exact ⟨_, _, Call.eq_of_ofPublish hcall Call.noConfusion⟩
    | handled r returned =>
      obtain rfl := Option.some.inj hq
      exact ⟨_, _, Call.eq_of_ofPublish hcall Call.noConfusion⟩
    | confirmed r how answered =>
      obtain rfl := Option.some.inj hq
      exact ⟨_, _, Call.eq_of_ofPublish hcall Call.noConfusion⟩
  by_cases hcurrent : ∃ q, d.current = some q ∧ q.number = p.number
  · obtain ⟨q, hq, hqp⟩ := hcurrent
    exact .inl (hwaiting q hq hqp)
  · refine .inr ?_
    have hnumbers : s.client.outcomes.filterMap Outcome.number =
        List.range' (s.client.numPublished - s.client.msgId) (d.ended s.client.msgId) := ha.numbers
    have hmsgId : s.client.msgId ≤ s.client.numPublished := ha.msgId_le
    have hended : p.number < s.client.numPublished - s.client.msgId + d.ended s.client.msgId := by
      cases hd' : d.current with
      | none =>
        simp only [Stage.ended, hd', Option.isSome_none, Bool.false_eq_true, if_false]
        omega
      | some q =>
        have hnumber : s.client.numPublished = q.number + 1 := (ha.current q hd').1
        have hne : q.number ≠ p.number := fun h => hcurrent ⟨q, hd', h⟩
        simp only [Stage.ended, hd', Option.isSome_some, if_true]
        omega
    have hmem : p.number ∈ s.client.outcomes.filterMap Outcome.number := by
      rw [hnumbers, List.mem_range'_1]
      omega
    have hnodup : (s.client.outcomes.filterMap Outcome.number).Nodup := by
      rw [hnumbers]
      exact List.nodup_range'
    obtain ⟨o, ho, hfilter⟩ := filter_eq_singleton hnodup hmem
    have hmem : o ∈ s.client.outcomes.filter (·.number = some p.number) := by
      rw [hfilter]
      exact List.mem_singleton_self o
    obtain ⟨how, hone, hfate⟩ := (ha.fates o (List.mem_filter.mp hmem).1).2 p.number ho
    exact ⟨how, hone, hfilter.trans (congrArg (fun o => [o]) hfate)⟩

theorem Accounts.returnedFor_eq {d : Stage M} {rs : List (Published M)} {os : List (Outcome M)}
    {v : Channel M} (ha : Accounts d rs os v) {p : Published M} (hp : p ∈ v.broker.returned) :
    v.broker.returnedFor p.number = [p] := by
  have hnodup : (v.broker.returned.filterMap fun q => some q.number).Nodup := by
    rw [List.filterMap_eq_map']
    apply List.pairwise_map.mpr
    exact (List.pairwise_append.mp ha.increasing).1.imp fun h => Nat.ne_of_lt h
  obtain ⟨q, hq, hfilter⟩ := filter_eq_singleton hnodup (n := p.number)
    (List.mem_filterMap.mpr ⟨p, hp, rfl⟩)
  simp only [Option.some.injEq] at hfilter
  have hmem : p ∈ v.broker.returned.filter (·.number = p.number) :=
    List.mem_filter.mpr ⟨hp, decide_eq_true rfl⟩
  rw [hfilter] at hmem
  obtain rfl := List.mem_singleton.mp hmem
  exact hfilter

/-- A `NackError` only carries what was returned for its own message. -/
theorem Accounts.filter_unroutable {d : Stage M} {rs : List (Published M)} {os : List (Outcome M)}
    {v : Channel M} (ha : Accounts d rs os v) {n : ℕ}
    (hn : n + v.client.msgId < v.client.numPublished) :
    (os.flatMap Outcome.unroutable).filter (·.number = n) =
      (os.flatMap Outcome.messages).filter (·.number = n) := by
  rw [List.filter_flatMap, List.filter_flatMap]
  apply List.flatMap_congr
  intro o ho
  cases o with
  | nackError k messages =>
    obtain ⟨how, -, hfate⟩ := (ha.fates _ ho).2 k rfl
    have hk : k ∈ os.filterMap Outcome.number := List.mem_filterMap.mpr ⟨_, ho, rfl⟩
    rw [ha.numbers, List.mem_range'_1] at hk
    have hmessages : messages = v.broker.returnedFor k := by
      have := congrArg Outcome.messages hfate
      rwa [Broker.fate_messages] at this
    refine (List.filter_eq_nil_iff.mpr fun q hq => ?_).symm
    have hq : q ∈ v.broker.returnedFor k := hmessages ▸ hq
    have hqk : q.number = k := of_decide_eq_true (List.mem_filter.mp hq).2
    simp only [decide_eq_true_eq]
    omega
  | _ => rfl

theorem filterMap_returned (frames : List (Frame M)) :
    (frames.filter Frame.ofPublish).filterMap Frame.returned = frames.filterMap Frame.returned := by
  induction frames with
  | nil => rfl
  | cons frame frames ih =>
    cases frame with
    | basicReturn p => exact congrArg (p :: ·) ih
    | _ => exact ih

theorem AtStage.filterMap_returned {d : Stage M} {rs : List (Published M)}
    (hd : AtStage d rs s.ofPublish) : s.frames.filterMap Frame.returned = rs := by
  have hframes : s.frames.filter Frame.ofPublish =
      rs.map .basicReturn ++ d.answer s.client.msgId := hd.frames
  have hanswer : (d.answer s.client.msgId).filterMap Frame.returned = [] := by
    cases d with
    | selected answered => cases answered <;> rfl
    | confirmed p how answered => cases answered <;> rfl
    | _ => rfl
  have hreturns : (rs.map Frame.basicReturn).filterMap Frame.returned = rs := by
    rw [List.filterMap_map]
    exact List.filterMap_some
  rw [← AmqpClient.filterMap_returned, hframes, List.filterMap_append, hreturns, hanswer,
    List.append_nil]

/-- Once acks are on, what is kept and not reported was returned for the current message. -/
theorem Accounts.number_of_kept {d : Stage M} {rs : List (Published M)}
    (hd : AtStage d rs s.ofPublish) (ha : Accounts d rs s.client.outcomes s.ofPublish)
    (hacks : s.client.pubacksSelected = true) {q : Published M}
    (hq : q ∈ s.client.returnedMessages ++ rs) :
    s.client.numPublished ≤ q.number + s.client.msgId := by
  have hcurrent : ∀ p, d.current = some p → s.client.numPublished ≤ q.number + s.client.msgId := by
    intro p hp
    obtain ⟨hnumber, hpos, hreturned, -⟩ := ha.current p hp
    have hmem : q ∈ s.broker.returnedFor p.number := by
      rw [show s.broker.returnedFor p.number = s.client.returnedMessages ++ rs from hreturned]
      exact hq
    have hqp : q.number = p.number := of_decide_eq_true (List.mem_filter.mp hmem).2
    have hnumber : s.client.numPublished = p.number + 1 := hnumber
    have hpos : 0 < s.client.msgId := hpos
    omega
  have hon : true = d.acks := hacks ▸ hd.acks
  cases d with
  | unconfirmed waiting selecting => cases hon
  | selected answered => cases hon
  | idle =>
    rw [show s.client.returnedMessages = [] from hd.reported trivial, hd.read trivial] at hq
    cases hq
  | published p => exact hcurrent p rfl
  | handled p returned => exact hcurrent p rfl
  | confirmed p how answered => exact hcurrent p rfl

/-- A message published without acks that was returned has been reported in one `UnroutableError`,
or is kept for one; once acks are on it has been reported. -/
theorem Publishing.reports (h : Publishing s) {p : Published M} (hp : s.SentUnconfirmed p)
    (hreturned : p ∈ s.broker.returned) :
    (s.client.outcomes.flatMap Outcome.unroutable ++ s.client.returnedMessages ++
        s.frames.filterMap Frame.returned).filter (·.number = p.number) = [p] ∧
      (s.client.pubacksSelected = true →
        (s.client.outcomes.flatMap Outcome.unroutable).filter (·.number = p.number) = [p]) := by
  obtain ⟨-, hlt⟩ := hp
  obtain ⟨d, rs, hd, ha⟩ := h
  have hall : (s.client.outcomes.flatMap Outcome.unroutable).filter (·.number = p.number) ++
      (s.client.returnedMessages ++ rs).filter (·.number = p.number) = [p] := by
    have hledger := congrArg (List.filter (·.number = p.number)) ha.ledger
    rw [List.append_assoc, List.filter_append, ← ha.filter_unroutable hlt] at hledger
    exact hledger.trans (ha.returnedFor_eq hreturned)
  constructor
  · rw [hd.filterMap_returned, List.append_assoc, List.filter_append]
    exact hall
  · intro hacks
    have hnone : (s.client.returnedMessages ++ rs).filter (·.number = p.number) = [] := by
      apply List.filter_eq_nil_iff.mpr
      intro q hq
      have := Accounts.number_of_kept hd ha hacks hq
      simp only [decide_eq_true_eq]
      omega
    rw [hnone, List.append_nil] at hall
    exact hall

/-- No assertion fails. A publish with acks that has ended reports how the broker confirmed its
message and what of it was returned. A publish without acks raises what was kept before, and a
message that was published and returned is in one `UnroutableError`, at the latest when acks have
been enabled. -/
theorem publish_fates (h : Run (channelSystem M) tr s) :
    .assertionError ∉ s.client.outcomes ∧
    ∀ t message mandatory, (t, .publish message mandatory) ∈ tr →
      let p : Published M := ⟨t.client.numPublished, message, mandatory⟩
      (t.client.pubacksSelected = true →
        (∀ q ∈ s.broker.returnedFor p.number, q = p) ∧
        ((∃ tag values, s.client.call = .publish p.number tag values) ∨
          ∃ how, s.broker.confirmsOf p.number = [(p.number, how)] ∧
            s.client.outcomes.filter (·.number = some p.number) = [s.broker.fate how p.number])) ∧
      (t.client.pubacksSelected = false →
        (t.client.returnedMessages ≠ [] →
          .unroutableError none t.client.returnedMessages ∈ s.client.outcomes) ∧
        (t.client.returnedMessages = [] → p ∈ s.broker.returned →
          (s.client.outcomes.flatMap Outcome.unroutable ++ s.client.returnedMessages ++
            s.frames.filterMap Frame.returned).filter (·.number = p.number) = [p] ∧
          (s.client.pubacksSelected = true →
            (s.client.outcomes.flatMap Outcome.unroutable).filter (·.number = p.number) =
              [p]))) := by
  have hs : Publishing s := Reachable.publishing h.reachable
  constructor
  · intro hmem
    obtain ⟨d, rs, -, ha⟩ := hs
    exact (ha.fates _ hmem).1 rfl
  · intro t message mandatory ht p
    constructor
    · intro hacks
      have hsent : s.SentConfirmed p := by
        apply h.of_mem ht
        · exact fun u hreach hu => ((Reachable.publishing hreach).publish_sent hu).1 hacks
        · exact fun a s t hs hnext => hs.next (Channel.follows hnext)
      refine ⟨fun q hq => ?_, hs.outcome hsent⟩
      obtain ⟨hq, hnumber⟩ := List.mem_filter.mp hq
      exact hsent.1.2 q (.inl hq) (of_decide_eq_true hnumber)
    · intro hacks
      constructor
      · intro hkept
        apply h.of_mem (P := fun s => _ ∈ s.client.outcomes) ht
        · exact fun u hreach hu => (((Reachable.publishing hreach).publish_sent hu).2 hacks).1 hkept
        · exact fun a s t hs hnext => (Channel.follows hnext).outcomes.subset hs
      · intro hkept hreturned
        have hsent : s.SentUnconfirmed p := by
          apply h.of_mem ht
          · exact fun u hreach hu =>
              (((Reachable.publishing hreach).publish_sent hu).2 hacks).2 hkept
          · exact fun a s t hs hnext => hs.next (Channel.follows hnext)
        exact hs.reports hsent hreturned

/-- A message is returned before acks are on, the next one with acks. -/
def returnedActions : List (Channel.Action ℕ) :=
  [.publish 7 true, .handle true, .enablePublisherAcks, .handle true, .readFrame, .readFrame,
    .finish, .publish 8 true, .handle true, .sendReturn 0, .sendConfirm 0 .ack, .readFrame,
    .readFrame, .finish]

theorem publish_fates_returned :
    ∃ s, (channelSystem ℕ).exec returnedActions (newChannel ℕ) = some s ∧
      s.client.outcomes = [.publishedUnconfirmed, .unroutableError none [⟨0, 7, true⟩],
        .unroutableError (some 1) [⟨1, 8, true⟩]] ∧
      .assertionError ∉ s.client.outcomes ∧
      (s.client.outcomes.flatMap Outcome.unroutable).filter (·.number = 0) = [⟨0, 7, true⟩] ∧
      ∀ q ∈ s.broker.returnedFor 1, q = ⟨1, 8, true⟩ := by
  have hexec : ∃ s, (channelSystem ℕ).exec returnedActions (newChannel ℕ) = some s := ⟨_, rfl⟩
  obtain ⟨s, hs⟩ := hexec
  have hrun := (Run.init (S := channelSystem ℕ) rfl).exec_trace hs
  have hfirst := List.mem_of_getElem? (i := 0) (a := _)
    (show ([] ++ (channelSystem ℕ).trace returnedActions (newChannel ℕ))[0]? = some _ from rfl)
  have hsecond := List.mem_of_getElem? (i := 7) (a := _)
    (show ([] ++ (channelSystem ℕ).trace returnedActions (newChannel ℕ))[7]? = some _ from rfl)
  obtain ⟨hassert, hfates⟩ := publish_fates hrun
  obtain rfl := Option.some.inj hs
  exact ⟨_, rfl, rfl, hassert,
    (((hfates _ _ _ hfirst).2 rfl).2 rfl (List.mem_of_getElem? (i := 0) rfl)).2 rfl,
    ((hfates _ _ _ hsecond).1 rfl).1⟩

end NumentaApps.AmqpClient
