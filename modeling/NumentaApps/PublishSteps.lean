import NumentaApps.PublishStages

/-!
# The steps of publishing

Every step of a channel either leaves alone what concerns publishing, or moves it on to another
stage at which the records still agree.
-/
namespace NumentaApps.AmqpClient
open TransitionSystem

variable {M : Type}

/-! ## Steps that do not concern publishing -/

theorem Accounts.append_quiet {d : Stage M} {rs : List (Published M)} {outcomes : List (Outcome M)}
    {v : Channel M} (h : Accounts d rs outcomes v) (os : List (Outcome M)) (hq : ∀ o ∈ os, o.Quiet) :
    Accounts d rs (outcomes ++ os) v := by
  have hmessages : os.flatMap Outcome.messages = [] := by
    apply List.flatMap_eq_nil_iff.mpr
    intro o ho
    exact (hq o ho).2.1
  have hnumbers : os.filterMap Outcome.number = [] := by
    apply List.filterMap_eq_nil_iff.mpr
    intro o ho
    exact (hq o ho).1
  refine { h with ledger := ?_, numbers := ?_, fates := ?_ }
  · rw [List.flatMap_append, hmessages, List.append_nil]
    exact h.ledger
  · rw [List.filterMap_append, hnumbers, List.append_nil]
    exact h.numbers
  · intro o ho
    rcases List.mem_append.mp ho with ho | ho
    · exact h.fates o ho
    · refine ⟨(hq o ho).2.2, fun n hn => ?_⟩
      rw [(hq o ho).1] at hn
      cases hn

theorem Publishing.quiet {s t : Channel M} (h : Publishing s) (hv : t.ofPublish = s.ofPublish)
    (os : List (Outcome M)) (ho : t.client.outcomes = s.client.outcomes ++ os)
    (hq : ∀ o ∈ os, o.Quiet) : Publishing t := by
  obtain ⟨d, rs, hd, ha⟩ := h
  refine ⟨d, rs, hv ▸ hd, ?_⟩
  rw [hv, ho]
  exact ha.append_quiet _ hq

/-- The same when no call ends. -/
theorem Publishing.same {s t : Channel M} (h : Publishing s) (hv : t.ofPublish = s.ofPublish)
    (ho : t.client.outcomes = s.client.outcomes) : Publishing t :=
  h.quiet hv [] (by rw [ho, List.append_nil]) (fun _ ho => absurd ho List.not_mem_nil)

/-! ## The stage of a channel -/

variable {d : Stage M} {rs : List (Published M)} {s : Channel M}

/-- Acks are off, and no call of publishing is on. -/
theorem AtStage.unconfirmed_of_idle (h : AtStage d rs s.ofPublish) (hcall : s.client.call = .idle)
    (hacks : s.client.pubacksSelected = false) : ∃ waiting, d = .unconfirmed waiting false := by
  have ha : false = d.acks := hacks ▸ h.acks
  have hc : Call.idle = d.call s.client.msgId := by
    have := h.call
    rwa [show s.ofPublish.client.call = s.client.call.ofPublish from rfl, hcall] at this
  cases d with
  | unconfirmed waiting selecting =>
    cases selecting with
    | false => exact ⟨waiting, rfl⟩
    | true => cases hc
  | selected answered => cases hc
  | idle => cases ha
  | published p => cases ha
  | handled p returned => cases ha
  | confirmed p how answered => cases ha

/-- Acks are on, and no call of publishing is on. -/
theorem AtStage.idle_of_idle (h : AtStage d rs s.ofPublish) (hcall : s.client.call = .idle)
    (hacks : s.client.pubacksSelected = true) : d = .idle := by
  have ha : true = d.acks := hacks ▸ h.acks
  have hc : Call.idle = d.call s.client.msgId := by
    have := h.call
    rwa [show s.ofPublish.client.call = s.client.call.ofPublish from rfl, hcall] at this
  cases d with
  | unconfirmed waiting selecting => cases ha
  | selected answered => cases ha
  | idle => rfl
  | published p => cases hc
  | handled p returned => cases hc
  | confirmed p how answered => cases hc

theorem Call.eq_of_ofPublish {call c : Call} (h : call.ofPublish = c) (hc : c ≠ .idle) :
    call = c := by
  cases call with
  | enablePublisherAcks answered => exact h
  | publish number deliveryTag values => exact h
  | idle => exact absurd h.symm hc
  | createConsumer consumerTag answered => exact absurd h.symm hc
  | cancelConsumer consumerTag answered => exact absurd h.symm hc
  | getNextEvent => exact absurd h.symm hc

/-! ## `enablePublisherAcks` -/

theorem Publishing.enable (h : Publishing s) (hcall : s.client.call = .idle)
    (hacks : s.client.pubacksSelected = false) :
    Publishing ({ s with client := { s.client with msgId := 0 } }.send .confirmSelect
      (.enablePublisherAcks false)) := by
  obtain ⟨d, rs, hd, ha⟩ := h
  obtain ⟨waiting, rfl⟩ := hd.unconfirmed_of_idle hcall hacks
  have hmsgId : s.client.msgId = 0 := hd.counted
  refine ⟨.unconfirmed waiting true, rs, ?_, ?_⟩
  · refine { hd with call := rfl, methods := ?_, counted := rfl, read := ?_, reported := ?_ }
    · have hm : s.methods.filter Method.ofPublish = waiting.map .publish ++ [] := hd.methods
      show (s.methods ++ [Method.confirmSelect]).filter Method.ofPublish = _
      rw [List.filter_append, hm, List.append_nil]
      rfl
    · exact fun h => h.elim
    · exact fun h => h.elim
  · have hn := ha.numbers
    refine { ha with msgId_le := Nat.zero_le _, numbers := ?_, current := ?_ }
    · rw [show s.ofPublish.client.msgId = 0 from hmsgId] at hn
      exact hn
    · intro p hp
      cases hp

/-- What was returned is reported, if there was something. -/
theorem Client.raiseIfReturned_eq (number : Option ℕ) (outcome : Outcome M) (c : Client M) :
    ∃ o, c.raiseIfReturned number outcome = { c with returnedMessages := [] }.ends o ∧
      (c.returnedMessages = [] ∧ o = outcome ∨
        c.returnedMessages ≠ [] ∧ o = .unroutableError number c.returnedMessages) := by
  rcases c with ⟨_, _, _, _, _ | ⟨r, kept⟩, _, _, _, _⟩
  · exact ⟨outcome, rfl, .inl ⟨rfl, rfl⟩⟩
  · exact ⟨_, rfl, .inr ⟨List.cons_ne_nil _ _, rfl⟩⟩

/-- Outside of a publish with acks. -/
theorem Accounts.report {os : List (Outcome M)} {o : Outcome M} {v : Channel M}
    (ha : Accounts d rs os v) (hcurrent : d.current = none)
    (ho : v.client.returnedMessages = [] ∧ o.Quiet ∨
      o = .unroutableError none v.client.returnedMessages) :
    Accounts d rs (os ++ [o]) { v with client := { v.client with returnedMessages := [] } } := by
  rcases ho with ⟨hkept, hquiet⟩ | rfl
  · have hq := ha.append_quiet [o] (fun o' ho' => List.mem_singleton.mp ho' ▸ hquiet)
    rw [← hkept]
    exact hq
  · refine { ha with ledger := ?_, numbers := ?_, fates := ?_, current := ?_ }
    · rw [List.flatMap_append, List.flatMap_singleton, ← ha.ledger]
      simp only [Outcome.messages, List.append_nil]
    · rw [List.filterMap_append, List.filterMap_cons_none rfl, List.filterMap_nil,
        List.append_nil]
      exact ha.numbers
    · intro o ho
      rcases List.mem_append.mp ho with ho | ho
      · exact ha.fates o ho
      · obtain rfl := List.mem_singleton.mp ho
        exact ⟨fun h => (by cases h), fun n hn => (by cases hn)⟩
    · intro p hp
      rw [hcurrent] at hp
      cases hp

/-- The rest of `enablePublisherAcks`. -/
theorem Publishing.enabled (h : Publishing s) (hcall : s.client.call = .enablePublisherAcks true) :
    Publishing { s with client :=
      { s.client with pubacksSelected := true }.raiseIfReturned none .enabledPublisherAcks } := by
  obtain ⟨d, rs, hd, ha⟩ := h
  have hc : Call.enablePublisherAcks true = d.call s.client.msgId := by
    have := hd.call
    rwa [show s.ofPublish.client.call = s.client.call.ofPublish from rfl, hcall] at this
  obtain ⟨o, hraise, ho⟩ := Client.raiseIfReturned_eq none .enabledPublisherAcks
    { s.client with pubacksSelected := true }
  rw [hraise]
  cases d with
  | unconfirmed waiting selecting => cases selecting <;> cases hc
  | selected answered =>
    cases answered with
    | false => cases hc
    | true =>
      obtain rfl := hd.read rfl
      have hidle : Accounts .idle [] s.client.outcomes s.ofPublish :=
        { ha with current := fun p hp => by cases hp }
      have hreport := hidle.report (o := o) rfl (by
        rcases ho with ⟨hkept, rfl⟩ | ⟨_, rfl⟩
        · exact .inl ⟨hkept, rfl, rfl, fun h => by cases h⟩
        · exact .inr rfl)
      refine ⟨.idle, [], ?_, ?_⟩
      · exact { hd with
          acks := rfl, call := rfl, read := fun _ => rfl, reported := fun _ => rfl
          counted := hd.counted.1.trans hd.counted.2.symm }
      · exact { hreport with }
  | idle => cases hc
  | published p => cases hc
  | handled p returned => cases hc
  | confirmed p how answered => cases hc

/-! ## `publish` -/

/-- Of the next number there is nothing yet. -/
theorem Accounts.fresh {os : List (Outcome M)} {v : Channel M} (ha : Accounts d rs os v) :
    v.broker.returnedFor v.client.numPublished = [] ∧
      v.broker.confirmsOf v.client.numPublished = [] := by
  constructor
  · apply List.filter_eq_nil_iff.mpr
    intro p hp
    have := ha.bounded p (List.mem_append_left _ hp)
    simp only [decide_eq_true_eq]
    omega
  · apply List.filter_eq_nil_iff.mpr
    intro c hc
    have := ha.confirmed c hc
    simp only [decide_eq_true_eq]
    omega

/-- One more message of the next number is waiting. -/
theorem Accounts.waiting_append {os : List (Outcome M)} {v : Channel M} (ha : Accounts d rs os v)
    {p : Published M} (hp : p.number = v.client.numPublished) :
    (v.broker.returned ++ (d.waiting ++ [p])).Pairwise (·.number < ·.number) ∧
      ∀ q ∈ v.broker.returned ++ (d.waiting ++ [p]), q.number < v.client.numPublished + 1 := by
  rw [← List.append_assoc]
  constructor
  · apply List.pairwise_append.mpr
    refine ⟨ha.increasing, List.pairwise_singleton _ _, fun q hq q' hq' => ?_⟩
    rw [List.mem_singleton.mp hq', hp]
    exact ha.bounded q hq
  · intro q hq
    rcases List.mem_append.mp hq with hq | hq
    · have := ha.bounded q hq
      omega
    · rw [List.mem_singleton.mp hq]
      omega

theorem Publishing.publish_confirmed (h : Publishing s) (hcall : s.client.call = .idle)
    (hacks : s.client.pubacksSelected = true) (message : M) (mandatory : Bool) :
    Publishing (s.publish message mandatory) := by
  obtain ⟨d, rs, hd, ha⟩ := h
  obtain rfl := hd.idle_of_idle hcall hacks
  obtain rfl := hd.read trivial
  have hkept : s.client.returnedMessages = [] := hd.reported trivial
  let p : Published M := ⟨s.client.numPublished, message, mandatory⟩
  rw [Channel.publish, if_pos hacks, if_neg (not_not.mpr hkept)]
  refine ⟨.published p, [], ?_, ?_⟩
  · refine { hd with
      call := rfl, methods := ?_, counted := ?_, read := fun _ => rfl, reported := fun _ => hkept }
    · show (s.methods ++ [Method.publish p]).filter Method.ofPublish = _
      have hm : s.methods.filter Method.ofPublish = [] := hd.methods
      rw [List.filter_append, hm, List.nil_append]
      rfl
    · exact congrArg (· + 1) hd.counted
  · obtain ⟨hincreasing, hbounded⟩ := ha.waiting_append (p := p) rfl
    have hmsgId := ha.msgId_le
    refine { ha with
      increasing := hincreasing, bounded := hbounded, msgId_le := ?_, numbers := ?_
      confirmed := ?_, current := ?_ }
    · exact Nat.succ_le_succ hmsgId
    · have hn := ha.numbers
      show _ = List.range' (s.client.numPublished + 1 - (s.client.msgId + 1)) s.client.msgId
      rw [Nat.add_sub_add_right]
      exact hn
    · intro c hc
      exact Nat.lt_succ_of_lt (ha.confirmed c hc)
    · intro q hq
      obtain rfl : p = q := Option.some.inj hq
      obtain ⟨hreturned, hconfirms⟩ := ha.fresh
      refine ⟨rfl, Nat.succ_pos _, hreturned.trans ?_, hconfirms⟩
      show [] = s.client.returnedMessages ++ []
      rw [hkept, List.append_nil]

theorem Publishing.publish_unconfirmed (h : Publishing s) (hcall : s.client.call = .idle)
    (hacks : s.client.pubacksSelected = false) (message : M) (mandatory : Bool) :
    Publishing (s.publish message mandatory) := by
  obtain ⟨d, rs, hd, ha⟩ := h
  obtain ⟨waiting, rfl⟩ := hd.unconfirmed_of_idle hcall hacks
  let p : Published M := ⟨s.client.numPublished, message, mandatory⟩
  rw [Channel.publish, if_neg (by rw [hacks]; exact Bool.false_ne_true)]
  by_cases hkept : s.client.returnedMessages = []
  · rw [if_neg (not_not.mpr hkept)]
    refine ⟨.unconfirmed (waiting ++ [p]) false, rs, ?_, ?_⟩
    · refine { hd with
        call := rfl, methods := ?_, read := fun h => h.elim, reported := fun h => h.elim }
      show (s.methods ++ [Method.publish p]).filter Method.ofPublish = _
      have hm : s.methods.filter Method.ofPublish = waiting.map .publish ++ [] := hd.methods
      rw [List.filter_append, hm, List.append_nil]
      simp only [Stage.methods, List.map_append, Bool.false_eq_true, if_false, List.append_nil]
      rfl
    · obtain ⟨hincreasing, hbounded⟩ := ha.waiting_append (p := p) rfl
      have hmsgId : s.client.msgId = 0 := hd.counted
      have hq := ha.append_quiet [.publishedUnconfirmed] (fun o ho => by
        obtain rfl := List.mem_singleton.mp ho
        exact ⟨rfl, rfl, fun h => by cases h⟩)
      refine { hq with
        increasing := hincreasing, bounded := hbounded, msgId_le := ?_, numbers := ?_
        confirmed := ?_, current := fun q hq => by cases hq }
      · exact Nat.le_succ_of_le ha.msgId_le
      · have hn := hq.numbers
        rw [show s.ofPublish.client.msgId = 0 from hmsgId] at hn
        show _ = List.range' (s.client.numPublished + 1 - s.client.msgId) s.client.msgId
        rw [hmsgId]
        exact hn
      · intro c hc
        exact Nat.lt_succ_of_lt (ha.confirmed c hc)
  · rw [if_pos hkept]
    obtain ⟨o, hraise, ho⟩ := Client.raiseIfReturned_eq none .publishedUnconfirmed s.client
    have hreport := ha.report (o := o) rfl (by
      rcases ho with ⟨hnil, rfl⟩ | ⟨_, rfl⟩
      · exact absurd hnil hkept
      · exact .inr rfl)
    rw [hraise]
    refine ⟨.unconfirmed waiting false, rs, ?_, ?_⟩
    · exact { hd with call := rfl, reported := fun h => h.elim }
    · exact { hreport with }

/-- A publish with acks whose answer has come. -/
theorem AtStage.confirmed_of_values {n tag : ℕ} {values : List (How × ℕ)}
    (h : AtStage d rs s.ofPublish) (hcall : s.client.call = .publish n tag values)
    (hvalues : values ≠ []) :
    ∃ p how, d = .confirmed p how true ∧ n = p.number ∧ values = [(how, tag)] := by
  have hc : Call.publish n tag values = d.call s.client.msgId := by
    have := h.call
    rwa [show s.ofPublish.client.call = s.client.call.ofPublish from rfl, hcall] at this
  cases d with
  | unconfirmed waiting selecting => cases selecting <;> cases hc
  | selected answered => cases hc
  | idle => cases hc
  | published p =>
    obtain ⟨-, -, rfl⟩ := Call.publish.inj hc
    exact absurd rfl hvalues
  | handled p returned =>
    obtain ⟨-, -, rfl⟩ := Call.publish.inj hc
    exact absurd rfl hvalues
  | confirmed p how answered =>
    obtain ⟨rfl, rfl, rfl⟩ := Call.publish.inj hc
    cases answered with
    | false => exact absurd rfl hvalues
    | true => exact ⟨p, how, rfl, rfl, rfl⟩

@[simp] theorem Broker.fate_number (how : How) (n : ℕ) (b : Broker M) :
    (b.fate how n).number = some n := by
  cases how with
  | nack => rfl
  | ack => cases h : b.returnedFor n <;> simp [fate, h, Outcome.number]

@[simp] theorem Broker.fate_messages (how : How) (n : ℕ) (b : Broker M) :
    (b.fate how n).messages = b.returnedFor n := by
  cases how with
  | nack => rfl
  | ack => cases h : b.returnedFor n <;> simp [fate, h, Outcome.messages]

theorem Broker.fate_ne (how : How) (n : ℕ) (b : Broker M) : b.fate how n ≠ .assertionError := by
  intro h
  have := b.fate_number how n
  rw [h] at this
  cases this

/-- A confirmed publish reports its message's fate if what is kept was returned for it. -/
theorem Client.finish_publish {c : Client M} {b : Broker M} {n tag : ℕ} {how : How}
    (hcall : c.call = .publish n tag [(how, tag)]) (hkept : c.returnedMessages = b.returnedFor n) :
    c.finish = some ({ c with returnedMessages := [] }.ends (b.fate how n)) := by
  simp only [finish, hcall, ne_eq, not_true_eq_false, if_false]
  cases how with
  | nack => rw [hkept]; rfl
  | ack =>
    obtain ⟨o, hraise, ho⟩ := raiseIfReturned_eq (some n) (.published n) c
    simp only [hraise, Broker.fate, ← hkept]
    rcases ho with ⟨hnil, rfl⟩ | ⟨hne, rfl⟩
    · rw [hnil]
      rfl
    · obtain ⟨r, kept, hk⟩ := List.exists_cons_of_ne_nil hne
      rw [hk]
      rfl

theorem Accounts.ended {os : List (Outcome M)} {v : Channel M} {p : Published M} {how : How}
    (ha : Accounts (.confirmed p how true) [] os v) :
    Accounts .idle [] (os ++ [v.broker.fate how p.number])
      { v with client := { v.client with returnedMessages := [] } } := by
  obtain ⟨hnumber, hpos, hreturned, hconfirms⟩ := ha.current p rfl
  refine { ha with ledger := ?_, numbers := ?_, fates := ?_, current := fun q hq => by cases hq }
  · have hl := ha.ledger
    rw [List.append_nil] at hl hreturned
    rw [List.flatMap_append, List.flatMap_singleton, Broker.fate_messages, hreturned,
      List.append_nil, List.append_nil]
    exact hl
  · rw [List.filterMap_append, ha.numbers]
    have hmsgId := ha.msgId_le
    have hcount : v.client.msgId = v.client.msgId - 1 + 1 := by omega
    have hlast :
        v.client.numPublished - v.client.msgId + 1 * (v.client.msgId - 1) = p.number := by omega
    show _ = List.range' (v.client.numPublished - v.client.msgId) v.client.msgId
    simp only [List.filterMap_cons, Broker.fate_number, List.filterMap_nil]
    rw [hcount, List.range'_concat, ← hcount, hlast]
    rfl
  · intro o ho
    rcases List.mem_append.mp ho with ho | ho
    · exact ha.fates o ho
    · obtain rfl := List.mem_singleton.mp ho
      refine ⟨Broker.fate_ne _ _ _, fun n hn => ?_⟩
      rw [Broker.fate_number] at hn
      obtain rfl := Option.some.inj hn
      exact ⟨how, hconfirms, rfl⟩

/-- The rest of `publish`, which reports the fate of its message. -/
theorem Publishing.published {n tag : ℕ} {values : List (How × ℕ)} (h : Publishing s)
    (hcall : s.client.call = .publish n tag values) {client : Client M}
    (hfinish : s.client.finish = some client) : Publishing { s with client := client } := by
  obtain ⟨d, rs, hd, ha⟩ := h
  have hvalues : values ≠ [] := by
    rintro rfl
    simp only [Client.finish, hcall] at hfinish
    cases hfinish
  obtain ⟨p, how, rfl, rfl, rfl⟩ := hd.confirmed_of_values hcall hvalues
  obtain rfl := hd.read rfl
  obtain ⟨-, -, hreturned, -⟩ := ha.current p rfl
  have hkept : s.client.returnedMessages = s.broker.returnedFor p.number := by
    rw [List.append_nil] at hreturned
    exact hreturned.symm
  rw [Client.finish_publish hcall hkept] at hfinish
  obtain rfl := Option.some.inj hfinish
  refine ⟨.idle, [], ?_, ?_⟩
  · exact { hd with call := rfl, read := fun _ => rfl, reported := fun _ => rfl }
  · exact { ha.ended with }

/-! ## Reading a frame -/

/-- The other frames only concern consumers. -/
theorem Client.dispatch_ofPublish {frame : Frame M} (hf : frame.ofPublish = false) (c : Client M) :
    (c.dispatch frame).ofPublish = c.ofPublish ∧ (c.dispatch frame).outcomes = c.outcomes := by
  cases frame with
  | event event => cases event <;> exact ⟨rfl, rfl⟩
  | basicReturn p => cases hf
  | confirm how tag => cases hf
  | confirmSelectOk => cases hf
  | consumeOk tag =>
    obtain ⟨_, _, _, _, _, _, _, call, _⟩ := c
    cases call <;> exact ⟨rfl, rfl⟩
  | cancelOk tag =>
    obtain ⟨_, _, _, _, _, _, _, call, _⟩ := c
    cases call <;> exact ⟨rfl, rfl⟩

theorem Accounts.onMessageReturn {r : Published M} {os : List (Outcome M)} {v : Channel M}
    (ha : Accounts d (r :: rs) os v) : Accounts d rs os
      { v with client := { v.client with
        returnedMessages := v.client.returnedMessages ++ [r] } } := by
  have hmove : v.client.returnedMessages ++ [r] ++ rs = v.client.returnedMessages ++ r :: rs := by
    rw [List.append_assoc, List.singleton_append]
  refine { ha with ledger := ?_, current := ?_ }
  · have hl := ha.ledger
    rw [List.append_assoc, ← hmove, ← List.append_assoc] at hl
    exact hl
  · intro p hp
    obtain ⟨hnumber, hpos, hreturned, hconfirms⟩ := ha.current p hp
    exact ⟨hnumber, hpos, hreturned.trans hmove.symm, hconfirms⟩

theorem Publishing.readFrame (h : Publishing s) {frame : Frame M} {frames : List (Frame M)}
    (hframes : s.frames = frame :: frames) :
    Publishing { s with client := s.client.dispatch frame, frames := frames } := by
  cases hf : frame.ofPublish with
  | false =>
    obtain ⟨hclient, houtcomes⟩ := Client.dispatch_ofPublish hf s.client
    refine h.same ?_ houtcomes
    simp only [Channel.ofPublish, hclient, hframes, List.filter_cons, hf, Bool.false_eq_true,
      if_false]
  | true =>
    obtain ⟨d, rs, hd, ha⟩ := h
    have hfilter : frame :: frames.filter Frame.ofPublish =
        rs.map .basicReturn ++ d.answer s.client.msgId := by
      have := hd.frames
      simp only [Channel.ofPublish, hframes, List.filter_cons, hf, if_true] at this
      exact this
    cases rs with
    | cons r rs =>
      obtain ⟨rfl, hrest⟩ := List.cons.inj hfilter
      have hread : ¬ d.AllRead := fun h => List.cons_ne_nil _ _ (hd.read h)
      have hreported : ¬ d.AllReported := by
        intro h
        apply hread
        cases d <;> first | exact h | trivial
      exact ⟨d, rs, { hd with
        frames := hrest, read := fun h => absurd h hread
        reported := fun h => absurd h hreported }, { ha.onMessageReturn with }⟩
    | nil =>
      cases d with
      | selected answered =>
        cases answered with
        | true => cases hfilter
        | false =>
          obtain ⟨rfl, hrest⟩ := List.cons.inj hfilter
          have hcall := Call.eq_of_ofPublish hd.call Call.noConfusion
          have hdispatch : s.client.dispatch .confirmSelectOk =
              s.client.inCall (.enablePublisherAcks true) := by
            simp only [Client.dispatch, hcall]
            rfl
          rw [hdispatch]
          refine ⟨.selected true, [], ?_, ?_⟩
          · exact { hd with call := rfl, frames := hrest, read := fun _ => rfl }
          · exact { ha with current := fun p hp => by cases hp }
      | confirmed p how answered =>
        cases answered with
        | true => cases hfilter
        | false =>
          obtain ⟨rfl, hrest⟩ := List.cons.inj hfilter
          have hcall := Call.eq_of_ofPublish hd.call Call.noConfusion
          have hdispatch : s.client.dispatch (.confirm how s.client.msgId) =
              s.client.inCall (.publish p.number s.client.msgId [(how, s.client.msgId)]) := by
            simp only [Client.dispatch, Client.onConfirm, hcall]
            rfl
          rw [hdispatch]
          refine ⟨.confirmed p how true, [], ?_, ?_⟩
          · exact { hd with call := rfl, frames := hrest, read := fun _ => rfl }
          · exact { ha with }
      | unconfirmed waiting selecting => cases hfilter
      | idle => cases hfilter
      | published p => cases hfilter
      | handled p returned => cases hfilter

/-! ## The broker -/

theorem Broker.fate_congr {b b' : Broker M} {n : ℕ} (h : b.returnedFor n = b'.returnedFor n)
    (how : How) : b.fate how n = b'.fate how n := by
  simp only [fate, h]

/-- Without acks no outcome has a number. -/
theorem Accounts.number_none {os : List (Outcome M)} {v : Channel M} (ha : Accounts d rs os v)
    (hmsgId : v.client.msgId = 0) (hcurrent : d.current = none) {o : Outcome M} (ho : o ∈ os) :
    o.number = none := by
  have hn := ha.numbers
  simp only [hmsgId, Stage.ended, hcurrent, Option.isSome_none, Bool.false_eq_true, if_false,
    List.range'_zero] at hn
  exact List.filterMap_eq_nil_iff.mp hn o ho

/-- The publishes that have ended came before the current one. -/
theorem Accounts.number_lt {os : List (Outcome M)} {v : Channel M} (ha : Accounts d rs os v)
    {p : Published M} (hp : d.current = some p) {o : Outcome M} (ho : o ∈ os) {n : ℕ}
    (hn : o.number = some n) : n < p.number := by
  have hmem : n ∈ os.filterMap Outcome.number := List.mem_filterMap.mpr ⟨o, ho, hn⟩
  obtain ⟨hnumber, hpos, -⟩ := ha.current p hp
  have hmsgId := ha.msgId_le
  rw [ha.numbers, List.mem_range'_1] at hmem
  simp only [Stage.ended, hp, Option.isSome_some, if_true] at hmem
  omega

theorem Accounts.fates_of_eq {os : List (Outcome M)} {v : Channel M} (ha : Accounts d rs os v)
    {b : Broker M} (hsame : ∀ o ∈ os, ∀ n, o.number = some n →
      b.returnedFor n = v.broker.returnedFor n ∧ b.confirmsOf n = v.broker.confirmsOf n) :
    ∀ o ∈ os, o ≠ .assertionError ∧ ∀ n, o.number = some n →
      ∃ how, b.confirmsOf n = [(n, how)] ∧ o = b.fate how n := by
  intro o ho
  refine ⟨(ha.fates o ho).1, fun n hn => ?_⟩
  obtain ⟨hreturned, hconfirms⟩ := hsame o ho n hn
  obtain ⟨how, hone, hfate⟩ := (ha.fates o ho).2 n hn
  exact ⟨how, hconfirms.trans hone, hfate.trans (Broker.fate_congr hreturned how).symm⟩

theorem Broker.returnedFor_append {b : Broker M} {p : Published M} {n : ℕ} (hn : n < p.number) :
    { b with returned := b.returned ++ [p] }.returnedFor n = b.returnedFor n := by
  have hne : ¬ p.number = n := by omega
  simp only [returnedFor, List.filter_append, List.filter_singleton, hne, decide_false, cond_false,
    List.append_nil]

/-- A message without acks is handled. -/
theorem Publishing.handle_unconfirmed {waiting : List (Published M)} {selecting : Bool}
    {p : Published M} {methods : List (Method M)}
    (hd : AtStage (.unconfirmed (p :: waiting) selecting) rs s.ofPublish)
    (ha : Accounts (.unconfirmed (p :: waiting) selecting) rs s.client.outcomes s.ofPublish)
    (hmethods : methods.filter Method.ofPublish = (Stage.unconfirmed waiting selecting).methods)
    (unroutable : Bool) :
    Publishing { s with
      methods := methods
      broker := (s.broker.handle unroutable (.publish p)).1
      frames := s.frames ++ (s.broker.handle unroutable (.publish p)).2 } := by
  have hconfirms : s.broker.confirms = false := hd.confirms
  have hnone : ∀ o ∈ s.client.outcomes, o.number = none :=
    fun o ho => ha.number_none hd.counted rfl ho
  by_cases hreturn : p.mandatory ∧ unroutable
  · have hhandle : s.broker.handle unroutable (.publish p) =
        ({ s.broker with returned := s.broker.returned ++ [p] }, [.basicReturn p]) := by
      rw [Broker.handle, if_neg (by rw [hconfirms]; exact Bool.false_ne_true), if_pos hreturn]
    rw [hhandle]
    refine ⟨.unconfirmed waiting selecting, rs ++ [p], ?_, ?_⟩
    · refine { hd with
        methods := hmethods, frames := ?_, read := fun h => h.elim, reported := fun h => h.elim }
      show (s.frames ++ [Frame.basicReturn p]).filter Frame.ofPublish = _
      have hf : s.frames.filter Frame.ofPublish = rs.map .basicReturn ++ [] := hd.frames
      rw [List.filter_append, hf, List.map_append, List.append_nil]
      exact (List.append_nil _).symm
    · have hmove : s.broker.returned ++ [p] ++ waiting = s.broker.returned ++ p :: waiting := by
        rw [List.append_assoc, List.singleton_append]
      refine { ha with
        ledger := ?_, increasing := hmove ▸ ha.increasing, bounded := hmove ▸ ha.bounded
        fates := ?_, current := fun q hq => by cases hq }
      · exact (List.append_assoc _ _ _).symm.trans (congrArg (· ++ [p]) ha.ledger)
      · apply ha.fates_of_eq
        intro o ho n hn
        rw [hnone o ho] at hn
        cases hn
  · have hhandle : s.broker.handle unroutable (.publish p) = (s.broker, []) := by
      rw [Broker.handle, if_neg (by rw [hconfirms]; exact Bool.false_ne_true), if_neg hreturn]
    rw [hhandle, List.append_nil]
    have hsub : (s.broker.returned ++ waiting).Sublist (s.broker.returned ++ p :: waiting) :=
      (List.sublist_cons_self p waiting).append_left _
    refine ⟨.unconfirmed waiting selecting, rs, { hd with methods := hmethods }, { ha with
      increasing := ha.increasing.sublist hsub
      bounded := fun q hq => ha.bounded q (hsub.subset hq)
      current := fun q hq => by cases hq }⟩

/-- The broker turns to confirming. -/
theorem Publishing.handle_select {methods : List (Method M)}
    (hd : AtStage (.unconfirmed [] true) rs s.ofPublish)
    (ha : Accounts (.unconfirmed [] true) rs s.client.outcomes s.ofPublish)
    (hmethods : methods.filter Method.ofPublish = []) :
    Publishing { s with
      methods := methods
      broker := { s.broker with confirms := true, numConfirmable := 0 }
      frames := s.frames ++ [.confirmSelectOk] } := by
  refine ⟨.selected false, rs, ?_, ?_⟩
  · refine { hd with
      methods := hmethods, confirms := rfl, counted := ⟨hd.counted, rfl⟩, frames := ?_
      read := Bool.noConfusion, reported := fun h => h.elim }
    show (s.frames ++ [Frame.confirmSelectOk]).filter Frame.ofPublish = _
    have hf : s.frames.filter Frame.ofPublish = rs.map .basicReturn ++ [] := hd.frames
    rw [List.filter_append, hf, List.append_nil]
    rfl
  · exact { ha with current := fun q hq => by cases hq }

/-- A message with acks is handled. -/
theorem Publishing.handle_published {p : Published M} {methods : List (Method M)}
    (hd : AtStage (.published p) rs s.ofPublish)
    (ha : Accounts (.published p) rs s.client.outcomes s.ofPublish)
    (hmethods : methods.filter Method.ofPublish = []) :
    Publishing { s with
      methods := methods
      broker := { s.broker with
        numConfirmable := s.broker.numConfirmable + 1
        unconfirmed := s.broker.unconfirmed ++ [⟨s.broker.numConfirmable + 1, p, false⟩] }
      frames := s.frames ++ [] } := by
  have hcounted : s.client.msgId = s.broker.numConfirmable + 1 := hd.counted
  have hempty : s.broker.unconfirmed = [] := hd.unconfirmed
  rw [List.append_nil, hempty, List.nil_append, ← hcounted]
  refine ⟨.handled p false, rs, ?_, ?_⟩
  · exact { hd with
      methods := hmethods, counted := rfl, unconfirmed := rfl, read := fun h => h.elim
      reported := fun h => h.elim }
  · exact { ha with current := ha.current }

/-- The other methods only concern consumers. -/
theorem Broker.handle_ofPublish {method : Method M} (hm : method.ofPublish = false)
    (unroutable : Bool) (b : Broker M) :
    (b.handle unroutable method).1.ofPublish = b.ofPublish ∧
      (b.handle unroutable method).2.filter Frame.ofPublish = [] := by
  cases method with
  | publish p => cases hm
  | confirmSelect => cases hm
  | consume consumerTag => exact ⟨rfl, rfl⟩
  | cancel consumerTag => exact ⟨rfl, rfl⟩

theorem Publishing.handle (h : Publishing s) {method : Method M} {methods : List (Method M)}
    (hmethods : s.methods = method :: methods) (unroutable : Bool) :
    Publishing { s with
      methods := methods
      broker := (s.broker.handle unroutable method).1
      frames := s.frames ++ (s.broker.handle unroutable method).2 } := by
  cases hm : method.ofPublish with
  | false =>
    obtain ⟨hbroker, hframes⟩ := Broker.handle_ofPublish hm unroutable s.broker
    refine h.same ?_ rfl
    simp only [Channel.ofPublish, hmethods, hbroker, List.filter_append, hframes, List.append_nil,
      List.filter_cons, hm, Bool.false_eq_true, if_false]
  | true =>
    obtain ⟨d, rs, hd, ha⟩ := h
    have hfilter : method :: methods.filter Method.ofPublish = d.methods := by
      have := hd.methods
      simp only [Channel.ofPublish, hmethods, List.filter_cons, hm, if_true] at this
      exact this
    cases d with
    | unconfirmed waiting selecting =>
      cases waiting with
      | cons p waiting =>
        obtain ⟨rfl, hrest⟩ := List.cons.inj hfilter
        exact Publishing.handle_unconfirmed hd ha hrest unroutable
      | nil =>
        cases selecting with
        | false => cases hfilter
        | true =>
          obtain ⟨rfl, hrest⟩ := List.cons.inj hfilter
          exact Publishing.handle_select hd ha hrest
    | published p =>
      obtain ⟨rfl, hrest⟩ := List.cons.inj hfilter
      have hhandle : s.broker.handle unroutable (.publish p) =
          ({ s.broker with
            numConfirmable := s.broker.numConfirmable + 1
            unconfirmed :=
              s.broker.unconfirmed ++ [⟨s.broker.numConfirmable + 1, p, false⟩] }, []) := by
        rw [Broker.handle, if_pos (show s.broker.confirms = true from hd.confirms)]
      rw [hhandle]
      exact Publishing.handle_published hd ha hrest
    | selected answered => cases hfilter
    | idle => cases hfilter
    | handled p returned => cases hfilter
    | confirmed p how answered => cases hfilter

/-- A message that is not confirmed is the one of the stage. -/
theorem AtStage.handled_of_getElem? (h : AtStage d rs s.ofPublish) {i : ℕ} {u : Unconfirmed M}
    (hu : s.broker.unconfirmed[i]? = some u) :
    ∃ p returned, d = .handled p returned ∧ i = 0 ∧ u = ⟨s.client.msgId, p, returned⟩ := by
  have hun : s.broker.unconfirmed = d.unconfirmedMessages s.client.msgId := h.unconfirmed
  rw [hun] at hu
  cases d with
  | handled p returned =>
    cases i with
    | zero => exact ⟨p, returned, rfl, rfl, (Option.some.inj hu).symm⟩
    | succ i => cases hu
  | unconfirmed waiting selecting => cases hu
  | selected answered => cases hu
  | idle => cases hu
  | published p => cases hu
  | confirmed p how answered => cases hu

/-- The current message is returned. -/
theorem Publishing.sendReturn {p : Published M}
    (hd : AtStage (.handled p false) rs s.ofPublish)
    (ha : Accounts (.handled p false) rs s.client.outcomes s.ofPublish) :
    Publishing { s with
      broker := { s.broker with
        unconfirmed := [⟨s.client.msgId, p, true⟩]
        returned := s.broker.returned ++ [p] }
      frames := s.frames ++ [.basicReturn p] } := by
  refine ⟨.handled p true, rs ++ [p], ?_, ?_⟩
  · refine { hd with
      unconfirmed := rfl, frames := ?_, read := fun h => h.elim, reported := fun h => h.elim }
    show (s.frames ++ [Frame.basicReturn p]).filter Frame.ofPublish = _
    have hf : s.frames.filter Frame.ofPublish = rs.map .basicReturn ++ [] := hd.frames
    rw [List.filter_append, hf, List.map_append, List.append_nil]
    exact (List.append_nil _).symm
  · refine { ha with
      ledger := ?_, increasing := ?_, bounded := ?_, fates := ?_, current := ?_ }
    · exact (List.append_assoc _ _ _).symm.trans (congrArg (· ++ [p]) ha.ledger)
    · show (s.broker.returned ++ [p] ++ []).Pairwise _
      rw [List.append_nil]
      exact ha.increasing
    · show ∀ q ∈ s.broker.returned ++ [p] ++ [], _
      rw [List.append_nil]
      exact ha.bounded
    · apply ha.fates_of_eq
      intro o ho n hn
      exact ⟨Broker.returnedFor_append (ha.number_lt rfl ho hn), rfl⟩
    · intro q hq
      obtain rfl := Option.some.inj hq
      obtain ⟨hnumber, hpos, hreturned, hconfirms⟩ := ha.current p rfl
      refine ⟨hnumber, hpos, ?_, hconfirms⟩
      show (s.broker.returned ++ [p]).filter (·.number = p.number) = _
      rw [List.filter_append, ← List.append_assoc]
      have hself : [p].filter (·.number = p.number) = [p] := by simp
      rw [hself]
      exact congrArg (· ++ [p]) hreturned

/-- The current message is confirmed. -/
theorem Publishing.sendConfirm {p : Published M} {returned : Bool}
    (hd : AtStage (.handled p returned) rs s.ofPublish)
    (ha : Accounts (.handled p returned) rs s.client.outcomes s.ofPublish) (how : How) :
    Publishing { s with
      broker := { s.broker with
        unconfirmed := []
        confirmed := s.broker.confirmed ++ [(p.number, how)] }
      frames := s.frames ++ [.confirm how s.client.msgId] } := by
  obtain ⟨hnumber, hpos, hreturned, hconfirms⟩ := ha.current p rfl
  refine ⟨.confirmed p how false, rs, ?_, ?_⟩
  · refine { hd with
      unconfirmed := rfl, frames := ?_, read := Bool.noConfusion, reported := fun h => h.elim }
    show (s.frames ++ [Frame.confirm how s.client.msgId]).filter Frame.ofPublish = _
    have hf : s.frames.filter Frame.ofPublish = rs.map .basicReturn ++ [] := hd.frames
    rw [List.filter_append, hf, List.append_nil]
    rfl
  · have hsub : (s.broker.returned ++ []).Sublist
        (s.broker.returned ++ (Stage.handled p returned).waiting) :=
      (List.nil_sublist _).append_left _
    refine { ha with
      increasing := ha.increasing.sublist hsub
      bounded := fun q hq => ha.bounded q (hsub.subset hq)
      confirmed := ?_, fates := ?_, current := ?_ }
    · intro c hc
      rcases List.mem_append.mp hc with hc | hc
      · exact ha.confirmed c hc
      · obtain rfl := List.mem_singleton.mp hc
        exact Nat.lt_of_lt_of_eq (Nat.lt_succ_self p.number) hnumber.symm
    · apply ha.fates_of_eq
      intro o ho n hn
      refine ⟨rfl, ?_⟩
      have hne : ¬ p.number = n := by
        have := ha.number_lt rfl ho hn
        omega
      show (s.broker.confirmed ++ [(p.number, how)]).filter (·.1 = n) = _
      rw [List.filter_append]
      simp only [List.filter_singleton, hne, decide_false, cond_false, List.append_nil]
      rfl
    · intro q hq
      obtain rfl := Option.some.inj hq
      refine ⟨hnumber, hpos, hreturned, ?_⟩
      show (s.broker.confirmed ++ [(p.number, how)]).filter (·.1 = p.number) = _
      have hnone : s.broker.confirmed.filter (·.1 = p.number) = [] := hconfirms
      rw [List.filter_append, hnone, List.nil_append]
      simp [Stage.confirmedBy]

end NumentaApps.AmqpClient
