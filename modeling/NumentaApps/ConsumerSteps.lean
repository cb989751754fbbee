import NumentaApps.PublishRuns
import NumentaApps.ConsumerStages

/-!
# The steps of a consumer

Every step of a channel either leaves a consumer's view of it as it is, or moves the consumer on to
another stage.
-/
namespace NumentaApps.AmqpClient
open TransitionSystem

variable {M : Type} {c : ℕ} {d : ConsumerStage} {es : List (Event M)} {v : ConsumerView M}

/-! ## The steps as the consumer sees them -/

theorem AtConsumerStage.request (h : AtConsumerStage c .fresh es v) :
    AtConsumerStage c .requested es
      { v with
        isNew := False
        call := .createConsumer c false
        methods := v.methods ++ [.consume c] } := by
  have hmethods : v.methods = [] := h.methods
  exact { h with
    isNew := ⟨False.elim, fun h => (by cases h)⟩
    call := rfl
    methods := by rw [hmethods]; rfl
    silent := fun _ => h.silent (.inl (.inl rfl))
    unsent := fun _ => h.unsent (.inl rfl)
    read := fun h => by cases h
    closed := fun hc => by rcases (h.closed hc).1 with h | h | h | h <;> cases h }

theorem AtConsumerStage.accept (h : AtConsumerStage c .requested es v) :
    AtConsumerStage c .accepted es
      { v with methods := [], consuming := True, frames := v.frames ++ [.consumeOk c] } := by
  have hsent : v.sent = [] := h.unsent (.inr rfl)
  have hledger := h.ledger
  rw [hsent] at hledger
  obtain ⟨-, rfl⟩ := List.append_eq_nil_iff.mp hledger
  have hframes : v.frames = [] := h.frames
  exact { h with
    isNew := h.isNew.trans (by decide)
    call := h.call
    methods := rfl
    frames := by rw [hframes]; rfl
    silent := fun h => by rcases h with (h | h) | h | h <;> cases h
    unsent := fun h => by rcases h with h | h <;> cases h
    read := fun h => by cases h
    messages := fun _ e he => by rw [hsent] at he; cases he
    closed := fun hc => by rcases (h.closed hc).1 with h | h | h | h <;> cases h }

theorem AtConsumerStage.create (h : AtConsumerStage c .accepted es v) {frames : List (Frame M)}
    (hframes : v.frames = .consumeOk c :: frames) :
    AtConsumerStage c .created es { v with call := .createConsumer c true, frames := frames } := by
  have hrest : .consumeOk c :: frames = .consumeOk c :: (es.map .event ++ []) :=
    hframes.symm.trans h.frames
  exact { h with
    isNew := h.isNew.trans (by decide)
    call := rfl
    methods := h.methods
    frames := (List.cons.inj hrest).2
    silent := fun h => by rcases h with (h | h) | h | h <;> cases h
    unsent := fun h => by rcases h with h | h <;> cases h
    read := fun h => by cases h
    closed := fun hc => by rcases (h.closed hc).1 with h | h | h | h <;> cases h }

theorem AtConsumerStage.run (h : AtConsumerStage c .created es v) :
    AtConsumerStage c .running es { v with call := .idle } :=
  { h with
    isNew := h.isNew.trans (by decide)
    call := rfl
    methods := h.methods
    frames := h.frames
    silent := fun h => by rcases h with (h | h) | h | h <;> cases h
    unsent := fun h => by rcases h with h | h <;> cases h
    read := fun h => by cases h
    closed := fun hc => by rcases (h.closed hc).1 with h | h | h | h <;> cases h }

theorem AtConsumerStage.cancel (h : AtConsumerStage c .running es v) :
    AtConsumerStage c .cancelling es
      { v with call := .cancelConsumer c false, methods := v.methods ++ [.cancel c] } := by
  have hmethods : v.methods = [] := h.methods
  exact { h with
    isNew := h.isNew.trans (by decide)
    call := rfl
    methods := by rw [hmethods]; rfl
    frames := h.frames
    silent := fun h => by rcases h with (h | h) | h | h <;> cases h
    unsent := fun h => by rcases h with h | h <;> cases h
    read := fun h => by cases h
    closed := fun hc => ⟨.inr (.inl rfl), (h.closed hc).2⟩ }

theorem AtConsumerStage.release (h : AtConsumerStage c .cancelling es v) :
    AtConsumerStage c .released es
      { v with methods := [], consuming := False, frames := v.frames ++ [.cancelOk c] } := by
  have hframes : v.frames = es.map .event ++ [] := h.frames
  exact { h with
    isNew := h.isNew.trans (by decide)
    call := h.call
    methods := rfl
    frames := by rw [hframes, List.append_nil]; rfl
    silent := fun _ h => h
    unsent := fun h => by rcases h with h | h <;> cases h
    read := fun h => by cases h
    messages := False.elim
    closed := fun hc => ⟨.inr (.inr (.inl rfl)), id, (h.closed hc).2.2⟩ }

/-- The answer is read, after all events of the consumer. -/
theorem AtConsumerStage.cancelAnswered (h : AtConsumerStage c .released es v)
    {frames : List (Frame M)} (hframes : v.frames = .cancelOk c :: frames) :
    AtConsumerStage c .cancelled [] { v with call := .cancelConsumer c true, frames := frames } ∧
      es = [] := by
  have hrest : .cancelOk c :: frames = es.map .event ++ [.cancelOk c] := hframes.symm.trans h.frames
  cases es with
  | cons e es => cases (List.cons.inj hrest).1
  | nil =>
    refine ⟨{ h with
      isNew := h.isNew.trans (by decide)
      call := rfl
      methods := h.methods
      frames := (List.cons.inj hrest).2
      silent := fun _ => h.silent (.inr (.inl rfl))
      unsent := fun h => by rcases h with h | h <;> cases h
      read := fun _ => rfl
      closed := fun hc => ⟨.inr (.inr (.inr rfl)), (h.closed hc).2⟩ }, rfl⟩

/-- The call returns what was pending for the consumer. -/
theorem AtConsumerStage.finishCancel (h : AtConsumerStage c .cancelled es v) :
    AtConsumerStage c .running es
      { v with call := .idle, cancelled := true, taken := v.taken ++ v.pending, pending := [] } := by
  obtain rfl := h.read rfl
  exact { h with
    isNew := h.isNew.trans (by decide)
    call := rfl
    methods := h.methods
    frames := h.frames
    silent := fun h => by rcases h with (h | h) | h | h <;> cases h
    unsent := fun h => by rcases h with h | h <;> cases h
    read := fun h => by cases h
    ledger := by rw [List.append_nil]; exact h.ledger
    closed := fun _ => ⟨.inl rfl, h.silent (.inr (.inr rfl)), rfl, rfl⟩ }

/-- An event arrives. -/
theorem AtConsumerStage.receive (h : AtConsumerStage c d es v) {e : Event M}
    {frames : List (Frame M)} (hframes : v.frames = .event e :: frames) :
    ∃ es', AtConsumerStage c d es' { v with pending := v.pending ++ [e], frames := frames } := by
  have hrest := hframes.symm.trans h.frames
  cases es with
  | nil => cases d <;> cases hrest
  | cons e' es =>
    have hfirst : d.first (M := M) c = [] := by
      cases d with
      | accepted => cases hrest
      | _ => rfl
    rw [hfirst] at hrest
    obtain ⟨he, htail⟩ := List.cons.inj hrest
    obtain rfl := Frame.event.inj he
    refine ⟨es, { h with
      frames := by rw [hfirst]; exact htail
      read := fun hd => absurd (h.read hd) (List.cons_ne_nil e es)
      ledger := ?_
      closed := fun hc => absurd (h.closed hc).2.2.2 (List.cons_ne_nil e es) }⟩
    have hl := h.ledger
    rw [List.append_assoc] at hl ⊢
    rw [List.append_assoc, List.singleton_append]
    exact hl

/-- The user gets the first event of the consumer. -/
theorem AtConsumerStage.takeNext (h : AtConsumerStage c d es v) {e : Event M}
    {events : List (Event M)} (hpending : v.pending = e :: events) :
    AtConsumerStage c d es { v with taken := v.taken ++ [e], pending := events } := by
  refine { h with ledger := ?_, closed := fun hc => ?_ }
  · have hl := h.ledger
    rw [hpending] at hl
    rw [List.append_assoc v.taken, List.singleton_append]
    exact hl
  · have hnil := (h.closed hc).2.2.1
    rw [hpending] at hnil
    cases hnil

theorem CancelsLast.append {events : List (Event M)} (h : ∀ e ∈ events, e.deliveryTag ≠ none)
    (e : Event M) : CancelsLast (events ++ [e]) := by
  intro pre tag post hsplit
  rcases List.append_eq_append_iff.mp hsplit with ⟨l, hpre, hl⟩ | ⟨l, hevents, hl⟩
  · cases l with
    | nil => exact (List.cons.inj hl).2.symm
    | cons x l =>
      have hlen := congrArg List.length hl
      simp at hlen
  · cases l with
    | nil => exact (List.cons.inj hl).2
    | cons x l =>
      obtain ⟨rfl, -⟩ := List.cons.inj hl
      have hmem : .consumerCancellation tag ∈ events := by
        rw [hevents]
        exact List.mem_append_right _ List.mem_cons_self
      exact absurd rfl (h _ hmem)

/-- The broker sends an event to a consumer, which may be the consumer's last. -/
theorem AtConsumerStage.send (h : AtConsumerStage c d es v) (hconsuming : v.consuming)
    (e : Event M) (consuming : Prop) (hlast : consuming → e.deliveryTag ≠ none) :
    AtConsumerStage c d (es ++ [e])
      { v with
        consuming := consuming
        sent := v.sent ++ [e]
        frames := v.frames ++ [.event e] } := by
  have hsilent : ¬ (d.NotBegun ∨ d.Ended) := fun hd => h.silent hd hconsuming
  have hlastFrame : d.last (M := M) c = [] := by
    cases d with
    | released => exact absurd (.inr (.inl rfl)) hsilent
    | _ => rfl
  refine { h with
    frames := ?_
    silent := fun hd => absurd hd hsilent
    unsent := fun hd => absurd (.inl hd) hsilent
    read := fun hd => absurd (.inr (.inr hd)) hsilent
    ledger := ?_
    messages := ?_
    cancelsLast := CancelsLast.append (h.messages hconsuming) e
    closed := fun hc => absurd hconsuming (h.closed hc).2.1 }
  · have hf := h.frames
    rw [hlastFrame, List.append_nil] at hf
    show v.frames ++ [.event e] = _
    rw [hlastFrame, List.append_nil, hf, List.map_append, List.append_assoc]
    rfl
  · rw [← List.append_assoc]
    exact congrArg (· ++ [e]) h.ledger
  · intro hc e' he'
    rcases List.mem_append.mp he' with he' | he'
    · exact h.messages hconsuming e' he'
    · exact List.mem_singleton.mp he' ▸ hlast hc

end NumentaApps.AmqpClient
