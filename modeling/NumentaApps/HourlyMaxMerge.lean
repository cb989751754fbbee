import NumentaApps.HourlyScores
import Mathlib.Algebra.GroupWithZero.Nat
import Mathlib.Data.List.Induction

/-!
# The hourly scores are a max-merge

Every operation that takes effect puts the greater of two scores in place of the smaller
one, so that neither the order of the operations nor their repetition matters.
-/
namespace NumentaApps.DynamoDB
open TransitionSystem

variable {I K R V : Type}

/-! ## The scores of a batch -/

section Scores

variable [LinearOrder R] [Zero R]

/-- An entry after a score was recorded is an old one, a first one, or a raised one. -/
theorem mem_recordScore {hour : ℤ} {score : R} {scores : List (ℤ × R)} {p : ℤ × R}
    (h : p ∈ recordScore hour score scores) :
    p ∈ scores ∨ p = (hour, max 0 score) ∨ ∃ old, (hour, old) ∈ scores ∧ p = (hour, max old score) := by
  induction scores with
  | nil => exact .inr (.inl (List.mem_singleton.mp h))
  | cons q rest ih =>
    obtain ⟨hour', score'⟩ := q
    rw [recordScore] at h
    split at h
    · rename_i heq
      subst heq
      rcases List.mem_cons.mp h with rfl | h
      · exact .inr (.inr ⟨score', List.mem_cons_self, rfl⟩)
      · exact .inl (List.mem_cons_of_mem _ h)
    · rcases List.mem_cons.mp h with rfl | h
      · exact .inl List.mem_cons_self
      · rcases ih h with h | h | ⟨old, hold, hp⟩
        · exact .inl (List.mem_cons_of_mem _ h)
        · exact .inr (.inl h)
        · exact .inr (.inr ⟨old, List.mem_cons_of_mem _ hold, hp⟩)

/-- The recorded score is covered, and so is what was covered before. -/
theorem recordScore_covers (hour : ℤ) (score : R) (scores : List (ℤ × R)) :
    (∃ m, (hour, m) ∈ recordScore hour score scores ∧ score ≤ m) ∧
      ∀ p ∈ scores, ∃ m, (p.1, m) ∈ recordScore hour score scores ∧ p.2 ≤ m := by
  induction scores with
  | nil =>
    refine ⟨⟨_, List.mem_cons_self, le_max_right _ _⟩, ?_⟩
    intro p hp
    cases hp
  | cons q rest ih =>
    obtain ⟨hour', score'⟩ := q
    obtain ⟨⟨m, hm, hle⟩, hrest⟩ := ih
    rw [recordScore]
    split
    · rename_i heq
      subst heq
      refine ⟨⟨_, List.mem_cons_self, le_max_right _ _⟩, ?_⟩
      intro p hp
      rcases List.mem_cons.mp hp with rfl | hp
      · exact ⟨_, List.mem_cons_self, le_max_left _ _⟩
      · exact ⟨p.2, List.mem_cons_of_mem _ hp, le_rfl⟩
    · refine ⟨⟨m, List.mem_cons_of_mem _ hm, hle⟩, ?_⟩
      intro p hp
      rcases List.mem_cons.mp hp with rfl | hp
      · exact ⟨_, List.mem_cons_self, le_rfl⟩
      · obtain ⟨m', hm', hle'⟩ := hrest p hp
        exact ⟨m', List.mem_cons_of_mem _ hm', hle'⟩

/-- The score of an hour is the one of a row of that hour, and of the rows the greatest. -/
theorem hourToMaxScore_spec (rows : List (ResultRow R)) :
    (∀ p ∈ hourToMaxScore rows, ∃ row ∈ rows, hourOf row.ts = p.1 ∧ p.2 = row.anomaly) ∧
      ∀ row ∈ rows, ∃ m, (hourOf row.ts, m) ∈ hourToMaxScore rows ∧ row.anomaly ≤ m := by
  induction rows using List.reverseRecOn with
  | nil =>
    constructor
    · intro p hp
      cases hp
    · intro row hrow
      cases hrow
  | append_singleton rows last ih =>
    obtain ⟨hattained, hcovers⟩ := ih
    have hstep : hourToMaxScore (rows ++ [last]) =
        recordScore (hourOf last.ts) last.anomaly (hourToMaxScore rows) := by
      rw [hourToMaxScore, List.foldl_append]
      rfl
    rw [hstep]
    obtain ⟨hnew, hold⟩ := recordScore_covers (hourOf last.ts) last.anomaly (hourToMaxScore rows)
    constructor
    · intro p hp
      rcases mem_recordScore hp with hp | rfl | ⟨old, hin, rfl⟩
      · obtain ⟨row, hrow, hhour, hscore⟩ := hattained p hp
        exact ⟨row, List.mem_append_left _ hrow, hhour, hscore⟩
      · refine ⟨last, List.mem_append_right _ (List.mem_singleton_self _), rfl, ?_⟩
        exact max_eq_right last.nonneg
      · rcases le_total old last.anomaly with hle | hle
        · refine ⟨last, List.mem_append_right _ (List.mem_singleton_self _), rfl, ?_⟩
          exact max_eq_right hle
        · obtain ⟨row, hrow, hhour, hscore⟩ := hattained _ hin
          exact ⟨row, List.mem_append_left _ hrow, hhour, (max_eq_left hle).trans hscore⟩
    · intro row hrow
      rcases List.mem_append.mp hrow with hrow | hrow
      · obtain ⟨m, hm, hle⟩ := hcovers row hrow
        obtain ⟨m', hm', hle'⟩ := hold _ hm
        exact ⟨m', hm', hle.trans hle'⟩
      · obtain rfl := List.mem_singleton.mp hrow
        exact hnew

variable {round : R → V} {rows : List (ResultRow R)}

theorem hourlyScores_attained {p : ℤ × V} (h : p ∈ hourlyScores round rows) :
    ∃ row ∈ rows, hourOf row.ts = p.1 ∧ p.2 = round row.anomaly := by
  obtain ⟨q, hq, rfl⟩ := List.mem_map.mp h
  rw [List.mem_insertionSort] at hq
  obtain ⟨row, hrow, hhour, hscore⟩ := (hourToMaxScore_spec rows).1 q hq
  exact ⟨row, hrow, hhour, congrArg round hscore⟩

theorem hourlyScores_covers [Preorder V] (hround : Monotone round) {row : ResultRow R}
    (h : row ∈ rows) :
    ∃ x, (hourOf row.ts, x) ∈ hourlyScores round rows ∧ round row.anomaly ≤ x := by
  obtain ⟨m, hm, hle⟩ := (hourToMaxScore_spec rows).2 row h
  refine ⟨round m, ?_, hround hle⟩
  apply List.mem_map.mpr
  exact ⟨(hourOf row.ts, m), (List.mem_insertionSort _).mpr hm, rfl⟩

end Scores

/-! ## The operations -/

namespace HourlyTable

variable [DecidableEq I] [DecidableEq K] [LinearOrder V] {table table' : HourlyTable I K V}
  {instanceName : I} {hour : ℤ} {metricType : K} {x : V}

omit [DecidableEq K] [LinearOrder V] in
@[simp] theorem setItem_self (item : K → Option V) :
    table.setItem instanceName hour item instanceName hour = some item := by
  simp [setItem]

omit [DecidableEq K] [LinearOrder V] in
theorem setItem_other (item : K → Option V) {i : I} {h : ℤ} (hne : ¬ (i = instanceName ∧ h = hour)) :
    table.setItem instanceName hour item i h = table i h := by
  by_cases hi : i = instanceName
  · subst hi
    have hh : h ≠ hour := fun hh => hne ⟨rfl, hh⟩
    simp [setItem, hh]
  · simp [setItem, hi]

/-- One entry was set to `x`, from nothing or from less; every other score is as before. -/
structure Raises (table table' : HourlyTable I K V) (instanceName : I) (hour : ℤ) (metricType : K)
    (x : V) : Prop where
  own : table'.score instanceName hour metricType = some x
  less : ∀ stored ∈ table.score instanceName hour metricType, stored < x
  other : ∀ i h k, ¬ (i = instanceName ∧ h = hour ∧ k = metricType) →
    table'.score i h k = table.score i h k
  items : ∀ i h, (table i h).isSome → (table' i h).isSome

omit [DecidableEq K] in
theorem raises_setItem {item : K → Option V}
    (hother : ∀ k, k ≠ metricType → item k = table.score instanceName hour k)
    (hown : item metricType = some x)
    (hless : ∀ stored ∈ table.score instanceName hour metricType, stored < x) :
    Raises table (table.setItem instanceName hour item) instanceName hour metricType x := by
  refine ⟨?_, hless, ?_, ?_⟩
  · simp [score, hown]
  · intro i h k hne
    by_cases hih : i = instanceName ∧ h = hour
    · obtain ⟨rfl, rfl⟩ := hih
      have hk : k ≠ metricType := fun hk => hne ⟨rfl, rfl, hk⟩
      simp [score, hother k hk]
    · simp only [score, setItem_other item hih]
  · intro i h hsome
    by_cases hih : i = instanceName ∧ h = hour
    · obtain ⟨rfl, rfl⟩ := hih
      simp
    · rw [setItem_other item hih]
      exact hsome

theorem updateItem_spec (missing : DynamoDBError) (table : HourlyTable I K V) (instanceName : I)
    (hour : ℤ) (metricType : K) (x : V) :
    match table.updateItem missing instanceName hour metricType x with
    | .ok table' => Raises table table' instanceName hour metricType x
    | .error e => (e = missing ∧ table instanceName hour = none) ∨
        (e = .conditionalCheckFailed ∧
          ∃ stored ∈ table.score instanceName hour metricType, x ≤ stored) := by
  cases hitem : table instanceName hour with
  | none =>
    simp only [updateItem, hitem]
    exact .inl ⟨trivial, trivial⟩
  | some item =>
    simp only [updateItem, hitem]
    have hscore : ∀ k, table.score instanceName hour k = item k := by simp [score, hitem]
    split
    · rename_i table' hok
      split at hok
      · rename_i hless
        cases hok
        refine raises_setItem ?_ (by simp) ?_
        · intro k hk
          simp [hk, hscore]
        · intro stored hstored
          rw [hscore] at hstored
          rcases hless with hnone | ⟨stored', hstored', hlt⟩
          · rw [hnone] at hstored
            cases hstored
          · obtain rfl := Option.some.inj (hstored.symm.trans hstored')
            exact hlt
      · cases hok
    · rename_i e herr
      split at herr
      · cases herr
      · rename_i hge
        cases herr
        refine .inr ⟨rfl, ?_⟩
        rw [not_or] at hge
        obtain ⟨stored, hstored⟩ := Option.ne_none_iff_exists'.mp hge.1
        refine ⟨stored, (hscore _).trans hstored, ?_⟩
        by_contra hlt
        exact hge.2 ⟨stored, hstored, not_le.mp hlt⟩

theorem putItem_spec (table : HourlyTable I K V) (instanceName : I) (hour : ℤ) (metricType : K)
    (x : V) :
    match table.putItem instanceName hour metricType x with
    | .ok table' => Raises table table' instanceName hour metricType x
    | .error e => e = .conditionalCheckFailed ∧ (table instanceName hour).isSome := by
  cases hitem : table instanceName hour with
  | none =>
    simp only [putItem, hitem]
    have hscore : ∀ k, table.score instanceName hour k = none := by simp [score, hitem]
    refine raises_setItem ?_ (by simp) ?_
    · intro k hk
      simp [hk, hscore]
    · intro stored hstored
      rw [hscore] at hstored
      cases hstored
  | some item =>
    simp only [putItem, hitem]
    exact ⟨trivial, rfl⟩

/-- Scores are only raised, and items stay. -/
structure Grows (table table' : HourlyTable I K V) : Prop where
  scores : ∀ i h k, ∀ v ∈ table.score i h k, ∃ v' ∈ table'.score i h k, v ≤ v'
  items : ∀ i h, (table i h).isSome → (table' i h).isSome

omit [DecidableEq I] [DecidableEq K] in
theorem Grows.refl (table : HourlyTable I K V) : Grows table table :=
  ⟨fun _ _ _ v hv => ⟨v, hv, le_rfl⟩, fun _ _ h => h⟩

omit [DecidableEq I] [DecidableEq K] in
theorem Grows.trans {table'' : HourlyTable I K V} (h : Grows table table')
    (h' : Grows table' table'') : Grows table table'' := by
  refine ⟨?_, fun i h₁ hsome => h'.items i h₁ (h.items i h₁ hsome)⟩
  intro i h₁ k v hv
  obtain ⟨v', hv', hle⟩ := h.scores i h₁ k v hv
  obtain ⟨v'', hv'', hle'⟩ := h'.scores i h₁ k v' hv'
  exact ⟨v'', hv'', hle.trans hle'⟩

theorem Raises.grows (h : Raises table table' instanceName hour metricType x) :
    Grows table table' := by
  refine ⟨?_, h.items⟩
  intro i h₁ k v hv
  by_cases heq : i = instanceName ∧ h₁ = hour ∧ k = metricType
  · obtain ⟨rfl, rfl, rfl⟩ := heq
    exact ⟨x, h.own, (h.less v hv).le⟩
  · exact ⟨v, (h.other i h₁ k heq).trans hv, le_rfl⟩

end HourlyTable

/-! ## The calls -/

variable [LinearOrder R] [Zero R] [DecidableEq I] [DecidableEq K] [LinearOrder V]
  {round : R → V} {table table' : HourlyTable I K V} {c : PublishCall I K R V}

/-- What is still to be published for a call comes from its rows, and every row is
covered by that or by the table; before the second update there is an item. -/
structure PublishCall.Inv (round : R → V) (table : HourlyTable I K V) (c : PublishCall I K R V) :
    Prop where
  attained : ∀ p ∈ c.pending, ∃ row ∈ c.rows, hourOf row.ts = p.1 ∧ p.2 = round row.anomaly
  covered : ∀ row ∈ c.rows,
    (∃ x, (hourOf row.ts, x) ∈ c.pending ∧ round row.anomaly ≤ x) ∨
      ∃ stored ∈ table.score c.instanceName (hourOf row.ts) c.metricType,
        round row.anomaly ≤ stored
  again : c.step = .updateAgain → ∀ p ∈ c.pending.head?, (table c.instanceName p.1).isSome

omit [DecidableEq I] [DecidableEq K] in
theorem PublishCall.inv_begin (hround : Monotone round) (table : HourlyTable I K V)
    (instanceName : I) (metricType : K) (rows : List (ResultRow R)) :
    (begin round instanceName metricType rows : PublishCall I K R V).Inv round table where
  attained _ hp := hourlyScores_attained hp
  covered _ hrow := .inl (hourlyScores_covers hround hrow)
  again h := by cases h

omit [DecidableEq I] [DecidableEq K] in
theorem PublishCall.Inv.grows (h : c.Inv round table) (hgrows : table.Grows table') :
    c.Inv round table' where
  attained := h.attained
  covered row hrow := by
    rcases h.covered row hrow with hpending | ⟨stored, hstored, hle⟩
    · exact .inl hpending
    · obtain ⟨v, hv, hle'⟩ := hgrows.scores _ _ _ stored hstored
      exact .inr ⟨v, hv, hle.trans hle'⟩
  again hstep p hp := hgrows.items _ _ (h.again hstep p hp)

omit [DecidableEq I] [DecidableEq K] in
/-- A call goes on to the next hour once the score of this one is covered. -/
theorem PublishCall.Inv.nextHour (h : c.Inv round table) {hour : ℤ} {x : V}
    {rest : List (ℤ × V)} (hpending : c.pending = (hour, x) :: rest)
    (hstored : ∃ stored ∈ table.score c.instanceName hour c.metricType, x ≤ stored) :
    c.nextHour.Inv round table where
  attained p hp := h.attained p (List.mem_of_mem_tail hp)
  covered row hrow := by
    rcases h.covered row hrow with ⟨y, hy, hle⟩ | hcovered
    · rw [hpending] at hy
      rcases List.mem_cons.mp hy with heq | hy
      · obtain ⟨hhour, rfl⟩ := Prod.mk.inj heq
        obtain ⟨stored, hin, hle'⟩ := hstored
        exact .inr ⟨stored, by rw [hhour]; exact hin, hle.trans hle'⟩
      · refine .inl ⟨y, ?_, hle⟩
        rw [PublishCall.nextHour, hpending]
        exact hy
    · exact .inr hcovered
  again hstep := by cases hstep

theorem PublishCall.operation_spec (c : PublishCall I K R V) (missing : DynamoDBError) (hour : ℤ)
    (x : V) (table : HourlyTable I K V) :
    match c.operation missing hour x table with
    | .ok table' => table.Raises table' c.instanceName hour c.metricType x
    | .error e => (c.step ≠ .put ∧ e = missing ∧ table c.instanceName hour = none) ∨
        (c.step ≠ .put ∧ e = .conditionalCheckFailed ∧
          ∃ stored ∈ table.score c.instanceName hour c.metricType, x ≤ stored) ∨
        (c.step = .put ∧ e = .conditionalCheckFailed ∧ (table c.instanceName hour).isSome) := by
  have hupdate := HourlyTable.updateItem_spec missing table c.instanceName hour c.metricType x
  have hput := HourlyTable.putItem_spec table c.instanceName hour c.metricType x
  cases hstep : c.step with
  | put =>
    simp only [PublishCall.operation, hstep]
    cases hresponse : table.putItem c.instanceName hour c.metricType x with
    | ok table' =>
      rw [hresponse] at hput
      exact hput
    | error e =>
      rw [hresponse] at hput
      exact .inr (.inr ⟨trivial, hput⟩)
  | update | updateAgain =>
    simp only [PublishCall.operation, hstep]
    cases hresponse : table.updateItem missing c.instanceName hour c.metricType x with
    | ok table' =>
      rw [hresponse] at hupdate
      exact hupdate
    | error e =>
      rw [hresponse] at hupdate
      rcases hupdate with hmissing | hfailed
      · exact .inl ⟨by simp, hmissing⟩
      · exact .inr (.inl ⟨by simp, hfailed⟩)

/-- What the call does with the response of an operation. -/
theorem PublishCall.Inv.handle (h : c.Inv round table) {missing : DynamoDBError} {hour : ℤ} {x : V}
    {rest : List (ℤ × V)} (hpending : c.pending = (hour, x) :: rest)
    (hmissing : missing = .validation ∨ missing = .resourceNotFound) :
    (c.handle ((c.operation missing hour x table).map fun _ => ())).Inv round
      ((c.operation missing hour x table).toOption.getD table) := by
  have hspec := c.operation_spec missing hour x table
  cases hresponse : c.operation missing hour x table with
  | ok table' =>
    rw [hresponse] at hspec
    exact (h.grows hspec.grows).nextHour hpending ⟨x, hspec.own, le_rfl⟩
  | error e =>
    rw [hresponse] at hspec
    rcases hspec with ⟨hstep, rfl, hnone⟩ | ⟨hstep, rfl, hstored⟩ | ⟨hstep, rfl, hsome⟩
    · -- The item is missing, which it is not any more when it is updated again.
      have hupdate : c.step = .update := by
        cases hc : c.step with
        | update => rfl
        | put => exact absurd hc hstep
        | updateAgain =>
          have hsome := h.again hc (hour, x) (by rw [hpending]; rfl)
          rw [hnone] at hsome
          cases hsome
      have hnext : c.handle (.error e) = { c with step := .put } := by
        rcases hmissing with rfl | rfl
        · simp [PublishCall.handle, hupdate]
        · simp [PublishCall.handle, hupdate]
      have hinv : PublishCall.Inv round table { c with step := .put } :=
        ⟨h.attained, h.covered, fun hagain => by cases hagain⟩
      exact hnext ▸ hinv
    · have hnext : c.handle (.error .conditionalCheckFailed) = c.nextHour := by
        cases hc : c.step with
        | put => exact absurd hc hstep
        | update => simp [PublishCall.handle, hc]
        | updateAgain => simp [PublishCall.handle, hc]
      exact hnext ▸ h.nextHour hpending hstored
    · have hnext : c.handle (.error .conditionalCheckFailed) = { c with step := .updateAgain } := by
        simp [PublishCall.handle, hstep]
      have hinv : PublishCall.Inv round table { c with step := .updateAgain } := by
        refine ⟨h.attained, h.covered, fun _ p hp => ?_⟩
        simp only [hpending] at hp
        obtain rfl := Option.some.inj hp
        exact hsome
      exact hnext ▸ hinv

omit [DecidableEq I] [DecidableEq K] [LinearOrder V] in
theorem PublishCall.handle_names (c : PublishCall I K R V) (r : Except DynamoDBError Unit) :
    (c.handle r).instanceName = c.instanceName ∧ (c.handle r).metricType = c.metricType ∧
      (c.handle r).rows = c.rows := by
  cases hstep : c.step <;> rcases r with (_ | _ | _) | _ <;>
    simp [PublishCall.handle, PublishCall.nextHour, hstep]

/-! ## Runs -/

namespace HourlyPublishing

/-- The rounded scores of the rows of an instance, hour and metric type in all the batches
given to the calls so far. -/
def scoresOf (round : R → V) (s : HourlyPublishing I K R V) (instanceName : I) (hour : ℤ)
    (metricType : K) : Set V :=
  {x | ∃ c ∈ s.calls, c.instanceName = instanceName ∧ c.metricType = metricType ∧
    ∃ row ∈ c.rows, hourOf row.ts = hour ∧ x = round row.anomaly}

structure Inv (round : R → V) (s : HourlyPublishing I K R V) : Prop where
  calls : ∀ c ∈ s.calls, c.Inv round s.table
  stored : ∀ i h k, ∀ v ∈ s.table.score i h k, v ∈ s.scoresOf round i h k

variable {s t : HourlyPublishing I K R V} {a : Action I K R}

/-- What a step does: it makes or ends a call, or it is one operation of a call. -/
theorem act_cases (hn : act round a s = some t) :
    (∃ i k rows, t = { s with calls := s.calls ++ [.begin round i k rows] }) ∨
    (∃ i c, s.calls[i]? = some c ∧ t = { s with calls := s.calls.set i { c with raised := true } }) ∨
    ∃ i resourceNotFound lost c missing hour x rest, a = .operate i resourceNotFound lost ∧
      s.calls[i]? = some c ∧ c.pending = (hour, x) :: rest ∧
      (missing = .validation ∨ missing = .resourceNotFound) ∧ t = {
        table := (c.operation missing hour x s.table).toOption.getD s.table
        calls := if lost then s.calls
          else s.calls.set i (c.handle ((c.operation missing hour x s.table).map fun _ => ())) } := by
  cases a with
  | publish i k rows =>
    cases hn
    exact .inl ⟨i, k, rows, rfl⟩
  | raise i =>
    obtain ⟨c, hc, rfl⟩ := Option.map_eq_some_iff.mp hn
    exact .inr (.inl ⟨i, c, hc, rfl⟩)
  | operate i resourceNotFound lost =>
    simp only [act, operate] at hn
    split at hn
    · cases hn
    · rename_i c hc
      split at hn
      · rename_i hour x rest _ hpending
        cases hn
        refine .inr (.inr ⟨i, resourceNotFound, lost, c, _, hour, x, rest, rfl, hc, hpending,
          ?_, rfl⟩)
        cases resourceNotFound with
        | false => exact .inl rfl
        | true => exact .inr rfl
      · cases hn

/-- An operation leaves the scores alone or raises the one of its call. -/
theorem operation_table (c : PublishCall I K R V) (missing : DynamoDBError) (hour : ℤ) (x : V)
    (table : HourlyTable I K V) :
    (c.operation missing hour x table).toOption.getD table = table ∨
      table.Raises ((c.operation missing hour x table).toOption.getD table) c.instanceName hour
        c.metricType x := by
  have hspec := c.operation_spec missing hour x table
  cases hresponse : c.operation missing hour x table with
  | ok table' =>
    rw [hresponse] at hspec
    exact .inr hspec
  | error e => exact .inl rfl

theorem operation_grows (c : PublishCall I K R V) (missing : DynamoDBError) (hour : ℤ) (x : V)
    (table : HourlyTable I K V) :
    table.Grows ((c.operation missing hour x table).toOption.getD table) := by
  rcases operation_table c missing hour x table with heq | hraises
  · rw [heq]
    exact .refl table
  · exact hraises.grows

theorem act_grows (hn : act round a s = some t) : s.table.Grows t.table := by
  rcases act_cases hn with ⟨i, k, rows, rfl⟩ | ⟨i, c, -, rfl⟩ |
    ⟨i, resourceNotFound, lost, c, missing, hour, x, rest, -, -, -, -, rfl⟩
  · exact .refl _
  · exact .refl _
  · exact operation_grows c missing hour x s.table

omit [DecidableEq I] [DecidableEq K] [LinearOrder V] in
/-- A call that goes on keeps the scores it was given. -/
theorem scoresOf_mono {i : ℕ} {c c' : PublishCall I K R V} (hc : s.calls[i]? = some c)
    (hnames : c'.instanceName = c.instanceName ∧ c'.metricType = c.metricType ∧ c'.rows = c.rows)
    (table : HourlyTable I K V) (instanceName : I) (hour : ℤ) (metricType : K) :
    s.scoresOf round instanceName hour metricType ⊆
      scoresOf round ⟨table, s.calls.set i c'⟩ instanceName hour metricType := by
  rintro x ⟨d, hd, hi, hk, hrow⟩
  obtain ⟨j, hj⟩ := List.getElem?_of_mem hd
  by_cases hij : i = j
  · subst hij
    obtain rfl := Option.some.inj (hc.symm.trans hj)
    refine ⟨c', List.mem_of_getElem? (List.getElem?_set_self ?_), hnames.1.trans hi,
      hnames.2.1.trans hk, ?_⟩
    · exact (List.getElem?_eq_some_iff.mp hc).1
    · rw [hnames.2.2]
      exact hrow
  · refine ⟨d, List.mem_of_getElem? ((List.getElem?_set_ne hij).trans hj), hi, hk, hrow⟩

theorem Inv.act (hround : Monotone round) (h : s.Inv round) (hn : act round a s = some t) :
    t.Inv round := by
  rcases act_cases hn with ⟨i, k, rows, rfl⟩ | ⟨i, c, hc, rfl⟩ |
    ⟨i, resourceNotFound, lost, c, missing, hour, x, rest, -, hc, hpending, hmissing, rfl⟩
  · constructor
    · intro c hc
      rcases List.mem_append.mp hc with hc | hc
      · exact h.calls c hc
      · obtain rfl := List.mem_singleton.mp hc
        exact PublishCall.inv_begin hround _ _ _ _
    · intro i' h' k' v hv
      obtain ⟨c, hc, hrest⟩ := h.stored i' h' k' v hv
      exact ⟨c, List.mem_append_left _ hc, hrest⟩
  · constructor
    · intro d hd
      rcases List.mem_or_eq_of_mem_set hd with hd | rfl
      · exact h.calls d hd
      · have hinv := h.calls c (List.mem_of_getElem? hc)
        exact ⟨hinv.attained, hinv.covered, hinv.again⟩
    · intro i' h' k' v hv
      have hnames : ({ c with raised := true } : PublishCall I K R V).instanceName = c.instanceName ∧
          ({ c with raised := true } : PublishCall I K R V).metricType = c.metricType ∧
          ({ c with raised := true } : PublishCall I K R V).rows = c.rows := ⟨rfl, rfl, rfl⟩
      exact scoresOf_mono hc hnames s.table i' h' k' (h.stored i' h' k' v hv)
  · have hgrows := operation_grows c missing hour x s.table
    have hcall := h.calls c (List.mem_of_getElem? hc)
    have hmono : ∀ i' h' k', s.scoresOf round i' h' k' ⊆ scoresOf round
        ⟨(c.operation missing hour x s.table).toOption.getD s.table,
          if lost then s.calls
          else s.calls.set i (c.handle ((c.operation missing hour x s.table).map fun _ => ()))⟩
        i' h' k' := by
      intro i' h' k'
      cases lost with
      | true => exact fun v hv => hv
      | false => exact scoresOf_mono hc (c.handle_names _) _ i' h' k'
    constructor
    · intro d hd
      cases lost with
      | true => exact (h.calls d hd).grows hgrows
      | false =>
        rcases List.mem_or_eq_of_mem_set hd with hd | rfl
        · exact (h.calls d hd).grows hgrows
        · exact hcall.handle hpending hmissing
    · intro i' h' k' v hv
      apply hmono
      rcases operation_table c missing hour x s.table with heq | hraises
      · simp only [heq] at hv
        exact h.stored i' h' k' v hv
      · by_cases hown : i' = c.instanceName ∧ h' = hour ∧ k' = c.metricType
        · obtain ⟨rfl, rfl, rfl⟩ := hown
          obtain rfl := Option.some.inj (hraises.own.symm.trans hv)
          obtain ⟨row, hrow, hhour, hx⟩ := hcall.attained (h', x) (by rw [hpending]; simp)
          exact ⟨c, List.mem_of_getElem? hc, rfl, rfl, row, hrow, hhour, hx⟩
        · have hsame := hraises.other i' h' k' hown
          rw [hsame] at hv
          exact h.stored i' h' k' v hv

theorem run_inv (hround : Monotone round) {tr : List (HourlyPublishing I K R V × Action I K R)}
    (h : Run (system I K R V round) tr s) : s.Inv round := by
  refine h.reachable.invariant ?_ ?_
  · rintro s rfl
    constructor
    · intro c hc
      cases hc
    · intro i h k v hv
      cases hv
  · intro a s t _ hs hn
    exact hs.act hround hn

/-- The scores that a step changes are those of one call's instance and metric type. -/
def ChangesOwnScore (u : HourlyPublishing I K R V) (a : Action I K R)
    (t : HourlyPublishing I K R V) : Prop :=
  ∀ instanceName hour metricType, t.table.score instanceName hour metricType ≠
      u.table.score instanceName hour metricType →
    ∃ i resourceNotFound lost c, a = .operate i resourceNotFound lost ∧
      u.calls[i]? = some c ∧ c.instanceName = instanceName ∧ c.metricType = metricType

theorem act_changesOwnScore (hn : act round a s = some t) : ChangesOwnScore s a t := by
  intro i hour k hchanged
  rcases act_cases hn with ⟨_, _, _, rfl⟩ | ⟨_, _, _, rfl⟩ |
    ⟨j, resourceNotFound, lost, c, missing, hour', x, rest, ha, hc, -, -, rfl⟩
  · exact absurd rfl hchanged
  · exact absurd rfl hchanged
  · refine ⟨j, resourceNotFound, lost, c, ha, hc, ?_⟩
    rcases operation_table c missing hour' x s.table with heq | hraises
    · simp only [heq] at hchanged
      exact absurd rfl hchanged
    · by_contra hne
      apply hchanged
      apply hraises.other
      rintro ⟨rfl, -, rfl⟩
      exact hne ⟨rfl, rfl⟩

/-- In every state of a run the scores are lower bounds of those at its end. -/
theorem run_grows {tr : List (HourlyPublishing I K R V × Action I K R)}
    (h : Run (system I K R V round) tr s) : ∀ u ∈ statesOf tr s, u.table.Grows s.table := by
  induction h with
  | init h =>
    intro u hu
    obtain rfl := List.mem_singleton.mp hu
    exact .refl _
  | @step tr s t a hs hn ih =>
    intro u hu
    rw [statesOf, List.map_append, List.mem_append] at hu
    rcases hu with hu | hu
    · exact (ih u hu).trans (act_grows hn)
    · obtain rfl := List.mem_singleton.mp hu
      exact .refl _

omit [DecidableEq I] [DecidableEq K] in
/-- When all calls have returned, every score given to them is covered. -/
theorem Inv.returned (h : s.Inv round) (hreturned : ∀ c ∈ s.calls, c.returned) (i : I) (hour : ℤ)
    (k : K) : ∀ x ∈ s.scoresOf round i hour k, ∃ v ∈ s.table.score i hour k, x ≤ v := by
  rintro x ⟨c, hc, rfl, rfl, row, hrow, rfl, rfl⟩
  rcases (h.calls c hc).covered row hrow with ⟨y, hy, -⟩ | hstored
  · rw [(hreturned c hc).1] at hy
    cases hy
  · exact hstored

end HourlyPublishing

/-- The hourly score is a max-merge. Once all calls have returned, the score of every
instance, hour and metric type is the greatest of the rounded scores in all their
batches, and there is none if there are no such rows; the score in any earlier state is a
lower bound of it; and no step changes a score but an operation of a call for its
instance and its metric type. -/
theorem hourly_scores_max_merge {round : R → V} (hround : Monotone round)
    {tr : List (HourlyPublishing I K R V × HourlyPublishing.Action I K R)}
    {s : HourlyPublishing I K R V}
    (h : Run (HourlyPublishing.system I K R V round) tr s) :
    ((∀ c ∈ s.calls, c.returned) → ∀ instanceName hour metricType,
      (s.scoresOf round instanceName hour metricType = ∅ ∧
          s.table.score instanceName hour metricType = none) ∨
        ∃ v, s.table.score instanceName hour metricType = some v ∧
          IsGreatest (s.scoresOf round instanceName hour metricType) v) ∧
      (∀ u ∈ statesOf tr s, ∀ instanceName hour metricType,
        ∀ v ∈ u.table.score instanceName hour metricType,
          ∃ v' ∈ s.table.score instanceName hour metricType, v ≤ v') ∧
      ∀ p ∈ tr, ∃ t, (HourlyPublishing.system I K R V round).next p.2 p.1 = some t ∧
        HourlyPublishing.ChangesOwnScore p.1 p.2 t := by
  have hinv := HourlyPublishing.run_inv hround h
  refine ⟨?_, ?_, ?_⟩
  · intro hreturned i hour k
    have hcovered := hinv.returned hreturned i hour k
    cases hscore : s.table.score i hour k with
    | none =>
      refine .inl ⟨?_, rfl⟩
      apply Set.eq_empty_of_forall_notMem
      intro x hx
      obtain ⟨v, hv, -⟩ := hcovered x hx
      rw [hscore] at hv
      cases hv
    | some v =>
      refine .inr ⟨v, rfl, hinv.stored i hour k v hscore, ?_⟩
      intro x hx
      obtain ⟨v', hv', hle⟩ := hcovered x hx
      obtain rfl := Option.some.inj (hscore.symm.trans hv')
      exact hle
  · intro u hu i hour k v hv
    exact (HourlyPublishing.run_grows h u hu).scores i hour k v hv
  · exact h.forall_steps (I := fun _ => True) (G := fun _ _ => True)
      (P := HourlyPublishing.ChangesOwnScore) (fun _ _ => trivial)
      (fun _ _ _ _ _ _ => trivial) (fun a u t _ _ hn => HourlyPublishing.act_changesOwnScore hn)
      (fun _ _ => trivial)

/-- Two processes race for a new item: both find it missing, one puts it, and the other
updates it; the response of its update is lost once. -/
def racingCalls : List (HourlyPublishing.Action String String ℕ) :=
  [.publish "ACME" "StockPrice" [⟨7200, 3, by decide⟩, ⟨7260, 5, by decide⟩],
    .publish "ACME" "StockPrice" [⟨7300, 8, by decide⟩],
    .operate 0 false false, .operate 1 true false, .operate 0 false false,
    .operate 1 false false, .operate 1 false true, .operate 1 false false]

theorem hourly_scores_max_merge_racing :
    ∃ tr s, Run (HourlyPublishing.system String String ℕ ℕ id) tr s ∧
      s.table.score "ACME" 2 "StockPrice" = some 8 ∧
      IsGreatest (s.scoresOf id "ACME" 2 "StockPrice") 8 := by
  have hinit : (HourlyPublishing.system String String ℕ ℕ id).init ⟨fun _ _ => none, []⟩ := rfl
  have hexec : ∃ s, (HourlyPublishing.system String String ℕ ℕ id).exec racingCalls
      ⟨fun _ _ => none, []⟩ = some s ∧ s.table.score "ACME" 2 "StockPrice" = some 8 ∧
      s.calls.all (fun c => c.pending.isEmpty && !c.raised) = true := ⟨_, rfl, rfl, rfl⟩
  obtain ⟨s, hs, hscore, hall⟩ := hexec
  have hreturned : ∀ c ∈ s.calls, c.returned := by
    intro c hc
    have hc' := List.all_eq_true.mp hall c hc
    simpa [PublishCall.returned] using hc'
  have hrun := (Run.init hinit).exec_trace hs
  refine ⟨_, s, hrun, hscore, ?_⟩
  rcases (hourly_scores_max_merge monotone_id hrun).1 hreturned "ACME" 2 "StockPrice" with
    ⟨-, hnone⟩ | ⟨v, hv, hgreatest⟩
  · cases hnone.symm.trans hscore
  · obtain rfl := Option.some.inj (hscore.symm.trans hv)
    exact hgreatest

end NumentaApps.DynamoDB
