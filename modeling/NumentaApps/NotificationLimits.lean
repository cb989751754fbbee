import NumentaApps.TaurusNotificationService

/-!
# The limits of the notifications

The limit is checked against the time of the last anomaly, which may be earlier than the time at which
it was notified, and the hour of the last run is looked at again.
-/
namespace NumentaApps.Taurus
open TransitionSystem
open KeyRange (OrderedMap OrderedMap.mem_range)

namespace TaurusNotificationService

variable {Single : Type} {isRed : Single → Bool} {frequency : ℤ} {s s' : TaurusNotificationService}
  {run : SynchronizeNotifications Single}

/-! ### What a run finds -/

/-- The company is not limited, and has an anomaly since the hour of the last run. -/
def Finds (isRed : Single → Bool) (frequency : ℤ) (s : TaurusNotificationService)
    (run : SynchronizeNotifications Single) (instanceId : String) (time : ℤ) : Prop :=
  run.enable = true ∧ instanceId ∈ s.favorites ∧
    s.lastNotificationTime instanceId ≤ run.now - frequency ∧
      ∃ database, run.database = some database ∧
        firstAnomaly isRed database instanceId (s.checkedSince run.now) run.now = some time

/-- The notifications of a run. -/
def pending (isRed : Single → Bool) (frequency : ℤ) (s : TaurusNotificationService)
    (run : SynchronizeNotifications Single) : List (String × ℤ) :=
  if run.enable then
    s.getPendingNotifications isRed run.database (s.checkedSince run.now) run.now frequency
  else []

theorem mem_pending_iff {instanceId : String} {time : ℤ} :
    (instanceId, time) ∈ s.pending isRed frequency run ↔
      s.Finds isRed frequency run instanceId time := by
  rw [pending, Finds]
  by_cases henable : run.enable = true
  · rw [if_pos henable]
    cases run.database with
    | none => simp [getPendingNotifications]
    | some database =>
      simp only [getPendingNotifications, List.mem_filterMap, henable, true_and, Option.some.injEq,
        exists_eq_left']
      constructor
      · intro ⟨instanceId', hfavorite, h⟩
        split at h
        · cases h
        · next hlimit =>
          obtain ⟨time', htime, heq⟩ := Option.map_eq_some_iff.mp h
          cases heq
          exact ⟨hfavorite, Int.not_lt.mp hlimit, htime⟩
      · intro ⟨hfavorite, hlimit, htime⟩
        refine ⟨instanceId, hfavorite, ?_⟩
        rw [if_neg (Int.not_lt.mpr hlimit), htime, Option.map_some]
  · rw [if_neg henable]
    exact iff_of_false List.not_mem_nil fun h => henable h.1

/-- A company has one notification in a run at most. -/
theorem pending_keys : ((s.pending isRed frequency run).map Prod.fst).Nodup := by
  rw [pending]
  split
  · cases run.database with
    | none => exact List.nodup_nil
    | some database =>
      rw [List.Nodup, List.pairwise_map]
      simp only [getPendingNotifications]
      rw [List.pairwise_filterMap]
      refine s.favorites_nodup.imp ?_
      intro instanceId instanceId' hne n hn n' hn'
      split at hn
      · cases hn
      · split at hn'
        · cases hn'
        · obtain ⟨_, _, rfl⟩ := Option.map_eq_some_iff.mp hn
          obtain ⟨_, _, rfl⟩ := Option.map_eq_some_iff.mp hn'
          exact hne
  · exact List.nodup_nil

theorem floorTo60minutes_eq {time : ℤ} (h : 0 ≤ time) :
    floorTo60minutes time = time / millisPerHour * millisPerHour := by
  rw [floorTo60minutes, Int.tdiv_eq_ediv_of_nonneg h]

/-- What is found is of an hour from that of the last run on. -/
theorem Finds.bounds {instanceId : String} {time : ℤ} (h : s.Finds isRed frequency run instanceId time) :
    s.checkedSince run.now ≤ time ∧ time ≤ run.now ∧ time % millisPerHour = 0 := by
  obtain ⟨_, _, _, database, _, hfirst⟩ := h
  obtain ⟨e, he, rfl⟩ := Option.map_eq_some_iff.mp hfirst
  obtain ⟨hmem, hfrom, hto⟩ := OrderedMap.mem_range.mp (List.mem_of_find?_eq_some he)
  exact ⟨hfrom, by omega, (database instanceId).hourly e hmem⟩

/-! ### What is kept -/

theorem foldl_update {l : List (String × ℤ)} (hnodup : (l.map Prod.fst).Nodup) (times : String → ℤ) :
    (∀ n ∈ l, l.foldl (fun times n => Function.update times n.1 n.2) times n.1 = n.2) ∧
      ∀ k ∉ l.map Prod.fst,
        l.foldl (fun times n => Function.update times n.1 n.2) times k = times k := by
  induction l generalizing times with
  | nil => exact ⟨fun _ hn => absurd hn List.not_mem_nil, fun _ _ => rfl⟩
  | cons n l ih =>
    obtain ⟨hn, hl⟩ := List.nodup_cons.mp hnodup
    obtain ⟨hupdated, hkept⟩ := ih hl (Function.update times n.1 n.2)
    rw [List.foldl_cons]
    refine ⟨List.forall_mem_cons.mpr ⟨?_, hupdated⟩, fun k hk => ?_⟩
    · rw [hkept _ hn, Function.update_self]
    · rw [List.map_cons, List.mem_cons, not_or] at hk
      rw [hkept k hk.2, Function.update_of_ne hk.1]

/-- What a run does. -/
theorem synchronizeNotifications_spec (frequency : ℤ) (run : SynchronizeNotifications Single)
    (s : TaurusNotificationService) :
    let s' := s.synchronizeNotifications isRed frequency run
    s'.fired = s.fired ++ (s.pending isRed frequency run).map (fun n => ⟨s.runs, run.now, n.1, n.2⟩) ∧
      s'.runs = s.runs + (if run.enable then 1 else 0) ∧
      s'.lastRunTime = (if run.enable then some run.now else s.lastRunTime) ∧
      (∀ n ∈ s.pending isRed frequency run, s'.lastNotificationTime n.1 = n.2) ∧
      ∀ k ∉ (s.pending isRed frequency run).map Prod.fst,
        s'.lastNotificationTime k = s.lastNotificationTime k := by
  have hkeys := @pending_keys _ isRed frequency s run
  have hupdate := foldl_update hkeys s.lastNotificationTime
  rw [synchronizeNotifications]
  rw [pending] at hupdate ⊢
  split
  · next henable =>
    rw [if_pos henable] at hupdate
    exact ⟨rfl, rfl, rfl, hupdate⟩
  · exact ⟨(List.append_nil _).symm, rfl, rfl, fun _ hn => absurd hn List.not_mem_nil, fun _ _ => rfl⟩

/-- The time kept for a company is that of its latest anomaly that was notified, and no later than the
last run. -/
structure Inv (s : TaurusNotificationService) : Prop where
  positive : ∀ time ∈ s.lastRunTime, 0 < time
  run_lt : ∀ f ∈ s.fired, f.run < s.runs
  time_le : ∀ f ∈ s.fired, ∃ time ∈ s.lastRunTime, f.time ≤ time
  timestamp_le : ∀ f ∈ s.fired, f.timestamp ≤ f.time ∧ f.timestamp % millisPerHour = 0
  le_kept : ∀ f ∈ s.fired, f.timestamp ≤ s.lastNotificationTime f.instanceId
  kept : ∀ f ∈ s.fired, ∃ f' ∈ s.fired, f'.instanceId = f.instanceId ∧
    f'.timestamp = s.lastNotificationTime f.instanceId

/-- What was notified before is not later than the hour of the last run. -/
theorem Inv.le_checkedSince (h : s.Inv) {f : Fired} (hf : f ∈ s.fired) :
    s.lastNotificationTime f.instanceId ≤ s.checkedSince run.now := by
  obtain ⟨f', hf', _, heq⟩ := h.kept f hf
  obtain ⟨time, htime, hle⟩ := h.time_le f' hf'
  obtain ⟨hstamp, hhour⟩ := h.timestamp_le f' hf'
  have hpos := h.positive time htime
  rw [checkedSince, Option.mem_def.mp htime, Option.getD_some, floorTo60minutes_eq (by omega), ← heq]
  simp only [millisPerHour, millisPerMinute] at hhour ⊢
  omega

theorem mem_fired_iff {f : Fired} :
    f ∈ (s.synchronizeNotifications isRed frequency run).fired ↔
      f ∈ s.fired ∨ ∃ instanceId time, s.Finds isRed frequency run instanceId time ∧
        f = ⟨s.runs, run.now, instanceId, time⟩ := by
  rw [(synchronizeNotifications_spec frequency run s).1, List.mem_append, List.mem_map]
  apply or_congr Iff.rfl
  constructor
  · rintro ⟨n, hn, rfl⟩
    exact ⟨n.1, n.2, mem_pending_iff.mp hn, rfl⟩
  · rintro ⟨instanceId, time, hfinds, rfl⟩
    exact ⟨(instanceId, time), mem_pending_iff.mpr hfinds, rfl⟩

theorem lastNotificationTime_of_finds {instanceId : String} {time : ℤ}
    (h : s.Finds isRed frequency run instanceId time) :
    (s.synchronizeNotifications isRed frequency run).lastNotificationTime instanceId = time :=
  (synchronizeNotifications_spec frequency run s).2.2.2.1 _ (mem_pending_iff.mpr h)

theorem lastNotificationTime_of_not {instanceId : String}
    (h : ∀ time, ¬ s.Finds isRed frequency run instanceId time) :
    (s.synchronizeNotifications isRed frequency run).lastNotificationTime instanceId =
      s.lastNotificationTime instanceId := by
  apply (synchronizeNotifications_spec frequency run s).2.2.2.2
  intro hmem
  obtain ⟨n, hn, rfl⟩ := List.mem_map.mp hmem
  exact h n.2 (mem_pending_iff.mp hn)

theorem Inv.synchronizeNotifications (h : s.Inv) (hpos : 0 < run.now)
    (hle : s.lastRunTime.getD run.now ≤ run.now) :
    (s.synchronizeNotifications isRed frequency run).Inv := by
  obtain ⟨_, hruns, htime, _⟩ := @synchronizeNotifications_spec _ isRed frequency run s
  have hlast : ∀ time ∈ s.lastRunTime, time ≤ run.now := by
    intro time htime
    rwa [Option.mem_def.mp htime, Option.getD_some] at hle
  refine ⟨?_, ?_, ?_, ?_, ?_, ?_⟩
  · intro time hmem
    rw [htime] at hmem
    split at hmem
    · rwa [← Option.some.inj (Option.mem_def.mp hmem)]
    · exact h.positive time hmem
  · intro f hf
    rw [hruns]
    rcases mem_fired_iff.mp hf with hold | ⟨_, _, hfinds, rfl⟩
    · exact Nat.lt_add_right _ (h.run_lt f hold)
    · rw [if_pos hfinds.1]
      exact Nat.lt_succ_self _
  · intro f hf
    rw [htime]
    rcases mem_fired_iff.mp hf with hold | ⟨_, _, hfinds, rfl⟩
    · obtain ⟨time, hmem, hbound⟩ := h.time_le f hold
      split
      · exact ⟨_, rfl, Int.le_trans hbound (hlast time hmem)⟩
      · exact ⟨time, hmem, hbound⟩
    · rw [if_pos hfinds.1]
      exact ⟨_, rfl, Int.le_refl _⟩
  · intro f hf
    rcases mem_fired_iff.mp hf with hold | ⟨_, _, hfinds, rfl⟩
    · exact h.timestamp_le f hold
    · exact hfinds.bounds.2
  · intro f hf
    rcases mem_fired_iff.mp hf with hold | ⟨_, _, hfinds, rfl⟩
    · have hkept := h.le_kept f hold
      by_cases hfinds : ∃ time, s.Finds isRed frequency run f.instanceId time
      · obtain ⟨time, hfinds⟩ := hfinds
        have hsince := @Inv.le_checkedSince _ _ run h f hold
        have hbounds := hfinds.bounds
        rw [lastNotificationTime_of_finds hfinds]
        omega
      · rwa [lastNotificationTime_of_not fun time htime => hfinds ⟨time, htime⟩]
    · rw [lastNotificationTime_of_finds hfinds]
  · intro f hf
    by_cases hfinds : ∃ time, s.Finds isRed frequency run f.instanceId time
    · obtain ⟨time, hfinds⟩ := hfinds
      rw [lastNotificationTime_of_finds hfinds]
      exact ⟨_, mem_fired_iff.mpr (.inr ⟨_, _, hfinds, rfl⟩), rfl, rfl⟩
    · have hnot : ∀ time, ¬ s.Finds isRed frequency run f.instanceId time :=
        fun time htime => hfinds ⟨time, htime⟩
      rw [lastNotificationTime_of_not hnot]
      rcases mem_fired_iff.mp hf with hold | ⟨_, time, hfound, rfl⟩
      · obtain ⟨f', hf', hsame⟩ := h.kept f hold
        exact ⟨f', mem_fired_iff.mpr (.inl hf'), hsame⟩
      · exact absurd hfound (hnot time)

/-! ### The limits -/

/-- Of one company no two notifications are fired in one run, less than the limit apart or for the same
hour. -/
def RateLimited (frequency : ℤ) (s : TaurusNotificationService) : Prop :=
  s.fired.Pairwise fun f f' => f.instanceId = f'.instanceId → f.run ≠ f'.run ∧
    f.time + frequency ≤ f'.time ∧ f.timestamp / millisPerHour ≠ f'.timestamp / millisPerHour

/-- If a company that was notified before is not limited by the time that is kept for it, and has an
anomaly since the hour of the last run, then it is not limited by the time of its notifications
either, and the first of these anomalies is another one than that notified last. -/
def Meets (isRed : Single → Bool) (frequency : ℤ) (s : TaurusNotificationService)
    (run : SynchronizeNotifications Single) : Prop :=
  ∀ instanceId time, s.Finds isRed frequency run instanceId time →
    ∀ f ∈ s.fired, f.instanceId = instanceId →
      f.time + frequency ≤ run.now ∧ time ≠ s.lastNotificationTime instanceId

theorem rateLimited_iff (h : s.Inv) :
    (s.synchronizeNotifications isRed frequency run).RateLimited frequency ↔
      s.RateLimited frequency ∧ s.Meets isRed frequency run := by
  rw [RateLimited, (synchronizeNotifications_spec frequency run s).1, List.pairwise_append]
  constructor
  · intro ⟨hold, _, hcross⟩
    refine ⟨hold, fun instanceId time hfinds f hf hsame => ?_⟩
    have hnew : (⟨s.runs, run.now, instanceId, time⟩ : Fired) ∈
        (s.pending isRed frequency run).map fun n => (⟨s.runs, run.now, n.1, n.2⟩ : Fired) :=
      List.mem_map.mpr ⟨(instanceId, time), mem_pending_iff.mpr hfinds, rfl⟩
    refine ⟨(hcross f hf _ hnew hsame).2.1, fun heq => ?_⟩
    obtain ⟨f', hf', hsame', hkept⟩ := h.kept f hf
    have hhour := (hcross f' hf' _ hnew (hsame'.trans hsame)).2.2
    apply hhour
    simp only
    rw [heq, hkept, hsame]
  · intro ⟨hold, hmeets⟩
    refine ⟨hold, ?_, ?_⟩
    · have hkeys := @pending_keys _ isRed frequency s run
      rw [List.Nodup, List.pairwise_map] at hkeys
      rw [List.pairwise_map]
      exact hkeys.imp fun hne heq => absurd heq hne
    · intro f hf f' hf' hsame
      obtain ⟨n, hn, rfl⟩ := List.mem_map.mp hf'
      have hfinds : s.Finds isRed frequency run n.1 n.2 := mem_pending_iff.mp hn
      obtain ⟨htime, hne⟩ := hmeets n.1 n.2 hfinds f hf hsame
      refine ⟨Nat.ne_of_lt (h.run_lt f hf), htime, fun hhour => hne ?_⟩
      have hbounds := hfinds.bounds
      have hstamp := h.timestamp_le f hf
      have hkept := h.le_kept f hf
      have hsince := @Inv.le_checkedSince _ _ run h f hf
      have hcompany : f.instanceId = n.1 := hsame
      rw [hcompany] at hkept hsince
      simp only [millisPerHour, millisPerMinute] at hhour hbounds hstamp
      omega

/-- In every run of the application the limits hold in all states, exactly if every synchronization
meets its condition. -/
theorem notifications_limited_iff (isRed : Single → Bool) (frequency : ℤ)
    {tr : List (TaurusNotificationService × SynchronizeNotifications Single)}
    (h : Run (system isRed frequency) tr s) :
    (∀ t ∈ statesOf tr s, t.RateLimited frequency) ↔ ∀ p ∈ tr, p.1.Meets isRed frequency p.2 := by
  have hnext : ∀ (run : SynchronizeNotifications Single) (s t : TaurusNotificationService),
      (system isRed frequency).next run s = some t →
      0 < run.now ∧ s.lastRunTime.getD run.now ≤ run.now ∧
        t = s.synchronizeNotifications isRed frequency run := by
    intro run s t hnext
    simp only [system] at hnext
    split at hnext
    · next hguard => exact ⟨hguard.1, hguard.2, (Option.some.inj hnext).symm⟩
    · cases hnext
  apply h.forall_states_iff (I := Inv) (P := RateLimited frequency)
  · intro s ⟨hfired, hpos⟩
    have hnone : ∀ f, f ∉ s.fired := by
      intro f
      rw [hfired]
      exact List.not_mem_nil
    refine ⟨⟨hpos, ?_, ?_, ?_, ?_, ?_⟩, ?_⟩
    any_goals exact fun f hf => absurd hf (hnone f)
    rw [RateLimited, hfired]
    exact .nil
  · intro run s t hI hstep
    obtain ⟨hpos, hle, rfl⟩ := hnext run s t hstep
    exact hI.synchronizeNotifications hpos hle
  · intro run s t hI hP hstep hmeets
    obtain ⟨_, _, rfl⟩ := hnext run s t hstep
    exact (rateLimited_iff hI).mpr ⟨hP, hmeets⟩
  · intro run s t hI _ hstep hnot hlimited
    obtain ⟨_, _, rfl⟩ := hnext run s t hstep
    exact hnot ((rateLimited_iff hI).mp hlimited).2
  · exact fun _ hP => hP

/-- One favorite company that was never notified. -/
def oneFavorite : TaurusNotificationService where
  favorites := ["FB"]
  favorites_nodup := List.nodup_singleton _
  lastNotificationTime _ := 0
  lastRunTime := none
  runs := 0
  fired := []

/-- An anomaly of its stock price at ten o'clock on the fifth of May 2015. -/
def tenOClock : InstanceValues Bool where
  values := ⟨[(1430820000000, some ⟨true, 1⟩)], List.pairwise_singleton _ _⟩
  hourly := List.forall_mem_singleton.mpr (by decide)

/-- A run so many minutes after ten o'clock. -/
def runAt (minutes : ℤ) : SynchronizeNotifications Bool :=
  ⟨true, 1430820000000 + minutes * millisPerMinute, some fun _ => tenOClock⟩

theorem system_next (hpos : 0 < run.now) (hle : s.lastRunTime.getD run.now ≤ run.now) :
    (system isRed frequency).next run s = some (s.synchronizeNotifications isRed frequency run) :=
  if_pos ⟨hpos, hle⟩

theorem oneFavorite_init : (system id millisPerHour).init oneFavorite :=
  ⟨rfl, fun _ h => by cases h⟩

/-- One notification an hour: a run at five past ten. -/
theorem notifications_limited_once : ∃ tr s, Run (system id millisPerHour) tr s ∧ s.fired ≠ [] ∧
    ((∀ t ∈ statesOf tr s, t.RateLimited millisPerHour) ↔
      ∀ p ∈ tr, p.1.Meets id millisPerHour p.2) := by
  have hrun := (Run.init oneFavorite_init).step (runAt 5) (system_next (by decide) (by decide))
  exact ⟨_, _, hrun, by decide +kernel, notifications_limited_iff id millisPerHour hrun⟩

/-- A minute later the limit is over, and the anomaly is found in the hour of the last run. -/
theorem anomaly_notified_twice : ∃ tr s, Run (system id millisPerHour) tr s ∧
    ¬ ∀ t ∈ statesOf tr s, t.RateLimited millisPerHour := by
  have hfirst := (Run.init oneFavorite_init).step (runAt 59) (system_next (by decide) (by decide))
  have hrun := hfirst.step (runAt 60) (system_next (by decide) (by decide +kernel))
  refine ⟨_, _, hrun, fun hall => ?_⟩
  have hlimited := hall _ (List.mem_append_right _ (List.mem_singleton_self _))
  revert hlimited
  rw [RateLimited]
  decide +kernel

end TaurusNotificationService

end NumentaApps.Taurus
