import NumentaApps.MonitorDispatcher
import NumentaApps.OpenTransactions
import Mathlib.Algebra.Order.Group.Int
import Mathlib.Data.List.Nodup

/-!
# What is mailed of the failures of checks

A run of the checks that returns leaves no failure without a notification that was mailed within the
retention period; and what is mailed and recorded is not mailed again in that period.
-/
namespace NumentaApps.TaurusMonitoring
open TransitionSystem

variable {D : Type} {sha1 : String → D}

/-! ### What the store says -/

/-- The notification of a failure was recorded in the retention period before it, or later. -/
def Covered (sha1 : String → D) (records : List (Record D)) (failed : Failed) : Prop :=
  ∃ record ∈ records, record.row.key = failed.failure.key sha1 ∧
    failed.time - notificationRetentionPeriod ≤ record.committedAt

/-- The old rows are gone. -/
def Fresh (store : Store D) (time : ℤ) : Prop :=
  ∀ row ∈ store.table, ∃ record ∈ store.records, record.row = row ∧
    time - notificationRetentionPeriod ≤ record.committedAt

/-- No notification of the key was recorded in the retention period, since the table was cleared. -/
def Apart (store : Store D) (key : Key D) (insertedAt : ℤ) : Prop :=
  ∀ record ∈ store.records, record.row.key = key → record.clears = store.clears →
    record.row.timestamp + notificationRetentionPeriod < insertedAt

structure Record.Timed (clock : ℤ) (record : Record D) : Prop where
  inserted : record.row.timestamp ≤ record.insertedAt
  sent : record.insertedAt ≤ record.sentAt
  committed : record.sentAt ≤ record.committedAt
  past : record.committedAt ≤ clock

/-- The later notification of a key comes after the retention period of the earlier one. -/
def Throttled (record record' : Record D) : Prop :=
  record.row.key = record'.row.key → record.clears = record'.clears →
    record.row.timestamp + notificationRetentionPeriod < record'.insertedAt

structure StoreInv (store : Store D) : Prop where
  rows : ∀ row ∈ store.table, ∃ record ∈ store.records, record.row = row
  timed : ∀ record ∈ store.records, record.Timed store.clock
  cleared : ∀ record ∈ store.records, record.clears ≤ store.clears
  kept : ∀ record ∈ store.records, record.clears = store.clears → record.row ∈ store.table ∨
    record.row.timestamp + notificationRetentionPeriod < store.clock
  throttled : store.records.Pairwise Throttled

/-- What may become of the store while a monitor waits, with the keys that were added. -/
structure Store.Advances (store store' : Store D) (added : List (Key D)) : Prop where
  clock : store.clock ≤ store'.clock
  records : store.records ⊆ store'.records
  new : ∀ record ∈ store'.records, record ∈ store.records ∨ record.row.key ∈ added
  rows : ∀ row ∈ store'.table, row ∈ store.table ∨
    ∃ record ∈ store'.records, record.row = row ∧ store.clock ≤ record.committedAt
  clears : store'.clears = store.clears ∨ ∀ record ∈ store'.records, record.clears ≠ store'.clears

variable {store store' : Store D} {added : List (Key D)} {failed : Failed} {time : ℤ}

theorem Covered.mono {records records' : List (Record D)} (h : Covered sha1 records failed)
    (hsubset : records ⊆ records') : Covered sha1 records' failed := by
  obtain ⟨record, hrecord, hcovers⟩ := h
  exact ⟨record, hsubset hrecord, hcovers⟩

theorem Fresh.advance (h : Fresh store time) (hadv : store.Advances store' added)
    (htime : time ≤ store.clock) : Fresh store' time := by
  intro row hrow
  rcases hadv.rows row hrow with hold | ⟨record, hrecord, hrow', hnew⟩
  · obtain ⟨record, hrecord, hrecent⟩ := h row hold
    exact ⟨record, hadv.records hrecord, hrecent⟩
  · refine ⟨record, hrecord, hrow', ?_⟩
    simp only [notificationRetentionPeriod]
    omega

theorem Fresh.covered (h : Fresh store failed.time)
    (hkey : failed.failure.key sha1 ∈ store.table.map Row.key) :
    Covered sha1 store.records failed := by
  obtain ⟨row, hrow, hkey⟩ := List.mem_map.mp hkey
  obtain ⟨record, hrecord, rfl, hrecent⟩ := h row hrow
  exact ⟨record, hrecord, hkey, hrecent⟩

theorem Apart.advance {key : Key D} {insertedAt : ℤ} (h : Apart store key insertedAt)
    (hadv : store.Advances store' added) (hkey : key ∉ added) : Apart store' key insertedAt := by
  intro record hrecord hkey' hclears
  rcases hadv.new record hrecord with hold | hnew
  · rcases hadv.clears with heq | hne
    · exact h record hold hkey' (hclears.trans heq)
    · exact absurd hclears (hne record hrecord)
  · rw [hkey'] at hnew
    exact absurd hnew hkey

/-- A key that is not in the table has not been recorded for the retention period. -/
theorem StoreInv.apart (h : StoreInv store) {key : Key D} (hkey : key ∉ store.table.map Row.key) :
    Apart store key store.clock := by
  intro record hrecord hkey' hclears
  rcases h.kept record hrecord hclears with hrow | hold
  · have hmem := List.mem_map_of_mem (f := Row.key) hrow
    rw [hkey'] at hmem
    exact absurd hmem hkey
  · exact hold

/-! ### What a monitor relies on -/

/-- The row that a transaction holds. -/
structure Holds (sha1 : String → D) (store : Store D) (failed : Failed) (insertedAt : ℤ) (row : Row D) :
    Prop where
  key : row.key = failed.failure.key sha1
  timestamp : row.timestamp ≤ insertedAt
  apart : Apart store row.key insertedAt

def PhaseInv (sha1 : String → D) (store : Store D) (failed : Failed) (transaction : Option (Row D)) :
    Phase D → Prop
  | .failed => transaction = none
  | .cleanUp cutoffDate => transaction = none ∧ cutoffDate + notificationRetentionPeriod ≤ store.clock ∧
      failed.time - notificationRetentionPeriod ≤ cutoffDate
  | .ready => transaction = none ∧ Fresh store failed.time
  | .insert row => transaction = none ∧ Fresh store failed.time ∧ row.timestamp ≤ store.clock ∧
      row.key = failed.failure.key sha1
  | .dispatch insertedAt => Fresh store failed.time ∧ insertedAt ≤ store.clock ∧
      ∀ row ∈ transaction, Holds sha1 store failed insertedAt row
  | .commit insertedAt sentAt => Fresh store failed.time ∧ insertedAt ≤ sentAt ∧ sentAt ≤ store.clock ∧
      ∀ row ∈ transaction, Holds sha1 store failed insertedAt row
  | .duplicate => transaction = none ∧ Fresh store failed.time ∧ Covered sha1 store.records failed

structure CallInv (sha1 : String → D) (store : Store D) (transaction : Option (Row D)) (call : Call D) :
    Prop where
  time : call.failed.time ≤ store.clock
  phase : PhaseInv sha1 store call.failed transaction call.phase

/-- Only the failure that is being dispatched may lack a notification. -/
structure MonitorInv (sha1 : String → D) (store : Store D) (monitor : Monitor D) : Prop where
  failures : ∀ failed ∈ monitor.failures,
    failed ∈ monitor.call.map Call.failed ∨ Covered sha1 store.records failed
  call : ∀ call ∈ monitor.call, CallInv sha1 store monitor.transaction call
  idle : monitor.call = none → monitor.transaction = none

theorem Holds.advance {insertedAt : ℤ} {row : Row D} (h : Holds sha1 store failed insertedAt row)
    (hadv : store.Advances store' added) (hkey : row.key ∉ added) :
    Holds sha1 store' failed insertedAt row :=
  ⟨h.key, h.timestamp, h.apart.advance hadv hkey⟩

theorem PhaseInv.advance {transaction : Option (Row D)} {phase : Phase D}
    (h : PhaseInv sha1 store failed transaction phase) (hadv : store.Advances store' added)
    (htime : failed.time ≤ store.clock) (hkeys : ∀ row ∈ transaction, row.key ∉ added) :
    PhaseInv sha1 store' failed transaction phase := by
  cases phase with
  | failed => exact h
  | cleanUp cutoffDate => exact ⟨h.1, Int.le_trans h.2.1 hadv.clock, h.2.2⟩
  | ready => exact ⟨h.1, h.2.advance hadv htime⟩
  | insert row =>
    exact ⟨h.1, h.2.1.advance hadv htime, Int.le_trans h.2.2.1 hadv.clock, h.2.2.2⟩
  | dispatch insertedAt =>
    exact ⟨h.1.advance hadv htime, Int.le_trans h.2.1 hadv.clock,
      fun row hrow => (h.2.2 row hrow).advance hadv (hkeys row hrow)⟩
  | commit insertedAt sentAt =>
    exact ⟨h.1.advance hadv htime, h.2.1, Int.le_trans h.2.2.1 hadv.clock,
      fun row hrow => (h.2.2.2 row hrow).advance hadv (hkeys row hrow)⟩
  | duplicate => exact ⟨h.1, h.2.1.advance hadv htime, h.2.2.mono hadv.records⟩

/-- A transaction that is rolled back leaves what its monitor relies on. -/
theorem PhaseInv.rollback {transaction : Option (Row D)} {phase : Phase D}
    (h : PhaseInv sha1 store failed transaction phase) : PhaseInv sha1 store failed none phase := by
  have hnone : ∀ insertedAt, ∀ row ∈ (none : Option (Row D)), Holds sha1 store failed insertedAt row :=
    fun _ row hrow => absurd hrow (Option.not_mem_none row)
  cases phase with
  | failed => rfl
  | cleanUp cutoffDate => exact ⟨rfl, h.2⟩
  | ready => exact ⟨rfl, h.2⟩
  | insert row => exact ⟨rfl, h.2⟩
  | dispatch insertedAt => exact ⟨h.1, h.2.1, hnone insertedAt⟩
  | commit insertedAt sentAt => exact ⟨h.1, h.2.1, h.2.2.1, hnone insertedAt⟩
  | duplicate => exact ⟨rfl, h.2⟩

theorem PhaseInv.fresh {transaction : Option (Row D)} {phase : Phase D}
    (h : PhaseInv sha1 store failed transaction phase) (hphase : phase.inTransaction = true) :
    Fresh store failed.time := by
  cases phase with
  | insert row => exact h.2.1
  | commit insertedAt sentAt => exact h.1
  | duplicate => exact h.2.1
  | _ => cases hphase

variable {monitor : Monitor D}

theorem mem_pendingKeys {key : Key D} :
    key ∈ monitor.pendingKeys ↔ ∃ row ∈ monitor.transaction, row.key = key := by
  rw [Monitor.pendingKeys, Option.mem_toList, Option.map_eq_some_iff]
  rfl

theorem MonitorInv.advance (h : MonitorInv sha1 store monitor) (hadv : store.Advances store' added)
    (hkeys : ∀ key ∈ added, key ∉ monitor.pendingKeys) : MonitorInv sha1 store' monitor := by
  refine ⟨fun failed hfailed => ?_, fun call hcall => ?_, h.idle⟩
  · exact (h.failures failed hfailed).imp_right fun hcovered => hcovered.mono hadv.records
  · have hinv := h.call call hcall
    refine ⟨Int.le_trans hinv.time hadv.clock, hinv.phase.advance hadv hinv.time fun row hrow hadded => ?_⟩
    exact hkeys row.key hadded (mem_pendingKeys.mpr ⟨row, hrow, rfl⟩)

/-- The call goes on. -/
theorem MonitorInv.setCall {call call' : Call D} {transaction : Option (Row D)}
    (h : MonitorInv sha1 store monitor) (hcall : monitor.call = some call)
    (hfailed : call'.failed = call.failed)
    (hphase : PhaseInv sha1 store call.failed transaction call'.phase) :
    MonitorInv sha1 store
      { monitor with
        call := some call'
        transaction := transaction } := by
  refine ⟨fun failed hmem => ?_, fun call'' hcall'' => ?_, fun hnone => ?_⟩
  · have hfailures := h.failures failed hmem
    rw [hcall] at hfailures
    rw [Option.map_some, hfailed]
    exact hfailures
  · rw [← Option.some.inj hcall'']
    exact ⟨hfailed ▸ (h.call call hcall).time, hfailed.symm ▸ hphase⟩
  · cases hnone

/-- The call is over. -/
theorem MonitorInv.endCall {transaction : Option (Row D)} {call : Call D}
    (h : MonitorInv sha1 store monitor) (hcall : monitor.call = some call)
    (hnone : transaction = none) (hcovered : Covered sha1 store.records call.failed) :
    MonitorInv sha1 store
      { monitor with
        call := none
        transaction := transaction } := by
  refine ⟨fun failed hmem => Or.inr ?_, fun call' hcall' => ?_, fun _ => hnone⟩
  · rcases h.failures failed hmem with hcurrent | hold
    · rw [hcall] at hcurrent
      rw [← Option.some.inj hcurrent]
      exact hcovered
    · exact hold
  · cases hcall'

theorem MonitorInv.rollback (h : MonitorInv sha1 store monitor) :
    MonitorInv sha1 store { monitor with transaction := none } :=
  ⟨h.failures, fun call hcall => ⟨(h.call call hcall).time, (h.call call hcall).phase.rollback⟩,
    fun _ => rfl⟩

/-! ### What the steps do to the store -/

theorem Store.Advances.refl (store : Store D) : store.Advances store [] :=
  ⟨le_refl _, List.Subset.refl _, fun _ => Or.inl, fun _ => Or.inl, Or.inl rfl⟩

theorem tick_advances {now : ℤ} (hnow : store.clock ≤ now) :
    store.Advances { store with clock := now } [] :=
  ⟨hnow, List.Subset.refl _, fun _ => Or.inl, fun _ => Or.inl, Or.inl rfl⟩

theorem Record.Timed.mono {record : Record D} {clock clock' : ℤ} (h : record.Timed clock)
    (hclock : clock ≤ clock') : record.Timed clock' :=
  ⟨h.inserted, h.sent, h.committed, Int.le_trans h.past hclock⟩

theorem StoreInv.tick {now : ℤ} (h : StoreInv store) (hnow : store.clock ≤ now) :
    StoreInv { store with clock := now } :=
  ⟨h.rows, fun record hrecord => (h.timed record hrecord).mono hnow, h.cleared,
    fun record hrecord hclears => (h.kept record hrecord hclears).imp_right
      fun hold => Int.lt_of_lt_of_le hold hnow, h.throttled⟩

theorem cleanup_advances (cutoffDate : ℤ) :
    store.Advances (store.cleanupOldNotifications cutoffDate) [] :=
  ⟨le_refl _, List.Subset.refl _, fun _ => Or.inl,
    fun _ hrow => Or.inl (List.mem_of_mem_filter hrow), Or.inl rfl⟩

theorem StoreInv.cleanup {cutoffDate : ℤ} (h : StoreInv store)
    (hcutoff : cutoffDate + notificationRetentionPeriod ≤ store.clock) :
    StoreInv (store.cleanupOldNotifications cutoffDate) := by
  refine ⟨fun row hrow => h.rows row (List.mem_of_mem_filter hrow), h.timed, h.cleared,
    fun record hrecord hclears => ?_, h.throttled⟩
  rcases h.kept record hrecord hclears with hrow | hold
  · by_cases hcut : record.row.timestamp < cutoffDate
    · refine Or.inr ?_
      dsimp only [Store.cleanupOldNotifications]
      omega
    · exact Or.inl (List.mem_filter.mpr ⟨hrow, decide_eq_true hcut⟩)
  · exact Or.inr hold

/-- What the deletion leaves is in the retention period of the failure. -/
theorem fresh_cleanup {cutoffDate : ℤ} (h : StoreInv store)
    (hcutoff : time - notificationRetentionPeriod ≤ cutoffDate) :
    Fresh (store.cleanupOldNotifications cutoffDate) time := by
  intro row hrow
  obtain ⟨hrow, hcut⟩ := List.mem_filter.mp hrow
  have hcut := of_decide_eq_true hcut
  obtain ⟨record, hrecord, rfl⟩ := h.rows row hrow
  have htimed := h.timed record hrecord
  have hinserted := htimed.inserted
  have hsent := htimed.sent
  have hcommitted := htimed.committed
  refine ⟨record, hrecord, rfl, ?_⟩
  omega

theorem clear_advances (h : StoreInv store) :
    store.Advances store.clearAllNotifications [] := by
  refine ⟨le_refl _, List.Subset.refl _, fun _ => Or.inl, fun _ hrow => ?_,
    Or.inr fun record hrecord => ?_⟩
  · exact absurd hrow List.not_mem_nil
  · exact (Nat.lt_succ_of_le (h.cleared record hrecord)).ne

theorem StoreInv.clear (h : StoreInv store) : StoreInv store.clearAllNotifications := by
  refine ⟨fun row hrow => absurd hrow List.not_mem_nil, h.timed,
    fun record hrecord => Nat.le_succ_of_le (h.cleared record hrecord),
    fun record hrecord hclears => ?_, h.throttled⟩
  exact absurd hclears (Nat.lt_succ_of_le (h.cleared record hrecord)).ne

variable {row : Row D} {insertedAt sentAt : ℤ}

theorem commit_advances (store : Store D) (row : Row D) (insertedAt sentAt : ℤ) :
    store.Advances (store.commit row insertedAt sentAt) [row.key] := by
  refine ⟨le_refl _, List.subset_append_left _ _, fun record hrecord => ?_, fun row' hrow => ?_,
    Or.inl rfl⟩
  · rcases List.mem_append.mp hrecord with hold | hnew
    · exact Or.inl hold
    · rw [List.mem_singleton.mp hnew]
      exact Or.inr List.mem_cons_self
  · rcases List.mem_append.mp hrow with hold | hnew
    · exact Or.inl hold
    · rw [List.mem_singleton.mp hnew]
      exact Or.inr ⟨_, List.mem_append_right _ List.mem_cons_self, rfl, le_refl _⟩

theorem StoreInv.commit (h : StoreInv store) (hholds : Holds sha1 store failed insertedAt row)
    (hsent : insertedAt ≤ sentAt) (hclock : sentAt ≤ store.clock) :
    StoreInv (store.commit row insertedAt sentAt) := by
  have hnew : (⟨row, insertedAt, sentAt, store.clock, store.clears⟩ : Record D) ∈
      (store.commit row insertedAt sentAt).records := List.mem_append_right _ List.mem_cons_self
  refine ⟨fun row' hrow => ?_, fun record hrecord => ?_, fun record hrecord => ?_,
    fun record hrecord hclears => ?_, ?_⟩
  · rcases List.mem_append.mp hrow with hold | hrow
    · obtain ⟨record, hrecord, heq⟩ := h.rows row' hold
      exact ⟨record, List.mem_append_left _ hrecord, heq⟩
    · exact ⟨_, hnew, (List.mem_singleton.mp hrow).symm⟩
  · rcases List.mem_append.mp hrecord with hold | hrecord
    · exact h.timed record hold
    · rw [List.mem_singleton.mp hrecord]
      exact ⟨hholds.timestamp, hsent, hclock, le_refl _⟩
  · rcases List.mem_append.mp hrecord with hold | hrecord
    · exact h.cleared record hold
    · rw [List.mem_singleton.mp hrecord]
      exact le_refl _
  · rcases List.mem_append.mp hrecord with hold | hrecord
    · exact (h.kept record hold hclears).imp_left (List.mem_append_left _)
    · rw [List.mem_singleton.mp hrecord]
      exact Or.inl (List.mem_append_right _ List.mem_cons_self)
  · refine List.pairwise_append.mpr ⟨h.throttled, List.pairwise_singleton _ _, ?_⟩
    intro record hrecord record' hrecord' hkey hclears
    rw [List.mem_singleton.mp hrecord'] at hkey hclears ⊢
    exact hholds.apart record hrecord hkey hclears

theorem covered_commit (hkey : row.key = failed.failure.key sha1) (htime : failed.time ≤ store.clock) :
    Covered sha1 (store.commit row insertedAt sentAt).records failed := by
  refine ⟨_, List.mem_append_right _ List.mem_cons_self, hkey, ?_⟩
  simp only [notificationRetentionPeriod]
  omega

/-! ### The steps of the monitors -/

variable {s t : Monitoring D} {i : ℕ} {monitor' : Monitor D} {call : Call D}

structure Inv (sha1 : String → D) (s : Monitoring D) : Prop where
  store : StoreInv s.store
  keys : (s.store.table.map Row.key ++ s.monitors.flatMap Monitor.pendingKeys).Nodup
  monitors : ∀ monitor ∈ s.monitors, MonitorInv sha1 s.store monitor
  mails : s.mails.Perm (s.store.records.map Record.mail ++
    (s.failedMails ++ s.monitors.flatMap (Monitor.pendingMails sha1)))
  returned : ∀ failures ∈ s.returned, ∀ failed ∈ failures, Covered sha1 s.store.records failed

theorem Inv.keys_split (h : Inv sha1 s) (hi : s.monitors[i]? = some monitor) :
    (s.store.table.map Row.key ++ (monitor.pendingKeys ++
      (s.monitors.eraseIdx i).flatMap Monitor.pendingKeys)).Nodup :=
  ((OpenTransactions.keys_perm_eraseIdx Monitor.pendingKeys hi).append_left _).nodup_iff.mp h.keys

theorem Inv.mails_split (h : Inv sha1 s) (hi : s.monitors[i]? = some monitor) :
    s.mails.Perm (s.store.records.map Record.mail ++ (s.failedMails ++ (monitor.pendingMails sha1 ++
      (s.monitors.eraseIdx i).flatMap (Monitor.pendingMails sha1)))) :=
  h.mails.trans (((OpenTransactions.keys_perm_eraseIdx (Monitor.pendingMails sha1) hi).append_left
    _).append_left _)

/-- The other monitors are not concerned by what one of them adds. -/
theorem Inv.others (h : Inv sha1 s) (hi : s.monitors[i]? = some monitor)
    (hadv : s.store.Advances store' added) (hadded : added ⊆ monitor.pendingKeys) :
    ∀ other ∈ s.monitors.eraseIdx i, MonitorInv sha1 store' other := by
  intro other hother
  refine (h.monitors other (List.mem_of_mem_eraseIdx hother)).advance hadv fun key hkey hpending => ?_
  have hnodup := List.nodup_append.mp (List.nodup_append.mp (h.keys_split hi)).2.1
  exact hnodup.2.2 key (hadded hkey) key (List.mem_flatMap.mpr ⟨other, hother, hpending⟩) rfl

theorem Inv.set {mails failedMails : List (Mail D)} (h : Inv sha1 s)
    (hi : s.monitors[i]? = some monitor) (hadv : s.store.Advances store' added)
    (hadded : added ⊆ monitor.pendingKeys) (hstore : StoreInv store')
    (hkeys : (store'.table.map Row.key ++ (monitor'.pendingKeys ++
      (s.monitors.eraseIdx i).flatMap Monitor.pendingKeys)).Nodup)
    (hmonitor : MonitorInv sha1 store' monitor')
    (hmails : mails.Perm (store'.records.map Record.mail ++ (failedMails ++
      (monitor'.pendingMails sha1 ++
        (s.monitors.eraseIdx i).flatMap (Monitor.pendingMails sha1))))) :
    Inv sha1 ⟨store', s.monitors.set i monitor', mails, failedMails, s.returned⟩ := by
  refine ⟨hstore, ?_, fun other hother => ?_, ?_, fun failures hfailures failed hfailed => ?_⟩
  · exact ((OpenTransactions.keys_set_perm Monitor.pendingKeys hi monitor').append_left
      _).nodup_iff.mpr hkeys
  · obtain ⟨hlt, -⟩ := List.getElem?_eq_some_iff.mp hi
    rcases List.mem_cons.mp ((List.set_perm_cons_eraseIdx hlt monitor').mem_iff.mp hother) with
      rfl | hother
    · exact hmonitor
    · exact h.others hi hadv hadded other hother
  · exact hmails.trans (((OpenTransactions.keys_set_perm (Monitor.pendingMails sha1) hi
      monitor').symm.append_left _).append_left _)
  · exact (h.returned failures hfailures failed hfailed).mono hadv.records

/-- A monitor goes on by itself. -/
theorem Inv.setMonitor (h : Inv sha1 s) (hi : s.monitors[i]? = some monitor)
    (hmonitor : MonitorInv sha1 s.store monitor')
    (hkeys : monitor'.pendingKeys.Sublist monitor.pendingKeys)
    (hmails : monitor'.pendingMails sha1 = monitor.pendingMails sha1) :
    Inv sha1 (s.setMonitor i monitor') := by
  refine h.set hi (.refl _) (List.nil_subset _) h.store ?_ hmonitor ?_
  · exact (h.keys_split hi).sublist ((List.Sublist.refl _).append (hkeys.append_right _))
  · rw [hmails]
    exact h.mails_split hi

/-- A monitor ends, and so does its transaction. -/
theorem Inv.erase {failedMails : List (Mail D)} {returned : List (List Failed)} (h : Inv sha1 s)
    (hi : s.monitors[i]? = some monitor)
    (hmails : failedMails = s.failedMails ++ monitor.pendingMails sha1)
    (hreturned : ∀ failures ∈ returned, ∀ failed ∈ failures, Covered sha1 s.store.records failed) :
    Inv sha1 ⟨s.store, s.monitors.eraseIdx i, s.mails, failedMails, returned⟩ := by
  refine ⟨h.store, ?_, h.others hi (.refl _) (List.nil_subset _), ?_, hreturned⟩
  · exact h.keys.sublist (OpenTransactions.keys_sublist_rollback Monitor.pendingKeys _ i)
  · rw [hmails, List.append_assoc]
    exact h.mails_split hi

theorem pendingMails_of_call (hcall : monitor.call = some call) :
    monitor.pendingMails sha1 = call.pendingMails sha1 := by
  rw [Monitor.pendingMails, hcall, Option.toList_some, List.flatMap_singleton]

theorem pendingMails_of_phase {phase : Phase D} (hcall : monitor.call = some call)
    (hphase : call.phase = phase) :
    monitor.pendingMails sha1 = Call.pendingMails sha1 ⟨call.failed, phase⟩ := by
  rw [pendingMails_of_call hcall, ← hphase]

/-- What becomes of the store while all monitors wait. -/
theorem Inv.setStore (h : Inv sha1 s) (hadv : s.store.Advances store' []) (hstore : StoreInv store')
    (htable : store'.table.Sublist s.store.table) (hrecords : store'.records = s.store.records) :
    Inv sha1 { s with store := store' } := by
  refine ⟨hstore, ?_, fun other hother => ?_, ?_, fun failures hfailures failed hfailed => ?_⟩
  · exact h.keys.sublist ((htable.map _).append (List.Sublist.refl _))
  · exact (h.monitors other hother).advance hadv fun key hkey => absurd hkey List.not_mem_nil
  · rw [hrecords]
    exact h.mails
  · exact (h.returned failures hfailures failed hfailed).mono hadv.records

theorem dispatch_inv (h : Inv sha1 s) (hi : s.monitors[i]? = some monitor)
    (hcall : monitor.call = some call) (hphase : call.phase = .dispatch insertedAt) :
    Inv sha1 (s.dispatch sha1 i insertedAt monitor call) := by
  have hmonitor := h.monitors monitor (List.mem_of_getElem? hi)
  have hinv := (hmonitor.call call hcall).phase
  rw [hphase] at hinv
  have hkeys := h.keys_split hi
  refine h.set hi (.refl _) (List.nil_subset _) h.store hkeys ?_ ?_
  · exact hmonitor.setCall hcall rfl ⟨hinv.1, hinv.2.1, le_refl _, hinv.2.2⟩
  · have hsplit := h.mails_split hi
    rw [pendingMails_of_phase hcall hphase] at hsplit
    refine (hsplit.append_right _).trans ?_
    rw [List.append_assoc, List.append_assoc]
    exact (List.perm_append_comm.append_left _).append_left _

theorem commit_inv (h : Inv sha1 s) (hi : s.monitors[i]? = some monitor)
    (hcall : monitor.call = some call) (hphase : call.phase = .commit insertedAt sentAt)
    (hrow : monitor.transaction = some row) (answered : Bool) :
    Inv sha1 (s.commit i answered row insertedAt sentAt monitor call) := by
  have hmonitor := h.monitors monitor (List.mem_of_getElem? hi)
  have hinv := hmonitor.call call hcall
  have hcommit := hinv.phase
  rw [hphase] at hcommit
  obtain ⟨hfresh, hsent, hclock, hholds⟩ := hcommit
  have hholds := hholds row hrow
  have hadv := commit_advances s.store row insertedAt sentAt
  have hfree : MonitorInv sha1 (s.store.commit row insertedAt sentAt)
      { monitor with transaction := none } :=
    hmonitor.rollback.advance hadv fun _ _ hmem => absurd hmem List.not_mem_nil
  refine h.set hi hadv ?_ (h.store.commit hholds hsent hclock) ?_ ?_ ?_
  · rw [Monitor.pendingKeys, hrow]
    exact List.Subset.refl _
  · have hsplit := h.keys_split hi
    rw [Monitor.pendingKeys, hrow] at hsplit
    dsimp only [Store.commit]
    rw [List.map_append, List.append_assoc]
    exact hsplit
  · cases answered with
    | true => exact hfree.endCall hcall rfl (covered_commit hholds.key hinv.time)
    | false => exact hfree.setCall hcall rfl ⟨rfl, hfresh.advance hadv hinv.time⟩
  · have hsplit := h.mails_split hi
    rw [pendingMails_of_phase hcall hphase, Call.pendingMails, ← hholds.key] at hsplit
    have hmails : Monitor.pendingMails sha1 { monitor with
        call := if answered = true then none else some ⟨call.failed, .ready⟩
        transaction := none } = [] := by
      cases answered <;> rfl
    dsimp only [Store.commit]
    rw [hmails, List.map_append, List.append_assoc]
    exact hsplit.trans (List.perm_middle.append_left _)

theorem retry_inv (h : Inv sha1 s) (hi : s.monitors[i]? = some monitor)
    (hcall : monitor.call = some call) (hphase : call.phase.inTransaction = true) :
    Inv sha1 ((s.fail sha1 monitor).setMonitor i { monitor with
      call := some ⟨call.failed, .ready⟩
      transaction := none }) := by
  have hmonitor := h.monitors monitor (List.mem_of_getElem? hi)
  have hinv := (hmonitor.call call hcall).phase
  refine h.set hi (.refl _) (List.nil_subset _) h.store ?_ ?_ ?_
  · exact (h.keys_split hi).sublist
      ((List.Sublist.refl _).append (List.sublist_append_right _ _))
  · exact hmonitor.setCall hcall rfl ⟨rfl, hinv.fresh hphase⟩
  · dsimp only [Monitoring.fail]
    rw [List.append_assoc]
    exact h.mails_split hi

theorem cleanUp_inv {cutoffDate : ℤ} (h : Inv sha1 s) (hi : s.monitors[i]? = some monitor)
    (hcall : monitor.call = some call) (hphase : call.phase = .cleanUp cutoffDate)
    (answered : Bool) :
    Inv sha1 ({ s with store := s.store.cleanupOldNotifications cutoffDate }.setMonitor i
      { monitor with
        call := some ⟨call.failed, if answered = true then .ready else .cleanUp cutoffDate⟩ }) := by
  have hinv := ((h.monitors monitor (List.mem_of_getElem? hi)).call call hcall).phase
  rw [hphase] at hinv
  obtain ⟨hnone, hpast, hcutoff⟩ := hinv
  have hstore := h.setStore (cleanup_advances cutoffDate) (h.store.cleanup hpast)
    List.filter_sublist rfl
  have hmonitor := hstore.monitors monitor (List.mem_of_getElem? hi)
  refine hstore.setMonitor hi (hmonitor.setCall hcall rfl ?_) (List.Sublist.refl _) ?_
  · cases answered with
    | true => exact ⟨hnone, fresh_cleanup h.store hcutoff⟩
    | false => exact ⟨hnone, hpast, hcutoff⟩
  · rw [pendingMails_of_phase hcall hphase]
    cases answered <;> rfl

/-- A check that raises begins a call. -/
theorem check_inv {checkFn : String} {checks : List String} {failures : List Failed}
    (h : Inv sha1 s) (hi : s.monitors[i]? = some ⟨checkFn :: checks, failures, none, none⟩)
    (raised : Option (String × String)) : Inv sha1 (s.check i raised checkFn checks failures) := by
  have hmonitor := h.monitors _ (List.mem_of_getElem? hi)
  cases raised with
  | none => exact h.setMonitor hi ⟨hmonitor.failures, hmonitor.call, hmonitor.idle⟩ (.refl _) rfl
  | some raised =>
    refine h.setMonitor hi ⟨fun failed hmem => ?_, fun call hcall => ?_, fun _ => rfl⟩ (.refl _) rfl
    · rcases List.mem_append.mp hmem with hold | hnew
      · exact Or.inr ((hmonitor.failures failed hold).resolve_left (Option.not_mem_none failed))
      · rw [List.mem_singleton.mp hnew]
        exact Or.inl rfl
    · rw [← Option.some.inj hcall]
      exact ⟨le_refl _, rfl⟩

theorem init_inv (h : s.init) : Inv sha1 s := by
  obtain ⟨htable, hrecords, hmonitors, hmails, hfailed, hreturned⟩ := h
  refine ⟨⟨?_, ?_, ?_, ?_, ?_⟩, ?_, ?_, ?_, ?_⟩
  all_goals simp [htable, hrecords, hmonitors, hmails, hfailed, hreturned]

variable [DecidableEq D]

theorem insert_inv (h : Inv sha1 s) (hi : s.monitors[i]? = some monitor)
    (hcall : monitor.call = some call) (hphase : call.phase = .insert row)
    (hinsert : s.insert i row monitor call = some t) : Inv sha1 t := by
  have hmonitor := h.monitors monitor (List.mem_of_getElem? hi)
  have hinv := (hmonitor.call call hcall).phase
  rw [hphase] at hinv
  obtain ⟨hnone, hfresh, htimestamp, hkey⟩ := hinv
  rw [Monitoring.insert] at hinsert
  split at hinsert
  · cases hinsert
  · next hfree =>
    split at hinsert
    · next hmem =>
      rw [← Option.some.inj hinsert]
      refine h.setMonitor hi (hmonitor.setCall hcall rfl ?_) (List.Sublist.refl _) ?_
      · exact ⟨hnone, hfresh, hfresh.covered (hkey ▸ hmem)⟩
      · rw [pendingMails_of_phase hcall hphase]
        rfl
    · next hmem =>
      rw [← Option.some.inj hinsert]
      refine h.set hi (.refl _) (List.nil_subset _) h.store ?_ (hmonitor.setCall hcall rfl ?_) ?_
      · have hsplit := h.keys_split hi
        rw [Monitor.pendingKeys, hnone] at hsplit
        have hrest : row.key ∉ (s.monitors.eraseIdx i).flatMap Monitor.pendingKeys :=
          fun hrest => hfree (((List.eraseIdx_sublist _ i).flatMap _).subset hrest)
        have hnodup : (row.key :: (s.store.table.map Row.key ++
            (s.monitors.eraseIdx i).flatMap Monitor.pendingKeys)).Nodup :=
          List.nodup_cons.mpr ⟨fun hboth => (List.mem_append.mp hboth).elim hmem hrest, hsplit⟩
        exact List.perm_middle.nodup_iff.mpr hnodup
      · refine ⟨hfresh, le_refl _, fun row' hrow => ?_⟩
        rw [← Option.some.inj hrow]
        exact ⟨hkey, htimestamp, h.store.apart hmem⟩
      · have hsplit := h.mails_split hi
        rw [pendingMails_of_phase hcall hphase] at hsplit
        exact hsplit

theorem step_inv {a : Action} (h : Inv sha1 s) (hi : s.monitors[i]? = some monitor)
    (hcall : monitor.call = some call) (hstep : s.step sha1 i monitor call a = some t) :
    Inv sha1 t := by
  have hmonitor := h.monitors monitor (List.mem_of_getElem? hi)
  have hinv := hmonitor.call call hcall
  have hphase := hinv.phase
  cases a with
  | cutoff i =>
    simp only [Monitoring.step] at hstep
    split at hstep
    · next hfailed =>
      rw [← Option.some.inj hstep]
      rw [hfailed] at hphase
      refine h.setMonitor hi (hmonitor.setCall hcall rfl ⟨hphase, ?_, ?_⟩) (List.Sublist.refl _) ?_
      · omega
      · have htime := hinv.time
        omega
      · rw [pendingMails_of_phase hcall hfailed]
        rfl
    · cases hstep
  | cleanUp i answered =>
    simp only [Monitoring.step] at hstep
    split at hstep
    · next cutoffDate hcleanUp =>
      rw [← Option.some.inj hstep]
      exact cleanUp_inv h hi hcall hcleanUp answered
    · cases hstep
  | prepare i =>
    simp only [Monitoring.step] at hstep
    split at hstep
    · next hready =>
      rw [← Option.some.inj hstep]
      rw [hready] at hphase
      refine h.setMonitor hi (hmonitor.setCall hcall rfl ⟨hphase.1, hphase.2, le_refl _, rfl⟩)
        (List.Sublist.refl _) ?_
      rw [pendingMails_of_phase hcall hready]
      rfl
    · cases hstep
  | insert i =>
    simp only [Monitoring.step] at hstep
    split at hstep
    · next row hinsert => exact insert_inv h hi hcall hinsert hstep
    · cases hstep
  | dispatch i =>
    simp only [Monitoring.step] at hstep
    split at hstep
    · next insertedAt hdispatch =>
      rw [← Option.some.inj hstep]
      exact dispatch_inv h hi hcall hdispatch
    · cases hstep
  | commit i answered =>
    simp only [Monitoring.step] at hstep
    split at hstep
    · next insertedAt sentAt row hcommit hrow =>
      rw [← Option.some.inj hstep]
      exact commit_inv h hi hcall hcommit hrow answered
    · cases hstep
  | ignore i =>
    simp only [Monitoring.step] at hstep
    split at hstep
    · next hduplicate =>
      rw [← Option.some.inj hstep]
      rw [hduplicate] at hphase
      refine h.setMonitor hi (hmonitor.endCall hcall hphase.1 hphase.2.2) (List.Sublist.refl _) ?_
      rw [pendingMails_of_phase hcall hduplicate]
      rfl
    · cases hstep
  | retry i =>
    simp only [Monitoring.step] at hstep
    split at hstep
    · next hretry =>
      rw [← Option.some.inj hstep]
      exact retry_inv h hi hcall hretry
    · cases hstep
  | _ => cases hstep

theorem stepMonitor_inv {a : Action} (h : Inv sha1 s) (hstep : s.stepMonitor sha1 i a = some t) :
    Inv sha1 t := by
  rw [Monitoring.stepMonitor, Option.bind_eq_some_iff] at hstep
  obtain ⟨monitor, hi, hstep⟩ := hstep
  obtain ⟨call, hcall, hstep⟩ := Option.bind_eq_some_iff.mp hstep
  exact step_inv h hi hcall hstep

theorem act_inv {a : Action} (h : Inv sha1 s) (hact : Monitoring.act sha1 a s = some t) :
    Inv sha1 t := by
  cases a with
  | tick now =>
    simp only [Monitoring.act] at hact
    split at hact
    · next hnow =>
      rw [← Option.some.inj hact]
      exact h.setStore (tick_advances hnow) (h.store.tick hnow) (List.Sublist.refl _) rfl
    · cases hact
  | checkAll checks =>
    rw [← Option.some.inj hact]
    refine ⟨h.store, ?_, fun monitor hmonitor => ?_, ?_, h.returned⟩
    · have hnone : Monitor.pendingKeys (⟨checks, [], none, none⟩ : Monitor D) = [] := rfl
      dsimp only
      rw [List.flatMap_append, List.flatMap_singleton, hnone, List.append_nil]
      exact h.keys
    · rcases List.mem_append.mp hmonitor with hold | hnew
      · exact h.monitors monitor hold
      · rw [List.mem_singleton.mp hnew]
        exact ⟨fun _ hmem => absurd hmem List.not_mem_nil,
          fun _ hcall => absurd hcall (Option.not_mem_none _), fun _ => rfl⟩
    · have hnone : Monitor.pendingMails sha1 (⟨checks, [], none, none⟩ : Monitor D) = [] := rfl
      dsimp only
      rw [List.flatMap_append, List.flatMap_singleton, hnone, List.append_nil]
      exact h.mails
  | check i raised =>
    simp only [Monitoring.act] at hact
    split at hact
    · next hi =>
      rw [← Option.some.inj hact]
      exact check_inv h hi raised
    · cases hact
  | rollback i =>
    obtain ⟨monitor, hi, rfl⟩ := Option.map_eq_some_iff.mp hact
    exact h.setMonitor hi (h.monitors monitor (List.mem_of_getElem? hi)).rollback
      (List.nil_sublist _) rfl
  | raise i =>
    obtain ⟨monitor, hi, rfl⟩ := Option.map_eq_some_iff.mp hact
    exact h.erase hi rfl h.returned
  | finish i =>
    simp only [Monitoring.act] at hact
    split at hact
    · next failures hi =>
      rw [← Option.some.inj hact]
      have hmonitor := h.monitors _ (List.mem_of_getElem? hi)
      refine h.erase hi (List.append_nil _).symm fun failures' hmem => ?_
      rcases List.mem_append.mp hmem with hold | hnew
      · exact h.returned failures' hold
      · rw [List.mem_singleton.mp hnew]
        intro failed hfailed
        exact (hmonitor.failures failed hfailed).resolve_left (Option.not_mem_none failed)
    · cases hact
  | clearAll =>
    rw [← Option.some.inj hact]
    exact h.setStore (clear_advances h.store) h.store.clear (List.nil_sublist _) rfl
  | _ => exact stepMonitor_inv h hact

theorem inv_of_run {tr : List (Monitoring D × Action)} (h : Run (Monitoring.system sha1) tr s) :
    Inv sha1 s :=
  h.reachable.invariant (I := Inv sha1) (fun _ => init_inv) fun _ _ _ _ hinv hact => act_inv hinv hact

/-! ### What is mailed -/

/-- Two monitors find the model late, and one of them mails it. -/
def lateActions : List Action :=
  [.checkAll ["checkAllModelLatency"], .checkAll ["checkAllModelLatency"],
    .check 0 (some ("LatencyMonitorError", "Model latency exceeded")),
    .check 1 (some ("LatencyMonitorError", "Model latency exceeded")),
    .cutoff 0, .cutoff 1, .cleanUp 0 true, .cleanUp 1 true, .prepare 0, .prepare 1, .insert 0,
    .dispatch 0, .commit 0 true, .insert 1, .ignore 1, .finish 0, .finish 0]

/-- The same after the retention period, with a commit that is lost and one that is not answered. -/
def laterActions : List Action :=
  [.tick 604801, .checkAll ["checkAllModelLatency"],
    .check 0 (some ("LatencyMonitorError", "Model latency exceeded")), .cutoff 0, .cleanUp 0 true,
    .prepare 0, .insert 0, .dispatch 0, .rollback 0, .retry 0, .prepare 0, .insert 0, .dispatch 0,
    .commit 0 false, .prepare 0, .insert 0, .ignore 0, .finish 0]

def exampleSha1 : String → String := fun _ => "f09e6cbdda0292a5304a68288233547992fef1a8"

def exampleMonitoring : Monitoring String := ⟨⟨0, [], [], 0⟩, [], [], [], []⟩

/-- The first failure is mailed once for both monitors; of the second one, the first mail is not
recorded. -/
theorem laterActions_run : ∃ (s : Monitoring String) (tr : List (Monitoring String × Action)),
    Run (Monitoring.system exampleSha1) tr s ∧ s.returned.map List.length = [1, 1, 1] ∧
      s.store.records.length = 2 ∧ s.mails.map Mail.sentAt = [0, 604801, 604801] ∧
        s.failedMails.length = 1 := by
  have hlate : ((Monitoring.system exampleSha1).exec (lateActions ++ laterActions)
      exampleMonitoring).map (fun s => (s.returned.map List.length, s.store.records.length,
        s.mails.map Mail.sentAt, s.failedMails.length)) =
      some ([1, 1, 1], 2, [0, 604801, 604801], 1) := by
    decide +kernel
  obtain ⟨s, hexec, hs⟩ := Option.map_eq_some_iff.mp hlate
  have hinit : (Monitoring.system exampleSha1).init exampleMonitoring := ⟨rfl, rfl, rfl, rfl, rfl, rfl⟩
  simp only [Prod.mk.injEq] at hs
  exact ⟨s, _, (Run.init hinit).exec_trace hexec, hs⟩

/-- Of one key, the table has one row at most. Of what was recorded of it, unless the table was
cleared in between, the later was mailed after the retention period of the earlier. Every mail was
recorded, or its transaction failed or is not at its end. -/
theorem failures_throttled {tr : List (Monitoring D × Action)}
    (h : Run (Monitoring.system sha1) tr s) :
    (s.store.table.map Row.key).Nodup ∧
      (s.store.records.Pairwise fun record record' => record.row.key = record'.row.key →
        record.clears = record'.clears →
          record.row.timestamp + notificationRetentionPeriod < record'.sentAt) ∧
        s.mails.Perm (s.store.records.map Record.mail ++
          (s.failedMails ++ s.monitors.flatMap (Monitor.pendingMails sha1))) := by
  have hinv := inv_of_run h
  refine ⟨(List.nodup_append.mp hinv.keys).1, ?_, hinv.mails⟩
  refine hinv.store.throttled.imp_of_mem ?_
  intro record record' _ hrecord' hthrottled hkey hclears
  exact Int.lt_of_lt_of_le (hthrottled hkey hclears) (hinv.store.timed record' hrecord').sent

theorem failures_throttled_late : ∃ s : Monitoring String,
    (s.mails.map Mail.sentAt = [0, 604801, 604801] ∧ s.failedMails.length = 1) ∧
      (s.store.table.map Row.key).Nodup ∧
        (s.store.records.Pairwise fun record record' => record.row.key = record'.row.key →
          record.clears = record'.clears →
            record.row.timestamp + notificationRetentionPeriod < record'.sentAt) ∧
          s.mails.Perm (s.store.records.map Record.mail ++
            (s.failedMails ++ s.monitors.flatMap (Monitor.pendingMails exampleSha1))) := by
  obtain ⟨s, tr, hrun, -, -, hmails, hfailed⟩ := laterActions_run
  exact ⟨s, ⟨hmails, hfailed⟩, failures_throttled hrun⟩

end NumentaApps.TaurusMonitoring
