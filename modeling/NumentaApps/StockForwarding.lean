import NumentaApps.MonotoneConsumer
import NumentaApps.XigniteStockAgent
import Mathlib.Data.List.Pairwise

/-!
# Forwarding of stock data

The bars of a symbol are stored in order, sent before they are marked, and sent in order but for what
is sent again after a failure; a receiver that drops what is not newer gets each of them.
-/
namespace NumentaApps.Xignite
open TransitionSystem MonotoneConsumer

namespace StockAgent

variable {eastern : EasternTime} {options : Options} {agent : StockAgent}

/-! ### Bars -/

/-- A bar that starts in market hours and ends after it starts, in the day. -/
structure Valid (eastern : EasternTime) (bar : Bar) : Prop where
  start_open : naiveMarketOpenTime ≤ timeOfDay bar.key.start
  start_close : timeOfDay bar.key.start < naiveMarketCloseTime
  stop_open : naiveMarketOpenTime ≤ timeOfDay bar.key.stop
  lasts : eastern.localize bar.key.start < eastern.localize bar.key.stop
  behind : eastern.localize bar.key.stop ≤ bar.key.stop + secondsPerDay

def Earlier (eastern : EasternTime) (bar bar' : Bar) : Prop :=
  eastern.localize bar.key.stop ≤ eastern.localize bar'.key.start

theorem Valid.not_earlier {bar : Bar} (h : Valid eastern bar) : ¬ Earlier eastern bar bar :=
  fun hearlier => absurd h.lasts (Int.not_lt.mpr hearlier)

theorem Valid.epoch_lt {bar bar' : Bar} (h : Valid eastern bar) (hearlier : Earlier eastern bar bar') :
    epochTimestamp eastern bar < epochTimestamp eastern bar' :=
  Int.lt_of_lt_of_le h.lasts hearlier

/-- Ends on the clock of the exchange are in the order of the instants. -/
theorem stop_lt_of_earlier {bar bar' : Bar} (h : Valid eastern bar) (h' : Valid eastern bar')
    (hearlier : Earlier eastern bar bar') : bar.key.stop < bar'.key.stop := by
  have hinstants : eastern.localize bar.key.stop < eastern.localize bar'.key.stop :=
    Int.lt_of_le_of_lt hearlier h'.lasts
  rcases Int.lt_trichotomy bar.key.stop bar'.key.stop with hlt | heq | hgt
  · exact hlt
  · rw [heq] at hinstants
    exact absurd hinstants (Int.lt_irrefl _)
  · have hback := eastern.localize_lt _ _ h'.stop_open h.stop_open hgt
    exact absurd hinstants (Int.not_lt.mpr (Int.le_of_lt hback))

theorem barOf_valid {sample : Sample} (hhours : InMarketHours eastern sample)
    (hlasts : sample.startTimestamp < sample.stopTimestamp)
    (hstop : naiveMarketOpenTime ≤ timeOfDay (eastern.ofUtc sample.stopTimestamp)) :
    Valid eastern (barOf eastern sample) := by
  refine ⟨hhours.1, hhours.2, hstop, ?_, ?_⟩
  · simp only [barOf, eastern.localize_ofUtc _ hhours.1, eastern.localize_ofUtc _ hstop]
    exact hlasts
  · simp only [barOf, eastern.localize_ofUtc _ hstop]
    exact (eastern.behind _).2

theorem getLatestSample_concat_none {bars : List Bar} (h : getLatestSample bars = none) (bar : Bar) :
    getLatestSample (bars ++ [bar]) = some bar := by
  rw [getLatestSample] at h ⊢
  rw [List.foldl_append, List.foldl_cons, List.foldl_nil, h]

theorem getLatestSample_concat_some {bars : List Bar} {last : Bar}
    (h : getLatestSample bars = some last) (bar : Bar) : getLatestSample (bars ++ [bar]) =
      if last.key.stop < bar.key.stop then some bar else some last := by
  rw [getLatestSample] at h ⊢
  rw [List.foldl_append, List.foldl_cons, List.foldl_nil, h]

theorem mem_of_getLatestSample {bars : List Bar} {last : Bar}
    (h : getLatestSample bars = some last) : last ∈ bars := by
  induction bars using List.reverseRecOn generalizing last with
  | nil => cases h
  | append_singleton bars bar ih =>
    cases hlatest : getLatestSample bars with
    | none =>
      rw [getLatestSample_concat_none hlatest] at h
      exact List.mem_append_right _ (List.mem_singleton.mpr (Option.some.inj h).symm)
    | some last' =>
      rw [getLatestSample_concat_some hlatest] at h
      split at h
      · exact List.mem_append_right _ (List.mem_singleton.mpr (Option.some.inj h).symm)
      · exact List.mem_append_left _ (Option.some.inj h ▸ ih hlatest)

/-- The latest of ordered bars is the last one. -/
theorem getLatestSample_append {bars : List Bar} {bar : Bar}
    (h : ∀ b ∈ bars, b.key.stop < bar.key.stop) : getLatestSample (bars ++ [bar]) = some bar := by
  cases hlatest : getLatestSample bars with
  | none => exact getLatestSample_concat_none hlatest bar
  | some last =>
    rw [getLatestSample_concat_some hlatest, if_pos (h last (mem_of_getLatestSample hlatest))]

theorem pairwise_comparable {α : Type} {R : α → α → Prop} {l : List α} {x y : α} (h : l.Pairwise R)
    (hx : x ∈ l) (hy : y ∈ l) (hne : x ≠ y) : R x y ∨ R y x := by
  have hsymm : Std.Symm fun a b => R a b ∨ R b a := ⟨fun _ _ => Or.symm⟩
  have hboth : l.Pairwise fun a b => R a b ∨ R b a := h.imp Or.inl
  exact hboth.forall hx hy hne

/-- What precedes one part of a list, and what does not, moved to its front. -/
theorem pairwise_partition {α : Type} {R : α → α → Prop} {l : List α} (p : α → Bool)
    (h : l.Pairwise R) (hmove : ∀ x ∈ l, ∀ y ∈ l, p x = true → p y = false → ¬ R y x) :
    (l.filter p ++ l.filter fun x => !p x).Pairwise R := by
  refine List.pairwise_append.mpr
    ⟨h.sublist List.filter_sublist, h.sublist List.filter_sublist, fun x hx y hy => ?_⟩
  obtain ⟨hx, hpx⟩ := List.mem_filter.mp hx
  obtain ⟨hy, hpy⟩ := List.mem_filter.mp hy
  have hpy' : p y = false := Bool.not_eq_true' _ |>.mp hpy
  have hne : x ≠ y := by
    intro heq
    rw [heq, hpy'] at hpx
    cases hpx
  rcases pairwise_comparable h hx hy hne with hxy | hyx
  · exact hxy
  · exact absurd hyx (hmove x hx y hy hpx hpy')

/-! ### The tables -/

/-- All bars that were stored. -/
def ever (agent : StockAgent) : List Bar := agent.purged ++ agent.bars

structure TableInv (eastern : EasternTime) (agent : StockAgent) : Prop where
  valid : ∀ bar ∈ agent.ever, Valid eastern bar
  ordered : agent.ever.Pairwise (Earlier eastern)
  old : ∀ bar ∈ agent.purged,
    eastern.localize bar.key.stop + (retainDays - 1) * secondsPerDay ≤ agent.clock

/-- What is marked was sent; a receiver that drops what is not newer keeps all that was sent, and no
sample is sent more often than processes were given up and once more. -/
structure SentInv (eastern : EasternTime) (agent : StockAgent) : Prop where
  marked : ∀ key, ∀ barKey ∈ agent.marked key, ∃ bar ∈ agent.sent key, bar.key = barKey
  ever : ∀ key, ∀ bar ∈ agent.sent key, bar ∈ agent.ever
  kept : ∀ key, ∀ bar ∈ agent.sent key, bar ∈ keep (epochTimestamp eastern) (agent.sent key)
  counts : ∀ key bar, (agent.sent key).count bar ≤ agent.aborts + 1

/-- Bars that have not been sent are later than those that have. -/
def FreshLater (eastern : EasternTime) (options : Options) (todo : List (SampleKey × Bar))
    (agent : StockAgent) : Prop :=
  ∀ key ∈ options.specs, ∀ bar ∈ agent.sent key, ∀ fresh, fresh ∈ agent.bars ∨ (key, fresh) ∈ todo →
    fresh ∉ agent.sent key → Earlier eastern bar fresh

/-- Nothing is being sent. -/
structure Idle (eastern : EasternTime) (options : Options) (agent : StockAgent) : Prop where
  freshLater : FreshLater eastern options [] agent
  counts : ∀ key ∈ options.specs, ∀ bar ∈ agent.bars, bar.key ∉ agent.marked key →
    (agent.sent key).count bar ≤ agent.aborts

/-- The samples of each metric in their order. -/
def Ordered (eastern : EasternTime) (samples : List (SampleKey × Bar)) : Prop :=
  samples.Pairwise fun sample sample' => sample.1 = sample'.1 → Earlier eastern sample.2 sample'.2

/-- What is still to be sent, and what is then still to be marked. -/
structure Transmission (eastern : EasternTime) (options : Options) (agent : StockAgent)
    (todo unmarked : List (SampleKey × Bar)) : Prop where
  todo_ordered : Ordered eastern todo
  unmarked_ordered : Ordered eastern unmarked
  ever : ∀ sample ∈ unmarked, sample.2 ∈ agent.ever
  todo_unmarked : ∀ sample ∈ todo, sample ∈ unmarked ∧ sample.1 ∈ options.specs
  freshLater : FreshLater eastern options todo agent
  unsent : ∀ key ∈ options.specs, ∀ bar ∈ agent.bars, bar ∉ agent.sent key → (key, bar) ∈ todo
  counts : ∀ sample ∈ todo, (agent.sent sample.1).count sample.2 ≤ agent.aborts
  sent : ∀ sample ∈ unmarked, sample.2 ∈ agent.sent sample.1 ∨ sample ∈ todo
  marked : ∀ key ∈ options.specs, ∀ bar ∈ agent.bars,
    bar.key ∈ agent.marked key ∨ (key, bar) ∈ unmarked

/-- Samples that wait to be stored are in order, and after those that are stored. -/
structure Waiting (eastern : EasternTime) (agent : StockAgent) (samples : List Sample) : Prop where
  ordered : (samples.filter fun sample => InMarketHours eastern sample).Pairwise
    fun sample sample' => sample.stopTimestamp ≤ sample'.startTimestamp
  valid : ∀ sample ∈ samples, InMarketHours eastern sample →
    sample.startTimestamp < sample.stopTimestamp ∧
      naiveMarketOpenTime ≤ timeOfDay (eastern.ofUtc sample.stopTimestamp)
  later : ∀ sample ∈ samples, InMarketHours eastern sample →
    ∀ bar ∈ agent.ever, eastern.localize bar.key.stop ≤ sample.startTimestamp

/-- What is still to be sent, and what is still to be marked, while a transmission is under way. -/
def pending (specs : List SampleKey) :
    Option Process → Option (List (SampleKey × Bar) × List (SampleKey × Bar))
  | some (.selected rows) => some (samplesOf specs rows, samplesOf specs rows)
  | some (.sending chunk todo rows) => some (todo ++ samplesOf specs rows, chunk ++ samplesOf specs rows)
  | some (.marking todo rows) => some (samplesOf specs rows, todo ++ samplesOf specs rows)
  | _ => none

/-- The samples that are still to be stored. -/
def waiting : Option Process → List Sample
  | some (.polled samples) => samples
  | some (.buffering samples _) => samples
  | _ => []

def InPhase (eastern : EasternTime) (options : Options) (agent : StockAgent) :
    Option (List (SampleKey × Bar) × List (SampleKey × Bar)) → Prop
  | none => Idle eastern options agent
  | some (todo, unmarked) => Transmission eastern options agent todo unmarked

structure Inv (eastern : EasternTime) (options : Options) (agent : StockAgent) : Prop where
  table : TableInv eastern agent
  sent : SentInv eastern agent
  waiting : Waiting eastern agent (waiting agent.process)
  phase : InPhase eastern options agent (pending options.specs agent.process)

theorem TableInv.bar_valid {bar : Bar} (h : TableInv eastern agent) (hbar : bar ∈ agent.bars) :
    Valid eastern bar :=
  h.valid bar (List.mem_append_right _ hbar)

theorem TableInv.bars_ordered (h : TableInv eastern agent) : agent.bars.Pairwise (Earlier eastern) :=
  (List.pairwise_append.mp h.ordered).2.1

/-- No two bars have one key. -/
theorem TableInv.key_injective {bar bar' : Bar} (h : TableInv eastern agent) (hbar : bar ∈ agent.ever)
    (hbar' : bar' ∈ agent.ever) (hkey : bar.key = bar'.key) : bar = bar' := by
  by_contra hne
  have hlasts := (h.valid bar hbar).lasts
  rcases pairwise_comparable h.ordered hbar hbar' hne with hearlier | hearlier
  · rw [Earlier, ← hkey] at hearlier
    omega
  · rw [Earlier, ← hkey] at hearlier
    omega

/-- A mark is of the bar with its key. -/
theorem SentInv.sent_of_marked {key : SampleKey} {bar : Bar} (h : SentInv eastern agent)
    (htable : TableInv eastern agent) (hbar : bar ∈ agent.ever) (hmarked : bar.key ∈ agent.marked key) :
    bar ∈ agent.sent key := by
  obtain ⟨bar', hsent, hkey⟩ := h.marked key bar.key hmarked
  rw [← htable.key_injective (h.ever key bar' hsent) hbar hkey]
  exact hsent

/-! ### Other steps -/

theorem TableInv.congr {agent' : StockAgent} (h : TableInv eastern agent)
    (hpurged : agent'.purged = agent.purged) (hbars : agent'.bars = agent.bars)
    (hclock : agent.clock ≤ agent'.clock) : TableInv eastern agent' := by
  have hever : agent'.ever = agent.ever := by rw [StockAgent.ever, StockAgent.ever, hpurged, hbars]
  refine ⟨hever ▸ h.valid, hever ▸ h.ordered, fun bar hbar => ?_⟩
  rw [hpurged] at hbar
  exact Int.le_trans (h.old bar hbar) hclock

theorem InPhase.withProcess {process : Option Process}
    {samples : Option (List (SampleKey × Bar) × List (SampleKey × Bar))}
    (h : InPhase eastern options agent samples) :
    InPhase eastern options { agent with process := process } samples := by
  cases samples with
  | none => exact ⟨h.freshLater, h.counts⟩
  | some samples =>
    exact ⟨h.todo_ordered, h.unmarked_ordered, h.ever, h.todo_unmarked, h.freshLater, h.unsent,
      h.counts, h.sent, h.marked⟩

/-- The process goes on with what it had. -/
theorem Inv.withProcess {process : Option Process} (h : Inv eastern options agent)
    (hwaiting : Waiting eastern agent (StockAgent.waiting process))
    (hphase : InPhase eastern options agent (pending options.specs process)) :
    Inv eastern options { agent with process := process } :=
  ⟨h.table.congr rfl rfl Int.le_rfl, ⟨h.sent.marked, h.sent.ever, h.sent.kept, h.sent.counts⟩,
    ⟨hwaiting.ordered, hwaiting.valid, hwaiting.later⟩, hphase.withProcess⟩

theorem Waiting.nil : Waiting eastern agent [] :=
  ⟨.nil, fun _ h => absurd h List.not_mem_nil, fun _ h => absurd h List.not_mem_nil⟩

/-- Later bars are not sent before earlier ones, whatever was being sent. -/
theorem freshLater_of_inPhase {samples : Option (List (SampleKey × Bar) × List (SampleKey × Bar))}
    (h : InPhase eastern options agent samples) : FreshLater eastern options [] agent := by
  cases samples with
  | none => exact Idle.freshLater h
  | some samples =>
    intro key hkey bar hsent fresh hfresh hunsent
    refine Transmission.freshLater h key hkey bar hsent fresh ?_ hunsent
    exact hfresh.imp id fun hmem => absurd hmem List.not_mem_nil

theorem abort_inv (h : Inv eastern options agent) : Inv eastern options agent.abort := by
  have hfresh := freshLater_of_inPhase h.phase
  refine ⟨h.table.congr rfl rfl Int.le_rfl, ⟨h.sent.marked, h.sent.ever, h.sent.kept, ?_⟩, Waiting.nil,
    hfresh, ?_⟩
  · intro key bar
    exact Nat.le_trans (h.sent.counts key bar) (Nat.le_succ _)
  · intro key _ bar _ _
    exact h.sent.counts key bar

theorem tick_inv {now : ℤ} (h : Inv eastern options agent) (hnow : agent.clock ≤ now) :
    Inv eastern options { agent with clock := now } := by
  refine ⟨h.table.congr rfl rfl hnow, ⟨h.sent.marked, h.sent.ever, h.sent.kept, h.sent.counts⟩,
    ⟨h.waiting.ordered, h.waiting.valid, h.waiting.later⟩, ?_⟩
  have hphase := h.phase
  change InPhase eastern options _ (pending options.specs agent.process)
  cases hsamples : pending options.specs agent.process with
  | none =>
    rw [hsamples] at hphase
    exact ⟨hphase.freshLater, hphase.counts⟩
  | some samples =>
    rw [hsamples] at hphase
    exact ⟨hphase.todo_ordered, hphase.unmarked_ordered, hphase.ever, hphase.todo_unmarked,
      hphase.freshLater, hphase.unsent, hphase.counts, hphase.sent, hphase.marked⟩

/-! ### Purging -/

theorem mem_ever_purge {bar : Bar} : bar ∈ (agent.purgeOldRecords eastern).ever ↔ bar ∈ agent.ever := by
  simp only [StockAgent.ever, purgeOldRecords, List.mem_append, List.mem_filter]
  cases isOld eastern agent.clock bar <;> simp

theorem mem_bars_of_purge {bar : Bar} (h : bar ∈ (agent.purgeOldRecords eastern).bars) :
    bar ∈ agent.bars :=
  List.mem_of_mem_filter h

theorem mem_marked_purge {key : SampleKey} {bar : Bar}
    (h : bar ∈ (agent.purgeOldRecords eastern).bars) :
    bar.key ∈ (agent.purgeOldRecords eastern).marked key ↔ bar.key ∈ agent.marked key := by
  simp only [purgeOldRecords, List.mem_filter, decide_eq_true_eq]
  exact and_iff_left (List.mem_map_of_mem h)

theorem date_le {a b : ℤ} (h : a ≤ b) : date a ≤ date b :=
  Int.ediv_le_ediv (by decide) h

/-- What is purged precedes what is not. -/
theorem not_earlier_of_old {bar bar' : Bar} (hvalid : Valid eastern bar) (hvalid' : Valid eastern bar')
    (hold : isOld eastern agent.clock bar = true) (hyoung : isOld eastern agent.clock bar' = false) :
    ¬ Earlier eastern bar' bar := by
  intro hearlier
  have hdates := date_le (Int.le_of_lt (stop_lt_of_earlier hvalid' hvalid hearlier))
  simp only [isOld, decide_eq_true_eq, decide_eq_false_iff_not] at hold hyoung
  omega

theorem purged_old {bar : Bar} (hvalid : Valid eastern bar)
    (hold : isOld eastern agent.clock bar = true) :
    eastern.localize bar.key.stop + (retainDays - 1) * secondsPerDay ≤ agent.clock := by
  have hbehind := hvalid.behind
  have hclock := (eastern.behind agent.clock).1
  have hdates : date bar.key.stop < date (eastern.ofUtc agent.clock) - retainDays :=
    of_decide_eq_true hold
  simp only [date, retainDays, secondsPerDay] at hdates hbehind ⊢
  omega

theorem purge_table (h : TableInv eastern agent) : TableInv eastern (agent.purgeOldRecords eastern) := by
  obtain ⟨hpurged, hbars, hcross⟩ := List.pairwise_append.mp h.ordered
  refine ⟨fun bar hbar => h.valid bar (mem_ever_purge.mp hbar), ?_, fun bar hbar => ?_⟩
  · rw [StockAgent.ever, purgeOldRecords, List.append_assoc]
    refine List.pairwise_append.mpr ⟨hpurged, ?_, fun bar hbar bar' hbar' => hcross bar hbar bar' ?_⟩
    · refine pairwise_partition _ hbars fun bar hbar bar' hbar' hold hyoung => ?_
      exact not_earlier_of_old (h.bar_valid hbar) (h.bar_valid hbar') hold hyoung
    · rcases List.mem_append.mp hbar' with hbar' | hbar'
      · exact List.mem_of_mem_filter hbar'
      · exact List.mem_of_mem_filter hbar'
  · rcases List.mem_append.mp hbar with hbar | hbar
    · exact h.old bar hbar
    · obtain ⟨hbar, hold⟩ := List.mem_filter.mp hbar
      exact purged_old (h.bar_valid hbar) hold

theorem purge_inv (h : Inv eastern options agent) :
    Inv eastern options (agent.purgeOldRecords eastern) := by
  refine ⟨purge_table h.table, ?_, ?_, ?_⟩
  · refine ⟨fun key barKey hmarked => ?_, fun key bar hsent => ?_, h.sent.kept, h.sent.counts⟩
    · exact h.sent.marked key barKey (List.mem_of_mem_filter hmarked)
    · exact mem_ever_purge.mpr (h.sent.ever key bar hsent)
  · refine ⟨h.waiting.ordered, h.waiting.valid, fun sample hsample hhours bar hbar => ?_⟩
    exact h.waiting.later sample hsample hhours bar (mem_ever_purge.mp hbar)
  · have hphase := h.phase
    change InPhase eastern options _ (pending options.specs agent.process)
    cases hsamples : pending options.specs agent.process with
    | none =>
      rw [hsamples] at hphase
      refine ⟨fun key hkey bar hsent fresh hfresh => ?_, fun key hkey bar hbar hunmarked => ?_⟩
      · exact hphase.freshLater key hkey bar hsent fresh (hfresh.imp_left mem_bars_of_purge)
      · rw [mem_marked_purge hbar] at hunmarked
        exact hphase.counts key hkey bar (mem_bars_of_purge hbar) hunmarked
    | some samples =>
      rw [hsamples] at hphase
      refine ⟨hphase.todo_ordered, hphase.unmarked_ordered, fun sample hsample => ?_,
        hphase.todo_unmarked, fun key hkey bar hsent fresh hfresh => ?_, fun key hkey bar hbar => ?_,
        hphase.counts, hphase.sent, fun key hkey bar hbar => ?_⟩
      · exact mem_ever_purge.mpr (hphase.ever sample hsample)
      · exact hphase.freshLater key hkey bar hsent fresh (hfresh.imp_left mem_bars_of_purge)
      · exact hphase.unsent key hkey bar (mem_bars_of_purge hbar)
      · rw [mem_marked_purge hbar]
        exact hphase.marked key hkey bar (mem_bars_of_purge hbar)

/-! ### Sending -/

theorem mem_sent_send {sample : SampleKey × Bar} {key : SampleKey} {bar : Bar} :
    bar ∈ (agent.send sample).sent key ↔ bar ∈ agent.sent key ∨ (key, bar) = sample := by
  by_cases hkey : key = sample.1
  · subst hkey
    simp only [send, Function.update_self, List.mem_append, List.mem_singleton, Prod.ext_iff, true_and]
  · simp only [send, Function.update_of_ne hkey, Prod.ext_iff, hkey, false_and, or_false]

theorem sent_send (sample : SampleKey × Bar) :
    (agent.send sample).sent sample.1 = agent.sent sample.1 ++ [sample.2] :=
  Function.update_self ..

theorem sent_send_of_ne {sample : SampleKey × Bar} {key : SampleKey} (h : key ≠ sample.1) :
    (agent.send sample).sent key = agent.sent key :=
  Function.update_of_ne h ..

theorem count_sent_send_of_ne {sample : SampleKey × Bar} {key : SampleKey} {bar : Bar}
    (h : (key, bar) ≠ sample) :
    ((agent.send sample).sent key).count bar = (agent.sent key).count bar := by
  by_cases hkey : key = sample.1
  · subst hkey
    have hbar : sample.2 ≠ bar := fun hbar => h (Prod.ext rfl hbar.symm)
    rw [sent_send, List.count_append, List.count_eq_zero_of_not_mem (a := bar) (l := [sample.2])]
    · rfl
    · simpa using hbar.symm
  · rw [sent_send_of_ne hkey]

/-- A sample is sent that is newer than what was sent, or was sent before. -/
theorem send_sent {sample : SampleKey × Bar} (h : SentInv eastern agent)
    (htable : TableInv eastern agent) (hever : sample.2 ∈ agent.ever)
    (hlater : sample.2 ∉ agent.sent sample.1 → ∀ bar ∈ agent.sent sample.1, Earlier eastern bar sample.2)
    (hcount : (agent.sent sample.1).count sample.2 ≤ agent.aborts) :
    SentInv eastern (agent.send sample) := by
  refine ⟨fun key barKey hmarked => ?_, fun key bar hsent => ?_, fun key bar hsent => ?_,
    fun key bar => ?_⟩
  · obtain ⟨bar, hsent, hkey⟩ := h.marked key barKey hmarked
    exact ⟨bar, mem_sent_send.mpr (Or.inl hsent), hkey⟩
  · rcases mem_sent_send.mp hsent with hsent | rfl
    · exact h.ever key bar hsent
    · exact hever
  · by_cases hkey : key = sample.1
    · subst hkey
      rw [sent_send] at hsent ⊢
      by_cases hbefore : bar ∈ agent.sent sample.1
      · exact mem_keep_append (h.kept _ bar hbefore) _
      · have hbar : bar = sample.2 := by
          rcases List.mem_append.mp hsent with hsent | hsent
          · exact absurd hsent hbefore
          · exact List.mem_singleton.mp hsent
        subst hbar
        apply mem_keep_of_newer
        intro bar' hbar'
        exact (htable.valid bar' (h.ever _ bar' hbar')).epoch_lt (hlater hbefore bar' hbar')
    · rw [sent_send_of_ne hkey] at hsent ⊢
      exact h.kept key bar hsent
  · by_cases hsample : (key, bar) = sample
    · subst hsample
      rw [sent_send, List.count_append, List.count_singleton_self]
      exact Nat.succ_le_succ hcount
    · rw [count_sent_send_of_ne hsample]
      exact h.counts key bar

/-- The first of what is to be sent is not in the rest. -/
theorem Ordered.notMem {sample : SampleKey × Bar} {todo : List (SampleKey × Bar)}
    (h : Ordered eastern (sample :: todo)) (hvalid : Valid eastern sample.2) : sample ∉ todo :=
  fun hmem => hvalid.not_earlier ((List.pairwise_cons.mp h).1 sample hmem rfl)

theorem send_transmission {sample : SampleKey × Bar} {todo unmarked : List (SampleKey × Bar)}
    (htable : TableInv eastern agent) (hsent : SentInv eastern agent)
    (h : Transmission eastern options agent (sample :: todo) unmarked) :
    SentInv eastern (agent.send sample) ∧
      Transmission eastern options (agent.send sample) todo unmarked := by
  have hhead := List.mem_cons_self (a := sample) (l := todo)
  obtain ⟨hunmarked, hspec⟩ := h.todo_unmarked sample hhead
  have hever : sample.2 ∈ agent.ever := h.ever sample hunmarked
  obtain ⟨hfirst, hrest⟩ := List.pairwise_cons.mp h.todo_ordered
  have hnotMem := h.todo_ordered.notMem (htable.valid _ hever)
  refine ⟨send_sent hsent htable hever ?_ (h.counts sample hhead), hrest, h.unmarked_ordered, h.ever,
    fun sample' hmem => h.todo_unmarked sample' (List.mem_cons_of_mem _ hmem), ?_, ?_, ?_, ?_, h.marked⟩
  · intro hnew bar hbar
    exact h.freshLater sample.1 hspec bar hbar sample.2 (Or.inr hhead) hnew
  · intro key hkey bar hbar fresh hfresh hnew
    have hnew' : fresh ∉ agent.sent key := fun hmem => hnew (mem_sent_send.mpr (Or.inl hmem))
    have hne : (key, fresh) ≠ sample := fun heq => hnew (mem_sent_send.mpr (Or.inr heq))
    -- a bar that is not in the rest is in the tables, and is still to be sent
    have htodo : (key, fresh) ∈ todo := by
      rcases hfresh with hfresh | hfresh
      · rcases List.mem_cons.mp (h.unsent key hkey fresh hfresh hnew') with heq | hmem
        · exact absurd heq hne
        · exact hmem
      · exact hfresh
    rcases mem_sent_send.mp hbar with hbar | rfl
    · exact h.freshLater key hkey bar hbar fresh (Or.inr (List.mem_cons_of_mem _ htodo)) hnew'
    · exact hfirst _ htodo rfl
  · intro key hkey bar hbar hnew
    have hmem := h.unsent key hkey bar hbar fun hmem => hnew (mem_sent_send.mpr (Or.inl hmem))
    rcases List.mem_cons.mp hmem with heq | hmem
    · exact absurd (mem_sent_send.mpr (Or.inr heq)) hnew
    · exact hmem
  · intro sample' hmem
    have hne : sample' ≠ sample := fun heq => hnotMem (heq ▸ hmem)
    rw [count_sent_send_of_ne hne]
    exact h.counts sample' (List.mem_cons_of_mem _ hmem)
  · intro sample' hmem
    rcases h.sent sample' hmem with hbefore | htodo
    · exact Or.inl (mem_sent_send.mpr (Or.inl hbefore))
    · rcases List.mem_cons.mp htodo with rfl | htodo
      · exact Or.inl (mem_sent_send.mpr (Or.inr rfl))
      · exact Or.inr htodo

theorem send_table {sample : SampleKey × Bar} (h : TableInv eastern agent) :
    TableInv eastern (agent.send sample) :=
  h.congr rfl rfl Int.le_rfl

/-- A batch of samples is sent. -/
theorem foldl_send (batch : List (SampleKey × Bar)) {todo unmarked : List (SampleKey × Bar)}
    (htable : TableInv eastern agent) (hsent : SentInv eastern agent)
    (h : Transmission eastern options agent (batch ++ todo) unmarked) :
    TableInv eastern (batch.foldl send agent) ∧ SentInv eastern (batch.foldl send agent) ∧
      Transmission eastern options (batch.foldl send agent) todo unmarked := by
  induction batch generalizing agent with
  | nil => exact ⟨htable, hsent, h⟩
  | cons sample batch ih =>
    obtain ⟨hsent, h⟩ := send_transmission htable hsent h
    exact ih (send_table htable) hsent h

/-! ### Marking -/

theorem mem_marked_update {key key' : SampleKey} {barKey barKey' : BarKey} :
    barKey' ∈ Function.update agent.marked key (agent.marked key ++ [barKey]) key' ↔
      barKey' ∈ agent.marked key' ∨ key' = key ∧ barKey' = barKey := by
  by_cases hkey : key' = key
  · subst hkey
    simp only [Function.update_self, List.mem_append, List.mem_singleton, true_and]
  · simp only [Function.update_of_ne hkey, hkey, false_and, or_false]

/-- The first of what is to be marked was sent. -/
theorem sent_of_unmarked {sample : SampleKey × Bar} {todo rest : List (SampleKey × Bar)}
    (htable : TableInv eastern agent)
    (h : Transmission eastern options agent rest (sample :: (todo ++ rest))) :
    sample.2 ∈ agent.sent sample.1 := by
  have hhead := List.mem_cons_self (a := sample) (l := todo ++ rest)
  rcases h.sent sample hhead with hsent | hmem
  · exact hsent
  · have hnotMem := h.unmarked_ordered.notMem (htable.valid _ (h.ever sample hhead))
    exact absurd (List.mem_append_right _ hmem) hnotMem

theorem stepMarking_inv {sample : SampleKey × Bar} {todo : List (SampleKey × Bar)} {rows : List Row}
    (h : Inv eastern options agent) (hprocess : agent.process = some (.marking (sample :: todo) rows)) :
    Inv eastern options (agent.stepMarking sample todo rows) := by
  have hphase := h.phase
  rw [hprocess] at hphase
  have htrans : Transmission eastern options agent (samplesOf options.specs rows)
    (sample :: (todo ++ samplesOf options.specs rows)) := hphase
  have hsent := sent_of_unmarked h.table htrans
  rw [stepMarking]
  split
  · refine ⟨h.table.congr rfl rfl Int.le_rfl, ⟨?_, h.sent.ever, h.sent.kept, h.sent.counts⟩, Waiting.nil, ?_⟩
    · intro key barKey hmarked
      rcases mem_marked_update.mp hmarked with hmarked | ⟨rfl, rfl⟩
      · exact h.sent.marked key barKey hmarked
      · exact ⟨sample.2, hsent, rfl⟩
    · refine ⟨htrans.todo_ordered, (List.pairwise_cons.mp htrans.unmarked_ordered).2, ?_, ?_,
        htrans.freshLater, htrans.unsent, htrans.counts, ?_, ?_⟩
      · exact fun sample' hmem => htrans.ever sample' (List.mem_cons_of_mem _ hmem)
      · exact fun sample' hmem => ⟨List.mem_append_right _ hmem, (htrans.todo_unmarked sample' hmem).2⟩
      · exact fun sample' hmem => htrans.sent sample' (List.mem_cons_of_mem _ hmem)
      · intro key hkey bar hbar
        rcases htrans.marked key hkey bar hbar with hmarked | hmem
        · exact Or.inl (mem_marked_update.mpr (Or.inl hmarked))
        · rcases List.mem_cons.mp hmem with rfl | hmem
          · exact Or.inl (mem_marked_update.mpr (Or.inr ⟨rfl, rfl⟩))
          · exact Or.inr hmem
  · exact abort_inv h

/-! ### Selecting -/

theorem isSent_rowOf (key : SampleKey) (bar : Bar) :
    (agent.rowOf bar).isSent key = true ↔ bar.key ∈ agent.marked key := by
  cases key <;> simp [Row.isSent, rowOf]

/-- The rows are in the order of the bars. -/
theorem fetchUnsentSamples_eq (h : TableInv eastern agent) :
    agent.fetchUnsentSamples =
      (agent.bars.map agent.rowOf).filter fun row => !row.closeSent || !row.volumeSent := by
  apply List.Pairwise.insertionSort_eq
  apply List.Pairwise.filter
  rw [List.pairwise_map]
  refine h.bars_ordered.imp_of_mem fun {bar bar'} hbar hbar' hearlier => ?_
  exact Int.le_of_lt (stop_lt_of_earlier (h.bar_valid hbar) (h.bar_valid hbar') hearlier)

theorem mem_samplesOf {specs : List SampleKey} {rows : List Row} {key : SampleKey} {bar : Bar} :
    (key, bar) ∈ samplesOf specs rows ↔
      ∃ row ∈ rows, row.bar = bar ∧ key ∈ specs ∧ ¬ row.isSent key = true := by
  simp only [samplesOf, List.mem_flatMap, List.mem_map, List.mem_filter, Prod.mk.injEq, Bool.not_eq_true']
  constructor
  · rintro ⟨row, hrow, _, ⟨hspec, hsent⟩, rfl, rfl⟩
    exact ⟨row, hrow, rfl, hspec, by rw [hsent]; decide⟩
  · rintro ⟨row, hrow, rfl, hspec, hsent⟩
    exact ⟨row, hrow, key, ⟨hspec, Bool.not_eq_true _ |>.mp hsent⟩, rfl, rfl⟩

/-- What is selected is what is not marked. -/
theorem mem_samplesOf_unsent {key : SampleKey} {bar : Bar} (h : TableInv eastern agent) :
    (key, bar) ∈ samplesOf options.specs agent.fetchUnsentSamples ↔
      key ∈ options.specs ∧ bar ∈ agent.bars ∧ bar.key ∉ agent.marked key := by
  rw [mem_samplesOf, fetchUnsentSamples_eq h]
  constructor
  · intro ⟨row, hrow, hbar, hspec, hsent⟩
    obtain ⟨bar', hbar', rfl⟩ := List.mem_map.mp (List.mem_of_mem_filter hrow)
    change bar' = bar at hbar
    subst hbar
    exact ⟨hspec, hbar', fun hmarked => hsent ((isSent_rowOf key bar').mpr hmarked)⟩
  · intro ⟨hspec, hbar, hunmarked⟩
    have hsent : ¬ (agent.rowOf bar).isSent key = true :=
      fun hsent => hunmarked ((isSent_rowOf key bar).mp hsent)
    refine ⟨agent.rowOf bar, List.mem_filter.mpr ⟨List.mem_map_of_mem hbar, ?_⟩, rfl, hspec, hsent⟩
    cases key with
    | close => simpa [Row.isSent] using Or.inl hsent
    | volume => simpa [Row.isSent] using Or.inr hsent

theorem samplesOf_ordered {specs : List SampleKey} {rows : List Row} (hspecs : specs.Nodup)
    (h : rows.Pairwise fun row row' => Earlier eastern row.bar row'.bar) :
    Ordered eastern (samplesOf specs rows) := by
  refine List.pairwise_flatMap.mpr ⟨fun row _ => ?_, h.imp fun {row row'} hearlier => ?_⟩
  · rw [List.pairwise_map]
    refine (hspecs.sublist List.filter_sublist).imp fun hne heq => ?_
    exact absurd heq hne
  · intro sample hsample sample' hsample' _
    obtain ⟨_, _, rfl⟩ := List.mem_map.mp hsample
    obtain ⟨_, _, rfl⟩ := List.mem_map.mp hsample'
    exact hearlier

theorem unsent_ordered (hspecs : options.specs.Nodup) (h : TableInv eastern agent) :
    Ordered eastern (samplesOf options.specs agent.fetchUnsentSamples) := by
  apply samplesOf_ordered hspecs
  rw [fetchUnsentSamples_eq h]
  apply List.Pairwise.filter
  rw [List.pairwise_map]
  exact h.bars_ordered

/-- A transmission starts. -/
theorem select_inv (hspecs : options.specs.Nodup) (h : Inv eastern options agent)
    (hidle : pending options.specs agent.process = none) :
    Inv eastern options { agent with process := some (.selected agent.fetchUnsentSamples) } := by
  have hphase := h.phase
  rw [hidle] at hphase
  refine h.withProcess Waiting.nil ?_
  have hmem : ∀ {key : SampleKey} {bar : Bar},
      (key, bar) ∈ samplesOf options.specs agent.fetchUnsentSamples ↔
        key ∈ options.specs ∧ bar ∈ agent.bars ∧ bar.key ∉ agent.marked key :=
    mem_samplesOf_unsent h.table
  refine ⟨unsent_ordered hspecs h.table, unsent_ordered hspecs h.table, ?_, ?_, ?_, ?_, ?_, ?_, ?_⟩
  · intro sample hsample
    exact List.mem_append_right _ (hmem.mp hsample).2.1
  · exact fun sample hsample => ⟨hsample, (hmem.mp hsample).1⟩
  · intro key hkey bar hbar fresh hfresh
    refine hphase.freshLater key hkey bar hbar fresh (Or.inl ?_)
    exact hfresh.elim id fun hfresh => (hmem.mp hfresh).2.1
  · intro key hkey bar hbar hunsent
    refine hmem.mpr ⟨hkey, hbar, fun hmarked => hunsent ?_⟩
    exact h.sent.sent_of_marked h.table (List.mem_append_right _ hbar) hmarked
  · intro sample hsample
    obtain ⟨hkey, hbar, hunmarked⟩ := hmem.mp hsample
    exact hphase.counts sample.1 hkey sample.2 hbar hunmarked
  · exact fun sample hsample => Or.inr hsample
  · intro key hkey bar hbar
    by_cases hmarked : bar.key ∈ agent.marked key
    · exact Or.inl hmarked
    · exact Or.inr (hmem.mpr ⟨hkey, hbar, hmarked⟩)

/-- A transmission is over: all is marked. -/
theorem marked_of_selected (h : Inv eastern options agent)
    (hprocess : agent.process = some (.selected [])) :
    ∀ key ∈ options.specs, ∀ bar ∈ agent.bars, bar.key ∈ agent.marked key := by
  have hphase := h.phase
  rw [hprocess] at hphase
  intro key hkey bar hbar
  rcases hphase.marked key hkey bar hbar with hmarked | hmem
  · exact hmarked
  · exact absurd hmem List.not_mem_nil

/-! ### Polling and buffering -/

theorem lastEnd_nil (h : agent.bars = []) : agent.lastEnd eastern = none := by
  rw [lastEnd, h]
  rfl

theorem lastEnd_append {bars : List Bar} {bar : Bar} (htable : TableInv eastern agent)
    (h : agent.bars = bars ++ [bar]) : agent.lastEnd eastern = some (eastern.localize bar.key.stop) := by
  have hordered := htable.bars_ordered
  rw [h] at hordered
  have hlatest := (List.pairwise_append.mp hordered).2.2
  rw [lastEnd, h, getLatestSample_append]
  · rfl
  · intro bar' hbar'
    have hmem' : bar' ∈ agent.bars := h ▸ List.mem_append_left _ hbar'
    have hmem : bar ∈ agent.bars := h ▸ List.mem_append_right _ List.mem_cons_self
    exact stop_lt_of_earlier (htable.bar_valid hmem') (htable.bar_valid hmem)
      (hlatest bar' hbar' bar List.mem_cons_self)

/-- The request reaches back to less than what is purged. -/
def WithinRetention (options : Options) : Prop :=
  0 < options.barlength ∧
    options.days * secondsPerDay + 2 * options.barlength * 60 ≤ (retainDays - 1) * secondsPerDay

theorem le_endOfRequest {barlength : ℤ} (clock : ℤ) (h : 0 < barlength) :
    clock - 2 * barlength * 60 ≤ endOfRequest barlength clock := by
  have hlt := Int.emod_lt_of_pos (clock / 60 % 60) h
  rw [endOfRequest]
  omega

/-- A symbol that is polled when all its bars have been purged has no history file, and the request
reaches back to less than what is purged. -/
def PollsForward (options : Options) (agent : StockAgent) : Action → Prop
  | .poll _ => agent.bars = [] → agent.purged ≠ [] → agent.history = none ∧ WithinRetention options
  | _ => True

/-- What is polled starts after all that was ever stored. -/
theorem le_start_of_polled {response : List Sample}
    (hpolls : PollsForward options agent (.poll response)) (h : TableInv eastern agent)
    (hresponse : IsResponse eastern (agent.startOfRequest eastern options) response)
    {sample : Sample} (hsample : sample ∈ agent.poll eastern response)
    (hhours : InMarketHours eastern sample) {bar : Bar} (hbar : bar ∈ agent.ever) :
    eastern.localize bar.key.stop ≤ sample.startTimestamp := by
  obtain ⟨hmem, hnew⟩ := List.mem_filter.mp hsample
  rcases List.eq_nil_or_concat agent.bars with hnil | ⟨bars, last, hbars⟩
  · have hold : bar ∈ agent.purged := by
      rw [StockAgent.ever, hnil, List.append_nil] at hbar
      exact hbar
    obtain ⟨hhistory, hpositive, hretained⟩ := hpolls hnil (List.ne_nil_of_mem hold)
    have hstart := (hresponse.2 sample hmem hhours).1
    rw [startOfRequest, localizedLastEndTime, lastEnd_nil hnil, hhistory, Option.map_none,
      Option.or_none, Option.getD_none] at hstart
    have hend := le_endOfRequest agent.clock hpositive
    have holder := h.old bar hold
    omega
  · rw [List.concat_eq_append] at hbars
    rw [localizedLastEndTime, lastEnd_append h hbars, Option.some_or, Option.all_some,
      decide_eq_true_eq] at hnew
    by_cases hlast : bar = last
    · rw [hlast]
      exact hnew
    · have hmemLast : last ∈ agent.bars := hbars ▸ List.mem_append_right _ List.mem_cons_self
      have hordered := h.ordered
      rw [StockAgent.ever, hbars, ← List.append_assoc] at hordered hbar
      have hfirst : bar ∈ agent.purged ++ bars := by
        rcases List.mem_append.mp hbar with hbar | hbar
        · exact hbar
        · exact absurd (List.mem_singleton.mp hbar) hlast
      have hearlier : Earlier eastern bar last :=
        (List.pairwise_append.mp hordered).2.2 bar hfirst last List.mem_cons_self
      exact Int.le_trans hearlier (Int.le_trans (Int.le_of_lt (h.bar_valid hmemLast).lasts) hnew)

theorem poll_inv {response : List Sample} (hpolls : PollsForward options agent (.poll response))
    (h : Inv eastern options agent) (hidle : agent.process = none)
    (hresponse : IsResponse eastern (agent.startOfRequest eastern options) response) :
    Inv eastern options { agent with process := some (.polled (agent.poll eastern response)) } := by
  have hphase := h.phase
  rw [hidle] at hphase
  refine h.withProcess ⟨?_, ?_, ?_⟩ hphase
  · exact hresponse.1.sublist (List.filter_sublist.filter _)
  · intro sample hsample hhours
    exact (hresponse.2 sample (List.mem_of_mem_filter hsample) hhours).2
  · intro sample hsample hhours bar hbar
    exact le_start_of_polled hpolls h.table hresponse hsample hhours hbar

theorem Waiting.tail {sample : Sample} {rest : List Sample}
    (h : Waiting eastern agent (sample :: rest)) : Waiting eastern agent rest := by
  refine ⟨h.ordered.sublist ((List.sublist_cons_self _ _).filter _), ?_, ?_⟩
  · exact fun sample' hmem => h.valid sample' (List.mem_cons_of_mem _ hmem)
  · exact fun sample' hmem => h.later sample' (List.mem_cons_of_mem _ hmem)

/-- A bar is stored after all others. -/
theorem earlier_barOf {sample : Sample} {samples : List Sample} (h : Waiting eastern agent samples)
    (hsample : sample ∈ samples) (hhours : InMarketHours eastern sample) {bar : Bar}
    (hbar : bar ∈ agent.ever) : Earlier eastern bar (barOf eastern sample) := by
  have hlater := h.later sample hsample hhours bar hbar
  rw [Earlier, barOf, eastern.localize_ofUtc _ hhours.1]
  exact hlater

theorem insert_inv {sample : Sample} {rest : List Sample} {last : Option ℤ}
    (h : Inv eastern options agent)
    (hprocess : agent.process = some (.buffering (sample :: rest) last))
    (hhours : InMarketHours eastern sample) :
    Inv eastern options { agent with
      bars := agent.bars ++ [barOf eastern sample]
      process := some (.buffering rest last) } := by
  have hphase := h.phase
  have hwaiting := h.waiting
  rw [hprocess] at hphase hwaiting
  have hwaiting : Waiting eastern agent (sample :: rest) := hwaiting
  have hidle : Idle eastern options agent := hphase
  have hhead := List.mem_cons_self (a := sample) (l := rest)
  obtain ⟨hlasts, hstop⟩ := hwaiting.valid sample hhead hhours
  have hvalid := barOf_valid hhours hlasts hstop
  have hearlier : ∀ bar ∈ agent.ever, Earlier eastern bar (barOf eastern sample) :=
    fun bar hbar => earlier_barOf hwaiting hhead hhours hbar
  have hnew : barOf eastern sample ∉ agent.ever := fun hmem => hvalid.not_earlier (hearlier _ hmem)
  have hever : ∀ bar, bar ∈ agent.purged ++ (agent.bars ++ [barOf eastern sample]) ↔
      bar ∈ agent.ever ∨ bar = barOf eastern sample := by
    intro bar
    rw [← List.append_assoc, List.mem_append, List.mem_singleton, StockAgent.ever]
  refine ⟨⟨?_, ?_, h.table.old⟩, ⟨h.sent.marked, ?_, h.sent.kept, h.sent.counts⟩, ⟨?_, ?_, ?_⟩, ?_, ?_⟩
  · intro bar hbar
    rcases (hever bar).mp hbar with hbar | rfl
    · exact h.table.valid bar hbar
    · exact hvalid
  · rw [StockAgent.ever, ← List.append_assoc]
    refine List.pairwise_append.mpr ⟨h.table.ordered, List.pairwise_singleton _ _,
      fun bar hbar bar' hbar' => ?_⟩
    rw [List.mem_singleton.mp hbar']
    exact hearlier bar hbar
  · exact fun key bar hsent => (hever bar).mpr (Or.inl (h.sent.ever key bar hsent))
  · exact hwaiting.tail.ordered
  · exact hwaiting.tail.valid
  · intro sample' hmem hhours' bar hbar
    rcases (hever bar).mp hbar with hbar | rfl
    · exact hwaiting.tail.later sample' hmem hhours' bar hbar
    · have hordered := hwaiting.ordered
      rw [List.filter_cons_of_pos (by simpa using hhours)] at hordered
      have hafter := (List.pairwise_cons.mp hordered).1 sample'
        (List.mem_filter.mpr ⟨hmem, by simpa using hhours'⟩)
      rw [barOf, eastern.localize_ofUtc _ hstop]
      exact hafter
  · intro key hkey bar hsent fresh hfresh hunsent
    rcases hfresh with hfresh | hfresh
    · rcases List.mem_append.mp hfresh with hfresh | hfresh
      · exact hidle.freshLater key hkey bar hsent fresh (Or.inl hfresh) hunsent
      · rw [List.mem_singleton.mp hfresh]
        exact hearlier bar (h.sent.ever key bar hsent)
    · exact absurd hfresh List.not_mem_nil
  · intro key hkey bar hbar hunmarked
    rcases List.mem_append.mp hbar with hbar | hbar
    · exact hidle.counts key hkey bar hbar hunmarked
    · rw [List.mem_singleton.mp hbar, List.count_eq_zero_of_not_mem]
      · exact Nat.zero_le _
      · exact fun hsent => hnew (h.sent.ever key _ hsent)

theorem stepBuffering_inv {sample : Sample} {rest : List Sample} {last : Option ℤ}
    (h : Inv eastern options agent)
    (hprocess : agent.process = some (.buffering (sample :: rest) last)) :
    Inv eastern options (agent.stepBuffering eastern sample rest last) := by
  rw [stepBuffering]
  split
  · next hcond =>
    simp only
    split
    · exact abort_inv h
    · exact insert_inv h hprocess hcond.1
  · have hphase := h.phase
    have hwaiting := h.waiting
    rw [hprocess] at hphase hwaiting
    exact h.withProcess (Waiting.tail hwaiting) hphase

/-! ### Runs -/

theorem step_inv {agent' : StockAgent} (hspecs : options.specs.Nodup) (h : Inv eastern options agent)
    (hstep : agent.step eastern options = some agent') : Inv eastern options agent' := by
  have hphase := h.phase
  have hwaiting := h.waiting
  cases hprocess : agent.process with
  | none =>
    rw [step, hprocess] at hstep
    cases hstep
  | some process =>
    rw [hprocess] at hphase hwaiting
    cases process with
    | polled samples =>
      simp only [step, hprocess, Option.some.injEq] at hstep
      rw [← hstep]
      exact h.withProcess hwaiting hphase
    | buffering samples last =>
      cases samples with
      | nil =>
        simp only [step, hprocess, Option.some.injEq] at hstep
        rw [← hstep]
        split
        · exact select_inv hspecs h (by rw [hprocess]; rfl)
        · exact h.withProcess Waiting.nil hphase
      | cons sample rest =>
        simp only [step, hprocess, Option.some.injEq] at hstep
        rw [← hstep]
        exact stepBuffering_inv h hprocess
    | selected rows =>
      cases rows with
      | nil =>
        simp only [step, hprocess, Option.some.injEq] at hstep
        rw [← hstep]
        refine h.withProcess Waiting.nil ⟨freshLater_of_inPhase hphase, ?_⟩
        intro key hkey bar hbar hunmarked
        exact absurd (marked_of_selected h hprocess key hkey bar hbar) hunmarked
      | cons row rows =>
        simp only [step, hprocess, Option.some.injEq] at hstep
        rw [← hstep]
        refine h.withProcess Waiting.nil ?_
        have hsplit : samplesOf options.specs ((row :: rows).take chunkSize) ++
            samplesOf options.specs ((row :: rows).drop chunkSize) =
              samplesOf options.specs (row :: rows) := by
          rw [samplesOf, samplesOf, samplesOf, ← List.flatMap_append, List.take_append_drop]
        simp only [pending, InPhase, hsplit]
        exact hphase
    | sending chunk todo rows =>
      cases todo with
      | nil =>
        simp only [step, hprocess, Option.some.injEq] at hstep
        rw [← hstep]
        exact h.withProcess Waiting.nil hphase
      | cons sample todo =>
        simp only [step, hprocess, Option.some.injEq] at hstep
        rw [← hstep]
        have htrans : Transmission eastern options agent
            ((sample :: todo).take metricDataBatchWriteSize ++
              ((sample :: todo).drop metricDataBatchWriteSize ++ samplesOf options.specs rows))
            (chunk ++ samplesOf options.specs rows) := by
          rw [← List.append_assoc, List.take_append_drop]
          exact hphase
        obtain ⟨htable, hsent, htrans⟩ := foldl_send _ h.table h.sent htrans
        have hphase : InPhase eastern options _ (some (_, _)) := htrans
        exact ⟨htable.congr rfl rfl Int.le_rfl, ⟨hsent.marked, hsent.ever, hsent.kept, hsent.counts⟩,
          Waiting.nil, hphase.withProcess⟩
    | marking todo rows =>
      cases todo with
      | nil =>
        simp only [step, hprocess, Option.some.injEq] at hstep
        rw [← hstep]
        exact h.withProcess Waiting.nil hphase
      | cons sample todo =>
        simp only [step, hprocess, Option.some.injEq] at hstep
        rw [← hstep]
        exact stepMarking_inv h hprocess

theorem act_inv {action : Action} {agent' : StockAgent} (hspecs : options.specs.Nodup)
    (hpolls : PollsForward options agent action) (h : Inv eastern options agent)
    (hact : act eastern options action agent = some agent') : Inv eastern options agent' := by
  cases action with
  | tick now =>
    simp only [act, Option.ite_none_right_eq_some, Option.some.injEq] at hact
    rw [← hact.2]
    exact tick_inv h hact.1
  | poll response =>
    simp only [act, Option.ite_none_right_eq_some, Option.some.injEq, Option.isNone_iff_eq_none] at hact
    rw [← hact.2]
    exact poll_inv hpolls h hact.1.1 hact.1.2.1
  | transmit =>
    simp only [act, Option.ite_none_right_eq_some, Option.some.injEq, Option.isNone_iff_eq_none] at hact
    rw [← hact.2]
    exact select_inv hspecs h (by rw [hact.1]; rfl)
  | step => exact step_inv hspecs h hact
  | fail =>
    simp only [act, Option.ite_none_right_eq_some, Option.some.injEq] at hact
    rw [← hact.2]
    exact abort_inv h
  | purge =>
    rw [← Option.some.inj hact]
    exact purge_inv h

theorem init_inv (h : (system eastern options).init agent) : Inv eastern options agent := by
  obtain ⟨hbars, hmarked, hprocess, hsent, hpurged, _⟩ := h
  have hever : agent.ever = [] := by rw [StockAgent.ever, hpurged, hbars]; rfl
  have hnone : ∀ key, agent.sent key = [] := fun key => by rw [hsent]
  have hunmarked : ∀ key, agent.marked key = [] := fun key => by rw [hmarked]
  refine ⟨⟨?_, ?_, ?_⟩, ⟨?_, ?_, ?_, ?_⟩, ?_, ?_⟩
  · simp [hever]
  · simp [hever]
  · simp [hpurged]
  · simp [hunmarked]
  · simp [hnone]
  · simp [hnone]
  · simp [hnone]
  · rw [hprocess]
    exact Waiting.nil
  · rw [hprocess]
    exact ⟨by simp [FreshLater, hnone], by simp [hbars]⟩

/-- What is promised of the tables of a symbol, and of what is sent for it: of all bars that were ever
stored, that they lie in market hours, one after the other; marks of what was sent only; samples that a
receiver keeps that drops what is not newer, and that are sent again for a failure only; and nothing left
once a transmission is over. -/
structure Forwarded (eastern : EasternTime) (options : Options) (agent : StockAgent) : Prop where
  valid : ∀ bar ∈ agent.ever, Valid eastern bar
  ordered : agent.ever.Pairwise (Earlier eastern)
  sent_of_marked : ∀ key, ∀ bar ∈ agent.bars, bar.key ∈ agent.marked key → bar ∈ agent.sent key
  kept : ∀ key, ∀ bar ∈ agent.sent key, bar ∈ keep (epochTimestamp eastern) (agent.sent key)
  counts : ∀ key bar, (agent.sent key).count bar ≤ agent.aborts + 1
  complete : agent.process = some (.selected []) →
    ∀ key ∈ options.specs, ∀ bar ∈ agent.bars, bar.key ∈ agent.marked key ∧ bar ∈ agent.sent key

def exampleValues : Values := ⟨30, 31, 29, 30, 1200, 40⟩

/-- Five minutes before and two times five minutes after the market opens. -/
def exampleResponse : List Sample :=
  [⟨86400 * 100 + 33900, 86400 * 100 + 34200, -5, exampleValues⟩,
    ⟨86400 * 100 + 34200, 86400 * 100 + 34500, -5, exampleValues⟩,
    ⟨86400 * 100 + 34500, 86400 * 100 + 34800, -5, exampleValues⟩]

/-- A transmission fails after one mark, and is made again. -/
def exampleActions : List Action :=
  [.poll exampleResponse] ++ List.replicate 9 .step ++ [.fail, .transmit] ++ List.replicate 7 .step

end StockAgent

end NumentaApps.Xignite
