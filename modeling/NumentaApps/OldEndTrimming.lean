import Mathlib.Data.List.Infix
import Mathlib.Data.List.Nodup
import Mathlib.Data.List.Pairwise
import Mathlib.Data.List.Perm.Subperm
import NumentaApps.MetricGarbageCollector

/-!
# The purge trims the old end of every metric

The candidate rows of a metric are the first of its rows, and stay so until they are deleted, as
rows are only added behind them. A round of the loop gets on unless the reply of its delete was
lost.
-/
namespace NumentaApps.GarbageCollector
open TransitionSystem

variable {U : Type}

/-! ## Rows in order -/

/-- What is left of a list when elements go that have no other before them. -/
theorem filter_not_suffix {α : Type} {l : List α} {p : α → Bool}
    (h : l.Pairwise fun a b => p b = true → p a = true) : (l.filter fun a => !p a) <:+ l := by
  induction l with
  | nil => exact List.suffix_refl []
  | cons a l ih =>
    obtain ⟨hhead, htail⟩ := List.pairwise_cons.mp h
    cases ha : p a with
    | true =>
      rw [List.filter_cons_of_neg (by simp [ha])]
      exact (ih htail).trans (List.suffix_cons a l)
    | false =>
      have hall : ∀ b ∈ l, (!p b) = true := by
        intro b hb
        have hb' := mt (hhead b hb)
        simpa [ha] using hb'
      rw [List.filter_cons_of_pos (by simp [ha]), List.filter_eq_self.mpr hall]

theorem suffix_append_right {α : Type} {l₁ l₂ : List α} (h : l₁ <:+ l₂) (l : List α) :
    l₁ ++ l <:+ l₂ ++ l := by
  obtain ⟨front, rfl⟩ := h
  exact ⟨front, by rw [List.append_assoc]⟩

section Rows

variable {rows : List (DataRow U)} {r r' : DataRow U}

theorem before_or_before (h : rows.Pairwise DataRow.Before) (hr : r ∈ rows) (hr' : r' ∈ rows)
    (hne : r ≠ r') : r.Before r' ∨ r'.Before r := by
  have heither : rows.Pairwise fun a b : DataRow U => a.Before b ∨ b.Before a := h.imp Or.inl
  have : Std.Symm fun a b : DataRow U => a.Before b ∨ b.Before a := ⟨fun _ _ => Or.symm⟩
  exact heither.forall hr hr' hne

/-- Of two rows of a metric the one with the lower rowid is the older one. -/
theorem timestamp_le_of_rowid_le (h : rows.Pairwise DataRow.Before) (hr : r ∈ rows)
    (hr' : r' ∈ rows) (huid : r.uid = r'.uid) (hle : r.rowid ≤ r'.rowid) :
    r.timestamp ≤ r'.timestamp := by
  by_cases heq : r = r'
  · rw [heq]
  · rcases before_or_before h hr hr' heq with hbefore | hbefore
    · exact (hbefore huid).2
    · have := (hbefore huid.symm).1
      omega

theorem eq_of_key_eq (h : rows.Pairwise DataRow.Before) (hr : r ∈ rows) (hr' : r' ∈ rows)
    (hkey : r.key = r'.key) : r = r' := by
  obtain ⟨huid, hrowid⟩ := Prod.mk.inj hkey
  by_contra hne
  rcases before_or_before h hr hr' hne with hbefore | hbefore
  · have := (hbefore huid).1
    omega
  · have := (hbefore huid.symm).1
    omega

theorem key_nodup (h : rows.Pairwise DataRow.Before) : (rows.map DataRow.key).Nodup := by
  apply List.pairwise_map.mpr
  apply h.imp
  intro a b hbefore hkey
  obtain ⟨huid, hrowid⟩ := Prod.mk.inj hkey
  have := (hbefore huid).1
  omega

end Rows

section Candidates

variable [LinearOrder U] {settings : Settings} {limit : ℕ} {clock : ℤ} {rows : List (DataRow U)}
  {r r' : DataRow U}

theorem candidateRows_mem (h : r ∈ candidateRows settings limit clock rows) :
    r ∈ rows ∧ isOld settings clock r = true := by
  have hr := List.mem_of_mem_take h
  rw [List.mem_insertionSort] at hr
  exact List.mem_filter.mp hr

theorem candidateRows_length_le :
    (candidateRows settings limit clock rows).length ≤ limit := List.length_take_le _ _

/-- With a candidate row all rows of its metric before it are candidates. -/
theorem candidateRows_downward (hrows : rows.Pairwise DataRow.Before)
    (h : r ∈ candidateRows settings limit clock rows) (hr' : r' ∈ rows) (huid : r'.uid = r.uid)
    (hle : r'.rowid ≤ r.rowid) : r' ∈ candidateRows settings limit clock rows := by
  have htotal : Std.Total (DataRow.Le : DataRow U → DataRow U → Prop) := by
    refine ⟨fun a b => ?_⟩
    rcases lt_trichotomy a.uid b.uid with hlt | heq | hgt
    · exact Or.inl (Or.inl hlt)
    · rcases Nat.le_total a.rowid b.rowid with hrowid | hrowid
      · exact Or.inl (Or.inr ⟨heq, hrowid⟩)
      · exact Or.inr (Or.inr ⟨heq.symm, hrowid⟩)
    · exact Or.inr (Or.inl hgt)
  have htrans : IsTrans (DataRow U) DataRow.Le := by
    refine ⟨fun a b c hab hbc => ?_⟩
    rcases hab with hab | ⟨hab, hab'⟩
    · rcases hbc with hbc | ⟨hbc, -⟩
      · exact Or.inl (hab.trans hbc)
      · exact Or.inl (hbc ▸ hab)
    · rcases hbc with hbc | ⟨hbc, hbc'⟩
      · exact Or.inl (hab ▸ hbc)
      · exact Or.inr ⟨hab.trans hbc, hab'.trans hbc'⟩
  obtain ⟨hr, hold⟩ := candidateRows_mem h
  have hage := timestamp_le_of_rowid_le hrows hr' hr huid hle
  have hold' : isOld settings clock r' = true := by
    simp only [isOld, decide_eq_true_eq] at hold ⊢
    omega
  have hmem : r' ∈ (rows.filter (isOld settings clock)).insertionSort DataRow.Le := by
    rw [List.mem_insertionSort]
    exact List.mem_filter.mpr ⟨hr', hold'⟩
  have hsorted := List.pairwise_insertionSort DataRow.Le (rows.filter (isOld settings clock))
  rw [← List.take_append_drop limit (List.insertionSort _ _)] at hmem hsorted
  rcases List.mem_append.mp hmem with hmem | hmem
  · exact hmem
  · -- a row beyond the limit does not come before the candidate
    have hge := (List.pairwise_append.mp hsorted).2.2 r h r' hmem
    rcases hge with hlt | ⟨-, hge⟩
    · exact absurd hlt (huid ▸ lt_irrefl _)
    · have heq : r' = r := eq_of_key_eq hrows hr' hr (Prod.ext huid (Nat.le_antisymm hle hge))
      exact heq ▸ h

end Candidates

/-! ## The test of the loop -/

@[simp] theorem loop_totalDeleted (estimate totalDeleted : ℕ) :
    (Phase.loop estimate totalDeleted : Phase U).totalDeleted = totalDeleted := by
  rw [Phase.loop]
  split <;> rfl

@[simp] theorem loop_estimate (estimate totalDeleted : ℕ) :
    (Phase.loop estimate totalDeleted : Phase U).estimate = estimate := by
  rw [Phase.loop]
  split <;> rfl

theorem loop_ne_deleting (estimate totalDeleted : ℕ) (estimate' totalDeleted' : ℕ)
    (uidRowidPairs : List (U × ℕ)) (selectedAt : ℤ) :
    Phase.loop estimate totalDeleted ≠
      .deleting estimate' totalDeleted' uidRowidPairs selectedAt := by
  rw [Phase.loop]
  split
  · simp
  · simp

/-! ## The invariant of the purge -/

section Purge

variable [LinearOrder U] {settings : Settings} {s t : Collection U}

/-- The rows that are about to be deleted: they were stored, were old when they were selected and
are the first of those that their metrics have left. -/
structure Selected (settings : Settings) (s : Collection U) (limit : ℕ)
    (uidRowidPairs : List (U × ℕ)) (selectedAt : ℤ) : Prop where
  stored : ∀ pair ∈ uidRowidPairs, ∃ r ∈ s.stored, r.key = pair
  old : ∀ r ∈ s.stored, r.key ∈ uidRowidPairs → isOld settings selectedAt r = true
  downward : ∀ r ∈ s.rows, ∀ r' ∈ s.rows, r'.uid = r.uid → r'.rowid ≤ r.rowid →
    r.key ∈ uidRowidPairs → r'.key ∈ uidRowidPairs
  length_le : uidRowidPairs.length ≤ limit

structure Inv (settings : Settings) (s : Collection U) : Prop where
  stored : s.stored.Pairwise DataRow.Before
  sublist : s.rows.Sublist s.stored
  suffix : ∀ uid, (s.rows.filter fun r => r.uid = uid) <:+ s.stored.filter fun r => r.uid = uid
  old : ∀ p ∈ s.purged, isOld settings p.2 p.1 = true
  total_le : s.phase.totalDeleted ≤ s.phase.estimate
  total_le_purged : s.phase.totalDeleted ≤ s.purged.length
  selected : ∀ {estimate totalDeleted uidRowidPairs selectedAt},
    s.phase = .deleting estimate totalDeleted uidRowidPairs selectedAt →
      Selected settings s (estimate - totalDeleted) uidRowidPairs selectedAt

theorem Inv.rows (h : Inv settings s) : s.rows.Pairwise DataRow.Before :=
  h.stored.sublist h.sublist

theorem inv_init (h : (collectionSystem settings).init s) : Inv settings s := by
  obtain ⟨hrows, hstored, hphase, hpurged⟩ := h
  refine ⟨hstored, ?_, ?_, ?_, ?_, ?_, ?_⟩
  · rw [hrows]
  · intro uid
    rw [hrows]
  · simp [hpurged]
  · simp [hphase, Phase.totalDeleted]
  · simp [hphase, Phase.totalDeleted]
  · intro _ _ _ _ hdeleting
    rw [hphase] at hdeleting
    cases hdeleting

/-- Only the phase changes, and to one that has nothing selected. -/
theorem Inv.withPhase (h : Inv settings s) {phase : Phase U}
    (htotal : phase.totalDeleted ≤ phase.estimate)
    (hpurged : phase.totalDeleted ≤ s.purged.length)
    (hnone : ∀ estimate totalDeleted uidRowidPairs selectedAt,
      phase ≠ .deleting estimate totalDeleted uidRowidPairs selectedAt) :
    Inv settings { s with phase := phase } :=
  ⟨h.stored, h.sublist, h.suffix, h.old, htotal, hpurged,
    fun hdeleting => absurd hdeleting (hnone _ _ _ _)⟩

theorem Inv.append (h : Inv settings s) {rows : List (DataRow U)}
    (hrows : (s.stored ++ rows).Pairwise DataRow.Before) :
    Inv settings { s with rows := s.rows ++ rows, stored := s.stored ++ rows } := by
  have hlater : ∀ r ∈ s.stored, ∀ r' ∈ rows, r.Before r' := (List.pairwise_append.mp hrows).2.2
  refine ⟨hrows, h.sublist.append (.refl rows), ?_, h.old, h.total_le, h.total_le_purged, ?_⟩
  · intro uid
    rw [List.filter_append, List.filter_append]
    exact suffix_append_right (h.suffix uid) _
  · intro estimate totalDeleted uidRowidPairs selectedAt hphase
    have hselected := h.selected hphase
    have hnew : ∀ r ∈ rows, r.key ∉ uidRowidPairs := by
      intro r hr hkey
      obtain ⟨r', hr', hkey'⟩ := hselected.stored r.key hkey
      obtain ⟨huid, hrowid⟩ := Prod.mk.inj hkey'
      have := (hlater r' hr' r hr huid).1
      omega
    refine ⟨?_, ?_, ?_, hselected.length_le⟩
    · intro pair hpair
      obtain ⟨r, hr, hkey⟩ := hselected.stored pair hpair
      exact ⟨r, List.mem_append_left _ hr, hkey⟩
    · intro r hr hkey
      rcases List.mem_append.mp hr with hr | hr
      · exact hselected.old r hr hkey
      · exact absurd hkey (hnew r hr)
    · intro r hr r' hr' huid hle hkey
      have hr : r ∈ s.rows := by
        rcases List.mem_append.mp hr with hr | hr
        · exact hr
        · exact absurd hkey (hnew r hr)
      rcases List.mem_append.mp hr' with hr' | hr'
      · exact hselected.downward r hr r' hr' huid hle hkey
      · have := (hlater r (h.sublist.subset hr) r' hr' huid.symm).1
        omega

omit [LinearOrder U] in
/-- Rows that go do not touch what is selected. -/
theorem Selected.filter {limit : ℕ} {uidRowidPairs : List (U × ℕ)} {selectedAt : ℤ}
    (h : Selected settings s limit uidRowidPairs selectedAt) (p : DataRow U → Bool)
    {t : Collection U} (hrows : t.rows = s.rows.filter p) (hstored : t.stored = s.stored) :
    Selected settings t limit uidRowidPairs selectedAt := by
  refine ⟨?_, ?_, ?_, h.length_le⟩
  · rw [hstored]
    exact h.stored
  · rw [hstored]
    exact h.old
  · intro r hr r' hr'
    rw [hrows] at hr hr'
    exact h.downward r (List.mem_of_mem_filter hr) r' (List.mem_of_mem_filter hr')

theorem Inv.deleteMetric (h : Inv settings s) (uid : U) :
    Inv settings { s with rows := s.rows.filter fun r => r.uid ≠ uid } := by
  refine ⟨h.stored, List.filter_sublist.trans h.sublist, ?_, h.old, h.total_le,
    h.total_le_purged, fun hphase => (h.selected hphase).filter _ rfl rfl⟩
  intro uid'
  by_cases heq : uid' = uid
  · have hnone : (s.rows.filter fun r => r.uid ≠ uid).filter (fun r => r.uid = uid') = [] := by
      rw [List.filter_filter]
      apply List.filter_eq_nil_iff.mpr
      intro r _
      simp [heq]
    rw [hnone]
    exact List.nil_suffix
  · have hall : (s.rows.filter fun r => r.uid ≠ uid).filter (fun r => r.uid = uid') =
        s.rows.filter fun r => r.uid = uid' := by
      rw [List.filter_filter]
      apply List.filter_congr
      intro r _
      by_cases huid : r.uid = uid'
      · simp [huid, heq]
      · simp [huid]
    rw [hall]
    exact h.suffix uid'

variable {limit : ℕ} {uidRowidPairs : List (U × ℕ)} {selectedAt : ℤ}

/-- What is left of a metric once its selected rows are deleted. -/
theorem Inv.deleteRows_suffix (h : Inv settings s)
    (hselected : Selected settings s limit uidRowidPairs selectedAt) (uid : U) :
    ((s.deleteRows uidRowidPairs selectedAt).rows.filter fun r => r.uid = uid) <:+
      s.stored.filter fun r => r.uid = uid := by
  refine List.IsSuffix.trans ?_ (h.suffix uid)
  have hcomm : (s.deleteRows uidRowidPairs selectedAt).rows.filter (fun r => r.uid = uid) =
      (s.rows.filter fun r => r.uid = uid).filter fun r => !isPaired uidRowidPairs r := by
    rw [Collection.deleteRows, List.filter_filter, List.filter_filter]
    exact List.filter_congr fun r _ => Bool.and_comm _ _
  rw [hcomm]
  apply filter_not_suffix
  apply List.Pairwise.imp_of_mem ?_ (h.rows.filter _)
  intro a b ha hb hbefore hpaired
  obtain ⟨ha, hauid⟩ := List.mem_filter.mp ha
  obtain ⟨hb, hbuid⟩ := List.mem_filter.mp hb
  have huid : a.uid = b.uid := (of_decide_eq_true hauid).trans (of_decide_eq_true hbuid).symm
  have hlt := (hbefore huid).1
  simp only [isPaired, decide_eq_true_eq] at hpaired ⊢
  exact hselected.downward b hb a ha huid (by omega) hpaired

/-- An execution of the delete statement deletes no more rows than were selected. -/
theorem Inv.numDeleted_le (h : Inv settings s)
    (hselected : Selected settings s limit uidRowidPairs selectedAt) :
    s.rows.countP (isPaired uidRowidPairs) ≤ limit := by
  rw [List.countP_eq_length_filter]
  have hpaired : (s.rows.filter (isPaired uidRowidPairs)).Sublist s.rows := List.filter_sublist
  have hnodup := (key_nodup h.rows).sublist (hpaired.map DataRow.key)
  have hsubset : ((s.rows.filter (isPaired uidRowidPairs)).map DataRow.key) ⊆ uidRowidPairs := by
    intro pair hpair
    obtain ⟨r, hr, rfl⟩ := List.mem_map.mp hpair
    exact of_decide_eq_true (List.mem_filter.mp hr).2
  have hle := (List.subperm_of_subset hnodup hsubset).length_le
  rw [List.length_map] at hle
  exact hle.trans hselected.length_le

theorem Inv.deleteRows (h : Inv settings s)
    (hselected : Selected settings s limit uidRowidPairs selectedAt) :
    Inv settings (s.deleteRows uidRowidPairs selectedAt) := by
  refine ⟨h.stored, List.filter_sublist.trans h.sublist, h.deleteRows_suffix hselected, ?_,
    h.total_le, ?_, fun hphase => (h.selected hphase).filter _ rfl rfl⟩
  · intro p hp
    rcases List.mem_append.mp hp with hp | hp
    · exact h.old p hp
    · obtain ⟨r, hr, rfl⟩ := List.mem_map.mp hp
      obtain ⟨hr, hpaired⟩ := List.mem_filter.mp hr
      exact hselected.old r (h.sublist.subset hr) (of_decide_eq_true hpaired)
  · have := h.total_le_purged
    simp only [Collection.deleteRows, List.length_append]
    omega

theorem Inv.candidates (h : Inv settings s) (limit : ℕ) :
    Selected settings s limit ((candidateRows settings limit s.clock s.rows).map DataRow.key)
      s.clock := by
  refine ⟨?_, ?_, ?_, ?_⟩
  · intro pair hpair
    obtain ⟨r, hr, hkey⟩ := List.mem_map.mp hpair
    exact ⟨r, h.sublist.subset (candidateRows_mem hr).1, hkey⟩
  · intro r hr hkey
    obtain ⟨r', hr', hkey'⟩ := List.mem_map.mp hkey
    obtain ⟨hmem, hold⟩ := candidateRows_mem hr'
    have heq := eq_of_key_eq h.stored (h.sublist.subset hmem) hr hkey'
    exact heq ▸ hold
  · intro r hr r' hr' huid hle hkey
    obtain ⟨r₀, hr₀, hkey₀⟩ := List.mem_map.mp hkey
    have heq := eq_of_key_eq h.rows (candidateRows_mem hr₀).1 hr hkey₀
    rw [heq] at hr₀
    exact List.mem_map_of_mem (candidateRows_downward h.rows hr₀ hr' huid hle)
  · rw [List.length_map]
    exact candidateRows_length_le

theorem Inv.answerDelete (h : Inv settings s) {estimate totalDeleted : ℕ}
    (hphase : s.phase = .deleting estimate totalDeleted uidRowidPairs selectedAt) :
    Inv settings { s.deleteRows uidRowidPairs selectedAt with
      phase := .loop estimate (totalDeleted + s.rows.countP (isPaired uidRowidPairs)) } := by
  have hselected := h.selected hphase
  have hnum := h.numDeleted_le hselected
  have htotal := h.total_le
  have hpurged := h.total_le_purged
  rw [hphase] at htotal hpurged
  simp only [Phase.totalDeleted, Phase.estimate] at htotal hpurged
  apply (h.deleteRows hselected).withPhase
  · rw [loop_totalDeleted, loop_estimate]
    omega
  · rw [loop_totalDeleted, Collection.deleteRows, List.length_append, List.length_map,
      ← List.countP_eq_length_filter]
    omega
  · exact loop_ne_deleting _ _

theorem Inv.answerQuery (h : Inv settings s) {estimate totalDeleted : ℕ}
    (hphase : s.phase = .querying estimate totalDeleted) :
    Inv settings { s with
      phase := (.deleting estimate totalDeleted
        ((candidateRows settings (min settings.maxDeleteBatchSize (estimate - totalDeleted))
          s.clock s.rows).map DataRow.key) s.clock : Phase U) } := by
  have htotal := h.total_le
  have hpurged := h.total_le_purged
  rw [hphase] at htotal hpurged
  refine ⟨h.stored, h.sublist, h.suffix, h.old, htotal, hpurged, ?_⟩
  intro estimate' totalDeleted' uidRowidPairs' selectedAt' hdeleting
  cases hdeleting
  have hselected := h.candidates (min settings.maxDeleteBatchSize (estimate - totalDeleted))
  exact ⟨hselected.stored, hselected.old, hselected.downward,
    hselected.length_le.trans (Nat.min_le_right _ _)⟩

theorem Inv.act {a : Action U} (h : Inv settings s) (hact : Collection.act settings a s = some t) :
    Inv settings t := by
  cases a with
  | append rows =>
    simp only [Collection.act] at hact
    split at hact
    · next hrows =>
      cases hact
      exact h.append hrows
    · cases hact
  | deleteMetric uid =>
    cases hact
    exact h.deleteMetric uid
  | tick seconds =>
    cases hact
    exact ⟨h.stored, h.sublist, h.suffix, h.old, h.total_le, h.total_le_purged,
      fun hphase => ⟨(h.selected hphase).stored, (h.selected hphase).old,
        (h.selected hphase).downward, (h.selected hphase).length_le⟩⟩
  | estimateNumRowsToDelete execution =>
    simp only [Collection.act] at hact
    split at hact
    · cases hact
      apply h.withPhase
      · simp
      · simp
      · exact loop_ne_deleting _ _
    · cases hact
      exact h
    · cases hact
  | queryCandidateRows execution =>
    simp only [Collection.act] at hact
    split at hact
    · next estimate totalDeleted hphase =>
      have htotal := h.total_le
      have hpurged := h.total_le_purged
      rw [hphase] at htotal hpurged
      split at hact
      · cases hact
        exact h.withPhase htotal hpurged (by simp)
      · cases hact
        exact h.answerQuery hphase
    · cases hact
      exact h
    · cases hact
  | deleteRows execution =>
    simp only [Collection.act] at hact
    split at hact
    · next hphase =>
      cases hact
      exact h.answerDelete hphase
    · next hphase =>
      cases hact
      exact h.deleteRows (h.selected hphase)
    · cases hact
      exact h
    · cases hact
  | giveUp =>
    have htotal := h.total_le
    have hpurged := h.total_le_purged
    simp only [Collection.act] at hact
    split at hact
    · cases hact
    · cases hact
    · cases hact
      exact h.withPhase htotal hpurged (by simp)

/-! ## The rounds of the loop -/

/-- A round of the loop, whose delete was answered in the end. -/
def isRound (p : Collection U × Action U) : Bool := p.2 = .deleteRows .answered

def isReplyLost (p : Collection U × Action U) : Bool := p.2 = .deleteRows .replyLost

/-- What is about to be deleted is there, or its delete has been executed with its reply lost. -/
structure Progress (rounds repliesLost : ℕ) (s : Collection U) : Prop where
  rounds_le : rounds ≤ s.phase.totalDeleted + repliesLost
  pending : ∀ {estimate totalDeleted uidRowidPairs selectedAt},
    s.phase = .deleting estimate totalDeleted uidRowidPairs selectedAt →
      (∃ r ∈ s.rows, r.key ∈ uidRowidPairs) ∨ rounds + 1 ≤ totalDeleted + repliesLost

variable {rounds repliesLost : ℕ}

omit [LinearOrder U] in
theorem Progress.withPhase {phase : Phase U}
    (hrounds : rounds ≤ phase.totalDeleted + repliesLost)
    (hnone : ∀ estimate totalDeleted uidRowidPairs selectedAt,
      phase ≠ .deleting estimate totalDeleted uidRowidPairs selectedAt) (s : Collection U) :
    Progress rounds repliesLost { s with phase := phase } :=
  ⟨hrounds, fun hdeleting => absurd hdeleting (hnone _ _ _ _)⟩

/-- The row that a round is to delete is deleted by it, or was by a delete without a reply. -/
theorem Progress.act {a : Action U} (h : Progress rounds repliesLost s)
    (hact : Collection.act settings a s = some t) (hothers : ∀ uid, a ≠ .deleteMetric uid) :
    Progress (rounds + if isRound (s, a) then 1 else 0)
      (repliesLost + if isReplyLost (s, a) then 1 else 0) t := by
  have hrounds := h.rounds_le
  cases a with
  | append rows =>
    simp only [Collection.act] at hact
    split at hact
    · cases hact
      refine ⟨by simpa [isRound, isReplyLost, Phase.totalDeleted] using hrounds, ?_⟩
      intro estimate totalDeleted uidRowidPairs selectedAt hphase
      rcases h.pending hphase with ⟨r, hr, hkey⟩ | hlost
      · exact Or.inl ⟨r, List.mem_append_left _ hr, hkey⟩
      · exact Or.inr (by simpa [isRound, isReplyLost] using hlost)
    · cases hact
  | deleteMetric uid => exact absurd rfl (hothers uid)
  | tick seconds =>
    cases hact
    exact ⟨by simpa [isRound, isReplyLost, Phase.totalDeleted] using hrounds,
      fun hphase => by simpa [isRound, isReplyLost] using h.pending hphase⟩
  | estimateNumRowsToDelete execution =>
    simp only [Collection.act] at hact
    split at hact
    · next hphase =>
      cases hact
      rw [hphase] at hrounds
      simp only [Phase.totalDeleted] at hrounds
      exact Progress.withPhase (by simpa [isRound, isReplyLost] using hrounds)
        (loop_ne_deleting _ _) s
    · cases hact
      simpa [isRound, isReplyLost] using h
    · cases hact
  | queryCandidateRows execution =>
    simp only [Collection.act] at hact
    split at hact
    · next estimate totalDeleted hphase =>
      rw [hphase] at hrounds
      split at hact
      · cases hact
        exact Progress.withPhase
          (by simpa [isRound, isReplyLost, Phase.totalDeleted] using hrounds) (by simp) s
      · next hnonempty =>
        cases hact
        refine ⟨by simpa [isRound, isReplyLost, Phase.totalDeleted] using hrounds, ?_⟩
        intro estimate' totalDeleted' uidRowidPairs' selectedAt' hdeleting
        cases hdeleting
        obtain ⟨r, hr⟩ := List.exists_mem_of_ne_nil _
          (fun hnil => hnonempty (List.isEmpty_iff.mpr hnil))
        obtain ⟨r', hr', rfl⟩ := List.mem_map.mp hr
        exact Or.inl ⟨r', (candidateRows_mem hr').1, hr⟩
    · cases hact
      simpa [isRound, isReplyLost] using h
    · cases hact
  | deleteRows execution =>
    simp only [Collection.act] at hact
    split at hact
    · next estimate totalDeleted uidRowidPairs selectedAt hphase =>
      cases hact
      rw [hphase] at hrounds
      simp only [Phase.totalDeleted] at hrounds
      refine Progress.withPhase ?_ (loop_ne_deleting _ _) _
      rw [loop_totalDeleted]
      simp only [isRound, isReplyLost, decide_true, if_true]
      rcases h.pending hphase with ⟨r, hr, hkey⟩ | hlost
      · have hpos : 0 < s.rows.countP (isPaired uidRowidPairs) :=
          List.countP_pos_iff.mpr ⟨r, hr, decide_eq_true hkey⟩
        omega
      · omega
    · next estimate totalDeleted uidRowidPairs selectedAt hphase =>
      cases hact
      have htotal : s.phase.totalDeleted = totalDeleted := by rw [hphase]; rfl
      refine ⟨?_, ?_⟩
      · simp only [isRound, isReplyLost, Collection.deleteRows]
        simp
        omega
      · intro estimate' totalDeleted' uidRowidPairs' selectedAt' hdeleting
        simp only [Collection.deleteRows] at hdeleting
        cases hphase.symm.trans hdeleting
        right
        simp [isRound, isReplyLost]
        omega
    · cases hact
      simpa [isRound, isReplyLost] using h
    · cases hact
  | giveUp =>
    simp only [Collection.act] at hact
    split at hact
    · cases hact
    · cases hact
    · cases hact
      exact Progress.withPhase
        (by simpa [isRound, isReplyLost, Phase.totalDeleted] using hrounds) (by simp) s

theorem run_progress {tr : List (Collection U × Action U)}
    (h : Run (collectionSystem settings) tr s)
    (hothers : ∀ p ∈ tr, ∀ uid, p.2 ≠ .deleteMetric uid) :
    Progress (tr.countP isRound) (tr.countP isReplyLost) s := by
  induction h with
  | @init s hinit =>
    obtain ⟨-, -, hphase, -⟩ := hinit
    refine ⟨by simp, ?_⟩
    intro _ _ _ _ hdeleting
    cases hphase.symm.trans hdeleting
  | @step tr s t a hs hn ih =>
    obtain ⟨hothers, hlast⟩ := List.forall_mem_append.mp hothers
    have hprogress := (ih hothers).act hn (hlast (s, a) (List.mem_singleton_self _))
    simpa [List.countP_append, List.countP_singleton] using hprogress

/-! ## Runs without end -/

/-- Once the estimate is made it stays. -/
theorem estimate_of_act {a : Action U} (hact : Collection.act settings a s = some t)
    (hphase : s.phase ≠ .estimating) :
    t.phase ≠ .estimating ∧ t.phase.estimate = s.phase.estimate := by
  have hloop : ∀ estimate totalDeleted, (Phase.loop estimate totalDeleted : Phase U) ≠
      .estimating := by
    intro estimate totalDeleted
    rw [Phase.loop]
    split
    · simp
    · simp
  cases a with
  | append rows =>
    simp only [Collection.act] at hact
    split at hact
    · cases hact
      exact ⟨hphase, rfl⟩
    · cases hact
  | deleteMetric uid =>
    cases hact
    exact ⟨hphase, rfl⟩
  | tick seconds =>
    cases hact
    exact ⟨hphase, rfl⟩
  | estimateNumRowsToDelete execution =>
    simp only [Collection.act] at hact
    split at hact
    · exact absurd ‹s.phase = .estimating› hphase
    · exact absurd ‹s.phase = .estimating› hphase
    · cases hact
  | queryCandidateRows execution =>
    simp only [Collection.act] at hact
    split at hact
    · next hquerying =>
      rw [hquerying]
      split at hact
      · cases hact
        exact ⟨by simp, rfl⟩
      · cases hact
        exact ⟨by simp, rfl⟩
    · cases hact
      exact ⟨hphase, rfl⟩
    · cases hact
  | deleteRows execution =>
    simp only [Collection.act] at hact
    split at hact
    · next hdeleting =>
      cases hact
      rw [hdeleting]
      exact ⟨hloop _ _, loop_estimate _ _⟩
    · cases hact
      exact ⟨hphase, rfl⟩
    · cases hact
      exact ⟨hphase, rfl⟩
    · cases hact
  | giveUp =>
    simp only [Collection.act] at hact
    split at hact
    · cases hact
    · cases hact
    · cases hact
      exact ⟨by simp, rfl⟩

section Infinite

variable {states : ℕ → Collection U} {actions : ℕ → Action U}

/-- The loop makes finitely many rounds. -/
def LoopEnds (actions : ℕ → Action U) : Prop := ∃ n, ∀ k ≥ n, actions k ≠ .deleteRows .answered

def FinitelyManyRepliesLost (actions : ℕ → Action U) : Prop :=
  ∃ n, ∀ k ≥ n, actions k ≠ .deleteRows .replyLost

def NobodyElseDeletes (actions : ℕ → Action U) : Prop := ∀ k uid, actions k ≠ .deleteMetric uid

theorem estimate_eq (h : InfiniteRun (collectionSystem settings) states actions) {n : ℕ}
    (hn : (states n).phase ≠ .estimating) (k : ℕ) :
    (states (n + k)).phase ≠ .estimating ∧
      (states (n + k)).phase.estimate = (states n).phase.estimate := by
  induction k with
  | zero => exact ⟨hn, rfl⟩
  | succ k ih =>
    obtain ⟨hphase, hestimate⟩ := estimate_of_act (h.next (n + k)) ih.1
    exact ⟨hphase, hestimate.trans ih.2⟩

/-- Rounds are counted up to any number if they go on for ever. -/
theorem exists_countP_range {p : ℕ → Bool} (h : ∀ n, ∃ k ≥ n, p k = true) (m : ℕ) :
    ∀ start, ∃ n ≥ start, m ≤ (List.range n).countP p := by
  induction m with
  | zero => exact fun start => ⟨start, Nat.le_refl _, Nat.zero_le _⟩
  | succ m ih =>
    intro start
    obtain ⟨n, hn, hm⟩ := ih start
    obtain ⟨k, hk, hp⟩ := h n
    refine ⟨k + 1, by omega, ?_⟩
    have hmono : (List.range n).countP p ≤ (List.range k).countP p :=
      (List.range_sublist.mpr hk).countP_le
    rw [List.range_succ, List.countP_append, List.countP_singleton, if_pos hp]
    omega

theorem countP_range_le {p : ℕ → Bool} {n : ℕ} (h : ∀ k ≥ n, p k = false) (m : ℕ) :
    (List.range m).countP p ≤ n := by
  induction m with
  | zero => simp
  | succ m ih =>
    rw [List.range_succ, List.countP_append, List.countP_singleton]
    by_cases hm : m < n
    · have hle : (List.range m).countP p ≤ m := by
        simpa using List.countP_le_length (p := p) (l := List.range m)
      split
      · omega
      · omega
    · rw [h m (by omega)]
      simpa using ih

theorem loopEnds_of_finitelyManyRepliesLost
    (h : InfiniteRun (collectionSystem settings) states actions)
    (hothers : NobodyElseDeletes actions) (hlost : FinitelyManyRepliesLost actions) :
    LoopEnds actions := by
  by_contra hendless
  have hforever : ∀ n, ∃ k ≥ n, decide (actions k = .deleteRows .answered) = true := by
    intro n
    by_contra hnone
    refine hendless ⟨n, fun k hk heq => hnone ⟨k, hk, decide_eq_true heq⟩⟩
  obtain ⟨lastLost, hlost⟩ := hlost
  obtain ⟨first, -, hfirst⟩ := hforever 0
  have hphase : (states first).phase ≠ .estimating := by
    intro hestimating
    have hnext := h.next first
    rw [of_decide_eq_true hfirst] at hnext
    simp [collectionSystem, Collection.act, hestimating] at hnext
  obtain ⟨n, hn, hcount⟩ := exists_countP_range hforever
    ((states first).phase.estimate + lastLost + 1) first
  obtain ⟨k, rfl⟩ := Nat.exists_eq_add_of_le hn
  have hrun := h.run (first + k)
  have hprogress := run_progress hrun (by
    intro p hp uid
    obtain ⟨j, -, rfl⟩ := List.mem_map.mp hp
    exact hothers j uid)
  have hinv : Inv settings (states (first + k)) := hrun.reachable.invariant (I := Inv settings)
    (fun _ hinit => inv_init hinit) (fun _ _ _ _ hI hnext => hI.act hnext)
  have hrounds := hprogress.rounds_le
  have htotal := hinv.total_le
  rw [(estimate_eq h hphase k).2] at htotal
  rw [List.countP_map, List.countP_map] at hrounds
  have hfew : (List.range (first + k)).countP
      (isReplyLost ∘ fun k => (states k, actions k)) ≤ lastLost :=
    countP_range_le (fun j hj => decide_eq_false (hlost j hj)) _
  have hmany : (states first).phase.estimate + lastLost + 1 ≤
      (List.range (first + k)).countP (isRound ∘ fun k => (states k, actions k)) := hcount
  omega

end Infinite

/-- Only the old end of a metric goes, only rows that were old when they were selected, no more are
reported than were estimated and deleted, and the loop ends unless replies are lost for ever. -/
theorem old_end_trimmed (settings : Settings) :
    (∀ s : Collection U, Reachable (collectionSystem settings) s →
      (∀ uid, (s.rows.filter fun r => r.uid = uid) <:+ s.stored.filter fun r => r.uid = uid) ∧
      (∀ p ∈ s.purged, isOld settings p.2 p.1 = true) ∧
      ∀ estimate totalDeleted, s.phase = .returned estimate totalDeleted →
        totalDeleted ≤ estimate ∧ totalDeleted ≤ s.purged.length) ∧
    ∀ (states : ℕ → Collection U) (actions : ℕ → Action U),
      InfiniteRun (collectionSystem settings) states actions → NobodyElseDeletes actions →
        FinitelyManyRepliesLost actions → LoopEnds actions := by
  constructor
  · intro s hs
    have hinv : Inv settings s := hs.invariant (I := Inv settings)
      (fun _ hinit => inv_init hinit) (fun _ _ _ _ hI hnext => hI.act hnext)
    refine ⟨hinv.suffix, hinv.old, ?_⟩
    intro estimate totalDeleted hphase
    have htotal := hinv.total_le
    have hpurged := hinv.total_le_purged
    rw [hphase] at htotal hpurged
    exact ⟨htotal, hpurged⟩
  · exact fun states actions h hothers hlost => loopEnds_of_finitelyManyRepliesLost h hothers hlost

end Purge

/-! ### Two metrics -/

/-- Of the metrics 0 and 1 three rows are old at the time 10 and one is not. -/
def twoMetrics : Collection ℕ :=
  ⟨[⟨0, 1, 0⟩, ⟨1, 1, 2⟩, ⟨0, 2, 3⟩, ⟨0, 3, 9⟩], 10, .estimating,
    [⟨0, 1, 0⟩, ⟨1, 1, 2⟩, ⟨0, 2, 3⟩, ⟨0, 3, 9⟩], []⟩

/-- Batches of two rows; a row is stored between the query and the delete. -/
def twoBatches : List (Action ℕ) :=
  [.estimateNumRowsToDelete .answered, .queryCandidateRows .answered, .append [⟨1, 2, 3⟩],
    .deleteRows .answered, .queryCandidateRows .answered, .deleteRows .answered]

def emptyTable (phase : Phase ℕ) : Collection ℕ := ⟨[], 0, phase, [], []⟩

/-- Nothing to purge, and an idle database ever after. -/
def idleStates : ℕ → Collection ℕ
  | 0 => emptyTable .estimating
  | _ + 1 => emptyTable (.returned 0 0)

def idleActions : ℕ → Action ℕ
  | 0 => .estimateNumRowsToDelete .answered
  | _ + 1 => .tick 0

theorem old_end_trimmed_two_metrics :
    (∃ s, (collectionSystem ⟨5, 2⟩).exec twoBatches twoMetrics = some s ∧
      s.phase = .returned 3 3 ∧ s.rows = [⟨0, 3, 9⟩, ⟨1, 2, 3⟩] ∧ 3 ≤ s.purged.length) ∧
      LoopEnds idleActions := by
  have hinit : (collectionSystem ⟨5, 2⟩).init twoMetrics := ⟨rfl, by decide, rfl, rfl⟩
  have hexec : ∃ s, (collectionSystem ⟨5, 2⟩).exec twoBatches twoMetrics = some s ∧
      s.phase = .returned 3 3 ∧ s.rows = [⟨0, 3, 9⟩, ⟨1, 2, 3⟩] := ⟨_, rfl, rfl, rfl⟩
  have hidle : InfiniteRun (collectionSystem ⟨5, 2⟩) idleStates idleActions := by
    refine ⟨⟨rfl, .nil, rfl, rfl⟩, ?_⟩
    intro n
    cases n with
    | zero => rfl
    | succ n => rfl
  have hothers : NobodyElseDeletes idleActions := by
    intro k uid
    cases k with
    | zero => simp [idleActions]
    | succ k => simp [idleActions]
  have hlost : FinitelyManyRepliesLost idleActions := by
    refine ⟨0, fun k _ => ?_⟩
    cases k with
    | zero => simp [idleActions]
    | succ k => simp [idleActions]
  obtain ⟨s, hs, hphase, hrows⟩ := hexec
  have htrimmed := (old_end_trimmed ⟨5, 2⟩).1 s ((Reachable.init hinit).exec hs)
  exact ⟨⟨s, hs, hphase, hrows, (htrimmed.2.2 3 3 hphase).2⟩,
    (old_end_trimmed ⟨5, 2⟩).2 idleStates idleActions hidle hothers hlost⟩

/-! ### Replies lost for ever -/

section RepliesLost

/-- The stages of a round whose delete is executed twice, and of the row that comes after it. -/
inductive Stage where
  | querying
  | deleting
  | deletedUnheard
  | drained
  deriving DecidableEq, Repr

def nextStage : ℕ × Stage → ℕ × Stage
  | (k, .querying) => (k, .deleting)
  | (k, .deleting) => (k, .deletedUnheard)
  | (k, .deletedUnheard) => (k, .drained)
  | (k, .drained) => (k + 1, .querying)

def oldRow (k : ℕ) : DataRow ℕ := ⟨0, k, 0⟩

/-- The rows up to `k` were stored, and the first `purged` of them are purged. -/
def unheardTable (k purged : ℕ) (rows : List (DataRow ℕ)) (phase : Phase ℕ) : Collection ℕ :=
  ⟨rows, 1, phase, (List.range (k + 1)).map oldRow,
    (List.range purged).map fun k => (oldRow k, 1)⟩

def stageTable : ℕ × Stage → Collection ℕ
  | (k, .querying) => unheardTable k k [oldRow k] (.querying 1 0)
  | (k, .deleting) => unheardTable k k [oldRow k] (.deleting 1 0 [(0, k)] 1)
  | (k, .deletedUnheard) => unheardTable k (k + 1) [] (.deleting 1 0 [(0, k)] 1)
  | (k, .drained) => unheardTable k (k + 1) [] (.querying 1 0)

def stageAction : ℕ × Stage → Action ℕ
  | (_, .querying) => .queryCandidateRows .answered
  | (_, .deleting) => .deleteRows .replyLost
  | (_, .deletedUnheard) => .deleteRows .answered
  | (k, .drained) => .append [oldRow (k + 1)]

def unheardStates : ℕ → Collection ℕ
  | 0 => unheardTable 0 0 [oldRow 0] .estimating
  | n + 1 => stageTable (nextStage^[n] (0, .querying))

def unheardActions : ℕ → Action ℕ
  | 0 => .estimateNumRowsToDelete .answered
  | n + 1 => stageAction (nextStage^[n] (0, .querying))

theorem oldRow_pairwise (n : ℕ) : ((List.range n).map oldRow).Pairwise DataRow.Before := by
  apply List.pairwise_map.mpr
  apply List.pairwise_lt_range.imp
  intro a b hlt _
  exact ⟨hlt, le_refl _⟩

theorem stage_next (p : ℕ × Stage) :
    (collectionSystem ⟨0, 1000⟩).next (stageAction p) (stageTable p) =
      some (stageTable (nextStage p)) := by
  obtain ⟨k, stage⟩ := p
  cases stage with
  | querying =>
    simp [collectionSystem, stageAction, stageTable, nextStage, unheardTable, Collection.act,
      candidateRows, isOld, oldRow, DataRow.key]
  | deleting =>
    simp [collectionSystem, stageAction, stageTable, nextStage, unheardTable, Collection.act,
      Collection.deleteRows, isPaired, oldRow, DataRow.key, List.range_succ]
  | deletedUnheard =>
    simp [collectionSystem, stageAction, stageTable, nextStage, unheardTable, Collection.act,
      Collection.deleteRows, Phase.loop]
  | drained =>
    have hstored : (List.range (k + 1)).map oldRow ++ [oldRow (k + 1)] =
        (List.range (k + 1 + 1)).map oldRow := by
      rw [List.range_succ (n := k + 1), List.map_append]
      rfl
    have hpairwise := oldRow_pairwise (k + 1 + 1)
    simp only [collectionSystem, stageAction, stageTable, nextStage, unheardTable, Collection.act,
      hstored, if_pos hpairwise, List.nil_append]

theorem unheard_infiniteRun :
    InfiniteRun (collectionSystem ⟨0, 1000⟩) unheardStates unheardActions := by
  refine ⟨⟨rfl, oldRow_pairwise 1, rfl, rfl⟩, ?_⟩
  intro n
  cases n with
  | zero => rfl
  | succ n =>
    have hnext := stage_next (nextStage^[n] (0, .querying))
    rw [← Function.iterate_succ_apply' nextStage n (0, .querying)] at hnext
    exact hnext

theorem nextStage_rounds (n : ℕ) : nextStage^[4 * n] (0, .querying) = (n, .querying) := by
  induction n with
  | zero => rfl
  | succ n ih =>
    rw [Nat.mul_succ, Nat.add_comm, Function.iterate_add_apply, ih]
    rfl

/-- Every delete is executed, answered to nobody and executed again on nothing, and the next row is
old already when it comes. -/
theorem loop_without_end :
    InfiniteRun (collectionSystem ⟨0, 1000⟩) unheardStates unheardActions ∧
      NobodyElseDeletes unheardActions ∧ ¬LoopEnds unheardActions := by
  refine ⟨unheard_infiniteRun, ?_, ?_⟩
  · intro k uid
    cases k with
    | zero => simp [unheardActions]
    | succ n =>
      rw [unheardActions]
      obtain ⟨k, stage⟩ := nextStage^[n] (0, .querying)
      cases stage with
      | querying => simp [stageAction]
      | deleting => simp [stageAction]
      | deletedUnheard => simp [stageAction]
      | drained => simp [stageAction]
  · rintro ⟨n, hends⟩
    apply hends (2 + 4 * n + 1) (by omega)
    rw [unheardActions, Function.iterate_add_apply, nextStage_rounds]
    rfl

end RepliesLost

end NumentaApps.GarbageCollector
