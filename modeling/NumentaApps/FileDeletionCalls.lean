import NumentaApps.FileDeletion

/-!
# Deleting a file and calling back

What a database holds after any calls that put records and delete files, and exactly when a
deletion calls back once: not for a file without metrics, and not when the deletions of more
than one metric fail.
-/
namespace NumentaApps.Unicorn.DatabaseService

open KeyRange OpenTransactions TransitionSystem

variable {V : Type} {db db₀ : Database V} {c : Contents V} {s : Deletion V} {fileId : HashId}
  {fails : Step → Bool} {l : Sublevel}

/-- The metric of a record. -/
def ownerOf : (l : Sublevel) → Id l → Option MetricId
  | .file, _ => none
  | .metric, m | .model, m => some m
  | .metricData, x | .modelData, x => some x.1

/-- The metrics that the database knows of a file. -/
def Listed (c : Contents V) (fileId : HashId) (m : MetricId) : Prop :=
  m.file = fileId ∧ (c .metric m).isSome

/-- The records that `deleteFile` removes: that of the file, and those of its metrics whose
operation and all before it succeed. -/
def Goes (c : Contents V) (fileId : HashId) (fails : Step → Bool) (l : Sublevel) (x : Id l) :
    Prop :=
  fails .file = false ∧
    ((l = .file ∧ keyOf l x = fileId.text) ∨
      fails .metricKeys = false ∧ ∃ m, ownerOf l x = some m ∧ Listed c fileId m ∧
        ∀ stage : Stage, stage.rank ≤ l.stage.rank → fails (.chain m.text stage) = false)

open Classical in
noncomputable def Contents.deleteFile (fileId : HashId) (fails : Step → Bool) (c : Contents V) :
    Contents V := fun l x => if Goes c fileId fails l x then none else c l x

/-- Everything that belongs to a file, when nothing fails. -/
abbrev BelongsTo (c : Contents V) (fileId : HashId) (l : Sublevel) (x : Id l) : Prop :=
  Goes c fileId (fun _ => false) l x

theorem Goes.belongsTo {x : Id l} (h : Goes c fileId fails l x) : BelongsTo c fileId l x := by
  refine ⟨rfl, h.2.imp id fun hmetrics => ⟨rfl, ?_⟩⟩
  obtain ⟨m, howner, hlisted, -⟩ := hmetrics.2
  exact ⟨m, howner, hlisted, fun _ _ => rfl⟩

/-! ## Keys -/

theorem owns_iff {m : MetricId} {x : Id l} :
    Owns l m.text (keyOf l x) ↔ ownerOf l x = some m := by
  have hdata : ∀ x : MetricId × ℕ,
      m.text ≤ dataKey x ∧ dataKey x < endOf m.text ↔ some x.1 = some m := by
    intro x
    have hwithin := @dataKey_within m x []
    rw [List.append_nil] at hwithin
    rw [hwithin, Option.some.injEq]
    exact and_iff_left (not_lt.mp (List.not_lt_nil _))
  have hmetric : ∀ x : MetricId, x.text = m.text ↔ some x = some m := by
    intro x
    rw [Option.some.injEq]
    exact ⟨MetricId.text_inj, congrArg MetricId.text⟩
  cases l with
  | file => exact iff_of_false id fun h => by cases h
  | metric => exact hmetric x
  | model => exact hmetric x
  | metricData => exact hdata x
  | modelData => exact hdata x

/-- The keys that a deletion finds are those of the file's metrics. -/
theorem mem_metricIds (h : Represents db₀ c) {k : Key} :
    k ∈ keysWithin fileId.text (db₀ .metric) ↔ ∃ m, Listed c fileId m ∧ m.text = k := by
  have hwithin : ∀ m : MetricId,
      (fileId.text ≤ m.text ∧ m.text < endOf fileId.text) ↔ m.file = fileId := by
    intro m
    have hiff := @within_iff fileId.text m.file.text ('!' :: m.metric.text) []
      (by rw [fileId.length_eq, m.file.length_eq]) (separator_lt _)
    rw [List.append_nil] at hiff
    rw [MetricId.text, hiff]
    refine (and_iff_left (not_lt.mp (List.not_lt_nil _))).trans ⟨HashId.ext, congrArg _⟩
  rw [mem_keysWithin]
  constructor
  · rintro ⟨hk, document, hmem⟩
    obtain ⟨m, hm, hheld⟩ := (h.holds .metric (k, document)).mp hmem
    have hm : m.text = k := hm
    exact ⟨m, ⟨(hwithin m).mp (hm ▸ hk), Option.isSome_of_eq_some hheld⟩, hm⟩
  · rintro ⟨m, ⟨hfile, hlisted⟩, rfl⟩
    obtain ⟨document, hheld⟩ := Option.isSome_iff_exists.mp hlisted
    exact ⟨(hwithin m).mpr hfile, document, (h.holds .metric).mem hheld⟩

theorem Progress.listed (hprogress : Progress fileId fails db₀ db s.chains)
    (h : Represents db₀ c) {chain : Chain} (hchain : chain ∈ s.chains) :
    ∃ m, Listed c fileId m ∧ m.text = chain.metricId := by
  rw [← mem_metricIds h, ← hprogress.metricIds]
  exact List.mem_map_of_mem hchain

theorem Progress.exists_chain (hprogress : Progress fileId fails db₀ db s.chains)
    (h : Represents db₀ c) {m : MetricId} (hm : Listed c fileId m) :
    ∃ chain ∈ s.chains, chain.metricId = m.text := by
  have hmem : m.text ∈ s.chains.map Chain.metricId := by
    rw [hprogress.metricIds]
    exact (mem_metricIds h).mpr ⟨m, hm, rfl⟩
  exact List.mem_map.mp hmem

/-! ## What is left -/

open Classical in
/-- A database without some of its records. -/
theorem Represents.remove (h : Represents db₀ c) {p : Sublevel → Key → Prop}
    {q : (l : Sublevel) → Id l → Prop}
    (hdb : ∀ l e, e ∈ (db l).entries ↔ e ∈ (db₀ l).entries ∧ ¬ p l e.1)
    (hp : ∀ l x, p l (keyOf l x) ↔ q l x) :
    Represents db fun l x => if q l x then none else c l x := by
  refine ⟨fun l => (h.holds l).remove (hdb l) fun x _ => hp l x, fun l x hx => ?_⟩
  by_cases hq : q l x
  · rw [if_pos hq] at hx
    cases hx
  · rw [if_neg hq] at hx
    exact h.bounded l x hx

/-- What the chains have removed, by the records. -/
theorem removed_iff (hprogress : Progress fileId fails db₀ db s.chains) (h : Represents db₀ c)
    {x : Id l} : Removed fileId s.chains l (keyOf l x) ↔
      (l = .file ∧ keyOf l x = fileId.text) ∨ ∃ m, ownerOf l x = some m ∧ Listed c fileId m ∧
        ∃ chain ∈ s.chains, chain.metricId = m.text ∧ l.stage.rank < chain.stage.rank := by
  refine or_congr_right ⟨?_, ?_⟩
  · rintro ⟨chain, hchain, hlt, howns⟩
    obtain ⟨m, hlisted, hm⟩ := hprogress.listed h hchain
    exact ⟨m, owns_iff.mp (hm ▸ howns), hlisted, chain, hchain, hm.symm, hlt⟩
  · rintro ⟨m, howner, -, chain, hchain, hm, hlt⟩
    exact ⟨chain, hchain, hlt, hm ▸ owns_iff.mpr howner⟩

theorem Represents.withoutFile (h : Represents db₀ c) : Represents (withoutFile fileId db₀)
    (c.deleteFile fileId fun step => step ≠ .file) := by
  refine h.remove (p := fun l k => l = .file ∧ k = fileId.text) mem_withoutFile fun l x => ?_
  constructor
  · intro hfile
    exact ⟨rfl, .inl hfile⟩
  · rintro ⟨-, hfile | ⟨hkeys, -⟩⟩
    · exact hfile
    · cases hkeys

theorem deleteFile_congr {fails' : Step → Bool}
    (h : ∀ l x, Goes c fileId fails l x ↔ Goes c fileId fails' l x) :
    c.deleteFile fileId fails = c.deleteFile fileId fails' := by
  funext l x
  by_cases hgoes : Goes c fileId fails l x
  · rw [Contents.deleteFile, Contents.deleteFile, if_pos hgoes, if_pos ((h l x).mp hgoes)]
  · rw [Contents.deleteFile, Contents.deleteFile, if_neg hgoes,
      if_neg fun hgoes' => hgoes ((h l x).mpr hgoes')]

/-- A deletion that cannot even delete the file deletes nothing. -/
theorem deleteFile_failing (hfails : fails .file = true) : c.deleteFile fileId fails = c := by
  funext l x
  rw [Contents.deleteFile, if_neg]
  intro hgoes
  rw [hgoes.1] at hfails
  cases hfails

theorem Deleting.represents_of_failed (h : Deleting fileId fails db₀ s) (hc : Represents db₀ c)
    (hphase : s.phase = .failed) : Represents s.db (c.deleteFile fileId fails) := by
  rw [Deleting, hphase] at h
  obtain ⟨-, -, -, ⟨hfails, hdb⟩ | ⟨hfile, hfails, hdb⟩⟩ := h
  · rw [hdb, deleteFile_failing hfails]
    exact hc
  · have hsame : c.deleteFile fileId fails = c.deleteFile fileId fun step => step ≠ .file := by
      refine deleteFile_congr fun l x => ⟨fun hgoes => ⟨rfl, ?_⟩, fun hgoes => ⟨hfile, ?_⟩⟩
      · refine hgoes.2.imp id fun hmetrics => ?_
        rw [hfails] at hmetrics
        cases hmetrics.1
      · refine hgoes.2.imp id fun hmetrics => ?_
        cases hmetrics.1
    rw [hdb, hsame]
    exact hc.withoutFile

/-- What the metrics' deletions have removed, if they have come just as far as some failures
let them. -/
theorem Progress.represents (h : Progress fileId fails db₀ s.db s.chains) (hc : Represents db₀ c)
    {fails' : Step → Bool} (hfile : fails' .file = false) (hkeys : fails' .metricKeys = false)
    (hchains : ∀ chain ∈ s.chains, ∀ l : Sublevel, l ≠ .file →
      (l.stage.rank < chain.stage.rank ↔ ∀ stage : Stage, stage.rank ≤ l.stage.rank →
        fails' (.chain chain.metricId stage) = false)) :
    Represents s.db (c.deleteFile fileId fails') := by
  refine hc.remove h.entries fun l x => ?_
  rw [removed_iff h hc]
  refine ⟨fun hremoved => ⟨hfile, hremoved.imp id fun hmetric => ⟨hkeys, ?_⟩⟩,
    fun hgoes => hgoes.2.imp id fun hmetric => ?_⟩
  · obtain ⟨m, howner, hlisted, chain, hchain, hm, hlt⟩ := hmetric
    have hl : l ≠ .file := by
      rintro rfl
      cases howner
    exact ⟨m, howner, hlisted, hm ▸ (hchains chain hchain l hl).mp hlt⟩
  · obtain ⟨-, m, howner, hlisted, hpassed⟩ := hmetric
    have hl : l ≠ .file := by
      rintro rfl
      cases howner
    obtain ⟨chain, hchain, hm⟩ := h.exists_chain hc hlisted
    exact ⟨m, howner, hlisted, chain, hchain, hm,
      (hchains chain hchain l hl).mpr (hm.symm ▸ hpassed)⟩

theorem Sublevel.stage_rank_lt (hl : l ≠ .file) : l.stage.rank < 6 := by
  cases l <;> first | decide | exact absurd rfl hl

theorem Deleting.represents_of_ended (h : Deleting fileId fails db₀ s) (hc : Represents db₀ c)
    (hended : s.ended = true) : Represents s.db (c.deleteFile fileId fails) := by
  rw [Deletion.ended, Bool.or_eq_true, decide_eq_true_eq, Bool.and_eq_true, decide_eq_true_eq,
    List.all_eq_true] at hended
  rcases hended with hphase | ⟨hphase, hall⟩
  · exact h.represents_of_failed hc hphase
  · obtain ⟨hfile, hkeys, hprogress, -⟩ := (deleting_metrics hphase).mp h
    refine hprogress.represents hc hfile hkeys fun chain hchain l hl => ?_
    constructor
    · intro hlt stage hle
      exact hprogress.passed chain hchain stage (Nat.lt_of_le_of_lt hle hlt)
    · intro hpassed
      refine Nat.not_le.mp fun hle => ?_
      have hstage : chain.stage ≠ .deleted := by
        intro heq
        rw [heq] at hle
        exact absurd (Sublevel.stage_rank_lt hl) (Nat.not_lt.mpr hle)
      have hfailed : chain.failed = true := by
        have hend := hall chain hchain
        rw [Chain.ended, Bool.or_eq_true, decide_eq_true_eq] at hend
        exact hend.resolve_right hstage
      have hfails := (hprogress.stopped chain hchain hfailed).2
      rw [hpassed chain.stage hle] at hfails
      cases hfails

/-- At any moment only records that belong to the file are missing. -/
theorem Deleting.others (h : Deleting fileId fails db₀ s) (hc : Represents db₀ c) :
    ∃ c', Represents s.db c' ∧ ∀ l x, c' l x = c l x ∨ BelongsTo c fileId l x := by
  classical
  have hdeleted : ∀ fails' l x,
      c.deleteFile fileId fails' l x = c l x ∨ BelongsTo c fileId l x := by
    intro fails' l x
    rw [Contents.deleteFile]
    split
    · rename_i hgoes
      exact .inr hgoes.belongsTo
    · exact .inl rfl
  cases hphase : s.phase with
  | file =>
    rw [Deleting, hphase] at h
    exact ⟨c, h ▸ hc, fun _ _ => .inl rfl⟩
  | metricKeys =>
    rw [Deleting, hphase] at h
    rw [h.2]
    exact ⟨_, hc.withoutFile, hdeleted _⟩
  | failed => exact ⟨_, h.represents_of_failed hc hphase, hdeleted _⟩
  | metrics =>
    obtain ⟨-, -, hprogress, -⟩ := (deleting_metrics hphase).mp h
    refine ⟨_, hc.remove hprogress.entries fun l x => removed_iff hprogress hc, fun l x => ?_⟩
    split
    · rename_i hremoved
      refine .inr ⟨rfl, hremoved.imp id fun hmetric => ⟨rfl, ?_⟩⟩
      obtain ⟨m, howner, hlisted, -⟩ := hmetric
      exact ⟨m, howner, hlisted, fun _ _ => rfl⟩
    · exact .inl rfl

/-! ## The callback -/

/-- The callback is told of no error only when everything is deleted. -/
theorem Deleting.finished (h : Deleting fileId fails db₀ s) (hc : Represents db₀ c)
    (hcalled : none ∈ s.calls) :
    s.ended = true ∧ Represents s.db (c.deleteFile fileId fun _ => false) := by
  cases hphase : s.phase with
  | file =>
    rw [Deleting, hphase] at h
    rw [h] at hcalled
    cases hcalled
  | metricKeys =>
    rw [Deleting, hphase] at h
    rw [h.2] at hcalled
    cases hcalled
  | failed =>
    rw [Deleting, hphase] at h
    exact absurd hcalled h.2.2.1
  | metrics =>
    obtain ⟨-, -, hprogress, hcalls⟩ := (deleting_metrics hphase).mp h
    have hall := (hcalls.quiet hcalled).2
    constructor
    · rw [Deletion.ended, hphase, Bool.or_eq_true, Bool.and_eq_true, List.all_eq_true]
      refine .inr ⟨rfl, fun chain hchain => ?_⟩
      rw [Chain.ended, hall chain hchain, Bool.or_eq_true]
      exact .inr rfl
    · refine hprogress.represents hc rfl rfl fun chain hchain l hl => ?_
      rw [hall chain hchain]
      exact iff_of_true (Sublevel.stage_rank_lt hl) fun _ _ => rfl

/-- Some operation on the metric fails. -/
def FailsFor (fails : Step → Bool) (m : MetricId) : Prop :=
  ∃ stage : Stage, stage ≠ .deleted ∧ fails (.chain m.text stage) = true

/-- The file or its list of metrics cannot be deleted or read, or there are metrics, and not
more than one of them fails to be deleted. -/
def CallsBackOnce (c : Contents V) (fileId : HashId) (fails : Step → Bool) : Prop :=
  fails .file = true ∨ fails .metricKeys = true ∨
    ((∃ m, Listed c fileId m) ∧ ∀ m m', Listed c fileId m → Listed c fileId m' →
      FailsFor fails m → FailsFor fails m' → m = m')

/-- Counting what has distinct names. -/
theorem countP_le_one_iff {α β : Type} {p : α → Bool} {f : α → β} {as : List α}
    (hnd : (as.map f).Nodup) :
    as.countP p ≤ 1 ↔ ∀ a ∈ as, ∀ b ∈ as, p a → p b → f a = f b := by
  induction as with
  | nil => simp
  | cons a as ih =>
    rw [List.map_cons, List.nodup_cons] at hnd
    have hne : ∀ b ∈ as, f a ≠ f b := fun b hb heq => hnd.1 (heq ▸ List.mem_map_of_mem hb)
    cases hpa : p a with
    | false =>
      rw [List.countP_cons_of_neg (by simp [hpa]), ih hnd.2]
      refine ⟨fun h b hb b' hb' hpb hpb' => ?_, fun h b hb b' hb' =>
        h b (List.mem_cons_of_mem a hb) b' (List.mem_cons_of_mem a hb')⟩
      rcases List.mem_cons.mp hb with rfl | hb
      · rw [hpa] at hpb
        cases hpb
      rcases List.mem_cons.mp hb' with rfl | hb'
      · rw [hpa] at hpb'
        cases hpb'
      exact h b hb b' hb' hpb hpb'
    | true =>
      have hrest : (as.countP p + 1 ≤ 1) ↔ ∀ b ∈ as, ¬ p b = true := by
        rw [← List.countP_eq_zero]
        omega
      rw [List.countP_cons_of_pos hpa, hrest]
      constructor
      · intro h b hb b' hb' hpb hpb'
        rcases List.mem_cons.mp hb with rfl | hb
        · rcases List.mem_cons.mp hb' with rfl | hb'
          · rfl
          · exact absurd hpb' (h b' hb')
        · exact absurd hpb (h b hb)
      · intro h b hb hpb
        exact hne b hb (h a List.mem_cons_self b (List.mem_cons_of_mem a hb) hpa hpb)

theorem keysWithin_nodup (id : Key) (map : OrderedMap Key (Document V)) :
    (keysWithin id map).Nodup := by
  have hsorted := map.range_sorted id (endOf id)
  exact (List.pairwise_map.mpr hsorted).imp ne_of_lt

theorem Progress.failed_iff (h : Progress fileId fails db₀ db s.chains) {chain : Chain}
    (hchain : chain ∈ s.chains) (hended : chain.ended = true) :
    chain.failed = true ↔
      ∃ stage : Stage, stage ≠ .deleted ∧ fails (.chain chain.metricId stage) = true := by
  constructor
  · intro hfailed
    exact ⟨chain.stage, h.stopped chain hchain hfailed⟩
  · rintro ⟨stage, hstage, hfails⟩
    rw [Chain.ended, Bool.or_eq_true, decide_eq_true_eq] at hended
    refine hended.resolve_right fun hdeleted => ?_
    have hlt : stage.rank < chain.stage.rank := hdeleted ▸ Stage.rank_lt hstage
    rw [h.passed chain hchain stage hlt] at hfails
    cases hfails

/-- Exactly when a deletion that has come to its end has called back once. -/
theorem Deleting.once_iff (h : Deleting fileId fails db₀ s) (hc : Represents db₀ c)
    (hended : s.ended = true) : s.calls.length = 1 ↔ CallsBackOnce c fileId fails := by
  rw [Deletion.ended, Bool.or_eq_true, decide_eq_true_eq, Bool.and_eq_true, decide_eq_true_eq,
    List.all_eq_true] at hended
  rcases hended with hphase | ⟨hphase, hall⟩
  · rw [Deleting, hphase] at h
    obtain ⟨-, hone, -, ⟨hfails, -⟩ | ⟨-, hfails, -⟩⟩ := h
    · exact iff_of_true hone (.inl hfails)
    · exact iff_of_true hone (.inr (.inl hfails))
  obtain ⟨hfile, hkeys, hprogress, hcalled⟩ := (deleting_metrics hphase).mp h
  have hnd : (s.chains.map Chain.metricId).Nodup := by
    rw [hprogress.metricIds]
    exact keysWithin_nodup _ _
  have hfew : s.chains.countP Chain.failed ≤ 1 ↔ ∀ m m', Listed c fileId m →
      Listed c fileId m' → FailsFor fails m → FailsFor fails m' → m = m' := by
    rw [countP_le_one_iff hnd]
    constructor
    · intro hsame m m' hm hm' hfails hfails'
      obtain ⟨chain, hchain, hid⟩ := hprogress.exists_chain hc hm
      obtain ⟨chain', hchain', hid'⟩ := hprogress.exists_chain hc hm'
      have hfailed := (hprogress.failed_iff hchain (hall chain hchain)).mpr (hid ▸ hfails)
      have hfailed' := (hprogress.failed_iff hchain' (hall chain' hchain')).mpr (hid' ▸ hfails')
      have hids := hsame chain hchain chain' hchain' hfailed hfailed'
      exact MetricId.text_inj (hid.symm.trans (hids.trans hid'))
    · intro hsame chain hchain chain' hchain' hfailed hfailed'
      obtain ⟨m, hm, hid⟩ := hprogress.listed hc hchain
      obtain ⟨m', hm', hid'⟩ := hprogress.listed hc hchain'
      have hfails := (hprogress.failed_iff hchain (hall chain hchain)).mp hfailed
      have hfails' := (hprogress.failed_iff hchain' (hall chain' hchain')).mp hfailed'
      rw [← hid] at hfails
      rw [← hid'] at hfails'
      have hmm := hsame m m' hm hm' hfails hfails'
      rw [← hid, ← hid', hmm]
  have hsome : s.chains ≠ [] ↔ ∃ m, Listed c fileId m := by
    constructor
    · intro hne
      obtain ⟨chain, hchain⟩ := List.exists_mem_of_ne_nil _ hne
      obtain ⟨m, hm, -⟩ := hprogress.listed hc hchain
      exact ⟨m, hm⟩
    · rintro ⟨m, hm⟩
      obtain ⟨chain, hchain, -⟩ := hprogress.exists_chain hc hm
      exact List.ne_nil_of_mem hchain
  rw [CallsBackOnce, hfile, hkeys, ← hsome, ← hfew]
  simp only [Bool.false_eq_true, false_or]
  by_cases hdeleted : AllDeleted s.chains
  · have hnone : s.chains.countP Chain.failed = 0 := by
      refine List.countP_eq_zero.mpr fun chain hchain hfailed => ?_
      exact (hprogress.stopped chain hchain hfailed).1 (hdeleted.2 chain hchain)
    rw [hcalled.through hdeleted, hnone]
    exact iff_of_true rfl ⟨hdeleted.1, Nat.zero_le 1⟩
  · rw [hcalled.before hdeleted]
    constructor
    · intro hone
      refine ⟨?_, hone.le⟩
      intro hnil
      rw [hnil] at hone
      cases hone
    · rintro ⟨hne, hle⟩
      have hpos : 0 < s.chains.countP Chain.failed := by
        rw [List.countP_pos_iff]
        by_contra hnone
        refine hdeleted ⟨hne, fun chain hchain => ?_⟩
        have hend := hall chain hchain
        rw [Chain.ended, Bool.or_eq_true, decide_eq_true_eq] at hend
        exact hend.resolve_left fun hfailed => hnone ⟨chain, hchain, hfailed⟩
      omega

/-! ## Histories -/

/-- The databases that calls one after another lead to, with what they hold. A deletion may
fail in part and end its operations in any order. -/
inductive History (node : Node) (valid : Sublevel → Document V → Bool) :
    Database V → Contents V → Prop
  | empty : History node valid (.empty V) fun _ _ => none
  | put {db : Database V} {c : Contents V} (h : History node valid db c) (op : Put V)
    (hop : op.Bounded) : History node valid (op.apply valid db) (c.apply valid op)
  | deleteFile {db : Database V} {c : Contents V} (h : History node valid db c)
    (filename : String) (fails : Step → Bool) {tr : List (Deletion V × Deletion.Action)}
    {s : Deletion V} (hrun : Run (Deletion.system (generateFileId node filename) fails db) tr s)
    (hended : s.ended = true) :
    History node valid s.db (c.deleteFile (generateFileId node filename) fails)

variable {node : Node} {valid : Sublevel → Document V → Bool}

theorem History.represents (h : History node valid db c) : Represents db c := by
  induction h with
  | empty => exact represents_empty
  | put _ op hop ih => exact ih.apply valid hop
  | deleteFile _ filename fails hrun hended ih =>
    exact (deleting_of_run hrun).represents_of_ended ih hended

/-- The range reads return the records of one metric from the offset on, in the order of their
indices. -/
structure ReadsSequences (db : Database V) (c : Contents V) : Prop where
  modelData : ∀ (metricId : MetricId) (offset : Option ℕ), offset.getD 0 < 10 ^ 13 →
    ∃ read, IsSequence (c .modelData) metricId (offset.getD 0) read ∧
      getModelData metricId offset db = read.map fun r =>
        ["naive_time", "metric_value", "anomaly_score"].map r.2
  metricData : ∀ metricId : MetricId, ∃ read, IsSequence (c .metricData) metricId 0 read ∧
    getMetricData metricId db = read.map fun r => ["naive_time", "metric_value"].map r.2

/-- What `deleteFile` should do, whatever fails and in whatever order its operations end: it
comes to an end, and removes what belongs to the file and nothing else; and it calls back
once, without an error only after everything is deleted. -/
structure DeletesFile (fileId : HashId) (fails : Step → Bool) (db : Database V)
    (c : Contents V) : Prop where
  others : ∀ tr s, Run (Deletion.system fileId fails db) tr s →
    ∃ c', Represents s.db c' ∧ ∀ l x, c' l x = c l x ∨ BelongsTo c fileId l x
  removed : ∀ tr s, Run (Deletion.system fileId fails db) tr s → s.ended = true →
    Represents s.db (c.deleteFile fileId fails)
  finished : ∀ tr s, Run (Deletion.system fileId fails db) tr s → none ∈ s.calls →
    s.ended = true ∧ Represents s.db (c.deleteFile fileId fun _ => false)
  ends : ∀ tr s, Run (Deletion.system fileId fails db) tr s →
    tr.length ≤ 6 * (keysWithin fileId.text (db .metric)).length + 2 ∧
      (s.ended = false → ∃ a t, Deletion.next fileId fails a s = some t)
  once : ∀ tr s, Run (Deletion.system fileId fails db) tr s → s.ended = true →
    s.calls.length = 1

/-- After every history of calls the range reads return sequences, and the deletion of a file
does what it should exactly when the file or the list of its metrics cannot be deleted or
read, or the file has metrics of which at most one fails to be deleted. -/
theorem key_range_store (h : History node valid db c) : ReadsSequences db c ∧
    ∀ (filename : String) (fails : Step → Bool),
      DeletesFile (generateFileId node filename) fails db c ↔
        CallsBackOnce c (generateFileId node filename) fails := by
  have hc := h.represents
  refine ⟨⟨fun metricId _ => getModelData_sequence hc metricId, getMetricData_sequence hc⟩,
    fun filename fails => ⟨fun hdeletes => ?_, fun honce => ?_⟩⟩
  · have hstart : Run (Deletion.system (generateFileId node filename) fails db) [] (.start db) :=
      .init rfl
    obtain ⟨tr, s, hrun, hended⟩ := exists_ended hstart
    exact ((deleting_of_run hrun).once_iff hc hended).mp (hdeletes.once tr s hrun hended)
  · refine ⟨fun tr s hrun => (deleting_of_run hrun).others hc,
      fun tr s hrun => (deleting_of_run hrun).represents_of_ended hc,
      fun tr s hrun => (deleting_of_run hrun).finished hc, fun tr s hrun => ⟨?_, exists_next⟩,
      fun tr s hrun hended => ((deleting_of_run hrun).once_iff hc hended).mpr honce⟩
    exact Nat.le_trans (Nat.le_add_right _ _) (run_length_le hrun)

/-- The digests of a file's name and of the names of two metrics. -/
def sampleNode : Node where
  sha1 seed :=
    if seed = "a.csv" then "8445be2ae3760d3504bb4779f8c5c30641bf84de".toList
    else if seed = "x" then "11f6ad8ec52a2984abaafd7c3b516503785c2072".toList
    else if seed = "y" then "95cb0bfd2977c761298d9624e4b4d4c72a39974a".toList
    else List.replicate 40 '0'
  length_sha1 seed := by
    split
    · decide
    split
    · decide
    split
    · decide
    · exact List.length_replicate
  basename filename := filename

def putSample (metric : String) : Put ℕ :=
  .putMetric (generateMetricId sampleNode "a.csv" metric) fun _ => none

def sampleDatabase (metrics : List String) : Database ℕ :=
  metrics.foldl (fun db metric => (putSample metric).apply (fun _ _ => true) db) (.empty ℕ)

/-- A file with one metric, whose deletion fails nowhere. -/
theorem key_range_store_one_metric : ∃ c, ReadsSequences (sampleDatabase ["x"]) c ∧
    DeletesFile (generateFileId sampleNode "a.csv") (fun _ => false) (sampleDatabase ["x"]) c := by
  have hop : (putSample "x").Bounded := by
    intro r hr
    trivial
  have hhistory : History sampleNode (fun _ _ => true) (sampleDatabase ["x"]) _ :=
    .put .empty (putSample "x") hop
  obtain ⟨hreads, hdeletes⟩ := key_range_store hhistory
  refine ⟨_, hreads, (hdeletes "a.csv" fun _ => false).mpr (.inr (.inr ⟨?_, ?_⟩))⟩
  · refine ⟨generateMetricId sampleNode "a.csv" "x", rfl, ?_⟩
    rfl
  · rintro m m' - - ⟨stage, -, hfails⟩
    cases hfails

/-- Nobody is told of the deletion of a file without metrics, and two failures are two calls. -/
theorem deletion_does_not_call_back_once :
    ¬ DeletesFile (generateFileId sampleNode "a.csv") (fun _ => false) (sampleDatabase [])
        (fun _ _ => none) ∧
      ∃ tr s, Run (Deletion.system (generateFileId sampleNode "a.csv")
          (fun step => step ≠ .file ∧ step ≠ .metricKeys) (sampleDatabase ["x", "y"])) tr s ∧
        s.ended = true ∧ s.calls.length = 2 := by
  constructor
  · intro hdeletes
    have hexec : ∃ s, (Deletion.system (generateFileId sampleNode "a.csv") (fun _ => false)
        (sampleDatabase [])).exec [.file, .metricKeys] (.start (sampleDatabase [])) = some s ∧
          s.ended = true ∧ s.calls = [] := ⟨_, rfl, rfl, rfl⟩
    obtain ⟨s, hs, hended, hcalls⟩ := hexec
    have honce := hdeletes.once _ s ((Run.init rfl).exec_trace hs) hended
    rw [hcalls] at honce
    cases honce
  · obtain ⟨s, hs, hended⟩ := (Option.any_eq_true _ _).mp
      (by decide +kernel : ((Deletion.system (generateFileId sampleNode "a.csv")
        (fun step => step ≠ .file ∧ step ≠ .metricKeys) (sampleDatabase ["x", "y"])).exec
          [.file, .metricKeys, .chain 0, .chain 1] (.start (sampleDatabase ["x", "y"]))).any
        fun s => s.ended && decide (s.calls.length = 2))
    rw [Bool.and_eq_true, decide_eq_true_eq] at hended
    exact ⟨_, s, (Run.init rfl).exec_trace hs, hended⟩

end NumentaApps.Unicorn.DatabaseService
