import NumentaApps.DatabaseContents
import NumentaApps.OpenTransactions

/-!
# Deleting a file

What the nested deletions of `deleteFile` have removed at any moment, whatever subset of them
fails and in whatever order they end, and how often they call back.
-/
namespace NumentaApps.Unicorn.DatabaseService

open KeyRange OpenTransactions TransitionSystem

variable {V : Type} {db db₀ : Database V} {c : Contents V} {s s' : Deletion V} {fileId : HashId}
  {fails : Step → Bool} {chain : Chain} {l : Sublevel} {k : Key}

/-! ## What is removed -/

def Stage.rank : Stage → ℕ
  | .metric => 0
  | .metricDataKeys => 1
  | .metricData => 2
  | .model => 3
  | .modelDataKeys => 4
  | .modelData => 5
  | .deleted => 6

theorem Stage.rank_inj {a b : Stage} (h : a.rank = b.rank) : a = b := by
  cases a <;> cases b <;> first | rfl | cases h

/-- The operation that removes the records of a metric from a sublevel. No operation on a
metric removes files. -/
def Sublevel.stage : Sublevel → Stage
  | .file => .deleted
  | .metric => .metric
  | .metricData => .metricData
  | .model => .model
  | .modelData => .modelData

/-- The keys of the records of a metric in a sublevel. -/
def Owns : Sublevel → Key → Key → Prop
  | .file, _, _ => False
  | .metric, metricId, k | .model, metricId, k => k = metricId
  | .metricData, metricId, k | .modelData, metricId, k => metricId ≤ k ∧ k < endOf metricId

def Chain.Removes (chain : Chain) (l : Sublevel) (k : Key) : Prop :=
  l.stage.rank < chain.stage.rank ∧ Owns l chain.metricId k

def Removed (fileId : HashId) (chains : List Chain) (l : Sublevel) (k : Key) : Prop :=
  (l = .file ∧ k = fileId.text) ∨ ∃ chain ∈ chains, chain.Removes l k

theorem mem_keysWithin {id : Key} {map : OrderedMap Key (Document V)} :
    k ∈ keysWithin id map ↔ (id ≤ k ∧ k < endOf id) ∧ ∃ document, (k, document) ∈ map.entries := by
  rw [keysWithin, List.mem_map]
  constructor
  · rintro ⟨e, he, rfl⟩
    obtain ⟨hmem, hwithin⟩ := OrderedMap.mem_range.mp he
    exact ⟨hwithin, e.2, hmem⟩
  · rintro ⟨hwithin, document, hmem⟩
    exact ⟨_, OrderedMap.mem_range.mpr ⟨hmem, hwithin⟩, rfl⟩

/-- The keys that a scan has found are those of the metric, and no record of it is missing. -/
def Found (db : Database V) (l : Sublevel) (chain : Chain) : Prop :=
  (∀ k ∈ chain.uids, Owns l chain.metricId k) ∧
    ∀ e ∈ (db l).entries, Owns l chain.metricId e.1 → e.1 ∈ chain.uids

def FoundAll (db : Database V) (chain : Chain) : Prop :=
  (chain.stage = .metricData → Found db .metricData chain) ∧
    (chain.stage = .modelData → Found db .modelData chain)

theorem Found.mono {db' : Database V} (h : Found db l chain)
    (hdb : ∀ e ∈ (db' l).entries, e ∈ (db l).entries) : Found db' l chain :=
  ⟨h.1, fun e he => h.2 e (hdb e he)⟩

theorem change_self (db : Database V) (l : Sublevel)
    (f : OrderedMap Key (Document V) → OrderedMap Key (Document V)) :
    db.change l f l = f (db l) := Function.update_self ..

theorem change_of_ne (db : Database V) {l l' : Sublevel} (h : l' ≠ l)
    (f : OrderedMap Key (Document V) → OrderedMap Key (Document V)) :
    db.change l f l' = db l' := Function.update_of_ne h ..

/-- An operation that removes what a metric owns in one sublevel. -/
theorem mem_change {f : OrderedMap Key (Document V) → OrderedMap Key (Document V)}
    {P : Key → Prop} (hf : ∀ e, e ∈ (f (db l)).entries ↔ e ∈ (db l).entries ∧ ¬ P e.1)
    (l' : Sublevel) (e : Key × Document V) :
    e ∈ (db.change l f l').entries ↔ e ∈ (db l').entries ∧ ¬ (l' = l ∧ P e.1) := by
  by_cases hl : l' = l
  · subst hl
    rw [change_self, hf]
    simp only [true_and]
  · rw [change_of_ne _ hl]
    simp only [hl, false_and, not_false_eq_true, and_true]

/-- What the success of one operation does: the metric comes one stage further, and what the
operation removes is gone. -/
structure Succeeds (db db' : Database V) (chain chain' : Chain) : Prop where
  metricId : chain'.metricId = chain.metricId
  failed : chain'.failed = chain.failed
  rank : chain'.stage.rank = chain.stage.rank + 1
  entries : ∀ l e, e ∈ (db' l).entries ↔
    e ∈ (db l).entries ∧ ¬ (l.stage = chain.stage ∧ Owns l chain.metricId e.1)
  found : FoundAll db' chain'

theorem found_keysWithin {l : Sublevel} (hl : l = .metricData ∨ l = .modelData) :
    Found db l { chain with uids := keysWithin chain.metricId (db l) } := by
  constructor
  · intro k hk
    have hwithin := (mem_keysWithin.mp hk).1
    rcases hl with rfl | rfl
    · exact hwithin
    · exact hwithin
  · intro e he howns
    refine mem_keysWithin.mpr ⟨?_, e.2, he⟩
    rcases hl with rfl | rfl
    · exact howns
    · exact howns

theorem mem_delAll_found (h : Found db l chain) (e : Key × Document V) :
    e ∈ ((db l).delAll chain.uids).entries ↔
      e ∈ (db l).entries ∧ ¬ Owns l chain.metricId e.1 := by
  rw [OrderedMap.mem_delAll]
  exact and_congr_right fun he => not_congr ⟨h.1 e.1, h.2 e he⟩

theorem stage_eq_iff (hl : l ≠ .file) {l' : Sublevel} : l'.stage = l.stage ↔ l' = l := by
  cases l <;> cases l' <;> simp [Sublevel.stage] at hl ⊢

/-- An operation that removes records. -/
theorem succeeds_remove (hl : l ≠ .file) {next : Stage}
    {f : OrderedMap Key (Document V) → OrderedMap Key (Document V)}
    (hf : ∀ e, e ∈ (f (db l)).entries ↔ e ∈ (db l).entries ∧ ¬ Owns l chain.metricId e.1)
    (hstage : chain.stage = l.stage) (hrank : next.rank = chain.stage.rank + 1)
    (hnext : next ≠ .metricData ∧ next ≠ .modelData) :
    Succeeds db (db.change l f) chain { chain with stage := next } where
  metricId := rfl
  failed := rfl
  rank := hrank
  entries l' e := by
    rw [mem_change hf, hstage, stage_eq_iff hl]
    refine and_congr_right fun _ => not_congr (and_congr_right fun heq => ?_)
    rw [heq]
  found := ⟨fun h => absurd h hnext.1, fun h => absurd h hnext.2⟩

/-- An operation that reads keys. -/
theorem succeeds_scan (hl : l = .metricData ∨ l = .modelData)
    (hrank : l.stage.rank = chain.stage.rank + 1) :
    Succeeds db db chain
      { chain with stage := l.stage, uids := keysWithin chain.metricId (db l) } where
  metricId := rfl
  failed := rfl
  rank := hrank
  entries l' e := by
    refine ⟨fun he => ⟨he, fun hstage => ?_⟩, fun he => he.1⟩
    have heq := congrArg Stage.rank hstage.1
    rcases hl with rfl | rfl
    · cases l' <;> simp only [Sublevel.stage, Stage.rank] at heq hrank <;> omega
    · cases l' <;> simp only [Sublevel.stage, Stage.rank] at heq hrank <;> omega
  found := by
    have hfound : Found db l { chain with uids := keysWithin chain.metricId (db l) } :=
      found_keysWithin hl
    rcases hl with rfl | rfl
    · exact ⟨fun _ => hfound, fun h => by cases h⟩
    · exact ⟨fun h => (by cases h), fun _ => hfound⟩

theorem Chain.succeed_spec (hfound : FoundAll db chain) (hstage : chain.stage ≠ .deleted) :
    Succeeds db (chain.succeed db).1 chain (chain.succeed db).2 := by
  rw [Chain.succeed]
  split
  · rename_i heq
    exact succeeds_remove (by decide) (fun e => OrderedMap.mem_del) heq (heq ▸ rfl) (by decide)
  · rename_i heq
    exact succeeds_scan (.inl rfl) (heq ▸ rfl)
  · rename_i heq
    exact succeeds_remove (by decide) (mem_delAll_found (hfound.1 heq)) heq (heq ▸ rfl)
      (by decide)
  · rename_i heq
    exact succeeds_remove (by decide) (fun e => OrderedMap.mem_del) heq (heq ▸ rfl) (by decide)
  · rename_i heq
    exact succeeds_scan (.inr rfl) (heq ▸ rfl)
  · rename_i heq
    exact succeeds_remove (by decide) (mem_delAll_found (hfound.2 heq)) heq (heq ▸ rfl)
      (by decide)
  · rename_i heq
    exact absurd heq hstage

/-! ## The invariant -/

/-- The deletions of the metrics of the file under way. -/
structure Progress (fileId : HashId) (fails : Step → Bool) (db₀ db : Database V)
    (chains : List Chain) : Prop where
  metricIds : chains.map Chain.metricId = keysWithin fileId.text (db₀ .metric)
  entries : ∀ l e, e ∈ (db l).entries ↔ e ∈ (db₀ l).entries ∧ ¬ Removed fileId chains l e.1
  found : ∀ chain ∈ chains, FoundAll db chain
  passed : ∀ chain ∈ chains, ∀ stage : Stage, stage.rank < chain.stage.rank →
    fails (.chain chain.metricId stage) = false
  stopped : ∀ chain ∈ chains, chain.failed →
    chain.stage ≠ .deleted ∧ fails (.chain chain.metricId chain.stage)

def AllDeleted (chains : List Chain) : Prop :=
  chains ≠ [] ∧ ∀ chain ∈ chains, chain.stage = .deleted

/-- The calls of the callback: one for each deletion that failed, and one when all are
through. -/
structure Called (chains : List Chain) (metricsDeleted : ℕ) (calls : List (Option Step)) :
    Prop where
  counted : metricsDeleted = chains.countP fun chain => chain.stage = .deleted
  through : AllDeleted chains → calls.length = chains.countP Chain.failed + 1
  before : ¬ AllDeleted chains → calls.length = chains.countP Chain.failed
  quiet : none ∈ calls → AllDeleted chains

def withoutFile (fileId : HashId) (db : Database V) : Database V :=
  db.change .file fun map => map.del fileId.text

/-- What holds of a call of `deleteFile` in each of its phases. -/
def Deleting (fileId : HashId) (fails : Step → Bool) (db₀ : Database V) (s : Deletion V) :
    Prop :=
  match s.phase with
  | .file => s = .start db₀
  | .metricKeys => fails .file = false ∧
    s = { Deletion.start db₀ with db := withoutFile fileId db₀, phase := .metricKeys }
  | .failed => s.chains = [] ∧ s.calls.length = 1 ∧ none ∉ s.calls ∧
    ((fails .file = true ∧ s.db = db₀) ∨
      (fails .file = false ∧ fails .metricKeys = true ∧ s.db = withoutFile fileId db₀))
  | .metrics => fails .file = false ∧ fails .metricKeys = false ∧
    Progress fileId fails db₀ s.db s.chains ∧ Called s.chains s.metricsDeleted s.calls

theorem Removed.set {chains : List Chain} {i : ℕ} (hi : chains[i]? = some chain)
    (chain' : Chain) (hmono : ∀ l k, chain.Removes l k → chain'.Removes l k) :
    Removed fileId (chains.set i chain') l k ↔
      Removed fileId chains l k ∨ chain'.Removes l k := by
  constructor
  · rintro (hfile | ⟨other, hother, hremoves⟩)
    · exact .inl (.inl hfile)
    · rcases List.mem_or_eq_of_mem_set hother with hold | rfl
      · exact .inl (.inr ⟨other, hold, hremoves⟩)
      · exact .inr hremoves
  · rintro ((hfile | ⟨other, hother, hremoves⟩) | hremoves)
    · exact .inl hfile
    · rcases mem_set_or_eq hi hother with rfl | hmem
      · exact .inr ⟨_, mem_set_self hi _, hmono l k hremoves⟩
      · exact .inr ⟨other, hmem, hremoves⟩
    · exact .inr ⟨_, mem_set_self hi _, hremoves⟩

theorem map_set_of_eq {chains : List Chain} {i : ℕ} (hi : chains[i]? = some chain)
    {chain' : Chain} (h : chain'.metricId = chain.metricId) :
    (chains.set i chain').map Chain.metricId = chains.map Chain.metricId := by
  obtain ⟨hlt, hchain⟩ := List.getElem?_eq_some_iff.mp hi
  rw [List.map_set, h]
  refine List.ext_getElem? fun j => ?_
  by_cases hij : i = j
  · subst hij
    rw [List.getElem?_set_self (by simpa using hlt), List.getElem?_map, hi]
    rfl
  · rw [List.getElem?_set_ne hij]

/-- Counting in a list with one element replaced. -/
theorem countP_set_add {chains : List Chain} {i : ℕ} (hi : chains[i]? = some chain)
    (chain' : Chain) (p : Chain → Bool) :
    (chains.set i chain').countP p + (if p chain then 1 else 0) =
      chains.countP p + if p chain' then 1 else 0 := by
  obtain ⟨hlt, rfl⟩ := List.getElem?_eq_some_iff.mp hi
  rw [List.countP_set hlt]
  have hpos : (if p chains[i] then 1 else 0) ≤ chains.countP p := by
    split
    · rename_i hp
      exact List.countP_pos_iff.mpr ⟨_, List.getElem_mem hlt, hp⟩
    · exact Nat.zero_le _
  omega

theorem not_ended_iff : chain.ended = false ↔ chain.failed = false ∧ chain.stage ≠ .deleted := by
  rw [Chain.ended, Bool.or_eq_false_iff, decide_eq_false_iff_not]

section Step
variable {chains : List Chain} {metricsDeleted i : ℕ} {calls : List (Option Step)}

/-- A deletion that is not through. -/
theorem not_allDeleted (h : chain ∈ chains) (hstage : chain.stage ≠ .deleted) :
    ¬ AllDeleted chains := fun hall => hstage (hall.2 chain h)

theorem Progress.fail (h : Progress fileId fails db₀ db chains) (hi : chains[i]? = some chain)
    (hstage : chain.stage ≠ .deleted) (hfails : fails (.chain chain.metricId chain.stage) = true) :
    Progress fileId fails db₀ db (chains.set i chain.fail) := by
  have hchain := List.mem_of_getElem? hi
  have hmem : ∀ other ∈ chains.set i chain.fail, other ∈ chains ∨ other = chain.fail :=
    fun other hother => List.mem_or_eq_of_mem_set hother
  refine ⟨?_, fun l e => ?_, fun other hother => ?_, fun other hother => ?_,
    fun other hother hfailed => ?_⟩
  · exact (map_set_of_eq hi (rfl : chain.fail.metricId = chain.metricId)).trans h.metricIds
  · rw [h.entries, Removed.set hi chain.fail fun _ _ hremoves => hremoves]
    refine and_congr_right fun _ => not_congr ⟨.inl, fun hor => hor.elim id fun hremoves => ?_⟩
    exact .inr ⟨chain, hchain, hremoves⟩
  · rcases hmem other hother with hold | rfl
    · exact h.found other hold
    · exact h.found chain hchain
  · rcases hmem other hother with hold | rfl
    · exact h.passed other hold
    · exact h.passed chain hchain
  · rcases hmem other hother with hold | rfl
    · exact h.stopped other hold hfailed
    · exact ⟨hstage, hfails⟩

theorem Called.fail (h : Called chains metricsDeleted calls) (hi : chains[i]? = some chain)
    (hended : chain.ended = false) (error : Step) :
    Called (chains.set i chain.fail) metricsDeleted (calls ++ [some error]) := by
  obtain ⟨hfailed, hstage⟩ := not_ended_iff.mp hended
  have hbefore := h.before (not_allDeleted (List.mem_of_getElem? hi) hstage)
  have hafter := not_allDeleted (mem_set_self hi chain.fail) hstage
  refine ⟨?_, fun hall => absurd hall hafter, fun _ => ?_, fun hcalled => ?_⟩
  · have hcount := countP_set_add hi chain.fail fun chain => chain.stage = .deleted
    simp only [Chain.fail, hstage, decide_false, Bool.false_eq_true, if_false] at hcount
    exact h.counted.trans hcount.symm
  · have hcount := countP_set_add hi chain.fail Chain.failed
    rw [hfailed, show chain.fail.failed = true from rfl] at hcount
    rw [List.length_append, hbefore]
    exact hcount.symm
  · rcases List.mem_append.mp hcalled with hold | hnew
    · exact absurd (h.quiet hold) (not_allDeleted (List.mem_of_getElem? hi) hstage)
    · cases List.mem_singleton.mp hnew

/-- The stages below the one reached next. -/
theorem Succeeds.removes {chain' : Chain} {db' : Database V}
    (h : Succeeds db db' chain chain') (l : Sublevel) (k : Key) :
    chain'.Removes l k ↔
      chain.Removes l k ∨ (l.stage = chain.stage ∧ Owns l chain.metricId k) := by
  rw [Chain.Removes, Chain.Removes, h.rank, h.metricId, ← or_and_right, Nat.lt_succ_iff_lt_or_eq]
  exact and_congr_left fun _ => or_congr_right ⟨Stage.rank_inj, congrArg Stage.rank⟩

theorem Progress.succeed {chain' : Chain} {db' : Database V}
    (h : Progress fileId fails db₀ db chains) (hi : chains[i]? = some chain)
    (hended : chain.ended = false) (hfails : fails (.chain chain.metricId chain.stage) = false)
    (hspec : Succeeds db db' chain chain') :
    Progress fileId fails db₀ db' (chains.set i chain') := by
  obtain ⟨hfailed, hstage⟩ := not_ended_iff.mp hended
  have hchain := List.mem_of_getElem? hi
  have hmem : ∀ other ∈ chains.set i chain', other ∈ chains ∨ other = chain' :=
    fun other hother => List.mem_or_eq_of_mem_set hother
  have hmono : ∀ l, ∀ e ∈ (db' l).entries, e ∈ (db l).entries :=
    fun l e he => ((hspec.entries l e).mp he).1
  refine ⟨?_, fun l e => ?_, fun other hother => ?_, fun other hother stage hlt => ?_,
    fun other hother hother' => ?_⟩
  · exact (map_set_of_eq hi hspec.metricId).trans h.metricIds
  · rw [hspec.entries, h.entries, and_assoc,
      Removed.set hi chain' fun l k hremoves => (hspec.removes l k).mpr (.inl hremoves),
      hspec.removes, ← not_or]
    refine and_congr_right fun _ => not_congr (or_congr_right' fun hnot => ?_)
    refine ⟨.inr, fun hor => hor.resolve_left fun hremoves => hnot ?_⟩
    exact .inr ⟨chain, hchain, hremoves⟩
  · rcases hmem other hother with hold | rfl
    · exact ⟨fun hs => ((h.found other hold).1 hs).mono (hmono _),
        fun hs => ((h.found other hold).2 hs).mono (hmono _)⟩
    · exact hspec.found
  · rcases hmem other hother with hold | rfl
    · exact h.passed other hold stage hlt
    · rw [hspec.metricId]
      rw [hspec.rank, Nat.lt_succ_iff_lt_or_eq] at hlt
      rcases hlt with hlt | heq
      · exact h.passed chain hchain stage hlt
      · rw [Stage.rank_inj heq]
        exact hfails
  · rcases hmem other hother with hold | rfl
    · exact h.stopped other hold hother'
    · rw [hspec.failed, hfailed] at hother'
      cases hother'

theorem allDeleted_iff (hne : chains ≠ []) :
    chains.countP (fun chain => chain.stage = .deleted) = chains.length ↔ AllDeleted chains := by
  rw [List.countP_eq_length]
  simp only [decide_eq_true_eq]
  exact (and_iff_right hne).symm

theorem count_fields (chain : Chain) (s : Deletion V) : (s.count chain).chains = s.chains ∧
    (s.count chain).db = s.db ∧ (s.count chain).phase = s.phase := by
  rw [Deletion.count]
  split
  · dsimp only
    split
    · exact ⟨rfl, rfl, rfl⟩
    · exact ⟨rfl, rfl, rfl⟩
  · exact ⟨rfl, rfl, rfl⟩

/-- A deletion that goes on counts when it is through, and the last one calls back. -/
theorem Called.count {chain' : Chain} (h : Called chains s.metricsDeleted s.calls)
    (hi : chains[i]? = some chain) (hended : chain.ended = false)
    (hfailed' : chain'.failed = chain.failed) (hchains : s.chains = chains.set i chain') :
    Called (chains.set i chain') (s.count chain').metricsDeleted (s.count chain').calls := by
  obtain ⟨hfailed, hstage⟩ := not_ended_iff.mp hended
  have hnew := mem_set_self hi chain'
  have hold := not_allDeleted (List.mem_of_getElem? hi) hstage
  have hbefore := h.before hold
  have hcountFailed := countP_set_add hi chain' Chain.failed
  rw [hfailed', hfailed] at hcountFailed
  simp only [Bool.false_eq_true, if_false, Nat.add_zero] at hcountFailed
  have hcountDeleted := countP_set_add hi chain' fun chain => chain.stage = .deleted
  simp only [hstage, decide_false, Bool.false_eq_true, if_false, Nat.add_zero,
    decide_eq_true_eq] at hcountDeleted
  rw [Deletion.count]
  by_cases hthrough : chain'.stage = .deleted
  · rw [if_pos hthrough] at hcountDeleted ⊢
    have hall := allDeleted_iff (List.ne_nil_of_mem hnew)
    rw [hcountDeleted, ← h.counted] at hall
    dsimp only
    rw [hchains]
    split
    · rename_i hlength
      have hdeleted := hall.mp hlength
      refine ⟨?_, fun _ => ?_, fun hnot => absurd hdeleted hnot, fun _ => hdeleted⟩
      · rw [hcountDeleted, ← h.counted]
        rfl
      · show (s.calls ++ [none]).length = _
        rw [List.length_append, hbefore, hcountFailed]
        rfl
    · rename_i hlength
      refine ⟨?_, fun hdeleted => absurd (hall.mpr hdeleted) hlength, fun _ => ?_,
        fun hcalled => absurd (h.quiet hcalled) hold⟩
      · rw [hcountDeleted, ← h.counted]
      · rw [hcountFailed]
        exact hbefore
  · rw [if_neg hthrough] at hcountDeleted ⊢
    refine ⟨?_, fun hdeleted => absurd hdeleted (not_allDeleted hnew hthrough), fun _ => ?_,
      fun hcalled => absurd (h.quiet hcalled) hold⟩
    · rw [hcountDeleted, ← h.counted]
      rfl
    · rw [hcountFailed]
      exact hbefore

end Step

theorem deleting_metrics (hphase : s.phase = .metrics) : Deleting fileId fails db₀ s ↔
    fails .file = false ∧ fails .metricKeys = false ∧
      Progress fileId fails db₀ s.db s.chains ∧ Called s.chains s.metricsDeleted s.calls := by
  rw [Deleting, hphase]

/-- Only the last phase has metrics to delete. -/
theorem Deleting.phase_eq (h : Deleting fileId fails db₀ s) (hne : s.chains ≠ []) :
    s.phase = .metrics := by
  rw [Deleting] at h
  split at h
  · rw [h] at hne
    exact absurd rfl hne
  · rw [h.2] at hne
    exact absurd rfl hne
  · exact absurd h.1 hne
  · assumption

theorem Deleting.deleteMetric {i : ℕ} (h : Deleting fileId fails db₀ s)
    (hn : s.deleteMetric fails i = some s') : Deleting fileId fails db₀ s' := by
  rw [Deletion.deleteMetric] at hn
  split at hn
  · cases hn
  rename_i chain hi
  have hphase := h.phase_eq (List.ne_nil_of_mem (List.mem_of_getElem? hi))
  obtain ⟨hfile, hkeys, hprogress, hcalled⟩ := (deleting_metrics hphase).mp h
  have hchain := List.mem_of_getElem? hi
  split at hn
  · cases hn
  rename_i hended
  rw [Bool.not_eq_true] at hended
  have hstage := (not_ended_iff.mp hended).2
  split at hn
  · rename_i hfails
    cases hn
    refine (deleting_metrics ?_).mpr ⟨hfile, hkeys, ?_, ?_⟩
    · exact hphase
    · exact hprogress.fail hi hstage hfails
    · exact hcalled.fail hi hended _
  · rename_i hfails
    rw [Bool.not_eq_true] at hfails
    cases hn
    have hspec := Chain.succeed_spec (hprogress.found chain hchain) hstage
    obtain ⟨hchains, hdb, hphase'⟩ := count_fields (chain.succeed s.db).2 { s with
      db := (chain.succeed s.db).1
      chains := s.chains.set i (chain.succeed s.db).2 }
    refine (deleting_metrics (hphase'.trans hphase)).mpr ⟨hfile, hkeys, ?_, ?_⟩
    · rw [hchains, hdb]
      exact hprogress.succeed hi hended hfails hspec
    · rw [hchains]
      exact Called.count hcalled hi hended hspec.failed rfl

theorem Deleting.deleteFile (h : Deleting fileId fails db₀ s)
    (hn : s.deleteFile fileId fails = some s') : Deleting fileId fails db₀ s' := by
  rw [Deletion.deleteFile] at hn
  split at hn
  · cases hn
  rename_i hphase
  rw [ne_eq, not_not] at hphase
  rw [Deleting, hphase] at h
  subst h
  split at hn
  · rename_i hfails
    cases hn
    exact ⟨rfl, rfl, fun hnone => (by cases List.mem_singleton.mp hnone), .inl ⟨hfails, rfl⟩⟩
  · rename_i hfails
    cases hn
    exact ⟨Bool.eq_false_iff.mpr hfails, rfl⟩

theorem mem_withoutFile (l : Sublevel) (e : Key × Document V) :
    e ∈ (withoutFile fileId db l).entries ↔
      e ∈ (db l).entries ∧ ¬ (l = .file ∧ e.1 = fileId.text) := by
  rw [withoutFile]
  exact mem_change (P := fun k => k = fileId.text) (fun e => OrderedMap.mem_del) l e

/-- The deletions of metrics that have only just been started. -/
def startChain (metricId : Key) : Chain :=
  { metricId := metricId, stage := .metric, uids := [], failed := false }

theorem progress_start : Progress fileId fails db₀ (withoutFile fileId db₀)
    ((keysWithin fileId.text (withoutFile fileId db₀ .metric)).map startChain) := by
  have hmap : withoutFile fileId db₀ .metric = db₀ .metric := change_of_ne _ (by decide) _
  have hstart : ∀ chain ∈ (keysWithin fileId.text (withoutFile fileId db₀ .metric)).map startChain,
      chain.stage = .metric ∧ chain.failed = false := by
    intro chain hchain
    obtain ⟨metricId, -, rfl⟩ := List.mem_map.mp hchain
    exact ⟨rfl, rfl⟩
  refine ⟨?_, fun l e => ?_, fun chain hchain => ?_, fun chain hchain stage hlt => ?_,
    fun chain hchain hfailed => ?_⟩
  · rw [List.map_map, hmap]
    exact List.map_id _
  · rw [mem_withoutFile]
    refine and_congr_right fun _ => not_congr ⟨.inl, fun hremoved => hremoved.resolve_right ?_⟩
    rintro ⟨chain, hchain, hlt, -⟩
    rw [(hstart chain hchain).1] at hlt
    cases hlt
  · rw [FoundAll, (hstart chain hchain).1]
    exact ⟨fun h => (by cases h), fun h => (by cases h)⟩
  · rw [(hstart chain hchain).1] at hlt
    cases hlt
  · rw [(hstart chain hchain).2] at hfailed
    cases hfailed

theorem called_start (metricIds : List Key) : Called (metricIds.map startChain) 0 [] := by
  have hstart : ∀ chain ∈ metricIds.map startChain,
      chain.stage ≠ .deleted ∧ chain.failed = false := by
    intro chain hchain
    obtain ⟨metricId, -, rfl⟩ := List.mem_map.mp hchain
    exact ⟨Stage.noConfusion, rfl⟩
  refine ⟨?_, fun hall => ?_, fun _ => ?_, fun hcalled => by cases hcalled⟩
  · refine (List.countP_eq_zero.mpr fun chain hchain => ?_).symm
    rw [decide_eq_true_eq]
    exact (hstart chain hchain).1
  · obtain ⟨chain, hchain⟩ := List.exists_mem_of_ne_nil _ hall.1
    exact absurd (hall.2 chain hchain) (hstart chain hchain).1
  · refine (List.countP_eq_zero.mpr fun chain hchain => ?_).symm
    rw [(hstart chain hchain).2]
    exact Bool.false_ne_true

theorem Deleting.deleteMetricsByFile (h : Deleting fileId fails db₀ s)
    (hn : s.deleteMetricsByFile fileId fails = some s') : Deleting fileId fails db₀ s' := by
  rw [Deletion.deleteMetricsByFile] at hn
  split at hn
  · cases hn
  rename_i hphase
  rw [ne_eq, not_not] at hphase
  rw [Deleting, hphase] at h
  obtain ⟨hfile, rfl⟩ := h
  split at hn
  · rename_i hfails
    cases hn
    exact ⟨rfl, rfl, fun hnone => (by cases List.mem_singleton.mp hnone),
      .inr ⟨hfile, hfails, rfl⟩⟩
  · rename_i hfails
    cases hn
    exact ⟨hfile, Bool.eq_false_iff.mpr hfails, progress_start, called_start _⟩

theorem Deleting.next {a : Deletion.Action} (h : Deleting fileId fails db₀ s)
    (hn : Deletion.next fileId fails a s = some s') : Deleting fileId fails db₀ s' := by
  cases a with
  | file => exact h.deleteFile hn
  | metricKeys => exact h.deleteMetricsByFile hn
  | chain i => exact h.deleteMetric hn

theorem deleting_start : Deleting fileId fails db₀ (.start db₀) :=
  (rfl : Deletion.start db₀ = .start db₀)

theorem deleting_of_run {tr : List (Deletion V × Deletion.Action)}
    (h : Run (Deletion.system fileId fails db₀) tr s) : Deleting fileId fails db₀ s := by
  refine h.reachable.invariant (I := Deleting fileId fails db₀) (fun t ht => ?_)
    fun _ _ _ _ hs hn => hs.next hn
  have hstart : t = .start db₀ := ht
  exact hstart ▸ deleting_start

/-! ## The end -/

/-- How many operations a chain can still end. -/
def Chain.remaining (chain : Chain) : ℕ := if chain.ended then 0 else 6 - chain.stage.rank

def Deletion.remaining (fileId : HashId) (s : Deletion V) : ℕ :=
  match s.phase with
  | .file => 6 * (keysWithin fileId.text (s.db .metric)).length + 2
  | .metricKeys => 6 * (keysWithin fileId.text (s.db .metric)).length + 1
  | .metrics => (s.chains.map Chain.remaining).sum
  | .failed => 0

theorem sum_set_lt {chains : List Chain} {i : ℕ} (hi : chains[i]? = some chain) {chain' : Chain}
    (hlt : chain'.remaining < chain.remaining) :
    ((chains.set i chain').map Chain.remaining).sum < (chains.map Chain.remaining).sum := by
  induction chains generalizing i with
  | nil => cases hi
  | cons first chains ih =>
    cases i with
    | zero =>
      cases hi
      rw [List.set_cons_zero, List.map_cons, List.map_cons, List.sum_cons, List.sum_cons]
      omega
    | succ i =>
      have hrest := ih hi
      rw [List.set_cons_succ, List.map_cons, List.map_cons, List.sum_cons, List.sum_cons]
      omega

theorem Stage.rank_lt {stage : Stage} (h : stage ≠ .deleted) : stage.rank < 6 := by
  cases stage <;> first | decide | exact absurd rfl h

theorem remaining_fail (hended : chain.ended = false) :
    chain.fail.remaining < chain.remaining := by
  have hlt := Stage.rank_lt (not_ended_iff.mp hended).2
  rw [Chain.remaining, Chain.remaining, hended, show chain.fail.ended = true from rfl]
  simp only [if_true, Bool.false_eq_true, if_false]
  omega

theorem Succeeds.remaining {chain' : Chain} {db' : Database V} (h : Succeeds db db' chain chain')
    (hended : chain.ended = false) : chain'.remaining < chain.remaining := by
  have hlt := Stage.rank_lt (not_ended_iff.mp hended).2
  rw [Chain.remaining, Chain.remaining, hended, h.rank]
  split
  · simp only [Bool.false_eq_true, if_false]
    omega
  · simp only [Bool.false_eq_true, if_false]
    omega

theorem sum_start (metricIds : List Key) :
    ((metricIds.map startChain).map Chain.remaining).sum = 6 * metricIds.length := by
  induction metricIds with
  | nil => rfl
  | cons metricId metricIds ih =>
    have hfirst : (startChain metricId).remaining = 6 := rfl
    rw [List.map_cons, List.map_cons, List.sum_cons, ih, hfirst, List.length_cons]
    omega

theorem remaining_metrics (hphase : s.phase = .metrics) :
    s.remaining fileId = (s.chains.map Chain.remaining).sum := by
  rw [Deletion.remaining, hphase]

/-- Every operation that ends leaves fewer. -/
theorem Deleting.remaining_lt {a : Deletion.Action} (h : Deleting fileId fails db₀ s)
    (hn : Deletion.next fileId fails a s = some s') : s'.remaining fileId < s.remaining fileId := by
  cases a with
  | file =>
    change s.deleteFile fileId fails = some s' at hn
    rw [Deletion.deleteFile] at hn
    split at hn
    · cases hn
    rename_i hphase
    rw [ne_eq, not_not] at hphase
    rw [Deletion.remaining, Deletion.remaining, hphase]
    split at hn
    · cases hn
      exact Nat.succ_pos _
    · cases hn
      have hmap : s.db.change .file (fun map => map.del fileId.text) .metric = s.db .metric :=
        change_of_ne _ (by decide) _
      dsimp only
      rw [hmap]
      exact Nat.lt_succ_self _
  | metricKeys =>
    change s.deleteMetricsByFile fileId fails = some s' at hn
    rw [Deletion.deleteMetricsByFile] at hn
    split at hn
    · cases hn
    rename_i hphase
    rw [ne_eq, not_not] at hphase
    rw [Deletion.remaining, Deletion.remaining, hphase]
    split at hn
    · cases hn
      exact Nat.succ_pos _
    · cases hn
      exact Nat.lt_succ_of_le (sum_start _).le
  | chain i =>
    change s.deleteMetric fails i = some s' at hn
    rw [Deletion.deleteMetric] at hn
    split at hn
    · cases hn
    rename_i chain hi
    have hchain := List.mem_of_getElem? hi
    have hphase := h.phase_eq (List.ne_nil_of_mem hchain)
    obtain ⟨-, -, hprogress, -⟩ := (deleting_metrics hphase).mp h
    split at hn
    · cases hn
    rename_i hended
    rw [Bool.not_eq_true] at hended
    split at hn
    · cases hn
      have hafter : Deletion.remaining fileId
          (Deletion.callback (some (.chain chain.metricId chain.stage))
            { s with chains := s.chains.set i chain.fail }) = _ := remaining_metrics hphase
      rw [remaining_metrics hphase, hafter]
      exact sum_set_lt hi (remaining_fail hended)
    · cases hn
      have hspec := Chain.succeed_spec (hprogress.found chain hchain) (not_ended_iff.mp hended).2
      obtain ⟨hchains, -, hphase'⟩ := count_fields (chain.succeed s.db).2 { s with
        db := (chain.succeed s.db).1
        chains := s.chains.set i (chain.succeed s.db).2 }
      rw [remaining_metrics hphase, remaining_metrics (hphase'.trans hphase), hchains]
      exact sum_set_lt hi (hspec.remaining hended)

/-- What has not ended can go on. -/
theorem exists_next (hended : s.ended = false) :
    ∃ a s', Deletion.next fileId fails a s = some s' := by
  rw [Deletion.ended, Bool.or_eq_false_iff] at hended
  cases hphase : s.phase with
  | file =>
    refine ⟨.file, ?_⟩
    show ∃ s', s.deleteFile fileId fails = some s'
    rw [Deletion.deleteFile, if_neg (not_not_intro hphase)]
    split
    · exact ⟨_, rfl⟩
    · exact ⟨_, rfl⟩
  | metricKeys =>
    refine ⟨.metricKeys, ?_⟩
    show ∃ s', s.deleteMetricsByFile fileId fails = some s'
    rw [Deletion.deleteMetricsByFile, if_neg (not_not_intro hphase)]
    split
    · exact ⟨_, rfl⟩
    · exact ⟨_, rfl⟩
  | failed =>
    rw [hphase] at hended
    cases hended.1
  | metrics =>
    rw [hphase] at hended
    have hsome : ∃ chain ∈ s.chains, chain.ended = false := by
      by_contra hnone
      refine Bool.eq_false_iff.mp hended.2 ?_
      rw [decide_eq_true rfl, Bool.true_and, List.all_eq_true]
      intro chain hchain
      by_contra hnot
      exact hnone ⟨chain, hchain, Bool.eq_false_iff.mpr hnot⟩
    obtain ⟨chain, hchain, hnot⟩ := hsome
    obtain ⟨i, hi⟩ := List.getElem?_of_mem hchain
    refine ⟨.chain i, ?_⟩
    show ∃ s', s.deleteMetric fails i = some s'
    simp only [Deletion.deleteMetric, hi, hnot, Bool.false_eq_true, if_false]
    split
    · exact ⟨_, rfl⟩
    · exact ⟨_, rfl⟩

/-- Every run of a deletion can be continued to its end. -/
theorem exists_ended {tr : List (Deletion V × Deletion.Action)}
    (h : Run (Deletion.system fileId fails db₀) tr s) :
    ∃ tr' t, Run (Deletion.system fileId fails db₀) tr' t ∧ t.ended = true := by
  induction hn : s.remaining fileId using Nat.strong_induction_on generalizing tr s with
  | _ n ih =>
    cases hended : s.ended with
    | true => exact ⟨tr, s, h, hended⟩
    | false =>
      obtain ⟨a, t, hnext⟩ := @exists_next _ _ fileId fails hended
      have hlt := (deleting_of_run h).remaining_lt hnext
      exact ih (t.remaining fileId) (hn ▸ hlt) (.step a h hnext) rfl

/-- No run is longer than the operations there are. -/
theorem run_length_le {tr : List (Deletion V × Deletion.Action)}
    (h : Run (Deletion.system fileId fails db₀) tr s) :
    tr.length + s.remaining fileId ≤ 6 * (keysWithin fileId.text (db₀ .metric)).length + 2 := by
  induction h with
  | init h =>
    rename_i t
    have hstart : t = .start db₀ := h
    rw [hstart]
    exact (Nat.zero_add _).le
  | step a h hn ih =>
    have hlt := (deleting_of_run h).remaining_lt hn
    rw [List.length_append]
    exact Nat.le_trans (by rw [List.length_singleton]; omega) ih

end NumentaApps.Unicorn.DatabaseService
