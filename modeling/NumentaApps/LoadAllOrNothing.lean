import NumentaApps.ModelLoading

/-!
# A load that raises leaves no model

The rows and the checkpoints of a runner process whose loads and rows may raise. As long as
no load meets a fault after it has assigned the model, the model that the process keeps has
gone through every sample recorded with its checkpoint, and so has every model it saves.
-/
namespace NumentaApps.ModelSwapper
open ModelCheckpoint TransitionSystem ModelArchiver

variable {B D S M V : Type}

/-- The second model is the first one after it has gone through the rows; rows that raised may
have changed it as well. -/
inductive WentThrough (opf : InterruptibleOpf D S M V) (definition : D) :
    M → List S → M → Prop
  | nil (model : M) : WentThrough opf definition model [] model
  | row {model model' : M} {rows : List S} (data : S)
      (h : WentThrough opf definition model rows model') :
      WentThrough opf definition model (rows ++ [data]) (opf.run definition model' data).1
  | interrupted {model model' : M} {rows : List S} (data : S)
      (h : WentThrough opf definition model rows model') :
      WentThrough opf definition model rows (opf.interrupted definition model' data)

theorem WentThrough.feed {opf : InterruptibleOpf D S M V} {definition : D} {model model' : M}
    {rows : List S} (h : WentThrough opf definition model rows model') (rows' : List S) :
    WentThrough opf definition model (rows ++ rows') (opf.feed definition model' rows') := by
  induction rows' generalizing rows model' with
  | nil => simpa using h
  | cons data rest ih => simpa [Opf.feed] using ih (h.row data)

/-- The archive entry of a model and what the process that serves it keeps between two
steps. -/
structure Session (B D S M : Type) where
  entry : ModelEntry B D S M
  archiver : ModelArchiver B D S M
  currentRunInputSamples : List S

namespace Session

/-- A new process reads the batch IDs of the checkpoint before anything else. -/
def start (entry : ModelEntry B D S M) : Session B D S M :=
  ⟨entry, (ModelArchiver.new.modelCheckpointBatchIDSet entry).2, []⟩

inductive Action (B D S : Type) where
  | defineModel (definition : D)
  | processInputRow (load : Option LoadFault) (row : Option RowFault) (data : S)
  | saveModel (currentRunBatchIDSet : List B)
  | restart

variable (opf : InterruptibleOpf D S M V)

def defineModel (definition : D) (s : Session B D S M) : Session B D S M :=
  match s.entry.define definition with
  | .ok entry => { s with entry := entry }
  | .error _ => s

/-- A row that raises, in the load or later, is answered with an error and dropped. -/
def processInputRow (load : Option LoadFault) (row : Option RowFault) (data : S)
    (s : Session B D S M) : Session B D S M :=
  let (loaded, archiver) := Faulty.loadModel opf load s.entry s.archiver
  match loaded, archiver.model, archiver.inputRowEncoder with
  | .ok _, some model, some definition =>
    match row with
    | some .encode => { s with archiver := archiver }
    | some .run =>
      { s with archiver := { archiver with
          model := some (opf.interrupted definition model data) } }
    | none =>
      { s with
        archiver := { archiver with model := some (opf.run definition model data).1 }
        currentRunInputSamples := s.currentRunInputSamples ++ [data] }
  | _, _, _ => { s with archiver := archiver }

/-- The end of a run; a checkpoint that raises ends the process. -/
def saveModel (currentRunBatchIDSet : List B) (s : Session B D S M) : Session B D S M :=
  match s.archiver.saveModel s.entry currentRunBatchIDSet s.currentRunInputSamples with
  | .ok (entry, archiver) => ⟨entry, archiver, []⟩
  | .error _ => start s.entry

def act (s : Session B D S M) : Action B D S → Session B D S M
  | .defineModel definition => s.defineModel definition
  | .processInputRow load row data => s.processInputRow opf load row data
  | .saveModel currentRunBatchIDSet => s.saveModel currentRunBatchIDSet
  | .restart => start s.entry

/-- A load that raises leaves the archiver without a model, and what is saved has gone through
the samples that were recorded and the rows of the run. -/
def AllOrNothing (s : Session B D S M) : Action B D S → Prop
  | .processInputRow load _ _ =>
    ∀ errno, (Faulty.loadModel opf load s.entry s.archiver).1 = .error errno →
      (Faulty.loadModel opf load s.entry s.archiver).2.model = none
  | .saveModel currentRunBatchIDSet =>
    ∀ stored entry archiver, s.entry = some stored → s.archiver.model.isSome →
      s.archiver.saveModel s.entry currentRunBatchIDSet s.currentRunInputSamples =
        .ok (entry, archiver) →
      ∃ stored', entry = some stored' ∧
        WentThrough opf stored.definition (checkpointModel opf.toOpf stored)
          (storedSamples stored ++ s.currentRunInputSamples) (restored opf.toOpf stored')
  | _ => True

/-- The load of the step meets its fault after it has assigned the model. -/
def FaultIsLate (s : Session B D S M) : Action B D S → Prop
  | .processInputRow load _ _ => s.archiver.model = none ∧ s.archiver.MeetsLate s.entry load
  | _ => False

end Session

/-- A process may start with any checkpoint content. -/
def sessionSystem (B : Type) (opf : InterruptibleOpf D S M V) :
    System (Session B D S M) (Session.Action B D S) where
  init s := ∃ entry, s = .start entry
  next a s := some (s.act opf a)

/-! ## What the steps keep -/

namespace Session

variable {opf : InterruptibleOpf D S M V} {s : Session B D S M}

/-- What the process knows of the archive agrees with it, and the model it keeps has gone
through the recorded samples and the rows of the run. -/
structure Inv (opf : InterruptibleOpf D S M V) (s : Session B D S M) : Prop where
  undefined : s.entry = none → s.archiver.model = none ∧
    ∀ samples ∈ s.archiver.inputSamplesSinceLastFullCheckpointCache, samples = []
  synced : ∀ stored, s.entry = some stored → s.archiver.Synced stored
  unloaded : s.archiver.model = none → s.currentRunInputSamples = []
  loaded : ∀ stored model, s.entry = some stored → s.archiver.model = some model →
    WentThrough opf stored.definition (checkpointModel opf.toOpf stored)
      (storedSamples stored ++ s.currentRunInputSamples) model

theorem inv_start (entry : ModelEntry B D S M) : (start entry).Inv opf := by
  cases entry with
  | none =>
    refine ⟨fun _ => ⟨rfl, fun samples hs => (Option.mem_some_iff.mp hs).symm⟩, ?_, fun _ => rfl,
      ?_⟩
    · intro stored h
      cases h
    · intro stored model h
      cases h
  | some stored =>
    have hmodel : (start (some stored)).archiver.model = none := by
      simp only [start, modelCheckpointBatchIDSet_new]
      rfl
    refine ⟨fun h => (by cases h), fun stored' h => ?_, fun _ => rfl, fun stored' model _ hm => ?_⟩
    · cases h
      exact synced_modelCheckpointBatchIDSet_new
    · rw [hmodel] at hm
      cases hm

theorem Inv.defineModel (h : s.Inv opf) (definition : D) : (s.defineModel definition).Inv opf := by
  unfold Session.defineModel
  cases hentry : s.entry with
  | some stored => simpa [Entry.define] using h
  | none =>
    obtain ⟨hm, hcache⟩ := h.undefined hentry
    refine ⟨fun h => (by cases h), fun stored hstored => ?_, h.unloaded,
      fun stored model _ hmodel => ?_⟩
    · cases hstored
      exact .of_unloaded hm hcache
    · exact absurd (hm.symm.trans hmodel) (by simp)

/-- A load that meets no fault late leaves no model if it raises, and otherwise one that has
gone through the recorded samples. -/
theorem Inv.loadModel (h : s.Inv opf) (fault : Option LoadFault)
    (hlate : ¬ (s.archiver.model = none ∧ s.archiver.MeetsLate s.entry fault)) :
    Inv opf { s with archiver := (Faulty.loadModel opf fault s.entry s.archiver).2 } ∧
      ∀ errno, (Faulty.loadModel opf fault s.entry s.archiver).1 = .error errno →
        (Faulty.loadModel opf fault s.entry s.archiver).2.model = none := by
  cases hm : s.archiver.model with
  | some model =>
    have heq : Faulty.loadModel opf fault s.entry s.archiver = (.ok (), s.archiver) := by
      simp [Faulty.loadModel, hm]
    rw [heq]
    exact ⟨h, fun errno herr => by cases herr⟩
  | none =>
    have hnone : s.currentRunInputSamples = [] := h.unloaded hm
    rcases Faulty.loadModel_cases opf hm with
      ⟨hmet, -⟩ | ⟨-, errno, b, heq⟩ | ⟨-, stored, hentry, heq⟩
    · exact absurd ⟨hm, hmet⟩ hlate
    · rw [heq]
      refine ⟨⟨h.undefined, fun stored hs => ?_, h.unloaded, fun stored model _ hmodel => ?_⟩,
        fun _ _ => hm⟩
      · exact .of_unloaded hm (h.synced stored hs).samples
      · exact absurd (hm.symm.trans hmodel) (by simp)
    · obtain ⟨a', hload, hmodel, hsynced⟩ := (h.synced stored hentry).loadModel opf.toOpf hm
      rw [heq, hentry, hload]
      refine ⟨⟨fun h => ?_, fun stored' hs => ?_, fun hm' => ?_, fun stored' model hs hm' => ?_⟩,
        fun errno herr => by cases herr⟩
      · cases h
      · cases hs
        exact hsynced
      · exact absurd (hm'.symm.trans hmodel) (by simp)
      · cases hs
        obtain rfl : restored opf.toOpf stored = model := Option.some.inj (hmodel.symm.trans hm')
        simp only [hnone, List.append_nil]
        exact (WentThrough.nil _).feed _

/-- A model that is there may be run on a row, or be interrupted by one that raises. -/
theorem Inv.setModel (h : s.Inv opf) {model model' : M} {rows : List S}
    (hm : s.archiver.model = some model)
    (hrun : ∀ stored, s.entry = some stored →
      WentThrough opf stored.definition (checkpointModel opf.toOpf stored)
        (storedSamples stored ++ rows) model') :
    Inv opf { s with
      archiver := { s.archiver with model := some model' }
      currentRunInputSamples := rows } where
  undefined hentry := absurd ((h.undefined hentry).1.symm.trans hm) (by simp)
  synced stored hentry := by
    have hsome : s.archiver.model.isSome := by simp [hm]
    have hsynced := h.synced stored hentry
    exact ⟨hsynced.samples, fun _ => hsynced.hasCheckpoint hsome, fun _ => hsynced.loaded hsome,
      fun _ => hsynced.encoder hsome⟩
  unloaded hnone := by cases hnone
  loaded stored m hentry hm' := by
    obtain rfl := Option.some.inj hm'
    exact hrun stored hentry

theorem Inv.processInputRow (h : s.Inv opf) (load : Option LoadFault) (row : Option RowFault)
    (data : S) (hlate : ¬ s.FaultIsLate (.processInputRow load row data)) :
    (s.processInputRow opf load row data).Inv opf := by
  have hload := (h.loadModel load hlate).1
  unfold Session.processInputRow
  generalize Faulty.loadModel opf load s.entry s.archiver = r at hload
  obtain ⟨loaded, archiver⟩ := r
  dsimp only at hload ⊢
  split
  · rename_i model definition hm hd
    have hthrough : ∀ stored, s.entry = some stored → definition = stored.definition ∧
        WentThrough opf stored.definition (checkpointModel opf.toOpf stored)
          (storedSamples stored ++ s.currentRunInputSamples) model := by
      intro stored hentry
      have he := (hload.synced stored hentry).encoder (by simp [hm])
      exact ⟨Option.some.inj (hd.symm.trans he), hload.loaded stored model hentry hm⟩
    split
    · exact hload
    · refine hload.setModel hm fun stored hentry => ?_
      obtain ⟨rfl, hw⟩ := hthrough stored hentry
      exact hw.interrupted data
    · refine hload.setModel hm fun stored hentry => ?_
      obtain ⟨rfl, hw⟩ := hthrough stored hentry
      rw [← List.append_assoc]
      exact hw.row data
  · exact hload

/-- What is saved has gone through the recorded samples and the rows of the run, as an image
of the model or as samples to be run again. -/
theorem Inv.saveModel (h : s.Inv opf) (ids : List B) :
    (s.saveModel ids).Inv opf ∧ s.AllOrNothing opf (.saveModel ids) := by
  unfold Session.saveModel
  cases hm : s.archiver.model with
  | none =>
    have hsave : s.archiver.saveModel s.entry ids s.currentRunInputSamples =
        .ok (s.entry, s.archiver) := by
      simp [ModelArchiver.saveModel, hm]
    rw [hsave]
    refine ⟨⟨h.undefined, h.synced, fun _ => rfl, fun stored model _ hm' => ?_⟩, ?_⟩
    · exact absurd (hm.symm.trans hm') (by simp)
    · intro stored entry archiver _ hsome
      simp [hm] at hsome
  | some model =>
    cases hentry : s.entry with
    | none => exact absurd ((h.undefined hentry).1.symm.trans hm) (by simp)
    | some stored =>
      obtain ⟨stored', a', hsave, hd, -, hm', hsynced, hcases⟩ :=
        (h.synced stored hentry).saveModel_cases opf.toOpf hm
      have hw := h.loaded stored model hentry hm
      rw [hsave]
      refine ⟨⟨fun h => (by cases h), fun t ht => ?_, fun hnone => ?_, fun t m ht hm'' => ?_⟩, ?_⟩
      · cases ht
        exact hsynced
      · exact absurd (hnone.symm.trans hm') (by simp)
      · cases ht
        obtain rfl : model = m := Option.some.inj (hm'.symm.trans hm'')
        simp only [List.append_nil]
        rcases hcases with ⟨hmodel, hsamples⟩ | ⟨hmodel, hsamples⟩
        · rw [hmodel, hsamples]
          exact .nil _
        · rw [hmodel, hsamples, hd]
          exact hw
      · intro t entry archiver ht _ hsave'
        obtain rfl : stored = t := Option.some.inj (hentry.symm.trans ht)
        rw [hentry, hsave] at hsave'
        cases hsave'
        refine ⟨stored', rfl, ?_⟩
        rw [restored_eq]
        rcases hcases with ⟨hmodel, hsamples⟩ | ⟨hmodel, hsamples⟩
        · rw [hmodel, hsamples]
          exact hw
        · rw [hmodel, hsamples, hd]
          exact (WentThrough.nil _).feed _

theorem Inv.act (h : s.Inv opf) {a : Action B D S} (ha : ¬ s.FaultIsLate a) :
    (s.act opf a).Inv opf ∧ s.AllOrNothing opf a := by
  cases a with
  | defineModel definition => exact ⟨h.defineModel definition, trivial⟩
  | processInputRow load row data =>
    exact ⟨h.processInputRow load row data ha, (h.loadModel load ha).2⟩
  | saveModel ids => exact h.saveModel ids
  | restart => exact ⟨inv_start _, trivial⟩

/-- A fault met late leaves a model behind. -/
theorem FaultIsLate.not_allOrNothing {a : Action B D S} (h : s.FaultIsLate a) :
    ¬ s.AllOrNothing opf a := by
  cases a with
  | processInputRow load row data =>
    obtain ⟨hm, hmet⟩ := h
    intro hall
    rcases Faulty.loadModel_cases opf hm with
      ⟨-, errno, herr, hsome⟩ | ⟨hnot, -⟩ | ⟨hnot, -⟩
    · rw [hall errno herr] at hsome
      cases hsome
    · exact hnot hmet
    · exact hnot hmet
  | defineModel | saveModel | restart => exact absurd h id

end Session

/-- Loading is all-or-nothing, and no model that lacks recorded samples is saved, exactly in
the runs in which no load meets a fault after it has assigned the model. -/
theorem load_all_or_nothing_iff {opf : InterruptibleOpf D S M V}
    {tr : List (Session B D S M × Session.Action B D S)} {s : Session B D S M}
    (h : Run (sessionSystem B opf) tr s) :
    (∀ p ∈ tr, p.1.AllOrNothing opf p.2) ↔ ∀ p ∈ tr, ¬ p.1.FaultIsLate p.2 := by
  constructor
  · intro hall p hp hlate
    exact hlate.not_allOrNothing (hall p hp)
  · intro hgood p hp
    have hsteps := h.forall_steps (G := fun s a => ¬ s.FaultIsLate a) (I := Session.Inv opf)
      (P := fun s a _ => s.AllOrNothing opf a) ?_ ?_ ?_ hgood
    · obtain ⟨t, -, hall⟩ := hsteps p hp
      exact hall
    · rintro s ⟨entry, rfl⟩
      exact Session.inv_start entry
    · rintro a s t hi ha ht
      obtain rfl := Option.some.inj ht
      exact (hi.act ha).1
    · rintro a s t hi ha -
      exact (hi.act ha).2

/-- An OPF that counts the rows, and cannot be interrupted in the middle of one. -/
def countingOpf : InterruptibleOpf Unit ℕ ℕ ℕ where
  create _ := 0
  run _ model _ := (model + 1, model)
  created _ := 0
  interrupted _ model _ := model

/-- A checkpoint with a hundred samples to be run again. -/
def longReplay : ModelEntry ℕ Unit ℕ ℕ :=
  some ⟨(), some (0, ⟨[], some (List.replicate 100 7)⟩)⟩

/-- The first load finds no readable checkpoint, and the next row loads it again. -/
def retriedLoad : List (Session.Action ℕ Unit ℕ) :=
  [.processInputRow (some .load) none 7, .processInputRow none none 7, .saveModel [1]]

theorem load_all_or_nothing_iff_retried :
    ∃ s : Session ℕ Unit ℕ ℕ,
      (sessionSystem ℕ countingOpf).exec retriedLoad (.start longReplay) = some s ∧
      s.entry = some ⟨(), some (101, ⟨[1], none⟩)⟩ ∧
      ((∀ p ∈ (sessionSystem ℕ countingOpf).trace retriedLoad (.start longReplay),
          p.1.AllOrNothing countingOpf p.2) ↔
        ∀ p ∈ (sessionSystem ℕ countingOpf).trace retriedLoad (.start longReplay),
          ¬ p.1.FaultIsLate p.2) := by
  have hinit : (sessionSystem ℕ countingOpf).init (.start longReplay) := ⟨longReplay, rfl⟩
  have hexec : ∃ s, (sessionSystem ℕ countingOpf).exec retriedLoad (.start longReplay) = some s ∧
      s.entry = some ⟨(), some (101, ⟨[1], none⟩)⟩ := ⟨_, rfl, rfl⟩
  obtain ⟨s, hs, hentry⟩ := hexec
  exact ⟨s, hs, hentry, load_all_or_nothing_iff ((Run.init hinit).exec_trace hs)⟩

/-- The replay raises at the first sample, the next row finds the model in place, and the full
checkpoint that follows has gone through one row of a hundred and one. -/
theorem load_not_all_or_nothing :
    ∃ s t, s = (Session.start longReplay : Session ℕ Unit ℕ ℕ) ∧
      (Faulty.loadModel countingOpf (some (.run 0)) s.entry s.archiver).1 = .error .err ∧
      (Faulty.loadModel countingOpf (some (.run 0)) s.entry s.archiver).2.model = some 0 ∧
      (sessionSystem ℕ countingOpf).exec [.processInputRow (some (.run 0)) none 7,
        .processInputRow none none 7, .saveModel [1]] s = some t ∧
      t.entry = some ⟨(), some (1, ⟨[1], none⟩)⟩ ∧
      ¬ ∀ p ∈ (sessionSystem ℕ countingOpf).trace [.processInputRow (some (.run 0)) none 7,
          .processInputRow none none 7, .saveModel [1]] s, p.1.AllOrNothing countingOpf p.2 := by
  refine ⟨_, _, rfl, rfl, rfl, rfl, rfl, fun hall => ?_⟩
  have hfirst := hall _ List.mem_cons_self .err rfl
  cases hfirst

end NumentaApps.ModelSwapper
