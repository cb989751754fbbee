import NumentaApps.ModelDataPrefix
import NumentaApps.OpenTransactions

/-!
# Notifications of new results

A result that the store has been notified of is shown, or a timer or a request is on the way
to show it, unless the notification comes while a model on display is being shown again.
-/
namespace NumentaApps.Unicorn.ModelDataStore

open OpenTransactions TransitionSystem

variable {Record : Type} {s s' : State Record} {m : ModelId} {model model' : Model Record}
  {now : ℤ} {i : ℕ}

/-- The response has this result, if the database has answered already. -/
def Request.Reaches (r : Request Record) (index : ℕ) : Prop :=
  ∀ records, r.answer = some records → index < r.offset + records.length

/-- A request from offset 0 is under way whose response has this result: the response is what
will be shown, or starts another fetch where the model has been loaded meanwhile. -/
def Loading (s : State Record) (m : ModelId) (index : ℕ) : Prop :=
  ∃ r ∈ s.requests, r.modelId = m ∧ r.callback = .loadModelData ∧ r.Reaches index

/-- A request is under way whose response puts this result into the model's object. -/
def Fetching (s : State Record) (m : ModelId) (model : Model Record) (index : ℕ) : Prop :=
  ∃ r ∈ s.requests, r.modelId = m ∧ r.callback = .splice model.object ∧ r.Reaches index

def TimerPending (s : State Record) (m : ModelId) : Prop := ∃ id, (id, m) ∈ s.timers

/-- The result is shown or on the way. -/
def Covered (s : State Record) (m : ModelId) (model : Model Record) (index : ℕ) : Prop :=
  index < model.data.length ∨ TimerPending s m ∨ Fetching s m model index ∨ Loading s m index

/-- No notification is lost for a model in the store. -/
def NothingLost (s : State Record) : Prop :=
  ∀ p ∈ s.notified, ∀ model, s.models p.1 = some model → Covered s p.1 model p.2

/-- A notification for a model that is on display and is shown again comes while its results
are being loaded with the new one, if at all. -/
def NoticedWhileLoading (s : State Record) : Action Record → Prop
  | .notify m index _ => (s.models m).isSome → (s.pendingModels m).isSome → Loading s m index
  | _ => True

/-! ## What is on the way -/

theorem Loading.mono {index : ℕ} (h : Loading s m index)
    (hrequests : ∀ r ∈ s.requests, r.modelId = m → r ∈ s'.requests) : Loading s' m index := by
  obtain ⟨r, hr, hm, hreaches⟩ := h
  exact ⟨r, hrequests r hr hm, hm, hreaches⟩

theorem Covered.mono {index : ℕ} (h : Covered s m model index)
    (hdata : model.data.length ≤ model'.data.length) (hobject : model'.object = model.object)
    (htimers : ∀ t ∈ s.timers, t.2 = m → t ∈ s'.timers)
    (hrequests : ∀ r ∈ s.requests, r.modelId = m → r ∈ s'.requests) :
    Covered s' m model' index := by
  rcases h with hshown | ⟨id, htimer⟩ | ⟨r, hr, hm, hreaches⟩ | hloading
  · exact .inl (Nat.lt_of_lt_of_le hshown hdata)
  · exact .inr (.inl ⟨id, htimers _ htimer rfl⟩)
  · exact .inr (.inr (.inl ⟨r, hrequests r hr hm, hm, hobject ▸ hreaches⟩))
  · exact .inr (.inr (.inr (hloading.mono hrequests)))

/-- A model has the identifier of a timer only while the timer runs. -/
def TimerRuns (s : State Record) (m : ModelId) : Prop :=
  ∀ model id, s.models m = some model → model.fetchTimeoutId = some id → (id, m) ∈ s.timers

/-- What is kept for one model: an entry of the pending models knows of a notification that
the request under way for it does not answer. -/
structure KeptFor (s : State Record) (m : ModelId) : Prop where
  timer : TimerRuns s m
  shown : ∀ index, (m, index) ∈ s.notified → ∀ model, s.models m = some model →
    Covered s m model index
  pending : ∀ index, (m, index) ∈ s.notified → ∀ pendingModel,
    s.pendingModels m = some pendingModel → pendingModel.shouldFetch ∨ Loading s m index

/-- Nothing of the other models is taken away. -/
structure KeepsOthers (m : ModelId) (s s' : State Record) : Prop where
  models : ∀ n, n ≠ m → s'.models n = s.models n
  pendingModels : ∀ n, n ≠ m → s'.pendingModels n = s.pendingModels n
  notified : ∀ p ∈ s'.notified, p.1 ≠ m → p ∈ s.notified
  timers : ∀ t ∈ s.timers, t.2 ≠ m → t ∈ s'.timers
  requests : ∀ r ∈ s.requests, r.modelId ≠ m → r ∈ s'.requests

theorem KeepsOthers.refl (m : ModelId) (s : State Record) : KeepsOthers m s s :=
  ⟨fun _ _ => rfl, fun _ _ => rfl, fun _ h _ => h, fun _ h _ => h, fun _ h _ => h⟩

theorem KeepsOthers.trans {t : State Record} (h : KeepsOthers m s s') (h' : KeepsOthers m s' t) :
    KeepsOthers m s t where
  models n hn := (h'.models n hn).trans (h.models n hn)
  pendingModels n hn := (h'.pendingModels n hn).trans (h.pendingModels n hn)
  notified p hp hm := h.notified p (h'.notified p hp hm) hm
  timers t ht hm := h'.timers t (h.timers t ht hm) hm
  requests r hr hm := h'.requests r (h.requests r hr hm) hm

theorem KeptFor.of_ne {n : ModelId} (h : KeptFor s n) (hkeeps : KeepsOthers m s s')
    (hn : n ≠ m) : KeptFor s' n := by
  have htimers : ∀ t ∈ s.timers, t.2 = n → t ∈ s'.timers :=
    fun t ht htn => hkeeps.timers t ht (htn ▸ hn)
  have hrequests : ∀ r ∈ s.requests, r.modelId = n → r ∈ s'.requests :=
    fun r hr hrn => hkeeps.requests r hr (hrn ▸ hn)
  refine ⟨fun model id hmodel hid => ?_, fun index hindex model hmodel => ?_,
    fun index hindex pendingModel hpending => ?_⟩
  · rw [hkeeps.models n hn] at hmodel
    exact htimers _ (h.timer model id hmodel hid) rfl
  · rw [hkeeps.models n hn] at hmodel
    have hcovered := h.shown index (hkeeps.notified _ hindex hn) model hmodel
    exact hcovered.mono (le_refl _) rfl htimers hrequests
  · rw [hkeeps.pendingModels n hn] at hpending
    refine (h.pending index (hkeeps.notified _ hindex hn) pendingModel hpending).imp id ?_
    intro hloading
    exact hloading.mono hrequests

/-! ## Fetching -/

/-- After a fetch for a model, or the start of its timer, all of its results are on the way. -/
structure Fetches (m : ModelId) (s s' : State Record) : Prop extends KeepsOthers m s s' where
  database_eq : s'.database = s.database
  notified_eq : s'.notified = s.notified
  pendingModels_eq : s'.pendingModels = s.pendingModels
  requests_mono : ∀ r ∈ s.requests, r ∈ s'.requests
  timer : TimerRuns s' m
  covered : ∀ model, s'.models m = some model → ∀ index, Covered s' m model index

theorem KeptFor.of_fetches (hfetches : Fetches m s s')
    (hpending : ∀ index, (m, index) ∈ s.notified → ∀ pendingModel,
      s.pendingModels m = some pendingModel → pendingModel.shouldFetch ∨ Loading s m index) :
    KeptFor s' m := by
  refine ⟨hfetches.timer, fun index _ model hmodel => hfetches.covered model hmodel index,
    fun index hindex pendingModel hp => ?_⟩
  rw [hfetches.notified_eq] at hindex
  rw [hfetches.pendingModels_eq] at hp
  refine (hpending index hindex pendingModel hp).imp id fun hloading => ?_
  exact hloading.mono fun r hr _ => hfetches.requests_mono r hr

theorem fetchNewResults_fetches (now : ℤ) (m : ModelId) (s : State Record) :
    Fetches m s (fetchNewResults now m s) := by
  rw [fetchNewResults]
  split
  · rename_i hnone
    refine ⟨.refl m s, rfl, rfl, rfl, fun _ h => h, fun model id hmodel => ?_, fun model hmodel => ?_⟩
    · rw [hnone] at hmodel
      cases hmodel
    · rw [hnone] at hmodel
      cases hmodel
  · rename_i before hbefore
    refine ⟨⟨fun n hn => setModel_of_ne hn _, fun _ _ => rfl, fun _ h _ => h, fun _ h _ => h,
      fun _ h _ => List.mem_append_left _ h⟩, rfl, rfl, rfl, fun _ h => List.mem_append_left _ h,
      fun model id hmodel hid => ?_, fun model hmodel index => ?_⟩
    · change (s.setModel m _).models m = some model at hmodel
      rw [setModel_self] at hmodel
      cases hmodel
      cases hid
    · change (s.setModel m _).models m = some model at hmodel
      rw [setModel_self] at hmodel
      cases hmodel
      refine .inr (.inr (.inl
        ⟨_, List.mem_append_right _ (List.mem_singleton_self _), rfl, rfl, ?_⟩))
      intro records hrecords
      cases hrecords

theorem fetchNewResultsSoon_fetches (htimer : TimerRuns s m) :
    Fetches m s (fetchNewResultsSoon now m s) := by
  rw [fetchNewResultsSoon]
  split
  · rename_i hnone
    refine ⟨.refl m s, rfl, rfl, rfl, fun _ h => h, htimer, fun model hmodel => ?_⟩
    rw [hnone] at hmodel
    cases hmodel
  rename_i before hbefore
  split
  · dsimp only
    split
    · have hstarted : (s.created, m) ∈ s.timers ++ [(s.created, m)] :=
        List.mem_append_right _ (List.mem_singleton_self _)
      refine ⟨⟨fun n hn => setModel_of_ne hn _, fun _ _ => rfl, fun _ h _ => h,
        fun _ h _ => List.mem_append_left _ h, fun _ h _ => h⟩, rfl, rfl, rfl, fun _ h => h,
        fun model id hmodel hid => ?_, fun _ _ _ => .inr (.inl ⟨_, hstarted⟩)⟩
      change (s.setModel m _).models m = some model at hmodel
      rw [setModel_self] at hmodel
      cases hmodel
      cases hid
      exact hstarted
    · exact fetchNewResults_fetches now m s
  · rename_i hid
    obtain ⟨id, hid⟩ := Option.ne_none_iff_exists'.mp hid
    exact ⟨.refl m s, rfl, rfl, rfl, fun _ h => h, htimer,
      fun _ _ _ => .inr (.inl ⟨id, htimer before id hbefore hid⟩)⟩

/-! ## Steps -/

/-- The invariant of the runs in which notifications come while their results are loading. -/
structure Kept (s : State Record) : Prop where
  sound : Sound s
  stored : ∀ p ∈ s.notified, p.2 < (s.database p.1).length
  kept : ∀ m, KeptFor s m

theorem Kept.keptFor_of (h : Kept s) (hkeeps : KeepsOthers m s s') (hm : KeptFor s' m)
    (n : ModelId) : KeptFor s' n := by
  by_cases hn : n = m
  · exact hn ▸ hm
  · exact (h.kept n).of_ne hkeeps hn

theorem KeptFor.showModel (h : KeptFor s m) : KeptFor (showModel m s) m := by
  refine ⟨h.timer, fun index hindex model hmodel => ?_, fun index _ _ _ => .inr ?_⟩
  · exact (h.shown index hindex model hmodel).mono (le_refl _) rfl (fun _ ht _ => ht)
      fun _ hr _ => List.mem_append_left _ hr
  · refine ⟨_, List.mem_append_right _ (List.mem_singleton_self _), rfl, rfl, ?_⟩
    intro records hrecords
    cases hrecords

theorem showModel_keeps : KeepsOthers m s (showModel m s) :=
  ⟨fun _ _ => rfl, fun _ hn => Function.update_of_ne hn .., fun _ h _ => h, fun _ h _ => h,
    fun _ h _ => List.mem_append_left _ h⟩

theorem KeptFor.hide (h : KeptFor s m) : KeptFor (handleHideModel m s) m := by
  have hnone : (handleHideModel m s).models m = none := Function.update_self ..
  refine ⟨fun model id hmodel => ?_, fun index hindex model hmodel => ?_, h.pending⟩
  · rw [hnone] at hmodel
    cases hmodel
  · rw [hnone] at hmodel
    cases hmodel

theorem hide_keeps : KeepsOthers m s (handleHideModel m s) :=
  ⟨fun _ hn => Function.update_of_ne hn .., fun _ _ => rfl, fun _ h _ => h, fun _ h _ => h,
    fun _ h _ => h⟩

theorem notified_of_ne {notified : List (ModelId × ℕ)} {index : ℕ} {p : ModelId × ℕ}
    (hp : p ∈ notified ++ [(m, index)]) (hne : p.1 ≠ m) : p ∈ notified := by
  rcases List.mem_append.mp hp with hold | hnew
  · exact hold
  · rw [List.mem_singleton.mp hnew] at hne
    exact absurd rfl hne

theorem notify_keeps {index : ℕ} (h : TimerRuns s m) :
    KeepsOthers m s { handleNewModelResults now m s with
      notified := s.notified ++ [(m, index)] } := by
  rw [handleNewModelResults]
  split
  · have hfetches : Fetches m s (fetchNewResultsSoon now m s) := fetchNewResultsSoon_fetches h
    exact ⟨hfetches.models, hfetches.pendingModels, fun p hp hne => notified_of_ne hp hne,
      hfetches.timers, hfetches.requests⟩
  split
  · exact ⟨fun _ _ => rfl, fun _ hn => Function.update_of_ne hn ..,
      fun p hp hne => notified_of_ne hp hne, fun _ ht _ => ht, fun _ hr _ => hr⟩
  · exact ⟨fun _ _ => rfl, fun _ _ => rfl, fun p hp hne => notified_of_ne hp hne,
      fun _ ht _ => ht, fun _ hr _ => hr⟩

/-- A notification starts a fetch, or is remembered, or there is nothing to know it. -/
theorem KeptFor.notify {index : ℕ} (h : KeptFor s m)
    (hloading : (s.models m).isSome → (s.pendingModels m).isSome → Loading s m index) :
    KeptFor { handleNewModelResults now m s with notified := s.notified ++ [(m, index)] } m := by
  rw [handleNewModelResults]
  split
  · rename_i model hmodel
    have hfetches : Fetches m s (fetchNewResultsSoon now m s) :=
      fetchNewResultsSoon_fetches h.timer
    have hrequests : ∀ r ∈ s.requests, r.modelId = m →
        r ∈ (fetchNewResultsSoon now m s).requests := fun r hr _ => hfetches.requests_mono r hr
    refine ⟨hfetches.timer, fun other _ after hafter => hfetches.covered after hafter other,
      fun other hother pendingModel hpending => ?_⟩
    change (fetchNewResultsSoon now m s).pendingModels m = _ at hpending
    rw [hfetches.pendingModels_eq] at hpending
    rcases List.mem_append.mp hother with hold | hnew
    · refine (h.pending other hold pendingModel hpending).imp id fun hloads => ?_
      exact hloads.mono hrequests
    · cases List.mem_singleton.mp hnew
      have hloads := hloading (Option.isSome_of_eq_some hmodel) (Option.isSome_of_eq_some hpending)
      exact .inr (hloads.mono hrequests)
  rename_i hnone
  have hvacuous : ∀ {P : Prop} model, s.models m = some model → P := by
    intro _ model hmodel
    rw [hnone] at hmodel
    cases hmodel
  split
  · refine ⟨h.timer, fun other _ model hmodel => hvacuous model hmodel,
      fun other _ pendingModel hpending => .inl ?_⟩
    change Function.update _ _ _ _ = _ at hpending
    rw [Function.update_self] at hpending
    cases hpending
    rfl
  · rename_i hpending
    refine ⟨h.timer, fun other _ model hmodel => hvacuous model hmodel,
      fun other _ pendingModel hsome => ?_⟩
    change s.pendingModels m = some pendingModel at hsome
    rw [hpending] at hsome
    cases hsome

/-! ## Timers and responses -/

theorem timer_keeps {id : ℕ} (htimer : s.timers[i]? = some (id, m)) :
    KeepsOthers m s { s with timers := s.timers.eraseIdx i } := by
  refine ⟨fun _ _ => rfl, fun _ _ => rfl, fun _ h _ => h, fun t ht hne => ?_, fun _ h _ => h⟩
  rcases mem_eraseIdx_or_eq htimer ht with rfl | hmem
  · exact absurd rfl hne
  · exact hmem

theorem KeptFor.expire (h : KeptFor s m) :
    KeptFor (fetchNewResults now m { s with timers := s.timers.eraseIdx i }) m :=
  .of_fetches (fetchNewResults_fetches now m _) h.pending

/-- The database holds every result that the store has been notified of. -/
theorem KeptFor.answer {request : Request Record} (h : KeptFor s m)
    (hstored : ∀ index, (m, index) ∈ s.notified → index < (s.database m).length)
    (hrequest : s.requests[i]? = some request) :
    KeptFor { s with requests := s.requests.set i (request.answered s.database) } m := by
  have hanswered : ∀ index, (m, index) ∈ s.notified → ∀ r ∈ s.requests, r.modelId = m →
      r.Reaches index → ∃ r' ∈ s.requests.set i (request.answered s.database),
        r'.modelId = m ∧ r'.callback = r.callback ∧ r'.Reaches index := by
    intro index hindex r hr hm hreaches
    rcases mem_set_or_eq hrequest hr with rfl | hmem
    · obtain ⟨hlt, -⟩ := List.getElem?_eq_some_iff.mp hrequest
      refine ⟨_, List.mem_set hlt _, hm, rfl, fun records hrecords => ?_⟩
      have hdatabase := hstored index hindex
      cases hrecords
      rw [List.length_drop, hm]
      show index < r.offset + _
      omega
    · exact ⟨r, hmem, hm, rfl, hreaches⟩
  have hloads : ∀ index, (m, index) ∈ s.notified → Loading s m index →
      Loading { s with requests := s.requests.set i (request.answered s.database) } m index := by
    intro index hindex ⟨r, hr, hm, hcallback, hreaches⟩
    obtain ⟨r', hr', hm', hcallback', hreaches'⟩ := hanswered index hindex r hr hm hreaches
    exact ⟨r', hr', hm', hcallback'.trans hcallback, hreaches'⟩
  refine ⟨h.timer, fun index hindex model hmodel => ?_,
    fun index hindex pendingModel hpending => ?_⟩
  · rcases h.shown index hindex model hmodel with
      hshown | htimer | ⟨r, hr, hm, hcallback, hreaches⟩ | hloading
    · exact .inl hshown
    · exact .inr (.inl htimer)
    · obtain ⟨r', hr', hm', hcallback', hreaches'⟩ := hanswered index hindex r hr hm hreaches
      exact .inr (.inr (.inl ⟨r', hr', hm', hcallback'.trans hcallback, hreaches'⟩))
    · exact .inr (.inr (.inr (hloads index hindex hloading)))
  · exact (h.pending index hindex pendingModel hpending).imp id (hloads index hindex)

/-- The state without a request whose response has come. -/
abbrev received (i : ℕ) (s : State Record) : State Record :=
  { s with requests := s.requests.eraseIdx i }

section Response
variable {request : Request Record} {records : List Record}

theorem received_keeps (hrequest : s.requests[i]? = some request) :
    KeepsOthers request.modelId s (received i s) := by
  refine ⟨fun _ _ => rfl, fun _ _ => rfl, fun _ h _ => h, fun _ h _ => h, fun r hr hne => ?_⟩
  rcases mem_eraseIdx_or_eq hrequest hr with rfl | hmem
  · exact absurd rfl hne
  · exact hmem

theorem storeModel_keeps : KeepsOthers m s (storeModel now m records s) :=
  ⟨fun _ hn => setModel_of_ne hn _, fun _ hn => Function.update_of_ne hn .., fun _ h _ => h,
    fun _ h _ => h, fun _ h _ => h⟩

/-- A model just stored is not pending. -/
theorem storeModel_pending : (storeModel now m records s).pendingModels m = none :=
  Function.update_self ..

theorem storeModel_timer : TimerRuns (storeModel now m records s) m := by
  intro model id hmodel hid
  change (s.setModel m _).models m = some model at hmodel
  rw [setModel_self] at hmodel
  cases hmodel
  cases hid

theorem pending_of_none {P : ℕ → Prop} (hnone : s.pendingModels m = none) :
    ∀ index, (m, index) ∈ s.notified → ∀ pendingModel,
      s.pendingModels m = some pendingModel → pendingModel.shouldFetch ∨ P index := by
  intro index _ pendingModel hpending
  rw [hnone] at hpending
  cases hpending

/-- A model loaded shows what the response has; what it has not, another response will. -/
theorem KeptFor.storeModel (hloading : ∀ index, (m, index) ∈ s.notified →
    index < records.length ∨ Loading s m index) : KeptFor (storeModel now m records s) m := by
  refine ⟨storeModel_timer, fun index hindex model hmodel => ?_,
    pending_of_none storeModel_pending⟩
  change (s.setModel m _).models m = some model at hmodel
  rw [setModel_self] at hmodel
  cases hmodel
  rcases hloading index hindex with hlt | hloads
  · exact .inl hlt
  · exact .inr (.inr (.inr (hloads.mono fun _ hr _ => hr)))

theorem handleLoadModelData_keeps (htimer : TimerRuns s m) :
    KeepsOthers m s (handleLoadModelData now m records s) := by
  rw [handleLoadModelData]
  split
  · split
    · exact storeModel_keeps.trans (fetchNewResultsSoon_fetches storeModel_timer).toKeepsOthers
    · exact storeModel_keeps
  split
  · exact (fetchNewResultsSoon_fetches htimer).toKeepsOthers
  · exact .refl m s

theorem KeptFor.handleLoadModelData (htimer : TimerRuns s m)
    (hpending : ∀ index, (m, index) ∈ s.notified → ∀ pendingModel,
      s.pendingModels m = some pendingModel →
        pendingModel.shouldFetch ∨ index < records.length ∨ Loading s m index) :
    KeptFor (handleLoadModelData now m records s) m := by
  rw [ModelDataStore.handleLoadModelData]
  split
  · rename_i pendingModel hsome
    split
    · exact .of_fetches (fetchNewResultsSoon_fetches storeModel_timer)
        (pending_of_none storeModel_pending)
    · rename_i hfetch
      exact .storeModel fun index hindex =>
        (hpending index hindex pendingModel hsome).resolve_left hfetch
  rename_i hnone
  split
  · exact .of_fetches (fetchNewResultsSoon_fetches htimer) (pending_of_none hnone)
  · rename_i hnomodel
    refine ⟨htimer, fun index _ model hmodel => ?_, pending_of_none hnone⟩
    rw [hnomodel] at hmodel
    cases hmodel

theorem handleLoadModelData_stored (htimer : TimerRuns s m) :
    (handleLoadModelData now m records s).database = s.database ∧
      (handleLoadModelData now m records s).notified = s.notified := by
  rw [handleLoadModelData]
  split
  · split
    · have hfetches : Fetches m (storeModel now m records s)
          (fetchNewResultsSoon now m (storeModel now m records s)) :=
        fetchNewResultsSoon_fetches storeModel_timer
      exact ⟨hfetches.database_eq, hfetches.notified_eq⟩
    · exact ⟨rfl, rfl⟩
  split
  · have hfetches : Fetches m s (fetchNewResultsSoon now m s) := fetchNewResultsSoon_fetches htimer
    exact ⟨hfetches.database_eq, hfetches.notified_eq⟩
  · exact ⟨rfl, rfl⟩

theorem handleFetched_stored {object offset : ℕ} :
    (handleFetched now m object offset records s).database = s.database ∧
      (handleFetched now m object offset records s).notified = s.notified := by
  rw [handleFetched]
  split
  · exact ⟨rfl, rfl⟩
  split
  · exact ⟨rfl, rfl⟩
  · exact ⟨rfl, rfl⟩

theorem handleFetched_keeps {object offset : ℕ} :
    KeepsOthers m s (handleFetched now m object offset records s) := by
  rw [handleFetched]
  split
  · exact .refl m s
  split
  · exact ⟨fun _ hn => setModel_of_ne hn _, fun _ _ => rfl, fun _ h _ => h, fun _ h _ => h,
      fun _ h _ => h⟩
  · exact .refl m s

/-- The response to a fetch is put into the model on display if the fetch was for it. -/
theorem KeptFor.handleFetched {object : ℕ} (h : KeptFor s request.modelId) (hs : Sound s)
    (hrequest : s.requests[i]? = some request) (hanswer : request.answer = some records)
    (hcallback : request.callback = .splice object) :
    KeptFor (handleFetched now request.modelId object request.offset records (received i s))
      request.modelId := by
  have hsound := hs.requests request (List.mem_of_getElem? hrequest)
  have hloads : ∀ index, Loading s request.modelId index →
      Loading (received i s) request.modelId index := by
    intro index ⟨r, hr, hm, hload, hreaches⟩
    rcases mem_eraseIdx_or_eq hrequest hr with rfl | hmem
    · rw [hcallback] at hload
      cases hload
    · exact ⟨r, hmem, hm, hload, hreaches⟩
  have hpending : ∀ index, (request.modelId, index) ∈ s.notified → ∀ pendingModel,
      s.pendingModels request.modelId = some pendingModel →
        pendingModel.shouldFetch ∨ Loading (received i s) request.modelId index :=
    fun index hindex pendingModel hp =>
      (h.pending index hindex pendingModel hp).imp id (hloads index)
  rw [ModelDataStore.handleFetched]
  split
  · rename_i hnone
    refine ⟨h.timer, fun index _ model hmodel => ?_, hpending⟩
    rw [hnone] at hmodel
    cases hmodel
  rename_i model hmodel
  split
  · rename_i hobject
    obtain ⟨-, hlength, hreached⟩ := splice_prefix (hs.data _ model hmodel)
      (hsound.answer records hanswer) ((hsound.splice object hcallback).2 model hmodel hobject)
    refine ⟨fun other id hother hid => ?_, fun index hindex other hother => ?_, hpending⟩
    · change ((received i s).setModel _ _).models _ = some other at hother
      rw [setModel_self] at hother
      cases hother
      exact h.timer model id hmodel hid
    · change ((received i s).setModel _ _).models _ = some other at hother
      rw [setModel_self] at hother
      cases hother
      rcases h.shown index hindex model hmodel with
        hshown | htimer | ⟨r, hr, hm, hsplice, hreaches⟩ | hloading
      · exact .inl (Nat.lt_of_lt_of_le hshown hlength)
      · exact .inr (.inl htimer)
      · rcases mem_eraseIdx_or_eq hrequest hr with rfl | hmem
        · exact .inl (Nat.lt_of_lt_of_le (hreaches records hanswer) hreached)
        · exact .inr (.inr (.inl ⟨r, hmem, hm, hsplice, hreaches⟩))
      · exact .inr (.inr (.inr (hloads index hloading)))
  · rename_i hother
    refine ⟨h.timer, fun index hindex other hsome => ?_, hpending⟩
    cases hmodel.symm.trans hsome
    rcases h.shown index hindex model hmodel with
      hshown | htimer | ⟨r, hr, hm, hsplice, hreaches⟩ | hloading
    · exact .inl hshown
    · exact .inr (.inl htimer)
    · rcases mem_eraseIdx_or_eq hrequest hr with rfl | hmem
      · rw [hcallback, Callback.splice.injEq] at hsplice
        exact absurd hsplice.symm hother
      · exact .inr (.inr (.inl ⟨r, hmem, hm, hsplice, hreaches⟩))
    · exact .inr (.inr (.inr (hloads index hloading)))

/-- A load that is answered shows a result, or another one does. -/
theorem Loading.received {index : ℕ} (h : Loading s request.modelId index)
    (hrequest : s.requests[i]? = some request) (hanswer : request.answer = some records)
    (hoffset : request.offset = 0) :
    index < records.length ∨ Loading (received i s) request.modelId index := by
  obtain ⟨r, hr, hm, hload, hreaches⟩ := h
  rcases mem_eraseIdx_or_eq hrequest hr with rfl | hmem
  · have hlt := hreaches records hanswer
    rw [hoffset, Nat.zero_add] at hlt
    exact .inl hlt
  · exact .inr ⟨r, hmem, hm, hload, hreaches⟩

end Response

/-! ## Runs -/

theorem Kept.stored_of_eq (h : Kept s) (heq : s'.database = s.database ∧ s'.notified = s.notified) :
    ∀ p ∈ s'.notified, p.2 < (s'.database p.1).length := by
  rw [heq.1, heq.2]
  exact h.stored

theorem Kept.respond (h : Kept s) (hn : respond i now s = some s') : Kept s' := by
  have hsound := h.sound.respond hn
  rw [ModelDataStore.respond] at hn
  split at hn
  · cases hn
  rename_i request hrequest
  split at hn
  · cases hn
  rename_i records hanswer
  have hkeeps := received_keeps hrequest
  dsimp only at hn
  split at hn
  · rename_i hcallback
    cases hn
    have hoffset := (h.sound.requests request (List.mem_of_getElem? hrequest)).load hcallback
    have htimer : TimerRuns (received i s) request.modelId := (h.kept request.modelId).timer
    refine ⟨hsound, h.stored_of_eq (handleLoadModelData_stored htimer),
      h.keptFor_of (hkeeps.trans (handleLoadModelData_keeps htimer)) ?_⟩
    refine .handleLoadModelData htimer fun index hindex pendingModel hpending => ?_
    refine ((h.kept _).pending index hindex pendingModel hpending).imp id fun hloads => ?_
    exact hloads.received hrequest hanswer hoffset
  · rename_i object hcallback
    cases hn
    exact ⟨hsound, h.stored_of_eq handleFetched_stored,
      h.keptFor_of (hkeeps.trans handleFetched_keeps)
        ((h.kept _).handleFetched h.sound hrequest hanswer hcallback)⟩

theorem Kept.timer (h : Kept s) (hn : timer i now s = some s') : Kept s' := by
  have hsound := h.sound.timer hn
  rw [ModelDataStore.timer] at hn
  split at hn
  · cases hn
  · rename_i id m htimer
    cases hn
    have hfetches := fetchNewResults_fetches now m { s with timers := s.timers.eraseIdx i }
    exact ⟨hsound, h.stored_of_eq ⟨hfetches.database_eq, hfetches.notified_eq⟩,
      h.keptFor_of ((timer_keeps htimer).trans hfetches.toKeepsOthers) (h.kept m).expire⟩

theorem Kept.answer (h : Kept s) (hn : answer i s = some s') : Kept s' := by
  have hsound := h.sound.answer hn
  rw [ModelDataStore.answer] at hn
  split at hn
  · cases hn
  rename_i request hrequest
  split at hn
  · cases hn
  · cases hn
    exact ⟨hsound, h.stored, fun m =>
      (h.kept m).answer (fun index hindex => h.stored (m, index) hindex) hrequest⟩

theorem Kept.notify {index : ℕ} (h : Kept s)
    (hloading : (s.models m).isSome → (s.pendingModels m).isSome → Loading s m index)
    (hn : notify m index now s = some s') : Kept s' := by
  rw [ModelDataStore.notify] at hn
  split at hn
  · rename_i hlt
    cases hn
    have hkept := h.kept m
    have hdatabase : (handleNewModelResults now m s).database = s.database := by
      rw [handleNewModelResults]
      split
      · exact (fetchNewResultsSoon_fetches hkept.timer).database_eq
      split
      · rfl
      · rfl
    refine ⟨h.sound.handleNewModelResults.of_eq rfl rfl (le_refl _) fun _ hr => hr,
      fun p hp => ?_, h.keptFor_of (notify_keeps hkept.timer) (hkept.notify hloading)⟩
    show p.2 < ((handleNewModelResults now m s).database p.1).length
    rw [hdatabase]
    rcases List.mem_append.mp hp with hold | hnew
    · exact h.stored p hold
    · rw [List.mem_singleton.mp hnew]
      exact hlt
  · cases hn

theorem Kept.write (h : Kept s) (record : Record) : Kept { s with
    database := Function.update s.database m (s.database m ++ [record]) } := by
  have hbegins : ∀ n, s.database n <+:
      Function.update s.database m (s.database m ++ [record]) n := by
    intro n
    by_cases hnm : n = m
    · rw [hnm, Function.update_self]
      exact List.prefix_append _ _
    · rw [Function.update_of_ne hnm]
  refine ⟨h.sound.write hbegins, fun p hp => ?_, fun n => ?_⟩
  · exact Nat.lt_of_lt_of_le (h.stored p hp) (hbegins p.1).length_le
  · obtain ⟨htimer, hshown, hpending⟩ := h.kept n
    exact ⟨htimer, hshown, hpending⟩

theorem Kept.next {a : Action Record} (h : Kept s) (ha : NoticedWhileLoading s a)
    (hn : next a s = some s') : Kept s' := by
  cases a with
  | showModel m =>
    cases hn
    exact ⟨h.sound.next (a := .showModel m) rfl, h.stored,
      h.keptFor_of showModel_keeps (h.kept m).showModel⟩
  | hideModel m =>
    cases hn
    exact ⟨h.sound.hide, h.stored, h.keptFor_of hide_keeps (h.kept m).hide⟩
  | write m record =>
    cases hn
    exact h.write record
  | notify m index now => exact h.notify ha hn
  | timer i now => exact h.timer hn
  | answer i => exact h.answer hn
  | respond i now => exact h.respond hn

theorem Kept.nothingLost (h : Kept s) : NothingLost s :=
  fun p hp model hmodel => (h.kept p.1).shown p.2 hp model hmodel

theorem kept_init : Kept (init Record) :=
  ⟨.init, fun _ h => (by cases h), fun _ => ⟨fun _ _ h => (by cases h),
    fun _ h => (by cases h), fun _ h => (by cases h)⟩⟩

/-- What is displayed of a model is the beginning of its results in the database. -/
def DisplaysPrefix (s : State Record) : Prop :=
  ∀ m model, s.models m = some model → model.data <+: s.database m

/-- In every run the store displays beginnings of the results, and no notification is lost if
each that comes for a model on display, while the model is shown again, finds its result
loading. -/
theorem displayed_results_complete {tr : List (State Record × Action Record)}
    (h : Run (system Record) tr s) :
    (∀ t ∈ statesOf tr s, DisplaysPrefix t) ∧
      ((∀ p ∈ tr, NoticedWhileLoading p.1 p.2) → ∀ t ∈ statesOf tr s, NothingLost t) := by
  constructor
  · exact h.forall_states (G := fun _ _ => True) (I := Sound) (fun _ hs => hs ▸ .init)
      (fun _ _ _ hs _ hn => hs.next hn) (fun _ hs => hs.data) fun _ _ => trivial
  · exact h.forall_states (I := Kept) (fun _ hs => hs ▸ kept_init)
      (fun _ _ _ hs ha hn => hs.next ha hn) fun _ hs => hs.nothingLost

/-- A notification for a model that is not being shown again. -/
def notPending (s : State Record) : Action Record → Bool
  | .notify m _ _ => (s.pendingModels m).isNone
  | _ => true

theorem noticed_of_notPending {a : Action Record} (h : notPending s a) :
    NoticedWhileLoading s a := by
  cases a with
  | notify m index now =>
    intro _ hpending
    rw [notPending, Option.isNone_iff_eq_none] at h
    rw [h] at hpending
    cases hpending
  | _ => trivial

/-- A model is shown, and the second notification finds the timer running. -/
def shownSchedule : List (Action ℕ) :=
  [.showModel "m", .answer 0, .respond 0 500, .write "m" 7, .notify "m" 0 1000, .write "m" 8,
    .notify "m" 1 1001, .answer 0, .respond 0 1002, .timer 0 1400]

theorem displayed_results_complete_shown : ∃ tr s, Run (system ℕ) tr s ∧
    ("m", 1) ∈ s.notified ∧ ∀ t ∈ statesOf tr s, DisplaysPrefix t ∧ NothingLost t := by
  obtain ⟨s, hexec, hnotified⟩ := (Option.any_eq_true _ _).mp
    (by decide +kernel : ((system ℕ).exec shownSchedule (init ℕ)).any
      fun s => decide (("m", 1) ∈ s.notified))
  have hrun : Run (system ℕ) ((system ℕ).trace shownSchedule (init ℕ)) s :=
    (Run.init rfl).exec_trace hexec
  have hnoticed : ∀ p ∈ (system ℕ).trace shownSchedule (init ℕ), notPending p.1 p.2 :=
    List.all_eq_true.mp (by decide +kernel)
  obtain ⟨hdisplays, hcomplete⟩ := displayed_results_complete hrun
  refine ⟨_, s, hrun, of_decide_eq_true hnotified, fun t ht => ⟨hdisplays t ht, ?_⟩⟩
  exact hcomplete (fun p hp => noticed_of_notPending (hnoticed p hp)) t ht

/-- A model on display is shown again, and a result comes after the database has answered: it
is fetched for the object that the answer replaces. -/
def replacedSchedule : List (Action ℕ) :=
  [.showModel "m", .answer 0, .respond 0 500, .showModel "m", .answer 0, .write "m" 7,
    .notify "m" 0 1000, .answer 1, .respond 0 1001, .respond 0 1002]

theorem notification_lost : ∃ tr s, Run (system ℕ) tr s ∧
    (∃ p ∈ tr, p.2 = .notify "m" 0 1000 ∧ (p.1.models "m").isSome) ∧
    (∃ model, s.models "m" = some model ∧ model.data = []) ∧ s.database "m" = [7] ∧
    ¬ NothingLost s := by
  obtain ⟨s, hexec, hlost⟩ := (Option.any_eq_true _ _).mp
    (by decide +kernel : ((system ℕ).exec replacedSchedule (init ℕ)).any fun s =>
      (s.models "m").any (fun model => model.data = []) && decide (s.database "m" = [7]) &&
        decide (("m", 0) ∈ s.notified) && s.timers.isEmpty && s.requests.isEmpty)
  obtain ⟨p, hp, hnotified⟩ := List.any_eq_true.mp
    (by decide +kernel : ((system ℕ).trace replacedSchedule (init ℕ)).any fun p =>
      decide (p.2 = .notify "m" 0 1000) && (p.1.models "m").isSome)
  simp only [Bool.and_eq_true, decide_eq_true_eq, List.isEmpty_iff] at hlost hnotified
  obtain ⟨⟨⟨⟨hmodel, hdatabase⟩, hmem⟩, htimers⟩, hrequests⟩ := hlost
  obtain ⟨model, hmodel, hdata⟩ := (Option.any_eq_true _ _).mp hmodel
  rw [decide_eq_true_eq] at hdata
  refine ⟨_, s, (Run.init rfl).exec_trace hexec, ⟨p, hp, hnotified⟩, ⟨model, hmodel, hdata⟩,
    hdatabase, fun hnothing => ?_⟩
  rcases hnothing _ hmem model hmodel with hshown | ⟨_, htimer⟩ | ⟨_, hr, _⟩ | ⟨_, hr, _⟩
  · rw [hdata] at hshown
    cases hshown
  · rw [htimers] at htimer
    cases htimer
  · rw [hrequests] at hr
    cases hr
  · rw [hrequests] at hr
    cases hr

end NumentaApps.Unicorn.ModelDataStore
