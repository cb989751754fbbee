import NumentaApps.ModelDataStore

/-!
# Displayed results

What the store shows of a model is always the beginning of the results in the database, in
whatever order the responses come.
-/
namespace NumentaApps.Unicorn.ModelDataStore

open TransitionSystem

variable {Record : Type} {s s' : State Record} {m : ModelId} {model : Model Record} {now : ℤ}
  {i : ℕ}

/-! ## Splicing -/

section Splice
variable {data records results : List Record} {offset : ℕ}

/-- What a database with these results answered from an offset on, put into a beginning of
the results at that offset: again a beginning, that no response shortens. -/
theorem splice_prefix (hdata : data <+: results) (hrecords : records <+: results.drop offset)
    (hoffset : offset ≤ data.length) :
    splice data offset records.length records <+: results ∧
      data.length ≤ (splice data offset records.length records).length ∧
      offset + records.length ≤ (splice data offset records.length records).length := by
  have hbefore : data.take offset = results.take offset := by
    rw [List.prefix_iff_eq_take.mp hdata, List.take_take, Nat.min_eq_left hoffset]
  have hstart : data.take offset ++ records = results.take (offset + records.length) := by
    rw [hbefore, List.take_add, ← List.prefix_iff_eq_take.mp hrecords]
  have hlength : (data.take offset ++ records).length = offset + records.length := by
    rw [List.length_append, List.length_take, Nat.min_eq_left hoffset]
  rw [splice]
  by_cases hlong : offset + records.length ≤ data.length
  · have hsame : data.take offset ++ records ++ data.drop (offset + records.length) = data := by
      conv_rhs => rw [← List.take_append_drop (offset + records.length) data]
      rw [hstart, List.prefix_iff_eq_take.mp hdata, List.take_take, Nat.min_eq_left hlong]
    rw [hsame]
    exact ⟨hdata, le_refl _, hlong⟩
  · rw [List.drop_eq_nil_of_le (by omega), List.append_nil]
    refine ⟨hstart ▸ List.take_prefix _ _, ?_, ?_⟩
    · omega
    · omega

end Splice

/-! ## The beginning of the results -/

structure Request.Sound (r : Request Record) (s : State Record) : Prop where
  answer : ∀ records, r.answer = some records → records <+: (s.database r.modelId).drop r.offset
  load : r.callback = .loadModelData → r.offset = 0
  splice : ∀ object, r.callback = .splice object → object < s.created ∧
    ∀ model, s.models r.modelId = some model → model.object = object →
      r.offset ≤ model.data.length

structure Sound (s : State Record) : Prop where
  data : ∀ m model, s.models m = some model → model.data <+: s.database m
  object_lt : ∀ m model, s.models m = some model → model.object < s.created
  requests : ∀ r ∈ s.requests, r.Sound s

theorem setModel_self (model : Model Record) : (s.setModel m model).models m = some model :=
  Function.update_self ..

theorem setModel_of_ne {m' : ModelId} (h : m' ≠ m) (model : Model Record) :
    (s.setModel m model).models m' = s.models m' := Function.update_of_ne h ..

/-- What is sound stays so when nothing but timers, pending entries and notifications
change, and requests are dropped. -/
theorem Sound.of_eq (h : Sound s) (hmodels : s'.models = s.models)
    (hdatabase : s'.database = s.database) (hcreated : s.created ≤ s'.created)
    (hrequests : ∀ r ∈ s'.requests, r ∈ s.requests) : Sound s' := by
  refine ⟨fun m model hm => ?_, fun m model hm => ?_, fun r hr => ?_⟩
  · rw [hdatabase]
    exact h.data m model (hmodels ▸ hm)
  · exact Nat.lt_of_lt_of_le (h.object_lt m model (hmodels ▸ hm)) hcreated
  · obtain ⟨hanswer, hload, hsplice⟩ := h.requests r (hrequests r hr)
    refine ⟨hdatabase ▸ hanswer, hload, fun object hobject => ?_⟩
    obtain ⟨hlt, hoffset⟩ := hsplice object hobject
    exact ⟨Nat.lt_of_lt_of_le hlt hcreated, hmodels ▸ hoffset⟩

/-- A model may change that keeps its object and loses no data. -/
theorem Sound.setModel (h : Sound s) {model' : Model Record} (hmodel : s.models m = some model)
    (hobject : model'.object = model.object) (hlength : model.data.length ≤ model'.data.length)
    (hdata : model'.data <+: s.database m) : Sound (s.setModel m model') := by
  refine ⟨fun n other hn => ?_, fun n other hn => ?_, fun r hr => ?_⟩
  · by_cases hnm : n = m
    · subst hnm
      rw [setModel_self] at hn
      cases hn
      exact hdata
    · rw [setModel_of_ne hnm] at hn
      exact h.data n other hn
  · by_cases hnm : n = m
    · subst hnm
      rw [setModel_self] at hn
      cases hn
      rw [hobject]
      exact h.object_lt n model hmodel
    · rw [setModel_of_ne hnm] at hn
      exact h.object_lt n other hn
  · obtain ⟨hanswer, hload, hsplice⟩ := h.requests r hr
    refine ⟨hanswer, hload, fun object hcallback => ?_⟩
    obtain ⟨hlt, hoffset⟩ := hsplice object hcallback
    refine ⟨hlt, fun other hn hother => ?_⟩
    by_cases hnm : r.modelId = m
    · rw [hnm, setModel_self] at hn
      cases hn
      exact Nat.le_trans (hoffset model (hnm ▸ hmodel) (hobject ▸ hother)) hlength
    · rw [setModel_of_ne hnm] at hn
      exact hoffset other hn hother

theorem Sound.addRequest (h : Sound s) {r : Request Record} (hr : r.Sound s) :
    Sound { s with requests := s.requests ++ [r] } := by
  refine ⟨h.data, h.object_lt, fun r' hr' => ?_⟩
  have hsound : r'.Sound s := by
    rcases List.mem_append.mp hr' with hold | hnew
    · exact h.requests r' hold
    · exact List.mem_singleton.mp hnew ▸ hr
  exact ⟨hsound.answer, hsound.load, hsound.splice⟩

theorem Sound.fetchNewResults (h : Sound s) : Sound (fetchNewResults now m s) := by
  rw [ModelDataStore.fetchNewResults]
  split
  · exact h
  · rename_i model hmodel
    have hset : Sound (s.setModel m { model with fetchTimeoutId := none, lastFetchTime := now }) :=
      h.setModel hmodel rfl (le_refl _) (h.data m model hmodel)
    refine hset.addRequest ⟨fun _ hanswer => (by cases hanswer), fun hload => (by cases hload),
      fun object hobject => ?_⟩
    cases hobject
    refine ⟨h.object_lt m model hmodel, fun other hother _ => ?_⟩
    rw [setModel_self] at hother
    cases hother
    exact le_refl _

theorem Sound.fetchNewResultsSoon (h : Sound s) : Sound (fetchNewResultsSoon now m s) := by
  rw [ModelDataStore.fetchNewResultsSoon]
  split
  · exact h
  rename_i model hmodel
  split
  · dsimp only
    split
    · have hset : Sound (s.setModel m { model with fetchTimeoutId := some s.created }) :=
        h.setModel hmodel rfl (le_refl _) (h.data m model hmodel)
      exact hset.of_eq rfl rfl (Nat.le_succ _) fun _ hr => hr
    · exact h.fetchNewResults
  · exact h

theorem Sound.handleNewModelResults (h : Sound s) : Sound (handleNewModelResults now m s) := by
  rw [ModelDataStore.handleNewModelResults]
  split
  · exact h.fetchNewResultsSoon
  split
  · exact h.of_eq rfl rfl (le_refl _) fun _ hr => hr
  · exact h

/-- A new object, which no request is for. -/
theorem Sound.storeModel (h : Sound s) {data : List Record} (hdata : data <+: s.database m) :
    Sound (storeModel now m data s) := by
  refine ⟨fun n other hn => ?_, fun n other hn => ?_, fun r hr => ?_⟩
  · change (s.setModel m _).models n = some other at hn
    by_cases hnm : n = m
    · subst hnm
      rw [setModel_self] at hn
      cases hn
      exact hdata
    · rw [setModel_of_ne hnm] at hn
      exact h.data n other hn
  · change (s.setModel m _).models n = some other at hn
    by_cases hnm : n = m
    · subst hnm
      rw [setModel_self] at hn
      cases hn
      exact Nat.lt_succ_self _
    · rw [setModel_of_ne hnm] at hn
      exact Nat.lt_succ_of_lt (h.object_lt n other hn)
  · obtain ⟨hanswer, hload, hsplice⟩ := h.requests r hr
    refine ⟨hanswer, hload, fun object hcallback => ?_⟩
    obtain ⟨hlt, hoffset⟩ := hsplice object hcallback
    refine ⟨Nat.lt_succ_of_lt hlt, fun other hn hother => ?_⟩
    change (s.setModel m _).models r.modelId = some other at hn
    by_cases hnm : r.modelId = m
    · rw [hnm, setModel_self] at hn
      cases hn
      exact absurd hother (Nat.ne_of_gt hlt)
    · rw [setModel_of_ne hnm] at hn
      exact hoffset other hn hother

theorem Sound.handleLoadModelData (h : Sound s) {data : List Record}
    (hdata : data <+: s.database m) : Sound (handleLoadModelData now m data s) := by
  rw [ModelDataStore.handleLoadModelData]
  split
  · split
    · exact (h.storeModel hdata).fetchNewResultsSoon
    · exact h.storeModel hdata
  split
  · exact h.fetchNewResultsSoon
  · exact h

theorem Sound.handleFetched (h : Sound s) {object offset : ℕ} {records : List Record}
    (hrecords : records <+: (s.database m).drop offset)
    (hoffset : ∀ model, s.models m = some model → model.object = object →
      offset ≤ model.data.length) :
    Sound (handleFetched now m object offset records s) := by
  rw [ModelDataStore.handleFetched]
  split
  · exact h
  rename_i model hmodel
  split
  · rename_i hobject
    obtain ⟨hbegins, hlength, -⟩ :=
      splice_prefix (h.data m model hmodel) hrecords (hoffset model hmodel hobject)
    exact h.setModel hmodel rfl hlength hbegins
  · exact h

theorem Sound.hide (h : Sound s) : Sound (handleHideModel m s) := by
  have hmodels : ∀ n model, (handleHideModel m s).models n = some model →
      s.models n = some model := by
    intro n model hn
    by_cases hnm : n = m
    · subst hnm
      change Function.update _ _ _ _ = _ at hn
      rw [Function.update_self] at hn
      cases hn
    · change Function.update _ _ _ _ = _ at hn
      rwa [Function.update_of_ne hnm] at hn
  refine ⟨fun n model hn => h.data n model (hmodels n model hn),
    fun n model hn => h.object_lt n model (hmodels n model hn), fun r hr => ?_⟩
  obtain ⟨hanswer, hload, hsplice⟩ := h.requests r hr
  refine ⟨hanswer, hload, fun object hcallback => ?_⟩
  obtain ⟨hlt, hoffset⟩ := hsplice object hcallback
  exact ⟨hlt, fun model hn => hoffset model (hmodels _ model hn)⟩

/-- The database only ever holds more. -/
theorem Sound.write (h : Sound s) {database : ModelId → List Record}
    (hdatabase : ∀ n, s.database n <+: database n) : Sound { s with database := database } := by
  refine ⟨fun n model hn => (h.data n model hn).trans (hdatabase n), h.object_lt, fun r hr => ?_⟩
  obtain ⟨hanswer, hload, hsplice⟩ := h.requests r hr
  refine ⟨fun records hrecords => (hanswer records hrecords).trans ?_, hload, hsplice⟩
  exact (hdatabase r.modelId).drop r.offset

theorem Sound.answer (h : Sound s) (hn : answer i s = some s') : Sound s' := by
  rw [ModelDataStore.answer] at hn
  split at hn
  · cases hn
  rename_i request hrequest
  split at hn
  · cases hn
  · cases hn
    refine ⟨h.data, h.object_lt, fun r hr => ?_⟩
    rcases List.mem_or_eq_of_mem_set hr with hold | rfl
    · obtain ⟨hanswer, hload, hsplice⟩ := h.requests r hold
      exact ⟨hanswer, hload, hsplice⟩
    · obtain ⟨-, hload, hsplice⟩ := h.requests request (List.mem_of_getElem? hrequest)
      refine ⟨fun records hrecords => ?_, hload, hsplice⟩
      cases hrecords
      exact List.prefix_rfl

theorem Sound.respond (h : Sound s) (hn : respond i now s = some s') : Sound s' := by
  rw [ModelDataStore.respond] at hn
  split at hn
  · cases hn
  rename_i request hrequest
  split at hn
  · cases hn
  rename_i records hrecords
  have hrest : Sound { s with requests := s.requests.eraseIdx i } :=
    h.of_eq rfl rfl (le_refl _) fun _ hr => List.mem_of_mem_eraseIdx hr
  obtain ⟨hanswer, hload, hsplice⟩ := h.requests request (List.mem_of_getElem? hrequest)
  dsimp only at hn
  split at hn
  · rename_i hcallback
    cases hn
    apply hrest.handleLoadModelData
    have hdata := hanswer records hrecords
    rwa [hload hcallback, List.drop_zero] at hdata
  · rename_i object hcallback
    cases hn
    exact hrest.handleFetched (hanswer records hrecords) (hsplice object hcallback).2

theorem Sound.timer (h : Sound s) (hn : timer i now s = some s') : Sound s' := by
  rw [ModelDataStore.timer] at hn
  split at hn
  · cases hn
  · cases hn
    exact Sound.fetchNewResults (h.of_eq rfl rfl (le_refl _) fun _ hr => hr)

theorem Sound.next {a : Action Record} (h : Sound s) (hn : next a s = some s') : Sound s' := by
  cases a with
  | showModel m =>
    cases hn
    refine (h.of_eq rfl rfl (le_refl _) fun _ hr => hr :
      Sound (handlePrepareForResults m s)).addRequest
        ⟨fun _ hanswer => (by cases hanswer), fun _ => rfl, fun _ hsplice => (by cases hsplice)⟩
  | hideModel m =>
    cases hn
    exact h.hide
  | write m record =>
    cases hn
    refine h.write fun n => ?_
    by_cases hnm : n = m
    · rw [hnm, Function.update_self]
      exact List.prefix_append _ _
    · rw [Function.update_of_ne hnm]
  | notify m index now =>
    change ModelDataStore.notify m index now s = some s' at hn
    rw [ModelDataStore.notify] at hn
    split at hn
    · cases hn
      exact h.handleNewModelResults.of_eq rfl rfl (le_refl _) fun _ hr => hr
    · cases hn
  | timer i now => exact h.timer hn
  | answer i => exact h.answer hn
  | respond i now => exact h.respond hn

theorem Sound.init : Sound (init Record) :=
  ⟨fun _ _ h => (by cases h), fun _ _ h => (by cases h), fun _ h => (by cases h)⟩

theorem sound_of_reachable (h : Reachable (system Record) s) : Sound s :=
  h.invariant (fun _ hs => hs ▸ Sound.init) fun _ _ _ _ hs hn => hs.next hn

end NumentaApps.Unicorn.ModelDataStore
