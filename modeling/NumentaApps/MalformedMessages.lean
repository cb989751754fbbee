import NumentaApps.MetricStorer

/-!
# Malformed messages in a batch

One message that cannot be decoded ends the handling of the whole batch. Only where there is none,
or where there are no samples at all, is each metric handed what its messages have for it.
-/
namespace NumentaApps.Runtime.MetricStorer
open GroupedByKey

variable {F T : Type} {float : String → Option F} {utcfromtimestamp : F → Option T}

/-! ## The samples of a batch -/

/-- The rows of a message of the plain protocol. -/
def plainRows : Option Value → Option (List Value)
  | some (.object message) =>
    match message.lookup "protocol", message.lookup "data" with
    | some (.string protocol), some rawData => if protocol = "plain" then iterate rawData else none
    | _, _ => none
  | _ => none

def IsText : Value → Prop
  | .string _ => True
  | _ => False

/-- The samples that a message has, whatever else is in it. -/
def samplesOf (float : String → Option F) (utcfromtimestamp : F → Option T)
    (message : Option Value) : List (Sample F T) :=
  ((plainRows message).getD []).filterMap (parsePlaintext float utcfromtimestamp)

/-- The message is not JSON, or not one of the plain protocol with rows, or a row is not a text. -/
def Malformed (message : Option Value) : Prop :=
  ∀ rows, plainRows message = some rows → ∃ row ∈ rows, ¬ IsText row

def batchSamples (float : String → Option F) (utcfromtimestamp : F → Option T)
    (messages : List (Option Value)) : List (Sample F T) :=
  messages.flatMap (samplesOf float utcfromtimestamp)

/-! ## Decoding -/

theorem parseRows_cons_text {row : Value} (h : IsText row) (rows : List Value) :
    parseRows float utcfromtimestamp (row :: rows) =
      (parseRows float utcfromtimestamp rows).map
        ((parsePlaintext float utcfromtimestamp row).toList ++ ·) := by
  cases row with
  | string text =>
    rw [parseRows]
    cases parsePlaintext float utcfromtimestamp (.string text) with
    | none =>
      cases parseRows float utcfromtimestamp rows with
      | error stop => rfl
      | ok data => rfl
    | some sample => rfl
  | _ => cases h

theorem parseRows_cons_other {row : Value} (h : ¬ IsText row) (rows : List Value) :
    parseRows float utcfromtimestamp (row :: rows) = .error .raises := by
  cases row with
  | string text => exact absurd trivial h
  | _ => rfl

theorem parseRows_text {rows : List Value} (h : ∀ row ∈ rows, IsText row) :
    parseRows float utcfromtimestamp rows =
      .ok (rows.filterMap (parsePlaintext float utcfromtimestamp)) := by
  induction rows with
  | nil => rfl
  | cons row rows ih =>
    obtain ⟨hrow, hrows⟩ := List.forall_mem_cons.mp h
    rw [parseRows_cons_text hrow, ih hrows]
    cases hparse : parsePlaintext float utcfromtimestamp row with
    | some sample =>
      rw [List.filterMap_cons_some hparse]
      rfl
    | none =>
      rw [List.filterMap_cons_none hparse]
      rfl

theorem parseRows_error {rows : List Value} (h : ∃ row ∈ rows, ¬ IsText row) :
    ∃ stop, parseRows float utcfromtimestamp rows = .error stop := by
  induction rows with
  | nil =>
    obtain ⟨row, hrow, -⟩ := h
    cases hrow
  | cons row rows ih =>
    by_cases hrow : IsText row
    · obtain ⟨other, hother, htext⟩ := h
      have hrest : other ∈ rows := (List.mem_cons.mp hother).resolve_left
        fun heq => htext (heq ▸ hrow)
      obtain ⟨stop, hstop⟩ := ih ⟨other, hrest, htext⟩
      rw [parseRows_cons_text hrow, hstop]
      exact ⟨stop, rfl⟩
    · exact ⟨.raises, parseRows_cons_other hrow rows⟩

theorem decode_plain {message : Option Value} {rows : List Value}
    (h : plainRows message = some rows) :
    decode float utcfromtimestamp message = parseRows float utcfromtimestamp rows := by
  match message, h with
  | some (.object message), h =>
    simp only [plainRows] at h
    simp only [decode]
    split at h
    · rename_i protocol rawData hprotocol hdata
      split at h
      · rename_i hplain
        simp only [hprotocol, hdata, if_pos hplain, h]
      · cases h
    · cases h

theorem decode_not_plain {message : Option Value} (h : plainRows message = none) :
    ∃ stop, decode float utcfromtimestamp message = .error stop := by
  unfold decode
  split
  · exact ⟨_, rfl⟩
  · rename_i message
    simp only [plainRows] at h
    split
    · rename_i protocol rawData hprotocol hdata
      rw [hprotocol, hdata] at h
      split
      · rename_i hplain
        simp only [if_pos hplain] at h
        rw [h]
        exact ⟨_, rfl⟩
      · exact ⟨_, rfl⟩
    · exact ⟨_, rfl⟩
    · exact ⟨_, rfl⟩
  · exact ⟨_, rfl⟩

/-- A message that is not malformed is decoded to its samples. -/
theorem decode_ok {message : Option Value} (h : ¬ Malformed message) :
    decode float utcfromtimestamp message = .ok (samplesOf float utcfromtimestamp message) := by
  simp only [Malformed, not_forall] at h
  obtain ⟨rows, hrows, htext⟩ := h
  have hall : ∀ row ∈ rows, IsText row := fun row hrow =>
    Classical.byContradiction fun hnot => htext ⟨row, hrow, hnot⟩
  rw [decode_plain hrows, parseRows_text hall, samplesOf, hrows, Option.getD_some]

theorem decode_error (float : String → Option F) (utcfromtimestamp : F → Option T)
    {message : Option Value} (h : Malformed message) :
    ∃ stop, decode float utcfromtimestamp message = .error stop := by
  cases hrows : plainRows message with
  | none => exact decode_not_plain hrows
  | some rows =>
    rw [decode_plain hrows]
    exact parseRows_error (h rows hrows)

theorem decodeAll_ok {messages : List (Option Value)} (h : ∀ m ∈ messages, ¬ Malformed m) :
    decodeAll float utcfromtimestamp messages =
      .ok (batchSamples float utcfromtimestamp messages) := by
  induction messages with
  | nil => rfl
  | cons message messages ih =>
    obtain ⟨hmessage, hmessages⟩ := List.forall_mem_cons.mp h
    rw [decodeAll, decode_ok hmessage, ih hmessages]
    rfl

/-- One malformed message is enough to stop, wherever it is. -/
theorem decodeAll_error (float : String → Option F) (utcfromtimestamp : F → Option T)
    {messages : List (Option Value)} (h : ∃ m ∈ messages, Malformed m) :
    ∃ stop, decodeAll float utcfromtimestamp messages = .error stop := by
  induction messages with
  | nil =>
    obtain ⟨m, hm, -⟩ := h
    cases hm
  | cons message messages ih =>
    rw [decodeAll]
    by_cases hmessage : Malformed message
    · obtain ⟨stop, hstop⟩ := decode_error float utcfromtimestamp hmessage
      rw [hstop]
      exact ⟨stop, rfl⟩
    · obtain ⟨m, hm, hmalformed⟩ := h
      have hrest : m ∈ messages := (List.mem_cons.mp hm).resolve_left
        fun heq => hmessage (heq ▸ hmalformed)
      obtain ⟨stop, hstop⟩ := ih ⟨m, hrest, hmalformed⟩
      rw [decode_ok hmessage, hstop]
      exact ⟨stop, rfl⟩

/-! ## Handing the samples over -/

/-- The samples of a metric are handed over once, and a second time only where the metric was not
found the first time; where there are none nothing is called. -/
def HandedOver (metricName : String) (metricData : List (T × F)) (calls : List (Call F T)) : Prop :=
  if metricData = [] then calls = []
  else ∃ outcome, calls = [⟨metricName, metricData, outcome⟩] ∨
    calls = [⟨metricName, metricData, .notFound⟩, ⟨metricName, metricData, outcome⟩]

/-- The metric is in the cache when its samples are handed over. -/
def MetricOutcome.Hands (outcome : MetricOutcome) : Prop :=
  outcome.isCached = true ∨ outcome.added = .cached

/-- A metric that has to be added again is, and its data are taken or refused as not found. -/
def MetricOutcome.GoesOn (outcome : MetricOutcome) : Prop :=
  outcome.streamed = .notFound → outcome.readded = .cached ∧ outcome.restreamed ≠ .raised

/-- Every metric is handed its samples, and no exception keeps the next from it. -/
def Delivers (outcomes : String → MetricOutcome) : List (String × List (Sample F T)) → Prop
  | [] => True
  | (metricName, _) :: dataDict =>
    (outcomes metricName).Hands ∧ (dataDict = [] ∨ (outcomes metricName).GoesOn) ∧
      Delivers outcomes dataDict

theorem streamMetric_hands {outcome : MetricOutcome} (h : outcome.Hands) (metricName : String)
    {metricData : List (T × F)} (hne : metricData ≠ []) :
    HandedOver metricName metricData (streamMetric outcome metricName metricData).1 ∧
      ((streamMetric outcome metricName metricData).2 = false ↔ outcome.GoesOn) := by
  have hcached : (if outcome.isCached then Added.cached else outcome.added) = .cached := by
    rcases h with h | h
    · rw [h]; rfl
    · rw [h, ite_self]
  rw [streamMetric, hcached, HandedOver, if_neg hne, MetricOutcome.GoesOn]
  cases outcome.streamed with
  | returned => exact ⟨⟨_, Or.inl rfl⟩, by simp⟩
  | raised => exact ⟨⟨_, Or.inl rfl⟩, by simp⟩
  | notFound =>
    cases outcome.readded with
    | cached => exact ⟨⟨_, Or.inr rfl⟩, by simp⟩
    | evicted => exact ⟨⟨_, Or.inl rfl⟩, by simp⟩
    | raised => exact ⟨⟨_, Or.inl rfl⟩, by simp⟩

theorem streamMetric_not_hands {outcome : MetricOutcome} (h : ¬ outcome.Hands)
    (metricName : String) (metricData : List (T × F)) :
    (streamMetric outcome metricName metricData).1 = [] := by
  obtain ⟨hcached, hadded⟩ := not_or.mp h
  rw [streamMetric, if_neg hcached]
  cases hcase : outcome.added with
  | cached => exact absurd hcase hadded
  | evicted => rfl
  | raised => rfl

theorem streamMetric_name (outcome : MetricOutcome) (metricName : String)
    (metricData : List (T × F)) :
    ∀ call ∈ (streamMetric outcome metricName metricData).1, call.metricName = metricName := by
  rw [streamMetric]
  split
  · simp
  · simp
  · split
    · simp
    · simp
    · split <;> simp

theorem addMetricData_name {outcomes : String → MetricOutcome}
    {dataDict : List (String × List (Sample F T))} :
    ∀ call ∈ addMetricData outcomes dataDict, call.metricName ∈ dataDict.map Prod.fst := by
  induction dataDict with
  | nil =>
    intro call hcall
    cases hcall
  | cons entry dataDict ih =>
    intro call hcall
    rw [addMetricData] at hcall
    have hcases : call ∈ (streamMetric (outcomes entry.1) entry.1 (metricDataOf entry.2)).1 ∨
        call ∈ addMetricData outcomes dataDict := by
      split at hcall
      · exact Or.inl hcall
      · exact List.mem_append.mp hcall
    rcases hcases with hcall | hcall
    · rw [streamMetric_name _ _ _ call hcall]
      exact List.mem_cons_self
    · exact List.mem_cons_of_mem _ (ih call hcall)

/-- The calls for a metric. -/
def callsFor (metricName : String) (calls : List (Call F T)) : List (Call F T) :=
  calls.filter fun call => call.metricName = metricName

theorem callsFor_eq_nil {metricName : String} {calls : List (Call F T)}
    (h : ∀ call ∈ calls, call.metricName ≠ metricName) : callsFor metricName calls = [] := by
  apply List.filter_eq_nil_iff.mpr
  intro call hcall
  simpa using h call hcall

theorem callsFor_eq_self {metricName : String} {calls : List (Call F T)}
    (h : ∀ call ∈ calls, call.metricName = metricName) : callsFor metricName calls = calls := by
  apply List.filter_eq_self.mpr
  intro call hcall
  simpa using h call hcall

theorem handedOver_nil {metricName : String} {metricData : List (T × F)} :
    HandedOver metricName metricData [] ↔ metricData = [] := by
  rw [HandedOver]
  split
  · simp [*]
  · simp [*]

theorem metricDataOf_eq_nil {samples : List (Sample F T)} :
    metricDataOf samples = [] ↔ samples = [] := List.map_eq_nil_iff

theorem callsFor_head {outcomes : String → MetricOutcome} {metricName : String}
    {samples : List (Sample F T)} {dataDict : List (String × List (Sample F T))}
    (hfresh : metricName ∉ dataDict.map Prod.fst) :
    callsFor metricName (addMetricData outcomes ((metricName, samples) :: dataDict)) =
      (streamMetric (outcomes metricName) metricName (metricDataOf samples)).1 := by
  have hself := callsFor_eq_self
    (streamMetric_name (outcomes metricName) metricName (metricDataOf samples))
  have hrest : callsFor metricName (addMetricData outcomes dataDict) = [] :=
    callsFor_eq_nil fun call hcall heq => hfresh (heq ▸ addMetricData_name call hcall)
  rw [addMetricData]
  split
  · exact hself
  · rw [callsFor, List.filter_append]
    exact (congrArg₂ (· ++ ·) hself hrest).trans (List.append_nil _)

theorem callsFor_tail {outcomes : String → MetricOutcome} {metricName other : String}
    {samples : List (Sample F T)} {dataDict : List (String × List (Sample F T))}
    (hne : metricName ≠ other) :
    callsFor other (addMetricData outcomes ((metricName, samples) :: dataDict)) =
      if (streamMetric (outcomes metricName) metricName (metricDataOf samples)).2 then []
      else callsFor other (addMetricData outcomes dataDict) := by
  have hnone : callsFor other
      (streamMetric (outcomes metricName) metricName (metricDataOf samples)).1 = [] :=
    callsFor_eq_nil fun call hcall heq => hne ((streamMetric_name _ _ _ call hcall).symm.trans heq)
  rw [addMetricData]
  split
  · exact hnone
  · rw [callsFor, List.filter_append]
    exact congrArg (· ++ _) hnone

/-- All metrics of a dictionary are handed their samples just where it delivers them. -/
theorem addMetricData_handedOver {outcomes : String → MetricOutcome}
    {dataDict : List (String × List (Sample F T))} (hnodup : (dataDict.map Prod.fst).Nodup)
    (hne : ∀ entry ∈ dataDict, entry.2 ≠ []) :
    (∀ entry ∈ dataDict, HandedOver entry.1 (metricDataOf entry.2)
      (callsFor entry.1 (addMetricData outcomes dataDict))) ↔ Delivers outcomes dataDict := by
  induction dataDict with
  | nil => exact ⟨fun _ => trivial, fun _ _ h => (by cases h)⟩
  | cons entry dataDict ih =>
    obtain ⟨metricName, samples⟩ := entry
    obtain ⟨hfresh, hnodup'⟩ := List.nodup_cons.mp hnodup
    obtain ⟨hsamples, hne'⟩ := List.forall_mem_cons.mp hne
    have hdata : metricDataOf samples ≠ [] := metricDataOf_eq_nil.not.mpr hsamples
    have hother : ∀ entry ∈ dataDict, metricName ≠ entry.1 := by
      rintro entry hentry rfl
      exact hfresh (List.mem_map.mpr ⟨entry, hentry, rfl⟩)
    rw [List.forall_mem_cons, callsFor_head hfresh, Delivers]
    by_cases hhands : (outcomes metricName).Hands
    · obtain ⟨hhanded, hgoes⟩ := streamMetric_hands hhands metricName hdata
      have htail : (∀ entry ∈ dataDict, HandedOver entry.1 (metricDataOf entry.2)
          (callsFor entry.1 (addMetricData outcomes ((metricName, samples) :: dataDict)))) ↔
          (dataDict = [] ∨ (outcomes metricName).GoesOn) ∧ Delivers outcomes dataDict := by
        cases hraised : (streamMetric (outcomes metricName) metricName (metricDataOf samples)).2 with
        | false =>
          have hsame : ∀ entry ∈ dataDict,
              callsFor entry.1 (addMetricData outcomes ((metricName, samples) :: dataDict)) =
                callsFor entry.1 (addMetricData outcomes dataDict) := by
            intro entry hentry
            rw [callsFor_tail (hother entry hentry), hraised]
            rfl
          rw [← ih hnodup' hne', and_iff_right (Or.inr (hgoes.mp hraised))]
          exact forall₂_congr fun entry hentry => by rw [hsame entry hentry]
        | true =>
          have hnot : ¬ (outcomes metricName).GoesOn := fun h => by
            rw [hgoes.mpr h] at hraised
            cases hraised
          constructor
          · intro h
            have hnil : dataDict = [] := by
              apply List.eq_nil_iff_forall_not_mem.mpr
              intro entry hentry
              have hentry' := h entry hentry
              rw [callsFor_tail (hother entry hentry), hraised, if_pos rfl, handedOver_nil,
                metricDataOf_eq_nil] at hentry'
              exact hne' entry hentry hentry'
            rw [hnil]
            exact ⟨Or.inl rfl, trivial⟩
          · rintro ⟨hnil, -⟩ entry hentry
            rw [hnil.resolve_right hnot] at hentry
            cases hentry
      rw [htail, and_iff_right hhanded, and_iff_right hhands]
    · rw [streamMetric_not_hands hhands, handedOver_nil]
      exact iff_of_false (fun h => hdata h.1) fun h => hhands h.1

/-! ## A batch -/

/-- Every metric is handed the samples that the messages have for it, in their order. -/
def HandsOver (float : String → Option F) (utcfromtimestamp : F → Option T)
    (messages : List (Option Value)) (calls : List (Call F T)) : Prop :=
  ∀ metricName, HandedOver metricName
    (metricDataOf ((batchSamples float utcfromtimestamp messages).filter
      fun sample => sample.metricName = metricName)) (callsFor metricName calls)

theorem handsOver_nil {messages : List (Option Value)} :
    HandsOver float utcfromtimestamp messages [] ↔
      batchSamples float utcfromtimestamp messages = [] := by
  constructor
  · intro h
    apply List.eq_nil_iff_forall_not_mem.mpr
    intro sample hsample
    have hnone := metricDataOf_eq_nil.mp (handedOver_nil.mp (h sample.metricName))
    exact List.filter_eq_nil_iff.mp hnone sample hsample (decide_eq_true rfl)
  · intro h metricName
    exact handedOver_nil.mpr (by rw [h]; rfl)

theorem handsOver_addMetricData {outcomes : String → MetricOutcome}
    {messages : List (Option Value)} {dataDict : List (String × List (Sample F T))}
    (h : IsGrouping Sample.metricName (batchSamples float utcfromtimestamp messages) dataDict) :
    HandsOver float utcfromtimestamp messages (addMetricData outcomes dataDict) ↔
      Delivers outcomes dataDict := by
  rw [← addMetricData_handedOver h.nodup h.nonempty]
  constructor
  · intro hall entry hentry
    rw [h.values entry hentry]
    exact hall entry.1
  · intro hall metricName
    by_cases hmem : ∃ entry ∈ dataDict, entry.1 = metricName
    · obtain ⟨entry, hentry, rfl⟩ := hmem
      rw [← h.values entry hentry]
      exact hall entry hentry
    · have hnone : (batchSamples float utcfromtimestamp messages).filter
          (fun sample => sample.metricName = metricName) = [] := by
        apply List.filter_eq_nil_iff.mpr
        intro sample hsample hname
        obtain ⟨entry, hentry, hkey⟩ := h.covers sample hsample
        exact hmem ⟨entry, hentry, hkey.trans (of_decide_eq_true hname)⟩
      have hcalls : callsFor metricName (addMetricData outcomes dataDict) = [] := by
        apply callsFor_eq_nil
        intro call hcall hname
        obtain ⟨entry, hentry, hkey⟩ := List.mem_map.mp (addMetricData_name call hcall)
        exact hmem ⟨entry, hentry, hkey.trans hname⟩
      rw [hnone, hcalls]
      exact handedOver_nil.mpr rfl

/-- A batch hands over what its messages have just where none of them is malformed and every metric
is delivered, or where they have nothing. -/
theorem handleBatch_handsOver_iff (outcomes : String → MetricOutcome)
    {iteritems : List (String × List (Sample F T)) → List (String × List (Sample F T))}
    (hitems : ∀ dataDict : List (String × List (Sample F T)), dataDict.Perm (iteritems dataDict))
    (messages : List (Option Value)) :
    HandsOver float utcfromtimestamp messages
        (handleBatch float utcfromtimestamp outcomes iteritems messages) ↔
      batchSamples float utcfromtimestamp messages = [] ∨
        ((∀ message ∈ messages, ¬ Malformed message) ∧
          Delivers outcomes (iteritems (group Sample.metricName
            (batchSamples float utcfromtimestamp messages)))) := by
  by_cases hmalformed : ∀ message ∈ messages, ¬ Malformed message
  · rw [handleBatch, decodeAll_ok hmalformed]
    by_cases hnil : batchSamples float utcfromtimestamp messages = []
    · simp only [if_pos hnil]
      rw [handsOver_nil]
      exact ⟨Or.inl, fun _ => hnil⟩
    · simp only [if_neg hnil]
      rw [handsOver_addMetricData ((group_isGrouping _ _).perm (hitems _))]
      exact ⟨fun h => Or.inr ⟨hmalformed, h⟩, fun h => (h.resolve_left hnil).2⟩
  · have hstops : ∃ message ∈ messages, Malformed message := by
      simpa only [not_forall, not_not, exists_prop] using hmalformed
    obtain ⟨stop, hstop⟩ := decodeAll_error float utcfromtimestamp hstops
    rw [handleBatch, hstop, handsOver_nil]
    exact ⟨Or.inl, fun h => h.resolve_right fun h => hmalformed h.1⟩

/-! ## A message that is not JSON after one that has a sample -/

def plainMessage (rows : List Value) : Option Value :=
  some (.object [("protocol", .string "plain"), ("data", .array rows)])

def sampleMessage : Option Value := plainMessage [.string "test.metric 4.0 1386792175"]

/-- Every metric is known and takes its data. -/
def takesAll : String → MetricOutcome := fun _ => ⟨true, .cached, .returned, .cached, .returned⟩

theorem sampleMessage_samples :
    samplesOf some some sampleMessage = [⟨"test.metric", "4.0", "1386792175"⟩] := by
  rfl

theorem malformed_message_drops_batch :
    ¬ HandsOver some some [sampleMessage, none]
      (handleBatch some some takesAll id [sampleMessage, none]) := by
  have hcalls : handleBatch (F := String) (T := String) some some takesAll id
      [sampleMessage, none] = [] := by rfl
  rw [hcalls, handsOver_nil, batchSamples, List.flatMap_cons, sampleMessage_samples]
  exact List.append_ne_nil_of_left_ne_nil (List.cons_ne_nil _ _) _

theorem handleBatch_handsOver_two :
    HandsOver some some [sampleMessage, sampleMessage]
      (handleBatch some some takesAll id [sampleMessage, sampleMessage]) := by
  apply (handleBatch_handsOver_iff takesAll (fun _ => List.Perm.refl _) _).mpr
  refine Or.inr ⟨?_, ?_⟩
  · intro message hmessage hmalformed
    have hsame : message = sampleMessage := by
      simpa using hmessage
    obtain ⟨row, hrow, htext⟩ := hmalformed [.string "test.metric 4.0 1386792175"] (by rw [hsame]; rfl)
    obtain rfl := List.mem_singleton.mp hrow
    exact htext trivial
  · rw [batchSamples, List.flatMap_cons, List.flatMap_singleton, sampleMessage_samples]
    exact ⟨Or.inl rfl, Or.inl rfl, trivial⟩

end NumentaApps.Runtime.MetricStorer
