import NumentaApps.ModelSwapperInterface
import Mathlib.Data.List.Forall2

/-!
# What comes back from the wire of the model swapper

Identifiers, classes and attributes come back as they were sent. The two halves of a datetime
recombine unless its seconds were truncated upwards: a datetime before 1970 with a microsecond comes
back one second late.
-/
namespace NumentaApps.ModelSwapper
open JsonText

/-! ## Datetimes -/

/-- The seconds are not truncated upwards. -/
def SecondsTruncatedDown (dateTime : NaiveDatetime) : Prop :=
  0 ≤ dateTime.microseconds ∨ dateTime.microsecond = 0

instance (dateTime : NaiveDatetime) : Decidable (SecondsTruncatedDown dateTime) :=
  inferInstanceAs (Decidable (_ ∨ _))

theorem datetimeMin_eq : datetimeMin = -62135596800000000 := by decide

theorem datetimeMax_eq : datetimeMax = 253402300799999999 := by decide

/-- The datetime that is decoded. -/
def recombined (dateTime : NaiveDatetime) : NaiveDatetime :=
  if h : SecondsTruncatedDown dateTime then dateTime
  else ⟨dateTime.microseconds + 1000000, by
    have hrange := dateTime.inRange
    have hneg : dateTime.microseconds < 0 := by
      have := (not_or.mp h).1
      omega
    rw [datetimeMin_eq, datetimeMax_eq] at *
    omega⟩

theorem recombined_eq_iff (dateTime : NaiveDatetime) :
    recombined dateTime = dateTime ↔ SecondsTruncatedDown dateTime := by
  by_cases h : SecondsTruncatedDown dateTime
  · rw [recombined, dif_pos h]
    exact ⟨fun _ => h, fun _ => rfl⟩
  · have hne : recombined dateTime ≠ dateTime := by
      intro heq
      have hmicro := congrArg NaiveDatetime.microseconds heq
      rw [recombined, dif_neg h] at hmicro
      simp only at hmicro
      omega
    exact ⟨fun heq => absurd heq hne, fun h' => absurd h' h⟩

theorem ofMicroseconds_eq (dateTime : NaiveDatetime) {microseconds : ℤ}
    (h : microseconds = dateTime.microseconds) :
    NaiveDatetime.ofMicroseconds microseconds = some dateTime := by
  subst h
  exact dif_pos dateTime.inRange

theorem decodeDateTime_encodeDateTime (dateTime : NaiveDatetime) :
    decodeDateTime (encodeDateTime dateTime) = some (recombined dateTime) := by
  have hrange := dateTime.inRange
  have hrecombined := (recombined dateTime).inRange
  rw [datetimeMin_eq, datetimeMax_eq] at hrange hrecombined
  have htdiv : dateTime.microseconds.tdiv 1000000 * 1000000 + dateTime.microsecond =
      (recombined dateTime).microseconds := by
    rw [Int.tdiv_eq_ediv, NaiveDatetime.microsecond]
    by_cases h : SecondsTruncatedDown dateTime
    · have hdown : 0 ≤ dateTime.microseconds ∨ (1000000 : ℤ) ∣ dateTime.microseconds :=
        h.imp_right Int.dvd_of_emod_eq_zero
      rw [if_pos hdown, recombined, dif_pos h]
      omega
    · have hup : ¬(0 ≤ dateTime.microseconds ∨ (1000000 : ℤ) ∣ dateTime.microseconds) :=
        fun h' => h (h'.imp_right Int.emod_eq_zero_of_dvd)
      rw [if_neg hup, recombined, dif_neg h]
      have hsign : Int.sign 1000000 = 1 := rfl
      simp only [hsign]
      omega
  have hmicro : 0 ≤ dateTime.microsecond ∧ dateTime.microsecond < 1000000 := by
    simp only [NaiveDatetime.microsecond]
    omega
  have hseconds : datetimeMin ≤ dateTime.microseconds.tdiv 1000000 * 1000000 ∧
      dateTime.microseconds.tdiv 1000000 * 1000000 ≤ datetimeMax := by
    rw [datetimeMin_eq, datetimeMax_eq]
    omega
  simp only [encodeDateTime, decodeDateTime, epochFromNaiveUTCDatetime,
    NaiveDatetime.utcfromtimestamp]
  rw [NaiveDatetime.ofMicroseconds, dif_pos hseconds]
  exact ofMicroseconds_eq (recombined dateTime) htdiv

/-! ## Rows -/

/-- The field that is decoded. -/
def Field.recombined : Field → Field
  | leaf value => leaf value
  | datetime dateTime => datetime (ModelSwapper.recombined dateTime)

theorem listIndex_natCast (data : List Field) (i : ℕ) : listIndex data i = i := by
  rw [listIndex, if_neg (by omega), Int.toNat_natCast]

/-- The positions line up with the data behind what was decoded already. -/
theorem decodeData_encodeData (before items : List Field) :
    decodeData (before ++ (encodeData before.length items).1.map .leaf)
      (encodeData before.length items).2 = some (before ++ items.map Field.recombined) := by
  induction items generalizing before with
  | nil => rfl
  | cons item items ih =>
    cases item with
    | leaf value =>
      have h := ih (before ++ [.leaf value])
      simpa [encodeData, Field.recombined] using h
    | datetime dateTime =>
      have h := ih (before ++ [.datetime (recombined dateTime)])
      rw [List.length_append, List.length_singleton] at h
      simp only [encodeData, List.map_cons, decodeData, listIndex_natCast]
      rw [if_neg (by omega), List.getElem?_append_right (Nat.le_refl _), Nat.sub_self]
      simp only [List.getElem?_cons_zero, decodeDateTime_encodeDateTime, Option.bind_eq_bind,
        Option.bind_some]
      rw [List.set_append_right _ _ (Nat.le_refl _), Nat.sub_self, List.set_cons_zero]
      simpa [Field.recombined] using h

/-- The datetimes of a batch. -/
def Field.datetimes : Field → List NaiveDatetime
  | leaf _ => []
  | datetime dateTime => [dateTime]

theorem map_recombined_eq_iff (fields : List Field) :
    fields.map Field.recombined = fields ↔
      ∀ dateTime ∈ fields.flatMap Field.datetimes, SecondsTruncatedDown dateTime := by
  induction fields with
  | nil => simp
  | cons field fields ih =>
    cases field with
    | leaf value => simpa [Field.recombined, Field.datetimes] using ih
    | datetime dateTime =>
      have h := recombined_eq_iff dateTime
      simp [Field.recombined, Field.datetimes, h, ih]

/-! ## Instances -/

/-- What the constructors accept. -/
inductive Accepted : ModelRequestResult → Prop
  | modelCommand {commandID method args : Value} {o : ModelRequestResult}
      (h : modelCommand commandID method args = .ok o) : Accepted o
  | modelCommandResult {commandID method status args errorMessage : Value}
      {o : ModelRequestResult}
      (h : modelCommandResult commandID method status args errorMessage = .ok o) : Accepted o
  | modelInputRow {rowID : Value} {data : Sequence} {o : ModelRequestResult}
      (h : modelInputRow rowID data = .ok o) : Accepted o
  | modelInferenceResult {rowID status anomalyScore errorMessage : Value}
      {o : ModelRequestResult}
      (h : modelInferenceResult rowID status anomalyScore errorMessage = .ok o) : Accepted o

namespace ModelRequestResult

def datetimes : ModelRequestResult → List NaiveDatetime
  | .modelInputRow _ data => data.fields.flatMap Field.datetimes
  | .slotted _ _ => []

/-- The same class and the same attributes, the data of a row as a sequence. -/
def SameState : ModelRequestResult → ModelRequestResult → Prop
  | .modelInputRow rowID data, .modelInputRow rowID' data' =>
      rowID = rowID' ∧ data.fields = data'.fields
  | .slotted cls attributes, .slotted cls' attributes' => cls = cls' ∧ attributes = attributes'
  | _, _ => False

/-- The instance that is unmarshalled. -/
def received : ModelRequestResult → ModelRequestResult
  | .modelInputRow rowID data => .modelInputRow rowID (.list (data.fields.map Field.recombined))
  | .slotted cls attributes => .slotted cls attributes

theorem sameState_received_iff (o : ModelRequestResult) :
    SameState o o.received ↔ ∀ dateTime ∈ o.datetimes, SecondsTruncatedDown dateTime := by
  cases o with
  | modelInputRow rowID data =>
    have h := map_recombined_eq_iff data.fields
    simp only [SameState, received, Sequence.fields, datetimes, true_and]
    exact ⟨fun heq => h.mp heq.symm, fun hdown => (h.mpr hdown).symm⟩
  | slotted cls attributes => simp [SameState, received, datetimes]

theorem createFromState_modelInputRow (rowID : Value) (data : Sequence) :
    ∃ state, getstate (.modelInputRow rowID data) = some state ∧
      createFromState state = some (received (.modelInputRow rowID data)) := by
  have hdata := decodeData_encodeData [] data.fields
  simp only [List.nil_append, List.length_nil] at hdata
  refine ⟨_, rfl, ?_⟩
  refine (?_ : (decodeData ((encodeData 0 data.fields).1.map .leaf) (encodeData 0 data.fields).2 >>=
    fun data => some (ModelRequestResult.modelInputRow rowID (.list data))) = _)
  rw [hdata]
  rfl

theorem assert_bind {α : Type} {condition : Bool} {error : AssertionError}
    {next : Unit → Except AssertionError α} {a : α}
    (h : (assert condition error >>= next) = .ok a) : next () = .ok a := by
  cases condition with
  | false => cases h
  | true => exact h

theorem eq_of_modelCommand {commandID method args : Value} {o : ModelRequestResult}
    (h : modelCommand commandID method args = .ok o) :
    o = .slotted .modelCommand [("commandID", commandID), ("method", method), ("args", args)] := by
  rw [modelCommand] at h
  have hslots := assert_bind (assert_bind h)
  exact (Except.ok.inj hslots).symm

theorem eq_of_modelCommandResult {commandID method status args errorMessage : Value}
    {o : ModelRequestResult}
    (h : modelCommandResult commandID method status args errorMessage = .ok o) :
    o = .slotted .modelCommandResult [("commandID", commandID), ("method", method),
      ("status", status), ("args", args), ("errorMessage", errorMessage)] := by
  rw [modelCommandResult] at h
  have hstatus := assert_bind (assert_bind h)
  cases hzero : isZero status with
  | true =>
    rw [if_pos hzero] at hstatus
    have hslots := assert_bind (assert_bind hstatus)
    exact (Except.ok.inj hslots).symm
  | false =>
    rw [if_neg (by simp [hzero])] at hstatus
    have hslots := assert_bind (assert_bind hstatus)
    exact (Except.ok.inj hslots).symm

theorem eq_of_modelInputRow {rowID : Value} {data : Sequence} {o : ModelRequestResult}
    (h : ModelSwapper.modelInputRow rowID data = .ok o) : o = .modelInputRow rowID data := by
  rw [ModelSwapper.modelInputRow] at h
  have hslots := assert_bind h
  exact (Except.ok.inj hslots).symm

theorem eq_of_modelInferenceResult {rowID status anomalyScore errorMessage : Value}
    {o : ModelRequestResult}
    (h : modelInferenceResult rowID status anomalyScore errorMessage = .ok o) :
    o = .slotted .modelInferenceResult [("rowID", rowID), ("status", status),
      ("anomalyScore", anomalyScore), ("errorMessage", errorMessage)] := by
  rw [modelInferenceResult] at h
  have hstatus := assert_bind h
  cases hzero : isZero status with
  | true =>
    rw [if_pos hzero] at hstatus
    have hslots := assert_bind (assert_bind hstatus)
    exact (Except.ok.inj hslots).symm
  | false =>
    rw [if_neg (by simp [hzero])] at hstatus
    have hslots := assert_bind (assert_bind hstatus)
    exact (Except.ok.inj hslots).symm

theorem createFromState_getstate {o : ModelRequestResult} (h : Accepted o) :
    ∃ state, getstate o = some state ∧ createFromState state = some o.received := by
  cases h with
  | modelCommand h =>
    rw [eq_of_modelCommand h]
    exact ⟨_, rfl, rfl⟩
  | modelCommandResult h =>
    rw [eq_of_modelCommandResult h]
    exact ⟨_, rfl, rfl⟩
  | modelInputRow h =>
    rw [eq_of_modelInputRow h]
    exact createFromState_modelInputRow _ _
  | modelInferenceResult h =>
    rw [eq_of_modelInferenceResult h]
    exact ⟨_, rfl, rfl⟩

end ModelRequestResult

/-! ## Batches and messages -/

section Batches

open ModelRequestResult

variable {batch : List ModelRequestResult}

theorem mapM_createFromState_getstate (haccepted : ∀ o ∈ batch, Accepted o) :
    ∃ states, batch.mapM getstate = some states ∧
      states.mapM createFromState = some (batch.map received) := by
  induction batch with
  | nil => exact ⟨[], rfl, rfl⟩
  | cons o batch ih =>
    obtain ⟨ho, hbatch⟩ := List.forall_mem_cons.mp haccepted
    obtain ⟨state, hstate, hcreate⟩ := createFromState_getstate ho
    obtain ⟨states, hstates, hcreates⟩ := ih hbatch
    refine ⟨state :: states, ?_, ?_⟩
    · simp [List.mapM_cons, hstate, hstates]
    · simp [List.mapM_cons, hcreate, hcreates]

theorem forall₂_received_iff :
    List.Forall₂ SameState batch (batch.map received) ↔
      ∀ dateTime ∈ batch.flatMap datetimes, SecondsTruncatedDown dateTime := by
  induction batch with
  | nil => simp
  | cons o batch ih =>
    rw [List.map_cons, List.forall₂_cons, sameState_received_iff, ih, List.flatMap_cons]
    exact List.forall_mem_append.symm

theorem splitLine_append {identifier : String} (batchState : String)
    (h : '\n' ∉ identifier.toList) :
    splitLine (identifier ++ "\n" ++ batchState) = some (identifier, batchState) := by
  have htext : (identifier ++ "\n" ++ batchState).toList =
      identifier.toList ++ '\n' :: batchState.toList := by
    simp
  have hchars : ∀ c ∈ identifier.toList, decide (c ≠ '\n') = true := by
    intro c hc
    exact decide_eq_true fun heq => h (heq ▸ hc)
  have hdrop : (identifier ++ "\n" ++ batchState).toList.dropWhile (· ≠ '\n') =
      '\n' :: batchState.toList := by
    rw [htext, List.dropWhile_append_of_pos hchars]
    rfl
  have htake : (identifier ++ "\n" ++ batchState).toList.takeWhile (· ≠ '\n') =
      identifier.toList := by
    rw [htext, List.takeWhile_append_of_pos hchars]
    simp
  rw [splitLine, hdrop]
  simp only [htake, String.ofList_toList]

/-- What the packagers give back of a request message. -/
def unmarshalRequest (loads : String → Option Value) (msg : String) :
    Option (String × List ModelRequestResult) := do
  let r ← RequestMessagePackager.unmarshal msg
  let objects ← BatchPackager.unmarshal loads r.batchState
  return (r.batchID, objects)

/-- What the packagers give back of a result message. -/
def unmarshalResult (loads : String → Option Value) (msg : String) :
    Option (String × List ModelRequestResult) := do
  let r ← ResultMessagePackager.unmarshal msg
  let objects ← BatchPackager.unmarshal loads r.batchState
  return (r.modelID, objects)

/-- `unmarshal` gives the identifier back and a batch in the same state. -/
def Returns (unmarshal : String → Option (String × List ModelRequestResult))
    (msg identifier : String) (batch : List ModelRequestResult) : Prop :=
  ∃ objects, unmarshal msg = some (identifier, objects) ∧ List.Forall₂ SameState batch objects

/-- The encoded batch has no newline, and both kinds of message give it back. -/
def RoundTrips (loads : String → Option Value) (identifier : String)
    (batch : List ModelRequestResult) : Prop :=
  ∃ batchState, BatchPackager.marshal batch = some batchState ∧ '\n' ∉ batchState.toList ∧
    Returns (unmarshalRequest loads) (RequestMessagePackager.marshal identifier batchState)
      identifier batch ∧
    Returns (unmarshalResult loads) (ResultMessagePackager.marshal identifier batchState)
      identifier batch

/-- `json.loads` gives back what `json.dumps` encodes of the batch. -/
def LoadsStates (loads : String → Option Value) (batch : List ModelRequestResult) : Prop :=
  ∀ states, batch.mapM getstate = some states → loads (dumps (.list states)) = some (.list states)

variable {loads : String → Option Value} {identifier : String}

theorem unmarshalRequest_marshal {batchState : String} {objects : List ModelRequestResult}
    (hidentifier : '\n' ∉ identifier.toList)
    (hobjects : BatchPackager.unmarshal loads batchState = some objects) :
    unmarshalRequest loads (RequestMessagePackager.marshal identifier batchState) =
      some (identifier, objects) := by
  simp [unmarshalRequest, RequestMessagePackager.unmarshal, RequestMessagePackager.marshal,
    splitLine_append batchState hidentifier, hobjects]

theorem unmarshalResult_marshal {batchState : String} {objects : List ModelRequestResult}
    (hidentifier : '\n' ∉ identifier.toList)
    (hobjects : BatchPackager.unmarshal loads batchState = some objects) :
    unmarshalResult loads (ResultMessagePackager.marshal identifier batchState) =
      some (identifier, objects) := by
  simp [unmarshalResult, ResultMessagePackager.unmarshal, ResultMessagePackager.marshal,
    splitLine_append batchState hidentifier, hobjects]

/-- What comes back is the batch with its datetimes recombined. -/
theorem marshal_received (haccepted : ∀ o ∈ batch, Accepted o) (hloads : LoadsStates loads batch) :
    ∃ batchState, BatchPackager.marshal batch = some batchState ∧ '\n' ∉ batchState.toList ∧
      BatchPackager.unmarshal loads batchState = some (batch.map received) := by
  obtain ⟨states, hstates, hobjects⟩ := mapM_createFromState_getstate haccepted
  refine ⟨dumps (.list states), ?_, newline_notMem_dumps _, ?_⟩
  · simp [BatchPackager.marshal, hstates]
  · rw [BatchPackager.unmarshal, hloads states hstates]
    exact hobjects

theorem roundTrips_iff (haccepted : ∀ o ∈ batch, Accepted o) (hloads : LoadsStates loads batch)
    (hidentifier : '\n' ∉ identifier.toList) :
    RoundTrips loads identifier batch ↔ List.Forall₂ SameState batch (batch.map received) := by
  obtain ⟨batchState, hmarshal, hnewline, hunmarshal⟩ := marshal_received haccepted hloads
  have hrequest := unmarshalRequest_marshal hidentifier hunmarshal
  have hresult := unmarshalResult_marshal hidentifier hunmarshal
  constructor
  · rintro ⟨batchState', hmarshal', _, ⟨objects, hobjects, hsame⟩, _⟩
    cases hmarshal.symm.trans hmarshal'
    cases hrequest.symm.trans hobjects
    exact hsame
  · intro hsame
    exact ⟨batchState, hmarshal, hnewline, ⟨_, hrequest, hsame⟩, ⟨_, hresult, hsame⟩⟩

/-- A batch comes back as it was, and a datetime is decoded to what was encoded, if and only if no
seconds were truncated upwards. -/
theorem wire_roundTrips_iff (haccepted : ∀ o ∈ batch, Accepted o)
    (hloads : LoadsStates loads batch) (hidentifier : '\n' ∉ identifier.toList) :
    (RoundTrips loads identifier batch ↔
      ∀ dateTime ∈ batch.flatMap datetimes, SecondsTruncatedDown dateTime) ∧
    ∀ dateTime : NaiveDatetime, decodeDateTime (encodeDateTime dateTime) = some dateTime ↔
      SecondsTruncatedDown dateTime := by
  constructor
  · exact (roundTrips_iff haccepted hloads hidentifier).trans forall₂_received_iff
  · intro dateTime
    rw [decodeDateTime_encodeDateTime, Option.some_inj]
    exact recombined_eq_iff dateTime

end Batches

/-! ### Half a second before 1970 -/

/-- The 31st of December 1969, 23:59:59.5. -/
def halfSecondBeforeEpoch : NaiveDatetime := ⟨-500000, by decide⟩

/-- A command, and a row of a number and of the datetime. -/
def sampleBatch (dateTime : NaiveDatetime) : List ModelRequestResult :=
  [.slotted .modelCommand [("commandID", .string "c1"), ("method", .string "defineModel"),
      ("args", .dict [("modelParams", .none)])],
    .modelInputRow (.string "r1") (.tuple [.leaf (.int 7), .datetime dateTime])]

theorem sampleBatch_accepted (dateTime : NaiveDatetime) : ∀ o ∈ sampleBatch dateTime, Accepted o :=
  List.forall_mem_cons.mpr
    ⟨.modelCommand (rfl : modelCommand (.string "c1") (.string "defineModel")
      (.dict [("modelParams", .none)]) = .ok _),
    List.forall_mem_singleton.mpr (.modelInputRow (rfl : modelInputRow (.string "r1")
      (.tuple [.leaf (.int 7), .datetime dateTime]) = .ok _))⟩

/-- A reader that knows the text of one batch. -/
def loadsOf (batch : List ModelRequestResult) (text : String) : Option Value := do
  let states ← batch.mapM ModelRequestResult.getstate
  if text = dumps (.list states) then some (.list states) else none

theorem loadsOf_loadsStates (batch : List ModelRequestResult) :
    LoadsStates (loadsOf batch) batch := by
  intro states hstates
  simp [loadsOf, hstates]

theorem wire_roundTrips_sample :
    (RoundTrips (loadsOf (sampleBatch ⟨1500000, by decide⟩)) "b1"
        (sampleBatch ⟨1500000, by decide⟩) ↔
      ∀ dateTime ∈ (sampleBatch ⟨1500000, by decide⟩).flatMap ModelRequestResult.datetimes,
        SecondsTruncatedDown dateTime) ∧
    ∀ dateTime : NaiveDatetime, decodeDateTime (encodeDateTime dateTime) = some dateTime ↔
      SecondsTruncatedDown dateTime :=
  wire_roundTrips_iff (sampleBatch_accepted _) (loadsOf_loadsStates _) (by decide)

theorem before_epoch_one_second_late :
    ¬RoundTrips (loadsOf (sampleBatch halfSecondBeforeEpoch)) "b1"
        (sampleBatch halfSecondBeforeEpoch) ∧
      decodeDateTime (encodeDateTime halfSecondBeforeEpoch) = some ⟨500000, by decide⟩ := by
  constructor
  · rw [roundTrips_iff (sampleBatch_accepted _) (loadsOf_loadsStates _) (by decide)]
    intro hsame
    have h := forall₂_received_iff.mp hsame halfSecondBeforeEpoch (List.mem_singleton.mpr rfl)
    exact absurd h (by decide)
  · rfl

end NumentaApps.ModelSwapper
