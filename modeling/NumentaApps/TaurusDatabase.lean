import Mathlib.Data.List.Nodup
import Mathlib.Data.Int.Notation

/-!
# The instance data of the Taurus application

`TaurusDatabase`: the table of the instance data, the cache in memory and the first and the last
timestamp, which are read from the table when the application starts and follow the cache from then
on. Times are in milliseconds.
-/
namespace NumentaApps.Taurus

def millisPerMinute : ℤ := 60000

def millisPerHour : ℤ := 60 * millisPerMinute

def millisPerDay : ℤ := 24 * millisPerHour

/-- `number_of_days_to_sync`. -/
def numberOfDaysToSync : ℕ := 14

def floorTo60minutes (time : ℤ) : ℤ := time.tdiv millisPerHour * millisPerHour

/-- The anomaly score and the metric mask are one value. -/
structure InstanceData (V : Type) where
  instanceId : String
  timestamp : ℤ
  value : V
  deriving DecidableEq, Repr

variable {V : Type}

/-- Two rows of an instance at one time are the same row. -/
def InstanceData.key (data : InstanceData V) : String × ℤ := (data.instanceId, data.timestamp)

/-! ## Rows by their keys -/

def get (rows : List (InstanceData V)) (key : String × ℤ) : Option V :=
  (rows.find? fun row => row.key = key).map InstanceData.value

def put (rows : List (InstanceData V)) (data : InstanceData V) : List (InstanceData V) :=
  rows.filter (fun row => row.key ≠ data.key) ++ [data]

theorem get_put_self (rows : List (InstanceData V)) (data : InstanceData V) :
    get (put rows data) data.key = some data.value := by
  have hnone : (rows.filter fun row => row.key ≠ data.key).find? (fun row => row.key = data.key) =
      none := by
    rw [List.find?_eq_none]
    intro row hrow heq
    exact of_decide_eq_true (List.mem_filter.mp hrow).2 (of_decide_eq_true heq)
  rw [get, put, List.find?_append, hnone]
  simp

theorem get_put_of_ne (rows : List (InstanceData V)) {data : InstanceData V} {key : String × ℤ}
    (h : data.key ≠ key) : get (put rows data) key = get rows key := by
  have hfind : (rows.filter fun row => row.key ≠ data.key).find? (fun row => row.key = key) =
      rows.find? fun row => row.key = key := by
    rw [List.find?_filter]
    congr 1
    funext row
    by_cases hrow : row.key = key
    · simp [hrow, h.symm]
    · simp [hrow]
  rw [get, put, List.find?_append, hfind]
  simp [h, get]

theorem mem_put {rows : List (InstanceData V)} {data row : InstanceData V}
    (h : row ∈ put rows data) : row ∈ rows ∨ row = data := by
  rcases List.mem_append.mp h with h | h
  · exact .inl (List.mem_filter.mp h).1
  · exact .inr (List.mem_singleton.mp h)

theorem nodup_put {rows : List (InstanceData V)} (h : (rows.map InstanceData.key).Nodup)
    (data : InstanceData V) : ((put rows data).map InstanceData.key).Nodup := by
  rw [put, List.map_append, List.map_singleton, List.nodup_append]
  refine ⟨h.sublist (List.filter_sublist.map _), List.nodup_singleton _, ?_⟩
  intro key hkey key' hkey'
  obtain ⟨row, hrow, rfl⟩ := List.mem_map.mp hkey
  rw [List.mem_singleton.mp hkey']
  exact of_decide_eq_true (List.mem_filter.mp hrow).2

theorem get_of_mem {rows : List (InstanceData V)} (h : (rows.map InstanceData.key).Nodup)
    {row : InstanceData V} (hrow : row ∈ rows) : get rows row.key = some row.value := by
  induction rows with
  | nil => cases hrow
  | cons first rows ih =>
    obtain ⟨hfresh, hrest⟩ := List.nodup_cons.mp h
    rcases List.mem_cons.mp hrow with rfl | hrow
    · simp [get]
    · have hne : first.key ≠ row.key := by
        intro heq
        exact hfresh (heq ▸ List.mem_map.mpr ⟨row, hrow, rfl⟩)
      have hget := ih hrest hrow
      rw [get] at hget ⊢
      rw [List.find?_cons_of_neg (by simp [hne])]
      exact hget

/-! ## The database -/

structure Database (V : Type) where
  instanceData : List (InstanceData V)
  instanceDataCache : List (InstanceData V)
  lastTimestamp : ℤ
  firstTimestamp : ℤ
  deriving DecidableEq, Repr

def later (last timestamp : ℤ) : ℤ := if last < timestamp then timestamp else last

def earlier (first timestamp : ℤ) : ℤ := if timestamp < first then timestamp else first

namespace Database

/-- When the application starts, the rows of the last days are loaded, one day at the time. -/
def loadedRows (now : ℤ) (instanceData : List (InstanceData V)) : List (InstanceData V) :=
  let to_ := floorTo60minutes now
  (List.range numberOfDaysToSync).flatMap fun (day : ℕ) => instanceData.filter fun row =>
    to_ - (day + 1) * millisPerDay ≤ row.timestamp ∧ row.timestamp ≤ to_ - day * millisPerDay

def load (now : ℤ) (instanceData : List (InstanceData V)) : Database V :=
  let rows := loadedRows now instanceData
  { instanceData := instanceData
    instanceDataCache := rows.foldl put []
    lastTimestamp := rows.foldl (fun last row => later last row.timestamp) 0
    firstTimestamp := rows.foldl (fun first row => earlier first row.timestamp)
      (floorTo60minutes now) }

variable [DecidableEq V]

def updateInstanceDataCache (data : InstanceData V) (db : Database V) : Database V × Bool :=
  if get db.instanceDataCache data.key ≠ some data.value then
    ({ db with
        instanceDataCache := put db.instanceDataCache data
        lastTimestamp := later db.lastTimestamp data.timestamp
        firstTimestamp := earlier db.firstTimestamp data.timestamp }, true)
  else (db, false)

/-- The cache after a batch, and whether any of it was new. -/
def updateInstanceDataCaches : List (InstanceData V) → Database V → Database V × Bool
  | [], db => (db, false)
  | data :: batch, db =>
    let (db, modified) := db.updateInstanceDataCache data
    let (db, modified') := updateInstanceDataCaches batch db
    (db, modified || modified')

/-- The table is updated only if data was modified, and then with the whole batch. -/
def addInstanceDataBatch (batch : List (InstanceData V)) (db : Database V) : Database V :=
  let (cached, modified) := updateInstanceDataCaches batch db
  if modified then { cached with instanceData := batch.foldl put cached.instanceData }
  else cached

/-! ## What a batch does -/

/-- What is cached is in the table. -/
structure Coherent (db : Database V) : Prop where
  cached : ∀ key v, get db.instanceDataCache key = some v → get db.instanceData key = some v
  nodup : (db.instanceData.map InstanceData.key).Nodup

/-- The table has the records, and besides them what it had before. -/
structure Saves (records : List (InstanceData V)) (db db' : Database V) : Prop where
  coherent : db'.Coherent
  stored : ∀ key v, (∀ data ∈ records, data.key = key → data.value = v) →
    (∃ data ∈ records, data.key = key) ∨ get db.instanceData key = some v →
      get db'.instanceData key = some v
  mem : ∀ row ∈ db'.instanceData, row ∈ db.instanceData ∨ row ∈ records
  lastTimestamp : db'.lastTimestamp = db.lastTimestamp ∨
    ∃ data ∈ records, data.timestamp = db'.lastTimestamp

omit [DecidableEq V] in
theorem Saves.refl {db : Database V} (h : db.Coherent) : Saves [] db db where
  coherent := h
  stored := by
    intro key v _ hstored
    rcases hstored with ⟨data, hdata, -⟩ | hget
    · cases hdata
    · exact hget
  mem := fun row hrow => .inl hrow
  lastTimestamp := .inl rfl

omit [DecidableEq V] in
theorem Saves.trans {records records' : List (InstanceData V)} {db db' db'' : Database V}
    (h : Saves records db db') (h' : Saves records' db' db'') :
    Saves (records ++ records') db db'' where
  coherent := h'.coherent
  stored := by
    intro key v hvalue hstored
    apply h'.stored key v (fun data hdata => hvalue data (List.mem_append_right _ hdata))
    by_cases hlater : ∃ data ∈ records', data.key = key
    · exact .inl hlater
    · right
      apply h.stored key v (fun data hdata => hvalue data (List.mem_append_left _ hdata))
      rcases hstored with ⟨data, hdata, hkey⟩ | hget
      · rcases List.mem_append.mp hdata with hdata | hdata
        · exact .inl ⟨data, hdata, hkey⟩
        · exact absurd ⟨data, hdata, hkey⟩ hlater
      · exact .inr hget
  mem := by
    intro row hrow
    rcases h'.mem row hrow with hrow | hrow
    · exact (h.mem row hrow).imp id (List.mem_append_left _)
    · exact .inr (List.mem_append_right _ hrow)
  lastTimestamp := by
    rcases h'.lastTimestamp with heq | ⟨data, hdata, heq⟩
    · rw [heq]
      exact h.lastTimestamp.imp id fun ⟨data, hdata, heq⟩ =>
        ⟨data, List.mem_append_left _ hdata, heq⟩
    · exact .inr ⟨data, List.mem_append_right _ hdata, heq⟩

/-- A record, were it always written to the table. -/
def save (data : InstanceData V) (db : Database V) : Database V :=
  { (db.updateInstanceDataCache data).1 with instanceData := put db.instanceData data }

theorem saves_save {db : Database V} (h : db.Coherent) (data : InstanceData V) :
    Saves [data] db (db.save data) where
  coherent := by
    refine ⟨?_, nodup_put h.nodup data⟩
    intro key v hget
    by_cases hkey : data.key = key
    · subst hkey
      simp only [save]
      rw [get_put_self]
      simp only [save, updateInstanceDataCache] at hget
      split at hget
      · rwa [get_put_self] at hget
      · next hcached => rwa [not_not.mp hcached] at hget
    · simp only [save]
      rw [get_put_of_ne _ hkey]
      apply h.cached
      simp only [save, updateInstanceDataCache] at hget
      split at hget
      · rwa [get_put_of_ne _ hkey] at hget
      · exact hget
  stored := by
    intro key v hvalue hstored
    by_cases hkey : data.key = key
    · subst hkey
      simp only [save]
      rw [get_put_self, hvalue data List.mem_cons_self rfl]
    · simp only [save]
      rw [get_put_of_ne _ hkey]
      rcases hstored with ⟨data', hdata', hkey'⟩ | hget
      · exact absurd (List.mem_singleton.mp hdata' ▸ hkey') hkey
      · exact hget
  mem := fun row hrow => (mem_put hrow).imp id List.mem_singleton.mpr
  lastTimestamp := by
    simp only [save, updateInstanceDataCache]
    split
    · simp only [later]
      split
      · exact .inr ⟨data, List.mem_cons_self, rfl⟩
      · exact .inl rfl
    · exact .inl rfl

theorem saves_foldl {db : Database V} (h : db.Coherent) (batch : List (InstanceData V)) :
    Saves batch db (batch.foldl (fun db data => db.save data) db) := by
  induction batch generalizing db with
  | nil => exact .refl h
  | cons data batch ih =>
    have hfirst := saves_save h data
    exact hfirst.trans (ih hfirst.coherent)

/-- The cache does not look at the table. -/
theorem updateInstanceDataCaches_table (batch : List (InstanceData V)) (db : Database V)
    (rows : List (InstanceData V)) :
    updateInstanceDataCaches batch { db with instanceData := rows } =
      ({ (updateInstanceDataCaches batch db).1 with instanceData := rows },
        (updateInstanceDataCaches batch db).2) := by
  induction batch generalizing db with
  | nil => rfl
  | cons data batch ih =>
    have hfirst : updateInstanceDataCache data { db with instanceData := rows } =
        ({ (db.updateInstanceDataCache data).1 with instanceData := rows },
          (db.updateInstanceDataCache data).2) := by
      simp only [updateInstanceDataCache]
      split <;> rfl
    simp only [updateInstanceDataCaches, hfirst, ih]

theorem updateInstanceDataCaches_instanceData (batch : List (InstanceData V)) (db : Database V) :
    (updateInstanceDataCaches batch db).1.instanceData = db.instanceData :=
  congrArg (·.1.instanceData) (updateInstanceDataCaches_table batch db db.instanceData)

/-- With the batch in the table, the records are saved one by one. -/
theorem foldl_save (batch : List (InstanceData V)) (db : Database V) :
    batch.foldl (fun db data => db.save data) db =
      { (updateInstanceDataCaches batch db).1 with
        instanceData := batch.foldl put db.instanceData } := by
  induction batch generalizing db with
  | nil => rfl
  | cons data batch ih =>
    rw [List.foldl_cons, ih, save, updateInstanceDataCaches_table]
    rfl

theorem updateInstanceDataCaches_unmodified {batch : List (InstanceData V)} {db : Database V}
    (h : (updateInstanceDataCaches batch db).2 = false) :
    (updateInstanceDataCaches batch db).1 = db ∧
      ∀ data ∈ batch, get db.instanceDataCache data.key = some data.value := by
  induction batch generalizing db with
  | nil => exact ⟨rfl, fun data hdata => absurd hdata List.not_mem_nil⟩
  | cons data batch ih =>
    simp only [updateInstanceDataCaches, Bool.or_eq_false_iff] at h ⊢
    obtain ⟨hfirst, hrest⟩ := h
    have hcached : get db.instanceDataCache data.key = some data.value ∧
        (db.updateInstanceDataCache data).1 = db := by
      simp only [updateInstanceDataCache] at hfirst ⊢
      split at hfirst
      · cases hfirst
      · next hget =>
        rw [if_neg hget]
        exact ⟨not_not.mp hget, rfl⟩
    rw [hcached.2] at hrest ⊢
    obtain ⟨hsame, hall⟩ := ih hrest
    refine ⟨hsame, ?_⟩
    intro data' hdata'
    rcases List.mem_cons.mp hdata' with rfl | hdata'
    · exact hcached.1
    · exact hall data' hdata'

theorem addInstanceDataBatch_saves {db : Database V} (h : db.Coherent)
    (batch : List (InstanceData V)) : Saves batch db (db.addInstanceDataBatch batch) := by
  simp only [addInstanceDataBatch]
  split
  · have hsaves := saves_foldl h batch
    rw [foldl_save] at hsaves
    rw [updateInstanceDataCaches_instanceData]
    exact hsaves
  · next hmodified =>
    obtain ⟨hsame, hall⟩ := updateInstanceDataCaches_unmodified (Bool.not_eq_true _ ▸ hmodified)
    rw [hsame]
    refine ⟨h, ?_, fun row hrow => .inl hrow, .inl rfl⟩
    intro key v hvalue hstored
    rcases hstored with ⟨data, hdata, rfl⟩ | hget
    · apply h.cached
      rw [hall data hdata, hvalue data hdata rfl]
    · exact hget

/-! ## What is loaded -/

omit [DecidableEq V]

theorem mem_loadedRows {now : ℤ} {rows : List (InstanceData V)} {row : InstanceData V}
    (h : row ∈ loadedRows now rows) : row ∈ rows := by
  obtain ⟨day, -, hrow⟩ := List.mem_flatMap.mp h
  exact (List.mem_filter.mp hrow).1

theorem get_foldl_put {rows : List (InstanceData V)} (hnodup : (rows.map InstanceData.key).Nodup)
    {loaded cache : List (InstanceData V)} (hloaded : ∀ row ∈ loaded, row ∈ rows)
    (hcache : ∀ key v, get cache key = some v → get rows key = some v) :
    ∀ key v, get (loaded.foldl put cache) key = some v → get rows key = some v := by
  induction loaded generalizing cache with
  | nil => exact hcache
  | cons row loaded ih =>
    apply ih fun row' hrow' => hloaded row' (List.mem_cons_of_mem _ hrow')
    intro key v hget
    by_cases hkey : row.key = key
    · subst hkey
      rw [get_put_self] at hget
      rw [← hget]
      exact get_of_mem hnodup (hloaded row List.mem_cons_self)
    · rw [get_put_of_ne _ hkey] at hget
      exact hcache key v hget

theorem load_coherent (now : ℤ) {rows : List (InstanceData V)}
    (h : (rows.map InstanceData.key).Nodup) : (load now rows).Coherent := by
  refine ⟨?_, h⟩
  apply get_foldl_put h (fun row => mem_loadedRows)
  intro key v hget
  cases hget

theorem foldl_later (rows : List (InstanceData V)) (last : ℤ) :
    rows.foldl (fun last row => later last row.timestamp) last = last ∨
      ∃ row ∈ rows, row.timestamp = rows.foldl (fun last row => later last row.timestamp) last := by
  induction rows generalizing last with
  | nil => exact .inl rfl
  | cons row rows ih =>
    rw [List.foldl_cons]
    rcases ih (later last row.timestamp) with heq | ⟨row', hrow', heq⟩
    · rw [heq, later]
      split
      · exact .inr ⟨row, List.mem_cons_self, rfl⟩
      · exact .inl rfl
    · exact .inr ⟨row', List.mem_cons_of_mem _ hrow', heq⟩

theorem load_lastTimestamp (now : ℤ) (rows : List (InstanceData V)) :
    (load now rows).lastTimestamp = 0 ∨
      ∃ row ∈ rows, row.timestamp = (load now rows).lastTimestamp := by
  rcases foldl_later (loadedRows now rows) 0 with heq | ⟨row, hrow, heq⟩
  · exact .inl heq
  · exact .inr ⟨row, mem_loadedRows hrow, heq⟩

end Database

end NumentaApps.Taurus
