import Mathlib.Data.List.Forall2
import NumentaApps.RecordStore

/-!
# Lost updates in the record store

The value of a property is current if it was given by an update of the property such that no
other was started after that one had completed. A put keeps the values current unless it writes
back a superseded value of a property that its call does not name.
-/
namespace NumentaApps.Unicorn
open TransitionSystem

variable {V : Type}

/-! ## Updates of one property -/

/-- An update that has been put, with the time at which its call completed. -/
structure Update (V : Type) where
  value : V
  startedAt : ℕ
  completedAt : Option ℕ

namespace Update

def StartedAfter (u v : Update V) : Prop := ∃ time, v.completedAt = some time ∧ time < u.startedAt

/-- The same update one step later. -/
def Continues (now : ℕ) (u v : Update V) : Prop :=
  v.value = u.value ∧ v.startedAt = u.startedAt ∧
    (v.completedAt = u.completedAt ∨ u.completedAt = none ∧ v.completedAt = some now)

theorem Continues.refl (now : ℕ) (u : Update V) : u.Continues now u := ⟨rfl, rfl, .inl rfl⟩

variable {now : ℕ} {u u' v v' : Update V}

theorem StartedAfter.continues (h : u.StartedAfter v) (hu : u.Continues now u')
    (hv : v.Continues now v') : u'.StartedAfter v' := by
  obtain ⟨time, hcompleted, hlt⟩ := h
  obtain ⟨-, hstarted, -⟩ := hu
  obtain ⟨-, -, hsame | ⟨hnone, -⟩⟩ := hv
  · exact ⟨time, hsame.trans hcompleted, hstarted ▸ hlt⟩
  · exact absurd (hnone.symm.trans hcompleted) (by simp)

theorem StartedAfter.of_continues (h : u'.StartedAfter v') (hu : u.Continues now u')
    (hv : v.Continues now v') (hnow : u.startedAt < now) : u.StartedAfter v := by
  obtain ⟨time, hcompleted, hlt⟩ := h
  obtain ⟨-, hstarted, -⟩ := hu
  obtain ⟨-, -, hsame | ⟨-, hsome⟩⟩ := hv
  · exact ⟨time, hsame.symm.trans hcompleted, hstarted ▸ hlt⟩
  · obtain rfl : now = time := Option.some.inj (hsome.symm.trans hcompleted)
    omega

end Update

/-- The value is the initial one if there was no update, and else that of an update such that
no other was started after it had completed. -/
def Current (initial value : Option V) (updates : List (Update V)) : Prop :=
  (updates = [] ∧ value = initial) ∨
    ∃ u ∈ updates, value = some u.value ∧ ∀ v ∈ updates, ¬ v.StartedAfter u

/-- After every update that gave the value another one was started. -/
def Superseded (value : Option V) (updates : List (Update V)) : Prop :=
  updates ≠ [] ∧ ∀ u ∈ updates, value = some u.value → ∃ v ∈ updates, v.StartedAfter u

section Updates

variable {initial value : Option V} {updates updates' : List (Update V)} {now : ℕ}

theorem Current.not_superseded (h : Current initial value updates) :
    ¬ Superseded value updates := by
  rintro ⟨hne, hsuperseded⟩
  rcases h with ⟨hnil, -⟩ | ⟨u, hu, hvalue, hlast⟩
  · exact hne hnil
  · obtain ⟨v, hv, hafter⟩ := hsuperseded u hu hvalue
    exact hlast v hv hafter

theorem current_of_not_superseded (hnil : updates = [] → value = initial)
    (h : ¬ Superseded value updates) : Current initial value updates := by
  by_cases hupdates : updates = []
  · exact .inl ⟨hupdates, hnil hupdates⟩
  · have hlast : ∃ u ∈ updates, value = some u.value ∧ ∀ v ∈ updates, ¬ v.StartedAfter u := by
      by_contra hnone
      push Not at hnone
      exact h ⟨hupdates, hnone⟩
    exact .inr hlast

theorem exists_continued (h : List.Forall₂ (Update.Continues now) updates updates') :
    (∀ u ∈ updates, ∃ v ∈ updates', u.Continues now v) ∧
      ∀ v ∈ updates', ∃ u ∈ updates, u.Continues now v := by
  induction h with
  | nil => simp
  | @cons u v us vs huv _ ih =>
    obtain ⟨hforth, hback⟩ := ih
    constructor
    · intro w hw
      rcases List.mem_cons.mp hw with rfl | hw
      · exact ⟨v, List.mem_cons_self, huv⟩
      · obtain ⟨x, hx, hwx⟩ := hforth w hw
        exact ⟨x, List.mem_cons_of_mem _ hx, hwx⟩
    · intro w hw
      rcases List.mem_cons.mp hw with rfl | hw
      · exact ⟨u, List.mem_cons_self, huv⟩
      · obtain ⟨x, hx, hxw⟩ := hback w hw
        exact ⟨x, List.mem_cons_of_mem _ hx, hxw⟩

theorem Current.continues (h : Current initial value updates)
    (hupdates : List.Forall₂ (Update.Continues now) updates updates')
    (hnow : ∀ u ∈ updates, u.startedAt < now) : Current initial value updates' := by
  obtain ⟨hforth, hback⟩ := exists_continued hupdates
  rcases h with ⟨rfl, hvalue⟩ | ⟨u, hu, hvalue, hlast⟩
  · cases hupdates
    exact .inl ⟨rfl, hvalue⟩
  · obtain ⟨u', hu', huu'⟩ := hforth u hu
    refine .inr ⟨u', hu', huu'.1 ▸ hvalue, ?_⟩
    intro v' hv' hafter
    obtain ⟨v, hv, hvv'⟩ := hback v' hv'
    exact hlast v hv (hafter.of_continues hvv' huu' (hnow v hv))

theorem Superseded.continues (h : Superseded value updates)
    (hupdates : List.Forall₂ (Update.Continues now) updates updates') :
    Superseded value updates' := by
  obtain ⟨hforth, hback⟩ := exists_continued hupdates
  obtain ⟨hne, hsuperseded⟩ := h
  constructor
  · rintro rfl
    cases hupdates
    exact hne rfl
  · intro u' hu' hvalue
    obtain ⟨u, hu, huu'⟩ := hback u' hu'
    obtain ⟨v, hv, hafter⟩ := hsuperseded u hu (huu'.1 ▸ hvalue)
    obtain ⟨v', hv', hvv'⟩ := hforth v hv
    exact ⟨v', hv', hafter.continues hvv' huu'⟩

end Updates

/-! ## The updates of a service -/

namespace Phase

def completedAt : Phase V → Option ℕ
  | .completed time => some time
  | _ => none

/-- The call has put its record. -/
def isPut : Phase V → Bool
  | .written | .completed _ => true
  | _ => false

end Phase

namespace Call

/-- The call updates a property of the record. -/
def Names (c : Call V) (sublevel : Sublevel) (key name : String) : Prop :=
  c.op.sublevel = sublevel ∧ c.op.key = key ∧ (c.op.value name).isSome

def update? (sublevel : Sublevel) (key name : String) (c : Call V) : Option (Update V) :=
  if c.op.sublevel = sublevel ∧ c.op.key = key ∧ c.phase.isPut then
    (c.op.value name).map fun value => ⟨value, c.startedAt, c.phase.completedAt⟩
  else none

theorem update?_eq_some {sublevel : Sublevel} {key name : String} {c : Call V} {u : Update V} :
    c.update? sublevel key name = some u ↔
      c.Names sublevel key name ∧ c.phase.isPut ∧ c.op.value name = some u.value ∧
        u.startedAt = c.startedAt ∧ u.completedAt = c.phase.completedAt := by
  unfold update?
  split
  · rename_i h
    constructor
    · intro hu
      obtain ⟨value, hvalue, rfl⟩ := Option.map_eq_some_iff.mp hu
      exact ⟨⟨h.1, h.2.1, by simp [hvalue]⟩, h.2.2, hvalue, rfl, rfl⟩
    · rintro ⟨-, -, hvalue, hstarted, hcompleted⟩
      rw [hvalue, Option.map_some, ← hstarted, ← hcompleted]
  · rename_i h
    refine iff_of_false (by simp) ?_
    rintro ⟨⟨hsublevel, hkey, -⟩, hput, -⟩
    exact h ⟨hsublevel, hkey, hput⟩

theorem update?_eq_none {sublevel : Sublevel} {key name : String} {c : Call V} :
    c.update? sublevel key name = none ↔ ¬ (c.Names sublevel key name ∧ c.phase.isPut) := by
  simp only [update?, Names, Option.isSome_iff_ne_none]
  split
  · rename_i h
    simp [h]
  · rename_i h
    simp only [true_iff]
    rintro ⟨⟨hsublevel, hkey, -⟩, hput⟩
    exact h ⟨hsublevel, hkey, hput⟩

def StartedAfter (c d : Call V) : Prop :=
  ∃ time, d.phase.completedAt = some time ∧ time < c.startedAt

end Call

namespace Service

/-- The updates of a property that have been put. -/
def updates (s : Service V) (sublevel : Sublevel) (key name : String) : List (Update V) :=
  s.calls.filterMap (Call.update? sublevel key name)

/-- Every property of every initial record is current. -/
def KeepsUpdates (db : Store V) (s : Service V) : Prop :=
  ∀ sublevel key initial, db.get sublevel key = some initial →
    ∃ record, s.db.get sublevel key = some record ∧ ∀ name,
      Current (initial.properties name) (record.properties name) (s.updates sublevel key name)

/-- A put that writes back a superseded value of a property that its call does not name. -/
def LosesUpdate (s : Service V) : Action V → Prop
  | .event i .put => ∃ c record name, s.calls[i]? = some c ∧ c.phase = .putting record ∧
      c.op.value name = none ∧
      Superseded (record.properties name) (s.updates c.op.sublevel c.op.key name)
  | _ => False

/-- Once all calls on a record have completed, a property that is named by a call has the value
of a call such that no other that names it was started after that call had completed; a
property that no call names is unchanged. -/
def NoLostUpdates (db : Store V) (s : Service V) : Prop :=
  ∀ sublevel key initial, db.get sublevel key = some initial →
    (∀ c ∈ s.calls, c.op.sublevel = sublevel → c.op.key = key →
      ∃ time, c.phase = .completed time) →
    ∃ record, s.db.get sublevel key = some record ∧ ∀ name,
      ((∃ c ∈ s.calls, c.Names sublevel key name) →
        ∃ c ∈ s.calls, c.Names sublevel key name ∧ record.properties name = c.op.value name ∧
          ∀ d ∈ s.calls, d.Names sublevel key name → ¬ d.StartedAfter c) ∧
      ((∀ c ∈ s.calls, ¬ c.Names sublevel key name) →
        record.properties name = initial.properties name)

end Service

/-! ## What an event does -/

theorem forall₂_filterMap_set {α β : Type} {R : β → β → Prop} (hrefl : ∀ b, R b b)
    {f : α → Option β} {l : List α} {i : ℕ} {old new : α} (hi : l[i]? = some old)
    (hsome : ∀ b, f old = some b → ∃ b', f new = some b' ∧ R b b')
    (hnone : f old = none → f new = none) :
    List.Forall₂ R (l.filterMap f) ((l.set i new).filterMap f) := by
  induction l generalizing i with
  | nil => simp at hi
  | cons a l ih =>
    cases i with
    | zero =>
      obtain rfl : a = old := by simpa using hi
      cases hold : f a with
      | none => simp [hold, hnone hold, hrefl]
      | some b =>
        obtain ⟨b', hnew, hR⟩ := hsome b hold
        simp [hold, hnew, hR, hrefl]
    | succ i =>
      have htail := ih (i := i) (by simpa using hi)
      cases ha : f a with
      | none => simpa [ha] using htail
      | some b => simpa [ha] using ⟨hrefl b, htail⟩

theorem mem_filterMap_set {α β : Type} {f : α → Option β} {l : List α} {i : ℕ} {old new : α}
    {b x : β} (hi : l[i]? = some old) (hold : f old = none) (hnew : f new = some b) :
    x ∈ (l.set i new).filterMap f ↔ x = b ∨ x ∈ l.filterMap f := by
  induction l generalizing i with
  | nil => simp at hi
  | cons a l ih =>
    cases i with
    | zero =>
      obtain rfl : a = old := by simpa using hi
      simp [hold, hnew]
    | succ i =>
      have htail := ih (i := i) (by simpa using hi)
      cases ha : f a with
      | none => simpa [ha] using htail
      | some y => simp [ha, htail, or_left_comm]

theorem Call.next_cases {validate : Sublevel → Record V → Bool} {now : ℕ} {db db' : Store V}
    {c : Call V} {e : Event} {phase : Phase V}
    (h : c.next validate now db e = some (db', phase)) :
    (e = .put ∧ ∃ record, c.phase = .putting record ∧ db' = db.put c.op.sublevel record ∧
        phase = .written) ∨
      (e ≠ .put ∧ db' = db ∧
        (c.phase.isPut = false ∧ phase.isPut = false ∨
          c.phase = .written ∧ phase = .completed now) ∧
        ∀ record, phase = .putting record → ∃ found,
          db.get c.op.sublevel c.op.key = some found ∧ record = c.op.merge found) := by
  cases e with
  | get =>
    simp only [next] at h
    cases hphase : c.phase with
    | reading =>
      simp only [hphase] at h
      obtain ⟨rfl, rfl⟩ := Prod.mk.inj (Option.some.inj h)
      refine .inr ⟨by simp, rfl, .inl ⟨rfl, ?_⟩, ?_⟩
      · cases db.get c.op.sublevel c.op.key with
        | none => rfl
        | some found =>
          dsimp only
          split
          · rfl
          · rfl
      · intro record hrecord
        cases hfound : db.get c.op.sublevel c.op.key with
        | none => simp [hfound] at hrecord
        | some found =>
          simp only [hfound] at hrecord
          split at hrecord
          · exact ⟨found, rfl, (Phase.putting.inj hrecord).symm⟩
          · cases hrecord
    | putting | written | completed | failed => simp [hphase] at h
  | put =>
    simp only [next] at h
    cases hphase : c.phase with
    | putting record =>
      simp only [hphase] at h
      obtain ⟨rfl, rfl⟩ := Prod.mk.inj (Option.some.inj h)
      exact .inl ⟨rfl, record, rfl, rfl, rfl⟩
    | reading | written | completed | failed => simp [hphase] at h
  | callback =>
    simp only [next] at h
    cases hphase : c.phase with
    | written =>
      simp only [hphase] at h
      obtain ⟨rfl, rfl⟩ := Prod.mk.inj (Option.some.inj h)
      exact .inr ⟨by simp, rfl, .inr ⟨rfl, rfl⟩, fun record hrecord => by cases hrecord⟩
    | reading | putting | completed | failed => simp [hphase] at h
  | error =>
    simp only [next] at h
    cases hphase : c.phase with
    | reading | putting =>
      simp only [hphase] at h
      obtain ⟨rfl, rfl⟩ := Prod.mk.inj (Option.some.inj h)
      exact .inr ⟨by simp, rfl, .inl ⟨rfl, rfl⟩, fun record hrecord => by cases hrecord⟩
    | written | completed | failed => simp [hphase] at h

namespace Service

variable {validate : Sublevel → Record V → Bool} {db : Store V} {s t : Service V}

theorem act_start {op : Operation V} (h : s.act validate (.start op) = some t) :
    t.db = s.db ∧ t.now = s.now + 1 ∧ t.calls = s.calls ++ [⟨op, s.now, .reading⟩] := by
  obtain rfl := Option.some.inj h
  exact ⟨rfl, rfl, rfl⟩

theorem act_event {i : ℕ} {e : Event} (h : s.act validate (.event i e) = some t) :
    ∃ c phase, s.calls[i]? = some c ∧ c.next validate s.now s.db e = some (t.db, phase) ∧
      t.calls = s.calls.set i { c with phase := phase } ∧ t.now = s.now + 1 := by
  obtain ⟨c, hc, hmap⟩ := Option.bind_eq_some_iff.mp h
  obtain ⟨p, hp, rfl⟩ := Option.map_eq_some_iff.mp hmap
  exact ⟨c, p.2, hc, hp, rfl, rfl⟩

theorem updates_start {op : Operation V} (h : s.act validate (.start op) = some t)
    (sublevel : Sublevel) (key name : String) :
    t.updates sublevel key name = s.updates sublevel key name := by
  obtain ⟨-, -, hcalls⟩ := act_start h
  simp [updates, hcalls, List.filterMap_append, Call.update?, Phase.isPut]

/-- An event other than a put that names the property keeps its updates, up to a completion. -/
theorem updates_event {i : ℕ} {e : Event} {c : Call V} (hc : s.calls[i]? = some c)
    (h : s.act validate (.event i e) = some t) {sublevel : Sublevel} {key name : String}
    (hunnamed : e = .put → ¬ c.Names sublevel key name) :
    List.Forall₂ (Update.Continues s.now) (s.updates sublevel key name)
      (t.updates sublevel key name) := by
  obtain ⟨c', phase, hc', hnext, hcalls, -⟩ := act_event h
  cases hc.symm.trans hc'
  rw [updates, updates, hcalls]
  refine forall₂_filterMap_set (Update.Continues.refl _) hc ?_ ?_
  · intro u hu
    obtain ⟨hnames, hput, hvalue, hstarted, hcompleted⟩ := Call.update?_eq_some.mp hu
    rcases Call.next_cases hnext with ⟨-, record, hphase, -⟩ | ⟨-, -, hput', -⟩
    · simp [hphase, Phase.isPut] at hput
    · rcases hput' with ⟨hnot, -⟩ | ⟨hphase, rfl⟩
      · simp [hnot] at hput
      · have hcompleted' : u.completedAt = none := by simp [hcompleted, hphase, Phase.completedAt]
        refine ⟨⟨u.value, u.startedAt, some s.now⟩, ?_, rfl, rfl, .inr ⟨hcompleted', rfl⟩⟩
        exact Call.update?_eq_some.mpr ⟨hnames, rfl, hvalue, hstarted, rfl⟩
  · intro hu
    have hnot := Call.update?_eq_none.mp hu
    apply Call.update?_eq_none.mpr
    rintro ⟨hnames, hput⟩
    rcases Call.next_cases hnext with ⟨he, -⟩ | ⟨-, -, ⟨-, hput'⟩ | ⟨hphase, -⟩, -⟩
    · exact hunnamed he hnames
    · simp [hput'] at hput
    · exact hnot ⟨hnames, by simp [hphase, Phase.isPut]⟩

/-- A put adds an update of every property that its call names. -/
theorem mem_updates_put {i : ℕ} {c : Call V} (hc : s.calls[i]? = some c)
    (h : s.act validate (.event i .put) = some t) {name : String} {value : V}
    (hvalue : c.op.value name = some value) {u : Update V} :
    u ∈ t.updates c.op.sublevel c.op.key name ↔
      u = ⟨value, c.startedAt, none⟩ ∨ u ∈ s.updates c.op.sublevel c.op.key name := by
  obtain ⟨c', phase, hc', hnext, hcalls, -⟩ := act_event h
  cases hc.symm.trans hc'
  rcases Call.next_cases hnext with ⟨-, record, hphase, -, rfl⟩ | ⟨hne, -⟩
  · rw [updates, hcalls]
    apply mem_filterMap_set hc
    · simp [Call.update?, hphase, Phase.isPut]
    · simp [Call.update?, hvalue, Phase.isPut, Phase.completedAt]
  · exact absurd rfl hne

/-! ## The invariant of a run -/

/-- Every call was started in the past; what was read of a property without updates is the
initial value, and a pending put has the values that its call gives. -/
structure Consistent (db : Store V) (s : Service V) : Prop where
  startedAt_lt : ∀ c ∈ s.calls, c.startedAt < s.now
  stored : ∀ sublevel key record, s.db.get sublevel key = some record →
    ∃ initial, db.get sublevel key = some initial ∧ ∀ name,
      s.updates sublevel key name = [] → record.properties name = initial.properties name
  putting : ∀ c ∈ s.calls, ∀ record, c.phase = .putting record →
    record.id = c.op.key ∧ ∃ initial, db.get c.op.sublevel c.op.key = some initial ∧
      ∀ name, (∀ value, c.op.value name = some value → record.properties name = some value) ∧
        (c.op.value name = none → s.updates c.op.sublevel c.op.key name = [] →
          record.properties name = initial.properties name)

theorem startedAt_lt_of_mem_updates (hs : ∀ c ∈ s.calls, c.startedAt < s.now)
    {sublevel : Sublevel} {key name : String} {u : Update V}
    (hu : u ∈ s.updates sublevel key name) : u.startedAt < s.now := by
  obtain ⟨c, hc, hupdate⟩ := List.mem_filterMap.mp hu
  obtain ⟨-, -, -, hstarted, -⟩ := Call.update?_eq_some.mp hupdate
  exact hstarted ▸ hs c hc

/-- A property without updates after an event had none before. -/
theorem updates_eq_nil {i : ℕ} {e : Event} (h : s.act validate (.event i e) = some t)
    {sublevel : Sublevel} {key name : String} (hnil : t.updates sublevel key name = []) :
    s.updates sublevel key name = [] := by
  obtain ⟨c, phase, hc, hnext, -, -⟩ := act_event h
  by_cases hnames : e = .put ∧ c.Names sublevel key name
  · obtain ⟨rfl, rfl, rfl, hsome⟩ := hnames
    obtain ⟨value, hvalue⟩ := Option.isSome_iff_exists.mp hsome
    have hmem := (mem_updates_put hc h hvalue).mpr (.inl rfl)
    simp [hnil] at hmem
  · have hcontinued := updates_event hc h fun he hn => hnames ⟨he, hn⟩
    rw [hnil] at hcontinued
    exact List.forall₂_nil_right_iff.mp hcontinued

theorem Consistent.start {op : Operation V} (hs : Consistent db s)
    (h : s.act validate (.start op) = some t) : Consistent db t := by
  obtain ⟨hdb, hnow, hcalls⟩ := act_start h
  have hupdates := updates_start h
  refine ⟨?_, ?_, ?_⟩
  · intro c hc
    rw [hcalls] at hc
    rw [hnow]
    rcases List.mem_append.mp hc with hc | hc
    · exact Nat.lt_succ_of_lt (hs.startedAt_lt c hc)
    · obtain rfl := List.mem_singleton.mp hc
      exact Nat.lt_succ_self _
  · intro sublevel key record hrecord
    rw [hdb] at hrecord
    simp only [hupdates]
    exact hs.stored sublevel key record hrecord
  · intro c hc record hphase
    rw [hcalls] at hc
    simp only [hupdates]
    rcases List.mem_append.mp hc with hc | hc
    · exact hs.putting c hc record hphase
    · obtain rfl := List.mem_singleton.mp hc
      cases hphase

/-- What a put stores is the record that its call has made. -/
theorem get_put_cases {c : Call V} {record : Record V} (hid : record.id = c.op.key)
    {sublevel : Sublevel} {key : String} {found : Record V}
    (h : (s.db.put c.op.sublevel record).get sublevel key = some found) :
    (sublevel = c.op.sublevel ∧ key = c.op.key ∧ found = record) ∨
      ((sublevel, key) ≠ (c.op.sublevel, c.op.key) ∧ s.db.get sublevel key = some found) := by
  by_cases hkey : (sublevel, key) = (c.op.sublevel, c.op.key)
  · obtain ⟨rfl, rfl⟩ := Prod.mk.inj hkey
    rw [← hid, Store.get_put_self] at h
    exact .inl ⟨rfl, rfl, (Option.some.inj h).symm⟩
  · rw [Store.get_put_of_ne (hid ▸ hkey)] at h
    exact .inr ⟨hkey, h⟩

theorem Consistent.event {i : ℕ} {e : Event} (hs : Consistent db s)
    (h : s.act validate (.event i e) = some t) : Consistent db t := by
  obtain ⟨c, phase, hc, hnext, hcalls, hnow⟩ := act_event h
  have hmem : c ∈ s.calls := List.mem_of_getElem? hc
  refine ⟨?_, ?_, ?_⟩
  · intro d hd
    rw [hcalls] at hd
    rw [hnow]
    rcases List.mem_or_eq_of_mem_set hd with hd | rfl
    · exact Nat.lt_succ_of_lt (hs.startedAt_lt d hd)
    · exact Nat.lt_succ_of_lt (hs.startedAt_lt c hmem)
  · intro sublevel key found hfound
    rcases Call.next_cases hnext with ⟨rfl, record, hphase, hdb, -⟩ | ⟨-, hdb, -, -⟩
    · obtain ⟨hid, initial, hinitial, hrecord⟩ := hs.putting c hmem record hphase
      rw [hdb] at hfound
      rcases get_put_cases hid hfound with ⟨rfl, rfl, rfl⟩ | ⟨-, hold⟩
      · refine ⟨initial, hinitial, fun name hnil => ?_⟩
        cases hvalue : c.op.value name with
        | none => exact (hrecord name).2 hvalue (updates_eq_nil h hnil)
        | some value =>
          have hput := (mem_updates_put hc h hvalue).mpr (.inl rfl)
          simp [hnil] at hput
      · obtain ⟨initial, hinitial, hstored⟩ := hs.stored sublevel key found hold
        exact ⟨initial, hinitial, fun name hnil => hstored name (updates_eq_nil h hnil)⟩
    · rw [hdb] at hfound
      obtain ⟨initial, hinitial, hstored⟩ := hs.stored sublevel key found hfound
      exact ⟨initial, hinitial, fun name hnil => hstored name (updates_eq_nil h hnil)⟩
  · intro d hd record hphase
    rw [hcalls] at hd
    rcases List.mem_or_eq_of_mem_set hd with hd | rfl
    · obtain ⟨hid, initial, hinitial, hrecord⟩ := hs.putting d hd record hphase
      refine ⟨hid, initial, hinitial, fun name => ⟨(hrecord name).1, fun hnone hnil => ?_⟩⟩
      exact (hrecord name).2 hnone (updates_eq_nil h hnil)
    · rcases Call.next_cases hnext with ⟨-, -, -, -, rfl⟩ | ⟨-, -, -, hread⟩
      · cases hphase
      · obtain ⟨found, hfound, rfl⟩ := hread record hphase
        obtain ⟨initial, hinitial, hstored⟩ := hs.stored _ _ found hfound
        have hid := c.op.merge_id (s.db.id_eq _ _ found hfound)
        refine ⟨hid, initial, hinitial, fun name => ⟨fun value hvalue => ?_, fun hnone hnil => ?_⟩⟩
        · simp [Operation.merge_properties, show c.op.value name = some value from hvalue]
        · have hsame := hstored name (updates_eq_nil h hnil)
          simpa [Operation.merge_properties, show c.op.value name = none from hnone] using hsame

theorem Consistent.act {a : Action V} (hs : Consistent db s) (h : s.act validate a = some t) :
    Consistent db t := by
  cases a with
  | start op => exact hs.start h
  | event i e => exact hs.event h

theorem consistent_initial (db : Store V) : Consistent db ⟨db, [], 0⟩ where
  startedAt_lt := by simp
  stored := fun _ _ record hrecord => ⟨record, hrecord, fun _ _ => rfl⟩
  putting := by simp

/-! ## Keeping updates -/

theorem keepsUpdates_initial (db : Store V) : KeepsUpdates db ⟨db, [], 0⟩ :=
  fun _ _ initial hinitial => ⟨initial, hinitial, fun _ => .inl ⟨rfl, rfl⟩⟩

theorem KeepsUpdates.start {op : Operation V} (hs : KeepsUpdates db s)
    (h : s.act validate (.start op) = some t) : KeepsUpdates db t := by
  obtain ⟨hdb, -, -⟩ := act_start h
  intro sublevel key initial hinitial
  simp only [hdb, updates_start h]
  exact hs sublevel key initial hinitial

theorem KeepsUpdates.event {i : ℕ} {e : Event} (hc : Consistent db s) (hs : KeepsUpdates db s)
    (h : s.act validate (.event i e) = some t) (hgood : ¬ s.LosesUpdate (.event i e)) :
    KeepsUpdates db t := by
  obtain ⟨c, phase, hcall, hnext, -, -⟩ := act_event h
  have hmem : c ∈ s.calls := List.mem_of_getElem? hcall
  have hstarted : ∀ {sublevel key name}, ∀ u ∈ s.updates sublevel key name, u.startedAt < s.now :=
    fun u hu => startedAt_lt_of_mem_updates hc.startedAt_lt hu
  intro sublevel key initial hinitial
  obtain ⟨record, hrecord, hcurrent⟩ := hs sublevel key initial hinitial
  rcases Call.next_cases hnext with ⟨rfl, new, hphase, hdb, -⟩ | ⟨hne, hdb, -, -⟩
  · obtain ⟨hid, initial', hinitial', hnew⟩ := hc.putting c hmem new hphase
    by_cases hkey : (sublevel, key) = (c.op.sublevel, c.op.key)
    · obtain ⟨rfl, rfl⟩ := Prod.mk.inj hkey
      obtain rfl := Option.some.inj (hinitial.symm.trans hinitial')
      refine ⟨new, by rw [hdb, ← hid, Store.get_put_self], fun name => ?_⟩
      cases hvalue : c.op.value name with
      | some value =>
        -- the update of the put itself, which has not completed
        refine .inr ⟨_, (mem_updates_put hcall h hvalue).mpr (.inl rfl), (hnew name).1 _ hvalue, ?_⟩
        rintro v - ⟨time, hcompleted, -⟩
        cases hcompleted
      | none =>
        have hread : ¬ Superseded (new.properties name) (s.updates c.op.sublevel c.op.key name) :=
          fun hlost => hgood ⟨c, new, name, hcall, hphase, hvalue, hlost⟩
        have hunnamed : ¬ c.Names c.op.sublevel c.op.key name := fun hnames => by
          simp [Call.Names, hvalue] at hnames
        exact (current_of_not_superseded ((hnew name).2 hvalue) hread).continues
          (updates_event hcall h fun _ => hunnamed) hstarted
    · refine ⟨record, by rw [hdb, Store.get_put_of_ne (hid ▸ hkey), hrecord], fun name => ?_⟩
      have hunnamed : ¬ c.Names sublevel key name := by
        rintro ⟨rfl, rfl, -⟩
        exact hkey rfl
      exact (hcurrent name).continues (updates_event hcall h fun _ => hunnamed) hstarted
  · refine ⟨record, by rw [hdb, hrecord], fun name => ?_⟩
    exact (hcurrent name).continues (updates_event hcall h fun he => absurd he hne) hstarted

theorem KeepsUpdates.act {a : Action V} (hc : Consistent db s) (hs : KeepsUpdates db s)
    (h : s.act validate a = some t) (hgood : ¬ s.LosesUpdate a) : KeepsUpdates db t := by
  cases a with
  | start op => exact hs.start h
  | event i e => exact hs.event hc h hgood

/-- After a put that loses an update, the value that it wrote back is not current. -/
theorem LosesUpdate.not_keepsUpdates {a : Action V} (hc : Consistent db s)
    (h : s.act validate a = some t) (hlost : s.LosesUpdate a) : ¬ KeepsUpdates db t := by
  cases a with
  | start op => exact absurd hlost id
  | event i e =>
    cases e with
    | get | callback | error => exact absurd hlost id
    | put =>
      obtain ⟨c, new, name, hcall, hphase, hvalue, hsuperseded⟩ := hlost
      obtain ⟨c', phase, hcall', hnext, -, -⟩ := act_event h
      cases hcall.symm.trans hcall'
      obtain ⟨hid, initial, hinitial, -⟩ := hc.putting c (List.mem_of_getElem? hcall) new hphase
      intro hkeeps
      obtain ⟨record, hrecord, hcurrent⟩ := hkeeps _ _ initial hinitial
      rcases Call.next_cases hnext with ⟨-, new', hphase', hdb, -⟩ | ⟨hne, -⟩
      · cases hphase.symm.trans hphase'
        have hnew : t.db.get c.op.sublevel c.op.key = some new := by
          rw [hdb, ← hid, Store.get_put_self]
        cases hrecord.symm.trans hnew
        have hunnamed : ¬ c.Names c.op.sublevel c.op.key name := fun hnames => by
          simp [Call.Names, hvalue] at hnames
        exact (hcurrent name).not_superseded
          (hsuperseded.continues (updates_event hcall h fun _ => hunnamed))
      · exact hne rfl

/-- Once all calls on a record have completed, all its updates have been put. -/
theorem KeepsUpdates.noLostUpdates (h : KeepsUpdates db s) : NoLostUpdates db s := by
  intro sublevel key initial hinitial hcompleted
  obtain ⟨record, hrecord, hcurrent⟩ := h sublevel key initial hinitial
  have hupdate : ∀ c ∈ s.calls, ∀ {name}, c.Names sublevel key name →
      ∃ u ∈ s.updates sublevel key name, u.startedAt = c.startedAt := by
    intro c hc name hnames
    obtain ⟨time, hphase⟩ := hcompleted c hc hnames.1 hnames.2.1
    obtain ⟨value, hvalue⟩ := Option.isSome_iff_exists.mp hnames.2.2
    refine ⟨⟨value, c.startedAt, some time⟩, List.mem_filterMap.mpr ⟨c, hc, ?_⟩, rfl⟩
    exact Call.update?_eq_some.mpr ⟨hnames, by rw [hphase]; rfl, hvalue, rfl, by rw [hphase]; rfl⟩
  refine ⟨record, hrecord, fun name => ⟨?_, fun hnone => ?_⟩⟩
  · rintro ⟨c, hc, hnames⟩
    obtain ⟨v, hv, -⟩ := hupdate c hc hnames
    rcases hcurrent name with ⟨hnil, -⟩ | ⟨u, hu, hvalue, hlast⟩
    · simp [hnil] at hv
    · obtain ⟨d, hd, hd'⟩ := List.mem_filterMap.mp hu
      obtain ⟨hnames', -, hvalue', -, hcompleted'⟩ := Call.update?_eq_some.mp hd'
      refine ⟨d, hd, hnames', hvalue.trans hvalue'.symm, ?_⟩
      rintro e he hnames'' ⟨time, htime, hlt⟩
      obtain ⟨w, hw, hstarted⟩ := hupdate e he hnames''
      exact hlast w hw ⟨time, hcompleted'.trans htime, hstarted ▸ hlt⟩
  · rcases hcurrent name with ⟨-, hvalue⟩ | ⟨u, hu, -⟩
    · exact hvalue
    · obtain ⟨d, hd, hd'⟩ := List.mem_filterMap.mp hu
      exact absurd (Call.update?_eq_some.mp hd').1 (hnone d hd)

end Service

/-- The properties stay current in a run iff none of its puts writes back a superseded value of
a property that its call does not name; and then no update is lost. -/
theorem no_lost_updates_iff {validate : Sublevel → Record V → Bool} {db : Store V}
    {tr : List (Service V × Action V)} {s : Service V} (h : Run (recordSystem validate db) tr s) :
    ((∀ t ∈ statesOf tr s, t.KeepsUpdates db) ↔ ∀ p ∈ tr, ¬ p.1.LosesUpdate p.2) ∧
      ((∀ p ∈ tr, ¬ p.1.LosesUpdate p.2) → ∀ t ∈ statesOf tr s, t.NoLostUpdates db) := by
  have hiff : (∀ t ∈ statesOf tr s, t.KeepsUpdates db) ↔ ∀ p ∈ tr, ¬ p.1.LosesUpdate p.2 := by
    apply h.forall_states_iff (I := fun s => s.Consistent db) (P := fun s => s.KeepsUpdates db)
      (Q := fun s => s.KeepsUpdates db) (G := fun s a => ¬ s.LosesUpdate a)
    · rintro s rfl
      exact ⟨Service.consistent_initial db, Service.keepsUpdates_initial db⟩
    · intro a s t hs hact
      exact hs.act hact
    · intro a s t hc hs hact hgood
      exact hs.act hc hact hgood
    · intro a s t hc _ hact hlost
      exact (not_not.mp hlost).not_keepsUpdates hc hact
    · exact fun s hs => hs
  exact ⟨hiff, fun hgood t ht => (hiff.mpr hgood t ht).noLostUpdates⟩

/-- A store with one metric, which has no options. -/
def oneMetric : Store String :=
  (⟨fun _ _ => none, fun _ _ _ h => by cases h⟩ : Store String).put .metrics ⟨"m", fun _ => none⟩

/-- Two calls that set different options, one after the other. -/
def serialUpdates : List (Action String) :=
  [.start (.setMetricAggregationOptions "m" "a"), .event 0 .get, .event 0 .put,
    .event 0 .callback, .start (.setMetricModelOptions "m" "b"), .event 1 .get, .event 1 .put,
    .event 1 .callback]

theorem no_lost_updates_iff_serial :
    ∃ s, (recordSystem (fun _ _ => true) oneMetric).exec serialUpdates ⟨oneMetric, [], 0⟩ =
        some s ∧ s.NoLostUpdates oneMetric := by
  obtain ⟨s, hs⟩ : ∃ s, (recordSystem (fun _ _ => true) oneMetric).exec serialUpdates
      ⟨oneMetric, [], 0⟩ = some s := ⟨_, rfl⟩
  have hrun : Run (recordSystem (fun _ _ => true) oneMetric)
      ((recordSystem (fun _ _ => true) oneMetric).trace serialUpdates ⟨oneMetric, [], 0⟩) s :=
    (Run.init rfl).exec_trace hs
  have hgood : ∀ p ∈ (recordSystem (fun _ _ => true) oneMetric).trace serialUpdates
      ⟨oneMetric, [], 0⟩, ¬ p.1.LosesUpdate p.2 := by
    refine List.forall_mem_cons.mpr ⟨id, List.forall_mem_cons.mpr ⟨id, List.forall_mem_cons.mpr
      ⟨?_, List.forall_mem_cons.mpr ⟨id, List.forall_mem_cons.mpr ⟨id, List.forall_mem_cons.mpr
      ⟨id, List.forall_mem_cons.mpr ⟨?_, List.forall_mem_cons.mpr ⟨id, List.forall_mem_nil _⟩⟩⟩⟩⟩⟩⟩⟩
    · rintro ⟨c, record, name, hc, -, hvalue, hne, -⟩
      cases hc
      exact hne rfl
    · rintro ⟨c, record, name, hc, hphase, hvalue, hne, hlater⟩
      cases hc
      cases hphase
      by_cases hname : name = "aggregation_options"
      · subst hname
        obtain ⟨v, hv, time, -, hlt⟩ := hlater ⟨"a", 0, some 3⟩ (List.mem_singleton.mpr rfl) rfl
        obtain rfl := List.mem_singleton.mp hv
        exact Nat.not_lt_zero _ hlt
      · have hnone : Function.update (fun _ => none) "aggregation_options" (some "a") name =
            (none : Option String) := Function.update_of_ne hname _ _
        have hnil : ∀ r, [(⟨.setMetricAggregationOptions "m" "a", 0, .completed 3⟩ : Call String),
            ⟨.setMetricModelOptions "m" "b", 4, .putting r⟩].filterMap
              (Call.update? .metrics "m" name) = [] := fun r => by
          simp [Call.update?, Operation.value, hnone, Phase.isPut]
        exact hne (hnil _)
  exact ⟨s, hs, (no_lost_updates_iff hrun).2 hgood s (by simp [statesOf])⟩

/-- The same two calls issued in a row: each reads the metric before the other puts it. -/
def racingUpdates : List (Action String) :=
  [.start (.setMetricAggregationOptions "m" "a"), .start (.setMetricModelOptions "m" "b"),
    .event 0 .get, .event 1 .get, .event 0 .put, .event 1 .put, .event 0 .callback,
    .event 1 .callback]

theorem racing_update_lost :
    ∃ s, (recordSystem (fun _ _ => true) oneMetric).exec racingUpdates ⟨oneMetric, [], 0⟩ =
        some s ∧ (∀ c ∈ s.calls, ∃ time, c.phase = .completed time) ∧
      ¬ s.NoLostUpdates oneMetric := by
  refine ⟨_, rfl, ?_, ?_⟩
  · exact List.forall_mem_cons.mpr ⟨⟨6, rfl⟩, List.forall_mem_cons.mpr ⟨⟨7, rfl⟩,
      List.forall_mem_nil _⟩⟩
  · intro hkeeps
    obtain ⟨record, hrecord, hnames⟩ := hkeeps .metrics "m" ⟨"m", fun _ => none⟩ rfl
      (List.forall_mem_cons.mpr ⟨fun _ _ => ⟨6, rfl⟩, List.forall_mem_cons.mpr
        ⟨fun _ _ => ⟨7, rfl⟩, List.forall_mem_nil _⟩⟩)
    have hlost : record.properties "aggregation_options" = none := by
      cases hrecord
      rfl
    obtain ⟨c, -, ⟨-, -, hsome⟩, hvalue, -⟩ := (hnames "aggregation_options").1
      ⟨⟨.setMetricAggregationOptions "m" "a", 0, .completed 6⟩, List.mem_cons_self, rfl, rfl, rfl⟩
    simp [← hvalue, hlost] at hsome

end NumentaApps.Unicorn
