import Mathlib.Data.List.Perm.Basic
import Mathlib.Data.Int.Notation

/-!
# The slot agent and its ModelRunner process

A slot agent owns one execution slot of the model scheduler. The controller
calls its interface methods, which only touch the interface-side model ID and
append a command to the agent's FIFO. The agent's own thread takes the commands
one at a time; a stop blocks it in `stopGracefully` until the monitor thread of
the ModelRunner process has reported the exit of the process and terminated.
-/
namespace NumentaApps.ModelSwapper

/-- What ends a handler abnormally. -/
inductive Failure where
  | assertion (text : String)
  | attributeError | keyError | indexError
  deriving DecidableEq, Repr

/-- The commands of the agent's queue; the callback of a start is the model ID
that the controller has bound to its model-done notification. -/
inductive Command (M : Type) where
  | startModel (modelID modelFinishedCallback : M)
  | stopModel | releaseSlot | close | modelRunnerExited
  deriving DecidableEq, Repr

/-- The ModelRunner process together with the thread monitoring it: `reaped` is
the process whose exit has been put in the queue, so that the monitor thread can
be joined. -/
inductive Process where
  | running
  | exited (returncode : ℤ)
  | reaped (returncode : ℤ)
  deriving DecidableEq, Repr

def Process.isReaped : Process → Bool
  | .reaped _ => true
  | _ => false

structure CurrentModelState (M : Type) where
  modelID : M
  modelRunner : Process
  modelFinishedCallback : M
  stopModelPending : Bool
  stopModelRequested : Bool
  modelExitStatus : Option ℤ
  deriving DecidableEq, Repr

/-- Where the event-loop thread of the agent is. -/
inductive Thread where
  | atQueue
  | inStopGracefully (doCallback doClose : Bool)
  | closed
  deriving DecidableEq, Repr

structure SlotAgent (M : Type) where
  modelID : Option M
  eventQ : List (Command M)
  modelState : Option (CurrentModelState M)
  thread : Thread
  deriving DecidableEq, Repr

namespace SlotAgent

variable {M : Type}

def initial : SlotAgent M := ⟨none, [], none, .atQueue⟩

/-! ## Interface methods, called by the controller -/

def startModel (a : SlotAgent M) (modelID modelFinishedCallback : M) :
    Except Failure (SlotAgent M) :=
  match a.modelID with
  | some _ => .error (.assertion "self._modelID is None")
  | none => .ok { a with
      modelID := some modelID
      eventQ := a.eventQ ++ [.startModel modelID modelFinishedCallback] }

def stopModel (a : SlotAgent M) : Except Failure (SlotAgent M) :=
  match a.modelID with
  | none => .error (.assertion "self._modelID is not None")
  | some _ => .ok { a with eventQ := a.eventQ ++ [.stopModel] }

def releaseSlot (a : SlotAgent M) : Except Failure (SlotAgent M) :=
  match a.modelID with
  | none => .error (.assertion "self._modelID is not None")
  | some _ => .ok { a with modelID := none, eventQ := a.eventQ ++ [.releaseSlot] }

def close (a : SlotAgent M) : SlotAgent M := { a with eventQ := a.eventQ ++ [.close] }

/-! ## The event loop -/

/-- The end of one turn of `_runEventLoop`: stop the model, leave the loop. -/
def finishTurn (a : SlotAgent M) (doStopModel doClose : Bool) : SlotAgent M :=
  if doStopModel || doClose then
    match a.modelState with
    | none => if doClose then { a with thread := .closed } else a
    | some ms =>
      if ms.stopModelPending then
        -- a repeated stop is only logged
        if doClose then { a with thread := .closed } else a
      else { a with
        modelState := some { ms with stopModelPending := true }
        thread := .inStopGracefully (!doClose) doClose }
  else a

def handle (a : SlotAgent M) : Command M → Except Failure (SlotAgent M)
  | .startModel modelID modelFinishedCallback =>
    match a.modelState with
    | some _ => .error (.assertion "modelState is None")
    | none => .ok { a with
        modelState := some ⟨modelID, .running, modelFinishedCallback, false, false, none⟩ }
  | .stopModel =>
    match a.modelState with
    | none => .error .attributeError
    | some ms =>
      if ms.stopModelRequested then .error (.assertion "not modelState.stopModelRequested")
      else .ok (finishTurn
        { a with modelState := some { ms with stopModelRequested := true } } true false)
  | .modelRunnerExited =>
    match a.modelState with
    | none => .error .attributeError
    | some ms => .ok (finishTurn a (!ms.stopModelPending) false)
  | .releaseSlot =>
    match a.modelState with
    | none => .error .attributeError
    | some ms =>
      if !ms.stopModelPending then
        .error (.assertion "Handling release-slot, but stopModelPending is False")
      else if ms.modelExitStatus.isNone then
        .error (.assertion "Handling release-slot, but modelExitStatus is None")
      else .ok { a with modelState := none }
  | .close => .ok (finishTurn a false true)

/-- The agent's thread takes the next command. -/
def runEventLoop (a : SlotAgent M) : Option (Except Failure (SlotAgent M)) :=
  match a.thread, a.eventQ with
  | .atQueue, evt :: q => some (handle { a with eventQ := q } evt)
  | _, _ => none

/-- `stopGracefully` returns once the monitor thread can be joined; the result
carries the callback made, if any. -/
def stopGracefullyReturns (a : SlotAgent M) : Option (SlotAgent M × Option (M × ℤ)) :=
  match a.thread, a.modelState with
  | .inStopGracefully doCallback doClose, some ms =>
    match ms.modelRunner with
    | .reaped code =>
      some ({ a with
          modelState := some { ms with modelExitStatus := some code }
          thread := if doClose then .closed else .atQueue },
        if doCallback then some (ms.modelFinishedCallback, code) else none)
    | _ => none
  | _, _ => none

/-- The ModelRunner process ends, by itself, asked to, or killed. -/
def processExits (a : SlotAgent M) (code : ℤ) : Option (SlotAgent M) :=
  match a.modelState with
  | some ms =>
    match ms.modelRunner with
    | .running => some { a with modelState := some { ms with modelRunner := .exited code } }
    | _ => none
  | none => none

/-- The monitor thread sees the exit and calls `onTermination`. -/
def runProcessMonitorThread (a : SlotAgent M) : Option (SlotAgent M) :=
  match a.modelState with
  | some ms =>
    match ms.modelRunner with
    | .exited code => some { a with
        modelState := some { ms with modelRunner := .reaped code }
        eventQ := a.eventQ ++ [.modelRunnerExited] }
    | _ => none
  | none => none

/-! ## The protocol of one slot -/

def stops (asked : Bool) : List (Command M) := if asked then [.stopModel] else []

def exits (exited : Bool) : List (Command M) := if exited then [.modelRunnerExited] else []

def closes (closing : Bool) : List (Command M) := if closing then [.close] else []

/-- The queue holds a stop, an exit notification, both in some order, or nothing. -/
def Inbox (stop exited : Bool) (w : List (Command M)) : Prop :=
  w.Perm (stops stop ++ exits exited)

/-- Every state a slot can be in, with the whole content of its queue. The
indices are what the controller knows: whether it has asked the slot to stop its
current model, whether the model-done notification of that model has been sent,
and whether the agent has been closed. -/
inductive Shape : (asked done closing : Bool) → SlotAgent M → Prop where
  | free (closing : Bool) : Shape false false closing ⟨none, closes closing, none, .atQueue⟩
  | starting (m : M) (asked : Bool) :
      Shape asked false false ⟨some m, .startModel m m :: stops asked, none, .atQueue⟩
  | live (m : M) (asked : Bool) (p : Process) (w : List (Command M))
      (hw : Inbox asked p.isReaped w) :
      Shape asked false false ⟨some m, w, some ⟨m, p, m, false, false, none⟩, .atQueue⟩
  | stopping (m : M) (asked requested exited : Bool) (p : Process) (w : List (Command M))
      (hr : requested = true → asked = true) (hp : p.isReaped = false → exited = false)
      (hw : Inbox (asked && !requested) exited w) :
      Shape asked false false
        ⟨some m, w, some ⟨m, p, m, true, requested, none⟩, .inStopGracefully true false⟩
  | finished (m : M) (asked requested exited : Bool) (code : ℤ) (w : List (Command M))
      (hr : requested = true → asked = true) (hw : Inbox (asked && !requested) exited w) :
      Shape asked true false
        ⟨some m, w, some ⟨m, .reaped code, m, true, requested, some code⟩, .atQueue⟩
  | released (m : M) (stop requested exited closing : Bool) (code : ℤ) (w : List (Command M))
      (hr : requested = true → stop = false) (hw : Inbox stop exited w) :
      Shape false false closing
        ⟨none, w ++ .releaseSlot :: closes closing,
          some ⟨m, .reaped code, m, true, requested, some code⟩, .atQueue⟩
  | restarted (m m' : M) (asked stop requested exited : Bool) (code : ℤ) (w : List (Command M))
      (hr : requested = true → stop = false) (hw : Inbox stop exited w) :
      Shape asked false false
        ⟨some m', w ++ .releaseSlot :: .startModel m' m' :: stops asked,
          some ⟨m, .reaped code, m, true, requested, some code⟩, .atQueue⟩
  | closed : Shape false false true ⟨none, [], none, .closed⟩

theorem shape_initial : Shape false false false (initial : SlotAgent M) := .free false

/-- An agent without a model has nothing outstanding. -/
theorem Shape.of_modelID_none {a : SlotAgent M} {asked done closing : Bool}
    (h : Shape asked done closing a) (ha : a.modelID = none) : asked = false ∧ done = false := by
  cases h <;> first | exact ⟨rfl, rfl⟩ | cases ha

/-- A live process runs the model its slot is associated with. -/
theorem Shape.modelID_of_running {a : SlotAgent M} {asked done closing : Bool}
    {ms : CurrentModelState M} (h : Shape asked done closing a) (ha : a.modelState = some ms)
    (hms : ms.modelRunner = .running) : a.modelID = some ms.modelID := by
  cases h with
  | live => cases ha; rfl
  | stopping => cases ha; rfl
  | finished => cases ha; cases hms
  | released => cases ha; cases hms
  | restarted => cases ha; cases hms
  | free => cases ha
  | starting => cases ha
  | closed => cases ha

@[simp] theorem inbox_nil {stop exited : Bool} :
    Inbox stop exited ([] : List (Command M)) ↔ stop = false ∧ exited = false := by
  cases stop <;> cases exited <;> simp [Inbox, stops, exits]

/-- The first command of an inbox is its stop or its exit notification. -/
theorem Inbox.head {stop exited : Bool} {c : Command M} {w : List (Command M)}
    (h : Inbox stop exited (c :: w)) :
    (c = .stopModel ∧ stop = true ∧ Inbox false exited w) ∨
      (c = .modelRunnerExited ∧ exited = true ∧ Inbox stop false w) := by
  have hc : c ∈ stops stop ++ exits exited := h.mem_iff.mp List.mem_cons_self
  cases stop <;> cases exited <;> simp [stops, exits] at hc
  · subst hc
    exact .inr ⟨rfl, rfl, (List.perm_cons _).mp h⟩
  · subst hc
    exact .inl ⟨rfl, rfl, (List.perm_cons _).mp h⟩
  · rcases hc with rfl | rfl
    · exact .inl ⟨rfl, rfl, (List.perm_cons _).mp h⟩
    · exact .inr ⟨rfl, rfl, (List.perm_cons _).mp (h.trans (List.Perm.swap _ _ _))⟩

theorem Inbox.append_stop {exited : Bool} {w : List (Command M)} (h : Inbox false exited w) :
    Inbox true exited (w ++ [.stopModel]) :=
  (List.perm_append_singleton _ _).trans (List.Perm.cons _ h)

theorem Inbox.append_exited {stop : Bool} {w : List (Command M)} (h : Inbox stop false w) :
    Inbox stop true (w ++ [.modelRunnerExited]) := by
  have hw : w.Perm (stops stop) := by simpa [Inbox, exits] using h
  exact hw.append_right _

theorem shape_startModel {a : SlotAgent M} (h : Shape false false false a) (ha : a.modelID = none)
    (m : M) : ∃ a', a.startModel m m = .ok a' ∧ a'.modelID = some m ∧ Shape false false false a' := by
  cases h with
  | free => exact ⟨_, rfl, rfl, .starting m false⟩
  | starting => cases ha
  | live => cases ha
  | stopping => cases ha
  | released m' stop requested exited _ code w hr hw =>
    refine ⟨_, rfl, rfl, ?_⟩
    simpa [closes, stops] using Shape.restarted m' m false stop requested exited code w hr hw
  | restarted => cases ha

theorem shape_stopModel {a : SlotAgent M} {done : Bool} {m : M} (h : Shape false done false a)
    (ha : a.modelID = some m) :
    ∃ a', a.stopModel = .ok a' ∧ a'.modelID = some m ∧ Shape true done false a' := by
  cases h with
  | free => cases ha
  | starting m' => exact ⟨_, rfl, ha, .starting m' true⟩
  | live m' _ p w hw => exact ⟨_, rfl, ha, .live m' true p _ hw.append_stop⟩
  | stopping m' _ requested exited p w hr hp hw =>
    obtain rfl : requested = false := by cases requested <;> simp_all
    exact ⟨_, rfl, ha, .stopping m' true false exited p _ (by simp) hp hw.append_stop⟩
  | finished m' _ requested exited code w hr hw =>
    obtain rfl : requested = false := by cases requested <;> simp_all
    exact ⟨_, rfl, ha, .finished m' true false exited code _ (by simp) hw.append_stop⟩
  | released => cases ha
  | restarted m₀ m' _ stop requested exited code w hr hw =>
    refine ⟨_, rfl, ha, ?_⟩
    simpa [stops] using Shape.restarted m₀ m' true stop requested exited code w hr hw

theorem shape_releaseSlot {a : SlotAgent M} {asked : Bool} (h : Shape asked true false a) :
    ∃ a', a.releaseSlot = .ok a' ∧ a'.modelID = none ∧ Shape false false false a' := by
  cases h with
  | finished m _ requested exited code w hr hw =>
    exact ⟨_, rfl, rfl, .released m _ requested exited false code w (by simp_all) hw⟩

theorem shape_close {a : SlotAgent M} (h : Shape false false false a) (ha : a.modelID = none) :
    Shape false false true a.close := by
  cases h with
  | free => exact .free true
  | starting => cases ha
  | live => cases ha
  | stopping => cases ha
  | released m stop requested exited _ code w hr hw =>
    simpa [close, closes] using Shape.released m stop requested exited true code w hr hw
  | restarted => cases ha

/-- The commands left over from a finished model are harmless. -/
theorem handle_leftover {stop requested exited : Bool} {c : Command M} {w : List (Command M)}
    (q : List (Command M)) (id : Option M) (m : M) (code : ℤ) (hr : requested = true → stop = false)
    (hw : Inbox stop exited (c :: w)) :
    ∃ stop' requested' exited',
      handle ⟨id, q, some ⟨m, .reaped code, m, true, requested, some code⟩, .atQueue⟩ c =
        .ok ⟨id, q, some ⟨m, .reaped code, m, true, requested', some code⟩, .atQueue⟩ ∧
      (requested' = true → stop' = false) ∧ Inbox stop' exited' w := by
  rcases hw.head with ⟨rfl, rfl, hrest⟩ | ⟨rfl, -, hrest⟩
  · obtain rfl : requested = false := by simpa using hr
    exact ⟨false, true, exited, rfl, fun _ => rfl, hrest⟩
  · exact ⟨stop, requested, false, rfl, hr, hrest⟩

/-- A turn of the event loop never fails and keeps the protocol of the slot. -/
theorem shape_runEventLoop {a : SlotAgent M} {asked done closing : Bool}
    (h : Shape asked done closing a) {r : Except Failure (SlotAgent M)}
    (hr : a.runEventLoop = some r) :
    ∃ a', r = .ok a' ∧ a'.modelID = a.modelID ∧ Shape asked done closing a' := by
  cases h with
  | free closing =>
    cases closing with
    | false => cases hr
    | true => cases hr; exact ⟨_, rfl, rfl, .closed⟩
  | starting m asked =>
    cases hr
    exact ⟨_, rfl, rfl, .live m asked .running _ (by simp [Inbox, exits, Process.isReaped])⟩
  | live m asked p w hw =>
    cases w with
    | nil => cases hr
    | cons c w =>
      cases hr
      rcases hw.head with ⟨rfl, rfl, hrest⟩ | ⟨rfl, hp, hrest⟩
      · exact ⟨_, rfl, rfl, .stopping m true true _ p w (by simp) id hrest⟩
      · exact ⟨_, rfl, rfl, .stopping m asked false false p w (by simp) (by simp) (by simpa using hrest)⟩
  | stopping => cases hr
  | finished m asked requested exited code w hreq hw =>
    cases w with
    | nil => cases hr
    | cons c w =>
      cases hr
      rcases hw.head with ⟨rfl, hs, hrest⟩ | ⟨rfl, -, hrest⟩
      · obtain ⟨rfl, rfl⟩ : asked = true ∧ requested = false := by simpa using hs
        exact ⟨_, rfl, rfl, .finished m true true exited code w (by simp) hrest⟩
      · exact ⟨_, rfl, rfl, .finished m asked requested false code w hreq hrest⟩
  | released m stop requested exited closing code w hreq hw =>
    cases w with
    | nil => cases hr; exact ⟨_, rfl, rfl, .free closing⟩
    | cons c w =>
      cases hr
      obtain ⟨s, q, e, heq, hq, hw⟩ :=
        handle_leftover (w ++ .releaseSlot :: closes closing) none m code hreq hw
      exact ⟨_, heq, rfl, .released m s q e closing code w hq hw⟩
  | restarted m m' asked stop requested exited code w hreq hw =>
    cases w with
    | nil => cases hr; exact ⟨_, rfl, rfl, .starting m' asked⟩
    | cons c w =>
      cases hr
      obtain ⟨s, q, e, heq, hq, hw⟩ :=
        handle_leftover (w ++ .releaseSlot :: .startModel m' m' :: stops asked) (some m') m code
          hreq hw
      exact ⟨_, heq, rfl, .restarted m m' asked s q e code w hq hw⟩
  | closed => cases hr

/-- Joining the monitor thread makes exactly the callback of the slot's model. -/
theorem shape_stopGracefullyReturns {a a' : SlotAgent M} {asked done closing : Bool}
    (h : Shape asked done closing a) {out : Option (M × ℤ)}
    (hr : a.stopGracefullyReturns = some (a', out)) :
    done = false ∧ closing = false ∧ a'.modelID = a.modelID ∧ Shape asked true false a' ∧
      ∃ m code, a.modelID = some m ∧ out = some (m, code) := by
  cases h with
  | stopping m asked requested exited p w hreq hp hw =>
    cases p with
    | running => cases hr
    | exited => cases hr
    | reaped code =>
      cases hr
      exact ⟨rfl, rfl, rfl, .finished m asked requested exited code w hreq hw, m, code, rfl, rfl⟩
  | free => cases hr
  | starting => cases hr
  | live => cases hr
  | finished => cases hr
  | released => cases hr
  | restarted => cases hr
  | closed => cases hr

theorem shape_processExits {a a' : SlotAgent M} {asked done closing : Bool} {code : ℤ}
    (h : Shape asked done closing a) (hr : a.processExits code = some a') :
    a'.modelID = a.modelID ∧ a.modelID.isSome ∧ Shape asked done closing a' := by
  cases h with
  | live m asked p w hw =>
    cases p with
    | running => cases hr; exact ⟨rfl, rfl, .live m asked (.exited code) w hw⟩
    | exited => cases hr
    | reaped => cases hr
  | stopping m asked requested exited p w hreq hp hw =>
    cases p with
    | running =>
      cases hr
      exact ⟨rfl, rfl, .stopping m asked requested exited (.exited code) w hreq hp hw⟩
    | exited => cases hr
    | reaped => cases hr
  | free => cases hr
  | starting => cases hr
  | finished => cases hr
  | released => cases hr
  | restarted => cases hr
  | closed => cases hr

theorem shape_runProcessMonitorThread {a a' : SlotAgent M} {asked done closing : Bool}
    (h : Shape asked done closing a) (hr : a.runProcessMonitorThread = some a') :
    a'.modelID = a.modelID ∧ Shape asked done closing a' := by
  cases h with
  | live m asked p w hw =>
    cases p with
    | exited code => cases hr; exact ⟨rfl, .live m asked (.reaped code) _ hw.append_exited⟩
    | running => cases hr
    | reaped => cases hr
  | stopping m asked requested exited p w hreq hp hw =>
    cases p with
    | exited code =>
      cases hr
      obtain rfl := hp rfl
      exact ⟨rfl, .stopping m asked requested true (.reaped code) _ hreq (by simp [Process.isReaped])
        hw.append_exited⟩
    | running => cases hr
    | reaped => cases hr
  | free => cases hr
  | starting => cases hr
  | finished => cases hr
  | released => cases hr
  | restarted => cases hr
  | closed => cases hr

end SlotAgent

end NumentaApps.ModelSwapper
