import FastModManager.Application.InventoryService
import FastModManager.Infrastructure.Qt
import FastModManager.Ui.AsyncTask

/-! The inventory model of the user interface, its load tasks, and the event loop between them. -/

namespace FastModManager.Ui

open Domain Application Infrastructure

namespace InventoryModel

inductive Action where
  | reload
  | cancelReload
  | joined
  | deliver
  | progress (task : Nat) (percentage : Int) (message : Bytes)
  | worker (task : Nat) (move : WorkerMove InventoryResult)

variable (qt : QtText)

structure Progress where
  percentage : Int
  message : qt.QString

inductive Signal where
  | scanProgress (percentage : Int) (message : qt.QString)
  | scanCompleted
  | scanFailed (error : qt.QString)

/-- What the UI thread goes on with once the thread of a destroyed task is joined. -/
inductive Continuation where
  | return
  | startTask
  | emit (signal : Signal qt)

inductive UiThread where
  | idle
  | joining (task : Nat) (continuation : Continuation qt)

structure State where
  mods : List InstalledPackage
  /-- The tasks ever started; the id of a task is its place in the list. -/
  tasks : List (AsyncTask InventoryResult)
  loadTask : Option Nat
  queue : List (Invocation (Progress qt) InventoryResult)
  uiThread : UiThread qt

def literal (text : String) : qt.QString := qt.fromStdString text.toUTF8.toList

variable {qt}

def State.initial : State qt := ⟨[], [], none, [], .idle⟩

def State.stop (state : State qt) (task : Nat) : State qt :=
  { state with tasks := state.tasks.modify task AsyncTask.cancel }

def State.proceed (state : State qt) : Continuation qt → List (Signal qt) × State qt
  | .return => ([], { state with uiThread := .idle })
  | .startTask =>
    ([], { state with
      tasks := state.tasks ++ [AsyncTask.start]
      loadTask := some state.tasks.length
      uiThread := .idle })
  | .emit signal => ([signal], { state with uiThread := .idle })

/-- `m_load_task.reset()`: the pointer is cleared first, then the destructor of the task requests
a stop and joins its thread. -/
def State.resetLoadTask (state : State qt) (continuation : Continuation qt) :
    List (Signal qt) × State qt :=
  match state.loadTask with
  | none => state.proceed continuation
  | some task =>
    ([], { state.stop task with loadTask := none, uiThread := .joining task continuation })

def State.cancelReload (state : State qt) (continuation : Continuation qt) :
    List (Signal qt) × State qt :=
  match state.loadTask with
  | none => state.proceed continuation
  | some task => (state.stop task).resetLoadTask continuation

def errorMessage : InventoryError → String
  | .sourceUnavailable => "Source directory is unavailable."
  | .permissionDenied => "Permission denied while scanning."
  | .corruptMetadata => "Package metadata is corrupt."
  | .internal | .cancelled => "An internal error occurred."

def State.onSuccess (state : State qt) : InventoryResult → List (Signal qt) × State qt
  | .error error =>
    if error = .cancelled then state.resetLoadTask (.emit .scanCompleted)
    else state.resetLoadTask (.emit (.scanFailed (literal qt (errorMessage error))))
  | .ok packages => State.resetLoadTask { state with mods := packages } (.emit .scanCompleted)

def State.onError (state : State qt) (err : Bytes) : List (Signal qt) × State qt :=
  state.resetLoadTask (.emit (.scanFailed (qt.fromStdString err)))

def State.invoke (state : State qt) :
    Invocation (Progress qt) InventoryResult → List (Signal qt) × State qt
  | .report progress => ([.scanProgress progress.percentage progress.message], state)
  | .callback _ (.onSuccess result) => state.onSuccess result
  | .callback _ (.onError msg) => state.onError msg

/-- A step of the model. The UI thread takes calls and deliveries only while it is idle. -/
def step (state : State qt) : Action → Option (List (Signal qt) × State qt)
  | .reload =>
    match state.uiThread with
    | .idle => some (state.cancelReload .startTask)
    | .joining _ _ => none
  | .cancelReload =>
    match state.uiThread with
    | .idle => some (state.cancelReload .return)
    | .joining _ _ => none
  | .joined =>
    match state.uiThread with
    | .idle => none
    | .joining task continuation =>
      if (state.tasks[task]?).map (·.worker) = some .ended then some (state.proceed continuation)
      else none
  | .deliver =>
    match state.uiThread, state.queue with
    | .idle, invocation :: queue => some (State.invoke { state with queue } invocation)
    | _, _ => none
  | .progress id percentage message =>
    if (state.tasks[id]?).map (·.worker) = some .working then
      some ([], { state with
        queue := state.queue ++ [.report ⟨percentage, qt.fromStdString message⟩] })
    else none
  | .worker id move => do
    let task ← state.tasks[id]?
    let (posted, task) ← task.work id move
    return ([], { state with tasks := state.tasks.set id task, queue := state.queue ++ posted })

end InventoryModel

end FastModManager.Ui
