import FastModManager.Foundation.TransitionSystem
import FastModManager.Ui.InventoryModel

namespace FastModManager.Ui.InventoryModel

open Domain Application Infrastructure Foundation

variable {qt : QtText} {state next : State qt} {signals : List (Signal qt)}

def callbackTask {ρ α : Type} : Invocation ρ α → Option Nat
  | .report _ => none
  | .callback task _ => some task

def State.pending (state : State qt) : List Nat := state.queue.filterMap callbackTask

def CallsCancel : Action → Prop
  | .reload | .cancelReload => True
  | .joined | .deliver | .progress _ _ _ | .worker _ _ => False

instance : DecidablePred CallsCancel
  | .reload | .cancelReload => isTrue trivial
  | .joined | .deliver | .progress _ _ _ | .worker _ _ => isFalse id

/-- A call that cancels the load task finds its worker before the check of the stop token. -/
def CancelsInTime (state : State qt) (action : Action) : Prop :=
  CallsCancel action → ∀ id ∈ state.loadTask, ∀ task ∈ state.tasks[id]?, task.Unchecked

instance (state : State qt) (action : Action) : Decidable (CancelsInTime state action) :=
  inferInstanceAs (Decidable (_ → _))

/-- At most one callback is on its way, and it is the load task's; the load task is not stopped,
and its callback is on its way once its thread has ended. -/
structure Coherent (state : State qt) : Prop where
  pending : state.pending = [] ∨ ∃ id task, state.loadTask = some id ∧ state.pending = [id] ∧
    state.tasks[id]? = some task ∧ task.Ended
  mayPost : ∀ {id task}, state.tasks[id]? = some task → task.MayPost → state.loadTask = some id
  held : ∀ {id}, state.loadTask = some id → ∃ task, state.tasks[id]? = some task ∧
    task.stopRequested = false ∧ (task.Ended → state.pending = [id])
  joining : state.uiThread ≠ .idle → state.loadTask = none

theorem State.stop_stop (state : State qt) (id : Nat) :
    (state.stop id).stop id = state.stop id := by
  simp only [State.stop, List.modify_modify_eq]
  rfl

theorem State.resetLoadTask_none (state : State qt) (none : state.loadTask = none)
    (continuation : Continuation qt) :
    state.resetLoadTask continuation = state.proceed continuation := by
  rw [State.resetLoadTask, none]

theorem State.resetLoadTask_some (state : State qt) {id : Nat} (held : state.loadTask = some id)
    (continuation : Continuation qt) :
    state.resetLoadTask continuation =
      ([], { state.stop id with loadTask := none, uiThread := .joining id continuation }) := by
  rw [State.resetLoadTask, held]

theorem State.cancelReload_none (state : State qt) (none : state.loadTask = none)
    (continuation : Continuation qt) :
    state.cancelReload continuation = state.proceed continuation := by
  rw [State.cancelReload, none]

theorem State.cancelReload_some (state : State qt) {id : Nat} (held : state.loadTask = some id)
    (continuation : Continuation qt) :
    state.cancelReload continuation =
      ([], { state.stop id with loadTask := none, uiThread := .joining id continuation }) := by
  have stopped : (state.stop id).loadTask = some id := held
  simp only [State.cancelReload, held]
  rw [State.resetLoadTask_some _ stopped, State.stop_stop]

theorem State.tasks_stop {id : Nat} {task : AsyncTask InventoryResult}
    (found : state.tasks[id]? = some task) :
    (state.stop id).tasks[id]? = some task.cancel := by
  rw [State.stop, List.getElem?_modify_eq, found]
  rfl

theorem getElem?_set_of_found {tasks : List (AsyncTask InventoryResult)} {id : Nat}
    {task : AsyncTask InventoryResult} (found : tasks[id]? = some task)
    (task' : AsyncTask InventoryResult) : (tasks.set id task')[id]? = some task' :=
  List.getElem?_set_self (List.getElem?_eq_some_iff.mp found).choose

theorem State.cancelReload_eq (state : State qt) (continuation : Continuation qt) :
    state.cancelReload continuation = state.resetLoadTask continuation := by
  cases held : state.loadTask with
  | none => rw [state.cancelReload_none held, state.resetLoadTask_none held]
  | some id => rw [state.cancelReload_some held, state.resetLoadTask_some held]

def EndsScan : Signal qt → Prop
  | .scanProgress _ _ => False
  | .scanCompleted | .scanFailed _ => True

theorem State.invoke_callback (state : State qt) (id : Nat) (callback : Callback InventoryResult) :
    ∃ mods signal, EndsScan signal ∧ state.invoke (.callback id callback) =
      State.resetLoadTask { state with mods } (.emit signal) := by
  match callback with
  | .onError msg => exact ⟨state.mods, .scanFailed (qt.fromStdString msg), trivial, rfl⟩
  | .onSuccess (.ok packages) => exact ⟨packages, .scanCompleted, trivial, rfl⟩
  | .onSuccess (.error error) =>
    by_cases cancelled : error = .cancelled
    · refine ⟨state.mods, .scanCompleted, trivial, ?_⟩
      simp only [State.invoke, State.onSuccess, if_pos cancelled]
    · refine ⟨state.mods, .scanFailed (literal qt (errorMessage error)), trivial, ?_⟩
      simp only [State.invoke, State.onSuccess, if_neg cancelled]

section Inversion

theorem of_step_reload (taken : step state .reload = some (signals, next)) :
    state.uiThread = .idle ∧ state.cancelReload .startTask = (signals, next) := by
  cases idle : state.uiThread with
  | idle =>
    simp only [step, idle, Option.some.injEq] at taken
    exact ⟨rfl, taken⟩
  | joining task continuation => simp only [step, idle, reduceCtorEq] at taken

theorem of_step_cancelReload (taken : step state .cancelReload = some (signals, next)) :
    state.uiThread = .idle ∧ state.cancelReload .return = (signals, next) := by
  cases idle : state.uiThread with
  | idle =>
    simp only [step, idle, Option.some.injEq] at taken
    exact ⟨rfl, taken⟩
  | joining task continuation => simp only [step, idle, reduceCtorEq] at taken

theorem of_step_joined (taken : step state .joined = some (signals, next)) :
    ∃ id continuation, state.uiThread = .joining id continuation ∧
      (state.tasks[id]?).map (·.worker) = some .ended ∧
      state.proceed continuation = (signals, next) := by
  cases waiting : state.uiThread with
  | idle => simp only [step, waiting, reduceCtorEq] at taken
  | joining id continuation =>
    simp only [step, waiting, Option.ite_none_right_eq_some, Option.some.injEq] at taken
    exact ⟨id, continuation, rfl, taken⟩

theorem of_step_deliver (taken : step state .deliver = some (signals, next)) :
    ∃ invocation queue, state.uiThread = .idle ∧ state.queue = invocation :: queue ∧
      State.invoke { state with queue } invocation = (signals, next) := by
  simp only [step] at taken
  split at taken
  · rename_i invocation queue idle head
    exact ⟨invocation, queue, idle, head, Option.some.inj taken⟩
  · cases taken

theorem of_step_progress {id : Nat} {percentage : Int} {message : Bytes}
    (taken : step state (.progress id percentage message) = some (signals, next)) :
    ∃ task, state.tasks[id]? = some task ∧ task.worker = .working ∧ signals = [] ∧
      next = { state with
        queue := state.queue ++ [.report ⟨percentage, qt.fromStdString message⟩] } := by
  simp only [step, Option.ite_none_right_eq_some, Option.some.injEq, Prod.mk.injEq] at taken
  obtain ⟨working, rfl, rfl⟩ := taken
  obtain ⟨task, found, worker⟩ := Option.map_eq_some_iff.mp working
  exact ⟨task, found, worker, rfl, rfl⟩

theorem of_step_worker {id : Nat} {move : WorkerMove InventoryResult}
    (taken : step state (.worker id move) = some (signals, next)) :
    ∃ task posted task', state.tasks[id]? = some task ∧ task.work id move = some (posted, task') ∧
      signals = [] ∧
      next = { state with tasks := state.tasks.set id task', queue := state.queue ++ posted } := by
  simp only [step, Option.bind_eq_bind, Option.bind_eq_some_iff] at taken
  obtain ⟨task, found, ⟨posted, task'⟩, moved, same⟩ := taken
  cases same
  exact ⟨task, posted, task', found, moved, rfl, rfl⟩

end Inversion

namespace Coherent

theorem initial : Coherent (State.initial : State qt) :=
  ⟨.inl rfl, nofun, nofun, fun _ => rfl⟩

theorem pending_of_none (coherent : Coherent state) (none : state.loadTask = none) :
    state.pending = [] := by
  obtain empty | ⟨id, task, held, _⟩ := coherent.pending
  · exact empty
  · cases none.symm.trans held

theorem pending_eq_nil (coherent : Coherent state) {id : Nat} {task : AsyncTask InventoryResult}
    (held : state.loadTask = some id) (found : state.tasks[id]? = some task)
    (running : ¬ task.Ended) : state.pending = [] := by
  obtain empty | ⟨id', task', held', _, found', ended⟩ := coherent.pending
  · exact empty
  · cases held.symm.trans held'
    cases found.symm.trans found'
    exact absurd ended running

theorem proceed (coherent : Coherent state) (none : state.loadTask = none)
    (continuation : Continuation qt) : Coherent (state.proceed continuation).2 := by
  have empty := coherent.pending_of_none none
  have silent {id : Nat} {task : AsyncTask InventoryResult} (found : state.tasks[id]? = some task) :
      ¬ task.MayPost := by
    intro mayPost
    cases none.symm.trans (coherent.mayPost found mayPost)
  cases continuation with
  | «return» => exact ⟨coherent.pending, coherent.mayPost, coherent.held, nofun⟩
  | emit signal => exact ⟨coherent.pending, coherent.mayPost, coherent.held, nofun⟩
  | startTask =>
    refine ⟨.inl empty, ?_, ?_, nofun⟩
    · intro id task found mayPost
      simp only [State.proceed, List.getElem?_append] at found
      split at found
      · exact absurd mayPost (silent found)
      · have last : id = state.tasks.length := by
          obtain ⟨short, _⟩ := List.getElem?_eq_some_iff.mp found
          simp only [List.length_singleton] at short
          omega
        rw [last]
        rfl
    · rintro _ ⟨⟩
      exact ⟨AsyncTask.start, by simp [State.proceed], rfl, nofun⟩

theorem reset (coherent : Coherent state) {id : Nat} {task : AsyncTask InventoryResult}
    (held : state.loadTask = some id) (found : state.tasks[id]? = some task)
    (silent : ¬ task.cancel.MayPost) {queue : List (Invocation (Progress qt) InventoryResult)}
    (empty : queue.filterMap callbackTask = []) (mods : List InstalledPackage)
    (continuation : Continuation qt) :
    Coherent { state.stop id with
      mods, queue, loadTask := none, uiThread := .joining id continuation } := by
  refine ⟨.inl empty, ?_, nofun, fun _ => rfl⟩
  intro id' task' found' mayPost
  simp only [State.stop, List.getElem?_modify, Option.map_eq_map,
    Option.map_eq_some_iff] at found'
  obtain ⟨original, foundOriginal, rfl⟩ := found'
  by_cases same : id = id'
  · subst same
    cases found.symm.trans foundOriginal
    rw [if_pos rfl] at mayPost
    exact absurd mayPost silent
  · rw [if_neg same] at mayPost
    exact absurd (Option.some.inj (held.symm.trans (coherent.mayPost foundOriginal mayPost))) same

theorem cancelReload (coherent : Coherent state)
    (inTime : ∀ id ∈ state.loadTask, ∀ task ∈ state.tasks[id]?, task.Unchecked)
    (continuation : Continuation qt) : Coherent (state.cancelReload continuation).2 := by
  match held : state.loadTask with
  | none =>
    rw [State.cancelReload_none _ held]
    exact coherent.proceed held continuation
  | some id =>
    obtain ⟨task, found, _⟩ := coherent.held held
    have unchecked := inTime id held task found
    rw [State.cancelReload_some _ held]
    exact coherent.reset held found unchecked.not_mayPost_cancel
      (coherent.pending_eq_nil held found unchecked.not_ended) state.mods continuation

theorem invoke {id : Nat} {callback : Callback InventoryResult}
    {queue : List (Invocation (Progress qt) InventoryResult)} (coherent : Coherent state)
    (head : state.queue = .callback id callback :: queue) :
    Coherent (State.invoke { state with queue } (.callback id callback)).2 := by
  obtain ⟨task, held, rest, found, ended⟩ :
      ∃ task, state.loadTask = some id ∧ queue.filterMap callbackTask = [] ∧
        state.tasks[id]? = some task ∧ task.Ended := by
    have queued : state.pending = id :: queue.filterMap callbackTask := by
      rw [State.pending, head]
      rfl
    obtain empty | ⟨id', task, held, single, found, ended⟩ := coherent.pending
    · cases queued.symm.trans empty
    · obtain ⟨rfl, rest⟩ := List.cons.inj (queued.symm.trans single)
      exact ⟨task, held, rest, found, ended⟩
  have silent : ¬ task.cancel.MayPost := AsyncTask.not_mayPost_of_ended ended
  obtain ⟨mods, signal, _, same⟩ := State.invoke_callback { state with queue } id callback
  rw [same, State.resetLoadTask_some { state with mods, queue } held]
  exact coherent.reset held found silent rest mods (.emit signal)

section Worker

variable {id : Nat} {task task' : AsyncTask InventoryResult} (coherent : Coherent state)
  (found : state.tasks[id]? = some task) (running : ¬ task.Ended)
  (stops : task'.stopRequested = task.stopRequested)

include coherent found running stops

theorem posted (held : state.loadTask = some id) (ended : task'.Ended)
    (callback : Callback InventoryResult) :
    Coherent { state with
      tasks := state.tasks.set id task'
      queue := state.queue ++ [.callback id callback] } := by
  have here := getElem?_set_of_found found task'
  have queued : (state.queue ++ [Invocation.callback id callback]).filterMap callbackTask = [id] := by
    rw [List.filterMap_append, ← State.pending, coherent.pending_eq_nil held found running]
    rfl
  refine ⟨.inr ⟨id, task', held, queued, here, ended⟩, ?_, ?_, coherent.joining⟩
  · intro id' other foundOther mayPost
    by_cases same : id = id'
    · exact same ▸ held
    · exact coherent.mayPost ((List.getElem?_set_ne same).symm.trans foundOther) mayPost
  · intro id' held'
    cases held.symm.trans held'
    obtain ⟨original, foundOriginal, unstopped, _⟩ := coherent.held held
    cases found.symm.trans foundOriginal
    exact ⟨task', here, stops.trans unstopped, fun _ => queued⟩

theorem moved (alike : task'.MayPost → task.MayPost)
    (ends : task'.Ended → task.stopRequested = true) :
    Coherent { state with tasks := state.tasks.set id task' } := by
  have here := getElem?_set_of_found found task'
  have elsewhere {id' : Nat} (differs : id ≠ id') :
      (state.tasks.set id task')[id']? = state.tasks[id']? := List.getElem?_set_ne differs
  refine ⟨?_, ?_, ?_, coherent.joining⟩
  · obtain empty | ⟨id', other, held, single, foundOther, ended⟩ := coherent.pending
    · exact .inl empty
    · have differs : id ≠ id' := by
        rintro rfl
        cases found.symm.trans foundOther
        exact running ended
      exact .inr ⟨id', other, held, single, (elsewhere differs).trans foundOther, ended⟩
  · intro id' other foundOther mayPost
    by_cases same : id = id'
    · subst same
      cases here.symm.trans foundOther
      exact coherent.mayPost found (alike mayPost)
    · exact coherent.mayPost ((elsewhere same).symm.trans foundOther) mayPost
  · intro id' held
    obtain ⟨original, foundOriginal, unstopped, queuedOnceEnded⟩ := coherent.held held
    by_cases same : id = id'
    · subst same
      cases found.symm.trans foundOriginal
      refine ⟨task', here, stops.trans unstopped, fun ended => ?_⟩
      cases unstopped.symm.trans (ends ended)
    · exact ⟨original, (elsewhere same).trans foundOriginal, unstopped, queuedOnceEnded⟩

end Worker

theorem worker (coherent : Coherent state) {id : Nat} {task task' : AsyncTask InventoryResult}
    {move : WorkerMove InventoryResult} {queued : List (Invocation (Progress qt) InventoryResult)}
    (found : state.tasks[id]? = some task) (moves : task.work id move = some (queued, task')) :
    Coherent { state with tasks := state.tasks.set id task', queue := state.queue ++ queued } := by
  obtain ⟨stops, running, ⟨callback, passed, ended, rfl⟩ | ⟨rfl, alike, ends⟩⟩ :=
    AsyncTask.work_cases moves
  · have held : state.loadTask = some id :=
      coherent.mayPost found (by simp [AsyncTask.MayPost, passed])
    exact coherent.posted found running stops held ended callback
  · rw [List.append_nil]
    exact coherent.moved found running stops alike.mp ends

theorem of_same_pending (coherent : Coherent state)
    {queue : List (Invocation (Progress qt) InventoryResult)}
    (same : queue.filterMap callbackTask = state.pending) : Coherent { state with queue } where
  pending := by
    rw [State.pending, same]
    exact coherent.pending
  mayPost := coherent.mayPost
  held held := by
    obtain ⟨task, found, unstopped, queued⟩ := coherent.held held
    exact ⟨task, found, unstopped, fun ended => same.trans (queued ended)⟩
  joining := coherent.joining

theorem of_step (coherent : Coherent state) {action : Action} (inTime : CancelsInTime state action)
    (taken : step state action = some (signals, next)) : Coherent next := by
  cases action with
  | reload =>
    obtain ⟨_, moved⟩ := of_step_reload taken
    rw [← show _ = next from congrArg Prod.snd moved]
    exact coherent.cancelReload (inTime trivial) _
  | cancelReload =>
    obtain ⟨_, moved⟩ := of_step_cancelReload taken
    rw [← show _ = next from congrArg Prod.snd moved]
    exact coherent.cancelReload (inTime trivial) _
  | joined =>
    obtain ⟨_, _, waiting, _, moved⟩ := of_step_joined taken
    rw [← show _ = next from congrArg Prod.snd moved]
    exact coherent.proceed (coherent.joining (by simp [waiting])) _
  | deliver =>
    obtain ⟨invocation, queue, _, head, moved⟩ := of_step_deliver taken
    rw [← show _ = next from congrArg Prod.snd moved]
    cases invocation with
    | report progress => exact coherent.of_same_pending (by rw [State.pending, head]; rfl)
    | callback id callback => exact coherent.invoke head
  | progress id percentage message =>
    obtain ⟨_, _, _, _, rfl⟩ := of_step_progress taken
    exact coherent.of_same_pending (by simp [State.pending, callbackTask])
  | worker id move =>
    obtain ⟨_, _, _, found, moved, _, rfl⟩ := of_step_worker taken
    exact coherent.worker found moved

end Coherent

end FastModManager.Ui.InventoryModel
