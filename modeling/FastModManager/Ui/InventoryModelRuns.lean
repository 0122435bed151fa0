import FastModManager.Ui.InventoryModelLaws

namespace FastModManager.Ui.InventoryModel

open Domain Application Infrastructure Foundation TransitionSystem

variable {qt : QtText}

def Stopped (state : State qt) (id : Nat) : Prop :=
  ∃ task, state.tasks[id]? = some task ∧ task.stopRequested = true

/-- A delivery leaves the packages and the load task alone, stops no task, and ends no scan. -/
structure Harmless (before : State qt) (signals : List (Signal qt)) (after : State qt) : Prop where
  mods : after.mods = before.mods
  loadTask : after.loadTask = before.loadTask
  stops : after.tasks.map (·.stopRequested) = before.tasks.map (·.stopRequested)
  silent : ∀ signal ∈ signals, ¬ EndsScan signal

def DeliversHarmlessly (state : State qt) : Prop :=
  ∀ id callback queue signals next, state.queue = .callback id callback :: queue →
    Stopped state id → step state .deliver = some (signals, next) → Harmless state signals next

section Safety

variable {state : State qt} {outputs : List (List (Signal qt))}

theorem coherent_of_run (run : Run step CancelsInTime State.initial outputs state) :
    Coherent state :=
  run.invariant Coherent .initial fun _ _ _ _ coherent inTime taken => coherent.of_step inTime taken

theorem Coherent.not_stopped (coherent : Coherent state) {id : Nat}
    {callback : Callback InventoryResult} {queue : List (Invocation (Progress qt) InventoryResult)}
    (head : state.queue = .callback id callback :: queue) : ¬ Stopped state id := by
  rintro ⟨task, found, stopped⟩
  have queued : state.pending = id :: queue.filterMap callbackTask := by
    rw [State.pending, head]
    rfl
  obtain empty | ⟨id', _, held, single, _⟩ := coherent.pending
  · cases queued.symm.trans empty
  · obtain ⟨rfl, _⟩ := List.cons.inj (queued.symm.trans single)
    obtain ⟨_, found', unstopped, _⟩ := coherent.held held
    cases found.symm.trans found'
    cases stopped.symm.trans unstopped

/-- If every cancellation finds the worker before its check of the stop token, no callback of a
cancelled or replaced task does anything, whatever the interleaving. -/
theorem delivers_harmlessly (run : Run step CancelsInTime State.initial outputs state) :
    DeliversHarmlessly state :=
  fun _ _ _ _ _ head stopped _ => absurd stopped ((coherent_of_run run).not_stopped head)

theorem delivers_harmlessly_of_replaced :
    ∃ outputs state, Run step CancelsInTime (State.initial : State utf8Text) outputs state ∧
      state.pending = [1] ∧ DeliversHarmlessly state := by
  obtain ⟨⟨outputs, state⟩, played⟩ : ∃ result,
      play step CancelsInTime (State.initial : State utf8Text)
        [.reload, .worker 0 (.finish (.returned (.ok []))), .reload, .worker 0 .check, .joined,
          .worker 1 (.finish (.returned (.error .internal))), .worker 1 .check, .worker 1 .post] =
        some result := ⟨_, rfl⟩
  have run := run_of_play played
  cases played
  exact ⟨_, _, run, rfl, delivers_harmlessly run⟩

/-- A load task replaced after its callback was queued: the callback destroys the successor. -/
theorem not_delivers_harmlessly_of_queued :
    ¬ ∀ outputs state, Run step (fun _ _ => True) (State.initial : State utf8Text) outputs state →
      DeliversHarmlessly state := by
  intro harmless
  obtain ⟨⟨outputs, state⟩, played⟩ : ∃ result,
      play step (fun _ _ => True) (State.initial : State utf8Text)
        [.reload, .worker 0 (.finish (.returned (.ok []))), .worker 0 .check, .worker 0 .post,
          .reload, .joined] = some result := ⟨_, rfl⟩
  have run := run_of_play played
  cases played
  cases (harmless _ _ run _ _ _ _ _ rfl ⟨_, rfl, rfl⟩ rfl).loadTask

end Safety

section Exactness

def Uncalled (_ : State qt) (action : Action) : Prop := ¬ CallsCancel action

theorem Uncalled.cancelsInTime {state : State qt} {action : Action}
    (uncalled : Uncalled state action) : CancelsInTime state action :=
  fun calls => absurd calls uncalled

variable {state : State qt}

theorem not_harmless_of_callback {id : Nat} {callback : Callback InventoryResult}
    {queue : List (Invocation (Progress qt) InventoryResult)} (idle : state.uiThread = .idle)
    (head : state.queue = .callback id callback :: queue) (stopped : Stopped state id) :
    ¬ DeliversHarmlessly state := by
  intro harmless
  have taken : step state .deliver =
      some (State.invoke { state with queue } (.callback id callback)) := by
    simp only [step, idle, head]
  obtain ⟨mods, signal, ends, same⟩ := State.invoke_callback { state with queue } id callback
  rw [same] at taken
  cases held : state.loadTask with
  | none =>
    rw [State.resetLoadTask_none { state with mods, queue } held] at taken
    exact (harmless _ _ _ _ _ head stopped taken).silent signal List.mem_cons_self ends
  | some other =>
    rw [State.resetLoadTask_some { state with mods, queue } held] at taken
    cases held.symm.trans (harmless _ _ _ _ _ head stopped taken).loadTask.symm

/-- The event loop and the workers alone bring a callback of a stopped task to do harm. -/
def ReachesHarm (state : State qt) : Prop := Reaches step Uncalled (¬ DeliversHarmlessly ·) state

theorem reaches_callback {id : Nat} {queue : List (Invocation (Progress qt) InventoryResult)} :
    ∀ state : State qt, state.queue = queue → state.uiThread = .idle → state.pending = [id] →
      Stopped state id → ReachesHarm state := by
  induction queue with
  | nil =>
    intro state same _ queued _
    simp [State.pending, same] at queued
  | cons invocation queue ih =>
    intro state same idle queued stopped
    cases invocation with
    | report progress =>
      have taken : step state .deliver = some
          ([.scanProgress progress.percentage progress.message], { state with queue }) := by
        simp only [step, idle, same, State.invoke]
      have still : State.pending { state with queue } = [id] := by
        rw [← queued, State.pending, State.pending, same]
        rfl
      have uncalled : Uncalled state .deliver := not_false
      exact .of_step taken uncalled (ih { state with queue } rfl idle still stopped)
    | callback other callback =>
      have first : other = id := by
        rw [State.pending, same] at queued
        exact (List.cons.inj queued).1
      rw [← first] at stopped
      exact .here (not_harmless_of_callback idle same stopped)

theorem Stopped.proceed {id : Nat} (stopped : Stopped state id) (continuation : Continuation qt) :
    Stopped (state.proceed continuation).2 id := by
  obtain ⟨task, found, stop⟩ := stopped
  refine ⟨task, ?_, stop⟩
  cases continuation with
  | «return» => exact found
  | emit signal => exact found
  | startTask =>
    simp only [State.proceed]
    rw [List.getElem?_append_left (List.getElem?_eq_some_iff.mp found).choose, found]

theorem State.queue_proceed (state : State qt) (continuation : Continuation qt) :
    (state.proceed continuation).2.queue = state.queue := by
  cases continuation <;> rfl

theorem State.uiThread_proceed (state : State qt) (continuation : Continuation qt) :
    (state.proceed continuation).2.uiThread = .idle := by
  cases continuation <;> rfl

theorem reaches_callback_of_ended (state : State qt) {id : Nat} {continuation : Continuation qt}
    {task : AsyncTask InventoryResult} (joining : state.uiThread = .joining id continuation)
    (found : state.tasks[id]? = some task) (ended : task.Ended)
    (stopped : task.stopRequested = true) (queued : state.pending = [id]) :
    ReachesHarm state := by
  have taken : step state .joined = some (state.proceed continuation) := by
    have worker : task.worker = .ended := ended
    simp only [step, joining, found, Option.map_some, worker, if_true]
  have still : (state.proceed continuation).2.pending = [id] := by
    rw [State.pending, state.queue_proceed, ← queued, State.pending]
  have uncalled : Uncalled state .joined := not_false
  exact .of_step taken uncalled (reaches_callback _ rfl (state.uiThread_proceed continuation) still
    (Stopped.proceed ⟨task, found, stopped⟩ continuation))

def State.post (state : State qt) (id : Nat) (task : AsyncTask InventoryResult)
    (callback : Callback InventoryResult) : State qt :=
  { state with
    tasks := state.tasks.set id { task with worker := .ended }
    queue := state.queue ++ [.callback id callback] }

theorem reaches_callback_of_passed (state : State qt) {id : Nat} {continuation : Continuation qt}
    {task : AsyncTask InventoryResult} {callback : Callback InventoryResult}
    (joining : state.uiThread = .joining id continuation) (found : state.tasks[id]? = some task)
    (passed : task.worker = .passed callback) (stopped : task.stopRequested = true)
    (empty : state.pending = []) : ReachesHarm state := by
  have taken : step state (.worker id .post) = some ([], state.post id task callback) := by
    simp only [step, found, Option.bind_eq_bind, Option.bind_some, task.work_post passed]
    rfl
  have here : (state.post id task callback).tasks[id]? = some { task with worker := .ended } :=
    getElem?_set_of_found found _
  have queued : (state.post id task callback).pending = [id] := by
    rw [State.pending, State.post, List.filterMap_append, ← State.pending, empty]
    rfl
  have uncalled : Uncalled state (.worker id .post) := not_false
  exact .of_step taken uncalled
    (reaches_callback_of_ended (state.post id task callback) joining here rfl stopped queued)

theorem Coherent.reaches_callback_of_late (coherent : Coherent state) {id : Nat}
    {task : AsyncTask InventoryResult} (held : state.loadTask = some id)
    (found : state.tasks[id]? = some task) (late : ¬ task.Unchecked)
    (continuation : Continuation qt) : ReachesHarm (state.cancelReload continuation).2 := by
  rw [State.cancelReload_some _ held]
  have cancelled := State.tasks_stop found
  cases moment : task.worker with
  | working => exact absurd (by simp [AsyncTask.Unchecked, moment]) late
  | finished outcome => exact absurd (by simp [AsyncTask.Unchecked, moment]) late
  | ended =>
    obtain ⟨_, found', _, queued⟩ := coherent.held held
    cases found.symm.trans found'
    exact reaches_callback_of_ended _ rfl cancelled moment rfl (queued moment)
  | passed callback =>
    have empty : state.pending = [] :=
      coherent.pending_eq_nil held found (by simp [AsyncTask.Ended, moment])
    exact reaches_callback_of_passed _ rfl cancelled moment rfl empty

/-- After a run whose cancellations were all in time, a further step is in time exactly if every
callback delivered afterwards, before the next call, is harmless where its task is stopped. -/
theorem cancelsInTime_iff {outputs : List (List (Signal qt))} {action : Action}
    {signals : List (Signal qt)} {next : State qt}
    (run : Run step CancelsInTime State.initial outputs state)
    (taken : step state action = some (signals, next)) :
    CancelsInTime state action ↔
      ∀ outputs' later, Run step Uncalled next outputs' later → DeliversHarmlessly later := by
  constructor
  · intro inTime outputs' later further
    exact delivers_harmlessly ((run.snoc inTime taken).trans
      (further.mono fun _ _ uncalled => uncalled.cancelsInTime))
  · intro harmless calls id held task found
    by_contra late
    have harmful {continuation : Continuation qt}
        (same : state.cancelReload continuation = (signals, next)) : False := by
      have reached := (coherent_of_run run).reaches_callback_of_late held found late continuation
      rw [same] at reached
      exact not_reaches_iff.mpr (fun outputs' later further => not_not.mpr
        (harmless outputs' later further)) reached
    cases action with
    | reload => exact harmful (of_step_reload taken).2
    | cancelReload => exact harmful (of_step_cancelReload taken).2
    | _ => exact calls

end Exactness

end FastModManager.Ui.InventoryModel
