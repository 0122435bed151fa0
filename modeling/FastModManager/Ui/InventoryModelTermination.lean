import FastModManager.Ui.InventoryModelRuns
import Mathlib.Algebra.GroupWithZero.Nat

namespace FastModManager.Ui

open Domain Application Infrastructure Foundation TransitionSystem

section Weights

variable {α : Type} {values : List Nat} {index value : Nat}

theorem sum_set_add (found : values[index]? = some value) (value' : Nat) :
    (values.set index value').sum + value = values.sum + value' := by
  induction values generalizing index with
  | nil => cases found
  | cons first rest ih =>
    cases index with
    | zero =>
      cases found
      simp only [List.set_cons_zero, List.sum_cons]
      omega
    | succ index =>
      have later := ih found
      simp only [List.set_cons_succ, List.sum_cons]
      omega

def AsyncTask.remaining (task : AsyncTask α) : Nat :=
  match task.worker with
  | .working => 5
  | .finished _ => 4
  | .passed _ => 3
  | .ended => 0

@[simp] theorem AsyncTask.remaining_cancel (task : AsyncTask α) :
    task.cancel.remaining = task.remaining := rfl

end Weights

namespace InventoryModel

variable {qt : QtText} {state next : State qt} {signals : List (Signal qt)} {action : Action}

def carriesReport (invocation : Invocation (Progress qt) InventoryResult) : Bool :=
  (callbackTask invocation).isNone

section Queue

variable {queue : List (Invocation (Progress qt) InventoryResult)}

@[simp] theorem filterMap_report (progress : Progress qt) :
    (.report progress :: queue).filterMap callbackTask = queue.filterMap callbackTask := rfl

@[simp] theorem filterMap_callback (id : Nat) (callback : Callback InventoryResult) :
    (.callback id callback :: queue).filterMap callbackTask = id :: queue.filterMap callbackTask :=
  rfl

@[simp] theorem carriesReport_report (progress : Progress qt) :
    carriesReport (.report progress) = true := rfl

@[simp] theorem carriesReport_callback (id : Nat) (callback : Callback InventoryResult) :
    carriesReport (.callback id callback : Invocation (Progress qt) _) = false := rfl

end Queue

def isProgress : Signal qt → Bool
  | .scanProgress _ _ => true
  | .scanCompleted | .scanFailed _ => false

def State.reports (state : State qt) : Nat := state.queue.countP carriesReport

def shown (signals : List (Signal qt)) : Nat := signals.countP isProgress

def Continuation.outstanding : Continuation qt → Nat
  | .startTask => 5
  | .return | .emit _ => 0

def UiThread.outstanding : UiThread qt → Nat
  | .idle => 0
  | .joining _ continuation => continuation.outstanding + 1

/-- How many steps are left, if nobody calls and no worker reports. -/
def State.outstanding (state : State qt) : Nat :=
  (state.tasks.map AsyncTask.remaining).sum + state.queue.length + state.pending.length +
    state.uiThread.outstanding

section Steps

theorem outstanding_proceed (idle : state.uiThread = .idle) (continuation : Continuation qt) :
    (state.proceed continuation).2.outstanding = state.outstanding + continuation.outstanding := by
  cases continuation with
  | startTask =>
    simp only [State.proceed, State.outstanding, State.pending, idle, List.map_append, List.map_cons,
      List.map_nil, List.sum_append, List.sum_cons, List.sum_nil, AsyncTask.remaining,
      AsyncTask.start, Continuation.outstanding, UiThread.outstanding]
    omega
  | _ => simp [State.proceed, State.outstanding, State.pending, idle, Continuation.outstanding]

theorem reports_proceed (state : State qt) (continuation : Continuation qt) :
    (state.proceed continuation).2.reports = state.reports := by
  rw [State.reports, state.queue_proceed, State.reports]

theorem map_remaining_stop (tasks : List (AsyncTask InventoryResult)) (id : Nat) :
    (tasks.modify id AsyncTask.cancel).map AsyncTask.remaining = tasks.map AsyncTask.remaining := by
  refine List.ext_getElem? fun index => ?_
  rw [List.getElem?_map, List.getElem?_map, List.getElem?_modify]
  cases tasks[index]? with
  | none => rfl
  | some task => by_cases same : id = index <;> simp [same]

theorem outstanding_resetLoadTask_le (idle : state.uiThread = .idle)
    (continuation : Continuation qt) :
    (state.resetLoadTask continuation).2.outstanding ≤
      state.outstanding + continuation.outstanding + 1 := by
  cases held : state.loadTask with
  | none =>
    rw [state.resetLoadTask_none held, outstanding_proceed idle]
    exact Nat.le_succ _
  | some id =>
    rw [state.resetLoadTask_some held]
    simp only [State.outstanding, State.pending, State.stop, map_remaining_stop, idle,
      UiThread.outstanding]
    omega

theorem reports_resetLoadTask (state : State qt) (continuation : Continuation qt) :
    (state.resetLoadTask continuation).2.reports = state.reports := by
  cases held : state.loadTask with
  | none => rw [state.resetLoadTask_none held, reports_proceed]
  | some id =>
    rw [state.resetLoadTask_some held]
    rfl

theorem remaining_work {task task' : AsyncTask InventoryResult} {id : Nat}
    {move : WorkerMove InventoryResult} {posted : List (Invocation (Progress qt) InventoryResult)}
    (moved : task.work id move = some (posted, task')) :
    task'.remaining + posted.length + (posted.filterMap callbackTask).length < task.remaining ∧
      posted.countP carriesReport = 0 := by
  cases move with
  | finish outcome =>
    cases same : task.worker <;> simp [AsyncTask.work, same] at moved
    obtain ⟨rfl, rfl⟩ := moved
    simp [AsyncTask.remaining, same]
  | check =>
    cases same : task.worker <;> simp [AsyncTask.work, same] at moved
    split at moved <;> (obtain ⟨rfl, rfl⟩ := Prod.mk.inj (Option.some.inj moved))
    all_goals simp [AsyncTask.remaining, same]
  | post =>
    cases same : task.worker <;> simp [AsyncTask.work, same] at moved
    obtain ⟨rfl, rfl⟩ := moved
    simp [AsyncTask.remaining, same]

theorem outstanding_set {id : Nat} {task task' : AsyncTask InventoryResult}
    (found : state.tasks[id]? = some task)
    (posted : List (Invocation (Progress qt) InventoryResult)) :
    State.outstanding { state with
        tasks := state.tasks.set id task', queue := state.queue ++ posted } + task.remaining =
      state.outstanding + task'.remaining + posted.length +
        (posted.filterMap callbackTask).length := by
  have weight : (state.tasks.map AsyncTask.remaining)[id]? = some task.remaining := by
    rw [List.getElem?_map, found, Option.map_some]
  have changed := sum_set_add weight task'.remaining
  simp only [State.outstanding, State.pending, List.map_set, List.length_append,
    List.filterMap_append]
  omega

def Reports : Action → Prop
  | .progress _ _ _ => True
  | .reload | .cancelReload | .joined | .deliver | .worker _ _ => False

theorem outstanding_of_step (uncalled : Uncalled state action)
    (taken : step state action = some (signals, next)) :
    (¬ Reports action ∧ next.outstanding < state.outstanding ∧
        state.reports ≤ next.reports + shown signals) ∨
      (Reports action ∧ next.outstanding = state.outstanding + 1 ∧
        next.reports = state.reports + 1) := by
  cases action with
  | reload => exact absurd trivial uncalled
  | cancelReload => exact absurd trivial uncalled
  | joined =>
    obtain ⟨id, continuation, waiting, _, moved⟩ := of_step_joined taken
    rw [← show _ = next from congrArg Prod.snd moved]
    refine .inl ⟨not_false, ?_, ?_⟩
    · have joined := @outstanding_proceed _ { state with uiThread := .idle } rfl continuation
      have same : (State.proceed { state with uiThread := .idle } continuation).2 =
          (state.proceed continuation).2 := by cases continuation <;> rfl
      rw [← same, joined]
      simp only [State.outstanding, State.pending, waiting, UiThread.outstanding]
      omega
    · rw [reports_proceed]
      exact Nat.le_add_right _ _
  | deliver =>
    obtain ⟨invocation, queue, idle, head, moved⟩ := of_step_deliver taken
    rw [← show _ = signals from congrArg Prod.fst moved,
      ← show _ = next from congrArg Prod.snd moved]
    refine .inl ⟨not_false, ?_⟩
    cases invocation with
    | report progress =>
      constructor
      · simp only [State.invoke, State.outstanding, State.pending, head, filterMap_report,
          List.length_cons]
        omega
      · simp [State.invoke, State.reports, head, List.countP_cons, shown, isProgress]
    | callback id callback =>
      obtain ⟨mods, signal, _, same⟩ := State.invoke_callback { state with queue } id callback
      rw [same]
      constructor
      · refine Nat.lt_of_le_of_lt
          (@outstanding_resetLoadTask_le _ { state with mods, queue } idle (.emit signal)) ?_
        simp only [State.outstanding, State.pending, head, filterMap_callback, List.length_cons,
          Continuation.outstanding]
        omega
      · rw [reports_resetLoadTask]
        simp [State.reports, head]
  | progress id percentage message =>
    obtain ⟨_, _, _, _, rfl⟩ := of_step_progress taken
    refine .inr ⟨trivial, ?_, ?_⟩
    · simp only [State.outstanding, State.pending, List.filterMap_append, List.length_append,
        List.length_singleton, filterMap_report, List.filterMap_nil, List.append_nil]
      omega
    · simp [State.reports]
  | worker id move =>
    obtain ⟨task, posted, task', found, moved, rfl, rfl⟩ := of_step_worker taken
    obtain ⟨less, silent⟩ := remaining_work moved
    have changed := @outstanding_set _ state _ _ task' found posted
    refine .inl ⟨not_false, by omega, ?_⟩
    simp only [State.reports, List.countP_append, silent]
    omega

end Steps

section Live

structure Live (state : State qt) : Prop where
  held : ∀ {id}, state.loadTask = some id → ∃ task, state.tasks[id]? = some task ∧
    task.stopRequested = false ∧ (task.Ended → id ∈ state.pending)
  joining : ∀ {id continuation}, state.uiThread = .joining id continuation →
    state.loadTask = none ∧ ∃ task, state.tasks[id]? = some task

namespace Live

theorem initial : Live (State.initial : State qt) := ⟨nofun, nofun⟩

theorem proceed (none : state.loadTask = none) (continuation : Continuation qt) :
    Live (state.proceed continuation).2 := by
  refine ⟨?_, ?_⟩
  · cases continuation with
    | startTask =>
      rintro _ ⟨⟩
      exact ⟨AsyncTask.start, List.getElem?_concat_length, rfl, nofun⟩
    | _ =>
      intro id held
      cases none.symm.trans held
  · intro id continuation' waiting
    cases (state.uiThread_proceed continuation).symm.trans waiting

theorem reset (present : ∀ id, state.loadTask = some id → ∃ task, state.tasks[id]? = some task)
    (continuation : Continuation qt) : Live (state.resetLoadTask continuation).2 := by
  cases held : state.loadTask with
  | none =>
    rw [state.resetLoadTask_none held]
    exact proceed held continuation
  | some id =>
    obtain ⟨task, found⟩ := present id held
    rw [state.resetLoadTask_some held]
    refine ⟨nofun, ?_⟩
    rintro _ _ ⟨⟩
    exact ⟨rfl, task.cancel, State.tasks_stop found⟩

theorem present (live : Live state) {id : Nat} (held : state.loadTask = some id) :
    ∃ task, state.tasks[id]? = some task :=
  let ⟨task, found, _⟩ := live.held held
  ⟨task, found⟩

theorem of_pending (live : Live state) {queue : List (Invocation (Progress qt) InventoryResult)}
    (kept : ∀ id ∈ state.pending, id ∈ queue.filterMap callbackTask) :
    Live { state with queue } where
  held held := by
    obtain ⟨task, found, unstopped, queued⟩ := live.held held
    exact ⟨task, found, unstopped, fun ended => kept _ (queued ended)⟩
  joining := live.joining

theorem worker (live : Live state) {id : Nat} {task task' : AsyncTask InventoryResult}
    {move : WorkerMove InventoryResult} {posted : List (Invocation (Progress qt) InventoryResult)}
    (found : state.tasks[id]? = some task) (moved : task.work id move = some (posted, task')) :
    Live { state with tasks := state.tasks.set id task', queue := state.queue ++ posted } := by
  obtain ⟨stops, _, cases⟩ := AsyncTask.work_cases moved
  have here := getElem?_set_of_found found task'
  refine ⟨?_, ?_⟩
  · intro held isHeld
    obtain ⟨original, foundHeld, unstopped, queued⟩ := live.held isHeld
    by_cases same : id = held
    · subst same
      cases found.symm.trans foundHeld
      refine ⟨task', here, stops.trans unstopped, fun ended => ?_⟩
      obtain ⟨callback, _, _, rfl⟩ | ⟨_, _, ends⟩ := cases
      · simp [State.pending, callbackTask]
      · cases unstopped.symm.trans (ends ended)
    · refine ⟨original, (List.getElem?_set_ne same).trans foundHeld, unstopped, fun ended => ?_⟩
      rw [State.pending, List.filterMap_append]
      exact List.mem_append_left _ (queued ended)
  · intro joined continuation waiting
    obtain ⟨none, original, foundJoined⟩ := live.joining waiting
    by_cases same : id = joined
    · exact ⟨none, task', same ▸ here⟩
    · exact ⟨none, original, (List.getElem?_set_ne same).trans foundJoined⟩

theorem of_step (live : Live state) (taken : step state action = some (signals, next)) :
    Live next := by
  cases action with
  | reload =>
    obtain ⟨_, moved⟩ := of_step_reload taken
    rw [← show _ = next from congrArg Prod.snd moved, State.cancelReload_eq]
    exact reset (fun _ => live.present) _
  | cancelReload =>
    obtain ⟨_, moved⟩ := of_step_cancelReload taken
    rw [← show _ = next from congrArg Prod.snd moved, State.cancelReload_eq]
    exact reset (fun _ => live.present) _
  | joined =>
    obtain ⟨_, continuation, waiting, _, moved⟩ := of_step_joined taken
    rw [← show _ = next from congrArg Prod.snd moved]
    exact proceed (live.joining waiting).1 continuation
  | deliver =>
    obtain ⟨invocation, queue, idle, head, moved⟩ := of_step_deliver taken
    rw [← show _ = next from congrArg Prod.snd moved]
    cases invocation with
    | report progress =>
      refine live.of_pending fun id queued => ?_
      rwa [State.pending, head] at queued
    | callback id callback =>
      obtain ⟨mods, signal, _, same⟩ := State.invoke_callback { state with queue } id callback
      rw [same]
      exact @reset _ { state with mods, queue } (fun _ => live.present) (.emit signal)
  | progress id percentage message =>
    obtain ⟨_, _, _, _, rfl⟩ := of_step_progress taken
    refine live.of_pending fun id queued => ?_
    rw [List.filterMap_append]
    exact List.mem_append_left _ queued
  | worker id move =>
    obtain ⟨_, _, _, found, moved, _, rfl⟩ := of_step_worker taken
    exact live.worker found moved

end Live

theorem live_of_run {outputs : List (List (Signal qt))}
    (run : Run step (fun _ _ => True) State.initial outputs state) : Live state :=
  run.invariant Live .initial fun _ _ _ _ live _ taken => live.of_step taken

end Live

section Rest

/-- Nothing is under way. -/
structure Settled (state : State qt) : Prop where
  loadTask : state.loadTask = none
  uiThread : state.uiThread = .idle
  queue : state.queue = []
  ended : ∀ (id : Nat) (task : AsyncTask InventoryResult), state.tasks[id]? = some task → task.Ended

theorem exists_move {task : AsyncTask InventoryResult} (running : ¬ task.Ended) (id : Nat)
    (outcome : Outcome InventoryResult) :
    ∃ (move : WorkerMove InventoryResult)
      (posted : List (Invocation (Progress qt) InventoryResult)) (task' : AsyncTask InventoryResult),
      task.work id move = some (posted, task') ∧
        ∀ outcome', move = .finish outcome' → outcome' = outcome := by
  cases moment : task.worker with
  | working =>
    refine ⟨.finish outcome, _, _, by simp only [AsyncTask.work, moment]; rfl, ?_⟩
    rintro _ ⟨⟩
    rfl
  | finished result =>
    have checks (outcome' : Outcome InventoryResult) :
        WorkerMove.check = .finish outcome' → outcome' = outcome := by simp
    by_cases stopped : task.stopRequested = true
    · exact ⟨.check, _, _, by simp only [AsyncTask.work, moment, if_pos stopped]; rfl, checks⟩
    · exact ⟨.check, _, _, by simp only [AsyncTask.work, moment, if_neg stopped]; rfl, checks⟩
  | passed callback => exact ⟨.post, _, _, task.work_post moment id, by simp⟩
  | ended => exact absurd moment running

structure Ordinary (outcome : Outcome InventoryResult) (action : Action) : Prop where
  uncalled : ¬ CallsCancel action
  unreported : ¬ Reports action
  finishes : ∀ id outcome', action = .worker id (.finish outcome') → outcome' = outcome

theorem Live.exists_step (live : Live state) (unsettled : ¬ Settled state)
    (outcome : Outcome InventoryResult) :
    ∃ action moved, Ordinary outcome action ∧ step state action = some moved := by
  by_cases ended : ∀ (id : Nat) (task : AsyncTask InventoryResult), state.tasks[id]? = some task →
      task.Ended
  · cases thread : state.uiThread with
    | joining id continuation =>
      obtain ⟨_, task, found⟩ := live.joining thread
      have worker : task.worker = .ended := ended id task found
      refine ⟨.joined, state.proceed continuation, ⟨not_false, not_false, by simp⟩, ?_⟩
      simp only [step, thread, found, Option.map_some, worker, if_true]
    | idle =>
      cases queue : state.queue with
      | cons invocation rest =>
        refine ⟨.deliver, State.invoke { state with queue := rest } invocation,
          ⟨not_false, not_false, by simp⟩, ?_⟩
        simp only [step, thread, queue]
      | nil =>
        refine absurd ⟨?_, thread, queue, ended⟩ unsettled
        rw [Option.eq_none_iff_forall_not_mem]
        intro id held
        obtain ⟨task, found, _, queued⟩ := live.held held
        have member := queued (ended id task found)
        rw [State.pending, queue] at member
        cases member
  · simp only [not_forall] at ended
    obtain ⟨id, task, found, running⟩ := ended
    obtain ⟨move, posted, task', moved, finishes⟩ := @exists_move qt _ running id outcome
    refine ⟨.worker id move, ([], { state with
      tasks := state.tasks.set id task', queue := state.queue ++ posted }),
      ⟨not_false, not_false, ?_⟩, ?_⟩
    · rintro _ outcome' ⟨rfl, rfl⟩
      exact finishes outcome' rfl
    · simp only [step, found, moved, Option.bind_eq_bind, Option.bind_some]
      rfl

theorem Settled.step_eq_none (settled : Settled state) (uncalled : Uncalled state action) :
    step state action = none := by
  rw [Option.eq_none_iff_forall_not_mem]
  rintro ⟨signals, next⟩ taken
  cases action with
  | reload => exact uncalled trivial
  | cancelReload => exact uncalled trivial
  | joined =>
    obtain ⟨_, _, waiting, _⟩ := of_step_joined taken
    cases settled.uiThread.symm.trans waiting
  | deliver =>
    obtain ⟨_, _, _, head, _⟩ := of_step_deliver taken
    cases settled.queue.symm.trans head
  | progress id percentage message =>
    obtain ⟨task, found, working, _⟩ := of_step_progress taken
    exact AsyncTask.not_ended_of_working working (settled.ended id task found)
  | worker id move =>
    obtain ⟨task, _, _, found, moved, _⟩ := of_step_worker taken
    exact (AsyncTask.work_cases moved).2.1 (settled.ended id task found)

theorem length_of_run_le {outputs : List (List (Signal qt))}
    (run : Run step Uncalled state outputs next) :
    outputs.length + next.outstanding + 2 * state.reports ≤
      state.outstanding + 2 * (next.reports + shown outputs.flatten) := by
  induction run with
  | nil => simp [shown]
  | @snoc outputs before after action output _ uncalled taken ih =>
    have flat : shown (outputs ++ [output]).flatten = shown outputs.flatten + shown output := by
      simp [shown]
    rw [flat, List.length_append, List.length_singleton]
    obtain ⟨_, less, kept⟩ | ⟨_, more, made⟩ := outstanding_of_step uncalled taken
    · omega
    · omega

theorem Live.reaches_settled (live : Live state) {admits : State qt → Action → Prop}
    (outcome : Outcome InventoryResult)
    (allowed : ∀ state action, Ordinary outcome action → admits state action) :
    Reaches step admits Settled state := by
  induction bound : state.outstanding using Nat.strong_induction_on generalizing state with
  | _ bound' ih =>
    by_cases settled : Settled state
    · exact .here settled
    · obtain ⟨action, ⟨signals, next⟩, ordinary, taken⟩ := live.exists_step settled outcome
      obtain ⟨_, less, _⟩ | ⟨reports, _⟩ := outstanding_of_step ordinary.uncalled taken
      · exact .of_step taken (allowed state action ordinary)
          (ih _ (bound ▸ less) (live.of_step taken) rfl)
      · exact absurd reports ordinary.unreported

/-- Whatever was called and cancelled before: the steps that follow without calls are bounded, but
for two to each report, only a settled model has none left, and some of them settle it. -/
theorem settles (outputs : List (List (Signal qt))) (state : State qt)
    (run : Run step (fun _ _ => True) State.initial outputs state) :
    (∀ outputs' later, Run step Uncalled state outputs' later →
      outputs'.length + later.outstanding + 2 * state.reports ≤
        state.outstanding + 2 * (later.reports + shown outputs'.flatten)) ∧
    (Settled state ↔ ∀ action, Uncalled state action → step state action = none) ∧
    Reaches step Uncalled Settled state := by
  have live := live_of_run run
  refine ⟨fun _ _ further => length_of_run_le further,
    ⟨fun settled _ uncalled => settled.step_eq_none uncalled, fun stuck => ?_⟩,
    live.reaches_settled .unknown fun _ _ ordinary => ordinary.uncalled⟩
  by_contra unsettled
  obtain ⟨action, _, ordinary, taken⟩ := live.exists_step unsettled .unknown
  cases (stuck action ordinary.uncalled).symm.trans taken

theorem settles_of_reloaded :
    ∃ outputs state, Run step (fun _ _ => True) (State.initial : State utf8Text) outputs state ∧
      state.outstanding = 11 ∧ Reaches step Uncalled Settled state := by
  obtain ⟨⟨outputs, state⟩, played⟩ : ∃ result,
      play step (fun _ _ => True) (State.initial : State utf8Text) [.reload, .reload] =
        some result := ⟨_, rfl⟩
  have run := run_of_play played
  cases played
  exact ⟨_, _, run, rfl, (settles _ _ run).2.2⟩

end Rest

end InventoryModel

end FastModManager.Ui
