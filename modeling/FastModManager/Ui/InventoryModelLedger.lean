import FastModManager.Ui.InventoryModelRuns

namespace FastModManager.Ui.InventoryModel

open Domain Application Infrastructure Foundation TransitionSystem

variable {qt : QtText}

/-- The history of a model: how each work ended, what each worker queued, and what was taken from
the queue. -/
structure Ledger (qt : QtText) where
  finished : List (Nat × Outcome InventoryResult)
  posted : List (Nat × Invocation (Progress qt) InventoryResult)
  delivered : List (Invocation (Progress qt) InventoryResult)

namespace Ledger

def blank : Ledger qt := ⟨[], [], []⟩

def record (state : State qt) (action : Action) (next : State qt) (ledger : Ledger qt) :
    Ledger qt :=
  let posted (id : Nat) := ledger.posted ++ (next.queue.drop state.queue.length).map (id, ·)
  match action with
  | .reload | .cancelReload | .joined => ledger
  | .deliver => { ledger with delivered := ledger.delivered ++ state.queue.take 1 }
  | .progress id _ _ => { ledger with posted := posted id }
  | .worker id (.finish outcome) =>
    { ledger with finished := ledger.finished ++ [(id, outcome)], posted := posted id }
  | .worker id .check | .worker id .post => { ledger with posted := posted id }

end Ledger

section Entries

variable {β : Type} {id other : Nat} {entries entries' : List (Nat × β)}

def ofTask (id : Nat) (entries : List (Nat × β)) : List β :=
  (entries.filter (·.1 = id)).map Prod.snd

@[simp] theorem ofTask_nil : ofTask id ([] : List (Nat × β)) = [] := rfl

@[simp] theorem ofTask_append :
    ofTask id (entries ++ entries') = ofTask id entries ++ ofTask id entries' := by
  simp only [ofTask, List.filter_append, List.map_append]

@[simp] theorem ofTask_own (values : List β) : ofTask id (values.map (id, ·)) = values := by
  induction values with
  | nil => rfl
  | cons value values ih => simpa [ofTask] using ih

theorem ofTask_other (differs : other ≠ id) (values : List β) :
    ofTask id (values.map (other, ·)) = [] := by
  simp [ofTask, differs]

end Entries

section Accounts

inductive Account (id : Nat) : AsyncTask InventoryResult →
    List (Invocation (Progress qt) InventoryResult) → List (Outcome InventoryResult) → Prop
  | working (stop : Bool) (reports : List (Progress qt)) :
    Account id ⟨stop, .working⟩ (reports.map .report) []
  | finished (stop : Bool) (outcome : Outcome InventoryResult) (reports : List (Progress qt)) :
    Account id ⟨stop, .finished outcome⟩ (reports.map .report) [outcome]
  | passed (stop : Bool) (outcome : Outcome InventoryResult) (reports : List (Progress qt)) :
    Account id ⟨stop, .passed outcome.callback⟩ (reports.map .report) [outcome]
  | posted (stop : Bool) (outcome : Outcome InventoryResult) (reports : List (Progress qt)) :
    Account id ⟨stop, .ended⟩ (reports.map .report ++ [.callback id outcome.callback]) [outcome]
  | dropped (outcome : Outcome InventoryResult) (reports : List (Progress qt)) :
    Account id ⟨true, .ended⟩ (reports.map .report) [outcome]

namespace Account

variable {id : Nat} {task task' : AsyncTask InventoryResult}
  {entries : List (Invocation (Progress qt) InventoryResult)}
  {outcomes : List (Outcome InventoryResult)}

theorem cancel (account : Account id task entries outcomes) :
    Account id task.cancel entries outcomes := by
  cases account with
  | working stop reports => exact .working true reports
  | finished stop outcome reports => exact .finished true outcome reports
  | passed stop outcome reports => exact .passed true outcome reports
  | posted stop outcome reports => exact .posted true outcome reports
  | dropped outcome reports => exact .dropped outcome reports

theorem progress (account : Account id task entries outcomes) (working : task.worker = .working)
    (progress : Progress qt) : Account id task (entries ++ [.report progress]) outcomes := by
  cases account with
  | working stop reports =>
    have more := @Account.working qt id stop (reports ++ [progress])
    rwa [List.map_append] at more
  | _ => cases working

def outcomeOf : WorkerMove InventoryResult → List (Outcome InventoryResult)
  | .finish outcome => [outcome]
  | .check | .post => []

theorem work (account : Account id task entries outcomes) {move : WorkerMove InventoryResult}
    {posted : List (Invocation (Progress qt) InventoryResult)}
    (moved : task.work id move = some (posted, task')) :
    Account id task' (entries ++ posted) (outcomes ++ outcomeOf move) := by
  cases account with
  | working stop reports =>
    cases move with
    | finish outcome =>
      cases moved
      rw [List.append_nil]
      exact .finished stop outcome reports
    | _ => cases moved
  | finished stop outcome reports =>
    cases move with
    | check =>
      cases stop with
      | true =>
        cases moved
        rw [List.append_nil]
        exact .dropped outcome reports
      | false =>
        cases moved
        rw [List.append_nil]
        exact .passed false outcome reports
    | _ => cases moved
  | passed stop outcome reports =>
    cases move with
    | post =>
      cases moved
      exact .posted stop outcome reports
    | _ => cases moved
  | posted stop outcome reports => cases move <;> cases moved
  | dropped outcome reports => cases move <;> cases moved

end Account

structure Accounted (state : State qt) (ledger : Ledger qt) : Prop where
  started : ∀ {id task}, state.tasks[id]? = some task →
    Account id task (ofTask id ledger.posted) (ofTask id ledger.finished)
  unknown : ∀ {id}, state.tasks[id]? = none →
    ofTask id ledger.posted = [] ∧ ofTask id ledger.finished = []

namespace Accounted

variable {state next : State qt} {ledger : Ledger qt} {signals : List (Signal qt)} {action : Action}

theorem initial : Accounted State.initial (Ledger.blank : Ledger qt) where
  started found := by simp [State.initial] at found
  unknown _ := ⟨rfl, rfl⟩

theorem proceed (accounted : Accounted state ledger) (continuation : Continuation qt) :
    Accounted (state.proceed continuation).2 ledger := by
  cases continuation with
  | startTask =>
    refine ⟨?_, ?_⟩
    · intro id task found
      simp only [State.proceed, List.getElem?_append] at found
      split at found
      · exact accounted.started found
      · rename_i new
        obtain ⟨posted, finished⟩ := accounted.unknown (List.getElem?_eq_none (Nat.le_of_not_lt new))
        rw [List.getElem?_singleton, Option.ite_none_right_eq_some] at found
        obtain ⟨_, ⟨⟩⟩ := found
        rw [posted, finished]
        exact .working false []
    · intro id missing
      refine accounted.unknown (List.getElem?_eq_none ?_)
      have short := List.getElem?_eq_none_iff.mp missing
      simp only [State.proceed, List.length_append] at short
      omega
  | _ => exact ⟨accounted.started, accounted.unknown⟩

theorem resetLoadTask (accounted : Accounted state ledger) (continuation : Continuation qt) :
    Accounted (state.resetLoadTask continuation).2 ledger := by
  cases held : state.loadTask with
  | none =>
    rw [state.resetLoadTask_none held]
    exact accounted.proceed continuation
  | some load =>
    rw [state.resetLoadTask_some held]
    refine ⟨?_, ?_⟩
    · intro id task found
      simp only [State.stop, List.getElem?_modify, Option.map_eq_map, Option.map_eq_some_iff] at found
      obtain ⟨original, foundOriginal, rfl⟩ := found
      have account := accounted.started foundOriginal
      by_cases same : load = id
      · rw [if_pos same]
        exact account.cancel
      · rw [if_neg same]
        exact account
    · intro id missing
      refine accounted.unknown ?_
      simpa [State.stop, List.getElem?_modify] using missing

theorem moved (accounted : Accounted state ledger) {id : Nat}
    {task task' : AsyncTask InventoryResult}
    (found : state.tasks[id]? = some task)
    {posted : List (Invocation (Progress qt) InventoryResult)}
    {outcomes : List (Outcome InventoryResult)}
    (account : Account id task' (ofTask id ledger.posted ++ posted)
      (ofTask id ledger.finished ++ outcomes))
    (queue : List (Invocation (Progress qt) InventoryResult)) :
    Accounted { state with tasks := state.tasks.set id task', queue }
      { ledger with
        finished := ledger.finished ++ outcomes.map (id, ·)
        posted := ledger.posted ++ posted.map (id, ·) } := by
  refine ⟨?_, ?_⟩
  · intro other task'' found'
    simp only [ofTask_append]
    by_cases same : id = other
    · subst same
      cases (getElem?_set_of_found found task').symm.trans found'
      rwa [ofTask_own, ofTask_own]
    · rw [ofTask_other same, ofTask_other same, List.append_nil, List.append_nil]
      exact accounted.started ((List.getElem?_set_ne same).symm.trans found')
  · intro other missing
    have differs : id ≠ other := by
      rintro rfl
      cases missing.symm.trans (getElem?_set_of_found found task')
    simp only [ofTask_append, ofTask_other differs, List.append_nil]
    exact accounted.unknown ((List.getElem?_set_ne differs).symm.trans missing)

theorem of_step (accounted : Accounted state ledger)
    (taken : step state action = some (signals, next)) :
    Accounted next (ledger.record state action next) := by
  cases action with
  | reload =>
    obtain ⟨_, moved⟩ := of_step_reload taken
    rw [← show _ = next from congrArg Prod.snd moved, State.cancelReload_eq]
    exact accounted.resetLoadTask _
  | cancelReload =>
    obtain ⟨_, moved⟩ := of_step_cancelReload taken
    rw [← show _ = next from congrArg Prod.snd moved, State.cancelReload_eq]
    exact accounted.resetLoadTask _
  | joined =>
    obtain ⟨_, continuation, _, _, moved⟩ := of_step_joined taken
    rw [← show _ = next from congrArg Prod.snd moved]
    exact accounted.proceed continuation
  | deliver =>
    obtain ⟨invocation, queue, _, _, moved⟩ := of_step_deliver taken
    rw [← show _ = next from congrArg Prod.snd moved]
    cases invocation with
    | report progress => exact ⟨accounted.started, accounted.unknown⟩
    | callback id callback =>
      obtain ⟨mods, signal, _, same⟩ := State.invoke_callback { state with queue } id callback
      rw [same]
      have kept : Accounted { state with mods, queue } (ledger.record state .deliver next) :=
        ⟨accounted.started, accounted.unknown⟩
      exact kept.resetLoadTask (.emit signal)
  | progress id percentage message =>
    obtain ⟨task, found, working, _, rfl⟩ := of_step_progress taken
    have account := (accounted.started found).progress working ⟨percentage, qt.fromStdString message⟩
    rw [← List.append_nil (ofTask id ledger.finished)] at account
    have accounted' := accounted.moved found account
      (state.queue ++ [.report ⟨percentage, qt.fromStdString message⟩])
    have same : state.tasks.set id task = state.tasks := by
      obtain ⟨inside, rfl⟩ := List.getElem?_eq_some_iff.mp found
      exact List.set_getElem_self inside
    rw [same] at accounted'
    simpa [Ledger.record] using accounted'
  | worker id move =>
    obtain ⟨task, posted, task', found, moved, _, rfl⟩ := of_step_worker taken
    have accounted' := accounted.moved found ((accounted.started found).work moved)
      (state.queue ++ posted)
    cases move <;> simpa [Ledger.record, Account.outcomeOf] using accounted'

end Accounted

end Accounts

section Delivery

def endOf : Callback InventoryResult → Signal qt
  | .onSuccess (.ok _) => .scanCompleted
  | .onSuccess (.error error) =>
    if error = .cancelled then .scanCompleted else .scanFailed (literal qt (errorMessage error))
  | .onError msg => .scanFailed (qt.fromStdString msg)

def signalOf : Invocation (Progress qt) InventoryResult → Signal qt
  | .report progress => .scanProgress progress.percentage progress.message
  | .callback _ callback => endOf callback

def loaded : Invocation (Progress qt) InventoryResult → Option (List InstalledPackage)
  | .callback _ (.onSuccess (.ok packages)) => some packages
  | .report _ | .callback _ (.onSuccess (.error _)) | .callback _ (.onError _) => none

def lastLoaded (delivered : List (Invocation (Progress qt) InventoryResult)) :
    List InstalledPackage :=
  (delivered.filterMap loaded).getLast?.getD []

/-- The signal that the UI thread emits once its join is over. -/
def UiThread.owed : UiThread qt → List (Signal qt)
  | .joining _ (.emit signal) => [signal]
  | .idle | .joining _ .return | .joining _ .startTask => []

variable {state next : State qt} {ledger : Ledger qt} {signals : List (Signal qt)} {action : Action}
  {delivered : List (Invocation (Progress qt) InventoryResult)}

theorem lastLoaded_append (invocation : Invocation (Progress qt) InventoryResult) :
    lastLoaded (delivered ++ [invocation]) = (loaded invocation).getD (lastLoaded delivered) := by
  rw [lastLoaded, List.filterMap_append]
  cases same : loaded invocation with
  | none => simp [same, lastLoaded]
  | some packages => simp [same]

theorem invoke_callback_eq (state : State qt) (id : Nat) (callback : Callback InventoryResult) :
    state.invoke (.callback id callback) =
      State.resetLoadTask { state with
        mods := (loaded (.callback id callback : Invocation (Progress qt) _)).getD state.mods }
        (.emit (endOf callback)) := by
  match callback with
  | .onError msg => rfl
  | .onSuccess (.ok packages) => rfl
  | .onSuccess (.error error) =>
    by_cases cancelled : error = .cancelled
    · simp only [State.invoke, State.onSuccess, endOf, if_pos cancelled]
      rfl
    · simp only [State.invoke, State.onSuccess, endOf, if_neg cancelled]
      rfl

theorem mods_proceed (state : State qt) (continuation : Continuation qt) :
    (state.proceed continuation).2.mods = state.mods := by
  cases continuation <;> rfl

theorem mods_resetLoadTask (state : State qt) (continuation : Continuation qt) :
    (state.resetLoadTask continuation).2.mods = state.mods := by
  cases held : state.loadTask with
  | none => rw [state.resetLoadTask_none held, mods_proceed]
  | some id => rw [state.resetLoadTask_some held]; rfl

theorem queue_resetLoadTask (state : State qt) (continuation : Continuation qt) :
    (state.resetLoadTask continuation).2.queue = state.queue := by
  cases held : state.loadTask with
  | none => rw [state.resetLoadTask_none held, state.queue_proceed]
  | some id => rw [state.resetLoadTask_some held]; rfl

def Continuation.emits : Continuation qt → List (Signal qt)
  | .emit signal => [signal]
  | .return | .startTask => []

theorem signals_proceed (state : State qt) (continuation : Continuation qt) :
    (state.proceed continuation).1 = continuation.emits ∧
      (state.proceed continuation).2.uiThread.owed = [] := by
  cases continuation <;> exact ⟨rfl, rfl⟩

theorem owed_joining (id : Nat) (continuation : Continuation qt) :
    (UiThread.joining id continuation).owed = continuation.emits := by
  cases continuation <;> rfl

theorem signals_resetLoadTask (state : State qt) (continuation : Continuation qt) :
    (state.resetLoadTask continuation).1 ++ (state.resetLoadTask continuation).2.uiThread.owed =
      continuation.emits := by
  cases held : state.loadTask with
  | none =>
    rw [state.resetLoadTask_none held, (signals_proceed state continuation).1,
      (signals_proceed state continuation).2, List.append_nil]
  | some id =>
    rw [state.resetLoadTask_some held]
    exact owed_joining id continuation

/-- The queue holds what was posted and not yet delivered; what was delivered has been emitted,
but for a signal that the UI thread still owes, and the last packages in it are shown. -/
structure Delivered (outputs : List (List (Signal qt))) (state : State qt) (ledger : Ledger qt) :
    Prop where
  fifo : ledger.posted.map Prod.snd = ledger.delivered ++ state.queue
  signals : outputs.flatten ++ state.uiThread.owed = ledger.delivered.map signalOf
  mods : state.mods = lastLoaded ledger.delivered

namespace Delivered

variable {outputs : List (List (Signal qt))}

theorem initial : Delivered [] State.initial (Ledger.blank : Ledger qt) := ⟨rfl, rfl, rfl⟩

theorem kept (before : Delivered outputs state ledger) (next : State qt)
    (emitted : signals ++ next.uiThread.owed = state.uiThread.owed) (mods : next.mods = state.mods)
    {posted : List (Invocation (Progress qt) InventoryResult)}
    (queue : next.queue = state.queue ++ posted) (finished : List (Nat × Outcome InventoryResult))
    (id : Nat) :
    Delivered (outputs ++ [signals]) next
      { ledger with finished, posted := ledger.posted ++ posted.map (id, ·) } where
  fifo := by
    have same : (posted.map (id, ·)).map Prod.snd = posted := by
      rw [List.map_map]
      exact List.map_id' posted
    rw [List.map_append, before.fifo, queue, same, List.append_assoc]
  signals := by
    rw [List.flatten_append, List.flatten_singleton, List.append_assoc, emitted, before.signals]
  mods := mods.trans before.mods

theorem unposted (before : Delivered outputs state ledger) (next : State qt)
    (emitted : signals ++ next.uiThread.owed = state.uiThread.owed) (mods : next.mods = state.mods)
    (queue : next.queue = state.queue) : Delivered (outputs ++ [signals]) next ledger := by
  rw [← List.append_nil state.queue] at queue
  have after := before.kept next emitted mods queue ledger.finished 0
  rwa [List.map_nil, List.append_nil] at after

theorem appended (before : Delivered outputs state ledger)
    (tasks : List (AsyncTask InventoryResult))
    (posted : List (Invocation (Progress qt) InventoryResult))
    (finished : List (Nat × Outcome InventoryResult)) (id : Nat) :
    Delivered (outputs ++ [[]]) { state with tasks, queue := state.queue ++ posted }
      { ledger with finished, posted := ledger.posted ++ posted.map (id, ·) } :=
  before.kept { state with tasks, queue := state.queue ++ posted } (List.nil_append _) rfl rfl
    finished id

theorem resetLoadTask (before : Delivered outputs state ledger) (idle : state.uiThread = .idle)
    {continuation : Continuation qt} (silent : continuation.emits = []) :
    Delivered (outputs ++ [(state.resetLoadTask continuation).1])
      (state.resetLoadTask continuation).2 ledger := by
  refine before.unposted _ ?_ (mods_resetLoadTask _ _) (queue_resetLoadTask _ _)
  rw [signals_resetLoadTask, silent, idle]
  rfl

theorem deliver (before : Delivered outputs state ledger) (idle : state.uiThread = .idle)
    {invocation : Invocation (Progress qt) InventoryResult}
    {queue : List (Invocation (Progress qt) InventoryResult)}
    (head : state.queue = invocation :: queue) :
    Delivered (outputs ++ [(State.invoke { state with queue } invocation).1])
      (State.invoke { state with queue } invocation).2
      { ledger with delivered := ledger.delivered ++ [invocation] } := by
  have heard : outputs.flatten = ledger.delivered.map signalOf := by
    rw [← before.signals, idle]
    exact (List.append_nil _).symm
  have taken : ledger.posted.map Prod.snd = ledger.delivered ++ [invocation] ++ queue := by
    rw [before.fifo, head, List.append_assoc]
    rfl
  cases invocation with
  | report progress =>
    refine ⟨taken, ?_, ?_⟩
    · simp [State.invoke, heard, signalOf, idle, UiThread.owed]
    · rw [lastLoaded_append]
      exact before.mods
  | callback id callback =>
    rw [invoke_callback_eq]
    refine ⟨?_, ?_, ?_⟩
    · rw [queue_resetLoadTask]
      exact taken
    · rw [List.flatten_append, List.flatten_singleton, List.append_assoc, signals_resetLoadTask,
        heard, List.map_append]
      rfl
    · rw [mods_resetLoadTask, lastLoaded_append, before.mods]

theorem of_step (before : Delivered outputs state ledger)
    (taken : step state action = some (signals, next)) :
    Delivered (outputs ++ [signals]) next (ledger.record state action next) := by
  cases action with
  | reload =>
    obtain ⟨idle, moved⟩ := of_step_reload taken
    rw [State.cancelReload_eq] at moved
    have after := before.resetLoadTask idle
      (rfl : (Continuation.startTask : Continuation qt).emits = [])
    rwa [moved] at after
  | cancelReload =>
    obtain ⟨idle, moved⟩ := of_step_cancelReload taken
    rw [State.cancelReload_eq] at moved
    have after := before.resetLoadTask idle
      (rfl : (Continuation.return : Continuation qt).emits = [])
    rwa [moved] at after
  | joined =>
    obtain ⟨id, continuation, waiting, _, moved⟩ := of_step_joined taken
    obtain ⟨emitted, settled⟩ := signals_proceed state continuation
    have owes : (state.proceed continuation).1 ++ (state.proceed continuation).2.uiThread.owed =
        state.uiThread.owed := by
      rw [emitted, settled, waiting, owed_joining, List.append_nil]
    have after := before.unposted _ owes (mods_proceed _ _) (state.queue_proceed _)
    rwa [moved] at after
  | deliver =>
    obtain ⟨invocation, queue, idle, head, moved⟩ := of_step_deliver taken
    have after := before.deliver idle head
    rw [moved] at after
    simpa only [Ledger.record, head, List.take_succ_cons, List.take_zero] using after
  | progress id percentage message =>
    obtain ⟨_, _, _, rfl, rfl⟩ := of_step_progress taken
    simp only [Ledger.record, List.drop_left]
    exact before.appended state.tasks _ ledger.finished id
  | worker id move =>
    obtain ⟨_, posted, task', _, _, rfl, rfl⟩ := of_step_worker taken
    cases move with
    | finish outcome =>
      simp only [Ledger.record, List.drop_left]
      exact before.appended (state.tasks.set id task') posted _ id
    | check =>
      simp only [Ledger.record, List.drop_left]
      exact before.appended (state.tasks.set id task') posted ledger.finished id
    | post =>
      simp only [Ledger.record, List.drop_left]
      exact before.appended (state.tasks.set id task') posted ledger.finished id

end Delivered

def Recorded (outputs : List (List (Signal qt))) (state : State qt) (ledger : Ledger qt) : Prop :=
  Run (withHistory step Ledger.record) (fun _ _ => True) (State.initial, Ledger.blank) outputs
    (state, ledger)

/-- In every run, whatever is called and however the threads take turns: each task queues its
reports and then, unless it was stopped, one callback with the outcome of its work; the queue is
delivered in order, each entry once; and what is emitted and shown is what was delivered. -/
theorem ledger_balances (outputs : List (List (Signal qt))) (state : State qt)
    (run : Run step (fun _ _ => True) State.initial outputs state) :
    (∃ ledger, Recorded outputs state ledger) ∧
      ∀ ledger, Recorded outputs state ledger →
        Delivered outputs state ledger ∧ Accounted state ledger := by
  refine ⟨(exists_history_iff Ledger.blank).mp run, fun ledger recorded => ?_⟩
  refine recorded.traced (fun outputs after => Delivered outputs after.1 after.2 ∧
    Accounted after.1 after.2) ⟨.initial, .initial⟩ ?_
  rintro outputs ⟨before, ledger⟩ action signals ⟨next, ledger'⟩ ⟨delivered, accounted⟩ _ taken
  obtain ⟨moved, rfl⟩ := withHistory_eq_some_iff.mp taken
  exact ⟨delivered.of_step moved, accounted.of_step moved⟩

theorem ledger_balances_of_replaced :
    ∃ outputs state, Run step (fun _ _ => True) (State.initial : State utf8Text) outputs state ∧
      outputs.flatten.length = 2 ∧ ∃ ledger, Delivered outputs state ledger ∧
        Accounted state ledger := by
  obtain ⟨⟨outputs, state⟩, played⟩ : ∃ result,
      play step (fun _ _ => True) (State.initial : State utf8Text)
        [.reload, .progress 0 10 [], .reload, .worker 0 (.finish .unknown), .worker 0 .check,
          .joined, .worker 1 (.finish (.returned (.ok []))), .worker 1 .check, .worker 1 .post,
          .deliver, .deliver, .joined] = some result := ⟨_, rfl⟩
  have run := run_of_play played
  cases played
  obtain ⟨⟨ledger, recorded⟩, balances⟩ := ledger_balances _ _ run
  exact ⟨_, _, run, rfl, ledger, balances ledger recorded⟩

end Delivery

end FastModManager.Ui.InventoryModel
