import FastModManager.Ui.InventoryModelRuns
import FastModManager.Ui.MainWindow

namespace FastModManager.Ui.MainWindow

open Domain Application Infrastructure Foundation TransitionSystem InventoryModel

section Queue

variable {ρ α : Type} {invocation : Invocation ρ α} {queue : List (Invocation ρ α)}

def isReport : Invocation ρ α → Bool
  | .report _ => true
  | .callback _ _ => false

def EndsWithReport (queue : List (Invocation ρ α)) : Prop := queue.getLast?.any isReport = true

instance (queue : List (Invocation ρ α)) : Decidable (EndsWithReport queue) :=
  inferInstanceAs (Decidable (_ = _))

theorem not_endsWithReport_nil : ¬ EndsWithReport ([] : List (Invocation ρ α)) := nofun

theorem endsWithReport_append_singleton :
    EndsWithReport (queue ++ [invocation]) ↔ isReport invocation = true := by
  rw [EndsWithReport, List.getLast?_concat, Option.any_some]

theorem endsWithReport_cons (nonempty : queue ≠ []) :
    EndsWithReport (invocation :: queue) ↔ EndsWithReport queue := by
  rw [EndsWithReport, EndsWithReport, List.getLast?_cons_of_ne_nil nonempty]

theorem endsWithReport_of_callback {task : Nat} {callback : Callback α}
    (last : EndsWithReport (.callback task callback :: queue)) : EndsWithReport queue := by
  cases queue with
  | nil => cases last
  | cons second queue => exact (endsWithReport_cons (List.cons_ne_nil _ _)).mp last

theorem endsWithReport_of_tail (last : EndsWithReport queue) :
    EndsWithReport (invocation :: queue) := by
  refine (endsWithReport_cons ?_).mpr last
  rintro rfl
  exact not_endsWithReport_nil last

end Queue

variable {qt : QtText}

structure Quiet (state : InventoryModel.State qt) : Prop where
  loadTask : state.loadTask = none
  uiThread : state.uiThread = .idle
  queue : state.queue = []

theorem not_quiet_of_held {state : InventoryModel.State qt} {id : Nat}
    (held : state.loadTask = some id) : ¬ Quiet state := by
  intro quiet
  cases held.symm.trans quiet.loadTask

theorem not_quiet_of_joining {state : InventoryModel.State qt} {id : Nat}
    {continuation : Continuation qt} (waiting : state.uiThread = .joining id continuation) :
    ¬ Quiet state := by
  intro quiet
  cases waiting.symm.trans quiet.uiThread

def HiddenWhenQuiet (state : State qt) : Prop :=
  Quiet state.model → state.overlay.hidden = true

section Admits

/-- A stop of the load task would come after its worker's check of the stop token, so that its
callback still comes, or while no report is queued last. -/
def StopsCleanly (state : InventoryModel.State qt) : Prop :=
  ∀ id ∈ state.loadTask, ∀ task ∈ state.tasks[id]?, task.Unchecked → ¬ EndsWithReport state.queue

instance (state : InventoryModel.State qt) : Decidable (StopsCleanly state) :=
  inferInstanceAs (Decidable (∀ id ∈ state.loadTask, ∀ task ∈ state.tasks[id]?, _ → _))

def restarts : UiThread qt → Bool
  | .joining _ .startTask => true
  | _ => false

/-- A click and the callback of another task stop the load task cleanly, and no worker reports
after such a stop. -/
def Admits (state : State qt) : Action → Prop
  | .cancelReload => StopsCleanly state.model
  | .deliver => (state.model.queue.head?.bind callbackTask).isSome → StopsCleanly state.model
  | .progress id _ _ => ∀ task ∈ state.model.tasks[id]?, task.stopRequested →
    restarts state.model.uiThread
  | .reload | .joined | .worker _ _ => True

instance (state : State qt) : DecidablePred (Admits state)
  | .cancelReload => inferInstanceAs (Decidable (StopsCleanly _))
  | .deliver => inferInstanceAs (Decidable (_ → _))
  | .progress id _ _ =>
    inferInstanceAs (Decidable (∀ task ∈ state.model.tasks[id]?, _ → _))
  | .reload | .joined | .worker _ _ => isTrue trivial

end Admits

section Phases

variable {model : InventoryModel.State qt}

def Ended (model : InventoryModel.State qt) (id : Nat) : Prop :=
  ∀ task, model.tasks[id]? = some task → task.Ended

def EmitsEnd : Continuation qt → Prop
  | .emit signal => EndsScan signal
  | .return | .startTask => True

/-- Whether a load task is alive, or is being destroyed, and what is queued last then. -/
inductive Phase (model : InventoryModel.State qt) : Prop
  | resting (idle : model.uiThread = .idle) (none : model.loadTask = none)
    (ended : ∀ id, Ended model id)
    (last : ¬ EndsWithReport model.queue)
  | loading {id task} (idle : model.uiThread = .idle) (held : model.loadTask = some id)
    (found : model.tasks[id]? = some task) (others : ∀ other ≠ id, Ended model other)
    (unstopped : task.stopRequested = false)
    (last : task.Ended → ¬ EndsWithReport model.queue)
  | joining {id task continuation} (waiting : model.uiThread = .joining id continuation)
    (none : model.loadTask = none) (found : model.tasks[id]? = some task)
    (others : ∀ other ≠ id, Ended model other) (stopped : task.stopRequested = true)
    (emits : EmitsEnd continuation)
    (last : restarts model.uiThread = false → task.MayPost ∨ ¬ EndsWithReport model.queue)

structure Invariant (state : State qt) : Prop where
  phase : Phase state.model
  hidden : HiddenWhenQuiet state

theorem Invariant.of_busy (phase : Phase model) (busy : ¬ Quiet model)
    (overlay : ProgressOverlayWidget qt) : Invariant ⟨model, overlay⟩ :=
  ⟨phase, fun quiet => absurd quiet busy⟩

def proceeded (overlay : ProgressOverlayWidget qt) : Continuation qt → ProgressOverlayWidget qt
  | .return => onCancelClicked overlay
  | .startTask => overlay
  | .emit signal => receive overlay signal

theorem hidden_receive {signal : Signal qt} (ends : EndsScan signal)
    (overlay : ProgressOverlayWidget qt) : (receive overlay signal).hidden = true := by
  cases signal with
  | scanProgress percentage message => exact absurd ends id
  | scanCompleted => rfl
  | scanFailed error => rfl

theorem Invariant.proceed (none : model.loadTask = none)
    (ended : ∀ id, Ended model id) (continuation : Continuation qt) (emits : EmitsEnd continuation)
    (last : continuation ≠ .startTask → ¬ EndsWithReport model.queue)
    (overlay : ProgressOverlayWidget qt) :
    Invariant ⟨(model.proceed continuation).2, proceeded overlay continuation⟩ := by
  cases continuation with
  | «return» => exact ⟨.resting rfl none ended (last nofun), fun _ => rfl⟩
  | emit signal =>
    exact ⟨.resting rfl none ended (last nofun), fun _ => hidden_receive emits overlay⟩
  | startTask =>
    have busy : ¬ Quiet (model.proceed .startTask).2 := not_quiet_of_held rfl
    have running : ¬ (AsyncTask.start : AsyncTask InventoryResult).Ended := nofun
    refine .of_busy (.loading rfl rfl List.getElem?_concat_length ?_ rfl fun halted =>
      absurd halted running) busy overlay
    intro other differs task found
    obtain ⟨inside, _⟩ := List.getElem?_eq_some_iff.mp found
    simp only [State.proceed, List.length_append, List.length_singleton] at inside
    have old : other < model.tasks.length := by omega
    exact ended other task ((List.getElem?_append_left old).symm.trans found)

theorem Invariant.resetLoadTask (phase : Phase model) (idle : model.uiThread = .idle)
    (continuation : Continuation qt) (emits : EmitsEnd continuation)
    (clean : continuation ≠ .startTask → StopsCleanly model) {overlay : ProgressOverlayWidget qt}
    (done : model.loadTask = none → ∃ before, overlay = proceeded before continuation) :
    Invariant ⟨(model.resetLoadTask continuation).2, overlay⟩ := by
  cases phase with
  | resting _ none ended last =>
    obtain ⟨before, rfl⟩ := done none
    rw [model.resetLoadTask_none none]
    exact .proceed none ended continuation emits (fun _ => last) before
  | @loading id task _ held found others unstopped last =>
    rw [model.resetLoadTask_some held]
    have here := State.tasks_stop found
    have busy : ¬ Quiet { model.stop id with
        loadTask := none, uiThread := .joining id continuation } := not_quiet_of_joining rfl
    apply Invariant.of_busy _ busy overlay
    refine .joining rfl rfl here ?_ rfl emits ?_
    · intro other differs task' found'
      exact others other differs task' ((List.getElem?_modify_ne _ _ differs.symm).symm.trans found')
    · intro returns
      have cleanly := clean (by rintro rfl; cases returns) id held task found
      cases moment : task.worker with
      | working => exact .inr (cleanly (by simp [AsyncTask.Unchecked, moment]))
      | finished outcome => exact .inr (cleanly (by simp [AsyncTask.Unchecked, moment]))
      | passed callback => exact .inl (by simp [AsyncTask.MayPost, moment])
      | ended => exact .inr (last moment)
  | joining waiting => cases idle.symm.trans waiting

theorem Phase.pop (phase : Phase model) {invocation : Invocation (Progress qt) InventoryResult}
    {queue : List (Invocation (Progress qt) InventoryResult)}
    (head : model.queue = invocation :: queue) (mods : List InstalledPackage) :
    Phase { model with mods, queue } := by
  have shorter (last : ¬ EndsWithReport model.queue) : ¬ EndsWithReport queue := by
    rw [head] at last
    exact fun report => last (endsWithReport_of_tail report)
  cases phase with
  | resting idle none ended last => exact .resting idle none ended (shorter last)
  | loading idle held found others unstopped last =>
    exact .loading idle held found others unstopped fun halted => shorter (last halted)
  | joining waiting none found others stopped emits last =>
    exact .joining waiting none found others stopped emits fun returns =>
      (last returns).imp id shorter

theorem Phase.moved (phase : Phase model) {id : Nat} {task task' : AsyncTask InventoryResult}
    (posted : List (Invocation (Progress qt) InventoryResult))
    (found : model.tasks[id]? = some task) (running : ¬ task.Ended)
    (stops : task'.stopRequested = task.stopRequested)
    (ends : task'.Ended → task.stopRequested = false → ¬ EndsWithReport (model.queue ++ posted))
    (last : restarts model.uiThread = false → task.stopRequested = true →
      task.MayPost ∨ ¬ EndsWithReport model.queue →
        task'.MayPost ∨ ¬ EndsWithReport (model.queue ++ posted))
    (overlay : ProgressOverlayWidget qt) :
    Invariant ⟨{ model with tasks := model.tasks.set id task', queue := model.queue ++ posted },
      overlay⟩ := by
  have here := getElem?_set_of_found found task'
  have elsewhere {other : Nat} (differs : other ≠ id) (ended : Ended model other) :
      ∀ task, (model.tasks.set id task')[other]? = some task → task.Ended :=
    fun task found' => ended task ((List.getElem?_set_ne differs.symm).symm.trans found')
  cases phase with
  | resting _ _ ended _ => exact absurd (ended id task found) running
  | @loading held _ idle isHeld foundHeld others unstopped _ =>
    obtain rfl : id = held := by_contra fun differs => running (others id differs task found)
    cases found.symm.trans foundHeld
    exact ⟨.loading idle isHeld here (fun other differs => elsewhere differs (others other differs))
      (stops.trans unstopped) fun halted => ends halted unstopped,
      fun quiet => absurd quiet (not_quiet_of_held isHeld)⟩
  | @joining joined _ _ waiting none foundJoined others stopped emits last' =>
    obtain rfl : id = joined := by_contra fun differs => running (others id differs task found)
    cases found.symm.trans foundJoined
    exact ⟨.joining waiting none here (fun other differs => elsewhere differs (others other differs))
      (stops.trans stopped) emits fun returns => last returns stopped (last' returns),
      fun quiet => absurd quiet (not_quiet_of_joining waiting)⟩

end Phases

section Steps

variable {state next : State qt} {signals : List (Signal qt)}

theorem Invariant.initial : Invariant (construct : State qt) := by
  have none : ∀ id, Ended (State.initial : InventoryModel.State qt) id := by
    intro id task found
    simp [State.initial] at found
  exact .proceed rfl none .startTask trivial (absurd rfl) ProgressOverlayWidget.create.hideOverlay

theorem Invariant.joined (inv : Invariant state) {id : Nat} {continuation : Continuation qt}
    (waiting : state.model.uiThread = .joining id continuation)
    (halted : (state.model.tasks[id]?).map (·.worker) = some .ended)
    (overlay : ProgressOverlayWidget qt) :
    Invariant ⟨(state.model.proceed continuation).2, proceeded overlay continuation⟩ := by
  cases inv.phase with
  | resting idle => cases idle.symm.trans waiting
  | loading idle => cases idle.symm.trans waiting
  | @joining joined task _ waiting' none found others _ emits last =>
    cases waiting.symm.trans waiting'
    obtain ⟨_, foundHere, worker⟩ := Option.map_eq_some_iff.mp halted
    cases found.symm.trans foundHere
    have ended : ∀ other, Ended state.model other := by
      intro other
      by_cases same : other = id
      · rintro _ foundOther
        cases (same ▸ foundOther).symm.trans found
        exact worker
      · exact others other same
    refine .proceed none ended continuation emits (fun returns => ?_) overlay
    refine (last ?_).resolve_left (AsyncTask.not_mayPost_of_ended worker)
    rw [waiting]
    cases continuation with
    | startTask => exact absurd rfl returns
    | _ => rfl

theorem Invariant.deliver (inv : Invariant state) (idle : state.model.uiThread = .idle)
    {invocation : Invocation (Progress qt) InventoryResult}
    {queue : List (Invocation (Progress qt) InventoryResult)}
    (head : state.model.queue = invocation :: queue) (clean : Admits state .deliver) :
    Invariant ⟨(State.invoke { state.model with queue } invocation).2,
      (State.invoke { state.model with queue } invocation).1.foldl receive state.overlay⟩ := by
  have phase := inv.phase.pop head
  cases invocation with
  | report progress =>
    refine ⟨phase state.model.mods, fun quiet => ?_⟩
    have empty : queue = [] := quiet.queue
    -- the report is the last of what was queued, so that a callback was still to come
    cases inv.phase with
    | resting _ _ _ last => exact absurd (by rw [head, empty]; rfl) last
    | loading _ held => exact absurd quiet (not_quiet_of_held held)
    | joining waiting => exact absurd quiet (not_quiet_of_joining waiting)
  | callback id callback =>
    obtain ⟨mods, signal, ends, same⟩ :=
      State.invoke_callback { state.model with queue } id callback
    rw [same]
    refine .resetLoadTask (phase mods) idle (.emit signal) ends ?_ ?_
    · intro _ id held task found unchecked report
      refine clean (by rw [head]; rfl) id held task found unchecked ?_
      rw [head]
      exact endsWithReport_of_tail report
    · intro none
      rw [State.resetLoadTask_none { state.model with mods, queue } none]
      exact ⟨state.overlay, rfl⟩

theorem Invariant.progress (inv : Invariant state) {id : Nat} {percentage : Int} {message : Bytes}
    {task : AsyncTask InventoryResult} (found : state.model.tasks[id]? = some task)
    (working : task.worker = .working) (admitted : Admits state (.progress id percentage message)) :
    Invariant ⟨{ state.model with
      queue := state.model.queue ++ [.report ⟨percentage, qt.fromStdString message⟩] },
        state.overlay⟩ := by
  have running : ¬ task.Ended := AsyncTask.not_ended_of_working working
  have same : state.model.tasks.set id task = state.model.tasks := by
    obtain ⟨_, rfl⟩ := List.getElem?_eq_some_iff.mp found
    exact List.set_getElem_self _
  have done := inv.phase.moved [.report ⟨percentage, qt.fromStdString message⟩] found running rfl
    (fun ended => absurd ended running)
    (fun returns stopped => by cases returns.symm.trans (admitted task found stopped))
    state.overlay
  rw [same] at done
  exact done

theorem Invariant.worker (inv : Invariant state) {id : Nat} {task task' : AsyncTask InventoryResult}
    {move : WorkerMove InventoryResult} {posted : List (Invocation (Progress qt) InventoryResult)}
    (found : state.model.tasks[id]? = some task)
    (worked : task.work id move = some (posted, task')) :
    Invariant ⟨{ state.model with
      tasks := state.model.tasks.set id task', queue := state.model.queue ++ posted },
        state.overlay⟩ := by
  obtain ⟨stops, running, ⟨callback, passed, ended, rfl⟩ | ⟨rfl, alike, ends⟩⟩ :=
    AsyncTask.work_cases worked
  · have last : ¬ EndsWithReport (state.model.queue ++ [.callback id callback]) :=
      mt endsWithReport_append_singleton.mp (by simp [isReport])
    exact inv.phase.moved [.callback id callback] found running stops (fun _ _ => last)
      (fun _ _ _ => .inr last) state.overlay
  · refine inv.phase.moved [] found running stops ?_ ?_ state.overlay
    · intro halted unstopped
      cases unstopped.symm.trans (ends halted)
    · intro _ _ last
      rw [List.append_nil]
      exact last.imp_left alike.mpr

theorem of_step {action : Action} (taken : step state action = some (signals, next)) :
    InventoryModel.step state.model action = some (signals, next.model) ∧
      next.overlay = if returnsToClick state.model action then
        onCancelClicked (signals.foldl receive state.overlay)
        else signals.foldl receive state.overlay := by
  simp only [step, Option.bind_eq_bind, Option.bind_eq_some_iff] at taken
  obtain ⟨⟨emitted, model⟩, moved, same⟩ := taken
  cases same
  exact ⟨moved, rfl⟩

theorem Invariant.of_step (inv : Invariant state) {action : Action}
    (admitted : Admits state action) (taken : step state action = some (signals, next)) :
    Invariant next := by
  obtain ⟨moved, shown⟩ := MainWindow.of_step taken
  obtain ⟨model, overlay⟩ := next
  dsimp only at moved shown
  subst shown
  cases action with
  | reload =>
    obtain ⟨idle, moved⟩ := of_step_reload moved
    rw [State.cancelReload_eq] at moved
    obtain ⟨rfl, rfl⟩ : _ = signals ∧ _ = model :=
      ⟨congrArg Prod.fst moved, congrArg Prod.snd moved⟩
    refine .resetLoadTask inv.phase idle .startTask trivial (absurd rfl) fun none => ?_
    rw [State.resetLoadTask_none _ none]
    exact ⟨state.overlay, rfl⟩
  | cancelReload =>
    obtain ⟨idle, moved⟩ := of_step_cancelReload moved
    rw [State.cancelReload_eq] at moved
    obtain ⟨rfl, rfl⟩ : _ = signals ∧ _ = model :=
      ⟨congrArg Prod.fst moved, congrArg Prod.snd moved⟩
    refine .resetLoadTask inv.phase idle .return trivial (fun _ => admitted) fun none => ?_
    simp only [returnsToClick, none]
    exact ⟨_, rfl⟩
  | joined =>
    obtain ⟨id, continuation, waiting, halted, moved⟩ := of_step_joined moved
    have done := inv.joined waiting halted state.overlay
    cases continuation <;> (cases moved; simp only [returnsToClick, waiting]; exact done)
  | deliver =>
    obtain ⟨invocation, queue, idle, head, moved⟩ := of_step_deliver moved
    have done := inv.deliver idle head admitted
    rw [moved] at done
    exact done
  | progress id percentage message =>
    obtain ⟨task, found, working, rfl, rfl⟩ := of_step_progress moved
    exact inv.progress found working admitted
  | worker id move =>
    obtain ⟨task, posted, task', found, worked, rfl, rfl⟩ := of_step_worker moved
    exact inv.worker found worked

end Steps

section Runs

variable {state : State qt} {outputs : List (List (Signal qt))}

theorem invariant_of_run (run : Run step Admits construct outputs state) : Invariant state :=
  run.invariant Invariant .initial fun _ _ _ _ inv admitted taken => inv.of_step admitted taken

/-- If every cancellation comes behind the reports of its task, the overlay is hidden once nothing
is under way, whatever the interleaving. -/
theorem overlay_hidden_when_quiet (run : Run step Admits construct outputs state) :
    HiddenWhenQuiet state :=
  (invariant_of_run run).hidden

theorem overlay_hidden_when_quiet_of_click :
    ∃ outputs state, Run step Admits (construct : State utf8Text) outputs state ∧
      Quiet state.model ∧ HiddenWhenQuiet state := by
  obtain ⟨⟨outputs, state⟩, played⟩ : ∃ result,
      play step Admits (construct : State utf8Text)
        [.progress 0 10 "Reading catalog...".toUTF8.toList, .deliver, .cancelReload,
          .worker 0 (.finish (.returned (.error .cancelled))), .worker 0 .check, .joined] =
        some result := ⟨_, rfl⟩
  have run := run_of_play played
  cases played
  exact ⟨_, _, run, ⟨rfl, rfl, rfl⟩, overlay_hidden_when_quiet run⟩

theorem not_overlay_hidden_when_quiet_of_queued_report :
    ¬ ∀ outputs state, Run step (fun _ _ => True) (construct : State utf8Text) outputs state →
      HiddenWhenQuiet state := by
  intro hidden
  obtain ⟨⟨outputs, state⟩, played⟩ : ∃ result,
      play step (fun _ _ => True) (construct : State utf8Text)
        ((CatalogInventoryService.getInventory false false (.ok [])).1.map
            (fun report => .progress 0 report.1 report.2) ++
          [.deliver, .cancelReload,
            .worker 0 (.finish (.returned
              (CatalogInventoryService.getInventory false false (.ok [])).2)),
            .worker 0 .check, .joined, .deliver]) = some result := ⟨_, rfl⟩
  have run := run_of_play played
  cases played
  cases hidden _ _ run ⟨rfl, rfl, rfl⟩

end Runs

section Exactness

theorem return_ne_startTask : (.return : Continuation qt) ≠ .startTask := nofun

theorem emit_ne_startTask (signal : Signal qt) : Continuation.emit signal ≠ .startTask := nofun

def Unprompted (state : State qt) (action : Action) : Prop :=
  Uncalled state.model action ∧ Admits state action

/-- The event loop and the workers alone bring the overlay to show when nothing is under way. -/
def ReachesShown (state : State qt) : Prop := Reaches step Unprompted (¬ HiddenWhenQuiet ·) state

variable {state : State qt} {signals : List (Signal qt)}

theorem step_of_moved {action : Action} {model : InventoryModel.State qt}
    (moved : InventoryModel.step state.model action = some (signals, model)) :
    ∃ overlay, step state action = some (signals, ⟨model, overlay⟩) := by
  refine ⟨if returnsToClick state.model action then
    onCancelClicked (signals.foldl receive state.overlay)
    else signals.foldl receive state.overlay, ?_⟩
  simp only [step, moved, Option.bind_eq_bind, Option.bind_some]
  rfl

theorem shown_onScanProgress (overlay : ProgressOverlayWidget qt) (percentage : Int)
    (message : qt.QString) : (onScanProgress overlay percentage message).hidden = false := by
  cases shown : overlay.hidden <;>
    simp [onScanProgress, shown, ProgressOverlayWidget.setProgress,
      ProgressOverlayWidget.showOverlay]

theorem deliver_of_none (idle : state.model.uiThread = .idle) (unheld : state.model.loadTask = none)
    {invocation : Invocation (Progress qt) InventoryResult}
    {queue : List (Invocation (Progress qt) InventoryResult)}
    (head : state.model.queue = invocation :: queue) :
    ∃ signals next, step state .deliver = some (signals, next) ∧ next.model.queue = queue ∧
      next.model.uiThread = .idle ∧ next.model.loadTask = none ∧
      (isReport invocation = true → next.overlay.hidden = false) := by
  have moved : InventoryModel.step state.model .deliver =
      some (State.invoke { state.model with queue } invocation) := by
    simp only [InventoryModel.step, idle, head]
  cases invocation with
  | report progress =>
    refine ⟨[.scanProgress progress.percentage progress.message],
      ⟨{ state.model with queue },
        onScanProgress state.overlay progress.percentage progress.message⟩, ?_, rfl, idle, unheld,
      fun _ => shown_onScanProgress _ _ _⟩
    simp only [step, moved, Option.bind_eq_bind, Option.bind_some]
    rfl
  | callback id callback =>
    obtain ⟨mods, signal, _, same⟩ := State.invoke_callback { state.model with queue } id callback
    rw [same, State.resetLoadTask_none { state.model with mods, queue } unheld] at moved
    obtain ⟨overlay, taken⟩ := step_of_moved moved
    refine ⟨_, _, taken, rfl, rfl, unheld, fun report => ?_⟩
    cases report

theorem reaches_shown {queue : List (Invocation (Progress qt) InventoryResult)} :
    ∀ state : State qt, state.model.queue = queue → state.model.uiThread = .idle →
      state.model.loadTask = none → EndsWithReport queue → ReachesShown state := by
  induction queue with
  | nil =>
    intro state _ _ _ last
    exact absurd last not_endsWithReport_nil
  | cons invocation queue ih =>
    intro state head idle unheld last
    have unprompted : Unprompted state .deliver :=
      ⟨not_false, fun _ id held => by cases unheld.symm.trans held⟩
    obtain ⟨signals, next, taken, rest, idle', unheld', shown⟩ :=
      deliver_of_none idle unheld head
    cases queue with
    | nil =>
      refine .of_step taken unprompted (.here fun hidden => ?_)
      cases (shown last).symm.trans (hidden ⟨unheld', idle', rest⟩)
    | cons second queue =>
      exact .of_step taken unprompted
        (ih next rest idle' unheld' ((endsWithReport_cons (List.cons_ne_nil _ _)).mp last))

def withTask (model : InventoryModel.State qt) (id : Nat) (task : AsyncTask InventoryResult) :
    InventoryModel.State qt :=
  { model with tasks := model.tasks.set id task }

theorem step_worker {id : Nat} {task task' : AsyncTask InventoryResult}
    {move : WorkerMove InventoryResult} (found : state.model.tasks[id]? = some task)
    (moved : task.work id move = some (([] : List (Invocation (Progress qt) _)), task')) :
    ∃ overlay, step state (.worker id move) =
      some ([], ⟨withTask state.model id task', overlay⟩) := by
  apply step_of_moved
  simp only [InventoryModel.step, found, moved, Option.bind_eq_bind, Option.bind_some,
    List.append_nil]
  rfl

section Stopped

variable (state : State qt) {id : Nat} {continuation : Continuation qt}
  {task : AsyncTask InventoryResult} (waiting : state.model.uiThread = .joining id continuation)
  (returns : continuation ≠ .startTask) (unheld : state.model.loadTask = none)
  (found : state.model.tasks[id]? = some task) (last : EndsWithReport state.model.queue)

include waiting returns unheld found last

theorem reaches_shown_of_ended (ended : task.Ended) : ReachesShown state := by
  have worker : task.worker = .ended := ended
  have moved : InventoryModel.step state.model .joined = some (state.model.proceed continuation) := by
    simp only [InventoryModel.step, waiting, found, Option.map_some, worker, if_true]
  obtain ⟨overlay, taken⟩ := step_of_moved moved
  have still : (state.model.proceed continuation).2.loadTask = none := by
    cases continuation with
    | startTask => exact absurd rfl returns
    | _ => exact unheld
  exact .of_step taken ⟨not_false, trivial⟩ (reaches_shown
    ⟨(state.model.proceed continuation).2, overlay⟩ (state.model.queue_proceed continuation)
    (state.model.uiThread_proceed continuation) still last)

theorem reaches_shown_of_finished (stopped : task.stopRequested = true)
    {outcome : Outcome InventoryResult} (finished : task.worker = .finished outcome) :
    ReachesShown state := by
  have moved : task.work id .check =
      some (([] : List (Invocation (Progress qt) _)), { task with worker := .ended }) := by
    simp only [AsyncTask.work, finished, stopped, if_true]
  obtain ⟨overlay, taken⟩ := step_worker found moved
  exact .of_step taken ⟨not_false, trivial⟩ (reaches_shown_of_ended
    ⟨withTask state.model id { task with worker := .ended }, overlay⟩ waiting returns unheld
    (getElem?_set_of_found found _) last rfl)

theorem reaches_shown_of_unchecked (stopped : task.stopRequested = true)
    (unchecked : task.Unchecked) : ReachesShown state := by
  cases moment : task.worker with
  | finished outcome =>
    exact reaches_shown_of_finished state waiting returns unheld found last stopped moment
  | working =>
    have moved : task.work id (.finish .unknown) = some
        (([] : List (Invocation (Progress qt) _)), { task with worker := .finished .unknown }) := by
      simp only [AsyncTask.work, moment]
    obtain ⟨overlay, taken⟩ := step_worker found moved
    exact .of_step taken ⟨not_false, trivial⟩ (reaches_shown_of_finished
      ⟨withTask state.model id { task with worker := .finished .unknown }, overlay⟩ waiting returns
      unheld (getElem?_set_of_found found _) last stopped rfl)
  | passed callback => simp [AsyncTask.Unchecked, moment] at unchecked
  | ended => simp [AsyncTask.Unchecked, moment] at unchecked

end Stopped

theorem reaches_shown_of_reset {model : InventoryModel.State qt} {id : Nat}
    {task : AsyncTask InventoryResult} (held : model.loadTask = some id)
    (found : model.tasks[id]? = some task) (unchecked : task.Unchecked)
    (last : EndsWithReport model.queue) {continuation : Continuation qt}
    (returns : continuation ≠ .startTask) (overlay : ProgressOverlayWidget qt) :
    ReachesShown ⟨(model.resetLoadTask continuation).2, overlay⟩ := by
  have cancelled := State.tasks_stop found
  rw [model.resetLoadTask_some held]
  exact reaches_shown_of_unchecked ⟨_, overlay⟩ rfl returns rfl cancelled last rfl unchecked

section Further

variable {next : State qt}

theorem stopsCleanly_of_click (moved : InventoryModel.step state.model .cancelReload =
      some (signals, next.model)) (unreached : ¬ ReachesShown next) : StopsCleanly state.model := by
  intro id held task found unchecked last
  obtain ⟨_, moved⟩ := of_step_cancelReload moved
  rw [State.cancelReload_eq] at moved
  have reached := reaches_shown_of_reset held found unchecked last return_ne_startTask next.overlay
  rw [moved] at reached
  exact unreached reached

theorem admits_deliver (moved : InventoryModel.step state.model .deliver =
      some (signals, next.model)) (unreached : ¬ ReachesShown next) : Admits state .deliver := by
  intro isCallback id held task found unchecked last
  obtain ⟨invocation, queue, _, head, moved⟩ := of_step_deliver moved
  rw [head] at isCallback last
  cases invocation with
  | report progress => cases isCallback
  | callback caller callback =>
    obtain ⟨mods, signal, _, invoked⟩ :=
      State.invoke_callback { state.model with queue } caller callback
    rw [invoked] at moved
    have reached := @reaches_shown_of_reset _ { state.model with mods, queue } _ _ held found
      unchecked (endsWithReport_of_callback last) (.emit signal) (emit_ne_startTask signal)
      next.overlay
    rw [moved] at reached
    exact unreached reached

theorem admits_progress (phase : Phase state.model) {id : Nat} {percentage : Int} {message : Bytes}
    (moved : InventoryModel.step state.model (.progress id percentage message) =
      some (signals, next.model)) (unreached : ¬ ReachesShown next) :
    Admits state (.progress id percentage message) := by
  intro task found stopped
  obtain ⟨model, overlay⟩ := next
  obtain ⟨_, foundHere, working, _, rfl⟩ := of_step_progress moved
  cases found.symm.trans foundHere
  have running : ¬ task.Ended := AsyncTask.not_ended_of_working working
  cases phase with
  | resting _ _ ended => exact absurd (ended id task found) running
  | @loading held _ _ _ foundHeld others unstopped =>
    obtain rfl : id = held := by_contra fun differs => running (others id differs task found)
    cases found.symm.trans foundHeld
    cases stopped.symm.trans unstopped
  | @joining joined _ continuation waiting unheld _ others =>
    obtain rfl : id = joined := by_contra fun differs => running (others id differs task found)
    by_contra returns
    refine unreached (reaches_shown_of_unchecked ⟨_, overlay⟩ waiting ?_ unheld found
      (endsWithReport_append_singleton.mpr rfl) stopped (by simp [AsyncTask.Unchecked, working]))
    rintro rfl
    exact returns (by rw [waiting]; rfl)

/-- After a run of admitted steps, a further step is admitted exactly if the overlay is hidden
whenever nothing is under way afterwards, before the next call. -/
theorem admits_iff {outputs : List (List (Signal qt))} {action : Action}
    (run : Run step Admits construct outputs state)
    (taken : step state action = some (signals, next)) :
    Admits state action ↔
      ∀ outputs' later, Run step Unprompted next outputs' later → HiddenWhenQuiet later := by
  constructor
  · intro admitted outputs' later further
    exact overlay_hidden_when_quiet ((run.snoc admitted taken).trans
      (further.mono fun _ _ unprompted => unprompted.2))
  · intro hidden
    have unreached : ¬ ReachesShown next := not_reaches_iff.mpr fun outputs' later further =>
      not_not.mpr (hidden outputs' later further)
    obtain ⟨moved, _⟩ := of_step taken
    cases action with
    | cancelReload => exact stopsCleanly_of_click moved unreached
    | deliver => exact admits_deliver moved unreached
    | progress id percentage message =>
      exact admits_progress (invariant_of_run run).phase moved unreached
    | reload => trivial
    | joined => trivial
    | worker id move => trivial

end Further

end Exactness

end FastModManager.Ui.MainWindow
