import FastModManager.Application.CatalogInventoryService
import FastModManager.Infrastructure.JsonPackageCatalogRuns
import FastModManager.Ui.InventoryModelLedger
import FastModManager.Ui.InventoryModelTermination

namespace FastModManager.Ui.InventoryModel

open Domain Application Infrastructure Foundation TransitionSystem

variable {qt : QtText} {state next : State qt} {signals : List (Signal qt)} {action : Action}

/-- A step without calls; a load task that is not stopped has the given result. Its stop token was
not requested earlier either, when the service asked for it. -/
structure Serves (result : InventoryResult) (state : State qt) (action : Action) : Prop where
  uncalled : Uncalled state action
  finishes : ∀ id outcome, action = .worker id (.finish outcome) →
    ∀ task ∈ state.tasks[id]?, task.stopRequested = false → outcome = .returned result

def endings (signals : List (Signal qt)) : List (Signal qt) := signals.filter fun signal =>
  !isProgress signal

def shownPackages (before : List InstalledPackage) : InventoryResult → List InstalledPackage
  | .ok packages => packages
  | .error _ => before

section Phases

variable {result : InventoryResult} {before : List InstalledPackage} {id : Nat}
  {ended : List (Signal qt)} {task : AsyncTask InventoryResult}

def Brings (result : InventoryResult) (task : AsyncTask InventoryResult) : Prop :=
  match task.worker with
  | .finished outcome => outcome = .returned result
  | .passed callback => callback = .onSuccess result
  | .working | .ended => True

/-- How far a reload is, with the signals that ended a scan since. -/
inductive Refreshing (result : InventoryResult) (before : List InstalledPackage) (id : Nat) :
    List (Signal qt) → State qt → Prop
  | waiting {state : State qt} {old : Nat} (joining : state.uiThread = .joining old .startTask)
    (next : state.tasks.length = id) (mods : state.mods = before) :
      Refreshing result before id [] state
  | loading {state : State qt} {task : AsyncTask InventoryResult} (idle : state.uiThread = .idle)
    (held : state.loadTask = some id) (found : state.tasks[id]? = some task)
    (unstopped : task.stopRequested = false) (brings : Brings result task)
    (queued : ∀ other callback, .callback other callback ∈ state.queue →
      callback = .onSuccess result)
    (mods : state.mods = before) : Refreshing result before id [] state
  | closing {state : State qt}
    (joining : state.uiThread = .joining id (.emit (endOf (.onSuccess result))))
    (mods : state.mods = shownPackages before result) : Refreshing result before id [] state
  | done {state : State qt} (idle : state.uiThread = .idle) (none : state.loadTask = none)
    (mods : state.mods = shownPackages before result) :
    Refreshing result before id [endOf (.onSuccess result)] state

theorem isProgress_endOf (callback : Callback InventoryResult) :
    isProgress (endOf callback : Signal qt) = false := by
  match callback with
  | .onError msg => rfl
  | .onSuccess (.ok packages) => rfl
  | .onSuccess (.error error) =>
    rw [endOf]
    split <;> rfl

theorem not_callback_mem_of_pending (empty : state.pending = []) (other : Nat)
    (callback : Callback InventoryResult) : .callback other callback ∉ state.queue := by
  intro member
  have queued : other ∈ state.pending := List.mem_filterMap.mpr ⟨_, member, rfl⟩
  rw [empty] at queued
  cases queued

namespace Refreshing

theorem proceed (coherent : Coherent state) (none : state.loadTask = none)
    (mods : state.mods = before) :
    Refreshing result before state.tasks.length [] (state.proceed .startTask).2 :=
  .loading rfl rfl List.getElem?_concat_length rfl trivial
    (fun other callback member =>
      absurd member (not_callback_mem_of_pending (coherent.pending_of_none none) other callback)) mods

theorem reload (coherent : Coherent state) (taken : step state .reload = some (signals, next)) :
    Refreshing result state.mods state.tasks.length [] next := by
  obtain ⟨_, moved⟩ := of_step_reload taken
  rw [← show _ = next from congrArg Prod.snd moved, State.cancelReload_eq]
  cases held : state.loadTask with
  | none =>
    rw [state.resetLoadTask_none held]
    exact proceed coherent held rfl
  | some old =>
    rw [state.resetLoadTask_some held]
    exact .waiting rfl (List.length_modify _ _ _) rfl

theorem of_queue (refreshing : Refreshing result before id ended state)
    {queue : List (Invocation (Progress qt) InventoryResult)}
    (fewer : ∀ other callback, .callback other callback ∈ queue →
      .callback other callback ∈ state.queue) :
    Refreshing result before id ended { state with queue } := by
  cases refreshing with
  | waiting joining next mods => exact .waiting joining next mods
  | loading idle held found unstopped brings queued mods =>
    exact .loading idle held found unstopped brings
      (fun other callback member => queued other callback (fewer other callback member)) mods
  | closing joining mods => exact .closing joining mods
  | done idle none mods => exact .done idle none mods

theorem brings_work {task task' : AsyncTask InventoryResult} {move : WorkerMove InventoryResult}
    {posted : List (Invocation (Progress qt) InventoryResult)} (brings : Brings result task)
    (unstopped : task.stopRequested = false)
    (finishes : ∀ outcome, move = .finish outcome → outcome = .returned result)
    (moved : task.work id move = some (posted, task')) :
    Brings result task' ∧ ∀ other callback, .callback other callback ∈ posted →
      callback = .onSuccess result := by
  obtain ⟨stop, worker⟩ := task
  obtain rfl : stop = false := unstopped
  cases worker with
  | working =>
    cases move with
    | finish outcome =>
      cases moved
      exact ⟨finishes outcome rfl, nofun⟩
    | _ => cases moved
  | finished outcome =>
    cases move with
    | check =>
      cases moved
      obtain rfl : outcome = .returned result := brings
      exact ⟨rfl, nofun⟩
    | _ => cases moved
  | passed callback =>
    cases move with
    | post =>
      cases moved
      refine ⟨trivial, fun other callback' member => ?_⟩
      cases List.mem_singleton.mp member
      exact brings
    | _ => cases moved
  | ended => cases move <;> cases moved

theorem worker (refreshing : Refreshing result before id ended state) (coherent : Coherent state)
    {other : Nat} {task task' : AsyncTask InventoryResult} {move : WorkerMove InventoryResult}
    {posted : List (Invocation (Progress qt) InventoryResult)}
    (serves : Serves result state (.worker other move)) (found : state.tasks[other]? = some task)
    (moved : task.work other move = some (posted, task')) :
    Refreshing result before id ended
      { state with tasks := state.tasks.set other task', queue := state.queue ++ posted } := by
  have finishes (unstopped : task.stopRequested = false) (outcome : Outcome InventoryResult)
      (same : move = .finish outcome) : outcome = .returned result :=
    serves.finishes other outcome (congrArg _ same) task found unstopped
  cases refreshing with
  | waiting joining next mods => exact .waiting joining (List.length_set.trans next) mods
  | loading idle held foundHeld unstopped brings queued mods =>
    by_cases same : other = id
    · subst same
      cases found.symm.trans foundHeld
      obtain ⟨brings', postedRight⟩ := brings_work brings unstopped (finishes unstopped) moved
      have stops := (AsyncTask.work_cases moved).1
      refine .loading idle held (getElem?_set_of_found found task') (stops.trans unstopped) brings'
        ?_ mods
      intro caller callback member
      exact (List.mem_append.mp member).elim (queued caller callback) (postedRight caller callback)
    · refine .loading idle held ((List.getElem?_set_ne same).trans foundHeld) unstopped brings ?_ mods
      intro caller callback member
      -- no other task may post while one is held
      obtain ⟨_, _, ⟨_, passed, _⟩ | ⟨rfl, _⟩⟩ := AsyncTask.work_cases moved
      · have mayPost := coherent.mayPost found (by simp [AsyncTask.MayPost, passed])
        exact absurd (Option.some.inj (mayPost.symm.trans held)) same
      · rw [List.append_nil] at member
        exact queued caller callback member
  | closing joining mods => exact .closing joining mods
  | done idle none mods => exact .done idle none mods

theorem deliver (refreshing : Refreshing result before id ended state) (coherent : Coherent state)
    (idle : state.uiThread = .idle) {invocation : Invocation (Progress qt) InventoryResult}
    {queue : List (Invocation (Progress qt) InventoryResult)}
    (head : state.queue = invocation :: queue) :
    Refreshing result before id
      (ended ++ endings (State.invoke { state with queue } invocation).1)
      (State.invoke { state with queue } invocation).2 := by
  cases invocation with
  | report progress =>
    have silent : endings (State.invoke { state with queue } (.report progress)).1 = [] := rfl
    rw [silent, List.append_nil]
    exact refreshing.of_queue fun _ _ member => head ▸ List.mem_cons_of_mem _ member
  | callback caller callback =>
    have first : .callback caller callback ∈ state.queue := head ▸ List.mem_cons_self
    have absent {none : state.loadTask = none} : False :=
      not_callback_mem_of_pending (coherent.pending_of_none none) caller callback first
    cases refreshing with
    | waiting joining => cases idle.symm.trans joining
    | closing joining => cases idle.symm.trans joining
    | done _ none => exact absurd none fun none => @absent none
    | loading _ held _ _ _ queued mods =>
      obtain rfl := queued caller callback first
      rw [invoke_callback_eq, State.resetLoadTask_some { state with
        mods := (loaded (.callback caller (.onSuccess result) : Invocation (Progress qt) _)).getD
          state.mods, queue } held]
      refine .closing rfl ?_
      change (loaded (.callback caller (.onSuccess result) : Invocation (Progress qt) _)).getD
        state.mods = shownPackages before result
      rw [mods]
      cases result <;> rfl

theorem of_step (refreshing : Refreshing result before id ended state) (coherent : Coherent state)
    (serves : Serves result state action) (taken : step state action = some (signals, next)) :
    Refreshing result before id (ended ++ endings signals) next := by
  cases action with
  | reload => exact absurd trivial serves.uncalled
  | cancelReload => exact absurd trivial serves.uncalled
  | joined =>
    obtain ⟨joined, continuation, waiting, _, moved⟩ := of_step_joined taken
    rw [← show _ = signals from congrArg Prod.fst moved,
      ← show _ = next from congrArg Prod.snd moved]
    cases refreshing with
    | waiting joining next mods =>
      cases waiting.symm.trans joining
      have none := coherent.joining (by simp [waiting])
      exact next ▸ proceed coherent none mods
    | loading idle => cases idle.symm.trans waiting
    | closing joining mods =>
      cases waiting.symm.trans joining
      have single : endings (state.proceed (.emit (endOf (.onSuccess result)))).1 =
          [endOf (.onSuccess result)] := by
        simp [State.proceed, endings, isProgress_endOf]
      rw [single]
      exact .done rfl (coherent.joining (by simp [waiting])) mods
    | done idle => cases idle.symm.trans waiting
  | deliver =>
    obtain ⟨invocation, queue, idle, head, moved⟩ := of_step_deliver taken
    rw [← show _ = signals from congrArg Prod.fst moved,
      ← show _ = next from congrArg Prod.snd moved]
    exact refreshing.deliver coherent idle head
  | progress task percentage message =>
    obtain ⟨_, _, _, rfl, rfl⟩ := of_step_progress taken
    have silent : endings ([] : List (Signal qt)) = [] := rfl
    rw [silent, List.append_nil]
    refine refreshing.of_queue fun other callback member => ?_
    exact (List.mem_append.mp member).elim (fun queued => queued) (by simp)
  | worker task move =>
    obtain ⟨_, _, _, found, moved, rfl, rfl⟩ := of_step_worker taken
    have silent : endings ([] : List (Signal qt)) = [] := rfl
    rw [silent, List.append_nil]
    exact refreshing.worker coherent serves found moved

end Refreshing

end Phases

section Runs

open CatalogInventoryService (getInventory)
open JsonPackageCatalog (TextsSurvive Readable load list answer noFaults)

variable {result : InventoryResult} {outputs : List (List (Signal qt))} {later : State qt}

theorem Serves.ordinary (result : InventoryResult) (state : State qt) (action : Action)
    (ordinary : Ordinary (.returned result) action) : Serves result state action where
  uncalled := ordinary.uncalled
  finishes id outcome same _ _ _ := ordinary.finishes id outcome same

theorem refreshing_of_run (coherent : Coherent state) (inTime : CancelsInTime state .reload)
    (reloaded : step state .reload = some (signals, next))
    (run : Run step (Serves result) next outputs later) :
    Refreshing result state.mods state.tasks.length (endings outputs.flatten) later := by
  have both := run.traced (fun outputs later => Coherent later ∧
    Refreshing result state.mods state.tasks.length (endings outputs.flatten) later)
    ⟨coherent.of_step inTime reloaded, .reload coherent reloaded⟩ (by
      rintro outputs before action signals after ⟨coherent, refreshing⟩ serves taken
      refine ⟨coherent.of_step serves.uncalled.cancelsInTime taken, ?_⟩
      have heard : endings (outputs ++ [signals]).flatten =
          endings outputs.flatten ++ endings signals := by
        simp [endings]
      rw [heard]
      exact refreshing.of_step coherent serves taken)
  exact both.2

theorem Refreshing.of_settled {before : List InstalledPackage} {id : Nat} {ended : List (Signal qt)}
    (refreshing : Refreshing result before id ended later) (settled : Settled later) :
    later.mods = shownPackages before result ∧ ended = [endOf (.onSuccess result)] := by
  cases refreshing with
  | waiting joining => cases settled.uiThread.symm.trans joining
  | loading _ held => cases settled.loadTask.symm.trans held
  | closing joining => cases settled.uiThread.symm.trans joining
  | done _ _ mods => exact ⟨mods, rfl⟩

/-- After a run whose cancellations were in time, a reload that is left to itself can settle, and
wherever it settles it has shown what the catalog file lists, or told once why it does not, with
the packages as they were. -/
theorem reload_shows_listing (qt : QtText) (json : QtJson qt)
    (faults : JsonPackageCatalog.FileFaults)
    (file : Option json.QByteArray) (outputs : List (List (Signal qt))) (state next : State qt)
    (signals : List (Signal qt)) (run : Run step CancelsInTime State.initial outputs state)
    (inTime : CancelsInTime state .reload) (reloaded : step state .reload = some (signals, next)) :
    let result := (getInventory false false (list json faults file)).2
    Reaches step (Serves result) Settled next ∧
      ∀ outputs' later, Run step (Serves result) next outputs' later → Settled later →
        later.mods = shownPackages state.mods result ∧
          endings outputs'.flatten = [endOf (.onSuccess result)] := by
  intro result
  have coherent := coherent_of_run run
  have live : Live state := live_of_run (run.mono fun _ _ _ => trivial)
  refine ⟨(live.of_step reloaded).reaches_settled (.returned result) (Serves.ordinary result), ?_⟩
  intro outputs' later further settled
  exact (refreshing_of_run coherent inTime reloaded further).of_settled settled

/-- A scan that finds a package, and another whose task is replaced while it works. -/
def replacingActions : List Action :=
  [.reload, .worker 0 (.finish (.returned (.ok [JsonPackageCatalog.plainPackage [112]]))),
    .worker 0 .check, .worker 0 .post, .deliver, .joined,
    .reload, .reload, .worker 1 (.finish .unknown), .worker 1 .check, .joined]

theorem exists_replaced :
    ∃ (outputs : List (List (Signal utf8Text))) (state next : State utf8Text)
      (signals : List (Signal utf8Text)), Run step CancelsInTime State.initial outputs state ∧
      CancelsInTime state .reload ∧ step state .reload = some (signals, next) ∧
      state.mods = [JsonPackageCatalog.plainPackage [112]] ∧ Stopped state 1 ∧
      state.loadTask = some 2 := by
  obtain ⟨⟨outputs, state⟩, played⟩ : ∃ result,
      play step CancelsInTime (State.initial : State utf8Text) replacingActions = some result :=
    ⟨_, rfl⟩
  have run := run_of_play played
  cases played
  exact ⟨_, _, _, _, run, by decide, rfl, rfl, ⟨_, rfl, rfl⟩, rfl⟩

theorem reload_shows_listing_of_corrupt :
    ∃ (outputs outputs' : List (List (Signal utf8Text))) (state next later : State utf8Text)
      (signals : List (Signal utf8Text)), Run step CancelsInTime State.initial outputs state ∧
      Stopped state 1 ∧ state.loadTask = some 2 ∧ step state .reload = some (signals, next) ∧
      Run step (Serves (.error .corruptMetadata)) next outputs' later ∧ Settled later ∧
      later.mods = [JsonPackageCatalog.plainPackage [112]] ∧
      endings outputs'.flatten = [.scanFailed (literal utf8Text "Package metadata is corrupt.")] := by
  obtain ⟨outputs, state, next, signals, run, inTime, reloaded, mods, stopped, held⟩ :=
    exists_replaced
  obtain ⟨⟨outputs', later, further, settled⟩, shows⟩ := reload_shows_listing utf8Text
    (plainJson utf8Text) noFaults (some none) outputs state next signals run inTime reloaded
  obtain ⟨kept, endings⟩ := shows outputs' later further settled
  exact ⟨outputs, outputs', state, next, later, signals, run, stopped, held, reloaded, further,
    settled, kept.trans mods, endings⟩

/-- The calls on the catalog file that came before, and the reload that follows them: where it
settles, the packages shown are those of the ordered map after the same calls. -/
theorem reload_shows_catalog (qt : QtText) (json : QtJson qt) (file : Option json.QByteArray)
    (packages : List InstalledPackage) (calls : List CatalogCall)
    (loads : load json noFaults file = .ok packages)
    (stored : ∀ package ∈ packages, TextsSurvive qt package)
    (added : ∀ package, CatalogCall.add package ∈ calls → TextsSurvive qt package)
    (outputs : List (List (Signal qt))) (state next : State qt) (signals : List (Signal qt))
    (run : Run step CancelsInTime State.initial outputs state)
    (inTime : CancelsInTime state .reload) (reloaded : step state .reload = some (signals, next)) :
    ∃ catalog : OrderedCatalog, catalog.packages = packages ∧
      let listing := list json noFaults (Machine.run (answer json noFaults) file calls).2
      let result := (getInventory false false listing).2
      Reaches step (Serves result) Settled next ∧
        ∀ outputs' later, Run step (Serves result) next outputs' later → Settled later →
          later.mods = (Machine.run OrderedCatalog.answer catalog calls).2.packages ∧
            endings outputs'.flatten = [.scanCompleted] := by
  let catalog : OrderedCatalog := ⟨packages, (JsonPackageCatalog.load_ok json loads).1⟩
  have readable : Readable json file catalog.packages :=
    ⟨loads, fun package member => (stored package member).reencodePackage_eq⟩
  obtain ⟨_, readable'⟩ := Machine.run_of_simulation (answer json noFaults) OrderedCatalog.answer
    (fun file (catalog : OrderedCatalog) => Readable json file catalog.packages)
    (fun call : CatalogCall => ∀ package, call = .add package → TextsSurvive qt package)
    (fun _ _ _ readable survive => readable.simulates survive)
    (fun call member package same => added package (same ▸ member)) file catalog readable
  refine ⟨catalog, rfl, ?_⟩
  intro listing result
  have loaded : result = .ok (Machine.run OrderedCatalog.answer catalog calls).2.packages := by
    simp only [result, listing, readable'.list, getInventory, Bool.false_eq_true, if_false]
  have coherent := coherent_of_run run
  have live : Live state := live_of_run (run.mono fun _ _ _ => trivial)
  refine ⟨(live.of_step reloaded).reaches_settled (.returned result) (Serves.ordinary result), ?_⟩
  intro outputs' later further settled
  have shown := (refreshing_of_run coherent inTime reloaded further).of_settled settled
  rw [loaded] at shown
  exact shown

theorem reload_shows_catalog_of_added :
    ∃ (outputs outputs' : List (List (Signal utf8Text))) (state next later : State utf8Text)
      (signals : List (Signal utf8Text)), Run step CancelsInTime State.initial outputs state ∧
      Stopped state 1 ∧ state.loadTask = some 2 ∧ step state .reload = some (signals, next) ∧
      Run step (Serves (.ok [JsonPackageCatalog.plainPackage [113]])) next outputs' later ∧
      Settled later ∧ later.mods = [JsonPackageCatalog.plainPackage [113]] ∧
      endings outputs'.flatten = [.scanCompleted] := by
  obtain ⟨outputs, state, next, signals, run, inTime, reloaded, _, stopped, held⟩ :=
    exists_replaced
  obtain ⟨catalog, empty, ⟨outputs', later, further, settled⟩, shows⟩ := reload_shows_catalog
    utf8Text (plainJson utf8Text) none [] [.add (JsonPackageCatalog.plainPackage [113])] rfl (by simp)
    (by
      intro package member
      obtain rfl : package = JsonPackageCatalog.plainPackage [113] := by simpa using member
      exact ⟨by decide, by decide, by decide, by decide, by simp [JsonPackageCatalog.plainPackage]⟩)
    outputs state next signals run inTime reloaded
  obtain ⟨mods, endings⟩ := shows outputs' later further settled
  refine ⟨outputs, outputs', state, next, later, signals, run, stopped, held, reloaded, further,
    settled, mods.trans ?_, endings⟩
  obtain ⟨packages, distinct⟩ := catalog
  obtain rfl : packages = [] := empty
  rfl

end Runs

end FastModManager.Ui.InventoryModel
