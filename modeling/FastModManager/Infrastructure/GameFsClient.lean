import FastModManager.Domain.Package
import FastModManager.Foundation.Checked
import FastModManager.Foundation.TransitionSystem
import Mathlib.Data.List.Perm.Basic

namespace FastModManager.Infrastructure.GameFsClient

open Foundation Domain TransitionSystem

section Interface

/-- A pointer to characters: null, or what can be read from there. -/
abbrev CString := Option Bytes

structure FmmStringArray where
  data : Option (List CString)
  length : Nat
  deriving DecidableEq, Repr

structure FmmGameFsPlan where
  profileId : CString
  targetGameDirectory : CString
  deployedFiles : FmmStringArray
  deriving DecidableEq, Repr

abbrev FmmContext := Nat

def fromPtr : CString → Checked Bytes
  | none => .error .nullDereference
  | some readable =>
    if 0 ∈ readable then .ok (readable.takeWhile (· ≠ 0)) else .error .outOfRange

def fromRawParts (data : List CString) (length : Nat) : Checked (List CString) :=
  if length ≤ data.length then .ok (data.take length) else .error .outOfRange

def readFiles : List CString → Checked Int
  | [] => return 0
  | ptr :: slice => do
    if ptr = none then return -1
    let _ ← fromPtr ptr
    readFiles slice

def fmmGamefsApplyPlan (ctx : Option FmmContext) (plan : Option FmmGameFsPlan) : Checked Int :=
  match ctx, plan with
  | none, _ | _, none => return -1
  | some _, some planRef => do
    if planRef.profileId = none ∨ planRef.targetGameDirectory = none then return -1
    let _ ← fromPtr planRef.profileId
    let _ ← fromPtr planRef.targetGameDirectory
    if planRef.deployedFiles.length > 0 then
      match planRef.deployedFiles.data with
      | none => return -1
      | some data =>
        let slice ← fromRawParts data planRef.deployedFiles.length
        readFiles slice
    else return 0

/-- `Box::into_raw` gives a box out; where is up to the allocator. -/
def fmmContextCreate (pointer : FmmContext) (boxes : List FmmContext) :
    FmmContext × List FmmContext :=
  (pointer, pointer :: boxes)

def fmmContextDestroy (ctx : Option FmmContext) (boxes : List FmmContext) :
    Checked (List FmmContext) :=
  match ctx with
  | none => .ok boxes
  | some ctx => if ctx ∈ boxes then .ok (boxes.erase ctx) else .error .outOfRange

end Interface

section Client

structure LegacyGameFsAbiPlan where
  profileId : Bytes
  targetGameDirectory : Bytes
  deployedFiles : List Bytes
  deriving DecidableEq, Repr

def cStr (text : Bytes) : CString := some (text ++ [0])

def applyPlan (handle : Option FmmContext) (plan : LegacyGameFsAbiPlan) : Checked Bool := do
  if handle = none then return false
  let filePointers := plan.deployedFiles.map cStr
  let array : FmmStringArray :=
    { data := if filePointers = [] then none else some filePointers
      length := filePointers.length }
  let cPlan : FmmGameFsPlan :=
    { profileId := cStr plan.profileId
      targetGameDirectory := cStr plan.targetGameDirectory
      deployedFiles := array }
  let result ← fmmGamefsApplyPlan handle (some cPlan)
  return result = 0

/-- The handles of the clients that were made, none for those that were destroyed, and the boxes
that were given out. -/
structure State where
  clients : List (Option (Option FmmContext))
  boxes : List FmmContext
  deriving DecidableEq, Repr

inductive Action where
  | construct (pointer : FmmContext)
  | moveConstruct (other : Nat)
  | moveAssign (target other : Nat)
  | destruct (target : Nat)
  | applyPlan (target : Nat) (plan : LegacyGameFsAbiPlan)
  deriving DecidableEq, Repr

def State.initial : State := ⟨[], []⟩

def State.handle (state : State) (client : Nat) : Option (Option FmmContext) :=
  state.clients[client]?.join

def step (state : State) : Action → Option (Checked (Option Bool) × State)
  | .construct pointer =>
    let (handle, boxes) := fmmContextCreate pointer state.boxes
    some (.ok none, ⟨state.clients ++ [some (some handle)], boxes⟩)
  | .moveConstruct other => do
    let handle ← state.handle other
    return (.ok none, { state with clients := state.clients.set other (some none) ++ [some handle] })
  | .moveAssign target other => do
    let handle ← state.handle target
    let moved ← state.handle other
    if target = other then return (.ok none, state)
    match if handle = none then .ok state.boxes else fmmContextDestroy handle state.boxes with
    | .error fault => return (.error fault, state)
    | .ok boxes =>
      return (.ok none, ⟨(state.clients.set target (some moved)).set other (some none), boxes⟩)
  | .destruct target => do
    let handle ← state.handle target
    match if handle = none then .ok state.boxes else fmmContextDestroy handle state.boxes with
    | .error fault => return (.error fault, state)
    | .ok boxes => return (.ok none, ⟨state.clients.set target none, boxes⟩)
  | .applyPlan target plan => do
    let handle ← state.handle target
    return ((applyPlan handle plan).map some, state)

end Client

section Plan

variable {handle : Option FmmContext} {plan : LegacyGameFsAbiPlan}

theorem cStr_ne_none (text : Bytes) : cStr text ≠ none := nofun

theorem takeWhile_terminated (text : Bytes) :
    (text ++ [0]).takeWhile (· ≠ 0) = text.takeWhile (· ≠ 0) := by
  induction text with
  | nil => rfl
  | cons byte text ih =>
    by_cases zero : byte = 0
    · simp [zero]
    · simpa [zero] using ih

theorem fromPtr_cStr (text : Bytes) : fromPtr (cStr text) = .ok (text.takeWhile (· ≠ 0)) := by
  have ends : (0 : UInt8) ∈ text ++ [0] := List.mem_append_right _ List.mem_cons_self
  rw [cStr, fromPtr, if_pos ends, takeWhile_terminated]

theorem readFiles_cStr (files : List Bytes) : readFiles (files.map cStr) = .ok 0 := by
  induction files with
  | nil => rfl
  | cons file files ih =>
    rw [List.map_cons, readFiles, fromPtr_cStr]
    exact ih

theorem fromRawParts_self (data : List CString) : fromRawParts data data.length = .ok data := by
  rw [fromRawParts, if_pos (Nat.le_refl _), List.take_length]

theorem fmmGamefsApplyPlan_cStr (ctx : FmmContext) (profileId targetGameDirectory : Bytes)
    (files : List Bytes) :
    fmmGamefsApplyPlan (some ctx) (some ⟨cStr profileId, cStr targetGameDirectory,
      ⟨if files.map cStr = [] then none else some (files.map cStr), (files.map cStr).length⟩⟩) =
        .ok 0 := by
  simp only [fmmGamefsApplyPlan, cStr_ne_none, or_self, if_false, fromPtr_cStr, Checked.ok_bind]
  cases files with
  | nil => rfl
  | cons file files =>
    have some : (file :: files).map cStr ≠ [] := List.cons_ne_nil _ _
    rw [if_neg some, if_pos (List.length_pos_iff.mpr some)]
    simp only [fromRawParts_self, Checked.ok_bind, readFiles_cStr]

theorem applyPlan_eq (handle : Option FmmContext) (plan : LegacyGameFsAbiPlan) :
    applyPlan handle plan = .ok handle.isSome := by
  cases handle with
  | none => rfl
  | some ctx =>
    simp only [applyPlan, reduceCtorEq, if_false, fmmGamefsApplyPlan_cStr, Checked.ok_bind]
    rfl

end Plan

section Ownership

variable {clients : List (Option (Option FmmContext))} {client : Option (Option FmmContext)}
  {boxes held' : List FmmContext} {handle : Option FmmContext} {state next : State} {action : Action}
  {output : Checked (Option Bool)}

def held (clients : List (Option (Option FmmContext))) : List FmmContext :=
  clients.filterMap Option.join

theorem held_append_singleton :
    held (clients ++ [client]) = held clients ++ client.join.toList := by
  rw [held, List.filterMap_append, held]
  cases same : client.join <;> simp [same]

theorem held_set_perm {index : Nat} (found : clients[index]? = some client)
    (client' : Option (Option FmmContext)) :
    (client.join.toList ++ held (clients.set index client')).Perm
      (client'.join.toList ++ held clients) := by
  induction clients generalizing index with
  | nil => cases found
  | cons first rest ih =>
    have split (client : Option (Option FmmContext)) (rest : List (Option (Option FmmContext))) :
        held (client :: rest) = client.join.toList ++ held rest := by
      cases same : client.join <;> simp [held, same]
    cases index with
    | zero =>
      cases found
      rw [List.set_cons_zero, split, split, ← List.append_assoc, ← List.append_assoc]
      exact List.perm_append_comm.append_right _
    | succ index =>
      rw [List.set_cons_succ, split, split]
      calc
        (client.join.toList ++ (first.join.toList ++ held (rest.set index client'))).Perm
            (first.join.toList ++ (client.join.toList ++ held (rest.set index client'))) :=
          List.perm_append_comm_assoc _ _ _
        List.Perm _ (first.join.toList ++ (client'.join.toList ++ held rest)) :=
          (ih found).append_left _
        List.Perm _ (client'.join.toList ++ (first.join.toList ++ held rest)) :=
          List.perm_append_comm_assoc _ _ _

theorem held_moved_perm {target other : Nat} {handle moved : Option FmmContext}
    (differs : target ≠ other) (foundTarget : clients[target]? = some (some handle))
    (foundOther : clients[other]? = some (some moved)) :
    (held clients).Perm (handle.toList ++
      held ((clients.set target (some moved)).set other (some none))) := by
  have stillThere : (clients.set target (some moved))[other]? = some (some moved) := by
    rw [List.getElem?_set_ne differs, foundOther]
  have assigned := held_set_perm foundTarget (some moved)
  have emptied := held_set_perm stillThere (some none)
  refine (List.perm_append_left_iff moved.toList).mp ?_
  calc
    (moved.toList ++ held clients).Perm
        (handle.toList ++ held (clients.set target (some moved))) := assigned.symm
    List.Perm _ (handle.toList ++ (moved.toList ++
        held ((clients.set target (some moved)).set other (some none)))) :=
      emptied.symm.append_left _
    List.Perm _ (moved.toList ++ (handle.toList ++
        held ((clients.set target (some moved)).set other (some none)))) :=
      List.perm_append_comm_assoc _ _ _

/-- A box is out for every context that a client owns, and for no other. -/
def Owned (state : State) : Prop := state.boxes.Perm (held state.clients)

theorem handle_eq_some_iff {index : Nat} :
    state.handle index = some handle ↔ state.clients[index]? = some (some handle) := by
  rw [State.handle, Option.join_eq_some_iff]

theorem exists_destroyed (owned : boxes.Perm (handle.toList ++ held')) :
    ∃ left, (if handle = none then .ok boxes else fmmContextDestroy handle boxes) = .ok left ∧
      left.Perm held' := by
  cases handle with
  | none => exact ⟨boxes, if_pos rfl, owned⟩
  | some ctx =>
    have out : ctx ∈ boxes := owned.mem_iff.mpr List.mem_cons_self
    refine ⟨boxes.erase ctx, ?_, ?_⟩
    · rw [if_neg nofun, fmmContextDestroy, if_pos out]
    · have erased := owned.erase ctx
      rwa [Option.toList_some, List.singleton_append, List.erase_cons_head] at erased

theorem Owned.of_step (owned : Owned state) (taken : step state action = some (output, next)) :
    Owned next ∧ ∃ answer, output = .ok answer := by
  cases action with
  | construct pointer =>
    cases taken
    refine ⟨?_, none, rfl⟩
    change (pointer :: state.boxes).Perm (held (state.clients ++ [some (some pointer)]))
    rw [held_append_singleton]
    exact (owned.cons pointer).trans (List.perm_append_singleton _ _).symm
  | moveConstruct other =>
    simp only [step, Option.bind_eq_bind, Option.bind_eq_some_iff] at taken
    obtain ⟨handle, alive, same⟩ := taken
    cases same
    refine ⟨?_, none, rfl⟩
    have moved := held_set_perm (handle_eq_some_iff.mp alive) (some none)
    change state.boxes.Perm (held (state.clients.set other (some none) ++ [some handle]))
    rw [held_append_singleton]
    exact (owned.trans moved.symm).trans List.perm_append_comm
  | moveAssign target other =>
    simp only [step, Option.bind_eq_bind, Option.bind_eq_some_iff] at taken
    obtain ⟨handle, aliveTarget, moved, aliveOther, taken⟩ := taken
    by_cases same : target = other
    · rw [if_pos same] at taken
      cases taken
      exact ⟨owned, none, rfl⟩
    · obtain ⟨left, destroyed, rest⟩ := exists_destroyed (owned.trans (held_moved_perm same
        (handle_eq_some_iff.mp aliveTarget) (handle_eq_some_iff.mp aliveOther)))
      rw [if_neg same, destroyed] at taken
      cases taken
      exact ⟨rest, none, rfl⟩
  | destruct target =>
    simp only [step, Option.bind_eq_bind, Option.bind_eq_some_iff] at taken
    obtain ⟨handle, alive, taken⟩ := taken
    have parted : state.boxes.Perm (handle.toList ++ held (state.clients.set target none)) :=
      owned.trans (held_set_perm (handle_eq_some_iff.mp alive) none).symm
    obtain ⟨left, destroyed, rest⟩ := exists_destroyed parted
    rw [destroyed] at taken
    cases taken
    exact ⟨rest, none, rfl⟩
  | applyPlan target plan =>
    simp only [step, Option.bind_eq_bind, Option.bind_eq_some_iff] at taken
    obtain ⟨handle, _, same⟩ := taken
    rw [applyPlan_eq] at same
    cases same
    exact ⟨owned, some handle.isSome, rfl⟩

/-- However clients are made, moved and destroyed: nothing is destroyed twice and no plan is read
out of bounds; the contexts that are out are those that clients own, so that none is left when the
clients are gone; and a plan is taken exactly by a client that owns a context. -/
theorem owns_each_context_once (outputs : List (Checked (Option Bool))) (state : State)
    (run : Run step (fun _ _ => True) State.initial outputs state) :
    (∀ output ∈ outputs, ∃ answer, output = .ok answer) ∧
    state.boxes.Perm (held state.clients) ∧
    ((∀ client ∈ state.clients, client = none) → state.boxes = []) ∧
    ∀ target plan handle, state.handle target = some handle →
      step state (.applyPlan target plan) = some (.ok (some handle.isSome), state) := by
  obtain ⟨answered, owned⟩ := run.traced
    (fun outputs state => (∀ output ∈ outputs, ∃ answer, output = .ok answer) ∧ Owned state)
    ⟨nofun, .refl _⟩ (by
      rintro outputs state action output next ⟨answered, owned⟩ _ taken
      obtain ⟨owned', answer⟩ := owned.of_step taken
      refine ⟨List.forall_mem_append.mpr ⟨answered, ?_⟩, owned'⟩
      simpa using answer)
  refine ⟨answered, owned, fun gone => ?_, ?_⟩
  · have none : held state.clients = [] := by
      refine List.filterMap_eq_nil_iff.mpr fun client member => ?_
      rw [gone client member]
      rfl
    rw [Owned, none] at owned
    exact owned.eq_nil
  · intro target plan handle alive
    simp only [step, alive, applyPlan_eq, Option.bind_eq_bind, Option.bind_some]
    rfl

theorem owns_each_context_once_of_moved :
    ∃ outputs state, Run step (fun _ _ => True) State.initial outputs state ∧
      outputs.length = 7 ∧ state.boxes = [] := by
  obtain ⟨⟨outputs, state⟩, played⟩ : ∃ result,
      play step (fun _ _ => True) State.initial
        [.construct 1, .construct 1, .moveAssign 1 0, .moveConstruct 1, .destruct 0, .destruct 1,
          .destruct 2] = some result := ⟨_, rfl⟩
  have run := run_of_play played
  cases played
  exact ⟨_, _, run, rfl, (owns_each_context_once _ _ run).2.2.1 (by decide)⟩

end Ownership

end FastModManager.Infrastructure.GameFsClient
