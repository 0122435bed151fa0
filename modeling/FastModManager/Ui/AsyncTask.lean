import FastModManager.Domain.Package

universe u v

namespace FastModManager.Ui

open Domain

variable {ρ : Type u} {α : Type v}

inductive Outcome (α : Type v) where
  | returned (result : α)
  | exception (what : Bytes)
  | unknown
  deriving DecidableEq, Repr

inductive Callback (α : Type v) where
  | onSuccess (result : α)
  | onError (msg : Bytes)
  deriving DecidableEq, Repr

def Outcome.callback : Outcome α → Callback α
  | .returned result => .onSuccess result
  | .exception what => .onError what
  | .unknown => .onError "Unknown error occurred".toUTF8.toList

/-- What is queued for the UI thread: a report that the work makes on its way, or the callback
of a task. -/
inductive Invocation (ρ : Type u) (α : Type v) where
  | report (report : ρ)
  | callback (task : Nat) (callback : Callback α)
  deriving DecidableEq, Repr

inductive Worker (α : Type v) where
  | working
  | finished (outcome : Outcome α)
  /-- No stop was requested when the worker looked; the callback is not posted yet. -/
  | passed (callback : Callback α)
  | ended
  deriving DecidableEq, Repr

structure AsyncTask (α : Type v) where
  stopRequested : Bool
  worker : Worker α
  deriving DecidableEq, Repr

inductive WorkerMove (α : Type v) where
  | finish (outcome : Outcome α)
  | check
  | post
  deriving DecidableEq, Repr

namespace AsyncTask

def start : AsyncTask α := ⟨false, .working⟩

def cancel (task : AsyncTask α) : AsyncTask α := { task with stopRequested := true }

def work (task : AsyncTask α) (id : Nat) :
    WorkerMove α → Option (List (Invocation ρ α) × AsyncTask α)
  | .finish outcome =>
    match task.worker with
    | .working => some ([], { task with worker := .finished outcome })
    | _ => none
  | .check =>
    match task.worker with
    | .finished outcome =>
      if task.stopRequested then some ([], { task with worker := .ended })
      else some ([], { task with worker := .passed outcome.callback })
    | _ => none
  | .post =>
    match task.worker with
    | .passed callback => some ([.callback id callback], { task with worker := .ended })
    | _ => none

/-- The worker has not looked at the stop token after its work. -/
def Unchecked (task : AsyncTask α) : Prop :=
  match task.worker with
  | .working | .finished _ => True
  | .passed _ | .ended => False

instance : (task : AsyncTask α) → Decidable task.Unchecked
  | ⟨_, .working⟩ => isTrue trivial
  | ⟨_, .finished _⟩ => isTrue trivial
  | ⟨_, .passed _⟩ => isFalse id
  | ⟨_, .ended⟩ => isFalse id

def MayPost (task : AsyncTask α) : Prop :=
  match task.worker with
  | .working | .finished _ => task.stopRequested = false
  | .passed _ => True
  | .ended => False

def Ended (task : AsyncTask α) : Prop := task.worker = .ended

@[simp] theorem stopRequested_cancel (task : AsyncTask α) : task.cancel.stopRequested = true := rfl

@[simp] theorem worker_cancel (task : AsyncTask α) : task.cancel.worker = task.worker := rfl

theorem not_mayPost_of_ended {task : AsyncTask α} (ended : task.Ended) : ¬ task.MayPost := by
  rw [Ended] at ended
  simp [MayPost, ended]

theorem not_ended_of_working {task : AsyncTask α} (working : task.worker = .working) :
    ¬ task.Ended := by
  intro ended
  cases working.symm.trans ended

theorem Unchecked.not_ended {task : AsyncTask α} (unchecked : task.Unchecked) : ¬ task.Ended := by
  intro ended
  rw [Ended] at ended
  simp [Unchecked, ended] at unchecked

theorem Unchecked.not_mayPost_cancel {task : AsyncTask α} (unchecked : task.Unchecked) :
    ¬ task.cancel.MayPost := by
  cases same : task.worker <;> simp_all [Unchecked, MayPost]

theorem work_post (task : AsyncTask α) {callback : Callback α}
    (passed : task.worker = .passed callback) (id : Nat) :
    task.work id (.post : WorkerMove α) =
      some ([(.callback id callback : Invocation ρ α)], { task with worker := .ended }) := by
  simp only [work, passed]

theorem work_cases {task task' : AsyncTask α} {id : Nat} {move : WorkerMove α}
    {posted : List (Invocation ρ α)} (moved : task.work id move = some (posted, task')) :
    task'.stopRequested = task.stopRequested ∧ ¬ task.Ended ∧
      ((∃ callback, task.worker = .passed callback ∧ task'.Ended ∧
          posted = [.callback id callback]) ∨
        posted = [] ∧ (task'.MayPost ↔ task.MayPost) ∧
          (task'.Ended → task.stopRequested = true)) := by
  cases move with
  | finish outcome =>
    cases same : task.worker <;> simp [work, same] at moved
    obtain ⟨rfl, rfl⟩ := moved
    simp [Ended, MayPost, same]
  | check =>
    cases same : task.worker <;> simp [work, same] at moved
    split at moved <;> (obtain ⟨rfl, rfl⟩ := Prod.mk.inj (Option.some.inj moved))
    all_goals simp_all [Ended, MayPost]
  | post =>
    cases same : task.worker <;> simp [work, same] at moved
    obtain ⟨rfl, rfl⟩ := moved
    simp [Ended, same]

end AsyncTask

end FastModManager.Ui
