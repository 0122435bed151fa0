import FastModManager.Core.ServiceRegistry
import FastModManager.Domain.Package

namespace FastModManager.App

open Foundation FastModManager.Core Domain

structure DependencyIssue where
  name : Bytes
  description : Bytes
  resolutionHint : Bytes
  deriving DecidableEq, Repr

inductive Interface where
  | dependencyValidator
  | packageCatalog
  | inventoryService
  | other (typeIndex : Nat)
  deriving DecidableEq

inductive DependencyValidator where
  | dependencyValidatorImpl
  | other (missing : List DependencyIssue)
  deriving DecidableEq, Repr

inductive PackageCatalog where
  | jsonPackageCatalog (catalogFile : Bytes)
  | other (object : Nat)
  deriving DecidableEq, Repr

inductive InventoryService where
  | catalogInventoryService (catalog : PackageCatalog)
  | other (object : Nat)
  deriving DecidableEq, Repr

abbrev Service : Interface → Type
  | .dependencyValidator => DependencyValidator
  | .packageCatalog => PackageCatalog
  | .inventoryService => InventoryService
  | .other _ => Nat

def text (literal : String) : Bytes := literal.toUTF8.toList

namespace DependencyValidator

def minLibarchiveVersion : Int := 3000000

def outdatedLibarchive : DependencyIssue where
  name := text "libarchive"
  description := text "Outdated libarchive version detected."
  resolutionHint := text "Please upgrade libarchive to version 3.0 or higher."

def getMissingDependencies (archiveVersionNumber : Int) : DependencyValidator → List DependencyIssue
  | .dependencyValidatorImpl =>
    if archiveVersionNumber < minLibarchiveVersion then [outdatedLibarchive] else []
  | .other missing => missing

theorem getMissingDependencies_ne_nil (archiveVersionNumber : Int) :
    dependencyValidatorImpl.getMissingDependencies archiveVersionNumber ≠ [] ↔
      archiveVersionNumber < minLibarchiveVersion := by
  rw [getMissingDependencies]
  split <;> simp [*]

end DependencyValidator

inductive MessageBox where
  | warning (title message : Bytes)
  | information (title message : Bytes)
  deriving DecidableEq, Repr

structure Bootstrapper where
  inventoryService : InventoryService
  deriving DecidableEq, Repr

namespace Bootstrapper

def buildServiceGraph (compositionHook : Option (Composition Service Unit)) :
    Composition Service Bootstrapper := do
  Composition.registerService Interface.dependencyValidator
    (some DependencyValidator.dependencyValidatorImpl)
  match compositionHook with
  | some hook => hook
  | none => pure ()
  let inventoryService : InventoryService ← Composition.resolve Interface.inventoryService
  return ⟨inventoryService⟩

def issueText (issue : DependencyIssue) : Bytes :=
  text "- " ++ issue.name ++ text ": " ++ issue.description ++ text "\n  " ++
    issue.resolutionHint ++ text "\n\n"

def checkDependencies (archiveVersionNumber : Int) (validator : DependencyValidator) : MessageBox :=
  let missing := validator.getMissingDependencies archiveVersionNumber
  if missing ≠ [] then
    .warning (text "Missing Prerequisites")
      (missing.foldl (fun message issue => message ++ issueText issue)
        (text "The following prerequisite packages or requirements are missing or outdated:\n\n"))
  else
    .information (text "Prerequisites Checked")
      (text "All prerequisite packages and requirements are satisfied.")

/-- The boxes that are shown before the event loop starts, and the one that the slot of
`requestDependencyCheck` shows. -/
def run (archiveVersionNumber : Int) : Composition Service (List MessageBox × MessageBox) := do
  let validator : DependencyValidator ← Composition.resolve Interface.dependencyValidator
  let box := checkDependencies archiveVersionNumber validator
  let initialMissing := validator.getMissingDependencies archiveVersionNumber
  return (if initialMissing ≠ [] then [box] else [], box)

end Bootstrapper

def compositionHook (catalogFile : Bytes) : Composition Service Unit := do
  Composition.registerService Interface.packageCatalog
    (some (PackageCatalog.jsonPackageCatalog catalogFile))
  let catalog : PackageCatalog ← Composition.resolve Interface.packageCatalog
  Composition.registerService Interface.inventoryService
    (some (InventoryService.catalogInventoryService catalog))

namespace Bootstrapper

open ServiceRegistry

def executeIn {α : Type} (registry : ServiceRegistry Service)
    (composition : Composition Service α) :
    Execution (Answer Service) (ServiceRegistry Service) (Except Failure α) :=
  composition.run.execute handle registry

section Execute

variable {α β : Type} (registry : ServiceRegistry Service)

theorem executeIn_bind (composition : Composition Service α) (next : α → Composition Service β) :
    executeIn registry (composition >>= next) =
      let first := executeIn registry composition
      match first.value with
      | .ok value =>
        let second := executeIn first.state (next value)
        { second with calls := first.calls ++ second.calls }
      | .error failure => ⟨.error failure, first.calls, first.state⟩ := by
  rw [executeIn, ExceptT.run_bind, Program.execute_bind]
  simp only [executeIn]
  cases (composition.run.execute handle registry).value with
  | ok value => rfl
  | error failure => simp

theorem executeIn_registerService (interface : Interface) (service : Option (Service interface)) :
    executeIn registry (Composition.registerService interface service) =
      let (answer, next) := registry.registerService interface service
      ⟨answer, [⟨.registerService interface service, answer⟩], next⟩ := rfl

theorem executeIn_resolve (interface : Interface) :
    executeIn registry (Composition.resolve interface) =
      ⟨registry.resolve interface, [⟨.resolve interface, registry.resolve interface⟩],
      registry⟩ := rfl

end Execute

def given : ServiceRegistry Service :=
  (create.registerService Interface.dependencyValidator
    (some DependencyValidator.dependencyValidatorImpl)).2

def givenCall : Call (Answer Service) :=
  ⟨.registerService Interface.dependencyValidator
    (some DependencyValidator.dependencyValidatorImpl), .ok ()⟩

theorem records_given : Records [givenCall] given :=
  (handle_of_records [] create givenCall.1 records_create).2

theorem resolve_of_records {calls : List (Call (Answer Service))}
    {registry : ServiceRegistry Service} (records : Records calls registry)
    (interface : Interface) : registry.resolve interface = specified calls (.resolve interface) :=
  (handle_of_records calls registry (.resolve interface) records).1

theorem executeIn_buildServiceGraph (hook : Option (Composition Service Unit)) :
    let composed := executeIn given (hook.getD (pure ()))
    let built := executeIn create (buildServiceGraph hook)
    built.value = (composed.value.bind fun _ =>
        (composed.state.resolve Interface.inventoryService).map Bootstrapper.mk) ∧
      built.state = composed.state := by
  have resolves (registry : ServiceRegistry Service) :
      executeIn registry (do
          let service : InventoryService ← Composition.resolve Interface.inventoryService
          return Bootstrapper.mk service) =
        ⟨(registry.resolve Interface.inventoryService).map Bootstrapper.mk,
          [⟨.resolve Interface.inventoryService, registry.resolve Interface.inventoryService⟩],
          registry⟩ := by
    rw [executeIn_bind, executeIn_resolve]
    cases registry.resolve Interface.inventoryService with
    | ok service => rfl
    | error failure => rfl
  rw [buildServiceGraph, executeIn_bind, executeIn_registerService]
  have accepted : create.registerService Interface.dependencyValidator
      (some DependencyValidator.dependencyValidatorImpl) = (.ok (), given) := rfl
  simp only [accepted]
  cases hook with
  | none =>
    simp only [resolves]
    exact ⟨rfl, rfl⟩
  | some hook =>
    simp only [executeIn_bind, resolves, Option.getD_some]
    cases (executeIn given hook).value with
    | ok _ => exact ⟨rfl, rfl⟩
    | error failure => exact ⟨rfl, rfl⟩

theorem value_run {registry : ServiceRegistry Service} (archiveVersionNumber : Int)
    {validator : DependencyValidator}
    (resolved : registry.resolve Interface.dependencyValidator = .ok validator) :
    (executeIn registry (run archiveVersionNumber)).value =
      .ok (if validator.getMissingDependencies archiveVersionNumber ≠ [] then
          [checkDependencies archiveVersionNumber validator] else [],
        checkDependencies archiveVersionNumber validator) := by
  rw [run, executeIn_bind, executeIn_resolve, resolved]
  rfl

theorem composed_as_specified (hook : Composition Service Unit) :
    Program.Answered specified [givenCall] (executeIn given hook).calls ∧
      Records (givenCall :: (executeIn given hook).calls) (executeIn given hook).state :=
  Program.answered_of_record Records handle_of_records hook.run records_given

/-- Whatever the hook does with the registry, catches and throws: it cannot replace the
bootstrapper's validator, which decides what is shown at the start; and the user interface is built
exactly where the hook returns and passed an inventory service, on the first that it passed. -/
theorem composes (hook : Option (Composition Service Unit)) (archiveVersionNumber : Int) :
    let composed := executeIn given (hook.getD (pure ()))
    let built := executeIn create (buildServiceGraph hook)
    (∀ validator answer, ⟨.registerService Interface.dependencyValidator (some validator), answer⟩ ∈
        composed.calls → answer = .error alreadyRegistered) ∧
      built.value = (composed.value.bind fun _ =>
        match firstRegistered composed.calls Interface.inventoryService with
        | some service => .ok ⟨service⟩
        | none => .error notFound) ∧
      (executeIn built.state (run archiveVersionNumber)).value =
        .ok (let box := checkDependencies archiveVersionNumber .dependencyValidatorImpl
          (if archiveVersionNumber < 3000000 then [box] else [], box)) := by
  intro composed built
  obtain ⟨answered, records⟩ := composed_as_specified (hook.getD (pure ()))
  obtain ⟨value, state⟩ := executeIn_buildServiceGraph hook
  refine ⟨?_, ?_, ?_⟩
  · intro validator answer called
    obtain ⟨before, after, split⟩ := List.append_of_mem called
    exact answered before _ after split
  · refine value.trans ?_
    rw [resolve_of_records records]
    cases composed.value with
    | error failure => rfl
    | ok _ =>
      have skipped : firstRegistered (givenCall :: composed.calls) Interface.inventoryService =
          firstRegistered composed.calls Interface.inventoryService := rfl
      simp only [Except.bind, specified]
      rw [skipped]
      cases firstRegistered composed.calls Interface.inventoryService with
      | none => rfl
      | some service => rfl
  · have own := resolve_of_records records Interface.dependencyValidator
    rw [show built.state = composed.state from state, value_run archiveVersionNumber own]
    simp only [DependencyValidator.getMissingDependencies_ne_nil]
    rfl

example : (executeIn create (buildServiceGraph none)).value = .error notFound := rfl

theorem buildServiceGraph_compositionHook (catalogFile : Bytes) :
    (executeIn create (buildServiceGraph (some (compositionHook catalogFile)))).value =
      .ok ⟨.catalogInventoryService (.jsonPackageCatalog catalogFile)⟩ := rfl

end Bootstrapper

end FastModManager.App
