import FastModManager.Foundation.OrderedMap
import FastModManager.Foundation.Program

namespace FastModManager.Core

open Foundation

inductive Failure where
  | invalidArgument (what : String)
  | logicError (what : String)
  | runtimeError (what : String)
  | other (exception : Nat)
  /-- A pointer is used as one to an interface that it was not made for. -/
  | undefinedBehaviour
  deriving DecidableEq, Repr

section Registry

variable {Interface : Type} [DecidableEq Interface] (Service : Interface → Type)

/-- `std::shared_ptr<void>`: what it points to is not part of its type. -/
abbrev VoidPointer := Σ interface, Service interface

structure ServiceRegistry where
  services : Map Interface (VoidPointer Service)

variable {Service}

namespace ServiceRegistry

def create : ServiceRegistry Service := ⟨∅⟩

def nullService : Failure := .invalidArgument "Cannot register a null service"

def alreadyRegistered : Failure := .logicError "Service already registered"

def notFound : Failure := .runtimeError "Service not found in registry"

def staticPointerCast (interface : Interface) (pointer : VoidPointer Service) :
    Except Failure (Service interface) :=
  if same : pointer.1 = interface then .ok (same ▸ pointer.2) else .error .undefinedBehaviour

def registerService (registry : ServiceRegistry Service) (interface : Interface)
    (service : Option (Service interface)) : Except Failure Unit × ServiceRegistry Service :=
  match service with
  | none => (.error nullService, registry)
  | some service =>
    if interface ∈ registry.services then (.error alreadyRegistered, registry)
    else (.ok (), ⟨registry.services.insert interface ⟨interface, service⟩⟩)

def resolve (registry : ServiceRegistry Service) (interface : Interface) :
    Except Failure (Service interface) :=
  match registry.services.lookup interface with
  | none => .error notFound
  | some pointer => staticPointerCast interface pointer

def hasService (registry : ServiceRegistry Service) (interface : Interface) : Bool :=
  decide (interface ∈ registry.services)

end ServiceRegistry

end Registry

section Calls

variable {Interface : Type} {Service : Interface → Type}

variable (Service) in
inductive Request where
  | registerService (interface : Interface) (service : Option (Service interface))
  | resolve (interface : Interface)
  | hasService (interface : Interface)

variable (Service) in
def Answer : Request Service → Type
  | .registerService _ _ => Except Failure Unit
  | .resolve interface => Except Failure (Service interface)
  | .hasService _ => Bool

variable (Service) in
/-- A program that is given a registry; an exception that it does not catch ends it. -/
abbrev Composition := ExceptT Failure (Program (Answer Service))

namespace Composition

def registerService (interface : Interface) (service : Option (Service interface)) :
    Composition Service Unit := .mk (.call (.registerService interface service) .done)

def resolve (interface : Interface) : Composition Service (Service interface) :=
  .mk (.call (.resolve interface) .done)

def hasService (interface : Interface) : Composition Service Bool :=
  .mk (.call (.hasService interface) fun found => .done (.ok found))

end Composition

variable [DecidableEq Interface]

namespace ServiceRegistry

def handle (registry : ServiceRegistry Service) :
    (request : Request Service) → Answer Service request × ServiceRegistry Service
  | .registerService interface service => registry.registerService interface service
  | .resolve interface => (registry.resolve interface, registry)
  | .hasService interface => (registry.hasService interface, registry)

def offered (interface : Interface) (call : Call (Answer Service)) :
    Option (Service interface) :=
  match call.1 with
  | .registerService other (some service) =>
    if same : other = interface then some (same ▸ service) else none
  | _ => none

def firstRegistered (calls : List (Call (Answer Service))) (interface : Interface) :
    Option (Service interface) :=
  calls.findSome? (offered interface)

def specified (calls : List (Call (Answer Service))) :
    (request : Request Service) → Answer Service request
  | .registerService _ none => .error nullService
  | .registerService interface (some _) =>
    match firstRegistered calls interface with
    | some _ => .error alreadyRegistered
    | none => .ok ()
  | .resolve interface =>
    match firstRegistered calls interface with
    | some service => .ok service
    | none => .error notFound
  | .hasService interface => (firstRegistered calls interface).isSome

def Records (calls : List (Call (Answer Service))) (registry : ServiceRegistry Service) :
    Prop :=
  ∀ interface, registry.services.lookup interface =
    (firstRegistered calls interface).map (Sigma.mk interface)

section Records

variable {calls : List (Call (Answer Service))} {registry : ServiceRegistry Service}

theorem records_create : Records [] (create : ServiceRegistry Service) := fun _ => rfl

theorem Records.mem_iff (records : Records calls registry) (interface : Interface) :
    interface ∈ registry.services ↔ (firstRegistered calls interface).isSome = true := by
  rw [← AList.lookup_isSome, records interface, Option.isSome_map]

theorem firstRegistered_append (calls later : List (Call (Answer Service)))
    (interface : Interface) :
    firstRegistered (calls ++ later) interface =
      (firstRegistered calls interface).or (firstRegistered later interface) := by
  rw [firstRegistered, List.findSome?_append]
  rfl

theorem Records.keep (records : Records calls registry) {call : Call (Answer Service)}
    (silent : ∀ interface, firstRegistered calls interface = none → offered interface call = none) :
    Records (calls ++ [call]) registry := by
  intro interface
  rw [records interface, firstRegistered_append]
  cases found : firstRegistered calls interface with
  | some service => rfl
  | none => simp [firstRegistered, silent interface found]

theorem Records.insert (records : Records calls registry) {interface : Interface}
    (new : firstRegistered calls interface = none) (service : Service interface)
    (answer : Except Failure Unit) :
    Records (calls ++ [⟨.registerService interface (some service), answer⟩])
      ⟨registry.services.insert interface ⟨interface, service⟩⟩ := by
  intro other
  rw [firstRegistered_append]
  by_cases same : other = interface
  · subst same
    rw [AList.lookup_insert, new]
    simp [firstRegistered, offered]
  · rw [AList.lookup_insert_ne same, records other]
    simp [firstRegistered, offered, Ne.symm same]

theorem handle_of_records (calls : List (Call (Answer Service)))
    (registry : ServiceRegistry Service) (request : Request Service)
    (records : Records calls registry) :
    (handle registry request).1 = specified calls request ∧
      Records (calls ++ [⟨request, (handle registry request).1⟩]) (handle registry request).2 := by
  cases request with
  | registerService interface service =>
    cases service with
    | none => exact ⟨rfl, records.keep fun _ _ => rfl⟩
    | some service =>
      cases found : firstRegistered calls interface with
      | some first =>
        have known : interface ∈ registry.services := by simp [records.mem_iff, found]
        simp only [handle, registerService, if_pos known, specified, found]
        refine ⟨rfl, records.keep fun other new => ?_⟩
        have different : interface ≠ other := by
          rintro rfl
          cases found.symm.trans new
        simp [offered, different]
      | none =>
        have new : interface ∉ registry.services := by simp [records.mem_iff, found]
        simp only [handle, registerService, if_neg new, specified, found]
        exact ⟨rfl, records.insert found service _⟩
  | resolve interface =>
    refine ⟨?_, records.keep fun _ _ => rfl⟩
    simp only [handle, resolve, records interface, specified]
    cases firstRegistered calls interface with
    | none => rfl
    | some service =>
      simp only [Option.map_some, staticPointerCast, dif_pos]
      rfl
  | hasService interface =>
    refine ⟨?_, records.keep fun _ _ => rfl⟩
    simp only [handle, hasService, specified, records.mem_iff, Bool.decide_eq_true]
    rfl

end Records

theorem answers_as_specified {α : Type} (program : Program (Answer Service) α) :
    Program.Answered specified [] (program.execute handle create).calls ∧
      Records (program.execute handle create).calls (program.execute handle create).state :=
  Program.answered_of_record Records handle_of_records program records_create

end ServiceRegistry

end Calls

end FastModManager.Core
