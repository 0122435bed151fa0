import FastModManager.Domain.CycleSearchLaws

namespace FastModManager.Domain.PackageDependencyGraph

open Foundation Relation

section Record

variable (enabledPackages : List PackageId) (adjacency : AdjacencyList)

def searchFromRecorded : List PackageIndex → SearchState → List SearchState →
    Checked (Option (List PackageId) × List SearchState)
  | [], _, iterations => return (none, iterations)
  | start :: starts, state, iterations => do
    match ← checkedAt state.states start with
    | .unvisited =>
      let entered ← state.enter start
      match ← iterateRecorded (visitStep enabledPackages adjacency) (visitFuel adjacency) entered
        iterations with
      | (.cycle packages, iterations) => return (some packages, iterations)
      | (.exhausted finished, iterations) => searchFromRecorded starts finished iterations
    | _ => searchFromRecorded starts state iterations

def findCycleRecorded : Checked (Option (List PackageId) × List SearchState) :=
  searchFromRecorded enabledPackages adjacency (List.range enabledPackages.length)
    { states := List.replicate enabledPackages.length .unvisited
      positions := List.replicate enabledPackages.length noPosition
      path := []
      stack := [] } []

variable {enabledPackages adjacency}

theorem fst_searchFromRecorded {starts : List PackageIndex} :
    ∀ {state : SearchState} {iterations : List SearchState},
      Prod.fst <$> searchFromRecorded enabledPackages adjacency starts state iterations =
        searchFrom enabledPackages adjacency starts state := by
  induction starts with
  | nil => intro state iterations; rfl
  | cons start starts ih =>
    intro state iterations
    simp only [searchFromRecorded, searchFrom]
    cases checkedAt state.states start with
    | error fault => rfl
    | ok mark =>
      cases mark with
      | unvisited =>
        cases state.enter start with
        | error fault => rfl
        | ok entered =>
          simp only [Checked.ok_bind]
          rw [← fst_iterateRecorded (visitFuel adjacency) entered iterations]
          cases iterateRecorded (visitStep enabledPackages adjacency) (visitFuel adjacency) entered
              iterations with
          | error fault => rfl
          | ok outcome =>
            obtain ⟨outcome, all⟩ := outcome
            cases outcome with
            | cycle packages => rfl
            | exhausted finished => exact ih
      | visiting => exact ih
      | visited => exact ih

theorem fst_findCycleRecorded :
    Prod.fst <$> findCycleRecorded enabledPackages adjacency =
      findCycle enabledPackages adjacency :=
  fst_searchFromRecorded

end Record

structure Resting (count : Nat) (adjacency : AdjacencyList) (known : List VisitState)
    (state : SearchState) : Prop where
  invariant : SearchInvariant count adjacency state
  stack : state.stack = []
  keeps : Keeps known state.states

theorem Resting.visited_or_unvisited {count : Nat} {adjacency : AdjacencyList}
    {known : List VisitState} {state : SearchState} (rest : Resting count adjacency known state)
    {package : PackageIndex} (inside : package < count)
    (seen : state.states[package]? ≠ some .unvisited) : state.states[package]? = some .visited := by
  have inside' : package < state.states.length := rest.invariant.states_length.symm ▸ inside
  have mark := List.getElem?_eq_getElem inside'
  cases current : state.states[package] with
  | unvisited => rw [current] at mark; exact absurd mark seen
  | visiting =>
    rw [current] at mark
    have onPath := (rest.invariant.visiting_iff package).mp mark
    simp [rest.invariant.path_eq, rest.stack] at onPath
  | visited => rw [mark, current]

def SearchPost (enabledPackages : List PackageId) (adjacency : AdjacencyList)
    (known : List VisitState) : SearchOutcome → Prop
  | .exhausted state => Resting enabledPackages.length adjacency known state
  | .cycle packages => IsCycle enabledPackages adjacency packages

theorem visitLoop_spec {enabledPackages : List PackageId} {adjacency : AdjacencyList}
    {state : SearchState} {iterations : List SearchState}
    (valid : ValidAdjacency enabledPackages.length adjacency)
    (inv : SearchInvariant enabledPackages.length adjacency state)
    (before : ∀ earlier ∈ iterations, SearchInvariant enabledPackages.length adjacency earlier)
    (fuel : pending enabledPackages.length adjacency state < visitFuel adjacency) :
    ∃ outcome, iterateRecorded (visitStep enabledPackages adjacency) (visitFuel adjacency) state
        iterations = .ok outcome ∧
      SearchPost enabledPackages adjacency state.states outcome.1 ∧
      ∀ earlier ∈ outcome.2, SearchInvariant enabledPackages.length adjacency earlier := by
  refine iterateRecorded_total
    (fun s => SearchInvariant enabledPackages.length adjacency s ∧ Keeps state.states s.states)
    (pending enabledPackages.length adjacency) (fun _ => And.left) ?_ ⟨inv, Keeps.refl _⟩ before fuel
  rintro s ⟨inv, keeps⟩
  rcases visitStep_spec valid inv with
    ⟨next, ran, inv', keeps', less⟩ | ⟨empty, ran⟩ | ⟨packages, ran, cycle⟩
  · exact .inl ⟨next, ran, ⟨inv', keeps.trans keeps'⟩, less⟩
  · exact .inr ⟨_, ran, ⟨inv, empty, keeps⟩⟩
  · exact .inr ⟨_, ran, cycle⟩

def StartsPost (enabledPackages : List PackageId) (adjacency : AdjacencyList)
    (known : List VisitState) (starts : List PackageIndex) : Option (List PackageId) → Prop
  | none => ∃ final, Resting enabledPackages.length adjacency known final ∧
      ∀ start ∈ starts, final.states[start]? ≠ some .unvisited
  | some packages => IsCycle enabledPackages adjacency packages

theorem StartsPost.cons {enabledPackages : List PackageId} {adjacency : AdjacencyList}
    {known known' : List VisitState} {start : PackageIndex} {starts : List PackageIndex}
    {result : Option (List PackageId)} (keeps : Keeps known known')
    (seen : known'[start]? ≠ some .unvisited)
    (post : StartsPost enabledPackages adjacency known' starts result) :
    StartsPost enabledPackages adjacency known (start :: starts) result := by
  cases result with
  | some packages => exact post
  | none =>
    obtain ⟨final, rest, all⟩ := post
    refine ⟨final, ⟨rest.invariant, rest.stack, keeps.trans rest.keeps⟩, ?_⟩
    exact List.forall_mem_cons.mpr ⟨rest.keeps start seen, all⟩

theorem searchFromRecorded_spec {enabledPackages : List PackageId} {adjacency : AdjacencyList}
    (valid : ValidAdjacency enabledPackages.length adjacency) (starts : List PackageIndex)
    {state : SearchState} {iterations : List SearchState}
    (inside : ∀ start ∈ starts, start < enabledPackages.length)
    (inv : SearchInvariant enabledPackages.length adjacency state) (empty : state.stack = [])
    (before : ∀ earlier ∈ iterations, SearchInvariant enabledPackages.length adjacency earlier) :
    ∃ result all, searchFromRecorded enabledPackages adjacency starts state iterations =
        .ok (result, all) ∧
      StartsPost enabledPackages adjacency state.states starts result ∧
      ∀ earlier ∈ all, SearchInvariant enabledPackages.length adjacency earlier := by
  induction starts generalizing state iterations with
  | nil => exact ⟨none, iterations, rfl, ⟨state, ⟨inv, empty, Keeps.refl _⟩, by simp⟩, before⟩
  | cons start starts ih =>
    have inside' : ∀ other ∈ starts, other < enabledPackages.length :=
      fun other h => inside other (List.mem_cons_of_mem _ h)
    have startLt : start < state.states.length := inv.states_length.symm ▸ inside start (by simp)
    have mark := List.getElem?_eq_getElem startLt
    generalize state.states[start] = current at mark
    have markAt : checkedAt state.states start = .ok current := checkedAt_eq_ok.mpr mark
    by_cases unvisited : current = .unvisited
    · subst unvisited
      obtain ⟨entered, ran, inv', states, stack⟩ :=
        inv.enter [] (by simp [empty]) mark trivial
      have fuel : pending enabledPackages.length adjacency entered < visitFuel adjacency := by
        have bound := unvisitedWork_le adjacency state.states
        rw [valid.length] at bound
        rw [pending_entered (inside start (by simp)) mark states stack]
        simpa using bound
      have ran' : state.enter start = .ok entered := by
        rw [← empty] at ran; exact ran
      obtain ⟨⟨outcome, all⟩, looped, post, during⟩ := visitLoop_spec valid inv' before fuel
      have keeps : Keeps state.states entered.states := states ▸ keeps_set _ _ nofun
      have known : entered.states[start]? ≠ some .unvisited := by
        simp [states, List.getElem?_set_self startLt]
      simp only [searchFromRecorded, markAt, ran', looped, Checked.ok_bind]
      cases outcome with
      | cycle packages => exact ⟨some packages, all, rfl, post, during⟩
      | exhausted finished =>
        obtain ⟨result, all', ran, found, during'⟩ :=
          ih inside' post.invariant post.stack during
        exact ⟨result, all', ran, found.cons (keeps.trans post.keeps) (post.keeps start known),
          during'⟩
    · obtain ⟨result, all, ran, found, during⟩ := ih inside' inv empty before
      refine ⟨result, all, ?_, found.cons (Keeps.refl _) (by rw [mark]; simpa using unvisited),
        during⟩
      simp only [searchFromRecorded, markAt, Checked.ok_bind]
      cases current with
      | unvisited => exact absurd rfl unvisited
      | visiting => exact ran
      | visited => exact ran

theorem findCycleRecorded_spec {enabledPackages : List PackageId} {adjacency : AdjacencyList}
    (valid : ValidAdjacency enabledPackages.length adjacency) :
    ∃ result iterations, findCycle enabledPackages adjacency = .ok result ∧
      findCycleRecorded enabledPackages adjacency = .ok (result, iterations) ∧
      StartsPost enabledPackages adjacency (List.replicate enabledPackages.length .unvisited)
        (List.range enabledPackages.length) result ∧
      ∀ state ∈ iterations, SearchInvariant enabledPackages.length adjacency state := by
  obtain ⟨result, iterations, recorded, found, during⟩ :=
    searchFromRecorded_spec valid (List.range enabledPackages.length)
      (fun _ h => List.mem_range.mp h) (SearchInvariant.initial enabledPackages.length adjacency)
      rfl (List.forall_mem_nil _)
  have ran : findCycleRecorded enabledPackages adjacency = .ok (result, iterations) := recorded
  refine ⟨result, iterations, ?_, ran, found, during⟩
  rw [← fst_findCycleRecorded, ran]
  rfl

theorem findCycle_spec {enabledPackages : List PackageId} {adjacency : AdjacencyList}
    (valid : ValidAdjacency enabledPackages.length adjacency) :
    ∃ result, findCycle enabledPackages adjacency = .ok result ∧
      match result with
      | none => Acyclic (Edge adjacency)
      | some packages => IsCycle enabledPackages adjacency packages := by
  obtain ⟨result, _, ran, _, found, _⟩ := findCycleRecorded_spec valid
  refine ⟨result, ran, ?_⟩
  cases result with
  | some packages => exact found
  | none =>
    obtain ⟨final, rest, seen⟩ := found
    refine rest.invariant.closed.acyclic_of_all fun {source target} step => ?_
    have sourceLt := valid.length ▸ step.source_lt
    exact rest.visited_or_unvisited sourceLt (seen source (List.mem_range.mpr sourceLt))

section Consistency

/-- The containers of the search agree: the path is what the frames say, the back of the stack
last, and positions are those on the path. -/
structure Consistent (adjacency : AdjacencyList) (state : SearchState) : Prop where
  path_eq : state.path = (state.stack.map (·.package)).reverse
  visiting_iff : ∀ package : Nat, state.states[package]? = some .visiting ↔
    ∃ index, state.positions[package]? = some index ∧
      ∀ place : Nat, state.path[place]? = some package ↔ place = index
  visited_closed : ∀ package child : Nat, state.states[package]? = some .visited →
    Edge adjacency package child → state.states[child]? = some .visited
  position_lt : ∀ package cycleStart : Nat, state.states[package]? = some .visiting →
    state.positions[package]? = some cycleStart → cycleStart < state.path.length

theorem SearchInvariant.consistent {count : Nat} {adjacency : AdjacencyList} {state : SearchState}
    (inv : SearchInvariant count adjacency state) : Consistent adjacency state where
  path_eq := inv.path_eq
  visiting_iff package := by
    rw [inv.visiting_iff]
    constructor
    · intro onPath
      obtain ⟨index, here⟩ := List.mem_iff_getElem?.mp onPath
      refine ⟨index, inv.position here, fun place => ⟨fun there => ?_, fun same => same ▸ here⟩⟩
      exact Option.some.inj ((inv.position there).symm.trans (inv.position here))
    · rintro ⟨index, _, places⟩
      exact List.mem_of_getElem? ((places index).mpr rfl)
  visited_closed _ _ visited step := inv.closed.closed visited step
  position_lt package cycleStart visiting position := by
    obtain ⟨index, here⟩ := List.mem_iff_getElem?.mp ((inv.visiting_iff package).mp visiting)
    obtain rfl := Option.some.inj (position.symm.trans (inv.position here))
    exact (List.getElem?_eq_some_iff.mp here).1

theorem findCycle_stays_consistent (enabledPackages : List PackageId) (adjacency : AdjacencyList)
    (valid : ValidAdjacency enabledPackages.length adjacency) :
    ∃ result iterations, findCycle enabledPackages adjacency = .ok result ∧
      findCycleRecorded enabledPackages adjacency = .ok (result, iterations) ∧
      ∀ state ∈ iterations, Consistent adjacency state := by
  obtain ⟨result, iterations, ran, recorded, _, invariants⟩ := findCycleRecorded_spec valid
  exact ⟨result, iterations, ran, recorded, fun state member => (invariants state member).consistent⟩

theorem findCycle_stays_consistent_of_cycle :
    ∃ iterations, findCycleRecorded [⟨[1]⟩, ⟨[2]⟩, ⟨[3]⟩] [[1], [2], [1]] =
        .ok (some [⟨[2]⟩, ⟨[3]⟩, ⟨[2]⟩], iterations) ∧
      iterations.length = 3 ∧ ∀ state ∈ iterations, Consistent [[1], [2], [1]] state := by
  obtain ⟨result, iterations, _, recorded, consistent⟩ :=
    findCycle_stays_consistent [⟨[1]⟩, ⟨[2]⟩, ⟨[3]⟩] [[1], [2], [1]] (by decide)
  cases recorded
  exact ⟨_, rfl, rfl, consistent⟩

end Consistency

end FastModManager.Domain.PackageDependencyGraph
