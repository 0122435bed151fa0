import FastModManager.Domain.PackageDependencyGraph
import FastModManager.Foundation.Digraph
import Mathlib.Algebra.BigOperators.Fin
import Mathlib.Algebra.Order.BigOperators.Group.Finset

namespace FastModManager.Domain.PackageDependencyGraph

open Foundation Relation

def children (adjacency : AdjacencyList) (package : PackageIndex) : List PackageIndex :=
  adjacency[package]?.getD []

def Edge (adjacency : AdjacencyList) (source target : PackageIndex) : Prop :=
  target ∈ children adjacency source

structure ValidAdjacency (count : Nat) (adjacency : AdjacencyList) : Prop where
  length : adjacency.length = count
  target_lt : ∀ {source target}, Edge adjacency source target → target < count

theorem validAdjacency_iff {count : Nat} {adjacency : AdjacencyList} :
    ValidAdjacency count adjacency ↔
      adjacency.length = count ∧ ∀ targets ∈ adjacency, ∀ target ∈ targets, target < count := by
  constructor
  · rintro ⟨length, bounded⟩
    refine ⟨length, fun targets member target inTargets => ?_⟩
    obtain ⟨source, found⟩ := List.mem_iff_getElem?.mp member
    apply @bounded source target
    rwa [Edge, children, found]
  · rintro ⟨length, bounded⟩
    refine ⟨length, fun {source target} step => ?_⟩
    rw [Edge, children] at step
    cases found : adjacency[source]? with
    | none => simp [found] at step
    | some targets =>
      rw [found] at step
      exact bounded targets (List.mem_of_getElem? found) target step

instance (count : Nat) (adjacency : AdjacencyList) : Decidable (ValidAdjacency count adjacency) :=
  decidable_of_iff _ validAdjacency_iff.symm

theorem children_of_lt {adjacency : AdjacencyList} {package : PackageIndex}
    (h : package < adjacency.length) :
    checkedAt adjacency package = .ok (children adjacency package) := by
  simp [checkedAt_of_lt h, children, List.getElem?_eq_getElem h]

theorem Edge.source_lt {adjacency : AdjacencyList} {source target : PackageIndex}
    (h : Edge adjacency source target) : source < adjacency.length := by
  by_contra outside
  simp [Edge, children, List.getElem?_eq_none (Nat.le_of_not_lt outside)] at h

theorem marked_iff {states : List VisitState} {package : PackageIndex}
    (inside : package < states.length) (mark other : VisitState) (p : Nat) :
    (states.set package mark)[p]? = some other ↔
      p = package ∧ mark = other ∨ p ≠ package ∧ states[p]? = some other := by
  by_cases same : package = p
  · subst same; simp [List.getElem?_set_self inside]
  · simp [List.getElem?_set_ne same, Ne.symm same]

theorem visited_of_marked_visited {states : List VisitState} {package : PackageIndex}
    (inside : package < states.length) (p : Nat) :
    (states.set package .visited)[p]? = some .visited ↔
      states[p]? = some .visited ∨ p = package := by
  rw [marked_iff inside]
  by_cases same : p = package
  · simp [same]
  · simp [same]

theorem visited_of_marked_visiting {states : List VisitState} {package : PackageIndex}
    (unvisited : states[package]? = some .unvisited) (p : Nat) :
    (states.set package .visiting)[p]? = some .visited ↔ states[p]? = some .visited := by
  rw [marked_iff (List.getElem?_eq_some_iff.mp unvisited).1]
  by_cases same : p = package
  · simp [same, unvisited]
  · simp [same]

/-- What the frames of the stack have already seen. `above` is the package of the
frame on top of the first one: the child it is waiting for. -/
def Scanned (adjacency : AdjacencyList) (states : List VisitState) :
    Option PackageIndex → List VisitFrame → Prop
  | _, [] => True
  | above, frame :: frames =>
    frame.nextChild ≤ (children adjacency frame.package).length ∧
    (∀ child ∈ (children adjacency frame.package).take frame.nextChild,
      states[child]? = some .visited ∨ some child = above) ∧
    (∀ child, above = some child → Edge adjacency frame.package child) ∧
    Scanned adjacency states (some frame.package) frames

theorem Scanned.mono {adjacency : AdjacencyList} {states states' : List VisitState}
    (keeps : ∀ package : Nat, states[package]? = some .visited → states'[package]? = some .visited) :
    ∀ {above : Option PackageIndex} {frames : List VisitFrame},
      Scanned adjacency states above frames → Scanned adjacency states' above frames := by
  intro above frames
  induction frames generalizing above with
  | nil => exact id
  | cons frame frames ih =>
    rintro ⟨bound, seen, waiting, rest⟩
    exact ⟨bound, fun child h => (seen child h).imp_left (keeps child), waiting, ih rest⟩

theorem Scanned.resume {adjacency : AdjacencyList} {states : List VisitState}
    {finished : PackageIndex} {frames : List VisitFrame}
    (h : Scanned adjacency states (some finished) frames)
    (visited : states[finished]? = some .visited) : Scanned adjacency states none frames := by
  cases frames with
  | nil => trivial
  | cons frame frames =>
    obtain ⟨bound, seen, _, rest⟩ := h
    refine ⟨bound, fun child hc => ?_, nofun, rest⟩
    rcases seen child hc with done | same
    · exact .inl done
    · obtain rfl := Option.some.inj same; exact .inl visited

theorem Scanned.isChain {adjacency : AdjacencyList} {states : List VisitState}
    {above : PackageIndex} {frames : List VisitFrame}
    (h : Scanned adjacency states (some above) frames) :
    (above :: frames.map (·.package)).IsChain fun target source => Edge adjacency source target := by
  induction frames generalizing above with
  | nil => simp
  | cons frame frames ih =>
    obtain ⟨_, _, waiting, rest⟩ := h
    exact List.isChain_cons_cons.mpr ⟨waiting above rfl, ih rest⟩

structure SearchInvariant (count : Nat) (adjacency : AdjacencyList) (state : SearchState) :
    Prop where
  states_length : state.states.length = count
  positions_length : state.positions.length = count
  path_eq : state.path = (state.stack.map (·.package)).reverse
  path_nodup : state.path.Nodup
  visiting_iff : ∀ package : Nat, state.states[package]? = some .visiting ↔ package ∈ state.path
  position : ∀ {index package : Nat}, state.path[index]? = some package →
    state.positions[package]? = some index
  scanned : Scanned adjacency state.states none state.stack
  closed : ClosedAcyclic (Edge adjacency) fun package => state.states[package]? = some .visited

theorem SearchInvariant.path_lt {count : Nat} {adjacency : AdjacencyList} {state : SearchState}
    (inv : SearchInvariant count adjacency state) {package : PackageIndex}
    (h : package ∈ state.path) : package < count := by
  obtain ⟨inside, _⟩ := List.getElem?_eq_some_iff.mp ((inv.visiting_iff package).mpr h)
  exact inv.states_length ▸ inside

theorem SearchInvariant.initial (count : Nat) (adjacency : AdjacencyList) :
    SearchInvariant count adjacency
      { states := List.replicate count .unvisited
        positions := List.replicate count noPosition
        path := []
        stack := [] } where
  states_length := by simp
  positions_length := by simp
  path_eq := rfl
  path_nodup := List.nodup_nil
  visiting_iff := by simp [List.getElem?_replicate]
  position := by simp
  scanned := trivial
  closed := by
    have none_visited : (fun package : Nat =>
        (List.replicate count VisitState.unvisited)[package]? = some .visited) = fun _ => False := by
      funext package; simp [List.getElem?_replicate]
    rw [none_visited]
    exact ClosedAcyclic.empty _

theorem SearchInvariant.enter {count : Nat} {adjacency : AdjacencyList} {state : SearchState}
    {package : PackageIndex} (inv : SearchInvariant count adjacency state)
    (frames : List VisitFrame)
    (samePath : state.stack.map (·.package) = frames.map (·.package))
    (unvisited : state.states[package]? = some .unvisited)
    (waiting : Scanned adjacency state.states (some package) frames) :
    ∃ next, { state with stack := frames }.enter package = .ok next ∧
      SearchInvariant count adjacency next ∧
      next.states = state.states.set package .visiting ∧ next.stack = ⟨package, 0⟩ :: frames := by
  obtain ⟨inside, _⟩ := List.getElem?_eq_some_iff.mp unvisited
  have inside' : package < state.positions.length := by
    rw [inv.positions_length, ← inv.states_length]; exact inside
  have fresh : package ∉ state.path := by
    intro h; rw [← inv.visiting_iff, unvisited] at h; simp at h
  refine ⟨⟨state.states.set package .visiting, state.positions.set package state.path.length,
    state.path ++ [package], ⟨package, 0⟩ :: frames⟩, ?_, ?_, rfl, rfl⟩
  · simp only [SearchState.enter, checkedSet_of_lt _ inside, checkedSet_of_lt _ inside',
      Checked.ok_bind]
    rfl
  · constructor
    · simpa using inv.states_length
    · simpa using inv.positions_length
    · simp [inv.path_eq, samePath]
    · exact inv.path_nodup.append (List.nodup_singleton _) (List.disjoint_singleton.mpr fresh)
    · intro p
      rw [marked_iff inside, inv.visiting_iff]
      by_cases same : p = package
      · simp [same]
      · simp [same]
    · intro index p h
      rcases Nat.lt_trichotomy index state.path.length with less | rfl | more
      · rw [List.getElem?_append_left less] at h
        have old : p ∈ state.path := List.mem_of_getElem? h
        have differs : package ≠ p := fun same => fresh (same ▸ old)
        rw [List.getElem?_set_ne differs]
        exact inv.position h
      · simp only [List.getElem?_concat_length, Option.some.injEq] at h
        subst h
        rw [List.getElem?_set_self inside']
      · rw [List.getElem?_eq_none (by simp; omega)] at h; cases h
    · refine ⟨Nat.zero_le _, by simp, by simp, ?_⟩
      exact waiting.mono fun p h => (visited_of_marked_visiting unvisited p).mpr h
    · simpa only [visited_of_marked_visiting unvisited] using inv.closed

theorem SearchInvariant.leave {count : Nat} {adjacency : AdjacencyList} {state : SearchState}
    {frame : VisitFrame} {frames : List VisitFrame} (inv : SearchInvariant count adjacency state)
    (top : state.stack = frame :: frames)
    (exhausted : frame.nextChild = (children adjacency frame.package).length) :
    SearchInvariant count adjacency
      { states := state.states.set frame.package .visited
        positions := state.positions.set frame.package noPosition
        path := state.path.dropLast
        stack := frames } := by
  have pathEq : state.path = (frames.map (·.package)).reverse ++ [frame.package] := by
    simp [inv.path_eq, top]
  have onPath : frame.package ∈ state.path := by simp [pathEq]
  have inside : frame.package < state.states.length := inv.states_length ▸ inv.path_lt onPath
  have nodup := inv.path_nodup
  rw [pathEq] at nodup
  have off : frame.package ∉ (frames.map (·.package)).reverse := by
    intro h; exact List.disjoint_of_nodup_append nodup h (by simp)
  have scanned := inv.scanned
  rw [top] at scanned
  obtain ⟨_, seen, _, rest⟩ := scanned
  have visited_iff := visited_of_marked_visited inside
  have fresh : ¬ state.states[frame.package]? = some .visited := by
    rw [(inv.visiting_iff frame.package).mpr onPath]; simp
  constructor
  · simpa using inv.states_length
  · simpa using inv.positions_length
  · simp [pathEq]
  · simpa [pathEq] using (List.nodup_append.mp nodup).1
  · intro p
    rw [marked_iff inside, inv.visiting_iff, pathEq, List.dropLast_concat]
    by_cases same : p = frame.package
    · subst same
      exact ⟨by simp, fun h => absurd h off⟩
    · simp [same]
  · intro index p h
    simp only [pathEq, List.dropLast_concat] at h
    have differs : frame.package ≠ p := fun same => off (same ▸ List.mem_of_getElem? h)
    rw [List.getElem?_set_ne differs]
    apply inv.position
    rwa [pathEq, List.getElem?_append_left (List.getElem?_eq_some_iff.mp h).1]
  · have kept := rest.mono fun p h => (visited_iff p).mpr (.inl h)
    exact kept.resume ((visited_iff frame.package).mpr (.inr rfl))
  · simp only [visited_iff]
    refine inv.closed.finish fresh fun child h => ?_
    simpa using seen child (by rw [exhausted, List.take_length]; exact h)

def advance (frame : VisitFrame) : VisitFrame := { frame with nextChild := frame.nextChild + 1 }

theorem Scanned.advance {adjacency : AdjacencyList} {states : List VisitState}
    {frame : VisitFrame} {frames : List VisitFrame} {child : PackageIndex}
    {above : Option PackageIndex} (h : Scanned adjacency states none (frame :: frames))
    (here : (children adjacency frame.package)[frame.nextChild]? = some child)
    (seen : states[child]? = some .visited ∨ some child = above)
    (waiting : ∀ other, above = some other → other = child) :
    Scanned adjacency states above (advance frame :: frames) := by
  obtain ⟨_, before, _, rest⟩ := h
  obtain ⟨inside, _⟩ := List.getElem?_eq_some_iff.mp here
  refine ⟨inside, ?_, ?_, rest⟩
  · intro other h
    simp only [PackageDependencyGraph.advance, List.take_add_one, here, Option.toList_some,
      List.mem_append, List.mem_singleton] at h
    rcases h with old | rfl
    · exact .inl (by simpa using before other old)
    · exact seen
  · intro other h
    obtain rfl := waiting other h
    exact List.mem_of_getElem? here

theorem SearchInvariant.skip {count : Nat} {adjacency : AdjacencyList} {state : SearchState}
    {frame : VisitFrame} {frames : List VisitFrame} {child : PackageIndex}
    (inv : SearchInvariant count adjacency state) (top : state.stack = frame :: frames)
    (here : (children adjacency frame.package)[frame.nextChild]? = some child)
    (visited : state.states[child]? = some .visited) :
    SearchInvariant count adjacency { state with stack := advance frame :: frames } where
  states_length := inv.states_length
  positions_length := inv.positions_length
  path_eq := by simp [inv.path_eq, top, advance]
  path_nodup := inv.path_nodup
  visiting_iff := inv.visiting_iff
  position := inv.position
  scanned := Scanned.advance (top ▸ inv.scanned) here (.inl visited) nofun
  closed := inv.closed

def IsCycle (enabledPackages : List PackageId) (adjacency : AdjacencyList)
    (packages : List PackageId) : Prop :=
  ∃ first walk, (first :: walk).Nodup ∧ (first :: walk ++ [first]).IsChain (Edge adjacency) ∧
    (first :: walk ++ [first]).map (enabledPackages[·]?) = packages.map some

theorem IsCycle.transGen {enabledPackages packages : List PackageId} {adjacency : AdjacencyList}
    (h : IsCycle enabledPackages adjacency packages) :
    ∃ package, TransGen (Edge adjacency) package package := by
  obtain ⟨first, walk, _, chain, _⟩ := h
  exact ⟨first, transGen_of_isChain chain (by simp) (by simp)⟩

theorem mapM_checkedAt {enabledPackages : List PackageId} {indexes : List PackageIndex}
    (inside : ∀ index ∈ indexes, index < enabledPackages.length) :
    ∃ packages, indexes.mapM (checkedAt enabledPackages) = .ok packages ∧
      indexes.map (enabledPackages[·]?) = packages.map some := by
  induction indexes with
  | nil => exact ⟨[], rfl, rfl⟩
  | cons index indexes ih =>
    obtain ⟨packages, ran, names⟩ := ih fun i h => inside i (List.mem_cons_of_mem _ h)
    have first := inside index (by simp)
    refine ⟨enabledPackages[index] :: packages, ?_, ?_⟩
    · rw [List.mapM_cons, checkedAt_of_lt first, Checked.ok_bind, ran]; rfl
    · simp [List.getElem?_eq_getElem first, names]

theorem SearchInvariant.cycle {enabledPackages : List PackageId} {adjacency : AdjacencyList}
    {state : SearchState} {frame : VisitFrame} {frames : List VisitFrame} {child : PackageIndex}
    (inv : SearchInvariant enabledPackages.length adjacency state)
    (top : state.stack = frame :: frames) (step : Edge adjacency frame.package child)
    (visiting : state.states[child]? = some .visiting) :
    ∃ start packages, state.positions[child]? = some start ∧ start < state.path.length ∧
      (state.path.drop start ++ [child]).mapM (checkedAt enabledPackages) = .ok packages ∧
      IsCycle enabledPackages adjacency packages := by
  have onPath := (inv.visiting_iff child).mp visiting
  obtain ⟨start, inside, here⟩ := List.mem_iff_getElem.mp onPath
  have position := inv.position (List.getElem?_eq_some_iff.mpr ⟨inside, here⟩)
  have split : state.path.drop start = child :: state.path.drop (start + 1) := by
    rw [List.drop_eq_getElem_cons inside, here]
  have path_lt : ∀ index ∈ state.path.drop start ++ [child], index < enabledPackages.length := by
    intro index h
    rcases List.mem_append.mp h with h | h
    · exact inv.path_lt (List.mem_of_mem_drop h)
    · obtain rfl := List.mem_singleton.mp h; exact inv.path_lt onPath
  obtain ⟨packages, ran, names⟩ := mapM_checkedAt path_lt
  have chain : (state.path ++ [child]).IsChain (Edge adjacency) := by
    have scanned := inv.scanned
    rw [top] at scanned
    obtain ⟨_, _, _, rest⟩ := scanned
    have reversed := List.isChain_reverse.mpr (List.isChain_cons_cons.mpr ⟨step, rest.isChain⟩)
    simpa [inv.path_eq, top] using reversed
  refine ⟨start, packages, position, inside, ran, child, state.path.drop (start + 1), ?_, ?_, ?_⟩
  · rw [← split]; exact inv.path_nodup.sublist (List.drop_sublist _ _)
  · rw [← split]
    have : state.path.drop start ++ [child] = (state.path ++ [child]).drop start := by
      rw [List.drop_append_of_le_length inside.le]
    rw [this]
    exact chain.drop start
  · rw [← split]; exact names

def weight (adjacency : AdjacencyList) (package : PackageIndex) : Nat :=
  (children adjacency package).length + 1

def unvisitedWork (count : Nat) (adjacency : AdjacencyList) (states : List VisitState) : Nat :=
  ∑ package ∈ Finset.range count,
    if states[package]? = some .unvisited then weight adjacency package else 0

def pending (count : Nat) (adjacency : AdjacencyList) (state : SearchState) : Nat :=
  (state.stack.map fun frame => weight adjacency frame.package - frame.nextChild).sum +
    unvisitedWork count adjacency state.states

theorem unvisitedWork_set_of_ne {count : Nat} (adjacency : AdjacencyList)
    {states : List VisitState} {package : PackageIndex} (mark : VisitState)
    (known : states[package]? ≠ some .unvisited) (marked : mark ≠ .unvisited) :
    unvisitedWork count adjacency (states.set package mark) =
      unvisitedWork count adjacency states := by
  apply Finset.sum_congr rfl
  intro p _
  by_cases same : package = p
  · subst same
    by_cases inside : package < states.length
    · simp [List.getElem?_set_self inside, known, marked]
    · rw [List.set_eq_of_length_le (Nat.le_of_not_lt inside)]
  · rw [List.getElem?_set_ne same]

theorem unvisitedWork_set {count : Nat} (adjacency : AdjacencyList) {states : List VisitState}
    {package : PackageIndex} (mark : VisitState) (inside : package < count)
    (unvisited : states[package]? = some .unvisited) (marked : mark ≠ .unvisited) :
    unvisitedWork count adjacency (states.set package mark) + weight adjacency package =
      unvisitedWork count adjacency states := by
  have member := Finset.mem_range.mpr inside
  have inside' := (List.getElem?_eq_some_iff.mp unvisited).1
  unfold unvisitedWork
  rw [← Finset.sum_erase_add _ _ member, ← Finset.sum_erase_add _ _ member]
  have others : ∀ p ∈ (Finset.range count).erase package,
      (states.set package mark)[p]? = states[p]? :=
    fun p h => List.getElem?_set_ne (Finset.ne_of_mem_erase h).symm
  rw [Finset.sum_congr rfl fun p h => by rw [others p h]]
  simp [List.getElem?_set_self inside', unvisited, marked]

theorem unvisitedWork_le (adjacency : AdjacencyList) (states : List VisitState) :
    unvisitedWork adjacency.length adjacency states < visitFuel adjacency := by
  have bound : unvisitedWork adjacency.length adjacency states ≤
      ∑ package ∈ Finset.range adjacency.length, weight adjacency package := by
    apply Finset.sum_le_sum
    intro p _
    split <;> omega
  have total : ∑ package ∈ Finset.range adjacency.length, weight adjacency package =
      (adjacency.map fun targets => targets.length + 1).sum := by
    rw [Finset.sum_range, ← Fin.sum_univ_fun_getElem]
    apply Finset.sum_congr rfl
    intro i _
    simp [weight, children]
  rw [visitFuel]
  omega

theorem pending_entered {count : Nat} {adjacency : AdjacencyList} {states : List VisitState}
    {package : PackageIndex} {frames : List VisitFrame} {next : SearchState}
    (inside : package < count) (unvisited : states[package]? = some .unvisited)
    (marks : next.states = states.set package .visiting)
    (stack : next.stack = ⟨package, 0⟩ :: frames) :
    pending count adjacency next =
      (frames.map fun frame => weight adjacency frame.package - frame.nextChild).sum +
        unvisitedWork count adjacency states := by
  have work := unvisitedWork_set adjacency .visiting inside unvisited nofun
  rw [pending, marks, stack, ← work]
  simp only [List.map_cons, List.sum_cons]
  omega

theorem SearchInvariant.enter_start {count : Nat} {adjacency : AdjacencyList} {state : SearchState}
    {start : PackageIndex} (valid : ValidAdjacency count adjacency)
    (inv : SearchInvariant count adjacency state) (empty : state.stack = [])
    (unvisited : state.states[start]? = some .unvisited) :
    ∃ entered, state.enter start = .ok entered ∧ SearchInvariant count adjacency entered ∧
      entered.states = state.states.set start .visiting ∧ entered.stack = [⟨start, 0⟩] ∧
      pending count adjacency entered = pending count adjacency state ∧
      pending count adjacency entered < visitFuel adjacency := by
  have inside : start < count := inv.states_length ▸ (List.getElem?_eq_some_iff.mp unvisited).1
  obtain ⟨entered, ran, inv', states, stack⟩ := inv.enter [] (by simp [empty]) unvisited trivial
  have same : pending count adjacency entered = unvisitedWork count adjacency state.states := by
    simpa using pending_entered inside unvisited states stack
  refine ⟨entered, ?_, inv', states, stack, ?_, ?_⟩
  · rw [← empty] at ran
    exact ran
  · rw [same, pending, empty]
    simp
  · have bound := unvisitedWork_le adjacency state.states
    rw [valid.length] at bound
    omega

theorem pending_left {count : Nat} {adjacency : AdjacencyList} {state : SearchState}
    {frame : VisitFrame} {frames : List VisitFrame} (top : state.stack = frame :: frames)
    (exhausted : frame.nextChild = (children adjacency frame.package).length)
    (known : state.states[frame.package]? ≠ some .unvisited) (positions : List Nat)
    (path : List PackageIndex) :
    pending count adjacency ⟨state.states.set frame.package .visited, positions, path, frames⟩ <
      pending count adjacency state := by
  simp only [pending, top, List.map_cons, List.sum_cons, exhausted, weight,
    unvisitedWork_set_of_ne adjacency .visited known nofun]
  omega

def Keeps (before after : List VisitState) : Prop :=
  ∀ package : Nat, before[package]? ≠ some .unvisited → after[package]? ≠ some .unvisited

theorem Keeps.refl (states : List VisitState) : Keeps states states := fun _ => id

theorem Keeps.trans {first second third : List VisitState} (h : Keeps first second)
    (h' : Keeps second third) : Keeps first third := fun package known => h' package (h package known)

theorem keeps_set (states : List VisitState) (package : PackageIndex) {mark : VisitState}
    (marked : mark ≠ .unvisited) : Keeps states (states.set package mark) := by
  intro p known
  by_cases same : package = p
  · subst same
    by_cases inside : package < states.length
    · simpa [List.getElem?_set_self inside] using marked
    · rwa [List.set_eq_of_length_le (Nat.le_of_not_lt inside)]
  · rwa [List.getElem?_set_ne same]

section VisitStep

variable {enabledPackages : List PackageId} {adjacency : AdjacencyList} {state : SearchState}
  {frame : VisitFrame} {frames : List VisitFrame} (top : state.stack = frame :: frames)
  (packageLt : frame.package < adjacency.length)

include top packageLt

theorem visitStep_of_exhausted
    (exhausted : frame.nextChild = (children adjacency frame.package).length)
    (inStates : frame.package < state.states.length)
    (inPositions : frame.package < state.positions.length) :
    visitStep enabledPackages adjacency state = .ok (.inl
      { states := state.states.set frame.package .visited
        positions := state.positions.set frame.package noPosition
        path := state.path.dropLast
        stack := frames }) := by
  simp only [visitStep, top, children_of_lt packageLt, Checked.ok_bind, if_pos exhausted,
    checkedSet_of_lt _ inStates, checkedSet_of_lt _ inPositions]
  rfl

variable {child : PackageIndex}
  (here : (children adjacency frame.package)[frame.nextChild]? = some child)

include here

theorem visitStep_of_unvisited (mark : state.states[child]? = some .unvisited) {next : SearchState}
    (entered : { state with stack := advance frame :: frames }.enter child = .ok next) :
    visitStep enabledPackages adjacency state = .ok (.inl next) := by
  have more := (List.getElem?_eq_some_iff.mp here).1.ne
  rw [advance] at entered
  simp only [visitStep, top, children_of_lt packageLt, Checked.ok_bind, if_neg more,
    checkedAt_eq_ok.mpr here, checkedAt_eq_ok.mpr mark, entered]
  rfl

theorem visitStep_of_visited (mark : state.states[child]? = some .visited) :
    visitStep enabledPackages adjacency state =
      .ok (.inl { state with stack := advance frame :: frames }) := by
  have more := (List.getElem?_eq_some_iff.mp here).1.ne
  simp only [visitStep, top, children_of_lt packageLt, Checked.ok_bind, if_neg more,
    checkedAt_eq_ok.mpr here, checkedAt_eq_ok.mpr mark]
  rfl

theorem visitStep_of_visiting (mark : state.states[child]? = some .visiting) {start : Nat}
    (position : state.positions[child]? = some start) {packages : List PackageId}
    (named : (state.path.drop start ++ [child]).mapM (checkedAt enabledPackages) = .ok packages) :
    visitStep enabledPackages adjacency state = .ok (.inr (.cycle packages)) := by
  have more := (List.getElem?_eq_some_iff.mp here).1.ne
  simp only [visitStep, top, children_of_lt packageLt, Checked.ok_bind, if_neg more,
    checkedAt_eq_ok.mpr here, checkedAt_eq_ok.mpr mark, checkedAt_eq_ok.mpr position, named]
  rfl

end VisitStep

theorem visitStep_spec {enabledPackages : List PackageId} {adjacency : AdjacencyList}
    {state : SearchState} (valid : ValidAdjacency enabledPackages.length adjacency)
    (inv : SearchInvariant enabledPackages.length adjacency state) :
    (∃ next, visitStep enabledPackages adjacency state = .ok (.inl next) ∧
      SearchInvariant enabledPackages.length adjacency next ∧ Keeps state.states next.states ∧
      pending enabledPackages.length adjacency next <
        pending enabledPackages.length adjacency state) ∨
    (state.stack = [] ∧ visitStep enabledPackages adjacency state = .ok (.inr (.exhausted state))) ∨
    ∃ packages, visitStep enabledPackages adjacency state = .ok (.inr (.cycle packages)) ∧
      IsCycle enabledPackages adjacency packages := by
  cases top : state.stack with
  | nil => exact .inr (.inl ⟨rfl, by simp [visitStep, top]; rfl⟩)
  | cons frame frames =>
    have onPath : frame.package ∈ state.path := by simp [inv.path_eq, top]
    have packageLt := inv.path_lt onPath
    have packageLt' : frame.package < adjacency.length := valid.length.symm ▸ packageLt
    have scanned := inv.scanned
    rw [top] at scanned
    by_cases exhausted : frame.nextChild = (children adjacency frame.package).length
    · refine .inl ⟨_, visitStep_of_exhausted top packageLt' exhausted
        (inv.states_length.symm ▸ packageLt) (inv.positions_length.symm ▸ packageLt),
        inv.leave top exhausted, keeps_set _ _ nofun, pending_left top exhausted ?_ _ _⟩
      rw [(inv.visiting_iff _).mpr onPath]; simp
    · have inside : frame.nextChild < (children adjacency frame.package).length :=
        scanned.1.lt_of_ne exhausted
      have here := List.getElem?_eq_getElem inside
      generalize (children adjacency frame.package)[frame.nextChild] = child at here
      have step : Edge adjacency frame.package child := List.mem_of_getElem? here
      have childLt := valid.target_lt step
      have childLt' : child < state.states.length := inv.states_length.symm ▸ childLt
      have mark := List.getElem?_eq_getElem childLt'
      generalize state.states[child] = current at mark
      cases current with
      | unvisited =>
        obtain ⟨next, entered, inv', states, stack⟩ := inv.enter (advance frame :: frames)
          (by simp [top, advance]) mark (scanned.advance here (.inr rfl) (by simp [eq_comm]))
        refine .inl ⟨next, visitStep_of_unvisited top packageLt' here mark entered, inv',
          states ▸ keeps_set _ _ nofun, ?_⟩
        rw [pending_entered childLt mark states stack]
        simp only [pending, top, List.map_cons, List.sum_cons, advance, weight]
        omega
      | visiting =>
        obtain ⟨start, packages, position, _, named, cycle⟩ := inv.cycle top step mark
        exact .inr (.inr ⟨packages,
          visitStep_of_visiting top packageLt' here mark position named, cycle⟩)
      | visited =>
        refine .inl ⟨_, visitStep_of_visited top packageLt' here mark, inv.skip top here mark,
          Keeps.refl _, ?_⟩
        simp only [pending, top, List.map_cons, List.sum_cons, advance, weight]
        omega

end FastModManager.Domain.PackageDependencyGraph
