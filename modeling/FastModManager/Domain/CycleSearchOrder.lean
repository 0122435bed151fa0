import FastModManager.Domain.CycleSearchRuns
import FastModManager.Foundation.Lasso

namespace FastModManager.Domain.PackageDependencyGraph

open Foundation Relation

section Turns

variable {enabledPackages : List PackageId} {adjacency : AdjacencyList} {state : SearchState}

inductive Turn (enabledPackages : List PackageId) (adjacency : AdjacencyList)
    (state : SearchState) : SearchState ⊕ SearchOutcome → Prop where
  | rests : state.stack = [] → Turn enabledPackages adjacency state (.inr (.exhausted state))
  | leaves {frame : VisitFrame} {frames : List VisitFrame} {next : SearchState} :
      state.stack = frame :: frames →
      next.states = state.states.set frame.package .visited → next.stack = frames →
      Turn enabledPackages adjacency state (.inl next)
  | enters {frame : VisitFrame} {frames : List VisitFrame} {child : PackageIndex}
      {next : SearchState} :
      state.stack = frame :: frames →
      (children adjacency frame.package)[frame.nextChild]? = some child →
      state.states[child]? = some .unvisited → next.states = state.states.set child .visiting →
      next.stack = ⟨child, 0⟩ :: advance frame :: frames →
      Turn enabledPackages adjacency state (.inl next)
  | skips {frame : VisitFrame} {frames : List VisitFrame} {next : SearchState} :
      state.stack = frame :: frames → next.states = state.states →
      next.stack = advance frame :: frames → Turn enabledPackages adjacency state (.inl next)
  | closes {frame : VisitFrame} {frames : List VisitFrame} {child : PackageIndex}
      {cycleStart : Nat} {packages : List PackageId} :
      state.stack = frame :: frames →
      (children adjacency frame.package)[frame.nextChild]? = some child →
      state.states[child]? = some .visiting → state.positions[child]? = some cycleStart →
      (state.path.drop cycleStart ++ [child]).mapM (checkedAt enabledPackages) = .ok packages →
      Turn enabledPackages adjacency state (.inr (.cycle packages))

theorem children_of_checkedAt {package : PackageIndex} {targets : List PackageIndex}
    (found : checkedAt adjacency package = .ok targets) : children adjacency package = targets := by
  rw [children, checkedAt_eq_ok.mp found, Option.getD_some]

theorem Turn.of_visitStep {outcome : SearchState ⊕ SearchOutcome}
    (ran : visitStep enabledPackages adjacency state = .ok outcome) :
    Turn enabledPackages adjacency state outcome := by
  cases top : state.stack with
  | nil =>
    simp only [visitStep, top] at ran
    cases ran
    exact .rests top
  | cons frame frames =>
    simp only [visitStep, top] at ran
    obtain ⟨targets, found, ran⟩ := bind_eq_ok.mp ran
    obtain rfl := children_of_checkedAt found
    split at ran
    · obtain ⟨states, marked, ran⟩ := bind_eq_ok.mp ran
      obtain ⟨positions, _, ran⟩ := bind_eq_ok.mp ran
      obtain rfl := (checkedSet_eq_ok.mp marked).2
      cases ran
      exact .leaves top rfl rfl
    · obtain ⟨child, here, ran⟩ := bind_eq_ok.mp ran
      obtain ⟨mark, current, ran⟩ := bind_eq_ok.mp ran
      rw [checkedAt_eq_ok] at here current
      cases mark with
      | unvisited =>
        obtain ⟨entered, enters, ran⟩ := bind_eq_ok.mp ran
        obtain ⟨states, marked, enters⟩ := bind_eq_ok.mp enters
        obtain ⟨positions, _, enters⟩ := bind_eq_ok.mp enters
        obtain rfl := (checkedSet_eq_ok.mp marked).2
        cases enters
        cases ran
        exact .enters top here current rfl rfl
      | visiting =>
        obtain ⟨cycleStart, position, ran⟩ := bind_eq_ok.mp ran
        obtain ⟨cycle, named, ran⟩ := bind_eq_ok.mp ran
        cases ran
        exact .closes top here current (checkedAt_eq_ok.mp position) named
      | visited =>
        cases ran
        exact .skips top rfl rfl

end Turns

section Order

variable {adjacency : AdjacencyList} {state next : SearchState} {start : PackageIndex}

def Awaits (adjacency : AdjacencyList) (upper lower : VisitFrame) : Prop :=
  ∃ position, lower.nextChild = position + 1 ∧
    (children adjacency lower.package)[position]? = some upper.package

structure SearchesFrom (adjacency : AdjacencyList) (start : PackageIndex) (state : SearchState) :
    Prop where
  before : ∀ package < start, state.states[package]? = some .visited
  bottom : ∀ package ∈ (state.stack.map (·.package)).getLast?, package = start
  awaits : state.stack.IsChain (Awaits adjacency)

theorem isChain_awaits_advance {frame : VisitFrame} {frames : List VisitFrame}
    (awaits : (frame :: frames).IsChain (Awaits adjacency)) :
    (advance frame :: frames).IsChain (Awaits adjacency) := by
  cases frames with
  | nil => simp
  | cons below frames =>
    obtain ⟨waits, rest⟩ := List.isChain_cons_cons.mp awaits
    exact List.isChain_cons_cons.mpr ⟨waits, rest⟩

theorem isChain_awaits_child {frame : VisitFrame} {frames : List VisitFrame} {child : PackageIndex}
    (awaits : (frame :: frames).IsChain (Awaits adjacency))
    (here : (children adjacency frame.package)[frame.nextChild]? = some child) :
    (⟨child, 0⟩ :: advance frame :: frames).IsChain (Awaits adjacency) :=
  List.isChain_cons_cons.mpr ⟨⟨frame.nextChild, rfl, here⟩, isChain_awaits_advance awaits⟩

theorem SearchesFrom.step {enabledPackages : List PackageId} {count : Nat}
    (inv : SearchInvariant count adjacency state) (searches : SearchesFrom adjacency start state)
    (ran : visitStep enabledPackages adjacency state = .ok (.inl next)) :
    SearchesFrom adjacency start next := by
  obtain ⟨before, bottom, awaits⟩ := searches
  cases Turn.of_visitStep ran with
  | @leaves frame frames _ top states stack =>
    rw [top] at bottom awaits
    refine ⟨fun package less => ?_, fun package last => ?_, ?_⟩
    · have onPath : frame.package ∈ state.path := by simp [inv.path_eq, top]
      rw [states, visited_of_marked_visited (inv.states_length.symm ▸ inv.path_lt onPath)]
      exact .inl (before package less)
    · rw [stack] at last
      exact bottom package (List.mem_getLast?_cons last)
    · rw [stack]
      exact awaits.tail
  | @enters frame frames child _ top here fresh states stack =>
    rw [top] at bottom awaits
    refine ⟨fun package less => ?_, ?_, ?_⟩
    · rw [states, visited_of_marked_visiting fresh]
      exact before package less
    · rw [stack, List.map_cons, List.map_cons, List.getLast?_cons_cons]
      exact bottom
    · rw [stack]
      exact isChain_awaits_child awaits here
  | @skips frame frames _ top states stack =>
    rw [top] at bottom awaits
    refine ⟨fun package less => states ▸ before package less, ?_, ?_⟩
    · rw [stack]
      exact bottom
    · rw [stack]
      exact isChain_awaits_advance awaits

theorem Scanned.leastTurns {states : List VisitState}
    (sorted : ∀ package, (children adjacency package).Pairwise (· ≤ ·)) {upper : VisitFrame}
    {frames : List VisitFrame} (scanned : Scanned adjacency states (some upper.package) frames)
    (awaits : (upper :: frames).IsChain (Awaits adjacency)) :
    (upper.package :: frames.map (·.package)).IsChain fun target source =>
      LeastTurn (Edge adjacency) (fun package => states[package]? = some .visited) source target := by
  induction frames generalizing upper with
  | nil => simp
  | cons frame frames ih =>
    obtain ⟨_, seen, waiting, rest⟩ := scanned
    obtain ⟨⟨position, _, here⟩, awaits⟩ := List.isChain_cons_cons.mp awaits
    refine List.isChain_cons_cons.mpr ⟨⟨waiting _ rfl, fun other step less => ?_⟩, ih rest awaits⟩
    have looked : other ∈ (children adjacency frame.package).take frame.nextChild := by
      obtain ⟨place, there⟩ := List.mem_iff_getElem?.mp step
      have earlier : place < frame.nextChild := by
        by_contra later
        obtain ⟨inside, rfl⟩ := List.getElem?_eq_some_iff.mp there
        obtain ⟨before, awaited⟩ := List.getElem?_eq_some_iff.mp here
        have ordered :=
          List.pairwise_iff_getElem.mp (sorted frame.package) position place before inside
        have behind : upper.package ≤ (children adjacency frame.package)[place] :=
          awaited ▸ ordered (by omega)
        exact absurd less (not_lt.mpr behind)
      rw [← List.getElem?_take_of_lt earlier] at there
      exact List.mem_of_getElem? there
    rcases seen other looked with done | same
    · exact done
    · obtain rfl := Option.some.inj same
      exact absurd less (lt_irrefl _)

/-- The packages that a search reports: the loop of the least lasso along the edges. -/
def IsLeastCycle (enabledPackages : List PackageId) (adjacency : AdjacencyList)
    (packages : List PackageId) : Prop :=
  ∃ stem last, IsLeastLasso id (Edge adjacency) stem last ∧
    (loop stem last).map (enabledPackages[·]?) = packages.map some

theorem SearchesFrom.leastCycle {enabledPackages packages : List PackageId}
    (sorted : ∀ package, (children adjacency package).Pairwise (· ≤ ·))
    (inv : SearchInvariant enabledPackages.length adjacency state)
    (searches : SearchesFrom adjacency start state)
    (ran : visitStep enabledPackages adjacency state = .ok (.inr (.cycle packages))) :
    IsLeastCycle enabledPackages adjacency packages := by
  cases Turn.of_visitStep ran with
  | @closes frame frames child cycleStart _ top here visiting position named =>
    have onPath := (inv.visiting_iff child).mp visiting
    have scanned := inv.scanned
    have awaits := searches.awaits
    have bottom := searches.bottom
    rw [top] at scanned awaits bottom
    have turns : (state.path ++ [child]).IsChain
        (LeastTurn (Edge adjacency) fun package => state.states[package]? = some .visited) := by
      have waiting := scanned.advance here (.inr rfl) (by simp [eq_comm])
      have reversed := List.isChain_reverse.mpr
        (Scanned.leastTurns sorted waiting (isChain_awaits_child awaits here))
      simpa [inv.path_eq, top, advance] using reversed
    have lasso : IsLasso (Edge adjacency) state.path child :=
      ⟨inv.path_nodup, onPath, turns.imp fun _ _ turn => turn.1⟩
    refine ⟨state.path, child, ⟨lasso, fun other => ?_⟩, ?_⟩
    · simp only [List.map_id]
      refine lasso.le_of_leastTurns inv.closed (fun first head other less => ?_) turns other
      rw [inv.path_eq, top, List.head?_reverse] at head
      obtain rfl := bottom first head
      exact searches.before other less
    · obtain ⟨index, inside, rfl⟩ := List.mem_iff_getElem.mp onPath
      have recorded := inv.position (List.getElem?_eq_some_iff.mpr ⟨inside, rfl⟩)
      obtain rfl := Option.some.inj (recorded.symm.trans position)
      rw [loop, inv.path_nodup.idxOf_getElem]
      exact map_eq_of_forall₂ checkedAt_eq_ok.mp (mapM_eq_ok_iff.mp named)

end Order

section Runs

variable {enabledPackages : List PackageId} {adjacency : AdjacencyList} {state : SearchState}
  {start : PackageIndex}

def LeastPost (enabledPackages : List PackageId) (adjacency : AdjacencyList)
    (known : List VisitState) (start : PackageIndex) : SearchOutcome → Prop
  | .exhausted final => Resting enabledPackages.length adjacency known final ∧
      ∀ package < start, final.states[package]? = some .visited
  | .cycle packages => IsLeastCycle enabledPackages adjacency packages

theorem visitLoop_leastCycle (valid : ValidAdjacency enabledPackages.length adjacency)
    (sorted : ∀ package, (children adjacency package).Pairwise (· ≤ ·))
    (inv : SearchInvariant enabledPackages.length adjacency state)
    (searches : SearchesFrom adjacency start state)
    (fuel : pending enabledPackages.length adjacency state < visitFuel adjacency) :
    ∃ outcome, iterate (visitStep enabledPackages adjacency) (visitFuel adjacency) state =
        .ok outcome ∧ LeastPost enabledPackages adjacency state.states start outcome := by
  refine iterate_total (fun s => SearchInvariant enabledPackages.length adjacency s ∧
      Keeps state.states s.states ∧ SearchesFrom adjacency start s)
    (pending enabledPackages.length adjacency) ?_ ⟨inv, Keeps.refl _, searches⟩ fuel
  rintro s ⟨inv, keeps, searches⟩
  rcases visitStep_spec valid inv with
    ⟨next, ran, inv', keeps', less⟩ | ⟨empty, ran⟩ | ⟨packages, ran, _⟩
  · exact .inl ⟨next, ran, ⟨inv', keeps.trans keeps', searches.step inv ran⟩, less⟩
  · exact .inr ⟨_, ran, ⟨inv, empty, keeps⟩, searches.before⟩
  · exact .inr ⟨_, ran, searches.leastCycle sorted inv ran⟩

theorem searchFrom_leastCycle (valid : ValidAdjacency enabledPackages.length adjacency)
    (sorted : ∀ package, (children adjacency package).Pairwise (· ≤ ·)) {start count : Nat}
    (all : start + count = enabledPackages.length)
    (inv : SearchInvariant enabledPackages.length adjacency state) (empty : state.stack = [])
    (before : ∀ package < start, state.states[package]? = some .visited) :
    ∃ result, searchFrom enabledPackages adjacency (List.range' start count) state = .ok result ∧
      ∀ packages ∈ result, IsLeastCycle enabledPackages adjacency packages := by
  induction count generalizing start state with
  | zero => exact ⟨none, rfl, by simp⟩
  | succ count ih =>
    have inside : start < enabledPackages.length := by omega
    have startLt : start < state.states.length := inv.states_length.symm ▸ inside
    have mark := List.getElem?_eq_getElem startLt
    generalize state.states[start] = current at mark
    have markAt : checkedAt state.states start = .ok current := checkedAt_eq_ok.mpr mark
    have upTo : ∀ {states : List VisitState}, (∀ package < start, states[package]? = some .visited) →
        states[start]? = some .visited → ∀ package < start + 1, states[package]? = some .visited := by
      intro states earlier here package less
      rcases Nat.lt_succ_iff_lt_or_eq.mp less with less | rfl
      · exact earlier package less
      · exact here
    rw [List.range'_succ]
    simp only [searchFrom, markAt, Checked.ok_bind]
    cases current with
    | unvisited =>
      obtain ⟨entered, ran, inv', states, stack, _, fuel⟩ := inv.enter_start valid empty mark
      have searches : SearchesFrom adjacency start entered := by
        refine ⟨fun package less => ?_, by simp [stack], by simp [stack]⟩
        rw [states, visited_of_marked_visiting mark]
        exact before package less
      obtain ⟨outcome, looped, post⟩ := visitLoop_leastCycle valid sorted inv' searches fuel
      simp only [ran, looped, Checked.ok_bind]
      cases outcome with
      | cycle packages => exact ⟨some packages, rfl, fun _ same => Option.some.inj same ▸ post⟩
      | exhausted final =>
        obtain ⟨rest, earlier⟩ := post
        have seen : final.states[start]? ≠ some .unvisited :=
          rest.keeps start (by simp [states, List.getElem?_set_self startLt])
        have here := rest.visited_or_unvisited inside seen
        exact ih (by omega) rest.invariant rest.stack (upTo earlier here)
    | visiting =>
      have onPath := (inv.visiting_iff start).mp mark
      simp [inv.path_eq, empty] at onPath
    | visited => exact ih (by omega) inv empty (upTo before mark)

theorem findCycle_leastCycle (valid : ValidAdjacency enabledPackages.length adjacency)
    (sorted : ∀ package, (children adjacency package).Pairwise (· ≤ ·))
    {packages : List PackageId}
    (found : findCycle enabledPackages adjacency = .ok (some packages)) :
    IsLeastCycle enabledPackages adjacency packages := by
  obtain ⟨result, ran, least⟩ := searchFrom_leastCycle valid sorted (Nat.zero_add _)
    (SearchInvariant.initial enabledPackages.length adjacency) rfl (by simp)
  rw [← List.range_eq_range'] at ran
  obtain rfl := Except.ok.inj (ran.symm.trans found)
  exact least packages rfl

end Runs

end FastModManager.Domain.PackageDependencyGraph
