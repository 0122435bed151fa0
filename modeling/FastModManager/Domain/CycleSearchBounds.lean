import FastModManager.Domain.CycleSearchRuns

namespace FastModManager.Domain.PackageDependencyGraph

open Foundation

variable {enabledPackages : List PackageId} {adjacency : AdjacencyList} {state : SearchState}
  {iterations : List SearchState}

theorem SearchInvariant.height_le {count : Nat} (inv : SearchInvariant count adjacency state) :
    state.stack.length ≤ count := by
  have inside : state.path ⊆ List.range count :=
    fun package onPath => List.mem_range.mpr (inv.path_lt onPath)
  calc state.stack.length
      = state.path.length := by rw [inv.path_eq, List.length_reverse, List.length_map]
    _ ≤ (List.range count).length := (List.subperm_of_subset inv.path_nodup inside).length_le
    _ = count := List.length_range

def leftover (count : Nat) (adjacency : AdjacencyList) : SearchOutcome → Nat
  | .exhausted final => pending count adjacency final
  | .cycle _ => 0

theorem visitLoop_length (valid : ValidAdjacency enabledPackages.length adjacency)
    (inv : SearchInvariant enabledPackages.length adjacency state) {fuel : Nat}
    {outcome : SearchOutcome × List SearchState}
    (ran : iterateRecorded (visitStep enabledPackages adjacency) fuel state iterations =
      .ok outcome) :
    outcome.2.length + leftover enabledPackages.length adjacency outcome.1 ≤
      iterations.length + pending enabledPackages.length adjacency state + 1 := by
  refine length_iterateRecorded (SearchInvariant enabledPackages.length adjacency)
    (pending enabledPackages.length adjacency) _ (fun state inv => ?_) inv ran
  rcases visitStep_spec valid inv with
    ⟨next, moved, inv', _, less⟩ | ⟨_, left⟩ | ⟨packages, left, _⟩
  · exact .inl ⟨next, moved, inv', less⟩
  · exact .inr ⟨_, left, le_refl _⟩
  · exact .inr ⟨_, left, Nat.zero_le _⟩

theorem searchFromRecorded_length (valid : ValidAdjacency enabledPackages.length adjacency)
    (starts : List PackageIndex) {result : Option (List PackageId) × List SearchState}
    (inside : ∀ start ∈ starts, start < enabledPackages.length)
    (inv : SearchInvariant enabledPackages.length adjacency state) (empty : state.stack = [])
    (before : ∀ earlier ∈ iterations, SearchInvariant enabledPackages.length adjacency earlier)
    (ran : searchFromRecorded enabledPackages adjacency starts state iterations = .ok result) :
    result.2.length ≤
      iterations.length + pending enabledPackages.length adjacency state + starts.length := by
  induction starts generalizing state iterations with
  | nil =>
    obtain rfl := Except.ok.inj ran
    dsimp only
    omega
  | cons start starts ih =>
    have inside' : ∀ other ∈ starts, other < enabledPackages.length :=
      fun other member => inside other (List.mem_cons_of_mem _ member)
    have startLt : start < state.states.length := inv.states_length.symm ▸ inside start (by simp)
    have mark := List.getElem?_eq_getElem startLt
    generalize state.states[start] = current at mark
    have markAt : checkedAt state.states start = .ok current := checkedAt_eq_ok.mpr mark
    simp only [searchFromRecorded, markAt, Checked.ok_bind] at ran
    rw [List.length_cons]
    cases current with
    | visiting | visited =>
      have bound := ih inside' inv empty before ran
      omega
    | unvisited =>
      obtain ⟨entered, ranEnter, inv', _, _, kept, fuel⟩ := inv.enter_start valid empty mark
      simp only [ranEnter, Checked.ok_bind] at ran
      obtain ⟨⟨outcome, all⟩, looped, post, during⟩ := visitLoop_spec valid inv' before fuel
      have spent := visitLoop_length valid inv' looped
      rw [looped, Checked.ok_bind] at ran
      cases outcome with
      | cycle packages =>
        obtain rfl := Except.ok.inj ran
        simp only [leftover] at spent ⊢
        omega
      | exhausted finished =>
        have bound : result.2.length ≤ all.length +
            pending enabledPackages.length adjacency finished + starts.length :=
          ih inside' post.invariant post.stack during ran
        change all.length + pending enabledPackages.length adjacency finished ≤ _ at spent
        omega

/-- The search takes at most one iteration for each package, for each edge and for each start, and
its stack is never higher than the number of packages. -/
theorem findCycle_linear (enabledPackages : List PackageId) (adjacency : AdjacencyList)
    (valid : ValidAdjacency enabledPackages.length adjacency) :
    ∃ result iterations, findCycle enabledPackages adjacency = .ok result ∧
      findCycleRecorded enabledPackages adjacency = .ok (result, iterations) ∧
      iterations.length ≤ 2 * enabledPackages.length + (adjacency.map List.length).sum ∧
      ∀ state ∈ iterations, state.stack.length ≤ enabledPackages.length := by
  obtain ⟨result, iterations, ran, recorded, _, invariants⟩ := findCycleRecorded_spec valid
  refine ⟨result, iterations, ran, recorded, ?_,
    fun state member => (invariants state member).height_le⟩
  have bound := searchFromRecorded_length valid (List.range enabledPackages.length)
    (fun _ member => List.mem_range.mp member)
    (SearchInvariant.initial enabledPackages.length adjacency) rfl (List.forall_mem_nil _) recorded
  have work : pending enabledPackages.length adjacency
      ⟨List.replicate enabledPackages.length .unvisited,
        List.replicate enabledPackages.length noPosition, [], []⟩ < visitFuel adjacency := by
    have bound := unvisitedWork_le adjacency (List.replicate enabledPackages.length .unvisited)
    rw [valid.length] at bound
    simpa [pending] using bound
  have edges :
      visitFuel adjacency = (adjacency.map List.length).sum + enabledPackages.length + 1 := by
    rw [visitFuel, List.sum_map_add, ← valid.length]
    simp
  simp only [List.length_nil, List.length_range] at bound
  omega

theorem findCycle_linear_of_cycle :
    ∃ result iterations, findCycle [⟨[1]⟩, ⟨[2]⟩, ⟨[3]⟩] [[1], [2], [1]] = .ok result ∧
      findCycleRecorded [⟨[1]⟩, ⟨[2]⟩, ⟨[3]⟩] [[1], [2], [1]] = .ok (result, iterations) ∧
      iterations.length ≤ 9 ∧ ∀ state ∈ iterations, state.stack.length ≤ 3 :=
  findCycle_linear [⟨[1]⟩, ⟨[2]⟩, ⟨[3]⟩] [[1], [2], [1]] (by decide)

end FastModManager.Domain.PackageDependencyGraph
