import FastModManager.Domain.CycleSearchRuns
import FastModManager.Domain.ResolveOrderLaws

namespace FastModManager.Domain.PackageDependencyGraph

open Foundation Relation

section Record

/-- What the loops of `resolveOrder` do, one after another. -/
inductive ResolveEvent where
  | insert (package : PackageIndex)
  | emit (package : PackageIndex)
  | decrement (dependent : PackageIndex) (indegree : Nat)
  deriving DecidableEq, Repr

def releaseRecorded (state : (Finset PackageIndex × List Nat) × List ResolveEvent)
    (dependent : PackageIndex) :
    Checked ((Finset PackageIndex × List Nat) × List ResolveEvent) := do
  let indegree ← checkedAt state.1.2 dependent
  let released ← releaseDependent state.1 dependent
  return (released, state.2 ++ [.decrement dependent indegree] ++
    if decrement indegree = 0 then [.insert dependent] else [])

def resolveStepRecorded (enabledPackages : List PackageId) (adjacency : AdjacencyList)
    (state : ResolveState × List ResolveEvent) :
    Checked ((ResolveState × List ResolveEvent) ⊕ (List PackageId × List ResolveEvent)) := do
  if nonempty : state.1.ready.Nonempty then
    let package := state.1.ready.min' nonempty
    let resolved ← checkedAt enabledPackages package
    let ((ready, indegrees), events) ← (← checkedAt adjacency package).foldlM releaseRecorded
      ((state.1.ready.erase package, state.1.indegrees), state.2 ++ [.emit package])
    return .inl
      ({ ready, indegrees, resolvedOrder := state.1.resolvedOrder ++ [resolved] }, events)
  else return .inr (state.1.resolvedOrder, state.2)

def resolveOrderRecorded (enabledPackages : List PackageId) (adjacency : AdjacencyList)
    (indegrees : List Nat) : Checked (List PackageId × List ResolveEvent) :=
  iterate (resolveStepRecorded enabledPackages adjacency) (enabledPackages.length + 1)
    ({ ready := (Finset.range indegrees.length).filter fun index => indegrees[index]? = some 0
       indegrees
       resolvedOrder := [] },
      ((List.range indegrees.length).filter fun index => indegrees[index]? = some 0).map .insert)

theorem fst_releaseRecorded (state : (Finset PackageIndex × List Nat) × List ResolveEvent)
    (dependent : PackageIndex) :
    Prod.fst <$> releaseRecorded state dependent = releaseDependent state.1 dependent := by
  unfold releaseRecorded
  cases found : checkedAt state.1.2 dependent with
  | error fault =>
    simp only [releaseDependent, found]
    rfl
  | ok indegree =>
    simp only [Checked.ok_bind]
    cases releaseDependent state.1 dependent <;> rfl

variable {enabledPackages : List PackageId} {adjacency : AdjacencyList} {indegrees : List Nat}

theorem fst_resolveStepRecorded (state : ResolveState × List ResolveEvent) :
    Sum.map Prod.fst Prod.fst <$> resolveStepRecorded enabledPackages adjacency state =
      resolveStep enabledPackages adjacency state.1 := by
  unfold resolveStepRecorded resolveStep
  by_cases nonempty : state.1.ready.Nonempty
  · rw [dif_pos nonempty, dif_pos nonempty]
    dsimp only
    generalize state.1.ready.min' nonempty = package
    cases checkedAt enabledPackages package with
    | error fault => rfl
    | ok resolved =>
      cases checkedAt adjacency package with
      | error fault => rfl
      | ok dependents =>
        simp only [Checked.ok_bind]
        have alike := map_foldlM Prod.fst fst_releaseRecorded dependents
          ((state.1.ready.erase package, state.1.indegrees), state.2 ++ [.emit package])
        rw [← alike]
        cases dependents.foldlM releaseRecorded
          ((state.1.ready.erase package, state.1.indegrees), state.2 ++ [.emit package]) <;> rfl
  · rw [dif_neg nonempty, dif_neg nonempty]
    rfl

theorem fst_resolveOrderRecorded :
    Prod.fst <$> resolveOrderRecorded enabledPackages adjacency indegrees =
      resolveOrder enabledPackages adjacency indegrees :=
  map_iterate Prod.fst Prod.fst fst_resolveStepRecorded

end Record

def insertions (events : List ResolveEvent) : List PackageIndex :=
  events.filterMap fun
    | .insert package => some package
    | _ => none

def emissions (events : List ResolveEvent) : List PackageIndex :=
  events.filterMap fun
    | .emit package => some package
    | _ => none

theorem insertions_append (before after : List ResolveEvent) :
    insertions (before ++ after) = insertions before ++ insertions after :=
  List.filterMap_append

theorem emissions_append (before after : List ResolveEvent) :
    emissions (before ++ after) = emissions before ++ emissions after :=
  List.filterMap_append

def DecrementsPositive (events : List ResolveEvent) : Prop :=
  ∀ dependent indegree, .decrement dependent indegree ∈ events → 0 < indegree

theorem DecrementsPositive.append {before after : List ResolveEvent}
    (first : DecrementsPositive before) (second : DecrementsPositive after) :
    DecrementsPositive (before ++ after) := by
  intro dependent indegree member
  rcases List.mem_append.mp member with member | member
  · exact first dependent indegree member
  · exact second dependent indegree member

section Released

variable {ready : Finset PackageIndex} {indegrees : List Nat} {events : List ResolveEvent}

theorem releaseRecorded_of_pos {dependent count : Nat}
    (indegree : indegrees[dependent]? = some (count + 1)) :
    releaseRecorded ((ready, indegrees), events) dependent =
      .ok ((if count = 0 then insert dependent ready else ready, indegrees.set dependent count),
        events ++ (.decrement dependent (count + 1) ::
          if count = 0 then [.insert dependent] else [])) := by
  simp only [releaseRecorded, checkedAt_eq_ok.mpr indegree, releaseDependent_of_pos indegree,
    Checked.ok_bind, decrement, Nat.add_one_ne_zero, if_false, Nat.add_sub_cancel,
    List.append_assoc]
  rfl

theorem foldlM_releaseRecorded {targets : List PackageIndex} (nodup : targets.Nodup)
    (positive : ∀ target ∈ targets, ∃ count, indegrees[target]? = some (count + 1)) :
    ∃ state released, targets.foldlM releaseRecorded ((ready, indegrees), events) =
        .ok (state, events ++ released) ∧
      DecrementsPositive released ∧ emissions released = [] ∧
      insertions released = targets.filter fun target => indegrees[target]? = some 1 := by
  induction targets generalizing ready indegrees events with
  | nil =>
    exact ⟨(ready, indegrees), [], by rw [List.append_nil]; rfl,
      fun _ _ member => absurd member List.not_mem_nil, rfl, rfl⟩
  | cons target targets ih =>
    obtain ⟨fresh, nodup⟩ := List.nodup_cons.mp nodup
    obtain ⟨count, indegree⟩ := positive target List.mem_cons_self
    have others : ∀ other ∈ targets, (indegrees.set target count)[other]? = indegrees[other]? :=
      fun other h => List.getElem?_set_ne (by rintro rfl; exact fresh h)
    obtain ⟨state, released, ran, positive', emits, inserts⟩ :=
      @ih (if count = 0 then insert target ready else ready) (indegrees.set target count)
        (events ++ (.decrement target (count + 1) ::
          if count = 0 then [.insert target] else [])) nodup
        (fun other h => by rw [others other h]; exact positive other (List.mem_cons_of_mem _ h))
    refine ⟨state, (.decrement target (count + 1) ::
      if count = 0 then [.insert target] else []) ++ released, ?_, ?_, ?_, ?_⟩
    · rw [List.foldlM_cons, releaseRecorded_of_pos indegree, Checked.ok_bind, ran,
        List.append_assoc]
    · refine DecrementsPositive.append ?_ positive'
      intro dependent found member
      by_cases zero : count = 0 <;> simp [zero] at member <;> omega
    · rw [emissions_append, emits, List.append_nil]
      by_cases zero : count = 0 <;> simp [emissions, zero]
    · have rest : (targets.filter fun other => (indegrees.set target count)[other]? = some 1) =
          targets.filter fun other => indegrees[other]? = some 1 :=
        List.filter_congr fun other h => by rw [others other h]
      rw [insertions_append, inserts, rest]
      by_cases zero : count = 0 <;> simp [insertions, indegree, zero]

end Released

structure RecordInvariant (emitted : List PackageIndex) (ready : Finset PackageIndex)
    (events : List ResolveEvent) : Prop where
  positive : DecrementsPositive events
  nodup : (insertions events).Nodup
  mem_insertions_iff : ∀ package,
    package ∈ insertions events ↔ package ∈ emitted ∨ package ∈ ready
  emissions : emissions events = emitted

section Run

variable {enabledPackages : List PackageId} {adjacency : AdjacencyList} {indegrees : List Nat}

theorem RecordInvariant.initial :
    RecordInvariant [] ((Finset.range indegrees.length).filter fun index =>
        indegrees[index]? = some 0)
      (((List.range indegrees.length).filter fun index =>
        indegrees[index]? = some 0).map .insert) := by
  have inserted : ∀ packages : List PackageIndex, insertions (packages.map .insert) = packages :=
    fun packages => by simp [insertions, List.filterMap_map]
  constructor
  · intro dependent indegree member
    simp at member
  · rw [inserted]
    exact List.nodup_range.filter _
  · intro package
    simp [inserted]
  · simp [PackageDependencyGraph.emissions, List.filterMap_map]

theorem resolveStepRecorded_spec (valid : ValidAdjacency enabledPackages.length adjacency)
    (nodup : ∀ package, (children adjacency package).Nodup) {emitted : List PackageIndex}
    {state next : ResolveState} {events : List ResolveEvent}
    (inv : ResolveInvariant enabledPackages adjacency emitted state)
    (nonempty : state.ready.Nonempty)
    (moved : resolveStep enabledPackages adjacency state = .ok (.inl next)) :
    ∃ released, resolveStepRecorded enabledPackages adjacency (state, events) =
        .ok (.inl (next, events ++ [.emit (state.ready.min' nonempty)] ++ released)) ∧
      DecrementsPositive released ∧ emissions released = [] ∧
      insertions released = (children adjacency (state.ready.min' nonempty)).filter
        fun target => state.indegrees[target]? = some 1 := by
  have alike := @fst_resolveStepRecorded enabledPackages adjacency (state, events)
  have isReady := (inv.ready_iff _).mp (state.ready.min'_mem nonempty)
  obtain ⟨inside, fresh, _⟩ := readyAfter_iff.mp isReady
  rw [moved] at alike
  rw [resolveStepRecorded, dif_pos nonempty] at alike ⊢
  dsimp only at alike ⊢
  generalize state.ready.min' nonempty = package at *
  obtain ⟨⟨ready', indegrees'⟩, released, ran, positive, emits, inserts⟩ :=
    @foldlM_releaseRecorded (state.ready.erase package) state.indegrees
      (events ++ [.emit package]) (children adjacency package) (nodup package)
      (inv.indegree_pos valid fresh)
  have packageLt : package < enabledPackages.length := valid.length ▸ inside
  simp only [checkedAt_of_lt packageLt, children_of_lt inside, Checked.ok_bind, ran] at alike ⊢
  cases alike
  exact ⟨released, rfl, positive, emits, inserts⟩

theorem RecordInvariant.emit (valid : ValidAdjacency enabledPackages.length adjacency)
    (nodup : ∀ package, (children adjacency package).Nodup) {emitted : List PackageIndex}
    {state next : ResolveState} {events released : List ResolveEvent} {package : PackageIndex}
    (recorded : RecordInvariant emitted state.ready events)
    (inv : ResolveInvariant enabledPackages adjacency emitted state)
    (inv' : ResolveInvariant enabledPackages adjacency (emitted ++ [package]) next)
    (member : package ∈ state.ready) (positive : DecrementsPositive released)
    (emits : PackageDependencyGraph.emissions released = [])
    (inserts : insertions released =
      (children adjacency package).filter fun target => state.indegrees[target]? = some 1) :
    RecordInvariant (emitted ++ [package]) next.ready (events ++ [.emit package] ++ released) := by
  have isReady := (inv.ready_iff package).mp member
  have inserted : insertions (events ++ [.emit package] ++ released) =
      insertions events ++ insertions released := by
    rw [insertions_append, insertions_append]
    exact congrArg (· ++ insertions released) (List.append_nil _)
  have mem_released : ∀ target, target ∈ insertions released ↔
      target ∈ children adjacency package ∧ (predecessors adjacency emitted target).card = 1 := by
    intro target
    rw [inserts, List.mem_filter, decide_eq_true_iff]
    refine and_congr_right fun step => ?_
    rw [inv.indegree target (valid.length ▸ valid.target_lt step), Option.some.injEq]
  constructor
  · refine (recorded.positive.append ?_).append positive
    intro dependent indegree found
    simp at found
  · rw [inserted]
    refine List.Nodup.append recorded.nodup (inserts ▸ (nodup package).filter _) ?_
    intro target before after
    obtain ⟨step, waits⟩ := (mem_released target).mp after
    rcases (recorded.mem_insertions_iff target).mp before with out | ready
    · exact isReady.2.1 (inv.greedy.predecessor_mem out isReady.1 step)
    · obtain ⟨_, _, none⟩ := readyAfter_iff.mp ((inv.ready_iff target).mp ready)
      rw [none, Finset.card_empty] at waits
      exact absurd waits Nat.zero_ne_one
  · intro target
    rw [inserted, List.mem_append, recorded.mem_insertions_iff, mem_released, inv'.ready_iff,
      readyAfter_snoc_iff isReady inv.greedy (fun step => valid.length ▸ valid.target_lt step),
      ← inv.ready_iff, List.mem_append, List.mem_singleton]
    by_cases same : target = package
    · simp [same, member]
    · simp [same, or_assoc]
  · rw [emissions_append, emissions_append, recorded.emissions, emits, List.append_nil]
    rfl

theorem resolveOrderRecorded_spec (valid : ValidAdjacency enabledPackages.length adjacency)
    (counts : CountsEdges adjacency indegrees) :
    ∃ outcome, resolveOrderRecorded enabledPackages adjacency indegrees = .ok outcome ∧
      ∃ emitted, ResolvedIndexes enabledPackages adjacency outcome.1 emitted ∧
        RecordInvariant emitted ∅ outcome.2 := by
  refine iterate_total
    (fun s => ∃ emitted, ResolveInvariant enabledPackages adjacency emitted s.1 ∧
      RecordInvariant emitted s.1.ready s.2)
    (fun s => enabledPackages.length - s.1.resolvedOrder.length) ?_
    ⟨[], ResolveInvariant.initial counts, RecordInvariant.initial⟩ (by simp)
  rintro ⟨state, events⟩ ⟨emitted, inv, recorded⟩
  by_cases nonempty : state.ready.Nonempty
  · left
    obtain ⟨next, moved, inv'⟩ := resolveStep_spec valid counts.nodup inv nonempty
    obtain ⟨released, ran, positive, emits, inserts⟩ :=
      resolveStepRecorded_spec valid counts.nodup inv nonempty moved
    have recorded' := recorded.emit valid counts.nodup inv inv' (state.ready.min'_mem nonempty)
      positive emits inserts
    exact ⟨_, ran, ⟨_, inv', recorded'⟩, inv.remaining_lt valid inv'⟩
  · right
    refine ⟨(state.resolvedOrder, events), by rw [resolveStepRecorded, dif_neg nonempty]; rfl,
      emitted, inv.finished nonempty, Finset.not_nonempty_iff_eq_empty.mp nonempty ▸ recorded⟩

theorem acyclic_iff_findCycle_eq_none
    (valid : ValidAdjacency enabledPackages.length adjacency) :
    Acyclic (Edge adjacency) ↔ findCycle enabledPackages adjacency = .ok none := by
  obtain ⟨result, ran, found⟩ := findCycle_spec valid
  rw [ran]
  cases result with
  | none => exact ⟨fun _ => rfl, fun _ => found⟩
  | some packages =>
    obtain ⟨source, cycle⟩ := found.transGen
    exact ⟨fun acyclic => absurd cycle (acyclic source), fun h => by cases h⟩

end Run

/-- On every graph no in-degree wraps around, no package becomes ready twice, and the packages
that lie behind a cycle are those that stay out. -/
theorem resolveOrder_emits_iff_no_cycle_reaches (enabledPackages : List PackageId)
    (adjacency : AdjacencyList) (indegrees : List Nat)
    (valid : ValidAdjacency enabledPackages.length adjacency)
    (counts : CountsEdges adjacency indegrees) :
    ∃ order events, resolveOrder enabledPackages adjacency indegrees = .ok order ∧
      resolveOrderRecorded enabledPackages adjacency indegrees = .ok (order, events) ∧
      (∀ dependent indegree, .decrement dependent indegree ∈ events → 0 < indegree) ∧
      (insertions events).Nodup ∧ (emissions events).Nodup ∧
      (emissions events).map (enabledPackages[·]?) = order.map some ∧
      (∀ package, package ∈ emissions events ↔ package < enabledPackages.length ∧
        ¬ ∃ source, TransGen (Edge adjacency) source source ∧
          ReflTransGen (Edge adjacency) source package) ∧
      ((∀ package < enabledPackages.length, package ∈ emissions events) ↔
        findCycle enabledPackages adjacency = .ok none) := by
  obtain ⟨⟨order, events⟩, ran, emitted, resolved, recorded⟩ :=
    resolveOrderRecorded_spec valid counts
  have plain : resolveOrder enabledPackages adjacency indegrees = .ok order := by
    rw [← fst_resolveOrderRecorded, ran]
    rfl
  have mem_iff : ∀ package, package ∈ emissions events ↔ package < enabledPackages.length ∧
      ¬ ∃ source, TransGen (Edge adjacency) source source ∧
        ReflTransGen (Edge adjacency) source package := by
    intro package
    rw [recorded.emissions, resolved.mem_iff, valid.length]
  refine ⟨order, events, plain, ran, recorded.positive, recorded.nodup,
    recorded.emissions ▸ resolved.nodup, recorded.emissions ▸ resolved.names, mem_iff, ?_⟩
  rw [← acyclic_iff_findCycle_eq_none valid]
  constructor
  · intro all source cycle
    obtain ⟨_, step, _⟩ := TransGen.head'_iff.mp cycle
    obtain ⟨_, free⟩ := (mem_iff source).mp (all source (valid.length ▸ step.source_lt))
    exact free ⟨source, cycle, .refl⟩
  · intro acyclic package inside
    exact (mem_iff package).mpr ⟨inside, fun ⟨source, cycle, _⟩ => acyclic source cycle⟩

theorem resolveOrder_emits_iff_no_cycle_reaches_of_cycle :
    ∃ order events, resolveOrder [⟨[1]⟩, ⟨[2]⟩, ⟨[3]⟩] [[1], [2], [1]] [0, 2, 1] = .ok order ∧
      resolveOrderRecorded [⟨[1]⟩, ⟨[2]⟩, ⟨[3]⟩] [[1], [2], [1]] [0, 2, 1] = .ok (order, events) ∧
      (∀ package, package ∈ emissions events ↔ package < 3 ∧
        ¬ ∃ source, TransGen (Edge [[1], [2], [1]]) source source ∧
          ReflTransGen (Edge [[1], [2], [1]]) source package) := by
  have counts : CountsEdges [[1], [2], [1]] [0, 2, 1] := by
    refine ⟨rfl, fun package => ?_, by decide⟩
    rcases package with _ | _ | _ | package <;> simp [children]
  obtain ⟨order, events, ran, recorded, _, _, _, _, members, _⟩ :=
    resolveOrder_emits_iff_no_cycle_reaches [⟨[1]⟩, ⟨[2]⟩, ⟨[3]⟩] [[1], [2], [1]] [0, 2, 1]
      (by decide) counts
  exact ⟨order, events, ran, recorded, members⟩

end FastModManager.Domain.PackageDependencyGraph
