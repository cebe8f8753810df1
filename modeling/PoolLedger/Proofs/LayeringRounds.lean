import Mathlib.Data.Fintype.EquivFin
import Mathlib.Data.List.Count
import Mathlib.Data.List.Perm.Subperm
import Mathlib.Logic.Relation
import PoolLedger.Batch.Layering
import PoolLedger.Proofs.SortBy
import PoolLedger.Proofs.SortedMap

/-!
# The rounds of a layering

After every round, each index waits for as many dependencies as lead to it from
outside the layers found so far, and the ready indices are those outside the
layers that wait for nothing.
-/

namespace PoolLedger

namespace Batch

namespace Graph

private theorem countP_add_countP {α : Type} {list : List α} {left right whole : α → Bool}
    (split : ∀ member ∈ list, (if left member then 1 else 0) + (if right member then 1 else 0) =
      if whole member then 1 else 0) :
    list.countP left + list.countP right = list.countP whole := by
  induction list with
  | nil => rfl
  | cons head rest ih =>
      have headSplit := split head List.mem_cons_self
      have restSplit := ih fun member inRest => split member (List.mem_cons_of_mem _ inRest)
      simp only [List.countP_cons]
      omega

theorem get?_tabulate {α : Type} (indices : List Nat) (value : Nat → α) (index : Nat) :
    (tabulate indices value).get? index =
      if index ∈ indices then some (value index) else none := by
  have keys := SortedMap.mem_keys_ofList (indices.map fun index => (index, ())) index
  simp only [List.map_map, Function.comp_def, List.map_id_fun', id_eq] at keys
  rw [tabulate, SortedMap.get?_mapValues]
  by_cases member : index ∈ indices
  · obtain ⟨_, found⟩ := (SortedMap.mem_keys_iff _ index).mp (keys.mpr member)
    rw [found, if_pos member]
    rfl
  · rw [(SortedMap.get?_eq_none_iff _ index).mpr (mt keys.mp member), if_neg member]
    rfl

/-- How many dependencies lead to an index from outside `done`. -/
def unmet (graph : Graph) (done : List Nat) (index : Nat) : Nat :=
  graph.dependencies.countP fun dependency =>
    dependency.target = index ∧ dependency.source ∉ done

@[simp]
theorem unmet_nil (graph : Graph) (index : Nat) :
    graph.unmet [] index = graph.inDegree index := by
  simp [unmet, inDegree]

theorem unmet_eq_zero_iff (graph : Graph) (done : List Nat) (index : Nat) :
    graph.unmet done index = 0 ↔
      ∀ dependency ∈ graph.dependencies,
        dependency.target = index → dependency.source ∈ done := by
  simp [unmet, List.countP_eq_zero]

theorem count_successors (graph : Graph) (source target : Nat) :
    (graph.successors source).count target =
      graph.dependencies.countP fun dependency =>
        dependency.source = source ∧ dependency.target = target := by
  rw [successors, List.count, List.countP_map, List.countP_filter]
  apply List.countP_congr
  intro dependency _
  simp [and_comm]

/-- Striking out what leads from some indices leaves what leads from outside them. -/
theorem unmet_append (graph : Graph) {done layer : List Nat} (index : Nat)
    (nodup : layer.Nodup) (fresh : ∀ source ∈ layer, source ∉ done) :
    graph.unmet (done ++ layer) index + (layer.flatMap graph.successors).count index =
      graph.unmet done index := by
  induction layer generalizing done with
  | nil => simp
  | cons head rest ih =>
      obtain ⟨headAbsent, restNodup⟩ := List.nodup_cons.mp nodup
      have restFresh : ∀ source ∈ rest, source ∉ done ++ [head] := by
        intro source member inDone
        rcases List.mem_append.mp inDone with old | isHead
        · exact fresh source (List.mem_cons_of_mem _ member) old
        · rw [List.mem_singleton.mp isHead] at member
          exact headAbsent member
      have one : graph.unmet (done ++ [head]) index + (graph.successors head).count index =
          graph.unmet done index := by
        have headFresh : head ∉ done := fresh head List.mem_cons_self
        rw [count_successors]
        apply countP_add_countP
        intro dependency _
        by_cases isTarget : dependency.target = index
        · by_cases isHead : dependency.source = head
          · simp [isTarget, isHead, headFresh]
          · simp [isTarget, isHead]
        · simp [isTarget]
      have later := ih restNodup restFresh
      rw [List.append_assoc, List.singleton_append] at later
      rw [List.flatMap_cons, List.count_append]
      omega

end Graph

namespace Layering

theorem strike_of_get? {waiting : SortedMap Nat Nat} {target count : Nat}
    (found : waiting.get? target = some count) (released : List Nat) :
    strike (waiting, released) target =
      (waiting.insert target (count - 1),
        if count - 1 = 0 then released ++ [target] else released) := by
  simp [strike, found]

theorem strike_of_get?_eq_none {waiting : SortedMap Nat Nat} {target : Nat}
    (absent : waiting.get? target = none) (released : List Nat) :
    strike (waiting, released) target = (waiting, released) := by
  simp [strike, absent]

/-- No index is named more often than what it waits for. -/
def Covers (waiting : SortedMap Nat Nat) (targets : List Nat) : Prop :=
  ∀ index count, waiting.get? index = some count → targets.count index ≤ count

theorem Covers.tail {waiting : SortedMap Nat Nat} {target : Nat} {rest : List Nat}
    (covers : Covers waiting (target :: rest)) : Covers waiting rest := by
  intro index count found
  exact Nat.le_trans (List.count_le_count_cons ..) (covers index count found)

theorem Covers.insert {waiting : SortedMap Nat Nat} {target count : Nat} {rest : List Nat}
    (covers : Covers waiting (target :: rest)) (found : waiting.get? target = some count) :
    Covers (waiting.insert target (count - 1)) rest := by
  have enough : rest.count target + 1 ≤ count := by
    simpa using covers target count found
  intro index left known
  rw [SortedMap.get?_insert] at known
  split at known
  · rename_i same
    cases known
    rw [same]
    omega
  · exact covers.tail index left known

/-- Each index is struck out as often as it is named, and is released once if nothing is
left then. -/
theorem foldl_strike (targets : List Nat) {waiting : SortedMap Nat Nat} (released : List Nat)
    (covers : Covers waiting targets) (index : Nat) :
    (targets.foldl strike (waiting, released)).1.get? index =
        (waiting.get? index).map (· - targets.count index) ∧
      (targets.foldl strike (waiting, released)).2.count index = released.count index +
        if 0 < targets.count index ∧ waiting.get? index = some (targets.count index) then 1
        else 0 := by
  induction targets generalizing waiting released with
  | nil => simp
  | cons head rest ih =>
      rw [List.foldl_cons]
      cases found : waiting.get? head with
      | none =>
          rw [strike_of_get?_eq_none found]
          obtain ⟨left, releases⟩ := ih released covers.tail
          rw [left, releases]
          by_cases isHead : head = index
          · subst isHead
            simp [found]
          · simp [isHead]
      | some count =>
          have enough : rest.count head + 1 ≤ count := by
            simpa using covers head count found
          rw [strike_of_get? found]
          obtain ⟨left, releases⟩ := ih _ (covers.insert found)
          rw [left, releases, SortedMap.get?_insert]
          by_cases isHead : head = index
          · subst isHead
            simp only [if_true, List.count_cons_self, found, Option.map_some, Option.some.injEq]
            constructor
            · omega
            · split <;> split <;> simp <;> omega
          · have notHead : index ≠ head := fun same => isHead same.symm
            rw [if_neg notHead, List.count_cons_of_ne isHead]
            refine ⟨rfl, ?_⟩
            split <;> simp [isHead]

/-- Every index comes with all its sources before its layer, after the indices in `before`. -/
def Ordered (dependencies : List Dependency) : List Nat → List (List Nat) → Prop
  | _, [] => True
  | before, layer :: rest =>
      (∀ dependency ∈ dependencies, dependency.target ∈ layer → dependency.source ∈ before) ∧
        Ordered dependencies (before ++ layer) rest

theorem ordered_append_singleton {dependencies : List Dependency} {before : List Nat}
    {layers : List (List Nat)} (layer : List Nat) :
    Ordered dependencies before (layers ++ [layer]) ↔
      Ordered dependencies before layers ∧
        ∀ dependency ∈ dependencies, dependency.target ∈ layer →
          dependency.source ∈ before ++ layers.flatten := by
  induction layers generalizing before with
  | nil => simp [Ordered]
  | cons head rest ih =>
      rw [List.cons_append, Ordered, Ordered, ih, List.flatten_cons, List.append_assoc, and_assoc]

/-- What holds after every round. -/
structure Sound (graph : Graph) (layering : Layering) : Prop where
  waiting : ∀ index, layering.waiting.get? index =
    if index ∈ graph.inDegrees.keys then some (graph.unmet layering.layers.flatten index) else none
  ready : ∀ index, index ∈ layering.ready ↔
    index ∈ graph.inDegrees.keys ∧ graph.unmet layering.layers.flatten index = 0 ∧
      index ∉ layering.layers.flatten
  nodup : layering.layers.flatten.Nodup
  settled : ∀ index ∈ layering.layers.flatten,
    index ∈ graph.inDegrees.keys ∧ graph.unmet layering.layers.flatten index = 0
  ordered : Ordered graph.dependencies [] layering.layers
  ascending : ∀ layer ∈ layering.layers ++ [layering.ready], layer.Pairwise (· < ·)

theorem get?_inDegrees (graph : Graph) (index : Nat) :
    graph.inDegrees.get? index =
      if index ∈ graph.inDegrees.keys then some (graph.inDegree index) else none := by
  have value : graph.inDegrees.get? index = _ := Graph.get?_tabulate _ _ index
  by_cases isKey : index ∈ graph.inDegrees.keys
  · obtain ⟨count, found⟩ := (SortedMap.mem_keys_iff _ index).mp isKey
    rw [if_pos isKey, value]
    rw [value] at found
    split at found
    · rename_i listed
      rw [if_pos listed]
    · cases found
  · rw [if_neg isKey, (SortedMap.get?_eq_none_iff _ index).mpr isKey]

theorem sound_start (graph : Graph) : Sound graph (start graph) where
  waiting index := by
    rw [start, List.flatten_nil, Graph.unmet_nil]
    exact get?_inDegrees graph index
  ready index := by
    simp only [start, List.flatten_nil, Graph.unmet_nil, List.mem_map, List.mem_filter,
      decide_eq_true_eq, List.not_mem_nil, not_false_eq_true, and_true, Prod.exists,
      exists_and_right, exists_eq_right, SortedMap.mem_toList_iff, get?_inDegrees]
    by_cases isKey : index ∈ graph.inDegrees.keys
    · simp [isKey]
    · simp [isKey]
  nodup := List.nodup_nil
  settled index member := by simp [start] at member
  ordered := trivial
  ascending layer member := by
    have isReady : layer = (start graph).ready := by simpa [start] using member
    have keysAscend : graph.inDegrees.toList.Pairwise fun first second => first.1 < second.1 :=
      graph.inDegrees.ascending.imp fun below => Nat.compare_eq_lt.mp below
    rw [isReady]
    exact List.pairwise_map.mpr (keysAscend.filter _)

section Round

variable {graph : Graph} {layering : Layering}

theorem Sound.nodup_ready (sound : Sound graph layering) : layering.ready.Nodup :=
  (sound.ascending layering.ready (by simp)).imp fun below => Nat.ne_of_lt below

theorem flatten_round (graph : Graph) (layering : Layering) :
    (round graph layering).layers.flatten = layering.layers.flatten ++ layering.ready := by
  simp [round]

/-- What the ready indices strike out is what an index no longer waits for. -/
theorem Sound.unmet_round (sound : Sound graph layering) (index : Nat) :
    graph.unmet (layering.layers.flatten ++ layering.ready) index +
        (layering.ready.flatMap graph.successors).count index =
      graph.unmet layering.layers.flatten index :=
  graph.unmet_append index sound.nodup_ready fun source member =>
    ((sound.ready source).mp member).2.2

theorem Sound.covers (sound : Sound graph layering) :
    Covers layering.waiting (layering.ready.flatMap graph.successors) := by
  intro index count found
  have struck := sound.unmet_round index
  rw [sound.waiting] at found
  split at found
  · cases found
    omega
  · cases found

theorem Sound.waiting_round (sound : Sound graph layering) (index : Nat) :
    (round graph layering).waiting.get? index =
      if index ∈ graph.inDegrees.keys then
        some (graph.unmet (round graph layering).layers.flatten index)
      else none := by
  have struck := sound.unmet_round index
  have left := (foldl_strike (layering.ready.flatMap graph.successors) [] sound.covers index).1
  rw [flatten_round, round, left, sound.waiting]
  split
  · rw [Option.map_some, ← struck, Nat.add_sub_cancel]
  · rfl

theorem Sound.count_released (sound : Sound graph layering) (index : Nat) :
    ((layering.ready.flatMap graph.successors).foldl strike (layering.waiting, [])).2.count index =
      if index ∈ graph.inDegrees.keys ∧ index ∉ layering.layers.flatten ++ layering.ready ∧
        graph.unmet (layering.layers.flatten ++ layering.ready) index = 0 then 1 else 0 := by
  have struck := sound.unmet_round index
  have releases := (foldl_strike (layering.ready.flatMap graph.successors) [] sound.covers index).2
  rw [releases, List.count_nil, Nat.zero_add, sound.waiting]
  congr 1
  by_cases isKey : index ∈ graph.inDegrees.keys
  · simp only [isKey, if_true, Option.some.injEq, true_and, List.mem_append, not_or, eq_iff_iff]
    have isReady := sound.ready index
    have isSettled := sound.settled index
    constructor
    · rintro ⟨some, all⟩
      refine ⟨⟨fun inDone => ?_, fun inReady => ?_⟩, by omega⟩
      · have := (isSettled inDone).2
        omega
      · have := (isReady.mp inReady).2.1
        omega
    · rintro ⟨⟨notDone, notReady⟩, none⟩
      refine ⟨Nat.pos_of_ne_zero fun zero => notReady (isReady.mpr ⟨isKey, ?_, notDone⟩), ?_⟩
      · omega
      · omega
  · simp [isKey]

theorem sound_round (sound : Sound graph layering) : Sound graph (round graph layering) where
  waiting := sound.waiting_round
  ready index := by
    have released := sound.count_released index
    rw [flatten_round, round, (sortBy_perm id _).mem_iff, ← List.count_pos_iff, released]
    split
    · rename_i free
      simp [free]
    · rename_i notFree
      simp only [Nat.lt_irrefl, false_iff]
      rintro ⟨isKey, none, absent⟩
      exact notFree ⟨isKey, absent, none⟩
  nodup := by
    rw [flatten_round, List.nodup_append']
    exact ⟨sound.nodup, sound.nodup_ready, fun index inDone inReady =>
      ((sound.ready index).mp inReady).2.2 inDone⟩
  settled index member := by
    have struck := sound.unmet_round index
    rw [flatten_round] at member ⊢
    have met : index ∈ graph.inDegrees.keys ∧ graph.unmet layering.layers.flatten index = 0 := by
      rcases List.mem_append.mp member with inDone | inReady
      · exact sound.settled index inDone
      · have isReady := (sound.ready index).mp inReady
        exact ⟨isReady.1, isReady.2.1⟩
    exact ⟨met.1, by omega⟩
  ordered := by
    rw [round, ordered_append_singleton]
    refine ⟨sound.ordered, fun dependency member inReady => ?_⟩
    have free := ((sound.ready dependency.target).mp inReady).2.1
    exact (graph.unmet_eq_zero_iff _ _).mp free dependency member rfl
  ascending layer member := by
    rcases List.mem_append.mp member with old | new
    · exact sound.ascending layer old
    · have isReady : layer = (round graph layering).ready := List.mem_singleton.mp new
      have distinct : ((layering.ready.flatMap graph.successors).foldl strike
          (layering.waiting, [])).2.Nodup := by
        rw [List.nodup_iff_count_le_one]
        intro index
        rw [sound.count_released]
        split <;> omega
      rw [isReady]
      apply pairwise_lt_sortBy
      simpa using distinct

theorem Sound.done_subset_keys (sound : Sound graph layering) :
    layering.layers.flatten ⊆ graph.inDegrees.keys :=
  fun index member => (sound.settled index member).1

/-- Each round layers at least one index, so rounds enough for all of them leave none ready. -/
theorem Sound.ready_rounds (sound : Sound graph layering) (count : Nat)
    (enough : graph.inDegrees.size ≤ count + layering.layers.flatten.length) :
    (rounds graph count layering).ready = [] := by
  induction count generalizing layering with
  | zero =>
      have allDone : layering.layers.flatten.Perm graph.inDegrees.keys := by
        apply (List.subperm_of_subset sound.nodup sound.done_subset_keys).perm_of_length_le
        rw [SortedMap.length_keys]
        omega
      rw [rounds, List.eq_nil_iff_forall_not_mem]
      intro index member
      obtain ⟨isKey, _, notDone⟩ := (sound.ready index).mp member
      exact notDone (allDone.mem_iff.mpr isKey)
  | succ count ih =>
      rw [rounds]
      split
      · rename_i noneReady
        exact List.isEmpty_iff.mp noneReady
      · rename_i someReady
        have positive : 0 < layering.ready.length :=
          List.length_pos_of_ne_nil (mt List.isEmpty_iff.mpr someReady)
        apply ih (sound_round sound)
        rw [flatten_round, List.length_append]
        omega

theorem Sound.rounds (sound : Sound graph layering) (count : Nat) :
    Sound graph (rounds graph count layering) := by
  induction count generalizing layering with
  | zero => exact sound
  | succ count ih =>
      rw [Layering.rounds]
      split
      · exact sound
      · exact ih (sound_round sound)

end Round

theorem sound_complete (graph : Graph) : Sound graph (complete graph) :=
  (sound_start graph).rounds _

theorem ready_complete (graph : Graph) : (complete graph).ready = [] :=
  (sound_start graph).ready_rounds _ (Nat.le_add_right ..)

theorem layered_eq_length (layering : Layering) :
    layering.layered = layering.layers.flatten.length := by
  rw [layered, List.length_flatten, List.sum_eq_foldl_nat]

/-- An index stays outside the layers only while it waits for another one outside them. -/
theorem mem_complete_of_sources (graph : Graph) {index : Nat}
    (isKey : index ∈ graph.inDegrees.keys)
    (sources : ∀ dependency ∈ graph.dependencies, dependency.target = index →
      dependency.source ∈ (complete graph).layers.flatten) :
    index ∈ (complete graph).layers.flatten := by
  by_contra outside
  have isReady := ((sound_complete graph).ready index).mpr
    ⟨isKey, (graph.unmet_eq_zero_iff _ _).mpr sources, outside⟩
  rw [ready_complete graph] at isReady
  cases isReady

end Layering

namespace Graph

/-- A dependency leads from one index to the other. -/
def Leads (graph : Graph) (source target : Nat) : Prop :=
  ∃ dependency ∈ graph.dependencies, dependency.source = source ∧ dependency.target = target

/-- Dependencies lead from some index back to it. -/
def Cyclic (graph : Graph) : Prop :=
  ∃ index, Relation.TransGen graph.Leads index index

/-- Every dependency leads from a node to a node. -/
def Closed (graph : Graph) : Prop :=
  ∀ dependency ∈ graph.dependencies,
    dependency.source ∈ graph.nodes.keys ∧ dependency.target ∈ graph.nodes.keys

/-- Every dependency leads from a node to a node of a greater index. -/
def Forward (graph : Graph) : Prop :=
  ∀ dependency ∈ graph.dependencies, dependency.source < dependency.target ∧
    dependency.source ∈ graph.nodes.keys ∧ dependency.target ∈ graph.nodes.keys

variable {graph : Graph}

theorem Closed.mem_keys_inDegrees (closed : graph.Closed) (index : Nat) :
    index ∈ graph.inDegrees.keys ↔ index ∈ graph.nodes.keys := by
  rw [inDegrees, SortedMap.mem_keys_iff]
  simp only [get?_tabulate, List.mem_append, List.mem_map]
  constructor
  · rintro ⟨_, found⟩
    split at found
    · rename_i listed
      rcases listed with isNode | ⟨dependency, member, rfl⟩
      · exact isNode
      · exact (closed dependency member).2
    · cases found
  · intro isNode
    exact ⟨graph.inDegree index, if_pos (.inl isNode)⟩

/-- The rounds of a closed graph decide whether it has layers, also when it is empty. -/
theorem Closed.layers?_eq (closed : graph.Closed) :
    graph.layers? =
      if (Layering.complete graph).layers.flatten.length < graph.nodes.size then none
      else some (.ofLayers (Layering.complete graph).layers) := by
  rw [Graph.layers?, ← Layering.layered_eq_length]
  split
  · rename_i isEmpty
    have noNodes := (SortedMap.isEmpty_iff_size _).mp isEmpty
    have noKeys : graph.inDegrees.keys = [] := by
      rw [List.eq_nil_iff_forall_not_mem]
      intro index member
      have isNode := (closed.mem_keys_inDegrees index).mp member
      rw [List.eq_nil_of_length_eq_zero ((SortedMap.length_keys _).trans noNodes)] at isNode
      cases isNode
    have noRounds : Layering.complete graph = Layering.start graph := by
      rw [Layering.complete, ← SortedMap.length_keys, noKeys]
      rfl
    rw [noRounds, noNodes]
    rfl
  · rfl

/-- There are finitely many nodes, so going back along dependencies that never return ends. -/
theorem wellFounded_leads (acyclic : ¬ graph.Cyclic) :
    WellFounded fun first second : { index // index ∈ graph.nodes.keys } =>
      Relation.TransGen graph.Leads first.1 second.1 := by
  have transitive : IsTrans { index // index ∈ graph.nodes.keys } fun first second =>
      Relation.TransGen graph.Leads first.1 second.1 := ⟨fun _ _ _ => .trans⟩
  have irreflexive : Std.Irrefl fun first second : { index // index ∈ graph.nodes.keys } =>
      Relation.TransGen graph.Leads first.1 second.1 :=
    ⟨fun index returns => acyclic ⟨index.1, returns⟩⟩
  exact Finite.wellFounded_of_trans_of_irrefl _

/-- Without a cycle no node is left out: its sources come first by induction. -/
theorem Closed.mem_complete (closed : graph.Closed) (acyclic : ¬ graph.Cyclic) (index : Nat)
    (isNode : index ∈ graph.nodes.keys) :
    index ∈ (Layering.complete graph).layers.flatten := by
  have all : ∀ node : { index // index ∈ graph.nodes.keys },
      node.1 ∈ (Layering.complete graph).layers.flatten := by
    intro node
    induction node using (wellFounded_leads acyclic).induction with
    | _ node ih =>
        apply Layering.mem_complete_of_sources graph ((closed.mem_keys_inDegrees node.1).mpr node.2)
        intro dependency member isTarget
        exact ih ⟨dependency.source, (closed dependency member).1⟩
          (.single ⟨dependency, member, rfl, isTarget⟩)
  exact all ⟨index, isNode⟩

theorem Closed.subset_complete (closed : graph.Closed) :
    (Layering.complete graph).layers.flatten ⊆ graph.nodes.keys :=
  fun index member => (closed.mem_keys_inDegrees index).mp
    ((Layering.sound_complete graph).done_subset_keys member)

/-- Without a cycle the layers list every node once. -/
theorem Closed.perm_complete (closed : graph.Closed) (acyclic : ¬ graph.Cyclic) :
    (Layering.complete graph).layers.flatten.Perm graph.nodes.keys := by
  have sound := Layering.sound_complete graph
  apply (List.perm_ext_iff_of_nodup sound.nodup (SortedMap.nodup_keys _)).mpr
  intro index
  exact ⟨fun member => closed.subset_complete member, closed.mem_complete acyclic index⟩

theorem Closed.layers?_of_not_cyclic (closed : graph.Closed) (acyclic : ¬ graph.Cyclic) :
    graph.layers? = some (.ofLayers (Layering.complete graph).layers) := by
  rw [closed.layers?_eq, (closed.perm_complete acyclic).length_eq, SortedMap.length_keys]
  exact if_neg (Nat.lt_irrefl _)

theorem Forward.closed (forward : graph.Forward) : graph.Closed :=
  fun dependency member => (forward dependency member).2

theorem Forward.not_cyclic (forward : graph.Forward) : ¬ graph.Cyclic := by
  have ascends : ∀ first second, Relation.TransGen graph.Leads first second → first < second := by
    intro first second path
    induction path with
    | single edge =>
        obtain ⟨dependency, member, rfl, rfl⟩ := edge
        exact (forward dependency member).1
    | tail _ edge ih =>
        obtain ⟨dependency, member, rfl, rfl⟩ := edge
        exact Nat.lt_trans ih (forward dependency member).1
  rintro ⟨index, returns⟩
  exact Nat.lt_irrefl index (ascends index index returns)

/-- A forward graph has layers: they list its nodes once each, ascend, and respect the
dependencies. -/
theorem Forward.layers? (forward : graph.Forward) :
    ∃ layers, graph.layers? = some (.ofLayers layers) ∧
      layers.flatten.Perm graph.nodes.keys ∧
      Layering.Ordered graph.dependencies [] layers ∧
      ∀ layer ∈ layers, layer.Pairwise (· < ·) := by
  have sound := Layering.sound_complete graph
  refine ⟨_, forward.closed.layers?_of_not_cyclic forward.not_cyclic,
    forward.closed.perm_complete forward.not_cyclic, sound.ordered, fun layer member => ?_⟩
  exact sound.ascending layer (List.mem_append_left _ member)

end Graph

end Batch

end PoolLedger
