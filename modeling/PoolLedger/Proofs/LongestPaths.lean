import Mathlib.Data.List.Chain
import Mathlib.Order.Bounds.Defs
import PoolLedger.Batch.Plan
import PoolLedger.Proofs.GraphAdditions
import PoolLedger.Proofs.ScheduleCheck

/-!
# Layers and longest paths

An index of a layer after the first one was still waiting a round before, so it
has a source in the layer just before its own.  Going back from source to
source gives a path as long as the number of the layer.  No path is longer,
because every dependency leads to a later layer, and for the same reason no
index on a cycle is ever layered.
-/

namespace PoolLedger

namespace Batch

namespace Graph

/-- Some path of that many dependencies ends in an index. -/
def HasPathTo (graph : Graph) (index length : Nat) : Prop :=
  ∃ path : List Nat, path.length = length ∧ (path ++ [index]).IsChain graph.Leads

theorem hasPathTo_zero (graph : Graph) (index : Nat) : graph.HasPathTo index 0 :=
  ⟨[], rfl, .singleton index⟩

theorem hasPathTo_succ_iff (graph : Graph) (index length : Nat) :
    graph.HasPathTo index (length + 1) ↔
      ∃ source, graph.Leads source index ∧ graph.HasPathTo source length := by
  constructor
  · rintro ⟨path, isLength, chain⟩
    rcases List.eq_nil_or_concat' path with rfl | ⟨before, source, rfl⟩
    · cases isLength
    · rw [List.append_assoc, List.singleton_append, List.isChain_append_cons_cons] at chain
      obtain ⟨shorter, leads, _⟩ := chain
      rw [List.length_append, List.length_singleton] at isLength
      exact ⟨source, leads, before, Nat.succ.inj isLength, shorter⟩
  · rintro ⟨source, leads, before, isLength, chain⟩
    refine ⟨before ++ [source], by rw [List.length_append, isLength]; rfl, ?_⟩
    rw [List.append_assoc, List.singleton_append, List.isChain_append_cons_cons]
    exact ⟨chain, leads, .singleton index⟩

end Graph

namespace Layering

/-- Every index of the second layer has a source in the first one. -/
def Feeds (graph : Graph) (first second : List Nat) : Prop :=
  ∀ target ∈ second, ∃ source ∈ first, graph.Leads source target

/-- No layer is empty, and each one feeds the next, the last one the ready indices. -/
structure Tight (graph : Graph) (layering : Layering) : Prop where
  occupied : ∀ layer ∈ layering.layers, layer ≠ []
  fed : (layering.layers ++ [layering.ready]).IsChain (Feeds graph)

theorem tight_start (graph : Graph) : Tight graph (start graph) where
  occupied := by simp [start]
  fed := .singleton _

section Round

variable {graph : Graph} {layering : Layering}

/-- What a round releases waited for an index that was ready. -/
theorem Sound.feeds_round (sound : Sound graph layering) :
    Feeds graph layering.ready (round graph layering).ready := by
  intro index released
  obtain ⟨isKey, free, fresh⟩ := ((sound_round sound).ready index).mp released
  rw [flatten_round] at free fresh
  have waited : graph.unmet layering.layers.flatten index ≠ 0 := by
    intro wasFree
    have wasReady := (sound.ready index).mpr
      ⟨isKey, wasFree, fun inDone => fresh (List.mem_append_left _ inDone)⟩
    exact fresh (List.mem_append_right _ wasReady)
  rw [Ne, Graph.unmet_eq_zero_iff] at waited
  push Not at waited
  obtain ⟨dependency, member, isTarget, notDone⟩ := waited
  have isSource := (graph.unmet_eq_zero_iff _ _).mp free dependency member isTarget
  exact ⟨dependency.source, (List.mem_append.mp isSource).resolve_left notDone, dependency, member,
    rfl, isTarget⟩

theorem Tight.round (tight : Tight graph layering) (sound : Sound graph layering)
    (someReady : layering.ready ≠ []) : Tight graph (round graph layering) where
  occupied := by
    intro layer member
    rcases List.mem_append.mp member with old | new
    · exact tight.occupied layer old
    · rw [List.mem_singleton.mp new]
      exact someReady
  fed := by
    have feeds := sound.feeds_round
    rw [Layering.round] at feeds ⊢
    rw [List.append_assoc, List.singleton_append, List.isChain_append_cons_cons]
    exact ⟨tight.fed, feeds, .singleton _⟩

theorem Tight.rounds (tight : Tight graph layering) (sound : Sound graph layering) (count : Nat) :
    Tight graph (rounds graph count layering) := by
  induction count generalizing layering with
  | zero => exact tight
  | succ count ih =>
      rw [Layering.rounds]
      split
      · exact tight
      · rename_i someReady
        exact ih (tight.round sound (mt List.isEmpty_iff.mpr someReady)) (sound_round sound)

end Round

theorem tight_complete (graph : Graph) : Tight graph (complete graph) :=
  (tight_start graph).rounds (sound_start graph) _

end Layering

namespace Schedule

theorem places_ofLayers_iff {layers : List (List Nat)} {position index : Nat} :
    (ofLayers layers).Places position index ↔
      ∃ layer, layers[position]? = some layer ∧ index ∈ layer := by
  simp [Places, ofLayers, ofGroups]

theorem sizes_mapIdx (layers : List (List Nat)) :
    (layers.mapIdx Group.mk).map (·.indices.length) = layers.map List.length := by
  have listed := congrArg (List.map List.length) (map_indices_ofLayers layers)
  rwa [List.map_map] at listed

theorem mem_groups_ofLayers {layers : List (List Nat)} {group : Group}
    (member : group ∈ (ofLayers layers).groups) : group.indices ∈ layers := by
  rw [← map_indices_ofLayers layers]
  exact List.mem_map_of_mem member

theorem id_of_groups_ofLayers {layers : List (List Nat)} {position : Nat} {group : Group}
    (found : (ofLayers layers).groups[position]? = some group) : group.id = position := by
  rw [ofLayers, ofGroups, List.getElem?_mapIdx, Option.map_eq_some_iff] at found
  obtain ⟨_, _, rfl⟩ := found
  rfl

theorem totalActions_ofLayers (layers : List (List Nat)) :
    (ofLayers layers).totalActions = layers.flatten.length := by
  rw [ofLayers, ofGroups, sizes_mapIdx, List.length_flatten, List.sum_eq_foldl_nat]

theorem isGreatest_foldl_max (first : Nat) (sizes : List Nat) :
    IsGreatest { size | size ∈ first :: sizes } (sizes.foldl max first) := by
  induction sizes generalizing first with
  | nil => simp [IsGreatest, upperBounds]
  | cons size rest ih =>
      obtain ⟨attained, bounds⟩ := ih (max first size)
      have firstBound := bounds List.mem_cons_self
      constructor
      · rcases List.mem_cons.mp attained with isFirst | inRest
        · rw [List.foldl_cons, isFirst]
          rcases Nat.le_total first size with below | above
          · simp [Nat.max_eq_right below]
          · simp [Nat.max_eq_left above]
        · exact List.mem_cons_of_mem _ (List.mem_cons_of_mem _ inRest)
      · intro member listed
        rw [List.foldl_cons]
        rcases List.mem_cons.mp listed with rfl | later
        · exact (Nat.le_max_left ..).trans firstBound
        · rcases List.mem_cons.mp later with rfl | inRest
          · exact (Nat.le_max_right ..).trans firstBound
          · exact bounds (List.mem_cons_of_mem _ inRest)

theorem maxParallelism_ofGroups (groups : List Group) :
    groups = [] ∧ (ofGroups groups).maxParallelism = 0 ∨
      IsGreatest { size | ∃ group ∈ groups, group.indices.length = size }
        (ofGroups groups).maxParallelism := by
  cases groups with
  | nil => exact .inl ⟨rfl, rfl⟩
  | cons head rest =>
      right
      have sizes : { size | ∃ group ∈ head :: rest, group.indices.length = size } =
          { size | size ∈ head.indices.length :: rest.map (·.indices.length) } := by
        ext size
        exact List.mem_map.symm
      have greatest : (ofGroups (head :: rest)).maxParallelism =
          (rest.map (·.indices.length)).foldl max head.indices.length := by
        simp [ofGroups]
      rw [sizes, greatest]
      exact isGreatest_foldl_max _ _

end Schedule

namespace Graph

/-- The schedule of the layers that the rounds find, of some nodes only if there is a cycle. -/
def layering (graph : Graph) : Schedule :=
  .ofLayers (Layering.complete graph).layers

theorem flatten_layering (graph : Graph) :
    graph.layering.flatten = (Layering.complete graph).layers.flatten :=
  Schedule.flatten_ofLayers _

variable (graph : Graph)

/-- A dependency leads to a later layer. -/
theorem rises_of_leads {source target later : Nat} (leads : graph.Leads source target)
    (placed : graph.layering.Places later target) :
    ∃ earlier < later, graph.layering.Places earlier source := by
  obtain ⟨dependency, member, rfl, rfl⟩ := leads
  have ordered := (Layering.sound_complete graph).ordered
  rw [← Schedule.map_indices_ofLayers (Layering.complete graph).layers,
    Schedule.ordered_iff_places] at ordered
  obtain ⟨group, found, isTarget⟩ := placed
  rcases ordered dependency member later group found isTarget with none | earlier
  · cases none
  · exact earlier

theorem rises_of_path {source target later : Nat}
    (path : Relation.TransGen graph.Leads source target)
    (placed : graph.layering.Places later target) :
    ∃ earlier < later, graph.layering.Places earlier source := by
  induction path generalizing later with
  | single leads => exact graph.rises_of_leads leads placed
  | tail _ leads ih =>
      obtain ⟨middle, below, placedMiddle⟩ := graph.rises_of_leads leads placed
      obtain ⟨earlier, belowMiddle, placedEarlier⟩ := ih placedMiddle
      exact ⟨earlier, belowMiddle.trans below, placedEarlier⟩

/-- No path to an index is longer than the number of its layer. -/
theorem le_of_hasPathTo {position index length : Nat}
    (placed : graph.layering.Places position index)
    (path : graph.HasPathTo index length) : length ≤ position := by
  induction length generalizing position index with
  | zero => exact Nat.zero_le position
  | succ length ih =>
      obtain ⟨source, leads, shorter⟩ := (graph.hasPathTo_succ_iff index length).mp path
      obtain ⟨earlier, below, placedSource⟩ := graph.rises_of_leads leads placed
      have bound := ih placedSource shorter
      omega

/-- Some path to an index is as long as the number of its layer. -/
theorem hasPathTo_of_places {position index : Nat}
    (placed : graph.layering.Places position index) :
    graph.HasPathTo index position := by
  induction position generalizing index with
  | zero => exact graph.hasPathTo_zero index
  | succ position ih =>
      obtain ⟨layer, found, member⟩ := Schedule.places_ofLayers_iff.mp placed
      obtain ⟨bound, rfl⟩ := List.getElem?_eq_some_iff.mp found
      -- The source that the layer before has is where the path continues backwards.
      have fed := List.isChain_iff_getElem.mp
        (Layering.tight_complete graph).fed.left_of_append position bound
      obtain ⟨source, isSource, leads⟩ := fed index member
      apply (graph.hasPathTo_succ_iff index position).mpr
      exact ⟨source, leads, ih (Schedule.places_ofLayers_iff.mpr
        ⟨_, List.getElem?_eq_getElem (by omega), isSource⟩)⟩

/-- No index on a cycle is layered. -/
theorem not_mem_complete_of_returns {index : Nat}
    (returns : Relation.TransGen graph.Leads index index) :
    index ∉ (Layering.complete graph).layers.flatten := by
  have nodup := (Layering.sound_complete graph).nodup
  rw [← flatten_layering] at nodup ⊢
  intro layered
  obtain ⟨position, placed⟩ := (graph.layering.mem_flatten_iff index).mp layered
  obtain ⟨earlier, below, again⟩ := graph.rises_of_path returns placed
  rw [placed.unique nodup again] at below
  exact Nat.lt_irrefl earlier below

variable {graph}

theorem Closed.isNode_of_path (closed : graph.Closed) {first last : Nat}
    (path : Relation.TransGen graph.Leads first last) : last ∈ graph.nodes.keys := by
  cases path with
  | single leads =>
      obtain ⟨dependency, member, _, rfl⟩ := leads
      exact (closed dependency member).2
  | tail _ leads =>
      obtain ⟨dependency, member, _, rfl⟩ := leads
      exact (closed dependency member).2

theorem Closed.layers?_of_cyclic (closed : graph.Closed) (cyclic : graph.Cyclic) :
    graph.layers? = none := by
  obtain ⟨index, returns⟩ := cyclic
  have nodup := (Layering.sound_complete graph).nodup
  -- If as many indices are layered as there are nodes, then so is the one on the cycle.
  have short : (Layering.complete graph).layers.flatten.length < graph.nodes.size := by
    rw [← SortedMap.length_keys]
    by_contra enough
    have all := (List.subperm_of_subset nodup closed.subset_complete).perm_of_length_le
      (Nat.le_of_not_lt enough)
    exact graph.not_mem_complete_of_returns returns
      (all.mem_iff.mpr (closed.isNode_of_path returns))
  rw [closed.layers?_eq, if_pos short]

end Graph

/-- The groups of the schedule are the layers of the graph by longest paths. -/
structure LongestPathLayers (graph : Graph) (schedule : Schedule) : Prop where
  /-- Every node is listed exactly once. -/
  nodes : schedule.flatten.Perm graph.nodes.keys
  /-- The position of an index is the length of the longest path to it. -/
  longest : ∀ position index, schedule.Places position index →
    IsGreatest { length | graph.HasPathTo index length } position
  numbered : ∀ (position : Nat) (group : Group), schedule.groups[position]? = some group →
    group.id = position
  occupied : ∀ group ∈ schedule.groups, group.indices ≠ []
  ascending : ∀ group ∈ schedule.groups, group.indices.Pairwise (· < ·)
  total : schedule.totalActions = graph.nodes.size
  /-- The parallelism is the size of the largest group, and zero without groups. -/
  widest : schedule.groups = [] ∧ schedule.maxParallelism = 0 ∨
    IsGreatest { size | ∃ group ∈ schedule.groups, group.indices.length = size }
      schedule.maxParallelism

namespace Graph

variable {graph : Graph}

theorem Closed.schedule_eq_error_iff (closed : graph.Closed) :
    graph.schedule = .error .cycleDetected ↔ graph.Cyclic := by
  by_cases cyclic : graph.Cyclic
  · simp only [schedule, closed.layers?_of_cyclic cyclic, cyclic]
  · simp only [schedule, closed.layers?_of_not_cyclic cyclic, cyclic, reduceCtorEq]

theorem Closed.longestPathLayers (closed : graph.Closed) (acyclic : ¬ graph.Cyclic) :
    LongestPathLayers graph graph.layering where
  nodes := by
    rw [flatten_layering]
    exact closed.perm_complete acyclic
  longest position index placed :=
    ⟨graph.hasPathTo_of_places placed, fun _ path => graph.le_of_hasPathTo placed path⟩
  numbered _ _ found := Schedule.id_of_groups_ofLayers found
  occupied _ member :=
    (Layering.tight_complete graph).occupied _ (Schedule.mem_groups_ofLayers member)
  ascending _ member :=
    (Layering.sound_complete graph).ascending _
      (List.mem_append_left _ (Schedule.mem_groups_ofLayers member))
  total := by
    rw [layering, Schedule.totalActions_ofLayers, (closed.perm_complete acyclic).length_eq,
      SortedMap.length_keys]
  widest := Schedule.maxParallelism_ofGroups _

end Graph

/-- A graph that is built from nodes and the dependencies between them has no schedule if and only
if it has a cycle, and otherwise the groups are its layers by longest paths. -/
theorem schedule_layers_longest_paths (additions : List Addition)
    (grounded : Addition.Grounded additions) :
    ((Graph.ofAdditions additions).schedule = .error .cycleDetected ↔
        (Graph.ofAdditions additions).Cyclic) ∧
      (¬ (Graph.ofAdditions additions).Cyclic →
        ∃ schedule, (Graph.ofAdditions additions).schedule = .ok schedule ∧
          LongestPathLayers (Graph.ofAdditions additions) schedule) := by
  have closed := grounded.closed
  refine ⟨closed.schedule_eq_error_iff, fun acyclic => ?_⟩
  refine ⟨(Graph.ofAdditions additions).layering, ?_, closed.longestPathLayers acyclic⟩
  simp only [Graph.schedule, closed.layers?_of_not_cyclic acyclic, Graph.layering]

def greetingNode (index : Nat) : Addition :=
  .node (Entry.declare ⟨index, .zero, .hi []⟩)

def balanceDependency (source target : Nat) : Addition :=
  .dependency ⟨source, target, .writeWrite, .ofBalance .zero⟩

/-- A path of two dependencies with a shortcut past it, listed before its nodes, and one more
node.  The shortcut and one of the nodes are added twice. -/
def shortcutAdditions : List Addition :=
  [balanceDependency 0 2, balanceDependency 0 1, greetingNode 2, balanceDependency 1 2,
    greetingNode 0, greetingNode 1, balanceDependency 0 2, greetingNode 3, greetingNode 0]

/-- The longest path to the end of the shortcut is the detour, and the dependency back from there
closes a cycle. -/
theorem shortcutAdditions_layered :
    Addition.Grounded shortcutAdditions ∧
      (Graph.ofAdditions shortcutAdditions).schedule =
        .ok ⟨[⟨0, [0, 3]⟩, ⟨1, [1]⟩, ⟨2, [2]⟩], 4, 2⟩ ∧
      IsGreatest { length | (Graph.ofAdditions shortcutAdditions).HasPathTo 2 length } 2 ∧
      Addition.Grounded (balanceDependency 2 0 :: shortcutAdditions) ∧
      (Graph.ofAdditions (balanceDependency 2 0 :: shortcutAdditions)).Cyclic := by
  have grounded : Addition.Grounded shortcutAdditions := by
    simp [Addition.Grounded, shortcutAdditions, balanceDependency, greetingNode,
      DeclaredEntry.index, Entry.declare]
  have groundedBack : Addition.Grounded (balanceDependency 2 0 :: shortcutAdditions) := by
    simp [Addition.Grounded, shortcutAdditions, balanceDependency, greetingNode,
      DeclaredEntry.index, Entry.declare]
  have scheduled : (Graph.ofAdditions shortcutAdditions).schedule =
      .ok ⟨[⟨0, [0, 3]⟩, ⟨1, [1]⟩, ⟨2, [2]⟩], 4, 2⟩ := by
    decide +kernel
  have refused : (Graph.ofAdditions (balanceDependency 2 0 :: shortcutAdditions)).schedule =
      .error .cycleDetected := by
    decide +kernel
  obtain ⟨cyclic, layered⟩ := schedule_layers_longest_paths shortcutAdditions grounded
  have acyclic : ¬ (Graph.ofAdditions shortcutAdditions).Cyclic := by
    rw [← cyclic, scheduled]
    nofun
  obtain ⟨schedule, found, layers⟩ := layered acyclic
  cases scheduled.symm.trans found
  exact ⟨grounded, scheduled, layers.longest 2 2 ⟨_, rfl, by decide⟩, groundedBack,
    (schedule_layers_longest_paths _ groundedBack).1.mp refused⟩

end Batch

end PoolLedger
