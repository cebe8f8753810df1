import PoolLedger.Proofs.LongestPaths

/-!
# The loop of rounds

The rounds of a layering are bounded by the number of in-degrees, but nothing
depends on the bound: made for as long as some index is ready, they end by
themselves.  Every round layers an index that no round has layered before, and
an index is struck out as often as dependencies lead to it and no more.
-/

namespace PoolLedger

namespace Batch

namespace Layering

/-- Rounds for as long as some index is ready: where each of them starts, and where the last one
ends. -/
inductive Loops (graph : Graph) : Layering → List Layering → Layering → Prop where
  | done {layering : Layering} (noneReady : layering.ready = []) : Loops graph layering [] layering
  | again {layering last : Layering} {rounds : List Layering} (someReady : layering.ready ≠ [])
      (continues : Loops graph (round graph layering) rounds last) :
      Loops graph layering (layering :: rounds) last

/-- The indices that a round releases, in the order of their release. -/
def released (graph : Graph) (layering : Layering) : List Nat :=
  ((layering.ready.flatMap graph.successors).foldl strike (layering.waiting, [])).2

theorem ready_round_perm (graph : Graph) (layering : Layering) :
    (round graph layering).ready.Perm (released graph layering) :=
  sortBy_perm id _

/-- A number of rounds that leaves none ready is as good as no bound. -/
theorem exists_loops_rounds {graph : Graph} {count : Nat} {layering : Layering}
    (noneReady : (rounds graph count layering).ready = []) :
    ∃ starts, Loops graph layering starts (rounds graph count layering) := by
  induction count generalizing layering with
  | zero => exact ⟨[], .done noneReady⟩
  | succ count ih =>
      rw [rounds] at noneReady ⊢
      split
      · rename_i isEmpty
        exact ⟨[], .done (List.isEmpty_iff.mp isEmpty)⟩
      · rename_i notEmpty
        rw [if_neg notEmpty] at noneReady
        obtain ⟨starts, continues⟩ := ih noneReady
        exact ⟨layering :: starts, .again (mt List.isEmpty_iff.mpr notEmpty) continues⟩

theorem exists_loops_complete (graph : Graph) :
    ∃ starts, Loops graph (start graph) starts (complete graph) :=
  exists_loops_rounds (ready_complete graph)

section Loop

variable {graph : Graph} {first last : Layering} {starts : List Layering}

/-- There is only one way to go on. -/
theorem Loops.unique {others : List Layering} {ending : Layering}
    (loops : Loops graph first starts last) (again : Loops graph first others ending) :
    others = starts ∧ ending = last := by
  induction loops generalizing others with
  | done noneReady =>
      cases again with
      | done => exact ⟨rfl, rfl⟩
      | again someReady => exact absurd noneReady someReady
  | again someReady _ ih =>
      cases again with
      | done noneReady => exact absurd noneReady someReady
      | again _ continues =>
          obtain ⟨rfl, rfl⟩ := ih continues
          exact ⟨rfl, rfl⟩

/-- What is ready at the start of a round becomes its layer. -/
theorem Loops.layers (loops : Loops graph first starts last) :
    last.layers = first.layers ++ starts.map (·.ready) := by
  induction loops with
  | done => simp
  | again _ _ ih => simp [ih, round]

theorem Loops.length_le (loops : Loops graph first starts last) :
    starts.length ≤ (starts.flatMap (·.ready)).length := by
  induction loops with
  | done => exact Nat.le_refl 0
  | @again layering _ _ someReady _ ih =>
      have positive : 0 < layering.ready.length := List.length_pos_of_ne_nil someReady
      rw [List.flatMap_cons, List.length_append, List.length_cons]
      omega

/-- What is ready first or released later is what the rounds start with. -/
theorem Loops.perm_entered (loops : Loops graph first starts last) :
    (first.ready ++ starts.flatMap (released graph)).Perm (starts.flatMap (·.ready)) := by
  induction loops with
  | done noneReady => simp [noneReady]
  | @again layering _ rounds _ _ ih =>
      rw [List.flatMap_cons, List.flatMap_cons]
      apply List.Perm.append_left
      exact ((ready_round_perm graph layering).symm.append_right _).trans ih

theorem Loops.sound (loops : Loops graph first starts last) (sound : Sound graph first) :
    Sound graph last ∧ ∀ layering ∈ starts, Sound graph layering := by
  induction loops with
  | done => exact ⟨sound, fun _ member => absurd member List.not_mem_nil⟩
  | again _ _ ih =>
      obtain ⟨soundLast, soundStarts⟩ := ih (sound_round sound)
      exact ⟨soundLast, List.forall_mem_cons.mpr ⟨sound, soundStarts⟩⟩

end Loop

section Strike

variable {graph : Graph} {layering : Layering}

theorem mem_keys_of_mem_successors {source target : Nat}
    (member : target ∈ graph.successors source) : target ∈ graph.inDegrees.keys := by
  have isTarget : target ∈ graph.dependencies.map (·.target) := by
    obtain ⟨dependency, listed, rfl⟩ := List.mem_map.mp member
    exact List.mem_map_of_mem (List.mem_filter.mp listed).1
  rw [SortedMap.mem_keys_iff, Graph.get?_inDegrees]
  exact ⟨_, if_pos (List.mem_append_right _ isTarget)⟩

theorem Covers.of_append {waiting : SortedMap Nat Nat} {before after : List Nat}
    (covers : Covers waiting (before ++ after)) : Covers waiting before := by
  intro index count found
  have enough := covers index count found
  rw [List.count_append] at enough
  omega

/-- Whatever has been struck out before in the round, an index that is struck out next still
waits. -/
theorem Sound.waits_for_strike (sound : Sound graph layering) {before after : List Nat}
    {target : Nat}
    (targets : layering.ready.flatMap graph.successors = before ++ target :: after) :
    ∃ left, (before.foldl strike (layering.waiting, [])).1.get? target = some (left + 1) := by
  have covers := sound.covers
  have named : target ∈ layering.ready.flatMap graph.successors := by simp [targets]
  obtain ⟨source, _, isSuccessor⟩ := List.mem_flatMap.mp named
  have waiting := sound.waiting target
  rw [if_pos (mem_keys_of_mem_successors isSuccessor)] at waiting
  rw [targets] at covers
  have enough := covers target _ waiting
  rw [List.count_append, List.count_cons_self] at enough
  refine ⟨graph.unmet layering.layers.flatten target - before.count target - 1, ?_⟩
  rw [(foldl_strike before [] covers.of_append target).1, waiting, Option.map_some]
  congr 1
  omega

end Strike

end Layering

open Layering (Loops released strike)

/-- What the rounds of a graph keep to, in terms of the tables that are kept while it is built. -/
structure BoundedRounds (graph : Graph) (tables : Tables) (starts : List Layering) : Prop where
  /-- The indices wait for as many dependencies as the table of in-degrees says. -/
  waiting : (Layering.start graph).waiting = tables.inDegrees
  /-- A ready index strikes out what the table of successors lists for it. -/
  successors : ∀ index, graph.successors index = (tables.successors.get? index).getD []
  /-- There are no more rounds than in-degrees. -/
  length_le : starts.length ≤ tables.inDegrees.size
  /-- What is ready first and what the rounds release, one after the other, repeats no index. -/
  entered : ((Layering.start graph).ready ++ starts.flatMap (released graph)).Nodup
  /-- An index that is struck out waits for something until then. -/
  waits : ∀ layering ∈ starts, ∀ before target after,
    layering.ready.flatMap graph.successors = before ++ target :: after →
      ∃ left, (before.foldl strike (layering.waiting, [])).1.get? target = some (left + 1)

/-- For any additions, made in any order, the rounds end by themselves where the bounded ones do.
There are at most as many as the kept table has in-degrees, no index becomes ready twice, and no
index is struck out that waits for nothing any more. -/
theorem rounds_end_by_themselves (additions : List Addition) :
    ∃ starts : List Layering,
      (∀ others last, Loops (Graph.ofAdditions additions)
          (Layering.start (Graph.ofAdditions additions)) others last ↔
        others = starts ∧ last = Layering.complete (Graph.ofAdditions additions)) ∧
      BoundedRounds (Graph.ofAdditions additions) (Tables.ofAdditions additions) starts := by
  obtain ⟨starts, loops⟩ := Layering.exists_loops_complete (Graph.ofAdditions additions)
  obtain ⟨soundLast, soundStarts⟩ := loops.sound (Layering.sound_start _)
  have layers : (Layering.complete (Graph.ofAdditions additions)).layers.flatten =
      starts.flatMap (·.ready) := by
    rw [loops.layers, Layering.start, List.nil_append, List.flatMap_def]
  have nodup := soundLast.nodup
  have settled := soundLast.done_subset_keys
  rw [layers] at nodup settled
  refine ⟨starts, fun others last => ?_, ?_⟩
  · constructor
    · exact loops.unique
    · rintro ⟨rfl, rfl⟩
      exact loops
  · rw [Tables.ofAdditions_eq]
    refine ⟨rfl, fun index => (Graph.getD_adjacency _ index).symm, ?_, ?_, ?_⟩
    · rw [Tables.ofGraph, ← SortedMap.length_keys]
      exact loops.length_le.trans (List.subperm_of_subset nodup settled).length_le
    · exact loops.perm_entered.nodup_iff.mpr nodup
    · intro layering member before target after targets
      exact (soundStarts layering member).waits_for_strike targets

/-- A dependency that is added twice and before its nodes, one to and one from an index that is no
node, one from a node to itself, and two that form a cycle. -/
def tangledAdditions : List Addition :=
  [balanceDependency 0 1, balanceDependency 0 1, greetingNode 1, greetingNode 0,
    balanceDependency 1 7, balanceDependency 9 5, balanceDependency 2 2, greetingNode 3,
    balanceDependency 3 4, balanceDependency 4 3, greetingNode 6]

/-- Three rounds reach four of the eight indices with an in-degree.  What waits for itself, for a
cycle or for an index that is never ready is not reached. -/
theorem tangledAdditions_rounds :
    (Tables.ofAdditions tangledAdditions).inDegrees.size = 8 ∧
      ∃ starts : List Layering,
        Loops (Graph.ofAdditions tangledAdditions)
          (Layering.start (Graph.ofAdditions tangledAdditions)) starts
          (Layering.complete (Graph.ofAdditions tangledAdditions)) ∧
        starts.map (·.ready) = [[0, 6], [1], [7]] ∧
        BoundedRounds (Graph.ofAdditions tangledAdditions) (Tables.ofAdditions tangledAdditions)
          starts := by
  obtain ⟨starts, isLoop, bounded⟩ := rounds_end_by_themselves tangledAdditions
  have loops := (isLoop starts _).mpr ⟨rfl, rfl⟩
  have layers : (Layering.complete (Graph.ofAdditions tangledAdditions)).layers =
      [[0, 6], [1], [7]] := by
    decide +kernel
  rw [loops.layers] at layers
  exact ⟨by decide +kernel, starts, loops, layers, bounded⟩

end Batch

end PoolLedger
