import PoolLedger.Proofs.SerialOrder

/-!
# Interleaved members of a group

The members of a group run side by side: each step answers one request of one
member from the store as it is at that moment, and a member that succeeds
commits all of its changes in its last step.  When no two members clash, every
order of steps gives what running the members one after the other gives.
-/

namespace PoolLedger

namespace Batch

/-- What is left of a member under way. -/
inductive Progress where
  | running (rest : Program ActionError Output) (view : View)
  | ended (result : Except ExecutionError Output)

namespace Progress

/-- One request of a running member: what is left of it, and the changes to commit. -/
def step (base : Reading) (view : View) :
    Program ActionError Output → Progress × ChangeSet
  | .done output => (.ended (.ok output), view.changes)
  | .fail error => (.ended (.error (.ofActionError error)), .empty)
  | .get key next =>
      match view.get base key with
      | .error fault => (.ended (.error (.ofActionError (CarriesFault.ofFault fault))), .empty)
      | .ok found => (.running (next found) view, .empty)
  | .insert key value next =>
      match view.insert base key value with
      | .error fault => (.ended (.error (.ofActionError (CarriesFault.ofFault fault))), .empty)
      | .ok after => (.running next after, .empty)
  | .remove key next =>
      match view.remove key with
      | .error fault => (.ended (.error (.ofActionError (CarriesFault.ofFault fault))), .empty)
      | .ok after => (.running next after, .empty)

theorem step_congr {first second : Reading} {view : View}
    (agree : Reading.AgreeOn view.declared first second) (rest : Program ActionError Output) :
    step first view rest = step second view rest := by
  cases rest with
  | done output => rfl
  | fail error => rfl
  | get key next => simp only [step, View.get_congr agree]
  | insert key value next => simp only [step, View.insert_congr agree]
  | remove key next => rfl

/-- A step either goes on to the same end without a commit, or is the end. -/
theorem step_run (base : Reading) (view : View) (rest : Program ActionError Output) :
    (∃ next after, step base view rest = (.running next after, .empty) ∧
        after.declared = view.declared ∧
        next.run (.view base) after = rest.run (.view base) view) ∨
      step base view rest =
        (.ended (Action.settle (rest.run (.view base) view)).1,
          (Action.settle (rest.run (.view base) view)).2) := by
  cases rest with
  | done output => exact .inr rfl
  | fail error => exact .inr rfl
  | get key next =>
      cases found : view.get base key with
      | error fault =>
          right
          simp [step, Program.run, Backend.view, found, Action.settle]
      | ok value =>
          left
          refine ⟨next value, view, ?_, rfl, ?_⟩
          · simp only [step, found]
          · simp only [Program.run, Backend.view, found]
  | insert key value next =>
      cases inserted : view.insert base key value with
      | error fault =>
          right
          simp [step, Program.run, Backend.view, inserted, Action.settle]
      | ok after =>
          left
          obtain ⟨_, _, _, _, _, sameView⟩ := View.insert_eq_ok_iff.mp inserted
          refine ⟨next, after, ?_, by rw [sameView], ?_⟩
          · simp only [step, inserted]
          · simp only [Program.run, Backend.view, inserted]
  | remove key next =>
      cases removed : view.remove key with
      | error fault =>
          right
          simp [step, Program.run, Backend.view, removed, Action.settle]
      | ok after =>
          left
          obtain ⟨_, _, _, sameView⟩ := View.remove_eq_ok_iff.mp removed
          refine ⟨next, after, ?_, by rw [sameView], ?_⟩
          · simp only [step, removed]
          · simp only [Program.run, Backend.view, removed]

end Progress

/-- A member of a group and what is left of it. -/
structure Thread where
  entry : Entry
  progress : Progress

namespace Thread

/-- A member before its first request. -/
def start (params : Params) (entry : Entry) : Thread :=
  ⟨entry, .running (entry.action.program params entry.actor)
    (.start (entry.action.declared entry.actor))⟩

/-- The outcome of a member that has ended. -/
def outcome? : Thread → Option Outcome
  | ⟨entry, .ended result⟩ => some ⟨entry.index, entry.actor, result⟩
  | ⟨_, .running ..⟩ => none

/-- The entry of a member that has ended. -/
def ended? : Thread → Option Entry
  | ⟨entry, .ended _⟩ => some entry
  | ⟨_, .running ..⟩ => none

@[simp]
theorem ended?_running (entry : Entry) (rest : Program ActionError Output) (view : View) :
    ended? ⟨entry, .running rest view⟩ = none :=
  rfl

@[simp]
theorem ended?_ended (entry : Entry) (result : Except ExecutionError Output) :
    ended? ⟨entry, .ended result⟩ = some entry :=
  rfl

/-- The member ends as it would end alone on `base`. -/
def Tracks (params : Params) (base : Store) : Thread → Prop
  | ⟨entry, .running rest view⟩ =>
      view.declared = entry.action.declared entry.actor ∧
        Action.settle (rest.run (.view (Medium.ofStore base).read) view) = entry.effect params base
  | ⟨entry, .ended result⟩ => result = (entry.effect params base).1

end Thread

/-- Any number of steps, each of some running member, from threads and a store to others. -/
inductive Interleaves : List Thread → Store → List Thread → Store → Prop
  | refl (threads : List Thread) (store : Store) : Interleaves threads store threads store
  | step {before after later : List Thread} {entry : Entry} {rest : Program ActionError Output}
      {view : View} {store final : Store}
      (steps : Interleaves
        (before ++ ⟨entry, (Progress.step (Medium.ofStore store).read view rest).1⟩ :: after)
        (store.commit (Progress.step (Medium.ofStore store).read view rest).2) later final) :
      Interleaves (before ++ ⟨entry, .running rest view⟩ :: after) store later final

/-- No two of the entries clash. -/
def Unrelated (entries : List Entry) : Prop :=
  entries.Pairwise fun first second => ¬ first.Clash second

/-- Every member ends as it would alone, and those that have ended made the store. -/
structure Consistent (params : Params) (base : Store) (threads : List Thread) (store : Store) :
    Prop where
  unrelated : Unrelated (threads.map (·.entry))
  tracks : ∀ thread ∈ threads, thread.Tracks params base
  store_eq : store = (runSerial params base (threads.filterMap Thread.ended?)).2

section Steps

variable {params : Params} {base store final : Store} {before after threads later : List Thread}
  {entry : Entry} {rest : Program ActionError Output} {view : View}

theorem Consistent.not_clash_ended
    (consistent : Consistent params base (before ++ ⟨entry, .running rest view⟩ :: after) store) :
    ∀ other ∈ before.filterMap Thread.ended? ++ after.filterMap Thread.ended?,
      ¬ other.Clash entry := by
  have unrelated := consistent.unrelated
  rw [List.map_append, List.map_cons, Unrelated, List.pairwise_append,
    List.pairwise_cons] at unrelated
  obtain ⟨_, ⟨afterUnrelated, _⟩, beforeUnrelated⟩ := unrelated
  have isEntry : ∀ {thread : Thread} {other : Entry}, thread.ended? = some other →
      thread.entry = other := by
    rintro ⟨_, _ | _⟩ other found
    · cases found
    · exact Option.some.inj found
  intro other member
  rcases List.mem_append.mp member with inBefore | inAfter
  · obtain ⟨thread, threadMember, found⟩ := List.mem_filterMap.mp inBefore
    rw [← isEntry found]
    exact beforeUnrelated _ (List.mem_map_of_mem threadMember) _ List.mem_cons_self
  · obtain ⟨thread, threadMember, found⟩ := List.mem_filterMap.mp inAfter
    rw [← isEntry found]
    exact fun clash => afterUnrelated _ (List.mem_map_of_mem threadMember) clash.symm

theorem Consistent.store_eq_others
    (consistent : Consistent params base (before ++ ⟨entry, .running rest view⟩ :: after) store) :
    store = (runSerial params base
      (before.filterMap Thread.ended? ++ after.filterMap Thread.ended?)).2 := by
  simpa [List.filterMap_cons] using consistent.store_eq

/-- What the members that ended have written is not seen by one under way. -/
theorem Consistent.step_eq
    (consistent : Consistent params base (before ++ ⟨entry, .running rest view⟩ :: after) store) :
    Progress.step (Medium.ofStore store).read view rest =
      Progress.step (Medium.ofStore base).read view rest := by
  obtain ⟨sameDeclared, _⟩ := consistent.tracks ⟨entry, .running rest view⟩ (by simp)
  have storeEq := consistent.store_eq_others
  apply Progress.step_congr
  intro key mode declared
  rw [sameDeclared] at declared
  rw [Medium.read_ofStore, Medium.read_ofStore, storeEq,
    runSerial_agreeOn consistent.not_clash_ended base key mode declared]

/-- A member may go on to whatever ends as it would alone. -/
theorem Consistent.replace {progress : Progress}
    (consistent : Consistent params base (before ++ ⟨entry, .running rest view⟩ :: after) store)
    (tracked : Thread.Tracks params base ⟨entry, progress⟩)
    (finalEq : final = (runSerial params base
      ((before ++ ⟨entry, progress⟩ :: after).filterMap Thread.ended?)).2) :
    Consistent params base (before ++ ⟨entry, progress⟩ :: after) final := by
  refine ⟨?_, ?_, finalEq⟩
  · simpa using consistent.unrelated
  · intro thread member
    rcases List.mem_append.mp member with inBefore | inRest
    · exact consistent.tracks thread (List.mem_append_left _ inBefore)
    · rcases List.mem_cons.mp inRest with rfl | inAfter
      · exact tracked
      · exact consistent.tracks thread
          (List.mem_append_right _ (List.mem_cons_of_mem _ inAfter))

theorem Consistent.step
    (consistent : Consistent params base (before ++ ⟨entry, .running rest view⟩ :: after) store) :
    Consistent params base
      (before ++ ⟨entry, (Progress.step (Medium.ofStore store).read view rest).1⟩ :: after)
      (store.commit (Progress.step (Medium.ofStore store).read view rest).2) := by
  obtain ⟨sameDeclared, sameEnd⟩ := consistent.tracks ⟨entry, .running rest view⟩ (by simp)
  have noClash := consistent.not_clash_ended
  have storeEq := consistent.store_eq_others
  rw [consistent.step_eq]
  rcases Progress.step_run (Medium.ofStore base).read view rest with
    ⟨next, later, stepped, laterDeclared, sameRun⟩ | stepped
  · rw [stepped, Store.commit_empty]
    apply consistent.replace
    · refine ⟨laterDeclared.trans sameDeclared, ?_⟩
      rw [sameRun, sameEnd]
    · simpa [List.filterMap_cons] using storeEq
  · rw [stepped, sameEnd]
    apply consistent.replace
    · exact rfl
    have sameEffect : entry.effect params store = entry.effect params base := by
      rw [storeEq]
      exact Action.effect_congr (runSerial_agreeOn noClash base)
    calc
      store.commit (entry.effect params base).2 = entry.after params store := by
        rw [Entry.after, sameEffect]
      _ = (runSerial params base (before.filterMap Thread.ended? ++
            entry :: after.filterMap Thread.ended?)).2 := by
        rw [runSerial_insert params base _ entry _ noClash, ← storeEq]
      _ = (runSerial params base ((before ++
            ⟨entry, .ended (entry.effect params base).1⟩ :: after).filterMap Thread.ended?)).2 := by
        simp

theorem consistent_start {members : List Entry} (unrelated : Unrelated members) (base : Store) :
    Consistent params base (members.map (Thread.start params)) base := by
  refine ⟨?_, ?_, ?_⟩
  · rw [List.map_map]
    simpa [Function.comp_def, Thread.start] using unrelated
  · intro thread member
    obtain ⟨entry, _, rfl⟩ := List.mem_map.mp member
    exact ⟨rfl, rfl⟩
  · rw [List.filterMap_map]
    simp [Function.comp_def, Thread.start, runSerial]

theorem Interleaves.consistent (steps : Interleaves threads store later final)
    (consistent : Consistent params base threads store) :
    Consistent params base later final := by
  induction steps with
  | refl => exact consistent
  | step _ ih => exact ih consistent.step

theorem Interleaves.map_entry (steps : Interleaves threads store later final) :
    later.map (·.entry) = threads.map (·.entry) := by
  induction steps with
  | refl => rfl
  | step _ ih => simpa using ih

theorem Interleaves.trans {middle : List Thread} {between : Store}
    (first : Interleaves threads store middle between)
    (second : Interleaves middle between later final) :
    Interleaves threads store later final := by
  induction first with
  | refl => exact second
  | step _ ih => exact .step (ih second)

theorem Interleaves.of_step {progress : Progress} {changes : ChangeSet}
    (stepped : Progress.step (Medium.ofStore store).read view rest = (progress, changes))
    (steps : Interleaves (before ++ ⟨entry, progress⟩ :: after) (store.commit changes) later
      final) :
    Interleaves (before ++ ⟨entry, .running rest view⟩ :: after) store later final := by
  apply Interleaves.step
  rw [stepped]
  exact steps

/-- A running member can always run to its end. -/
theorem exists_interleaves_ended (before : List Thread) (entry : Entry) (after : List Thread)
    (rest : Program ActionError Output) (view : View) (store : Store) :
    ∃ result final, Interleaves (before ++ ⟨entry, .running rest view⟩ :: after) store
      (before ++ ⟨entry, .ended result⟩ :: after) final := by
  induction rest generalizing view with
  | done output => exact ⟨_, _, .of_step rfl (.refl _ _)⟩
  | fail error => exact ⟨_, _, .of_step rfl (.refl _ _)⟩
  | get key next ih =>
      cases found : view.get (Medium.ofStore store).read key with
      | error fault =>
          exact ⟨_, _, .of_step (by simp only [Progress.step, found]; rfl) (.refl _ _)⟩
      | ok value =>
          obtain ⟨result, final, steps⟩ := ih value view
          refine ⟨result, final, .of_step (by simp only [Progress.step, found]; rfl) ?_⟩
          rw [Store.commit_empty]
          exact steps
  | insert key value next ih =>
      cases inserted : view.insert (Medium.ofStore store).read key value with
      | error fault =>
          exact ⟨_, _, .of_step (by simp only [Progress.step, inserted]; rfl) (.refl _ _)⟩
      | ok changed =>
          obtain ⟨result, final, steps⟩ := ih changed
          refine ⟨result, final, .of_step (by simp only [Progress.step, inserted]; rfl) ?_⟩
          rw [Store.commit_empty]
          exact steps
  | remove key next ih =>
      cases removed : view.remove key with
      | error fault =>
          exact ⟨_, _, .of_step (by simp only [Progress.step, removed]; rfl) (.refl _ _)⟩
      | ok changed =>
          obtain ⟨result, final, steps⟩ := ih changed
          refine ⟨result, final, .of_step (by simp only [Progress.step, removed]; rfl) ?_⟩
          rw [Store.commit_empty]
          exact steps

/-- All members can run to their ends. -/
theorem exists_interleaves_outcomes (params : Params) (before : List Thread)
    (members : List Entry) (store : Store) :
    ∃ (threads : List Thread) (outcomes : List Outcome) (final : Store),
      Interleaves (before ++ members.map (Thread.start params)) store (before ++ threads) final ∧
        threads.map Thread.outcome? = outcomes.map some := by
  induction members generalizing before store with
  | nil => exact ⟨[], [], store, .refl _ _, rfl⟩
  | cons entry others ih =>
      obtain ⟨result, between, ended⟩ := exists_interleaves_ended before entry
        (others.map (Thread.start params)) (entry.action.program params entry.actor)
        (.start (entry.action.declared entry.actor)) store
      obtain ⟨threads, outcomes, final, steps, allEnded⟩ :=
        ih (before ++ [⟨entry, .ended result⟩]) between
      rw [List.append_assoc, List.append_assoc] at steps
      refine ⟨⟨entry, .ended result⟩ :: threads, ⟨entry.index, entry.actor, result⟩ :: outcomes,
        final, ended.trans steps, ?_⟩
      rw [List.map_cons, List.map_cons, allEnded]
      rfl

/-- Threads that have all ended have the outcomes that their entries have alone. -/
theorem outcomes_of_tracks {outcomes : List Outcome}
    (allEnded : threads.map Thread.outcome? = outcomes.map some)
    (tracks : ∀ thread ∈ threads, thread.Tracks params base) :
    outcomes = (threads.map (·.entry)).map (·.outcome params base) ∧
      threads.filterMap Thread.ended? = threads.map (·.entry) := by
  induction threads generalizing outcomes with
  | nil =>
      cases outcomes with
      | nil => exact ⟨rfl, rfl⟩
      | cons outcome others => cases allEnded
  | cons thread others ih =>
      cases outcomes with
      | nil => cases allEnded
      | cons outcome otherOutcomes =>
          obtain ⟨headEnded, othersEnded⟩ := List.cons.inj allEnded
          obtain ⟨sameOutcomes, sameEntries⟩ :=
            ih othersEnded fun other member => tracks other (List.mem_cons_of_mem _ member)
          obtain ⟨entry, rest | result⟩ := thread
          · cases headEnded
          · have isAlone : result = (entry.effect params base).1 := tracks _ List.mem_cons_self
            have isOutcome : outcome = entry.outcome params base := by
              rw [Entry.outcome, ← isAlone]
              exact (Option.some.inj headEnded).symm
            rw [isOutcome, sameOutcomes, List.filterMap_cons, sameEntries]
            exact ⟨rfl, rfl⟩

end Steps

/-- The members of a group have run side by side from one store to another. -/
def RunsGroup (params : Params) (store : Store) (members : List Entry) (outcomes : List Outcome)
    (final : Store) : Prop :=
  ∃ threads, Interleaves (members.map (Thread.start params)) store threads final ∧
    threads.map Thread.outcome? = outcomes.map some

/-- Members that do not clash can run side by side in one way only: as if one after the other. -/
theorem runsGroup_iff {params : Params} {store final : Store} {members : List Entry}
    {outcomes : List Outcome} (unrelated : Unrelated members) :
    RunsGroup params store members outcomes final ↔
      runSerial params store members = (outcomes, final) := by
  have serial : ∀ {outcomes final}, RunsGroup params store members outcomes final →
      runSerial params store members = (outcomes, final) := by
    rintro outcomes final ⟨threads, steps, allEnded⟩
    have consistent := steps.consistent (consistent_start unrelated store)
    have sameEntries : threads.map (·.entry) = members := by
      rw [steps.map_entry, List.map_map]
      simp [Function.comp_def, Thread.start]
    obtain ⟨sameOutcomes, ended⟩ := outcomes_of_tracks allEnded consistent.tracks
    have sameFinal := consistent.store_eq
    rw [ended, sameEntries] at sameFinal
    rw [sameEntries, ← outcomes_runSerial unrelated] at sameOutcomes
    rw [sameOutcomes, sameFinal]
  constructor
  · exact serial
  · intro ran
    obtain ⟨threads, ownOutcomes, ownFinal, steps, allEnded⟩ :=
      exists_interleaves_outcomes params [] members store
    have own : RunsGroup params store members ownOutcomes ownFinal := ⟨threads, steps, allEnded⟩
    rw [serial own, Prod.mk.injEq] at ran
    rw [← ran.1, ← ran.2]
    exact own

end Batch

end PoolLedger
