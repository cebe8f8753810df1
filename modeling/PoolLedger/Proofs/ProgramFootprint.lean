import PoolLedger.Program
import PoolLedger.Proofs.ViewAccess

/-!
# The footprint of a program

A program that runs in a view depends on what lies beneath only through the
declared keys, and changes only keys that its declaration lets change.  Both
hold of every program: the view enforces them request by request.
-/

namespace PoolLedger

namespace Program

variable {ε α : Type} [CarriesFault ε]

/-- Two states that agree on the declared keys are the same to a program in a view. -/
theorem run_view_congr (program : Program ε α) {view : View} {first second : Reading}
    (agree : Reading.AgreeOn view.declared first second) :
    program.run (.view first) view = program.run (.view second) view := by
  induction program generalizing view with
  | done value => rfl
  | fail error => rfl
  | get key next ih =>
      simp only [run, Backend.view, View.get_congr agree]
      split
      · rfl
      · exact ih _ agree
  | insert key value next ih =>
      simp only [run, Backend.view, View.insert_congr agree]
      split
      · rfl
      · rename_i after inserted
        obtain ⟨_, _, _, _, _, rfl⟩ := View.insert_eq_ok_iff.mp inserted
        exact ih agree
  | remove key next ih =>
      simp only [run, Backend.view]
      split
      · rfl
      · rename_i after removed
        obtain ⟨_, _, _, rfl⟩ := View.remove_eq_ok_iff.mp removed
        exact ih agree

/-- A run leaves the declaration as it is and records changes of mutated keys only. -/
theorem confined_run_view (program : Program ε α) {view : View} (base : Reading)
    (confined : view.Confined) :
    (program.run (.view base) view).2.Confined ∧
      (program.run (.view base) view).2.declared = view.declared := by
  induction program generalizing view with
  | done value => exact ⟨confined, rfl⟩
  | fail error => exact ⟨confined, rfl⟩
  | get key next ih =>
      simp only [run, Backend.view]
      split
      · exact ⟨confined, rfl⟩
      · exact ih _ confined
  | insert key value next ih =>
      simp only [run, Backend.view]
      split
      · exact ⟨confined, rfl⟩
      · rename_i after inserted
        obtain ⟨afterConfined, sameDeclared⟩ := confined.of_insert inserted
        rw [← sameDeclared]
        exact ih afterConfined
  | remove key next ih =>
      simp only [run, Backend.view]
      split
      · exact ⟨confined, rfl⟩
      · rename_i after removed
        obtain ⟨afterConfined, sameDeclared⟩ := confined.of_remove removed
        rw [← sameDeclared]
        exact ih afterConfined

end Program

end PoolLedger
