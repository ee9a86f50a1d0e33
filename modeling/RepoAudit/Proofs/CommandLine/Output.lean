import RepoAudit.CommandLine.Run
import RepoAudit.Proofs.FileTree.Writing
import RepoAudit.Proofs.Repository.Troubles
import Mathlib

/-!
# What a run writes

A run that fails leaves every file as it was, also the one that it was asked to write.  One that
succeeds writes the rendered results into that file and changes no other.
-/

namespace RepoAudit.CommandLine

variable {v : Volume} {path : String}

/-! ## Delivery -/

theorem run_eq {now : Timestamp} {i : Invocation} (h : i.command ≠ .listMigrations) :
    run v now i = match reportText v now i with
      | .error e => ⟨v, .error e⟩
      | .ok text => deliver v i.output text := by
  rw [run]
  split
  · contradiction
  · rfl

end RepoAudit.CommandLine
