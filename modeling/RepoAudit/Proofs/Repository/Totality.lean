import RepoAudit.Proofs.Dependencies.Troubles
import RepoAudit.Proofs.FileTree.Lookup
import RepoAudit.Proofs.Licenses.Troubles
import RepoAudit.Proofs.Structure.Troubles
import RepoAudit.TreeAnalysis
import Mathlib

/-!
# Only the root can stop an analysis

Whatever a tree holds, the analyses of the tree and the plans of migrations have a result for every
directory and accepted settings.  What they come up against on the way is in the warnings of the
result, and nothing else is.
-/

namespace RepoAudit

/-- What an analysis of a tree comes up against. -/
def TreeAnalysis.Trouble (v : Volume) (settings : Settings) (repo : String) :
    TreeAnalysis → Warning → Prop
  | layout => Structure.Trouble v settings.walk repo
  | complexity => SourceTrouble v repo settings.walk false "complexity" Complexity.isMeasured
  | dependencies => Dependencies.Trouble v repo
  | licenses => Licenses.Trouble v repo
  | performance => SourceTrouble v repo settings.walk false "performance" Performance.isScanned

/-- What the plan of a migration comes up against. -/
def Migration.Trouble (v : Volume) (walk : WalkSettings) (repo : String)
    (d : Migration.Definition) : Warning → Prop :=
  SourceTrouble v repo walk false "migration" fun e => d.appliesTo e.relative

variable {v : Volume} {walk : WalkSettings} {repo : String} {plan : Walk.Plan}

theorem Complexity.settled (thresholds : Thresholds)
    (hplan : Walk.Plan.ofSettings repo walk false = .ok plan) :
    SettledBy v repo (SourceTrouble v repo walk false "complexity" isMeasured)
      (analyze v thresholds walk repo) :=
  .of_scan hplan ⟨_, rfl, fun _ => mem_scan_or_unread_iff hplan⟩

theorem Performance.settled (detectors : List Detector)
    (hplan : Walk.Plan.ofSettings repo walk false = .ok plan) :
    SettledBy v repo (SourceTrouble v repo walk false "performance" isScanned)
      (analyze v detectors walk repo) :=
  .of_scan hplan ⟨_, rfl, fun _ => mem_scan_or_unread_iff hplan⟩

theorem Migration.settled {name : String} {d : Definition} (hname : find? name = some d)
    (hplan : Walk.Plan.ofSettings repo walk false = .ok plan) :
    SettledBy v repo (Trouble v walk repo d) (analyze v walk repo name) := by
  rw [find?] at hname
  rw [analyze, planFrom, definitionIn, hname]
  exact .of_scan hplan ⟨_, rfl, fun _ => mem_scan_or_unread_iff hplan⟩

end RepoAudit
