import RepoAudit.Report.Basic

/-!
# Analyses of a tree

The five analyses that need nothing but a repository, as the settings have them.
-/

namespace RepoAudit

inductive TreeAnalysis where
  | layout
  | complexity
  | dependencies
  | licenses
  | performance
  deriving DecidableEq

/-- An analysis with all that it needs besides a repository. -/
abbrev Analyzer := Volume → String → Except Failure (Assessment Report)

namespace Analyzer

def layout (walk : WalkSettings) : Analyzer := fun v repo =>
  (Structure.analyze v walk repo).map (·.map Report.layout)

def complexity (thresholds : Thresholds) (walk : WalkSettings) : Analyzer := fun v repo =>
  (Complexity.analyze v thresholds walk repo).map (·.map Report.complexity)

def dependencies (registry : Registry) : Analyzer := fun v repo =>
  (Dependencies.analyze v registry repo).map (·.map Report.dependencies)

def licenses (table : LicenseTable) : Analyzer := fun v repo =>
  (Licenses.analyze v table repo).map (·.map Report.licenses)

def performance (detectors : List Detector) (walk : WalkSettings) : Analyzer := fun v repo =>
  (Performance.analyze v detectors walk repo).map (·.map Report.performance)

/-- All five as the settings have them, in the order of reports. -/
def ofSettings (settings : Settings) : List Analyzer :=
  let walk := settings.walk
  [layout walk, complexity settings.thresholds walk, dependencies .offline, licenses .builtIn,
    performance Detector.builtIn walk]

end Analyzer

namespace TreeAnalysis

/-- In the order of reports. -/
def all : List TreeAnalysis :=
  [layout, complexity, dependencies, licenses, performance]

def kind : TreeAnalysis → ReportKind
  | layout => .layout
  | complexity => .complexity
  | dependencies => .dependencies
  | licenses => .licenses
  | performance => .performance

def analyze (v : Volume) (settings : Settings) (repo : String) :
    TreeAnalysis → Except Failure (Assessment Report)
  | layout => (Structure.analyze v settings.walk repo).map (·.map Report.layout)
  | complexity =>
      (Complexity.analyze v settings.thresholds settings.walk repo).map (·.map Report.complexity)
  | dependencies =>
      (Dependencies.analyze v Registry.offline repo).map (·.map Report.dependencies)
  | licenses => (Licenses.analyze v .builtIn repo).map (·.map Report.licenses)
  | performance =>
      (Performance.analyze v Detector.builtIn settings.walk repo).map
        (·.map Report.performance)

/-- All five, or the failure of the first that fails. -/
def analyzeAll (v : Volume) (settings : Settings) (repo : String) :
    Except Failure (List (Assessment Report)) :=
  (Analyzer.ofSettings settings).mapM fun analyze => analyze v repo

end TreeAnalysis
end RepoAudit
