import RepoAudit.Finding

/-!
# Assessments

What an analysis returns: its own report, and in the same form for all of them a summary, insights,
recommendations and warnings.
-/

namespace RepoAudit

structure Assessment (ρ : Type) where
  report : ρ
  summary : String := ""
  insights : List String := []
  /-- Most urgent first. -/
  recommendations : List Recommendation := []
  warnings : List Warning := []

namespace Assessment

/-- Puts the recommendations in order. -/
def sorted (a : Assessment ρ) : Assessment ρ :=
  { a with recommendations := Recommendation.byUrgency a.recommendations }

def map (f : ρ → σ) (a : Assessment ρ) : Assessment σ :=
  { a with report := f a.report }

end Assessment
end RepoAudit
