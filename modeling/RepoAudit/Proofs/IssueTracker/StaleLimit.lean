import RepoAudit.IssueTracker.Analysis
import RepoAudit.Proofs.Config.Accepted
import RepoAudit.Proofs.Time.Range
import Mathlib

/-!
# Days that are no span of time

The times that an analysis measures are all small enough to be spans.  The days after which an issue
is stale are not: accepted settings may name any number of 64 bits, and the analysis has a result
only when that many days are a span.
-/

namespace RepoAudit.IssueTracker

variable {now : Timestamp} {limit : Span} {t : Tracked}

/-- The times that are measured for an issue: since its last change while it is open, from its
creation to its closing afterwards. -/
def Tracked.spans (now : Timestamp) (t : Tracked) : List Span :=
  if t.issue.isOpen then ((t.changed <|> t.created).map now.since).toList
  else
    match t.created, t.changed with
    | some created, some closed => [closed.since created]
    | _, _ => []

theorem isStale_eq : t.isStale now limit = (t.issue.isOpen && (t.spans now).any limit.lt) := by
  rw [Tracked.isStale, Tracked.spans]
  cases t.issue.isOpen with
  | false => rfl
  | true => cases h : t.changed <|> t.created <;> simp

theorem resolutionDays?_eq :
    t.resolutionDays? =
      if t.issue.isOpen then none
      else (t.spans now).head?.map fun span => Float.ofInt span.wholeSeconds / 86400.0 := by
  rw [Tracked.resolutionDays?, Tracked.spans]
  cases t.issue.isOpen with
  | true => rfl
  | false => cases t.created <;> cases t.changed <;> rfl

theorem ofText_of_readOptionalDate {source : String} {value : Option String} {moment : Timestamp}
    (h : (readOptionalDate source value).1 = some moment) :
    ∃ text, Timestamp.ofText text = .ok moment := by
  cases value with
  | none => cases h
  | some value =>
      rw [readOptionalDate] at h
      split at h
      next hread =>
        obtain rfl := Option.some.inj h
        exact ⟨value.toList, mapError_eq_ok_iff.mp hread⟩
      next => cases h

theorem readOptionalDate_inRange {source : String} {value : Option String} {moment : Timestamp}
    (h : (readOptionalDate source value).1 = some moment) : moment.InRange := by
  obtain ⟨text, htext⟩ := ofText_of_readOptionalDate h
  exact Timestamp.ofText_inRange htext

/-- All that is measured as of a time a clock can show is small enough to be a span. -/
theorem spans_representable {issues : List Issue} (hnow : now.InRange) (ht : t ∈ track issues) :
    ∀ span ∈ t.spans now, span.Representable := by
  obtain ⟨i, -, rfl⟩ := List.mem_map.mp ht
  have hcreated : ∀ moment, (Tracked.of i).created = some moment → moment.InRange :=
    fun _ h => readOptionalDate_inRange h
  have hchanged : ∀ moment, (Tracked.of i).changed = some moment → moment.InRange :=
    fun _ h => readOptionalDate_inRange h
  intro span hspan
  rw [Tracked.spans] at hspan
  split at hspan
  · simp only [Option.mem_toList, Option.map_eq_some_iff] at hspan
    obtain ⟨last, hlast, rfl⟩ := hspan
    refine Timestamp.since_representable hnow ?_
    cases hlater : (Tracked.of i).changed with
    | none => exact hcreated last (by simpa [hlater] using hlast)
    | some later => exact hchanged last (by simpa [hlater] using hlast)
  · split at hspan
    next created closed hfirst hsecond =>
      obtain rfl := List.mem_singleton.mp hspan
      exact Timestamp.since_representable (hchanged closed hsecond) (hcreated created hfirst)
    next => cases hspan

/-- With accepted settings the analysis has a result exactly when the days after which an issue is
stale are a span of time.  The settings only see to it that they fit into 64 bits, and nothing else
that is measured can fail to be a span. -/
theorem analysis_returns_iff {text : Text} {settings : Settings}
    (hparse : Config.parse text = .ok settings) (now : Timestamp) (issues : List Issue)
    (pulls : List PullRequest) :
    Config.FitsInt settings.issueSettings ∧
      ((∃ result, analyze? settings.issueSettings now issues pulls = some result) ↔
        settings.issueSettings.staleDays.natAbs ≤ Span.maxDays) ∧
      (now.InRange → ∀ t ∈ track issues, ∀ span ∈ t.spans now, span.Representable) := by
  refine ⟨Config.fitsInt_of_parse hparse, ?_, fun hnow t ht => spans_representable hnow ht⟩
  rw [← Span.ofDays?_isSome_iff, ← Option.isSome_iff_exists, analyze?, Option.isSome_map]

/-! ## At the limit -/

theorem parse_longest :
    Config.parse "[issues]\nstale_days = 106751991167\n".toList =
      .ok { issues := some { staleDays := 106751991167 } } := by
  have htoml : Toml.ofText "[issues]\nstale_days = 106751991167\n".toList =
      some [("issues", .table .header [("stale_days", .int 106751991167)])] := by cbv
  rw [Config.parse, htoml]
  rfl

theorem parse_tooLong :
    Config.parse "[issues]\nstale_days = 106751991168\n".toList =
      .ok { issues := some { staleDays := 106751991168 } } := by
  have htoml : Toml.ofText "[issues]\nstale_days = 106751991168\n".toList =
      some [("issues", .table .header [("stale_days", .int 106751991168)])] := by cbv
  rw [Config.parse, htoml]
  rfl

/-- The longest span of days is accepted and the analysis has a result. -/
theorem longest_returns :
    ∃ result, analyze? { staleDays := 106751991167 } ⟨1717200000, 0⟩ [] [] = some result :=
  (analysis_returns_iff parse_longest ⟨1717200000, 0⟩ [] []).2.1.mpr (by decide)

/-- A day more is accepted as well, and then the analysis has no result. -/
theorem tooLong_fails :
    ¬ ∀ (text : Text) (settings : Settings), Config.parse text = .ok settings →
      ∀ (now : Timestamp) (issues : List Issue) (pulls : List PullRequest),
        ∃ result, analyze? settings.issueSettings now issues pulls = some result := by
  intro h
  obtain ⟨result, hresult⟩ := h _ _ parse_tooLong ⟨1717200000, 0⟩ [] []
  have hnone : analyze? { staleDays := 106751991168 } ⟨1717200000, 0⟩ [] [] = none := rfl
  cases hnone.symm.trans hresult

end RepoAudit.IssueTracker
