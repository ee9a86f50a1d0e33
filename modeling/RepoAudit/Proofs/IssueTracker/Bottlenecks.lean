import RepoAudit.Proofs.IssueTracker.Counts
import RepoAudit.Proofs.Ranking
import Mathlib

/-!
# Bottlenecks explain the score

Each signal that costs points is a bottleneck, and its priority tells how many points it costs.  So
the bottlenecks of a report account for all that the score has lost, and its recommendations answer
the bottlenecks one by one.
-/

namespace RepoAudit.IssueTracker

variable {m : Metrics} {s : Signal} {b : Bottleneck} {settings : IssueSettings}

/-! ## Penalties -/

/-- The points lost to a signal that is tripped, or tripped badly. -/
def Signal.cost : Signal → Level → Nat
  | .slowResolution, .high => 25
  | .slowResolution, .medium => 15
  | _, .high => 20
  | _, .medium => 10
  | _, _ => 0

theorem penalty_cases (m : Metrics) (s : Signal) :
    penalty m s = 0 ∨ penalty m s = s.cost .medium ∨ penalty m s = s.cost .high := by
  cases s <;> simp only [penalty, Signal.cost] <;> split_ifs <;> simp

theorem penalty_le (m : Metrics) (s : Signal) : penalty m s ≤ s.cost .high := by
  rcases penalty_cases m s with h | h | h <;> rw [h] <;> cases s <;> decide

theorem sum_penalties_le (m : Metrics) : sumOf (Signal.all.map (penalty m)) ≤ 85 := by
  have hbacklog := penalty_le m .backlog
  have hresolution := penalty_le m .slowResolution
  have hstale := penalty_le m .staleIssues
  have hmerge := penalty_le m .lowMergeRate
  simp only [Signal.all, sumOf, List.map_cons, List.map_nil, List.foldr_cons, List.foldr_nil,
    Signal.cost] at *
  omega

/-! ## Bottlenecks -/

def BottleneckKind.cost : BottleneckKind → Level → Nat
  | .signal s => s.cost
  | .labelConcentration => fun _ => 0

/-- The points that a bottleneck stands for. -/
def Bottleneck.cost (b : Bottleneck) : Nat :=
  b.kind.cost b.priority

theorem bottleneck?_eq_none_iff : bottleneck? m s = none ↔ penalty m s = 0 := by
  rw [bottleneck?]
  split <;> simp [*]

theorem bottleneck?_eq_some (h : bottleneck? m s = some b) :
    b.kind = .signal s ∧ (b.priority = .high ∨ b.priority = .medium) ∧ b.cost = penalty m s := by
  rw [bottleneck?] at h
  split at h
  · cases h
  next hlost =>
    obtain rfl := Option.some.inj h
    refine ⟨rfl, ?_, ?_⟩
    · split <;> simp
    · change s.cost _ = penalty m s
      rcases penalty_cases m s with hnone | hmild | hbad
      · exact absurd hnone hlost
      · rw [hmild]
        cases s <;> rfl
      · rw [hbad]
        cases s <;> rfl

theorem labelBottleneck?_eq_some (h : labelBottleneck? m = some b) :
    b.kind = .labelConcentration ∧ b.priority = .medium := by
  rw [labelBottleneck?, Option.bind_eq_some_iff] at h
  obtain ⟨⟨name, n⟩, -, h⟩ := h
  dsimp only at h
  split at h
  · obtain rfl := Option.some.inj h
    exact ⟨rfl, rfl⟩
  · cases h

theorem mem_bottlenecks : b ∈ bottlenecks m ↔
    (∃ s, bottleneck? m s = some b) ∨ labelBottleneck? m = some b := by
  have hall : ∀ s, s ∈ Signal.all := by
    intro s
    cases s <;> simp [Signal.all]
  simp [bottlenecks, List.mem_filterMap, hall]

theorem sum_costs_filterMap (m : Metrics) (signals : List Signal) :
    sumOf ((signals.filterMap (bottleneck? m)).map Bottleneck.cost) =
      sumOf (signals.map (penalty m)) := by
  induction signals with
  | nil => rfl
  | cons s signals ih =>
      cases hs : bottleneck? m s with
      | none =>
          rw [List.filterMap_cons_none hs, ih, List.map_cons]
          simp [sumOf, bottleneck?_eq_none_iff.mp hs]
      | some b =>
          rw [List.filterMap_cons_some hs, List.map_cons, List.map_cons, sumOf, List.foldr_cons,
            (bottleneck?_eq_some hs).2.2]
          exact congrArg _ ih

theorem sum_costs (m : Metrics) :
    sumOf ((bottlenecks m).map Bottleneck.cost) = sumOf (Signal.all.map (penalty m)) := by
  rw [bottlenecks, List.map_append, sumOf_append, sum_costs_filterMap]
  cases hlabel : labelBottleneck? m with
  | none => rfl
  | some b =>
      have hcost : b.cost = 0 := by
        rw [Bottleneck.cost, (labelBottleneck?_eq_some hlabel).1]
        rfl
      simp [sumOf, hcost]

theorem healthScore_add_costs (m : Metrics) :
    healthScore m + sumOf ((bottlenecks m).map Bottleneck.cost) = 100 := by
  have hlost := sum_penalties_le m
  rw [sum_costs, healthScore]
  omega

theorem nodup_kinds (m : Metrics) : ((bottlenecks m).map Bottleneck.kind).Nodup := by
  have hsignals : ((Signal.all.filterMap (bottleneck? m)).map Bottleneck.kind).Nodup := by
    rw [List.map_filterMap]
    apply List.Nodup.filterMap
    · intro s s' kind hs hs'
      obtain ⟨b, hb, rfl⟩ := Option.mem_map.mp hs
      obtain ⟨b', hb', hkind⟩ := Option.mem_map.mp hs'
      rw [(bottleneck?_eq_some hb).1, (bottleneck?_eq_some hb').1] at hkind
      exact (BottleneckKind.signal.inj hkind).symm
    · decide
  rw [bottlenecks, List.map_append, List.nodup_append]
  refine ⟨hsignals, ?_, ?_⟩
  · cases labelBottleneck? m <;> simp
  · rintro kind hkind _ hlabel rfl
    obtain ⟨b, hb, rfl⟩ := List.mem_map.mp hkind
    obtain ⟨s, -, hs⟩ := List.mem_filterMap.mp hb
    obtain ⟨b', hb', heq⟩ := List.mem_map.mp hlabel
    rw [(labelBottleneck?_eq_some (Option.mem_toList.mp hb')).1, (bottleneck?_eq_some hs).1] at heq
    cases heq

/-! ## Recommendations -/

/-- The recommendation says what to do about the bottleneck, as urgently as it is reported. -/
structure Answers (b : Bottleneck) (r : Recommendation) : Prop where
  priority : r.priority = b.priority
  category : r.category = (remedy b.kind).1
  description : r.description = b.description ++ "; " ++ (remedy b.kind).2.1
  effort : r.effort = (remedy b.kind).2.2

theorem forall₂_answers (bs : List Bottleneck) :
    List.Forall₂ Answers bs (bs.map recommendation) := by
  rw [List.forall₂_map_right_iff, List.forall₂_same]
  exact fun b _ => ⟨rfl, rfl, rfl, rfl⟩

theorem filter_answers (bs : List Bottleneck) (level : Level) :
    (bs.map recommendation).filter (fun r => r.priority == level) =
      (bs.filter fun b => b.priority == level).map recommendation := by
  rw [List.filter_map]
  rfl

/-- The bottlenecks of a report account for its score, and its recommendations for them. -/
structure Explained (a : Assessment Report) : Prop where
  score : a.report.score + sumOf (a.report.bottlenecks.map Bottleneck.cost) = 100
  range : 15 ≤ a.report.score ∧ a.report.score ≤ 100
  once : (a.report.bottlenecks.map Bottleneck.kind).Nodup
  levels : ∀ b ∈ a.report.bottlenecks, b.priority = .high ∨ b.priority = .medium
  /-- A signal is reported when it costs points. -/
  reported : ∀ s, .signal s ∈ a.report.bottlenecks.map Bottleneck.kind ↔
    0 < penalty a.report.metrics s
  /-- The most urgent recommendations come first. -/
  urgency : a.recommendations.Pairwise fun r r' => r.priority.atLeast r'.priority = true
  advice : ∀ level, List.Forall₂ Answers
    (a.report.bottlenecks.filter fun b => b.priority == level)
    (a.recommendations.filter fun r => r.priority == level)
  answered : a.recommendations.length = a.report.bottlenecks.length

theorem mem_kinds_iff : .signal s ∈ (bottlenecks m).map Bottleneck.kind ↔ 0 < penalty m s := by
  rw [List.mem_map, Nat.pos_iff_ne_zero, Ne, ← bottleneck?_eq_none_iff, ← Ne, Option.ne_none_iff_exists']
  constructor
  · rintro ⟨b, hb, hkind⟩
    rcases mem_bottlenecks.mp hb with ⟨s', hs'⟩ | hlabel
    · rw [(bottleneck?_eq_some hs').1] at hkind
      obtain rfl := BottleneckKind.signal.inj hkind
      exact ⟨b, hs'⟩
    · rw [(labelBottleneck?_eq_some hlabel).1] at hkind
      cases hkind
  · rintro ⟨b, hb⟩
    exact ⟨b, mem_bottlenecks.mpr (.inl ⟨s, hb⟩), (bottleneck?_eq_some hb).1⟩

theorem explained_assess (m : Metrics) (warnings : List Warning) :
    Explained (assess (.of m) warnings) := by
  have hscore := healthScore_add_costs m
  have hlost := sum_penalties_le m
  constructor
  case score => exact hscore
  case range =>
    change 15 ≤ healthScore m ∧ healthScore m ≤ 100
    rw [sum_costs] at hscore
    omega
  case once => exact nodup_kinds m
  case levels =>
    intro b hb
    rcases mem_bottlenecks.mp hb with ⟨s, hs⟩ | hlabel
    · exact (bottleneck?_eq_some hs).2.1
    · exact .inr (labelBottleneck?_eq_some hlabel).2
  case reported => exact fun s => mem_kinds_iff
  case urgency => exact Recommendation.pairwise_byUrgency _
  case advice =>
    intro level
    have hadvice : (assess (.of m) warnings).recommendations.filter (fun r => r.priority == level) =
        ((bottlenecks m).filter fun b => b.priority == level).map recommendation :=
      (Recommendation.filter_byUrgency _ level).trans (filter_answers _ level)
    rw [hadvice]
    exact forall₂_answers _
  case answered =>
    exact (List.length_mergeSort _).trans (List.length_map _)

/-- With days that are a span, every report on a tracker explains its score. -/
theorem analyze?_explained (hdays : settings.staleDays.natAbs ≤ Span.maxDays) (now : Timestamp)
    (issues : List Issue) (pulls : List PullRequest) :
    ∃ a, analyze? settings now issues pulls = some a ∧ Explained a := by
  obtain ⟨limit, hlimit⟩ := Option.isSome_iff_exists.mp (Span.ofDays?_isSome_iff.mpr hdays)
  exact ⟨_, analyze?_eq hlimit, explained_assess _ _⟩

/-- Of one open issue, which is stale, all signals of issues but the slow resolution are tripped. -/
theorem octoberIssue_explained :
    ∃ a, analyze? {} leapSecond [octoberIssue] [] = some a ∧ Explained a ∧ a.report.score = 60 := by
  obtain ⟨a, ha, hexplained⟩ := @analyze?_explained {} (by decide) leapSecond [octoberIssue] []
  have hscore : ∃ a, analyze? {} leapSecond [octoberIssue] [] = some a ∧ a.report.score = 60 :=
    ⟨_, rfl, by decide +kernel⟩
  obtain ⟨b, hb, hsixty⟩ := hscore
  obtain rfl := Option.some.inj (ha.symm.trans hb)
  exact ⟨a, ha, hexplained, hsixty⟩

end RepoAudit.IssueTracker
