import RepoAudit.Proofs.Contributors.Totals
import Mathlib.Data.List.Perm.Subperm
import Mathlib.Order.Bounds.Basic

/-!
# The bus factor is the size of the smallest team with half of the commits

The contributors with the most commits are taken one by one until they hold half of all commits.
No team of the same size holds more than they do, so no smaller team holds half.
-/

namespace RepoAudit

variable {counts team : List Nat} {total covered : Nat}

/-- Of the teams of one size, the first ones in descending order add up to most. -/
theorem sumOf_le_sumOf_take (hsorted : counts.Pairwise fun a b => b ≤ a)
    (hteam : team.Sublist counts) : sumOf team ≤ sumOf (counts.take team.length) := by
  induction counts generalizing team with
  | nil =>
      rw [List.sublist_nil.mp hteam]
      rfl
  | cons most counts ih =>
      rw [List.pairwise_cons] at hsorted
      cases team with
      | nil => exact Nat.zero_le _
      | cons count team =>
          have hmost : count ≤ most := by
            rcases List.mem_cons.mp (hteam.subset List.mem_cons_self) with rfl | hcount
            · exact le_rfl
            · exact hsorted.1 count hcount
          have hothers : sumOf team ≤ sumOf (counts.take team.length) :=
            ih hsorted.2 hteam.of_cons_cons
          exact Nat.add_le_add hmost hothers

/-! ## The walk along the counts -/

/-- Far below the limit of the sums, one step compares with half of the total. -/
theorem coveringPlace_cons {count : Nat} (hsize : 2 * (covered + count) < UInt64.size)
    (place : Nat) (counts : List Nat) :
    coveringPlace total place covered (count :: counts) =
      if total ≤ 2 * (covered + count) then place + 1
      else coveringPlace total (place + 1) (covered + count) counts := by
  have hexact : (covered + count) % UInt64.size = covered + count := Nat.mod_eq_of_lt (by omega)
  have hdouble : (covered + count) * 2 % UInt64.size = 2 * (covered + count) := by
    rw [Nat.mul_comm]
    exact Nat.mod_eq_of_lt hsize
  rw [coveringPlace]
  simp only [hexact, hdouble]

/-- The walk ends at the first place up to which the counts cover half. -/
theorem coveringPlace_isLeast (hsize : 2 * (covered + sumOf counts) < UInt64.size)
    (hbelow : 2 * covered < total) (hreach : total ≤ 2 * (covered + sumOf counts)) (place : Nat) :
    ∃ n, coveringPlace total place covered counts = place + n ∧
      IsLeast {n | total ≤ 2 * (covered + sumOf (counts.take n))} n := by
  induction counts generalizing place covered with
  | nil =>
      have hcovered : total ≤ 2 * covered := hreach
      omega
  | cons count counts ih =>
      have hsum : covered + sumOf (count :: counts) = covered + count + sumOf counts :=
        (Nat.add_assoc ..).symm
      have htake : ∀ n, covered + sumOf ((count :: counts).take (n + 1)) =
          covered + count + sumOf (counts.take n) := fun n => (Nat.add_assoc ..).symm
      have hzero : ¬ total ≤ 2 * (covered + sumOf ((count :: counts).take 0)) :=
        Nat.not_le.mpr hbelow
      rw [hsum] at hsize hreach
      rw [coveringPlace_cons (by omega)]
      by_cases hcovers : total ≤ 2 * (covered + count)
      · have hone : covered + sumOf ((count :: counts).take 1) = covered + count := htake 0
        refine ⟨1, if_pos hcovers, by rwa [Set.mem_ofPred_eq, hone], ?_⟩
        intro n hn
        rcases Nat.eq_zero_or_pos n with rfl | hpos
        · exact absurd hn hzero
        · exact hpos
      · obtain ⟨n, hplace, hn, hleast⟩ := ih hsize (by omega) hreach (place + 1)
        refine ⟨n + 1, by rw [if_neg hcovers, hplace]; omega, ?_, ?_⟩
        · rw [Set.mem_ofPred_eq, htake]
          exact hn
        · intro m hm
          cases m with
          | zero => exact absurd hm hzero
          | succ m =>
              rw [Set.mem_ofPred_eq, htake] at hm
              exact Nat.succ_le_succ (hleast hm)

/-- The counts, the largest first. -/
def descending (counts : List Nat) : List Nat :=
  counts.mergeSort fun a b => b ≤ a

theorem descending_perm (counts : List Nat) : (descending counts).Perm counts :=
  List.mergeSort_perm _ _

theorem pairwise_descending (counts : List Nat) :
    (descending counts).Pairwise fun a b => b ≤ a := by
  have hsorted : (descending counts).Pairwise fun a b => decide (b ≤ a) = true := by
    apply List.pairwise_mergeSort
    · intro a b c hab hbc
      rw [decide_eq_true_eq] at *
      omega
    · intro a b
      simpa using le_total b a
  simpa only [decide_eq_true_eq] using hsorted

theorem busFactor_isLeast_take (hsize : 2 * sumOf counts < UInt64.size)
    (hcounts : sumOf counts ≠ 0) :
    IsLeast {n | sumOf counts ≤ 2 * sumOf ((descending counts).take n)} (busFactor counts) := by
  have hsum : sumOf (descending counts) = sumOf counts := sumOf_perm (descending_perm counts)
  have htotal : sumOf counts % UInt64.size = sumOf counts := Nat.mod_eq_of_lt (by omega)
  have hbusFactor : busFactor counts = coveringPlace (sumOf counts) 0 0 (descending counts) := by
    rw [busFactor]
    simp only [htotal, if_neg hcounts]
    rfl
  have hbelow : 2 * 0 < sumOf counts := by omega
  obtain ⟨n, hplace, hleast⟩ := coveringPlace_isLeast
    (by rwa [Nat.zero_add, hsum]) hbelow (by rw [Nat.zero_add, hsum]; omega) 0
  rw [hbusFactor, hplace, Nat.zero_add]
  simpa only [Nat.zero_add] using hleast

/-! ## Teams -/

def commitsOf (contributors : List Contributor) : Nat :=
  sumOf (contributors.map Contributor.commits)

/-- The sizes of the teams that hold at least half of the commits of all contributors. -/
def coveringSizes (contributors : List Contributor) : Set Nat :=
  {n | ∃ team, team.Sublist contributors ∧ team.length = n ∧
    commitsOf contributors ≤ 2 * commitsOf team}

variable {contributors : List Contributor}

/-- Counts that are picked from those of the contributors are the counts of a team. -/
theorem exists_team (hcounts : counts.Subperm (contributors.map Contributor.commits)) :
    ∃ team : List Contributor, team.Sublist contributors ∧ team.length = counts.length ∧
      commitsOf team = sumOf counts := by
  obtain ⟨picked, hperm, hpicked⟩ := hcounts
  obtain ⟨team, hteam, rfl⟩ := List.sublist_map_iff.mp hpicked
  refine ⟨team, hteam, ?_, sumOf_perm hperm⟩
  rw [← hperm.length_eq, List.length_map]

/-- A team holds no more than as many of the most active contributors. -/
theorem commitsOf_le_sumOf_take {team : List Contributor} (hteam : team.Sublist contributors) :
    commitsOf team ≤
      sumOf ((descending (contributors.map Contributor.commits)).take team.length) := by
  have hpicked : (team.map Contributor.commits).Subperm
      (descending (contributors.map Contributor.commits)) :=
    (descending_perm _).symm.subperm_left.mp (hteam.map _).subperm
  obtain ⟨picked, hperm, hsublist⟩ := hpicked
  have hle := sumOf_le_sumOf_take (pairwise_descending _) hsublist
  rwa [sumOf_perm hperm, hperm.length_eq, List.length_map] at hle

/-- Nobody is needed to cover no commits.  Otherwise the bus factor is the least size of a team
that holds at least half of all commits, as long as twice their number is a number of 64 bits. -/
theorem busFactor_isLeast_coveringSize (contributors : List Contributor)
    (hsize : commitsOf contributors ≤ (UInt64.size - 1) / 2) :
    (commitsOf contributors = 0 → busFactor (contributors.map Contributor.commits) = 0) ∧
      (commitsOf contributors ≠ 0 → IsLeast (coveringSizes contributors)
        (busFactor (contributors.map Contributor.commits))) := by
  constructor
  · intro hzero
    rw [commitsOf] at hzero
    simp [busFactor, hzero]
  · intro hcommits
    have hdouble : 2 * commitsOf contributors < UInt64.size := by
      have hpos : 0 < UInt64.size := by decide
      omega
    obtain ⟨hreaches, hleast⟩ := busFactor_isLeast_take hdouble hcommits
    generalize busFactor (contributors.map Contributor.commits) = n at *
    constructor
    · have hlength : n ≤ (descending (contributors.map Contributor.commits)).length := by
        apply hleast
        have hall := sumOf_perm (descending_perm (contributors.map Contributor.commits))
        rw [Set.mem_ofPred_eq, List.take_length, hall]
        omega
      obtain ⟨team, hteam, hmembers, hsum⟩ := exists_team
        ((descending_perm _).subperm_left.mp (List.take_sublist n _).subperm)
      refine ⟨team, hteam, ?_, ?_⟩
      · rw [hmembers, List.length_take, min_eq_left hlength]
      · rw [hsum]
        exact hreaches
    · rintro _ ⟨team, hteam, rfl, hhalf⟩
      have hmost := commitsOf_le_sumOf_take hteam
      exact hleast (hhalf.trans (Nat.mul_le_mul_left 2 hmost))

/-- Two of three are needed, although the first of them alone is close to half. -/
def threeCommitters : List Contributor :=
  [{ login := "cyd", commits := 3 }, { login := "ann", commits := 4 },
    { login := "bob", commits := 2 }]

theorem threeCommitters_isLeast :
    commitsOf threeCommitters ≤ (UInt64.size - 1) / 2 ∧ commitsOf threeCommitters ≠ 0 ∧
      IsLeast (coveringSizes threeCommitters) (busFactor [3, 4, 2]) := by
  have hsize : commitsOf threeCommitters ≤ (UInt64.size - 1) / 2 := by decide
  have hcommits : commitsOf threeCommitters ≠ 0 := by decide
  exact ⟨hsize, hcommits, (busFactor_isLeast_coveringSize threeCommitters hsize).2 hcommits⟩

end RepoAudit
