import RepoAudit.Contributors.Contributor
import RepoAudit.Proofs.Tally
import RepoAudit.Proofs.Time.Latest
import Mathlib.Tactic

/-!
# Contributors add up their contributions

After any contributions the list of contributors has an entry for each login among them, only one,
and this entry adds up the contributions of the login.  Recording one more contribution keeps this
invariant, so every fold ends in it.  Up to order no other list satisfies it, so that the order of
the contributions does not matter either.
-/

namespace RepoAudit

def Contribution.ownedBy (login : String) (all : List Contribution) : List Contribution :=
  all.filter fun x => x.login == login

namespace Contributor

open Contribution (ownedBy)

/-- The contributor is what these contributions add up to. -/
structure AddsUp (c : Contributor) (own : List Contribution) : Prop where
  commits : c.commits = own.countP fun x => x.kind = .commit
  pulls : c.pulls = own.countP fun x => x.kind = .pull
  reviews : c.reviews = own.countP fun x => x.kind = .review
  issues : c.issues = own.countP fun x => x.kind = .issue
  additions : c.additions = sumOf (own.map Contribution.additions) % lineCountLimit
  deletions : c.deletions = sumOf (own.map Contribution.deletions) % lineCountLimit
  lastActive : IsLatest c.lastActive (own.flatMap Contribution.dates)

/-! ## One contribution -/

theorem touch_eq (c : Contributor) (t : Timestamp) :
    c.touch t = { c with lastActive := (c.touch t).lastActive } := by
  unfold touch
  split
  · rfl
  · split <;> rfl

theorem foldl_touch_eq (c : Contributor) (times : List Timestamp) :
    times.foldl touch c = { c with lastActive := (times.foldl touch c).lastActive } := by
  induction times generalizing c with
  | nil => rfl
  | cons t times ih =>
      rw [List.foldl_cons, ih, touch_eq]

theorem isLatest_touch {c : Contributor} {times : List Timestamp}
    (h : IsLatest c.lastActive times) (t : Timestamp) :
    IsLatest (c.touch t).lastActive (times ++ [t]) := by
  cases hlast : c.lastActive with
  | none =>
      rw [hlast] at h
      have htimes : times = [] := h
      have htouch : (c.touch t).lastActive = some t := by simp [touch, hlast]
      rw [htouch, htimes]
      exact ⟨by simp, by simp [Timestamp.lt]⟩
  | some last =>
      rw [hlast] at h
      by_cases hlater : last.lt t = true
      · have htouch : (c.touch t).lastActive = some t := by simp [touch, hlast, hlater]
        rw [htouch]
        exact h.concat_later hlater
      · have htouch : (c.touch t).lastActive = some last := by simp [touch, hlast, hlater]
        rw [htouch]
        exact h.concat_not_later (by simpa using hlater)

theorem isLatest_foldl_touch {c : Contributor} {times : List Timestamp}
    (h : IsLatest c.lastActive times) (more : List Timestamp) :
    IsLatest (more.foldl touch c).lastActive (times ++ more) := by
  induction more generalizing c times with
  | nil => simpa using h
  | cons t more ih =>
      have hstep := ih (isLatest_touch h t)
      simpa using hstep

theorem count_lastActive (c : Contributor) (kind : ContributionKind) :
    (c.count kind).lastActive = c.lastActive := by
  cases kind <;> rfl

theorem credit_eq (c : Contributor) (x : Contribution) :
    c.credit x =
      { (c.count x.kind).addLines x.additions x.deletions with
        lastActive := (c.credit x).lastActive } := by
  rw [credit, foldl_touch_eq]

@[simp] theorem credit_login (c : Contributor) (x : Contribution) :
    (c.credit x).login = c.login := by
  rw [credit_eq]
  cases hkind : x.kind <;> rfl

theorem addsUp_nil (login : String) : AddsUp { login } [] where
  commits := rfl
  pulls := rfl
  reviews := rfl
  issues := rfl
  additions := rfl
  deletions := rfl
  lastActive := rfl

theorem lines_concat {total : Nat} {own : List Contribution} {lines : Contribution → Nat}
    (h : total = sumOf (own.map lines) % lineCountLimit) (x : Contribution) :
    (total + lines x) % lineCountLimit = sumOf ((own ++ [x]).map lines) % lineCountLimit := by
  rw [h, List.map_append, sumOf_append, Nat.mod_add_mod]
  rfl

theorem AddsUp.credit {c : Contributor} {own : List Contribution} (h : c.AddsUp own)
    (x : Contribution) : (c.credit x).AddsUp (own ++ [x]) := by
  have hlast : IsLatest (c.credit x).lastActive ((own ++ [x]).flatMap Contribution.dates) := by
    have hstart : IsLatest ((c.count x.kind).addLines x.additions x.deletions).lastActive
        (own.flatMap Contribution.dates) := by
      rw [addLines, count_lastActive]
      exact h.lastActive
    have hdates := isLatest_foldl_touch hstart x.dates
    simpa [Contributor.credit] using hdates
  have hlines : (c.count x.kind).additions = c.additions ∧
      (c.count x.kind).deletions = c.deletions := by
    cases x.kind <;> exact ⟨rfl, rfl⟩
  rw [credit_eq]
  constructor
  case additions =>
    rw [addLines, hlines.1]
    exact lines_concat h.additions x
  case deletions =>
    rw [addLines, hlines.2]
    exact lines_concat h.deletions x
  case lastActive => exact hlast
  all_goals
    rw [List.countP_append]
    cases hkind : x.kind <;> simp [count, addLines, hkind, h.commits, h.pulls, h.reviews, h.issues]

theorem AddsUp.eq_of_perm {c c' : Contributor} {own own' : List Contribution}
    (h : c.AddsUp own) (h' : c'.AddsUp own') (hlogin : c.login = c'.login)
    (hperm : own.Perm own') : c = c' := by
  have hcommits : c.commits = c'.commits := by
    rw [h.commits, h'.commits, hperm.countP_eq]
  have hpulls : c.pulls = c'.pulls := by
    rw [h.pulls, h'.pulls, hperm.countP_eq]
  have hreviews : c.reviews = c'.reviews := by
    rw [h.reviews, h'.reviews, hperm.countP_eq]
  have hissues : c.issues = c'.issues := by
    rw [h.issues, h'.issues, hperm.countP_eq]
  have hadditions : c.additions = c'.additions := by
    rw [h.additions, h'.additions, sumOf_perm (hperm.map _)]
  have hdeletions : c.deletions = c'.deletions := by
    rw [h.deletions, h'.deletions, sumOf_perm (hperm.map _)]
  have hlast : c.lastActive = c'.lastActive :=
    h.lastActive.eq_of_perm h'.lastActive (hperm.flatMap_right _)
  cases c
  cases c'
  simp_all

/-! ## The list of contributors -/

theorem record_cases (cs : List Contributor) (x : Contribution) :
    (x.login ∉ cs.map login ∧ record cs x = cs ++ [credit { login := x.login } x]) ∨
      ∃ before c after, cs = before ++ c :: after ∧ c.login = x.login ∧
        record cs x = before ++ c.credit x :: after := by
  induction cs with
  | nil => exact Or.inl ⟨List.not_mem_nil, rfl⟩
  | cons c cs ih =>
      by_cases hlogin : c.login = x.login
      · right
        exact ⟨[], c, cs, rfl, hlogin, by simp [record, hlogin]⟩
      · have hrecord : record (c :: cs) x = c :: record cs x := by simp [record, hlogin]
        rcases ih with ⟨hnew, hadded⟩ | ⟨before, d, after, hsplit, hd, hchanged⟩
        · left
          refine ⟨?_, by rw [hrecord, hadded, List.cons_append]⟩
          rw [List.map_cons, List.mem_cons, not_or]
          exact ⟨Ne.symm hlogin, hnew⟩
        · right
          exact ⟨c :: before, d, after, by rw [hsplit, List.cons_append], hd,
            by rw [hrecord, hchanged, List.cons_append]⟩

/-- The contributors of these contributions: each login once, with what it adds up to. -/
structure Totals (cs : List Contributor) (all : List Contribution) : Prop where
  nodup : (cs.map login).Nodup
  mem_login_iff : ∀ name, name ∈ cs.map login ↔ name ∈ all.map Contribution.login
  addsUp : ∀ c ∈ cs, c.AddsUp (ownedBy c.login all)

namespace Totals

theorem nil : Totals [] [] where
  nodup := List.nodup_nil
  mem_login_iff name := by simp
  addsUp c hc := absurd hc List.not_mem_nil

theorem ownedBy_concat_of_eq {x : Contribution} {name : String} (h : x.login = name)
    (all : List Contribution) : ownedBy name (all ++ [x]) = ownedBy name all ++ [x] := by
  simp [ownedBy, h]

theorem ownedBy_concat_of_ne {x : Contribution} {name : String} (h : x.login ≠ name)
    (all : List Contribution) : ownedBy name (all ++ [x]) = ownedBy name all := by
  simp [ownedBy, h]

theorem ownedBy_eq_nil {name : String} {all : List Contribution}
    (h : name ∉ all.map Contribution.login) : ownedBy name all = [] := by
  rw [ownedBy, List.filter_eq_nil_iff]
  intro y hy hname
  exact h (List.mem_map.mpr ⟨y, hy, by simpa using hname⟩)

/-- A new login gets an entry of its own. -/
theorem add {cs : List Contributor} {all : List Contribution} (h : Totals cs all)
    {x : Contribution} (hnew : x.login ∉ cs.map login) :
    Totals (cs ++ [credit { login := x.login } x]) (all ++ [x]) := by
  have hlogins : (cs ++ [credit { login := x.login } x]).map login =
      cs.map login ++ [x.login] := by simp
  refine ⟨?_, ?_, ?_⟩
  · rw [hlogins, List.nodup_append]
    refine ⟨h.nodup, List.nodup_singleton _, ?_⟩
    intro name hname other hother heq
    rw [List.mem_singleton] at hother
    exact hnew (hother ▸ heq ▸ hname)
  · intro name
    rw [hlogins, List.map_append, List.mem_append, List.mem_append, h.mem_login_iff]
    simp
  · intro c hc
    rcases List.mem_append.mp hc with hc | hc
    · have hne : x.login ≠ c.login := by
        intro heq
        exact hnew (heq ▸ List.mem_map_of_mem hc)
      rw [ownedBy_concat_of_ne hne]
      exact h.addsUp c hc
    · obtain rfl := List.mem_singleton.mp hc
      have hown : ownedBy x.login all = [] := by
        apply ownedBy_eq_nil
        rwa [← h.mem_login_iff]
      rw [credit_login, ownedBy_concat_of_eq rfl, hown]
      exact (addsUp_nil x.login).credit x

/-- The entry of a known login is credited, and no other entry changes. -/
theorem change {before after : List Contributor} {d : Contributor} {all : List Contribution}
    (h : Totals (before ++ d :: after) all) {x : Contribution} (hd : d.login = x.login) :
    Totals (before ++ d.credit x :: after) (all ++ [x]) := by
  have hlogins : (before ++ d.credit x :: after).map login =
      (before ++ d :: after).map login := by simp
  -- Logins are not repeated, so no entry beside `d` has the login of `x`.
  have hbeside : ∀ c ∈ before ++ after, x.login ≠ c.login := by
    intro c hc heq
    have hnodup := h.nodup
    rw [List.map_append, List.map_cons, List.nodup_middle, List.nodup_cons,
      ← List.map_append] at hnodup
    apply hnodup.1
    rw [hd, heq]
    exact List.mem_map_of_mem hc
  have hsame : ∀ c ∈ before ++ after, c ∈ before ++ d :: after := by
    intro c hc
    rw [List.mem_append, List.mem_cons]
    exact (List.mem_append.mp hc).imp_right Or.inr
  refine ⟨?_, ?_, ?_⟩
  · rw [hlogins]
    exact h.nodup
  · intro name
    have hold : x.login ∈ all.map Contribution.login := by
      rw [← h.mem_login_iff]
      simp [hd]
    rw [hlogins, h.mem_login_iff, List.map_append, List.mem_append, List.map_singleton,
      List.mem_singleton]
    constructor
    · exact Or.inl
    · rintro (hname | rfl)
      · exact hname
      · exact hold
  · intro c hc
    rw [List.perm_middle.mem_iff, List.mem_cons] at hc
    rcases hc with rfl | hc
    · rw [credit_login, ownedBy_concat_of_eq hd.symm]
      apply AddsUp.credit
      exact h.addsUp d (by simp)
    · rw [ownedBy_concat_of_ne (hbeside c hc)]
      exact h.addsUp c (hsame c hc)

theorem record {cs : List Contributor} {all : List Contribution} (h : Totals cs all)
    (x : Contribution) : Totals (Contributor.record cs x) (all ++ [x]) := by
  rcases record_cases cs x with ⟨hnew, hrecord⟩ | ⟨before, d, after, rfl, hd, hrecord⟩
  · rw [hrecord]
    exact h.add hnew
  · rw [hrecord]
    exact h.change hd

theorem foldl_record (all : List Contribution) : Totals (all.foldl Contributor.record []) all := by
  induction all using List.reverseRecOn with
  | nil => exact nil
  | append_singleton all x ih =>
      rw [List.foldl_append]
      exact ih.record x

theorem of_perm {cs cs' : List Contributor} {all : List Contribution} (h : Totals cs all)
    (hperm : cs.Perm cs') : Totals cs' all where
  nodup := (hperm.map login).nodup_iff.mp h.nodup
  mem_login_iff name := by rw [← h.mem_login_iff, (hperm.map login).mem_iff]
  addsUp c hc := h.addsUp c (hperm.mem_iff.mpr hc)

theorem fold (all : List Contribution) : Totals (fold all) all :=
  (foldl_record all).of_perm (List.mergeSort_perm _ _).symm

theorem mem_of_perm {cs cs' : List Contributor} {all all' : List Contribution}
    (h : Totals cs all) (h' : Totals cs' all') (hperm : all.Perm all') {c : Contributor}
    (hc : c ∈ cs) : c ∈ cs' := by
  have hlogin : c.login ∈ cs'.map login := by
    rw [h'.mem_login_iff, ← (hperm.map Contribution.login).mem_iff, ← h.mem_login_iff]
    exact List.mem_map_of_mem hc
  obtain ⟨c', hc', hlogin⟩ := List.mem_map.mp hlogin
  have heq : c = c' := by
    apply (h.addsUp c hc).eq_of_perm (h'.addsUp c' hc') hlogin.symm
    rw [hlogin]
    exact hperm.filter _
  rw [heq]
  exact hc'

theorem perm {cs cs' : List Contributor} {all all' : List Contribution} (h : Totals cs all)
    (h' : Totals cs' all') (hperm : all.Perm all') : cs.Perm cs' := by
  rw [List.perm_ext_iff_of_nodup h.nodup.of_map h'.nodup.of_map]
  intro c
  exact ⟨h.mem_of_perm h' hperm, h'.mem_of_perm h hperm.symm⟩

end Totals
end Contributor
end RepoAudit
