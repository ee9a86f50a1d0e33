import RepoAudit.Proofs.FileTree.Sight
import Mathlib

/-!
# Changing a file tree

A file or an empty directory is put where a directory has room for it, and what stands at every
other place stays.  A path that leads somewhere still leads there when new directories have been
created.
-/

namespace RepoAudit

namespace FileTree

variable {t u w new sub : FileTree} {entries : List (String × FileTree)} {name other : String}
variable {front place : Location}

/-! ## What stands at a place -/

/-- The bytes of the file or the target of the link at a place, and of a directory only that it is
one. -/
def coverAt? (t : FileTree) (place : Location) : Option FileTree :=
  (t.at? place).map cover

theorem cover_eq_directory_iff : t.cover = .directory [] ↔ ∃ entries, t = .directory entries := by
  cases t <;> simp [cover]

theorem cover_eq_file_iff {bytes : ByteArray} : t.cover = .file bytes ↔ t = .file bytes := by
  cases t <;> simp [cover]

theorem cover_eq_link_iff {target : String} : t.cover = .link target ↔ t = .link target := by
  cases t <;> simp [cover]

theorem at?_concat (hplace : t.at? place = some (.directory entries)) :
    t.at? (place ++ [name]) = entries.lookup name := by
  rw [at?_append, hplace]
  simp [FileTree.at?, child?]

theorem lookup_insertEntry_self : (insertEntry name t entries).lookup name = some t := by
  induction entries with
  | nil => simp [insertEntry]
  | cons first entries ih =>
      obtain ⟨other, old⟩ := first
      rw [insertEntry]
      by_cases heq : (name == other) = true
      · simp [heq]
      · rw [if_neg heq]
        split
        · simp
        · rw [List.lookup_cons, Bool.eq_false_of_not_eq_true heq]
          exact ih

theorem lookup_insertEntry_of_ne (hne : other ≠ name) :
    (insertEntry name t entries).lookup other = entries.lookup other := by
  have hbeq : (other == name) = false := by simpa using hne
  induction entries with
  | nil => simp [insertEntry, hne]
  | cons first entries ih =>
      obtain ⟨next, old⟩ := first
      rw [insertEntry]
      split
      next heq =>
        obtain rfl : name = next := by simpa using heq
        simp [List.lookup_cons, hbeq]
      next =>
        split
        · simp [List.lookup_cons, hbeq]
        · rw [List.lookup_cons, List.lookup_cons, ih]

theorem coverAt?_cons (hlookup : entries.lookup name = some sub) (place : Location) :
    (directory entries).coverAt? (name :: place) = sub.coverAt? place := by
  rw [coverAt?, at?_directory_cons, hlookup]
  rfl

theorem coverAt?_insertEntry (new : FileTree) (place : Location) :
    (directory (insertEntry name new entries)).coverAt? (other :: place) =
      if other = name then new.coverAt? place
      else (directory entries).coverAt? (other :: place) := by
  by_cases heq : other = name
  · subst heq
    rw [if_pos rfl, coverAt?_cons lookup_insertEntry_self]
  · rw [if_neg heq, coverAt?, coverAt?, at?_directory_cons, at?_directory_cons,
      lookup_insertEntry_of_ne heq]

/-- At the place stands what stood there, or a directory where nothing stood. -/
def GrowsAt (t u : FileTree) (place : Location) : Prop :=
  u.coverAt? place = t.coverAt? place ∨
    t.coverAt? place = none ∧ u.coverAt? place = some (.directory [])

/-- Nothing changes but that directories come to stand where nothing stood. -/
def Grows (t u : FileTree) : Prop :=
  ∀ place, t.GrowsAt u place

theorem Grows.refl (t : FileTree) : t.Grows t :=
  fun _ => .inl rfl

theorem Grows.trans (htu : t.Grows u) (huw : u.Grows w) : t.Grows w := by
  intro place
  rcases huw place with hsame | ⟨hnone, hdirectory⟩
  · rw [GrowsAt, hsame]
    exact htu place
  · rcases htu place with hsame | ⟨-, hdirectory'⟩
    · exact .inr ⟨hsame ▸ hnone, hdirectory⟩
    · rw [hdirectory'] at hnone
      cases hnone

/-- What stands anywhere in the first tree stands there in the second as well. -/
def RemainsIn (t u : FileTree) : Prop :=
  ∀ place sub, t.at? place = some sub → ∃ sub', u.at? place = some sub' ∧ sub'.cover = sub.cover

theorem remainsIn_iff :
    t.RemainsIn u ↔ ∀ place c, t.coverAt? place = some c → u.coverAt? place = some c := by
  simp only [coverAt?, Option.map_eq_some_iff]
  constructor
  · rintro h place _ ⟨sub, hsub, rfl⟩
    exact h place sub hsub
  · intro h place sub hsub
    exact h place sub.cover ⟨sub, hsub, rfl⟩

theorem Grows.remainsIn (h : t.Grows u) : t.RemainsIn u := by
  rw [remainsIn_iff]
  intro place c hcover
  rcases h place with hsame | ⟨hnone, -⟩
  · exact hsame.trans hcover
  · rw [hnone] at hcover
    cases hcover

theorem RemainsIn.directory (h : t.RemainsIn u) (hplace : t.at? place = some (.directory entries)) :
    ∃ entries', u.at? place = some (.directory entries') := by
  obtain ⟨sub, hsub, hcover⟩ := h place _ hplace
  obtain ⟨entries', rfl⟩ := cover_eq_directory_iff.mp hcover
  exact ⟨entries', hsub⟩

theorem RemainsIn.lookup {entries' : List (String × FileTree)} (h : t.RemainsIn u)
    (hplace : t.at? place = some (.directory entries))
    (hplace' : u.at? place = some (.directory entries'))
    (hlookup : entries.lookup name = some sub) :
    ∃ sub', entries'.lookup name = some sub' ∧ sub'.cover = sub.cover := by
  rw [← at?_concat hplace] at hlookup
  rw [← at?_concat hplace']
  exact h _ _ hlookup

end FileTree

namespace Volume

variable {top top' t : FileTree} {follow : Bool} {links : Nat} {here real : Location}
variable {parts : List String}

/-- A path that leads somewhere leads there when what stands in the tree remains. -/
theorem resolveFrom_of_remainsIn (hremains : top.RemainsIn top')
    (hresolve : resolveFrom top follow links here parts = .ok (real, t)) :
    ∃ t', resolveFrom top' follow links here parts = .ok (real, t') ∧ t'.cover = t.cover := by
  fun_induction resolveFrom top follow links here parts with
  | case1 links here sub hhere =>
      obtain ⟨rfl, rfl⟩ := Prod.mk.inj (Except.ok.inj hresolve)
      obtain ⟨sub', hhere', hcover⟩ := hremains _ _ hhere
      refine ⟨sub', ?_, hcover⟩
      rw [resolveFrom, hhere']
  | case4 links here part rest entries hhere hskip ih =>
      obtain ⟨entries', hhere'⟩ := hremains.directory hhere
      rw [resolveFrom.eq_def]
      simpa [hhere', hskip] using ih hresolve
  | case5 links here part rest entries hhere hskip hup ih =>
      obtain ⟨entries', hhere'⟩ := hremains.directory hhere
      rw [resolveFrom.eq_def]
      simpa [hhere', hskip, hup] using ih hresolve
  | case7 links here part rest entries hhere hskip hup target hlookup hlast =>
      obtain ⟨rfl, rfl⟩ := Prod.mk.inj (Except.ok.inj hresolve)
      obtain ⟨entries', hhere'⟩ := hremains.directory hhere
      obtain ⟨sub, hlookup', hcover⟩ := hremains.lookup hhere hhere' hlookup
      obtain rfl : sub = .link target := FileTree.cover_eq_link_iff.mp hcover
      refine ⟨.link target, ?_, rfl⟩
      rw [resolveFrom.eq_def]
      simp [hhere', hskip, hup, hlookup', hlast]
  | case10 here part rest entries hhere hskip hup target hlookup hlast links hrelative ih =>
      obtain ⟨entries', hhere'⟩ := hremains.directory hhere
      obtain ⟨sub, hlookup', hcover⟩ := hremains.lookup hhere hhere' hlookup
      obtain rfl : sub = .link target := FileTree.cover_eq_link_iff.mp hcover
      rw [resolveFrom.eq_def]
      simpa [hhere', hskip, hup, hlookup', hlast, hrelative] using ih hresolve
  | case11 links here part rest entries hhere hskip hup other hother hlookup ih =>
      obtain ⟨entries', hhere'⟩ := hremains.directory hhere
      obtain ⟨sub, hlookup', hcover⟩ := hremains.lookup hhere hhere' hlookup
      rw [resolveFrom.eq_def]
      cases sub with
      | link target => exact absurd (FileTree.cover_eq_link_iff.mp hcover.symm) (hother target)
      | file bytes => simpa [hhere', hskip, hup, hlookup'] using ih hresolve
      | directory inside => simpa [hhere', hskip, hup, hlookup'] using ih hresolve
  | case2 | case3 | case6 | case8 | case9 | case12 => cases hresolve

end Volume
end RepoAudit
