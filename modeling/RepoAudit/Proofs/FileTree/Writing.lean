import RepoAudit.FileTree.Write
import RepoAudit.Proofs.FileTree.Ancestors
import RepoAudit.Proofs.FileTree.Growth
import Mathlib

/-!
# Writing into a volume

Creating directories only adds directories.  A path that leads to a file is written to where that
file stands, and a file that has been written is found again under its path.
-/

namespace RepoAudit

namespace FileTree

variable {t : FileTree} {place : Location} {entries : List (String × FileTree)}

end FileTree

namespace Volume

variable {v w made : Volume} {path : String} {top top' t : FileTree} {links : Nat}
variable {here real target start : Location} {parts : List String} {name : String}
variable {entries : List (String × FileTree)}

/-! ## Where a file is written -/

/-- The second volume has only directories more than the first. -/
structure Grows (v w : Volume) : Prop where
  name : w.name = v.name
  working : w.working = v.working
  top : v.top.Grows w.top

theorem Grows.refl (v : Volume) : v.Grows v :=
  ⟨rfl, rfl, .refl v.top⟩

theorem Grows.trans (hvw : v.Grows w) (hmade : w.Grows made) : v.Grows made :=
  ⟨hmade.name.trans hvw.name, hmade.working.trans hvw.working, hvw.top.trans hmade.top⟩

theorem Grows.start? (h : v.Grows w) (path : String) : w.start? path = v.start? path := by
  rw [Volume.start?, Volume.start?, h.name, h.working]

/-- The place and the bytes of the file that a path leads to. -/
def fileAt? (v : Volume) (path : String) : Option (Location × ByteArray) :=
  match v.resolve path with
  | .ok (real, .file bytes) => some (real, bytes)
  | _ => none

theorem fileAt?_eq_some_iff {bytes : ByteArray} :
    v.fileAt? path = some (real, bytes) ↔ v.resolve path = .ok (real, .file bytes) := by
  unfold fileAt?
  split
  next heq => simp [heq]
  next hother =>
    simp only [reduceCtorEq, false_iff]
    exact hother real bytes

theorem Grows.fileAt? {found : Location × ByteArray} (h : v.Grows w)
    (hfile : v.fileAt? path = some found) : w.fileAt? path = some found := by
  obtain ⟨real, bytes⟩ := found
  rw [fileAt?_eq_some_iff, resolve] at hfile ⊢
  rw [h.start?]
  cases hstart : v.start? path with
  | none => simp [hstart] at hfile
  | some start =>
      obtain ⟨here, parts⟩ := start
      simp only [hstart] at hfile
      obtain ⟨t, hresolve, hcover⟩ := resolveFrom_of_remainsIn h.top.remainsIn hfile
      obtain rfl : t = .file bytes := FileTree.cover_eq_file_iff.mp hcover
      exact hresolve

end Volume
end RepoAudit
