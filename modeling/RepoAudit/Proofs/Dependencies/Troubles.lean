import RepoAudit.Dependencies.Analysis
import RepoAudit.Proofs.Repository.Troubles

/-!
# Troubles with manifests

A manifest that cannot be read, a package manifest that is not JSON and an incomplete block of a
Maven project are the troubles of a dependency analysis, and there are no others.
-/

namespace RepoAudit

namespace Manifest

/-- A dependency without one of its coordinates. -/
def Incomplete (block : Text) : Prop :=
  element? "groupId" block = none ∨ element? "artifactId" block = none

theorem mavenDependency?_eq_none_iff {block : Text} :
    mavenDependency? block = none ↔ Incomplete block := by
  rw [mavenDependency?, Incomplete]
  cases element? "groupId" block with
  | none => simp
  | some group => cases element? "artifactId" block <;> simp

theorem mem_pomProblems_iff {t : Text} {message : String} :
    message ∈ (parsePomXml t).2 ↔
      ∃ i block, (firstGroups dependencyBlock t)[i]? = some block ∧ Incomplete block ∧
        message = blockProblem (i + 1) := by
  simp only [parsePomXml, List.mem_filterMap, Prod.exists,
    List.mk_mem_zipIdx_iff_le_and_getElem?_sub, List.getElem?_map, Option.map_eq_some_iff]
  constructor
  · rintro ⟨d, number, ⟨hnumber, block, hblock, rfl⟩, hmessage⟩
    split at hmessage
    next hnone =>
      refine ⟨number - 1, block, hblock, ?_, ?_⟩
      · exact mavenDependency?_eq_none_iff.mp (Option.isNone_iff_eq_none.mp hnone)
      · rw [Nat.sub_add_cancel hnumber]
        exact (Option.some.inj hmessage).symm
    next => cases hmessage
  · rintro ⟨i, block, hblock, hbad, rfl⟩
    refine ⟨none, i + 1, ⟨by omega, block, hblock, ?_⟩, rfl⟩
    exact mavenDependency?_eq_none_iff.mpr hbad

end Manifest

namespace Dependencies

variable {v : Volume} {repo file : String} {w : Warning} {read : String → Gathered}

theorem mem_readManifest_warnings :
    w ∈ (readManifest v repo file read).2 ↔
      UnreadFile v "dependencies" (Path.join repo file) w ∨
        ∃ text, v.readText (Path.join repo file) = .ok text ∧ w ∈ (read text).2 :=
  mem_optional_warnings

/-- The manifests at the root that are looked for. -/
def manifestFiles : List String :=
  ["package.json", "requirements.txt", "setup.py", "go.mod", "pom.xml"]

/-- What a dependency analysis comes up against. -/
inductive Trouble (v : Volume) (repo : String) (w : Warning) : Prop
  | unread {file : String} (hfile : file ∈ manifestFiles)
      (h : UnreadFile v "dependencies" (Path.join repo file) w)
  | malformed (h : MalformedFile v "npm" (Path.join repo "package.json") w)
  | incomplete {text : String} {i : Nat} {block : Text}
      (hread : v.readText (Path.join repo "pom.xml") = .ok text)
      (hblock : (Manifest.firstGroups Manifest.dependencyBlock text.toList)[i]? = some block)
      (hbad : Manifest.Incomplete block)
      (hw : w = { source := "maven", path := some (Path.join repo "pom.xml")
                  message := Manifest.blockProblem (i + 1) })

theorem mem_readPackageJson_warnings :
    w ∈ (readPackageJson v repo).2 ↔
      UnreadFile v "dependencies" (Path.join repo "package.json") w ∨
        MalformedFile v "npm" (Path.join repo "package.json") w := by
  rw [readPackageJson, mem_readManifest_warnings]
  refine or_congr_right (exists_text_iff_malformedFile "npm" fun text => ?_)
  rw [Manifest.parsePackageJson]
  cases Json.ofText text.toList <;> simp [Except.map]

theorem mem_readPomXml_warnings :
    w ∈ (readPomXml v repo).2 ↔
      UnreadFile v "dependencies" (Path.join repo "pom.xml") w ∨
        ∃ text, v.readText (Path.join repo "pom.xml") = .ok text ∧
          ∃ i block, (Manifest.firstGroups Manifest.dependencyBlock text.toList)[i]? = some block ∧
            Manifest.Incomplete block ∧
            w = { source := "maven", path := some (Path.join repo "pom.xml")
                  message := Manifest.blockProblem (i + 1) } := by
  rw [readPomXml, mem_readManifest_warnings]
  refine or_congr_right (exists_congr fun text => and_congr_right fun _ => ?_)
  simp only [List.mem_map, Manifest.mem_pomProblems_iff]
  constructor
  · rintro ⟨_, ⟨i, block, hblock, hbad, rfl⟩, rfl⟩
    exact ⟨i, block, hblock, hbad, rfl⟩
  · rintro ⟨i, block, hblock, hbad, rfl⟩
    exact ⟨_, ⟨i, block, hblock, hbad, rfl⟩, rfl⟩

theorem mem_declared_warnings : w ∈ (declared v repo).2 ↔ Trouble v repo w := by
  simp only [declared, List.mem_append, mem_readPackageJson_warnings, mem_readPomXml_warnings,
    mem_readManifest_warnings, List.not_mem_nil, and_false, exists_false, or_false]
  constructor
  · rintro (((((h | h) | h) | h) | h) | h | ⟨text, hread, i, block, hblock, hbad, hw⟩)
    · exact .unread (by simp [manifestFiles]) h
    · exact .malformed h
    · exact .unread (by simp [manifestFiles]) h
    · exact .unread (by simp [manifestFiles]) h
    · exact .unread (by simp [manifestFiles]) h
    · exact .unread (by simp [manifestFiles]) h
    · exact .incomplete hread hblock hbad hw
  · intro h
    cases h with
    | unread hfile h =>
        simp only [manifestFiles, List.mem_cons, List.not_mem_nil, or_false] at hfile
        rcases hfile with rfl | rfl | rfl | rfl | rfl <;> simp [h]
    | malformed h => exact .inl (.inl (.inl (.inl (.inr h))))
    | incomplete hread hblock hbad hw =>
        exact .inr (.inr ⟨_, hread, _, _, hblock, hbad, hw⟩)

/-- A dependency analysis settles, with a warning for every trouble. -/
theorem settled (v : Volume) (registry : Registry) (repo : String) :
    SettledBy v repo (Trouble v repo) (analyze v registry repo) := by
  refine .of_ensure fun _ => ⟨_, rfl, fun w => ?_⟩
  exact mem_declared_warnings

end Dependencies
end RepoAudit
