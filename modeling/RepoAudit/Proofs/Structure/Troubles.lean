import RepoAudit.Proofs.Structure.Signs

/-!
# Troubles with a layout

Besides the sources, a look at the layout reads the manifests that tell frameworks and, when no file
of its own tells the setup, the first readme.
-/

namespace RepoAudit.Structure

variable {v : Volume} {repo file : String} {w : Warning} {walk : WalkSettings}

/-! ## The readme -/

/-- The first readme is there to be looked into and cannot be read. -/
def UnreadReadme (v : Volume) (scan : Scan) (w : Warning) : Prop :=
  (∀ e ∈ scan.entries, v.isDirectory (scan.pathOf e) = false → isSetupFile e = false) ∧
    ∃ e, (scan.entries.find? fun e => isReadme e && !v.isDirectory (scan.pathOf e)) = some e ∧
      UnreadFile v "structure" (scan.pathOf e) w

theorem mem_documentation_warnings {scan : Scan} :
    w ∈ (documentation v scan).2 ↔ UnreadReadme v scan w := by
  have hsetup : (scan.entries.foldl (fun d e => d.add (v.isDirectory (scan.pathOf e)) e)
      ({} : Documentation)).setupInstructions =
        scan.entries.any fun e => !v.isDirectory (scan.pathOf e) && isSetupFile e :=
    has_foldl_add _ scan.entries .setupInstructions
  rw [documentation, UnreadReadme]
  dsimp only
  rw [hsetup]
  cases hany : scan.entries.any fun e => !v.isDirectory (scan.pathOf e) && isSetupFile e with
  | true =>
      obtain ⟨e, he, htells⟩ := List.any_eq_true.mp hany
      rw [Bool.and_eq_true, Bool.not_eq_true'] at htells
      simp only [if_true, List.not_mem_nil, false_iff]
      rintro ⟨hnone, -⟩
      exact absurd (hnone e he htells.1) (by simp [htells.2])
  | false =>
      have hnone : ∀ e ∈ scan.entries, v.isDirectory (scan.pathOf e) = false →
          isSetupFile e = false := by
        intro e he hfile
        simpa [hfile] using List.any_eq_false.mp hany e he
      simp only [Bool.false_eq_true, if_false]
      rw [and_iff_right hnone]
      cases scan.entries.find? fun e => isReadme e && !v.isDirectory (scan.pathOf e) with
      | none => simp
      | some e =>
          refine mem_optional_warnings.trans ?_
          simp

/-! ## Manifests -/

/-- The manifests at the root that are looked into. -/
def toolingFiles : List String :=
  ["package.json", "requirements.txt", "setup.py", "pom.xml"]

theorem mem_lookInto_warnings {look : String → Found} :
    w ∈ (lookInto v repo file look).2 ↔
      UnreadFile v "structure" (Path.join repo file) w ∨
        ∃ text, v.readText (Path.join repo file) = .ok text ∧ w ∈ (look text).2 :=
  mem_optional_warnings

theorem mem_frameworks_warnings :
    w ∈ (frameworks v repo).2 ↔
      (∃ file ∈ toolingFiles, UnreadFile v "structure" (Path.join repo file) w) ∨
        MalformedFile v "structure" (Path.join repo "package.json") w := by
  simp only [frameworks, List.map_cons, List.map_nil, List.cons_append, List.nil_append,
    List.flatMap_cons, List.flatMap_nil, List.append_nil, List.mem_append, mem_lookInto_warnings,
    List.not_mem_nil, and_false, exists_false, or_false]
  rw [exists_text_iff_malformedFile "structure" fun text => by
    cases Json.ofText text.toList <;> simp]
  constructor
  · rintro ((h | h) | h | h | h)
    · exact .inl ⟨_, by simp [toolingFiles], h⟩
    · exact .inr h
    all_goals exact .inl ⟨_, by simp [toolingFiles], h⟩
  · rintro (⟨file, hfile, h⟩ | h)
    · simp only [toolingFiles, List.mem_cons, List.not_mem_nil, or_false] at hfile
      rcases hfile with rfl | rfl | rfl | rfl <;> simp [h]
    · exact .inl (.inr h)

/-! ## The analysis -/

/-- What a look at the layout comes up against. -/
inductive Trouble (v : Volume) (walk : WalkSettings) (repo : String) (w : Warning) : Prop
  | source (h : SourceTrouble v repo walk true "structure" (fun e => languageOf e != .unknown) w)
  | readme {plan : Walk.Plan} (hplan : Walk.Plan.ofSettings repo walk true = .ok plan)
      (h : UnreadReadme v (.ofEvents repo (plan.events v)) w)
  | unread {file : String} (hfile : file ∈ toolingFiles)
      (h : UnreadFile v "structure" (Path.join repo file) w)
  | malformed (h : MalformedFile v "structure" (Path.join repo "package.json") w)

/-- A look at the layout settles, with a warning for every trouble. -/
theorem settled {plan : Walk.Plan} (hplan : Walk.Plan.ofSettings repo walk true = .ok plan) :
    SettledBy v repo (Trouble v walk repo) (analyze v walk repo) := by
  refine .of_scan hplan ⟨_, rfl, fun w => ?_⟩
  change w ∈ (Scan.ofEvents repo (plan.events v)).warnings ++
      (readSources v "structure" (Scan.ofEvents repo (plan.events v))
        (((Scan.ofEvents repo (plan.events v)).files v).filter fun e =>
          languageOf e != .unknown)).2 ++
      (documentation v (Scan.ofEvents repo (plan.events v))).2 ++ (frameworks v repo).2 ↔ _
  rw [List.mem_append, List.mem_append, mem_scan_or_unread_iff hplan, mem_documentation_warnings,
    mem_frameworks_warnings]
  constructor
  · rintro ((h | h) | ⟨file, hfile, h⟩ | h)
    · exact .source h
    · exact .readme hplan h
    · exact .unread hfile h
    · exact .malformed h
  · intro h
    cases h with
    | source h => exact .inl (.inl h)
    | readme hplan' h =>
        obtain rfl := Except.ok.inj (hplan.symm.trans hplan')
        exact .inl (.inr h)
    | unread hfile h => exact .inr (.inl ⟨_, hfile, h⟩)
    | malformed h => exact .inr (.inr h)

end RepoAudit.Structure
