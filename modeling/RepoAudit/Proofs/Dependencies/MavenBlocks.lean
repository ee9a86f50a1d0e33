import RepoAudit.Dependencies.Manifest
import RepoAudit.Proofs.Pattern.Delimited
import RepoAudit.Proofs.Text.Words

/-!
# The dependency blocks of a Maven project

A project has dependency blocks with any text between them, and a block has elements with any text
between them.  As long as no such text looks like one of the tags, the blocks that are found are
those that were written, and each is either a dependency or a problem with its number.
-/

namespace RepoAudit.Manifest

open Pattern

/-! ## Tags -/

def tag (name : Text) : Text :=
  '<' :: (name ++ ['>'])

structure IsTagName (name : Text) : Prop where
  unopened : '<' ∉ name
  unclosed : '>' ∉ name

variable {m n t before rest : Text}

/-- A tag ends at its only closing bracket, so one of them leads another only if they are the same. -/
theorem eq_of_tag_leads (hm : IsTagName m) (hn : IsTagName n) (h : tag m <+: tag n ++ rest) :
    m = n := by
  obtain ⟨after, hafter⟩ := h
  unfold tag at hafter
  simp only [List.cons_append, List.append_assoc, List.cons.injEq, true_and] at hafter
  have hplain : ∀ {name : Text}, '>' ∉ name → ∀ c ∈ name, (c != '>') = true := by
    intro name hname c hc
    rw [bne_iff_ne]
    rintro rfl
    exact hname hc
  have hend : ∀ {more : Text}, ∀ c ∈ ('>' :: more).head?, (c != '>') = false := by
    rintro more c ⟨⟩
    rfl
  exact (Text.append_unique (hplain hm.unclosed) (hplain hn.unclosed) hend hend hafter).1

theorem passes_tag (hm : IsTagName m) (hn : IsTagName n) (hne : m ≠ n) (rest : Text) :
    Text.Passes (tag m) (tag n) rest := by
  have hbody : '<' ∉ n ++ ['>'] := List.not_mem_append hn.unopened (by decide)
  apply Text.Passes.cons_iff.mpr
  exact ⟨fun h => hne (eq_of_tag_leads hm hn h), .of_not_mem hbody⟩

/-- A tag that begins in a text and ends behind it would have an opening bracket inside. -/
theorem passes_plain (hm : IsTagName m) (ht : ¬ tag m <:+: t) (hrest : ∀ c ∈ rest.head?, c = '<') :
    Text.Passes (tag m) t rest := by
  apply Text.Passes.of_not_infix ht
  rintro tail beyond - htail hbeyond ⟨after, hafter⟩ hmark
  obtain ⟨c, tail, rfl⟩ := List.exists_cons_of_ne_nil htail
  obtain ⟨d, beyond, rfl⟩ := List.exists_cons_of_ne_nil hbeyond
  obtain rfl : d = '<' := hrest d (by rw [← hafter]; rfl)
  have hbody : '<' ∉ m ++ ['>'] := List.not_mem_append hm.unopened (by decide)
  apply hbody
  rw [(List.cons.inj hmark).2]
  simp

/-! ## Blocks -/

inductive BlockField where
  | groupId
  | artifactId
  | version
  | scope
  deriving DecidableEq

def BlockField.name : BlockField → String
  | groupId => "groupId"
  | artifactId => "artifactId"
  | version => "version"
  | scope => "scope"

structure BlockElement where
  field : BlockField
  value : Text
  unopened : '<' ∉ value

def BlockElement.text (e : BlockElement) : Text :=
  tag e.field.name.toList ++ (e.value ++ tag ('/' :: e.field.name.toList))

/-- Text in which no element begins and no block ends. -/
structure IsFiller (t : Text) : Prop where
  no_element : ∀ f : BlockField, ¬ tag f.name.toList <:+: t
  no_end : ¬ "</dependency>".toList <:+: t

/-- Elements with other text before, between and behind them. -/
structure DependencyBlock where
  lead : Text
  parts : List (BlockElement × Text)
  isFiller_lead : IsFiller lead
  isFiller_parts : ∀ part ∈ parts, IsFiller part.2

namespace DependencyBlock

def partsText (parts : List (BlockElement × Text)) : Text :=
  parts.flatMap fun (e, filler) => e.text ++ filler

def inside (b : DependencyBlock) : Text :=
  b.lead ++ partsText b.parts

def text (b : DependencyBlock) : Text :=
  "<dependency>".toList ++ (b.inside ++ "</dependency>".toList)

/-- The trimmed value of the first element of a field. -/
def firstValue? (f : BlockField) (parts : List (BlockElement × Text)) : Option Text :=
  (parts.find? fun (e, _) => e.field = f).map fun (e, _) => e.value.trim

/-- What a block with both coordinates declares. -/
def dependency? (b : DependencyBlock) : Option Dependency := do
  let group ← firstValue? .groupId b.parts
  let artifact ← firstValue? .artifactId b.parts
  return {
    name := String.ofList (group ++ ':' :: artifact)
    version := ((firstValue? .version b.parts).map String.ofList).getD "*"
    ecosystem := .maven
    scope := if firstValue? .scope b.parts = some "test".toList then .development else .runtime }

end DependencyBlock

open DependencyBlock

theorem BlockField.isTagName_name (f : BlockField) : IsTagName f.name.toList := by
  cases f <;> exact ⟨by decide, by decide⟩

theorem BlockField.name_injective : Function.Injective BlockField.name := by
  intro f g h
  revert h
  cases f <;> cases g <;> decide

theorem IsTagName.closing (hn : IsTagName n) : IsTagName ('/' :: n) :=
  ⟨List.not_mem_cons_of_ne_of_not_mem (by decide) hn.unopened,
    List.not_mem_cons_of_ne_of_not_mem (by decide) hn.unclosed⟩

theorem passes_element (hm : IsTagName m) {e : BlockElement} (hopening : m ≠ e.field.name.toList)
    (hclosing : m ≠ '/' :: e.field.name.toList) (rest : Text) : Text.Passes (tag m) e.text rest := by
  have hname := e.field.isTagName_name
  unfold BlockElement.text
  apply Text.Passes.append
  · exact passes_tag hm hname hopening _
  apply Text.Passes.append
  · exact .of_not_mem e.unopened
  · exact passes_tag hm hname.closing hclosing rest

/-! ## The elements of a block -/

theorem element?_eq (name : String) (t : Text) :
    element? name t =
      (Text.cutAt? (tag name.toList) t).bind fun cut =>
        (Text.cutAt? (tag ('/' :: name.toList)) cut.2).map fun inner => inner.1.trim := by
  have hopening : ("<" ++ name ++ ">").toList = tag name.toList := by
    simp [tag]
  have hclosing : ("</" ++ name ++ ">").toList = tag ('/' :: name.toList) := by
    simp [tag]
  unfold element?
  rw [hopening, hclosing]
  cases Text.cutAt? (tag name.toList) t with
  | none => rfl
  | some cut =>
      obtain ⟨lead, after⟩ := cut
      rw [Option.bind_some]
      change (Text.cutAt? (tag ('/' :: name.toList)) after >>= fun inner => pure inner.1.trim) = _
      cases Text.cutAt? (tag ('/' :: name.toList)) after <;> rfl

theorem element?_append {name : String} (h : Text.Passes (tag name.toList) t rest) :
    element? name (t ++ rest) = element? name rest := by
  rw [element?_eq, element?_eq, h.cutAt?_append, Option.bind_map]
  rfl

theorem element?_nil (name : String) : element? name [] = none := by
  rw [element?_eq, Text.cutAt?_nil (by simp [tag])]
  rfl

theorem element?_element (e : BlockElement) (rest : Text) :
    element? e.field.name (e.text ++ rest) = some e.value.trim := by
  have hvalue : Text.Passes (tag ('/' :: e.field.name.toList)) e.value
      (tag ('/' :: e.field.name.toList) ++ rest) := .of_not_mem e.unopened
  unfold BlockElement.text
  rw [element?_eq, List.append_assoc, Text.cutAt?_mark_append, Option.bind_some,
    List.append_assoc, hvalue.cutAt?_append, Text.cutAt?_mark_append]
  simp

variable {parts : List (BlockElement × Text)}

theorem partsText_cons (e : BlockElement) (filler : Text) (parts : List (BlockElement × Text)) :
    partsText ((e, filler) :: parts) = e.text ++ (filler ++ partsText parts) := by
  unfold partsText
  rw [List.flatMap_cons, List.append_assoc]

theorem head?_partsText_append (parts : List (BlockElement × Text))
    (hrest : ∀ c ∈ rest.head?, c = '<') : ∀ c ∈ (partsText parts ++ rest).head?, c = '<' := by
  cases parts with
  | nil => exact hrest
  | cons part parts =>
      rw [partsText_cons]
      rintro c ⟨⟩
      rfl

theorem head?_partsText (parts : List (BlockElement × Text)) :
    ∀ c ∈ (partsText parts).head?, c = '<' := by
  have hhead : ∀ c ∈ (partsText parts ++ []).head?, c = '<' := head?_partsText_append parts (by simp)
  rwa [List.append_nil] at hhead

theorem element?_partsText (hparts : ∀ part ∈ parts, IsFiller part.2) (f : BlockField) :
    element? f.name (partsText parts) = firstValue? f parts := by
  induction parts with
  | nil => exact element?_nil f.name
  | cons part parts ih =>
      obtain ⟨e, filler⟩ := part
      rw [List.forall_mem_cons] at hparts
      have hplain : Text.Passes (tag f.name.toList) filler (partsText parts) :=
        passes_plain f.isTagName_name (hparts.1.no_element f) (head?_partsText parts)
      rw [partsText_cons]
      by_cases hf : e.field = f
      · subst hf
        rw [element?_element]
        simp [firstValue?]
      · have hopening : f.name.toList ≠ e.field.name.toList := fun h =>
          hf (BlockField.name_injective (String.toList_inj.mp h)).symm
        have hclosing : f.name.toList ≠ '/' :: e.field.name.toList := by
          cases f <;> exact fun h => absurd (List.cons.inj h).1 (by decide)
        rw [element?_append (passes_element f.isTagName_name hopening hclosing _),
          element?_append hplain, ih hparts.2]
        simp [firstValue?, hf]

theorem element?_inside (b : DependencyBlock) (f : BlockField) :
    element? f.name b.inside = firstValue? f b.parts := by
  have hlead : Text.Passes (tag f.name.toList) b.lead (partsText b.parts) :=
    passes_plain f.isTagName_name (b.isFiller_lead.no_element f) (head?_partsText b.parts)
  unfold inside
  rw [element?_append hlead, element?_partsText b.isFiller_parts]

theorem mavenDependency?_inside (b : DependencyBlock) :
    mavenDependency? b.inside = b.dependency? := by
  have hgroup := element?_inside b .groupId
  have hartifact := element?_inside b .artifactId
  have hversion := element?_inside b .version
  have hscope := element?_inside b .scope
  simp only [BlockField.name] at hgroup hartifact hversion hscope
  unfold mavenDependency? dependency?
  simp only [hgroup, hartifact, hversion, hscope, beq_iff_eq]

/-! ## Where a block ends -/

theorem isTagName_blockEnd : IsTagName "/dependency".toList :=
  ⟨by decide, by decide⟩

theorem blockEnd_eq : "</dependency>".toList = tag "/dependency".toList := by
  rfl

theorem blockStart_eq : "<dependency>".toList = tag "dependency".toList := by
  rfl

theorem passes_partsText (hparts : ∀ part ∈ parts, IsFiller part.2)
    (hrest : ∀ c ∈ rest.head?, c = '<') :
    Text.Passes "</dependency>".toList (partsText parts) rest := by
  rw [blockEnd_eq]
  induction parts with
  | nil => exact .nil _ _
  | cons part parts ih =>
      obtain ⟨e, filler⟩ := part
      rw [List.forall_mem_cons] at hparts
      have hopening : "/dependency".toList ≠ e.field.name.toList := by
        cases e.field <;> decide
      have hclosing : "/dependency".toList ≠ '/' :: e.field.name.toList := by
        cases e.field <;> decide
      rw [partsText_cons]
      apply Text.Passes.append
      · exact passes_element isTagName_blockEnd hopening hclosing _
      apply Text.Passes.append
      · exact passes_plain isTagName_blockEnd hparts.1.no_end (head?_partsText_append parts hrest)
      · exact ih hparts.2

theorem passes_inside (b : DependencyBlock) (hrest : ∀ c ∈ rest.head?, c = '<') :
    Text.Passes "</dependency>".toList b.inside rest := by
  unfold inside
  apply Text.Passes.append
  · rw [blockEnd_eq]
    exact passes_plain isTagName_blockEnd b.isFiller_lead.no_end (head?_partsText_append b.parts hrest)
  · exact passes_partsText b.isFiller_parts hrest

/-! ## Projects -/

/-- Blocks with other text before, between and behind them. -/
structure MavenProject where
  lead : Text
  parts : List (DependencyBlock × Text)
  plain_lead : ¬ "<dependency>".toList <:+: lead
  plain_parts : ∀ part ∈ parts, ¬ "<dependency>".toList <:+: part.2

namespace MavenProject

def partsText (parts : List (DependencyBlock × Text)) : Text :=
  parts.flatMap fun (b, after) => b.text ++ after

def text (p : MavenProject) : Text :=
  p.lead ++ partsText p.parts

def blocks (p : MavenProject) : List DependencyBlock :=
  p.parts.map Prod.fst

end MavenProject

theorem passes_between {t : Text} (ht : ¬ "<dependency>".toList <:+: t)
    (parts : List (DependencyBlock × Text)) :
    Text.Passes "<dependency>".toList t (MavenProject.partsText parts) := by
  have hhead : ∀ c ∈ (MavenProject.partsText parts).head?, c = '<' := by
    cases parts with
    | nil => simp [MavenProject.partsText]
    | cons part parts =>
        rintro c ⟨⟩
        rfl
  rw [blockStart_eq]
  exact passes_plain ⟨by decide, by decide⟩ ht hhead

theorem betweenMarks_block (b : DependencyBlock) :
    betweenMarks "<dependency>" "</dependency>" before (b.text ++ rest) =
      b.inside :: betweenMarks "<dependency>" "</dependency>" (b.text.reverse ++ before) rest := by
  have hpasses : Text.Passes "</dependency>".toList b.inside ("</dependency>".toList ++ rest) :=
    passes_inside b (by rintro c ⟨⟩; rfl)
  have hread := betweenMarks_inside before (show "<dependency>".toList ≠ [] by decide) hpasses
  unfold text
  rw [List.append_assoc, List.append_assoc]
  exact hread

theorem betweenMarks_parts {parts : List (DependencyBlock × Text)}
    (hparts : ∀ part ∈ parts, ¬ "<dependency>".toList <:+: part.2) :
    betweenMarks "<dependency>" "</dependency>" before (MavenProject.partsText parts) =
      (parts.map Prod.fst).map inside := by
  induction parts generalizing before with
  | nil => exact betweenMarks_nil (by decide) before
  | cons part parts ih =>
      obtain ⟨b, after⟩ := part
      rw [List.forall_mem_cons] at hparts
      have hsplit : MavenProject.partsText ((b, after) :: parts) =
          b.text ++ (after ++ MavenProject.partsText parts) := by
        unfold MavenProject.partsText
        rw [List.flatMap_cons, List.append_assoc]
      rw [hsplit, betweenMarks_block, betweenMarks_passed _ _ (passes_between hparts.1 parts),
        ih hparts.2]
      rfl

theorem firstGroups_text (p : MavenProject) :
    firstGroups dependencyBlock p.text = p.blocks.map inside := by
  have hread := betweenMarks_passed "</dependency>" [] (passes_between p.plain_lead p.parts)
  rw [betweenMarks_parts p.plain_parts] at hread
  exact hread

theorem length_filterMap_add {α : Type} (read : List (Option α)) (problem : Nat → String)
    (start : Nat) :
    (read.filterMap id).length +
        ((read.zipIdx start).filterMap fun (d, number) =>
          if d.isNone then some (problem number) else none).length =
      read.length := by
  induction read generalizing start with
  | nil => rfl
  | cons d read ih =>
      have hrest := ih (start + 1)
      cases d with
      | none =>
          simp only [List.zipIdx_cons, List.filterMap_cons, id_eq, Option.isNone_none, if_true,
            List.length_cons] at hrest ⊢
          omega
      | some d =>
          simp only [List.zipIdx_cons, List.filterMap_cons, id_eq, Option.isNone_some,
            Bool.false_eq_true, if_false, List.length_cons] at hrest ⊢
          omega

/-- Every block is either a dependency or a problem that names its place among the blocks. -/
theorem parsePomXml_text (p : MavenProject) :
    parsePomXml p.text =
        (p.blocks.filterMap dependency?, (p.blocks.zipIdx 1).filterMap fun (b, number) =>
          if b.dependency?.isNone then some (blockProblem number) else none) ∧
      (parsePomXml p.text).1.length + (parsePomXml p.text).2.length = p.blocks.length := by
  have hread : (firstGroups dependencyBlock p.text).map mavenDependency? =
      p.blocks.map dependency? := by
    rw [firstGroups_text, List.map_map]
    exact List.map_congr_left fun b _ => mavenDependency?_inside b
  unfold parsePomXml
  rw [hread]
  constructor
  · simp only [List.filterMap_map, List.zipIdx_map]
    rfl
  · rw [length_filterMap_add, List.length_map]

theorem isFiller_of_not_mem {t : Text} (ht : '<' ∉ t) : IsFiller t := by
  have hopening : ∀ name, ¬ tag name <:+: t := fun name h => ht (h.subset (List.mem_cons_self ..))
  exact ⟨fun f => hopening f.name.toList, blockEnd_eq ▸ hopening _⟩

/-- A block without an artifact and one whose elements stand in another order than usual. -/
def junitOnly : MavenProject where
  lead := "<project>".toList
  parts := [
    ({ lead := []
       parts := [(⟨.groupId, "org.a".toList, by decide⟩, [])]
       isFiller_lead := isFiller_of_not_mem (by decide)
       isFiller_parts := by
        rw [List.forall_mem_singleton]
        exact isFiller_of_not_mem (by decide) }, " <!-- </dependency> -->".toList),
    ({ lead := "\n".toList
       parts := [(⟨.scope, " test ".toList, by decide⟩, []),
        (⟨.artifactId, "junit".toList, by decide⟩, " ".toList),
        (⟨.groupId, "junit".toList, by decide⟩, [])]
       isFiller_lead := isFiller_of_not_mem (by decide)
       isFiller_parts := by
        simp only [List.forall_mem_cons]
        exact ⟨isFiller_of_not_mem (by decide), isFiller_of_not_mem (by decide),
          isFiller_of_not_mem (by decide), by simp⟩ }, "</project>".toList)]
  plain_lead := by decide
  plain_parts := by decide

theorem junitOnly_read :
    parsePomXml junitOnly.text =
      ([{ name := "junit:junit", version := "*", ecosystem := .maven, scope := .development }],
        ["<dependency> #1 without groupId or artifactId skipped"]) :=
  (parsePomXml_text junitOnly).1.trans rfl

end RepoAudit.Manifest
