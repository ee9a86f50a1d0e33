import RepoAudit.Failure
import RepoAudit.Payload.Basic
import RepoAudit.Proofs.FileTree.Lookup
import RepoAudit.Proofs.Json.Members
import Mathlib

/-!
# What a feed loads

A feed is a list that stands alone or under one of its names in an object.  The loader of issues and
the loader of pull requests look for the same names in the same order, `issues` first.
-/

namespace RepoAudit

namespace Json

variable {α : Type} {decode : Decoder α} {node : Node} {values others : List α} {j : Json}

/-- The node is an array, and the values are what its items decode to. -/
def Node.Lists (decode : Decoder α) : Node → List α → Prop
  | .array _ _ items _ _, values =>
      List.Forall₂ (fun item value => decode item = .ok value) items values
  | _, _ => False

/-- The node is an object with one member under the names, and the member lists the values. -/
def Node.HoldsList (names : List String) (decode : Decoder α) (node : Node) (values : List α) :
    Prop :=
  ∃ list, node.named names = [list] ∧ list.Lists decode values

/-! ## Lists -/

theorem Node.Lists.not_holdsList {names : List String} (h : node.Lists decode values) :
    ¬ node.HoldsList names decode others := by
  cases node with
  | array start deep items exits close => simp [Node.HoldsList, Node.named]
  | _ => exact h.elim

theorem Node.Lists.unique (h : node.Lists decode values) (h' : node.Lists decode others) :
    values = others := by
  cases node with
  | array start deep items exits close =>
      refine List.right_unique_forall₂' (fun item a b ha hb => ?_) h h'
      exact Except.ok.inj (ha.symm.trans hb)
  | _ => exact h.elim

theorem Node.HoldsList.unique {names : List String} (h : node.HoldsList names decode values)
    (h' : node.HoldsList names decode others) : values = others := by
  obtain ⟨list, hnamed, hlist⟩ := h
  obtain ⟨list', hnamed', hlist'⟩ := h'
  obtain rfl : list = list' := List.singleton_inj.mp (hnamed.symm.trans hnamed')
  exact hlist.unique hlist'

theorem decodeList_iff (hvalue : node.value = .ok j) :
    decodeList decode node = .ok values ↔ node.Lists decode values := by
  cases node with
  | array start deep items exits close =>
      obtain ⟨rfl, -, stop, rfl⟩ := Node.value_array hvalue
      have hitems : decodeItems decode items exits = .ok values ↔ _ := decodeItems_iff
      rw [Node.Lists, ← hitems]
      cases h : decodeItems decode items exits <;>
        simp [decodeList, h, bind, Except.bind, Except.mapError, discard, Functor.discard,
          Functor.mapConst, Except.map, pure, Except.pure]
  | _ => simp [decodeList, wrongType_ne_ok, Node.Lists]

theorem exists_value_of_mem_named {names : List String} {value : Node}
    (hvalue : node.value = .ok j) (hmem : value ∈ node.named names) :
    ∃ j, value.value = .ok j := by
  cases node with
  | object start deep members close =>
      obtain ⟨-, ⟨values, hvalues⟩, -⟩ := Node.value_object hvalue
      rw [Node.named] at hmem
      clear hvalue j
      induction members generalizing values with
      | nil => simp [valuesNamed] at hmem
      | cons first members ih =>
          obtain ⟨name, stand, member⟩ := first
          obtain ⟨⟨label, rfl⟩, hmember, rest, hrest⟩ := memberValues_cons hvalues
          rw [valuesNamed] at hmem
          split at hmem
          · rcases List.mem_cons.mp hmem with rfl | hmem
            · exact hmember
            · exact ih hmem rest hrest
          · exact ih hmem rest hrest
  | _ => simp [Node.named] at hmem

/-- The form of a feed in which the list stands under the names of a field. -/
theorem decodeObject_list_iff {f : FieldRule (List α)} (hvalue : node.value = .ok j)
    (hrequired : f.required = true)
    (hread : ∀ value before, f.read value before = decodeList decode value) :
    decodeObject [f] [] node = .ok values ↔ node.HoldsList f.names decode values := by
  rw [decodeObject_mandatory_iff hvalue hrequired]
  refine exists_congr fun list => and_congr_right fun hnamed => ?_
  obtain ⟨_, hlist⟩ := exists_value_of_mem_named hvalue (hnamed ▸ List.mem_singleton_self list)
  rw [hread, decodeList_iff hlist]

end Json

open Json

variable {α : Type} {decode : Decoder α} {node : Node} {values : List α} {j : Json}

/-- The names under which a list of issues may stand. -/
def issueListNames : List String :=
  ["issues"]

def pullListNames : List String :=
  "prs" :: pullListAliases

/-- What a feed finds in a value. -/
inductive Json.Node.Feeds (decode : Decoder α) (node : Node) (values : List α) : Prop
  | bare (h : node.Lists decode values)
  | underIssues (h : node.HoldsList issueListNames decode values)
  | underPulls (h : node.HoldsList pullListNames decode values)
      (hnone : ∀ others, ¬ node.HoldsList issueListNames decode others)

theorem fieldList_read (name : String) (aliases : List String) (value : Node) (before : List α) :
    (((field name (decodeList decode) fun v _ => v).mandatory).alsoCalled aliases).read value
      before = decodeList decode value := by
  cases h : decodeList decode value <;>
    simp [FieldRule.mandatory, FieldRule.alsoCalled, field, h, Except.map]

theorem exists_value_of_decodeFeed (h : decodeFeed decode node = .ok values) :
    ∃ j, node.value = .ok j := by
  rw [decodeFeed, decodeVariant] at h
  obtain ⟨_, hvalue, -⟩ := bind_eq_ok_iff.mp h
  obtain ⟨j, hvalue⟩ := discard_eq_ok_iff.mp hvalue
  exact ⟨j, mapError_eq_ok_iff.mp hvalue⟩

/-- A feed that is JSON throughout gives what it holds first. -/
theorem decodeFeed_iff (hvalue : node.value = .ok j) :
    decodeFeed decode node = .ok values ↔ node.Feeds decode values := by
  have hbare : ∀ values, decodeList decode node = .ok values ↔ node.Lists decode values :=
    fun _ => decodeList_iff hvalue
  have hissues : ∀ values,
      decodeObject [(field "issues" (decodeList decode) fun v _ => v).mandatory] [] node =
        .ok values ↔ node.HoldsList issueListNames decode values :=
    fun _ => decodeObject_list_iff hvalue rfl (fieldList_read "issues" [])
  have hpulls : ∀ values,
      decodeObject [((field "prs" (decodeList decode) fun v _ => v).mandatory).alsoCalled
          pullListAliases] [] node =
        .ok values ↔ node.HoldsList pullListNames decode values :=
    fun _ => decodeObject_list_iff hvalue rfl (fieldList_read "prs" pullListAliases)
  rw [decodeFeed, decodeVariant_iff hvalue, List.findSome?_cons]
  cases hlist : decodeList decode node with
  | ok listed =>
      have hlisted := (hbare listed).mp hlist
      refine ⟨fun h => .bare (Option.some.inj h ▸ hlisted), fun h => ?_⟩
      cases h with
      | bare h => rw [← hlist, (hbare values).mpr h, Except.toOption]
      | underIssues h => exact absurd h hlisted.not_holdsList
      | underPulls h _ => exact absurd h hlisted.not_holdsList
  | error e =>
      have hnotBare : ¬ node.Lists decode values := fun h => by
        simp [(hbare values).mpr h] at hlist
      rw [Except.toOption, List.findSome?_cons]
      cases hfirst : decodeObject [(field "issues" (decodeList decode) fun v _ => v).mandatory] []
          node with
      | ok listed =>
          have hlisted := (hissues listed).mp hfirst
          refine ⟨fun h => .underIssues (Option.some.inj h ▸ hlisted), fun h => ?_⟩
          cases h with
          | bare h => exact absurd h hnotBare
          | underIssues h => rw [← hfirst, (hissues values).mpr h, Except.toOption]
          | underPulls _ hnone => exact absurd hlisted (hnone listed)
      | error e =>
          have hnone : ∀ others, ¬ node.HoldsList issueListNames decode others := fun others h => by
            simp [(hissues others).mpr h] at hfirst
          rw [Except.toOption, List.findSome?_singleton, toOption_eq_some_iff, hpulls]
          refine ⟨fun h => .underPulls h hnone, fun h => ?_⟩
          cases h with
          | bare h => exact absurd h hnotBare
          | underIssues h => exact absurd h (hnone values)
          | underPulls h _ => exact h

/-- A file loads as a feed when its text is JSON and holds the list. -/
theorem loadPayload_feed_iff {v : Volume} {path s : String} (hread : v.readText path = .ok s) :
    loadPayload (decodeFeed decode) v path = .ok values ↔
      (∃ j, ofText s.toList = .ok j) ∧ (Document.ofText s.toList).root.Feeds decode values := by
  have hload : loadPayload (decodeFeed decode) v path = .ok values ↔
      decodeWhole (decodeFeed decode) s.toList = .ok values := by
    rw [loadPayload, hread]
    cases h : decodeWhole (decodeFeed decode) s.toList <;> simp [h]
  rw [hload, decodeWhole_eq_ok_iff]
  constructor
  · rintro ⟨hroot, hend⟩
    obtain ⟨j, hvalue⟩ := exists_value_of_decodeFeed hroot
    exact ⟨⟨j, ofText_eq_ok_iff.mpr ⟨hvalue, hend⟩⟩, (decodeFeed_iff hvalue).mp hroot⟩
  · rintro ⟨⟨j, hjson⟩, hfeeds⟩
    obtain ⟨hvalue, hend⟩ := ofText_eq_ok_iff.mp hjson
    exact ⟨(decodeFeed_iff hvalue).mpr hfeeds, hend⟩

/-- The issues of a payload are loaded whatever else it has, and so is a list that stands alone.
The pull requests of a payload are loaded when no other list under `issues` reads as pull requests;
otherwise that list is what the loader gives. -/
theorem feed_loads_own_list_iff {v : Volume} {path s : String} (hread : v.readText path = .ok s) :
    let root := (Document.ofText s.toList).root
    let isJson := ∃ j, ofText s.toList = .ok j
    (∀ issues, root.Lists Issue.decode issues ∨
        root.HoldsList issueListNames Issue.decode issues →
      (loadPayload (decodeFeed Issue.decode) v path = .ok issues ↔ isJson)) ∧
    (∀ pulls, root.Lists PullRequest.decode pulls →
      (loadPayload (decodeFeed PullRequest.decode) v path = .ok pulls ↔ isJson)) ∧
    (∀ pulls, root.HoldsList pullListNames PullRequest.decode pulls →
      (loadPayload (decodeFeed PullRequest.decode) v path = .ok pulls ↔
        isJson ∧ ∀ others, root.HoldsList issueListNames PullRequest.decode others →
          others = pulls)) ∧
    (∀ others, root.HoldsList issueListNames PullRequest.decode others → isJson →
      loadPayload (decodeFeed PullRequest.decode) v path = .ok others) := by
  intro root isJson
  refine ⟨fun issues h => ?_, fun pulls h => ?_, fun pulls h => ?_, fun others h hjson => ?_⟩
  · rw [loadPayload_feed_iff hread]
    exact and_iff_left (h.elim .bare .underIssues)
  · rw [loadPayload_feed_iff hread]
    exact and_iff_left (.bare h)
  · rw [loadPayload_feed_iff hread]
    refine and_congr_right fun _ => ⟨fun hfeeds others hothers => ?_, fun hsame => ?_⟩
    · cases hfeeds with
      | bare hlists => exact absurd h hlists.not_holdsList
      | underIssues hissues => exact hothers.unique hissues
      | underPulls _ hnone => exact absurd hothers (hnone others)
    · by_cases hissues : ∃ others, root.HoldsList issueListNames PullRequest.decode others
      · obtain ⟨others, hothers⟩ := hissues
        exact .underIssues (hsame others hothers ▸ hothers)
      · exact .underPulls h (not_exists.mp hissues)
  · exact (loadPayload_feed_iff hread).mpr ⟨hjson, .underIssues h⟩

/-! ## An export with both lists -/

def combinedExport : String :=
  "\x7b\"issues\":[\x7b\"number\":1\x7d],\"prs\":[\x7b\"number\":2\x7d]\x7d"

def exported : Volume :=
  { name := "/w", top := .directory [("export.json", .file combinedExport.toUTF8)] }

theorem exported_readText : exported.readText "/w/export.json" = .ok combinedExport := by
  have hstart : exported.start? "/w/export.json" = some ([], ["export.json"]) := by decide +kernel
  refine Volume.readText_of_at? hstart (by simp [NamesEntry]) ?_
  simp [exported, FileTree.at?, FileTree.child?]

theorem combinedExport_isJson : ∃ j, ofText combinedExport.toList = .ok j :=
  ⟨.obj [("issues", .arr [.obj [("number", .int 1)]]), ("prs", .arr [.obj [("number", .int 2)]])],
    by cbv⟩

theorem combinedExport_issues :
    (Document.ofText combinedExport.toList).root.named issueListNames =
      [.array 10 false [.object 11 false [(.ok "number", 20, .int 1 22)] (.ok 23)] [⟨24, none⟩]
        (.ok 24)] := by
  cbv

theorem combinedExport_pulls :
    (Document.ofText combinedExport.toList).root.named pullListNames =
      [.array 31 false [.object 32 false [(.ok "number", 41, .int 2 43)] (.ok 44)] [⟨45, none⟩]
        (.ok 45)] := by
  cbv

theorem exported_loads :
    loadPayload (decodeFeed Issue.decode) exported "/w/export.json" = .ok [{ number := 1 }] ∧
      loadPayload (decodeFeed PullRequest.decode) exported "/w/export.json" =
        .ok [{ number := 1 }] := by
  obtain ⟨hissues, -, -, hothers⟩ := feed_loads_own_list_iff exported_readText
  have hlist := combinedExport_issues
  constructor
  · exact (hissues _ (.inr ⟨_, hlist, .cons rfl .nil⟩)).mpr combinedExport_isJson
  · exact hothers _ ⟨_, hlist, .cons rfl .nil⟩ combinedExport_isJson

/-- A payload with both lists has its issues loaded as pull requests. -/
theorem combined_export_hides_pulls :
    ¬ ∀ (v : Volume) (path s : String) (pulls : List PullRequest), v.readText path = .ok s →
      (∃ j, ofText s.toList = .ok j) →
      (Document.ofText s.toList).root.HoldsList pullListNames PullRequest.decode pulls →
      loadPayload (decodeFeed PullRequest.decode) v path = .ok pulls := by
  intro h
  have hpulls := h exported "/w/export.json" combinedExport [{ number := 2 }] exported_readText
    combinedExport_isJson ⟨_, combinedExport_pulls, .cons rfl .nil⟩
  have hissues : loadPayload (decodeFeed PullRequest.decode) exported "/w/export.json" =
      .ok [{ number := 1 }] :=
    (loadPayload_feed_iff exported_readText).mpr
      ⟨combinedExport_isJson, .underIssues ⟨_, combinedExport_issues, .cons rfl .nil⟩⟩
  have heq := Except.ok.inj (hissues.symm.trans hpulls)
  exact absurd (congrArg (List.map PullRequest.number) heq) (by decide)

end RepoAudit
