import RepoAudit.Proofs.Json.RoundTrip
import RepoAudit.Proofs.Payload.Feeds
import Mathlib

/-!
# Payloads come through a text

What is written of a payload is loaded as the payload.  A payload that was loaded from a text of
integers is written in such a text itself, unless it has a coverage value.
-/

namespace RepoAudit

open Json

/-! ## Payloads are loaded from what is written of them -/

section

variable {α : Type} {fields : List (FieldRule α)} {members : List (String × Json)} {a b : α}
  {name : String}

theorem reads_optionalText (s : Option String) :
    Reads (decodeOption decodeText) (.ofOption .str) s :=
  reads_option fun s _ => ⟨nofun, reads_text s⟩

theorem Json.Fills.text {put : String → α → α} {s : String} (h : Fills fields members (put s a) b) :
    Fills (textField name put :: fields) ((name, .str s) :: members) a b :=
  .field (reads_text s) h

theorem Json.Fills.nat {put : Nat → α → α} {n : Nat} (h : Fills fields members (put n a) b) :
    Fills (natField name put :: fields) ((name, .nat n) :: members) a b :=
  .field (reads_nat n) h

theorem Json.Fills.optionalText {put : Option String → α → α} {s : Option String}
    (h : Fills fields members (put s a) b) :
    Fills (Json.field name (decodeOption decodeText) put :: fields)
      ((name, .ofOption .str s) :: members) a b :=
  .field (reads_optionalText s) h

end

theorem User.reads (u : User) : Reads User.decode User.toJson u := by
  refine reads_record (by decide) ?_ rfl
  exact .mandatory <| .text <| .nil u

theorem reads_user (u : Option User) :
    Reads (decodeOption User.decode) (.ofOption User.toJson) u :=
  reads_option fun u _ => ⟨nofun, u.reads⟩

theorem Label.reads (l : Label) : Reads Label.decode Label.toJson l := by
  intro node h
  obtain ⟨j, hvalue, -⟩ := hasValue l.toJson h
  rw [Label.decode, decodeVariant_iff hvalue, List.findSome?_cons]
  obtain ⟨asObject, name⟩ := l
  cases asObject with
  | true =>
      have hobject : Reads (decodeObject [(textField "name" fun v _ => ⟨true, v⟩).mandatory]
          ⟨true, ""⟩) Label.toJson ⟨true, name⟩ := by
        refine reads_object (by decide) ?_ rfl
        exact .mandatory <| .text <| .nil _
      rw [hobject h]
      rfl
  | false =>
      obtain ⟨stop, rfl⟩ := Spells.str h
      rfl

theorem ChangedFile.reads (f : ChangedFile) : Reads ChangedFile.decode ChangedFile.toJson f := by
  refine reads_record (by decide) ?_ rfl
  exact .mandatory <| .text <| .text <| .nat <| .nat <| .nat <| .optionalText <| .nil f

theorem PullRequest.reads (p : PullRequest) : Reads PullRequest.decode PullRequest.toJson p := by
  refine reads_record (by decide) ?_ rfl
  have hfiles := reads_list fun f (_ : f ∈ p.files) => f.reads
  have hcoverage : Reads (decodeOption decodeFloat) (.ofOption .float) p.coverage :=
    reads_option fun _ _ => ⟨nofun, fun node h => by cases node <;> exact h.elim⟩
  exact .nat <| .text <| .text <| .field (reads_user _) <| .optionalText <| .optionalText <|
    .optionalText <| .nat <| .nat <| .nat <| .field hfiles <| .field hcoverage <| .nil p

theorem Signature.reads (s : Signature) : Reads Signature.decode Signature.toJson s := by
  refine reads_record (by decide) ?_ rfl
  exact .text <| .text <| .optionalText <| .nil s

theorem CommitDetail.reads (d : CommitDetail) :
    Reads CommitDetail.decode CommitDetail.toJson d := by
  refine reads_record (by decide) ?_ rfl
  exact .field (reads_option fun s _ => ⟨nofun, s.reads⟩) <| .text <| .nil d

theorem CommitStats.reads (s : CommitStats) : Reads CommitStats.decode CommitStats.toJson s := by
  refine reads_record (by decide) ?_ rfl
  exact .nat <| .nat <| .nil s

theorem Commit.reads (c : Commit) : Reads Commit.decode Commit.toJson c := by
  refine reads_record (by decide) ?_ rfl
  exact .text <| .field (reads_user _) <| .field c.detail.reads <|
    .field (reads_option fun s _ => ⟨nofun, s.reads⟩) <| .nil c

theorem Review.reads (r : Review) : Reads Review.decode Review.toJson r := by
  refine reads_record (by decide) ?_ rfl
  exact .field (reads_user _) <| .text <| .optionalText <| .nil r

/-- The value an issue carries along can be read as it is written. -/
def Issue.Carries (i : Issue) : Prop :=
  ∀ j ∈ i.pullRequest, j ≠ .null ∧ Sorted j

theorem Issue.reads {i : Issue} (h : i.Carries) : Reads Issue.decode Issue.toJson i := by
  refine reads_record (by decide) ?_ rfl
  have hlabels := reads_list fun l (_ : l ∈ i.labels) => l.reads
  have hvalue : Reads (decodeOption decodeValue) (.ofOption id) i.pullRequest :=
    reads_option fun j hj => ⟨(h j hj).1, reads_value (h j hj).2⟩
  exact .nat <| .text <| .text <| .field (reads_user _) <| .field hlabels <| .optionalText <|
    .optionalText <| .optionalText <| .field hvalue <| .nil i

theorem Activity.reads {a : Activity} (h : ∀ i ∈ a.issues, i.Carries) :
    Reads Activity.decode Activity.toJson a := by
  refine reads_record (by decide) ?_ rfl
  have hcommits := reads_list fun c (_ : c ∈ a.commits) => c.reads
  have hpulls := reads_list fun p (_ : p ∈ a.pulls) => p.reads
  have hreviews := reads_list fun r (_ : r ∈ a.reviews) => r.reads
  have hissues := reads_list fun i hi => Issue.reads (h i hi)
  exact .field hcommits <| .alsoCalled <| .field hpulls <| .field hreviews <| .field hissues <|
    .nil a

theorem reads_feed {α : Type} {decode : Decoder α} {encode : α → Json} {values : List α}
    (h : ∀ a ∈ values, Reads decode encode a) :
    Reads (decodeFeed decode) (.list encode) values := by
  intro node hspells
  obtain ⟨j, hvalue, -⟩ := hasValue _ hspells
  rw [decodeFeed, decodeVariant_iff hvalue, List.findSome?_cons, reads_list h hspells]
  rfl

/-! ## What loaded payloads have

Decoders give counts below `2 ^ 64` and keep them there field by field, in the order of the fields. -/

structure ChangedFile.Sized (f : ChangedFile) : Prop where
  additions : f.additions < 2 ^ 64
  deletions : f.deletions < 2 ^ 64
  changes : f.changes < 2 ^ 64

structure PullRequest.Sized (p : PullRequest) : Prop where
  number : p.number < 2 ^ 64
  additions : p.additions < 2 ^ 64
  deletions : p.deletions < 2 ^ 64
  changedFiles : p.changedFiles < 2 ^ 64
  files : ∀ f ∈ p.files, f.Sized

structure CommitStats.Sized (s : CommitStats) : Prop where
  additions : s.additions < 2 ^ 64
  deletions : s.deletions < 2 ^ 64

def Commit.Sized (c : Commit) : Prop :=
  ∀ s ∈ c.stats, s.Sized

/-- The value an issue carries along stands as deep as its other members. -/
structure Issue.Sized (depth : Nat) (i : Issue) : Prop where
  number : i.number < 2 ^ 64
  pullRequest : ∀ j ∈ i.pullRequest, j ≠ .null ∧ Plain depth j ∧ Sorted j

/-- An issue stands in two other values, its members in three. -/
structure Activity.Sized (a : Activity) : Prop where
  commits : ∀ c ∈ a.commits, c.Sized
  pulls : ∀ p ∈ a.pulls, p.Sized
  issues : ∀ i ∈ a.issues, i.Sized 3

variable {depth : Nat}

theorem ChangedFile.gives : Gives ChangedFile.decode depth ChangedFile.Sized := by
  refine gives_record ⟨by simp, by simp, by simp⟩ ?_
  exact ⟨.mandatory <| keeps_other fun _ _ h => { h with },
    keeps_other fun _ _ h => { h with },
    keeps_field gives_nat fun _ _ hn h => { h with additions := hn },
    keeps_field gives_nat fun _ _ hn h => { h with deletions := hn },
    keeps_field gives_nat fun _ _ hn h => { h with changes := hn },
    keeps_other fun _ _ h => { h with }⟩

theorem PullRequest.gives : Gives PullRequest.decode depth PullRequest.Sized := by
  refine gives_record ⟨by simp, by simp, by simp, by simp, by simp⟩ ?_
  exact ⟨keeps_field gives_nat fun _ _ hn h => { h with number := hn },
    keeps_other fun _ _ h => { h with },
    keeps_other fun _ _ h => { h with },
    keeps_other fun _ _ h => { h with },
    keeps_other fun _ _ h => { h with },
    keeps_other fun _ _ h => { h with },
    keeps_other fun _ _ h => { h with },
    keeps_field gives_nat fun _ _ hn h => { h with additions := hn },
    keeps_field gives_nat fun _ _ hn h => { h with deletions := hn },
    keeps_field gives_nat fun _ _ hn h => { h with changedFiles := hn },
    keeps_field (gives_list ChangedFile.gives) fun _ _ hfiles h => { h with files := hfiles },
    keeps_other fun _ _ h => { h with }⟩

theorem CommitStats.gives : Gives CommitStats.decode depth CommitStats.Sized := by
  refine gives_record ⟨by simp, by simp⟩ ?_
  exact ⟨keeps_field gives_nat fun _ _ hn h => { h with additions := hn },
    keeps_field gives_nat fun _ _ hn h => { h with deletions := hn }⟩

theorem Commit.gives : Gives Commit.decode depth Commit.Sized := by
  refine gives_record (by simp [Commit.Sized]) ?_
  exact ⟨keeps_other fun _ _ h => h, keeps_other fun _ _ h => h, keeps_other fun _ _ h => h,
    keeps_field (gives_option CommitStats.gives) fun _ _ hstats _ => hstats⟩

theorem Issue.gives : Gives Issue.decode depth (Issue.Sized (depth + 1)) := by
  refine gives_record ⟨by simp, by simp⟩ ?_
  exact ⟨keeps_field gives_nat fun _ _ hn h => { h with number := hn },
    keeps_other fun _ _ h => { h with },
    keeps_other fun _ _ h => { h with },
    keeps_other fun _ _ h => { h with },
    keeps_other fun _ _ h => { h with },
    keeps_other fun _ _ h => { h with },
    keeps_other fun _ _ h => { h with },
    keeps_other fun _ _ h => { h with },
    keeps_field gives_value fun _ _ hvalue h => { h with pullRequest := hvalue }⟩

theorem Activity.gives : Gives Activity.decode 0 Activity.Sized := by
  refine gives_record ⟨by simp, by simp, by simp⟩ ?_
  exact ⟨keeps_field (gives_list Commit.gives) fun _ _ hcommits h => { h with commits := hcommits },
    .alsoCalled <| keeps_field (gives_list PullRequest.gives) fun _ _ hpulls h =>
      { h with pulls := hpulls },
    keeps_other fun _ _ h => { h with },
    keeps_field (gives_list Issue.gives) fun _ _ hissues h => { h with issues := hissues }⟩

theorem gives_feed {α : Type} {decode : Decoder α} {P : α → Prop}
    (hbare : Gives decode (depth + 1) P) (hwrapped : Gives decode (depth + 2) P) :
    Gives (decodeFeed decode) depth fun values => ∀ a ∈ values, P a := by
  refine gives_variant ?_
  simp only [List.forall_mem_cons]
  refine ⟨gives_list hbare, gives_object (by simp) ?_, gives_object (by simp) ?_, by simp⟩
  · exact .mandatory <| keeps_field (gives_list hwrapped) fun _ _ hvalues _ => hvalues
  · exact .alsoCalled <| .mandatory <| keeps_field (gives_list hwrapped) fun _ _ hvalues _ =>
      hvalues

/-! ## What is written of them -/

theorem User.plain (u : User) (hdepth : depth < maxDepth) : Plain depth u.toJson := by
  simp [User.toJson, plain_obj_iff, plain_str, hdepth]

theorem Label.plain (l : Label) (hdepth : depth < maxDepth) : Plain depth l.toJson := by
  rw [Label.toJson]
  split
  · simp [plain_obj_iff, plain_str, hdepth]
  · exact plain_str l.name

theorem plain_dateJson (d : Option String) : Plain depth (dateJson d) :=
  plain_ofOption_iff.mpr fun s _ => plain_str s

theorem ChangedFile.Sized.plain {f : ChangedFile} (h : f.Sized) (hdepth : depth < maxDepth) :
    Plain depth f.toJson := by
  have hpatch : Plain (depth + 1) (.ofOption .str f.patch) := plain_dateJson f.patch
  simp [ChangedFile.toJson, plain_obj_iff, plain_str, plain_nat h.additions,
    plain_nat h.deletions, plain_nat h.changes, hpatch, hdepth]

theorem PullRequest.Sized.plain {p : PullRequest} (h : p.Sized) (hcoverage : p.coverage = none)
    (hdepth : depth + 2 < maxDepth) : Plain depth p.toJson := by
  have huser : Plain (depth + 1) (.ofOption User.toJson p.user) :=
    plain_ofOption_iff.mpr fun u _ => u.plain (by omega)
  have hfiles : Plain (depth + 1) (.list ChangedFile.toJson p.files) :=
    plain_list_iff.mpr ⟨by omega, fun f hf => (h.files f hf).plain (by omega)⟩
  have hnone : Plain (depth + 1) (.ofOption .float p.coverage) :=
    plain_ofOption_iff.mpr (by simp [hcoverage])
  have hhere : depth < maxDepth := by omega
  simp [PullRequest.toJson, plain_obj_iff, plain_str, plain_dateJson, plain_nat h.number,
    plain_nat h.additions, plain_nat h.deletions, plain_nat h.changedFiles, huser, hfiles, hnone,
    hhere]

theorem Signature.plain (s : Signature) (hdepth : depth < maxDepth) : Plain depth s.toJson := by
  simp [Signature.toJson, plain_obj_iff, plain_str, plain_dateJson, hdepth]

theorem CommitDetail.plain (d : CommitDetail) (hdepth : depth + 1 < maxDepth) :
    Plain depth d.toJson := by
  have hauthor : Plain (depth + 1) (.ofOption Signature.toJson d.author) :=
    plain_ofOption_iff.mpr fun s _ => s.plain hdepth
  have hhere : depth < maxDepth := by omega
  simp [CommitDetail.toJson, plain_obj_iff, plain_str, hauthor, hhere]

theorem CommitStats.Sized.plain {s : CommitStats} (h : s.Sized) (hdepth : depth < maxDepth) :
    Plain depth s.toJson := by
  simp [CommitStats.toJson, plain_obj_iff, plain_nat h.additions, plain_nat h.deletions, hdepth]

theorem Commit.Sized.plain {c : Commit} (h : c.Sized) (hdepth : depth + 2 < maxDepth) :
    Plain depth c.toJson := by
  have hauthor : Plain (depth + 1) (.ofOption User.toJson c.author) :=
    plain_ofOption_iff.mpr fun u _ => u.plain (by omega)
  have hstats : Plain (depth + 1) (.ofOption CommitStats.toJson c.stats) :=
    plain_ofOption_iff.mpr fun s hs => (h s hs).plain (by omega)
  have hdetail : Plain (depth + 1) c.detail.toJson := c.detail.plain hdepth
  have hhere : depth < maxDepth := by omega
  simp [Commit.toJson, plain_obj_iff, plain_str, hauthor, hstats, hdetail, hhere]

theorem Review.plain (r : Review) (hdepth : depth + 1 < maxDepth) : Plain depth r.toJson := by
  have huser : Plain (depth + 1) (.ofOption User.toJson r.user) :=
    plain_ofOption_iff.mpr fun u _ => u.plain hdepth
  have hhere : depth < maxDepth := by omega
  simp [Review.toJson, plain_obj_iff, plain_str, plain_dateJson, huser, hhere]

theorem Issue.Sized.plain {i : Issue} (h : i.Sized (depth + 1)) (hdepth : depth + 2 < maxDepth) :
    Plain depth i.toJson := by
  have huser : Plain (depth + 1) (.ofOption User.toJson i.user) :=
    plain_ofOption_iff.mpr fun u _ => u.plain (by omega)
  have hlabels : Plain (depth + 1) (.list Label.toJson i.labels) :=
    plain_list_iff.mpr ⟨by omega, fun l _ => l.plain hdepth⟩
  have hvalue : Plain (depth + 1) (.ofOption id i.pullRequest) :=
    plain_ofOption_iff.mpr fun j hj => (h.pullRequest j hj).2.1
  have hhere : depth < maxDepth := by omega
  simp [Issue.toJson, plain_obj_iff, plain_str, plain_dateJson, plain_nat h.number, huser,
    hlabels, hvalue, hhere]

theorem Issue.Sized.carries {i : Issue} (h : i.Sized depth) : i.Carries :=
  fun j hj => ⟨(h.pullRequest j hj).1, (h.pullRequest j hj).2.2⟩

theorem Activity.Sized.plain {a : Activity} (h : a.Sized)
    (hcoverage : ∀ p ∈ a.pulls, p.coverage = none) : Plain 0 a.toJson := by
  have hcommits : Plain 1 (.list Commit.toJson a.commits) :=
    plain_list_iff.mpr ⟨by decide, fun c hc => Commit.Sized.plain (h.commits c hc) (by decide)⟩
  have hpulls : Plain 1 (.list PullRequest.toJson a.pulls) :=
    plain_list_iff.mpr ⟨by decide, fun p hp => (h.pulls p hp).plain (hcoverage p hp) (by decide)⟩
  have hreviews : Plain 1 (.list Review.toJson a.reviews) :=
    plain_list_iff.mpr ⟨by decide, fun r _ => r.plain (by decide)⟩
  have hissues : Plain 1 (.list Issue.toJson a.issues) :=
    plain_list_iff.mpr ⟨by decide, fun i hi => (h.issues i hi).plain (by decide)⟩
  have hhere : 0 < maxDepth := by decide
  simp [Activity.toJson, plain_obj_iff, hcommits, hpulls, hreviews, hissues, hhere]

/-! ## Loading again -/

theorem Issue.Sized.imp {depth' : Nat} {i : Issue} (h : i.Sized depth') (hdepth : depth ≤ depth') :
    i.Sized depth where
  number := h.number
  pullRequest := fun j hj => by
    obtain ⟨hnull, hplain, hsorted⟩ := h.pullRequest j hj
    exact ⟨hnull, hplain.shallower hdepth, hsorted⟩

/-- A payload that was loaded from a text of integers is written, on one line or on several, and
loaded in the same role as it was.  Coverage is a floating point number and left out. -/
theorem loaded_payloads_reload {t : Text} {print : Json → String}
    (hprint : print = compact ∨ print = pretty)
    (hnumbers : (Document.ofText t).root.integral = true) :
    (∀ p : PullRequest, p.coverage = none → decodeWhole PullRequest.decode t = .ok p →
      decodeWhole PullRequest.decode (print p.toJson).toList = .ok p) ∧
    (∀ a : Activity, (∀ p ∈ a.pulls, p.coverage = none) → decodeWhole Activity.decode t = .ok a →
      decodeWhole Activity.decode (print a.toJson).toList = .ok a) ∧
    (∀ issues : List Issue, decodeWhole (decodeFeed Issue.decode) t = .ok issues →
      decodeWhole (decodeFeed Issue.decode) (print (.list Issue.toJson issues)).toList =
        .ok issues) ∧
    ∀ pulls : List PullRequest, (∀ p ∈ pulls, p.coverage = none) →
      decodeWhole (decodeFeed PullRequest.decode) t = .ok pulls →
      decodeWhole (decodeFeed PullRequest.decode) (print (.list PullRequest.toJson pulls)).toList =
        .ok pulls := by
  have hfits := fits_ofText hnumbers
  refine ⟨fun p hcoverage h => ?_, fun a hcoverage h => ?_, fun issues h => ?_,
    fun pulls hcoverage h => ?_⟩ <;> have hroot := (decodeWhole_eq_ok_iff.mp h).1
  · have hsized := PullRequest.gives hfits hroot
    exact decodeWhole_printed hprint (hsized.plain hcoverage (by decide)) p.reads
  · have hsized := Activity.gives hfits hroot
    exact decodeWhole_printed hprint (hsized.plain hcoverage)
      (Activity.reads fun i hi => (hsized.issues i hi).carries)
  · have hsized := gives_feed Issue.gives (Issue.gives.imp fun i h => h.imp (by decide)) hfits hroot
    have hplain : Plain 0 (.list Issue.toJson issues) :=
      plain_list_iff.mpr ⟨by decide, fun i hi => (hsized i hi).plain (by decide)⟩
    exact decodeWhole_printed hprint hplain
      (reads_feed fun i hi => Issue.reads (hsized i hi).carries)
  · have hsized := gives_feed PullRequest.gives PullRequest.gives hfits hroot
    have hplain : Plain 0 (.list PullRequest.toJson pulls) :=
      plain_list_iff.mpr ⟨by decide, fun p hp => (hsized p hp).plain (hcoverage p hp) (by decide)⟩
    exact decodeWhole_printed hprint hplain (reads_feed fun p _ => p.reads)

/-- A pull request as a list of its fields and one with a field nobody knows, under another name,
and an issue with both forms of labels and with a value of its own. -/
def mixedExport : String :=
  "\x7b\"pullRequests\":[[7,\"Fix\"],\x7b\"number\":8,\"seen\":-3\x7d],\"issues\":[\x7b" ++
    "\"labels\":[\"bug\",\x7b\"name\":\"ui\"\x7d],\"pull_request\":\x7b\"id\":[1]\x7d\x7d]\x7d"

def mixedActivity : Activity where
  pulls := [{ number := 7, title := "Fix" }, { number := 8 }]
  issues := [
    { labels := [⟨false, "bug"⟩, ⟨true, "ui"⟩]
      pullRequest := some (.obj [("id", .arr [.int 1])]) }]

set_option maxRecDepth 2048 in
theorem mixedExport_reloads :
    (Document.ofText mixedExport.toList).root.integral = true ∧
      decodeWhole Activity.decode mixedExport.toList = .ok mixedActivity ∧
      decodeWhole Activity.decode (pretty mixedActivity.toJson).toList = .ok mixedActivity := by
  have hnumbers : (Document.ofText mixedExport.toList).root.integral = true := by cbv
  have hloads : decodeWhole Activity.decode mixedExport.toList = .ok mixedActivity := by cbv
  have hcoverage : ∀ p ∈ mixedActivity.pulls, p.coverage = none := by simp [mixedActivity]
  exact ⟨hnumbers, hloads,
    (loaded_payloads_reload (.inr rfl) hnumbers).2.1 mixedActivity hcoverage hloads⟩

end RepoAudit
