import RepoAudit.Proofs.PullRequest.HunkHeader

/-!
# What the lines of a patch are

Reading a patch does two things at once: it tells what each line is, which depends on whether a
hunk has begun, and it counts the lines of the new file.  Here the two are separated, so that a fact
about numbers is a fact about the kinds of the lines that are counted.
-/

namespace RepoAudit.Patch

inductive LineKind where
  | hunkHeader (start : Nat)
  | fileHeader
  | note
  | added (text : Text)
  | removed
  | context

namespace LineKind

def isHunkHeader : LineKind → Bool
  | .hunkHeader _ => true
  | _ => false

def isAdded : LineKind → Bool
  | .added _ => true
  | _ => false

def isContext : LineKind → Bool
  | .context => true
  | _ => false

/-- The number of the next line of the new file after a line of this kind. -/
def after (next : Nat) : LineKind → Nat
  | .hunkHeader start => start
  | .added _ | .context => (next + 1) % lineLimit
  | .fileHeader | .note | .removed => next

end LineKind

def lineKind (inHunk : Bool) (line : Text) : LineKind :=
  match hunkStart? line with
  | some start => .hunkHeader start
  | none =>
      if !inHunk && isFileHeader line then .fileHeader
      else
        match line with
        | '\\' :: _ => .note
        | '+' :: text => .added text
        | '-' :: _ => .removed
        | _ => .context

def lineKinds : (inHunk : Bool) → List Text → List LineKind
  | _, [] => []
  | inHunk, line :: lines =>
      lineKind inHunk line :: lineKinds (inHunk || (hunkStart? line).isSome) lines

def numbered : (next : Nat) → List LineKind → List (Nat × Text)
  | _, [] => []
  | next, .added text :: kinds => (next, text) :: numbered ((LineKind.added text).after next) kinds
  | next, kind :: kinds => numbered (kind.after next) kinds

theorem numbered_cons {next : Nat} {kind : LineKind} {kinds : List LineKind}
    (h : kind.isAdded = false) :
    numbered next (kind :: kinds) = numbered (kind.after next) kinds := by
  cases kind with
  | added text => exact Bool.noConfusion h
  | _ => rfl

theorem addedFrom_eq (p : Position) (lines : List Text) :
    addedFrom p lines = numbered p.next (lineKinds p.inHunk lines) := by
  induction lines generalizing p with
  | nil => rfl
  | cons line lines ih =>
      rw [addedFrom.eq_def, lineKinds, lineKind.eq_def]
      dsimp only
      cases hstart : hunkStart? line with
      | some start =>
          simp only [Option.isSome_some, Bool.or_true]
          exact ih ⟨start, true⟩
      | none =>
          simp only [Option.isSome_none, Bool.or_false]
          by_cases hheader : (!p.inHunk && isFileHeader line) = true
          · simp only [hheader, if_true]
            exact ih p
          · simp only [hheader, Bool.false_eq_true, if_false]
            split
            · exact ih p
            · exact congrArg _ (ih p.advance)
            · exact ih p
            · simp only [*]
              rfl

theorem addedLines_eq (patch : Text) :
    addedLines patch = numbered 1 (lineKinds false patch.lines) :=
  addedFrom_eq {} patch.lines

theorem lineKinds_append (inHunk : Bool) (lines more : List Text) :
    lineKinds inHunk (lines ++ more) =
      lineKinds inHunk lines ++
        lineKinds (inHunk || lines.any fun line => (hunkStart? line).isSome) more := by
  induction lines generalizing inHunk with
  | nil => simp [lineKinds]
  | cons line lines ih => simp [lineKinds, ih, Bool.or_assoc]

theorem numbered_append (next : Nat) (kinds more : List LineKind) :
    numbered next (kinds ++ more) =
      numbered next kinds ++ numbered (kinds.foldl LineKind.after next) more := by
  induction kinds generalizing next with
  | nil => rfl
  | cons kind kinds ih =>
      cases kind <;> simp [numbered, ih]

theorem length_numbered (next : Nat) (kinds : List LineKind) :
    (numbered next kinds).length = kinds.countP LineKind.isAdded := by
  induction kinds generalizing next with
  | nil => rfl
  | cons kind kinds ih =>
      cases kind with
      | added text => rw [numbered, List.length_cons, ih, List.countP_cons_of_pos rfl]
      | _ => rw [numbered_cons rfl, ih, List.countP_cons_of_neg Bool.false_ne_true]

theorem mem_of_mem_numbered {next : Nat} {kinds : List LineKind} {line : Nat × Text}
    (h : line ∈ numbered next kinds) : LineKind.added line.2 ∈ kinds := by
  induction kinds generalizing next with
  | nil => simp [numbered] at h
  | cons kind kinds ih =>
      cases kind with
      | added text =>
          rw [numbered, List.mem_cons] at h
          rcases h with rfl | h
          · exact List.mem_cons_self
          · exact List.mem_cons_of_mem _ (ih h)
      | _ => exact List.mem_cons_of_mem _ (ih h)

theorem mem_of_added_mem_lineKinds {inHunk : Bool} {lines : List Text} {text : Text}
    (h : LineKind.added text ∈ lineKinds inHunk lines) : '+' :: text ∈ lines := by
  induction lines generalizing inHunk with
  | nil => simp [lineKinds] at h
  | cons line lines ih =>
      rw [lineKinds, List.mem_cons] at h
      rcases h with h | h
      · have hline : line = '+' :: text := by
          rw [lineKind.eq_def] at h
          split at h
          · cases h
          · split at h
            · cases h
            · split at h <;> cases h
              rfl
        rw [hline]
        exact List.mem_cons_self
      · exact List.mem_cons_of_mem _ (ih h)

theorem not_mem_of_mem_addedLines {patch : Text} {line : Nat × Text}
    (h : line ∈ addedLines patch) : '\n' ∉ line.2 := by
  rw [addedLines_eq] at h
  have hline := mem_of_added_mem_lineKinds (mem_of_mem_numbered h)
  exact fun hmem => Text.not_mem_of_mem_lines hline (List.mem_cons_of_mem _ hmem)

/-- Every line of the new file that is not a header moves the count by one. -/
theorem foldl_after {next : Nat} {kinds : List LineKind} (hnext : next < lineLimit)
    (hkinds : ∀ kind ∈ kinds, kind.isHunkHeader = false) :
    kinds.foldl LineKind.after next =
      (next + kinds.countP LineKind.isAdded + kinds.countP LineKind.isContext) % lineLimit := by
  induction kinds generalizing next with
  | nil => exact (Nat.mod_eq_of_lt hnext).symm
  | cons kind kinds ih =>
      rw [List.forall_mem_cons] at hkinds
      have hmod : (next + 1) % lineLimit < lineLimit := Nat.mod_lt _ (by decide)
      have hcount : ∀ more, ((next + 1) % lineLimit + more) % lineLimit =
          (next + (more + 1)) % lineLimit := by
        intro more
        rw [Nat.mod_add_mod, Nat.add_assoc, Nat.add_comm 1]
      cases kind with
      | hunkHeader start => exact Bool.noConfusion hkinds.1
      | added text =>
          rw [List.foldl_cons, LineKind.after, ih hmod hkinds.2, List.countP_cons_of_pos rfl,
            List.countP_cons_of_neg Bool.false_ne_true, Nat.add_assoc, hcount]
          congr 1
          omega
      | context =>
          rw [List.foldl_cons, LineKind.after, ih hmod hkinds.2,
            List.countP_cons_of_neg Bool.false_ne_true, List.countP_cons_of_pos rfl, Nat.add_assoc,
            hcount]
          congr 1
          omega
      | _ => exact ih hnext hkinds.2

theorem numbered_eq_nil {next : Nat} {kinds : List LineKind}
    (h : ∀ kind ∈ kinds, kind.isAdded = false) : numbered next kinds = [] := by
  induction kinds generalizing next with
  | nil => rfl
  | cons kind kinds ih =>
      rw [List.forall_mem_cons] at h
      cases kind with
      | added text => exact Bool.noConfusion h.1
      | _ => exact ih h.2

end RepoAudit.Patch
