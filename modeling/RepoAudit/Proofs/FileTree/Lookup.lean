import RepoAudit.FileTree.Walk
import RepoAudit.Proofs.Path

/-!
# Looking up paths of names

A path made of the name of a volume and of names below it is looked up from the top of the volume.
Names that lead to an entry without a link find that entry, and a text written to a file is read back
from it.
-/

namespace RepoAudit

variable {v : Volume} {names more : List String}

/-- The bytes of a text read as that text. -/
theorem decodeBytes_toUTF8 (s : String) : decodeBytes s.toUTF8 = .ok s := by
  have hvalid : String.fromUTF8? s.toUTF8 = some s := by
    simp only [String.fromUTF8?, String.toUTF8_eq_toByteArray, Option.dite_none_right_eq_some]
    exact ⟨s.isValidUTF8, rfl⟩
  rw [decodeBytes, hvalid]

/-- The part of a path that names an entry. -/
def NamesEntry (part : String) : Prop :=
  part ≠ "" ∧ part ≠ "." ∧ part ≠ ".."

theorem Volume.resolveFrom_of_at? {top t : FileTree} {follow : Bool} {links : Nat} {here : Location}
    (hnames : ∀ name ∈ names, NamesEntry name) (hat : top.at? (here ++ names) = some t)
    (hlink : ∀ target, t ≠ .link target) :
    resolveFrom top follow links here names = .ok (here ++ names, t) := by
  induction names generalizing here with
  | nil =>
      rw [List.append_nil] at hat
      rw [resolveFrom, hat, List.append_nil]
  | cons name names ih =>
      rw [List.forall_mem_cons] at hnames
      obtain ⟨⟨hempty, hdot, hup⟩, hnames⟩ := hnames
      obtain ⟨d, hhere, hbelow⟩ := Option.bind_eq_some_iff.mp (FileTree.at?_append _ _ _ ▸ hat)
      obtain ⟨sub, hsub, hrest⟩ := Option.bind_eq_some_iff.mp hbelow
      have hsplit : here ++ name :: names = here ++ [name] ++ names := by simp
      have hnext := ih hnames (hsplit ▸ hat)
      cases d with
      | file bytes => cases hsub
      | link target => cases hsub
      | directory entries =>
          have hlookup : entries.lookup name = some sub := hsub
          have hsubLink : ∀ target, sub ≠ .link target := by
            rintro target rfl
            cases names with
            | nil => exact hlink target (Option.some.inj hrest).symm
            | cons next names => cases hrest
          rw [resolveFrom.eq_def]
          simp only [hhere, hlookup, hsplit, hnext]
          cases sub with
          | link target => exact absurd rfl (hsubLink target)
          | file bytes => simp [hempty, hdot, hup]
          | directory inside => simp [hempty, hdot, hup]

theorem Volume.resolve_of_at? {path : String} {t : FileTree}
    (hstart : v.start? path = some ([], names)) (hnames : ∀ name ∈ names, NamesEntry name)
    (hat : v.top.at? names = some t) (hlink : ∀ target, t ≠ .link target) :
    v.resolve path = .ok (names, t) := by
  rw [resolve, hstart]
  exact resolveFrom_of_at? hnames hat hlink

/-- A text written to a file is read back under the names that lead to the file. -/
theorem Volume.readText_of_at? {path s : String} (hstart : v.start? path = some ([], names))
    (hnames : ∀ name ∈ names, NamesEntry name) (hat : v.top.at? names = some (.file s.toUTF8)) :
    v.readText path = .ok s := by
  rw [readText, resolve_of_at? hstart hnames hat (by simp)]
  exact decodeBytes_toUTF8 s

end RepoAudit
