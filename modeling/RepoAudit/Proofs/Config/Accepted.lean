import RepoAudit.Config.Reader
import RepoAudit.Proofs.Except

/-!
# What accepted settings are like

What every entry of a section keeps holds of the section that is read.  So the numbers of accepted
settings have the size of their type; the patterns are checked one by one.
-/

namespace RepoAudit.Config

variable {α : Type} {P : α → Prop} {known : List (Entry α)} {start result : α}

/-- The entry keeps a property of the section. -/
def Entry.Keeps (P : α → Prop) (e : Entry α) : Prop :=
  ∀ (t : Toml) (before after : α), P before → e.read t before = some after → P after

theorem keeps_of_readPositions {items : List Toml} (hknown : ∀ e ∈ known, e.Keeps P)
    (hstart : P start) (hread : readPositions known items start = some result) : P result := by
  induction known generalizing items start with
  | nil => exact Option.some.inj hread ▸ hstart
  | cons e known ih =>
      rw [List.forall_mem_cons] at hknown
      cases items with
      | nil =>
          rw [readPositions] at hread
          split at hread
          · cases hread
          · exact ih hknown.2 hstart hread
      | cons item items =>
          rw [readPositions] at hread
          obtain ⟨next, hnext, hread⟩ := Option.bind_eq_some_iff.mp hread
          exact ih hknown.2 (hknown.1 _ _ _ hstart hnext) hread

/-- What every known entry keeps holds of the section. -/
theorem keeps_of_readSection {t : Toml} (hknown : ∀ e ∈ known, e.Keeps P) (hstart : P start)
    (hread : readSection known start t = some result) : P result := by
  cases t with
  | table kind entries =>
      rw [readSection] at hread
      induction entries generalizing start with
      | nil => exact Option.some.inj hread ▸ hstart
      | cons first entries ih =>
          obtain ⟨next, hnext, hread⟩ := Option.bind_eq_some_iff.mp hread
          refine ih ?_ hread
          dsimp only at hnext
          split at hnext
          next e hfind => exact hknown e (List.mem_of_find?_eq_some hfind) _ _ _ hstart hnext
          next => exact Option.some.inj hnext ▸ hstart
  | array items => exact keeps_of_readPositions hknown hstart hread
  | tables items => exact keeps_of_readPositions hknown hstart hread
  | _ => cases hread

theorem entry_keeps {β : Type} {name : String} {read : Toml → Option β} {put : β → α → α}
    (hput : ∀ t value before, read t = some value → P before → P (put value before)) :
    (entry name read put).Keeps P := by
  intro t before after hbefore hread
  obtain ⟨value, hvalue, rfl⟩ := Option.map_eq_some_iff.mp hread
  exact hput _ _ _ hvalue hbefore

/-! ## Accepted texts -/

variable {text : Text} {settings : Settings}

theorem parse_eq_ok (h : parse text = .ok settings) :
    (∃ entries, readSection sectionEntries {} (.table .header entries) = some settings) ∧
      badPattern? settings.walk.ignorePatterns = none := by
  rw [parse] at h
  split at h
  · cases h
  next hread =>
    split at h
    · cases h
    next hpatterns =>
      obtain rfl := Except.ok.inj h
      obtain ⟨entries, -, hread⟩ := Option.bind_eq_some_iff.mp hread
      exact ⟨⟨entries, hread⟩, hpatterns⟩

/-- The days of the settings fit into 64 bits. -/
def FitsInt (s : IssueSettings) : Prop :=
  smallestInt ≤ s.staleDays ∧ s.staleDays ≤ largestInt

theorem fitsInt_default : FitsInt {} := by
  constructor <;> decide

theorem issueEntries_keep : ∀ e ∈ issueEntries, e.Keeps FitsInt := by
  intro e he
  obtain rfl := List.mem_singleton.mp he
  refine entry_keeps fun t _ _ hread _ => ?_
  rw [int?.eq_def] at hread
  split at hread
  · split at hread
    next hrange => exact Option.some.inj hread ▸ hrange
    next => cases hread
  · cases hread

def IssuesFit (s : Settings) : Prop :=
  ∀ i, s.issues = some i → FitsInt i

theorem sectionEntries_keep : ∀ e ∈ sectionEntries, e.Keeps IssuesFit := by
  simp only [sectionEntries, List.forall_mem_cons]
  refine ⟨?walker, ?complexity, ?issues, ?contributors, ?output, by simp⟩
  case issues =>
    refine entry_keeps fun _ _ _ hread _ i hi => ?_
    exact Option.some.inj hi ▸ keeps_of_readSection issueEntries_keep fitsInt_default hread
  all_goals exact entry_keeps fun _ _ _ _ hbefore => hbefore

theorem fitsInt_of_parse (h : parse text = .ok settings) : FitsInt settings.issueSettings := by
  obtain ⟨⟨entries, hread⟩, -⟩ := parse_eq_ok h
  have hempty : IssuesFit {} := fun _ hi => by cases hi
  have hkept := keeps_of_readSection sectionEntries_keep hempty hread
  rw [Settings.issueSettings]
  cases hissues : settings.issues with
  | none => exact fitsInt_default
  | some s => exact hkept s hissues

end RepoAudit.Config
