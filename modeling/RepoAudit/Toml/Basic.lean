import RepoAudit.Text.Basic

/-!
# TOML values

The values of a configuration file.  Tables remember how they came about, because that decides who
may still add to them: a header may name a table that an earlier header only passed through, keys
with dots may extend such tables and their own, and a table written in braces is closed.
-/

namespace RepoAudit

namespace Toml

inductive TableKind where
  /-- Passed through by the header of a table inside it. -/
  | implicit
  | header
  | dotted
  | inline
  deriving DecidableEq

end Toml

inductive Toml where
  | text (value : String)
  | int (value : Int)
  | float (value : Float)
  | bool (value : Bool)
  /-- A date or a time, which no setting takes. -/
  | date
  | array (items : List Toml)
  | table (kind : Toml.TableKind) (entries : List (String × Toml))
  /-- A list of tables that headers in double brackets make. -/
  | tables (items : List (List (String × Toml)))

namespace Toml

abbrev Entries := List (String × Toml)

def replaceEntry (name : String) (value : Toml) (entries : Entries) : Entries :=
  entries.map fun (other, old) => if other == name then (other, value) else (other, old)

/-- Opens the table that a header names; `again` for a header in double brackets. -/
def openHeader (again : Bool) : List String → Entries → Option Entries
  | [], _ => none
  | [name], entries =>
      match entries.lookup name with
      | none => some (entries ++ [(name, if again then .tables [[]] else .table .header [])])
      | some (.table .implicit inner) =>
          if again then none else some (replaceEntry name (.table .header inner) entries)
      | some (.tables items) =>
          if again then some (replaceEntry name (.tables (items ++ [[]])) entries) else none
      | some _ => none
  | name :: names, entries =>
      match entries.lookup name with
      | none =>
          (openHeader again names []).map fun inner => entries ++ [(name, .table .implicit inner)]
      | some (.table kind inner) =>
          if kind = .inline then none
          else
            (openHeader again names inner).map fun inner =>
              replaceEntry name (.table kind inner) entries
      | some (.tables items) =>
          (openHeader again names (items.getLast?.getD [])).map fun last =>
            replaceEntry name (.tables (items.dropLast ++ [last])) entries
      | some _ => none

/-- Puts a value under a key with dots, which must be new. -/
def assign : List String → Toml → Entries → Option Entries
  | [], _, _ => none
  | [name], value, entries =>
      match entries.lookup name with
      | none => some (entries ++ [(name, value)])
      | some _ => none
  | name :: names, value, entries =>
      match entries.lookup name with
      | none =>
          (assign names value []).map fun inner => entries ++ [(name, .table .dotted inner)]
      | some (.table kind inner) =>
          if kind = .implicit ∨ kind = .dotted then
            (assign names value inner).map fun inner =>
              replaceEntry name (.table kind inner) entries
          else none
      | some _ => none

/-- Changes the table that the last header opened. -/
def within (change : Entries → Option Entries) : List String → Entries → Option Entries
  | [], entries => change entries
  | name :: names, entries =>
      match entries.lookup name with
      | some (.table kind inner) =>
          (within change names inner).map fun inner =>
            replaceEntry name (.table kind inner) entries
      | some (.tables items) =>
          (within change names (items.getLast?.getD [])).map fun last =>
            replaceEntry name (.tables (items.dropLast ++ [last])) entries
      | _ => none

end Toml
end RepoAudit
