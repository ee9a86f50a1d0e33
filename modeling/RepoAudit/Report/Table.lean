import RepoAudit.Text.Width

/-!
# Boxed tables

Tables drawn with box characters.  Each column is as wide as its widest line, a cell may hold
several lines, and every row is ruled off from the next.
-/

namespace RepoAudit.Table

/-- The lines of a cell. -/
abbrev Cell := List Text

def cell (s : String) : Cell :=
  Text.splitBy (· == '\n') s.toList

def Cell.width (c : Cell) : Nat :=
  (c.map displayWidth).foldl max 0

/-- The width of each column of rows that have equally many cells. -/
def widths : List (List Cell) → List Nat
  | [] => []
  | [row] => row.map Cell.width
  | row :: rows => List.zipWith max (row.map Cell.width) (widths rows)

/-- The characters of a horizontal rule. -/
structure Rule where
  left : String
  fill : Char
  crossing : String
  right : String

def Rule.draw (r : Rule) (widths : List Nat) : String :=
  let runs := widths.map fun w => String.ofList (List.replicate (w + 2) r.fill)
  r.left ++ r.crossing.intercalate runs ++ r.right

def topRule : Rule := ⟨"┌", '─', "┬", "┐"⟩

def headRule : Rule := ⟨"╞", '═', "╪", "╡"⟩

def innerRule : Rule := ⟨"├", '╌', "┼", "┤"⟩

def bottomRule : Rule := ⟨"└", '─', "┴", "┘"⟩

def padded (width : Nat) (t : Text) : String :=
  String.ofList (t ++ List.replicate (width - displayWidth t) ' ')

/-- One printed line of a row. -/
def rowLine (widths : List Nat) (row : List Cell) (index : Nat) : String :=
  let cells := List.zipWith (fun w (c : Cell) => padded w (c.getD index [])) widths row
  "│ " ++ " ┆ ".intercalate cells ++ " │"

def rowLines (widths : List Nat) (row : List Cell) : List String :=
  let height := (row.map List.length).foldl max 0
  (List.range height).map (rowLine widths row)

/-- The rows, with a rule between neighbours. -/
def bodyLines (widths : List Nat) : List (List Cell) → List String
  | [] => []
  | [row] => rowLines widths row
  | row :: rows => rowLines widths row ++ innerRule.draw widths :: bodyLines widths rows

/-- A table with a head. -/
def draw (head : List String) (rows : List (List String)) : List String :=
  let head := head.map cell
  let rows := rows.map fun row => row.map cell
  let widths := widths (head :: rows)
  [topRule.draw widths] ++ rowLines widths head ++ [headRule.draw widths] ++
    bodyLines widths rows ++ [bottomRule.draw widths]

end RepoAudit.Table
