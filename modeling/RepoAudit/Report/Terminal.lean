import RepoAudit.Report.Basic
import RepoAudit.Report.Table

/-!
# Terminal reports

Results for reading in a terminal, with colours where they are wanted.
-/

namespace RepoAudit.Terminal

/-- Text in a graphic rendition, or plain. -/
def styled (colors : Bool) (codes s : String) : String :=
  if colors then "\x1b[" ++ codes ++ "m" ++ s ++ "\x1b[0m" else s

def blue : String := "34"

def boldBlue : String := "1;34"

def cyan : String := "36"

def green : String := "32"

def yellow : String := "33"

def rule (s : String) : String :=
  String.ofList (List.replicate s.utf8ByteSize '=')

def tableHead : List String :=
  ["Priority", "Category", "Recommendation", "Effort"]

def tableRow (r : Recommendation) : List String :=
  [r.priority.name, r.category, r.description, r.effort]

def insightLines (colors : Bool) (insights : List String) : List String :=
  if insights.isEmpty then []
  else (insights.map fun s => "  " ++ styled colors cyan "•" ++ " " ++ s) ++ [""]

def recommendationLines (colors : Bool) (rs : List Recommendation) : List String :=
  if rs.isEmpty then [styled colors green "No recommendations"]
  else Table.draw tableHead (rs.map tableRow)

def warningLines (colors : Bool) (ws : List Warning) : List String :=
  if ws.isEmpty then []
  else
    styled colors yellow (toString ws.length ++ " warnings:") ::
      ws.map fun w => "  " ++ styled colors yellow "!" ++ " " ++ w.toString

def resultLines (colors : Bool) (r : Result) : List String :=
  let a := r.assessment
  let title := r.kind.title
  [styled colors boldBlue title, styled colors blue (rule title), a.summary, ""] ++
    insightLines colors a.insights ++ recommendationLines colors a.recommendations ++
    warningLines colors a.warnings ++ [""]

def lines (colors : Bool) (rs : List Result) : List String :=
  rs.flatMap (resultLines colors)

end RepoAudit.Terminal
