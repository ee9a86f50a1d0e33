/-!
# Levels

The one scale on which findings are severe and recommendations urgent.
-/

namespace RepoAudit

inductive Level where
  | low
  | medium
  | high
  | critical
  deriving DecidableEq, Repr

namespace Level

def all : List Level :=
  [low, medium, high, critical]

def rank : Level → Nat
  | low => 0
  | medium => 1
  | high => 2
  | critical => 3

def name : Level → String
  | low => "low"
  | medium => "medium"
  | high => "high"
  | critical => "critical"

def ofName? (name : String) : Option Level :=
  all.find? (·.name == name)

/-- At least as urgent. -/
def atLeast (a b : Level) : Bool :=
  b.rank ≤ a.rank

theorem rank_injective {a b : Level} (h : a.rank = b.rank) : a = b := by
  cases a <;> cases b <;> simp_all [rank]

end Level
end RepoAudit
