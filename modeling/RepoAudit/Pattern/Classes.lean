import RepoAudit.Pattern.Basic

/-!
# Character classes

The classes that patterns over source text are made of.
-/

namespace RepoAudit.Pattern

def anyOf (members : String) (c : Char) : Bool :=
  members.toList.contains c

def noneOf (members : String) (c : Char) : Bool :=
  !members.toList.contains c

/-- Word characters and the given ones. -/
def wordOr (members : String) (c : Char) : Bool :=
  isWord c || anyOf members c

def notLineFeed (c : Char) : Bool :=
  c != '\n'

def indent : Pattern :=
  many (anyOf " \t")

def gap : Pattern :=
  many1 (anyOf " \t")

/-- A word that starts at a word boundary. -/
def startingWord (s : String) : Pattern :=
  .seq .wordBoundary (literal s)

/-- A name followed, perhaps after blanks, by an opening parenthesis. -/
def call (name : Pattern) : Pattern :=
  sequence [name, blanks, char '(']

end RepoAudit.Pattern
