import RepoAudit.Text.Basic
import RepoAudit.Text.WordChar

/-!
# Patterns

A pattern is searched for in a text from left to right.  Where it could match in several ways the
order of preference decides: the first alternative before the second, and as many repetitions as
possible first, or as few for a lazy one.  A `Cursor` is a place in a text, given by what stands
before it (nearest character first) and what is left, so a match carries its surroundings and no
offset can be out of range.
-/

namespace RepoAudit

structure Cursor where
  before : Text
  rest : Text

namespace Cursor

def start (t : Text) : Cursor :=
  ⟨[], t⟩

def text (c : Cursor) : Text :=
  c.before.reverse ++ c.rest

/-- The number of the line the cursor stands on, counted from one. -/
def line (c : Cursor) : Nat :=
  c.before.count '\n' + 1

/-- The text between a cursor and a later one. -/
def upTo (c later : Cursor) : Text :=
  c.rest.take (c.rest.length - later.rest.length)

/-- Exactly one side of the cursor is a word character. -/
def atWordBoundary (c : Cursor) : Bool :=
  c.before.head?.any isWord != c.rest.head?.any isWord

end Cursor

inductive Greed where
  | greedy
  | lazily

inductive Pattern where
  | empty
  | one (member : Char → Bool)
  | seq (first second : Pattern)
  | alt (preferred other : Pattern)
  /-- Any number of characters of a class. -/
  | run (greed : Greed) (member : Char → Bool)
  /-- Any number of repetitions, each of which takes at least one character. -/
  | star (greed : Greed) (body : Pattern)
  | group (index : Nat) (body : Pattern)
  | wordBoundary
  | lineStart
  | textStart
  | textEnd

/-- How far a match has come, with the groups taken so far, the latest first. -/
structure Progress where
  cursor : Cursor
  groups : List (Nat × Cursor × Cursor) := []

namespace Pattern

/-- As many characters of the class as possible first, then fewer. -/
def takeMost (member : Char → Bool) (next : Cursor → Option α) : (before rest : Text) → Option α
  | before, [] => next ⟨before, []⟩
  | before, c :: rest =>
      if member c then takeMost member next (c :: before) rest <|> next ⟨before, c :: rest⟩
      else next ⟨before, c :: rest⟩

/-- As few characters of the class as possible first, then more. -/
def takeLeast (member : Char → Bool) (next : Cursor → Option α) : (before rest : Text) → Option α
  | before, [] => next ⟨before, []⟩
  | before, c :: rest =>
      next ⟨before, c :: rest⟩ <|>
        if member c then takeLeast member next (c :: before) rest else none

/-- Repetitions of `step`, at most `fuel` of them; one that takes nothing is not repeated. -/
def repeatStep (greed : Greed) (step : Progress → (Progress → Option α) → Option α)
    (next : Progress → Option α) : (fuel : Nat) → Progress → Option α
  | 0, p => next p
  | fuel + 1, p =>
      let again := fun (_ : Unit) => step p fun q =>
        if q.cursor.rest.length < p.cursor.rest.length then repeatStep greed step next fuel q
        else none
      match greed with
      | .greedy => again () <|> next p
      | .lazily => next p <|> again ()

/-- Tries every way to match from `p`, in order of preference, until `next` accepts one. -/
def advance : Pattern → Progress → (Progress → Option α) → Option α
  | .empty, p, next => next p
  | .one member, p, next =>
      match p.cursor.rest with
      | [] => none
      | c :: rest => if member c then next { p with cursor := ⟨c :: p.cursor.before, rest⟩ } else none
  | .seq first second, p, next => first.advance p fun q => second.advance q next
  | .alt preferred other, p, next => preferred.advance p next <|> other.advance p next
  | .run .greedy member, p, next =>
      takeMost member (fun c => next { p with cursor := c }) p.cursor.before p.cursor.rest
  | .run .lazily member, p, next =>
      takeLeast member (fun c => next { p with cursor := c }) p.cursor.before p.cursor.rest
  | .star greed body, p, next =>
      repeatStep greed (fun q k => body.advance q k) next p.cursor.rest.length p
  | .group index body, p, next =>
      body.advance p fun q => next { q with groups := (index, p.cursor, q.cursor) :: q.groups }
  | .wordBoundary, p, next => if p.cursor.atWordBoundary then next p else none
  | .lineStart, p, next => if p.cursor.before.head?.all (· == '\n') then next p else none
  | .textStart, p, next => if p.cursor.before.isEmpty then next p else none
  | .textEnd, p, next => if p.cursor.rest.isEmpty then next p else none

/-! ## Building blocks -/

def char (c : Char) : Pattern :=
  .one (· == c)

def literal (s : String) : Pattern :=
  s.toList.foldr (fun c p => .seq (char c) p) .empty

def sequence (ps : List Pattern) : Pattern :=
  ps.foldr .seq .empty

/-- The first of the patterns that matches. -/
def firstOf : List Pattern → Pattern
  | [] => .one fun _ => false
  | [p] => p
  | p :: ps => .alt p (firstOf ps)

def anyWord (words : List String) : Pattern :=
  firstOf (words.map literal)

def perhaps (p : Pattern) : Pattern :=
  .alt p .empty

def many (member : Char → Bool) : Pattern :=
  .run .greedy member

/-- At least one character of the class, as many as possible. -/
def many1 (member : Char → Bool) : Pattern :=
  .seq (.one member) (many member)

/-- Blank characters, as many as possible, perhaps none. -/
def blanks : Pattern :=
  many isBlank

def someBlanks : Pattern :=
  many1 isBlank

/-- A whole word: `p` between two word boundaries. -/
def bounded (p : Pattern) : Pattern :=
  sequence [.wordBoundary, p, .wordBoundary]

end Pattern

/-- One occurrence of a pattern. -/
structure Match where
  start : Cursor
  stop : Cursor
  groups : List (Nat × Cursor × Cursor)

namespace Match

def text (m : Match) : Text :=
  m.start.upTo m.stop

def size (m : Match) : Nat :=
  m.start.rest.length - m.stop.rest.length

def line (m : Match) : Nat :=
  m.start.line

/-- What the group took last, when it took part in the match. -/
def group? (m : Match) (index : Nat) : Option Text :=
  (m.groups.lookup index).map fun (start, stop) => start.upTo stop

end Match

namespace Pattern

/-- The preferred match that begins exactly at the cursor. -/
def matchAt (p : Pattern) (c : Cursor) : Option Match :=
  p.advance ⟨c, []⟩ fun q => some ⟨c, q.cursor, q.groups⟩

/-- The matches at and after a cursor: the leftmost first, and none overlaps the one before it.
`skip` characters still belong to the previous match. -/
def scan (p : Pattern) : (skip : Nat) → (before rest : Text) → List Match
  | _ + 1, _, [] => []
  | skip + 1, before, c :: rest => scan p skip (c :: before) rest
  | 0, before, [] => (p.matchAt ⟨before, []⟩).toList
  | 0, before, c :: rest =>
      match p.matchAt ⟨before, c :: rest⟩ with
      | some m => m :: scan p (m.size - 1) (c :: before) rest
      | none => scan p 0 (c :: before) rest

/-- All matches in a text, from left to right. -/
def findAll (p : Pattern) (t : Text) : List Match :=
  p.scan 0 [] t

def firstFrom (p : Pattern) : (before rest : Text) → Option Match
  | before, [] => p.matchAt ⟨before, []⟩
  | before, c :: rest => p.matchAt ⟨before, c :: rest⟩ <|> firstFrom p (c :: before) rest

def first? (p : Pattern) (t : Text) : Option Match :=
  p.firstFrom [] t

/-- The match that begins with the text. -/
def atStart? (p : Pattern) (t : Text) : Option Match :=
  p.matchAt (.start t)

def occursIn (p : Pattern) (t : Text) : Bool :=
  (p.first? t).isSome

def count (p : Pattern) (t : Text) : Nat :=
  (p.findAll t).length

end Pattern
end RepoAudit
