/-!
# Text

File contents and the pieces cut out of them are lists of characters.  This module holds the blank
characters, the cuts (lines, words, trimming) and the searches that every measurement is built
from.  Each cut is a structural recursion on the text, so a law about it is an induction.
-/

namespace RepoAudit

abbrev Text := List Char

/-- The characters with the White_Space property. -/
def isBlank (c : Char) : Bool :=
  let n := c.toNat
  (9 ≤ n && n ≤ 13) || n == 0x20 || n == 0x85 || n == 0xA0 || n == 0x1680 ||
    (0x2000 ≤ n && n ≤ 0x200A) || n == 0x2028 || n == 0x2029 || n == 0x202F || n == 0x205F ||
    n == 0x3000

namespace Text

/-- A line ends at a line feed, together with one carriage return right before it.  Text after the
last line feed is a line only when there is some. -/
def lines : Text → List Text
  | [] => []
  | '\r' :: '\n' :: rest => [] :: lines rest
  | '\n' :: rest => [] :: lines rest
  | c :: rest =>
      match lines rest with
      | [] => [[c]]
      | line :: more => (c :: line) :: more

/-- The pieces between the characters that satisfy `cut`; always at least one. -/
def splitBy (cut : Char → Bool) : Text → List Text
  | [] => [[]]
  | c :: rest =>
      if cut c then [] :: splitBy cut rest
      else
        match splitBy cut rest with
        | [] => [[c]]
        | piece :: more => (c :: piece) :: more

/-- The pieces between the occurrences of `mark`, found from left to right without overlap.  `skip`
characters still belong to the occurrence before. -/
def splitFrom (mark : Text) : (skip : Nat) → Text → List Text
  | _, [] => [[]]
  | skip + 1, _ :: rest => splitFrom mark skip rest
  | 0, c :: rest =>
      if mark.isPrefixOf (c :: rest) then [] :: splitFrom mark (mark.length - 1) rest
      else (splitFrom mark 0 rest).modifyHead (c :: ·)

def splitOn (mark : String) (t : Text) : List Text :=
  splitFrom mark.toList 0 t

/-- The text with every occurrence of `mark` taken out. -/
def without (mark : String) (t : Text) : Text :=
  (t.splitOn mark).flatten

def words (t : Text) : List Text :=
  (t.splitBy isBlank).filter (!·.isEmpty)

def trimStart (t : Text) : Text :=
  t.dropWhile isBlank

def trimEnd (t : Text) : Text :=
  (t.reverse.dropWhile isBlank).reverse

def trim (t : Text) : Text :=
  t.trimStart.trimEnd

def isBlankLine (t : Text) : Bool :=
  t.all isBlank

/-- Letters `A` to `Z` become small; every other character stays. -/
def lower (t : Text) : Text :=
  t.map Char.toLower

def upper (t : Text) : Text :=
  t.map Char.toUpper

/-- The size of the text in UTF-8 bytes. -/
def byteSize (t : Text) : Nat :=
  t.foldr (fun c size => c.utf8Size + size) 0

def contains (t needle : Text) : Bool :=
  match t with
  | [] => needle.isEmpty
  | _ :: rest => needle.isPrefixOf t || contains rest needle

def containsAny (t : Text) (needles : List String) : Bool :=
  needles.any fun needle => t.contains needle.toList

/-- The text before the first occurrence of `needle` and the text after it. -/
def cutAt? (needle : Text) : Text → Option (Text × Text)
  | [] => if needle.isEmpty then some ([], []) else none
  | c :: rest =>
      if needle.isPrefixOf (c :: rest) then some ([], (c :: rest).drop needle.length)
      else (cutAt? needle rest).map fun (before, after) => (c :: before, after)

/-- The text before the first `mark`, or all of it. -/
def before (t : Text) (mark : Char) : Text :=
  t.takeWhile (· != mark)

def dropPrefix? (t lead : Text) : Option Text :=
  if lead.isPrefixOf t then some (t.drop lead.length) else none

def dropSuffix? (t tail : Text) : Option Text :=
  if tail.isSuffixOf t then some (t.take (t.length - tail.length)) else none

/-- Every occurrence of the character `old` is written as `new`. -/
def replaceChar (t : Text) (old : Char) (new : Text) : Text :=
  t.flatMap fun c => if c == old then new else [c]

/-- The pieces put together with `separator` between neighbours. -/
def join (separator : Text) (pieces : List Text) : Text :=
  separator.intercalate pieces

def toString (t : Text) : String :=
  String.ofList t

@[simp] theorem lines_nil : lines [] = [] := by
  rw [lines]

theorem splitBy_ne_nil (cut : Char → Bool) (t : Text) : splitBy cut t ≠ [] := by
  cases t with
  | nil => simp [splitBy]
  | cons c rest =>
      unfold splitBy
      split
      · simp
      · split <;> simp

end Text

/-- Code points order texts the same way as their UTF-8 bytes do. -/
def Text.le (a b : Text) : Bool :=
  match a, b with
  | [], _ => true
  | _ :: _, [] => false
  | c :: a', d :: b' => if c == d then Text.le a' b' else c.toNat < d.toNat

/-- The order of names and paths in every listing. -/
def nameLe (a b : String) : Bool :=
  Text.le a.toList b.toList

end RepoAudit
