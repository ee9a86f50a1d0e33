import RepoAudit.Decimal.Unsigned
import RepoAudit.Pattern.Classes

/-!
# Version specifications

A version requirement is a list of comparators between commas, each an operator and a version whose
parts after the first may be left out or replaced by a wildcard.  Only the first parts are kept.
Specifications that are no such requirement still have a first number.
-/

namespace RepoAudit.VersionSpec

def skipSpaces (t : Text) : Text :=
  t.dropWhile (· == ' ')

/-- What follows a wildcard. -/
def wildcard? : Text → Option Text
  | '*' :: rest | 'x' :: rest | 'X' :: rest => some rest
  | _ => none

def dropOperator : Text → Text
  | '=' :: rest => rest
  | '>' :: '=' :: rest => rest
  | '>' :: rest => rest
  | '<' :: '=' :: rest => rest
  | '<' :: rest => rest
  | '~' :: rest => rest
  | '^' :: rest => rest
  | t => t

/-- A number of 64 bits without leading zeros. -/
def number? (t : Text) : Option (Nat × Text) :=
  let digits := t.takeWhile Char.isDigit
  match digits with
  | [] => none
  | '0' :: _ :: _ => none
  | _ =>
      match Decimal.readUnsigned UInt64.size digits with
      | .ok n => some (n, t.drop digits.length)
      | .error _ => none

def isIdentifierChar (c : Char) : Bool :=
  c.isAlphanum || c == '-'

/-- The segments of a label between dots.  In a release label a number has no leading zero. -/
def labelOk (release : Bool) (label : Text) : Bool :=
  (Text.splitBy (· == '.') label).all fun s =>
    !s.isEmpty && !(release && s.all Char.isDigit && 1 < s.length && s.head? == some '0')

/-- What follows a label, from after the character that announces it. -/
def label? (release : Bool) (t : Text) : Option Text :=
  let label := t.takeWhile fun c => isIdentifierChar c || c == '.'
  if labelOk release label then some (t.drop label.length) else none

/-- What follows the release and build labels of a full version. -/
def labels? (t : Text) : Option Text := do
  let t ← match t with
    | '-' :: rest => label? true rest
    | _ => some t
  match t with
  | '+' :: rest => label? false rest
  | _ => some t

/-- What follows a version from after its first part. -/
def afterMajor? (t : Text) : Option Text :=
  match t with
  | '.' :: rest =>
      match wildcard? rest with
      | some rest =>
          match rest with
          | '.' :: rest => wildcard? rest
          | _ => some rest
      | none => do
          let (_, rest) ← number? rest
          match rest with
          | '.' :: rest =>
              match wildcard? rest with
              | some rest => some rest
              | none => do
                  let (_, rest) ← number? rest
                  labels? rest
          | _ => some rest
  | _ => some t

/-- The first part of one comparator, and what follows it. -/
def comparator? (t : Text) : Option (Nat × Text) := do
  let (major, rest) ← number? (skipSpaces (dropOperator t))
  let rest ← afterMajor? rest
  return (major, skipSpaces rest)

/-- The first parts of at most so many comparators. -/
def comparators? : (limit : Nat) → Text → Option (List Nat)
  | 0, _ => none
  | limit + 1, t => do
      let (major, rest) ← comparator? t
      match rest with
      | [] => return [major]
      | ',' :: rest =>
          let majors ← comparators? limit (skipSpaces rest)
          return major :: majors
      | _ => none

/-- The first parts of a requirement; none of them when it is a lone wildcard. -/
def majors? (t : Text) : Option (List Nat) :=
  let t := skipSpaces t
  match wildcard? t with
  | some rest => if (skipSpaces rest).isEmpty then some [] else none
  | none => comparators? 32 t

def firstNumber : Pattern :=
  Pattern.many1 isDecimal

/-- The value of the first run of digits, when it fits into 64 bits. -/
def firstNumber? (t : Text) : Option Nat :=
  (firstNumber.first? t).bind fun m => (Decimal.readUnsigned UInt64.size m.text).toOption

/-- Specifications that name no version: anything, the latest one, or a place. -/
def isUnversioned (t : Text) : Bool :=
  t.isEmpty || t == ['*'] || t.lower == "latest".toList || t.contains "://".toList ||
    "git".toList.isPrefixOf t || "file:".toList.isPrefixOf t || "$\x7b".toList.isPrefixOf t

/-- The major version that a specification asks for, when that can be told. -/
def major? (spec : Text) : Option Nat :=
  let t := spec.trim
  if isUnversioned t then none
  else
    match majors? (t.dropWhile fun c => c == 'v' || c == 'V') with
    | some majors => majors.head?
    | none => firstNumber? t

end RepoAudit.VersionSpec
