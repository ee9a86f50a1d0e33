import RepoAudit.Text.Basic

/-!
# Glob patterns

Patterns for relative paths.  `?` and `*` stand for any characters, separators included; `**` stands
for whole directories and must fill a path segment; brackets list characters and ranges.
-/

namespace RepoAudit

namespace Glob

inductive Token where
  | char (c : Char)
  | anyChar
  /-- One character in one of the ranges, or in none of them when `negated`. -/
  | oneOf (negated : Bool) (ranges : List (Char × Char))
  | anySequence
  | anyDirectories

inductive Cause where
  | wildcards
  | recursiveWildcards
  | range

/-- What is wrong with a pattern, and near which of its characters. -/
structure Error where
  position : Nat
  cause : Cause

def Cause.message : Cause → String
  | .wildcards => "wildcards are either regular `*` or recursive `**`"
  | .recursiveWildcards => "recursive wildcards must form a single path component"
  | .range => "invalid range pattern"

def Error.message (e : Error) : String :=
  "Pattern syntax error near position " ++ toString e.position ++ ": " ++ e.cause.message

/-- The ranges written between brackets; a lone character is a range of one. -/
def ranges : Text → List (Char × Char)
  | first :: '-' :: last :: rest => (first, last) :: ranges rest
  | c :: rest => (c, c) :: ranges rest
  | [] => []

/-- The characters inside brackets and the text after them.  The first one is taken as it is. -/
def bracketed? : Text → Option (Text × Text)
  | [] => none
  | first :: rest => (Text.cutAt? [']'] rest).map fun (more, after) => (first :: more, after)

/-- Reads tokens; `previous` is the character before the position. -/
def readTokens : (fuel position : Nat) → (previous : Option Char) → Text → Except Error (List Token)
  | 0, _, _, _ => .ok []
  | _ + 1, _, _, [] => .ok []
  | fuel + 1, position, previous, c :: rest =>
      match c with
      | '?' => (readTokens fuel (position + 1) (some c) rest).map (.anyChar :: ·)
      | '*' =>
          let more := rest.takeWhile (· == '*')
          let rest := rest.drop more.length
          match more with
          | [] => (readTokens fuel (position + 1) (some c) rest).map (.anySequence :: ·)
          | [_] =>
              if previous.any (· != '/') then .error ⟨position - 1, .recursiveWildcards⟩
              else
                match rest with
                | [] => .ok [.anyDirectories]
                | '/' :: rest =>
                    (readTokens fuel (position + 3) (some '/') rest).map (.anyDirectories :: ·)
                | _ => .error ⟨position + 2, .recursiveWildcards⟩
          | _ => .error ⟨position + 2, .wildcards⟩
      | '[' =>
          let (negated, inside) : Bool × Text :=
            match rest with
            | '!' :: inside => (true, inside)
            | _ => (false, rest)
          match bracketed? inside with
          | none => .error ⟨position, .range⟩
          | some (characters, after) =>
              let width := characters.length + (if negated then 3 else 2)
              (readTokens fuel (position + width) (some ']') after).map
                (.oneOf negated (ranges characters) :: ·)
      | _ => (readTokens fuel (position + 1) (some c) rest).map (.char c :: ·)

/-- Some suffix of the text is accepted. -/
def anySuffix (accept : Text → Bool) : Text → Bool
  | [] => accept []
  | c :: rest => accept (c :: rest) || anySuffix accept rest

/-- Some rest of the text after a separator, or its end, is accepted. -/
def afterSeparator (accept : Text → Bool) : Text → Bool
  | [] => accept []
  | c :: rest => (c == '/' && accept rest) || afterSeparator accept rest

def Token.admits : Token → Char → Bool
  | .char c, d => c == d
  | .oneOf negated ranges, d =>
      negated != ranges.any fun (low, high) => low.toNat ≤ d.toNat && d.toNat ≤ high.toNat
  | _, _ => true

def accepts : List Token → Text → Bool
  | [], t => t.isEmpty
  | .anySequence :: tokens, t => anySuffix (fun rest => accepts tokens rest) t
  | .anyDirectories :: tokens, t =>
      accepts tokens t || afterSeparator (fun rest => accepts tokens rest) t
  | _ :: _, [] => false
  | token :: tokens, c :: rest => token.admits c && accepts tokens rest

end Glob

/-- A pattern whose syntax has been checked. -/
structure Glob where
  tokens : List Glob.Token

namespace Glob

def ofText (pattern : String) : Except Error Glob :=
  let t := pattern.toList
  (readTokens t.length 0 none t).map Glob.mk

def matchesPath (g : Glob) (path : String) : Bool :=
  accepts g.tokens path.toList

end Glob
end RepoAudit
