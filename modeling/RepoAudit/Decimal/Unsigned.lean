import RepoAudit.Text.Basic

/-!
# Bounded whole numbers

Whole numbers without a sign, or with a plus sign, that must stay below a limit.
-/

namespace RepoAudit.Decimal

inductive UnsignedError where
  | empty
  | invalidDigit
  | tooLarge
  deriving DecidableEq

def UnsignedError.message : UnsignedError → String
  | .empty => "cannot parse integer from empty string"
  | .invalidDigit => "invalid digit found in string"
  | .tooLarge => "number too large to fit in target type"

/-- Reads digits after the value so far; the first fault from the left counts. -/
def readDigits (limit : Nat) : (value : Nat) → Text → Except UnsignedError Nat
  | value, [] => .ok value
  | value, c :: rest =>
      if !c.isDigit then .error .invalidDigit
      else
        let value := value * 10 + (c.toNat - 48)
        if value < limit then readDigits limit value rest else .error .tooLarge

def readUnsigned (limit : Nat) (t : Text) : Except UnsignedError Nat :=
  match t with
  | [] => .error .empty
  | ['+'] => .error .invalidDigit
  | '+' :: rest => readDigits limit 0 rest
  | _ => readDigits limit 0 t

end RepoAudit.Decimal
