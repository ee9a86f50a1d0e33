import RepoAudit.Licenses.Identifier
import RepoAudit.Pattern.Basic

/-!
# Recognizing license texts

Full license texts name other licenses in their bodies, so a family with a title is recognized by
the title lines.  The body decides only where these name no family.
-/

namespace RepoAudit.LicenseText

open Pattern

/-- The number of title lines. -/
def titleLines : Nat := 3

/-- The first lines that are not blank, trimmed, in capital letters. -/
def heading (t : Text) : Text :=
  Text.upper (Text.join ['\n'] (((t.lines.map Text.trim).filter (!·.isEmpty)).take titleLines))

/-- A version number, with at most one point in it. -/
def versionMark : Pattern :=
  .seq (literal "VERSION ")
    (.group 1 (.seq (many1 isDecimal) (perhaps (.seq (char '.') (many1 isDecimal)))))

/-- The first version that a text states. -/
def version? (t : Text) : Option Text :=
  (versionMark.first? t).bind (·.group? 1)

def ofHeading? (t : Text) : Option LicenseId :=
  if t.containsAny ["MOZILLA PUBLIC LICENSE"] then some .mpl2
  else if t.containsAny ["GNU AFFERO GENERAL PUBLIC LICENSE"] then some .agpl3
  else if t.containsAny
      ["GNU LESSER GENERAL PUBLIC LICENSE", "GNU LIBRARY GENERAL PUBLIC LICENSE"] then
    some (if version? t == some ['3'] then .lgpl3 else .lgpl21)
  else if t.containsAny ["GNU GENERAL PUBLIC LICENSE"] then
    some (if version? t == some ['2'] then .gpl2 else .gpl3)
  else if t.containsAny ["APACHE LICENSE"] then some .apache2
  else none

def ofBody? (t : Text) : Option LicenseId :=
  if t.containsAny ["MIT LICENSE", "PERMISSION IS HEREBY GRANTED, FREE OF CHARGE"] then some .mit
  else if t.containsAny ["REDISTRIBUTION AND USE IN SOURCE AND BINARY FORMS"] then
    some (if t.containsAny ["NEITHER THE NAME"] then .bsd3 else .bsd2)
  else if t.containsAny ["PERMISSION TO USE, COPY, MODIFY, AND/OR DISTRIBUTE"] then some .isc
  else if t.containsAny ["GNU AFFERO GENERAL PUBLIC LICENSE"] then some .agpl3
  else if t.containsAny ["GNU LESSER GENERAL PUBLIC LICENSE"] then some .lgpl3
  else if t.containsAny ["GNU GENERAL PUBLIC LICENSE"] then
    some (if t.containsAny ["VERSION 2"] && !t.containsAny ["VERSION 3"] then .gpl2 else .gpl3)
  else none

/-- The license whose text this is. -/
def recognize? (t : Text) : Option LicenseId :=
  ofHeading? (heading t) <|> ofBody? t.upper

end RepoAudit.LicenseText
