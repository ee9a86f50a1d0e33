import RepoAudit.Path

/-!
# Languages

The language of a file is told by its extension, in any case of letters.
-/

namespace RepoAudit

inductive Language where
  | javaScript
  | typeScript
  | python
  | java
  | go
  | ruby
  | php
  | cSharp
  | c
  | cpp
  | rust
  | swift
  | kotlin
  | scala
  | vue
  | html
  | css
  | shell
  | unknown
  deriving DecidableEq

namespace Language

def all : List Language :=
  [javaScript, typeScript, python, java, go, ruby, php, cSharp, c, cpp, rust, swift, kotlin, scala,
    vue, html, css, shell, unknown]

/-- The name in reports for readers. -/
def name : Language → String
  | javaScript => "JavaScript"
  | typeScript => "TypeScript"
  | python => "Python"
  | java => "Java"
  | go => "Go"
  | ruby => "Ruby"
  | php => "PHP"
  | cSharp => "C#"
  | c => "C"
  | cpp => "C++"
  | rust => "Rust"
  | swift => "Swift"
  | kotlin => "Kotlin"
  | scala => "Scala"
  | vue => "Vue"
  | html => "HTML"
  | css => "CSS"
  | shell => "Shell"
  | unknown => "Unknown"

/-- The name in data. -/
def key : Language → String
  | php => "Php"
  | cSharp => "CSharp"
  | cpp => "Cpp"
  | html => "Html"
  | css => "Css"
  | language => language.name

def ofKey? (key : String) : Option Language :=
  all.find? (·.key == key)

def extensions : Language → List String
  | javaScript => ["js", "jsx", "mjs", "cjs"]
  | typeScript => ["ts", "tsx", "mts", "cts"]
  | python => ["py", "pyw"]
  | java => ["java"]
  | go => ["go"]
  | ruby => ["rb"]
  | php => ["php"]
  | cSharp => ["cs"]
  | c => ["c", "h"]
  | cpp => ["cpp", "cc", "cxx", "hpp", "hh"]
  | rust => ["rs"]
  | swift => ["swift"]
  | kotlin => ["kt", "kts"]
  | scala => ["scala"]
  | vue => ["vue"]
  | html => ["html", "htm"]
  | css => ["css", "scss", "sass", "less"]
  | shell => ["sh", "bash"]
  | unknown => []

def ofExtension (ext : String) : Language :=
  let key := String.ofList (Text.lower ext.toList)
  (all.find? (·.extensions.contains key)).getD unknown

def ofPath (path : String) : Language :=
  match Path.extension? path with
  | some ext => ofExtension ext
  | none => unknown

/-- Programming languages, as opposed to markup, styling and what is not known. -/
def isCode : Language → Bool
  | html | css | unknown => false
  | _ => true

/-- Languages written with braces and keywords as in C. -/
def isCFamily : Language → Bool
  | javaScript | typeScript | java | cSharp | c | cpp | php | swift | kotlin | scala | vue => true
  | _ => false

end Language
end RepoAudit
