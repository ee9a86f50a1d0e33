import RepoAudit.Json.Reader
import RepoAudit.Repository

/-!
# Tooling

The frameworks, build tools, package managers and integration services of a repository, told by the
files at its root.
-/

namespace RepoAudit.Structure

/-- The texts without repetitions, in the order of listings. -/
def sortedNames (names : List String) : List String :=
  names.eraseDups.mergeSort nameLe

/-- Packages whose presence in a manifest means a framework. -/
def packageFrameworks : List (String × String) := [
  ("react", "React"), ("next", "Next.js"), ("vue", "Vue"), ("nuxt", "Nuxt"),
  ("@angular/core", "Angular"), ("angular", "AngularJS"), ("svelte", "Svelte"),
  ("express", "Express"), ("@nestjs/core", "NestJS"), ("electron", "Electron"),
  ("gatsby", "Gatsby"), ("jquery", "jQuery")]

/-- Words whose presence in a Python manifest means a framework. -/
def pythonFrameworks : List (String × String) := [
  ("django", "Django"), ("flask", "Flask"), ("fastapi", "FastAPI"), ("pyramid", "Pyramid"),
  ("tornado", "Tornado")]

def buildTools : List (String × String) := [
  ("webpack.config.js", "Webpack"), ("vite.config.js", "Vite"), ("vite.config.ts", "Vite"),
  ("rollup.config.js", "Rollup"), ("gulpfile.js", "Gulp"), ("Gruntfile.js", "Grunt"),
  ("tsconfig.json", "TypeScript Compiler"), ("Makefile", "Make"), ("CMakeLists.txt", "CMake"),
  ("pom.xml", "Maven"), ("build.gradle", "Gradle"), ("build.gradle.kts", "Gradle"),
  ("Cargo.toml", "Cargo"), ("setup.py", "setuptools")]

def lockFiles : List (String × String) :=
  [("package-lock.json", "npm"), ("yarn.lock", "Yarn"), ("pnpm-lock.yaml", "pnpm")]

def packageManagers : List (String × String) := [
  ("requirements.txt", "pip"), ("Pipfile", "Pipenv"), ("poetry.lock", "Poetry"),
  ("go.mod", "Go Modules"), ("Gemfile", "Bundler"), ("composer.json", "Composer"),
  ("Cargo.toml", "Cargo")]

def integrationMarkers : List (String × String) := [
  (".github/workflows", "GitHub Actions"), (".gitlab-ci.yml", "GitLab CI"),
  (".circleci", "CircleCI"), ("Jenkinsfile", "Jenkins"), (".travis.yml", "Travis CI"),
  ("azure-pipelines.yml", "Azure Pipelines")]

/-- The names whose file is at the root. -/
def present (v : Volume) (repo : String) (table : List (String × String)) : List String :=
  (table.filter fun (file, _) => v.isFile (Path.join repo file)).map Prod.snd

def integrationServices (v : Volume) (repo : String) : List String :=
  (integrationMarkers.filter fun (marker, _) =>
    (v.resolve (Path.join repo marker)).toBool).map Prod.snd

/-- A package manifest without a lock file beside it. -/
def lacksLock (v : Volume) (repo : String) : Bool :=
  v.isFile (Path.join repo "package.json") && (present v repo lockFiles).isEmpty

def managersInUse (v : Volume) (repo : String) : List String :=
  sortedNames (present v repo lockFiles ++ (if lacksLock v repo then ["npm"] else []) ++
    present v repo packageManagers)

/-- Names found, and the problem met while looking. -/
abbrev Found := List String × List Warning

/-- Looks into a file at the root that need not be there. -/
def lookInto (v : Volume) (repo file : String) (look : String → Found) : Found :=
  match readOptional v "structure" (Path.join repo file) with
  | .ok (some text) => look text
  | .ok none => ([], [])
  | .error w => ([], [w])

def frameworksOfPackages (manifest : Json) : List String :=
  ["dependencies", "devDependencies"].flatMap fun name =>
    match (manifest.get? name).bind Json.members? with
    | some members =>
        (packageFrameworks.filter fun (package, _) => (members.lookup package).isSome).map Prod.snd
    | none => []

def frameworksOfPython (text : String) : List String :=
  let lower := Text.lower text.toList
  (pythonFrameworks.filter fun (word, _) => lower.contains word.toList).map Prod.snd

def frameworksOfMaven (text : String) : List String :=
  let t : Text := text.toList
  if t.contains "spring-boot".toList then ["Spring Boot"]
  else if t.contains "spring".toList then ["Spring"]
  else []

def frameworks (v : Volume) (repo : String) : Found :=
  let packages := lookInto v repo "package.json" fun text =>
    match Json.ofText text.toList with
    | .ok manifest => (frameworksOfPackages manifest, [])
    | .error f =>
        ([], [{ source := "structure", path := some (Path.join repo "package.json")
                message := f.message text.toList }])
  let python := ["requirements.txt", "setup.py"].map fun file =>
    lookInto v repo file fun text => (frameworksOfPython text, [])
  let maven := lookInto v repo "pom.xml" fun text => (frameworksOfMaven text, [])
  let all := packages :: python ++ [maven]
  let django := if v.isFile (Path.join repo "manage.py") then ["Django"] else []
  (sortedNames (all.flatMap Prod.fst ++ django), all.flatMap Prod.snd)

end RepoAudit.Structure
