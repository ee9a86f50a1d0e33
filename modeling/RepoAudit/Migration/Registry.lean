import RepoAudit.Migration.Definition

/-!
# The migrations that can be planned

Each definition with its markers and, where they have been written, its breaking changes and steps.
-/

namespace RepoAudit.Migration

open Pattern

/-- A whole word. -/
def word (s : String) : Pattern :=
  bounded (literal s)

/-- A word at the end of which a word ends. -/
def endingWord (s : String) : Pattern :=
  .seq (literal s) .wordBoundary

def reactHooks : Definition where
  name := "react-class-to-hooks"
  source := "React Class Components"
  target := "React Hooks"
  extensions := ["js", "jsx", "ts", "tsx"]
  markers := [
    { label := "class component"
      pattern := sequence [
        literal "extends", someBlanks, perhaps (literal "React."), perhaps (literal "Pure"),
        endingWord "Component"] },
    { label := "componentDidMount", pattern := word "componentDidMount" },
    { label := "componentDidUpdate", pattern := word "componentDidUpdate" },
    { label := "componentWillUnmount", pattern := word "componentWillUnmount" },
    { label := "setState", pattern := call (literal "this.setState") }]
  breakingChanges := [
    "Lifecycle methods (componentDidMount, componentDidUpdate, componentWillUnmount) must be rewritten with useEffect",
    "this.state and this.setState are replaced by useState or useReducer",
    "Refs created with createRef and instance fields become useRef",
    "Error boundaries (componentDidCatch, getDerivedStateFromError) have no hook equivalent and stay class components",
    "getSnapshotBeforeUpdate has no hook equivalent",
    "shouldComponentUpdate is replaced by React.memo with a comparison function",
    "Methods bound to this become closures or useCallback handlers"]
  steps := [
    { title := "Upgrade React"
      description := "Move to React 16.8 or later and enable eslint-plugin-react-hooks" },
    { title := "Convert presentational components"
      description :=
        "Rewrite class components without state or lifecycle methods as function components" },
    { title := "Replace component state"
      description := "Move this.state and this.setState to useState or useReducer" },
    { title := "Replace lifecycle methods"
      description :=
        "Express mount, update and unmount behaviour with useEffect and its cleanup function" },
    { title := "Verify and clean up"
      description :=
        "Run the test suite, check rendering behaviour and remove unused class helpers" }]

def typeScript : Definition where
  name := "javascript-to-typescript"
  source := "JavaScript"
  target := "TypeScript"
  extensions := ["js", "jsx", "mjs", "cjs"]
  markers := [
    { label := "function", pattern := .alt (word "function") (literal "=>") },
    { label := "require", pattern := call (startingWord "require") },
    { label := "module.exports", pattern := word "module.exports" },
    { label := "es module"
      pattern := sequence [.lineStart, blanks, anyWord ["import", "export"], .one isBlank] }]
  breakingChanges := [
    "Implicit any values are rejected under strict mode",
    "CommonJS require/module.exports should become ES module imports and exports",
    "Objects extended with ad hoc properties need explicit interfaces",
    "Third-party packages without bundled types need @types packages or declarations",
    "Build and test tooling must compile .ts/.tsx sources"]
  steps := [
    { title := "Add TypeScript tooling"
      description :=
        "Install typescript, add tsconfig.json with allowJs and wire the compiler into the build" },
    { title := "Install type declarations"
      description := "Add @types packages for dependencies that do not ship their own types" },
    { title := "Rename leaf modules"
      description :=
        "Convert modules without internal dependents to .ts first and fix reported errors" },
    { title := "Type shared models"
      description := "Introduce interfaces for data passed between modules" },
    { title := "Convert remaining files"
      description := "Rename the rest of the codebase and switch module syntax to ES imports" },
    { title := "Enable strict mode"
      description := "Turn on strict and noImplicitAny once all files compile" }]

def vue3 : Definition where
  name := "vue2-to-vue3"
  source := "Vue 2"
  target := "Vue 3"
  extensions := ["vue", "js", "ts"]
  markers := [
    { label := "new Vue", pattern := call (sequence [literal "new", someBlanks, literal "Vue"]) },
    { label := "global registration"
      pattern := call (.seq (startingWord "Vue.") (anyWord ["component", "use", "filter", "mixin"])) },
    { label := "event emitter"
      pattern := call (.seq (char '$') (anyWord ["on", "off", "once"])) },
    { label := "$listeners", pattern := endingWord "$listeners" },
    { label := "filters", pattern := sequence [startingWord "filters", blanks, char ':'] },
    { label := ".sync", pattern := endingWord ".sync" },
    { label := "destroy hooks", pattern := bounded (anyWord ["beforeDestroy", "destroyed"]) }]
  breakingChanges := [
    "new Vue() is replaced by createApp()",
    "Global Vue.component/Vue.use registration moves to the app instance",
    "Filters are removed and become methods or computed properties",
    "$on, $off and $once event emitter APIs are removed",
    "$listeners is merged into $attrs",
    "The .sync modifier is replaced by v-model arguments",
    "beforeDestroy and destroyed are renamed to beforeUnmount and unmounted"]
  steps := [
    { title := "Run the migration build"
      description := "Install @vue/compat and fix the deprecation warnings it reports" },
    { title := "Update the application bootstrap"
      description := "Replace new Vue() with createApp() and move global registrations" },
    { title := "Remove deprecated APIs"
      description := "Replace filters, event emitter usage and the .sync modifier" },
    { title := "Update dependencies"
      description := "Move Vue Router, Vuex and UI libraries to their Vue 3 releases" },
    { title := "Drop the compatibility build"
      description := "Remove @vue/compat once no compatibility warnings remain" }]

def angular : Definition where
  name := "angularjs-to-angular"
  source := "AngularJS"
  target := "Angular"
  extensions := ["js", "ts", "html"]
  markers := [
    { label := "angular.module", pattern := call (literal "angular.module") },
    { label := "$scope", pattern := endingWord "$scope" },
    { label := "ng directives"
      pattern := bounded
        (.seq (literal "ng-") (anyWord ["controller", "repeat", "model", "if", "click"])) },
    { label := "registrations"
      pattern := call
        (.seq (char '.') (anyWord ["controller", "directive", "factory", "service"])) },
    { label := "$http", pattern := endingWord "$http" }]
  breakingChanges := [
    "$scope is removed; component state lives on component classes",
    "Controllers and directives become components",
    "Factories and services become injectable classes",
    "$http is replaced by HttpClient returning observables",
    "Template syntax changes (ng-repeat to *ngFor, ng-if to *ngIf, ng-model to [(ngModel)])",
    "Routing moves from ngRoute/ui-router to the Angular router"]
  steps := [
    { title := "Prepare the AngularJS code"
      description :=
        "Adopt component-style directives and TypeScript in the AngularJS application" },
    { title := "Bootstrap a hybrid application"
      description := "Run Angular and AngularJS side by side with ngUpgrade" },
    { title := "Migrate services"
      description :=
        "Convert factories and services to injectable classes and downgrade them for AngularJS" },
    { title := "Migrate components"
      description :=
        "Rewrite controllers and directives as Angular components, leaves first" },
    { title := "Migrate routing", description := "Move routes to the Angular router" },
    { title := "Remove AngularJS"
      description := "Drop ngUpgrade and AngularJS once no AngularJS code remains" }]

def vanillaScript : Definition where
  name := "jquery-to-vanilla"
  source := "jQuery"
  target := "Vanilla JavaScript"
  extensions := ["js", "jsx", "ts", "html"]
  markers := [
    { label := "selector", pattern := call (anyWord ["$", "jQuery"]) },
    { label := "utilities"
      pattern := call (.seq (literal "$.") (anyWord ["ajax", "get", "post", "each", "extend"])) }]
  steps := genericSteps "jQuery" "Vanilla JavaScript"

def python3 : Definition where
  name := "python2-to-python3"
  source := "Python 2"
  target := "Python 3"
  extensions := ["py"]
  markers := [
    { label := "print statement"
      pattern := sequence [
        .lineStart, blanks, literal "print", someBlanks,
        .one fun c => !isBlank c && noneOf "(=" c] },
    { label := "removed builtins"
      pattern := call
        (.seq .wordBoundary (anyWord ["xrange", "raw_input", "unicode", "basestring"])) },
    { label := "dict iterators"
      pattern := call
        (.seq (char '.') (anyWord ["iteritems", "iterkeys", "itervalues", "has_key"])) },
    { label := "urllib2", pattern := word "urllib2" },
    { label := "except syntax"
      pattern := sequence [
        literal "except", someBlanks, many1 isWord, blanks, char ',', blanks, many1 isWord, blanks,
        char ':'] }]
  steps := genericSteps "Python 2" "Python 3"

/-- The known migrations, in the order in which they are listed. -/
def registry : List Definition :=
  [reactHooks, typeScript, vue3, angular, vanillaScript, python3]

def supportedTypes : List String :=
  registry.map Definition.name

def find? (name : String) : Option Definition :=
  registry.find? (·.name == name)

end RepoAudit.Migration
