import KodyCelld.Errors
import KodyCelld.Lib.Json
import Mathlib.Data.List.Sort

namespace KodyCelld.Execute

open KodyCelld.Lib

/-!
# Import specifiers and type stripping (`execute/import-specifiers.ts`, `execute/strip-types.ts`)

The third-party pieces are the fields of `Toolchain`: the import lexer, the transpiler, the JSONC
comment stripper.  The source's own reading of their results is translated here: which lexer
entries are imports, which are erased, how their specifiers are replaced in the text, and which
options a file is compiled with.
-/

inductive TranspileKind where
  | ts | tsx | jsx
  deriving DecidableEq, Repr

/-- `jsxRuntime`; `inherited` is a member of `Object.prototype` read from the table. -/
inductive JsxRuntime where
  | automatic | classic | preserve | inherited
  deriving DecidableEq, Repr

structure JsxOptions where
  runtime : JsxRuntime
  importSource : Option Text
  deriving DecidableEq, Repr

/-- An entry of the lexer: the decoded specifier `n`, its range, the start of the statement, and
    `d` (`-1` static, `-2` `import.meta`, otherwise dynamic). -/
structure LexEntry where
  n : Option Text
  s : ℕ
  e : ℕ
  ss : ℕ
  d : ℤ
  deriving DecidableEq, Repr

/-- The third-party code a package file passes through; `Except.error` carries the message. -/
structure Toolchain where
  /-- `parse` of `es-module-lexer` (source, module path). -/
  parse : Text → Text → Except Text (List LexEntry)
  /-- `transform` of `sucrase`. -/
  transform : TranspileKind → Option JsxOptions → Text → Except Text Text
  /-- `stripJsonComments(text, { trailingCommas: true })` -/
  stripJsonComments : Text → Text
  /-- The text of the `SyntaxError` that `JSON.parse` throws. -/
  jsonSyntaxError : Text → Text

/-! ### Scanning -/

/-- `\w` -/
def isWord (c : Char) : Bool := isDigit c || isLetter c || c == '_'

/-- `\b` after a word character. -/
def atBoundary : Text → Bool
  | [] => true
  | c :: _ => !isWord c

/-- `text.endsWith(suffix)` -/
def endsWith (text suffix : Text) : Bool := suffix.isSuffixOf text

/-- `text.startsWith(start)` -/
def startsWith (text start : Text) : Bool := start.isPrefixOf text

/-- `text.slice(a, b)` -/
def slice (text : Text) (a b : ℕ) : Text := (text.drop a).take (b - a)

/-- The position of the first occurrence, as `indexOf` finds it. -/
def indexOf? (needle : Text) : Text → Option ℕ
  | [] => if needle = [] then some 0 else none
  | c :: rest =>
    if needle.isPrefixOf (c :: rest) then some 0 else (indexOf? needle rest).map (· + 1)

/-- `text.replace(/^\.\//, '')` -/
def dropDotSlash : Text → Text
  | '.' :: '/' :: rest => rest
  | path => path

/-! ### Imports -/

inductive ImportKind where
  | static | dynamic
  deriving DecidableEq, Repr

/-- One import specifier in a module; `start` and `stop` cover its text without the quotes. -/
structure ImportSpecifierRange where
  specifier : Text
  start : ℕ
  stop : ℕ
  kind : ImportKind
  typeOnly : Bool
  deriving DecidableEq, Repr

/-- What is left after `word\s+type\b`. -/
def afterWordType (word stmt : Text) : Option Text :=
  match stripWord? word stmt with
  | none => none
  | some rest =>
    if (rest.takeWhile isSpace).isEmpty then none
    else match stripWord? "type" (rest.dropWhile isSpace) with
      | none => none
      | some rest => if atBoundary rest then some rest else none

/-- `/^\s*[A-Za-z_$][\w$]*\s+from\b/` -/
def namesBindingFrom (after : Text) : Bool :=
  match after.dropWhile isSpace with
  | c :: rest =>
    (isLetter c || c == '_' || c == '$') &&
      (let rest := rest.dropWhile fun c => isWord c || c == '$'
       !(rest.takeWhile isSpace).isEmpty &&
         match stripWord? "from" (rest.dropWhile isSpace) with
         | some rest => atBoundary rest
         | none => false)
  | [] => false

/-- `import type …` and `export type … from`, which TypeScript erases. -/
def isTypeOnlyImportStatement (source : Text) (statementStart : ℕ) : Bool :=
  let stmt := source.drop statementStart
  if (afterWordType "export" stmt).isSome then true
  else match afterWordType "import" stmt with
    | none => false
    | some after =>
      match after.dropWhile isSpace with
      | '\x7b' :: _ => true
      | '*' :: _ => true
      | _ => namesBindingFrom after

/-- The quote characters of a literal dynamic import. -/
def quotes : Text := "'\"" ++ [Char.ofNat 96]

/-- The range of a lexer entry, when it is an import of a literal. -/
def importRange (source : Text) (entry : LexEntry) : Option ImportSpecifierRange :=
  match entry.n with
  | none => none
  | some n =>
    if entry.d = -2 then none
    else if entry.d = -1 then
      some { specifier := n, start := entry.s, stop := entry.e, kind := .static,
             typeOnly := isTypeOnlyImportStatement source entry.ss }
    else match source[entry.s]? with
      | none => none
      | some quote =>
        if quote ∈ quotes ∧ source[entry.e - 1]? = some quote then
          some { specifier := n, start := entry.s + 1, stop := entry.e - 1, kind := .dynamic,
                 typeOnly := false }
        else none

variable (tools : Toolchain)

def lexImportSpecifiers (source modulePath : Text) : Except Thrown (List ImportSpecifierRange) :=
  match tools.parse source modulePath with
  | .error message =>
    .error (.kody "invalid_module"
      ("Cannot read the imports of " ++ modulePath ++ ": " ++ message ++ "."))
  | .ok imports => .ok (imports.filterMap (importRange source))

/-- The loop of `replaceImportSpecifiers` over sorted ranges, from `cursor` on. -/
def spliceSpecifiers (source : Text) (replace : Text → Option Text) :
    (cursor : ℕ) → List ImportSpecifierRange → Text
  | cursor, [] => source.drop cursor
  | cursor, range :: rest =>
    match replace range.specifier with
    | none => spliceSpecifiers source replace cursor rest
    | some next =>
      if next = range.specifier then spliceSpecifiers source replace cursor rest
      else slice source cursor range.start ++ next ++
        spliceSpecifiers source replace range.stop rest

/-- Replaces each specifier that `replace` maps; `none` keeps it. -/
def replaceImportSpecifiers (source : Text) (replace : Text → Option Text)
    (ranges : List ImportSpecifierRange) : Text :=
  spliceSpecifiers source replace 0 (ranges.insertionSort fun a b => a.start ≤ b.start)

/-- Module paths a relative import resolving to `target` may name, in lookup order. -/
def relativeImportCandidates (target : Text) : List Text :=
  let asJs := if endsWith target ".ts" then target.take (target.length - 3) ++ ".js" else target
  [target, target ++ ".js", asJs, target ++ "/index.js"].eraseDups

/-- A breadth-first walk that visits each path once; `fuel` bounds the paths it visits. -/
def walkPaths {ε : Type} (visit : Text → Except ε (List Text)) :
    (fuel : ℕ) → (queue seen : List Text) → Except ε (List Text)
  | fuel, queue, seen =>
    match fuel, queue.dropWhile (· ∈ seen) with
    | _, [] => .ok seen
    | 0, _ => .ok seen
    | fuel + 1, path :: rest =>
      match visit path with
      | .error e => .error e
      | .ok next => walkPaths visit fuel (rest ++ next) (path :: seen)

/-! ### What a file is compiled as -/

/-- The transform a package file needs; `none` for JS, JSON, docs and declaration files. -/
def transpileKind (path : Text) : Option TranspileKind :=
  if endsWith path ".d.ts" || endsWith path ".d.mts" then none
  else if endsWith path ".ts" || endsWith path ".mts" then some .ts
  else if endsWith path ".tsx" then some .tsx
  else if endsWith path ".jsx" then some .jsx
  else none

def isCodeModulePath (path : Text) : Bool :=
  endsWith path ".js" || endsWith path ".mjs" || (transpileKind path).isSome

def classicJsx : JsxOptions := { runtime := .classic, importSource := none }

/-- The comments before the first statement; `fuel` bounds what is left to read. -/
def commentsFrom : (fuel : ℕ) → Text → List Text
  | 0, _ => []
  | fuel + 1, rest =>
    match rest.dropWhile isSpace with
    | '/' :: '/' :: body =>
      let rest := '/' :: '/' :: body
      rest.takeWhile (· ≠ '\n') :: commentsFrom fuel (rest.dropWhile (· ≠ '\n'))
    | '/' :: '*' :: body =>
      match indexOf? "*/" body with
      | none => []
      | some i => ('/' :: '*' :: body.take (i + 2)) :: commentsFrom fuel (body.drop (i + 2))
    | _ => []

/-- The comments that open a file, after an optional `#!` line. -/
def leadingComments (source : Text) : List Text :=
  let body := if startsWith source "#!" then (source.dropWhile (· ≠ '\n')).drop 1 else source
  commentsFrom (body.length + 1) body

/-- The first match of a pattern that `at?` tests at one position. -/
def firstMatch {α : Type} (at? : Text → Option α) : Text → Option α
  | [] => at? []
  | c :: rest => (at? (c :: rest)).orElse fun _ => firstMatch at? rest

/-- `/@jsxRuntime\s+(classic|automatic)\b/` -/
def pragmaRuntime : Text → Option JsxRuntime :=
  firstMatch fun s => do
    let rest ← stripWord? "@jsxRuntime" s
    if (rest.takeWhile isSpace).isEmpty then none
    else
      let word := rest.dropWhile isSpace
      match stripWord? "classic" word, stripWord? "automatic" word with
      | some tail, _ => if atBoundary tail then some .classic else none
      | _, some tail => if atBoundary tail then some .automatic else none
      | _, _ => none

/-- `\S+?(?:\s|\*\/|$)`: at least one character, up to white space, `*/` or the end. -/
def sourceToken : Text → Option Text
  | [] => none
  | c :: rest =>
    if isSpace c then none
    else match rest with
      | [] => some [c]
      | d :: more =>
        if isSpace d ∨ (d = '*' ∧ more.head? = some '/') then some [c]
        else (sourceToken rest).map (c :: ·)

/-- `/@jsxImportSource\s+(\S+?)(?:\s|\*\/|$)/` -/
def pragmaImportSource : Text → Option Text :=
  firstMatch fun s => do
    let rest ← stripWord? "@jsxImportSource" s
    if (rest.takeWhile isSpace).isEmpty then none else sourceToken (rest.dropWhile isSpace)

/-- The options of one file: its leading pragmas over those of the package. -/
def withPragmas (source : Text) (jsx : JsxOptions) : JsxOptions :=
  let comments := leadingComments source
  let runtime := comments.foldl (fun r c => (pragmaRuntime c).orElse fun _ => r) none
  let importSource := comments.foldl (fun r c => (pragmaImportSource c).orElse fun _ => r) none
  if runtime = some .classic then classicJsx
  else if importSource.isSome then { runtime := .automatic, importSource := importSource }
  else if runtime = some .automatic then { runtime := .automatic, importSource := jsx.importSource }
  else jsx

def stripTypes (source whereText : Text) (kind : TranspileKind) (jsx : JsxOptions) :
    Except Thrown Text :=
  let options := if kind = .ts then none else some (withPragmas source jsx)
  match tools.transform kind options source with
  | .ok code => .ok code
  | .error message =>
    .error (.kody "invalid_module" ("Cannot read the " ++
      (if kind = .jsx then "JSX" else "TypeScript") ++ " in " ++ whereText ++ ": " ++ message ++
      "."))

/-- `runtimeByTsconfigJsx[jsx]` -/
def runtimeByTsconfigJsx (jsx : Text) : Option JsxRuntime :=
  if jsx = "react-jsx" ∨ jsx = "react-jsxdev" then some .automatic
  else if jsx = "react" then some .classic
  else if jsx = "preserve" then some .preserve
  else if jsx ∈ objectPrototype then some .inherited
  else none

/-- JSX options from the package's root `tsconfig.json`. -/
def jsxOptionsFromFiles (files : Obj Text) : JsxOptions :=
  match files.get? "tsconfig.json" with
  | none => classicJsx
  | some raw =>
    let text := match raw with
      | '\ufeff' :: rest => rest
      | _ => raw
    match jsonParse (tools.stripJsonComments text) with
    | some (.obj parsed) =>
      match Json.member parsed "compilerOptions" with
      | some (.obj compilerOptions) =>
        match (Json.text? (Json.member compilerOptions "jsx")).bind runtimeByTsconfigJsx with
        | none => classicJsx
        | some runtime =>
          match Json.text? (Json.member compilerOptions "jsxImportSource") with
          | some (c :: cs) => { runtime := runtime, importSource := some (c :: cs) }
          | _ => { runtime := runtime, importSource := none }
      | _ => classicJsx
    | _ => classicJsx

end KodyCelld.Execute
