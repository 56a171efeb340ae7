import KodyCelld.Execute.ModuleGraph
import KodyCelld.Execute.NpmModules
import KodyCelld.Execute.PackageStorage
import KodyCelld.Lib.JsonText

namespace KodyCelld.Execute

open KodyCelld.Lib KodyCelld.Packages

/-!
# The text of package modules (`execute/module-graph.ts`)

A file of a saved package becomes a module in up to three rewrites of its text: the specifiers of
its imports are linked, `packageStorage()` is stamped with the package's name, and the specifiers of
npm imports are linked to the modules that were fetched.

* `splice_items`, `stamp_items` — what a rewrite makes of a text that is read as pieces;
* `included_kept_iff` — when the module of a file keeps everything but imports and calls;
* `module_text_kept` — the same for the whole way into the graph.
-/

/-! ### The rewriter -/

def isBuiltin (specifier : Text) : Bool :=
  startsWith specifier "node:" || startsWith specifier "cloudflare:"

def packageModulePath (packageName filePath : Text) : Text :=
  "packages/" ++ packageName ++ '/' :: filePath

/-- `segments.join('/') || '.'` -/
def exportNameOf (segments : List Text) : Text :=
  let joined := ['/'].intercalate segments
  if joined = [] then "." else joined

/-- The package and the export of a `kody:` specifier. -/
def parseKodyPackageSpecifier (specifier : Text) : Option (Text × Text) :=
  if !startsWith specifier "kody:" || specifier == ("kody:runtime" : Text) then none
  else
    let rest := specifier.drop 5
    let segments := rest.splitOn '/'
    let found :=
      if startsWith rest "@" then
        match segments with
        | scope :: leaf :: more => some (scope ++ '/' :: leaf, exportNameOf more)
        | _ => none
      else
        match segments with
        | leaf :: more => some (leaf, exportNameOf more)
        | [] => some ([], ".")
    found.filter fun p => packageNamePattern p.1

/-- What the rewriter finds when it is asked for a specifier: the graph grows while it is asked. -/
structure Linking where
  /-- The path of a package's export, once the package is loaded and included. -/
  exportPath : (packageName exportName : Text) → Except Thrown Text
  /-- `candidate in modules` -/
  inModules : (specifier path : Text) → Bool
  /-- `providerEntryPaths.has` -/
  isProvider : (specifier path : Text) → Bool
  allowNpm : Bool

namespace Linking

variable (linking : Linking)

def importTarget (specifier fromPath targetPath : Text) : Text :=
  relativeSpecifier fromPath
    (if linking.isProvider specifier targetPath then "kody-sealed.js" else targetPath)

/-- The specifier written in the place of another one. -/
def rewriter (fromPath specifier : Text) : Except Thrown Text :=
  if specifier = "kody:runtime" then .ok (relativeSpecifier fromPath "kody-runtime.js")
  else
    match parseKodyPackageSpecifier specifier with
    | some (packageName, exportName) =>
      (linking.exportPath packageName exportName).map fun path =>
        linking.importTarget specifier fromPath (packageModulePath packageName path)
    | none =>
      if startsWith specifier "kody:" then
        .error (.kody "invalid_import" ("Unknown kody: import \"" ++ specifier ++ "\"."))
      else if isBuiltin specifier then .ok specifier
      else if isRelative specifier then
        match resolveRelative fromPath specifier with
        | .error _ => .ok specifier
        | .ok target =>
          match (relativeImportCandidates target).find? (linking.inModules specifier) with
          | some candidate => .ok (linking.importTarget specifier fromPath candidate)
          | none => .ok specifier
      else if linking.allowNpm then .ok specifier
      else
        .error (.kody "unsupported_import" ("Bare import \"" ++ specifier ++
          "\" is not available: npm imports are disabled on this host."))

end Linking

/-! ### The module of a file -/

/-- The rewriter's answers, one for each specifier that is not only a type's. -/
def askRewriter (rewrite : Text → Except Thrown Text) :
    List ImportSpecifierRange → (replacements : List (Text × Text)) →
      Except Thrown (List (Text × Text))
  | [], replacements => .ok replacements
  | range :: rest, replacements =>
    if range.typeOnly || (replacements.lookup range.specifier).isSome then
      askRewriter rewrite rest replacements
    else do
      let next ← rewrite range.specifier
      askRewriter rewrite rest (mapSet replacements range.specifier next)

/-- "lib/main.js in package @scope/pkg", or "your execute code" for the ad hoc module. -/
def describeModule (path : Text) : Text :=
  if path = "main.js" then "your execute code"
  else if !startsWith path "packages/" then path
  else
    let rest := path.drop 9
    let parts := rest.splitOn '/'
    let first := parts.headD []
    let name := if startsWith first "@" then ['/'].intercalate (parts.take 2) else first
    rest.drop (name.length + 1) ++ " in package " ++ name

/-- Module body that throws a recorded failure when first evaluated. -/
def deferredModuleFailureSource (code message : Text) (status : ℕ) : Text :=
  ['\n'].intercalate
    [ "const error = new Error(" ++ jsonString message ++ ")",
      "error.name = " ++ jsonString ("KodyError:" ++ code ++ ":" ++ natText status),
      "throw error", "export default undefined", [] ]

/-- A module of the graph, with the failure of one that cannot be read or linked. -/
structure GraphModule where
  text : Text
  unreadable : Option Thrown
  deriving DecidableEq

section
variable (tools : Toolchain) (linking : Linking)

def rewriteImports (source fromPath : Text) (rewrite : Text → Except Thrown Text) :
    Except Thrown Text := do
  let ranges ← lexImportSpecifiers tools source fromPath
  let replacements ← askRewriter rewrite ranges []
  return replaceImportSpecifiers source (fun specifier => replacements.lookup specifier) ranges

/-- The module of a source; a failure of Kody's own is kept for a run that reaches the module. -/
def rewriteModule (source path : Text) (kind : Option TranspileKind) (jsx : JsxOptions) :
    Except Thrown GraphModule :=
  let rewritten := do
    let code ← match kind with
      | some kind => stripTypes tools source (describeModule path) kind jsx
      | none => pure source
    rewriteImports tools code path (linking.rewriter path)
  match rewritten with
  | .ok code => .ok { text := code, unreadable := none }
  | .error (.kody code message status) =>
    .ok { text := deferredModuleFailureSource code message status,
          unreadable := some (.kody code message status) }
  | .error thrown => .error thrown

/-- The module of a code file of a package, once `includePackage` is done. -/
def includeFile (packageName file source : Text) (jsx : JsxOptions) : Except Thrown GraphModule :=
  (rewriteModule tools linking source (packageModulePath packageName file) (transpileKind file)
    jsx).map fun m => { m with text := stampPackageStorage m.text packageName }

/-- What an npm specifier is replaced by, once its modules are fetched. -/
def npmReplacement (npmPaths : List (Text × Text)) (modulePath specifier : Text) : Option Text :=
  match npmPaths.lookup specifier with
  | some path => if path = [] then none else some (relativeSpecifier modulePath path)
  | none => none

/-- The text of a module in the finished graph, when npm modules were fetched. -/
def linkNpm (npmPaths : List (Text × Text)) (modulePath : Text) (m : GraphModule) :
    Except Thrown Text :=
  if startsWith modulePath "npm/" || m.unreadable.isSome then .ok m.text
  else do
    let ranges ← lexImportSpecifiers tools m.text modulePath
    return replaceImportSpecifiers m.text (npmReplacement npmPaths modulePath) ranges

end

/-! ### Texts as pieces -/

inductive TokenKind where
  | code | string | template | comment | space
  deriving DecidableEq, Repr

/-- A piece of a module's text that no rewrite is meant for. -/
structure Token where
  kind : TokenKind
  text : Text
  deriving DecidableEq, Repr

def tokensText (tokens : List Token) : Text := tokens.flatMap Token.text

/-- A piece of a module's text.  A specifier is the text between the quotes of an import; a call is
    `packageStorage()`, with what stands before and inside its brackets. -/
inductive Item where
  | token (t : Token)
  | specifier (quote : Char) (body : Text)
  | call (between inside : List Token)
  deriving DecidableEq, Repr

def Item.text : Item → Text
  | .token t => t.text
  | .specifier quote body => quote :: (body ++ [quote])
  | .call between inside =>
    "packageStorage" ++ (tokensText between ++ '(' :: (tokensText inside ++ [')']))

def render (items : List Item) : Text := items.flatMap Item.text

/-- The pieces of a call with an argument: spaces give way to it, comments stay. -/
def callTokens (argument : Text) (between inside : List Token) : List Token :=
  { kind := .code, text := "packageStorage" } :: between ++
    { kind := .code, text := "(" } :: { kind := .string, text := argument } ::
      ((if (tokensText inside).all isSpace then [] else inside) ++ [{ kind := .code, text := ")" }])

/-- One piece with its import spelled anew, or its call given an argument. -/
def editItem (respell : Char → Text → Text) (argument : Text) : Item → List Item
  | .token t => [.token t]
  | .specifier quote body => [.specifier quote (respell quote body)]
  | .call between inside => (callTokens argument between inside).map .token

/-- The pieces with every import spelled anew and every call given an argument. -/
def editItems (respell : Char → Text → Text) (argument : Text) (items : List Item) : List Item :=
  items.flatMap (editItem respell argument)

/-- The texts between imports and calls, after one that has begun. -/
def runsFrom : (run : Text) → List Item → List Text
  | run, [] => [run]
  | run, .token t :: rest => runsFrom (run ++ t.text) rest
  | run, .specifier _ _ :: rest => run :: runsFrom [] rest
  | run, .call _ _ :: rest => run :: runsFrom [] rest

/-- A call the regular expression sees: no space or comment before its brackets, and no comment
    inside. -/
def Tight (between inside : List Token) : Prop :=
  tokensText between = [] ∧ ∀ c ∈ tokensText inside, isSpace c = true

/-- What stands before the brackets of a call starts and ends with a space or a comment; what stands
    inside is spaces, or goes on with a comment after them. -/
structure CallShape (between inside : Text) : Prop where
  last : ∀ c ∈ between.getLast?, isSpace c = true ∨ c = '/'
  inside : ∀ c ∈ (inside.dropWhile isSpace).head?, c = '/'

/-- The shape of pieces, after a text since the last import or call: a name ends before a call. -/
def Shaped : (run : Text) → List Item → Prop
  | _, [] => True
  | run, .token t :: rest => Shaped (run ++ t.text) rest
  | _, .specifier quote _ :: rest => quote ∈ quotes ∧ Shaped [] rest
  | run, .call between inside :: rest =>
    run.getLast?.any isWord = false ∧ CallShape (tokensText between) (tokensText inside) ∧
      Shaped [] rest

/-- The grammar of modules: how a text is read, what may stand between the quotes of an import, and
    the specifier it means there. -/
structure ModuleGrammar where
  read : Text → Option (List Item)
  Body : (quote : Char) → Text → Prop
  value : (quote : Char) → Text → Text
  renders : ∀ {text items}, read text = some items → render items = text
  shaped : ∀ {text items}, read text = some items → Shaped [] items
  bodies : ∀ {text items quote body}, read text = some items → .specifier quote body ∈ items →
    Body quote body
  plain : ∀ {quote body}, (∀ c ∈ body, keptInPath c = true) → Body quote body
  /-- Other specifiers, and a package's name as the argument of calls, do not change how the rest is
      read. -/
  rereads : ∀ {text items packageName respell}, read text = some items →
    packageNamePattern packageName = true →
    (∀ quote body, .specifier quote body ∈ items → Body quote (respell quote body)) →
    read (render (editItems respell (jsonString packageName) items)) =
      some (editItems respell (jsonString packageName) items)

/-- The specifiers of pieces with the ranges of their texts, from a place on. -/
def specifierRanges (value : Char → Text → Text) : (pos : ℕ) → List Item → List (Text × ℕ × ℕ)
  | _, [] => []
  | pos, .token t :: rest => specifierRanges value (pos + t.text.length) rest
  | pos, .specifier quote body :: rest =>
    (value quote body, pos + 1, pos + 1 + body.length) ::
      specifierRanges value (pos + (body.length + 2)) rest
  | pos, .call between inside :: rest =>
    specifierRanges value (pos + (Item.call between inside).text.length) rest

/-- The lexer finds the imports of every module text, in their order and nowhere else; none of them
    is written as an import of types. -/
def ExactLexer (g : ModuleGrammar) (tools : Toolchain) : Prop :=
  ∀ text items path, g.read text = some items → ∃ entries, tools.parse text path = .ok entries ∧
    (entries.filterMap (importRange text)).map (fun r => (r.specifier, r.start, r.stop)) =
      specifierRanges g.value 0 items ∧
    ∀ r ∈ entries.filterMap (importRange text), r.typeOnly = false

/-! ### A rewrite of specifiers -/

/-- The text between the quotes of an import after a rewrite. -/
def respellWith (value : Char → Text → Text) (replace : Text → Option Text) (quote : Char)
    (body : Text) : Text :=
  match replace (value quote body) with
  | some next => if next = value quote body then body else next
  | none => body

def respellItem (respell : Char → Text → Text) : Item → Item
  | .specifier quote body => .specifier quote (respell quote body)
  | item => item

@[simp] theorem text_specifier (quote : Char) (body : Text) :
    (Item.specifier quote body).text = quote :: (body ++ [quote]) := rfl

@[simp] theorem render_cons (item : Item) (items : List Item) :
    render (item :: items) = item.text ++ render items := rfl

/-- The splice of pieces: what is pending is text that no range has changed. -/
theorem splice_items {value : Char → Text → Text} {replace : Text → Option Text}
    {items : List Item} {before pending : Text} {ranges : List ImportSpecifierRange}
    (hranges : ranges.map (fun r => (r.specifier, r.start, r.stop)) =
      specifierRanges value (before.length + pending.length) items) :
    spliceSpecifiers (before ++ (pending ++ render items)) replace before.length ranges =
      pending ++ render (items.map (respellItem (respellWith value replace))) := by
  induction items generalizing before pending ranges with
  | nil =>
    obtain rfl : ranges = [] := List.map_eq_nil_iff.mp hranges
    simp [spliceSpecifiers, render]
  | cons item items ih =>
    -- what is left to show when the piece stays
    have hstays : ∀ ranges : List ImportSpecifierRange,
        ranges.map (fun r => (r.specifier, r.start, r.stop)) =
          specifierRanges value (before.length + (pending ++ item.text).length) items →
        respellItem (respellWith value replace) item = item →
        spliceSpecifiers (before ++ (pending ++ render (item :: items))) replace before.length
            ranges =
          pending ++ render ((item :: items).map (respellItem (respellWith value replace))) := by
      intro ranges hranges hitem
      rw [List.map_cons, hitem, render_cons, render_cons, ← List.append_assoc pending,
        ← List.append_assoc pending]
      exact ih hranges
    cases item with
    | token t =>
      refine hstays ranges ?_ rfl
      rw [hranges, specifierRanges, List.length_append, Nat.add_assoc]
      rfl
    | call between inside =>
      refine hstays ranges ?_ rfl
      rw [hranges, specifierRanges, List.length_append, Nat.add_assoc]
    | specifier quote body =>
      rw [specifierRanges, List.map_eq_cons_iff] at hranges
      obtain ⟨range, ranges, rfl, hrange, hranges⟩ := hranges
      obtain ⟨hname, hstart, hstop⟩ :
          range.specifier = value quote body ∧ range.start = before.length + pending.length + 1 ∧
            range.stop = before.length + pending.length + 1 + body.length := by
        simpa [Prod.ext_iff] using hrange
      have hpending : ranges.map (fun r => (r.specifier, r.start, r.stop)) = specifierRanges value
          (before.length + (pending ++ (Item.specifier quote body).text).length) items := by
        have hlength : before.length + (pending ++ (Item.specifier quote body).text).length =
            before.length + pending.length + (body.length + 2) := by
          simp only [text_specifier, List.length_append, List.length_cons, List.length_nil]
          omega
        rw [hlength]
        exact hranges
      have hkept := hstays ranges hpending
      rw [spliceSpecifiers, hname]
      cases hreplace : replace (value quote body) with
      | none => exact hkept (by simp only [respellItem, respellWith, hreplace])
      | some next =>
        dsimp only
        split
        · rename_i hsame
          exact hkept (by simp only [respellItem, respellWith, hreplace, if_pos hsame])
        · rename_i hchanged
          -- the text before the quote is written, and the quote at the end is pending
          have hslice : slice (before ++ (pending ++ render (.specifier quote body :: items)))
              before.length range.start = pending ++ [quote] := by
            have htext : pending ++ render (.specifier quote body :: items) =
                (pending ++ [quote]) ++ (body ++ [quote] ++ render items) := by
              simp
            have hlength : range.start - before.length = (pending ++ [quote]).length := by
              rw [hstart, List.length_append, List.length_singleton]
              omega
            rw [slice, List.drop_left, htext, hlength, List.take_left]
          have hsource : before ++ (pending ++ render (.specifier quote body :: items)) =
              (before ++ (pending ++ quote :: body)) ++ ([quote] ++ render items) := by
            simp
          have hcursor : range.stop = (before ++ (pending ++ quote :: body)).length := by
            rw [hstop]
            simp only [List.length_append, List.length_cons]
            omega
          have hrest := @ih (before ++ (pending ++ quote :: body)) [quote] ranges (by
            rw [hranges]
            congr 1
            simp only [List.length_append, List.length_cons, List.length_nil]
            omega)
          have hitem : respellItem (respellWith value replace) (.specifier quote body) =
              .specifier quote next := by
            simp only [respellItem, respellWith, hreplace, if_neg hchanged]
          rw [hslice, hsource, hcursor, hrest, List.map_cons, hitem]
          simp

/-- Ranges of pieces stand in the order of their starts. -/
theorem specifierRanges_start (value : Char → Text → Text) (pos : ℕ) (items : List Item) :
    (∀ r ∈ specifierRanges value pos items, pos ≤ r.2.1) ∧
      (specifierRanges value pos items).Pairwise fun a b => a.2.1 ≤ b.2.1 := by
  induction items generalizing pos with
  | nil => exact ⟨fun r hr => absurd hr List.not_mem_nil, List.Pairwise.nil⟩
  | cons item items ih =>
    cases item with
    | token t =>
      obtain ⟨hfirst, hsorted⟩ := ih (pos + t.text.length)
      exact ⟨fun r hr => (Nat.le_add_right _ _).trans (hfirst r hr), hsorted⟩
    | call between inside =>
      obtain ⟨hfirst, hsorted⟩ := ih (pos + (Item.call between inside).text.length)
      exact ⟨fun r hr => (Nat.le_add_right _ _).trans (hfirst r hr), hsorted⟩
    | specifier quote body =>
      obtain ⟨hfirst, hsorted⟩ := ih (pos + (body.length + 2))
      refine ⟨fun r hr => ?_, List.pairwise_cons.mpr ⟨fun r hr => ?_, hsorted⟩⟩
      · rcases List.mem_cons.mp hr with rfl | hr
        · exact Nat.le_succ pos
        · exact (Nat.le_add_right _ _).trans (hfirst r hr)
      · have hlate := hfirst r hr
        show pos + 1 ≤ r.2.1
        omega

/-- **A rewrite of specifiers** changes a text that is read as pieces in its imports only. -/
theorem replaceImportSpecifiers_render {value : Char → Text → Text} {replace : Text → Option Text}
    {items : List Item} {ranges : List ImportSpecifierRange}
    (hranges : ranges.map (fun r => (r.specifier, r.start, r.stop)) =
      specifierRanges value 0 items) :
    replaceImportSpecifiers (render items) replace ranges =
      render (items.map (respellItem (respellWith value replace))) := by
  have hsorted : ranges.Pairwise fun a b => a.start ≤ b.start := by
    have hpairs := (specifierRanges_start value 0 items).2
    rw [← hranges, List.pairwise_map] at hpairs
    exact hpairs
  rw [replaceImportSpecifiers, List.Pairwise.insertionSort_eq hsorted]
  exact @splice_items value replace items [] [] ranges hranges

/-! ### The stamp on pieces -/

theorem text_token (t : Token) : (Item.token t).text = t.text := rfl

/-- `packageStorage` -/
def storageName : Text := "packageStorage"

theorem text_call (between inside : List Token) : (Item.call between inside).text =
    storageName ++ (tokensText between ++ '(' :: (tokensText inside ++ [')'])) := rfl

theorem render_append (a b : List Item) : render (a ++ b) = render a ++ render b :=
  List.flatMap_append

theorem tokensText_cons (t : Token) (tokens : List Token) :
    tokensText (t :: tokens) = t.text ++ tokensText tokens := rfl

theorem tokensText_append (a b : List Token) : tokensText (a ++ b) = tokensText a ++ tokensText b :=
  List.flatMap_append

theorem render_tokens (tokens : List Token) : render (tokens.map .token) = tokensText tokens := by
  induction tokens with
  | nil => rfl
  | cons t tokens ih =>
    rw [List.map_cons, render_cons, ih, text_token]
    rfl

theorem editItems_cons (respell : Char → Text → Text) (argument : Text) (item : Item)
    (items : List Item) : editItems respell argument (item :: items) =
      editItem respell argument item ++ editItems respell argument items := rfl

/-- The text of a call with an argument. -/
theorem render_callTokens (argument : Text) (between inside : List Token) :
    ∃ tail, render ((callTokens argument between inside).map .token) =
      storageName ++ tokensText between ++ '(' :: (argument ++ tail) ∧
      ((∀ c ∈ tokensText inside, isSpace c = true) → tail = [')']) := by
  refine ⟨tokensText ((if (tokensText inside).all isSpace then [] else inside) ++
    [{ kind := .code, text := ")" }]), ?_, fun hspaces => ?_⟩
  · rw [render_tokens, callTokens]
    simp only [List.cons_append, tokensText_cons, tokensText_append, List.append_assoc]
    rfl
  · rw [if_pos (List.all_eq_true.mpr hspaces)]
    rfl

theorem bar_quote {quote : Char} (h : quote ∈ quotes) : Bar quote := by
  have hall : ∀ q ∈ quotes, q ∉ storageOpen.tail ∧ isSpace q = false ∧ q ≠ ')' := by decide
  obtain ⟨hinner, hspace, hclose⟩ := hall quote h
  exact ⟨hinner, hspace, hclose⟩

theorem bar_p : Bar 'p' := ⟨by decide, by decide, by decide⟩

/-- A quote starts no match, and no word goes on after it. -/
theorem stampFrom_quote {quote : Char} (h : quote ∈ quotes) (argument : Text) (inWord : Bool)
    (rest : Text) : stampFrom argument inWord 0 (quote :: rest) =
      quote :: stampFrom argument false 0 rest := by
  have hall : ∀ q ∈ quotes, q ≠ 'p' ∧ isWord q = false := by decide
  obtain ⟨hne, hword⟩ := hall quote h
  rw [stampFrom_plain argument (.inr fun hcall => hne hcall.head), hword]

/-- An import is stamped apart from what stands around it. -/
theorem stamp_specifier {quote : Char} (h : quote ∈ quotes) (argument body rest : Text)
    (inWord : Bool) :
    stampFrom argument inWord 0 ((Item.specifier quote body).text ++ rest) =
      (Item.specifier quote (stampFrom argument false 0 body)).text ++
        stampFrom argument false 0 rest := by
  have hsplit : (Item.specifier quote body).text ++ rest = quote :: (body ++ quote :: rest) := by
    simp
  rw [hsplit, stampFrom_quote h, stampFrom_append_bar argument (bar_quote h), stampFrom_quote h]
  simp

/-- **A call gets its argument** exactly if it is tight. -/
theorem stamp_call {argument : Text} (hquote : argument.head? = some '"')
    {between inside : List Token} (hshape : CallShape (tokensText between) (tokensText inside))
    (rest out : Text) :
    stampFrom argument false 0 ((Item.call between inside).text ++ rest) =
        render ((callTokens argument between inside).map .token) ++ out ↔
      Tight between inside ∧ stampFrom argument false 0 rest = out := by
  obtain ⟨tail, htext, htail⟩ := render_callTokens argument between inside
  rw [htext, text_call]
  have hopen : storageName ++ ['('] = storageOpen := rfl
  by_cases htight : Tight between inside
  · obtain ⟨hbetween, hinside⟩ := htight
    have hcall : storageName ++ (tokensText between ++ '(' :: (tokensText inside ++ [')'])) ++
      rest =
        storageOpen ++ tokensText inside ++ ')' :: rest := by
      rw [hbetween, ← hopen]
      simp
    have hwritten : storageName ++ tokensText between ++ '(' :: (argument ++ tail) ++ out =
        (storageOpen ++ argument ++ [')']) ++ out := by
      rw [hbetween, htail hinside, ← hopen]
      simp
    rw [hcall, hwritten, stampFrom_call argument hinside]
    have hsplit : storageOpen ++ argument ++ ')' :: stampFrom argument false 0 rest =
        (storageOpen ++ argument ++ [')']) ++ stampFrom argument false 0 rest := by
      simp
    rw [hsplit, List.append_cancel_left_eq]
    exact ⟨fun h => ⟨⟨hbetween, hinside⟩, h⟩, fun h => h.2⟩
  · -- Otherwise the text keeps what stands inside the brackets, which is no quote.
    refine ⟨fun heq => absurd ?_ htight, fun h => absurd h.1 htight⟩
    exfalso
    have hcall : storageName ++ (tokensText between ++ '(' :: (tokensText inside ++ [')'])) ++
      rest =
        (storageName ++ tokensText between) ++ '(' :: (tokensText inside ++ ')' :: rest) := by
      simp
    rw [hcall, List.append_assoc _ _ out, stampFrom_keeps argument hquote] at heq
    · obtain ⟨-, heq⟩ := heq
      rw [stampFrom_plain argument (.inr fun hcall => absurd hcall.head (by decide)),
        List.cons_append, List.cons.injEq] at heq
      obtain ⟨c, rest', hnext, hne, hp⟩ : ∃ c rest', tokensText inside ++ ')' :: rest = c :: rest' ∧
          c ≠ '"' ∧ c ≠ 'p' := by
        cases hinside : tokensText inside with
        | nil => exact ⟨')', rest, rfl, by decide, by decide⟩
        | cons c more =>
          refine ⟨c, more ++ ')' :: rest, rfl, ?_⟩
          have hfirst := hshape.inside
          rw [hinside, List.dropWhile_cons] at hfirst
          cases hspace : isSpace c with
          | true =>
            refine ⟨?_, ?_⟩ <;> rintro rfl <;> exact absurd hspace (by decide)
          | false =>
            rw [hspace] at hfirst
            obtain rfl : c = '/' := hfirst c rfl
            exact ⟨by decide, by decide⟩
      rw [hnext, stampFrom_plain argument (.inr fun hcall => hp hcall.head)] at heq
      obtain ⟨quoted, rfl⟩ : ∃ quoted, argument = '"' :: quoted := by
        cases argument with
        | nil => exact absurd hquote (by simp)
        | cons a quoted => exact ⟨quoted, by rw [Option.some.inj hquote]⟩
      exact hne (List.cons.inj heq.2).1
    · -- A match cannot start before the bracket: the call is not tight.
      intro s hne hsuffix hmatch
      cases hbetween : tokensText between with
      | nil =>
        exfalso
        rw [hbetween, List.append_nil] at hsuffix
        have hname : ∀ s ∈ storageName.tails, s.head? = some 'p' → s = storageName := by
          decide +kernel
        have hhead : s.head? = some 'p' := by
          obtain ⟨c, s, rfl⟩ := List.exists_cons_of_ne_nil hne
          rw [List.cons_append] at hmatch
          rw [hmatch.head]
          rfl
        obtain rfl := hname s ((List.mem_tails _ _).mpr hsuffix) hhead
        obtain ⟨gap, after, hsplit, hgap⟩ := hmatch
        have hinside : tokensText inside ++ ')' :: rest = gap ++ ')' :: after := by
          have hsplit' : storageOpen ++ (tokensText inside ++ ')' :: rest) =
              storageOpen ++ (gap ++ ')' :: after) := by
            rw [← List.append_assoc storageOpen gap, ← hsplit, ← hopen]
            simp
          exact List.append_cancel_left hsplit'
        have hspaces : (tokensText inside).dropWhile isSpace = [] := by
          by_contra hmore
          obtain ⟨c, more, hcons⟩ := List.exists_cons_of_ne_nil hmore
          obtain rfl : c = '/' := hshape.inside c (by rw [hcons]; rfl)
          have hdrop := congrArg (List.dropWhile isSpace) hinside
          have hclose : isSpace ')' = false := by decide
          rw [List.dropWhile_append, hcons, List.dropWhile_append_of_pos hgap,
            List.dropWhile_cons, hclose] at hdrop
          exact absurd (List.cons.inj hdrop).1 (by decide)
        exact htight ⟨hbetween, List.dropWhile_eq_nil_iff.mp hspaces⟩
      | cons d more =>
        by_contra hshort
        rw [not_lt] at hshort
        have hpos : 0 < s.length := List.length_pos_iff.mpr hne
        -- the last character stands in the match, and is a space or ends a comment
        obtain ⟨c, hlast⟩ : ∃ c, s.getLast? = some c :=
          ⟨_, List.getLast?_eq_some_getLast hne⟩
        have hsame : (tokensText between).getLast? = some c := by
          obtain ⟨front, hfront⟩ := hsuffix
          have hends : (storageName ++ tokensText between).getLast? = some c := by
            rw [← hfront, List.getLast?_append, hlast]
            rfl
          rw [List.getLast?_append, hbetween] at hends
          rw [hbetween, ← hends]
          obtain ⟨e, he⟩ : ∃ e, (d :: more).getLast? = some e :=
            ⟨_, List.getLast?_eq_some_getLast (List.cons_ne_nil d more)⟩
          rw [he]
          rfl
        have hin : c ∈ storageOpen := by
          have hget := hmatch.get (i := s.length - 1) (by omega)
          rw [List.getElem?_append_left (by omega), ← List.getLast?_eq_getElem?, hlast] at hget
          exact List.mem_of_getElem? hget.symm
        have hletters : ∀ c ∈ storageOpen, ¬ (isSpace c = true ∨ c = '/') := by decide
        exact hletters c hin (hshape.last c hsame)

/-- **The stamp on pieces**: it keeps all but imports and calls, and gives every call its argument,
    exactly if nothing else mentions `packageStorage()` and every call is tight. -/
theorem stamp_items {argument : Text} (hquote : argument.head? = some '"') {items : List Item}
    {run : Text} (hshaped : Shaped run items) :
    stampFrom argument false 0 (run ++ render items) =
        run ++ render (editItems (fun _ body => stampFrom argument false 0 body) argument items) ↔
      (∀ r ∈ runsFrom run items, ¬ Mentions r) ∧
        ∀ between inside, .call between inside ∈ items → Tight between inside := by
  -- A run that is followed by a bar or by nothing is kept exactly if it mentions nothing.
  have hkeeps : ∀ {run rest out : Text}, BarAfter rest →
      (stampFrom argument false 0 (run ++ rest) = run ++ out ↔
        ¬ Mentions run ∧ stampFrom argument (endsInWord false run) 0 rest = out) := by
    intro run rest out hbar
    rw [stampFrom_keeps argument hquote (closed_barAfter hbar), quiet_barAfter hbar,
      ← not_mentions_iff]
  induction items generalizing run with
  | nil =>
    rw [show render ([] : List Item) = [] from rfl, hkeeps (fun c hc => absurd hc (by simp))]
    simp [runsFrom, editItems, render, stampFrom]
  | cons item items ih =>
    cases item with
    | token t =>
      have hih := @ih (run ++ t.text) hshaped
      rw [List.append_assoc, List.append_assoc] at hih
      rw [editItems_cons, render_append, render_cons, text_token]
      simpa [runsFrom, editItem, render, text_token] using hih
    | specifier quote body =>
      obtain ⟨hmem, hshaped⟩ := hshaped
      have hbar : BarAfter ((Item.specifier quote body).text ++ render items) := by
        intro c hc
        obtain rfl : quote = c := Option.some.inj hc
        exact bar_quote hmem
      have hedited : render (editItems (fun _ body => stampFrom argument false 0 body) argument
          (.specifier quote body :: items)) =
          (Item.specifier quote (stampFrom argument false 0 body)).text ++
            render (editItems (fun _ body => stampFrom argument false 0 body) argument items) := rfl
      rw [hedited, render_cons, hkeeps hbar, stamp_specifier hmem, List.append_cancel_left_eq]
      refine (and_congr_right fun _ => @ih [] hshaped).trans ?_
      simp [runsFrom, and_assoc]
    | call between inside =>
      obtain ⟨hword, hshape, hshaped⟩ := hshaped
      have hbar : BarAfter ((Item.call between inside).text ++ render items) := by
        intro c hc
        obtain rfl : 'p' = c := Option.some.inj hc
        exact bar_p
      have hends : endsInWord false run = false := by
        rw [← hword]
        unfold endsInWord
        cases run.getLast? <;> rfl
      rw [editItems_cons, render_append, render_cons, hkeeps hbar, hends]
      rw [show editItem (fun _ body => stampFrom argument false 0 body) argument
        (.call between inside) = (callTokens argument between inside).map .token from rfl,
        stamp_call hquote hshape]
      refine (and_congr_right fun _ => and_congr_right fun _ => @ih [] hshaped).trans ?_
      rw [runsFrom, List.forall_mem_cons]
      simp only [List.mem_cons, Item.call.injEq]
      constructor
      · rintro ⟨hrun, htight, hruns, hcalls⟩
        refine ⟨⟨hrun, hruns⟩, fun b i hcall => ?_⟩
        rcases hcall with ⟨rfl, rfl⟩ | hcall
        · exact htight
        · exact hcalls b i hcall
      · rintro ⟨⟨hrun, hruns⟩, hcalls⟩
        exact ⟨hrun, hcalls between inside (.inl ⟨rfl, rfl⟩), hruns,
          fun b i hcall => hcalls b i (.inr hcall)⟩

/-! ### The answers of the rewriter -/

theorem askRewriter_ok {rewrite : Text → Except Thrown Text} {ranges : List ImportSpecifierRange}
    (hvalues : ∀ r ∈ ranges, r.typeOnly = false) {known : List (Text × Text)}
    (hknown : ∀ s v, known.lookup s = some v → rewrite s = .ok v) :
    (∃ replacements, askRewriter rewrite ranges known = .ok replacements ∧
        (∀ s v, replacements.lookup s = some v → rewrite s = .ok v) ∧
        (∀ s, (known.lookup s).isSome → (replacements.lookup s).isSome) ∧
        ∀ r ∈ ranges, (replacements.lookup r.specifier).isSome) ∨
      (∃ thrown, askRewriter rewrite ranges known = .error thrown) ∧
        ∃ r ∈ ranges, ∃ thrown, rewrite r.specifier = .error thrown := by
  induction ranges generalizing known with
  | nil => exact .inl ⟨known, rfl, hknown, fun s hs => hs, fun r hr => absurd hr List.not_mem_nil⟩
  | cons range ranges ih =>
    have hvalues' := fun r hr => hvalues r (List.mem_cons_of_mem _ hr)
    rw [askRewriter, hvalues range List.mem_cons_self, Bool.false_or]
    cases hasked : (known.lookup range.specifier).isSome with
    | true =>
      rw [if_pos rfl]
      rcases ih hvalues' hknown with ⟨replacements, hok, hsound, hmore, hall⟩ | ⟨herror, r, hr, h⟩
      · refine .inl ⟨replacements, hok, hsound, hmore, fun r hr => ?_⟩
        rcases List.mem_cons.mp hr with rfl | hr
        · exact hmore _ hasked
        · exact hall r hr
      · exact .inr ⟨herror, r, List.mem_cons_of_mem _ hr, h⟩
    | false =>
      rw [if_neg Bool.false_ne_true]
      cases hanswer : rewrite range.specifier with
      | error thrown => exact .inr ⟨⟨thrown, rfl⟩, range, List.mem_cons_self, thrown, hanswer⟩
      | ok next =>
        have hset : ∀ s v, (mapSet known range.specifier next).lookup s = some v →
            rewrite s = .ok v := by
          intro s v hs
          rw [lookup_mapSet] at hs
          split at hs
          · rename_i hs'
            subst hs'
            rw [← Option.some.inj hs]
            exact hanswer
          · exact hknown s v hs
        rcases ih hvalues' hset with ⟨replacements, hok, hsound, hmore, hall⟩ | ⟨herror, r, hr, h⟩
        · refine .inl ⟨replacements, hok, hsound, fun s hs => hmore s ?_, fun r hr => ?_⟩
          · rw [lookup_mapSet]
            split
            · rfl
            · exact hs
          · rcases List.mem_cons.mp hr with rfl | hr
            · refine hmore _ ?_
              rw [lookup_mapSet, if_pos rfl]
              rfl
            · exact hall r hr
        · exact .inr ⟨herror, r, List.mem_cons_of_mem _ hr, h⟩

theorem mem_specifierRanges {value : Char → Text → Text} {v : Text} {pos : ℕ} {items : List Item} :
    v ∈ (specifierRanges value pos items).map Prod.fst ↔
      ∃ quote body, .specifier quote body ∈ items ∧ value quote body = v := by
  induction items generalizing pos with
  | nil => simp [specifierRanges]
  | cons item items ih =>
    cases item with
    | token t => simp [specifierRanges, ih]
    | call between inside => simp [specifierRanges, ih]
    | specifier quote body =>
      rw [specifierRanges, List.map_cons, List.mem_cons, ih]
      simp only [List.mem_cons, Item.specifier.injEq]
      constructor
      · rintro (rfl | ⟨q, b, hmem, rfl⟩)
        · exact ⟨quote, body, .inl ⟨rfl, rfl⟩, rfl⟩
        · exact ⟨q, b, .inr hmem, rfl⟩
      · rintro ⟨q, b, ⟨rfl, rfl⟩ | hmem, rfl⟩
        · exact .inl rfl
        · exact .inr ⟨q, b, hmem, rfl⟩

/-- Only the answers for the specifiers that occur count. -/
theorem map_respell_congr {f f' : Char → Text → Text} {items : List Item}
    (h : ∀ quote body, .specifier quote body ∈ items → f quote body = f' quote body) :
    items.map (respellItem f) = items.map (respellItem f') := by
  refine List.map_congr_left fun item hitem => ?_
  cases item with
  | token t => rfl
  | call between inside => rfl
  | specifier quote body => rw [respellItem, respellItem, h quote body hitem]

/-- The text between the quotes of an import once it is linked. -/
def linkedBody (g : ModuleGrammar) (rewrite : Text → Except Thrown Text) : Char → Text → Text :=
  respellWith g.value fun specifier => (rewrite specifier).toOption

/-- **Linking** changes the imports of a text, or fails as one of them does. -/
theorem rewriteImports_spec {g : ModuleGrammar} {tools : Toolchain} (hexact : ExactLexer g tools)
    {source : Text} {items : List Item} (hread : g.read source = some items) (path : Text)
    (rewrite : Text → Except Thrown Text) :
    (rewriteImports tools source path rewrite =
          .ok (render (items.map (respellItem (linkedBody g rewrite)))) ∧
        ∀ quote body, .specifier quote body ∈ items →
          ∃ next, rewrite (g.value quote body) = .ok next) ∨
      (∃ thrown, rewriteImports tools source path rewrite = .error thrown) ∧
        ∃ quote body, .specifier quote body ∈ items ∧
          ∃ thrown, rewrite (g.value quote body) = .error thrown := by
  obtain ⟨entries, hparse, hranges, hvalues⟩ := hexact source items path hread
  have hlex : lexImportSpecifiers tools source path =
      .ok (entries.filterMap (importRange source)) := by
    rw [lexImportSpecifiers, hparse]
  generalize entries.filterMap (importRange source) = ranges at hlex hranges hvalues
  have hmem : ∀ {v}, (∃ r ∈ ranges, r.specifier = v) ↔
      ∃ quote body, .specifier quote body ∈ items ∧ g.value quote body = v := by
    intro v
    rw [← @mem_specifierRanges g.value v 0 items, ← hranges, List.map_map, List.mem_map]
    exact Iff.rfl
  have hempty : ∀ s v, ([] : List (Text × Text)).lookup s = some v → rewrite s = .ok v :=
    fun s v hs => absurd hs (by simp)
  rcases askRewriter_ok hvalues hempty with ⟨replacements, hok, hsound, -, hall⟩ |
    ⟨⟨thrown, herror⟩, r, hr, hfail⟩
  · have hanswer : ∀ quote body, .specifier quote body ∈ items → ∃ next,
        replacements.lookup (g.value quote body) = some next ∧
          rewrite (g.value quote body) = .ok next := by
      intro quote body hitem
      obtain ⟨r, hr, hname⟩ := hmem.mpr ⟨quote, body, hitem, rfl⟩
      obtain ⟨next, hnext⟩ := Option.isSome_iff_exists.mp (hall r hr)
      rw [hname] at hnext
      exact ⟨next, hnext, hsound _ _ hnext⟩
    refine .inl ⟨?_, fun quote body hitem => ?_⟩
    · rw [rewriteImports, hlex]
      show (do
        let replacements ← askRewriter rewrite ranges []
        return replaceImportSpecifiers source (fun s => replacements.lookup s) ranges) = _
      rw [hok]
      show Except.ok (replaceImportSpecifiers source (fun s => replacements.lookup s) ranges) = _
      rw [← g.renders hread, replaceImportSpecifiers_render hranges]
      congr 2
      refine map_respell_congr fun quote body hitem => ?_
      obtain ⟨next, hlookup, hrewrite⟩ := hanswer quote body hitem
      simp only [linkedBody, respellWith, hlookup, hrewrite, Except.toOption]
    · obtain ⟨next, -, hrewrite⟩ := hanswer quote body hitem
      exact ⟨next, hrewrite⟩
  · refine .inr ⟨⟨thrown, ?_⟩, ?_⟩
    · rw [rewriteImports, hlex]
      show (do
        let replacements ← askRewriter rewrite ranges []
        return replaceImportSpecifiers source (fun s => replacements.lookup s) ranges) = _
      rw [herror]
      rfl
    · obtain ⟨quote, body, hitem, hvalue⟩ := hmem.mp ⟨r, hr, rfl⟩
      exact ⟨quote, body, hitem, by rw [hvalue]; exact hfail⟩

/-! ### What the graph keeps -/

/-- A text is that of the pieces with their imports spelled anew and their calls given an argument,
    and it is read as such: every other piece is the same. -/
structure Kept (g : ModuleGrammar) (items : List Item) (respell : Char → Text → Text)
    (argument text : Text) : Prop where
  text_eq : text = render (editItems respell argument items)
  reads : g.read text = some (editItems respell argument items)

theorem editItems_respell (f h : Char → Text → Text) (argument : Text) (items : List Item) :
    editItems h argument (items.map (respellItem f)) =
      editItems (fun quote body => h quote (f quote body)) argument items := by
  rw [editItems, List.flatMap_map, editItems]
  refine List.flatMap_congr fun item _ => ?_
  cases item <;> rfl

theorem respell_editItems (f h : Char → Text → Text) (argument : Text) (items : List Item) :
    (editItems f argument items).map (respellItem h) =
      editItems (fun quote body => h quote (f quote body)) argument items := by
  rw [editItems, List.map_flatMap, editItems]
  refine List.flatMap_congr fun item _ => ?_
  cases item with
  | token t => rfl
  | specifier quote body => rfl
  | call between inside =>
    rw [editItem, List.map_map]
    rfl

theorem shaped_respell {f : Char → Text → Text} {items : List Item} {run : Text} :
    Shaped run (items.map (respellItem f)) ↔ Shaped run items := by
  induction items generalizing run with
  | nil => exact Iff.rfl
  | cons item items ih =>
    cases item with
    | token t => exact ih
    | specifier quote body => exact and_congr_right fun _ => ih
    | call between inside => exact and_congr_right fun _ => and_congr_right fun _ => ih

theorem runsFrom_respell (f : Char → Text → Text) (items : List Item) (run : Text) :
    runsFrom run (items.map (respellItem f)) = runsFrom run items := by
  induction items generalizing run with
  | nil => rfl
  | cons item items ih =>
    cases item with
    | token t => exact ih (run ++ t.text)
    | specifier quote body => exact congrArg (run :: ·) (ih [])
    | call between inside => exact congrArg (run :: ·) (ih [])

theorem call_mem_respell {f : Char → Text → Text} {items : List Item} {between inside : List Token}
    :
    .call between inside ∈ items.map (respellItem f) ↔ .call between inside ∈ items := by
  rw [List.mem_map]
  constructor
  · rintro ⟨item, hitem, heq⟩
    cases item with
    | token t => exact absurd heq (by simp [respellItem])
    | specifier quote body => exact absurd heq (by simp [respellItem])
    | call b i =>
      obtain ⟨rfl, rfl⟩ := Item.call.inj heq
      exact hitem
  · exact fun h => ⟨_, h, rfl⟩

theorem specifier_mem_editItems {f : Char → Text → Text} {argument : Text} {items : List Item}
    {quote : Char} {body : Text} (h : .specifier quote body ∈ items) :
    .specifier quote (f quote body) ∈ editItems f argument items :=
  List.mem_flatMap.mpr ⟨_, h, List.mem_cons_self⟩

/-- What stands between the quotes of an import in the module of a file: the specifier it is linked
    to, which the stamp goes through as well. -/
def includedBody (g : ModuleGrammar) (rewrite : Text → Except Thrown Text) (packageName : Text)
    (quote : Char) (body : Text) : Text :=
  stampPackageStorage (linkedBody g rewrite quote body) packageName

/-- When the rewrites keep a source of a package: its imports can be linked, nothing but its calls
    mentions `packageStorage()`, its calls have no space or comment before their brackets and no
    comment inside, and what its imports are linked to can stand between their quotes. -/
structure KeepsText (g : ModuleGrammar) (rewrite : Text → Except Thrown Text) (packageName : Text)
    (items : List Item) : Prop where
  links : ∀ quote body, .specifier quote body ∈ items →
    ∃ next, rewrite (g.value quote body) = .ok next
  quiet : ∀ run ∈ runsFrom [] items, ¬ Mentions run
  tight : ∀ between inside, .call between inside ∈ items → Tight between inside
  fits : ∀ quote body, .specifier quote body ∈ items →
    g.Body quote (includedBody g rewrite packageName quote body)

section
variable {g : ModuleGrammar} {tools : Toolchain} {source : Text} {items : List Item}
  {linking : Linking} {packageName file : Text} {jsx : JsxOptions}

/-- The module of a JavaScript file, when all its imports are linked, and when one is not. -/
theorem includeFile_spec (hexact : ExactLexer g tools) (hread : g.read source = some items)
    (hkind : transpileKind file = none) :
    (includeFile tools linking packageName file source jsx = .ok
          { text := stampPackageStorage (render (items.map (respellItem (linkedBody g
              (linking.rewriter (packageModulePath packageName file)))))) packageName,
            unreadable := none } ∧
        ∀ quote body, .specifier quote body ∈ items → ∃ next,
          linking.rewriter (packageModulePath packageName file) (g.value quote body) = .ok next) ∨
      (∀ text, includeFile tools linking packageName file source jsx ≠
          .ok { text := text, unreadable := none }) ∧
        ∃ quote body, .specifier quote body ∈ items ∧ ∃ thrown,
          linking.rewriter (packageModulePath packageName file) (g.value quote body) =
            .error thrown := by
  rcases rewriteImports_spec hexact hread (packageModulePath packageName file)
    (linking.rewriter (packageModulePath packageName file)) with ⟨hok, hall⟩ | ⟨⟨thrown, herror⟩, h⟩
  · refine .inl ⟨?_, hall⟩
    rw [includeFile, hkind, rewriteModule]
    dsimp only
    rw [pure_bind, hok]
    rfl
  · refine .inr ⟨fun text heq => ?_, h⟩
    rw [includeFile, hkind, rewriteModule] at heq
    dsimp only at heq
    rw [pure_bind, herror] at heq
    cases thrown with
    | kody code message status =>
      exact absurd (congrArg GraphModule.unreadable (Except.ok.inj heq)) (Option.some_ne_none _)
    | rangeError message => exact absurd heq (by simp [Except.map])
    | error message => exact absurd heq (by simp [Except.map])

/-- **The module of a file is kept** exactly under the conditions of `KeepsText`. -/
theorem included_kept_iff (hexact : ExactLexer g tools) (hread : g.read source = some items)
    (hkind : transpileKind file = none) (hname : packageNamePattern packageName = true) :
    (∃ text, includeFile tools linking packageName file source jsx =
          .ok { text := text, unreadable := none } ∧
        Kept g items (includedBody g (linking.rewriter (packageModulePath packageName file))
          packageName) (jsonString packageName) text) ↔
      KeepsText g (linking.rewriter (packageModulePath packageName file)) packageName items := by
  set rewrite := linking.rewriter (packageModulePath packageName file) with hrewrite
  have hshaped : Shaped [] (items.map (respellItem (linkedBody g rewrite))) :=
    shaped_respell.mpr (g.shaped hread)
  have hstamp := @stamp_items (jsonString packageName) rfl _ [] hshaped
  rw [List.nil_append, List.nil_append, editItems_respell, runsFrom_respell] at hstamp
  simp only [call_mem_respell] at hstamp
  rcases @includeFile_spec g tools source items linking packageName file jsx hexact hread hkind
    with
    ⟨hok, hlinks⟩ | ⟨hnot, quote, body, hitem, thrown, hfail⟩
  · constructor
    · rintro ⟨text, htext, hkept⟩
      rw [hok] at htext
      have heq := congrArg GraphModule.text (Except.ok.inj htext)
      obtain ⟨hquiet, htight⟩ := hstamp.mp (heq.trans hkept.text_eq)
      exact ⟨hlinks, hquiet, htight, fun quote body hitem =>
        g.bodies hkept.reads (specifier_mem_editItems hitem)⟩
    · rintro ⟨-, hquiet, htight, hfits⟩
      exact ⟨_, hok, hstamp.mpr ⟨hquiet, htight⟩,
        (congrArg g.read (hstamp.mpr ⟨hquiet, htight⟩)).trans (g.rereads hread hname hfits)⟩
  · refine ⟨fun ⟨text, htext, _⟩ => absurd htext (hnot text), fun h => ?_⟩
    obtain ⟨next, hnext⟩ := h.links quote body hitem
    rw [← hrewrite, hnext] at hfail
    exact absurd hfail (by simp)

/-! ### The finished graph -/

theorem keptInPath_blur (c : Char) : keptInPath (blur c) = true := by
  unfold blur
  split
  · assumption
  · decide

/-- The specifier of a fetched module can stand between any quotes. -/
theorem plain_npmSpecifier (modulePath : Text) (url : Url) :
    ∀ c ∈ relativeSpecifier modulePath (pathForUrl url), keptInPath c = true := by
  refine forall_mem_relativeSpecifier (by decide) (by decide) fun c hc => ?_
  rw [pathForUrl_spelled] at hc
  have hfolder : ∀ c ∈ ("npm/" : Text), keptInPath c = true := by decide
  rcases List.mem_append.mp hc with hc | hc
  · exact hfolder c hc
  · obtain ⟨d, -, rfl⟩ := List.mem_map.mp hc
    exact keptInPath_blur d

/-- The path of a fetched specifier is that of a URL. -/
theorem lookup_entryPaths_url {u : UrlApi} {config : NpmConfig} {net : CdnNetwork}
    {specifiers : List Text} {result : NpmResolution}
    (h : (resolveNpmModules u config net specifiers).1 = .ok result) {specifier path : Text}
    (hlookup : result.entryPaths.lookup specifier = some path) : ∃ url, path = pathForUrl url := by
  obtain ⟨queue, -, -, -, -, hpaths⟩ := resolveNpmModules_ok h
  have hfold : ∀ (entries : List (Text × Url)) (map : List (Text × Text)),
      (∀ s path, map.lookup s = some path → ∃ url, path = pathForUrl url) →
      ∀ s path, (entries.foldl (fun paths entry => mapSet paths entry.1 (pathForUrl entry.2))
        map).lookup s = some path → ∃ url, path = pathForUrl url := by
    intro entries
    induction entries with
    | nil => exact fun map hmap => hmap
    | cons entry entries ih =>
      refine fun map hmap => ih _ fun s path hs => ?_
      rw [lookup_mapSet] at hs
      split at hs
      · exact ⟨entry.2, (Option.some.inj hs).symm⟩
      · exact hmap s path hs
  rw [hpaths] at hlookup
  exact hfold _ [] (fun s path hs => absurd hs (by simp)) _ _ hlookup

/-- Linking the fetched modules changes the imports of a package's module. -/
theorem linkNpm_spec (hexact : ExactLexer g tools) {m : GraphModule}
    (hread : g.read m.text = some items)
    (hreadable : m.unreadable = none) (npmPaths : List (Text × Text)) (packageName file : Text) :
    linkNpm tools npmPaths (packageModulePath packageName file) m =
      .ok (render (items.map (respellItem (respellWith g.value
        (npmReplacement npmPaths (packageModulePath packageName file)))))) := by
  have hfolder : startsWith (packageModulePath packageName file) "npm/" = false := rfl
  obtain ⟨entries, hparse, hranges, -⟩ :=
    hexact m.text items (packageModulePath packageName file) hread
  have hlex : lexImportSpecifiers tools m.text (packageModulePath packageName file) =
      .ok (entries.filterMap (importRange m.text)) := by
    rw [lexImportSpecifiers, hparse]
  rw [linkNpm, hfolder, hreadable, if_neg (by simp), hlex]
  show Except.ok (replaceImportSpecifiers m.text _ (entries.filterMap (importRange m.text))) = _
  conv_lhs => rw [← g.renders hread]
  rw [replaceImportSpecifiers_render (by rw [g.renders hread]; exact hranges)]

/-- What stands between the quotes of an import in the finished graph. -/
def finishedBody (g : ModuleGrammar) (rewrite : Text → Except Thrown Text) (packageName : Text)
    (npmPaths : List (Text × Text)) (modulePath : Text) (quote : Char) (body : Text) : Text :=
  respellWith g.value (npmReplacement npmPaths modulePath) quote
    (includedBody g rewrite packageName quote body)

/-- The module of a package's file keeps its text: as long as the graph is built, and in the finished
    graph, whatever npm modules were fetched for it. -/
structure TextKept (g : ModuleGrammar) (tools : Toolchain) (linking : Linking)
    (packageName file source : Text) (jsx : JsxOptions) (items : List Item) : Prop where
  included : ∃ text, includeFile tools linking packageName file source jsx =
      .ok { text := text, unreadable := none } ∧
    Kept g items (includedBody g (linking.rewriter (packageModulePath packageName file))
      packageName)
      (jsonString packageName) text
  finished : ∀ {u config net specifiers result},
    (resolveNpmModules u config net specifiers).1 = .ok result →
    ∃ m text, includeFile tools linking packageName file source jsx = .ok m ∧
      linkNpm tools result.entryPaths (packageModulePath packageName file) m = .ok text ∧
      Kept g items (finishedBody g (linking.rewriter (packageModulePath packageName file))
        packageName
        result.entryPaths (packageModulePath packageName file)) (jsonString packageName) text

/-- **Text fidelity of package modules**: a JavaScript file of a package keeps all of its text but the
    specifiers of imports and the arguments of `packageStorage()`, and is read as before, exactly
    under the conditions of `KeepsText`. -/
theorem module_text_kept (hexact : ExactLexer g tools) (hread : g.read source = some items)
    (hkind : transpileKind file = none) (hname : packageNamePattern packageName = true) :
    TextKept g tools linking packageName file source jsx items ↔
      KeepsText g (linking.rewriter (packageModulePath packageName file)) packageName items := by
  have hiff := @included_kept_iff g tools source items linking packageName file jsx hexact hread hkind
    hname
  refine ⟨fun h => hiff.mp h.included, fun h => ⟨hiff.mpr h, ?_⟩⟩
  intro u config net specifiers result hnpm
  obtain ⟨text, hincluded, hkept⟩ := hiff.mpr h
  refine ⟨_, _, hincluded, linkNpm_spec hexact hkept.reads rfl result.entryPaths packageName file,
    ?_⟩
  rw [respell_editItems]
  refine ⟨rfl, g.rereads hread hname fun quote body hitem => ?_⟩
  -- a specifier is as it was, or that of a fetched module
  rw [respellWith]
  split
  · rename_i next hnext
    split
    · exact h.fits quote body hitem
    · rw [npmReplacement] at hnext
      split at hnext
      · rename_i path hlookup
        obtain ⟨url, rfl⟩ := lookup_entryPaths_url hnpm hlookup
        split at hnext
        · exact absurd hnext (by simp)
        rw [← Option.some.inj hnext]
        exact g.plain (plain_npmSpecifier _ url)
      · exact absurd hnext (by simp)
  · exact h.fits quote body hitem

end

/-! ### Runs -/

/-- Tools for texts without imports. -/
def importless : Toolchain where
  parse _ _ := .ok []
  transform _ _ text := .ok text
  stripJsonComments text := text
  jsonSyntaxError _ := []

theorem specifierRanges_tokens (value : Char → Text → Text) (pos : ℕ) (tokens : List Token) :
    specifierRanges value pos (tokens.map .token) = [] := by
  induction tokens generalizing pos with
  | nil => rfl
  | cons t tokens ih => exact ih _

theorem editItems_tokens (respell : Char → Text → Text) (argument : Text) (tokens : List Token) :
    editItems respell argument (tokens.map .token) = tokens.map .token := by
  induction tokens with
  | nil => rfl
  | cons t tokens ih =>
    rw [List.map_cons, editItems_cons, ih]
    rfl

theorem shaped_tokens (run : Text) (tokens : List Token) : Shaped run (tokens.map .token) := by
  induction tokens generalizing run with
  | nil => exact trivial
  | cons t tokens ih => exact ih _

/-- A grammar of one text, without imports and calls. -/
def tokenGrammar (tokens : List Token) : ModuleGrammar where
  read text := if text = tokensText tokens then some (tokens.map .token) else none
  Body _ _ := True
  value _ body := body
  renders {text items} h := by
    split at h
    · rename_i htext
      rw [← Option.some.inj h, render_tokens, htext]
    · exact absurd h (by simp)
  shaped {text items} h := by
    split at h
    · rw [← Option.some.inj h]
      exact shaped_tokens [] tokens
    · exact absurd h (by simp)
  bodies _ _ := trivial
  plain _ := trivial
  rereads {text items packageName respell} h _ _ := by
    split at h
    · rw [← Option.some.inj h, editItems_tokens, render_tokens, if_pos rfl]
    · exact absurd h (by simp)

/-- A grammar of one exported call and of what becomes of it. -/
def defaultCall : List Item := [.token { kind := .code, text := "export default " }, .call [] []]

def filledTokens (packageName : Text) : List Token :=
  { kind := .code, text := "export default " } :: callTokens (jsonString packageName) [] []

/-- The package named in an exported call. -/
def namedPackage (text : Text) : Option Text :=
  match stripWord? "export default packageStorage(\"" text with
  | some rest => (jsonStringBody (rest.length + 1) rest).map Prod.fst
  | none => none

theorem tokensText_filled (packageName : Text) : tokensText (filledTokens packageName) =
    "export default packageStorage(\"" ++ (packageName.flatMap jsonEscape ++ '"' :: ")") := by
  simp [filledTokens, callTokens, tokensText, jsonString]

theorem namedPackage_filled (packageName : Text) :
    namedPackage (tokensText (filledTokens packageName)) = some packageName := by
  rw [tokensText_filled, namedPackage, stripWord?, if_pos
    (by rw [List.isPrefixOf_iff_prefix]; exact List.prefix_append _ _), List.drop_left]
  dsimp only
  rw [jsonStringBody_escape]
  · rfl
  · have hlength := length_le_flatMap_jsonEscape packageName
    simp only [List.length_append]
    omega

/-- What the grammar reads: the call, or the call with a package's name. -/
def readCall (text : Text) : Option (List Item) :=
  if text = render defaultCall then some defaultCall
  else
    match namedPackage text with
    | some packageName =>
      if text = tokensText (filledTokens packageName) then
        some ((filledTokens packageName).map .token)
      else none
    | none => none

theorem readCall_cases {text : Text} {items : List Item} (h : readCall text = some items) :
    (text = render defaultCall ∧ items = defaultCall) ∨
      ∃ packageName, text = tokensText (filledTokens packageName) ∧
        items = (filledTokens packageName).map .token := by
  rw [readCall] at h
  split at h
  · rename_i htext
    exact .inl ⟨htext, (Option.some.inj h).symm⟩
  · split at h
    · split at h
      · rename_i packageName _ htext
        exact .inr ⟨packageName, htext, (Option.some.inj h).symm⟩
      · exact absurd h (by simp)
    · exact absurd h (by simp)

theorem readCall_filled (packageName : Text) : readCall (tokensText (filledTokens packageName)) =
    some ((filledTokens packageName).map .token) := by
  have hne : tokensText (filledTokens packageName) ≠ render defaultCall := by
    intro h
    have hnamed := namedPackage_filled packageName
    rw [h] at hnamed
    have hnone : namedPackage (render defaultCall) = none := by decide +kernel
    rw [hnone] at hnamed
    exact absurd hnamed (by simp)
  rw [readCall, if_neg hne, namedPackage_filled]
  dsimp only
  rw [if_pos rfl]

def callGrammar : ModuleGrammar where
  read := readCall
  Body _ _ := True
  value _ body := body
  renders {text items} h := by
    rcases readCall_cases h with ⟨rfl, rfl⟩ | ⟨packageName, rfl, rfl⟩
    · rfl
    · exact render_tokens _
  shaped {text items} h := by
    rcases readCall_cases h with ⟨rfl, rfl⟩ | ⟨packageName, rfl, rfl⟩
    · exact ⟨by decide, ⟨fun c hc => absurd hc (by simp [tokensText]),
        fun c hc => absurd hc (by simp [tokensText])⟩, trivial⟩
    · exact shaped_tokens [] _
  bodies _ _ := trivial
  plain _ := trivial
  rereads {text items packageName respell} h _ _ := by
    rcases readCall_cases h with ⟨rfl, rfl⟩ | ⟨name, rfl, rfl⟩
    · have hedit : editItems respell (jsonString packageName) defaultCall =
          (filledTokens packageName).map .token := rfl
      rw [hedit, render_tokens]
      exact readCall_filled packageName
    · rw [editItems_tokens, render_tokens]
      exact readCall_filled name

theorem exact_callGrammar : ExactLexer callGrammar importless := by
  intro text items path hread
  refine ⟨[], rfl, ?_, fun r hr => absurd hr List.not_mem_nil⟩
  rcases readCall_cases hread with ⟨-, rfl⟩ | ⟨packageName, -, rfl⟩
  · rfl
  · exact (specifierRanges_tokens _ 0 _).symm

/-- A host whose packages have no exports, without npm. -/
def noLinks : Linking where
  exportPath _ _ := .error (.kody "package_not_found" "not saved" 404)
  inModules _ _ := false
  isProvider _ _ := false
  allowNpm := false

theorem defaultCall_kept : TextKept callGrammar importless noLinks "@o/p" "index.js"
    "export default packageStorage()" classicJsx defaultCall := by
  refine (module_text_kept exact_callGrammar (by decide +kernel) (by decide +kernel)
    (by decide +kernel)).mpr ?_
  have hnone : ∀ quote body, .specifier quote body ∉ defaultCall := by simp [defaultCall]
  refine ⟨fun quote body h => absurd h (hnone quote body), ?_, ?_,
    fun quote body h => absurd h (hnone quote body)⟩
  · -- the run before the call has no bracket
    have hbrackets : ∀ run ∈ runsFrom [] defaultCall, '(' ∉ run := by decide
    rintro run hrun ⟨before, gap, after, rfl, -⟩
    have hopen : '(' ∈ storageOpen := by decide
    refine hbrackets _ hrun (List.mem_append_left _ (List.mem_append_left _ ?_))
    exact List.mem_append_right _ hopen
  · intro between inside hcall
    obtain ⟨rfl, rfl⟩ : between = [] ∧ inside = [] := by simpa [defaultCall] using hcall
    exact ⟨rfl, fun c hc => absurd hc List.not_mem_nil⟩

/-- A module that exports a text about the storage of packages. -/
def quotedCall : List Token :=
  [ { kind := .code, text := "export default " },
    { kind := .string, text := "\"packageStorage()\"" } ]

/-- The stamp writes into a string, and the module cannot be read any more. -/
theorem quoted_stamped :
    includeFile importless noLinks "@o/p" "index.js" "export default \"packageStorage()\""
      classicJsx =
        .ok { text := "export default \"packageStorage(\"@o/p\")\"", unreadable := none } ∧
      ¬ TextKept (tokenGrammar quotedCall) importless noLinks "@o/p" "index.js"
        "export default \"packageStorage()\"" classicJsx (quotedCall.map .token) := by
  have hincluded : includeFile importless noLinks "@o/p" "index.js"
      "export default \"packageStorage()\"" classicJsx =
      .ok { text := "export default \"packageStorage(\"@o/p\")\"", unreadable := none } := by
    decide +kernel
  refine ⟨hincluded, fun h => ?_⟩
  obtain ⟨text, htext, hkept⟩ := h.included
  rw [hincluded] at htext
  have heq := (congrArg GraphModule.text (Except.ok.inj htext)).trans hkept.text_eq
  rw [editItems_tokens, render_tokens] at heq
  exact absurd heq (by decide +kernel)

end KodyCelld.Execute
