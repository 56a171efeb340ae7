import KodyCelld.OAuth.Protocol

namespace KodyCelld.Memory

open KodyCelld.Lib
open KodyCelld.OAuth (cutTo)

/-!
# Memories (`memory/model.ts`, `ai/providers.ts`)

What a memory says, the limits that its parts are kept to, and the text that it is embedded as.

* `normalizeMemoryInput` — the content of a memory from an input;
* `memoryEmbedText` — the text of a content that an embedding is made of.
-/

inductive MemoryStatus where
  | active
  | archived
  | deleted
  deriving DecidableEq, Repr

structure MemoryInput where
  subject : Text
  summary : Text
  details : Option Text
  category : Option Text
  tags : List Text
  sourceUris : List Text
  dedupeKey : Option Text
  deriving DecidableEq, Repr

/-- A content that was normalized. -/
structure MemoryContent where
  subject : Text
  summary : Text
  details : Text
  category : Option Text
  tags : List Text
  sourceUris : List Text
  dedupeKey : Option Text
  deriving DecidableEq, Repr

def invalidArgs (message : Text) : Thrown := .kody "invalid_args" message

/-- A trimmed text of at most `max` characters. -/
def bounded (value : Text) (max : ℕ) (field : Text) (required : Bool) : Except Thrown Text :=
  let trimmed := trim value
  if required && trimmed.isEmpty then
    .error (invalidArgs ("\"" ++ field ++ "\" is required."))
  else if max < utf16Length trimmed then
    .error (invalidArgs ("\"" ++ field ++ "\" must be at most " ++ natText max ++ " characters."))
  else .ok trimmed

/-- `value ? bounded(value, max, field) || null : null` -/
def boundedOrNull (value : Option Text) (max : ℕ) (field : Text) : Except Thrown (Option Text) :=
  match value.filter fun text => !text.isEmpty with
  | none => .ok none
  | some value =>
    match bounded value max field false with
    | .error e => .error e
    | .ok text => .ok (if text.isEmpty then none else some text)

/-- The tags of an input, each once. -/
def normalizeTags (tags : List Text) : Except Thrown (List Text) := do
  let tags ← tags.mapM fun tag => bounded tag 80 "tags[]" false
  let tags := (tags.filter fun tag => !tag.isEmpty).eraseDups
  if 12 < tags.length then .error (invalidArgs "At most 12 tags.")
  else .ok tags

/-- The sources of an input, each once; `canParse` is `URL.canParse`. -/
def normalizeSourceUris (canParse : Text → Bool) (uris : List Text) : Except Thrown (List Text) := do
  let uris ← uris.mapM fun uri => bounded uri 2048 "source_uris[]" false
  let uris := uris.eraseDups
  if 12 < uris.length then .error (invalidArgs "At most 12 source_uris.")
  else
    match uris.find? fun uri => !canParse uri with
    | some uri => .error (invalidArgs ("source_uris entry \"" ++ uri ++ "\" is not a valid URL."))
    | none => .ok uris

def normalizeMemoryInput (canParse : Text → Bool) (input : MemoryInput) :
    Except Thrown MemoryContent := do
  let tags ← normalizeTags input.tags
  let sourceUris ← normalizeSourceUris canParse input.sourceUris
  let category ← boundedOrNull input.category 80 "category"
  let dedupeKey ← boundedOrNull input.dedupeKey 160 "dedupe_key"
  let subject ← bounded input.subject 200 "subject" true
  let summary ← bounded input.summary 500 "summary" true
  let details ← bounded (input.details.getD []) 2000 "details" false
  .ok ⟨subject, summary, details, category, tags, sourceUris, dedupeKey⟩

/-! ### What is embedded -/

/-- `text.replaceAll(/\s+/g, ' ')` -/
def squeezeSpace : Text → Text
  | [] => []
  | [c] => if isSpace c then [' '] else [c]
  | c :: d :: rest =>
    if isSpace c then
      if isSpace d then squeezeSpace (d :: rest) else ' ' :: squeezeSpace (d :: rest)
    else c :: squeezeSpace (d :: rest)

def truncateEmbedInput (text : Text) : Text := cutTo 2000 (trim (squeezeSpace text))

/-- The text a memory is embedded and lexically indexed as. -/
def memoryEmbedText (memory : MemoryContent) : Text :=
  let tags : Text :=
    if memory.tags = [] then [] else ("tags: " : Text) ++ [',', ' '].intercalate memory.tags
  let category : Text :=
    match memory.category with
    | some category => ("category: " : Text) ++ category
    | none => []
  let lines := [memory.subject, memory.summary, memory.details, tags, category]
  truncateEmbedInput (['\n'].intercalate (lines.filter fun line => !line.isEmpty))

end KodyCelld.Memory
