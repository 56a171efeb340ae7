import KodyCelld.Lib.JsonSize

namespace KodyCelld.Mcp

open KodyCelld.Lib

/-!
# The tools of a server (`mcp-client/client.ts`)

`capTools` trims texts and schemas, replaces the largest tools by their short forms until the list
fits, and drops tools from the end where it still does not.

* `capTools` — the code, with the sizes and the total that it keeps;
* `degradeLoop_spec` — the total stays that of the list, and without room every tool is short;
* `dropTail_spec` — what is dropped from the end;
* `capTools_keeps` — what is returned, and why no more.
-/

structure McpTool where
  name : Text
  title : Option Text
  description : Option Text
  inputSchema : Json
  outputSchema : Option Json
  annotations : Option Json

def maxTools : ℕ := 200

def maxSchemaBytes : ℕ := 65536

def maxTotalToolBytes : ℕ := 1000000

/-- `JSON.stringify(tool)` -/
def toolJson (tool : McpTool) : Text :=
  jsonObject (jsonMember "name" (jsonString tool.name) ++
    optionalMember "title" (tool.title.map jsonString) ++
    optionalMember "description" (tool.description.map jsonString) ++
    jsonMember "inputSchema" (jsonStringify tool.inputSchema) ++
    optionalMember "outputSchema" (tool.outputSchema.map jsonStringify) ++
    optionalMember "annotations" (tool.annotations.map jsonStringify))

/-- `bytes(tool)` -/
def toolBytes (tool : McpTool) : ℕ := utf8Size (toolJson tool)

/-- `bytes(schema)` -/
def schemaBytes (schema : Json) : ℕ := utf8Size (jsonStringify schema)

def stub (size : ℕ) : Json :=
  .obj [("type", .str "object"),
    ("description", .str (("(schema too large: " : Text) ++ natText size ++ " bytes)"))]

/-- `text.replace(/\uFFFD$/, '')` -/
def dropReplacement (text : Text) : Text :=
  if text.getLast? = some replacementChar then text.dropLast else text

def truncateUtf8 (text : Text) (max : ℕ) : Text :=
  if utf8Size text ≤ max then text
  else dropReplacement (utf8Decode ((utf8Encode text).take max)) ++ " …[truncated]"

/-- A tool within the limits for its own parts. -/
def trimTool (tool : McpTool) : McpTool :=
  { tool with
    title := tool.title.map fun title => if title = [] then title else truncateUtf8 title 500
    description := tool.description.map fun description =>
      if description = [] then description else truncateUtf8 description 4000
    inputSchema :=
      if maxSchemaBytes < schemaBytes tool.inputSchema then stub (schemaBytes tool.inputSchema)
      else tool.inputSchema
    outputSchema := tool.outputSchema.map fun schema =>
      if maxSchemaBytes < schemaBytes schema then stub (schemaBytes schema) else schema }

/-- The short form of a tool: no annotations, no output schema, and the size of its input schema. -/
def degrade (tool : McpTool) : McpTool :=
  { tool with
    inputSchema := stub (schemaBytes tool.inputSchema), outputSchema := none, annotations := none }

/-- The variables of `capTools`. -/
structure Capping where
  capped : List McpTool
  sizes : List ℕ
  total : ℤ

/-- The loop over `order`, largest first, up to its `break`. -/
def degradeLoop : List (ℕ × ℕ) → Capping → Capping
  | [], c => c
  | (_, index) :: order, c =>
    if c.total ≤ maxTotalToolBytes then c
    else
      match c.capped[index]?, c.sizes[index]? with
      | some tool, some before =>
        let degraded := degrade tool
        let size := toolBytes degraded
        if before ≤ size then degradeLoop order c
        else degradeLoop order
          { capped := c.capped.set index degraded, sizes := c.sizes.set index size
            total := c.total - (before - size) }
      | _, _ => degradeLoop order c

/-- The loop that drops the last tool while the total is too large; `fuel` bounds the number of
    tools. -/
def dropTail : (fuel : ℕ) → Capping → Capping
  | 0, c => c
  | fuel + 1, c =>
    if c.capped ≠ [] ∧ (maxTotalToolBytes : ℤ) < c.total then
      dropTail fuel
        { capped := c.capped.dropLast, sizes := c.sizes.dropLast
          total := c.total - (c.sizes.getLast?.getD 0 + if 1 < c.capped.length then 1 else 0) }
    else c

def capTools (tools : List McpTool) : List McpTool :=
  let capped := (tools.take maxTools).map trimTool
  let sizes := capped.map toolBytes
  let total : ℤ := 2 + max 0 ((capped.length : ℤ) - 1) + sizes.sum
  let order := sizes.zipIdx.insertionSort fun a b => b.1 ≤ a.1
  let degraded := degradeLoop order { capped := capped, sizes := sizes, total := total }
  (dropTail degraded.capped.length degraded).capped

/-! ### Sizes -/

/-- The size of a list of tools. -/
def listBytes (tools : List McpTool) : ℕ := utf8Size (jsonArray (tools.map toolJson))

/-- The short form of a tool within its limits, where that is smaller. -/
def shortForm (tool : McpTool) : McpTool :=
  if toolBytes (degrade (trimTool tool)) < toolBytes (trimTool tool) then degrade (trimTool tool)
  else trimTool tool

theorem listBytes_eq (tools : List McpTool) :
    listBytes tools = 2 + (tools.length - 1) + (tools.map toolBytes).sum := by
  unfold listBytes
  rw [utf8Size_jsonArray, List.length_map, List.map_map]
  rfl

theorem listBytes_cast (tools : List McpTool) : (listBytes tools : ℤ) =
    2 + max 0 ((tools.length : ℤ) - 1) + ((tools.map toolBytes).sum : ℕ) := by
  rw [listBytes_eq]
  omega

/-- What the code keeps: the sizes of the tools, and that of their list. -/
structure Counted (c : Capping) : Prop where
  sizes : c.sizes = c.capped.map toolBytes
  total : c.total = listBytes c.capped

/-- Another item in the place of one changes a sum by the difference. -/
theorem sum_set {sizes : List ℕ} {index before : ℕ} (h : sizes[index]? = some before) (size : ℕ) :
    (sizes.set index size).sum + before = sizes.sum + size := by
  induction sizes generalizing index with
  | nil => exact absurd h (by simp)
  | cons first sizes ih =>
    cases index with
    | zero =>
      obtain rfl : first = before := by simpa using h
      simp only [List.set_cons_zero, List.sum_cons]
      omega
    | succ index =>
      have hrest := ih (by simpa using h)
      simp only [List.set_cons_succ, List.sum_cons]
      omega

/-- A tool in the place of another keeps the count. -/
theorem Counted.set {c : Capping} (h : Counted c) {index before : ℕ} {degraded : McpTool}
    (hbefore : c.sizes[index]? = some before) :
    Counted
      { capped := c.capped.set index degraded, sizes := c.sizes.set index (toolBytes degraded)
        total := c.total - (before - toolBytes degraded) } where
  sizes := by
    show c.sizes.set index _ = _
    rw [h.sizes, List.map_set]
  total := by
    show c.total - (before - toolBytes degraded) = _
    have hsum := sum_set hbefore (toolBytes degraded)
    rw [h.total, listBytes_eq, listBytes_eq, List.length_set, List.map_set, ← h.sizes]
    omega

/-! ### Degrading -/

/-- The short form of a tool that is within its limits. -/
def shorter (tool : McpTool) : McpTool :=
  if toolBytes (degrade tool) < toolBytes tool then degrade tool else tool

/-- One round of the loop: the tool at that place is its short form afterwards. -/
theorem degradeLoop_round {c : Capping} (h : Counted c) (size index : ℕ) (order : List (ℕ × ℕ))
    (hroom : (maxTotalToolBytes : ℤ) < c.total) :
    ∃ c', degradeLoop ((size, index) :: order) c = degradeLoop order c' ∧ Counted c' ∧
      c'.capped.length = c.capped.length ∧
      ∀ i : ℕ, c'.capped[i]? =
        if i = index then c.capped[i]?.map shorter else c.capped[i]? := by
  rw [degradeLoop, if_neg (not_le.mpr hroom)]
  have hsize : c.sizes[index]? = c.capped[index]?.map toolBytes := by
    rw [h.sizes, List.getElem?_map]
  rw [hsize]
  cases htool : c.capped[index]? with
  | none =>
    refine ⟨c, rfl, h, rfl, fun i => ?_⟩
    split
    · rename_i heq
      rw [heq, htool]
      rfl
    · rfl
  | some tool =>
    rw [htool, Option.map_some] at hsize
    dsimp only [Option.map_some]
    by_cases hle : toolBytes tool ≤ toolBytes (degrade tool)
    · rw [if_pos hle]
      refine ⟨c, rfl, h, rfl, fun i => ?_⟩
      split
      · rename_i heq
        rw [heq, htool, Option.map_some, shorter, if_neg (not_lt.mpr hle)]
      · rfl
    · rw [if_neg hle]
      refine ⟨_, rfl, h.set hsize, List.length_set, fun i => ?_⟩
      show (c.capped.set index (degrade tool))[i]? = _
      have hlength : index < c.capped.length := (List.getElem?_eq_some_iff.mp htool).1
      split
      · rename_i heq
        rw [heq, List.getElem?_set_self hlength, htool, Option.map_some, shorter,
          if_pos (not_le.mp hle)]
      · rename_i hne
        rw [List.getElem?_set_ne (Ne.symm hne)]

/-- **The loop over the largest**: the count is kept, every tool is as it was or its short form, and
    if there is no room all tools of the order are short. -/
theorem degradeLoop_spec {order : List (ℕ × ℕ)} {c : Capping} (h : Counted c)
    (hnodup : (order.map Prod.snd).Nodup) :
    Counted (degradeLoop order c) ∧
    (degradeLoop order c).capped.length = c.capped.length ∧
    ∀ i : ℕ,
      ((degradeLoop order c).capped[i]? = c.capped[i]? ∨ i ∈ order.map Prod.snd ∧
        (degradeLoop order c).capped[i]? = c.capped[i]?.map shorter) ∧
      (i ∈ order.map Prod.snd → (maxTotalToolBytes : ℤ) < (degradeLoop order c).total →
        (degradeLoop order c).capped[i]? = c.capped[i]?.map shorter) := by
  induction order generalizing c with
  | nil => exact ⟨h, rfl, fun i => ⟨.inl rfl, fun hmem => absurd hmem List.not_mem_nil⟩⟩
  | cons place order ih =>
    obtain ⟨size, index⟩ := place
    rw [List.map_cons, List.nodup_cons] at hnodup
    obtain ⟨hfresh, hnodup⟩ := hnodup
    by_cases hroom : (maxTotalToolBytes : ℤ) < c.total
    · obtain ⟨c', hround, hcounted, hlength, hplaces⟩ := degradeLoop_round h size index order hroom
      obtain ⟨hdone, hlength', hrest⟩ := ih hcounted hnodup
      rw [hround]
      refine ⟨hdone, hlength'.trans hlength, fun i => ?_⟩
      obtain ⟨heither, hshort⟩ := hrest i
      have hplace := hplaces i
      rw [List.map_cons, List.mem_cons]
      by_cases hi : i = index
      · -- The place of this round is not visited again.
        rw [if_pos hi] at hplace
        have hkept : (degradeLoop order c').capped[i]? = c.capped[i]?.map shorter := by
          rcases heither with heq | ⟨hmem, -⟩
          · rw [heq, hplace]
          · exact absurd (hi ▸ hmem) hfresh
        exact ⟨.inr ⟨.inl hi, hkept⟩, fun _ _ => hkept⟩
      · rw [if_neg hi] at hplace
        rw [hplace] at heither hshort
        refine ⟨heither.imp_right fun ⟨hmem, heq⟩ => ⟨.inr hmem, heq⟩, fun hmem hlt => ?_⟩
        exact hshort (hmem.resolve_left hi) hlt
    · have hfits : degradeLoop ((size, index) :: order) c = c := by
        rw [degradeLoop, if_pos (not_lt.mp hroom)]
      rw [hfits]
      exact ⟨h, rfl, fun i => ⟨.inl rfl, fun _ hlt => absurd hlt hroom⟩⟩

/-! ### Dropping from the end -/

/-- Dropping the last tool keeps the count. -/
theorem Counted.dropLast {c : Capping} (h : Counted c) (hne : c.capped ≠ []) :
    Counted
      { capped := c.capped.dropLast, sizes := c.sizes.dropLast
        total := c.total -
          (c.sizes.getLast?.getD 0 + if 1 < c.capped.length then 1 else 0) } where
  sizes := by
    show c.sizes.dropLast = _
    rw [h.sizes, List.map_dropLast]
  total := by
    show c.total - (c.sizes.getLast?.getD 0 + if 1 < c.capped.length then 1 else 0) =
      listBytes c.capped.dropLast
    obtain ⟨front, last, hsplit⟩ := (List.eq_nil_or_concat' c.capped).resolve_left hne
    rw [h.total, h.sizes, listBytes_cast, listBytes_cast, hsplit, List.map_append,
      List.dropLast_concat, List.map_singleton, List.getLast?_concat, Option.getD_some,
      List.sum_append, List.sum_singleton, List.length_append, List.length_singleton]
    split <;> push_cast <;> omega

/-- **What is dropped**: as many tools from the end as it takes for the list to fit. -/
theorem dropTail_spec {fuel : ℕ} {c : Capping} (h : Counted c) (hfuel : c.capped.length ≤ fuel) :
    ∃ kept ≤ c.capped.length, (dropTail fuel c).capped = c.capped.take kept ∧
      listBytes (c.capped.take kept) ≤ maxTotalToolBytes ∧
      (kept < c.capped.length → maxTotalToolBytes < listBytes (c.capped.take (kept + 1)) ∧
        (maxTotalToolBytes : ℤ) < c.total) := by
  induction fuel generalizing c with
  | zero =>
    have hnone : c.capped = [] := List.length_eq_zero_iff.mp (Nat.le_zero.mp hfuel)
    refine ⟨0, Nat.zero_le _, ?_, ?_, ?_⟩
    · rw [dropTail, hnone]
      rfl
    · rw [hnone]
      decide
    · rw [hnone]
      exact fun hlt => absurd hlt (Nat.lt_irrefl 0)
  | succ fuel ih =>
    rw [dropTail]
    split
    · rename_i hdrop
      obtain ⟨hne, hlt⟩ := hdrop
      have hpos : 0 < c.capped.length := List.length_pos_iff.mpr hne
      have hshorter : c.capped.dropLast.length = c.capped.length - 1 := List.length_dropLast
      obtain ⟨kept, hkept, hcapped, hfits, hnext⟩ :=
        ih (h.dropLast hne) (show c.capped.dropLast.length ≤ fuel by omega)
      dsimp only at hkept hcapped hfits hnext
      rw [hshorter] at hkept hnext
      have htake : ∀ n ≤ c.capped.length - 1, c.capped.dropLast.take n = c.capped.take n := by
        intro n hn
        rw [List.dropLast_eq_take, List.take_take, Nat.min_eq_left hn]
      rw [htake kept hkept] at hcapped hfits
      refine ⟨kept, by omega, hcapped, hfits, fun _ => ⟨?_, hlt⟩⟩
      by_cases hlast : kept < c.capped.length - 1
      · rw [← htake (kept + 1) (by omega)]
        exact (hnext hlast).1
      · -- The last tool that is dropped is the first one that did not fit.
        have hall : kept + 1 = c.capped.length := by omega
        rw [hall, List.take_length]
        rw [h.total] at hlt
        exact_mod_cast hlt
    · rename_i hstop
      refine ⟨c.capped.length, le_refl _, ?_, ?_, fun hlt => absurd hlt (Nat.lt_irrefl _)⟩
      · rw [List.take_length]
      · rw [List.take_length]
        rw [not_and_or, not_not, not_lt] at hstop
        rcases hstop with hnone | hle
        · rw [hnone]
          decide
        · rw [h.total] at hle
          exact_mod_cast hle

/-! ### What is returned -/

theorem name_shorter (tool : McpTool) : (shorter tool).name = tool.name := by
  unfold shorter
  split
  · rfl
  · rfl

/-- **What `capTools` keeps**: it returns, under their names and in their order, the first tools, each
    trimmed or short; at most 200 of them, whose JSON fits; and it stops before a tool only at 200, or
    where the short forms of the tools up to that one do not fit. -/
theorem capTools_keeps (tools : List McpTool) :
    (∀ i < (capTools tools).length,
      (capTools tools)[i]? = tools[i]?.map trimTool ∨
        (capTools tools)[i]? = tools[i]?.map shortForm) ∧
    (capTools tools).map McpTool.name <+: tools.map McpTool.name ∧
    (capTools tools).length ≤ maxTools ∧
    utf8Size (jsonArray ((capTools tools).map toolJson)) ≤ maxTotalToolBytes ∧
    ((capTools tools).length < tools.length → (capTools tools).length = maxTools ∨
      maxTotalToolBytes < utf8Size (jsonArray
        (((tools.take ((capTools tools).length + 1)).map shortForm).map toolJson))) := by
  set capped := (tools.take maxTools).map trimTool with hcapped
  set order := (capped.map toolBytes).zipIdx.insertionSort fun a b => b.1 ≤ a.1 with horder
  have hstart : Counted
      { capped := capped, sizes := capped.map toolBytes
        total := 2 + max 0 ((capped.length : ℤ) - 1) + (capped.map toolBytes).sum } :=
    ⟨rfl, (listBytes_cast capped).symm⟩
  have hplaces : (order.map Prod.snd).Perm (List.range capped.length) := by
    have hperm := (List.perm_insertionSort (fun a b : ℕ × ℕ => b.1 ≤ a.1)
      (capped.map toolBytes).zipIdx).map Prod.snd
    rw [List.zipIdx_map_snd, List.length_map, ← List.range_eq_range'] at hperm
    exact hperm
  obtain ⟨hcounted, hlength, hshort⟩ :=
    degradeLoop_spec hstart (hplaces.nodup_iff.mpr List.nodup_range)
  have hall : ∀ i < capped.length, i ∈ order.map Prod.snd := fun i hi =>
    hplaces.mem_iff.mpr (List.mem_range.mpr hi)
  obtain ⟨kept, hkept, htake, hfits, hnext⟩ := dropTail_spec hcounted (le_refl _)
  generalize hdegraded : degradeLoop order _ = d at hcounted hlength hshort hkept htake hfits hnext
  replace hlength : d.capped.length = capped.length := hlength
  have hresult : capTools tools = d.capped.take kept := by
    rw [← htake, ← hdegraded]
    rfl
  have hkeptlength : (capTools tools).length = kept := by
    rw [hresult, List.length_take, Nat.min_eq_left hkept]
  have htrimmed : capped.length = min maxTools tools.length := by
    rw [hcapped, List.length_map, List.length_take]
  have hplace : ∀ i < capped.length, capped[i]? = tools[i]?.map trimTool := by
    intro i hi
    rw [hcapped, List.getElem?_map, List.getElem?_take, if_pos (by omega)]
  have heach : ∀ i < capped.length, d.capped[i]? = tools[i]?.map trimTool ∨
      d.capped[i]? = tools[i]?.map shortForm := by
    intro i hi
    have heither := (hshort i).1
    rw [hplace i hi] at heither
    rcases heither with heq | ⟨-, heq⟩
    · exact .inl heq
    · rw [Option.map_map] at heq
      exact .inr heq
  rw [hkeptlength]
  refine ⟨?_, ?_, ?_, ?_, ?_⟩
  · intro i hi
    rw [hresult, List.getElem?_take, if_pos hi]
    exact heach i (by omega)
  · have hnames : d.capped.map McpTool.name = (tools.map McpTool.name).take maxTools := by
      refine List.ext_getElem? fun i => ?_
      rw [List.getElem?_map, List.getElem?_take, List.getElem?_map]
      by_cases hi : i < capped.length
      · rw [if_pos (by omega)]
        rcases heach i hi with heq | heq
        · rw [heq, Option.map_map]
          rfl
        · rw [heq, Option.map_map]
          congr 1
          ext1 tool
          exact name_shorter (trimTool tool)
      · rw [List.getElem?_eq_none (by omega)]
        split
        · rw [List.getElem?_eq_none (by omega)]
        · rfl
    rw [hresult, List.map_take, hnames, List.take_take]
    exact List.take_prefix _ _
  · omega
  · rw [hresult]
    exact hfits
  · intro hmore
    by_cases hdropped : kept < d.capped.length
    · obtain ⟨hexceeds, htotal⟩ := hnext hdropped
      refine .inr ?_
      have htake' : d.capped.take (kept + 1) = (tools.take (kept + 1)).map shortForm := by
        refine List.ext_getElem? fun i => ?_
        rw [List.getElem?_take, List.getElem?_map, List.getElem?_take]
        split
        · have hi : i < capped.length := by omega
          rw [(hshort i).2 (hall i hi) htotal, hplace i hi, Option.map_map]
          rfl
        · rfl
      rw [htake'] at hexceeds
      exact hexceeds
    · left
      omega

end KodyCelld.Mcp
