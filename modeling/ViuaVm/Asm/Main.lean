import ViuaVm.Asm.Bytecode
import ViuaVm.Asm.Reloc
import ViuaVm.Elf.Layout

/-! # The assembler's `main`: from the parsed nodes to the object file

`main` of `tools/exec/asm.cpp` runs the stages in order on the nodes the parser returns: the
two label stages, the two cooking stages, `find_entry_point`, `emit_bytecode`,
`make_reloc_table`, and `emit_elf` with the entry function's `st_value` as the entry point
(`assemble`). The cooking stages call helpers of `viua/libs/stage.h`, which is not among the
sources: the helpers are parameters, and the stages' loops are modelled around them.

`find_entry_point` returns the one function with the `entry_point` attribute, or stops on the
second one with the `Duplicated_entry_point` diagnostic (`findEntryPoint_eq`), and so does
the whole assembler (`assemble_duplicated_entry_point`); a label with the attribute is
`static_cast` to a function, which is undefined behaviour, and the model stops there.

The cooking stages change functions' instructions only (`shapes_cookLongImmediates`,
`shapes_cookPseudoinstructions`), so what the label stages established about names still
holds for `emit_bytecode`. For a program with one entry point, `assemble_entry_point` follows
the entry point through every stage: the object file's `e_entry`, read back from its header,
is where the entry function's words are in the file.
-/
namespace ViuaVm.Asm.Main
open ViuaVm.Arch.Ops ViuaVm.Elf.LittleEndian ViuaVm.Elf.Structs ViuaVm.Elf.Emit
open ViuaVm.Elf.Layout ViuaVm.Asm.Stage ViuaVm.Asm.Labels ViuaVm.Asm.Bytecode ViuaVm.Asm.Reloc

/-! ## `find_entry_point` -/

/-- The attribute of the function the image starts at. -/
def entryPointAttr : Bytes := ascii "entry_point"

/-- The diagnostic of a second entry point: on its name `dup`, with its `entry_point`
attribute attached, and a note naming the first, `first`. The attribute is
`dup.attr("entry_point").value()`, there since `has_attr` held; the model keeps an attribute
as its key. -/
def duplicatedEntryPoint (dup first : Lexeme) : Error :=
  Error.note
    (Error.add { main := dup, cause := .duplicatedEntryPoint, message := dup.text }
      ⟨.other, entryPointAttr⟩)
    (ascii "first entry point was: " ++ first.text)

section EntryPoint
variable {Insn : Type}

/-- The loop of `stage::find_entry_point`, from the entry point found so far. A node with
the attribute that is not a function is `static_cast` to `ast::Fn_def&` all the same. -/
def findEntryPointFrom : Option Lexeme → List (Node Insn) → Except Stop (Option Lexeme)
  | entryPointFn, [] => .ok entryPointFn
  | entryPointFn, each :: nodes =>
    if each.hasAttr entryPointAttr then
      match each, entryPointFn with
      | .fnDef dup, some first => .error (.exit (duplicatedEntryPoint dup.name first))
      | .fnDef fn, none => findEntryPointFrom (some fn.name) nodes
      | _, _ => .error .undefined
    else findEntryPointFrom entryPointFn nodes

/-- `stage::find_entry_point`. -/
def findEntryPoint (nodes : List (Node Insn)) : Except Stop (Option Lexeme) :=
  findEntryPointFrom none nodes

/-- The functions with the `entry_point` attribute, in source order. -/
def entryPoints (nodes : List (Node Insn)) : List (FnDef Insn) :=
  (fnDefs nodes).filter (·.hasAttr entryPointAttr)

/-- What the loop decides from the entry-point functions still to come, `found` being the
one met so far. -/
def entryPointOf : Option Lexeme → List (FnDef Insn) → Except Stop (Option Lexeme)
  | found, [] => .ok found
  | none, fn :: fns => entryPointOf (some fn.name) fns
  | some first, dup :: _ => .error (.exit (duplicatedEntryPoint dup.name first))

@[simp] theorem entryPointOf_nil (found : Option Lexeme) :
    entryPointOf found ([] : List (FnDef Insn)) = .ok found := by
  cases found <;> rfl

@[simp] theorem entryPoints_fnDef (fn : FnDef Insn) (nodes : List (Node Insn)) :
    entryPoints (.fnDef fn :: nodes) =
      if fn.hasAttr entryPointAttr then fn :: entryPoints nodes else entryPoints nodes := by
  by_cases h : fn.hasAttr entryPointAttr <;> simp [entryPoints, fnDefs, h]

@[simp] theorem entryPoints_labelDef (ct : LabelDef) (nodes : List (Node Insn)) :
    entryPoints (.labelDef ct :: nodes) = entryPoints nodes := rfl

@[simp] theorem entryPoints_metadata (nodes : List (Node Insn)) :
    entryPoints (.metadata :: nodes) = entryPoints nodes := rfl

/-- The loop decides as `entryPointOf` when no label has the attribute. -/
theorem findEntryPointFrom_eq (found : Option Lexeme) {nodes : List (Node Insn)}
    (hlabels : ∀ ct ∈ labelDefs nodes, ct.hasAttr entryPointAttr = false) :
    findEntryPointFrom found nodes = entryPointOf found (entryPoints nodes) := by
  induction nodes generalizing found with
  | nil => simp [findEntryPointFrom, entryPoints, fnDefs]
  | cons each nodes ih =>
    cases each with
    | fnDef fn =>
      have ih := fun found => ih found (by simpa [labelDefs] using hlabels)
      by_cases hx : fn.hasAttr entryPointAttr
      · cases found <;> simp [findEntryPointFrom, Node.hasAttr, hx, entryPointOf, ih]
      · simp [findEntryPointFrom, Node.hasAttr, hx, ih]
    | labelDef ct =>
      have hx := hlabels ct (by simp [labelDefs])
      simp [findEntryPointFrom, Node.hasAttr, hx,
        ih found (fun ct' h => hlabels ct' (by simp [labelDefs, h]))]
    | metadata => simp [findEntryPointFrom, Node.hasAttr, ih found (by simpa [labelDefs] using hlabels)]

/-- **At most one entry point.** When no label has the `entry_point` attribute,
`find_entry_point` returns nothing if no function has it, the function's name if one has, and
otherwise stops on the second one with the `Duplicated_entry_point` diagnostic, which names
the first. -/
theorem findEntryPoint_eq (nodes : List (Node Insn))
    (hlabels : ∀ ct ∈ labelDefs nodes, ct.hasAttr entryPointAttr = false) :
    findEntryPoint nodes =
      match entryPoints nodes with
      | [] => .ok none
      | [fn] => .ok (some fn.name)
      | first :: dup :: _ => .error (.exit (duplicatedEntryPoint dup.name first.name)) := by
  rw [findEntryPoint, findEntryPointFrom_eq none hlabels]
  rcases entryPoints nodes with _ | ⟨fn, _ | ⟨dup, fns⟩⟩ <;> rfl

/-- A program with `main` as its entry point, an atom label, and an `extern` function. -/
def entrySample : List (Node InstructionType) :=
  [.fnDef ⟨⟨.other, ascii "main"⟩, [entryPointAttr], [0x2#64]⟩,
    .labelDef ⟨⟨.other, ascii "answer"⟩, ascii "atom", [⟨.other, ascii "42"⟩], []⟩,
    .fnDef ⟨⟨.other, ascii "puts"⟩, [externAttr], []⟩]

theorem findEntryPoint_eq_sample :
    (∀ ct ∈ labelDefs entrySample, ct.hasAttr entryPointAttr = false) ∧
      findEntryPoint entrySample = .ok (some ⟨.other, ascii "main"⟩) :=
  ⟨by decide, (findEntryPoint_eq entrySample (by decide)).trans rfl⟩

end EntryPoint

/-! ## The cooking stages -/

/-- What the helper `cook_long_immediates` of `viua/libs/stage.h` works on: `.rodata`, the
symbol table and `symbol_map`. -/
structure Buffers where
  rodataBuf : Bytes
  symbolTable : List Sym
  symbolMap : SymbolMap

section Cook
variable {Insn : Type} (cook : Insn → Buffers → Except Error (List Insn × Buffers))
  (expand : List Insn → SymbolMap → Except Error (List Insn))

/-- A function's instructions, each replaced by what the helper `cook` makes of it. -/
def cookInstructions : List Insn → Buffers → Except Error (List Insn × Buffers)
  | [], b => .ok ([], b)
  | insn :: insns, b => do
    let (c, b) ← cook insn b
    let (cooked, b) ← cookInstructions insns b
    pure (c ++ cooked, b)

/-- The body of the loop of `stage::cook_long_immediates`: a compile-time error is shown and
the assembler exits. -/
def cookNode : Node Insn → Buffers → Except Stop (Node Insn × Buffers)
  | .fnDef fn, b =>
    match cookInstructions cook fn.instructions b with
    | .error e => .error (.exit e)
    | .ok (cooked, b) => .ok (.fnDef { fn with instructions := cooked }, b)
  | each, b => .ok (each, b)

/-- `stage::cook_long_immediates`. -/
def cookLongImmediates : List (Node Insn) → Buffers → Except Stop (List (Node Insn) × Buffers)
  | [], b => .ok ([], b)
  | each :: nodes, b => do
    let (each, b) ← cookNode cook each b
    let (nodes, b) ← cookLongImmediates nodes b
    pure (each :: nodes, b)

/-- The body of the loop of `stage::cook_pseudoinstructions`: a function's instructions
replaced by what the helper `expand_pseudoinstructions` makes of them. -/
def expandNode (symbolMap : SymbolMap) : Node Insn → Except Stop (Node Insn)
  | .fnDef fn =>
    match expand fn.instructions symbolMap with
    | .error e => .error (.exit e)
    | .ok insns => .ok (.fnDef { fn with instructions := insns })
  | each => .ok each

/-- `stage::cook_pseudoinstructions`. -/
def cookPseudoinstructions (symbolMap : SymbolMap) (nodes : List (Node Insn)) :
    Except Stop (List (Node Insn)) :=
  nodes.mapM (expandNode expand symbolMap)

/-! ### What the cooking stages keep -/

/-- A function with its instructions left out. -/
def fnShape (fn : FnDef Insn) : FnDef Unit := ⟨fn.name, fn.attributes, []⟩

/-- A node with its instructions left out. -/
def shape : Node Insn → Node Unit
  | .fnDef fn => .fnDef (fnShape fn)
  | .labelDef ct => .labelDef ct
  | .metadata => .metadata

theorem fnDefs_map_shape (nodes : List (Node Insn)) :
    fnDefs (nodes.map shape) = (fnDefs nodes).map fnShape := by
  induction nodes with
  | nil => rfl
  | cons each nodes ih => cases each <;> simp [shape, fnDefs, ih]

theorem labelDefs_map_shape (nodes : List (Node Insn)) :
    labelDefs (nodes.map shape) = labelDefs nodes := by
  induction nodes with
  | nil => rfl
  | cons each nodes ih => cases each <;> simp [shape, labelDefs, ih]

/-- Two node lists of one shape have the same functions' names, the same labels, and the
same entry points up to their instructions. -/
theorem eq_of_shapes {nodes nodes' : List (Node Insn)} (h : nodes'.map shape = nodes.map shape) :
    fnNames nodes' = fnNames nodes ∧ labelDefs nodes' = labelDefs nodes ∧
      (entryPoints nodes').map fnShape = (entryPoints nodes).map fnShape := by
  have hf := fnDefs_map_shape nodes'
  have hl := labelDefs_map_shape nodes'
  rw [h, fnDefs_map_shape] at hf
  rw [h, labelDefs_map_shape] at hl
  refine ⟨?_, hl.symm, ?_⟩
  · have := congrArg (List.map fun fn : FnDef Unit => fn.name.text) hf
    simpa [fnNames, fnShape, Function.comp_def] using this.symm
  · have := congrArg (List.filter fun fn : FnDef Unit => fn.hasAttr entryPointAttr) hf
    simpa [entryPoints, List.filter_map, Function.comp_def, fnShape, FnDef.hasAttr] using this.symm

theorem shape_cookNode {each each' : Node Insn} {b b' : Buffers}
    (h : cookNode cook each b = .ok (each', b')) : shape each' = shape each := by
  cases each with
  | fnDef fn =>
    simp only [cookNode] at h
    split at h
    · cases h
    · cases h; rfl
  | labelDef ct => cases h; rfl
  | metadata => cases h; rfl

/-- **`cook_long_immediates` changes functions' instructions only.** -/
theorem shapes_cookLongImmediates {nodes nodes' : List (Node Insn)} {b b' : Buffers}
    (h : cookLongImmediates cook nodes b = .ok (nodes', b')) :
    nodes'.map shape = nodes.map shape := by
  induction nodes generalizing nodes' b with
  | nil => cases h; rfl
  | cons each nodes ih =>
    obtain ⟨⟨each', b₁⟩, h₁, h⟩ := bind_eq_ok.mp h
    obtain ⟨⟨nodes'', b₂⟩, h₂, h⟩ := bind_eq_ok.mp h
    cases h
    simp [shape_cookNode cook h₁, ih h₂]

theorem shape_expandNode {symbolMap : SymbolMap} {each each' : Node Insn}
    (h : expandNode expand symbolMap each = .ok each') : shape each' = shape each := by
  cases each with
  | fnDef fn =>
    simp only [expandNode] at h
    split at h
    · cases h
    · cases h; rfl
  | labelDef ct => cases h; rfl
  | metadata => cases h; rfl

/-- **`cook_pseudoinstructions` changes functions' instructions only.** -/
theorem shapes_cookPseudoinstructions {symbolMap : SymbolMap} {nodes nodes' : List (Node Insn)}
    (h : cookPseudoinstructions expand symbolMap nodes = .ok nodes') :
    nodes'.map shape = nodes.map shape := by
  induction nodes generalizing nodes' with
  | nil => cases h; rfl
  | cons each nodes ih =>
    rw [cookPseudoinstructions, List.mapM_cons] at h
    obtain ⟨each', h₁, h⟩ := bind_eq_ok.mp h
    obtain ⟨nodes'', h₂, h⟩ := bind_eq_ok.mp h
    cases h
    simp [shape_expandNode expand h₁, ih h₂]

/-! ### What the cooking stages do to the buffers -/

/-- What the helper `cook_long_immediates` may do to the buffers, as the spec describes it (a
long immediate is appended to `.rodata` with a symbol of its own): the symbol table only
grows, and a name already in `symbol_map` keeps its index. -/
structure Buffers.Grows (b b' : Buffers) : Prop where
  symbols : b.symbolTable <+: b'.symbolTable
  map : ∀ a k, b.symbolMap a = some k → b'.symbolMap a = some k

theorem Buffers.Grows.refl (b : Buffers) : b.Grows b := ⟨List.prefix_refl _, fun _ _ h => h⟩

theorem Buffers.Grows.trans {b b' b'' : Buffers} (h₁ : b.Grows b') (h₂ : b'.Grows b'') :
    b.Grows b'' :=
  ⟨h₁.symbols.trans h₂.symbols, fun a k h => h₂.map a k (h₁.map a k h)⟩

/-- A name set valid in the buffers stays valid in buffers that grew from them. -/
theorem Buffers.Grows.symbolsValid {b b' : Buffers} (h : b.Grows b') {names : List Bytes}
    (hv : SymbolsValid names b.symbolMap b.symbolTable.length) :
    SymbolsValid names b'.symbolMap b'.symbolTable.length :=
  hv.transfer (fun a ha => by
      obtain ⟨k, hk, -⟩ := hv.inRange a ha
      rw [hk, h.map a k hk])
    h.symbols.length_le

section Preserves
variable {cook} {R : Buffers → Buffers → Prop} (hrefl : ∀ b, R b b)
  (htrans : ∀ {b₁ b₂ b₃}, R b₁ b₂ → R b₂ b₃ → R b₁ b₃)
  (hcook : ∀ insn b r, cook insn b = .ok r → R b r.2)
include hrefl htrans hcook

theorem cookInstructions_preserves {insns cooked : List Insn} {b b' : Buffers}
    (h : cookInstructions cook insns b = .ok (cooked, b')) : R b b' := by
  induction insns generalizing cooked b with
  | nil => cases h; exact hrefl _
  | cons insn insns ih =>
    obtain ⟨⟨c, b₁⟩, h₁, h⟩ := bind_eq_ok.mp h
    obtain ⟨⟨cooked', b₂⟩, h₂, h⟩ := bind_eq_ok.mp h
    cases h
    exact htrans (hcook insn b _ h₁) (ih h₂)

theorem cookNode_preserves {each each' : Node Insn} {b b' : Buffers}
    (h : cookNode cook each b = .ok (each', b')) : R b b' := by
  cases each with
  | fnDef fn =>
    simp only [cookNode] at h
    split at h
    · cases h
    · rename_i heq; cases h; exact cookInstructions_preserves hrefl htrans hcook heq
  | labelDef ct => cases h; exact hrefl b
  | metadata => cases h; exact hrefl b

/-- A relation every cooked instruction keeps between the buffers, reflexive and
transitive, holds between the buffers before and after `cook_long_immediates`. -/
theorem cookLongImmediates_preserves {nodes nodes' : List (Node Insn)} {b b' : Buffers}
    (h : cookLongImmediates cook nodes b = .ok (nodes', b')) : R b b' := by
  induction nodes generalizing nodes' b with
  | nil => cases h; exact hrefl _
  | cons each nodes ih =>
    obtain ⟨⟨each', b₁⟩, h₁, h⟩ := bind_eq_ok.mp h
    obtain ⟨⟨nodes'', b₂⟩, h₂, h⟩ := bind_eq_ok.mp h
    cases h
    exact htrans (cookNode_preserves hrefl htrans hcook h₁) (ih h₂)

end Preserves

/-- **`cook_long_immediates` only grows the buffers**, when its helper does. -/
theorem grows_cookLongImmediates {cook} (hcook : ∀ insn b r, cook insn b = .ok r → b.Grows r.2)
    {nodes nodes' : List (Node Insn)} {b b' : Buffers}
    (h : cookLongImmediates cook nodes b = .ok (nodes', b')) : b.Grows b' :=
  cookLongImmediates_preserves Buffers.Grows.refl (fun h₁ h₂ => h₁.trans h₂) hcook h

end Cook

/-! ## `main` -/

section Main
variable {Insn : Type} (emitInstruction : Insn → InstructionType) (unescape : Bytes → Bytes)
  (ston : Bytes → Nat) (R_VIUA_JUMP_SLOT R_VIUA_OBJECT : Nat) (comment : Bytes)

/-- `main`'s label stages, from its initial tables. -/
def loadLabels (sourcePath : Bytes) (nodes : List (Node Insn)) : Except Stop Tables :=
  loadValueLabels unescape ston nodes (loadFunctionLabels nodes (initialTables sourcePath))

/-- The entry point `main` passes to `emit_elf`: the entry function's `st_value`, looked up
with `at` in `symbol_map` and then in the symbol table. -/
def entryValue (symbolMap : SymbolMap) (symbolTable : List Sym) :
    Option Lexeme → Except Stop (Option Nat)
  | some fn => do
    let k ← mapAt symbolMap fn.text
    let sym ← vectorAt symbolTable k
    pure (some sym.stValue)
  | none => pure none

/-- `main` after the cooking stages: the entry point, the text, the relocations, and the
object file `emit_elf` writes, relocatable and with the relocation table. -/
def emitObject (nodes : List (Node Insn)) (tables : Tables) : Except Stop Bytes := do
  let entryPointFn ← findEntryPoint nodes
  let (text, symbolTable) ←
    emitBytecode emitInstruction nodes [] tables.symbolTable tables.symbolMap
  let relocTable ← makeRelocTable R_VIUA_JUMP_SLOT R_VIUA_OBJECT text
  let entry ← entryValue tables.symbolMap symbolTable entryPointFn
  pure (emitElf false entry comment text (some relocTable) tables.rodataBuf tables.stringTable
    symbolTable)

/-- `main` of `tools/exec/asm.cpp`, from the nodes `syntactical_analysis` returns to the bytes
of the object file. Between the cooking stages the string table gets its closing zero byte. -/
def assemble (cook : Insn → Buffers → Except Error (List Insn × Buffers))
    (expand : List Insn → SymbolMap → Except Error (List Insn)) (sourcePath : Bytes)
    (nodes : List (Node Insn)) : Except Stop Bytes := do
  let tables ← loadLabels unescape ston sourcePath nodes
  let (nodes, b) ←
    cookLongImmediates cook nodes ⟨tables.rodataBuf, tables.symbolTable, tables.symbolMap⟩
  let tables : Tables := ⟨b.rodataBuf, tables.stringTable ++ [0], b.symbolTable, b.symbolMap⟩
  let nodes ← cookPseudoinstructions expand tables.symbolMap nodes
  emitObject emitInstruction R_VIUA_JUMP_SLOT R_VIUA_OBJECT comment nodes tables

/-- `HALT` asks for no relocation. -/
theorem relocType_halt : relocType R_VIUA_JUMP_SLOT R_VIUA_OBJECT (N.encode ⟨OPCODE.HALT⟩) = none := by
  rw [relocType, if_neg (by decide), if_neg (by decide)]

/-- **The entry point, through the stages after cooking.** For nodes whose functions' names
are distinct and valid in the tables, with one entry-point function that is not `extern` and
no label with the attribute, the stages succeed when the text's size fits and its first
function does not start with a `CALL` or an `ATOM`; and `e_entry`, read back from the file,
is where the entry function's words are. -/
theorem emitObject_entry_point {nodes : List (Node Insn)} {tables : Tables}
    (hv : SymbolsValid (fnNames nodes) tables.symbolMap tables.symbolTable.length)
    (hnodup : (fnNames nodes).Nodup)
    (hlabels : ∀ ct ∈ labelDefs nodes, ct.hasAttr entryPointAttr = false)
    {fn : FnDef Insn} (hentry : entryPoints nodes = [fn]) (hlocal : fn.hasAttr externAttr = false)
    (hsize : 8 * (1 + totalSize (fnDefs nodes)) < 2 ^ 64)
    (hfirst : ∀ w, (emittedWords emitInstruction (fnDefs nodes))[0]? = some w →
      relocType R_VIUA_JUMP_SLOT R_VIUA_OBJECT w = none) :
    ∃ file, emitObject emitInstruction R_VIUA_JUMP_SLOT R_VIUA_OBJECT comment nodes tables =
        .ok file ∧
      (file.length < 2 ^ 64 →
        slice file (leVal (slice file 24 8)) (8 * fn.instructions.length) =
          wordBytes (fn.instructions.map emitInstruction)) := by
  have hfind : findEntryPoint nodes = .ok (some fn.name) := by
    rw [findEntryPoint, findEntryPointFrom_eq none hlabels, hentry]; rfl
  obtain ⟨symbolTable', hemit, hplaced⟩ := emitBytecode_eq emitInstruction nodes hv hnodup []
  have hem := emitted_of_placed emitInstruction hplaced
  -- the text is `HALT` and the functions' words, so the relocation loop goes through
  have hreloc := @foldlM_relocStep_range R_VIUA_JUMP_SLOT R_VIUA_OBJECT
    (N.encode ⟨OPCODE.HALT⟩ :: emittedWords emitInstruction (fnDefs nodes))
    (by rw [hem.length]; exact hsize)
    (fun i hi w hw => by
      rcases (show i = 0 ∨ i = 1 by omega) with rfl | rfl
      · obtain rfl : N.encode ⟨OPCODE.HALT⟩ = w := by simpa using hw
        exact relocType_halt R_VIUA_JUMP_SLOT R_VIUA_OBJECT
      · exact hfirst w (by simpa using hw))
    _ (Nat.le_refl _)
  -- the entry function's symbol has its words' byte offset
  obtain ⟨j, hj⟩ : ∃ j, (fnDefs nodes)[j]? = some fn :=
    List.mem_iff_getElem?.mp (List.mem_of_mem_filter (hentry ▸ List.mem_singleton_self fn))
  obtain ⟨k, sym, hk, -, hsym⟩ := hplaced.placed j fn hj hlocal
  have hval : entryValue tables.symbolMap symbolTable' (some fn.name) =
      .ok (some (8 * (1 + offset (fnDefs nodes) j))) := by
    simp [entryValue, mapAt_of_eq hk, vectorAt_eq_ok.mpr hsym, bind, Except.bind, pure,
      Except.pure]
  have hobj : emitObject emitInstruction R_VIUA_JUMP_SLOT R_VIUA_OBJECT comment nodes tables =
      .ok (emitElf false (some (8 * (1 + offset (fnDefs nodes) j))) comment
        (N.encode ⟨OPCODE.HALT⟩ :: emittedWords emitInstruction (fnDefs nodes))
        (some (relocations R_VIUA_JUMP_SLOT R_VIUA_OBJECT
          (N.encode ⟨OPCODE.HALT⟩ :: emittedWords emitInstruction (fnDefs nodes))))
        tables.rodataBuf tables.stringTable symbolTable') := by
    simp only [emitObject, hfind, hemit, makeRelocTable, hreloc, hval, bind, Except.bind, pure,
      Except.pure]
    rfl
  refine ⟨_, hobj, fun hlen => ?_⟩
  have hin := hem.inText j fn hj
  rw [slice_eEntry_emitElf _ _ _ _ _ _ _ (by rw [← Nat.mul_add]; omega) hlen,
    slice_wordBytes, hem.words j fn hj]

/-- The label stages give every function a symbol of its own, when no two functions share a
name and no label has a function's name. -/
theorem symbolsValid_loadLabels {sourcePath : Bytes} {nodes : List (Node Insn)}
    {tables : Tables} (hload : loadLabels unescape ston sourcePath nodes = .ok tables)
    (hnodup : (fnNames nodes).Nodup) (hdisjoint : ∀ a ∈ labelNames nodes, a ∉ fnNames nodes) :
    SymbolsValid (fnNames nodes) tables.symbolMap tables.symbolTable.length := by
  have hv := symbolsValid_loadFunctionLabels nodes (initialTables sourcePath)
    (SymbolsValid.nil _ _) (fun _ _ h => by simp at h) hnodup
  rw [List.append_nil] at hv
  exact symbolsValid_loadValueLabels unescape ston hload hv hdisjoint

/-- `main` once the label and cooking stages have gone through. -/
theorem assemble_eq {cook : Insn → Buffers → Except Error (List Insn × Buffers)}
    {expand : List Insn → SymbolMap → Except Error (List Insn)} {sourcePath : Bytes}
    {nodes : List (Node Insn)} {tables : Tables}
    (hload : loadLabels unescape ston sourcePath nodes = .ok tables)
    {cooked : List (Node Insn)} {b : Buffers}
    (hcooked : cookLongImmediates cook nodes ⟨tables.rodataBuf, tables.symbolTable,
      tables.symbolMap⟩ = .ok (cooked, b))
    {expanded : List (Node Insn)}
    (hexpanded : cookPseudoinstructions expand b.symbolMap cooked = .ok expanded) :
    assemble emitInstruction unescape ston R_VIUA_JUMP_SLOT R_VIUA_OBJECT comment cook expand
        sourcePath nodes =
      emitObject emitInstruction R_VIUA_JUMP_SLOT R_VIUA_OBJECT comment expanded
        ⟨b.rodataBuf, tables.stringTable ++ [0], b.symbolTable, b.symbolMap⟩ := by
  simp only [assemble, hload, hcooked, hexpanded, bind, Except.bind]

/-- **Two entry points stop the assembler.** When no label has the `entry_point` attribute
and two functions or more have it, `main` stops, once the label and cooking stages have gone
through, with the `Duplicated_entry_point` diagnostic on the second one, naming the first. -/
theorem assemble_duplicated_entry_point (cook : Insn → Buffers → Except Error (List Insn × Buffers))
    (expand : List Insn → SymbolMap → Except Error (List Insn)) (sourcePath : Bytes)
    {nodes : List (Node Insn)} (hlabels : ∀ ct ∈ labelDefs nodes, ct.hasAttr entryPointAttr = false)
    {first dup : FnDef Insn} {fns : List (FnDef Insn)}
    (hentry : entryPoints nodes = first :: dup :: fns)
    {tables : Tables} (hload : loadLabels unescape ston sourcePath nodes = .ok tables)
    {cooked : List (Node Insn)} {b : Buffers}
    (hcooked : cookLongImmediates cook nodes ⟨tables.rodataBuf, tables.symbolTable,
      tables.symbolMap⟩ = .ok (cooked, b))
    {expanded : List (Node Insn)}
    (hexpanded : cookPseudoinstructions expand b.symbolMap cooked = .ok expanded) :
    assemble emitInstruction unescape ston R_VIUA_JUMP_SLOT R_VIUA_OBJECT comment cook expand
        sourcePath nodes = .error (.exit (duplicatedEntryPoint dup.name first.name)) := by
  obtain ⟨-, hl, he⟩ := eq_of_shapes ((shapes_cookPseudoinstructions expand hexpanded).trans
    (shapes_cookLongImmediates cook hcooked))
  rw [hentry] at he
  obtain ⟨first', dup', fns', hfns, h1, h2⟩ : ∃ first' dup' fns',
      entryPoints expanded = first' :: dup' :: fns' ∧ fnShape first' = fnShape first ∧
        fnShape dup' = fnShape dup := by
    rcases h : entryPoints expanded with _ | ⟨first', _ | ⟨dup', fns'⟩⟩ <;> rw [h] at he
    · cases he
    · simp at he
    · simp only [List.map_cons, List.cons.injEq] at he
      exact ⟨first', dup', fns', rfl, he.1, he.2.1⟩
  have hfind : findEntryPoint expanded = entryPointOf none (first' :: dup' :: fns') := by
    rw [findEntryPoint, findEntryPointFrom_eq none (hl ▸ hlabels), hfns]
  have hn1 : first'.name = first.name := congrArg (fun fn : FnDef Unit => fn.name) h1
  have hn2 : dup'.name = dup.name := congrArg (fun fn : FnDef Unit => fn.name) h2
  rw [assemble_eq emitInstruction unescape ston R_VIUA_JUMP_SLOT R_VIUA_OBJECT comment hload
    hcooked hexpanded, emitObject, hfind, ← hn1, ← hn2]
  rfl

/-- The cooking helper of a program with nothing to cook. -/
def cookNothing (insn : InstructionType) (b : Buffers) :
    Except Error (List InstructionType × Buffers) :=
  .ok ([insn], b)

/-- The expansion helper of a program with no pseudo-instruction. -/
def expandNothing (insns : List InstructionType) (_ : SymbolMap) :
    Except Error (List InstructionType) :=
  .ok insns

/-- Two functions marked as the entry point. -/
def twoEntrySample : List (Node InstructionType) :=
  [.fnDef ⟨⟨.other, ascii "main"⟩, [entryPointAttr], [0x2#64]⟩,
    .fnDef ⟨⟨.other, ascii "start"⟩, [entryPointAttr], []⟩]

theorem assemble_duplicated_entry_point_sample :
    (entryPoints twoEntrySample).map (·.name) =
        [⟨.other, ascii "main"⟩, ⟨.other, ascii "start"⟩] ∧
      assemble id id (fun _ => 0) 1 2 [] cookNothing expandNothing [] twoEntrySample =
        .error (.exit (duplicatedEntryPoint ⟨.other, ascii "start"⟩ ⟨.other, ascii "main"⟩)) :=
  ⟨by decide, @assemble_duplicated_entry_point InstructionType id id (fun _ => 0) 1 2 []
    cookNothing expandNothing [] twoEntrySample (by decide) _ _ _ rfl _ rfl _ _ rfl _ rfl⟩

/-- **`e_entry` is where the entry function is.** For a program whose functions' names are
distinct and not labels' names, with one function with the `entry_point` attribute, not
`extern`, and no label with it: when the label and cooking stages go through (the cooking
helper only growing the buffers), and the text fits and does not start with a `CALL` or an
`ATOM`, `main` writes an object file, and the bytes at its `e_entry`, read back from its
header, are the entry function's words, as cooked and emitted. -/
theorem assemble_entry_point (cook : Insn → Buffers → Except Error (List Insn × Buffers))
    (expand : List Insn → SymbolMap → Except Error (List Insn))
    (hcook : ∀ insn b r, cook insn b = .ok r → b.Grows r.2) (sourcePath : Bytes)
    {nodes : List (Node Insn)} (hnodup : (fnNames nodes).Nodup)
    (hdisjoint : ∀ a ∈ labelNames nodes, a ∉ fnNames nodes)
    (hlabels : ∀ ct ∈ labelDefs nodes, ct.hasAttr entryPointAttr = false)
    {fn : FnDef Insn} (hentry : entryPoints nodes = [fn]) (hlocal : fn.hasAttr externAttr = false)
    {tables : Tables} (hload : loadLabels unescape ston sourcePath nodes = .ok tables)
    {cooked : List (Node Insn)} {b : Buffers}
    (hcooked : cookLongImmediates cook nodes ⟨tables.rodataBuf, tables.symbolTable,
      tables.symbolMap⟩ = .ok (cooked, b))
    {expanded : List (Node Insn)}
    (hexpanded : cookPseudoinstructions expand b.symbolMap cooked = .ok expanded)
    (hsize : 8 * (1 + totalSize (fnDefs expanded)) < 2 ^ 64)
    (hfirst : ∀ w, (emittedWords emitInstruction (fnDefs expanded))[0]? = some w →
      relocType R_VIUA_JUMP_SLOT R_VIUA_OBJECT w = none) :
    ∃ file fn', assemble emitInstruction unescape ston R_VIUA_JUMP_SLOT R_VIUA_OBJECT comment
        cook expand sourcePath nodes = .ok file ∧
      entryPoints expanded = [fn'] ∧ fn'.name = fn.name ∧
      (file.length < 2 ^ 64 →
        slice file (leVal (slice file 24 8)) (8 * fn'.instructions.length) =
          wordBytes (fn'.instructions.map emitInstruction)) := by
  obtain ⟨hf, hl, he⟩ := eq_of_shapes ((shapes_cookPseudoinstructions expand hexpanded).trans
    (shapes_cookLongImmediates cook hcooked))
  rw [hentry] at he
  obtain ⟨fn', hfn', hshape⟩ : ∃ fn', entryPoints expanded = [fn'] ∧ fnShape fn' = fnShape fn := by
    rcases h : entryPoints expanded with _ | ⟨fn', _ | ⟨dup', fns'⟩⟩ <;> rw [h] at he
    · cases he
    · exact ⟨fn', rfl, by simpa using he⟩
    · simp at he
  -- the names the label stages made valid stay valid through the cooking
  have hv := (grows_cookLongImmediates hcook hcooked).symbolsValid
    (symbolsValid_loadLabels unescape ston hload hnodup hdisjoint)
  have hx : fn'.hasAttr externAttr = false := by
    have : fn'.attributes = fn.attributes :=
      congrArg (fun fn : FnDef Unit => fn.attributes) hshape
    rw [FnDef.hasAttr, this]; exact hlocal
  obtain ⟨file, hobj, hread⟩ := @emitObject_entry_point _ emitInstruction R_VIUA_JUMP_SLOT
    R_VIUA_OBJECT comment _ ⟨b.rodataBuf, tables.stringTable ++ [0], b.symbolTable, b.symbolMap⟩
    (hf ▸ hv) (hf ▸ hnodup) (hl ▸ hlabels) _ hfn' hx hsize hfirst
  refine ⟨file, fn', ?_, hfn', congrArg (fun fn : FnDef Unit => fn.name) hshape, hread⟩
  rw [assemble_eq emitInstruction unescape ston R_VIUA_JUMP_SLOT R_VIUA_OBJECT comment hload
    hcooked hexpanded, hobj]

theorem assemble_entry_point_sample :
    (fnNames entrySample).Nodup ∧ (∀ a ∈ labelNames entrySample, a ∉ fnNames entrySample) ∧
      ∃ file fn', assemble id id (fun _ => 0) 1 2 [] cookNothing expandNothing [] entrySample =
          .ok file ∧
        entryPoints entrySample = [fn'] ∧ fn'.name = ⟨.other, ascii "main"⟩ ∧
        (file.length < 2 ^ 64 →
          slice file (leVal (slice file 24 8)) (8 * fn'.instructions.length) =
            wordBytes (fn'.instructions.map id)) :=
  ⟨by decide, by decide,
    @assemble_entry_point InstructionType id id (fun _ => 0) 1 2 [] cookNothing expandNothing
      (fun _ _ _ h => by cases h; exact Buffers.Grows.refl _) [] entrySample (by decide)
      (by decide) (by decide) _ rfl rfl _ rfl _ _ rfl _ rfl (by decide)
      (fun w hw => by
        obtain rfl : (0x2#64 : InstructionType) = w := Option.some.inj hw
        decide)⟩

end Main

end ViuaVm.Asm.Main
