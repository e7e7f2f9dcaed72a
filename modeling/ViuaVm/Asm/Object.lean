import ViuaVm.Asm.Names
import ViuaVm.Elf.Loader

/-! # Names, values, code and relocations read back from the object file

What the label stages leave in the tables reaches the object file `main` writes intact.
`emit_bytecode` gives functions' symbols their addresses and sizes and leaves every name
(`stNames_emitBytecode`) and every symbol no function's name maps to
(`getElem?_emitBytecode`); the cooking stages only append symbols and `.rodata`; the string
table gets its closing zero byte. So a reader of the file finds every name the label stages
filed as its symbol's name (`symbolName_assemble`), and every object a label defines as the
bytes the label stages stored for it (`symbolValue_assemble`).

The stages after cooking (`emitObject`) lay out the text as `emit_bytecode` does, so a reader
finds every function's instructions through its symbol (`functionCode_emitObject`), and the
table `make_reloc_table` computes as the entries of the section of type `SHT_REL`, which links
the symbol table and applies to the text (`relocations_emitObject`). Through all of `main`,
the label stages give each function a symbol of type `STT_FUNC` that cooking keeps, so every
function's code reads back through the symbol its name was filed with
(`functionCode_assemble`). The function table the reader of object images returns is keyed
by offset in `.text`: when every function has an instruction, it finds each one at the offset
of its code, under its name and with its size (`functionTable_assemble`); a function with no
instruction would share its offset with the one after it, and the table keeps only one.
-/
namespace ViuaVm.Asm.Object
open ViuaVm.Elf.LittleEndian ViuaVm.Elf.Structs ViuaVm.Asm.Stage ViuaVm.Asm.Labels
open ViuaVm.Arch.Ops ViuaVm.Asm.Bytecode ViuaVm.Asm.Main ViuaVm.Elf.Emit ViuaVm.Elf.Layout
open ViuaVm.Elf.Symbols ViuaVm.Asm.Names ViuaVm.Asm.Reloc ViuaVm.Elf.Loader

section Emit
variable {Insn : Type} (emitInstruction : Insn → InstructionType)

theorem stNames_emitFunction {symbolMap : SymbolMap} {fn : FnDef Insn}
    {text : List InstructionType} {symbolTable : List Sym} {ip : Nat}
    {r : List InstructionType × List Sym × Nat}
    (h : emitFunction emitInstruction symbolMap fn text symbolTable ip = .ok r) :
    r.2.1.map Sym.stName = symbolTable.map Sym.stName := by
  obtain ⟨k, -, h⟩ := bind_eq_ok.mp h
  obtain ⟨sym, hsym, h⟩ := bind_eq_ok.mp h
  obtain ⟨text', -, h⟩ := bind_eq_ok.mp h
  cases h
  dsimp only
  split_ifs
  · rfl
  · -- the symbol rewritten in place keeps the name it had
    have hk := vectorAt_eq_ok.mp hsym
    refine List.ext_getElem? fun j => ?_
    rw [List.getElem?_map, List.getElem?_map, List.getElem?_set]
    by_cases hj : k = j
    · subst hj; simp [hk, (List.getElem?_eq_some_iff.mp hk).1]
    · rw [if_neg hj]

theorem stNames_emitFunctions {symbolMap : SymbolMap} {nodes : List (Node Insn)}
    {text : List InstructionType} {symbolTable : List Sym} {ip : Nat}
    {r : List InstructionType × List Sym}
    (h : emitFunctions emitInstruction symbolMap nodes text symbolTable ip = .ok r) :
    r.2.map Sym.stName = symbolTable.map Sym.stName := by
  induction nodes generalizing text symbolTable ip with
  | nil => cases h; rfl
  | cons each nodes ih =>
    cases each with
    | fnDef fn =>
      obtain ⟨⟨text₁, symbolTable₁, ip₁⟩, h₁, h₂⟩ := bind_eq_ok.mp h
      exact (ih h₂).trans (stNames_emitFunction emitInstruction h₁)
    | labelDef _ => exact ih h
    | metadata => exact ih h

/-- `emit_bytecode` leaves every symbol's name. -/
theorem stNames_emitBytecode {nodes : List (Node Insn)} {text : List InstructionType}
    {symbolTable : List Sym} {symbolMap : SymbolMap} {r : List InstructionType × List Sym}
    (h : emitBytecode emitInstruction nodes text symbolTable symbolMap = .ok r) :
    r.2.map Sym.stName = symbolTable.map Sym.stName :=
  stNames_emitFunctions emitInstruction h

theorem getElem?_emitFunction {symbolMap : SymbolMap} {fn : FnDef Insn}
    {text : List InstructionType} {symbolTable : List Sym} {ip k : Nat}
    {r : List InstructionType × List Sym × Nat} (hk : symbolMap fn.name.text ≠ some k)
    (h : emitFunction emitInstruction symbolMap fn text symbolTable ip = .ok r) :
    r.2.1[k]? = symbolTable[k]? := by
  obtain ⟨k', hk', h⟩ := bind_eq_ok.mp h
  obtain ⟨sym, -, h⟩ := bind_eq_ok.mp h
  obtain ⟨text', -, h⟩ := bind_eq_ok.mp h
  cases h
  dsimp only
  split_ifs
  · rfl
  · -- the symbol rewritten is the one the function's name maps to, not `k`
    exact List.getElem?_set_ne fun (heq : k' = k) => hk (heq ▸ mapAt_eq_ok.mp hk')

/-- `emit_bytecode` touches no symbol that no function's name maps to. -/
theorem getElem?_emitBytecode {nodes : List (Node Insn)} {text : List InstructionType}
    {symbolTable : List Sym} {symbolMap : SymbolMap} {k : Nat}
    {r : List InstructionType × List Sym} (hk : ∀ a ∈ fnNames nodes, symbolMap a ≠ some k)
    (h : emitBytecode emitInstruction nodes text symbolTable symbolMap = .ok r) :
    r.2[k]? = symbolTable[k]? := by
  -- the walk over the nodes, from any text, symbol table and `ip`
  suffices hwalk : ∀ (nodes : List (Node Insn)) text symbolTable ip r,
      (∀ a ∈ fnNames nodes, symbolMap a ≠ some k) →
      emitFunctions emitInstruction symbolMap nodes text symbolTable ip = .ok r →
      r.2[k]? = symbolTable[k]? from hwalk nodes _ _ _ r hk h
  intro nodes
  induction nodes with
  | nil => intro _ _ _ _ _ h; cases h; rfl
  | cons each nodes ih =>
    intro text symbolTable ip r hk h
    cases each with
    | fnDef fn =>
      simp only [fnNames_fnDef, List.mem_cons, forall_eq_or_imp] at hk
      obtain ⟨⟨text₁, symbolTable₁, ip₁⟩, h₁, h₂⟩ := bind_eq_ok.mp h
      exact (ih _ _ _ _ hk.2 h₂).trans (getElem?_emitFunction emitInstruction hk.1 h₁)
    | labelDef _ => exact ih _ _ _ _ hk h
    | metadata => exact ih _ _ _ _ hk h

end Emit

section Stages
variable {Insn : Type} (emitInstruction : Insn → InstructionType)
  (R_VIUA_JUMP_SLOT R_VIUA_OBJECT : Nat) (comment : Bytes)

/-- The file the stages after cooking write, from the text, symbols and relocations they
compute. -/
theorem emitObject_eq_emitElf {nodes : List (Node Insn)} {tables : Tables} {file : Bytes}
    (hfile : emitObject emitInstruction R_VIUA_JUMP_SLOT R_VIUA_OBJECT comment nodes tables =
      .ok file) :
    ∃ text symbolTable relocTable entry,
      emitBytecode emitInstruction nodes [] tables.symbolTable tables.symbolMap =
        .ok (text, symbolTable) ∧
      makeRelocTable R_VIUA_JUMP_SLOT R_VIUA_OBJECT text = .ok relocTable ∧
      file = emitElf false entry comment text (some relocTable) tables.rodataBuf
        tables.stringTable symbolTable := by
  obtain ⟨entryPointFn, -, hfile⟩ := bind_eq_ok.mp hfile
  obtain ⟨⟨text, symbolTable⟩, hemit, hfile⟩ := bind_eq_ok.mp hfile
  obtain ⟨relocTable, hreloc, hfile⟩ := bind_eq_ok.mp hfile
  obtain ⟨entry, -, hfile⟩ := bind_eq_ok.mp hfile
  exact ⟨text, symbolTable, relocTable, entry, hemit, hreloc, (Except.ok.inj hfile).symm⟩

set_option maxRecDepth 8000 in
/-- The stages after cooking write a file for the sample program, and its offsets fit in 64
bits. -/
theorem emitObject_entrySample {t : Tables}
    (hload : loadLabels id (fun _ => 0) [] entrySample = .ok t) :
    ∃ file, emitObject id 1 2 [] entrySample t = .ok file ∧ file.length < 2 ^ 64 := by
  obtain rfl := Except.ok.inj (hload.symm.trans rfl)
  exact ⟨_, rfl, by decide⟩

/-- A function `emit_bytecode` placed reads back, through its symbol, as its instructions. -/
theorem symbolValue_emitElf_placed {nodes : List (Node Insn)} {symbolMap : SymbolMap}
    {symbolTable symbolTable' : List Sym}
    (hplaced : Placed symbolMap (fnDefs nodes) 1 symbolTable symbolTable') {entry : Option Nat}
    {relocs : Option (List Rel)} {rodataBuf stringTable : Bytes}
    (hlen : (emitElf false entry comment
      (N.encode ⟨OPCODE.HALT⟩ :: emittedWords emitInstruction (fnDefs nodes)) relocs rodataBuf
      stringTable symbolTable').length < 2 ^ 64)
    {fn : FnDef Insn} (hfn : fn ∈ fnDefs nodes) (hlocal : fn.hasAttr externAttr = false)
    {k : Nat} (hk : symbolMap fn.name.text = some k) {sym : Sym}
    (hsym : symbolTable[k]? = some sym) (hfunction : ELF64_ST_TYPE sym.stInfo = STT_FUNC) :
    symbolValue (emitElf false entry comment
        (N.encode ⟨OPCODE.HALT⟩ :: emittedWords emitInstruction (fnDefs nodes)) relocs rodataBuf
        stringTable symbolTable') ((sectionNames relocs).indexOf (ascii ".symtab")) k =
      wordBytes (fn.instructions.map emitInstruction) := by
  have hem := emitted_of_placed emitInstruction hplaced
  obtain ⟨j, hj⟩ := List.mem_iff_getElem?.mp hfn
  have hplacedSym := hplaced.getElem?_symbol hj hlocal hk hsym
  have hin := hem.inText j fn hj
  rw [symbolValue_emitElf_function false entry comment _ relocs rodataBuf stringTable _ hplacedSym
    hfunction (by dsimp only; omega) hlen]
  dsimp only
  rw [slice_wordBytes, hem.words j fn hj]

/-- **Every function's code reads back from the object file.** For nodes whose functions'
names are distinct and valid in the tables, whenever the stages after cooking write a file:
for every function without `extern` whose symbol is of type `STT_FUNC`, a reader who takes
the symbol's entry in the file's `SHT_SYMTAB` section and reads `st_size` bytes from
`st_value` of the section its `st_shndx` names gets the function's instructions, emitted in
order; when the file's offsets fit in 64 bits. -/
theorem functionCode_emitObject {nodes : List (Node Insn)} {tables : Tables}
    (hv : SymbolsValid (fnNames nodes) tables.symbolMap tables.symbolTable.length)
    (hnodup : (fnNames nodes).Nodup) {file : Bytes}
    (hfile : emitObject emitInstruction R_VIUA_JUMP_SLOT R_VIUA_OBJECT comment nodes tables =
      .ok file)
    (hlen : file.length < 2 ^ 64) {fn : FnDef Insn} (hfn : fn ∈ fnDefs nodes)
    (hlocal : fn.hasAttr externAttr = false) {k : Nat}
    (hk : tables.symbolMap fn.name.text = some k) {sym : Sym}
    (hsym : tables.symbolTable[k]? = some sym) (hfunction : ELF64_ST_TYPE sym.stInfo = STT_FUNC) :
    ∃ i, shTypeAt file i = SHT_SYMTAB ∧
      symbolValue file i k = wordBytes (fn.instructions.map emitInstruction) := by
  obtain ⟨text, symbolTable, relocTable, entry, hemit, -, hfile⟩ :=
    emitObject_eq_emitElf emitInstruction R_VIUA_JUMP_SLOT R_VIUA_OBJECT comment hfile
  -- the text and the symbols are the layout `emit_bytecode` makes
  obtain ⟨symbolTable', hemit', hplaced⟩ := emitBytecode_eq emitInstruction nodes hv hnodup []
  obtain ⟨rfl, rfl⟩ := Prod.mk.inj (Except.ok.inj (hemit.symm.trans hemit'))
  rw [hfile] at hlen ⊢
  exact ⟨_, shTypeAt_symtab_emitElf false entry comment _ (some relocTable) tables.rodataBuf
    tables.stringTable _ hlen, symbolValue_emitElf_placed emitInstruction comment hplaced hlen hfn
    hlocal hk hsym hfunction⟩

/-- In the object file the stages write for the sample program, `main`'s one word reads back
through its symbol. -/
theorem functionCode_emitObject_sample :
    ∃ t file sym, loadLabels id (fun _ => 0) [] entrySample = .ok t ∧
      SymbolsValid (fnNames entrySample) t.symbolMap t.symbolTable.length ∧
      (fnNames entrySample).Nodup ∧ emitObject id 1 2 [] entrySample t = .ok file ∧
      file.length < 2 ^ 64 ∧
      (⟨⟨.other, ascii "main"⟩, [entryPointAttr], [0x2#64]⟩ : FnDef InstructionType) ∈
        fnDefs entrySample ∧
      (⟨⟨.other, ascii "main"⟩, [entryPointAttr], [0x2#64]⟩ : FnDef InstructionType).hasAttr
        externAttr = false ∧
      t.symbolMap (ascii "main") = some 2 ∧ t.symbolTable[2]? = some sym ∧
      ELF64_ST_TYPE sym.stInfo = STT_FUNC ∧
      ∃ i, shTypeAt file i = SHT_SYMTAB ∧ symbolValue file i 2 = wordBytes [0x2#64] :=
  have hv := @symbolsValid_loadLabels InstructionType id (fun _ => 0) [] entrySample _ rfl
    (by decide) (by decide)
  have hmain := @List.getElem?_mem _ (fnDefs entrySample) 0 _ rfl
  let ⟨_, hfile, hlen⟩ := emitObject_entrySample rfl
  ⟨_, _, _, rfl, hv, by decide, hfile, hlen, hmain, rfl, rfl, rfl, rfl,
    @functionCode_emitObject InstructionType id 1 2 [] entrySample _ hv (by decide) _ hfile
      hlen ⟨⟨.other, ascii "main"⟩, [entryPointAttr], [0x2#64]⟩ hmain rfl 2 rfl _ rfl rfl⟩

/-- **The relocation table reads back from the object file.** Whenever the stages after
cooking write a file, a reader of it finds a section of type `SHT_REL` whose `sh_link` names
the `SHT_SYMTAB` section and whose `sh_info` names the section holding the text
`emit_bytecode` returned; its `sh_size` is sixteen bytes for each relocation of that text, and
entry `j` of it reads back as relocation `j`: one for each `CALL` and `ATOM`, in text order;
when the file's offsets fit in 64 bits. -/
theorem relocations_emitObject {nodes : List (Node Insn)} {tables : Tables} {file : Bytes}
    (hfile : emitObject emitInstruction R_VIUA_JUMP_SLOT R_VIUA_OBJECT comment nodes tables =
      .ok file)
    (hlen : file.length < 2 ^ 64) :
    ∃ text symbolTable, emitBytecode emitInstruction nodes [] tables.symbolTable
        tables.symbolMap = .ok (text, symbolTable) ∧
      ∃ i, shTypeAt file i = SHT_REL ∧ shTypeAt file (shLinkAt file i) = SHT_SYMTAB ∧
        slice file (shOffsetAt file (shInfoAt file i)) (8 * text.length) = wordBytes text ∧
        shSizeAt file i = 16 * (relocations R_VIUA_JUMP_SLOT R_VIUA_OBJECT text).length ∧
        ∀ j rel, (relocations R_VIUA_JUMP_SLOT R_VIUA_OBJECT text)[j]? = some rel →
          rOffsetAt file i j = rel.rOffset ∧ rInfoAt file i j = rel.rInfo := by
  obtain ⟨text, symbolTable, relocTable, entry, hemit, hreloc, hfile⟩ :=
    emitObject_eq_emitElf emitInstruction R_VIUA_JUMP_SLOT R_VIUA_OBJECT comment hfile
  rw [hfile] at hlen ⊢
  have htext := length_text_le_emitElf false entry comment text (some relocTable)
    tables.rodataBuf tables.stringTable symbolTable
  obtain rfl := makeRelocTable_ok R_VIUA_JUMP_SLOT R_VIUA_OBJECT (by omega) hreloc
  obtain ⟨htype, hsize, hlink, hinfo, hentries⟩ := relocation_emitElf false entry comment text
    tables.rodataBuf tables.stringTable symbolTable _ hlen
  obtain ⟨prT, hprT, hbytesT⟩ := text_emitElf false entry comment text
    (some (relocations R_VIUA_JUMP_SLOT R_VIUA_OBJECT text)) tables.rodataBuf tables.stringTable
    symbolTable
  refine ⟨text, symbolTable, hemit, _, htype, ?_, ?_, hsize, fun j rel hj => ?_⟩
  · rw [hlink]
    exact shTypeAt_symtab_emitElf false entry comment text _ tables.rodataBuf tables.stringTable
      symbolTable hlen
  · rw [hinfo, ← length_wordBytes]
    exact slice_shOffsetAt_emitElf false entry comment text _ tables.rodataBuf tables.stringTable
      symbolTable hprT hbytesT hlen
  · -- the fields fit their 64 bits, so they read back whole
    obtain ⟨hr, hi⟩ := hentries j rel hj
    obtain ⟨hro, hri⟩ := relocations_fit R_VIUA_JUMP_SLOT R_VIUA_OBJECT (by omega) rel
      (List.getElem?_mem hj)
    exact ⟨hr.trans (Nat.mod_eq_of_lt hro), hi.trans (Nat.mod_eq_of_lt hri)⟩

/-- The stages write the sample program's file with a relocation section that reads back. -/
theorem relocations_emitObject_sample :
    ∃ t file, loadLabels id (fun _ => 0) [] entrySample = .ok t ∧
      emitObject id 1 2 [] entrySample t = .ok file ∧ file.length < 2 ^ 64 ∧
      ∃ text symbolTable, emitBytecode id entrySample [] t.symbolTable t.symbolMap =
          .ok (text, symbolTable) ∧
        ∃ i, shTypeAt file i = SHT_REL ∧ shTypeAt file (shLinkAt file i) = SHT_SYMTAB ∧
          slice file (shOffsetAt file (shInfoAt file i)) (8 * text.length) = wordBytes text ∧
          shSizeAt file i = 16 * (relocations 1 2 text).length ∧
          ∀ j rel, (relocations 1 2 text)[j]? = some rel →
            rOffsetAt file i j = rel.rOffset ∧ rInfoAt file i j = rel.rInfo :=
  let ⟨_, hfile, hlen⟩ := emitObject_entrySample rfl
  ⟨_, _, rfl, hfile, hlen,
    @relocations_emitObject InstructionType id 1 2 [] entrySample _ _ hfile hlen⟩

end Stages

section Object
variable {Insn : Type} (emitInstruction : Insn → InstructionType) (unescape : Bytes → Bytes)
  (ston : Bytes → Nat) (R_VIUA_JUMP_SLOT R_VIUA_OBJECT : Nat) (comment : Bytes)

/-- The file `main` writes is `emit_elf`'s, from the symbols `emit_bytecode` leaves of the
cooked symbol table, and the string table with its closing zero byte. -/
theorem assemble_eq_emitElf {cook : Insn → Buffers → Except Error (List Insn × Buffers)}
    {expand : List Insn → SymbolMap → Except Error (List Insn)} {sourcePath : Bytes}
    {nodes : List (Node Insn)} {t : Tables} {file : Bytes}
    (hload : loadLabels unescape ston sourcePath nodes = .ok t)
    (hfile : assemble emitInstruction unescape ston R_VIUA_JUMP_SLOT R_VIUA_OBJECT comment cook
      expand sourcePath nodes = .ok file) :
    ∃ cooked b expanded text symbolTable relocTable entry,
      cookLongImmediates cook nodes ⟨t.rodataBuf, t.symbolTable, t.symbolMap⟩ = .ok (cooked, b) ∧
      cookPseudoinstructions expand b.symbolMap cooked = .ok expanded ∧
      emitBytecode emitInstruction expanded [] b.symbolTable b.symbolMap =
        .ok (text, symbolTable) ∧
      file = emitElf false entry comment text (some relocTable) b.rodataBuf (t.stringTable ++ [0])
        symbolTable := by
  obtain ⟨t', ht', hfile⟩ := bind_eq_ok.mp hfile
  obtain rfl : t' = t := Except.ok.inj (ht'.symm.trans hload)
  obtain ⟨⟨cooked, b⟩, hcooked, hfile⟩ := bind_eq_ok.mp hfile
  obtain ⟨expanded, hexpanded, hfile⟩ := bind_eq_ok.mp hfile
  obtain ⟨text, symbolTable, relocTable, entry, hemit, -, hfile⟩ :=
    emitObject_eq_emitElf emitInstruction R_VIUA_JUMP_SLOT R_VIUA_OBJECT comment hfile
  exact ⟨cooked, b, expanded, text, symbolTable, relocTable, entry, hcooked, hexpanded, hemit,
    hfile⟩

/-- `main` lays the cooked functions out as `emit_bytecode` does: the file is `emit_elf`'s, from
the functions' words after `HALT` and a symbol table that places each function, when the
functions' names are distinct and not the name of any label and cooking only appends symbols. -/
theorem assemble_placed {cook : Insn → Buffers → Except Error (List Insn × Buffers)}
    (hcook : ∀ insn b r, cook insn b = .ok r → b.Grows r.2)
    {expand : List Insn → SymbolMap → Except Error (List Insn)} {sourcePath : Bytes}
    {nodes : List (Node Insn)} (hnodup : (fnNames nodes).Nodup)
    (hdisjoint : ∀ a ∈ labelNames nodes, a ∉ fnNames nodes) {t : Tables} {file : Bytes}
    (hload : loadLabels unescape ston sourcePath nodes = .ok t)
    (hfile : assemble emitInstruction unescape ston R_VIUA_JUMP_SLOT R_VIUA_OBJECT comment cook
      expand sourcePath nodes = .ok file) :
    ∃ cooked b expanded symbolTable relocTable entry,
      cookLongImmediates cook nodes ⟨t.rodataBuf, t.symbolTable, t.symbolMap⟩ = .ok (cooked, b) ∧
      cookPseudoinstructions expand b.symbolMap cooked = .ok expanded ∧
      fnNames expanded = fnNames nodes ∧
      Placed b.symbolMap (fnDefs expanded) 1 b.symbolTable symbolTable ∧
      file = emitElf false entry comment
        (N.encode ⟨OPCODE.HALT⟩ :: emittedWords emitInstruction (fnDefs expanded))
        (some relocTable) b.rodataBuf (t.stringTable ++ [0]) symbolTable := by
  obtain ⟨cooked, b, expanded, text, symbolTable, relocTable, entry, hcooked, hexpanded, hemit,
    hfile⟩ := assemble_eq_emitElf emitInstruction unescape ston R_VIUA_JUMP_SLOT R_VIUA_OBJECT
      comment hload hfile
  -- the cooking stages keep the functions' names, so `emit_bytecode` lays them out
  have hnames : fnNames expanded = fnNames nodes :=
    (eq_of_shapes ((shapes_cookPseudoinstructions expand hexpanded).trans
      (shapes_cookLongImmediates cook hcooked))).1
  have hv : SymbolsValid (fnNames expanded) b.symbolMap b.symbolTable.length := by
    rw [hnames]
    exact (grows_cookLongImmediates hcook hcooked).symbolsValid
      (symbolsValid_loadLabels unescape ston hload hnodup hdisjoint)
  obtain ⟨symbolTable', hemit', hplaced⟩ :=
    emitBytecode_eq emitInstruction expanded hv (hnames ▸ hnodup) []
  obtain ⟨rfl, rfl⟩ := Prod.mk.inj (Except.ok.inj (hemit.symm.trans hemit'))
  exact ⟨cooked, b, expanded, symbolTable, relocTable, entry, hcooked, hexpanded, hnames, hplaced,
    hfile⟩

set_option maxRecDepth 8000 in
/-- `main` writes a file for the sample program, and its offsets fit in 64 bits. -/
theorem assemble_entrySample :
    ∃ file, assemble id id (fun _ => 0) 1 2 [] cookNothing expandNothing [] entrySample =
      .ok file ∧ file.length < 2 ^ 64 :=
  ⟨_, rfl, by decide⟩

/-- **Every name the label stages file reads back from the object file `main` writes.** When
the cooking helper only appends symbols and keeps the indices of the names it knows, and
`main` writes a file, every name in the `symbol_map` of the label stages is what a reader
finds, through the file's `SHT_SYMTAB` section and the string table it links, as the name of
the symbol the map gives for it; when the string table is at most 4 GiB and the file's
offsets fit in 64 bits. -/
theorem symbolName_assemble {cook : Insn → Buffers → Except Error (List Insn × Buffers)}
    (hcook : ∀ insn b r, cook insn b = .ok r → b.Grows r.2)
    {expand : List Insn → SymbolMap → Except Error (List Insn)} {sourcePath : Bytes}
    {nodes : List (Node Insn)} {t : Tables} {file : Bytes}
    (hload : loadLabels unescape ston sourcePath nodes = .ok t)
    (hfile : assemble emitInstruction unescape ston R_VIUA_JUMP_SLOT R_VIUA_OBJECT comment cook
      expand sourcePath nodes = .ok file)
    (hstrtab : t.stringTable.length ≤ 2 ^ 32) (hlen : file.length < 2 ^ 64)
    {name : Bytes} {k : Nat} (hk : t.symbolMap name = some k) :
    ∃ i, shTypeAt file i = SHT_SYMTAB ∧ symbolName file i k (name.length + 1) = name ++ [0] := by
  obtain ⟨sym, hsym, hname⟩ := (namesOk_loadLabels unescape ston hload).lookup name k hk
  obtain ⟨cooked, b, expanded, text, symbolTable, relocTable, entry, hcooked, -, hemit, hfile⟩ :=
    assemble_eq_emitElf emitInstruction unescape ston R_VIUA_JUMP_SLOT R_VIUA_OBJECT comment
      hload hfile
  -- cooking appends symbols, so symbol `k` is still `sym`
  obtain ⟨more, hmore⟩ := (grows_cookLongImmediates hcook hcooked).symbols
  have hcookedSym : b.symbolTable[k]? = some sym := by
    rw [← hmore, List.getElem?_append_left (List.getElem?_eq_some_iff.mp hsym).1, hsym]
  -- `emit_bytecode` leaves its name
  have hnames := congrArg (·[k]?) (stNames_emitBytecode emitInstruction hemit)
  simp only [List.getElem?_map, hcookedSym, Option.map_some'] at hnames
  obtain ⟨sym', hsym', hname'⟩ := Option.map_eq_some'.mp hnames
  have hbound := hname.le_length
  rw [hfile] at hlen ⊢
  exact ⟨_, symbolName_emitElf false entry comment text (some relocTable) b.rodataBuf
    (t.stringTable ++ [0]) symbolTable hsym' (hname' ▸ hname.extend (List.prefix_append _ _))
    (by omega) hlen⟩

/-- In the object file of the sample program, `main` is read back as the name of symbol 2. -/
theorem symbolName_assemble_sample :
    ∃ t file, loadLabels id (fun _ => 0) [] entrySample = .ok t ∧
      assemble id id (fun _ => 0) 1 2 [] cookNothing expandNothing [] entrySample = .ok file ∧
      t.stringTable.length ≤ 2 ^ 32 ∧ file.length < 2 ^ 64 ∧ t.symbolMap (ascii "main") = some 2 ∧
      ∃ i, shTypeAt file i = SHT_SYMTAB ∧
        symbolName file i 2 ((ascii "main").length + 1) = ascii "main" ++ [0] :=
  let ⟨_, hfile, hlen⟩ := assemble_entrySample
  ⟨_, _, rfl, hfile, by decide, hlen, rfl,
    @symbolName_assemble InstructionType id id (fun _ => 0) 1 2 [] cookNothing
      (fun _ _ _ h => by cases h; exact Buffers.Grows.refl _) expandNothing [] entrySample _ _ rfl
      hfile (by decide) hlen _ _ rfl⟩

/-- **Every object a label defines reads back from the object file `main` writes.** When the
cooking helper only appends symbols and `.rodata` and keeps the indices of the names it
knows, and `main` writes a file: for every name in the `symbol_map` of the label stages that
is no function's, whose symbol is an object, a reader who takes the symbol's entry in the
file's `SHT_SYMTAB` section and reads `st_size` bytes from `st_value` of the section its
`st_shndx` names gets the bytes the label stages stored for it in `.rodata`; when the file's
offsets fit in 64 bits. -/
theorem symbolValue_assemble {cook : Insn → Buffers → Except Error (List Insn × Buffers)}
    (hcook : ∀ insn b r, cook insn b = .ok r → b.Grows r.2)
    (hrodata : ∀ insn b r, cook insn b = .ok r → b.rodataBuf <+: r.2.rodataBuf)
    {expand : List Insn → SymbolMap → Except Error (List Insn)} {sourcePath : Bytes}
    {nodes : List (Node Insn)} {t : Tables} {file : Bytes}
    (hload : loadLabels unescape ston sourcePath nodes = .ok t)
    (hfile : assemble emitInstruction unescape ston R_VIUA_JUMP_SLOT R_VIUA_OBJECT comment cook
      expand sourcePath nodes = .ok file)
    (hlen : file.length < 2 ^ 64) {name : Bytes} (hname : name ∉ fnNames nodes) {k : Nat}
    (hk : t.symbolMap name = some k) {sym : Sym} (hsym : t.symbolTable[k]? = some sym)
    (hobject : ELF64_ST_TYPE sym.stInfo = STT_OBJECT) :
    ∃ i, shTypeAt file i = SHT_SYMTAB ∧
      symbolValue file i k = slice t.rodataBuf sym.stValue sym.stSize := by
  obtain ⟨cooked, b, expanded, text, symbolTable, relocTable, entry, hcooked, hexpanded, hemit,
    hfile⟩ := assemble_eq_emitElf emitInstruction unescape ston R_VIUA_JUMP_SLOT R_VIUA_OBJECT
      comment hload hfile
  have hgrows := grows_cookLongImmediates hcook hcooked
  have hro : t.rodataBuf <+: b.rodataBuf :=
    cookLongImmediates_preserves (R := fun b b' => b.rodataBuf <+: b'.rodataBuf)
      (fun _ => List.prefix_refl _) (fun h₁ h₂ => h₁.trans h₂) hrodata hcooked
  -- cooking appends symbols, so symbol `k` is still `sym`
  have hcookedSym : b.symbolTable[k]? = some sym := getElem?_extend hgrows.symbols hsym
  -- no function's name maps to `k`: the map of the label stages is injective
  have hnames : fnNames expanded = fnNames nodes :=
    (eq_of_shapes ((shapes_cookPseudoinstructions expand hexpanded).trans
      (shapes_cookLongImmediates cook hcooked))).1
  have hother : ∀ a ∈ fnNames expanded, b.symbolMap a ≠ some k := by
    intro a ha hak
    rw [hnames] at ha
    obtain ⟨j, hj⟩ := Option.isSome_iff_exists.mp (isSome_loadLabels unescape ston hload a ha)
    have hjb := hgrows.map a j hj
    rw [hjb, Option.some_inj] at hak
    subst hak
    exact hname ((mapOk_loadLabels unescape ston hload).injective a name j hj hk ▸ ha)
  have hemitted := getElem?_emitBytecode emitInstruction hother hemit
  rw [hcookedSym] at hemitted
  have hin := valuesOk_loadLabels unescape ston hload sym (List.getElem?_mem hsym) hobject
  rw [hfile] at hlen ⊢
  refine ⟨_, shTypeAt_symtab_emitElf false entry comment text (some relocTable) b.rodataBuf
    (t.stringTable ++ [0]) symbolTable hlen, ?_⟩
  rw [symbolValue_emitElf false entry comment text (some relocTable) b.rodataBuf
    (t.stringTable ++ [0]) symbolTable hemitted hobject (hin.trans hro.length_le) hlen]
  exact slice_extend hro hin

/-- In the object file of the sample program, the atom `answer` reads back as the bytes `42`. -/
theorem symbolValue_assemble_sample :
    ∃ t file sym, loadLabels id (fun _ => 0) [] entrySample = .ok t ∧
      assemble id id (fun _ => 0) 1 2 [] cookNothing expandNothing [] entrySample = .ok file ∧
      file.length < 2 ^ 64 ∧ ascii "answer" ∉ fnNames entrySample ∧
      t.symbolMap (ascii "answer") = some 4 ∧ t.symbolTable[4]? = some sym ∧
      ELF64_ST_TYPE sym.stInfo = STT_OBJECT ∧
      ∃ i, shTypeAt file i = SHT_SYMTAB ∧ symbolValue file i 4 = ascii "42" :=
  let ⟨_, hfile, hlen⟩ := assemble_entrySample
  ⟨_, _, _, rfl, hfile, hlen, by decide, rfl, rfl, rfl,
    @symbolValue_assemble InstructionType id id (fun _ => 0) 1 2 [] cookNothing
      (fun _ _ _ h => by cases h; exact Buffers.Grows.refl _)
      (fun _ _ _ h => by cases h; exact List.prefix_refl _) expandNothing [] entrySample _ _ rfl
      hfile hlen (ascii "answer") (by decide) 4 rfl _ rfl rfl⟩

/-- **Every function's code reads back from the object file `main` writes.** For nodes whose
functions' names are distinct and not the name of any label, when the cooking helper only
appends symbols and keeps the indices of the names it knows, and `main` writes a file: every
function without `extern` among the nodes the cooking stages return reads back, through the
symbol the label stages filed its name with, as its instructions emitted in order; when the
file's offsets fit in 64 bits. -/
theorem functionCode_assemble {cook : Insn → Buffers → Except Error (List Insn × Buffers)}
    (hcook : ∀ insn b r, cook insn b = .ok r → b.Grows r.2)
    {expand : List Insn → SymbolMap → Except Error (List Insn)} {sourcePath : Bytes}
    {nodes : List (Node Insn)} (hnodup : (fnNames nodes).Nodup)
    (hdisjoint : ∀ a ∈ labelNames nodes, a ∉ fnNames nodes) {t : Tables} {file : Bytes}
    (hload : loadLabels unescape ston sourcePath nodes = .ok t)
    (hfile : assemble emitInstruction unescape ston R_VIUA_JUMP_SLOT R_VIUA_OBJECT comment cook
      expand sourcePath nodes = .ok file)
    (hlen : file.length < 2 ^ 64) :
    ∃ cooked b expanded,
      cookLongImmediates cook nodes ⟨t.rodataBuf, t.symbolTable, t.symbolMap⟩ = .ok (cooked, b) ∧
      cookPseudoinstructions expand b.symbolMap cooked = .ok expanded ∧
      ∀ fn ∈ fnDefs expanded, fn.hasAttr externAttr = false → ∃ k,
        t.symbolMap fn.name.text = some k ∧ ∃ i, shTypeAt file i = SHT_SYMTAB ∧
          symbolValue file i k = wordBytes (fn.instructions.map emitInstruction) := by
  obtain ⟨cooked, b, expanded, symbolTable, relocTable, entry, hcooked, hexpanded, hnames, hplaced,
    hfile⟩ := assemble_placed emitInstruction unescape ston R_VIUA_JUMP_SLOT R_VIUA_OBJECT comment
      hcook hnodup hdisjoint hload hfile
  have hgrows := grows_cookLongImmediates hcook hcooked
  refine ⟨cooked, b, expanded, hcooked, hexpanded, fun fn hfn hlocal => ?_⟩
  -- the label stages filed the name with a function's symbol, which cooking keeps
  obtain ⟨k, sym, hk, hsym, hfunction⟩ := funcSymbol_loadLabels unescape ston hload hdisjoint
    fn.name.text (hnames ▸ List.mem_map_of_mem _ hfn)
  rw [hfile] at hlen ⊢
  exact ⟨k, hk, _, shTypeAt_symtab_emitElf false entry comment _ (some relocTable) b.rodataBuf
    (t.stringTable ++ [0]) _ hlen, symbolValue_emitElf_placed emitInstruction comment hplaced hlen
    hfn hlocal (hgrows.map _ _ hk) (getElem?_extend hgrows.symbols hsym) hfunction⟩

/-- In the object file of the sample program, every function without `extern` reads back. -/
theorem functionCode_assemble_sample :
    ∃ t file, loadLabels id (fun _ => 0) [] entrySample = .ok t ∧
      assemble id id (fun _ => 0) 1 2 [] cookNothing expandNothing [] entrySample = .ok file ∧
      (fnNames entrySample).Nodup ∧ (∀ a ∈ labelNames entrySample, a ∉ fnNames entrySample) ∧
      file.length < 2 ^ 64 ∧
      ∃ cooked b expanded, cookLongImmediates cookNothing entrySample
          ⟨t.rodataBuf, t.symbolTable, t.symbolMap⟩ = .ok (cooked, b) ∧
        cookPseudoinstructions expandNothing b.symbolMap cooked = .ok expanded ∧
        ∀ fn ∈ fnDefs expanded, fn.hasAttr externAttr = false → ∃ k,
          t.symbolMap fn.name.text = some k ∧ ∃ i, shTypeAt file i = SHT_SYMTAB ∧
            symbolValue file i k = wordBytes (fn.instructions.map id) :=
  let ⟨_, hfile, hlen⟩ := assemble_entrySample
  ⟨_, _, rfl, hfile, by decide, by decide, hlen,
    @functionCode_assemble InstructionType id id (fun _ => 0) 1 2 [] cookNothing
      (fun _ _ _ h => by cases h; exact Buffers.Grows.refl _) expandNothing [] entrySample
      (by decide) (by decide) _ _ rfl hfile hlen⟩

/-- Before the symbol of a function the walk placed, no symbol of type `STT_FUNC` sits at that
function's offset, when every function has words and the offsets fit in 64 bits: a function
the walk placed starts at another word, and the walk left every other symbol as it was, so a
function symbol there that was at 0 still is. -/
theorem stValue_ne_of_placed {symbolMap : SymbolMap} {fns : List (FnDef Insn)}
    {symbolTable symbolTable' : List Sym} (hplaced : Placed symbolMap fns 1 symbolTable symbolTable')
    (hnonempty : ∀ fn ∈ fns, fn.hasAttr externAttr = false → fn.instructions ≠ [])
    (hsize : 8 * (1 + totalSize fns) < 2 ^ 64) {j : Nat} {fn : FnDef Insn}
    (hj : fns[j]? = some fn) (hlocal : fn.hasAttr externAttr = false) {k : Nat}
    (hk : symbolMap fn.name.text = some k)
    (hunplaced : ∀ i < k, ∀ s, symbolTable[i]? = some s → ELF64_ST_TYPE s.stInfo = STT_FUNC →
      s.stValue = 0)
    {i : Nat} (hi : i < k) {s : Sym} (hs : symbolTable'[i]? = some s)
    (hfunc : ELF64_ST_TYPE s.stInfo = STT_FUNC) : s.stValue % 2 ^ 64 ≠ 8 * (1 + offset fns j) := by
  by_cases hmapped : ∃ fn' ∈ fns, fn'.hasAttr externAttr = false ∧ symbolMap fn'.name.text = some i
  case pos =>
    -- the symbol is another placed function's, which starts at another word
    obtain ⟨fn', hfn', hlocal', hi'⟩ := hmapped
    obtain ⟨j', hj'⟩ := List.mem_iff_getElem?.mp hfn'
    obtain ⟨k', s', hk', -, hs'⟩ := hplaced.placed j' fn' hj' hlocal'
    obtain rfl : i = k' := Option.some.inj (hi'.symm.trans hk')
    obtain rfl := Option.some.inj (hs.symm.trans hs')
    have hjj : j' ≠ j := by
      rintro rfl
      obtain rfl : fn' = fn := Option.some.inj (hj'.symm.trans hj)
      exact Nat.ne_of_lt hi (Option.some.inj (hi'.symm.trans hk))
    have := offset_le_totalSize fns j'
    show 8 * (1 + offset fns j') % 2 ^ 64 ≠ _
    rw [Nat.mod_eq_of_lt (by omega)]
    rcases Nat.lt_or_gt_of_ne hjj with hlt | hlt
    · have := offset_lt_of_lt hj' (hnonempty fn' hfn' hlocal') hlt
      omega
    · have := offset_lt_of_lt hj (hnonempty fn (List.getElem?_mem hj) hlocal) hlt
      omega
  case neg =>
    -- the walk left the symbol as the label stages made it, at 0
    push_neg at hmapped
    rw [hplaced.unchanged i hmapped] at hs
    rw [hunplaced i hi s hs hfunc, Nat.zero_mod]
    omega

/-- **The loader's function table of the file `main` writes has every function with its code.**
For nodes whose functions' names are distinct, hold no NUL byte and are not the name of any
label, when the cooking helper only appends symbols and keeps the indices of the names it
knows, and `main` writes a file: the loader accepts the file, and when every function without
`extern` among the nodes the cooking stages return has an instruction, each of them is what its
function table finds at an offset, under its name and with its size in bytes, and the `.text`
fragment holds its instructions there, emitted in order; when the string table is at most
4 GiB and the file's offsets fit in 64 bits. A function without instructions would share its
offset with the function after it, and the map keeps only one of the two. -/
theorem functionTable_assemble {cook : Insn → Buffers → Except Error (List Insn × Buffers)}
    (hcook : ∀ insn b r, cook insn b = .ok r → b.Grows r.2)
    {expand : List Insn → SymbolMap → Except Error (List Insn)} {sourcePath : Bytes}
    {nodes : List (Node Insn)} (hnodup : (fnNames nodes).Nodup)
    (hdisjoint : ∀ a ∈ labelNames nodes, a ∉ fnNames nodes) (hnul : ∀ a ∈ fnNames nodes, 0 ∉ a)
    {t : Tables} {file : Bytes} (hload : loadLabels unescape ston sourcePath nodes = .ok t)
    (hfile : assemble emitInstruction unescape ston R_VIUA_JUMP_SLOT R_VIUA_OBJECT comment cook
      expand sourcePath nodes = .ok file)
    (hstrtab : t.stringTable.length ≤ 2 ^ 32) (hlen : file.length < 2 ^ 64) :
    ∃ fragments, load file = some fragments ∧ ∃ cooked b expanded,
      cookLongImmediates cook nodes ⟨t.rodataBuf, t.symbolTable, t.symbolMap⟩ = .ok (cooked, b) ∧
      cookPseudoinstructions expand b.symbolMap cooked = .ok expanded ∧
      ((∀ fn ∈ fnDefs expanded, fn.hasAttr externAttr = false → fn.instructions ≠ []) →
        ∀ fn ∈ fnDefs expanded, fn.hasAttr externAttr = false → ∃ offset,
          (functionTable fragments).find? offset = some (fn.name.text, 8 * fn.instructions.length) ∧
          (findFragment fragments (ascii ".text")).map
              (fun f => slice f.data offset (8 * fn.instructions.length)) =
            some (wordBytes (fn.instructions.map emitInstruction))) := by
  obtain ⟨cooked, b, expanded, symbolTable, relocTable, entry, hcooked, hexpanded, hnames, hplaced,
    hfile⟩ := assemble_placed emitInstruction unescape ston R_VIUA_JUMP_SLOT R_VIUA_OBJECT comment
      hcook hnodup hdisjoint hload hfile
  have hgrows := grows_cookLongImmediates hcook hcooked
  have hem := emitted_of_placed emitInstruction hplaced
  have htext := length_text_le_emitElf false entry comment
    (N.encode ⟨OPCODE.HALT⟩ :: emittedWords emitInstruction (fnDefs expanded)) (some relocTable)
    b.rodataBuf (t.stringTable ++ [0]) symbolTable
  rw [hfile] at hlen ⊢
  refine ⟨_, load_emitElf false entry comment _ (some relocTable) b.rodataBuf
    (t.stringTable ++ [0]) _ hlen, cooked, b, expanded, hcooked, hexpanded,
    fun hnonempty fn hfn hlocal => ?_⟩
  obtain ⟨j, hj⟩ := List.mem_iff_getElem?.mp hfn
  have hname : fn.name.text ∈ fnNames nodes := hnames ▸ List.mem_map_of_mem _ hfn
  -- the label stages filed the name with a function's symbol and the name, which cooking keeps
  -- and `emit_bytecode` places
  obtain ⟨k, sym, hk, hsym, hfunction⟩ := funcSymbol_loadLabels unescape ston hload hdisjoint
    fn.name.text hname
  obtain ⟨sym₀, hsym₀, hnameAt⟩ := (namesOk_loadLabels unescape ston hload).lookup _ _ hk
  obtain rfl : sym = sym₀ := Option.some.inj (hsym.symm.trans hsym₀)
  have hplacedSym := hplaced.getElem?_symbol hj hlocal (hgrows.map _ _ hk)
    (getElem?_extend hgrows.symbols hsym)
  have hbound := hnameAt.le_length
  have hin := hem.inText j fn hj
  have hsize : 8 * (1 + totalSize (fnDefs expanded)) < 2 ^ 64 := by rw [← hem.length]; omega
  -- the label stages' function symbols before the function's are at 0
  have hunplaced : ∀ i < k, ∀ s, b.symbolTable[i]? = some s →
      ELF64_ST_TYPE s.stInfo = STT_FUNC → s.stValue = 0 := by
    intro i hi s hs hfunc
    obtain ⟨s₀, hs₀⟩ : ∃ s₀, t.symbolTable[i]? = some s₀ :=
      ⟨_, List.getElem?_eq_getElem (hi.trans (List.getElem?_eq_some_iff.mp hsym).1)⟩
    obtain rfl : s₀ = s := Option.some.inj ((getElem?_extend hgrows.symbols hs₀).symm.trans hs)
    exact funcsUnplaced_loadLabels unescape ston hload s₀ (List.getElem?_mem hs₀) hfunc
  refine ⟨8 * (1 + offset (fnDefs expanded) j), ?listed, ?code⟩
  case listed =>
    rw [find?_functionTable, functionEntries_emitElf false entry comment _ (some relocTable)
      b.rodataBuf (t.stringTable ++ [0]) _ hlen]
    refine lookup_filterMap hplacedSym ?_ fun i hi s hs v hg => ?_
    · simp only [hfunction, if_true, Nat.mod_eq_of_lt (show 8 * (1 + offset (fnDefs expanded) j) <
        2 ^ 64 by omega), Nat.mod_eq_of_lt (show 8 * fn.instructions.length < 2 ^ 64 by omega),
        Nat.mod_eq_of_lt (show sym.stName < 2 ^ 32 by omega),
        cstringAt_of_nameAt (hnameAt.extend (List.prefix_append _ _)) (hnul _ hname)]
    · split_ifs at hg with hfunc
      exact stValue_ne_of_placed hplaced hnonempty hsize hj hlocal (hgrows.map _ _ hk) hunplaced hi
        hs hfunc (Prod.mk.inj (Option.some.inj hg)).1
  case code =>
    rw [findFragment_text_emitElf false entry comment _ (some relocTable) b.rodataBuf
      (t.stringTable ++ [0]) _ hlen, Option.map_some', slice_wordBytes, hem.words j fn hj]

/-- The loader's function table of the sample program's object file finds `main` with its one
word: the sample's one function without `extern` has an instruction. -/
theorem functionTable_assemble_sample :
    ∃ t file, loadLabels id (fun _ => 0) [] entrySample = .ok t ∧
      assemble id id (fun _ => 0) 1 2 [] cookNothing expandNothing [] entrySample = .ok file ∧
      (fnNames entrySample).Nodup ∧ (∀ a ∈ labelNames entrySample, a ∉ fnNames entrySample) ∧
      (∀ a ∈ fnNames entrySample, 0 ∉ a) ∧ t.stringTable.length ≤ 2 ^ 32 ∧
      file.length < 2 ^ 64 ∧
      ∃ fragments, load file = some fragments ∧ ∃ cooked b expanded,
        cookLongImmediates cookNothing entrySample ⟨t.rodataBuf, t.symbolTable, t.symbolMap⟩ =
          .ok (cooked, b) ∧
        cookPseudoinstructions expandNothing b.symbolMap cooked = .ok expanded ∧
        (∀ fn ∈ fnDefs expanded, fn.hasAttr externAttr = false → fn.instructions ≠ []) ∧
        ((∀ fn ∈ fnDefs expanded, fn.hasAttr externAttr = false → fn.instructions ≠ []) →
          ∀ fn ∈ fnDefs expanded, fn.hasAttr externAttr = false → ∃ offset,
            (functionTable fragments).find? offset =
              some (fn.name.text, 8 * fn.instructions.length) ∧
            (findFragment fragments (ascii ".text")).map
                (fun f => slice f.data offset (8 * fn.instructions.length)) =
              some (wordBytes (fn.instructions.map id))) := by
  obtain ⟨_, hfile, hlen⟩ := assemble_entrySample
  obtain ⟨fragments, hfragments, cooked, b, expanded, hcooked, hexpanded, htable⟩ :=
    @functionTable_assemble InstructionType id id (fun _ => 0) 1 2 [] cookNothing
      (fun _ _ _ h => by cases h; exact Buffers.Grows.refl _) expandNothing [] entrySample
      (by decide) (by decide) (by decide) _ _ rfl hfile (by decide) hlen
  -- neither helper changes the sample
  obtain ⟨rfl, rfl⟩ := Prod.mk.inj (Except.ok.inj (hcooked.symm.trans
    (rfl : cookLongImmediates cookNothing entrySample _ = .ok (entrySample, _))))
  obtain rfl := Except.ok.inj (hexpanded.symm.trans
    (rfl : cookPseudoinstructions expandNothing _ entrySample = .ok entrySample))
  exact ⟨_, _, rfl, hfile, by decide, by decide, by decide, by decide, hlen, fragments,
    hfragments, _, _, _, hcooked, hexpanded, by decide, htable⟩

end Object


end ViuaVm.Asm.Object
