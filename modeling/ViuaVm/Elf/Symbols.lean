import ViuaVm.Elf.Layout

/-! # Symbols and relocations, read back from the object file

`emit_elf` writes the symbol table and the string table as two sections, and the header of
`.symtab` links `.strtab`. A reader of the object file (a linker, `readelf`) finds the name of
a symbol as `symbolName` does: `e_shoff` gives the section headers, the symbol table's header
its `sh_offset` and its `sh_link`, the symbol's entry its `st_name`, and the `sh_offset` of the
linked section plus `st_name` is where the name stands. It finds a symbol's value as
`symbolValue` does, from `st_shndx`, `st_value` and `st_size`, and the relocations as
`rOffsetAt` and `rInfoAt` do, from the entries of the section of type `SHT_REL`. Nothing in the
sources reads the file back: the reader is the specification of the format, not a model of
code.

Every symbol whose `st_name` is where a name and its zero byte stand in the string table
given to `emit_elf` reads back from the file with that name (`symbolName_emitElf`), when
`st_name` fits its 32 bits and the file its 64-bit offsets. An object's value is its bytes of
`.rodata` (`symbolValue_emitElf`), a function's its bytes of `.text`
(`symbolValue_emitElf_function`), and the relocation table reads back entry by entry, linking
`.symtab` and applying to `.text` (`relocation_emitElf`).
-/
namespace ViuaVm.Elf.Symbols
open ViuaVm.Arch.Ops ViuaVm.Elf.LittleEndian ViuaVm.Elf.Structs ViuaVm.Elf.Emit ViuaVm.Elf.Layout

/-! ## Names in a string table -/

/-- `name` and its closing zero byte stand at `offset` of the string table. -/
def NameAt (stringTable : Bytes) (offset : Nat) (name : Bytes) : Prop :=
  slice stringTable offset (name.length + 1) = name ++ [0]

namespace NameAt
variable {stringTable stringTable' : Bytes} {offset : Nat} {name : Bytes}

theorem le_length (h : NameAt stringTable offset name) :
    offset + (name.length + 1) ≤ stringTable.length := by
  have hlen := congrArg List.length h
  simp only [Elf.LittleEndian.slice, List.length_take, List.length_drop, List.length_append,
    List.length_singleton] at hlen
  omega

/-- A name stays where it is when the string table grows. -/
theorem extend (h : NameAt stringTable offset name) (hp : stringTable <+: stringTable') :
    NameAt stringTable' offset name := by
  rw [NameAt, slice_extend hp h.le_length]; exact h

end NameAt

/-! ## The reader -/

/-- The little-endian field of `width` bytes at `offset` of the file. -/
def field (file : Bytes) (offset width : Nat) : Nat := leVal (slice file offset width)

/-- Where section header `i` starts: `e_shoff`, then `i` headers of `sizeof(Elf64_Shdr)`. -/
def shdrAt (file : Bytes) (i : Nat) : Nat := field file 40 8 + 64 * i

/-- `sh_type` of section header `i`. -/
def shTypeAt (file : Bytes) (i : Nat) : Nat := field file (shdrAt file i + 4) 4

/-- `sh_offset` of section header `i`. -/
def shOffsetAt (file : Bytes) (i : Nat) : Nat := field file (shdrAt file i + 24) 8

/-- `sh_size` of section header `i`. -/
def shSizeAt (file : Bytes) (i : Nat) : Nat := field file (shdrAt file i + 32) 8

/-- `sh_link` of section header `i`. -/
def shLinkAt (file : Bytes) (i : Nat) : Nat := field file (shdrAt file i + 40) 4

/-- `sh_info` of section header `i`. -/
def shInfoAt (file : Bytes) (i : Nat) : Nat := field file (shdrAt file i + 44) 4

/-- Where entry `k` of the symbol table in section `i` starts, entries being
`sizeof(Elf64_Sym)` bytes. -/
def symAt (file : Bytes) (i k : Nat) : Nat := shOffsetAt file i + 24 * k

/-- `st_name` of entry `k` of the symbol table in section `i`. -/
def stNameAt (file : Bytes) (i k : Nat) : Nat := field file (symAt file i k) 4

/-- `st_shndx` of entry `k` of the symbol table in section `i`. -/
def stShndxAt (file : Bytes) (i k : Nat) : Nat := field file (symAt file i k + 6) 2

/-- `st_value` of entry `k` of the symbol table in section `i`. -/
def stValueAt (file : Bytes) (i k : Nat) : Nat := field file (symAt file i k + 8) 8

/-- `st_size` of entry `k` of the symbol table in section `i`. -/
def stSizeAt (file : Bytes) (i k : Nat) : Nat := field file (symAt file i k + 16) 8

/-- The `length` bytes a reader takes as the name of symbol `k` of the symbol table in section
`i`: they stand at `st_name` of the string table that section links. -/
def symbolName (file : Bytes) (i k length : Nat) : Bytes :=
  slice file (shOffsetAt file (shLinkAt file i) + stNameAt file i k) length

/-- The bytes a reader takes as the value of symbol `k` of the symbol table in section `i`:
`st_size` bytes from `st_value` of the section `st_shndx` names. -/
def symbolValue (file : Bytes) (i k : Nat) : Bytes :=
  slice file (shOffsetAt file (stShndxAt file i k) + stValueAt file i k) (stSizeAt file i k)

/-- Where entry `j` of the relocation table in section `i` starts, entries being
`sizeof(Elf64_Rel)` bytes. -/
def relAt (file : Bytes) (i j : Nat) : Nat := shOffsetAt file i + 16 * j

/-- `r_offset` of entry `j` of the relocation table in section `i`. -/
def rOffsetAt (file : Bytes) (i j : Nat) : Nat := field file (relAt file i j) 8

/-- `r_info` of entry `j` of the relocation table in section `i`. -/
def rInfoAt (file : Bytes) (i j : Nat) : Nat := field file (relAt file i j + 8) 8

/-! ## Slices and fields -/

section Slices
variable {α : Type}

/-- A slice that is not empty starts inside the list. -/
theorem lt_length_of_slice {l s : List α} {offset length : Nat} (h : slice l offset length = s)
    (hs : s ≠ []) : offset < l.length := by
  refine Nat.lt_of_not_le fun hle => hs ?_
  rw [← h, Elf.LittleEndian.slice, List.drop_eq_nil_of_le hle, List.take_nil]

/-- A slice is no longer than asked. -/
theorem length_le_of_slice {l s : List α} {offset length : Nat} (h : slice l offset length = s) :
    s.length ≤ length :=
  h ▸ List.length_take_le _ _

/-- A slice lies in the list. -/
theorem length_le_length_of_slice {l s : List α} {offset length : Nat}
    (h : slice l offset length = s) : s.length ≤ l.length := by
  subst h
  simp only [Elf.LittleEndian.slice, List.length_take, List.length_drop]
  omega

/-- A slice of a slice is a slice of the list. -/
theorem slice_slice (l : List α) (offset : Nat) {length offset' length' : Nat}
    (h : offset' + length' ≤ length) :
    slice (slice l offset length) offset' length' = slice l (offset + offset') length' := by
  simp only [Elf.LittleEndian.slice, List.drop_take, List.take_take, List.drop_drop]
  rw [Nat.min_eq_left (by omega)]

/-- Bytes inside a slice are bytes of the list, shifted by where the slice starts. -/
theorem slice_of_slice {l s : List α} {offset length offset' length' : Nat}
    (h : slice l offset length = s) (hle : offset' + length' ≤ s.length) :
    slice l (offset + offset') length' = slice s offset' length' := by
  rw [← slice_slice l offset (le_trans hle (length_le_of_slice h)), h]

/-- Entry `k` of a table of entries of one size. -/
theorem slice_flatMap {β : Type} {f : β → List α} {size : Nat} (hf : ∀ b, (f b).length = size)
    {l : List β} {k : Nat} {b : β} (hk : l[k]? = some b) :
    slice (l.flatMap f) (size * k) size = f b := by
  induction l generalizing k with
  | nil => cases hk
  | cons c l ih =>
    cases k with
    | zero =>
      obtain rfl : c = b := by simpa using hk
      rw [List.flatMap_cons, Nat.mul_zero, Elf.LittleEndian.slice, List.drop_zero, List.take_left' (hf c)]
    | succ k =>
      have hoff : size * (k + 1) = (f c).length + size * k := by rw [hf c]; ring
      rw [List.flatMap_cons, hoff, slice_append_shift]
      exact ih (by simpa using hk)

/-- A table with entry `k`, of entries of one positive size, is not empty. -/
theorem flatMap_ne_nil {β : Type} {f : β → Bytes} {size : Nat} (hf : ∀ b, (f b).length = size)
    (hsize : 0 < size) {l : List β} {k : Nat} {b : β} (hk : l[k]? = some b) : l.flatMap f ≠ [] :=
  List.ne_nil_of_length_pos (by
    rw [length_flatMap_of_length hf]
    exact Nat.mul_pos hsize (Nat.lt_of_le_of_lt (Nat.zero_le k) (List.getElem?_eq_some_iff.mp hk).1))

/-- A field of entry `k` of a table of entries of one size, read where the table stands. -/
theorem field_flatMap {β : Type} {f : β → Bytes} {size : Nat} (hf : ∀ b, (f b).length = size)
    {file : Bytes} {start tableSize : Nat} {l : List β}
    (htable : slice file start tableSize = l.flatMap f) {k : Nat} {b : β} (hk : l[k]? = some b)
    {offset width : Nat} (hle : offset + width ≤ size) :
    field file (start + size * k + offset) width = leVal (slice (f b) offset width) := by
  have hk' : size * k + size ≤ size * l.length := by
    rw [← Nat.mul_succ]; exact Nat.mul_le_mul_left _ (List.getElem?_eq_some_iff.mp hk).1
  rw [field, Nat.add_assoc, slice_of_slice htable (by rw [length_flatMap_of_length hf]; omega),
    slice_of_slice (slice_flatMap hf hk) (by rw [hf]; exact hle)]

/-- A field of `width` bytes at its offset in a structure's bytes. -/
theorem leVal_slice_leBytes {pre post : Bytes} {offset : Nat} (h : pre.length = offset)
    (width n : Nat) : leVal (slice (pre ++ leBytes width n ++ post) offset width) =
      n % 2 ^ (8 * width) := by
  rw [slice_append_of_length h (length_leBytes width n), leVal_leBytes]

end Slices

theorem leVal_eShoff (e : Ehdr) : leVal (slice e.bytes 40 8) = e.eShoff % 2 ^ 64 := by
  have h : e.bytes = (e.eIdent ++ leBytes 2 e.eType ++ leBytes 2 e.eMachine ++
      leBytes 4 e.eVersion ++ leBytes 8 e.eEntry ++ leBytes 8 e.ePhoff) ++ leBytes 8 e.eShoff ++
      (leBytes 4 e.eFlags ++ leBytes 2 e.eEhsize ++ leBytes 2 e.ePhentsize ++
        leBytes 2 e.ePhnum ++ leBytes 2 e.eShentsize ++ leBytes 2 e.eShnum ++
        leBytes 2 e.eShstrndx) := by
    simp [Ehdr.bytes]
  rw [h]; exact leVal_slice_leBytes (by simp [e.eIdent_length]) 8 _

theorem leVal_shType (s : Shdr) : leVal (slice s.bytes 4 4) = s.shType % 2 ^ 32 := by
  have h : s.bytes = leBytes 4 s.shName ++ leBytes 4 s.shType ++ (leBytes 8 s.shFlags ++
      leBytes 8 s.shAddr ++ leBytes 8 s.shOffset ++ leBytes 8 s.shSize ++ leBytes 4 s.shLink ++
      leBytes 4 s.shInfo ++ leBytes 8 s.shAddralign ++ leBytes 8 s.shEntsize) := by
    simp [Shdr.bytes]
  rw [h]; exact leVal_slice_leBytes (by simp) 4 _

theorem leVal_shOffset (s : Shdr) : leVal (slice s.bytes 24 8) = s.shOffset % 2 ^ 64 := by
  have h : s.bytes = (leBytes 4 s.shName ++ leBytes 4 s.shType ++ leBytes 8 s.shFlags ++
      leBytes 8 s.shAddr) ++ leBytes 8 s.shOffset ++ (leBytes 8 s.shSize ++ leBytes 4 s.shLink ++
      leBytes 4 s.shInfo ++ leBytes 8 s.shAddralign ++ leBytes 8 s.shEntsize) := by
    simp [Shdr.bytes]
  rw [h]; exact leVal_slice_leBytes (by simp) 8 _

theorem leVal_shSize (s : Shdr) : leVal (slice s.bytes 32 8) = s.shSize % 2 ^ 64 := by
  have h : s.bytes = (leBytes 4 s.shName ++ leBytes 4 s.shType ++ leBytes 8 s.shFlags ++
      leBytes 8 s.shAddr ++ leBytes 8 s.shOffset) ++ leBytes 8 s.shSize ++ (leBytes 4 s.shLink ++
      leBytes 4 s.shInfo ++ leBytes 8 s.shAddralign ++ leBytes 8 s.shEntsize) := by
    simp [Shdr.bytes]
  rw [h]; exact leVal_slice_leBytes (by simp) 8 _

theorem leVal_shLink (s : Shdr) : leVal (slice s.bytes 40 4) = s.shLink % 2 ^ 32 := by
  have h : s.bytes = (leBytes 4 s.shName ++ leBytes 4 s.shType ++ leBytes 8 s.shFlags ++
      leBytes 8 s.shAddr ++ leBytes 8 s.shOffset ++ leBytes 8 s.shSize) ++ leBytes 4 s.shLink ++
      (leBytes 4 s.shInfo ++ leBytes 8 s.shAddralign ++ leBytes 8 s.shEntsize) := by
    simp [Shdr.bytes]
  rw [h]; exact leVal_slice_leBytes (by simp) 4 _

theorem leVal_shInfo (s : Shdr) : leVal (slice s.bytes 44 4) = s.shInfo % 2 ^ 32 := by
  have h : s.bytes = (leBytes 4 s.shName ++ leBytes 4 s.shType ++ leBytes 8 s.shFlags ++
      leBytes 8 s.shAddr ++ leBytes 8 s.shOffset ++ leBytes 8 s.shSize ++ leBytes 4 s.shLink) ++
      leBytes 4 s.shInfo ++ (leBytes 8 s.shAddralign ++ leBytes 8 s.shEntsize) := by
    simp [Shdr.bytes]
  rw [h]; exact leVal_slice_leBytes (by simp) 4 _

theorem leVal_stName (s : Sym) : leVal (slice s.bytes 0 4) = s.stName % 2 ^ 32 := by
  have h : s.bytes = [] ++ leBytes 4 s.stName ++ (leBytes 1 s.stInfo ++ leBytes 1 s.stOther ++
      leBytes 2 s.stShndx ++ leBytes 8 s.stValue ++ leBytes 8 s.stSize) := by
    simp [Sym.bytes]
  rw [h]; exact leVal_slice_leBytes rfl 4 _

theorem leVal_stShndx (s : Sym) : leVal (slice s.bytes 6 2) = s.stShndx % 2 ^ 16 := by
  have h : s.bytes = (leBytes 4 s.stName ++ leBytes 1 s.stInfo ++ leBytes 1 s.stOther) ++
      leBytes 2 s.stShndx ++ (leBytes 8 s.stValue ++ leBytes 8 s.stSize) := by
    simp [Sym.bytes]
  rw [h]; exact leVal_slice_leBytes (by simp) 2 _

theorem leVal_stValue (s : Sym) : leVal (slice s.bytes 8 8) = s.stValue % 2 ^ 64 := by
  have h : s.bytes = (leBytes 4 s.stName ++ leBytes 1 s.stInfo ++ leBytes 1 s.stOther ++
      leBytes 2 s.stShndx) ++ leBytes 8 s.stValue ++ leBytes 8 s.stSize := by
    simp [Sym.bytes]
  rw [h]; exact leVal_slice_leBytes (by simp) 8 _

theorem leVal_stSize (s : Sym) : leVal (slice s.bytes 16 8) = s.stSize % 2 ^ 64 := by
  have h : s.bytes = (leBytes 4 s.stName ++ leBytes 1 s.stInfo ++ leBytes 1 s.stOther ++
      leBytes 2 s.stShndx ++ leBytes 8 s.stValue) ++ leBytes 8 s.stSize ++ [] := by
    simp [Sym.bytes]
  rw [h]; exact leVal_slice_leBytes (by simp) 8 _

theorem leVal_rOffset (r : Rel) : leVal (slice r.bytes 0 8) = r.rOffset % 2 ^ 64 := by
  have h : r.bytes = [] ++ leBytes 8 r.rOffset ++ leBytes 8 r.rInfo := by simp [Rel.bytes]
  rw [h]; exact leVal_slice_leBytes rfl 8 _

theorem leVal_rInfo (r : Rel) : leVal (slice r.bytes 8 8) = r.rInfo % 2 ^ 64 := by
  have h : r.bytes = leBytes 8 r.rOffset ++ leBytes 8 r.rInfo ++ [] := by simp [Rel.bytes]
  rw [h]; exact leVal_slice_leBytes (by simp) 8 _

/-- The symbol as `emit_elf` writes it keeps its name. -/
@[simp] theorem stName_patchSymbol (textSectionNdx rodataSectionNdx : Nat) (each : Sym) :
    (patchSymbol textSectionNdx rodataSectionNdx each).stName = each.stName := by
  unfold patchSymbol; split_ifs <;> rfl

@[simp] theorem stInfo_patchSymbol (textSectionNdx rodataSectionNdx : Nat) (each : Sym) :
    (patchSymbol textSectionNdx rodataSectionNdx each).stInfo = each.stInfo := by
  unfold patchSymbol; split_ifs <;> rfl

@[simp] theorem stValue_patchSymbol (textSectionNdx rodataSectionNdx : Nat) (each : Sym) :
    (patchSymbol textSectionNdx rodataSectionNdx each).stValue = each.stValue := by
  unfold patchSymbol; split_ifs <;> rfl

@[simp] theorem stSize_patchSymbol (textSectionNdx rodataSectionNdx : Nat) (each : Sym) :
    (patchSymbol textSectionNdx rodataSectionNdx each).stSize = each.stSize := by
  unfold patchSymbol; split_ifs <;> rfl

/-- A function is written with `.text`'s section index, and otherwise as it is. -/
theorem patchSymbol_function {textSectionNdx rodataSectionNdx : Nat} {each : Sym}
    (h : ELF64_ST_TYPE each.stInfo = STT_FUNC) :
    patchSymbol textSectionNdx rodataSectionNdx each = { each with stShndx := textSectionNdx } := by
  rw [patchSymbol, if_pos h]

/-- An object is written with `.rodata`'s section index, and otherwise as it is. -/
theorem patchSymbol_object {textSectionNdx rodataSectionNdx : Nat} {each : Sym}
    (h : ELF64_ST_TYPE each.stInfo = STT_OBJECT) :
    patchSymbol textSectionNdx rodataSectionNdx each = { each with stShndx := rodataSectionNdx } := by
  rw [patchSymbol, if_neg (by rw [h]; decide), if_pos h]

/-- The place of an element among those a filter keeps: how many it keeps before it. -/
theorem getElem?_filter_countP {β : Type} (p : β → Bool) {l : List β} {k : Nat} {b : β}
    (hk : l[k]? = some b) (hp : p b = true) : (l.filter p)[(l.take k).countP p]? = some b := by
  induction l generalizing k with
  | nil => cases hk
  | cons c l ih =>
    cases k with
    | zero =>
      obtain rfl : c = b := by simpa using hk
      simp [hp]
    | succ k =>
      have hk' : l[k]? = some b := by simpa using hk
      by_cases hc : p c <;> simp [List.filter_cons, hc, List.countP_cons_of_pos,
        List.countP_cons_of_neg, ih hk']

/-- Header `i` of the section header table, which follows the program headers. -/
theorem slice_shdr {im : Image} (rest : Bytes) {i : Nat} {pr : HeaderPair}
    (hpr : im.pairs[i]? = some pr) :
    slice (headerBytes im ++ rest) (64 + (im.pairs.filterMap HeaderPair.seg).length * 56 + 64 * i)
      64 = pr.sec.bytes := by
  have hi := (List.getElem?_eq_some_iff.mp hpr).1
  have h := slice_slice (headerBytes im ++ rest)
    (64 + (im.pairs.filterMap HeaderPair.seg).length * 56)
    (show 64 * i + 64 ≤ im.pairs.length * 64 by omega)
  rw [slice_shdrs] at h
  rw [← h]
  have hentry := slice_flatMap (fun pr : HeaderPair => Shdr.length_bytes pr.sec) hpr
  exact hentry

/-! ## The file `emit_elf` writes -/

section Image
variable (asExecutable : Bool) (entryPointFn : Option Nat) (comment : Bytes)
  (text : List InstructionType) (relocs : Option (List Rel)) (rodataBuf stringTable : Bytes)
  (symbolTable : List Sym)

/-- The sections with data hold the payloads, in order. -/
theorem slices_emitElf :
    (dataSections (elfImage asExecutable entryPointFn comment text relocs rodataBuf stringTable
        symbolTable).pairs).map
      (fun s => slice (emitElf asExecutable entryPointFn comment text relocs rodataBuf
        stringTable symbolTable) s.shOffset s.shSize) =
    payloads comment text relocs rodataBuf stringTable
      (symbolTable.map (patchSymbol
        (elfImage asExecutable entryPointFn comment text relocs rodataBuf stringTable
          symbolTable).textSectionNdx
        (elfImage asExecutable entryPointFn comment text relocs rodataBuf stringTable
          symbolTable).rodataSectionNdx))
      (elfImage asExecutable entryPointFn comment text relocs rodataBuf stringTable
        symbolTable).shstr := by
  rw [emitElf_eq]
  exact slices_of_spans (by rw [length_headerBytes]; exact spans_elfImage ..)

/-- Section header `i` as the file has it at `e_shoff`. -/
theorem slice_shdr_emitElf {i : Nat} {pr : HeaderPair}
    (hpr : (elfImage asExecutable entryPointFn comment text relocs rodataBuf stringTable
      symbolTable).pairs[i]? = some pr) :
    slice (emitElf asExecutable entryPointFn comment text relocs rodataBuf stringTable
        symbolTable)
      ((elfImage asExecutable entryPointFn comment text relocs rodataBuf stringTable
        symbolTable).header.eShoff + 64 * i) 64 = pr.sec.bytes := by
  obtain ⟨hp, -⟩ := elfImage_counts asExecutable entryPointFn comment text relocs rodataBuf
    stringTable symbolTable
  rw [emitElf_eq, elfImage_eShoff, ← hp]
  exact slice_shdr _ hpr

/-- `e_shoff`, read back from the file header. -/
theorem field_eShoff_emitElf :
    field (emitElf asExecutable entryPointFn comment text relocs rodataBuf stringTable
        symbolTable) 40 8 =
      (elfImage asExecutable entryPointFn comment text relocs rodataBuf stringTable
        symbolTable).header.eShoff % 2 ^ 64 := by
  rw [field, ← leVal_eShoff, emitElf_eq, headerBytes, List.append_assoc, List.append_assoc]
  exact congrArg leVal (slice_extend (List.prefix_append _ _) (by simp))

/-- The written pairs count their sections with data as the built ones do. -/
theorem countP_elfImage (i : Nat) :
    (((elfImage asExecutable entryPointFn comment text relocs rodataBuf stringTable
        symbolTable).pairs.map HeaderPair.sec).take i).countP hasData =
      (((buildHeaders comment text relocs rodataBuf stringTable symbolTable).pairs.map
        HeaderPair.sec).take i).countP hasData := by
  have h := congrArg (fun l => (l.take i).countP id) (elfImage_map asExecutable entryPointFn
    comment text relocs rodataBuf stringTable symbolTable (fun pr => hasData pr.sec)
    (fun _ => rfl))
  simpa [← List.map_take, List.countP_map, Function.comp_def] using h

/-- A section with data holds the payload that has as many payloads before it as it has
sections with data before it. -/
theorem payload_emitElf {i : Nat} {pr : HeaderPair}
    (hpr : (elfImage asExecutable entryPointFn comment text relocs rodataBuf stringTable
      symbolTable).pairs[i]? = some pr) (hdata : hasData pr.sec = true) :
    (payloads comment text relocs rodataBuf stringTable
      (symbolTable.map (patchSymbol
        (elfImage asExecutable entryPointFn comment text relocs rodataBuf stringTable
          symbolTable).textSectionNdx
        (elfImage asExecutable entryPointFn comment text relocs rodataBuf stringTable
          symbolTable).rodataSectionNdx))
      (elfImage asExecutable entryPointFn comment text relocs rodataBuf stringTable
        symbolTable).shstr)[(((buildHeaders comment text relocs rodataBuf stringTable
          symbolTable).pairs.map HeaderPair.sec).take i).countP hasData]? =
      some (slice (emitElf asExecutable entryPointFn comment text relocs rodataBuf stringTable
        symbolTable) pr.sec.shOffset pr.sec.shSize) := by
  have hk : ((elfImage asExecutable entryPointFn comment text relocs rodataBuf stringTable
      symbolTable).pairs.map HeaderPair.sec)[i]? = some pr.sec := by
    rw [List.getElem?_map, hpr]; rfl
  have hdataSection := getElem?_filter_countP hasData hk hdata
  rw [countP_elfImage] at hdataSection
  rw [← slices_emitElf, List.getElem?_map, dataSections, hdataSection]; rfl

/-- A section with data that has `n` sections with data before it among the built headers
holds payload `n`. -/
theorem section_emitElf (i n : Nat) {payload : Bytes}
    (hdata : ((buildHeaders comment text relocs rodataBuf stringTable symbolTable).pairs[i]?).map
      (fun pr => hasData pr.sec) = some true)
    (hcount : (((buildHeaders comment text relocs rodataBuf stringTable symbolTable).pairs.map
      HeaderPair.sec).take i).countP hasData = n)
    (hpayload : (payloads comment text relocs rodataBuf stringTable
      (symbolTable.map (patchSymbol
        (elfImage asExecutable entryPointFn comment text relocs rodataBuf stringTable
          symbolTable).textSectionNdx
        (elfImage asExecutable entryPointFn comment text relocs rodataBuf stringTable
          symbolTable).rodataSectionNdx))
      (elfImage asExecutable entryPointFn comment text relocs rodataBuf stringTable
        symbolTable).shstr)[n]? = some payload) :
    ∃ pr, (elfImage asExecutable entryPointFn comment text relocs rodataBuf stringTable
        symbolTable).pairs[i]? = some pr ∧
      slice (emitElf asExecutable entryPointFn comment text relocs rodataBuf stringTable
        symbolTable) pr.sec.shOffset pr.sec.shSize = payload := by
  obtain ⟨pr, hpr, hd⟩ := Option.map_eq_some'.mp ((getElem?_elfImage asExecutable entryPointFn
    comment text relocs rodataBuf stringTable symbolTable (fun pr => hasData pr.sec)
    (fun _ => rfl) i).trans hdata)
  have hpay := payload_emitElf asExecutable entryPointFn comment text relocs rodataBuf
    stringTable symbolTable hpr hd
  rw [hcount, hpayload] at hpay
  exact ⟨pr, hpr, (Option.some.inj hpay).symm⟩

/-- A section with data is as large as its payload. -/
theorem shSize_section_emitElf {i n : Nat} {pr : HeaderPair} {payload : Bytes}
    (hpr : (elfImage asExecutable entryPointFn comment text relocs rodataBuf stringTable
      symbolTable).pairs[i]? = some pr) (hdata : hasData pr.sec = true)
    (hcount : (((buildHeaders comment text relocs rodataBuf stringTable symbolTable).pairs.map
      HeaderPair.sec).take i).countP hasData = n)
    (hpayload : (payloads comment text relocs rodataBuf stringTable
      (symbolTable.map (patchSymbol
        (elfImage asExecutable entryPointFn comment text relocs rodataBuf stringTable
          symbolTable).textSectionNdx
        (elfImage asExecutable entryPointFn comment text relocs rodataBuf stringTable
          symbolTable).rodataSectionNdx))
      (elfImage asExecutable entryPointFn comment text relocs rodataBuf stringTable
        symbolTable).shstr)[n]? = some payload) :
    pr.sec.shSize = payload.length := by
  have hk : ((elfImage asExecutable entryPointFn comment text relocs rodataBuf stringTable
      symbolTable).pairs.map HeaderPair.sec)[i]? = some pr.sec := by
    rw [List.getElem?_map, hpr]; rfl
  have hdataSection := getElem?_filter_countP hasData hk hdata
  rw [countP_elfImage, hcount] at hdataSection
  -- the sizes of the sections with data are the payloads' lengths
  have hsizes := congrArg (fun l => (l.map Prod.snd)[n]?) (spans_elfImage asExecutable
    entryPointFn comment text relocs rodataBuf stringTable symbolTable)
  simp only [map_snd_spans, List.map_map, List.getElem?_map, hpayload, dataSections,
    hdataSection] at hsizes
  exact Option.some.inj hsizes

/-- `.symtab`: a symbol table linking `.strtab`, whose bytes are the symbols as written. -/
theorem symtab_emitElf : ∃ pr, (elfImage asExecutable entryPointFn comment text relocs rodataBuf
      stringTable symbolTable).pairs[(sectionNames relocs).indexOf (ascii ".symtab")]? = some pr ∧
    pr.sec.shType = SHT_SYMTAB ∧ pr.sec.shLink = (sectionNames relocs).indexOf (ascii ".strtab") ∧
    slice (emitElf asExecutable entryPointFn comment text relocs rodataBuf stringTable symbolTable)
        pr.sec.shOffset pr.sec.shSize =
      (symbolTable.map (patchSymbol
        (elfImage asExecutable entryPointFn comment text relocs rodataBuf stringTable
          symbolTable).textSectionNdx
        (elfImage asExecutable entryPointFn comment text relocs rodataBuf stringTable
          symbolTable).rodataSectionNdx)).flatMap Sym.bytes := by
  have hfacts := getElem?_elfImage asExecutable entryPointFn comment text relocs rodataBuf
    stringTable symbolTable (fun pr => (hasData pr.sec, pr.sec.shType, pr.sec.shLink))
    (fun _ => rfl) ((sectionNames relocs).indexOf (ascii ".symtab"))
  obtain ⟨pr, hpr, hvals⟩ := Option.map_eq_some'.mp (hfacts.trans (by cases relocs <;> rfl) :
    _ = some (true, SHT_SYMTAB, (sectionNames relocs).indexOf (ascii ".strtab")))
  simp only [Prod.mk.injEq] at hvals
  have hpay := payload_emitElf asExecutable entryPointFn comment text relocs rodataBuf
    stringTable symbolTable hpr hvals.1
  -- the symbols are the fifth payload, or the sixth after the relocations
  rw [show (((buildHeaders comment text relocs rodataBuf stringTable symbolTable).pairs.map
      HeaderPair.sec).take ((sectionNames relocs).indexOf (ascii ".symtab"))).countP hasData =
      4 + (relocs.map fun _ => 1).getD 0 by cases relocs <;> rfl] at hpay
  refine ⟨pr, hpr, hvals.2.1, hvals.2.2, (Option.some.inj ?_).symm⟩
  rw [← hpay]; cases relocs <;> rfl

/-- `.strtab`: its bytes are the string table. -/
theorem strtab_emitElf : ∃ pr, (elfImage asExecutable entryPointFn comment text relocs rodataBuf
      stringTable symbolTable).pairs[(sectionNames relocs).indexOf (ascii ".strtab")]? = some pr ∧
    slice (emitElf asExecutable entryPointFn comment text relocs rodataBuf stringTable symbolTable)
        pr.sec.shOffset pr.sec.shSize = stringTable :=
  section_emitElf asExecutable entryPointFn comment text relocs rodataBuf stringTable symbolTable
    _ (5 + (relocs.map fun _ => 1).getD 0) (by cases relocs <;> rfl) (by cases relocs <;> rfl)
    (by cases relocs <;> rfl)

/-- A field of section header `i`, read from the file, is the field of the header. -/
theorem field_shdr_emitElf {i : Nat} {pr : HeaderPair}
    (hpr : (elfImage asExecutable entryPointFn comment text relocs rodataBuf stringTable
      symbolTable).pairs[i]? = some pr)
    (hfile : (emitElf asExecutable entryPointFn comment text relocs rodataBuf stringTable
      symbolTable).length < 2 ^ 64) {offset width : Nat} (hle : offset + width ≤ 64) :
    field (emitElf asExecutable entryPointFn comment text relocs rodataBuf stringTable symbolTable)
        (shdrAt (emitElf asExecutable entryPointFn comment text relocs rodataBuf stringTable
          symbolTable) i + offset) width =
      leVal (slice pr.sec.bytes offset width) := by
  have hsh := slice_shdr_emitElf asExecutable entryPointFn comment text relocs rodataBuf
    stringTable symbolTable hpr
  -- the header lies inside the file, so `e_shoff` reads back whole
  have hin := lt_length_of_slice hsh (List.ne_nil_of_length_pos (by simp))
  rw [shdrAt, field_eShoff_emitElf, Nat.mod_eq_of_lt (by omega), field,
    slice_of_slice hsh (by simpa using hle)]

/-- `sh_offset` of a section with bytes in the file, read back. -/
theorem shOffsetAt_emitElf {i : Nat} {pr : HeaderPair}
    (hpr : (elfImage asExecutable entryPointFn comment text relocs rodataBuf stringTable
      symbolTable).pairs[i]? = some pr)
    (hfile : (emitElf asExecutable entryPointFn comment text relocs rodataBuf stringTable
      symbolTable).length < 2 ^ 64)
    (hbytes : slice (emitElf asExecutable entryPointFn comment text relocs rodataBuf stringTable
      symbolTable) pr.sec.shOffset pr.sec.shSize ≠ []) :
    shOffsetAt (emitElf asExecutable entryPointFn comment text relocs rodataBuf stringTable
      symbolTable) i = pr.sec.shOffset := by
  have hin := lt_length_of_slice rfl hbytes
  rw [shOffsetAt, field_shdr_emitElf asExecutable entryPointFn comment text relocs rodataBuf
    stringTable symbolTable hpr hfile (by norm_num), leVal_shOffset, Nat.mod_eq_of_lt (by omega)]

/-- A reader who reads a section from its `sh_offset` gets the section's bytes. -/
theorem slice_shOffsetAt_emitElf {i : Nat} {pr : HeaderPair} {payload : Bytes}
    (hpr : (elfImage asExecutable entryPointFn comment text relocs rodataBuf stringTable
      symbolTable).pairs[i]? = some pr)
    (hbytes : slice (emitElf asExecutable entryPointFn comment text relocs rodataBuf stringTable
      symbolTable) pr.sec.shOffset pr.sec.shSize = payload)
    (hfile : (emitElf asExecutable entryPointFn comment text relocs rodataBuf stringTable
      symbolTable).length < 2 ^ 64) :
    slice (emitElf asExecutable entryPointFn comment text relocs rodataBuf stringTable symbolTable)
      (shOffsetAt (emitElf asExecutable entryPointFn comment text relocs rodataBuf stringTable
        symbolTable) i) payload.length = payload := by
  by_cases hnil : payload = []
  · subst hnil; rfl
  · rw [shOffsetAt_emitElf asExecutable entryPointFn comment text relocs rodataBuf stringTable
      symbolTable hpr hfile (by rw [hbytes]; exact hnil), ← Nat.add_zero pr.sec.shOffset,
      slice_of_slice hbytes (by simp)]
    simp [Elf.LittleEndian.slice]

/-- The text's words lie in the file. -/
theorem length_text_le_emitElf : 8 * text.length ≤ (emitElf asExecutable entryPointFn comment
    text relocs rodataBuf stringTable symbolTable).length := by
  obtain ⟨post, h⟩ := emitElf_text asExecutable comment text relocs rodataBuf stringTable
    symbolTable entryPointFn
  simp only [h, List.length_append, length_wordBytes]
  omega

/-- `.text`: its bytes are the text's words. -/
theorem text_emitElf : ∃ pr, (elfImage asExecutable entryPointFn comment text relocs rodataBuf
      stringTable symbolTable).pairs[(sectionNames relocs).indexOf (ascii ".text")]? = some pr ∧
    slice (emitElf asExecutable entryPointFn comment text relocs rodataBuf stringTable symbolTable)
        pr.sec.shOffset pr.sec.shSize = wordBytes text :=
  section_emitElf asExecutable entryPointFn comment text relocs rodataBuf stringTable symbolTable
    _ (1 + (relocs.map fun _ => 1).getD 0) (by cases relocs <;> rfl) (by cases relocs <;> rfl)
    (by cases relocs <;> rfl)

/-- `.rodata`: its bytes are the buffer. -/
theorem rodata_emitElf : ∃ pr, (elfImage asExecutable entryPointFn comment text relocs rodataBuf
      stringTable symbolTable).pairs[(sectionNames relocs).indexOf (ascii ".rodata")]? = some pr ∧
    slice (emitElf asExecutable entryPointFn comment text relocs rodataBuf stringTable symbolTable)
        pr.sec.shOffset pr.sec.shSize = rodataBuf :=
  section_emitElf asExecutable entryPointFn comment text relocs rodataBuf stringTable symbolTable
    _ (2 + (relocs.map fun _ => 1).getD 0) (by cases relocs <;> rfl) (by cases relocs <;> rfl)
    (by cases relocs <;> rfl)

/-- Functions are written with the index of `.text`. -/
theorem textSectionNdx_elfImage :
    (elfImage asExecutable entryPointFn comment text relocs rodataBuf stringTable
      symbolTable).textSectionNdx = (sectionNames relocs).indexOf (ascii ".text") := by
  cases relocs <;> rfl

/-- Objects are written with the index of `.rodata`. -/
theorem rodataSectionNdx_elfImage :
    (elfImage asExecutable entryPointFn comment text relocs rodataBuf stringTable
      symbolTable).rodataSectionNdx = (sectionNames relocs).indexOf (ascii ".rodata") := by
  cases relocs <;> rfl

/-- A field of the entry of symbol `k` in `.symtab`, read from the file, is the field of the
symbol as written. -/
theorem field_entry_emitElf {k : Nat} {sym : Sym} (hk : symbolTable[k]? = some sym)
    (hfile : (emitElf asExecutable entryPointFn comment text relocs rodataBuf stringTable
      symbolTable).length < 2 ^ 64) (offset width : Nat) (hle : offset + width ≤ 24) :
    field (emitElf asExecutable entryPointFn comment text relocs rodataBuf stringTable symbolTable)
        (symAt (emitElf asExecutable entryPointFn comment text relocs rodataBuf stringTable
          symbolTable) ((sectionNames relocs).indexOf (ascii ".symtab")) k + offset) width =
      leVal (slice (patchSymbol
        (elfImage asExecutable entryPointFn comment text relocs rodataBuf stringTable
          symbolTable).textSectionNdx
        (elfImage asExecutable entryPointFn comment text relocs rodataBuf stringTable
          symbolTable).rodataSectionNdx sym).bytes offset width) := by
  obtain ⟨prS, hprS, -, -, hsyms⟩ := symtab_emitElf asExecutable entryPointFn comment text
    relocs rodataBuf stringTable symbolTable
  -- the entry is the symbol's bytes as written
  have hentry : (symbolTable.map (patchSymbol
      (elfImage asExecutable entryPointFn comment text relocs rodataBuf stringTable
        symbolTable).textSectionNdx
      (elfImage asExecutable entryPointFn comment text relocs rodataBuf stringTable
        symbolTable).rodataSectionNdx))[k]? = some (patchSymbol
      (elfImage asExecutable entryPointFn comment text relocs rodataBuf stringTable
        symbolTable).textSectionNdx
      (elfImage asExecutable entryPointFn comment text relocs rodataBuf stringTable
        symbolTable).rodataSectionNdx sym) := by
    rw [List.getElem?_map, hk]; rfl
  rw [symAt, shOffsetAt_emitElf asExecutable entryPointFn comment text relocs rodataBuf
    stringTable symbolTable hprS hfile
    (by rw [hsyms]; exact flatMap_ne_nil Sym.length_bytes (by norm_num) hentry)]
  exact field_flatMap Sym.length_bytes hsyms hentry hle

/-- A reader of the written file finds `.symtab` as a section of type `SHT_SYMTAB`. -/
theorem shTypeAt_symtab_emitElf
    (hfile : (emitElf asExecutable entryPointFn comment text relocs rodataBuf stringTable
      symbolTable).length < 2 ^ 64) :
    shTypeAt (emitElf asExecutable entryPointFn comment text relocs rodataBuf stringTable
        symbolTable) ((sectionNames relocs).indexOf (ascii ".symtab")) = SHT_SYMTAB := by
  obtain ⟨prS, hprS, htype, -, -⟩ := symtab_emitElf asExecutable entryPointFn comment
    text relocs rodataBuf stringTable symbolTable
  rw [shTypeAt, field_shdr_emitElf asExecutable entryPointFn comment text relocs rodataBuf
    stringTable symbolTable hprS hfile (by norm_num), leVal_shType, htype]
  rfl

/-- **A symbol's name reads back from the object file.** For every symbol `emit_elf` is given
whose `st_name` is where a name and its zero byte stand in the string table it is given, a
reader of the written file finds `.symtab` as a section of type `SHT_SYMTAB`, and reads, from
the `st_name` of the symbol's entry in it, at the string table `.symtab` links, that name and
its zero byte; when `st_name` fits in 32 bits and the file's offsets in 64. -/
theorem symbolName_emitElf {k : Nat} {sym : Sym} {name : Bytes} (hk : symbolTable[k]? = some sym)
    (hname : NameAt stringTable sym.stName name) (hst : sym.stName < 2 ^ 32)
    (hfile : (emitElf asExecutable entryPointFn comment text relocs rodataBuf stringTable
      symbolTable).length < 2 ^ 64) :
    shTypeAt (emitElf asExecutable entryPointFn comment text relocs rodataBuf stringTable
        symbolTable) ((sectionNames relocs).indexOf (ascii ".symtab")) = SHT_SYMTAB ∧
      symbolName (emitElf asExecutable entryPointFn comment text relocs rodataBuf stringTable
          symbolTable) ((sectionNames relocs).indexOf (ascii ".symtab")) k (name.length + 1) =
        name ++ [0] := by
  obtain ⟨prS, hprS, -, hlink, -⟩ := symtab_emitElf asExecutable entryPointFn comment
    text relocs rodataBuf stringTable symbolTable
  obtain ⟨prT, hprT, hstrings⟩ := strtab_emitElf asExecutable entryPointFn comment text relocs
    rodataBuf stringTable symbolTable
  have hnameLen := hname.le_length
  have hoffT := shOffsetAt_emitElf asExecutable entryPointFn comment text relocs rodataBuf
    stringTable symbolTable hprT hfile
    (by rw [hstrings]; exact List.ne_nil_of_length_pos (by omega))
  have hlinkAt : shLinkAt (emitElf asExecutable entryPointFn comment text relocs rodataBuf
      stringTable symbolTable) ((sectionNames relocs).indexOf (ascii ".symtab")) =
      (sectionNames relocs).indexOf (ascii ".strtab") := by
    rw [shLinkAt, field_shdr_emitElf asExecutable entryPointFn comment text relocs rodataBuf
      stringTable symbolTable hprS hfile (by norm_num), leVal_shLink, hlink]
    cases relocs <;> rfl
  have hstName : stNameAt (emitElf asExecutable entryPointFn comment text relocs rodataBuf
      stringTable symbolTable) ((sectionNames relocs).indexOf (ascii ".symtab")) k =
      sym.stName := by
    rw [stNameAt, ← Nat.add_zero (symAt _ _ _), field_entry_emitElf asExecutable entryPointFn
      comment text relocs rodataBuf stringTable symbolTable hk hfile 0 4 (by norm_num), leVal_stName,
      stName_patchSymbol, Nat.mod_eq_of_lt hst]
  refine ⟨shTypeAt_symtab_emitElf asExecutable entryPointFn comment text relocs rodataBuf
    stringTable symbolTable hfile, ?_⟩
  rw [symbolName, hlinkAt, hoffT, hstName, slice_of_slice hstrings (by omega)]
  exact hname

/-- Every section index fits `st_shndx`'s 16 bits. -/
theorem indexOf_sectionNames_lt (name : Bytes) : (sectionNames relocs).indexOf name < 2 ^ 16 := by
  have hlen : (sectionNames relocs).length < 2 ^ 16 := by cases relocs <;> simp [sectionNames]
  exact (List.findIdx_le_length _).trans_lt hlen

/-- The value a reader finds for a symbol written with section index `n`: `st_size` bytes
from `st_value` of the bytes of section `n`, when they lie in them. -/
theorem symbolValue_emitElf_of {k n : Nat} {sym : Sym} {pr : HeaderPair} {payload : Bytes}
    (hk : symbolTable[k]? = some sym)
    (hndx : (patchSymbol
      (elfImage asExecutable entryPointFn comment text relocs rodataBuf stringTable
        symbolTable).textSectionNdx
      (elfImage asExecutable entryPointFn comment text relocs rodataBuf stringTable
        symbolTable).rodataSectionNdx sym).stShndx = n) (hn : n < 2 ^ 16)
    (hpr : (elfImage asExecutable entryPointFn comment text relocs rodataBuf stringTable
      symbolTable).pairs[n]? = some pr)
    (hbytes : slice (emitElf asExecutable entryPointFn comment text relocs rodataBuf stringTable
      symbolTable) pr.sec.shOffset pr.sec.shSize = payload)
    (hin : sym.stValue + sym.stSize ≤ payload.length)
    (hfile : (emitElf asExecutable entryPointFn comment text relocs rodataBuf stringTable
      symbolTable).length < 2 ^ 64) :
    symbolValue (emitElf asExecutable entryPointFn comment text relocs rodataBuf stringTable
        symbolTable) ((sectionNames relocs).indexOf (ascii ".symtab")) k =
      slice payload sym.stValue sym.stSize := by
  have hpayload := length_le_length_of_slice hbytes
  have hfield := field_entry_emitElf asExecutable entryPointFn comment text relocs rodataBuf
    stringTable symbolTable hk hfile
  have hshndx : stShndxAt (emitElf asExecutable entryPointFn comment text relocs rodataBuf
      stringTable symbolTable) ((sectionNames relocs).indexOf (ascii ".symtab")) k = n := by
    rw [stShndxAt, hfield 6 2 (by norm_num), leVal_stShndx, hndx, Nat.mod_eq_of_lt hn]
  have hvalue : stValueAt (emitElf asExecutable entryPointFn comment text relocs rodataBuf
      stringTable symbolTable) ((sectionNames relocs).indexOf (ascii ".symtab")) k =
      sym.stValue := by
    rw [stValueAt, hfield 8 8 (by norm_num), leVal_stValue, stValue_patchSymbol]
    exact Nat.mod_eq_of_lt (by omega)
  have hsize : stSizeAt (emitElf asExecutable entryPointFn comment text relocs rodataBuf
      stringTable symbolTable) ((sectionNames relocs).indexOf (ascii ".symtab")) k =
      sym.stSize := by
    rw [stSizeAt, hfield 16 8 (by norm_num), leVal_stSize, stSize_patchSymbol]
    exact Nat.mod_eq_of_lt (by omega)
  rw [symbolValue, hshndx, hvalue, hsize]
  rcases Nat.eq_zero_or_pos sym.stSize with h0 | hpos
  · simp [h0, Elf.LittleEndian.slice]
  · rw [shOffsetAt_emitElf asExecutable entryPointFn comment text relocs rodataBuf stringTable
      symbolTable hpr hfile (by rw [hbytes]; exact List.ne_nil_of_length_pos (by omega)),
      slice_of_slice hbytes hin]

/-- **An object's value reads back from the object file.** For every symbol of type
`STT_OBJECT` that `emit_elf` is given whose `[st_value, st_value + st_size)` lies in the
`.rodata` buffer it is given, a reader of the written file who takes the symbol's entry in
`.symtab` and reads `st_size` bytes from `st_value` of the section its `st_shndx` names gets
those bytes of the buffer; when the file's offsets fit in 64 bits. -/
theorem symbolValue_emitElf {k : Nat} {sym : Sym} (hk : symbolTable[k]? = some sym)
    (hobject : ELF64_ST_TYPE sym.stInfo = STT_OBJECT)
    (hin : sym.stValue + sym.stSize ≤ rodataBuf.length)
    (hfile : (emitElf asExecutable entryPointFn comment text relocs rodataBuf stringTable
      symbolTable).length < 2 ^ 64) :
    symbolValue (emitElf asExecutable entryPointFn comment text relocs rodataBuf stringTable
        symbolTable) ((sectionNames relocs).indexOf (ascii ".symtab")) k =
      slice rodataBuf sym.stValue sym.stSize := by
  obtain ⟨pr, hpr, hrodata⟩ := rodata_emitElf asExecutable entryPointFn comment text relocs
    rodataBuf stringTable symbolTable
  exact symbolValue_emitElf_of asExecutable entryPointFn comment text relocs rodataBuf
    stringTable symbolTable hk (by rw [patchSymbol_object hobject, rodataSectionNdx_elfImage])
    (indexOf_sectionNames_lt relocs _) hpr hrodata hin hfile

/-- **A function's code reads back from the object file.** For every symbol of type
`STT_FUNC` that `emit_elf` is given whose `[st_value, st_value + st_size)` lies in the text's
bytes, a reader of the written file who takes the symbol's entry in `.symtab` and reads
`st_size` bytes from `st_value` of the section its `st_shndx` names gets those bytes of the
text; when the file's offsets fit in 64 bits. -/
theorem symbolValue_emitElf_function {k : Nat} {sym : Sym} (hk : symbolTable[k]? = some sym)
    (hfunction : ELF64_ST_TYPE sym.stInfo = STT_FUNC)
    (hin : sym.stValue + sym.stSize ≤ 8 * text.length)
    (hfile : (emitElf asExecutable entryPointFn comment text relocs rodataBuf stringTable
      symbolTable).length < 2 ^ 64) :
    symbolValue (emitElf asExecutable entryPointFn comment text relocs rodataBuf stringTable
        symbolTable) ((sectionNames relocs).indexOf (ascii ".symtab")) k =
      slice (wordBytes text) sym.stValue sym.stSize := by
  obtain ⟨pr, hpr, htext⟩ := text_emitElf asExecutable entryPointFn comment text relocs
    rodataBuf stringTable symbolTable
  exact symbolValue_emitElf_of asExecutable entryPointFn comment text relocs rodataBuf
    stringTable symbolTable hk (by rw [patchSymbol_function hfunction, textSectionNdx_elfImage])
    (indexOf_sectionNames_lt relocs _) hpr htext (by rw [length_wordBytes]; exact hin) hfile

/-! ## The relocation table -/

/-- `.rel`, when `emit_elf` is given relocations: a relocation table of their size, linking
`.symtab` and applying to `.text`, whose bytes are the relocations. -/
theorem rel_emitElf (rs : List Rel) : ∃ pr, (elfImage asExecutable entryPointFn comment text
      (some rs) rodataBuf stringTable symbolTable).pairs[(sectionNames (some rs)).indexOf
        (ascii ".rel")]? = some pr ∧
    pr.sec.shType = SHT_REL ∧ pr.sec.shSize = rs.length * 16 ∧
    pr.sec.shLink = (sectionNames (some rs)).indexOf (ascii ".symtab") ∧
    pr.sec.shInfo = (sectionNames (some rs)).indexOf (ascii ".text") ∧
    slice (emitElf asExecutable entryPointFn comment text (some rs) rodataBuf stringTable
      symbolTable) pr.sec.shOffset pr.sec.shSize = rs.flatMap Rel.bytes := by
  obtain ⟨pr, hpr, hbytes⟩ := section_emitElf asExecutable entryPointFn comment text (some rs)
    rodataBuf stringTable symbolTable ((sectionNames (some rs)).indexOf (ascii ".rel")) 1 rfl rfl
    rfl
  have hfacts := getElem?_elfImage asExecutable entryPointFn comment text (some rs) rodataBuf
    stringTable symbolTable (fun pr => (pr.sec.shType, pr.sec.shSize, pr.sec.shLink, pr.sec.shInfo))
    (fun _ => rfl) ((sectionNames (some rs)).indexOf (ascii ".rel"))
  rw [hpr] at hfacts
  have hvals : some (pr.sec.shType, pr.sec.shSize, pr.sec.shLink, pr.sec.shInfo) =
      some (SHT_REL, rs.length * 16, (sectionNames (some rs)).indexOf (ascii ".symtab"),
        (sectionNames (some rs)).indexOf (ascii ".text")) := hfacts.trans rfl
  simp only [Option.some.injEq, Prod.mk.injEq] at hvals
  obtain ⟨htype, hsize, hlink, hinfo⟩ := hvals
  exact ⟨pr, hpr, htype, hsize, hlink, hinfo, hbytes⟩

/-- **The relocations read back from the object file.** When `emit_elf` is given relocations,
a reader of the written file finds `.rel` as a section of type `SHT_REL`, of sixteen bytes a
relocation, linking `.symtab` and applying to `.text`, and reads entry `j` of it as relocation
`j`, its fields cut to their 64 bits; when the file's offsets fit in 64 bits. -/
theorem relocation_emitElf (rs : List Rel)
    (hfile : (emitElf asExecutable entryPointFn comment text (some rs) rodataBuf stringTable
      symbolTable).length < 2 ^ 64) :
    let file := emitElf asExecutable entryPointFn comment text (some rs) rodataBuf stringTable
      symbolTable
    let i := (sectionNames (some rs)).indexOf (ascii ".rel")
    shTypeAt file i = SHT_REL ∧ shSizeAt file i = 16 * rs.length ∧
      shLinkAt file i = (sectionNames (some rs)).indexOf (ascii ".symtab") ∧
      shInfoAt file i = (sectionNames (some rs)).indexOf (ascii ".text") ∧
      ∀ j rel, rs[j]? = some rel →
        rOffsetAt file i j = rel.rOffset % 2 ^ 64 ∧ rInfoAt file i j = rel.rInfo % 2 ^ 64 := by
  intro file i
  obtain ⟨pr, hpr, htype, hsize, hlink, hinfo, hbytes⟩ := rel_emitElf asExecutable entryPointFn
    comment text rodataBuf stringTable symbolTable rs
  have hrs := length_le_length_of_slice hbytes
  rw [length_flatMap_rel] at hrs
  have hhdr := @field_shdr_emitElf asExecutable entryPointFn comment text (some rs) rodataBuf
    stringTable symbolTable _ pr hpr hfile
  refine ⟨?_, ?_, ?_, ?_, fun j rel hj => ?_⟩
  · rw [shTypeAt, hhdr (by norm_num), leVal_shType, htype]; rfl
  · rw [shSizeAt, hhdr (by norm_num), leVal_shSize, hsize, Nat.mod_eq_of_lt (by omega),
      Nat.mul_comm]
  · rw [shLinkAt, hhdr (by norm_num), leVal_shLink, hlink]; rfl
  · rw [shInfoAt, hhdr (by norm_num), leVal_shInfo, hinfo]; rfl
  · -- entry `j` is relocation `j`'s bytes
    have hoff : shOffsetAt file i = pr.sec.shOffset :=
      shOffsetAt_emitElf asExecutable entryPointFn comment text (some rs) rodataBuf stringTable
        symbolTable hpr hfile
        (by rw [hbytes]; exact flatMap_ne_nil Rel.length_bytes (by norm_num) hj)
    have hr := @field_flatMap Rel Rel.bytes 16 Rel.length_bytes _ _ _ rs hbytes j rel hj 0 8
      (by norm_num)
    have hi := @field_flatMap Rel Rel.bytes 16 Rel.length_bytes _ _ _ rs hbytes j rel hj 8 8
      (by norm_num)
    rw [Nat.add_zero, leVal_rOffset] at hr
    rw [leVal_rInfo] at hi
    rw [rOffsetAt, rInfoAt, relAt, hoff]
    exact ⟨hr, hi⟩

end Image

end ViuaVm.Elf.Symbols
