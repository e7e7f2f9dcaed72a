import ViuaVm.Elf.Symbols

/-! # The object-image reader, as the specification describes it

`viua/vm/elf.h` declares the reader of object images, `Loaded_elf` with `load`,
`find_fragment` and `function_table`; their definitions are not among the sources. Modelled
from the spec (the object-image reader): `load` validates the magic, the file class (64-bit)
and the endianness (little-endian) of `e_ident`, and keys the fragments by section name;
`find_fragment` finds one by name; the function table is derived from the symbol table by
selecting the symbols of function type, and keyed by their offsets in `.text`. Names are read as the strings before their NUL.

What `emit_elf` writes is what this reader reads. Every file it writes loads, one fragment
for each section, in header order and under the section's name (`load_emitElf`); the fragment
found by each name holds the bytes written there (`findFragment_emitElf`). Its function table
is the symbols of type `STT_FUNC` it was given, each at its `st_value` with the name its
`st_name` points at and its `st_size` (`functionEntries_emitElf`); the map it returns finds
at each offset the first of them there (`find?_functionTable`).
-/
namespace ViuaVm.Elf.Loader
open ViuaVm.Arch.Ops ViuaVm.Elf.LittleEndian ViuaVm.Elf.Structs ViuaVm.Elf.Emit
open ViuaVm.Elf.Layout ViuaVm.Elf.Symbols

/-! ## The reader -/

/-- `ELFMAG`, `ELFCLASS64` and `ELFDATA2LSB`: the first six bytes of `e_ident` the reader
accepts. -/
def E_IDENT_ACCEPTED : Bytes := [0x7f, 0x45, 0x4c, 0x46, 2, 1]

/-- A loaded section: the index of its header and its bytes. -/
structure Fragment where
  index : Nat
  data : Bytes
  deriving DecidableEq, Repr

/-- The string that starts at `offset` and ends before the first NUL. -/
def cstringAt (bytes : Bytes) (offset : Nat) : Bytes := (bytes.drop offset).takeWhile (· != 0)

/-- `sh_name` of section header `i`. -/
def shNameAt (file : Bytes) (i : Nat) : Nat := field file (shdrAt file i) 4

/-- The bytes of section `i`: `sh_size` bytes from its `sh_offset`. -/
def sectionData (file : Bytes) (i : Nat) : Bytes := slice file (shOffsetAt file i) (shSizeAt file i)

/-- Modelled from the spec: `Loaded_elf::load`. A file whose `e_ident` is not a little-endian
64-bit ELF one is refused; otherwise each of its `e_shnum` sections is a fragment, keyed by
its name in the section `e_shstrndx` names. -/
def load (file : Bytes) : Option (List (Bytes × Fragment)) :=
  if slice file 0 6 = E_IDENT_ACCEPTED then
    some ((List.range (field file 60 2)).map fun i =>
      (cstringAt (sectionData file (field file 62 2)) (shNameAt file i), ⟨i, sectionData file i⟩))
  else none

/-- Modelled from the spec: `Loaded_elf::find_fragment`, the first fragment of the name. -/
def findFragment (fragments : List (Bytes × Fragment)) (name : Bytes) : Option Fragment :=
  (fragments.find? (·.1 == name)).map (·.2)

/-- What `load` returns for a file whose sections are named `names`: each section under its
name, with its index and the bytes its header points at. -/
def sectionFragments (file : Bytes) (names : List Bytes) : List (Bytes × Fragment) :=
  names.enum.map fun p => (p.2, ⟨p.1, sectionData file p.1⟩)

/-- A symbol, decoded from its `sizeof(Elf64_Sym)` bytes. -/
def decodeSym (entry : Bytes) : Sym :=
  { stName := leVal (slice entry 0 4), stInfo := leVal (slice entry 4 1),
    stOther := leVal (slice entry 5 1), stShndx := leVal (slice entry 6 2),
    stValue := leVal (slice entry 8 8), stSize := leVal (slice entry 16 8) }

/-- The entries of a table of `size`-byte entries. -/
def entries (size : Nat) (data : Bytes) : List Bytes :=
  (List.range (data.length / size)).map fun k => slice data (size * k) size

/-- Modelled from the spec: the `std::map` from text offsets to a function's name and size that
`function_table` returns, as its entries, no offset twice. Only looking an offset up is
modelled, not the order the map iterates in. -/
structure FunctionMap where
  entries : List (Nat × Bytes × Nat)
  nodup : (entries.map Prod.fst).Nodup

namespace FunctionMap

def empty : FunctionMap := ⟨[], List.nodup_nil⟩

/-- `std::map::emplace`: an entry at an offset the map already holds is dropped. -/
def emplace (m : FunctionMap) (offset : Nat) (entry : Bytes × Nat) : FunctionMap :=
  if h : offset ∈ m.entries.map Prod.fst then m
  else ⟨m.entries ++ [(offset, entry)], by
    rw [List.map_append, List.map_singleton]
    exact List.nodup_append.mpr ⟨m.nodup, List.nodup_singleton _, List.disjoint_singleton.mpr h⟩⟩

/-- `std::map::find`: the entry at an offset. -/
def find? (m : FunctionMap) (offset : Nat) : Option (Bytes × Nat) := m.entries.lookup offset

/-- The map of the entries, emplaced in order. -/
def ofList (l : List (Nat × Bytes × Nat)) : FunctionMap :=
  l.foldl (fun m e => m.emplace e.1 e.2) empty

end FunctionMap

/-- The entries `function_table` makes: one for every symbol of `.symtab` of type `STT_FUNC`,
at its `st_value` (already a byte offset in `.text`), with its name in `.strtab` and its
`st_size`, in symbol order. -/
def functionEntries (fragments : List (Bytes × Fragment)) : List (Nat × Bytes × Nat) :=
  match findFragment fragments (ascii ".symtab"), findFragment fragments (ascii ".strtab") with
  | some symtab, some strtab =>
    ((entries 24 symtab.data).map decodeSym).filterMap fun sym =>
      if ELF64_ST_TYPE sym.stInfo = STT_FUNC then
        some (sym.stValue, cstringAt strtab.data sym.stName, sym.stSize)
      else none
  | _, _ => []

/-- Modelled from the spec: `Loaded_elf::function_table`, the function symbols' entries
emplaced in symbol order. Of two function symbols at one offset the map keeps the first; the
spec does not say which. -/
def functionTable (fragments : List (Bytes × Fragment)) : FunctionMap :=
  FunctionMap.ofList (functionEntries fragments)

/-! ## The function map -/

namespace FunctionMap

/-- Emplacing an entry changes what an offset finds only where the map had nothing. -/
theorem find?_emplace (m : FunctionMap) (offset : Nat) (entry : Bytes × Nat) (o : Nat) :
    (m.emplace offset entry).find? o = (m.find? o).or ([(offset, entry)].lookup o) := by
  unfold emplace
  split_ifs with h
  · rcases hfind : m.find? o with _ | e
    · -- `o` finds nothing, so it is not the offset the map holds
      obtain ⟨p, hp, rfl⟩ := List.mem_map.mp h
      have hne : o ≠ p.1 := by simpa using List.lookup_eq_none_iff.mp hfind p hp
      simp [List.lookup, beq_false_of_ne hne]
    · rfl
  · simp only [find?, List.lookup_append]

/-- **The map of a list finds, at each offset, the first entry the list has there.** -/
theorem find?_ofList (l : List (Nat × Bytes × Nat)) (o : Nat) :
    (ofList l).find? o = l.lookup o := by
  suffices h : ∀ m : FunctionMap,
      (l.foldl (fun m e => m.emplace e.1 e.2) m).find? o = (m.find? o).or (l.lookup o) by
    simpa [ofList, find?, empty, List.lookup] using h empty
  induction l with
  | nil => intro m; simp [List.lookup]
  | cons e l ih =>
    intro m
    rw [List.foldl_cons, ih, find?_emplace, Option.or_assoc, ← List.lookup_append]
    rfl

end FunctionMap

/-- The function table finds at an offset the first function symbol's entry there. -/
theorem find?_functionTable (fragments : List (Bytes × Fragment)) (offset : Nat) :
    (functionTable fragments).find? offset = (functionEntries fragments).lookup offset :=
  FunctionMap.find?_ofList _ _

/-- In the entries made from a list, the entry at an offset is the one made from the first
element that makes an entry there. -/
theorem lookup_filterMap {β γ : Type} {g : β → Option (Nat × γ)} {l : List β} {k : Nat} {b : β}
    {o : Nat} {v : γ} (hk : l[k]? = some b) (hg : g b = some (o, v))
    (hbefore : ∀ i < k, ∀ b', l[i]? = some b' → ∀ v', g b' ≠ some (o, v')) :
    (l.filterMap g).lookup o = some v := by
  induction l generalizing k with
  | nil => cases hk
  | cons a l ih =>
    cases k with
    | zero =>
      obtain rfl : a = b := by simpa using hk
      simp [List.filterMap_cons, hg, List.lookup]
    | succ k =>
      rw [List.getElem?_cons_succ] at hk
      have hrest := ih hk fun i hi b' hb' =>
        hbefore (i + 1) (by omega) b' (by rwa [List.getElem?_cons_succ])
      rcases hga : g a with _ | ⟨o', v'⟩
      · simpa [List.filterMap_cons, hga] using hrest
      · have hne : o ≠ o' := fun h => hbefore 0 (Nat.succ_pos _) a (by simp) v' (h ▸ hga)
        simp [List.filterMap_cons, hga, List.lookup, beq_false_of_ne hne, hrest]

/-! ## Reading what was written -/

/-- A name before its NUL reads back, when it holds no NUL itself. -/
theorem cstringAt_of_nameAt {bytes name : Bytes} {offset : Nat} (h : NameAt bytes offset name)
    (hname : 0 ∉ name) : cstringAt bytes offset = name := by
  unfold NameAt at h
  have hdrop : bytes.drop offset = name ++ [0] ++ (bytes.drop offset).drop (name.length + 1) := by
    rw [← h]
    exact (List.take_append_drop _ _).symm
  rw [cstringAt, hdrop, List.append_assoc, List.takeWhile_append_of_pos
    (fun a ha => bne_iff_ne.mpr fun (h0 : a = 0) => hname (h0 ▸ ha))]
  simp

/-- The entries of a table of entries of one size are the entries. -/
theorem entries_flatMap {β : Type} {f : β → Bytes} {size : Nat} (hf : ∀ b, (f b).length = size)
    (hsize : 0 < size) (l : List β) : entries size (l.flatMap f) = l.map f := by
  refine List.ext_getElem? fun k => ?_
  rw [entries, length_flatMap_of_length hf, Nat.mul_div_cancel_left _ hsize, List.getElem?_map,
    List.getElem?_map]
  rcases hk : l[k]? with _ | b
  · rw [List.getElem?_eq_none_iff.mpr
      (by rw [List.length_range]; exact List.getElem?_eq_none_iff.mp hk)]
    rfl
  · rw [List.getElem?_range (List.getElem?_eq_some_iff.mp hk).1, Option.map_some',
      slice_flatMap hf hk]
    rfl

/-- A symbol decodes from its bytes, each field cut to its width. -/
theorem decodeSym_bytes (s : Sym) :
    decodeSym s.bytes = ⟨s.stName % 2 ^ 32, s.stInfo % 2 ^ 8, s.stOther % 2 ^ 8,
      s.stShndx % 2 ^ 16, s.stValue % 2 ^ 64, s.stSize % 2 ^ 64⟩ := by
  have hinfo : s.bytes = leBytes 4 s.stName ++ leBytes 1 s.stInfo ++ (leBytes 1 s.stOther ++
      leBytes 2 s.stShndx ++ leBytes 8 s.stValue ++ leBytes 8 s.stSize) := by
    simp [Sym.bytes]
  have hother : s.bytes = (leBytes 4 s.stName ++ leBytes 1 s.stInfo) ++ leBytes 1 s.stOther ++
      (leBytes 2 s.stShndx ++ leBytes 8 s.stValue ++ leBytes 8 s.stSize) := by
    simp [Sym.bytes]
  simp only [decodeSym, leVal_stName, leVal_stShndx, leVal_stValue, leVal_stSize]
  rw [hinfo, leVal_slice_leBytes (by simp) 1, ← hinfo, hother, leVal_slice_leBytes (by simp) 1]

theorem leVal_eShnum (e : Ehdr) : leVal (slice e.bytes 60 2) = e.eShnum % 2 ^ 16 := by
  have h : e.bytes = (e.eIdent ++ leBytes 2 e.eType ++ leBytes 2 e.eMachine ++
      leBytes 4 e.eVersion ++ leBytes 8 e.eEntry ++ leBytes 8 e.ePhoff ++ leBytes 8 e.eShoff ++
      leBytes 4 e.eFlags ++ leBytes 2 e.eEhsize ++ leBytes 2 e.ePhentsize ++
      leBytes 2 e.ePhnum ++ leBytes 2 e.eShentsize) ++ leBytes 2 e.eShnum ++
      leBytes 2 e.eShstrndx := by
    simp [Ehdr.bytes]
  rw [h]; exact leVal_slice_leBytes (by simp [e.eIdent_length]) 2 _

theorem leVal_eShstrndx (e : Ehdr) : leVal (slice e.bytes 62 2) = e.eShstrndx % 2 ^ 16 := by
  have h : e.bytes = (e.eIdent ++ leBytes 2 e.eType ++ leBytes 2 e.eMachine ++
      leBytes 4 e.eVersion ++ leBytes 8 e.eEntry ++ leBytes 8 e.ePhoff ++ leBytes 8 e.eShoff ++
      leBytes 4 e.eFlags ++ leBytes 2 e.eEhsize ++ leBytes 2 e.ePhentsize ++
      leBytes 2 e.ePhnum ++ leBytes 2 e.eShentsize ++ leBytes 2 e.eShnum) ++
      leBytes 2 e.eShstrndx ++ [] := by
    simp [Ehdr.bytes]
  rw [h]; exact leVal_slice_leBytes (by simp [e.eIdent_length]) 2 _

theorem leVal_shName (s : Shdr) : leVal (slice s.bytes 0 4) = s.shName % 2 ^ 32 := by
  have h : s.bytes = [] ++ leBytes 4 s.shName ++ (leBytes 4 s.shType ++ leBytes 8 s.shFlags ++
      leBytes 8 s.shAddr ++ leBytes 8 s.shOffset ++ leBytes 8 s.shSize ++ leBytes 4 s.shLink ++
      leBytes 4 s.shInfo ++ leBytes 8 s.shAddralign ++ leBytes 8 s.shEntsize) := by
    simp [Shdr.bytes]
  rw [h]; exact leVal_slice_leBytes rfl 4 _

/-- The fragment of a name is the first of that name, and with no two names alike it is the
one at the name's place. -/
theorem findFragment_of_nodup {fragments : List (Bytes × Fragment)}
    (hnodup : (fragments.map Prod.fst).Nodup) {k : Nat} {name : Bytes} {fragment : Fragment}
    (hk : fragments[k]? = some (name, fragment)) : findFragment fragments name = some fragment := by
  induction fragments generalizing k with
  | nil => cases hk
  | cons each fragments ih =>
    rw [List.map_cons, List.nodup_cons] at hnodup
    cases k with
    | zero =>
      obtain rfl : each = (name, fragment) := by simpa using hk
      simp [findFragment]
    | succ k =>
      rw [List.getElem?_cons_succ] at hk
      have hne : each.1 ≠ name := fun h =>
        hnodup.1 (h ▸ List.mem_map_of_mem Prod.fst (List.getElem?_mem hk))
      have hrest := ih hnodup.2 hk
      simp only [findFragment, List.find?_cons, beq_false_of_ne hne] at hrest ⊢
      exact hrest

@[simp] theorem map_fst_sectionFragments (file : Bytes) (names : List Bytes) :
    (sectionFragments file names).map Prod.fst = names := by
  rw [sectionFragments, List.map_map]
  exact List.enum_map_snd names

/-- With no two section names alike, a name finds the section of that name. -/
theorem findFragment_sectionFragments {file : Bytes} {names : List Bytes} (hnodup : names.Nodup)
    {k : Nat} {name : Bytes} (hname : names[k]? = some name) :
    findFragment (sectionFragments file names) name = some ⟨k, sectionData file k⟩ := by
  refine findFragment_of_nodup (k := k) (by rwa [map_fst_sectionFragments]) ?_
  rw [sectionFragments, List.getElem?_map, List.getElem?_enum, hname]
  rfl

/-- The section names `emit_elf` writes hold no NUL and no two are alike, and there are few
enough of them, and of their bytes, for `e_shnum` and `sh_name`. -/
theorem sectionNames_ok (relocs : Option (List Rel)) :
    (∀ name ∈ sectionNames relocs, 0 ∉ name) ∧ (sectionNames relocs).Nodup ∧
      (sectionNames relocs).length < 2 ^ 16 ∧
      ((sectionNames relocs).map (· ++ [0])).flatten.length < 2 ^ 32 := by
  cases relocs with
  | none => decide
  | some rs =>
    rw [show sectionNames (some rs) = sectionNames (some []) from rfl]
    decide

section Image
variable (asExecutable : Bool) (entryPointFn : Option Nat) (comment : Bytes)
  (text : List InstructionType) (relocs : Option (List Rel)) (rodataBuf stringTable : Bytes)
  (symbolTable : List Sym)

/-- The file header is where the file starts. -/
theorem header_prefix_emitElf :
    (elfImage asExecutable entryPointFn comment text relocs rodataBuf stringTable
      symbolTable).header.bytes <+:
      emitElf asExecutable entryPointFn comment text relocs rodataBuf stringTable symbolTable := by
  rw [emitElf_eq, headerBytes, List.append_assoc, List.append_assoc]
  exact List.prefix_append _ _

/-- A field of the file header, read back. -/
theorem field_header_emitElf {offset width : Nat} (hle : offset + width ≤ 64) :
    field (emitElf asExecutable entryPointFn comment text relocs rodataBuf stringTable
        symbolTable) offset width =
      leVal (slice (elfImage asExecutable entryPointFn comment text relocs rodataBuf stringTable
        symbolTable).header.bytes offset width) :=
  congrArg leVal (slice_extend (header_prefix_emitElf asExecutable entryPointFn comment text
    relocs rodataBuf stringTable symbolTable) (by rw [Ehdr.length_bytes]; exact hle))

/-- A section with data that has `n` sections with data before it among the built headers
reads back from its header as payload `n`. -/
theorem sectionData_emitElf (i n : Nat) {payload : Bytes}
    (hdata : ((buildHeaders comment text relocs rodataBuf stringTable symbolTable).pairs[i]?).map
      (fun pr => hasData pr.sec) = some true)
    (hcount : (((buildHeaders comment text relocs rodataBuf stringTable symbolTable).pairs.map
      HeaderPair.sec).take i).countP hasData = n)
    (hpayload : (payloads comment text relocs rodataBuf stringTable
      (symbolTable.map (patchSymbol
        (elfImage asExecutable entryPointFn comment text relocs rodataBuf stringTable
          symbolTable).textSectionNdx
        (elfImage asExecutable entryPointFn comment text relocs rodataBuf stringTable
          symbolTable).rodataSectionNdx))
      (elfImage asExecutable entryPointFn comment text relocs rodataBuf stringTable
        symbolTable).shstr)[n]? = some payload)
    (hfile : (emitElf asExecutable entryPointFn comment text relocs rodataBuf stringTable
      symbolTable).length < 2 ^ 64) :
    sectionData (emitElf asExecutable entryPointFn comment text relocs rodataBuf stringTable
      symbolTable) i = payload := by
  obtain ⟨pr, hpr, hbytes⟩ := section_emitElf asExecutable entryPointFn comment text relocs
    rodataBuf stringTable symbolTable i n hdata hcount hpayload
  have hd : hasData pr.sec = true := by
    have h := getElem?_elfImage asExecutable entryPointFn comment text relocs rodataBuf
      stringTable symbolTable (fun pr => hasData pr.sec) (fun _ => rfl) i
    rw [hpr, hdata] at h
    exact Option.some.inj h
  have hsize := shSize_section_emitElf asExecutable entryPointFn comment text relocs rodataBuf
    stringTable symbolTable hpr hd hcount hpayload
  have hlen := length_le_length_of_slice hbytes
  rw [sectionData, shSizeAt, field_shdr_emitElf asExecutable entryPointFn comment text relocs
    rodataBuf stringTable symbolTable hpr hfile (by norm_num), leVal_shSize, hsize,
    Nat.mod_eq_of_lt (by omega)]
  exact slice_shOffsetAt_emitElf asExecutable entryPointFn comment text relocs rodataBuf
    stringTable symbolTable hpr hbytes hfile

/-- `e_ident` as `emit_elf` writes it passes the loader's check. -/
theorem ident_emitElf :
    slice (emitElf asExecutable entryPointFn comment text relocs rodataBuf stringTable
      symbolTable) 0 6 = E_IDENT_ACCEPTED := by
  have h : (elfImage asExecutable entryPointFn comment text relocs rodataBuf stringTable
      symbolTable).header.eIdent = E_IDENT := rfl
  rw [slice_extend (header_prefix_emitElf asExecutable entryPointFn comment text relocs rodataBuf
    stringTable symbolTable) (by simp)]
  simp only [Ehdr.bytes, List.append_assoc, Elf.LittleEndian.slice, List.drop_zero, h]
  rw [List.take_append_of_le_length (by decide)]
  rfl

/-- `e_shnum` reads back as the number of section names. -/
theorem field_eShnum_emitElf :
    field (emitElf asExecutable entryPointFn comment text relocs rodataBuf stringTable
      symbolTable) 60 2 = (sectionNames relocs).length := by
  rw [field_header_emitElf asExecutable entryPointFn comment text relocs rodataBuf stringTable
    symbolTable (by norm_num), leVal_eShnum, ← (elfImage_counts asExecutable entryPointFn comment
    text relocs rodataBuf stringTable symbolTable).2, (emitElf_consistent asExecutable
    entryPointFn comment text relocs rodataBuf stringTable symbolTable).shNames.1,
    Nat.mod_eq_of_lt (sectionNames_ok relocs).2.2.1]

/-- `e_shstrndx` reads back as the index of `.shstrtab`. -/
theorem field_eShstrndx_emitElf :
    field (emitElf asExecutable entryPointFn comment text relocs rodataBuf stringTable
      symbolTable) 62 2 = (sectionNames relocs).indexOf (ascii ".shstrtab") := by
  rw [field_header_emitElf asExecutable entryPointFn comment text relocs rodataBuf stringTable
    symbolTable (by norm_num), leVal_eShstrndx, (emitElf_consistent asExecutable entryPointFn
    comment text relocs rodataBuf stringTable symbolTable).shstrndx.1,
    Nat.mod_eq_of_lt (indexOf_sectionNames_lt _ _)]

/-- `.shstrtab` reads back as the names `save_shstr_entry` saved. -/
theorem shstrtab_emitElf (hfile : (emitElf asExecutable entryPointFn comment text relocs rodataBuf
      stringTable symbolTable).length < 2 ^ 64) :
    sectionData (emitElf asExecutable entryPointFn comment text relocs rodataBuf stringTable
        symbolTable) ((sectionNames relocs).indexOf (ascii ".shstrtab")) =
      (elfImage asExecutable entryPointFn comment text relocs rodataBuf stringTable
        symbolTable).shstr :=
  sectionData_emitElf asExecutable entryPointFn comment text relocs rodataBuf stringTable
    symbolTable _ (6 + (relocs.map fun _ => 1).getD 0) (by cases relocs <;> rfl)
    (by cases relocs <;> rfl) (by cases relocs <;> rfl) hfile

/-- Section `k`'s `sh_name` reads back, and points at its name in `.shstrtab`. -/
theorem cstringAt_shNameAt_emitElf (hfile : (emitElf asExecutable entryPointFn comment text relocs
      rodataBuf stringTable symbolTable).length < 2 ^ 64) {k : Nat} {name : Bytes}
    (hname : (sectionNames relocs)[k]? = some name) :
    cstringAt (elfImage asExecutable entryPointFn comment text relocs rodataBuf stringTable
        symbolTable).shstr
      (shNameAt (emitElf asExecutable entryPointFn comment text relocs rodataBuf stringTable
        symbolTable) k) = name := by
  have hc := emitElf_consistent asExecutable entryPointFn comment text relocs rodataBuf
    stringTable symbolTable
  obtain ⟨pr, hpr⟩ : ∃ pr, (elfImage asExecutable entryPointFn comment text relocs rodataBuf
      stringTable symbolTable).pairs[k]? = some pr :=
    ⟨_, List.getElem?_eq_getElem
      (by rw [hc.shNames.1]; exact (List.getElem?_eq_some_iff.mp hname).1)⟩
  have hslice := hc.shNames.2 k pr name hpr hname
  have hin := lt_length_of_slice hslice (by simp)
  have hshstr : (elfImage asExecutable entryPointFn comment text relocs rodataBuf stringTable
      symbolTable).shstr.length < 2 ^ 32 := by
    rw [show (elfImage asExecutable entryPointFn comment text relocs rodataBuf stringTable
      symbolTable).shstr = _ from shstr_buildHeaders comment text relocs rodataBuf stringTable
      symbolTable]
    exact (sectionNames_ok relocs).2.2.2
  rw [shNameAt, ← Nat.add_zero (shdrAt _ k), field_shdr_emitElf asExecutable entryPointFn comment
    text relocs rodataBuf stringTable symbolTable hpr hfile (by norm_num), leVal_shName,
    Nat.mod_eq_of_lt (by omega)]
  exact cstringAt_of_nameAt hslice ((sectionNames_ok relocs).1 name (List.getElem?_mem hname))

/-- **Every file `emit_elf` writes loads**: the fragments are its sections, in header order,
each under its name and holding what its header points at. -/
theorem load_emitElf (hfile : (emitElf asExecutable entryPointFn comment text relocs rodataBuf
      stringTable symbolTable).length < 2 ^ 64) :
    load (emitElf asExecutable entryPointFn comment text relocs rodataBuf stringTable
        symbolTable) =
      some (sectionFragments (emitElf asExecutable entryPointFn comment text relocs rodataBuf
        stringTable symbolTable) (sectionNames relocs)) := by
  rw [load, if_pos (ident_emitElf ..), field_eShnum_emitElf, field_eShstrndx_emitElf,
    shstrtab_emitElf asExecutable entryPointFn comment text relocs rodataBuf stringTable
      symbolTable hfile]
  refine congrArg some (List.ext_getElem? fun k => ?_)
  rw [sectionFragments, List.getElem?_map, List.getElem?_map, List.getElem?_enum]
  rcases hname : (sectionNames relocs)[k]? with _ | name
  · rw [List.getElem?_eq_none_iff.mpr (by simpa using List.getElem?_eq_none_iff.mp hname)]
    rfl
  · rw [List.getElem?_range (List.getElem?_eq_some_iff.mp hname).1, Option.map_some',
      cstringAt_shNameAt_emitElf asExecutable entryPointFn comment text relocs rodataBuf
        stringTable symbolTable hfile hname]
    rfl

/-- In the loaded file, a section with data is found by its name and holds its payload. -/
theorem findFragment_section_emitElf (name : Bytes) (n : Nat) (payload : Bytes)
    (hname : (sectionNames relocs)[(sectionNames relocs).indexOf name]? = some name)
    (hdata : ((buildHeaders comment text relocs rodataBuf stringTable
      symbolTable).pairs[(sectionNames relocs).indexOf name]?).map (fun pr => hasData pr.sec) =
        some true)
    (hcount : (((buildHeaders comment text relocs rodataBuf stringTable symbolTable).pairs.map
      HeaderPair.sec).take ((sectionNames relocs).indexOf name)).countP hasData = n)
    (hpayload : (payloads comment text relocs rodataBuf stringTable
      (symbolTable.map (patchSymbol
        (elfImage asExecutable entryPointFn comment text relocs rodataBuf stringTable
          symbolTable).textSectionNdx
        (elfImage asExecutable entryPointFn comment text relocs rodataBuf stringTable
          symbolTable).rodataSectionNdx))
      (elfImage asExecutable entryPointFn comment text relocs rodataBuf stringTable
        symbolTable).shstr)[n]? = some payload)
    (hfile : (emitElf asExecutable entryPointFn comment text relocs rodataBuf stringTable
      symbolTable).length < 2 ^ 64) :
    findFragment (sectionFragments (emitElf asExecutable entryPointFn comment text relocs
      rodataBuf stringTable symbolTable) (sectionNames relocs)) name =
      some ⟨(sectionNames relocs).indexOf name, payload⟩ := by
  rw [findFragment_sectionFragments (sectionNames_ok relocs).2.1 hname, sectionData_emitElf
    asExecutable entryPointFn comment text relocs rodataBuf stringTable symbolTable _ n hdata
    hcount hpayload hfile]

/-- `.text` is found by its name and holds the text's words. -/
theorem findFragment_text_emitElf (hfile : (emitElf asExecutable entryPointFn comment text relocs
      rodataBuf stringTable symbolTable).length < 2 ^ 64) :
    findFragment (sectionFragments (emitElf asExecutable entryPointFn comment text relocs
        rodataBuf stringTable symbolTable) (sectionNames relocs)) (ascii ".text") =
      some ⟨(sectionNames relocs).indexOf (ascii ".text"), wordBytes text⟩ :=
  findFragment_section_emitElf asExecutable entryPointFn comment text relocs rodataBuf
    stringTable symbolTable (ascii ".text") (1 + (relocs.map fun _ => 1).getD 0) (wordBytes text)
    (by cases relocs <;> rfl) (by cases relocs <;> rfl) (by cases relocs <;> rfl)
    (by cases relocs <;> rfl) hfile

/-- **Every file `emit_elf` writes loads, and each section is found by its name.** For every
input whose file's offsets fit in 64 bits, the loader accepts the file, its fragments carry the
section names in header order, and the fragment found by each name holds what `emit_elf`
wrote there: the text's words, `.rodata`, the comment and its NUL, the symbols as patched, the
string table and, when there are relocations, their entries. -/
theorem findFragment_emitElf (hfile : (emitElf asExecutable entryPointFn comment text relocs
      rodataBuf stringTable symbolTable).length < 2 ^ 64) :
    ∃ fragments, load (emitElf asExecutable entryPointFn comment text relocs rodataBuf
        stringTable symbolTable) = some fragments ∧
      fragments.map Prod.fst = sectionNames relocs ∧
      (findFragment fragments (ascii ".text")).map Fragment.data = some (wordBytes text) ∧
      (findFragment fragments (ascii ".rodata")).map Fragment.data = some rodataBuf ∧
      (findFragment fragments (ascii ".comment")).map Fragment.data = some (comment ++ [0]) ∧
      (findFragment fragments (ascii ".symtab")).map Fragment.data =
        some ((symbolTable.map (patchSymbol
          (elfImage asExecutable entryPointFn comment text relocs rodataBuf stringTable
            symbolTable).textSectionNdx
          (elfImage asExecutable entryPointFn comment text relocs rodataBuf stringTable
            symbolTable).rodataSectionNdx)).flatMap Sym.bytes) ∧
      (findFragment fragments (ascii ".strtab")).map Fragment.data = some stringTable ∧
      ∀ rs, relocs = some rs →
        (findFragment fragments (ascii ".rel")).map Fragment.data = some (rs.flatMap Rel.bytes) := by
  refine ⟨_, load_emitElf asExecutable entryPointFn comment text relocs rodataBuf stringTable
    symbolTable hfile, map_fst_sectionFragments _ _, ?text, ?rodata, ?comment, ?symtab, ?strtab,
    ?rel⟩
  case text =>
    rw [findFragment_text_emitElf asExecutable entryPointFn comment text relocs rodataBuf
      stringTable symbolTable hfile]
    rfl
  case rodata =>
    rw [findFragment_section_emitElf asExecutable entryPointFn comment text relocs rodataBuf
      stringTable symbolTable (ascii ".rodata") (2 + (relocs.map fun _ => 1).getD 0) rodataBuf
      (by cases relocs <;> rfl) (by cases relocs <;> rfl) (by cases relocs <;> rfl)
      (by cases relocs <;> rfl) hfile]
    rfl
  case comment =>
    rw [findFragment_section_emitElf asExecutable entryPointFn comment text relocs rodataBuf
      stringTable symbolTable (ascii ".comment") (3 + (relocs.map fun _ => 1).getD 0)
      (comment ++ [0]) (by cases relocs <;> rfl) (by cases relocs <;> rfl)
      (by cases relocs <;> rfl) (by cases relocs <;> rfl) hfile]
    rfl
  case symtab =>
    rw [findFragment_section_emitElf asExecutable entryPointFn comment text relocs rodataBuf
      stringTable symbolTable (ascii ".symtab") (4 + (relocs.map fun _ => 1).getD 0)
      ((symbolTable.map (patchSymbol
        (elfImage asExecutable entryPointFn comment text relocs rodataBuf stringTable
          symbolTable).textSectionNdx
        (elfImage asExecutable entryPointFn comment text relocs rodataBuf stringTable
          symbolTable).rodataSectionNdx)).flatMap Sym.bytes)
      (by cases relocs <;> rfl) (by cases relocs <;> rfl) (by cases relocs <;> rfl)
      (by cases relocs <;> rfl) hfile]
    rfl
  case strtab =>
    rw [findFragment_section_emitElf asExecutable entryPointFn comment text relocs rodataBuf
      stringTable symbolTable (ascii ".strtab") (5 + (relocs.map fun _ => 1).getD 0) stringTable
      (by cases relocs <;> rfl) (by cases relocs <;> rfl) (by cases relocs <;> rfl)
      (by cases relocs <;> rfl) hfile]
    rfl
  case rel =>
    rintro rs rfl
    rw [findFragment_section_emitElf asExecutable entryPointFn comment text (some rs) rodataBuf
      stringTable symbolTable (ascii ".rel") 1 _ rfl rfl rfl rfl hfile]
    rfl

set_option maxRecDepth 8000 in
/-- A file with one word of text, the bytes `42` in `.rodata` and an empty relocation table
loads, and its sections are found by their names. -/
theorem findFragment_emitElf_sample :
    (emitElf false none [] [0] (some []) (ascii "42") [0] []).length < 2 ^ 64 ∧
    ∃ fragments, load (emitElf false none [] [0] (some []) (ascii "42") [0] []) = some fragments ∧
      fragments.map Prod.fst = sectionNames (some []) ∧
      (findFragment fragments (ascii ".text")).map Fragment.data = some (wordBytes [0]) ∧
      (findFragment fragments (ascii ".rodata")).map Fragment.data = some (ascii "42") ∧
      (findFragment fragments (ascii ".comment")).map Fragment.data = some ([] ++ [0]) ∧
      (findFragment fragments (ascii ".symtab")).map Fragment.data =
        some ((([] : List Sym).map (patchSymbol
          (elfImage false none [] [0] (some []) (ascii "42") [0] []).textSectionNdx
          (elfImage false none [] [0] (some []) (ascii "42") [0] []).rodataSectionNdx)).flatMap
          Sym.bytes) ∧
      (findFragment fragments (ascii ".strtab")).map Fragment.data = some [0] ∧
      ∀ rs, some [] = some rs →
        (findFragment fragments (ascii ".rel")).map Fragment.data = some (rs.flatMap Rel.bytes) :=
  ⟨by decide, findFragment_emitElf false none [] [0] (some []) (ascii "42") [0] [] (by decide)⟩

/-- The function entries of a file `emit_elf` wrote are the symbols of type `STT_FUNC` it was
given, in order, each with its value, its name read from the string table and its size, as
wide as their fields. -/
theorem functionEntries_emitElf (hfile : (emitElf asExecutable entryPointFn comment text relocs
      rodataBuf stringTable symbolTable).length < 2 ^ 64) :
    functionEntries (sectionFragments (emitElf asExecutable entryPointFn comment text relocs
        rodataBuf stringTable symbolTable) (sectionNames relocs)) =
      symbolTable.filterMap fun sym => if ELF64_ST_TYPE sym.stInfo = STT_FUNC then
        some (sym.stValue % 2 ^ 64, cstringAt stringTable (sym.stName % 2 ^ 32),
          sym.stSize % 2 ^ 64) else none := by
  rw [functionEntries, findFragment_section_emitElf asExecutable entryPointFn comment text relocs
      rodataBuf stringTable symbolTable (ascii ".symtab") (4 + (relocs.map fun _ => 1).getD 0)
      ((symbolTable.map (patchSymbol
        (elfImage asExecutable entryPointFn comment text relocs rodataBuf stringTable
          symbolTable).textSectionNdx
        (elfImage asExecutable entryPointFn comment text relocs rodataBuf stringTable
          symbolTable).rodataSectionNdx)).flatMap Sym.bytes)
      (by cases relocs <;> rfl) (by cases relocs <;> rfl) (by cases relocs <;> rfl)
      (by cases relocs <;> rfl) hfile,
    findFragment_section_emitElf asExecutable entryPointFn comment text relocs rodataBuf
      stringTable symbolTable (ascii ".strtab") (5 + (relocs.map fun _ => 1).getD 0) stringTable
      (by cases relocs <;> rfl) (by cases relocs <;> rfl) (by cases relocs <;> rfl)
      (by cases relocs <;> rfl) hfile]
  dsimp only
  rw [entries_flatMap Sym.length_bytes (by norm_num), List.map_map, List.filterMap_map,
    List.filterMap_map]
  refine congrArg (List.filterMap · symbolTable) (funext fun sym => ?_)
  -- `st_info` is a byte, and the type is its low four bits
  simp only [Function.comp_apply, decodeSym_bytes, stInfo_patchSymbol, stName_patchSymbol,
    stValue_patchSymbol, stSize_patchSymbol, ELF64_ST_TYPE,
    Nat.mod_mod_of_dvd sym.stInfo (by norm_num : 16 ∣ 2 ^ 8)]

end Image

end ViuaVm.Elf.Loader
