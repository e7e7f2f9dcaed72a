import ViuaVm.Elf.Emit

/-! # The image `emit_elf` writes is self-consistent

The file is the headers followed by the payloads (`emitElf_eq`), and the header bytes are
`elf_size` long (`length_headerBytes`), so the offset loop's spans (`placeHeaders_spans`)
are where the payloads are. The rest is about the headers `buildHeaders` makes, whatever
the input: which sections have data and how large (`sizes_buildHeaders`), their names in
`.shstrtab` (`shstr_buildHeaders`, `shName_buildHeaders`), and the indices they link.
-/
namespace ViuaVm.Elf.Layout
open ViuaVm.Elf.LittleEndian ViuaVm.Elf.Structs ViuaVm.Elf.Emit ViuaVm.Arch.Ops

/-- The names `emit_elf` saves to `.shstrtab`, one per section header, in order; the void
section's is the empty string at offset 0. -/
def sectionNames (relocs : Option (List Rel)) : List Bytes :=
  [[], ascii ".viua.magic", ascii ".interp"] ++
    (if relocs.isSome then [ascii ".rel"] else []) ++
    [ascii ".text", ascii ".rodata", ascii ".comment", ascii ".symtab", ascii ".strtab",
      ascii ".shstrtab"]

/-- The payloads of the sections with data, in the order `emit_elf` writes them. -/
def payloads (comment : Bytes) (text : List InstructionType) (relocs : Option (List Rel))
    (rodataBuf stringTable : Bytes) (symbols : List Sym) (shstr : Bytes) : List Bytes :=
  [VIUAVM_INTERP ++ [0]] ++ (relocs.map fun rs => [rs.flatMap Rel.bytes]).getD [] ++
    [wordBytes text, rodataBuf, comment ++ [0], symbols.flatMap Sym.bytes, stringTable, shstr]

/-- The file header and the two header tables. -/
def headerBytes (im : Image) : Bytes :=
  im.header.bytes ++ (im.pairs.filterMap HeaderPair.seg).flatMap Phdr.bytes ++
    im.pairs.flatMap fun pr => pr.sec.bytes

theorem getLast?_payloads (comment : Bytes) (text : List InstructionType)
    (relocs : Option (List Rel)) (rodataBuf stringTable : Bytes) (symbols : List Sym)
    (shstr : Bytes) :
    (payloads comment text relocs rodataBuf stringTable symbols shstr).getLast? = some shstr := by
  cases relocs <;> simp [payloads]

/-- The program header table is after the file header. -/
theorem slice_phdrs (im : Image) (rest : Bytes) :
    slice (headerBytes im ++ rest) 64 ((im.pairs.filterMap HeaderPair.seg).length * 56) =
      (im.pairs.filterMap HeaderPair.seg).flatMap Phdr.bytes := by
  rw [headerBytes, List.append_assoc]
  exact slice_append_of_length (Ehdr.length_bytes _) (by rw [length_flatMap_phdr, Nat.mul_comm])

/-- The section header table is after the program header table. -/
theorem slice_shdrs (im : Image) (rest : Bytes) :
    slice (headerBytes im ++ rest) (64 + (im.pairs.filterMap HeaderPair.seg).length * 56)
      (im.pairs.length * 64) = im.pairs.flatMap fun pr => pr.sec.bytes := by
  rw [headerBytes]
  exact slice_append_of_length
    (by rw [List.length_append, Ehdr.length_bytes, length_flatMap_phdr, Nat.mul_comm])
    (by simp [length_flatMap_of_length (fun pr : HeaderPair => Shdr.length_bytes pr.sec),
      Nat.mul_comm])

section Build
variable (comment : Bytes) (text : List InstructionType) (relocs : Option (List Rel))
  (rodataBuf stringTable : Bytes) (symbolTable : List Sym)

/-- `.shstrtab` is the section names, each followed by a NUL. -/
theorem shstr_buildHeaders :
    (buildHeaders comment text relocs rodataBuf stringTable symbolTable).shstr =
      ((sectionNames relocs).map (· ++ [0])).flatten := by
  cases relocs <;> rfl

/-- Each `sh_name` is where `save_shstr_entry` put the section's name. -/
theorem shName_buildHeaders :
    (buildHeaders comment text relocs rodataBuf stringTable symbolTable).pairs.map
        (fun pr => pr.sec.shName) =
      (spans 0 (((sectionNames relocs).map (· ++ [0])).map List.length)).map Prod.fst := by
  cases relocs <;> rfl

theorem length_buildHeaders :
    (buildHeaders comment text relocs rodataBuf stringTable symbolTable).pairs.length =
      (sectionNames relocs).length := by
  cases relocs <;> rfl

/-- The sections with data are the payloads' sizes, whatever the symbols are patched to. -/
theorem sizes_buildHeaders {symbols : List Sym} (hs : symbols.length = symbolTable.length) :
    (dataSections (buildHeaders comment text relocs rodataBuf stringTable symbolTable).pairs).map
        Shdr.shSize =
      (payloads comment text relocs rodataBuf stringTable symbols
        (buildHeaders comment text relocs rodataBuf stringTable symbolTable).shstr).map
        List.length := by
  cases relocs <;>
    simp [buildHeaders, dataSections, payloads, hasData, patchSection, SHT_NULL, SHT_NOBITS,
      SHT_PROGBITS, SHT_REL, SHT_SYMTAB, SHT_STRTAB, hs, -List.length_flatMap] <;>
    omega

/-- A pair whose segment is not `PT_NULL` has data, as large as the segment. -/
def SegmentOk (pr : HeaderPair) : Prop :=
  ∀ p, pr.seg = some p → p.pType ≠ PT_NULL → hasData pr.sec ∧ p.pFilesz = pr.sec.shSize

theorem segmentOk_buildHeaders :
    ∀ pr ∈ (buildHeaders comment text relocs rodataBuf stringTable symbolTable).pairs,
      SegmentOk pr := by
  cases relocs <;>
    simp [SegmentOk, buildHeaders, patchSection, hasData, PT_NULL, PT_INTERP, PT_LOAD, SHT_NULL,
      SHT_NOBITS, SHT_PROGBITS]

/-- The only executable segment is `.text`'s. -/
theorem executable_buildHeaders :
    ((buildHeaders comment text relocs rodataBuf stringTable symbolTable).pairs.map
        fun pr => executable pr.seg) =
      (sectionNames relocs).map fun name => name == ascii ".text" := by
  cases relocs <;> rfl

/-- The links `emit_elf` patches in, and the symbol entry size. -/
theorem links_buildHeaders :
    ((buildHeaders comment text relocs rodataBuf stringTable symbolTable).pairs.map
        fun pr => (pr.sec.shLink, pr.sec.shInfo, pr.sec.shEntsize)) =
      (sectionNames relocs).map fun name =>
        if name = ascii ".symtab" then ((sectionNames relocs).indexOf (ascii ".strtab"), 0, 24)
        else if name = ascii ".rel" then
          ((sectionNames relocs).indexOf (ascii ".symtab"),
            (sectionNames relocs).indexOf (ascii ".text"), 16)
        else (0, 0, 0) := by
  cases relocs <;> rfl

end Build

/-! ## From the built headers to the written ones -/

/-- What does not read an offset is the same after the offset loop. -/
theorem placeHeaders_map {β : Type} (g : HeaderPair → β) (hg : ∀ pr, g pr.erase = g pr)
    (elfSize acc : Nat) (textOffset : Option Nat) (pairs : List HeaderPair) :
    (placeHeaders elfSize acc textOffset pairs).1.map g = pairs.map g := by
  have h := congrArg (List.map g) (placeHeaders_erase elfSize acc textOffset pairs)
  simpa only [List.map_map, Function.comp_def, hg] using h

theorem segmentOk_erase (pr : HeaderPair) : SegmentOk pr.erase ↔ SegmentOk pr := by
  obtain ⟨_ | p, sec⟩ := pr
  · simp [SegmentOk, HeaderPair.erase]
  · simp [SegmentOk, HeaderPair.erase, hasData]

section Image
variable (asExecutable : Bool) (entryPointFn : Option Nat) (comment : Bytes)
  (text : List InstructionType) (relocs : Option (List Rel)) (rodataBuf stringTable : Bytes)
  (symbolTable : List Sym)

theorem elfImage_pairs :
    (elfImage asExecutable entryPointFn comment text relocs rodataBuf stringTable
        symbolTable).pairs =
      (placeHeaders (elfImage asExecutable entryPointFn comment text relocs rodataBuf stringTable
        symbolTable).elfSize 0 none
        (buildHeaders comment text relocs rodataBuf stringTable symbolTable).pairs).1 := rfl

theorem elfImage_ePhoff :
    (elfImage asExecutable entryPointFn comment text relocs rodataBuf stringTable
        symbolTable).header.ePhoff = 64 := rfl

theorem elfImage_eShoff :
    (elfImage asExecutable entryPointFn comment text relocs rodataBuf stringTable
        symbolTable).header.eShoff =
      64 + (elfImage asExecutable entryPointFn comment text relocs rodataBuf stringTable
        symbolTable).header.ePhnum * 56 := rfl

/-- `elf_size` counts the file header and the two tables. -/
theorem elfImage_elfSize :
    (elfImage asExecutable entryPointFn comment text relocs rodataBuf stringTable
        symbolTable).elfSize =
      64 + (elfImage asExecutable entryPointFn comment text relocs rodataBuf stringTable
        symbolTable).header.ePhnum * 56 +
      (elfImage asExecutable entryPointFn comment text relocs rodataBuf stringTable
        symbolTable).header.eShnum * 64 := rfl

/-- The written pairs agree with the built ones on whatever does not read an offset. -/
theorem elfImage_map {β : Type} (g : HeaderPair → β) (hg : ∀ pr, g pr.erase = g pr) :
    (elfImage asExecutable entryPointFn comment text relocs rodataBuf stringTable
        symbolTable).pairs.map g =
      (buildHeaders comment text relocs rodataBuf stringTable symbolTable).pairs.map g := by
  rw [elfImage_pairs]; exact placeHeaders_map g hg _ _ _ _

/-- The written image has as many program and section headers as were built. -/
theorem elfImage_counts :
    ((elfImage asExecutable entryPointFn comment text relocs rodataBuf stringTable
        symbolTable).pairs.filterMap HeaderPair.seg).length =
      (elfImage asExecutable entryPointFn comment text relocs rodataBuf stringTable
        symbolTable).header.ePhnum ∧
    (elfImage asExecutable entryPointFn comment text relocs rodataBuf stringTable
        symbolTable).pairs.length =
      (elfImage asExecutable entryPointFn comment text relocs rodataBuf stringTable
        symbolTable).header.eShnum := by
  have hseg := congrArg (List.countP id) (elfImage_map asExecutable entryPointFn comment text
    relocs rodataBuf stringTable symbolTable (fun pr => pr.seg.isSome)
    (fun pr => by cases pr; simp [HeaderPair.erase]))
  have hlen := congrArg List.length (elfImage_map asExecutable entryPointFn comment text relocs
    rodataBuf stringTable symbolTable (fun _ => ()) (fun _ => rfl))
  simp only [List.countP_map, List.length_map] at hseg hlen
  exact ⟨by rw [List.length_filterMap_eq_countP]
            exact hseg.trans (List.length_filterMap_eq_countP _ _).symm, hlen⟩

theorem length_headerBytes :
    (headerBytes (elfImage asExecutable entryPointFn comment text relocs rodataBuf stringTable
      symbolTable)).length =
      (elfImage asExecutable entryPointFn comment text relocs rodataBuf stringTable
        symbolTable).elfSize := by
  obtain ⟨hp, hs⟩ := elfImage_counts asExecutable entryPointFn comment text relocs rodataBuf
    stringTable symbolTable
  simp only [headerBytes, List.length_append, Ehdr.length_bytes, length_flatMap_phdr,
    length_flatMap_of_length (fun pr : HeaderPair => Shdr.length_bytes pr.sec), hp, hs,
    elfImage_elfSize]
  ring

theorem elfImage_eEntry :
    (elfImage asExecutable entryPointFn comment text relocs rodataBuf stringTable
        symbolTable).header.eEntry =
      match entryPointFn with
      | some entry =>
        (placeHeaders (elfImage asExecutable entryPointFn comment text relocs rodataBuf
          stringTable symbolTable).elfSize 0 none
          (buildHeaders comment text relocs rodataBuf stringTable symbolTable).pairs).2.getD 0 +
          entry + (elfImage asExecutable entryPointFn comment text relocs rodataBuf stringTable
            symbolTable).elfSize
      | none => 0 := rfl

/-- **The file is the headers followed by the payloads.** -/
theorem emitElf_eq :
    emitElf asExecutable entryPointFn comment text relocs rodataBuf stringTable symbolTable =
      headerBytes (elfImage asExecutable entryPointFn comment text relocs rodataBuf stringTable
        symbolTable) ++
      (payloads comment text relocs rodataBuf stringTable
        (symbolTable.map (patchSymbol
          (elfImage asExecutable entryPointFn comment text relocs rodataBuf stringTable
            symbolTable).textSectionNdx
          (elfImage asExecutable entryPointFn comment text relocs rodataBuf stringTable
            symbolTable).rodataSectionNdx))
        (elfImage asExecutable entryPointFn comment text relocs rodataBuf stringTable
          symbolTable).shstr).flatten := by
  cases relocs <;> simp [emitElf, headerBytes, payloads]

/-- Every written pair whose segment is not `PT_NULL` has data, as large as the segment. -/
theorem segmentOk_elfImage :
    ∀ pr ∈ (elfImage asExecutable entryPointFn comment text relocs rodataBuf stringTable
      symbolTable).pairs, SegmentOk pr := by
  intro pr hpr
  have hmem : pr.erase ∈ (buildHeaders comment text relocs rodataBuf stringTable
      symbolTable).pairs.map HeaderPair.erase := by
    rw [← elfImage_map asExecutable entryPointFn comment text relocs rodataBuf stringTable
      symbolTable HeaderPair.erase HeaderPair.erase_erase]
    exact List.mem_map_of_mem _ hpr
  obtain ⟨pr0, h0, he⟩ := List.mem_map.mp hmem
  rw [← segmentOk_erase, ← he, segmentOk_erase]
  exact segmentOk_buildHeaders comment text relocs rodataBuf stringTable symbolTable pr0 h0

end Image

/-! ## What a reader of the file can rely on -/

/-- The properties of an image `file` with headers `im`, section names `names` and section
payloads `payloads` that a reader of the file relies on. -/
structure Consistent (file : Bytes) (im : Image) (names payloads : List Bytes)
    (entryPointFn : Option Nat) : Prop where
  /-- `e_phoff` is where the program headers are. -/
  phdrs : im.header.ePhoff = 64 ∧
    slice file im.header.ePhoff (im.header.ePhnum * 56) =
      (im.pairs.filterMap HeaderPair.seg).flatMap Phdr.bytes
  /-- `e_shoff` is where the section headers are. -/
  shdrs : slice file im.header.eShoff (im.header.eShnum * 64) =
    im.pairs.flatMap fun pr => pr.sec.bytes
  /-- Each section with data holds its payload. -/
  sections : (dataSections im.pairs).map (fun s => slice file s.shOffset s.shSize) = payloads
  /-- They lie end to end, in header order, and the last one ends the file. -/
  contiguous : ∃ base, (dataSections im.pairs).map (fun s => (s.shOffset, s.shSize)) =
      spans base (payloads.map List.length) ∧ base + (payloads.map List.length).sum = file.length
  /-- A segment that is not `PT_NULL` is its section's bytes. -/
  segments : ∀ pr ∈ im.pairs, ∀ p, pr.seg = some p → p.pType ≠ PT_NULL →
    p.pOffset = pr.sec.shOffset ∧ p.pFilesz = pr.sec.shSize
  /-- Every `sh_name` is the offset of its section's NUL-terminated name in `.shstrtab`. -/
  shNames : im.pairs.length = names.length ∧ ∀ (k : Nat) (pr : HeaderPair) name,
    im.pairs[k]? = some pr →
    names[k]? = some name → slice im.shstr pr.sec.shName (name.length + 1) = name ++ [0]
  /-- `e_shstrndx` is `.shstrtab`'s index, and its payload is `shstr`. -/
  shstrndx : im.header.eShstrndx = names.indexOf (ascii ".shstrtab") ∧
    payloads.getLast? = some im.shstr
  /-- `.symtab` links `.strtab`, and its entries are `sizeof(Elf64_Sym)` bytes. -/
  symtab : (im.pairs[names.indexOf (ascii ".symtab")]?).map
      (fun pr => (pr.sec.shLink, pr.sec.shEntsize)) = some (names.indexOf (ascii ".strtab"), 24)
  /-- `.rel`, when there is one, links `.symtab` and applies to `.text`. -/
  rel : ascii ".rel" ∈ names → (im.pairs[names.indexOf (ascii ".rel")]?).map
      (fun pr => (pr.sec.shLink, pr.sec.shInfo)) =
      some (names.indexOf (ascii ".symtab"), names.indexOf (ascii ".text"))
  /-- `e_entry` is the entry's offset from the start of `.text`'s bytes, or 0. -/
  entry : (∀ entry, entryPointFn = some entry → ∃ k : Nat, ∃ pr : HeaderPair,
      names[k]? = some (ascii ".text") ∧
      im.pairs[k]? = some pr ∧ im.header.eEntry = pr.sec.shOffset + entry) ∧
    (entryPointFn = none → im.header.eEntry = 0)


/-- Sections lying end to end after `pre`, as large as the blocks, hold the blocks of the
file `pre` followed by the blocks. -/
theorem slices_of_spans {pre : Bytes} {secs : List Shdr} {blocks : List Bytes}
    (h : secs.map (fun s => (s.shOffset, s.shSize)) = spans pre.length (blocks.map List.length)) :
    secs.map (fun s => slice (pre ++ blocks.flatten) s.shOffset s.shSize) = blocks := by
  have := slices_spans pre blocks
  rwa [← h, List.map_map] at this

section Consistency
variable (asExecutable : Bool) (entryPointFn : Option Nat) (comment : Bytes)
  (text : List InstructionType) (relocs : Option (List Rel)) (rodataBuf stringTable : Bytes)
  (symbolTable : List Sym)

theorem getElem?_elfImage {β : Type} (g : HeaderPair → β) (hg : ∀ pr, g pr.erase = g pr)
    (k : Nat) :
    ((elfImage asExecutable entryPointFn comment text relocs rodataBuf stringTable
        symbolTable).pairs[k]?).map g =
      ((buildHeaders comment text relocs rodataBuf stringTable symbolTable).pairs[k]?).map g := by
  have h := congrArg (·[k]?) (elfImage_map asExecutable entryPointFn comment text relocs
    rodataBuf stringTable symbolTable g hg)
  simpa only [List.getElem?_map] using h

/-- The sections with data lie end to end from `elf_size`, as large as the payloads. -/
theorem spans_elfImage :
    (dataSections (elfImage asExecutable entryPointFn comment text relocs rodataBuf stringTable
        symbolTable).pairs).map (fun s => (s.shOffset, s.shSize)) =
      spans (elfImage asExecutable entryPointFn comment text relocs rodataBuf stringTable
          symbolTable).elfSize
        ((payloads comment text relocs rodataBuf stringTable
          (symbolTable.map (patchSymbol
            (elfImage asExecutable entryPointFn comment text relocs rodataBuf stringTable
              symbolTable).textSectionNdx
            (elfImage asExecutable entryPointFn comment text relocs rodataBuf stringTable
              symbolTable).rodataSectionNdx))
          (elfImage asExecutable entryPointFn comment text relocs rodataBuf stringTable
            symbolTable).shstr).map List.length) := by
  rw [elfImage_pairs, placeHeaders_spans, Nat.add_zero,
    sizes_buildHeaders comment text relocs rodataBuf stringTable symbolTable (List.length_map _ _)]
  rfl

/-- Every `sh_name` points at its section's name and a NUL. -/
theorem shName_elfImage {k : Nat} {pr : HeaderPair} {name : Bytes}
    (hpr : (elfImage asExecutable entryPointFn comment text relocs rodataBuf stringTable
      symbolTable).pairs[k]? = some pr)
    (hname : (sectionNames relocs)[k]? = some name) :
    slice (elfImage asExecutable entryPointFn comment text relocs rodataBuf stringTable
      symbolTable).shstr pr.sec.shName (name.length + 1) = name ++ [0] := by
  have h1 := getElem?_elfImage asExecutable entryPointFn comment text relocs rodataBuf
    stringTable symbolTable (fun pr => pr.sec.shName) (fun _ => rfl) k
  rw [hpr, ← List.getElem?_map, shName_buildHeaders, List.getElem?_map] at h1
  obtain ⟨⟨offset, length⟩, hs, ho⟩ := Option.map_eq_some'.mp h1.symm
  have hlen : length = name.length + 1 := by
    have h2 := congrArg (·[k]?) (map_snd_spans 0 (((sectionNames relocs).map (· ++ [0])).map
      List.length))
    simp only [List.getElem?_map, hs, hname] at h2
    simpa using h2
  have hblock := slice_of_spans hs
  rw [List.getElem?_map, hname] at hblock
  dsimp only at ho
  rw [← ho, ← hlen, show (elfImage asExecutable entryPointFn comment text relocs rodataBuf
    stringTable symbolTable).shstr = _ from shstr_buildHeaders comment text relocs rodataBuf
    stringTable symbolTable]
  exact (Option.some.inj hblock).symm

/-- **`e_entry` is the entry's offset from the start of `.text`'s bytes.** -/
theorem eEntry_elfImage {entry : Nat} (hentry : entryPointFn = some entry) :
    ∃ k : Nat, ∃ pr : HeaderPair, (sectionNames relocs)[k]? = some (ascii ".text") ∧
      (elfImage asExecutable entryPointFn comment text relocs rodataBuf stringTable
        symbolTable).pairs[k]? = some pr ∧
      (elfImage asExecutable entryPointFn comment text relocs rodataBuf stringTable
        symbolTable).header.eEntry = pr.sec.shOffset + entry := by
  subst hentry
  have hexec := executable_buildHeaders comment text relocs rodataBuf stringTable symbolTable
  -- the built headers have an executable segment, so the loop records `text_offset`
  have hex : ∃ pr ∈ (buildHeaders comment text relocs rodataBuf stringTable symbolTable).pairs,
      executable pr.seg := by
    have : true ∈ (sectionNames relocs).map fun name => name == ascii ".text" :=
      List.mem_map.mpr ⟨ascii ".text", by cases relocs <;> simp [sectionNames], beq_self_eq_true _⟩
    rw [← hexec] at this
    obtain ⟨pr, hpr, h⟩ := List.mem_map.mp this
    exact ⟨pr, hpr, h⟩
  obtain ⟨t, ht⟩ := Option.isSome_iff_exists.mp (@placeHeaders_isSome
    (elfImage asExecutable (some entry) comment text relocs rodataBuf stringTable
      symbolTable).elfSize 0 none _ hex)
  obtain ⟨pr, hpr, p, hp, hnull, hf, hoff⟩ := placeHeaders_executable _ ht
  rw [← elfImage_pairs] at hpr
  obtain ⟨k, hk⟩ := List.mem_iff_getElem?.mp hpr
  -- that segment is `.text`'s
  have hname : (sectionNames relocs)[k]? = some (ascii ".text") := by
    have h := getElem?_elfImage asExecutable (some entry) comment text relocs rodataBuf
      stringTable symbolTable (fun pr => executable pr.seg)
      (fun pr => by obtain ⟨_ | q, sec⟩ := pr <;> rfl) k
    have hx : executable (some p) = true := by simp [executable, hnull, hf]
    rw [hk, ← List.getElem?_map, hexec, List.getElem?_map, Option.map_some', hp, hx] at h
    obtain ⟨name, hn, he⟩ := Option.map_eq_some'.mp h.symm
    rw [hn, beq_iff_eq.mp he]
  have hdata := (segmentOk_elfImage asExecutable (some entry) comment text relocs rodataBuf
    stringTable symbolTable pr hpr p hp hnull).1
  have hsec := placeHeaders_segments _ 0 none _ pr (by rw [← elfImage_pairs]; exact hpr) p hp
    hnull hdata
  refine ⟨k, pr, hname, hk, ?_⟩
  rw [elfImage_eEntry]
  simp only [ht, Option.getD_some]
  omega

/-- **The image `emit_elf` writes is self-consistent**, for every input: the header tables
are where `e_phoff` and `e_shoff` say, every section with data holds its payload and they
lie end to end to the end of the file, every loaded segment is its section, every name,
link and index points where it should, and `e_entry` is the entry's place in `.text`. -/
theorem emitElf_consistent :
    Consistent (emitElf asExecutable entryPointFn comment text relocs rodataBuf stringTable
        symbolTable)
      (elfImage asExecutable entryPointFn comment text relocs rodataBuf stringTable symbolTable)
      (sectionNames relocs)
      (payloads comment text relocs rodataBuf stringTable
        (symbolTable.map (patchSymbol
          (elfImage asExecutable entryPointFn comment text relocs rodataBuf stringTable
            symbolTable).textSectionNdx
          (elfImage asExecutable entryPointFn comment text relocs rodataBuf stringTable
            symbolTable).rodataSectionNdx))
        (elfImage asExecutable entryPointFn comment text relocs rodataBuf stringTable
          symbolTable).shstr)
      entryPointFn := by
  obtain ⟨hp, hs⟩ := elfImage_counts asExecutable entryPointFn comment text relocs rodataBuf
    stringTable symbolTable
  have hlen := length_headerBytes asExecutable entryPointFn comment text relocs rodataBuf
    stringTable symbolTable
  rw [emitElf_eq]
  refine ⟨⟨elfImage_ePhoff .., ?phdrs⟩, ?shdrs, ?sections, ⟨_, spans_elfImage .., ?ends⟩,
    ?segments, ⟨?count, ?names⟩, ⟨?shstrndx, getLast?_payloads ..⟩, ?symtab, ?rel, ⟨?entry, ?none⟩⟩
  case phdrs => rw [elfImage_ePhoff, ← hp]; exact slice_phdrs _ _
  case shdrs => rw [elfImage_eShoff, ← hp, ← hs]; exact slice_shdrs _ _
  case sections => exact slices_of_spans (by rw [hlen]; exact spans_elfImage ..)
  case ends => simp [hlen, List.length_flatten]
  case segments =>
    intro pr hpr p hseg hnull
    obtain ⟨hdata, hsize⟩ := segmentOk_elfImage _ _ _ _ _ _ _ _ pr hpr p hseg hnull
    rw [elfImage_pairs] at hpr
    exact ⟨placeHeaders_segments _ 0 none _ pr hpr p hseg hnull hdata, hsize⟩
  case count => rw [hs]; exact length_buildHeaders ..
  case names => exact fun _ _ _ => shName_elfImage _ _ _ _ _ _ _ _
  case shstrndx => cases relocs <;> rfl
  case symtab =>
    rw [getElem?_elfImage _ _ _ _ _ _ _ _ (fun pr => (pr.sec.shLink, pr.sec.shEntsize))
      (fun _ => rfl)]
    cases relocs <;> rfl
  case rel =>
    intro hmem
    rw [getElem?_elfImage _ _ _ _ _ _ _ _ (fun pr => (pr.sec.shLink, pr.sec.shInfo))
      (fun _ => rfl)]
    cases relocs with
    | none => exact absurd hmem (by decide)
    | some => rfl
  case entry => exact fun _ => eEntry_elfImage _ _ _ _ _ _ _ _
  case none => intro hnone; rw [elfImage_eEntry, hnone]

end Consistency

/-! ## Reading the entry point back

`.text` comes after `.interp` and the relocations, so the offset loop records their size as
`text_offset` (`textOffset_buildHeaders`), and `e_entry`, read back from the file header,
lands on the entry's byte of the text's words (`slice_eEntry_emitElf`). -/

section Entry
variable (asExecutable : Bool) (comment : Bytes) (text : List InstructionType)
  (relocs : Option (List Rel)) (rodataBuf stringTable : Bytes) (symbolTable : List Sym)

/-- The offset loop records `.text`'s offset: after the 8 bytes of `.interp` and the
relocations. -/
theorem textOffset_buildHeaders (elfSize : Nat) :
    (placeHeaders elfSize 0 none
      (buildHeaders comment text relocs rodataBuf stringTable symbolTable).pairs).2 =
      some (8 + (relocs.getD []).length * 16) := by
  cases relocs <;> rfl

/-- The text's words come right after the headers, `.interp` and the relocations. -/
theorem emitElf_text (entryPointFn : Option Nat) : ∃ post,
    emitElf asExecutable entryPointFn comment text relocs rodataBuf stringTable symbolTable =
      (headerBytes (elfImage asExecutable entryPointFn comment text relocs rodataBuf
          stringTable symbolTable) ++ (VIUAVM_INTERP ++ [0]) ++
        (relocs.getD []).flatMap Rel.bytes) ++ (wordBytes text ++ post) :=
  ⟨_, by simp [emitElf, headerBytes]; rfl⟩

/-- **`e_entry` read back from the file is the entry's byte of the text**: the `n` bytes
there are the `n` bytes of the text's words from `entry` on, when they lie in the text and
the file's size fits `e_entry`'s 64 bits. -/
theorem slice_eEntry_emitElf {entry n : Nat} (h : entry + n ≤ 8 * text.length)
    (hlen : (emitElf asExecutable (some entry) comment text relocs rodataBuf stringTable
      symbolTable).length < 2 ^ 64) :
    slice (emitElf asExecutable (some entry) comment text relocs rodataBuf stringTable
        symbolTable)
      (leVal (slice (emitElf asExecutable (some entry) comment text relocs rodataBuf stringTable
        symbolTable) 24 8)) n = slice (wordBytes text) entry n := by
  obtain ⟨post, hfile⟩ := emitElf_text asExecutable comment text relocs rodataBuf stringTable
    symbolTable (some entry)
  have hpre : (headerBytes (elfImage asExecutable (some entry) comment text relocs rodataBuf
      stringTable symbolTable) ++ (VIUAVM_INTERP ++ [0]) ++
      (relocs.getD []).flatMap Rel.bytes).length =
      (elfImage asExecutable (some entry) comment text relocs rodataBuf stringTable
        symbolTable).elfSize + 8 + (relocs.getD []).length * 16 := by
    simp only [List.length_append, length_headerBytes, length_flatMap_rel,
      List.length_singleton, show VIUAVM_INTERP.length = 7 from rfl]
    omega
  -- `e_entry` is `text_offset + entry + elf_size`
  have hentry : (elfImage asExecutable (some entry) comment text relocs rodataBuf stringTable
      symbolTable).header.eEntry =
      (elfImage asExecutable (some entry) comment text relocs rodataBuf stringTable
        symbolTable).elfSize + 8 + (relocs.getD []).length * 16 + entry := by
    rw [elfImage_eEntry]
    simp only [textOffset_buildHeaders, Option.getD_some]
    omega
  -- the file header is the first thing in the file, so the read gives `e_entry` back
  have hread : leVal (slice (emitElf asExecutable (some entry) comment text relocs rodataBuf
      stringTable symbolTable) 24 8) =
      (elfImage asExecutable (some entry) comment text relocs rodataBuf stringTable
        symbolTable).header.eEntry := by
    have hhead : (elfImage asExecutable (some entry) comment text relocs rodataBuf stringTable
        symbolTable).header.bytes <+: emitElf asExecutable (some entry) comment text relocs
          rodataBuf stringTable symbolTable := by
      rw [hfile, headerBytes]; simp only [List.append_assoc]; exact List.prefix_append _ _
    have hfit : (elfImage asExecutable (some entry) comment text relocs rodataBuf stringTable
        symbolTable).header.eEntry < 2 ^ 64 := by
      have := congrArg List.length hfile
      simp only [List.length_append, length_wordBytes] at this hpre
      omega
    rw [slice_extend hhead (by simp), Ehdr.leVal_entry, Nat.mod_eq_of_lt hfit]
  rw [hread, hentry, hfile, ← hpre, slice_append_shift,
    slice_extend (List.prefix_append _ _) (by simpa using h)]

end Entry

end ViuaVm.Elf.Layout
