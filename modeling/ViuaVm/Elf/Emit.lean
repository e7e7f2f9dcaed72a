import ViuaVm.Elf.Structs
import ViuaVm.Arch.Ops

/-! # `stage::emit_elf`

`emit_elf` (`tools/exec/asm.cpp`) builds a list of (program header, section header) pairs,
each section's name saved to `.shstrtab` as it goes (`buildHeaders`); places every section
that has bytes in the file at `elf_size` plus the sizes of the ones before it
(`placeHeaders`); and writes the file header, the program headers, the section headers,
and then the payloads in a fixed order (`emitElf`).

`emitElf_eq` says the file is the headers followed by the payloads, and `placeHeaders_spans`
that the offsets the loop computes are where those payloads land.
-/
namespace ViuaVm.Elf.Emit
open ViuaVm.Elf.LittleEndian ViuaVm.Elf.Structs ViuaVm.Arch.Ops

/-- `VIUA_MAGIC`: the letters `VIUA` after a high-bit byte, and three zeros. -/
def VIUA_MAGIC : Bytes := [0x7f, 0x56, 0x49, 0x55, 0x41, 0, 0, 0]

/-- `VIUAVM_INTERP`. -/
def VIUAVM_INTERP : Bytes := ascii "viua-vm"

/-- `e_ident`: `ELFMAG`, `ELFCLASS64`, `ELFDATA2LSB`, `EV_CURRENT`, `ELFOSABI_STANDALONE`,
ABI version 0, and zero padding. -/
def E_IDENT : Bytes := [0x7f, 0x45, 0x4c, 0x46, 2, 1, 1, 255, 0, 0, 0, 0, 0, 0, 0, 0]

/-- One entry of `elf_headers`. -/
structure HeaderPair where
  seg : Option Phdr
  sec : Shdr
  deriving DecidableEq, Repr

/-- `save_shstr_entry`: the offset the name is saved at, and `shstr` with the name and a
NUL after it. -/
def saveShstrEntry (shstr name : Bytes) : Nat × Bytes := (shstr.length, shstr ++ name ++ [0])

/-- What `emit_elf` has built before the offset loop: `elf_headers`, `shstr`, and the
indices it records. -/
structure Headers where
  pairs : List HeaderPair
  shstr : Bytes
  textSectionNdx : Nat
  relSectionNdx : Nat
  rodataSectionNdx : Nat
  symtabSectionNdx : Nat
  strtabSectionNdx : Nat

/-- The section header of the pair at `ndx`, changed by `f`. -/
def patchSection (ndx : Nat) (f : Shdr → Shdr) (pairs : List HeaderPair) : List HeaderPair :=
  pairs.modify (fun pr => { pr with sec := f pr.sec }) ndx

/-- The headers `emit_elf` pushes, in order: the void pair, `.viua.magic`, `.interp`, `.rel`
when there are relocations, `.text`, `.rodata`, `.comment`, `.symtab`, `.strtab` and
`.shstrtab`; then the links patched in. Sizes are `sizeof` the element types: 8 for an
instruction, 16 for `Elf64_Rel`, 24 for `Elf64_Sym`. -/
def buildHeaders (comment : Bytes) (text : List InstructionType) (relocs : Option (List Rel))
    (rodataBuf stringTable : Bytes) (symbolTable : List Sym) : Headers :=
  let void : HeaderPair := ⟨some { pType := PT_NULL }, { shType := SHT_NULL }⟩
  let (magicName, shstr) := saveShstrEntry [0] (ascii ".viua.magic")
  let magic : HeaderPair :=
    ⟨some { pType := PT_NULL, pOffset := leVal VIUA_MAGIC, pFilesz := 8 },
      -- `sizeof(Elf64_Ehdr) + offsetof(Elf64_Phdr, p_offset)`
      { shName := magicName, shType := SHT_NOBITS, shOffset := 64 + 8, shSize := 8 }⟩
  let (interpName, shstr) := saveShstrEntry shstr (ascii ".interp")
  let interp : HeaderPair :=
    ⟨some { pType := PT_INTERP, pFilesz := VIUAVM_INTERP.length + 1, pFlags := PF_R },
      { shName := interpName, shType := SHT_PROGBITS, shSize := VIUAVM_INTERP.length + 1 }⟩
  let (rel, shstr) : List HeaderPair × Bytes := match relocs with
    | some relocationTable =>
      let (relName, shstr) := saveShstrEntry shstr (ascii ".rel")
      let sec : Shdr :=
        { shName := relName, shType := SHT_REL, shEntsize := 16,
          shSize := relocationTable.length * 16, shFlags := SHF_INFO_LINK }
      ([⟨none, sec⟩], shstr)
    | none => ([], shstr)
  let relSectionNdx := if relocs.isSome then 3 else 0
  let (textName, shstr) := saveShstrEntry shstr (ascii ".text")
  let textSize := text.length * 8
  let textPair : HeaderPair :=
    ⟨some { pType := PT_LOAD, pFilesz := textSize, pMemsz := textSize,
            pFlags := PF_R ||| PF_X, pAlign := 8 },
      { shName := textName, shType := SHT_PROGBITS, shSize := textSize,
        shFlags := SHF_ALLOC ||| SHF_EXECINSTR }⟩
  let (rodataName, shstr) := saveShstrEntry shstr (ascii ".rodata")
  let rodataPair : HeaderPair :=
    ⟨some { pType := PT_LOAD, pFilesz := rodataBuf.length, pMemsz := rodataBuf.length,
            pFlags := PF_R, pAlign := 8 },
      { shName := rodataName, shType := SHT_PROGBITS, shSize := rodataBuf.length,
        shFlags := SHF_ALLOC }⟩
  let (commentName, shstr) := saveShstrEntry shstr (ascii ".comment")
  let commentPair : HeaderPair :=
    ⟨none, { shName := commentName, shType := SHT_PROGBITS, shSize := comment.length + 1 }⟩
  let (symtabName, shstr) := saveShstrEntry shstr (ascii ".symtab")
  let symtabPair : HeaderPair :=
    ⟨none, { shName := symtabName, shType := SHT_SYMTAB, shSize := symbolTable.length * 24,
             shEntsize := 24 }⟩
  let (strtabName, shstr) := saveShstrEntry shstr (ascii ".strtab")
  let strtabPair : HeaderPair :=
    ⟨none, { shName := strtabName, shType := SHT_STRTAB, shSize := stringTable.length,
             shFlags := SHF_STRINGS }⟩
  let (shstrtabName, shstr) := saveShstrEntry shstr (ascii ".shstrtab")
  let shstrtabPair : HeaderPair :=
    ⟨none, { shName := shstrtabName, shType := SHT_STRTAB, shSize := shstr.length,
             shFlags := SHF_STRINGS }⟩
  let pairs := [void, magic, interp] ++ rel ++
    [textPair, rodataPair, commentPair, symtabPair, strtabPair, shstrtabPair]
  let textSectionNdx := 3 + rel.length
  let symtabSectionNdx := 6 + rel.length
  let strtabSectionNdx := 7 + rel.length
  let pairs := patchSection symtabSectionNdx (fun s => { s with shLink := strtabSectionNdx }) pairs
  let pairs := if relocs.isSome then
      patchSection relSectionNdx
        (fun s => { s with shLink := symtabSectionNdx, shInfo := textSectionNdx }) pairs
    else pairs
  ⟨pairs, shstr, textSectionNdx, relSectionNdx, 4 + rel.length, symtabSectionNdx,
    strtabSectionNdx⟩

/-- A section the offset loop places: neither `SHT_NULL` nor `SHT_NOBITS`. -/
def hasData (s : Shdr) : Bool := s.shType != SHT_NULL && s.shType != SHT_NOBITS

/-- The segment half of the offset loop's body: a segment that is not `PT_NULL` is placed at
`elf_size + acc`, and the first one flagged `PF_R | PF_X` records `acc` as `text_offset`.
(The loop's inner test for `PT_NULL` is dead: the outer one has excluded it.) -/
def placeSegment (elfSize acc : Nat) (textOffset : Option Nat) :
    Option Phdr → Option Phdr × Option Nat
  | some p =>
    if p.pType ≠ PT_NULL then
      (some { p with pOffset := elfSize + acc },
        if p.pFlags = PF_R ||| PF_X then some (textOffset.getD acc) else textOffset)
    else (some p, textOffset)
  | none => (none, textOffset)

/-- The offset loop of `emit_elf`, from `offset_accumulator = acc`: each section with data is
placed at `elf_size + acc`, and `acc` grows by its size. -/
def placeHeaders (elfSize : Nat) : Nat → Option Nat → List HeaderPair →
    List HeaderPair × Option Nat
  | _, textOffset, [] => ([], textOffset)
  | acc, textOffset, pr :: rest =>
    let seg := placeSegment elfSize acc textOffset pr.seg
    if hasData pr.sec then
      let placed := placeHeaders elfSize (acc + pr.sec.shSize) seg.2 rest
      (⟨seg.1, { pr.sec with shOffset := elfSize + acc }⟩ :: placed.1, placed.2)
    else
      let placed := placeHeaders elfSize acc seg.2 rest
      (⟨seg.1, pr.sec⟩ :: placed.1, placed.2)

/-- The symbol as `emit_elf` writes it: a function's section index is `.text`'s, an
object's `.rodata`'s. -/
def patchSymbol (textSectionNdx rodataSectionNdx : Nat) (each : Sym) : Sym :=
  if ELF64_ST_TYPE each.stInfo = STT_FUNC then { each with stShndx := textSectionNdx }
  else if ELF64_ST_TYPE each.stInfo = STT_OBJECT then { each with stShndx := rodataSectionNdx }
  else each

/-- The headers `emit_elf` writes, and the `elf_size` it placed the sections after. -/
structure Image where
  header : Ehdr
  pairs : List HeaderPair
  shstr : Bytes
  textSectionNdx : Nat
  rodataSectionNdx : Nat
  elfSize : Nat

/-- `emit_elf` up to the writes. `e_entry` is `*text_offset + *entry_point_fn + elf_size`;
there is always a `.text` segment, so `text_offset` is set. -/
def elfImage (asExecutable : Bool) (entryPointFn : Option Nat) (comment : Bytes)
    (text : List InstructionType) (relocs : Option (List Rel)) (rodataBuf stringTable : Bytes)
    (symbolTable : List Sym) : Image :=
  let hs := buildHeaders comment text relocs rodataBuf stringTable symbolTable
  let elfPheaders := (hs.pairs.filterMap HeaderPair.seg).length
  let elfSheaders := hs.pairs.length
  let elfSize := 64 + elfPheaders * 56 + elfSheaders * 64
  let placed := placeHeaders elfSize 0 none hs.pairs
  let header : Ehdr :=
    { eIdent := E_IDENT
      eType := if asExecutable then ET_EXEC else ET_REL
      eMachine := ET_NONE
      eVersion := 1
      eEntry := match entryPointFn with
        | some entry => placed.2.getD 0 + entry + elfSize
        | none => 0
      ePhoff := 64
      eShoff := 64 + elfPheaders * 56
      eFlags := 0
      eEhsize := 64
      ePhentsize := 56
      ePhnum := elfPheaders
      eShentsize := 64
      eShnum := elfSheaders
      eShstrndx := elfSheaders - 1
      eIdent_length := rfl }
  ⟨header, placed.1, hs.shstr, hs.textSectionNdx, hs.rodataSectionNdx, elfSize⟩

/-- `stage::emit_elf`: the bytes written to the output file, in the order of the `write`
calls. Each symbol is written with `sizeof(std::vector<Elf64_Sym>)` bytes: three pointers,
24 bytes on the LP64 targets the code is built for, which is `sizeof(Elf64_Sym)`.
`VIUA_COMMENT` is `VIUAVM_VERSION_FULL`, from a header not in the sources: `comment`. -/
def emitElf (asExecutable : Bool) (entryPointFn : Option Nat) (comment : Bytes)
    (text : List InstructionType) (relocs : Option (List Rel)) (rodataBuf stringTable : Bytes)
    (symbolTable : List Sym) : Bytes :=
  let im := elfImage asExecutable entryPointFn comment text relocs rodataBuf stringTable
    symbolTable
  im.header.bytes ++ (im.pairs.filterMap HeaderPair.seg).flatMap Phdr.bytes ++
    im.pairs.flatMap (fun pr => pr.sec.bytes) ++ (VIUAVM_INTERP ++ [0]) ++
    (relocs.getD []).flatMap Rel.bytes ++ wordBytes text ++ rodataBuf ++ (comment ++ [0]) ++
    (symbolTable.map (patchSymbol im.textSectionNdx im.rodataSectionNdx)).flatMap Sym.bytes ++
    stringTable ++ im.shstr

/-! ## The offset loop

The loop changes nothing but offsets (`placeHeaders_erase`); it lays the sections with data
end to end from `elf_size` (`placeHeaders_spans`); and it gives a segment the offset of its
section (`placeHeaders_segments`). -/

/-- The section headers the offset loop places, in order. -/
def dataSections (pairs : List HeaderPair) : List Shdr := (pairs.map HeaderPair.sec).filter hasData

/-- A header pair with its offsets zeroed: what the offset loop leaves alone. -/
def HeaderPair.erase (pr : HeaderPair) : HeaderPair :=
  ⟨pr.seg.map fun p => { p with pOffset := 0 }, { pr.sec with shOffset := 0 }⟩

@[simp] theorem HeaderPair.erase_erase (pr : HeaderPair) : pr.erase.erase = pr.erase := by
  obtain ⟨_ | p, sec⟩ := pr <;> rfl

@[simp] theorem hasData_offset (s : Shdr) (o : Nat) : hasData { s with shOffset := o } = hasData s :=
  rfl

theorem dataSections_cons (pr : HeaderPair) (pairs : List HeaderPair) :
    dataSections (pr :: pairs) =
      if hasData pr.sec then pr.sec :: dataSections pairs else dataSections pairs := by
  by_cases h : hasData pr.sec <;> simp [dataSections, List.filter_cons, h]

section Placement
variable (elfSize : Nat)

theorem placeSegment_erase (acc : Nat) (textOffset : Option Nat) (seg : Option Phdr) :
    (placeSegment elfSize acc textOffset seg).1.map (fun p => { p with pOffset := 0 }) =
      seg.map fun p => { p with pOffset := 0 } := by
  cases seg with
  | none => rfl
  | some p => by_cases h : p.pType ≠ PT_NULL <;> simp [placeSegment, h]

theorem placeSegment_offset {acc : Nat} {textOffset : Option Nat} {seg : Option Phdr} {p : Phdr}
    (h : (placeSegment elfSize acc textOffset seg).1 = some p) (hp : p.pType ≠ PT_NULL) :
    p.pOffset = elfSize + acc := by
  cases seg with
  | none => cases h
  | some q =>
    by_cases hq : q.pType ≠ PT_NULL
    · rw [placeSegment, if_pos hq] at h
      obtain rfl := Option.some.inj h; rfl
    · rw [placeSegment, if_neg hq] at h
      obtain rfl := Option.some.inj h; exact absurd hp hq

theorem placeSegment_textOffset (acc x : Nat) (seg : Option Phdr) :
    (placeSegment elfSize acc (some x) seg).2 = some x := by
  cases seg with
  | none => rfl
  | some p => by_cases h : p.pType ≠ PT_NULL <;> simp [placeSegment, h]

theorem placeHeaders_erase (acc : Nat) (textOffset : Option Nat) (pairs : List HeaderPair) :
    (placeHeaders elfSize acc textOffset pairs).1.map HeaderPair.erase =
      pairs.map HeaderPair.erase := by
  induction pairs generalizing acc textOffset with
  | nil => rfl
  | cons pr pairs ih =>
    have hseg := placeSegment_erase elfSize acc textOffset pr.seg
    by_cases h : hasData pr.sec <;> simp [placeHeaders, h, ih, HeaderPair.erase, hseg]

/-- **The offset loop lays the sections with data end to end** from `elf_size + acc`. -/
theorem placeHeaders_spans (acc : Nat) (textOffset : Option Nat) (pairs : List HeaderPair) :
    (dataSections (placeHeaders elfSize acc textOffset pairs).1).map
        (fun s => (s.shOffset, s.shSize)) =
      spans (elfSize + acc) ((dataSections pairs).map Shdr.shSize) := by
  induction pairs generalizing acc textOffset with
  | nil => rfl
  | cons pr pairs ih =>
    by_cases h : hasData pr.sec
    · simp [placeHeaders, h, dataSections_cons, spans, ih, Nat.add_assoc]
    · simp [placeHeaders, h, dataSections_cons, ih]

/-- **A placed segment has the offset of its section.** -/
theorem placeHeaders_segments (acc : Nat) (textOffset : Option Nat) (pairs : List HeaderPair) :
    ∀ pr ∈ (placeHeaders elfSize acc textOffset pairs).1, ∀ p, pr.seg = some p →
      p.pType ≠ PT_NULL → hasData pr.sec → p.pOffset = pr.sec.shOffset := by
  induction pairs generalizing acc textOffset with
  | nil => intro pr hpr; cases hpr
  | cons pr pairs ih =>
    intro q hq p hp hnull hdata
    by_cases h : hasData pr.sec <;> simp only [placeHeaders, h, if_true, if_false,
      Bool.false_eq_true, List.mem_cons] at hq
    · rcases hq with rfl | hq
      · exact placeSegment_offset elfSize hp hnull
      · exact ih _ _ q hq p hp hnull hdata
    · rcases hq with rfl | hq
      · exact absurd hdata h
      · exact ih _ _ q hq p hp hnull hdata

/-- Once `text_offset` is set, it stays. -/
theorem placeHeaders_textOffset (acc x : Nat) (pairs : List HeaderPair) :
    (placeHeaders elfSize acc (some x) pairs).2 = some x := by
  induction pairs generalizing acc with
  | nil => rfl
  | cons pr pairs ih =>
    by_cases h : hasData pr.sec <;> simp [placeHeaders, h, placeSegment_textOffset, ih]

/-- A segment the loop takes `text_offset` from. -/
def executable : Option Phdr → Bool
  | some p => p.pType != PT_NULL && p.pFlags == PF_R ||| PF_X
  | none => false

theorem placeSegment_none_textOffset {acc : Nat} {seg : Option Phdr} {x : Nat}
    (h : (placeSegment elfSize acc none seg).2 = some x) :
    x = acc ∧ ∃ p, (placeSegment elfSize acc none seg).1 = some p ∧ p.pType ≠ PT_NULL ∧
      p.pFlags = PF_R ||| PF_X := by
  obtain _ | p := seg
  · cases h
  · by_cases hp : p.pType ≠ PT_NULL
    · by_cases hf : p.pFlags = PF_R ||| PF_X
      · simp only [placeSegment, if_pos hp, if_pos hf, Option.getD_none, Option.some.injEq] at h ⊢
        exact ⟨h.symm, _, rfl, hp, hf⟩
      · simp [placeSegment, hp, hf] at h
    · simp [placeSegment, hp] at h

theorem placeSegment_executable {acc : Nat} {textOffset : Option Nat} {seg : Option Phdr}
    (h : executable seg) : (placeSegment elfSize acc textOffset seg).2.isSome := by
  obtain _ | p := seg
  · cases h
  · simp only [executable, Bool.and_eq_true, bne_iff_ne, ne_eq, beq_iff_eq] at h
    simp [placeSegment, h.1, h.2]

/-- **`text_offset` is the offset of the first executable segment**: the loop records the
accumulator there and places that segment at `elf_size` plus it. -/
theorem placeHeaders_executable {acc x : Nat} {pairs : List HeaderPair}
    (h : (placeHeaders elfSize acc none pairs).2 = some x) :
    ∃ pr ∈ (placeHeaders elfSize acc none pairs).1, ∃ p, pr.seg = some p ∧
      p.pType ≠ PT_NULL ∧ p.pFlags = PF_R ||| PF_X ∧ p.pOffset = elfSize + x := by
  induction pairs generalizing acc with
  | nil => cases h
  | cons pr pairs ih =>
    rcases hs : (placeSegment elfSize acc none pr.seg).2 with _ | y
    · -- the segment records nothing, and the rest of the loop starts from `none`
      by_cases hd : hasData pr.sec <;>
        simp only [placeHeaders, hd, hs, if_true, if_false, Bool.false_eq_true,
          List.mem_cons] at h ⊢ <;>
        obtain ⟨q, hq, hrest⟩ := ih h <;> exact ⟨q, .inr hq, hrest⟩
    · -- the segment is the first executable one
      obtain ⟨rfl, p, hp, hnull, hf⟩ := placeSegment_none_textOffset elfSize hs
      have hoff := placeSegment_offset elfSize hp hnull
      by_cases hd : hasData pr.sec <;>
        simp only [placeHeaders, hd, hs, if_true, if_false, Bool.false_eq_true,
          placeHeaders_textOffset, Option.some.injEq] at h ⊢ <;> subst h
      · exact ⟨_, List.mem_cons_self _ _, p, hp, hnull, hf, hoff⟩
      · exact ⟨_, List.mem_cons_self _ _, p, hp, hnull, hf, hoff⟩

/-- A list with an executable segment records a `text_offset`. -/
theorem placeHeaders_isSome {acc : Nat} {textOffset : Option Nat} {pairs : List HeaderPair}
    (h : ∃ pr ∈ pairs, executable pr.seg) :
    (placeHeaders elfSize acc textOffset pairs).2.isSome := by
  induction pairs generalizing acc textOffset with
  | nil => obtain ⟨_, hpr, _⟩ := h; cases hpr
  | cons pr pairs ih =>
    obtain ⟨q, hq, hx⟩ := h
    rcases List.mem_cons.mp hq with rfl | hq
    · have hs := @placeSegment_executable elfSize acc textOffset _ hx
      obtain ⟨y, hy⟩ := Option.isSome_iff_exists.mp hs
      by_cases hd : hasData q.sec <;> simp [placeHeaders, hd, hy, placeHeaders_textOffset]
    · by_cases hd : hasData pr.sec <;> simp only [placeHeaders, hd, if_true, if_false,
        Bool.false_eq_true] <;> exact ih ⟨q, hq, hx⟩

end Placement

end ViuaVm.Elf.Emit
