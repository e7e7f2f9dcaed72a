import ViuaVm.Elf.Layout

/-! # The loader of `tools/vm.cpp`

`main` of `tools/vm.cpp` reads the file header, then three program headers one after the
other into the same variable ("skip magic PT_NULL", "skip PT_INTERP", and the `PT_LOAD` of
`.text`), seeks to the third one's `p_offset` and reads `p_filesz` bytes into a zeroed array
of 128 words, and runs from the first word of that array (`loadText`).

`emit_elf` writes five program headers, not three: an all-zero `PT_NULL` comes before the
magic one. So the third header the loader reads is `PT_INTERP`, and what it loads is the
interpreter string: `loadText_emitElf` shows that for every input the array holds the word
`viua-vm\0` followed by zeros, whatever `.text` was.
-/
namespace ViuaVm.Elf.Load
open ViuaVm.Elf.LittleEndian ViuaVm.Elf.Structs ViuaVm.Elf.Emit ViuaVm.Elf.Layout
open ViuaVm.Arch.Ops

/-- What went wrong in loading. -/
inductive LoadFault
  /-- `p_filesz` is more than the 1024 bytes of the array: `read` writes past it. -/
  | overflow
  deriving DecidableEq, Repr

/-- The third program header, after the file header and the two `main` skips. -/
def programHeaderBytes (file : Bytes) : Bytes := slice file (64 + 2 * 56) 56

/-- `main`'s loading of `.text`: the segment the third program header names, read into an
array of 128 zeroed words. -/
def loadText (file : Bytes) : Except LoadFault (List InstructionType) :=
  let programHeader := programHeaderBytes file
  let pOffset := leVal (slice programHeader 8 8)
  let pFilesz := leVal (slice programHeader 32 8)
  if pFilesz ≤ 128 * 8 then .ok (toWords 128 (slice file pOffset pFilesz ++ List.replicate (128 * 8) 0))
  else .error .overflow

/-- The word the eight bytes `viua-vm\0` make. -/
def interpWord : InstructionType := BitVec.ofNat 64 (leVal (VIUAVM_INTERP ++ [0]))

/-! ## Reading words -/

theorem toWords_zeros (count : Nat) {n : Nat} (h : 8 * count ≤ n) :
    toWords count (List.replicate n 0) = List.replicate count 0 := by
  induction count generalizing n with
  | zero => rfl
  | succ count ih =>
    have hv : leVal ((List.replicate n (0 : UInt8)).take 8) = 0 := by
      rw [List.take_replicate]
      generalize min 8 n = m
      induction m with
      | zero => rfl
      | succ m ihm => simp [List.replicate_succ, leVal, ihm]
    rw [toWords, List.drop_replicate, hv, ih (by omega)]
    rfl

/-! ## The first three program headers `emit_elf` writes -/

/-- The `PT_INTERP` header as the offset loop leaves it: at `elf_size`, where `.interp` is. -/
def interpSegment (elfSize : Nat) : Phdr :=
  { pType := PT_INTERP, pFilesz := 8, pFlags := PF_R, pOffset := elfSize }

section Prefix
variable (asExecutable : Bool) (entryPointFn : Option Nat) (comment : Bytes)
  (text : List InstructionType) (relocs : Option (List Rel)) (rodataBuf stringTable : Bytes)
  (symbolTable : List Sym)

/-- The void pair, `.viua.magic` and `.interp` come first, whatever the input. -/
theorem buildHeaders_prefix : ∃ rest,
    (buildHeaders comment text relocs rodataBuf stringTable symbolTable).pairs =
      ⟨some { pType := PT_NULL }, { shType := SHT_NULL }⟩ ::
      ⟨some { pType := PT_NULL, pOffset := leVal VIUA_MAGIC, pFilesz := 8 },
        { shName := 1, shType := SHT_NOBITS, shOffset := 72, shSize := 8 }⟩ ::
      ⟨some { pType := PT_INTERP, pFilesz := 8, pFlags := PF_R },
        { shName := 13, shType := SHT_PROGBITS, shSize := 8 }⟩ :: rest := by
  cases relocs <;> exact ⟨_, rfl⟩

/-- The program headers written: the all-zero `PT_NULL`, the magic one, then `PT_INTERP`. -/
theorem segments_elfImage : ∃ rest,
    (elfImage asExecutable entryPointFn comment text relocs rodataBuf stringTable
        symbolTable).pairs.filterMap HeaderPair.seg =
      { pType := PT_NULL } :: { pType := PT_NULL, pOffset := leVal VIUA_MAGIC, pFilesz := 8 } ::
        interpSegment (elfImage asExecutable entryPointFn comment text relocs rodataBuf
          stringTable symbolTable).elfSize :: rest := by
  obtain ⟨rest, hrest⟩ := buildHeaders_prefix comment text relocs rodataBuf stringTable
    symbolTable
  rw [elfImage_pairs, hrest]
  exact ⟨_, rfl⟩

theorem elfSize_lt :
    (elfImage asExecutable entryPointFn comment text relocs rodataBuf stringTable
      symbolTable).elfSize < 2 ^ 64 := by
  have hp : (elfImage asExecutable entryPointFn comment text relocs rodataBuf stringTable
      symbolTable).header.ePhnum = 5 := by cases relocs <;> rfl
  have hs : (elfImage asExecutable entryPointFn comment text relocs rodataBuf stringTable
      symbolTable).header.eShnum = (sectionNames relocs).length :=
    length_buildHeaders comment text relocs rodataBuf stringTable symbolTable
  have hn : (sectionNames relocs).length ≤ 10 := by cases relocs <;> simp [sectionNames]
  rw [elfImage_elfSize, hp, hs]
  omega

/-- The third program header `main` reads is the `PT_INTERP` one. -/
theorem programHeaderBytes_emitElf :
    programHeaderBytes (emitElf asExecutable entryPointFn comment text relocs rodataBuf
        stringTable symbolTable) =
      (interpSegment (elfImage asExecutable entryPointFn comment text relocs rodataBuf
        stringTable symbolTable).elfSize).bytes := by
  obtain ⟨rest, hsegs⟩ := segments_elfImage asExecutable entryPointFn comment text relocs
    rodataBuf stringTable symbolTable
  rw [programHeaderBytes, emitElf_eq, headerBytes, hsegs]
  simp only [List.flatMap_cons, List.append_assoc]
  exact slice_append_right₃ (by simp) (Phdr.length_bytes _)

/-- The interpreter string is the first payload, right after the headers. -/
theorem slice_interp_emitElf :
    slice (emitElf asExecutable entryPointFn comment text relocs rodataBuf stringTable
        symbolTable)
      (elfImage asExecutable entryPointFn comment text relocs rodataBuf stringTable
        symbolTable).elfSize 8 = VIUAVM_INTERP ++ [0] := by
  rw [emitElf_eq]
  simp only [payloads, List.append_assoc, List.singleton_append, List.flatten_cons]
  exact slice_append_right (length_headerBytes asExecutable entryPointFn comment text relocs
    rodataBuf stringTable symbolTable) rfl

end Prefix

/-- **`main` loads the interpreter string, not `.text`.** For every input of `emit_elf`, the
loader's array holds the word `viua-vm\0` and then 127 zero words, whatever the text was. -/
theorem loadText_emitElf (asExecutable : Bool) (entryPointFn : Option Nat) (comment : Bytes)
    (text : List InstructionType) (relocs : Option (List Rel)) (rodataBuf stringTable : Bytes)
    (symbolTable : List Sym) :
    loadText (emitElf asExecutable entryPointFn comment text relocs rodataBuf stringTable
      symbolTable) = .ok (interpWord :: List.replicate 127 0) := by
  have hoff := (Phdr.leVal_offset (interpSegment (elfImage asExecutable entryPointFn comment text
    relocs rodataBuf stringTable symbolTable).elfSize)).trans
    (Nat.mod_eq_of_lt (elfSize_lt asExecutable entryPointFn comment text relocs rodataBuf
      stringTable symbolTable))
  have hsz := (Phdr.leVal_filesz (interpSegment (elfImage asExecutable entryPointFn comment text
    relocs rodataBuf stringTable symbolTable).elfSize)).trans
    (show (interpSegment _).pFilesz % 2 ^ 64 = 8 from rfl)
  simp only [loadText, programHeaderBytes_emitElf, hoff, hsz]
  rw [if_pos (by norm_num), show ∀ n, (interpSegment n).pOffset = n from fun _ => rfl,
    slice_interp_emitElf]
  rw [show 128 = 127 + 1 from rfl, toWords,
    List.take_left' (show (VIUAVM_INTERP ++ [0]).length = 8 from rfl),
    List.drop_left' (show (VIUAVM_INTERP ++ [0]).length = 8 from rfl), toWords_zeros 127 (by norm_num)]
  rfl


end ViuaVm.Elf.Load
