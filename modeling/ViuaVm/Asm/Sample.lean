import ViuaVm.Asm.LoadImmediate
import ViuaVm.Elf.Load

/-! # The sample executable of `tools/asm.cpp`

Invoked without arguments, `main` of `tools/asm.cpp` fills a 32-word array with a sample
program (`sampleText`) and writes it as an executable: the file header, three program
headers (the magic, the interpreter, the text), the interpreter string and the text's words
(`writeExecutable`).

That layout is the one the loader of `tools/vm.cpp` expects, which skips two program
headers and loads the third: for every text of at most 128 words, the loader gets the text
back, followed by zeros (`loadText_writeExecutable`), and for fewer than 128 words `run`
goes through the loaded array to its end without a fault (`run_writeExecutable`).
`emit_elf` of `tools/exec/asm.cpp` writes one program header more, and the loader gets its
interpreter string instead (`loadText_emitElf`).
-/
namespace ViuaVm.Asm.Sample
open ViuaVm.Arch.Ops ViuaVm.Elf.LittleEndian ViuaVm.Elf.Structs ViuaVm.Elf.Emit
open ViuaVm.Elf.Load ViuaVm.Machine.Core ViuaVm.Machine.Run ViuaVm.Asm.LoadImmediate RegisterAccess

/-- `text_offset`: the text starts after the file header, the three program headers and the
interpreter string. -/
def textOffset : Nat := 64 + 3 * 56 + (VIUAVM_INTERP.length + 1)

/-- `elf_header`: `e_entry` is where the text starts. -/
def elfHeader : Ehdr :=
  { eIdent := E_IDENT
    eType := ET_EXEC
    eMachine := ET_NONE
    eVersion := 1
    eEntry := textOffset
    ePhoff := 64
    eShoff := 0
    eFlags := 0
    eEhsize := 64
    ePhentsize := 56
    ePhnum := 3
    eShentsize := 0
    eShnum := 0
    eShstrndx := 0
    eIdent_length := rfl }

/-- `magic_for_binfmt_misc`: the magic goes into `p_offset`. -/
def magicForBinfmtMisc : Phdr := { pType := PT_NULL, pOffset := leVal VIUA_MAGIC }

/-- `interpreter`. -/
def interpreter : Phdr :=
  { pType := PT_INTERP, pOffset := 64 + 3 * 56, pFilesz := VIUAVM_INTERP.length + 1,
    pFlags := PF_R }

/-- `text_segment`, for the `text` words `ip` went over. -/
def textSegment (text : List InstructionType) : Phdr :=
  { pType := PT_LOAD, pOffset := textOffset, pFilesz := text.length * 8,
    pMemsz := text.length * 8, pFlags := PF_R ||| PF_X, pAlign := 8 }

/-- The executable `main` writes, in the order of its `write` calls. -/
def writeExecutable (text : List InstructionType) : Bytes :=
  elfHeader.bytes ++ magicForBinfmtMisc.bytes ++ interpreter.bytes ++ (textSegment text).bytes ++
    (VIUAVM_INTERP ++ [0]) ++ wordBytes text

/-- The words `main` writes into its array: three loads of an immediate, each followed by
`EBREAK` (the first and the last also by a greedy `DELETE` of register 2 and a `DELETE` of
register 3), and `HALT`. -/
def sampleText : List InstructionType :=
  opLi .unsigned 0xdeadbeefdeadbeef#64 ++
    [S.encode ⟨GREEDY ||| OPCODE.DELETE, makeLocal 2⟩, S.encode ⟨OPCODE.DELETE, makeLocal 3⟩,
      OPCODE.EBREAK.setWidth 64] ++
    opLi .signed 42#64 ++ [OPCODE.EBREAK.setWidth 64] ++
    opLi .signed (BitVec.ofInt 64 (-1)) ++
    [S.encode ⟨GREEDY ||| OPCODE.DELETE, makeLocal 2⟩, S.encode ⟨OPCODE.DELETE, makeLocal 3⟩,
      OPCODE.EBREAK.setWidth 64, OPCODE.HALT.setWidth 64]

/-- The sample fits the 32-word array `main` writes it into. -/
theorem length_sampleText : sampleText.length = 23 := by decide

/-! ## The loader reads it back -/

/-- The third program header is the text segment's. -/
theorem programHeaderBytes_writeExecutable (text : List InstructionType) :
    programHeaderBytes (writeExecutable text) = (textSegment text).bytes := by
  simp only [programHeaderBytes, writeExecutable, List.append_assoc]
  exact slice_append_right₃ (by simp [elfHeader, E_IDENT]) (Phdr.length_bytes _)

/-- The text's bytes come right after the headers and the interpreter string. -/
theorem slice_text_writeExecutable (text : List InstructionType) :
    slice (writeExecutable text) textOffset (text.length * 8) = wordBytes text := by
  have hpre : (elfHeader.bytes ++ magicForBinfmtMisc.bytes ++ interpreter.bytes ++
      (textSegment text).bytes ++ (VIUAVM_INTERP ++ [0])).length = textOffset := by
    simp [elfHeader, E_IDENT]; rfl
  have h := slice_append_shift (elfHeader.bytes ++ magicForBinfmtMisc.bytes ++
    interpreter.bytes ++ (textSegment text).bytes ++ (VIUAVM_INTERP ++ [0])) (wordBytes text) 0
    (text.length * 8)
  rw [Nat.add_zero, hpre] at h
  rw [writeExecutable, h, Elf.LittleEndian.slice, List.drop_zero,
    List.take_of_length_le (by simp [Nat.mul_comm])]

/-- **The VM loads the text the sample writer writes.** For every text of at most 128 words,
the loader of `tools/vm.cpp` reads the text segment's program header and loads the text,
followed by zero words. -/
theorem loadText_writeExecutable (text : List InstructionType) (h : text.length ≤ 128) :
    loadText (writeExecutable text) = .ok (text ++ List.replicate (128 - text.length) 0) := by
  have hoff := (Phdr.leVal_offset (textSegment text)).trans
    (Nat.mod_eq_of_lt (show textOffset < 2 ^ 64 by decide))
  have hsz := (Phdr.leVal_filesz (textSegment text)).trans
    (Nat.mod_eq_of_lt (show text.length * 8 < 2 ^ 64 by omega))
  simp only [loadText, programHeaderBytes_writeExecutable]
  rw [show (textSegment text).pOffset = textOffset from rfl] at hoff
  rw [show (textSegment text).pFilesz = text.length * 8 from rfl] at hsz
  rw [hoff, hsz, if_pos (by omega), slice_text_writeExecutable,
    congrArg toWords (show 128 = text.length + (128 - text.length) by omega),
    toWords_wordBytes, toWords_zeros _ (by omega)]

/-! ## The VM runs it -/

/-- **The VM runs what the sample writer writes, to its end.** For every text of fewer than
128 words, the loader of `tools/vm.cpp` gets the text back followed by zero words, and `run`,
from the first word on the 256 void registers `main` starts with, ends without a fault: the
zero word after the text is not greedy, so no bundle reads past the array. -/
theorem run_writeExecutable (text : List InstructionType) (h : text.length < 128) :
    loadText (writeExecutable text) = .ok (text ++ List.replicate (128 - text.length) 0) ∧
      ∃ r cs, run (text ++ List.replicate (128 - text.length) 0) Registers.initial 0 =
        .ok (r, cs) := by
  refine ⟨loadText_writeExecutable text h.le,
    run_total (greedyClosed_of_getLast ?_) unboxed_initial (Nat.zero_le _)⟩
  obtain ⟨n, hn⟩ : ∃ n, 128 - text.length = n + 1 := ⟨127 - text.length, by omega⟩
  simp only [hn, List.replicate_succ', ← List.append_assoc, List.getLast?_concat,
    Option.mem_def, Option.some.injEq]
  rintro _ rfl
  decide

/-- The sample itself loads as its 23 words and 105 zeros, and runs to its end. -/
theorem run_writeExecutable_sample :
    sampleText.length < 128 ∧
      (loadText (writeExecutable sampleText) =
          .ok (sampleText ++ List.replicate (128 - sampleText.length) 0) ∧
        ∃ r cs, run (sampleText ++ List.replicate (128 - sampleText.length) 0)
          Registers.initial 0 = .ok (r, cs)) :=
  ⟨by rw [length_sampleText]; omega,
    run_writeExecutable sampleText (by rw [length_sampleText]; omega)⟩

end ViuaVm.Asm.Sample
