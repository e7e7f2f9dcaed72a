import ViuaVm.Elf.LittleEndian

/-! # The structures of `<elf.h>`

`Elf64_Ehdr`, `Elf64_Phdr`, `Elf64_Shdr`, `Elf64_Sym` and `Elf64_Rel` with their fields in
declaration order, and `bytes`, what `write(fd, &s, sizeof(s))` puts in the file: each field
little-endian in its width, with no padding, since every field of these structures is
aligned to its own size. Fields are natural numbers; a field's bytes hold it modulo its
width (`leVal_leBytes`).

The constants are those of `<elf.h>` that the assembler and the VM use.
-/
namespace ViuaVm.Elf.Structs
open ViuaVm.Elf.LittleEndian

/-! ## Constants of `<elf.h>` -/

def PT_NULL : Nat := 0
def PT_LOAD : Nat := 1
def PT_INTERP : Nat := 3

def PF_X : Nat := 1
def PF_R : Nat := 4

def SHT_NULL : Nat := 0
def SHT_PROGBITS : Nat := 1
def SHT_SYMTAB : Nat := 2
def SHT_STRTAB : Nat := 3
def SHT_NOBITS : Nat := 8
def SHT_REL : Nat := 9

def SHF_ALLOC : Nat := 0x2
def SHF_EXECINSTR : Nat := 0x4
def SHF_STRINGS : Nat := 0x20
def SHF_INFO_LINK : Nat := 0x40

def STT_NOTYPE : Nat := 0
def STT_OBJECT : Nat := 1
def STT_FUNC : Nat := 2
def STT_FILE : Nat := 4
def STB_LOCAL : Nat := 0
def STB_GLOBAL : Nat := 1
def STV_DEFAULT : Nat := 0

def SHN_UNDEF : Nat := 0
def SHN_ABS : Nat := 0xfff1

def ET_NONE : Nat := 0
def ET_REL : Nat := 1
def ET_EXEC : Nat := 2

/-- `ELF64_ST_INFO(bind, type)`. -/
def ELF64_ST_INFO (bind type : Nat) : Nat := bind * 16 + type % 16

/-- `ELF64_R_INFO(sym, type)`. -/
def ELF64_R_INFO (sym type : Nat) : Nat := sym * 2 ^ 32 + type

/-- `ELF64_ST_TYPE(info)`. -/
def ELF64_ST_TYPE (info : Nat) : Nat := info % 16

/-! ## Structures -/

/-- `Elf64_Ehdr`; `eIdent` is the 16-byte `e_ident` array. -/
structure Ehdr where
  eIdent : Bytes
  eType : Nat
  eMachine : Nat
  eVersion : Nat
  eEntry : Nat
  ePhoff : Nat
  eShoff : Nat
  eFlags : Nat
  eEhsize : Nat
  ePhentsize : Nat
  ePhnum : Nat
  eShentsize : Nat
  eShnum : Nat
  eShstrndx : Nat
  eIdent_length : eIdent.length = 16
  deriving DecidableEq

/-- `Elf64_Phdr`. -/
structure Phdr where
  pType : Nat := 0
  pFlags : Nat := 0
  pOffset : Nat := 0
  pVaddr : Nat := 0
  pPaddr : Nat := 0
  pFilesz : Nat := 0
  pMemsz : Nat := 0
  pAlign : Nat := 0
  deriving DecidableEq, Repr

/-- `Elf64_Shdr`. -/
structure Shdr where
  shName : Nat := 0
  shType : Nat := 0
  shFlags : Nat := 0
  shAddr : Nat := 0
  shOffset : Nat := 0
  shSize : Nat := 0
  shLink : Nat := 0
  shInfo : Nat := 0
  shAddralign : Nat := 0
  shEntsize : Nat := 0
  deriving DecidableEq, Repr

/-- `Elf64_Sym`. -/
structure Sym where
  stName : Nat := 0
  stInfo : Nat := 0
  stOther : Nat := 0
  stShndx : Nat := 0
  stValue : Nat := 0
  stSize : Nat := 0
  deriving DecidableEq, Repr

/-- `Elf64_Rel`. -/
structure Rel where
  rOffset : Nat
  rInfo : Nat
  deriving DecidableEq, Repr

/-! ## What `write(2)` puts in the file -/

def Ehdr.bytes (e : Ehdr) : Bytes :=
  e.eIdent ++ leBytes 2 e.eType ++ leBytes 2 e.eMachine ++ leBytes 4 e.eVersion ++
    leBytes 8 e.eEntry ++ leBytes 8 e.ePhoff ++ leBytes 8 e.eShoff ++ leBytes 4 e.eFlags ++
    leBytes 2 e.eEhsize ++ leBytes 2 e.ePhentsize ++ leBytes 2 e.ePhnum ++
    leBytes 2 e.eShentsize ++ leBytes 2 e.eShnum ++ leBytes 2 e.eShstrndx

def Phdr.bytes (p : Phdr) : Bytes :=
  leBytes 4 p.pType ++ leBytes 4 p.pFlags ++ leBytes 8 p.pOffset ++ leBytes 8 p.pVaddr ++
    leBytes 8 p.pPaddr ++ leBytes 8 p.pFilesz ++ leBytes 8 p.pMemsz ++ leBytes 8 p.pAlign

def Shdr.bytes (s : Shdr) : Bytes :=
  leBytes 4 s.shName ++ leBytes 4 s.shType ++ leBytes 8 s.shFlags ++ leBytes 8 s.shAddr ++
    leBytes 8 s.shOffset ++ leBytes 8 s.shSize ++ leBytes 4 s.shLink ++ leBytes 4 s.shInfo ++
    leBytes 8 s.shAddralign ++ leBytes 8 s.shEntsize

def Sym.bytes (s : Sym) : Bytes :=
  leBytes 4 s.stName ++ leBytes 1 s.stInfo ++ leBytes 1 s.stOther ++ leBytes 2 s.stShndx ++
    leBytes 8 s.stValue ++ leBytes 8 s.stSize

def Rel.bytes (r : Rel) : Bytes := leBytes 8 r.rOffset ++ leBytes 8 r.rInfo

/-- `sizeof(Elf64_Ehdr)`. -/
@[simp] theorem Ehdr.length_bytes (e : Ehdr) : e.bytes.length = 64 := by
  simp [Ehdr.bytes, e.eIdent_length]

/-- `sizeof(Elf64_Phdr)`. -/
@[simp] theorem Phdr.length_bytes (p : Phdr) : p.bytes.length = 56 := by simp [Phdr.bytes]

/-- `sizeof(Elf64_Shdr)`. -/
@[simp] theorem Shdr.length_bytes (s : Shdr) : s.bytes.length = 64 := by simp [Shdr.bytes]

/-- `sizeof(Elf64_Sym)`. -/
@[simp] theorem Sym.length_bytes (s : Sym) : s.bytes.length = 24 := by simp [Sym.bytes]

/-- `sizeof(Elf64_Rel)`. -/
@[simp] theorem Rel.length_bytes (r : Rel) : r.bytes.length = 16 := by simp [Rel.bytes]

@[simp] theorem length_flatMap_phdr (l : List Phdr) : (l.flatMap Phdr.bytes).length = 56 * l.length :=
  length_flatMap_of_length Phdr.length_bytes l

@[simp] theorem length_flatMap_sym (l : List Sym) : (l.flatMap Sym.bytes).length = 24 * l.length :=
  length_flatMap_of_length Sym.length_bytes l

@[simp] theorem length_flatMap_rel (l : List Rel) : (l.flatMap Rel.bytes).length = 16 * l.length :=
  length_flatMap_of_length Rel.length_bytes l

/-! ## What `read(2)` into a header gives back -/

/-- `e_entry` is at offset 24 of the file header. -/
theorem Ehdr.leVal_entry (e : Ehdr) : leVal (slice e.bytes 24 8) = e.eEntry % 2 ^ 64 := by
  have h : e.bytes = (e.eIdent ++ leBytes 2 e.eType ++ leBytes 2 e.eMachine ++
      leBytes 4 e.eVersion) ++ leBytes 8 e.eEntry ++ (leBytes 8 e.ePhoff ++ leBytes 8 e.eShoff ++
      leBytes 4 e.eFlags ++ leBytes 2 e.eEhsize ++ leBytes 2 e.ePhentsize ++ leBytes 2 e.ePhnum ++
      leBytes 2 e.eShentsize ++ leBytes 2 e.eShnum ++ leBytes 2 e.eShstrndx) := by
    simp [Ehdr.bytes]
  rw [h, slice_append_of_length (by simp [e.eIdent_length]) (length_leBytes 8 _), leVal_leBytes]

/-- `p_offset` is at offset 8 of a program header. -/
theorem Phdr.leVal_offset (p : Phdr) : leVal (slice p.bytes 8 8) = p.pOffset % 2 ^ 64 := by
  have h : p.bytes = (leBytes 4 p.pType ++ leBytes 4 p.pFlags) ++ leBytes 8 p.pOffset ++
      (leBytes 8 p.pVaddr ++ leBytes 8 p.pPaddr ++ leBytes 8 p.pFilesz ++ leBytes 8 p.pMemsz ++
        leBytes 8 p.pAlign) := by simp [Phdr.bytes]
  rw [h, slice_append_of_length (by simp) (length_leBytes 8 _), leVal_leBytes]

/-- `p_filesz` is at offset 32 of a program header. -/
theorem Phdr.leVal_filesz (p : Phdr) : leVal (slice p.bytes 32 8) = p.pFilesz % 2 ^ 64 := by
  have h : p.bytes = (leBytes 4 p.pType ++ leBytes 4 p.pFlags ++ leBytes 8 p.pOffset ++
      leBytes 8 p.pVaddr ++ leBytes 8 p.pPaddr) ++ leBytes 8 p.pFilesz ++
      (leBytes 8 p.pMemsz ++ leBytes 8 p.pAlign) := by simp [Phdr.bytes]
  rw [h, slice_append_of_length (by simp) (length_leBytes 8 _), leVal_leBytes]

end ViuaVm.Elf.Structs
