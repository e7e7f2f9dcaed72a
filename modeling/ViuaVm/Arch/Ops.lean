import Mathlib

/-! # Instruction words

The opcode table and the per-format codec of `viua/arch/ops.h` and `viua/arch/arch.h`
are not among the sources; only their uses are (`tools/asm.cpp`, `tools/vm.cpp`,
`tools/exec/asm.cpp`). Every definition below whose docstring starts with
"Modelled from the spec" follows the spec's field widths (section 3) and the opcode
words that the codec test of `tools/asm.cpp` prints (`0x1001`, `0x9001`, `0x5001`): the
low 16 bits of a word are the opcode, bit 15 of the opcode is the greedy bit, bits
12-14 are the format. Operand fields are kept as numbers so that `omega` decides the
arithmetic of the round trips.
-/
namespace ViuaVm.Arch.Ops

/-- `viua::arch::instruction_type`. -/
abbrev InstructionType := BitVec 64

/-- `viua::arch::opcode_type`. -/
abbrev OpcodeType := BitVec 16

/-! ## Opcodes -/

/-- Modelled from the spec: the greedy bit, an overlay on the opcode. -/
def GREEDY : OpcodeType := 0x8000
/-- Modelled from the spec: the opcode without the greedy bit. -/
def OPCODE_MASK : OpcodeType := 0x7fff
/-- Modelled from the spec: the format bits of an opcode. -/
def FORMAT_MASK : OpcodeType := 0x7000

/-- Modelled from the spec: the seven operand layouts. -/
inductive Format
  | N | T | D | S | F | E | R
  deriving DecidableEq, Repr

/-- Modelled from the spec: the format bits each format is tagged with. -/
def Format.tag : Format → OpcodeType
  | .N => 0x0000
  | .T => 0x1000
  | .D => 0x2000
  | .S => 0x3000
  | .F => 0x4000
  | .E => 0x5000
  | .R => 0x6000

/-- `static_cast<FORMAT>(opcode & FORMAT_MASK)` as the dispatcher's `switch` sees it: the
format whose tag the bits are, or none for the eighth value of the three bits. -/
def Format.ofOpcode (opcode : OpcodeType) : Option Format :=
  [Format.N, .T, .D, .S, .F, .E, .R].find? fun f => f.tag = opcode &&& FORMAT_MASK

/-! Modelled from the spec: the opcodes that the sources under study name. -/
namespace OPCODE
def NOOP : OpcodeType := 0x0000
def HALT : OpcodeType := 0x0001
def EBREAK : OpcodeType := 0x0002
def ADD : OpcodeType := 0x1001
def SUB : OpcodeType := 0x1002
def MUL : OpcodeType := 0x1003
def DIV : OpcodeType := 0x1004
def CALL : OpcodeType := 0x2001
def DELETE : OpcodeType := 0x3001
def ATOM : OpcodeType := 0x3002
def LUI : OpcodeType := 0x5001
def LUIU : OpcodeType := 0x5002
def ADDI : OpcodeType := 0x6001
def ADDIU : OpcodeType := 0x6002
def SUBI : OpcodeType := 0x6003
def SUBIU : OpcodeType := 0x6004
def MULI : OpcodeType := 0x6005
def MULIU : OpcodeType := 0x6006
def DIVI : OpcodeType := 0x6007
def DIVIU : OpcodeType := 0x6008
end OPCODE

/-- `raw & OPCODE_MASK`, cast to `opcode_type`: the opcode with the greedy bit cleared. -/
def opcodeOf (raw : InstructionType) : OpcodeType := raw.setWidth 16 &&& OPCODE_MASK

/-- `instruction & GREEDY`, the test of both loops of the interpreter. -/
def isGreedy (instruction : InstructionType) : Bool :=
  instruction &&& GREEDY.setWidth 64 != 0

/-! ## Register accesses -/

/-- Modelled from the spec: a register set, an indirection bit and an 8-bit index. The set
is three bits wide: `0` is `VOID`, `1` is `LOCAL`. -/
structure RegisterAccess where
  set : BitVec 3
  direct : Bool
  index : Fin 256
  deriving DecidableEq, Repr

namespace RegisterAccess

/-- `REGISTER_SET::VOID`. -/
def VOID : BitVec 3 := 0
/-- `REGISTER_SET::LOCAL`. -/
def LOCAL : BitVec 3 := 1

def makeLocal (index : Fin 256) : RegisterAccess := ⟨LOCAL, true, index⟩
def makeVoid : RegisterAccess := ⟨VOID, true, 0⟩
def isVoid (r : RegisterAccess) : Bool := r.set == VOID

/-- Modelled from the spec: the access packed into 12 bits, index lowest. -/
def encode (r : RegisterAccess) : Nat :=
  r.index.val + 2 ^ 8 * (if r.direct then 1 else 0) + 2 ^ 9 * r.set.toNat

/-- Modelled from the spec: the inverse of `encode` on the low 12 bits of `x`. -/
def decode (x : Nat) : RegisterAccess :=
  ⟨BitVec.ofNat 3 (x / 2 ^ 9), x / 2 ^ 8 % 2 = 1, ⟨x % 256, Nat.mod_lt _ (by decide)⟩⟩

theorem encode_lt (r : RegisterAccess) : r.encode < 2 ^ 12 := by
  have := r.index.isLt; have := r.set.isLt
  unfold encode; split <;> omega

@[simp] theorem decode_encode (r : RegisterAccess) : decode r.encode = r := by
  obtain ⟨s, d, ⟨i, hi⟩⟩ := r
  have hs := s.isLt
  simp only [decode, encode, mk.injEq, Fin.mk.injEq]
  refine ⟨?_, ?_, ?_⟩
  · apply BitVec.eq_of_toNat_eq; cases d <;> simp <;> omega
  · cases d <;> simp <;> omega
  · cases d <;> simp <;> omega

/-- Decoding reads only the low 12 bits. -/
theorem decode_mod (x : Nat) : decode (x % 2 ^ 12) = decode x := by
  simp only [decode, mk.injEq, Fin.mk.injEq]
  refine ⟨?_, ?_, ?_⟩
  · apply BitVec.eq_of_toNat_eq; simp; omega
  · simp only [decide_eq_decide]; omega
  · omega

@[simp] theorem makeLocal_index (i : Fin 256) : (makeLocal i).index = i := rfl
@[simp] theorem isVoid_makeVoid : makeVoid.isVoid = true := rfl
@[simp] theorem isVoid_makeLocal (i : Fin 256) : (makeLocal i).isVoid = false := rfl

end RegisterAccess

/-! ## Formats

Each format is a structure of its operands with an `encode` and a `decode`. All of them
put the opcode in the low 16 bits (`pack`) and read it back from there, so the opcode and
the greedy bit of an encoded word are those of the structure it was encoded from. -/

/-- Modelled from the spec: the opcode in the low 16 bits, the operand bits above it. -/
def pack (opcode : OpcodeType) (operands : Nat) : InstructionType :=
  BitVec.ofNat 64 (opcode.toNat + 2 ^ 16 * operands)

/-- Modelled from the spec: the operand bits `[lo, lo + len)`, counted from bit 16. -/
def operand (raw : InstructionType) (lo len : Nat) : Nat :=
  raw.toNat / 2 ^ (16 + lo) % 2 ^ len

theorem toNat_pack (opcode : OpcodeType) {operands : Nat} (h : operands < 2 ^ 48) :
    (pack opcode operands).toNat = opcode.toNat + 2 ^ 16 * operands := by
  have := opcode.isLt
  simp only [pack, BitVec.toNat_ofNat]; omega

theorem operand_pack (opcode : OpcodeType) {operands : Nat} (h : operands < 2 ^ 48)
    (lo len : Nat) : operand (pack opcode operands) lo len = operands / 2 ^ lo % 2 ^ len := by
  have := opcode.isLt
  have hr : (opcode.toNat + 2 ^ 16 * operands) / 2 ^ 16 = operands := by omega
  rw [operand, toNat_pack _ h, Nat.pow_add, ← Nat.div_div_eq_div_mul, hr]

@[simp] theorem setWidth_pack (opcode : OpcodeType) (operands : Nat) :
    (pack opcode operands).setWidth 16 = opcode := by
  apply BitVec.eq_of_toNat_eq
  have := opcode.isLt
  simp only [pack, BitVec.toNat_setWidth, BitVec.toNat_ofNat]; omega

theorem isGreedy_iff_testBit (w : InstructionType) : isGreedy w = w.toNat.testBit 15 := by
  have hg : GREEDY.setWidth 64 = BitVec.twoPow 64 15 := by decide
  rw [isGreedy, hg, BitVec.and_twoPow, BitVec.testBit_toNat]
  split <;> simp_all [BitVec.twoPow]

@[simp] theorem isGreedy_pack (opcode : OpcodeType) {operands : Nat} (h : operands < 2 ^ 48) :
    isGreedy (pack opcode operands) = opcode.toNat.testBit 15 := by
  rw [isGreedy_iff_testBit, toNat_pack _ h, Nat.testBit_to_div_mod, Nat.testBit_to_div_mod]
  have := opcode.isLt
  simp only [decide_eq_decide]; omega

@[simp] theorem opcodeOf_pack (opcode : OpcodeType) (operands : Nat) :
    opcodeOf (pack opcode operands) = opcode &&& OPCODE_MASK := by
  simp [opcodeOf]

/-- No operands. -/
structure N where
  opcode : OpcodeType
  deriving DecidableEq, Repr

/-- One register: `out`. -/
structure S where
  opcode : OpcodeType
  out : RegisterAccess
  deriving DecidableEq, Repr

/-- Two registers: `out`, `in`. -/
structure D where
  opcode : OpcodeType
  out : RegisterAccess
  input : RegisterAccess
  deriving DecidableEq, Repr

/-- Three registers: `out`, `lhs`, `rhs`. -/
structure T where
  opcode : OpcodeType
  out : RegisterAccess
  lhs : RegisterAccess
  rhs : RegisterAccess
  deriving DecidableEq, Repr

/-- One register and a 32-bit immediate, half of a 64-bit literal. -/
structure F where
  opcode : OpcodeType
  out : RegisterAccess
  immediate : BitVec 32
  deriving DecidableEq, Repr

/-- One register and a 36-bit immediate, held in a `uint64_t`. -/
structure E where
  opcode : OpcodeType
  out : RegisterAccess
  immediate : BitVec 64
  deriving DecidableEq, Repr

/-- Two registers and a 24-bit immediate, held in a `uint32_t`. -/
structure R where
  opcode : OpcodeType
  out : RegisterAccess
  input : RegisterAccess
  immediate : BitVec 32
  deriving DecidableEq, Repr

namespace N
def encode (i : N) : InstructionType := pack i.opcode 0
def decode (raw : InstructionType) : N := ⟨raw.setWidth 16⟩
@[simp] theorem decode_encode (i : N) : decode i.encode = i := by simp [decode, encode]
end N

namespace S
def encode (i : S) : InstructionType := pack i.opcode i.out.encode
def decode (raw : InstructionType) : S :=
  ⟨raw.setWidth 16, .decode (operand raw 0 16)⟩
@[simp] theorem decode_encode (i : S) : decode i.encode = i := by
  have := i.out.encode_lt
  rw [decode, encode, operand_pack _ (by omega), setWidth_pack]
  simp only [pow_zero, Nat.div_one, Nat.mod_eq_of_lt (show i.out.encode < 2 ^ 16 by omega),
    RegisterAccess.decode_encode]
end S

namespace D
def encode (i : D) : InstructionType := pack i.opcode (i.out.encode + 2 ^ 16 * i.input.encode)
def decode (raw : InstructionType) : D :=
  ⟨raw.setWidth 16, .decode (operand raw 0 16), .decode (operand raw 16 16)⟩
@[simp] theorem decode_encode (i : D) : decode i.encode = i := by
  have := i.out.encode_lt; have := i.input.encode_lt
  rw [decode, encode, operand_pack _ (by omega), operand_pack _ (by omega), setWidth_pack]
  rw [show (i.out.encode + 2 ^ 16 * i.input.encode) / 2 ^ 0 % 2 ^ 16 = i.out.encode by omega,
    show (i.out.encode + 2 ^ 16 * i.input.encode) / 2 ^ 16 % 2 ^ 16 = i.input.encode by omega]
  simp
end D

namespace T
def encode (i : T) : InstructionType :=
  pack i.opcode (i.out.encode + 2 ^ 16 * i.lhs.encode + 2 ^ 32 * i.rhs.encode)
def decode (raw : InstructionType) : T :=
  ⟨raw.setWidth 16, .decode (operand raw 0 16), .decode (operand raw 16 16),
    .decode (operand raw 32 16)⟩
@[simp] theorem decode_encode (i : T) : decode i.encode = i := by
  have := i.out.encode_lt; have := i.lhs.encode_lt; have := i.rhs.encode_lt
  let r := i.out.encode + 2 ^ 16 * i.lhs.encode + 2 ^ 32 * i.rhs.encode
  have hr : r < 2 ^ 48 := by omega
  rw [decode, encode, operand_pack _ hr, operand_pack _ hr, operand_pack _ hr, setWidth_pack]
  rw [show r / 2 ^ 0 % 2 ^ 16 = i.out.encode by omega,
    show r / 2 ^ 16 % 2 ^ 16 = i.lhs.encode by omega,
    show r / 2 ^ 32 % 2 ^ 16 = i.rhs.encode by omega]
  simp
@[simp] theorem opcodeOf_encode (i : T) : opcodeOf i.encode = i.opcode &&& OPCODE_MASK :=
  opcodeOf_pack _ _
@[simp] theorem isGreedy_encode (i : T) : isGreedy i.encode = i.opcode.toNat.testBit 15 := by
  have := i.out.encode_lt; have := i.lhs.encode_lt; have := i.rhs.encode_lt
  exact isGreedy_pack _ (by omega)
end T

namespace F
def encode (i : F) : InstructionType := pack i.opcode (i.out.encode + 2 ^ 16 * i.immediate.toNat)
def decode (raw : InstructionType) : F :=
  ⟨raw.setWidth 16, .decode (operand raw 0 16), BitVec.ofNat 32 (operand raw 16 32)⟩
@[simp] theorem decode_encode (i : F) : decode i.encode = i := by
  have := i.out.encode_lt; have := i.immediate.isLt
  let r := i.out.encode + 2 ^ 16 * i.immediate.toNat
  have hr : r < 2 ^ 48 := by omega
  rw [decode, encode, operand_pack _ hr, operand_pack _ hr, setWidth_pack]
  rw [show r / 2 ^ 0 % 2 ^ 16 = i.out.encode by omega,
    show r / 2 ^ 16 % 2 ^ 32 = i.immediate.toNat by omega]
  simp
end F

namespace E
def encode (i : E) : InstructionType :=
  pack i.opcode (i.out.encode + 2 ^ 12 * (i.immediate.toNat % 2 ^ 36))
def decode (raw : InstructionType) : E :=
  ⟨raw.setWidth 16, .decode (operand raw 0 12), BitVec.ofNat 64 (operand raw 12 36)⟩
/-- An immediate that fits its 36 bits survives the round trip. -/
theorem decode_encode (i : E) (h : i.immediate.toNat < 2 ^ 36) : decode i.encode = i := by
  have := i.out.encode_lt
  let r := i.out.encode + 2 ^ 12 * (i.immediate.toNat % 2 ^ 36)
  have hr : r < 2 ^ 48 := by omega
  rw [decode, encode, operand_pack _ hr, operand_pack _ hr, setWidth_pack]
  rw [show r / 2 ^ 0 % 2 ^ 12 = i.out.encode by omega,
    show r / 2 ^ 12 % 2 ^ 36 = i.immediate.toNat by omega]
  simp
@[simp] theorem opcodeOf_encode (i : E) : opcodeOf i.encode = i.opcode &&& OPCODE_MASK :=
  opcodeOf_pack _ _
@[simp] theorem isGreedy_encode (i : E) : isGreedy i.encode = i.opcode.toNat.testBit 15 := by
  have := i.out.encode_lt
  exact isGreedy_pack _ (by omega)
end E

namespace R
def encode (i : R) : InstructionType :=
  pack i.opcode (i.out.encode + 2 ^ 12 * i.input.encode + 2 ^ 24 * (i.immediate.toNat % 2 ^ 24))
def decode (raw : InstructionType) : R :=
  ⟨raw.setWidth 16, .decode (operand raw 0 12), .decode (operand raw 12 12),
    BitVec.ofNat 32 (operand raw 24 24)⟩
/-- An immediate that fits its 24 bits survives the round trip. -/
theorem decode_encode (i : R) (h : i.immediate.toNat < 2 ^ 24) : decode i.encode = i := by
  have := i.out.encode_lt; have := i.input.encode_lt
  let r := i.out.encode + 2 ^ 12 * i.input.encode + 2 ^ 24 * (i.immediate.toNat % 2 ^ 24)
  have hr : r < 2 ^ 48 := by omega
  rw [decode, encode, operand_pack _ hr, operand_pack _ hr, operand_pack _ hr, setWidth_pack]
  rw [show r / 2 ^ 0 % 2 ^ 12 = i.out.encode by omega,
    show r / 2 ^ 12 % 2 ^ 12 = i.input.encode by omega,
    show r / 2 ^ 24 % 2 ^ 24 = i.immediate.toNat by omega]
  simp
@[simp] theorem opcodeOf_encode (i : R) : opcodeOf i.encode = i.opcode &&& OPCODE_MASK :=
  opcodeOf_pack _ _
@[simp] theorem isGreedy_encode (i : R) : isGreedy i.encode = i.opcode.toNat.testBit 15 := by
  have := i.out.encode_lt; have := i.input.encode_lt
  exact isGreedy_pack _ (by omega)
end R

end ViuaVm.Arch.Ops
