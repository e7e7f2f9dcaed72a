import ViuaVm.Arch.Ops

/-! # Registers and the executors of `tools/vm.cpp`

A register holds a `Value`: an unboxed type tag and a `std::variant<uint64_t, void*>`.
The file has 256 of them and instructions index it with 8 bits, so `registers.at` never
throws; `std::get<uint64_t>` does throw on a boxed slot, which `Fault.badVariantAccess`
records. No executor ever writes a boxed value, so a file that starts unboxed, as the one
`main` builds, stays so (`Unboxed`), and then no executor fails.

`execute` is the dispatcher: it decodes a word by the format bits of its opcode and runs
the executor of the opcode, returning `ip + 1`, or `none` for the `nullptr` of `HALT` and
of the instructions it rejects.
-/
namespace ViuaVm.Machine.Core
open ViuaVm.Arch.Ops

/-- `Value::Unboxed_type`. -/
inductive UnboxedType
  | void | byte | integerSigned | integerUnsigned | floatSingle | floatDouble
  deriving DecidableEq, Repr

/-- The alternatives of `std::variant<uint64_t, void*>`. -/
inductive Payload
  | word (u : BitVec 64)
  | boxed (handle : Nat)
  deriving DecidableEq, Repr

structure Value where
  typeOfUnboxed : UnboxedType
  value : Payload
  deriving DecidableEq, Repr

/-- What went wrong in a run that ended abnormally. -/
inductive Fault
  /-- `std::get<uint64_t>` on a boxed value threw `std::bad_variant_access`. -/
  | badVariantAccess
  /-- A greedy bundle read the word at `ip`, past the end of the text: undefined behaviour. -/
  | fetchPastEnd (ip : Nat)
  deriving DecidableEq, Repr

namespace Value

/-- A value-initialised slot, as `std::vector<Value>(256)` makes them. -/
def empty : Value := ⟨.void, .word 0⟩

def isBoxed (v : Value) : Bool := v.value matches .boxed _

def isVoid (v : Value) : Bool := !v.isBoxed && v.typeOfUnboxed == .void

/-- `std::get<uint64_t>(v.value)`. -/
def get (v : Value) : Except Fault (BitVec 64) :=
  match v.value with
  | .word u => .ok u
  | .boxed _ => .error .badVariantAccess

@[simp] theorem get_word (t : UnboxedType) (u : BitVec 64) : get ⟨t, .word u⟩ = .ok u := rfl

end Value

/-- The register file of a frame. -/
def Registers := Fin 256 → Value

/-- The file `main` starts the machine with. -/
def Registers.initial : Registers := fun _ => Value.empty

/-- Every slot holds a `uint64_t`. -/
def Unboxed (registers : Registers) : Prop := ∀ i, (registers i).isBoxed = false

theorem Unboxed.get {registers : Registers} (h : Unboxed registers) (i : Fin 256) :
    ∃ u, (registers i).get = .ok u := by
  have hi := h i
  unfold Value.isBoxed at hi
  unfold Value.get
  split
  · exact ⟨_, rfl⟩
  · simp_all

theorem Unboxed.update {registers : Registers} (h : Unboxed registers) (i : Fin 256)
    (t : UnboxedType) (u : BitVec 64) :
    Unboxed (Function.update registers i ⟨t, .word u⟩) := by
  intro j
  by_cases hj : j = i
  · subst hj; simp [Value.isBoxed]
  · simpa [Function.update_noteq hj] using h j

theorem unboxed_initial : Unboxed Registers.initial := fun _ => rfl

/-! ## Executors -/

/-- The arithmetic executors (`ADD`, `SUB`, `MUL`): the result takes `lhs`'s tag. -/
def executeArithmetic (f : BitVec 64 → BitVec 64 → BitVec 64) (registers : Registers)
    (op : T) : Except Fault Registers := do
  let lhs := registers op.lhs.index
  let a ← lhs.get
  let b ← (registers op.rhs.index).get
  pure (Function.update registers op.out.index ⟨lhs.typeOfUnboxed, .word (f a b)⟩)

def executeADD : Registers → T → Except Fault Registers := executeArithmetic (· + ·)
def executeSUB : Registers → T → Except Fault Registers := executeArithmetic (· - ·)
def executeMUL : Registers → T → Except Fault Registers := executeArithmetic (· * ·)

/-- `LUI` and `LUIU`: `immediate << 28`, tagged by the instruction. -/
def executeLoadUpper (tag : UnboxedType) (registers : Registers) (op : E) : Registers :=
  Function.update registers op.out.index ⟨tag, .word (op.immediate <<< 28)⟩

def executeLUI : Registers → E → Registers := executeLoadUpper .integerSigned
def executeLUIU : Registers → E → Registers := executeLoadUpper .integerUnsigned

/-- `ADDI` and `ADDIU`: the immediate added to `in`, or to zero when `in` is void. -/
def executeAddImmediate (tag : UnboxedType) (registers : Registers) (op : R) :
    Except Fault Registers := do
  let base ← if op.input.isVoid then pure 0 else (registers op.input.index).get
  pure (Function.update registers op.out.index ⟨tag, .word (base + op.immediate.setWidth 64)⟩)

def executeADDI : Registers → R → Except Fault Registers := executeAddImmediate .integerSigned
def executeADDIU : Registers → R → Except Fault Registers :=
  executeAddImmediate .integerUnsigned

/-- `DELETE` resets the slot to a void `0`. -/
def executeDELETE (registers : Registers) (op : S) : Registers :=
  Function.update registers op.out.index ⟨.void, .word 0⟩

/-- `EBREAK` only writes a dump of the non-void registers to the trace stream. -/
def executeEBREAK (registers : Registers) (_ : N) : Registers := registers

/-! ## Dispatch -/

/-- `machine::core::ins::execute(registers, ip)` on the word `raw` fetched from `ip`: the
next instruction pointer is `some (ip + 1)`, and `none` is the `nullptr` that stops the
bundle and the run. The `E`, `R` and `N` switches have no `default` branch, and the
format switch has no case for the eighth format value: those words fall through to
`ip + 1`. -/
def execute (registers : Registers) (raw : InstructionType) (ip : Nat) :
    Except Fault (Registers × Option Nat) :=
  let opcode := opcodeOf raw
  let next := fun r : Registers => (r, some (ip + 1))
  match Format.ofOpcode opcode with
  | some .T =>
    let instruction := T.decode raw
    if opcode = OPCODE.ADD then next <$> executeADD registers instruction
    else if opcode = OPCODE.MUL then next <$> executeMUL registers instruction
    else pure (registers, none)
  | some .S =>
    let instruction := S.decode raw
    if opcode = OPCODE.DELETE then pure (next (executeDELETE registers instruction))
    else pure (registers, none)
  | some .E =>
    let instruction := E.decode raw
    if opcode = OPCODE.LUI then pure (next (executeLUI registers instruction))
    else if opcode = OPCODE.LUIU then pure (next (executeLUIU registers instruction))
    else pure (next registers)
  | some .R =>
    let instruction := R.decode raw
    if opcode = OPCODE.ADDI then next <$> executeADDI registers instruction
    else if opcode = OPCODE.ADDIU then next <$> executeADDIU registers instruction
    else pure (next registers)
  | some .N =>
    if opcode = OPCODE.NOOP then pure (next registers)
    else if opcode = OPCODE.HALT then pure (registers, none)
    else if opcode = OPCODE.EBREAK then pure (next (executeEBREAK registers (N.decode raw)))
    else pure (next registers)
  | some .D | some .F => pure (registers, none)
  | none => pure (next registers)

theorem executeArithmetic_word (f : BitVec 64 → BitVec 64 → BitVec 64) {registers : Registers}
    {op : T} {t t' : UnboxedType} {a b : BitVec 64}
    (hl : registers op.lhs.index = ⟨t, .word a⟩) (hr : registers op.rhs.index = ⟨t', .word b⟩) :
    executeArithmetic f registers op =
      .ok (Function.update registers op.out.index ⟨t, .word (f a b)⟩) := by
  simp [executeArithmetic, hl, hr, bind, Except.bind, pure, Except.pure]

/-- With a void `in`, `ADDI` loads its immediate. -/
theorem executeAddImmediate_void (tag : UnboxedType) (registers : Registers) {op : R}
    (h : op.input.isVoid) :
    executeAddImmediate tag registers op =
      .ok (Function.update registers op.out.index ⟨tag, .word (op.immediate.setWidth 64)⟩) := by
  simp [executeAddImmediate, h, bind, Except.bind, pure, Except.pure]

/-! ## Dispatch by opcode

Which executor a word reaches is decided by its opcode alone. -/

section Dispatch
variable {registers : Registers} {raw : InstructionType} (ip : Nat)

theorem execute_ADD (h : opcodeOf raw = OPCODE.ADD) :
    execute registers raw ip =
      (fun r => (r, some (ip + 1))) <$> executeADD registers (T.decode raw) := by
  simp [execute, h, show Format.ofOpcode OPCODE.ADD = some .T by decide]

theorem execute_MUL (h : opcodeOf raw = OPCODE.MUL) :
    execute registers raw ip =
      (fun r => (r, some (ip + 1))) <$> executeMUL registers (T.decode raw) := by
  simp [execute, h, show Format.ofOpcode OPCODE.MUL = some .T by decide,
    show OPCODE.MUL ≠ OPCODE.ADD by decide]

theorem execute_LUI (h : opcodeOf raw = OPCODE.LUI) :
    execute registers raw ip = .ok (executeLUI registers (E.decode raw), some (ip + 1)) := by
  simp [execute, h, show Format.ofOpcode OPCODE.LUI = some .E by decide, pure, Except.pure]

theorem execute_LUIU (h : opcodeOf raw = OPCODE.LUIU) :
    execute registers raw ip = .ok (executeLUIU registers (E.decode raw), some (ip + 1)) := by
  simp [execute, h, show Format.ofOpcode OPCODE.LUIU = some .E by decide,
    show OPCODE.LUIU ≠ OPCODE.LUI by decide, pure, Except.pure]

theorem execute_ADDI (h : opcodeOf raw = OPCODE.ADDI) :
    execute registers raw ip =
      (fun r => (r, some (ip + 1))) <$> executeADDI registers (R.decode raw) := by
  simp [execute, h, show Format.ofOpcode OPCODE.ADDI = some .R by decide]

theorem execute_ADDIU (h : opcodeOf raw = OPCODE.ADDIU) :
    execute registers raw ip =
      (fun r => (r, some (ip + 1))) <$> executeADDIU registers (R.decode raw) := by
  simp [execute, h, show Format.ofOpcode OPCODE.ADDIU = some .R by decide,
    show OPCODE.ADDIU ≠ OPCODE.ADDI by decide]

end Dispatch

/-! ## Executors on an unboxed file

Every executor succeeds on an unboxed file and leaves it unboxed. -/

theorem executeArithmetic_unboxed (f : BitVec 64 → BitVec 64 → BitVec 64)
    {registers : Registers} (hv : Unboxed registers) (op : T) :
    ∃ r, executeArithmetic f registers op = .ok r ∧ Unboxed r := by
  obtain ⟨a, ha⟩ := hv.get op.lhs.index
  obtain ⟨b, hb⟩ := hv.get op.rhs.index
  exact ⟨_, by simp [executeArithmetic, ha, hb, bind, Except.bind, pure, Except.pure],
    hv.update op.out.index (registers op.lhs.index).typeOfUnboxed (f a b)⟩

theorem executeAddImmediate_unboxed (tag : UnboxedType) {registers : Registers}
    (hv : Unboxed registers) (op : R) :
    ∃ r, executeAddImmediate tag registers op = .ok r ∧ Unboxed r := by
  obtain ⟨a, ha⟩ := hv.get op.input.index
  refine ⟨_, ?_, hv.update op.out.index tag
    (((if op.input.isVoid then 0 else a) : BitVec 64) + op.immediate.setWidth 64)⟩
  by_cases hi : op.input.isVoid <;>
    simp [executeAddImmediate, hi, ha, bind, Except.bind, pure, Except.pure]

/-! ## What a dispatch can do -/

theorem map_eq_ok {ε α β : Type} {f : α → β} {x : Except ε α} {b : β} :
    f <$> x = .ok b ↔ ∃ a, x = .ok a ∧ f a = b := by
  cases x <;> simp [Functor.map, Except.map]

theorem map_next_eq_ok {x : Except Fault Registers} {ip : Nat} {r : Registers}
    {o : Option Nat} :
    (fun r : Registers => (r, some (ip + 1))) <$> x = .ok (r, o) ↔
      x = .ok r ∧ o = some (ip + 1) := by
  cases x <;> simp [Functor.map, Except.map, and_comm, eq_comm]

/-- A dispatch that goes on goes on to the next word. -/
theorem execute_next {registers : Registers} {raw : InstructionType} {ip j : Nat}
    {r : Registers} (h : execute registers raw ip = .ok (r, some j)) : j = ip + 1 := by
  dsimp only [execute] at h
  split at h <;> (try split_ifs at h) <;>
    first
    | (obtain ⟨-, h⟩ := map_next_eq_ok.mp h; exact (Option.some.inj h))
    | (simp only [pure, Except.pure, Except.ok.injEq, Prod.mk.injEq, Option.some.injEq] at h
       exact h.2.symm)
    | simp [pure, Except.pure] at h

/-- **No dispatch fails on an unboxed file**, and the file stays unboxed. -/
theorem execute_unboxed {registers : Registers} (hv : Unboxed registers)
    (raw : InstructionType) (ip : Nat) :
    ∃ r o, execute registers raw ip = .ok (r, o) ∧ Unboxed r := by
  have hmap : ∀ {x : Except Fault Registers}, (∃ r, x = .ok r ∧ Unboxed r) →
      ∃ r o, (fun r : Registers => (r, some (ip + 1))) <$> x = .ok (r, o) ∧ Unboxed r := by
    rintro x ⟨r, rfl, hr⟩; exact ⟨r, _, rfl, hr⟩
  dsimp only [execute]
  split <;> (try split_ifs) <;>
    first
    | exact hmap (executeArithmetic_unboxed _ hv _)
    | exact hmap (executeAddImmediate_unboxed _ hv _)
    | exact ⟨_, _, rfl, hv⟩
    | exact ⟨_, _, rfl, hv.update _ _ _⟩

/-- **The words `execute` skips.** An `E`, `R` or `N` opcode without an executor, and a
word whose format bits name no format, fall through every `switch` and the dispatch
returns `ip + 1` with the registers untouched. -/
theorem execute_skips {registers : Registers} {raw : InstructionType} (ip : Nat)
    (h : Format.ofOpcode (opcodeOf raw) = none ∨
      (Format.ofOpcode (opcodeOf raw) = some .E ∧
        opcodeOf raw ≠ OPCODE.LUI ∧ opcodeOf raw ≠ OPCODE.LUIU) ∨
      (Format.ofOpcode (opcodeOf raw) = some .R ∧
        opcodeOf raw ≠ OPCODE.ADDI ∧ opcodeOf raw ≠ OPCODE.ADDIU) ∨
      (Format.ofOpcode (opcodeOf raw) = some .N ∧ opcodeOf raw ≠ OPCODE.NOOP ∧
        opcodeOf raw ≠ OPCODE.HALT ∧ opcodeOf raw ≠ OPCODE.EBREAK)) :
    execute registers raw ip = .ok (registers, some (ip + 1)) := by
  rcases h with h | ⟨h, h1, h2⟩ | ⟨h, h1, h2⟩ | ⟨h, h1, h2, h3⟩ <;>
    simp [execute, h, *, pure, Except.pure]

/-- A `SUBI` word goes on to `ip + 1` and leaves the registers as they were. -/
theorem execute_SUBI_skips (registers : Registers) (ip : Nat) :
    execute registers 0x0000000000006003#64 ip = .ok (registers, some (ip + 1)) :=
  execute_skips ip (.inr (.inr (.inl ⟨by decide, by decide, by decide⟩)))

end ViuaVm.Machine.Core
