import ViuaVm.Machine.Core

/-! # Allocation in the stack arena: `execute(AA)` of `vm/ins/aa.cpp`

`aa` reads a size from its input register, moves the process's stack break up by it, and
writes the old break to its output register as the address of the new block, which it also
records in the process's pointers. The break is a `uint64_t` and the size is not checked
(the code's FIXME says so), so `stack_break += size` wraps around.

What `aa` is for is a bump allocator over unbounded addresses (`Arena`): blocks of the sizes
asked for are handed out one after another from the initial break and never overlap
(`Arena.Valid`). A run of `aa` refines it modulo `2 ^ 64` (`runAA_refines`): each
instruction reads a size (`requests`), and the recorded addresses and the break are those of
the arena that handed out blocks of exactly those sizes, modulo `2 ^ 64`. While the arena's
break stays below `2 ^ 64` the two agree exactly, so the requested ranges are disjoint; past
it the break wraps, and a later block lands inside an earlier one (`executeAA_wraps`).

The `Stack` of the new VM, `fetch_proxy` and `save_proxy` are not among the sources: they
are modelled from the spec (§4.8: `AA` "reads a size from the input register, advances the
stack break by that size, writes the previous stack break as a pointer value into the output
register, and records the pointer with the process", and aborts when the input is not
unsigned), with the register file of `Machine.Core`.
-/
namespace ViuaVm.Machine.Aa
open ViuaVm.Arch.Ops ViuaVm.Machine.Core

/-- Modelled from the spec: the operands of `aa` that it reads, an output and an input
register. -/
structure AA where
  out : RegisterAccess
  input : RegisterAccess

/-- Modelled from the spec: a pointer recorded with the process; `aa` sets only `ptr`. -/
structure Pointer where
  ptr : BitVec 64
  deriving DecidableEq, Repr

/-- Modelled from the spec: what `aa` reads and writes of a `Stack`: the process's stack
break and pointers, and the current frame's registers and saved break. -/
structure Stack where
  stackBreak : BitVec 64
  pointers : List Pointer
  registers : Registers
  savedSbrk : BitVec 64

/-- `abort_execution`: the instruction and the message. -/
structure AbortExecution where
  ip : Nat
  message : String
  deriving DecidableEq, Repr

/-- Modelled from the spec: `fetch_proxy(stack, in, ip).get<uint64_t>()`, the value of a
register holding an unsigned integer, and nothing for any other register. -/
def fetchUnsigned (registers : Registers) (access : RegisterAccess) : Option (BitVec 64) :=
  match registers access.index with
  | ⟨.integerUnsigned, .word size⟩ => some size
  | _ => none

/-- `execute(AA)`: the size is added to the break with `uint64_t` arithmetic. -/
def executeAA (op : AA) (stack : Stack) (ip : Nat) : Except AbortExecution Stack :=
  match fetchUnsigned stack.registers op.input with
  | none => .error ⟨ip, "invalid operand type for aa instruction"⟩
  | some size =>
    let pointerAddress := stack.stackBreak
    let stackBreak := stack.stackBreak + size
    .ok { stackBreak, savedSbrk := stackBreak,
          registers := Function.update stack.registers op.out.index
            ⟨.integerUnsigned, .word pointerAddress⟩,
          pointers := stack.pointers ++ [⟨pointerAddress⟩] }

/-- A sequence of `aa` instructions from `ip` on, one after another. -/
def runAA : List AA → Nat → Stack → Except AbortExecution Stack
  | [], _, stack => .ok stack
  | op :: ops, ip, stack => executeAA op stack ip >>= runAA ops (ip + 1)

/-- One `aa` that returns: it read an unsigned size, wrote the old break to its output
register, recorded it, and moved the break and the frame's saved break up by the size. -/
theorem executeAA_ok {op : AA} {stack stack' : Stack} {ip : Nat}
    (h : executeAA op stack ip = .ok stack') : ∃ size,
      fetchUnsigned stack.registers op.input = some size ∧
      stack' =
        { stackBreak := stack.stackBreak + size, savedSbrk := stack.stackBreak + size,
          registers := Function.update stack.registers op.out.index
            ⟨.integerUnsigned, .word stack.stackBreak⟩,
          pointers := stack.pointers ++ [⟨stack.stackBreak⟩] } := by
  unfold executeAA at h
  split at h
  · cases h
  · exact ⟨_, ‹_›, (Except.ok.inj h).symm⟩

/-! ## What `aa` is for -/

/-- A bump allocator over unbounded addresses: its break, and the blocks it handed out, each
an address and a size. -/
structure Arena where
  brk : Nat
  blocks : List (Nat × Nat)

/-- Hand out `size` bytes at the break. -/
def Arena.allocate (arena : Arena) (size : Nat) : Arena :=
  ⟨arena.brk + size, arena.blocks ++ [(arena.brk, size)]⟩

/-- The blocks lie from `base` on, each below the break and each ending before the next one
begins, so no two overlap. -/
structure Arena.Valid (base : Nat) (arena : Arena) : Prop where
  base_le : base ≤ arena.brk
  above : ∀ b ∈ arena.blocks, base ≤ b.1
  below : ∀ b ∈ arena.blocks, b.1 + b.2 ≤ arena.brk
  ordered : arena.blocks.Pairwise fun b c => b.1 + b.2 ≤ c.1

theorem Arena.valid_empty (base : Nat) : Arena.Valid base ⟨base, []⟩ :=
  ⟨Nat.le_refl _, by simp, by simp, List.Pairwise.nil⟩

/-- Allocating keeps the arena valid: the new block starts at the old break. -/
theorem Arena.Valid.allocate {base : Nat} {arena : Arena} (hv : arena.Valid base) (size : Nat) :
    (arena.allocate size).Valid base := by
  refine ⟨Nat.le_add_right_of_le hv.base_le, ?_, ?_, ?_⟩
  · simp only [Arena.allocate, List.mem_append, List.mem_singleton]
    rintro b (hb | rfl)
    · exact hv.above b hb
    · exact hv.base_le
  · simp only [Arena.allocate, List.mem_append, List.mem_singleton]
    rintro b (hb | rfl)
    · have := hv.below b hb; omega
    · exact Nat.le_refl _
  · simp only [Arena.allocate, List.pairwise_append, List.pairwise_singleton, List.mem_singleton,
      forall_eq, true_and]
    exact ⟨hv.ordered, hv.below⟩

/-- The break of an arena never goes down. -/
theorem Arena.brk_le_allocate (arena : Arena) (size : Nat) :
    arena.brk ≤ (arena.allocate size).brk :=
  Nat.le_add_right _ _

/-- Hand out blocks of the sizes, one after another. -/
def Arena.allocateAll (arena : Arena) (sizes : List Nat) : Arena :=
  sizes.foldl Arena.allocate arena

@[simp] theorem Arena.allocateAll_cons (arena : Arena) (size : Nat) (sizes : List Nat) :
    arena.allocateAll (size :: sizes) = (arena.allocate size).allocateAll sizes := rfl

theorem Arena.Valid.allocateAll {base : Nat} {arena : Arena} (hv : arena.Valid base)
    (sizes : List Nat) : (arena.allocateAll sizes).Valid base := by
  induction sizes generalizing arena with
  | nil => exact hv
  | cons size sizes ih => exact ih (hv.allocate size)

/-- The blocks handed out have the sizes asked for, in order. -/
@[simp] theorem Arena.sizes_allocateAll (arena : Arena) (sizes : List Nat) :
    (arena.allocateAll sizes).blocks.map Prod.snd = arena.blocks.map Prod.snd ++ sizes := by
  induction sizes generalizing arena with
  | nil => simp [Arena.allocateAll]
  | cons size sizes ih => simp [ih, Arena.allocate]

@[simp] theorem Arena.brk_allocateAll (arena : Arena) (sizes : List Nat) :
    (arena.allocateAll sizes).brk = arena.brk + sizes.sum := by
  induction sizes generalizing arena with
  | nil => simp [Arena.allocateAll]
  | cons size sizes ih => simp only [Arena.allocateAll_cons, ih, Arena.allocate, List.sum_cons]; omega

/-! ## `aa` refines the arena modulo `2 ^ 64` -/

/-- The stack is the arena modulo `2 ^ 64`: its break is the arena's, and the pointers
recorded after `pointers₀` are the addresses of the arena's blocks. -/
structure Refines (pointers₀ : List Pointer) (stack : Stack) (arena : Arena) : Prop where
  brk : stack.stackBreak.toNat = arena.brk % 2 ^ 64
  pointers : stack.pointers = pointers₀ ++ arena.blocks.map fun b => ⟨BitVec.ofNat 64 b.1⟩

/-- The sizes a run of `aa` reads, one per instruction, each from the registers as the
instructions before it left them, up to the first that aborts. -/
def requests : List AA → Nat → Stack → List Nat
  | [], _, _ => []
  | op :: ops, ip, stack =>
    match fetchUnsigned stack.registers op.input, executeAA op stack ip with
    | some size, .ok stack₁ => size.toNat :: requests ops (ip + 1) stack₁
    | _, _ => []

/-- One `aa` allocates the size it read. -/
theorem Refines.executeAA {pointers₀ : List Pointer} {stack stack' : Stack} {arena : Arena}
    {op : AA} {ip : Nat} (hr : Refines pointers₀ stack arena)
    (h : Machine.Aa.executeAA op stack ip = .ok stack') :
    ∃ size : BitVec 64, fetchUnsigned stack.registers op.input = some size ∧
      Refines pointers₀ stack' (arena.allocate size.toNat) := by
  obtain ⟨size, hsize, rfl⟩ := executeAA_ok h
  refine ⟨size, hsize, ?_, ?_⟩
  · simp only [BitVec.toNat_add, hr.brk, Arena.allocate]
    omega
  · simp only [hr.pointers, Arena.allocate, List.map_append, List.map_singleton,
      List.append_assoc]
    congr 3
    exact congrArg Pointer.mk (BitVec.eq_of_toNat_eq (by simp [hr.brk]))

/-- A run of `aa` allocates in the arena the sizes it reads, one block per instruction. -/
theorem Refines.runAA {pointers₀ : List Pointer} {stack' : Stack} (ops : List AA) :
    ∀ {ip : Nat} {stack : Stack} {arena : Arena}, runAA ops ip stack = .ok stack' →
      Refines pointers₀ stack arena →
      (requests ops ip stack).length = ops.length ∧
        Refines pointers₀ stack' (arena.allocateAll (requests ops ip stack)) := by
  induction ops with
  | nil => intro ip stack arena h hr; cases h; exact ⟨rfl, hr⟩
  | cons op ops ih =>
    intro ip stack arena h hr
    cases h₁ : Machine.Aa.executeAA op stack ip with
    | error e => simp [Machine.Aa.runAA, h₁, bind, Except.bind] at h
    | ok stack₁ =>
      simp only [Machine.Aa.runAA, h₁, bind, Except.bind] at h
      obtain ⟨size, hsize, hr₁⟩ := hr.executeAA h₁
      obtain ⟨hlen, hr'⟩ := ih h hr₁
      have hreq : requests (op :: ops) ip stack = size.toNat :: requests ops (ip + 1) stack₁ := by
        simp only [requests, hsize, h₁]
      rw [hreq]
      exact ⟨by simp [hlen], hr'⟩

/-- **A run of `aa` is the bump allocation of the sizes it reads, modulo `2 ^ 64`.** For
every stack and every sequence of `aa` that returns, each instruction reads a size
(`requests`), and the stack is the arena that hands out blocks of exactly those sizes, one
after another from the initial break, modulo `2 ^ 64`: its break is the stack's and the
recorded pointers are the blocks' addresses. The arena is valid: every block lies above the
initial break and ends before the next begins. When the initial break plus the sizes stays
below `2 ^ 64`, the break and the pointers are the arena's exactly, so the ranges the
instructions asked for are pairwise disjoint. -/
theorem runAA_refines (ops : List AA) (ip : Nat) (stack stack' : Stack)
    (h : runAA ops ip stack = .ok stack') :
    let arena := Arena.allocateAll ⟨stack.stackBreak.toNat, []⟩ (requests ops ip stack)
    (requests ops ip stack).length = ops.length ∧
      arena.blocks.map Prod.snd = requests ops ip stack ∧
      arena.Valid stack.stackBreak.toNat ∧ Refines stack.pointers stack' arena ∧
      (stack.stackBreak.toNat + (requests ops ip stack).sum < 2 ^ 64 →
        stack'.stackBreak.toNat = arena.brk ∧
          ∀ b ∈ arena.blocks, (BitVec.ofNat 64 b.1).toNat = b.1) := by
  intro arena
  have hr₀ : Refines stack.pointers stack ⟨stack.stackBreak.toNat, []⟩ :=
    ⟨(Nat.mod_eq_of_lt stack.stackBreak.isLt).symm, by simp⟩
  obtain ⟨hlen, hr⟩ := Refines.runAA ops h hr₀
  have hv : arena.Valid stack.stackBreak.toNat := (Arena.valid_empty _).allocateAll _
  have hbrk : arena.brk = stack.stackBreak.toNat + (requests ops ip stack).sum :=
    Arena.brk_allocateAll _ _
  refine ⟨hlen, by simp [arena], hv, hr, fun hfit => ⟨?_, fun b hb => ?_⟩⟩
  · rw [hr.brk, Nat.mod_eq_of_lt (hbrk ▸ hfit)]
  · have := hv.below b hb
    simp only [BitVec.toNat_ofNat]
    omega

/-- Two allocations of 16 bytes from a break of `0x1000`. -/
theorem runAA_refines_sample :
    ∃ stack', runAA [⟨RegisterAccess.makeLocal 2, RegisterAccess.makeLocal 1⟩,
        ⟨RegisterAccess.makeLocal 3, RegisterAccess.makeLocal 1⟩] 0
        ⟨0x1000#64, [], Function.update Registers.initial 1 ⟨.integerUnsigned, .word 16#64⟩, 0#64⟩ =
      .ok stack' ∧
      requests [⟨RegisterAccess.makeLocal 2, RegisterAccess.makeLocal 1⟩,
        ⟨RegisterAccess.makeLocal 3, RegisterAccess.makeLocal 1⟩] 0
        ⟨0x1000#64, [], Function.update Registers.initial 1 ⟨.integerUnsigned, .word 16#64⟩, 0#64⟩ =
        [16, 16] ∧
      let arena := Arena.allocateAll ⟨0x1000, []⟩ [16, 16]
      [16, 16].length = 2 ∧ arena.blocks.map Prod.snd = [16, 16] ∧ arena.Valid 0x1000 ∧
        Refines [] stack' arena ∧
        (0x1000 + [16, 16].sum < 2 ^ 64 → stack'.stackBreak.toNat = arena.brk ∧
          ∀ b ∈ arena.blocks, (BitVec.ofNat 64 b.1).toNat = b.1) :=
  ⟨_, rfl, rfl, runAA_refines [⟨RegisterAccess.makeLocal 2, RegisterAccess.makeLocal 1⟩,
    ⟨RegisterAccess.makeLocal 3, RegisterAccess.makeLocal 1⟩] 0
    ⟨0x1000#64, [], Function.update Registers.initial 1 ⟨.integerUnsigned, .word 16#64⟩, 0#64⟩ _
    rfl⟩

/-! ## Past `2 ^ 64` -/

/-- Registers 1, 2 and 3 holding the unsigned sizes `2 ^ 64 - 1`, `2` and `1`. -/
def wrappingRegisters : Registers :=
  Function.update (Function.update (Function.update Registers.initial 1
    ⟨.integerUnsigned, .word 0xffffffffffffffff#64⟩) 2 ⟨.integerUnsigned, .word 2#64⟩) 3
    ⟨.integerUnsigned, .word 1#64⟩

/-- **The stack break wraps around.** From a break of 0, allocating `2 ^ 64 - 1`, `2` and `1`
bytes moves the break from `2 ^ 64 - 1` down to `1`, and the third block, at address 1, lies
inside the first, `[0, 2 ^ 64 - 1)`. -/
theorem executeAA_wraps :
    ∃ s₁ s₂ s₃,
      executeAA ⟨RegisterAccess.makeLocal 4, RegisterAccess.makeLocal 1⟩
        ⟨0#64, [], wrappingRegisters, 0#64⟩ 0 = .ok s₁ ∧
      executeAA ⟨RegisterAccess.makeLocal 5, RegisterAccess.makeLocal 2⟩ s₁ 1 = .ok s₂ ∧
      executeAA ⟨RegisterAccess.makeLocal 6, RegisterAccess.makeLocal 3⟩ s₂ 2 = .ok s₃ ∧
      s₁.stackBreak = 0xffffffffffffffff#64 ∧ s₂.stackBreak = 1#64 ∧
      s₃.pointers = [⟨0#64⟩, ⟨0xffffffffffffffff#64⟩, ⟨1#64⟩] :=
  ⟨_, _, _, rfl, rfl, rfl, rfl, rfl, rfl⟩

end ViuaVm.Machine.Aa
