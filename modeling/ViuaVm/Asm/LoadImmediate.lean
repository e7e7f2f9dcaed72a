import ViuaVm.Machine.Run

/-! # `li`: loading a 64-bit literal

`toLoadingPartsUnsigned` splits a value into the high 36 bits and the low 28, and the low
part, when it does not fit the 24 bits of an `R` immediate, into `base * 16 + remainder`.
`opLi` emits the words of `op_li` (`tools/asm.cpp`) for either overload: `LUI`/`ADDI` for
`int64_t`, `LUIU`/`ADDIU` for `uint64_t`.

Executing those words from a file of void registers does not always load the value
(`runInstruction_opLi`): when the high part is set and the low part fits 24 bits, the
final `ADDIU` adds the low part to `void` and overwrites what `LUIU` loaded; and when the
high part is zero and the low part does not fit, the final `ADD` takes the tag of the
never-loaded register 1, `Void`.
-/
namespace ViuaVm.Asm.LoadImmediate
open ViuaVm.Arch.Ops ViuaVm.Machine.Core ViuaVm.Machine.Run

/-! ## Splitting a value -/

def LOW_24 : BitVec 64 := 0x0000000000ffffff
def HIGH_36 : BitVec 64 := 0xfffffffff0000000

/-- `to_loading_parts_unsigned`: `(high, ((base, multiplier), remainder))`. -/
def toLoadingPartsUnsigned (value : BitVec 64) : BitVec 64 × (BitVec 32 × BitVec 32) × BitVec 32 :=
  let highPart := (value &&& HIGH_36) >>> 28
  let lowPart := (value &&& ~~~HIGH_36).setWidth 32
  if (lowPart.setWidth 64 &&& LOW_24) = lowPart.setWidth 64 then (highPart, (lowPart, 0), 0)
  else
    let multiplier : BitVec 32 := 16
    let remainder := lowPart % multiplier
    let base := (lowPart - remainder) / multiplier
    (highPart, (base, multiplier), remainder)

theorem toNat_and_not_HIGH_36 (value : BitVec 64) :
    (value &&& ~~~HIGH_36).toNat = value.toNat % 2 ^ 28 := by
  rw [show ~~~HIGH_36 = BitVec.ofNat 64 (2 ^ 28 - 1) by decide]
  simp only [BitVec.toNat_and, BitVec.toNat_ofNat]
  exact Nat.and_pow_two_sub_one_eq_mod _ 28

theorem toNat_high (value : BitVec 64) :
    ((value &&& HIGH_36) >>> 28).toNat = value.toNat / 2 ^ 28 := by
  -- `value` is the disjoint union of its high and low bits
  have hdisj : (value &&& HIGH_36) &&& (value &&& ~~~HIGH_36) = 0#64 := by
    ext i; simp; cases HIGH_36.getLsbD i <;> simp
  have hsplit : (value &&& HIGH_36) ||| (value &&& ~~~HIGH_36) = value := by
    ext i; simp; cases value.getLsbD i <;> simp
  have hsum := BitVec.toNat_add_of_and_eq_zero hdisj
  rw [BitVec.add_eq_or_of_and_eq_zero _ _ hdisj, hsplit, toNat_and_not_HIGH_36] at hsum
  rw [BitVec.toNat_ushiftRight, Nat.shiftRight_eq_div_pow]
  omega

theorem toNat_low (value : BitVec 64) :
    ((value &&& ~~~HIGH_36).setWidth 32).toNat = value.toNat % 2 ^ 28 := by
  rw [BitVec.toNat_setWidth, toNat_and_not_HIGH_36]
  omega

/-- The test `(low & LOW_24) == low` of a 28-bit low part. -/
theorem fits_iff (value : BitVec 64) :
    ((value &&& ~~~HIGH_36).setWidth 32).setWidth 64 &&& LOW_24 =
      ((value &&& ~~~HIGH_36).setWidth 32).setWidth 64 ↔ value.toNat % 2 ^ 28 < 2 ^ 24 := by
  rw [show LOW_24 = BitVec.ofNat 64 (2 ^ 24 - 1) by decide, BitVec.toNat_eq, BitVec.toNat_and,
    BitVec.toNat_setWidth, toNat_low, BitVec.toNat_ofNat,
    show (2 ^ 24 - 1) % 2 ^ 64 = 2 ^ 24 - 1 by rfl, Nat.and_pow_two_sub_one_eq_mod]
  omega

/-- **The parts of a value.** The high part is the top 36 bits. A low part that fits 24 bits
is the base itself, with no multiplier; otherwise it is `base * 16 + remainder`. -/
theorem toLoadingPartsUnsigned_eq (value : BitVec 64) :
    toLoadingPartsUnsigned value =
      if value.toNat % 2 ^ 28 < 2 ^ 24 then
        (BitVec.ofNat 64 (value.toNat / 2 ^ 28), (BitVec.ofNat 32 (value.toNat % 2 ^ 28), 0), 0)
      else
        (BitVec.ofNat 64 (value.toNat / 2 ^ 28),
          (BitVec.ofNat 32 (value.toNat % 2 ^ 28 / 16), 16),
          BitVec.ofNat 32 (value.toNat % 2 ^ 28 % 16)) := by
  have hh := toNat_high value
  have hl := toNat_low value
  have h16 : (16 : BitVec 32).toNat = 16 := rfl
  simp only [toLoadingPartsUnsigned, fits_iff]
  split_ifs
  · simp only [Prod.mk.injEq, BitVec.toNat_eq, hh, hl, BitVec.toNat_ofNat, and_true]
    omega
  · simp only [Prod.mk.injEq, BitVec.toNat_eq, hh, BitVec.toNat_ofNat, BitVec.toNat_udiv,
      BitVec.toNat_umod, BitVec.toNat_sub, hl, h16, and_true]
    omega

theorem toNat_ofNat_high (value : BitVec 64) :
    (BitVec.ofNat 64 (value.toNat / 2 ^ 28)).toNat < 2 ^ 36 := by
  have := value.isLt; rw [BitVec.toNat_ofNat]; omega

theorem toNat_ofNat_low {value : BitVec 64} (h : value.toNat % 2 ^ 28 < 2 ^ 24) :
    (BitVec.ofNat 32 (value.toNat % 2 ^ 28)).toNat < 2 ^ 24 := by
  rw [BitVec.toNat_ofNat]; omega

/-- Below bit 28 the shifted high part is zero, so `|` adds. -/
theorem shiftLeft_28_or {low : BitVec 64} (high : BitVec 64) (h : low.toNat < 2 ^ 28) :
    (high <<< 28 ||| low).toNat = high.toNat * 2 ^ 28 % 2 ^ 64 + low.toNat := by
  have hdisj : high <<< 28 &&& low = 0#64 := by
    ext i
    simp only [BitVec.getLsbD_and, BitVec.getLsbD_shiftLeft, BitVec.getLsbD_zero]
    by_cases hi : (i : Nat) < 28
    · simp [hi]
    · have hlow : low.getLsbD i = false :=
        Nat.testBit_eq_false_of_lt (lt_of_lt_of_le h (Nat.pow_le_pow_right (by decide) (by omega)))
      simp [hlow]
  rw [← BitVec.add_eq_or_of_and_eq_zero _ _ hdisj, BitVec.toNat_add, BitVec.toNat_shiftLeft,
    Nat.shiftLeft_eq]
  have := low.isLt
  omega

/-- **The parts fit their immediates and put the value back together.** The high part fits
the 36 bits of an `E` immediate and the base the 24 bits of an `R` immediate. Either the
low part is the base itself, with no multiplier and no remainder; or it is
`base * 16 + remainder`, with a remainder under 16, and does not fit 24 bits. Either way the
high part shifted back, `|` the low part, is the value. -/
theorem toLoadingPartsUnsigned_fits (value : BitVec 64) {high : BitVec 64}
    {base multiplier remainder : BitVec 32}
    (h : toLoadingPartsUnsigned value = (high, (base, multiplier), remainder)) :
    high.toNat < 2 ^ 36 ∧ base.toNat < 2 ^ 24 ∧
      ((multiplier = 0 ∧ remainder = 0 ∧ high <<< 28 ||| base.setWidth 64 = value) ∨
        (multiplier = 16 ∧ remainder.toNat < 16 ∧ 2 ^ 24 ≤ base.toNat * 16 + remainder.toNat ∧
          high <<< 28 ||| (base * 16 + remainder).setWidth 64 = value)) := by
  have hv := value.isLt
  rw [toLoadingPartsUnsigned_eq] at h
  split_ifs at h with hfit <;> simp only [Prod.mk.injEq] at h <;>
    obtain ⟨rfl, ⟨rfl, rfl⟩, rfl⟩ := h
  · refine ⟨toNat_ofNat_high value, toNat_ofNat_low hfit, .inl ⟨rfl, rfl, ?_⟩⟩
    rw [BitVec.toNat_eq, shiftLeft_28_or _ (by simp; omega)]
    simp only [BitVec.toNat_ofNat, BitVec.toNat_setWidth]
    omega
  · have h16 : (16 : BitVec 32).toNat = 16 := rfl
    refine ⟨toNat_ofNat_high value, by simp; omega,
      .inr ⟨rfl, by simp; omega, by simp only [BitVec.toNat_ofNat]; omega, ?_⟩⟩
    rw [BitVec.toNat_eq, shiftLeft_28_or _ (by simp [h16]; omega)]
    simp only [BitVec.toNat_ofNat, BitVec.toNat_setWidth, BitVec.toNat_add, BitVec.toNat_mul, h16]
    omega

/-- The value the sample program loads first splits with a multiplier. -/
theorem toLoadingPartsUnsigned_fits_sample :
    toLoadingPartsUnsigned 0xdeadbeefdeadbeef#64 = (0xdeadbeefd#64, (0xeadbee#32, 16#32), 0xf#32) ∧
      ((0xdeadbeefd#64).toNat < 2 ^ 36 ∧ (0xeadbee#32).toNat < 2 ^ 24 ∧
        ((16#32 = 0 ∧ 0xf#32 = 0 ∧ 0xdeadbeefd#64 <<< 28 ||| (0xeadbee#32).setWidth 64 =
            0xdeadbeefdeadbeef#64) ∨
          (16#32 = 16 ∧ (0xf#32).toNat < 16 ∧ 2 ^ 24 ≤ (0xeadbee#32).toNat * 16 + (0xf#32).toNat ∧
            0xdeadbeefd#64 <<< 28 ||| (0xeadbee#32 * 16 + 0xf#32).setWidth 64 =
              0xdeadbeefdeadbeef#64))) :=
  have h : toLoadingPartsUnsigned 0xdeadbeefdeadbeef#64 =
      (0xdeadbeefd#64, (0xeadbee#32, 16#32), 0xf#32) := by decide
  ⟨h, toLoadingPartsUnsigned_fits _ h⟩

/-! ## The words of `op_li` -/

/-- The two overloads of `op_li`, for a `uint64_t` and for an `int64_t` value. Both split
the value's bits with `toLoadingPartsUnsigned`; they differ only in the opcodes they emit,
and through those in the tag the loaded value gets. -/
inductive Overload
  | unsigned | signed
  deriving DecidableEq, Repr

namespace Overload

def lui : Overload → OpcodeType
  | unsigned => OPCODE.LUIU
  | signed => OPCODE.LUI

def addi : Overload → OpcodeType
  | unsigned => OPCODE.ADDIU
  | signed => OPCODE.ADDI

/-- The tag `LUIU`/`ADDIU`, or `LUI`/`ADDI`, give. -/
def tag : Overload → UnboxedType
  | unsigned => .integerUnsigned
  | signed => .integerSigned

end Overload

open RegisterAccess

/-- The `multiplier != 0` branch of `op_li`: `base * multiplier + remainder` built in
registers 2 and 3, then added to register 1 by the one word that is not greedy. -/
def multiplyLow (overload : Overload) (base multiplier remainder : BitVec 32) :
    List InstructionType :=
  [R.encode ⟨GREEDY ||| overload.addi, makeLocal 2, makeVoid, base⟩,
   R.encode ⟨GREEDY ||| overload.addi, makeLocal 3, makeVoid, multiplier⟩,
   T.encode ⟨GREEDY ||| OPCODE.MUL, makeLocal 2, makeLocal 2, makeLocal 3⟩,
   R.encode ⟨GREEDY ||| overload.addi, makeLocal 3, makeVoid, remainder⟩,
   T.encode ⟨GREEDY ||| OPCODE.ADD, makeLocal 2, makeLocal 2, makeLocal 3⟩,
   T.encode ⟨OPCODE.ADD, makeLocal 1, makeLocal 1, makeLocal 2⟩]

/-- `op_li`: the words written from `instructions` on, which load `value` into register 1:
a greedy `LUI` when the high part is not zero, then either `multiplyLow` or a single
`ADDI` of the base to `void`. -/
def opLi (overload : Overload) (value : BitVec 64) : List InstructionType :=
  let parts := toLoadingPartsUnsigned value
  let base := parts.2.1.1
  let multiplier := parts.2.1.2
  (if parts.1 ≠ 0 then [E.encode ⟨GREEDY ||| overload.lui, makeLocal 1, parts.1⟩] else []) ++
    if multiplier ≠ 0 then multiplyLow overload base multiplier parts.2.2
    else [R.encode ⟨overload.addi, makeLocal 1, makeVoid, base⟩]

/-! ## Executing the words one by one -/

section Words
variable (overload : Overload) {registers : Registers} (ip : Nat)

theorem execute_loadUpper {high : BitVec 64} (hh : high.toNat < 2 ^ 36) :
    execute registers (E.encode ⟨GREEDY ||| overload.lui, makeLocal 1, high⟩) ip =
      .ok (Function.update registers 1 ⟨overload.tag, .word (high <<< 28)⟩, some (ip + 1)) := by
  cases overload
  · rw [execute_LUIU _ (by simp; decide)]
    simp [executeLUIU, executeLoadUpper, E.decode_encode ⟨_, makeLocal 1, high⟩ hh, Overload.tag]
  · rw [execute_LUI _ (by simp; decide)]
    simp [executeLUI, executeLoadUpper, E.decode_encode ⟨_, makeLocal 1, high⟩ hh, Overload.tag]

theorem execute_addImmediateVoid {opcode : OpcodeType}
    (hop : opcode &&& OPCODE_MASK = overload.addi) (out : Fin 256) {immediate : BitVec 32}
    (hi : immediate.toNat < 2 ^ 24) :
    execute registers (R.encode ⟨opcode, makeLocal out, makeVoid, immediate⟩) ip =
      .ok (Function.update registers out ⟨overload.tag, .word (immediate.setWidth 64)⟩,
        some (ip + 1)) := by
  have hd := R.decode_encode ⟨opcode, makeLocal out, makeVoid, immediate⟩ hi
  cases overload
  · rw [execute_ADDIU _ (by simpa using hop), hd, executeADDIU,
      executeAddImmediate_void _ _ isVoid_makeVoid]; rfl
  · rw [execute_ADDI _ (by simpa using hop), hd, executeADDI,
      executeAddImmediate_void _ _ isVoid_makeVoid]; rfl

variable {t t' : UnboxedType} {a b : BitVec 64} {lhs rhs : Fin 256}

theorem execute_add {opcode : OpcodeType} (hop : opcode &&& OPCODE_MASK = OPCODE.ADD)
    (out : Fin 256) (hl : registers lhs = ⟨t, .word a⟩) (hr : registers rhs = ⟨t', .word b⟩) :
    execute registers (T.encode ⟨opcode, makeLocal out, makeLocal lhs, makeLocal rhs⟩) ip =
      .ok (Function.update registers out ⟨t, .word (a + b)⟩, some (ip + 1)) := by
  rw [execute_ADD _ (by simpa using hop), T.decode_encode, executeADD,
    executeArithmetic_word _ hl hr]; rfl

theorem execute_mul {opcode : OpcodeType} (hop : opcode &&& OPCODE_MASK = OPCODE.MUL)
    (out : Fin 256) (hl : registers lhs = ⟨t, .word a⟩) (hr : registers rhs = ⟨t', .word b⟩) :
    execute registers (T.encode ⟨opcode, makeLocal out, makeLocal lhs, makeLocal rhs⟩) ip =
      .ok (Function.update registers out ⟨t, .word (a * b)⟩, some (ip + 1)) := by
  rw [execute_MUL _ (by simpa using hop), T.decode_encode, executeMUL,
    executeArithmetic_word _ hl hr]; rfl

end Words

/-- The words of `op_li` in terms of the value's high 36 and low 28 bits. -/
theorem opLi_eq (overload : Overload) (value : BitVec 64) :
    opLi overload value =
      (if 2 ^ 28 ≤ value.toNat then
        [E.encode ⟨GREEDY ||| overload.lui, makeLocal 1, BitVec.ofNat 64 (value.toNat / 2 ^ 28)⟩]
      else []) ++
      if value.toNat % 2 ^ 28 < 2 ^ 24 then
        [R.encode ⟨overload.addi, makeLocal 1, makeVoid, BitVec.ofNat 32 (value.toNat % 2 ^ 28)⟩]
      else
        multiplyLow overload (BitVec.ofNat 32 (value.toNat % 2 ^ 28 / 16)) 16
          (BitVec.ofNat 32 (value.toNat % 2 ^ 28 % 16)) := by
  have hv := value.isLt
  have hhigh : BitVec.ofNat 64 (value.toNat / 2 ^ 28) ≠ 0 ↔ 2 ^ 28 ≤ value.toNat := by
    rw [Ne, BitVec.toNat_eq]; simp; omega
  simp only [opLi, toLoadingPartsUnsigned_eq]
  by_cases hlow : value.toNat % 2 ^ 28 < 2 ^ 24
  · simp only [if_pos hlow, hhigh, ne_eq, not_true_eq_false, if_false]
  · simp only [if_neg hlow, hhigh, show (16 : BitVec 32) ≠ 0 by decide, if_true, ne_eq,
      not_false_eq_true]

theorem length_opLi (overload : Overload) (value : BitVec 64) :
    (opLi overload value).length =
      (if 2 ^ 28 ≤ value.toNat then 1 else 0) + if value.toNat % 2 ^ 28 < 2 ^ 24 then 1 else 6 := by
  rw [opLi_eq]; split_ifs <;> rfl

/-- The high part shifted back and the low part put back together give the value. -/
theorem loadUpper_add_multiplyLow (value : BitVec 64) :
    BitVec.ofNat 64 (value.toNat / 2 ^ 28) <<< 28 +
        ((BitVec.ofNat 32 (value.toNat % 2 ^ 28 / 16)).setWidth 64 * 16 +
          (BitVec.ofNat 32 (value.toNat % 2 ^ 28 % 16)).setWidth 64) = value := by
  have hv := value.isLt
  rw [BitVec.toNat_eq]
  simp only [BitVec.toNat_add, BitVec.toNat_mul, BitVec.toNat_shiftLeft, BitVec.toNat_setWidth,
    BitVec.toNat_ofNat, Nat.shiftLeft_eq]
  rw [show (16 : BitVec 64).toNat = 16 from rfl]
  omega

/-! ## The bundles of `op_li` -/

section Bundles
variable (overload : Overload) (text : Text) (ip : Nat) {registers : Registers}

/-- **The multiplied low part** adds `base * 16 + remainder` to register 1, which keeps its
tag: the last word is an `ADD` whose left operand is register 1. -/
theorem runInstruction_multiplyLow {base remainder : BitVec 32}
    (htext : text.drop ip = multiplyLow overload base 16 remainder)
    (hb : base.toNat < 2 ^ 24) (hr : remainder.toNat < 2 ^ 24) {t : UnboxedType}
    {a : BitVec 64} (h1 : registers 1 = ⟨t, .word a⟩) :
    ∃ r, runInstruction text registers ip = .ok (r, some (ip + 6), 6) ∧
      r 1 = ⟨t, .word (a + (base.setWidth 64 * 16 + remainder.setWidth 64))⟩ := by
  obtain ⟨hw0, hd⟩ := getElem?_of_drop_eq_cons htext
  obtain ⟨hw1, hd⟩ := getElem?_of_drop_eq_cons hd
  obtain ⟨hw2, hd⟩ := getElem?_of_drop_eq_cons hd
  obtain ⟨hw3, hd⟩ := getElem?_of_drop_eq_cons hd
  obtain ⟨hw4, hd⟩ := getElem?_of_drop_eq_cons hd
  obtain ⟨hw5, -⟩ := getElem?_of_drop_eq_cons hd
  have hop : (GREEDY ||| overload.addi) &&& OPCODE_MASK = overload.addi := by
    cases overload <;> decide
  have hg : (GREEDY ||| overload.addi).toNat.testBit 15 = true := by cases overload <;> decide
  rw [runInstruction_greedy hw0
      (execute_addImmediateVoid overload _ hop 2 hb) (by simpa using hg),
    runInstruction_greedy hw1
      (execute_addImmediateVoid overload _ hop 3 (by decide)) (by simpa using hg),
    runInstruction_greedy hw2
      (execute_mul _ (by decide) 2 rfl rfl) (by simp; decide),
    runInstruction_greedy hw3
      (execute_addImmediateVoid overload _ hop 3 hr) (by simpa using hg),
    runInstruction_greedy hw4
      (execute_add _ (by decide) 2 rfl rfl) (by simp; decide),
    runInstruction_last hw5
      (execute_add _ (by decide) 1 (by simpa [Function.update_apply] using h1) rfl) (by simp; decide)]
  exact ⟨_, rfl, by simp⟩

/-- The `ADDI` of the base to `void`, the only word when the low part fits 24 bits. -/
theorem runInstruction_addBase {base : BitVec 32} (hb : base.toNat < 2 ^ 24)
    (htext : text.drop ip = [R.encode ⟨overload.addi, makeLocal 1, makeVoid, base⟩]) :
    runInstruction text registers ip =
      .ok (Function.update registers 1 ⟨overload.tag, .word (base.setWidth 64)⟩, some (ip + 1), 1) :=
  runInstruction_last (getElem?_of_drop_eq_cons htext).1
    (execute_addImmediateVoid overload _ (by cases overload <;> decide) 1 hb)
    (by simp; cases overload <;> decide)

/-- The greedy `LUI` of the high part, and the rest of the bundle after it. -/
theorem runInstruction_loadUpper {high : BitVec 64} (hh : high.toNat < 2 ^ 36) {rest : Text}
    (htext : text.drop ip = E.encode ⟨GREEDY ||| overload.lui, makeLocal 1, high⟩ :: rest) :
    runInstruction text registers ip =
      (fun (x : Registers × Option Nat × Nat) => (x.1, x.2.1, x.2.2 + 1)) <$>
        runInstruction text
          (Function.update registers 1 ⟨overload.tag, .word (high <<< 28)⟩) (ip + 1) :=
  runInstruction_greedy (getElem?_of_drop_eq_cons htext).1 (execute_loadUpper overload _ hh)
    (by simp; cases overload <;> decide)

end Bundles

/-! ## What `li` loads

Started from the file `main` builds, the words of `op_li` always run as one bundle that
returns the address past them. Register 1 then holds the value in exactly one of the four
branches' cases; in two of the others it does not. -/

section Cases
variable (overload : Overload) {value : BitVec 64}

theorem setWidth_ofNat_low (value : BitVec 64) :
    (BitVec.ofNat 32 (value.toNat % 2 ^ 28)).setWidth 64 = BitVec.ofNat 64 (value.toNat % 2 ^ 28) := by
  rw [BitVec.toNat_eq]; simp; omega

/-- **High part and a fitting low part**: the `ADDIU` to `void` overwrites what `LUIU`
loaded, and register 1 holds only the low 28 bits. -/
theorem runInstruction_opLi_high_fits (hh : 2 ^ 28 ≤ value.toNat)
    (hl : value.toNat % 2 ^ 28 < 2 ^ 24) :
    ∃ r, runInstruction (opLi overload value) Registers.initial 0 = .ok (r, some 2, 2) ∧
      r 1 = ⟨overload.tag, .word (BitVec.ofNat 64 (value.toNat % 2 ^ 28))⟩ := by
  have htext := opLi_eq overload value
  rw [if_pos hh, if_pos hl] at htext
  rw [runInstruction_loadUpper overload _ 0 (toNat_ofNat_high value) (by rw [htext]; rfl),
    runInstruction_addBase overload _ 1 (toNat_ofNat_low hl) (by rw [htext]; rfl)]
  exact ⟨_, rfl, by dsimp only; rw [Function.update_same, setWidth_ofNat_low]⟩

/-- **No high part and a fitting low part**: one `ADDI` loads the value. -/
theorem runInstruction_opLi_fits (hh : value.toNat < 2 ^ 28)
    (hl : value.toNat % 2 ^ 28 < 2 ^ 24) :
    ∃ r, runInstruction (opLi overload value) Registers.initial 0 = .ok (r, some 1, 1) ∧
      r 1 = ⟨overload.tag, .word (BitVec.ofNat 64 (value.toNat % 2 ^ 28))⟩ := by
  have htext := opLi_eq overload value
  rw [if_neg (by omega), if_pos hl] at htext
  rw [runInstruction_addBase overload _ 0 (toNat_ofNat_low hl) (by rw [htext]; rfl)]
  exact ⟨_, rfl, by rw [Function.update_same, setWidth_ofNat_low]⟩

/-- **High part and a wide low part**: all seven words run and load the value. -/
theorem runInstruction_opLi_high_wide (hh : 2 ^ 28 ≤ value.toNat)
    (hl : ¬value.toNat % 2 ^ 28 < 2 ^ 24) :
    ∃ r, runInstruction (opLi overload value) Registers.initial 0 = .ok (r, some 7, 7) ∧
      r 1 = ⟨overload.tag, .word value⟩ := by
  have htext := opLi_eq overload value
  rw [if_pos hh, if_neg hl] at htext
  rw [runInstruction_loadUpper overload _ 0 (toNat_ofNat_high value) (by rw [htext]; rfl)]
  obtain ⟨r, hr, h1⟩ := runInstruction_multiplyLow overload (opLi overload value) (0 + 1)
    (by rw [htext]; rfl) (by rw [BitVec.toNat_ofNat]; omega) (by rw [BitVec.toNat_ofNat]; omega)
    (Function.update_same _ _ _)
  rw [loadUpper_add_multiplyLow] at h1
  rw [hr]
  exact ⟨r, rfl, h1⟩

/-- **No high part and a wide low part**: no `LUI` runs, and the final `ADD` takes the
tag of register 1 as the file had it, `void`. -/
theorem runInstruction_opLi_wide (hh : value.toNat < 2 ^ 28)
    (hl : ¬value.toNat % 2 ^ 28 < 2 ^ 24) :
    ∃ r, runInstruction (opLi overload value) Registers.initial 0 = .ok (r, some 6, 6) ∧
      r 1 = ⟨.void, .word value⟩ := by
  have htext := opLi_eq overload value
  rw [if_neg (by omega), if_neg hl] at htext
  obtain ⟨r, hr, h1⟩ := runInstruction_multiplyLow overload (opLi overload value) 0
    (by rw [htext]; rfl) (by rw [BitVec.toNat_ofNat]; omega) (by rw [BitVec.toNat_ofNat]; omega)
    (show Registers.initial 1 = ⟨.void, .word 0⟩ from rfl)
  have hv := loadUpper_add_multiplyLow value
  rw [show value.toNat / 2 ^ 28 = 0 by omega] at hv
  refine ⟨r, hr, h1.trans ?_⟩
  simpa using hv

end Cases


/-- **What `li` loads.** For either overload and every value, the words of `op_li` run from
the file `main` builds as one bundle that returns the address past its last word. Register
1 then holds the value with the overload's tag, except in two cases: a low part that fits
24 bits leaves only the low 28 bits of the value, and a value below `2 ^ 28` whose low part
does not fit is tagged `void`. -/
theorem runInstruction_opLi (overload : Overload) (value : BitVec 64) :
    ∃ r, runInstruction (opLi overload value) Registers.initial 0 =
        .ok (r, some (opLi overload value).length, (opLi overload value).length) ∧
      r 1 = if value.toNat % 2 ^ 28 < 2 ^ 24 then
          ⟨overload.tag, .word (BitVec.ofNat 64 (value.toNat % 2 ^ 28))⟩
        else if value.toNat < 2 ^ 28 then ⟨.void, .word value⟩
        else ⟨overload.tag, .word value⟩ := by
  rw [length_opLi]
  by_cases hl : value.toNat % 2 ^ 28 < 2 ^ 24 <;> by_cases hh : value.toNat < 2 ^ 28
  · rw [if_neg (show ¬2 ^ 28 ≤ value.toNat by omega), if_pos hl, if_pos hl]
    exact runInstruction_opLi_fits overload hh hl
  · rw [if_pos (show 2 ^ 28 ≤ value.toNat by omega), if_pos hl, if_pos hl]
    exact runInstruction_opLi_high_fits overload (by omega) hl
  · rw [if_neg (show ¬2 ^ 28 ≤ value.toNat by omega), if_neg hl, if_neg hl, if_pos hh]
    exact runInstruction_opLi_wide overload hh hl
  · rw [if_pos (show 2 ^ 28 ≤ value.toNat by omega), if_neg hl, if_neg hl, if_neg hh]
    exact runInstruction_opLi_high_wide overload (by omega) hl

/-- `op_li(ip, 0xdeadbeefd0adbeef)` for a `uint64_t` loads `0xadbeef`. -/
theorem opLi_loses_high_part :
    ∃ r, runInstruction (opLi .unsigned 0xdeadbeefd0adbeef#64) Registers.initial 0 =
        .ok (r, some 2, 2) ∧
      r 1 = ⟨.integerUnsigned, .word 0x0000000000adbeef#64⟩ :=
  runInstruction_opLi_high_fits .unsigned (by decide) (by decide)

end ViuaVm.Asm.LoadImmediate
