import ViuaVm.Asm.Stage
import ViuaVm.Arch.Ops

/-! # The relocation table: `make_reloc_table`

`make_reloc_table` walks the text word by word and emits a relocation for every `CALL` and
every `ATOM`: the two `F` words before the instruction hold the symbol-table index (its upper
and lower 32 bits), and the relocation points at the first of them. The index is cast to
`uint32_t`, so only the lower word counts.

`makeRelocTable_eq` says what the loop computes: when neither of the first two words is a
`CALL` or an `ATOM`, the table is `relocations`, one entry per such word in text order, at
offset `8 * (i - 2)`. When one of the first two words is, `text.at(i - 2)` reads at an index
that wrapped around, and `relocation` throws `std::out_of_range` as the stage does. The
relocation types are the values of `R_VIUA_JUMP_SLOT` and `R_VIUA_OBJECT` of
`viua/arch/elf.h`, which is not among the sources: they are parameters.
-/
namespace ViuaVm.Asm.Reloc
open ViuaVm.Arch.Ops ViuaVm.Elf.Structs ViuaVm.Asm.Stage

section Table
variable (R_VIUA_JUMP_SLOT R_VIUA_OBJECT : Nat)

/-- The relocation of type `type` for the instruction at word `i`, from the two `F` words
before it. -/
def relocation (text : List InstructionType) (i type : Nat) : Except Stop Rel := do
  let hiWord ← vectorAt text (sizeSub i 2)
  let loWord ← vectorAt text (sizeSub i 1)
  let hi : BitVec 64 := (F.decode hiWord).immediate.setWidth 64 <<< 32
  let lo : BitVec 64 := (F.decode loWord).immediate.setWidth 64
  let symtabEntryIndex : BitVec 32 := (hi ||| lo).setWidth 32
  pure ⟨sizeSub i 2 * 8 % 2 ^ 64, ELF64_R_INFO symtabEntryIndex.toNat (type % 2 ^ 8)⟩

/-- The body of the loop of `make_reloc_table` at word `i`: the `switch` on the opcode. -/
def relocStep (text : List InstructionType) (relocTable : List Rel) (i : Nat) :
    Except Stop (List Rel) := do
  let each ← vectorAt text i
  let op := opcodeOf each
  if op = OPCODE.CALL then
    let rel ← relocation text i R_VIUA_JUMP_SLOT
    pure (relocTable ++ [rel])
  else if op = OPCODE.ATOM then
    let rel ← relocation text i R_VIUA_OBJECT
    pure (relocTable ++ [rel])
  else pure relocTable

/-- `make_reloc_table`. -/
def makeRelocTable (text : List InstructionType) : Except Stop (List Rel) :=
  (List.range text.length).foldlM (relocStep R_VIUA_JUMP_SLOT R_VIUA_OBJECT text) []

/-! ## What the table holds -/

/-- The relocation type a word asks for: a jump slot for `CALL`, an object for `ATOM`. -/
def relocType (w : InstructionType) : Option Nat :=
  if opcodeOf w = OPCODE.CALL then some R_VIUA_JUMP_SLOT
  else if opcodeOf w = OPCODE.ATOM then some R_VIUA_OBJECT
  else none

/-- The relocation of the word at `i`, when it asks for one and two words come before it:
at the first of those, with the lower 32 bits of the index they hold. -/
def relocationAt (text : List InstructionType) (i : Nat) : Option Rel :=
  if 2 ≤ i then
    match text[i]?, text[i - 1]? with
    | some w, some lo => (relocType R_VIUA_JUMP_SLOT R_VIUA_OBJECT w).map fun type =>
        ⟨(i - 2) * 8, ELF64_R_INFO (F.decode lo).immediate.toNat (type % 2 ^ 8)⟩
    | _, _ => none
  else none

/-- The relocations of the text, in text order. -/
def relocations (text : List InstructionType) : List Rel :=
  (List.range text.length).filterMap (relocationAt R_VIUA_JUMP_SLOT R_VIUA_OBJECT text)

/-! ## The loop -/

/-- `static_cast<uint32_t>(hi << 32 | lo)` is `lo`. -/
theorem setWidth_shiftLeft_or (hi lo : BitVec 32) :
    (hi.setWidth 64 <<< 32 ||| lo.setWidth 64).setWidth 32 = lo := by
  ext i; simp

variable {text : List InstructionType}

theorem relocation_eq {i : Nat} (type : Nat) (hlen : 8 * text.length < 2 ^ 64) (h2 : 2 ≤ i)
    (hi : i < text.length) :
    relocation text i type =
      .ok ⟨(i - 2) * 8, ELF64_R_INFO (F.decode text[i - 1]).immediate.toNat (type % 2 ^ 8)⟩ := by
  have hhi : vectorAt text (i - 2) = .ok text[i - 2] :=
    vectorAt_eq_ok.mpr (List.getElem?_eq_getElem _)
  have hlo : vectorAt text (i - 1) = .ok text[i - 1] :=
    vectorAt_eq_ok.mpr (List.getElem?_eq_getElem _)
  simp only [relocation, sizeSub_of_le (show i < 2 ^ 64 by omega) h2,
    sizeSub_of_le (show i < 2 ^ 64 by omega) (show 1 ≤ i by omega), hhi, hlo, bind, Except.bind,
    pure, Except.pure, setWidth_shiftLeft_or,
    Nat.mod_eq_of_lt (show (i - 2) * 8 < 2 ^ 64 by omega)]

/-- Before word 2, `i - 2` wraps around and `text.at(i - 2)` throws. -/
theorem relocation_lt_two {i : Nat} (type : Nat) (hlen : 8 * text.length < 2 ^ 64) (h2 : i < 2) :
    relocation text i type = .error .outOfRange := by
  have : vectorAt text (sizeSub i 2) = .error .outOfRange :=
    vectorAt_eq_outOfRange.mpr (by unfold sizeSub; omega)
  simp [relocation, this, bind, Except.bind]

/-- One step of the loop, at a word of the text. -/
theorem relocStep_eq (relocTable : List Rel) {i : Nat} (hi : i < text.length) :
    relocStep R_VIUA_JUMP_SLOT R_VIUA_OBJECT text relocTable i =
      match relocType R_VIUA_JUMP_SLOT R_VIUA_OBJECT text[i] with
      | none => .ok relocTable
      | some type => (relocation text i type).map (relocTable ++ [·]) := by
  have he : vectorAt text i = .ok text[i] := vectorAt_eq_ok.mpr (List.getElem?_eq_getElem _)
  unfold relocStep relocType
  simp only [he, bind, Except.bind]
  by_cases hc : opcodeOf text[i] = OPCODE.CALL
  · simp only [if_pos hc, Except.map]
    cases relocation text i R_VIUA_JUMP_SLOT <;> rfl
  · by_cases ha : opcodeOf text[i] = OPCODE.ATOM
    · simp only [if_neg hc, if_pos ha, Except.map]
      cases relocation text i R_VIUA_OBJECT <;> rfl
    · simp only [if_neg hc, if_neg ha]; rfl

theorem relocationAt_eq {i : Nat} (hi : i < text.length) (h2 : 2 ≤ i) :
    relocationAt R_VIUA_JUMP_SLOT R_VIUA_OBJECT text i =
      (relocType R_VIUA_JUMP_SLOT R_VIUA_OBJECT text[i]).map fun type =>
        ⟨(i - 2) * 8, ELF64_R_INFO (F.decode text[i - 1]).immediate.toNat (type % 2 ^ 8)⟩ := by
  rw [relocationAt, if_pos h2, List.getElem?_eq_getElem hi,
    List.getElem?_eq_getElem (show i - 1 < text.length by omega)]

/-- The loop over the first `n` words, when neither of the first two words is a `CALL` or an
`ATOM`. -/
theorem foldlM_relocStep_range (hlen : 8 * text.length < 2 ^ 64)
    (hstart : ∀ i < 2, ∀ w, text[i]? = some w → relocType R_VIUA_JUMP_SLOT R_VIUA_OBJECT w = none)
    {n : Nat} (hn : n ≤ text.length) :
    (List.range n).foldlM (relocStep R_VIUA_JUMP_SLOT R_VIUA_OBJECT text) [] =
      .ok ((List.range n).filterMap (relocationAt R_VIUA_JUMP_SLOT R_VIUA_OBJECT text)) := by
  induction n with
  | zero => rfl
  | succ n ih =>
    have hn' : n < text.length := by omega
    rw [List.range_succ, List.foldlM_append, ih (by omega), List.filterMap_append]
    simp only [bind, Except.bind, List.foldlM_cons, List.foldlM_nil, relocStep_eq _ _ _ hn',
      List.filterMap_cons, List.filterMap_nil]
    by_cases h2 : 2 ≤ n
    · rw [relocationAt_eq _ _ hn' h2]
      cases relocType R_VIUA_JUMP_SLOT R_VIUA_OBJECT text[n] with
      | none => simp [pure, Except.pure]
      | some type => simp [relocation_eq type hlen h2 hn', Except.map]; rfl
    · have hnone := hstart n (by omega) _ (List.getElem?_eq_getElem hn')
      simp only [hnone, relocationAt, if_neg h2, List.append_nil]; rfl

/-- The loop over the first `n` words, whenever it returns: a `CALL` or an `ATOM` among the
first two words throws, so what it returns is the relocations of those words. -/
theorem foldlM_relocStep_ok (hlen : 8 * text.length < 2 ^ 64) {n : Nat} (hn : n ≤ text.length)
    {relocTable : List Rel}
    (h : (List.range n).foldlM (relocStep R_VIUA_JUMP_SLOT R_VIUA_OBJECT text) [] =
      .ok relocTable) :
    relocTable = (List.range n).filterMap (relocationAt R_VIUA_JUMP_SLOT R_VIUA_OBJECT text) := by
  induction n generalizing relocTable with
  | zero => cases h; rfl
  | succ n ih =>
    have hn' : n < text.length := by omega
    rw [List.range_succ, List.foldlM_append] at h
    obtain ⟨acc, hacc, h⟩ := bind_eq_ok.mp h
    obtain ⟨acc', hstep, h⟩ := bind_eq_ok.mp h
    cases h
    rw [List.range_succ, List.filterMap_append, ← ih (by omega) hacc]
    rw [relocStep_eq _ _ _ hn'] at hstep
    by_cases h2 : 2 ≤ n
    · rw [List.filterMap_cons, List.filterMap_nil, relocationAt_eq _ _ hn' h2]
      cases hrel : relocType R_VIUA_JUMP_SLOT R_VIUA_OBJECT text[n] with
      | none => rw [hrel] at hstep; cases hstep; simp
      | some type =>
        simp only [hrel, relocation_eq type hlen h2 hn', Except.map, Except.ok.injEq] at hstep
        rw [← hstep]; rfl
    · rw [List.filterMap_cons, List.filterMap_nil, relocationAt, if_neg h2]
      cases hrel : relocType R_VIUA_JUMP_SLOT R_VIUA_OBJECT text[n] with
      | none => rw [hrel] at hstep; cases hstep; simp
      | some type =>
        simp only [hrel, relocation_lt_two type hlen (show n < 2 by omega), Except.map] at hstep
        cases hstep

/-- Whenever `make_reloc_table` returns, it returns `relocations`. -/
theorem makeRelocTable_ok (hlen : 8 * text.length < 2 ^ 64) {relocTable : List Rel}
    (h : makeRelocTable R_VIUA_JUMP_SLOT R_VIUA_OBJECT text = .ok relocTable) :
    relocTable = relocations R_VIUA_JUMP_SLOT R_VIUA_OBJECT text :=
  foldlM_relocStep_ok R_VIUA_JUMP_SLOT R_VIUA_OBJECT hlen (Nat.le_refl _) h

/-- Every relocation's fields fit their 64 bits: the index is a `uint32_t` and the type a
`uint8_t`. -/
theorem relocations_fit (hlen : 8 * text.length < 2 ^ 64) :
    ∀ rel ∈ relocations R_VIUA_JUMP_SLOT R_VIUA_OBJECT text,
      rel.rOffset < 2 ^ 64 ∧ rel.rInfo < 2 ^ 64 := by
  intro rel hrel
  obtain ⟨i, hi, hat⟩ := List.mem_filterMap.mp hrel
  rw [List.mem_range] at hi
  by_cases h2 : 2 ≤ i
  · rw [relocationAt_eq _ _ hi h2] at hat
    obtain ⟨type, -, rfl⟩ := Option.map_eq_some'.mp hat
    have hindex := (F.decode text[i - 1]).immediate.isLt
    have htype := Nat.mod_lt type (show 0 < 2 ^ 8 by norm_num)
    simp only [ELF64_R_INFO]
    omega
  · simp [relocationAt, h2] at hat

/-- **What the loop computes.** When neither of the first two words is a `CALL` or an
`ATOM`, `make_reloc_table` returns one relocation per `CALL` and `ATOM`, in text order. -/
theorem makeRelocTable_eq (hlen : 8 * text.length < 2 ^ 64)
    (hstart : ∀ i < 2, ∀ w, text[i]? = some w → relocType R_VIUA_JUMP_SLOT R_VIUA_OBJECT w = none) :
    makeRelocTable R_VIUA_JUMP_SLOT R_VIUA_OBJECT text =
      .ok (relocations R_VIUA_JUMP_SLOT R_VIUA_OBJECT text) :=
  foldlM_relocStep_range R_VIUA_JUMP_SLOT R_VIUA_OBJECT hlen hstart (Nat.le_refl _)

/-- `HALT`, two `F` words, then a `CALL`. -/
theorem makeRelocTable_eq_sample :
    8 * [0x1#64, 0x0#64, 0x0#64, 0x2001#64].length < 2 ^ 64 ∧
      (∀ i < 2, ∀ w, [0x1#64, 0x0#64, 0x0#64, 0x2001#64][i]? = some w → relocType 1 2 w = none) ∧
      makeRelocTable 1 2 [0x1#64, 0x0#64, 0x0#64, 0x2001#64] =
        .ok (relocations 1 2 [0x1#64, 0x0#64, 0x0#64, 0x2001#64]) :=
  have hstart : ∀ i < 2, ∀ w, [0x1#64, 0x0#64, 0x0#64, 0x2001#64][i]? = some w →
      relocType 1 2 w = none := by
    rintro (_ | _ | i) hi w hw <;> simp at hw <;> first | omega | (subst hw; decide)
  ⟨by decide, hstart, makeRelocTable_eq 1 2 (by decide) hstart⟩

end Table

end ViuaVm.Asm.Reloc
