import ViuaVm.Asm.Labels
import ViuaVm.Arch.Ops

/-! # Emitting the text: `emit_bytecode`

`emit_bytecode` (the one at the top of `tools/exec/asm.cpp`) sizes the text with an
`std::accumulate` over the nodes, writes `HALT` at word 0, and walks the functions with a
pointer `ip` from word 1: each function's symbol gets the byte offset and size of its words,
unless the function is `extern`, and its instructions are written one word after another.
The walk never writes past the end of the text, since the sizes the accumulate adds are the
sizes the walk writes (`emitFunctions_eq`).

`emitBytecode_layout` is the stage after the two label stages: when the functions' names are
pairwise distinct and no label has one, the text is `HALT` and then every function's words
in source order, and each function without `extern` has the offset and size of its words in
its symbol. The instruction type and `emit_instruction` are parameters.
-/
namespace ViuaVm.Asm.Bytecode
open ViuaVm.Arch.Ops ViuaVm.Elf.LittleEndian ViuaVm.Elf.Structs ViuaVm.Asm.Stage
open ViuaVm.Asm.Labels

section Emit
variable {Insn : Type} (emitInstruction : Insn → InstructionType)

/-- `std::vector::resize` of the text: cut to `n` words, or filled up to `n` with zero words. -/
def resize (text : List InstructionType) (n : Nat) : List InstructionType :=
  text.take n ++ List.replicate (n - text.length) 0

/-- The lambda of the `std::accumulate` in `emit_bytecode`. -/
def countStep (acc : Nat) : Node Insn → Nat
  | .fnDef fn => acc + fn.instructions.length
  | .labelDef _ | .metadata => acc

/-- `*ip++ = word` for each word in turn; a write past the end of the text is undefined. -/
def writeWords : List InstructionType → Nat → List InstructionType →
    Except Stop (List InstructionType)
  | text, _, [] => .ok text
  | text, ip, word :: words =>
    if ip < text.length then writeWords (text.set ip word) (ip + 1) words
    else .error .undefined

/-- The body of the loop of `emit_bytecode`, for a function whose first word goes to `ip`.
The symbol is looked up with `at` also for an `extern` function. -/
def emitFunction (symbolMap : SymbolMap) (fn : FnDef Insn) (text : List InstructionType)
    (symbolTable : List Sym) (ip : Nat) :
    Except Stop (List InstructionType × List Sym × Nat) := do
  let fnAddr := ip * 8
  let k ← mapAt symbolMap fn.name.text
  let sym ← vectorAt symbolTable k
  let symbolTable := if fn.hasAttr externAttr then symbolTable
    else symbolTable.set k { sym with stValue := fnAddr, stSize := fn.instructions.length * 8 }
  let text ← writeWords text ip (fn.instructions.map emitInstruction)
  pure (text, symbolTable, ip + fn.instructions.length)

/-- The loop of `emit_bytecode` over the nodes. -/
def emitFunctions (symbolMap : SymbolMap) : List (Node Insn) → List InstructionType →
    List Sym → Nat → Except Stop (List InstructionType × List Sym)
  | [], text, symbolTable, _ => .ok (text, symbolTable)
  | .fnDef fn :: nodes, text, symbolTable, ip => do
    let (text, symbolTable, ip) ← emitFunction emitInstruction symbolMap fn text symbolTable ip
    emitFunctions symbolMap nodes text symbolTable ip
  | .labelDef _ :: nodes, text, symbolTable, ip | .metadata :: nodes, text, symbolTable, ip =>
    emitFunctions symbolMap nodes text symbolTable ip

/-- `emit_bytecode`: the text and the symbol table it leaves. The map of function addresses
it returns is always empty. -/
def emitBytecode (nodes : List (Node Insn)) (text : List InstructionType) (symbolTable : List Sym)
    (symbolMap : SymbolMap) : Except Stop (List InstructionType × List Sym) :=
  let opsCount := 1 + nodes.foldl countStep 0
  let text := (resize text opsCount).set 0 (N.encode ⟨OPCODE.HALT⟩)
  emitFunctions emitInstruction symbolMap nodes text symbolTable 1

end Emit

/-! ## Where each function's words go -/

section Layout
variable {Insn : Type}

/-- The words of the functions before the `j`-th one. -/
def offset (fns : List (FnDef Insn)) (j : Nat) : Nat :=
  ((fns.take j).map fun fn => fn.instructions.length).sum

/-- The words of all the functions. -/
def totalSize (fns : List (FnDef Insn)) : Nat := (fns.map fun fn => fn.instructions.length).sum

@[simp] theorem offset_zero (fns : List (FnDef Insn)) : offset fns 0 = 0 := rfl

@[simp] theorem offset_cons_succ (fn : FnDef Insn) (fns : List (FnDef Insn)) (j : Nat) :
    offset (fn :: fns) (j + 1) = fn.instructions.length + offset fns j := by
  simp [offset]

@[simp] theorem totalSize_cons (fn : FnDef Insn) (fns : List (FnDef Insn)) :
    totalSize (fn :: fns) = fn.instructions.length + totalSize fns := by
  simp [totalSize]

theorem offset_succ {fns : List (FnDef Insn)} {j : Nat} {fn : FnDef Insn}
    (h : fns[j]? = some fn) : offset fns (j + 1) = offset fns j + fn.instructions.length := by
  rw [offset, offset, List.take_succ, h]; simp

theorem offset_mono (fns : List (FnDef Insn)) {j j' : Nat} (h : j ≤ j') :
    offset fns j ≤ offset fns j' :=
  List.Sublist.sum_le_sum ((List.take_prefix_take_left fns h).sublist.map _)
    (fun _ _ => Nat.zero_le _)

/-- A function with words ends before every later function starts. -/
theorem offset_lt_of_lt {fns : List (FnDef Insn)} {j j' : Nat} {fn : FnDef Insn}
    (hj : fns[j]? = some fn) (hne : fn.instructions ≠ []) (hlt : j < j') :
    offset fns j < offset fns j' := by
  have := offset_mono fns (Nat.succ_le_of_lt hlt)
  rw [offset_succ hj] at this
  have := List.length_pos.mpr hne
  omega

theorem offset_le_totalSize (fns : List (FnDef Insn)) (j : Nat) : offset fns j ≤ totalSize fns :=
  List.Sublist.sum_le_sum ((List.take_sublist j fns).map _) (fun _ _ => Nat.zero_le _)

theorem foldl_countStep (nodes : List (Node Insn)) (acc : Nat) :
    nodes.foldl countStep acc = acc + totalSize (fnDefs nodes) := by
  induction nodes generalizing acc with
  | nil => rfl
  | cons each nodes ih =>
    cases each <;> simp only [List.foldl_cons, countStep, ih, fnDefs, totalSize_cons]
    omega

/-- The words of the functions, one after another. -/
def emittedWords (emitInstruction : Insn → InstructionType) (fns : List (FnDef Insn)) :
    List InstructionType :=
  (fns.map fun fn => fn.instructions.map emitInstruction).flatten

@[simp] theorem emittedWords_cons (emitInstruction : Insn → InstructionType) (fn : FnDef Insn)
    (fns : List (FnDef Insn)) :
    emittedWords emitInstruction (fn :: fns) =
      fn.instructions.map emitInstruction ++ emittedWords emitInstruction fns := rfl

@[simp] theorem length_emittedWords (emitInstruction : Insn → InstructionType)
    (fns : List (FnDef Insn)) : (emittedWords emitInstruction fns).length = totalSize fns := by
  induction fns with
  | nil => rfl
  | cons fn fns ih => simp [ih]

/-- The `j`-th function's words are at `offset fns j` of the words of all of them. -/
theorem slice_emittedWords (emitInstruction : Insn → InstructionType)
    {fns : List (FnDef Insn)} {j : Nat} {fn : FnDef Insn} (h : fns[j]? = some fn) :
    slice (emittedWords emitInstruction fns) (offset fns j) fn.instructions.length =
      fn.instructions.map emitInstruction := by
  induction fns generalizing j with
  | nil => cases h
  | cons fn' fns ih =>
    cases j with
    | zero =>
      obtain rfl : fn' = fn := by simpa using h
      simpa using slice_append [] (fn'.instructions.map emitInstruction)
        (emittedWords emitInstruction fns)
    | succ j =>
      rw [List.getElem?_cons_succ] at h
      rw [emittedWords_cons, offset_cons_succ, ← ih h]
      simpa using slice_append_shift (fn'.instructions.map emitInstruction) _ (offset fns j) _

end Layout

/-! ## The walk -/

section Walk
variable {Insn : Type} (emitInstruction : Insn → InstructionType)

theorem writeWords_append (done words rest : List InstructionType)
    (h : words.length ≤ rest.length) :
    writeWords (done ++ rest) done.length words = .ok (done ++ words ++ rest.drop words.length) := by
  induction words generalizing done rest with
  | nil => simp [writeWords]
  | cons word words ih =>
    obtain ⟨r, rest, rfl⟩ : ∃ r rest', rest = r :: rest' :=
      List.exists_cons_of_length_pos (by simp at h; omega)
    have := ih (done ++ [word]) rest (by simp at h; omega)
    simp only [List.length_append, List.length_singleton, List.append_assoc,
      List.singleton_append] at this
    simp [writeWords, this]

/-- One function: its words go to `ip`, and its symbol is placed unless it is `extern`. -/
theorem emitFunction_eq {symbolMap : SymbolMap} {fn : FnDef Insn} {symbolTable : List Sym}
    {k : Nat} {sym : Sym} (hk : symbolMap fn.name.text = some k)
    (hsym : symbolTable[k]? = some sym) (done rest : List InstructionType)
    (h : fn.instructions.length ≤ rest.length) :
    emitFunction emitInstruction symbolMap fn (done ++ rest) symbolTable done.length =
      .ok (done ++ fn.instructions.map emitInstruction ++ rest.drop fn.instructions.length,
        (if fn.hasAttr externAttr then symbolTable
          else symbolTable.set k
            { sym with stValue := done.length * 8, stSize := fn.instructions.length * 8 }),
        done.length + fn.instructions.length) := by
  have hw := writeWords_append done (fn.instructions.map emitInstruction) rest (by simpa using h)
  simp only [List.length_map] at hw
  simp [emitFunction, mapAt_of_eq hk, vectorAt_eq_ok.mpr hsym, hw, bind, Except.bind, pure,
    Except.pure]

/-- The symbols the walk leaves for functions `fns` whose words start at word `ip`: each
function without `extern` has its byte offset and size, every other symbol is as it was. -/
structure Placed (symbolMap : SymbolMap) (fns : List (FnDef Insn)) (ip : Nat)
    (symbolTable symbolTable' : List Sym) : Prop where
  placed : ∀ j fn, fns[j]? = some fn → fn.hasAttr externAttr = false → ∃ k sym,
    symbolMap fn.name.text = some k ∧ symbolTable[k]? = some sym ∧
    symbolTable'[k]? = some
      { sym with stValue := 8 * (ip + offset fns j), stSize := 8 * fn.instructions.length }
  unchanged : ∀ k, (∀ fn ∈ fns, fn.hasAttr externAttr = false → symbolMap fn.name.text ≠ some k) →
    symbolTable'[k]? = symbolTable[k]?

/-- The symbol a placed function's name maps to, as the walk leaves it. -/
theorem Placed.getElem?_symbol {symbolMap : SymbolMap} {fns : List (FnDef Insn)} {ip : Nat}
    {symbolTable symbolTable' : List Sym} (h : Placed symbolMap fns ip symbolTable symbolTable')
    {j : Nat} {fn : FnDef Insn} (hj : fns[j]? = some fn) (hlocal : fn.hasAttr externAttr = false)
    {k : Nat} (hk : symbolMap fn.name.text = some k) {sym : Sym}
    (hsym : symbolTable[k]? = some sym) :
    symbolTable'[k]? = some
      { sym with stValue := 8 * (ip + offset fns j), stSize := 8 * fn.instructions.length } := by
  obtain ⟨k', sym', hk', hsym', hplaced⟩ := h.placed j fn hj hlocal
  obtain rfl : k = k' := Option.some.inj (hk.symm.trans hk')
  obtain rfl : sym = sym' := Option.some.inj (hsym.symm.trans hsym')
  exact hplaced

/-- Placing the first function's symbol, then the others', places them all: the others'
indices differ from the first one's. -/
theorem Placed.cons {symbolMap : SymbolMap} {fn : FnDef Insn} {fns : List (FnDef Insn)}
    {ip k : Nat} {sym : Sym} {symbolTable symbolTable' : List Sym}
    (hk : symbolMap fn.name.text = some k) (hsym : symbolTable[k]? = some sym)
    (hother : ∀ fn' ∈ fns, symbolMap fn'.name.text ≠ some k)
    (h : Placed symbolMap fns (ip + fn.instructions.length)
      (if fn.hasAttr externAttr then symbolTable
        else symbolTable.set k
          { sym with stValue := ip * 8, stSize := fn.instructions.length * 8 }) symbolTable') :
    Placed symbolMap (fn :: fns) ip symbolTable symbolTable' := by
  /- the first write touches only index `k` -/
  have hfirst : ∀ k', k' ≠ k →
      (if fn.hasAttr externAttr then symbolTable
        else symbolTable.set k
          { sym with stValue := ip * 8, stSize := fn.instructions.length * 8 })[k']? =
        symbolTable[k']? := by
    intro k' hne; split <;> simp [List.getElem?_set_ne (Ne.symm hne)]
  refine ⟨fun j fn₀ hj hx => ?_, fun k' hk' => ?_⟩
  · cases j with
    | zero =>
      obtain rfl : fn = fn₀ := by simpa using hj
      refine ⟨k, sym, hk, hsym, ?_⟩
      rw [h.unchanged k (fun fn' hfn' _ => hother fn' hfn'), if_neg (by simp [hx]),
        List.getElem?_set_self (List.getElem?_eq_some_iff.mp hsym).1]
      simp [Nat.mul_comm]
    | succ j =>
      rw [List.getElem?_cons_succ] at hj
      obtain ⟨k', sym', hk', hsym', hplaced⟩ := h.placed j fn₀ hj hx
      have hne : k' ≠ k := by
        rintro rfl; exact hother fn₀ (List.mem_iff_getElem?.mpr ⟨j, hj⟩) hk'
      rw [hfirst k' hne] at hsym'
      refine ⟨k', sym', hk', hsym', ?_⟩
      rw [hplaced, offset_cons_succ, Nat.add_assoc]
  · have hne : k' ≠ k ∨ fn.hasAttr externAttr = true := by
      by_cases hx : fn.hasAttr externAttr
      · exact .inr hx
      · exact .inl fun he => hk' fn (List.mem_cons_self _ _) (by simpa using hx) (he ▸ hk)
    rw [h.unchanged k' (fun fn' hfn' => hk' fn' (List.mem_cons_of_mem _ hfn'))]
    rcases hne with hne | hx
    · exact hfirst k' hne
    · simp [hx]

/-- **The walk over the functions.** From word `done.length`, with room for all the words
after it, the walk writes every function's words in order and places its symbol. -/
theorem emitFunctions_eq {symbolMap : SymbolMap} (nodes : List (Node Insn))
    {symbolTable : List Sym}
    (hv : SymbolsValid (fnNames nodes) symbolMap symbolTable.length)
    (hnodup : (fnNames nodes).Nodup) (done rest : List InstructionType)
    (hrest : totalSize (fnDefs nodes) ≤ rest.length) :
    ∃ symbolTable', emitFunctions emitInstruction symbolMap nodes (done ++ rest) symbolTable
        done.length =
      .ok (done ++ emittedWords emitInstruction (fnDefs nodes) ++
        rest.drop (totalSize (fnDefs nodes)), symbolTable') ∧
      Placed symbolMap (fnDefs nodes) done.length symbolTable symbolTable' := by
  induction nodes generalizing done rest symbolTable with
  | nil =>
    exact ⟨symbolTable, by simp [emitFunctions, fnDefs, totalSize, emittedWords],
      fun j _ hj => by simp [fnDefs] at hj, fun _ _ => rfl⟩
  | cons each nodes ih =>
    cases each with
    | fnDef fn =>
      simp only [fnNames_fnDef, List.nodup_cons] at hnodup
      simp only [fnDefs, totalSize_cons] at hrest ⊢
      obtain ⟨k, hk, hkl⟩ := hv.inRange fn.name.text (List.mem_cons_self _ _)
      obtain ⟨sym, hsym⟩ : ∃ sym, symbolTable[k]? = some sym :=
        ⟨_, List.getElem?_eq_getElem hkl⟩
      have hother : ∀ fn' ∈ fnDefs nodes, symbolMap fn'.name.text ≠ some k := by
        intro fn' hfn' he
        have hmem : fn'.name.text ∈ fnNames nodes := List.mem_map_of_mem _ hfn'
        have hsame := hv.injective _ (List.mem_cons_of_mem _ hmem) _ (List.mem_cons_self _ _)
          (he.trans hk.symm)
        rw [hsame] at hmem
        exact hnodup.1 hmem
      set symbolTable₁ := if fn.hasAttr externAttr then symbolTable
        else symbolTable.set k
          { sym with stValue := done.length * 8, stSize := fn.instructions.length * 8 }
      have hv₁ : SymbolsValid (fnNames nodes) symbolMap symbolTable₁.length :=
        (hv.subset (List.subset_cons_self _ _)).transfer (fun _ _ => rfl)
          (by simp only [symbolTable₁]; split <;> simp)
      obtain ⟨symbolTable', heq, hplaced⟩ :=
        ih hv₁ hnodup.2 (done ++ fn.instructions.map emitInstruction)
          (rest.drop fn.instructions.length) (by simp; omega)
      refine ⟨symbolTable', ?_, Placed.cons hk hsym hother (by simpa using hplaced)⟩
      simp only [List.length_append, List.length_map] at heq
      rw [emitFunctions, emitFunction_eq emitInstruction hk hsym done rest (by omega)]
      simp only [bind, Except.bind]
      rw [heq, List.drop_drop, Nat.add_comm]
      simp
    | labelDef ct => exact ih hv hnodup done rest hrest
    | metadata => exact ih hv hnodup done rest hrest

theorem length_resize (text : List InstructionType) (n : Nat) : (resize text n).length = n := by
  simp [resize]; omega

/-- **`emit_bytecode` writes `HALT` and then every function's words**, and places the symbols
of the functions without `extern`. -/
theorem emitBytecode_eq {symbolMap : SymbolMap} (nodes : List (Node Insn))
    {symbolTable : List Sym}
    (hv : SymbolsValid (fnNames nodes) symbolMap symbolTable.length)
    (hnodup : (fnNames nodes).Nodup) (text : List InstructionType) :
    ∃ symbolTable', emitBytecode emitInstruction nodes text symbolTable symbolMap =
        .ok (N.encode ⟨OPCODE.HALT⟩ :: emittedWords emitInstruction (fnDefs nodes), symbolTable') ∧
      Placed symbolMap (fnDefs nodes) 1 symbolTable symbolTable' := by
  obtain ⟨w, rest, hw⟩ : ∃ w rest, resize text (1 + totalSize (fnDefs nodes)) = w :: rest :=
    List.exists_cons_of_length_pos (by rw [length_resize]; omega)
  have hlen : rest.length = totalSize (fnDefs nodes) := by
    have := congrArg List.length hw
    rw [length_resize, List.length_cons] at this
    omega
  obtain ⟨symbolTable', heq, hp⟩ :=
    emitFunctions_eq emitInstruction nodes hv hnodup [N.encode ⟨OPCODE.HALT⟩] rest hlen.ge
  refine ⟨symbolTable', ?_, hp⟩
  simp only [emitBytecode, foldl_countStep, Nat.zero_add, hw, List.set_cons_zero]
  simpa [← hlen] using heq

end Walk

/-! ## The stage after the label stages -/

section Stage
variable {Insn : Type} (emitInstruction : Insn → InstructionType)

/-- What `emit_bytecode` leaves, for the nodes it walked and the map and symbol table it was
given: the text is `HALT` and then the functions' words, each function's words are where
its offset says, and each function without `extern` has its byte offset and size in its
symbol. The spans of the functions lie in the text, one after another in source order. -/
structure Emitted (nodes : List (Node Insn)) (symbolMap : SymbolMap)
    (symbolTable : List Sym) (text : List InstructionType) (symbolTable' : List Sym) : Prop where
  length : text.length = 1 + totalSize (fnDefs nodes)
  halt : text[0]? = some (N.encode ⟨OPCODE.HALT⟩)
  words : ∀ j fn, (fnDefs nodes)[j]? = some fn →
    slice text (1 + offset (fnDefs nodes) j) fn.instructions.length =
      fn.instructions.map emitInstruction
  symbols : Placed symbolMap (fnDefs nodes) 1 symbolTable symbolTable'
  inText : ∀ j fn, (fnDefs nodes)[j]? = some fn →
    1 + offset (fnDefs nodes) j + fn.instructions.length ≤ text.length
  ordered : ∀ j j' fn, j < j' → (fnDefs nodes)[j]? = some fn →
    1 + offset (fnDefs nodes) j + fn.instructions.length ≤ 1 + offset (fnDefs nodes) j'

theorem emitted_of_placed {nodes : List (Node Insn)} {symbolMap : SymbolMap}
    {symbolTable symbolTable' : List Sym}
    (hp : Placed symbolMap (fnDefs nodes) 1 symbolTable symbolTable') :
    Emitted emitInstruction nodes symbolMap symbolTable
      (N.encode ⟨OPCODE.HALT⟩ :: emittedWords emitInstruction (fnDefs nodes)) symbolTable' where
  length := by simp [Nat.add_comm]
  halt := List.getElem?_cons_zero
  words j fn hj := by
    rw [← slice_emittedWords emitInstruction hj]
    exact slice_append_shift [N.encode ⟨OPCODE.HALT⟩] _ _ _
  symbols := hp
  inText j fn hj := by
    have := offset_le_totalSize (fnDefs nodes) (j + 1)
    rw [offset_succ hj] at this
    simp only [List.length_cons, length_emittedWords]
    omega
  ordered j j' fn hlt hj := by
    have := offset_mono (fnDefs nodes) (Nat.succ_le_of_lt hlt)
    rw [offset_succ hj] at this
    omega

/-- **`emit_bytecode` lays out the functions one after another.** For nodes whose function
names are pairwise distinct and not the name of any label, after `load_function_labels` and
`load_value_labels` have run from any tables, `emit_bytecode` returns a text of
`1 + (all the functions' instructions)` words with `HALT` first; every function without
`extern` gets `st_value = 8 * (1 + the instructions of the functions before it)` and
`st_size = 8 * (its instructions)`; the spans lie in the text in source order; and each
function's words are its instructions, emitted in order. -/
theorem emitBytecode_layout (unescape : Bytes → Bytes) (ston : Bytes → Nat)
    (nodes : List (Node Insn)) (hnodup : (fnNames nodes).Nodup)
    (hdisjoint : ∀ a ∈ labelNames nodes, a ∉ fnNames nodes) (tables tables' : Tables)
    (hload : loadValueLabels unescape ston nodes (loadFunctionLabels nodes tables) = .ok tables')
    (text : List InstructionType) :
    ∃ text' symbolTable',
      emitBytecode emitInstruction nodes text tables'.symbolTable tables'.symbolMap =
        .ok (text', symbolTable') ∧
      Emitted emitInstruction nodes tables'.symbolMap tables'.symbolTable text' symbolTable' := by
  have hv₀ := symbolsValid_loadFunctionLabels nodes tables (SymbolsValid.nil _ _)
    (fun _ _ h => by simp at h) hnodup
  rw [List.append_nil] at hv₀
  obtain ⟨symbolTable', heq, hp⟩ := emitBytecode_eq emitInstruction nodes
    (symbolsValid_loadValueLabels unescape ston hload hv₀ hdisjoint) hnodup text
  exact ⟨_, symbolTable', heq, emitted_of_placed emitInstruction hp⟩

end Stage

/-- A function of two words, an atom label, and an `extern` function of none. -/
def sampleProgram : List (Node InstructionType) :=
  [.fnDef ⟨⟨.other, ascii "main"⟩, [], [0x1#64, 0x2#64]⟩,
    .labelDef ⟨⟨.other, ascii "answer"⟩, ascii "atom", [⟨.other, ascii "42"⟩], []⟩,
    .fnDef ⟨⟨.other, ascii "puts"⟩, [externAttr], []⟩]

theorem emitBytecode_layout_sample :
    (fnNames sampleProgram).Nodup ∧ (∀ a ∈ labelNames sampleProgram, a ∉ fnNames sampleProgram) ∧
      ∃ tables', loadValueLabels id (fun _ => 0) sampleProgram
          (loadFunctionLabels sampleProgram (initialTables [])) = .ok tables' ∧
        ∃ text' symbolTable',
          emitBytecode id sampleProgram [] tables'.symbolTable tables'.symbolMap =
            .ok (text', symbolTable') ∧
          Emitted id sampleProgram tables'.symbolMap tables'.symbolTable text' symbolTable' :=
  ⟨by decide, by decide, _, rfl,
    emitBytecode_layout id id (fun _ => 0) sampleProgram (by decide) (by decide)
      (initialTables []) _ rfl []⟩

end ViuaVm.Asm.Bytecode
