import ViuaVm.Asm.Main
import ViuaVm.Elf.Symbols

/-! # What the label stages leave in the tables

Each label stage of `tools/exec/asm.cpp` is a sequence of one step (`LabelStep`): the name of
a symbol is saved to `string_table` by `save_string_to_strtab`, the symbol is appended to the
symbol table with `st_name` the offset the save returned, and `symbol_map` files its index
under the name; `.rodata` may grow, and an object's value lies in it
(`labelSteps_loadLabels`). What the tables satisfy is derived from that step once:

* `NamesOk`: the string table opens with its zero byte, every symbol's `st_name` is where a
  name and its zero byte stand, and every name the map knows reads back from the string
  table through the `st_name` of the symbol it maps to (`namesOk_loadLabels`);
* `MapOk`: the map gives each name its own index, inside the symbol table;
* `ValuesOk`: every object's `[st_value, st_value + st_size)` lies in `.rodata`;
* `FuncsUnplaced`: every function's symbol has value 0, until `emit_bytecode` places it.

Which names a step files is not part of `LabelStep`; that every function's name maps to a
symbol of type `STT_FUNC` is read off the stages themselves (`funcSymbol_loadLabels`).
-/
namespace ViuaVm.Asm.Names
open ViuaVm.Elf.LittleEndian ViuaVm.Elf.Structs ViuaVm.Asm.Stage ViuaVm.Asm.Labels
open ViuaVm.Asm.Main ViuaVm.Elf.Symbols

/-- `save_string_to_strtab` writes the name where it says it did. -/
theorem nameAt_saveStringToStrtab (stringTable name : Bytes) :
    NameAt (saveStringToStrtab stringTable name).2 (saveStringToStrtab stringTable name).1 name := by
  have h := slice_append stringTable (name ++ [0]) []
  rwa [List.append_nil, List.length_append, List.length_singleton, ← List.append_assoc] at h

/-! ## One step -/

/-- One step of the label stages: `name` saved to the string table and `sym` recorded under
it, with the name's offset as `st_name`; `.rodata` grows to `rodataBuf`, if `sym` is an
object its value lies in it, and if it is a function its value is 0. -/
inductive LabelStep (t : Tables) : Tables → Prop
  | record (rodataBuf name : Bytes) (sym : Sym) (hrodata : t.rodataBuf <+: rodataBuf)
      (hname : sym.stName = (saveStringToStrtab t.stringTable name).1)
      (hvalue : ELF64_ST_TYPE sym.stInfo = STT_OBJECT → sym.stValue + sym.stSize ≤ rodataBuf.length)
      (hfunction : ELF64_ST_TYPE sym.stInfo = STT_FUNC → sym.stValue = 0) :
      LabelStep t ⟨rodataBuf, (saveStringToStrtab t.stringTable name).2,
        (recordSymbol name sym t.symbolTable t.symbolMap).1,
        (recordSymbol name sym t.symbolTable t.symbolMap).2⟩

/-- Any number of steps. -/
def LabelSteps : Tables → Tables → Prop := Relation.ReflTransGen LabelStep

section Stages
variable {Insn : Type} (unescape : Bytes → Bytes) (ston : Bytes → Nat)

theorem labelStep_loadFunctionLabel (fn : FnDef Insn) (t : Tables) :
    LabelStep t (loadFunctionLabel fn t) :=
  .record t.rodataBuf fn.name.text _ (List.prefix_refl _) rfl
    (fun h => absurd h (show ELF64_ST_TYPE (ELF64_ST_INFO STB_GLOBAL STT_FUNC) ≠ STT_OBJECT by
      decide)) fun _ => rfl

theorem labelStep_saveValueLabel (ct : LabelDef) (s : Bytes) (t : Tables) :
    LabelStep t (saveValueLabel ct s t) :=
  .record _ ct.name.text _ (List.prefix_append _ _) rfl
    (fun _ => by simp [saveBufferToRodata]) fun h =>
      absurd h (show ELF64_ST_TYPE (ELF64_ST_INFO STB_GLOBAL STT_OBJECT) ≠ STT_FUNC by decide)

theorem labelStep_loadExternLabel (ct : LabelDef) (t : Tables) :
    LabelStep t (loadExternLabel ct t) :=
  .record t.rodataBuf ct.name.text _ (List.prefix_refl _) rfl (fun _ => Nat.zero_le _) fun h =>
    absurd h (show ELF64_ST_TYPE (ELF64_ST_INFO STB_GLOBAL STT_OBJECT) ≠ STT_FUNC by decide)

theorem labelSteps_loadFunctionLabels (nodes : List (Node Insn)) (t : Tables) :
    LabelSteps t (loadFunctionLabels nodes t) := by
  induction nodes generalizing t with
  | nil => exact .refl
  | cons each nodes ih =>
    cases each with
    | fnDef fn => exact .head (labelStep_loadFunctionLabel fn t) (ih _)
    | labelDef _ => exact ih t
    | metadata => exact ih t

theorem labelSteps_loadValueLabel {ct : LabelDef} {t t' : Tables}
    (h : loadValueLabel unescape ston ct t = .ok t') : LabelSteps t t' := by
  unfold loadValueLabel at h
  split_ifs at h
  · obtain ⟨s, -, hs⟩ := bind_eq_ok.mp h
    cases hs; exact .single (labelStep_saveValueLabel ct s t)
  · split at h
    · cases h; exact .single (labelStep_saveValueLabel ct _ t)
    · cases h
  · cases h; exact .refl

theorem labelSteps_loadValueLabels {nodes : List (Node Insn)} {t t' : Tables}
    (h : loadValueLabels unescape ston nodes t = .ok t') : LabelSteps t t' := by
  induction nodes generalizing t with
  | nil => cases h; exact .refl
  | cons each nodes ih =>
    cases each with
    | labelDef ct =>
      simp only [loadValueLabels] at h
      split_ifs at h
      · cases h; exact .single (labelStep_loadExternLabel ct t)
      · obtain ⟨t₁, h₁, h₂⟩ := bind_eq_ok.mp h
        exact (labelSteps_loadValueLabel unescape ston h₁).trans (ih h₂)
    | fnDef _ => exact ih h
    | metadata => exact ih h

/-- **The label stages are steps** from `main`'s initial tables. -/
theorem labelSteps_loadLabels {sourcePath : Bytes} {nodes : List (Node Insn)} {t : Tables}
    (hload : loadLabels unescape ston sourcePath nodes = .ok t) :
    LabelSteps (initialTables sourcePath) t :=
  (labelSteps_loadFunctionLabels nodes _).trans (labelSteps_loadValueLabels unescape ston hload)

end Stages

/-- A property every step keeps holds after any number of them. -/
theorem LabelSteps.preserves {P : Tables → Prop} (hstep : ∀ t t', LabelStep t t' → P t → P t')
    {t t' : Tables} (h : LabelSteps t t') (ht : P t) : P t' := by
  induction h with
  | refl => exact ht
  | tail _ hs ih => exact hstep _ _ hs ih

/-! ## Names -/

/-- The string table, the symbol table and the symbol map agree on names. -/
structure NamesOk (t : Tables) : Prop where
  /-- The string table opens with its zero byte, the empty name `STN_UNDEF` points at. -/
  zero : t.stringTable.head? = some 0
  /-- Every symbol's `st_name` is where a name and its zero byte stand. -/
  named : ∀ sym ∈ t.symbolTable, ∃ name, NameAt t.stringTable sym.stName name
  /-- Every name the map knows is its symbol's name in the string table. -/
  lookup : ∀ name k, t.symbolMap name = some k →
    ∃ sym, t.symbolTable[k]? = some sym ∧ NameAt t.stringTable sym.stName name

/-- A step keeps the agreement, whatever happens to `.rodata`. -/
theorem NamesOk.step {t t' : Tables} (h : NamesOk t) (hs : LabelStep t t') : NamesOk t' := by
  obtain ⟨rodataBuf, name, sym, -, hsym, -, -⟩ := hs
  have hgrow : t.stringTable <+: (saveStringToStrtab t.stringTable name).2 :=
    (List.prefix_append _ _).trans (List.prefix_append _ _)
  refine ⟨by simp [saveStringToStrtab, h.zero], fun sym' hmem => ?_, fun a k hk => ?_⟩
  · rcases List.mem_append.mp hmem with hold | hnew
    · obtain ⟨name', hname⟩ := h.named sym' hold
      exact ⟨name', hname.extend hgrow⟩
    · rw [List.mem_singleton.mp hnew, hsym]
      exact ⟨name, nameAt_saveStringToStrtab _ _⟩
  · dsimp only [recordSymbol] at hk ⊢
    by_cases ha : a = name
    · -- the name just recorded maps to the symbol just appended
      subst ha
      obtain rfl : t.symbolTable.length = k := by simpa using hk
      exact ⟨sym, by simp, hsym ▸ nameAt_saveStringToStrtab _ _⟩
    · rw [Function.update_noteq ha] at hk
      obtain ⟨sym', hk', hname⟩ := h.lookup a k hk
      exact ⟨sym', by rw [List.getElem?_append_left (List.getElem?_eq_some_iff.mp hk').1, hk'],
        hname.extend hgrow⟩

/-- `main`'s tables before the stages: the null symbol names the empty string at offset 0 and
the `STT_FILE` symbol the source path. -/
theorem namesOk_initialTables (sourcePath : Bytes) : NamesOk (initialTables sourcePath) := by
  refine ⟨rfl, fun sym hmem => ?_, fun _ _ hk => by cases hk⟩
  simp only [initialTables, List.mem_cons, List.mem_singleton, List.not_mem_nil, or_false] at hmem
  rcases hmem with rfl | rfl
  · exact ⟨[], rfl⟩
  · exact ⟨sourcePath, nameAt_saveStringToStrtab [0] sourcePath⟩

section Stages
variable {Insn : Type} (unescape : Bytes → Bytes) (ston : Bytes → Nat)

/-- **Every name the label stages file reads back from the string table.** Whatever the
nodes, when the label stages succeed the string table opens with its zero byte, every symbol's
`st_name` is where a name and its zero byte stand, and every name in `symbol_map` is the name
the string table holds at the `st_name` of the symbol the map gives for it. -/
theorem namesOk_loadLabels {sourcePath : Bytes} {nodes : List (Node Insn)} {t : Tables}
    (hload : loadLabels unescape ston sourcePath nodes = .ok t) : NamesOk t :=
  (labelSteps_loadLabels unescape ston hload).preserves (fun _ _ hs h => h.step hs)
    (namesOk_initialTables sourcePath)

/-- The function `main` and the label `msg = "ab" * 3`. -/
def sampleNodes : List (Node Unit) :=
  [.fnDef ⟨⟨.other, ascii "main"⟩, [], []⟩, .labelDef repeatedLabel]

unseal resolveString in
theorem namesOk_loadLabels_sample :
    ∃ t, loadLabels id (fun _ => 3) (ascii "a.asm") sampleNodes = .ok t ∧ NamesOk t :=
  ⟨_, rfl, @namesOk_loadLabels Unit id (fun _ => 3) (ascii "a.asm") sampleNodes _ rfl⟩

end Stages

/-! ## The map -/

/-- The map gives each name its own index, inside the symbol table. -/
structure MapOk (t : Tables) : Prop where
  inRange : ∀ a k, t.symbolMap a = some k → k < t.symbolTable.length
  injective : ∀ a b k, t.symbolMap a = some k → t.symbolMap b = some k → a = b

/-- A step gives the new name the new index, past every index the map knew. -/
theorem MapOk.step {t t' : Tables} (h : MapOk t) (hs : LabelStep t t') : MapOk t' := by
  obtain ⟨rodataBuf, name, sym, -, -, -, -⟩ := hs
  -- after the step, the map gives `name` the old length and every other name what it gave
  have hmap : ∀ a k, Function.update t.symbolMap name (some t.symbolTable.length) a = some k →
      (a = name ∧ k = t.symbolTable.length) ∨ t.symbolMap a = some k := by
    intro a k hk
    by_cases ha : a = name
    · subst ha; simp at hk; exact .inl ⟨rfl, hk.symm⟩
    · rw [Function.update_noteq ha] at hk; exact .inr hk
  refine ⟨fun a k hk => ?_, fun a b k ha hb => ?_⟩
  · show k < (t.symbolTable ++ [sym]).length
    rcases hmap a k hk with ⟨-, rfl⟩ | hk
    · simp
    · have := h.inRange a k hk; simp; omega
  · rcases hmap a k ha with ⟨rfl, hka⟩ | ha' <;> rcases hmap b k hb with ⟨rfl, hkb⟩ | hb'
    · rfl
    · exact absurd (h.inRange b k hb') (by omega)
    · exact absurd (h.inRange a k ha') (by omega)
    · exact h.injective a b k ha' hb'

theorem mapOk_initialTables (sourcePath : Bytes) : MapOk (initialTables sourcePath) :=
  ⟨fun _ _ hk => (by cases hk), fun _ _ _ hk _ => (by cases hk)⟩

theorem mapOk_loadLabels {Insn : Type} (unescape : Bytes → Bytes) (ston : Bytes → Nat)
    {sourcePath : Bytes} {nodes : List (Node Insn)} {t : Tables}
    (hload : loadLabels unescape ston sourcePath nodes = .ok t) : MapOk t :=
  (labelSteps_loadLabels unescape ston hload).preserves (fun _ _ hs h => h.step hs)
    (mapOk_initialTables sourcePath)

/-- A name the map knows stays known. -/
theorem LabelStep.isSome {t t' : Tables} (hs : LabelStep t t') {a : Bytes}
    (h : (t.symbolMap a).isSome) : (t'.symbolMap a).isSome := by
  obtain ⟨rodataBuf, name, sym, -, -, -, -⟩ := hs
  by_cases ha : a = name
  · subst ha; simp [recordSymbol]
  · simpa [recordSymbol, Function.update_noteq ha] using h

section Stages
variable {Insn : Type} (unescape : Bytes → Bytes) (ston : Bytes → Nat)

/-- After the label stages every function's name is in the map. -/
theorem isSome_loadLabels {sourcePath : Bytes} {nodes : List (Node Insn)} {t : Tables}
    (hload : loadLabels unescape ston sourcePath nodes = .ok t) :
    ∀ a ∈ fnNames nodes, (t.symbolMap a).isSome := by
  intro a ha
  refine (labelSteps_loadValueLabels unescape ston hload).preserves
    (fun _ _ hs h => hs.isSome h) ?_
  -- `load_function_labels` files the name, and what it records later keeps it
  clear hload
  generalize initialTables sourcePath = t₀
  induction nodes generalizing t₀ with
  | nil => cases ha
  | cons each nodes ih =>
    cases each with
    | fnDef fn =>
      simp only [fnNames_fnDef, List.mem_cons] at ha
      rcases ha with rfl | ha
      · exact (labelSteps_loadFunctionLabels nodes _).preserves (fun _ _ hs h => hs.isSome h)
          (by simp [loadFunctionLabel, recordSymbol])
      · exact ih ha _
    | labelDef _ => exact ih ha t₀
    | metadata => exact ih ha t₀

end Stages

/-! ## Values -/

/-- Every object's value lies in `.rodata`. -/
def ValuesOk (t : Tables) : Prop :=
  ∀ sym ∈ t.symbolTable, ELF64_ST_TYPE sym.stInfo = STT_OBJECT →
    sym.stValue + sym.stSize ≤ t.rodataBuf.length

theorem ValuesOk.step {t t' : Tables} (h : ValuesOk t) (hs : LabelStep t t') : ValuesOk t' := by
  obtain ⟨rodataBuf, name, sym, hrodata, -, hvalue, -⟩ := hs
  intro sym' hmem hobject
  rcases List.mem_append.mp hmem with hold | hnew
  · exact (h sym' hold hobject).trans hrodata.length_le
  · rw [List.mem_singleton.mp hnew] at hobject ⊢
    exact hvalue hobject

/-- `main`'s initial symbols are no objects. -/
theorem valuesOk_initialTables (sourcePath : Bytes) : ValuesOk (initialTables sourcePath) := by
  intro sym hmem hobject
  simp only [initialTables, List.mem_cons, List.mem_singleton, List.not_mem_nil, or_false] at hmem
  rcases hmem with rfl | rfl
  · exact absurd hobject (show ELF64_ST_TYPE (ELF64_ST_INFO STB_LOCAL STT_NOTYPE) ≠ STT_OBJECT by
      decide)
  · exact absurd hobject (show ELF64_ST_TYPE (ELF64_ST_INFO STB_LOCAL STT_FILE) ≠ STT_OBJECT by
      decide)

theorem valuesOk_loadLabels {Insn : Type} (unescape : Bytes → Bytes) (ston : Bytes → Nat)
    {sourcePath : Bytes} {nodes : List (Node Insn)} {t : Tables}
    (hload : loadLabels unescape ston sourcePath nodes = .ok t) : ValuesOk t :=
  (labelSteps_loadLabels unescape ston hload).preserves (fun _ _ hs h => h.step hs)
    (valuesOk_initialTables sourcePath)

/-- Every function's symbol has value 0: only `emit_bytecode` places functions. -/
def FuncsUnplaced (t : Tables) : Prop :=
  ∀ sym ∈ t.symbolTable, ELF64_ST_TYPE sym.stInfo = STT_FUNC → sym.stValue = 0

theorem FuncsUnplaced.step {t t' : Tables} (h : FuncsUnplaced t) (hs : LabelStep t t') :
    FuncsUnplaced t' := by
  obtain ⟨rodataBuf, name, sym, -, -, -, hfunction⟩ := hs
  intro sym' hmem hfunc
  rcases List.mem_append.mp hmem with hold | hnew
  · exact h sym' hold hfunc
  · rw [List.mem_singleton.mp hnew] at hfunc ⊢
    exact hfunction hfunc

/-- `main`'s initial symbols have value 0. -/
theorem funcsUnplaced_initialTables (sourcePath : Bytes) :
    FuncsUnplaced (initialTables sourcePath) := by
  intro sym hmem _
  simp only [initialTables, List.mem_cons, List.mem_singleton, List.not_mem_nil, or_false] at hmem
  rcases hmem with rfl | rfl <;> rfl

theorem funcsUnplaced_loadLabels {Insn : Type} (unescape : Bytes → Bytes) (ston : Bytes → Nat)
    {sourcePath : Bytes} {nodes : List (Node Insn)} {t : Tables}
    (hload : loadLabels unescape ston sourcePath nodes = .ok t) : FuncsUnplaced t :=
  (labelSteps_loadLabels unescape ston hload).preserves (fun _ _ hs h => h.step hs)
    (funcsUnplaced_initialTables sourcePath)

/-! ## Functions -/

/-- An entry of a list is the entry of every list it is a prefix of. -/
theorem getElem?_extend {α : Type} {l l' : List α} (h : l <+: l') {k : Nat} {a : α}
    (hk : l[k]? = some a) : l'[k]? = some a := by
  obtain ⟨more, rfl⟩ := h
  rw [List.getElem?_append_left (List.getElem?_eq_some_iff.mp hk).1, hk]

section Functions
variable {Insn : Type}

/-- `load_function_labels` appends symbols and files only functions' names. -/
theorem grows_loadFunctionLabels (nodes : List (Node Insn)) (t : Tables) :
    Grows (fnNames nodes) t (loadFunctionLabels nodes t) := by
  induction nodes generalizing t with
  | nil => exact Grows.refl t
  | cons each nodes ih =>
    cases each with
    | fnDef fn =>
      exact (grows_record (List.prefix_refl _) rfl rfl :
        Grows [fn.name.text] t (loadFunctionLabel fn t)).trans (ih _)
    | labelDef _ => exact ih t
    | metadata => exact ih t

/-- `load_function_labels` files every function's name with a symbol of type `STT_FUNC`. -/
theorem funcSymbol_loadFunctionLabels (nodes : List (Node Insn)) (t : Tables) :
    ∀ a ∈ fnNames nodes, ∃ k sym, (loadFunctionLabels nodes t).symbolMap a = some k ∧
      (loadFunctionLabels nodes t).symbolTable[k]? = some sym ∧
      ELF64_ST_TYPE sym.stInfo = STT_FUNC := by
  induction nodes generalizing t with
  | nil => intro a ha; cases ha
  | cons each nodes ih =>
    cases each with
    | fnDef fn =>
      intro a ha
      by_cases hlater : a ∈ fnNames nodes
      · exact ih _ a hlater
      · -- the function's own record, which the later functions leave
        obtain rfl : a = fn.name.text := by simpa [hlater] using ha
        have hg := grows_loadFunctionLabels nodes (loadFunctionLabel fn t)
        rw [loadFunctionLabels, hg.map _ hlater]
        exact ⟨t.symbolTable.length, _, by simp [loadFunctionLabel, recordSymbol],
          getElem?_extend hg.symbols (List.getElem?_concat_length _ _),
          show ELF64_ST_TYPE (ELF64_ST_INFO STB_GLOBAL STT_FUNC) = STT_FUNC by decide⟩
    | labelDef _ => exact ih t
    | metadata => exact ih t

/-- After the label stages every function's name maps to a symbol of type `STT_FUNC`, when
no label has a function's name. -/
theorem funcSymbol_loadLabels (unescape : Bytes → Bytes) (ston : Bytes → Nat)
    {sourcePath : Bytes} {nodes : List (Node Insn)} {t : Tables}
    (hload : loadLabels unescape ston sourcePath nodes = .ok t)
    (hdisjoint : ∀ a ∈ labelNames nodes, a ∉ fnNames nodes) :
    ∀ a ∈ fnNames nodes, ∃ k sym, t.symbolMap a = some k ∧ t.symbolTable[k]? = some sym ∧
      ELF64_ST_TYPE sym.stInfo = STT_FUNC := by
  intro a ha
  have hg := grows_loadValueLabels unescape ston hload
  obtain ⟨k, sym, hk, hsym, hfunction⟩ :=
    funcSymbol_loadFunctionLabels nodes (initialTables sourcePath) a ha
  exact ⟨k, sym, (hg.map a fun hl => hdisjoint a hl ha).trans hk,
    getElem?_extend hg.symbols hsym, hfunction⟩

end Functions

end ViuaVm.Asm.Names
