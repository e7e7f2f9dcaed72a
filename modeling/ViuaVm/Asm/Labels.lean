import ViuaVm.Asm.Stage

/-! # Loading labels: `stage::load_function_labels` and `stage::load_value_labels`

`load_function_labels` records a symbol for each function; `load_value_labels` one for each
string or atom label, whose value it appends to `.rodata`. A string label's value is
resolved from its tokens by the loop `resolveString`: string literals are unescaped and
appended, and `* N` repeats what was resolved so far `N` times.

Two things about `load_value_labels` show in the model as the code has them. The branch for
an `extern` label ends in `return`, not `continue`, so the stage stops at the first
`extern` label (`loadValueLabels_stops_at_extern`, `loadValueLabels_drops_after_extern`);
every string label before it is loaded with its resolved value in `.rodata`
(`loadValueLabels_records`). And in the resolution loop, a `*` that is the last token reads
`ct.value.at(++i)` past the end, and a `*` that is the first token followed by a
non-integer reads `ct.value.at(i - 2)` at an index that wrapped around: both throw
`std::out_of_range` instead of showing the diagnostic (`loadValueLabels_star_out_of_range`).
Away from those two ends the loop returns the string or shows the diagnostic
(`resolveString_of_atInRange`).

The invariant that `emit_bytecode` needs from these stages is `SymbolsValid`: each
function's name maps to an index of the symbol table, a different one for each function.
`load_function_labels` establishes it, and `load_value_labels` keeps it when no label is
named as a function (`symbolsValid_loadValueLabels`), since it only appends (`Grows`).
-/
namespace ViuaVm.Asm.Labels
open ViuaVm.Elf.LittleEndian ViuaVm.Elf.Structs ViuaVm.Asm.Stage

/-! ## Function labels -/

section Functions
variable {Insn : Type}

/-- The body of the loop of `load_function_labels`: a function symbol with value and size 0. -/
def loadFunctionLabel (fn : FnDef Insn) (tables : Tables) : Tables :=
  let (nameOff, stringTable) := saveStringToStrtab tables.stringTable fn.name.text
  let symbol : Sym :=
    { stName := nameOff, stInfo := ELF64_ST_INFO STB_GLOBAL STT_FUNC, stOther := STV_DEFAULT,
      stSize := 0, stValue := 0, stShndx := 0 }
  let (symbolTable, symbolMap) :=
    recordSymbol fn.name.text symbol tables.symbolTable tables.symbolMap
  { tables with stringTable, symbolTable, symbolMap }

/-- `stage::load_function_labels`. -/
def loadFunctionLabels : List (Node Insn) → Tables → Tables
  | [], tables => tables
  | .fnDef fn :: nodes, tables => loadFunctionLabels nodes (loadFunctionLabel fn tables)
  | .labelDef _ :: nodes, tables | .metadata :: nodes, tables => loadFunctionLabels nodes tables

end Functions

/-! ## Value labels -/

section Values
variable (unescape : Bytes → Bytes) (ston : Bytes → Nat)

/-- The diagnostic of a `*` whose right-hand side is not an integer: on the `*`, with the
right-hand side and the token before the `*` attached. -/
def nonIntegerRhs (each next before : Lexeme) : Error :=
  Error.aside (Error.add (Error.add
    { main := each, cause := .invalidOperand,
      message := ascii "cannot multiply string constant by non-integer" } next) before)
    (ascii "right-hand side must be an positive integer")

/-- The loop of `load_value_labels` that resolves a string label's value, from token `i` on,
with `s` resolved so far. `unescape` and `ston` are `viua::support::string::unescape` and
`ston<size_t>`. -/
def resolveString (value : List Lexeme) (i : Nat) (s : Bytes) : Except Stop Bytes :=
  if h : i < value.length then
    let each := value[i]
    match each.token with
    | .literalString => do
      let tmp ← substr each.text 1 (sizeSub each.text.length 2)
      resolveString value (i + 1) (s ++ unescape tmp)
    | .raPtrDeref => do
      let next ← vectorAt value (i + 1)
      if next.token ≠ .literalInteger then do
        let before ← vectorAt value (sizeSub (i + 1) 2)
        .error (.exit (nonIntegerRhs each next before))
      else
        resolveString value (i + 2) (List.replicate (ston next.text) s).flatten
    | _ => resolveString value (i + 1) s
  else .ok s
termination_by value.length - i

theorem resolveString_of_le {value : List Lexeme} {i : Nat} (s : Bytes) (h : value.length ≤ i) :
    resolveString unescape ston value i s = .ok s := by
  rw [resolveString, dif_neg (by omega)]

theorem resolveString_literal {value : List Lexeme} {i : Nat} {each : Lexeme} (s : Bytes)
    (h : value[i]? = some each) (ht : each.token = .literalString) :
    resolveString unescape ston value i s =
      substr each.text 1 (sizeSub each.text.length 2) >>= fun tmp =>
        resolveString unescape ston value (i + 1) (s ++ unescape tmp) := by
  obtain ⟨hi, rfl⟩ := List.getElem?_eq_some_iff.mp h
  rw [resolveString, dif_pos hi]
  simp only [ht]

theorem resolveString_star {value : List Lexeme} {i : Nat} {each : Lexeme} (s : Bytes)
    (h : value[i]? = some each) (ht : each.token = .raPtrDeref) :
    resolveString unescape ston value i s =
      vectorAt value (i + 1) >>= fun next =>
        if next.token ≠ .literalInteger then
          vectorAt value (sizeSub (i + 1) 2) >>= fun before =>
            .error (.exit (nonIntegerRhs each next before))
        else resolveString unescape ston value (i + 2) (List.replicate (ston next.text) s).flatten := by
  obtain ⟨hi, rfl⟩ := List.getElem?_eq_some_iff.mp h
  rw [resolveString, dif_pos hi]
  simp only [ht]

theorem resolveString_other {value : List Lexeme} {i : Nat} {each : Lexeme} (s : Bytes)
    (h : value[i]? = some each) (h₁ : each.token ≠ .literalString)
    (h₂ : each.token ≠ .raPtrDeref) :
    resolveString unescape ston value i s = resolveString unescape ston value (i + 1) s := by
  obtain ⟨hi, rfl⟩ := List.getElem?_eq_some_iff.mp h
  rw [resolveString, dif_pos hi]
  dsimp only
  split <;> simp_all

/-- The token lists on which the loop reads no index out of range: each `*` has a token after
it, and a token before it unless its right-hand side is an integer; each string literal has
at least its opening quote; and the list fits a `size_t`. -/
structure AtInRange (value : List Lexeme) : Prop where
  length_lt : value.length < 2 ^ 64
  star : ∀ j each, value[j]? = some each → each.token = .raPtrDeref →
    ∃ next, value[j + 1]? = some next ∧ (0 < j ∨ next.token = .literalInteger)
  literal : ∀ each ∈ value, each.token = .literalString → each.text ≠ []

/-- **Away from the two ends, the loop produces the string or shows the diagnostic.** On a
token list where every `*` has a token after it, and one before it unless its right-hand
side is an integer, the loop never throws `std::out_of_range`: it returns the resolved
string, or stops through `display_error_and_exit` with the `Invalid_operand` diagnostic on a
`*` whose right-hand side is not an integer. -/
theorem resolveString_of_atInRange {value : List Lexeme} (hv : AtInRange value) (i : Nat)
    (s : Bytes) :
    (∃ r, resolveString unescape ston value i s = .ok r) ∨
      ∃ each next before,
        resolveString unescape ston value i s = .error (.exit (nonIntegerRhs each next before)) := by
  induction i, s using resolveString.induct unescape ston value with
  | case1 i s h _ htok ih =>
    have hne : 1 ≤ value[i].text.length :=
      List.length_pos.mpr (hv.literal _ (List.getElem_mem h) htok)
    rw [resolveString_literal unescape ston s (List.getElem?_eq_getElem h) htok, substr,
      if_pos hne]
    exact ih _
  | case2 i s h _ htok ih =>
    obtain ⟨next, hnext, hpos⟩ := hv.star i _ (List.getElem?_eq_getElem h) htok
    have hlt : i + 1 < value.length := (List.getElem?_eq_some_iff.mp hnext).1
    rw [resolveString_star unescape ston s (List.getElem?_eq_getElem h) htok,
      vectorAt_eq_ok.mpr hnext]
    by_cases hint : next.token = .literalInteger
    · simpa [bind, Except.bind, hint] using ih next
    · have hi : 0 < i := hpos.resolve_right hint
      have hbefore : vectorAt value (i + 1 - 2) = .ok value[i - 1] := by
        rw [show i + 1 - 2 = i - 1 by omega, vectorAt_eq_ok]; exact List.getElem?_eq_getElem _
      rw [sizeSub_of_le (by have := hv.length_lt; omega) (by omega), hbefore]
      exact .inr ⟨value[i], next, value[i - 1], by simp [bind, Except.bind, hint]⟩
  | case3 i s h _ h₁ h₂ ih =>
    rwa [resolveString_other unescape ston s (List.getElem?_eq_getElem h) h₁ h₂]
  | case4 i s h =>
    exact .inl ⟨s, resolveString_of_le unescape ston s (by omega)⟩

/-- `"ab" * 3` has its `*` between two tokens. -/
theorem resolveString_of_atInRange_sample :
    AtInRange [⟨.literalString, ascii "\"ab\""⟩, ⟨.raPtrDeref, ascii "*"⟩,
        ⟨.literalInteger, ascii "3"⟩] ∧
      ((∃ r, resolveString id (fun _ => 3) [⟨.literalString, ascii "\"ab\""⟩,
          ⟨.raPtrDeref, ascii "*"⟩, ⟨.literalInteger, ascii "3"⟩] 0 [] = .ok r) ∨
        ∃ each next before, resolveString id (fun _ => 3) [⟨.literalString, ascii "\"ab\""⟩,
          ⟨.raPtrDeref, ascii "*"⟩, ⟨.literalInteger, ascii "3"⟩] 0 [] =
            .error (.exit (nonIntegerRhs each next before))) :=
  have hv : AtInRange [⟨.literalString, ascii "\"ab\""⟩, ⟨.raPtrDeref, ascii "*"⟩,
      ⟨.literalInteger, ascii "3"⟩] :=
    ⟨by decide, by rintro (_ | _ | _ | j) each h ht <;> simp at h <;> subst h <;> simp_all,
      by decide⟩
  ⟨hv, resolveString_of_atInRange id (fun _ => 3) hv 0 []⟩

/-- A string or atom label whose value is `s`: `s` is appended to `.rodata`, the name to the
string table, and a symbol records both. -/
def saveValueLabel (ct : LabelDef) (s : Bytes) (tables : Tables) : Tables :=
  let (valueOff, rodataBuf) := saveBufferToRodata tables.rodataBuf s
  let (nameOff, stringTable) := saveStringToStrtab tables.stringTable ct.name.text
  let symbol : Sym :=
    { stName := nameOff, stInfo := ELF64_ST_INFO STB_GLOBAL STT_OBJECT, stOther := STV_DEFAULT,
      stValue := valueOff, stSize := s.length, stShndx := 0 }
  let (symbolTable, symbolMap) :=
    recordSymbol ct.name.text symbol tables.symbolTable tables.symbolMap
  { rodataBuf, stringTable, symbolTable, symbolMap }

/-- The branch of `load_value_labels` for an `extern` label: a symbol with value and size 0. -/
def loadExternLabel (ct : LabelDef) (tables : Tables) : Tables :=
  let (nameOff, stringTable) := saveStringToStrtab tables.stringTable ct.name.text
  let symbol : Sym :=
    { stName := nameOff, stInfo := ELF64_ST_INFO STB_GLOBAL STT_OBJECT, stOther := STV_DEFAULT }
  let (symbolTable, symbolMap) :=
    recordSymbol ct.name.text symbol tables.symbolTable tables.symbolMap
  { tables with stringTable, symbolTable, symbolMap }

/-- The body of the loop of `load_value_labels` for a label without `extern`: a string label
is resolved, an atom label's value is the text of its first token (`front()` of an empty
vector is undefined), and a label of another type is skipped. -/
def loadValueLabel (ct : LabelDef) (tables : Tables) : Except Stop Tables :=
  if ct.type = ascii "string" then do
    let s ← resolveString unescape ston ct.value 0 []
    pure (saveValueLabel ct s tables)
  else if ct.type = ascii "atom" then
    match ct.value with
    | each :: _ => .ok (saveValueLabel ct each.text tables)
    | [] => .error .undefined
  else .ok tables

/-- `stage::load_value_labels`. The `extern` branch returns from the whole stage. -/
def loadValueLabels {Insn : Type} : List (Node Insn) → Tables → Except Stop Tables
  | [], tables => .ok tables
  | .labelDef ct :: nodes, tables =>
    if ct.hasAttr externAttr then .ok (loadExternLabel ct tables)
    else loadValueLabel unescape ston ct tables >>= loadValueLabels nodes
  | .fnDef _ :: nodes, tables | .metadata :: nodes, tables => loadValueLabels nodes tables

/-- **`load_value_labels` stops at the first `extern` label.** Whatever follows it is never
looked at: the stage loads the labels before it, records the `extern` one, and returns. -/
theorem loadValueLabels_stops_at_extern {Insn : Type} {pre : List (Node Insn)}
    (hpre : ∀ ct ∈ labelDefs pre, ct.hasAttr externAttr = false) {ct : LabelDef}
    (hct : ct.hasAttr externAttr = true) (post : List (Node Insn)) (t : Tables) :
    loadValueLabels unescape ston (pre ++ .labelDef ct :: post) t =
      (loadValueLabels unescape ston pre t).map (loadExternLabel ct) := by
  induction pre generalizing t with
  | nil => simp [loadValueLabels, hct, Except.map]
  | cons each pre ih =>
    cases each with
    | labelDef ct' =>
      simp only [labelDefs, List.mem_cons, forall_eq_or_imp] at hpre
      simp only [List.cons_append, loadValueLabels, hpre.1, Bool.false_eq_true, if_false]
      cases loadValueLabel unescape ston ct' t with
      | error e => rfl
      | ok t₁ => exact ih hpre.2 t₁
    | fnDef fn => exact ih hpre t
    | metadata => exact ih hpre t

/-- An atom label, then an `extern` one, then a string label the stage never reaches. -/
theorem loadValueLabels_stops_at_extern_sample :
    (∀ ct ∈ labelDefs ([.labelDef ⟨⟨.other, ascii "b"⟩, ascii "atom", [⟨.other, ascii "x"⟩], []⟩] :
        List (Node Unit)), ct.hasAttr externAttr = false) ∧
      LabelDef.hasAttr ⟨⟨.other, ascii "a"⟩, ascii "string", [], [externAttr]⟩ externAttr = true ∧
      loadValueLabels id (fun _ => 0)
          (([.labelDef ⟨⟨.other, ascii "b"⟩, ascii "atom", [⟨.other, ascii "x"⟩], []⟩] :
              List (Node Unit)) ++
            .labelDef ⟨⟨.other, ascii "a"⟩, ascii "string", [], [externAttr]⟩ ::
              [.labelDef ⟨⟨.other, ascii "c"⟩, ascii "string", [⟨.raPtrDeref, ascii "*"⟩], []⟩])
          (initialTables []) =
        (loadValueLabels id (fun _ => 0)
          ([.labelDef ⟨⟨.other, ascii "b"⟩, ascii "atom", [⟨.other, ascii "x"⟩], []⟩] :
            List (Node Unit)) (initialTables [])).map
          (loadExternLabel ⟨⟨.other, ascii "a"⟩, ascii "string", [], [externAttr]⟩) :=
  ⟨by decide, rfl, loadValueLabels_stops_at_extern id (fun _ => 0) (by decide) (by rfl) _ _⟩

/-! ## Two inputs the loop mishandles -/

section Failing
variable {Insn : Type}

/-- **A label after an `extern` label is not loaded.** With an `extern` label `a` before an
atom label `b`, `b` gets no entry in `symbol_map`; in the other order it gets one. -/
theorem loadValueLabels_drops_after_extern (sourcePath : Bytes) :
    (∃ t, loadValueLabels unescape ston
        ([.labelDef ⟨⟨.other, ascii "a"⟩, ascii "string", [], [externAttr]⟩,
          .labelDef ⟨⟨.other, ascii "b"⟩, ascii "atom", [⟨.other, ascii "x"⟩], []⟩] :
          List (Node Insn)) (initialTables sourcePath) = .ok t ∧
      t.symbolMap (ascii "a") = some 2 ∧ t.symbolMap (ascii "b") = none) ∧
    (∃ t, loadValueLabels unescape ston
        ([.labelDef ⟨⟨.other, ascii "b"⟩, ascii "atom", [⟨.other, ascii "x"⟩], []⟩,
          .labelDef ⟨⟨.other, ascii "a"⟩, ascii "string", [], [externAttr]⟩] :
          List (Node Insn)) (initialTables sourcePath) = .ok t ∧
      t.symbolMap (ascii "a") = some 3 ∧ t.symbolMap (ascii "b") = some 2) :=
  ⟨⟨_, rfl, rfl, rfl⟩, ⟨_, rfl, rfl, rfl⟩⟩

/-- **A `*` at either end of a string label's value reads out of range.** A lone `*` reads
`ct.value.at(1)`, and a `*` first followed by a string reads `ct.value.at(i - 2)` with
`i - 2` wrapped to `2 ^ 64 - 1`: both throw `std::out_of_range`, for any tables. -/
theorem loadValueLabels_star_out_of_range (t : Tables) :
    loadValueLabels unescape ston
        ([.labelDef ⟨⟨.other, ascii "s"⟩, ascii "string", [⟨.raPtrDeref, ascii "*"⟩], []⟩] :
          List (Node Insn)) t = .error .outOfRange ∧
    loadValueLabels unescape ston
        ([.labelDef ⟨⟨.other, ascii "s"⟩, ascii "string",
          [⟨.raPtrDeref, ascii "*"⟩, ⟨.literalString, ascii "\"a\""⟩], []⟩] :
          List (Node Insn)) t = .error .outOfRange := by
  constructor <;> simp only [loadValueLabels, loadValueLabel] <;> rw [resolveString] <;> rfl

end Failing

end Values

/-! ## What the stages leave for `emit_bytecode` -/

/-- Every name of `names` maps to an index below `size`, a different index for each name. -/
structure SymbolsValid (names : List Bytes) (symbolMap : SymbolMap) (size : Nat) : Prop where
  inRange : ∀ a ∈ names, ∃ k, symbolMap a = some k ∧ k < size
  injective : ∀ a ∈ names, ∀ b ∈ names, symbolMap a = symbolMap b → a = b

namespace SymbolsValid
variable {names : List Bytes} {symbolMap : SymbolMap} {size : Nat}

theorem nil (symbolMap : SymbolMap) (size : Nat) : SymbolsValid [] symbolMap size :=
  ⟨by simp, by simp⟩

theorem transfer {symbolMap' : SymbolMap} {size' : Nat} (hv : SymbolsValid names symbolMap size)
    (hm : ∀ a ∈ names, symbolMap' a = symbolMap a) (hs : size ≤ size') :
    SymbolsValid names symbolMap' size' := by
  refine ⟨fun a ha => ?_, fun a ha b hb hab => hv.injective a ha b hb ?_⟩
  · obtain ⟨k, hk, hlt⟩ := hv.inRange a ha
    exact ⟨k, by rw [hm a ha, hk], by omega⟩
  · rwa [hm a ha, hm b hb] at hab

theorem subset {names' : List Bytes} (hv : SymbolsValid names symbolMap size)
    (h : names' ⊆ names) : SymbolsValid names' symbolMap size :=
  ⟨fun a ha => hv.inRange a (h ha), fun a ha b hb => hv.injective a (h ha) b (h hb)⟩

/-- `record_symbol` of a fresh name keeps every name valid and adds the new one. -/
theorem record {name : Bytes} (hv : SymbolsValid names symbolMap size) (hfresh : name ∉ names) :
    SymbolsValid (name :: names) (Function.update symbolMap name (some size)) (size + 1) := by
  have hold : ∀ a ∈ names, Function.update symbolMap name (some size) a = symbolMap a :=
    fun a ha => Function.update_noteq (by rintro rfl; exact hfresh ha) _ _
  have hne : ∀ a ∈ names, symbolMap a ≠ some size := fun a ha h => by
    obtain ⟨k, hk, hlt⟩ := hv.inRange a ha
    rw [hk, Option.some_inj] at h
    omega
  refine ⟨fun a ha => ?_, fun a ha b hb hab => ?_⟩
  · rcases List.mem_cons.mp ha with rfl | ha
    · exact ⟨size, by simp, by omega⟩
    · obtain ⟨k, hk, hlt⟩ := hv.inRange a ha
      exact ⟨k, by rw [hold a ha, hk], by omega⟩
  · simp only [List.mem_cons] at ha hb
    rcases ha with rfl | ha <;> rcases hb with rfl | hb
    · rfl
    · rw [hold b hb, Function.update_same] at hab; exact absurd hab.symm (hne b hb)
    · rw [hold a ha, Function.update_same] at hab; exact absurd hab (hne a ha)
    · rw [hold a ha, hold b hb] at hab; exact hv.injective a ha b hb hab

end SymbolsValid

section Functions
variable {Insn : Type}

/-- **`load_function_labels` gives each function a symbol of its own**, when no two functions
share a name: from any tables in which the names of `done` are valid and not a function's. -/
theorem symbolsValid_loadFunctionLabels (nodes : List (Node Insn)) (tables : Tables)
    {done : List Bytes} (hv : SymbolsValid done tables.symbolMap tables.symbolTable.length)
    (hfresh : ∀ a ∈ fnNames nodes, a ∉ done) (hnodup : (fnNames nodes).Nodup) :
    SymbolsValid (fnNames nodes ++ done) (loadFunctionLabels nodes tables).symbolMap
      (loadFunctionLabels nodes tables).symbolTable.length := by
  induction nodes generalizing tables done with
  | nil => simpa [loadFunctionLabels] using hv
  | cons each nodes ih =>
    cases each with
    | fnDef fn =>
      simp only [fnNames_fnDef, List.nodup_cons, List.mem_cons, forall_eq_or_imp] at hnodup hfresh
      have hrec := hv.record hfresh.1
      have := @ih (loadFunctionLabel fn tables) (fn.name.text :: done)
        (by simpa [loadFunctionLabel, recordSymbol] using hrec)
        (fun a ha => by
          simp only [List.mem_cons, not_or]
          exact ⟨fun h => hnodup.1 (h ▸ ha), hfresh.2 a ha⟩) hnodup.2
      exact this.subset (by intro a; simp; tauto)
    | labelDef ct => exact ih tables hv hfresh hnodup
    | metadata => exact ih tables hv hfresh hnodup

end Functions

/-- `t'` comes from `t` by appending: `.rodata` and the symbol table only grew, and the map
changed only at names of `names`. -/
structure Grows (names : List Bytes) (t t' : Tables) : Prop where
  rodata : t.rodataBuf <+: t'.rodataBuf
  symbols : t.symbolTable <+: t'.symbolTable
  map : ∀ a ∉ names, t'.symbolMap a = t.symbolMap a

namespace Grows

theorem refl (t : Tables) : Grows [] t t :=
  ⟨List.prefix_refl _, List.prefix_refl _, fun _ _ => rfl⟩

theorem trans {n₁ n₂ : List Bytes} {t t' t'' : Tables} (h₁ : Grows n₁ t t')
    (h₂ : Grows n₂ t' t'') : Grows (n₁ ++ n₂) t t'' :=
  ⟨h₁.rodata.trans h₂.rodata, h₁.symbols.trans h₂.symbols, fun a ha => by
    simp only [List.mem_append, not_or] at ha
    rw [h₂.map a ha.2, h₁.map a ha.1]⟩

theorem weaken {n n' : List Bytes} {t t' : Tables} (h : Grows n t t') (hs : n ⊆ n') :
    Grows n' t t' :=
  ⟨h.rodata, h.symbols, fun a ha => h.map a (fun h => ha (hs h))⟩

end Grows

/-- `record_symbol` appends one symbol and maps its name to it. -/
theorem grows_record {t t' : Tables} {name : Bytes} {symbol : Sym}
    (hr : t.rodataBuf <+: t'.rodataBuf)
    (hs : t'.symbolTable = t.symbolTable ++ [symbol])
    (hm : t'.symbolMap = Function.update t.symbolMap name (some t.symbolTable.length)) :
    Grows [name] t t' :=
  ⟨hr, hs ▸ List.prefix_append _ _, fun a ha => by
    rw [hm, Function.update_noteq (by simpa using ha)]⟩

section Values
variable (unescape : Bytes → Bytes) (ston : Bytes → Nat)

theorem grows_saveValueLabel (ct : LabelDef) (s : Bytes) (t : Tables) :
    Grows [ct.name.text] t (saveValueLabel ct s t) :=
  grows_record (List.prefix_append _ _) rfl rfl

theorem grows_loadExternLabel (ct : LabelDef) (t : Tables) :
    Grows [ct.name.text] t (loadExternLabel ct t) :=
  grows_record (List.prefix_refl _) rfl rfl

theorem grows_loadValueLabel {ct : LabelDef} {t t' : Tables}
    (h : loadValueLabel unescape ston ct t = .ok t') : Grows [ct.name.text] t t' := by
  unfold loadValueLabel at h
  split_ifs at h
  · obtain ⟨s, -, hs⟩ := bind_eq_ok.mp h
    cases hs; exact grows_saveValueLabel ct s _
  · split at h
    · cases h; exact grows_saveValueLabel ct _ _
    · cases h
  · cases h; exact (Grows.refl _).weaken (List.nil_subset _)

/-- `load_value_labels` only appends, and changes the map only at label names. -/
theorem grows_loadValueLabels {Insn : Type} {nodes : List (Node Insn)} {t t' : Tables}
    (h : loadValueLabels unescape ston nodes t = .ok t') : Grows (labelNames nodes) t t' := by
  induction nodes generalizing t with
  | nil => cases h; exact Grows.refl _
  | cons each nodes ih =>
    cases each with
    | labelDef ct =>
      simp only [loadValueLabels] at h
      split_ifs at h
      · cases h; exact (grows_loadExternLabel ct _).weaken (by simp)
      · obtain ⟨t₁, h₁, h₂⟩ := bind_eq_ok.mp h
        exact (grows_loadValueLabel unescape ston h₁).trans (ih h₂)
    | fnDef fn => exact ih h
    | metadata => exact ih h

/-- **`load_value_labels` keeps the functions' symbols valid** when no label has a
function's name. -/
theorem symbolsValid_loadValueLabels {Insn : Type} {nodes : List (Node Insn)} {t t' : Tables}
    {names : List Bytes} (h : loadValueLabels unescape ston nodes t = .ok t')
    (hv : SymbolsValid names t.symbolMap t.symbolTable.length)
    (hdisjoint : ∀ a ∈ labelNames nodes, a ∉ names) :
    SymbolsValid names t'.symbolMap t'.symbolTable.length :=
  have hg := grows_loadValueLabels unescape ston h
  hv.transfer (fun a ha => hg.map a (fun hl => hdisjoint a hl ha)) hg.symbols.length_le

theorem loadValueLabel_string {ct : LabelDef} {t t' : Tables}
    (h : loadValueLabel unescape ston ct t = .ok t') (hstring : ct.type = ascii "string") :
    ∃ s, resolveString unescape ston ct.value 0 [] = .ok s ∧ t' = saveValueLabel ct s t := by
  rw [loadValueLabel, if_pos hstring] at h
  obtain ⟨s, hs, h'⟩ := bind_eq_ok.mp h
  exact ⟨s, hs, (Except.ok.inj h').symm⟩

/-- What `saveValueLabel` records: the name maps to the new symbol, whose `.rodata` range
holds the value. -/
theorem saveValueLabel_records (ct : LabelDef) (s : Bytes) (t : Tables) :
    ∃ sym, (saveValueLabel ct s t).symbolMap ct.name.text = some t.symbolTable.length ∧
      (saveValueLabel ct s t).symbolTable[t.symbolTable.length]? = some sym ∧
      sym.stSize = s.length ∧ sym.stValue + sym.stSize ≤ (saveValueLabel ct s t).rodataBuf.length ∧
      slice (saveValueLabel ct s t).rodataBuf sym.stValue sym.stSize = s :=
  ⟨{ stName := t.stringTable.length, stInfo := ELF64_ST_INFO STB_GLOBAL STT_OBJECT,
      stOther := STV_DEFAULT, stValue := t.rodataBuf.length, stSize := s.length, stShndx := 0 },
    by simp [saveValueLabel, recordSymbol], by simp [saveValueLabel, recordSymbol,
      saveStringToStrtab, saveBufferToRodata], rfl, by simp [saveValueLabel, saveBufferToRodata],
    by simp [saveValueLabel, saveBufferToRodata, Elf.LittleEndian.slice]⟩

/-- **Every string label before the first `extern` one is loaded with its value.** When no
two labels share a name, after `load_value_labels` each string label that comes before the
first `extern` label maps to a symbol whose `.rodata` range holds the label's resolved
value. -/
theorem loadValueLabels_records {Insn : Type} {nodes : List (Node Insn)} {t t' : Tables}
    (h : loadValueLabels unescape ston nodes t = .ok t') (hnodup : (labelNames nodes).Nodup)
    {ct : LabelDef} (hct : ct ∈ (labelDefs nodes).takeWhile fun ct => !ct.hasAttr externAttr)
    (hstring : ct.type = ascii "string") :
    ∃ s k sym, resolveString unescape ston ct.value 0 [] = .ok s ∧
      t'.symbolMap ct.name.text = some k ∧ t'.symbolTable[k]? = some sym ∧
      sym.stSize = s.length ∧ slice t'.rodataBuf sym.stValue sym.stSize = s := by
  induction nodes generalizing t with
  | nil => simp [labelDefs] at hct
  | cons each nodes ih =>
    cases each with
    | labelDef ct' =>
      simp only [labelDefs, List.takeWhile_cons] at hct
      simp only [labelNames_labelDef, List.nodup_cons] at hnodup
      by_cases hx : ct'.hasAttr externAttr
      · simp [hx] at hct
      · simp only [loadValueLabels, hx, Bool.false_eq_true, if_false] at h
        simp only [hx, Bool.not_false, if_true, List.mem_cons] at hct
        obtain ⟨t₁, h₁, h₂⟩ := bind_eq_ok.mp h
        rcases hct with rfl | hct
        · obtain ⟨s, hs, rfl⟩ := loadValueLabel_string unescape ston h₁ hstring
          have hg := grows_loadValueLabels unescape ston h₂
          obtain ⟨sym, hmap, hsym, hsize, hin, hslice⟩ := saveValueLabel_records ct s t
          obtain ⟨u, hu⟩ := hg.symbols
          refine ⟨s, _, sym, hs, (hg.map _ hnodup.1).trans hmap, ?_, hsize, ?_⟩
          · rw [← hu, List.getElem?_append_left (List.getElem?_eq_some_iff.mp hsym).1, hsym]
          · rw [slice_extend hg.rodata hin, hslice]
        · exact ih h₂ hnodup.2 hct
    | fnDef fn => exact ih h hnodup hct
    | metadata => exact ih h hnodup hct

/-- The label `msg = "ab" * 3` of the spec's scenario S3. -/
def repeatedLabel : LabelDef :=
  ⟨⟨.other, ascii "msg"⟩, ascii "string",
    [⟨.literalString, ascii "\"ab\""⟩, ⟨.raPtrDeref, ascii "*"⟩, ⟨.literalInteger, ascii "3"⟩], []⟩

unseal resolveString in
theorem loadValueLabels_records_sample :
    ∃ t', loadValueLabels id (fun _ => 3) ([.labelDef repeatedLabel] : List (Node Unit))
        (initialTables []) = .ok t' ∧
      (labelNames ([.labelDef repeatedLabel] : List (Node Unit))).Nodup ∧
      repeatedLabel ∈ (labelDefs ([.labelDef repeatedLabel] : List (Node Unit))).takeWhile
        (fun ct => !ct.hasAttr externAttr) ∧
      repeatedLabel.type = ascii "string" ∧
      ∃ s k sym, resolveString id (fun _ => 3) repeatedLabel.value 0 [] = .ok s ∧
        t'.symbolMap repeatedLabel.name.text = some k ∧ t'.symbolTable[k]? = some sym ∧
        sym.stSize = s.length ∧ slice t'.rodataBuf sym.stValue sym.stSize = s :=
  ⟨_, rfl, by decide, by decide, rfl,
    @loadValueLabels_records id (fun _ => 3) Unit [.labelDef repeatedLabel] (initialTables []) _
      rfl (by decide) repeatedLabel (by decide) rfl⟩

end Values

end ViuaVm.Asm.Labels
