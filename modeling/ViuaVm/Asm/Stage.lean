import ViuaVm.Elf.Structs

/-! # The assembler's syntax tree and the tables its stages fill

The stages of `main` in `tools/exec/asm.cpp` walk the list of top-level nodes the parser
returns and fill four buffers: `.rodata`, the symbol string table, the symbol table and
`symbol_map`, the map from a symbol's name to its index in the table (`Tables`).

The parser's node types (`viua/libs/parser.h`), the lexer's tokens (`viua/libs/lexer.h`),
the compile-time error (`viua/libs/errors/compile_time.h`) and the helpers of
`viua/libs/stage.h` are not among the sources: they are modelled from the spec (§4.4 to
§4.6) and from how `asm.cpp` uses them, each with only the fields the stages read.

How a stage stops without returning is `Stop`: through `display_error_and_exit`, through a
`std::out_of_range` that `at` or `substr` throws, or through an operation whose behaviour C++
leaves undefined.
-/
namespace ViuaVm.Asm.Stage
open ViuaVm.Elf.LittleEndian ViuaVm.Elf.Structs

/-! ## Tokens and nodes -/

/-- Modelled from the spec: the kinds of token (§4.4) that the stages compare against; every
other kind is `other`. -/
inductive Token
  | literalString
  | literalInteger
  | raPtrDeref
  | other
  deriving DecidableEq, Repr

/-- Modelled from the spec: a lexeme, its kind and its text (its location is left out). -/
structure Lexeme where
  token : Token
  text : Bytes
  deriving DecidableEq, Repr

/-- Modelled from the spec: a function definition (§4.5): name, attributes and instruction
sequence. The instruction type is a parameter: only `emit_instruction` looks inside. -/
structure FnDef (Insn : Type) where
  name : Lexeme
  attributes : List Bytes
  instructions : List Insn

/-- Modelled from the spec: a label definition (§4.5): name, type, value tokens and
attributes. -/
structure LabelDef where
  name : Lexeme
  type : Bytes
  value : List Lexeme
  attributes : List Bytes
  deriving DecidableEq, Repr

/-- Modelled from the spec: the top-level nodes of the syntax tree (§4.5). -/
inductive Node (Insn : Type)
  | fnDef (fn : FnDef Insn)
  | labelDef (ct : LabelDef)
  | metadata

/-- The attribute that marks a symbol as defined in another module. -/
def externAttr : Bytes := ascii "extern"

/-- Modelled from the spec: `has_attr`. -/
def FnDef.hasAttr {Insn : Type} (fn : FnDef Insn) (key : Bytes) : Bool := fn.attributes.contains key

/-- Modelled from the spec: `has_attr`. -/
def LabelDef.hasAttr (ct : LabelDef) (key : Bytes) : Bool := ct.attributes.contains key

/-- Modelled from the spec: `has_attr` on a node of any kind; opaque metadata has no
attributes in the model. -/
def Node.hasAttr {Insn : Type} : Node Insn → Bytes → Bool
  | .fnDef fn, key => fn.hasAttr key
  | .labelDef ct, key => ct.hasAttr key
  | .metadata, _ => false

section Nodes
variable {Insn : Type}

/-- The nodes that `dynamic_cast<ast::Fn_def*>` lets through, in source order. -/
def fnDefs : List (Node Insn) → List (FnDef Insn)
  | [] => []
  | .fnDef fn :: nodes => fn :: fnDefs nodes
  | .labelDef _ :: nodes | .metadata :: nodes => fnDefs nodes

/-- The nodes that `dynamic_cast<ast::Label_def*>` lets through, in source order. -/
def labelDefs : List (Node Insn) → List LabelDef
  | [] => []
  | .labelDef ct :: nodes => ct :: labelDefs nodes
  | .fnDef _ :: nodes | .metadata :: nodes => labelDefs nodes

/-- The names of the functions. -/
def fnNames (nodes : List (Node Insn)) : List Bytes := (fnDefs nodes).map (·.name.text)

/-- The names of the labels. -/
def labelNames (nodes : List (Node Insn)) : List Bytes := (labelDefs nodes).map (·.name.text)

@[simp] theorem fnNames_fnDef (fn : FnDef Insn) (nodes : List (Node Insn)) :
    fnNames (.fnDef fn :: nodes) = fn.name.text :: fnNames nodes := rfl
@[simp] theorem fnNames_labelDef (ct : LabelDef) (nodes : List (Node Insn)) :
    fnNames (.labelDef ct :: nodes) = fnNames nodes := rfl
@[simp] theorem fnNames_metadata (nodes : List (Node Insn)) :
    fnNames (.metadata :: nodes) = fnNames nodes := rfl
@[simp] theorem labelNames_labelDef (ct : LabelDef) (nodes : List (Node Insn)) :
    labelNames (.labelDef ct :: nodes) = ct.name.text :: labelNames nodes := rfl
@[simp] theorem labelNames_fnDef (fn : FnDef Insn) (nodes : List (Node Insn)) :
    labelNames (.fnDef fn :: nodes) = labelNames nodes := rfl
@[simp] theorem labelNames_metadata (nodes : List (Node Insn)) :
    labelNames (.metadata :: nodes) = labelNames nodes := rfl

end Nodes

/-! ## Diagnostics and how a stage stops -/

/-- Modelled from the spec: the causes of the compile-time errors that these stages raise. -/
inductive Cause
  | invalidOperand
  | duplicatedEntryPoint
  deriving DecidableEq, Repr

/-- Modelled from the spec: a compile-time error, with the lexeme it is about, its cause and
message, the lexemes `add` attaches, and the texts `aside` and `note` set. Texts are the
bytes of their `std::string`s. -/
structure Error where
  main : Lexeme
  cause : Cause
  message : Bytes
  spans : List Lexeme := []
  asideText : Option Bytes := none
  noteText : Option Bytes := none
  deriving DecidableEq, Repr

/-- `Error::add`. -/
def Error.add (e : Error) (l : Lexeme) : Error := { e with spans := e.spans ++ [l] }

/-- `Error::aside`. -/
def Error.aside (e : Error) (s : Bytes) : Error := { e with asideText := some s }

/-- `Error::note`. -/
def Error.note (e : Error) (s : Bytes) : Error := { e with noteText := some s }

/-- How a stage stops instead of returning. -/
inductive Stop
  /-- `display_error_and_exit`: the diagnostic is shown and the assembler exits. -/
  | exit (e : Error)
  /-- A `std::out_of_range` exception, from `at` or `substr`. -/
  | outOfRange
  /-- An operation whose behaviour C++ leaves undefined. -/
  | undefined
  deriving DecidableEq, Repr

/-- `std::vector::at`: out of range is an exception. -/
def vectorAt {α : Type} (v : List α) (i : Nat) : Except Stop α :=
  match v[i]? with
  | some a => .ok a
  | none => .error .outOfRange

/-- `a - b` on `size_t`. -/
def sizeSub (a b : Nat) : Nat := (a + 2 ^ 64 - b) % 2 ^ 64

/-- `std::string::substr(pos, count)`: a `pos` past the end is an exception. -/
def substr (s : Bytes) (pos count : Nat) : Except Stop Bytes :=
  if pos ≤ s.length then .ok ((s.drop pos).take count) else .error .outOfRange

theorem bind_eq_ok {ε α β : Type} {x : Except ε α} {f : α → Except ε β} {b : β} :
    x >>= f = .ok b ↔ ∃ a, x = .ok a ∧ f a = .ok b := by
  cases x <;> simp [bind, Except.bind]

theorem vectorAt_eq_ok {α : Type} {v : List α} {i : Nat} {a : α} :
    vectorAt v i = .ok a ↔ v[i]? = some a := by
  unfold vectorAt; cases v[i]? <;> simp

theorem vectorAt_eq_outOfRange {α : Type} {v : List α} {i : Nat} :
    vectorAt v i = .error .outOfRange ↔ v.length ≤ i := by
  rw [← List.getElem?_eq_none_iff]; unfold vectorAt; cases v[i]? <;> simp

theorem sizeSub_of_le {a b : Nat} (ha : a < 2 ^ 64) (h : b ≤ a) : sizeSub a b = a - b := by
  unfold sizeSub; omega

/-! ## The tables -/

/-- A symbol's name to its index in the symbol table: `std::map<std::string, size_t>`. -/
abbrev SymbolMap := Bytes → Option Nat

/-- What the stages of `main` fill: `rodata_contents`, `string_table`, `symbol_table` and
`symbol_map`. -/
structure Tables where
  rodataBuf : Bytes
  stringTable : Bytes
  symbolTable : List Sym
  symbolMap : SymbolMap

/-- `std::map::at`: a missing key is an exception. -/
def mapAt (symbolMap : SymbolMap) (key : Bytes) : Except Stop Nat :=
  match symbolMap key with
  | some k => .ok k
  | none => .error .outOfRange

theorem mapAt_of_eq {symbolMap : SymbolMap} {key : Bytes} {k : Nat} (h : symbolMap key = some k) :
    mapAt symbolMap key = .ok k := by
  rw [mapAt, h]

theorem mapAt_eq_ok {symbolMap : SymbolMap} {key : Bytes} {k : Nat} :
    mapAt symbolMap key = .ok k ↔ symbolMap key = some k := by
  unfold mapAt
  split <;> simp_all

/-- Modelled from the spec (symbols refer to strings by byte offset, and string tables are
zero-separated): `save_string_to_strtab` appends the string and a zero byte and returns
where the string starts. -/
def saveStringToStrtab (stringTable s : Bytes) : Nat × Bytes :=
  (stringTable.length, stringTable ++ s ++ [0])

/-- Modelled from the spec ("a byte buffer appended to `.rodata`", the symbol's value being
the `.rodata` offset): `save_buffer_to_rodata` appends the bytes and returns where they
start. -/
def saveBufferToRodata (rodataBuf s : Bytes) : Nat × Bytes :=
  (rodataBuf.length, rodataBuf ++ s)

/-- Modelled from the spec ("append a symbol"): `record_symbol` appends the symbol and maps
its name to its index. -/
def recordSymbol (name : Bytes) (symbol : Sym) (symbolTable : List Sym)
    (symbolMap : SymbolMap) : List Sym × SymbolMap :=
  (symbolTable ++ [symbol], Function.update symbolMap name (some symbolTable.length))

/-- `main`'s tables before the stages run: a zero byte in the string table, the null symbol
and the `STT_FILE` symbol of the source path. -/
def initialTables (sourcePath : Bytes) : Tables :=
  let stringTable : Bytes := [0]
  let (fileName, stringTable) := saveStringToStrtab stringTable sourcePath
  { rodataBuf := []
    stringTable
    symbolTable := [{ stInfo := ELF64_ST_INFO STB_LOCAL STT_NOTYPE, stShndx := SHN_UNDEF },
      { stName := fileName, stInfo := ELF64_ST_INFO STB_LOCAL STT_FILE, stShndx := SHN_ABS }]
    symbolMap := fun _ => none }

end ViuaVm.Asm.Stage
