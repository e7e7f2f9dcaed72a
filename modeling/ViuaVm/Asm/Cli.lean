import ViuaVm.Elf.LittleEndian

/-! # The command line of `tools/exec/asm.cpp`

`main` reads options from the front of its arguments, up to `--` or the first argument that
is not an option, and then takes the source path from the back of the list, wherever the
loop stopped (`readArgs`). The output path defaults to the source path with its extension
replaced by `o` (`replaceExtension`, after `std::filesystem::path::replace_extension`).

On a command line written as the spec writes it (options, then the source path) `main` does
what the spec says, and whatever follows the source path, it acts as if the last argument
were the source (`readArgs_operands`). A trailing `-o` reads past the end of the arguments
with `at`, and an empty argument among the options is read with `front`: the model throws
`outOfRange` and `undefined` there, where `main` does not return the 1 of an argument error.
-/
namespace ViuaVm.Asm.Cli
open ViuaVm.Elf.LittleEndian

/-! ## Paths

Modelled from the C++ standard library, as libstdc++ implements it on POSIX. -/

/-- `path::preferred_separator`. -/
def preferredSeparator : UInt8 := 0x2f

/-- The period an extension starts with. -/
def dot : UInt8 := 0x2e

/-- `path::filename`: what follows the last separator. -/
def filename (p : Bytes) : Bytes := (p.reverse.takeWhile (· != preferredSeparator)).reverse

/-- `basic_string::rfind` of one byte: the position of its last occurrence. -/
def rfind (c : UInt8) : Bytes → Option Nat
  | [] => none
  | b :: s =>
    match rfind c s with
    | some i => some (i + 1)
    | none => if b = c then some 0 else none

/-- `path::_M_find_extension`: where the filename's extension starts, if it has one. A
filename of at most two bytes that begins with a period has none (`.`, `..`, `.a`), and
neither has one whose last period is its first byte. -/
def extensionPos (name : Bytes) : Option Nat :=
  if name.length ≤ 2 ∧ name.head? = some dot then none
  else
    match rfind dot name with
    | some (pos + 1) => some (pos + 1)
    | _ => none

/-- `path::replace_extension`: the extension is erased from the path and, unless
`replacement` is empty or begins with a period, a period is appended before it. -/
def replaceExtension (p replacement : Bytes) : Bytes :=
  let name := filename p
  let kept := match extensionPos name with
    | some pos => p.take (p.length - name.length + pos)
    | none => p
  kept ++ (if replacement ≠ [] ∧ replacement.head? ≠ some dot then [dot] else []) ++ replacement

theorem filename_append {s t : Bytes} (h : preferredSeparator ∉ t) :
    filename (s ++ t) = filename s ++ t := by
  have ht : ∀ b ∈ t.reverse, (b != preferredSeparator) = true := by
    intro b hb
    simpa using ne_of_mem_of_not_mem (List.mem_reverse.mp hb) h
  simp only [filename, List.reverse_append, List.takeWhile_append_of_pos ht,
    List.reverse_reverse]

theorem length_filename_le (p : Bytes) : (filename p).length ≤ p.length := by
  rw [filename, List.length_reverse]
  exact (List.takeWhile_sublist _).length_le.trans_eq (List.length_reverse p)

theorem rfind_of_not_mem {c : UInt8} {s : Bytes} (h : c ∉ s) : rfind c s = none := by
  induction s with
  | nil => rfl
  | cons b s ih =>
    rw [List.mem_cons, not_or] at h
    rw [rfind, ih h.2, if_neg (Ne.symm h.1)]

/-- The last occurrence is the one after which `c` does not occur. -/
theorem rfind_append_cons {c : UInt8} (s : Bytes) {t : Bytes} (h : c ∉ t) :
    rfind c (s ++ c :: t) = some s.length := by
  induction s with
  | nil => rw [List.nil_append, rfind, rfind_of_not_mem h, if_pos rfl]; rfl
  | cons b s ih => rw [List.cons_append, rfind, ih]; rfl

/-- The extension of `stem.ext` is replaced, whatever directories `stem` names, when the
filename's stem and the extension are not empty. -/
theorem replaceExtension_eq {stem ext : Bytes} (hstem : filename stem ≠ []) (hext : ext ≠ [])
    (hdot : dot ∉ ext) (hsep : preferredSeparator ∉ ext) :
    replaceExtension (stem ++ dot :: ext) (ascii "o") = stem ++ ascii ".o" := by
  have hname : filename (stem ++ dot :: ext) = filename stem ++ dot :: ext :=
    filename_append (by simp only [List.mem_cons, not_or]; exact ⟨by decide, hsep⟩)
  obtain ⟨n, L, hn⟩ := List.exists_cons_of_ne_nil hstem
  have hpos : extensionPos (filename stem ++ dot :: ext) = some (filename stem).length := by
    have hlen : ¬(filename stem ++ dot :: ext).length ≤ 2 := by
      have := List.length_pos_of_ne_nil hext
      simp only [List.length_append, List.length_cons]
      have := List.length_pos_of_ne_nil hstem
      omega
    rw [extensionPos, if_neg (fun h => hlen h.1), rfind_append_cons _ hdot, hn]
    rfl
  have hle := length_filename_le stem
  simp only [replaceExtension, hname, hpos, List.length_append, List.length_cons]
  rw [show stem.length + (ext.length + 1) - ((filename stem).length + (ext.length + 1)) +
    (filename stem).length = stem.length by omega, List.take_left, List.append_assoc]
  rfl

example : replaceExtension (ascii "hello.asm") (ascii "o") = ascii "hello.o" := by decide
example : replaceExtension (ascii "lib.d/hello") (ascii "o") = ascii "lib.d/hello.o" := by
  decide
example : replaceExtension (ascii ".asm") (ascii "o") = ascii ".asm.o" := by decide

/-! ## The option loop -/

/-- The options `main` collects before it reads the source. -/
structure Options where
  preferredOutputPath : Option Bytes := none
  verbosityLevel : Nat := 0
  showVersion : Bool := false
  showHelp : Bool := false
  deriving DecidableEq, Repr

/-- How reading the arguments stops instead of going on. -/
inductive ArgStop
  /-- `error: ` and the message on the standard error, then `return 1`. -/
  | exit (message : Bytes)
  /-- `args.at(++i)` past the end: a `std::out_of_range` that nothing catches. -/
  | outOfRange
  /-- `each.front()` on an empty argument: undefined behaviour. -/
  | undefined
  deriving DecidableEq, Repr

/-- The option loop of `main`, from argument `each` on. It stops at `--` or at the first
argument that is not an option, and the index it stops at is not read afterwards. -/
def parseOptions : List Bytes → Options → Except ArgStop Options
  | [], opts => .ok opts
  | each :: args, opts =>
    if each = ascii "--" then .ok opts
    else if each = ascii "-o" then
      match args with
      | [] => .error .outOfRange
      | path :: args => parseOptions args { opts with preferredOutputPath := some path }
    else if each = ascii "-v" ∨ each = ascii "--verbose" then
      parseOptions args { opts with verbosityLevel := opts.verbosityLevel + 1 }
    else if each = ascii "--version" then parseOptions args { opts with showVersion := true }
    else if each = ascii "--help" then parseOptions args { opts with showHelp := true }
    else if each = [] then .error .undefined
    else if each.take 1 = ascii "-" then .error (.exit (ascii "unknown option: " ++ each))
    else .ok opts

/-- What `main` goes on to do once it has read its arguments. -/
inductive Action
  /-- Print the version, the full one when verbose, and `return 0`. -/
  | version (verbose : Bool)
  /-- `execlp` the manual page; `main` returns, with 1, only when that fails. -/
  | help
  /-- Read the source, assemble it and write the output: the rest of `main`. -/
  | assemble (sourcePath outputPath : Bytes) (verbosityLevel : Nat)
  deriving DecidableEq, Repr

/-- `main`'s reading of its arguments (lines 981-1112): the source path is the last
argument. -/
def readArgs (args : List Bytes) : Except ArgStop Action :=
  if args = [] then .error (.exit (ascii "no file to assemble"))
  else
    match parseOptions args {} with
    | .error e => .error e
    | .ok opts =>
      if opts.showVersion then .ok (.version (opts.verbosityLevel != 0))
      else if opts.showHelp then .ok .help
      else
        let sourcePath := args.getLastD []
        .ok (.assemble sourcePath
          (opts.preferredOutputPath.getD (replaceExtension sourcePath (ascii "o")))
          opts.verbosityLevel)

theorem readArgs_of_parseOptions {args : List Bytes} (hargs : args ≠ []) {opts : Options}
    (h : parseOptions args {} = .ok opts) :
    readArgs args =
      if opts.showVersion then .ok (.version (opts.verbosityLevel != 0))
      else if opts.showHelp then .ok .help
      else .ok (.assemble (args.getLastD [])
        (opts.preferredOutputPath.getD (replaceExtension (args.getLastD []) (ascii "o")))
        opts.verbosityLevel) := by
  rw [readArgs, if_neg hargs, h]

/-! ## The command line the spec describes

Modelled from the spec (§6): the options it lists, and what a command line of options and
one source path does. -/

/-- An option, as the spec lists it. -/
inductive Opt
  | output (path : Bytes)
  | verbose
  | version
  | help
  deriving DecidableEq, Repr

/-- The arguments an option is written as. -/
def Opt.words : Opt → List Bytes
  | .output path => [ascii "-o", path]
  | .verbose => [ascii "-v"]
  | .version => [ascii "--version"]
  | .help => [ascii "--help"]

/-- The path of `-o`. -/
def Opt.outputPath : Opt → Option Bytes
  | .output path => some path
  | _ => none

/-- What an option sets. -/
def Opt.set (opts : Options) : Opt → Options
  | .output path => { opts with preferredOutputPath := some path }
  | .verbose => { opts with verbosityLevel := opts.verbosityLevel + 1 }
  | .version => { opts with showVersion := true }
  | .help => { opts with showHelp := true }

/-- An argument the loop takes for the first input file. -/
def IsOperand (each : Bytes) : Prop := each ≠ [] ∧ each.take 1 ≠ ascii "-"

instance (each : Bytes) : Decidable (IsOperand each) := by unfold IsOperand; infer_instance

/-- The spec's reading of options `os` and source path `src`: `--version` prints the version,
`--help` the manual, and otherwise `src` is assembled into the last `-o` path, by default
`src` with its extension replaced by `o`, as verbose as there are `-v`s. -/
def specAction (os : List Opt) (src : Bytes) : Action :=
  if Opt.version ∈ os then .version (decide (Opt.verbose ∈ os))
  else if Opt.help ∈ os then .help
  else .assemble src (((os.filterMap Opt.outputPath).getLast?).getD
    (replaceExtension src (ascii "o"))) (os.count .verbose)

/-- One option, read by one iteration of the loop (two for `-o`). -/
theorem parseOptions_words (o : Opt) (args : List Bytes) (opts : Options) :
    parseOptions (o.words ++ args) opts = parseOptions args (Opt.set opts o) := by
  cases o <;> rw [parseOptions.eq_def] <;> rfl

/-- The loop over options: a run of `parseOptions_words`. -/
theorem parseOptions_flatMap_words (os : List Opt) (args : List Bytes) (opts : Options) :
    parseOptions (os.flatMap Opt.words ++ args) opts = parseOptions args (os.foldl Opt.set opts) := by
  induction os generalizing opts with
  | nil => rfl
  | cons o os ih => rw [List.flatMap_cons, List.append_assoc, parseOptions_words, ih, List.foldl_cons]

/-- What the options set, field by field. -/
theorem foldl_set (os : List Opt) (opts : Options) :
    os.foldl Opt.set opts =
      { preferredOutputPath := ((os.filterMap Opt.outputPath).getLast?).or opts.preferredOutputPath
        verbosityLevel := opts.verbosityLevel + os.count .verbose
        showVersion := opts.showVersion || decide (Opt.version ∈ os)
        showHelp := opts.showHelp || decide (Opt.help ∈ os) } := by
  induction os generalizing opts with
  | nil => simp
  | cons o os ih =>
    rw [List.foldl_cons, ih]
    cases o <;> cases h : (os.filterMap Opt.outputPath).getLast? <;>
      simp [Opt.set, Opt.outputPath, List.getLast?_cons, h, Nat.add_assoc, Nat.add_comm 1]

/-- An argument that is none of the options ends the loop: an empty one is read by `front`,
one that begins with `-` is an unknown option, and any other is the first input file. -/
theorem parseOptions_not_option {each : Bytes}
    (hopt : each ∉ [ascii "--", ascii "-o", ascii "-v", ascii "--verbose", ascii "--version",
      ascii "--help"]) (args : List Bytes) (opts : Options) :
    parseOptions (each :: args) opts =
      if each = [] then .error .undefined
      else if each.take 1 = ascii "-" then .error (.exit (ascii "unknown option: " ++ each))
      else .ok opts := by
  simp only [List.mem_cons, List.mem_singleton, not_or, List.not_mem_nil] at hopt
  obtain ⟨h1, h2, h3, h4, h5, h6, -⟩ := hopt
  rw [parseOptions.eq_def]
  dsimp only
  rw [if_neg h1, if_neg h2, if_neg (not_or.mpr ⟨h3, h4⟩), if_neg h5, if_neg h6]

/-- The loop stops at an operand, and at `--`. -/
theorem parseOptions_operand {each : Bytes} (h : IsOperand each ∨ each = ascii "--")
    (args : List Bytes) (opts : Options) : parseOptions (each :: args) opts = .ok opts := by
  rcases h with ⟨hne, hdash⟩ | rfl
  · have hwords : ∀ w ∈ [ascii "--", ascii "-o", ascii "-v", ascii "--verbose",
        ascii "--version", ascii "--help"], w.take 1 = ascii "-" := by decide
    rw [parseOptions_not_option (fun h => hdash (hwords each h)), if_neg hne, if_neg hdash]
  · rw [parseOptions.eq_def]; rfl

/-- **`main` reads a command line of options and a source path as the spec does, and
whatever follows the source path, it acts as if the last argument were the source.** For
options `os`, a source path `src` (after `--`, or an operand) and any arguments `args` after
it, `main` does what the spec says of `os` and the last argument: with `args` empty, of `os`
and `src`. Options after the source path are not read: `foo.asm -o out.o` assembles `out.o`
into `out.o`. -/
theorem readArgs_operands (os : List Opt) (sep : List Bytes) (src : Bytes)
    (hsep : sep = [ascii "--"] ∨ sep = [] ∧ IsOperand src) (args : List Bytes) :
    readArgs (os.flatMap Opt.words ++ sep ++ src :: args) =
      .ok (specAction os ((src :: args).getLast (List.cons_ne_nil _ _))) := by
  have hstop : parseOptions (sep ++ src :: args) (os.foldl Opt.set {}) =
      .ok (os.foldl Opt.set {}) := by
    rcases hsep with rfl | ⟨rfl, hsrc⟩
    · exact parseOptions_operand (.inr rfl) _ _
    · exact parseOptions_operand (.inl hsrc) _ _
  have hparse := (parseOptions_flatMap_words os (sep ++ src :: args) {}).trans hstop
  rw [← List.append_assoc] at hparse
  have hlast : (os.flatMap Opt.words ++ sep ++ src :: args).getLastD [] =
      (src :: args).getLast (List.cons_ne_nil _ _) := by
    rw [List.getLastD_eq_getLast?, List.getLast?_append,
      List.getLast?_eq_getLast _ (List.cons_ne_nil src args)]
    rfl
  rw [readArgs_of_parseOptions (by simp) hparse, hlast, foldl_set, specAction]
  simp only [Bool.false_or, Option.or_none, Nat.zero_add, decide_eq_true_eq]
  split_ifs
  · congr 2
    cases h : os.count .verbose <;> simp [← List.count_pos_iff, h]
  · rfl
  · rfl

/-- The sample the docstring names: `foo.asm -o out.o`. -/
theorem readArgs_operands_sample :
    (([] : List Bytes) = [ascii "--"] ∨ ([] : List Bytes) = [] ∧ IsOperand (ascii "foo.asm")) ∧
      readArgs (([] : List Opt).flatMap Opt.words ++ [] ++ ascii "foo.asm" :: [ascii "-o", ascii "out.o"]) =
        .ok (.assemble (ascii "out.o") (ascii "out.o") 0) :=
  ⟨.inr ⟨rfl, by decide⟩,
    (readArgs_operands [] [] (ascii "foo.asm") (.inr ⟨rfl, by decide⟩) _).trans
      (congrArg Except.ok (by decide))⟩

end ViuaVm.Asm.Cli
