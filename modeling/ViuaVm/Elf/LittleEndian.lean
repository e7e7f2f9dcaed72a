import Mathlib

/-! # Little-endian bytes

What `write(2)` puts in a file for an integer field of a C struct on the little-endian
machines the assembler and the VM run on: `leBytes width n`, the low `width` bytes of `n`,
lowest first. What `read(2)` into such a field gives back is `leVal`, and
`leVal_leBytes` says the two agree up to the width of the field.

Slices of a concatenation (`slice_append`, `slice_flatten`) are how every "the bytes at
this offset are that payload" statement about the image is proved.
-/
namespace ViuaVm.Elf.LittleEndian

/-- A `std::vector<uint8_t>`, or the bytes of a `std::string`. -/
abbrev Bytes := List UInt8

/-- The `width` bytes of an unsigned integer field holding `n`, lowest first. -/
def leBytes : Nat → Nat → Bytes
  | 0, _ => []
  | width + 1, n => UInt8.ofNat n :: leBytes width (n / 256)

/-- The value of a little-endian integer field read from `bytes`. -/
def leVal : Bytes → Nat
  | [] => 0
  | b :: bs => b.toNat + 256 * leVal bs

@[simp] theorem length_leBytes (width n : Nat) : (leBytes width n).length = width := by
  induction width generalizing n with
  | zero => rfl
  | succ width ih => simp [leBytes, ih]

theorem leVal_leBytes (width n : Nat) : leVal (leBytes width n) = n % 2 ^ (8 * width) := by
  induction width generalizing n with
  | zero => simp [leBytes, leVal, Nat.mod_one]
  | succ width ih =>
    rw [leBytes, leVal, ih, show 8 * (width + 1) = 8 + 8 * width by ring, pow_add, Nat.mod_mul]
    rfl

/-- The bytes of a string literal of the source, all of them ASCII. -/
def ascii (s : String) : Bytes := s.toList.map fun c => UInt8.ofNat c.toNat

/-- A `std::vector<uint64_t>` as `write(2)` puts it in a file. -/
def wordBytes (words : List (BitVec 64)) : Bytes := words.flatMap fun w => leBytes 8 w.toNat

@[simp] theorem length_wordBytes (words : List (BitVec 64)) :
    (wordBytes words).length = 8 * words.length := by
  induction words with
  | nil => rfl
  | cons w words ih => simp [wordBytes] at ih ⊢; omega

/-- Records of one size written one after another. -/
theorem length_flatMap_of_length {α : Type} {f : α → Bytes} {size : Nat}
    (h : ∀ a, (f a).length = size) (l : List α) : (l.flatMap f).length = size * l.length := by
  induction l with
  | nil => simp
  | cons a l ih => simp only [List.flatMap_cons, List.length_append, ih, h, List.length_cons]; ring

/-- `count` words read from `bytes` into an array of `uint64_t`, eight bytes each. -/
def toWords : Nat → Bytes → List (BitVec 64)
  | 0, _ => []
  | count + 1, bytes => BitVec.ofNat 64 (leVal (bytes.take 8)) :: toWords count (bytes.drop 8)

/-- Words written with `wordBytes` read back as themselves. -/
theorem toWords_wordBytes (ws : List (BitVec 64)) (m : Nat) (rest : Bytes) :
    toWords (ws.length + m) (wordBytes ws ++ rest) = ws ++ toWords m rest := by
  induction ws with
  | nil => simp [wordBytes]
  | cons w ws ih =>
    have hw : BitVec.ofNat 64 (leVal (leBytes 8 w.toNat)) = w := by
      rw [leVal_leBytes, Nat.mod_eq_of_lt w.isLt, BitVec.ofNat_toNat, BitVec.setWidth_eq]
    rw [List.length_cons, Nat.add_right_comm, toWords, wordBytes, List.flatMap_cons,
      List.append_assoc, List.take_left' (length_leBytes 8 _),
      List.drop_left' (length_leBytes 8 _), hw]
    exact congrArg (w :: ·) ih

/-! ## Slices -/

section Slices
variable {α : Type}

/-- The `length` elements from `offset` on. -/
def slice (bytes : List α) (offset length : Nat) : List α := (bytes.drop offset).take length

theorem slice_append (pre mid post : List α) :
    slice (pre ++ mid ++ post) pre.length mid.length = mid := by
  simp [slice, List.drop_append_eq_append_drop, List.take_append_eq_append_take]

theorem slice_append_shift (pre rest : List α) (offset length : Nat) :
    slice (pre ++ rest) (pre.length + offset) length = slice rest offset length := by
  simp [slice, List.drop_append]

/-- A slice within a list reads the same in every list it is a prefix of. -/
theorem slice_extend {l l' : List α} {offset length : Nat} (hp : l <+: l')
    (h : offset + length ≤ l.length) : slice l' offset length = slice l offset length := by
  obtain ⟨u, rfl⟩ := hp
  simp [slice, List.drop_append_of_le_length (show offset ≤ l.length by omega),
    List.take_append_of_le_length (show length ≤ (l.drop offset).length by simp; omega)]

theorem slice_append_of_length {pre mid post : List α} {offset length : Nat}
    (hpre : pre.length = offset) (hmid : mid.length = length) :
    slice (pre ++ mid ++ post) offset length = mid := by
  subst hpre hmid; exact slice_append _ _ _

theorem slice_append_right {pre mid post : List α} {offset length : Nat}
    (hpre : pre.length = offset) (hmid : mid.length = length) :
    slice (pre ++ (mid ++ post)) offset length = mid := by
  rw [← List.append_assoc]; exact slice_append_of_length hpre hmid

theorem slice_append_right₃ {a b c mid post : List α} {offset length : Nat}
    (hpre : a.length + b.length + c.length = offset) (hmid : mid.length = length) :
    slice (a ++ (b ++ (c ++ (mid ++ post)))) offset length = mid := by
  rw [← List.append_assoc b, ← List.append_assoc a]
  exact slice_append_right (by simpa [Nat.add_assoc] using hpre) hmid

/-- Blocks of the given sizes laid end to end from `base`: each one's offset and size. -/
def spans : Nat → List Nat → List (Nat × Nat)
  | _, [] => []
  | base, size :: sizes => (base, size) :: spans (base + size) sizes

/-- **Blocks written one after another are where `spans` puts them.** -/
theorem slices_spans (pre : List α) (blocks : List (List α)) :
    (spans pre.length (blocks.map List.length)).map (fun s => slice (pre ++ blocks.flatten) s.1 s.2) =
      blocks := by
  induction blocks generalizing pre with
  | nil => rfl
  | cons b blocks ih =>
    have := ih (pre ++ b)
    simp only [List.length_append, List.append_assoc] at this
    simp only [List.map_cons, spans, List.flatten_cons, this, List.cons.injEq, and_true]
    simpa using slice_append pre b blocks.flatten

@[simp] theorem map_snd_spans (base : Nat) (sizes : List Nat) :
    (spans base sizes).map Prod.snd = sizes := by
  induction sizes generalizing base with
  | nil => rfl
  | cons size sizes ih => simp [spans, ih]

/-- The `k`-th block, when the blocks are laid out from the start of `bytes`. -/
theorem slice_of_spans {blocks : List (List α)} {k offset length : Nat}
    (h : (spans 0 (blocks.map List.length))[k]? = some (offset, length)) :
    blocks[k]? = some (slice blocks.flatten offset length) := by
  have hs := congrArg (·[k]?) (slices_spans [] blocks)
  simp only [List.getElem?_map, h, Option.map_some', List.nil_append, List.length_nil] at hs
  exact hs.symm

theorem drop_wordBytes (ws : List (BitVec 64)) (i : Nat) :
    (wordBytes ws).drop (8 * i) = wordBytes (ws.drop i) := by
  induction ws generalizing i with
  | nil => simp [wordBytes]
  | cons w ws ih =>
    cases i with
    | zero => rfl
    | succ i =>
      rw [show 8 * (i + 1) = 8 + 8 * i by ring, ← List.drop_drop, wordBytes, List.flatMap_cons,
        List.drop_left' (length_leBytes 8 _)]
      exact ih i

theorem take_wordBytes (ws : List (BitVec 64)) (n : Nat) :
    (wordBytes ws).take (8 * n) = wordBytes (ws.take n) := by
  induction ws generalizing n with
  | nil => simp [wordBytes]
  | cons w ws ih =>
    cases n with
    | zero => rfl
    | succ n =>
      rw [show 8 * (n + 1) = 8 + 8 * n by ring, wordBytes, List.flatMap_cons,
        List.take_append_eq_append_take, List.take_of_length_le (by simp),
        length_leBytes, Nat.add_sub_cancel_left]
      simp only [wordBytes] at ih
      rw [ih n]; rfl

/-- The words from `i` on, read from their bytes. -/
theorem slice_wordBytes (ws : List (BitVec 64)) (i n : Nat) :
    slice (wordBytes ws) (8 * i) (8 * n) = wordBytes (slice ws i n) := by
  rw [slice, drop_wordBytes, take_wordBytes, slice]

end Slices

end ViuaVm.Elf.LittleEndian
