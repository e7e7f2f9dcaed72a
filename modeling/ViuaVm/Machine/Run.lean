import ViuaVm.Machine.Core

/-! # The dispatch loops of `tools/vm.cpp`

`runInstruction` is `run_instruction`: a `do`-`while` that dispatches the word at `ip`
and keeps dispatching while the word it just dispatched is greedy. It does not look at
`ip_end`; a read past the text is `Fault.fetchPastEnd`.

`runCycle` is the inner `for` loop of `run`, counting dispatched words in `i` until
`PREEMPTION_THRESHOLD` or the end of the text, and `run` is the outer `while` loop, one
`Cycle` per iteration. Both return what they write to the trace stream: where each cycle
and each bundle began, and how many words each bundle dispatched.

All three are defined by well-founded recursion on `text.length - ip`: each recursive call
follows a dispatch, which moves `ip` one word on (`execute_next`).
-/
namespace ViuaVm.Machine.Run
open ViuaVm.Arch.Ops ViuaVm.Machine.Core

/-- The words between `ip_begin` and `ip_end`. -/
abbrev Text := List InstructionType

/-- `PREEMPTION_THRESHOLD` of `run`. -/
def PREEMPTION_THRESHOLD : Nat := 2

/-- One iteration of the inner loop of `run`: the bundle began at `start`, its first word
was `greedy` ("bundle") or not ("single"), the counter was `counter`, and `run_instruction`
dispatched `dispatched` words. -/
structure Bundle where
  start : Nat
  greedy : Bool
  counter : Nat
  dispatched : Nat
  deriving DecidableEq, Repr

/-- One iteration of the outer loop of `run`: it began at `start` ("cycle at"), ran
`bundles`, and ended `preempted` rather than halted. -/
structure Cycle where
  start : Nat
  bundles : List Bundle
  preempted : Bool
  deriving DecidableEq, Repr

/-- `run_instruction`: the registers after the bundle, the next instruction pointer
(`none` for `nullptr`), and the number of words dispatched. -/
def runInstruction (text : Text) (registers : Registers) (ip : Nat) :
    Except Fault (Registers × Option Nat × Nat) :=
  match hw : text[ip]? with
  | none => .error (.fetchPastEnd ip)
  | some instruction =>
    match he : execute registers instruction ip with
    | .error f => .error f
    | .ok (r, none) => .ok (r, none, 1)
    | .ok (r, some next) =>
      if isGreedy instruction then
        (fun (x : Registers × Option Nat × Nat) => (x.1, x.2.1, x.2.2 + 1)) <$>
          runInstruction text r next
      else .ok (r, some next, 1)
termination_by text.length - ip
decreasing_by
  have := execute_next he
  have := (List.getElem?_eq_some_iff.mp hw).1
  omega

/-- Every greedy word of the text is followed by another word of it. -/
def GreedyClosed (text : Text) : Prop :=
  ∀ k (w : InstructionType), text[k]? = some w → isGreedy w = true → k + 1 < text.length

/-! ## One bundle -/

theorem runInstruction_eq (text : Text) (registers : Registers) (ip : Nat) :
    runInstruction text registers ip =
      match text[ip]? with
      | none => .error (.fetchPastEnd ip)
      | some instruction =>
        match execute registers instruction ip with
        | .error f => .error f
        | .ok (r, none) => .ok (r, none, 1)
        | .ok (r, some next) =>
          if isGreedy instruction then
            (fun (x : Registers × Option Nat × Nat) => (x.1, x.2.1, x.2.2 + 1)) <$>
              runInstruction text r next
          else .ok (r, some next, 1) := by
  rw [runInstruction]
  rcases hw : text[ip]? with _ | w
  · rfl
  · dsimp only
    rcases he : execute registers w ip with f | ⟨r, _ | next⟩ <;> rfl

/-- Reading a text word by word from `ip`. -/
theorem getElem?_of_drop_eq_cons {text : Text} {ip : Nat} {w : InstructionType} {rest : Text}
    (h : text.drop ip = w :: rest) : text[ip]? = some w ∧ text.drop (ip + 1) = rest :=
  ⟨by rw [← Nat.add_zero ip, ← List.getElem?_drop, h, List.getElem?_cons_zero],
    by rw [← List.drop_drop, h]; rfl⟩

/-- A greedy word that goes on leaves the rest of the bundle to the next word. -/
theorem runInstruction_greedy {text : Text} {registers r : Registers} {ip next : Nat}
    {w : InstructionType} (hw : text[ip]? = some w)
    (he : execute registers w ip = .ok (r, some next)) (hg : isGreedy w = true) :
    runInstruction text registers ip =
      (fun (x : Registers × Option Nat × Nat) => (x.1, x.2.1, x.2.2 + 1)) <$>
        runInstruction text r next := by
  rw [runInstruction_eq, hw]; simp only [he, hg, if_true]

/-- A word that is not greedy ends the bundle. -/
theorem runInstruction_last {text : Text} {registers r : Registers} {ip next : Nat}
    {w : InstructionType} (hw : text[ip]? = some w)
    (he : execute registers w ip = .ok (r, some next)) (hg : isGreedy w = false) :
    runInstruction text registers ip = .ok (r, some next, 1) := by
  rw [runInstruction_eq, hw]; simp only [he, hg, Bool.false_eq_true, if_false]

/-- **What a bundle dispatched.** A bundle that ends normally dispatched `k ≥ 1` words from
`ip` on, all inside the text; every word but the last was greedy; and when it returns a
next instruction pointer, that pointer is `ip + k` and the last word was not greedy. -/
theorem runInstruction_ok {text : Text} {registers : Registers} {ip : Nat} {r : Registers}
    {o : Option Nat} {k : Nat} (h : runInstruction text registers ip = .ok (r, o, k)) :
    1 ≤ k ∧ ip + k ≤ text.length ∧
      (∀ t, t + 1 < k → ∃ w, text[ip + t]? = some w ∧ isGreedy w = true) ∧
      (∀ j, o = some j → j = ip + k ∧
        ∃ w, text[ip + k - 1]? = some w ∧ isGreedy w = false) := by
  induction registers, ip using runInstruction.induct text generalizing r o k with
  | case1 registers ip hw => rw [runInstruction_eq, hw] at h; cases h
  | case2 registers ip w hw f he => rw [runInstruction_eq, hw] at h; simp [he] at h
  | case3 registers ip w hw r' he =>
    rw [runInstruction_eq, hw] at h
    simp only [he, Except.ok.injEq, Prod.mk.injEq] at h
    obtain ⟨-, rfl, rfl⟩ := h
    have := (List.getElem?_eq_some_iff.mp hw).1
    exact ⟨le_rfl, by omega, fun t ht => by omega, by simp⟩
  | case4 registers ip w hw r' next he hg ih =>
    rw [runInstruction_eq, hw] at h
    simp only [he, hg, if_true] at h
    obtain ⟨⟨r'', o', k'⟩, hrec, h⟩ := map_eq_ok.mp h
    simp only [Prod.mk.injEq] at h
    obtain ⟨rfl, rfl, rfl⟩ := h
    obtain ⟨h1, h2, h3, h4⟩ := ih hrec
    have hn := execute_next he
    subst hn
    refine ⟨by omega, by omega, fun t ht => ?_, fun j hj => ?_⟩
    · cases t with
      | zero => exact ⟨w, hw, hg⟩
      | succ t => simpa [Nat.add_assoc, Nat.add_comm 1] using h3 t (by omega)
    · obtain ⟨rfl, w', hw', hg'⟩ := h4 j hj
      exact ⟨by omega, w', by simpa [Nat.add_assoc, Nat.add_comm 1] using hw', hg'⟩
  | case5 registers ip w hw r' next he hg =>
    rw [runInstruction_eq, hw] at h
    simp only [he, hg, if_false, Except.ok.injEq, Prod.mk.injEq, Bool.false_eq_true] at h
    obtain ⟨-, rfl, rfl⟩ := h
    have := (List.getElem?_eq_some_iff.mp hw).1
    have hn := execute_next he
    refine ⟨le_rfl, by omega, fun t ht => by omega, fun j hj => ?_⟩
    cases hj
    exact ⟨hn, w, by simpa using hw, by simpa using hg⟩

/-- **A bundle of a greedy-closed text ends normally** on an unboxed file, which stays
unboxed. -/
theorem runInstruction_total {text : Text} (hc : GreedyClosed text) {registers : Registers}
    (hv : Unboxed registers) {ip : Nat} (hip : ip < text.length) :
    ∃ r o k, runInstruction text registers ip = .ok (r, o, k) ∧ Unboxed r := by
  induction registers, ip using runInstruction.induct text with
  | case1 registers ip hw => simp [List.getElem?_eq_none_iff] at hw; omega
  | case2 registers ip w hw f he =>
    obtain ⟨_, _, he', _⟩ := execute_unboxed hv w ip
    simp [he] at he'
  | case3 registers ip w hw r' he =>
    obtain ⟨_, _, he', hr⟩ := execute_unboxed hv w ip
    rw [he] at he'; cases he'
    exact ⟨r', none, 1, by rw [runInstruction_eq, hw]; simp [he], hr⟩
  | case4 registers ip w hw r' next he hg ih =>
    obtain ⟨_, _, he', hr⟩ := execute_unboxed hv w ip
    rw [he] at he'; cases he'
    have hn := execute_next he
    obtain ⟨r'', o, k, hrec, hr''⟩ := ih hr (by have := hc ip w hw hg; omega)
    exact ⟨r'', o, k + 1, by
      rw [runInstruction_eq, hw]; simp [he, hg, hrec, Functor.map, Except.map], hr''⟩
  | case5 registers ip w hw r' next he hg =>
    obtain ⟨_, _, he', hr⟩ := execute_unboxed hv w ip
    rw [he] at he'; cases he'
    exact ⟨r', some next, 1, by rw [runInstruction_eq, hw]; simp [he, hg], hr⟩

/-! ## Cycles -/

/-- The inner `for` loop of `run`, from counter `i` at `ip`: the registers, the instruction
pointer the loop stops at, and the bundles it ran. A `nullptr` from a bundle sets `ip` to
`ip_end`; after a greedy bundle that did not reach `ip_end` the counter moves on by the
bundle's length less one, before the loop's own `++i`. -/
def runCycle (text : Text) (registers : Registers) (ip i : Nat) :
    Except Fault (Registers × Nat × List Bundle) :=
  if i < PREEMPTION_THRESHOLD ∧ ip ≠ text.length then
    match text[ip]? with
    | none => .error (.fetchPastEnd ip)
    | some word =>
      match hr : runInstruction text registers ip with
      | .error f => .error f
      | .ok (r, next, dispatched) =>
        let ip' := next.getD text.length
        let i' := if isGreedy word ∧ ip' ≠ text.length then i + ((ip' - ip) - 1) else i
        (fun (x : Registers × Nat × List Bundle) =>
            (x.1, x.2.1, ⟨ip, isGreedy word, i, dispatched⟩ :: x.2.2)) <$>
          runCycle text r ip' (i' + 1)
  else .ok (registers, ip, [])
termination_by text.length - ip
decreasing_by
  obtain ⟨h1, h2, -, h4⟩ := runInstruction_ok hr
  cases next with
  | none => simp only [Option.getD_none]; omega
  | some j => simp only [Option.getD_some]; have := (h4 j rfl).1; omega

/-- The counter the next iteration of the inner loop starts from: `i`, moved on after a
greedy bundle that did not reach `ip_end`, then the loop's own `++i`. -/
def nextCounter (text : Text) (word : InstructionType) (ip i : Nat) (next : Option Nat) : Nat :=
  (if isGreedy word ∧ next.getD text.length ≠ text.length then
    i + ((next.getD text.length - ip) - 1) else i) + 1

theorem runCycle_stop {text : Text} {registers : Registers} {ip i : Nat}
    (h : ¬(i < PREEMPTION_THRESHOLD ∧ ip ≠ text.length)) :
    runCycle text registers ip i = .ok (registers, ip, []) := by
  rw [runCycle, if_neg h]

@[simp] theorem runCycle_end (text : Text) (registers : Registers) (i : Nat) :
    runCycle text registers text.length i = .ok (registers, text.length, []) :=
  runCycle_stop (by simp)

theorem runCycle_step {text : Text} {registers : Registers} {ip i : Nat} {word : InstructionType}
    {r : Registers} {next : Option Nat} {dispatched : Nat}
    (hc : i < PREEMPTION_THRESHOLD ∧ ip ≠ text.length) (hw : text[ip]? = some word)
    (hr : runInstruction text registers ip = .ok (r, next, dispatched)) :
    runCycle text registers ip i =
      (fun (x : Registers × Nat × List Bundle) =>
          (x.1, x.2.1, ⟨ip, isGreedy word, i, dispatched⟩ :: x.2.2)) <$>
        runCycle text r (next.getD text.length) (nextCounter text word ip i next) := by
  rw [runCycle, if_pos hc]
  split
  · simp_all
  · rename_i w hw'
    rw [hw] at hw'; cases hw'
    split <;> simp_all [nextCounter]

theorem runCycle_fault {text : Text} {registers : Registers} {ip i : Nat} {f : Fault}
    (hc : i < PREEMPTION_THRESHOLD ∧ ip ≠ text.length)
    (hr : runInstruction text registers ip = .error f) :
    runCycle text registers ip i = .error f := by
  rw [runCycle, if_pos hc]
  split
  · rename_i hw; rw [runInstruction_eq, hw] at hr; cases hr; rfl
  · split <;> simp_all

theorem runCycle_fetch_none {text : Text} {registers : Registers} {ip i : Nat}
    (hc : i < PREEMPTION_THRESHOLD ∧ ip ≠ text.length) (hw : text[ip]? = none) :
    runCycle text registers ip i = .error (.fetchPastEnd ip) :=
  runCycle_fault hc (by rw [runInstruction_eq, hw])

/-- After a bundle that returned `ip + dispatched` short of the end, the counter has moved
on by exactly the number of words the bundle dispatched. -/
theorem nextCounter_eq {text : Text} {registers r : Registers} {ip i j dispatched : Nat}
    {word : InstructionType} (hw : text[ip]? = some word)
    (hr : runInstruction text registers ip = .ok (r, some j, dispatched))
    (hj : j ≠ text.length) : nextCounter text word ip i (some j) = i + dispatched := by
  obtain ⟨h1, -, h3, h4⟩ := runInstruction_ok hr
  obtain ⟨rfl, -⟩ := h4 j rfl
  unfold nextCounter
  by_cases hg : isGreedy word
  · simp [hg, hj]; omega
  · -- a bundle whose first word is not greedy is that word alone
    have hd : dispatched = 1 := by
      by_contra hd
      obtain ⟨w, hw', hg'⟩ := h3 0 (by omega)
      simp only [Nat.add_zero, hw, Option.some.injEq] at hw'
      exact hg (hw' ▸ hg')
    simp [hg, hd]

/-- The words a bundle dispatched. -/
def Bundle.words (b : Bundle) : List Nat := List.range' b.start b.dispatched

/-- How many words a list of bundles dispatched. -/
def dispatchedOf (bs : List Bundle) : Nat := (bs.map Bundle.dispatched).sum

@[simp] theorem dispatchedOf_nil : dispatchedOf [] = 0 := rfl
@[simp] theorem dispatchedOf_cons (b : Bundle) (bs : List Bundle) :
    dispatchedOf (b :: bs) = b.dispatched + dispatchedOf bs := by simp [dispatchedOf]

/-- What one run of the inner loop, from counter `i` at `ip` to `ip'` through the bundles
`bs`, looks like in the trace. -/
structure CycleSpec (text : Text) (ip i ip' : Nat) (bs : List Bundle) : Prop where
  /-- The bundles dispatched consecutive words from `ip`. -/
  words : bs.flatMap Bundle.words = List.range' ip (dispatchedOf bs)
  /-- All of them inside the text. -/
  inside : bs = [] ∨ ip + dispatchedOf bs ≤ text.length
  /-- The loop ran at least once when its condition held on entry. -/
  nonempty : i < PREEMPTION_THRESHOLD → ip ≠ text.length → bs ≠ []
  /-- Stopping short of the end, the loop stopped at the word after the last one
  dispatched, that word was not greedy, the counter has reached the threshold, and it had
  not before the last bundle began. -/
  preempted : ip' ≠ text.length → ip' = ip + dispatchedOf bs ∧
    PREEMPTION_THRESHOLD ≤ i + dispatchedOf bs ∧
    (bs ≠ [] → i + dispatchedOf bs.dropLast < PREEMPTION_THRESHOLD ∧
      ∃ w, text[ip' - 1]? = some w ∧ isGreedy w = false)

/-- **One cycle** of the inner loop satisfies `CycleSpec`. -/
theorem runCycle_ok {text : Text} {registers : Registers} {ip i : Nat} {r : Registers}
    {ip' : Nat} {bs : List Bundle} (h : runCycle text registers ip i = .ok (r, ip', bs)) :
    CycleSpec text ip i ip' bs := by
  induction registers, ip, i using runCycle.induct text generalizing r ip' bs with
  | case1 registers ip i hc hw => rw [runCycle_fetch_none hc hw] at h; cases h
  | case2 registers ip i hc w hw f hr => rw [runCycle_fault hc hr] at h; cases h
  | case3 registers ip i hc w hw r1 next d hr ip1 =>
    rename_i i1 ih
    rw [runCycle_step hc hw hr] at h
    obtain ⟨⟨r2, ip2, bs'⟩, hrec, h⟩ := map_eq_ok.mp h
    simp only [Prod.mk.injEq] at h
    obtain ⟨rfl, rfl, rfl⟩ := h
    obtain ⟨-, h2, -, h4⟩ := runInstruction_ok hr
    cases next with
    | none =>
      -- the bundle halted, and the loop stops at the end of the text
      rw [Option.getD_none, runCycle_end] at hrec
      simp only [Except.ok.injEq, Prod.mk.injEq] at hrec
      obtain ⟨-, rfl, rfl⟩ := hrec
      exact ⟨by simp [Bundle.words], .inr (by simpa using h2), fun _ _ => by simp,
        fun h => absurd rfl h⟩
    | some j =>
      obtain ⟨rfl, w', hw', hg'⟩ := h4 _ rfl
      have ih' : CycleSpec text (ip + d) (nextCounter text w ip i (some (ip + d))) ip2 bs' :=
        ih hrec
      obtain ⟨ha, hb, -, hc'⟩ := ih'
      refine ⟨?_, ?_, fun _ _ => by simp, fun hne => ?_⟩
      · simp only [List.flatMap_cons, ha, Bundle.words, dispatchedOf_cons]
        rw [List.range'_append_1, Nat.add_comm]
      · rcases hb with rfl | hb <;> simp <;> omega
      · have hj : ip + d ≠ text.length := by
          rintro hj
          rw [hj, Option.getD_some, runCycle_end] at hrec
          simp only [Except.ok.injEq, Prod.mk.injEq] at hrec
          exact hne hrec.2.1.symm
        have hn := @nextCounter_eq _ _ _ _ i _ _ _ hw hr hj
        obtain ⟨e1, e2, e3⟩ := hc' hne
        refine ⟨by simp [e1]; omega, by simp; omega, fun _ => ?_⟩
        rcases List.eq_nil_or_concat bs' with rfl | ⟨l, b, rfl⟩
        · simp only [dispatchedOf_nil, Nat.add_zero] at e1
          subst e1
          exact ⟨by simp; exact hc.1, w', hw', hg'⟩
        · obtain ⟨e4, e5⟩ := e3 (by simp)
          refine ⟨?_, e5⟩
          rw [List.dropLast_cons_of_ne_nil (by simp)]
          simp only [dispatchedOf_cons]; omega
  | case4 registers ip i hc =>
    rw [runCycle_stop hc] at h
    simp only [Except.ok.injEq, Prod.mk.injEq] at h
    obtain ⟨-, rfl, rfl⟩ := h
    refine ⟨rfl, .inl rfl, fun h1 h2 => absurd ⟨h1, h2⟩ hc, fun hne => ⟨rfl, ?_, fun h => absurd rfl h⟩⟩
    simp only [dispatchedOf_nil, Nat.add_zero]; omega

/-- **The inner loop over a greedy-closed text ends normally** on an unboxed file, at an
instruction pointer inside the text. -/
theorem runCycle_total {text : Text} (hc : GreedyClosed text) {registers : Registers}
    (hv : Unboxed registers) {ip : Nat} (hip : ip ≤ text.length) (i : Nat) :
    ∃ r ip' bs, runCycle text registers ip i = .ok (r, ip', bs) ∧ Unboxed r ∧
      ip' ≤ text.length := by
  induction registers, ip, i using runCycle.induct text with
  | case1 registers ip i hcond hw =>
    simp [List.getElem?_eq_none_iff] at hw; omega
  | case2 registers ip i hcond w hw f hr =>
    obtain ⟨_, _, _, hr', _⟩ := runInstruction_total hc hv (by omega : ip < text.length)
    rw [hr] at hr'; cases hr'
  | case3 registers ip i hcond w hw r1 next d hr ip1 =>
    rename_i i1 ih
    obtain ⟨_, _, _, hr', hv1⟩ := runInstruction_total hc hv (by omega : ip < text.length)
    rw [hr] at hr'; cases hr'
    obtain ⟨-, h2, -, h4⟩ := runInstruction_ok hr
    have hip1 : next.getD text.length ≤ text.length := by
      cases next with
      | none => simp
      | some j => have := (h4 j rfl).1; simp; omega
    obtain ⟨r, ip', bs, hrec, hvr, hle⟩ := ih hv1 hip1
    have hrec' : runCycle text r1 (next.getD text.length) (nextCounter text w ip i next) =
        .ok (r, ip', bs) := hrec
    refine ⟨r, ip', ⟨ip, isGreedy w, i, d⟩ :: bs, ?_, hvr, hle⟩
    rw [runCycle_step hcond hw hr, hrec']
    rfl
  | case4 registers ip i hcond => exact ⟨_, _, _, runCycle_stop hcond, hv, hip⟩

/-! ## Runs -/

/-- The outer `while` loop of `run`, from `ip`: one `Cycle` per iteration, each ended either
by the preemption log line or, at the end of the text, by "halted". -/
def run (text : Text) (registers : Registers) (ip : Nat) :
    Except Fault (Registers × List Cycle) :=
  if ip ≠ text.length then
    match hc : runCycle text registers ip 0 with
    | .error f => .error f
    | .ok (r, ip', bundles) =>
      if hend : ip' = text.length then .ok (r, [⟨ip, bundles, false⟩])
      else
        (fun (x : Registers × List Cycle) => (x.1, ⟨ip, bundles, true⟩ :: x.2)) <$>
          run text r ip'
  else .ok (registers, [])
termination_by text.length - ip
decreasing_by
  obtain ⟨-, hin, -, hpre⟩ := runCycle_ok hc
  obtain ⟨h1, h2, -⟩ := hpre hend
  have : PREEMPTION_THRESHOLD = 2 := rfl
  rcases hin with rfl | hin
  · simp at h2; omega
  · omega

@[simp] theorem run_end (text : Text) (registers : Registers) :
    run text registers text.length = .ok (registers, []) := by
  rw [run]; simp

theorem run_fault {text : Text} {registers : Registers} {ip : Nat} {f : Fault}
    (hip : ip ≠ text.length) (hc : runCycle text registers ip 0 = .error f) :
    run text registers ip = .error f := by
  rw [run, if_pos hip]; split <;> simp_all

theorem run_halt {text : Text} {registers r : Registers} {ip : Nat} {bs : List Bundle}
    (hip : ip ≠ text.length) (hc : runCycle text registers ip 0 = .ok (r, text.length, bs)) :
    run text registers ip = .ok (r, [⟨ip, bs, false⟩]) := by
  rw [run, if_pos hip]; split <;> simp_all

theorem run_preempt {text : Text} {registers r : Registers} {ip ip' : Nat} {bs : List Bundle}
    (hip : ip ≠ text.length) (hc : runCycle text registers ip 0 = .ok (r, ip', bs))
    (hend : ip' ≠ text.length) :
    run text registers ip =
      (fun (x : Registers × List Cycle) => (x.1, ⟨ip, bs, true⟩ :: x.2)) <$> run text r ip' := by
  rw [run, if_pos hip]; split <;> simp_all

/-- The words a cycle dispatched. -/
def Cycle.words (c : Cycle) : List Nat := c.bundles.flatMap Bundle.words

/-- How many words a cycle dispatched. -/
def Cycle.dispatched (c : Cycle) : Nat := dispatchedOf c.bundles

/-- What a whole run from `ip`, cycle by cycle, looks like in the trace. -/
structure RunSpec (text : Text) (ip : Nat) (cs : List Cycle) : Prop where
  /-- The words were dispatched in text order from `ip`, each once. -/
  words : cs.flatMap Cycle.words = List.range' ip (cs.map Cycle.dispatched).sum
  /-- All of them inside the text. -/
  inside : cs = [] ∨ ip + (cs.map Cycle.dispatched).sum ≤ text.length
  /-- A cycle ends preempted only after a word that is not greedy, having dispatched at
  least `PREEMPTION_THRESHOLD` words, fewer of them before its last bundle began. -/
  preempted : ∀ c ∈ cs, c.preempted = true →
    PREEMPTION_THRESHOLD ≤ c.dispatched ∧
    dispatchedOf c.bundles.dropLast < PREEMPTION_THRESHOLD ∧
    ∃ w, text[c.start + c.dispatched - 1]? = some w ∧ isGreedy w = false

/-- **Every run that ends satisfies `RunSpec`.** -/
theorem run_ok {text : Text} {registers : Registers} {ip : Nat} {r : Registers}
    {cs : List Cycle} (h : run text registers ip = .ok (r, cs)) : RunSpec text ip cs := by
  induction registers, ip using run.induct text generalizing r cs with
  | case1 registers ip hip f hc => rw [run_fault hip hc] at h; cases h
  | case2 registers ip hip r1 bs hc =>
    rw [run_halt hip hc] at h
    simp only [Except.ok.injEq, Prod.mk.injEq] at h
    obtain ⟨-, rfl⟩ := h
    obtain ⟨hw, hin, hne, -⟩ := runCycle_ok hc
    have hin : ip + dispatchedOf bs ≤ text.length :=
      hin.resolve_left (hne (by decide) hip)
    exact ⟨by simpa [Cycle.words, Cycle.dispatched] using hw,
      .inr (by simpa [Cycle.dispatched] using hin), by simp⟩
  | case3 registers ip hip r1 ip' bs hc hend ih =>
    rw [run_preempt hip hc hend] at h
    obtain ⟨⟨r2, cs'⟩, hrec, h⟩ := map_eq_ok.mp h
    simp only [Prod.mk.injEq] at h
    obtain ⟨rfl, rfl⟩ := h
    obtain ⟨iw, iin, ipre⟩ := ih hrec
    obtain ⟨hw, hin, hne, hpre⟩ := runCycle_ok hc
    have hbs := hne (by decide) hip
    have hin := hin.resolve_left hbs
    obtain ⟨rfl, hT, hlast⟩ := hpre hend
    obtain ⟨hlast, w, hw', hg⟩ := hlast hbs
    refine ⟨?_, ?_, ?_⟩
    · simp only [List.flatMap_cons, List.map_cons, List.sum_cons, iw, Cycle.words, hw,
        Cycle.dispatched]
      rw [List.range'_append_1, Nat.add_comm]
    · refine .inr ?_
      simp only [List.map_cons, List.sum_cons, Cycle.dispatched]
      rcases iin with rfl | iin
      · simpa using hin
      · omega
    · intro c hc' hp
      rcases List.mem_cons.mp hc' with rfl | hc'
      · exact ⟨by simpa [Cycle.dispatched] using hT, by simpa using hlast, w, hw', hg⟩
      · exact ipre c hc' hp
  | case4 registers ip hip =>
    rw [show ip = text.length by omega, run_end] at h
    simp only [Except.ok.injEq, Prod.mk.injEq] at h
    obtain ⟨-, rfl⟩ := h
    exact ⟨rfl, .inl rfl, by simp⟩

/-- **A run over a greedy-closed text ends normally** on an unboxed file. -/
theorem run_total {text : Text} (hc : GreedyClosed text) {registers : Registers}
    (hv : Unboxed registers) {ip : Nat} (hip : ip ≤ text.length) :
    ∃ r cs, run text registers ip = .ok (r, cs) := by
  induction registers, ip using run.induct text with
  | case1 registers ip hip' f hcyc =>
    obtain ⟨_, _, _, h, _⟩ := runCycle_total hc hv hip 0
    rw [hcyc] at h; cases h
  | case2 registers ip hip' r1 bs hcyc => exact ⟨_, _, run_halt hip' hcyc⟩
  | case3 registers ip hip' r1 ip' bs hcyc hend ih =>
    obtain ⟨_, _, _, h, hv1, hle⟩ := runCycle_total hc hv hip 0
    rw [hcyc] at h; cases h
    obtain ⟨r, cs, hrec⟩ := ih hv1 hle
    exact ⟨r, _, by rw [run_preempt hip' hcyc hend, hrec]; rfl⟩
  | case4 registers ip hip' => exact ⟨registers, [], by rw [show ip = text.length by omega, run_end]⟩

theorem greedyClosed_of_getLast {text : Text}
    (h : ∀ w ∈ text.getLast?, isGreedy w = false) : GreedyClosed text := by
  intro k w hw hg
  have hk := (List.getElem?_eq_some_iff.mp hw).1
  by_contra hlt
  have hlast : text.getLast? = some w := by
    rw [List.getLast?_eq_getElem?, show text.length - 1 = k by omega, hw]
  simp [h w hlast] at hg

/-- **Preemption falls between greedy bundles.** On a text whose greedy words are all
followed by another word, every run that ends dispatched the words in text order, and
each cycle it preempted ended after a word whose greedy bit is clear, having dispatched at
least `PREEMPTION_THRESHOLD` words and fewer before its last bundle; from an unboxed file,
as `main` gives, the run does end. -/
theorem run_preempts_between_bundles {text : Text} (hc : GreedyClosed text)
    (registers : Registers) {ip : Nat} (hip : ip ≤ text.length) :
    (∀ r cs, run text registers ip = .ok (r, cs) → RunSpec text ip cs) ∧
      (Unboxed registers → ∃ r cs, run text registers ip = .ok (r, cs) ∧ RunSpec text ip cs) :=
  ⟨fun _ _ h => run_ok h, fun hv =>
    let ⟨r, cs, h⟩ := run_total hc hv hip
    ⟨r, cs, h, run_ok h⟩⟩

/-- A greedy `NOOP`, `GREEDY | NOOP`, alone in a text. -/
def greedyNoop : Text := [0x8000#64]

theorem run_preempts_between_bundles_sample :
    GreedyClosed [0x8000#64, 0x0000#64, 0x0002#64] ∧ 0 ≤ 3 ∧
      ((∀ r cs, run [0x8000#64, 0x0000#64, 0x0002#64] Registers.initial 0 = .ok (r, cs) →
          RunSpec [0x8000#64, 0x0000#64, 0x0002#64] 0 cs) ∧
        (Unboxed Registers.initial → ∃ r cs,
          run [0x8000#64, 0x0000#64, 0x0002#64] Registers.initial 0 = .ok (r, cs) ∧
            RunSpec [0x8000#64, 0x0000#64, 0x0002#64] 0 cs)) :=
  have hc : GreedyClosed [0x8000#64, 0x0000#64, 0x0002#64] :=
    greedyClosed_of_getLast (by simp [isGreedy_iff_testBit]; decide)
  ⟨hc, Nat.zero_le _, run_preempts_between_bundles hc Registers.initial (by decide)⟩

/-- **A trailing greedy word reads past the end.** The bundle that starts at the last word
of `greedyNoop` dispatches it, sees its greedy bit, and fetches the word after the text. -/
theorem run_greedyNoop_reads_past_end (registers : Registers) :
    run greedyNoop registers 0 = .error (.fetchPastEnd 1) := by
  have he : execute registers 0x8000#64 0 = .ok (registers, some 1) := by
    have hf : Format.ofOpcode (opcodeOf 0x8000#64) = some .N := by decide
    have hn : opcodeOf 0x8000#64 = OPCODE.NOOP := by decide
    simp only [execute, hf, hn, if_true]; rfl
  have hr : runInstruction greedyNoop registers 0 = .error (.fetchPastEnd 1) := by
    rw [runInstruction_eq]
    simp only [greedyNoop, List.getElem?_cons_zero, he,
      show isGreedy 0x8000#64 = true by decide, if_true]
    rw [runInstruction_eq]; rfl
  exact run_fault (by decide) (runCycle_fault (by decide) hr)

end ViuaVm.Machine.Run
