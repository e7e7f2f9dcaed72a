import ViuaVm.Machine.Run

/-! # The scheduler is transparent

`run` of `tools/vm.cpp` dispatches the text in cycles of at most `PREEMPTION_THRESHOLD`
bundles, each bundle a `do`-`while` over greedy words, turning a `nullptr` into `ip_end`
and moving its counter on by the length of each greedy bundle. What it is for is the
machine without its scheduler: dispatch the word at `ip`, then the next, until a word
returns `nullptr` or `ip` reaches `ip_end` (`interpret`).

Each loop of `run` is related to `interpret` by one lemma: from where the loop started,
`interpret` is the loop followed by `interpret` from where the loop stopped, with the
words the loop dispatched added to the count (`interpret_runInstruction`,
`interpret_runCycle`). Every run that ends therefore ends with the registers `interpret`
computes, having dispatched as many words (`run_interpret`); on a greedy-closed text the
two also fail alike, so bundles, counters and preemption change only the trace.
-/
namespace ViuaVm.Machine.Interpret
open ViuaVm.Arch.Ops ViuaVm.Machine.Core ViuaVm.Machine.Run

/-- Adding `k` dispatched words to a result. -/
def addDispatched (k : Nat) (x : Except Fault (Registers × Nat)) : Except Fault (Registers × Nat) :=
  (fun (y : Registers × Nat) => (y.1, y.2 + k)) <$> x

/-- The machine without its scheduler, from `ip`: each word is dispatched in turn until one
returns `nullptr` or the text ends. The result is the registers and the number of words
dispatched. -/
def interpret (text : Text) (registers : Registers) (ip : Nat) :
    Except Fault (Registers × Nat) :=
  if h : ip < text.length then
    match he : execute registers text[ip] ip with
    | .error f => .error f
    | .ok (r, none) => .ok (r, 1)
    | .ok (r, some next) => addDispatched 1 (interpret text r next)
  else .ok (registers, 0)
termination_by text.length - ip
decreasing_by have := execute_next he; omega

@[simp] theorem addDispatched_ok (k : Nat) (r : Registers) (n : Nat) :
    addDispatched k (.ok (r, n)) = .ok (r, n + k) := rfl

@[simp] theorem addDispatched_error (k : Nat) (f : Fault) :
    addDispatched k (.error f) = .error f := rfl

@[simp] theorem addDispatched_zero (x : Except Fault (Registers × Nat)) :
    addDispatched 0 x = x := by
  rcases x with _ | ⟨_, _⟩ <;> rfl

theorem addDispatched_addDispatched (j k : Nat) (x : Except Fault (Registers × Nat)) :
    addDispatched j (addDispatched k x) = addDispatched (k + j) x := by
  rcases x with _ | ⟨_, _⟩ <;> simp [Nat.add_assoc]

/-- What the loops add to a result that fails leaves the failure. -/
theorem map_eq_error {α β : Type} {g : α → β} {x : Except Fault α} {f : Fault} :
    g <$> x = .error f ↔ x = .error f := by
  cases x <;> simp [Functor.map, Except.map]

/-! ## One word at a time -/

theorem interpret_eq (text : Text) (registers : Registers) (ip : Nat) :
    interpret text registers ip =
      match text[ip]? with
      | none => .ok (registers, 0)
      | some word =>
        match execute registers word ip with
        | .error f => .error f
        | .ok (r, none) => .ok (r, 1)
        | .ok (r, some next) => addDispatched 1 (interpret text r next) := by
  rw [interpret]
  rcases hw : text[ip]? with _ | w
  · rw [dif_neg (by simpa [List.getElem?_eq_none_iff] using hw)]
  · obtain ⟨h, rfl⟩ := List.getElem?_eq_some_iff.mp hw
    rw [dif_pos h]
    dsimp only
    rcases he : execute registers text[ip] ip with f | ⟨r, _ | next⟩ <;> rfl

@[simp] theorem interpret_end (text : Text) (registers : Registers) :
    interpret text registers text.length = .ok (registers, 0) := by
  rw [interpret_eq, List.getElem?_eq_none (le_refl _)]

/-- The word at `ip` dispatched, `interpret` goes on from where it returns. -/
theorem interpret_step {text : Text} {registers r : Registers} {ip : Nat} {w : InstructionType}
    {o : Option Nat} (hw : text[ip]? = some w) (he : execute registers w ip = .ok (r, o)) :
    interpret text registers ip = addDispatched 1 (interpret text r (o.getD text.length)) := by
  rw [interpret_eq, hw]
  cases o <;> simp [he]

theorem interpret_fault {text : Text} {registers : Registers} {ip : Nat} {w : InstructionType}
    {f : Fault} (hw : text[ip]? = some w) (he : execute registers w ip = .error f) :
    interpret text registers ip = .error f := by
  rw [interpret_eq, hw]; simp [he]

/-! ## A bundle -/

/-- **A bundle is a stretch of `interpret`**: from `ip`, `interpret` is the bundle followed
by `interpret` from where the bundle returns, `ip_end` standing for `nullptr`. -/
theorem interpret_runInstruction {text : Text} {registers r : Registers} {ip k : Nat}
    {o : Option Nat} (h : runInstruction text registers ip = .ok (r, o, k)) :
    interpret text registers ip = addDispatched k (interpret text r (o.getD text.length)) := by
  induction registers, ip using runInstruction.induct text generalizing r o k with
  | case1 registers ip hw => rw [runInstruction_eq, hw] at h; cases h
  | case2 registers ip w hw f he => rw [runInstruction_eq, hw] at h; simp [he] at h
  | case3 registers ip w hw r' he =>
    rw [runInstruction_eq, hw] at h
    simp only [he] at h
    cases h
    exact interpret_step hw he
  | case4 registers ip w hw r' next he hg ih =>
    rw [runInstruction_greedy hw he hg] at h
    obtain ⟨⟨r'', o', k'⟩, hrec, ⟨⟩⟩ := map_eq_ok.mp h
    rw [interpret_step hw he, Option.getD_some, ih hrec, addDispatched_addDispatched]
  | case5 registers ip w hw r' next he hg =>
    rw [runInstruction_last hw he (Bool.eq_false_iff.mpr hg)] at h
    cases h
    exact interpret_step hw he

/-- On a greedy-closed text a bundle that fails fails as `interpret` does. -/
theorem interpret_runInstruction_error {text : Text} (hc : GreedyClosed text)
    {registers : Registers} {ip : Nat} (hip : ip < text.length) {f : Fault}
    (h : runInstruction text registers ip = .error f) : interpret text registers ip = .error f := by
  induction registers, ip using runInstruction.induct text generalizing f with
  | case1 registers ip hw => simp [List.getElem?_eq_none_iff] at hw; omega
  | case2 registers ip w hw f' he =>
    rw [runInstruction_eq, hw] at h; simp only [he] at h; cases h
    exact interpret_fault hw he
  | case3 registers ip w hw r' he => rw [runInstruction_eq, hw] at h; simp [he] at h
  | case4 registers ip w hw r' next he hg ih =>
    rw [runInstruction_greedy hw he hg] at h
    have hnext := execute_next he
    rw [interpret_step hw he, Option.getD_some,
      ih (by have := hc ip w hw hg; omega) (map_eq_error.mp h)]; rfl
  | case5 registers ip w hw r' next he hg =>
    rw [runInstruction_last hw he (Bool.eq_false_iff.mpr hg)] at h; cases h

/-! ## A cycle -/

/-- **A cycle is a stretch of `interpret`**: from `ip`, `interpret` is the cycle's bundles
followed by `interpret` from where the cycle stopped. -/
theorem interpret_runCycle {text : Text} {registers r : Registers} {ip i ip' : Nat}
    {bs : List Bundle} (h : runCycle text registers ip i = .ok (r, ip', bs)) :
    interpret text registers ip = addDispatched (dispatchedOf bs) (interpret text r ip') := by
  induction registers, ip, i using runCycle.induct text generalizing r ip' bs with
  | case1 registers ip i hc hw => rw [runCycle_fetch_none hc hw] at h; cases h
  | case2 registers ip i hc w hw f hr => rw [runCycle_fault hc hr] at h; cases h
  | case3 registers ip i hc w hw r1 next d hr ip1 =>
    rename_i i1 ih
    rw [runCycle_step hc hw hr] at h
    obtain ⟨⟨r2, ip2, bs'⟩, hrec, ⟨⟩⟩ := map_eq_ok.mp h
    rw [interpret_runInstruction hr, ih hrec, addDispatched_addDispatched, dispatchedOf_cons,
      Nat.add_comm]
  | case4 registers ip i hc =>
    rw [runCycle_stop hc] at h
    cases h
    simp

theorem interpret_runCycle_error {text : Text} (hc : GreedyClosed text) {registers : Registers}
    {ip : Nat} (hip : ip ≤ text.length) {i : Nat} {f : Fault}
    (h : runCycle text registers ip i = .error f) : interpret text registers ip = .error f := by
  induction registers, ip, i using runCycle.induct text generalizing f with
  | case1 registers ip i hcond hw => simp [List.getElem?_eq_none_iff] at hw; omega
  | case2 registers ip i hcond w hw f' hr =>
    rw [runCycle_fault hcond hr] at h; cases h
    exact interpret_runInstruction_error hc (by omega) hr
  | case3 registers ip i hcond w hw r1 next d hr ip1 =>
    rename_i i1 ih
    rw [runCycle_step hcond hw hr] at h
    obtain ⟨-, h2, -, h4⟩ := runInstruction_ok hr
    have hnext : next.getD text.length ≤ text.length := by
      cases next with
      | none => simp
      | some j => have := (h4 j rfl).1; simp; omega
    rw [interpret_runInstruction hr, ih hnext (map_eq_error.mp h)]; rfl
  | case4 registers ip i hcond => rw [runCycle_stop hcond] at h; cases h

/-! ## A run -/

/-- Every run that ends ends as `interpret` does, with as many words dispatched. -/
theorem interpret_run {text : Text} {registers r : Registers} {ip : Nat} {cs : List Cycle}
    (h : run text registers ip = .ok (r, cs)) :
    interpret text registers ip = .ok (r, (cs.map Cycle.dispatched).sum) := by
  induction registers, ip using run.induct text generalizing r cs with
  | case1 registers ip hip f hc => rw [run_fault hip hc] at h; cases h
  | case2 registers ip hip r1 bs hc =>
    rw [run_halt hip hc] at h
    cases h
    simp [interpret_runCycle hc, Cycle.dispatched]
  | case3 registers ip hip r1 ip' bs hc hend ih =>
    rw [run_preempt hip hc hend] at h
    obtain ⟨⟨r2, cs'⟩, hrec, ⟨⟩⟩ := map_eq_ok.mp h
    simp [interpret_runCycle hc, ih hrec, Cycle.dispatched, Nat.add_comm]
  | case4 registers ip hip =>
    obtain rfl : ip = text.length := by omega
    rw [run_end] at h
    cases h
    simp

theorem interpret_run_error {text : Text} (hc : GreedyClosed text) {registers : Registers}
    {ip : Nat} (hip : ip ≤ text.length) {f : Fault} (h : run text registers ip = .error f) :
    interpret text registers ip = .error f := by
  induction registers, ip using run.induct text generalizing f with
  | case1 registers ip hip' f' hcyc =>
    rw [run_fault hip' hcyc] at h; cases h
    exact interpret_runCycle_error hc hip hcyc
  | case2 registers ip hip' r1 bs hcyc => rw [run_halt hip' hcyc] at h; cases h
  | case3 registers ip hip' r1 ip' bs hcyc hend ih =>
    rw [run_preempt hip' hcyc hend] at h
    obtain ⟨-, hin, hne, hpre⟩ := runCycle_ok hcyc
    have hle : ip' ≤ text.length := by
      rw [(hpre hend).1]; exact hin.resolve_left (hne (by decide) hip')
    rw [interpret_runCycle hcyc, ih hle (map_eq_error.mp h)]; rfl
  | case4 registers ip hip' => rw [show ip = text.length by omega, run_end] at h; cases h

/-- **Preemption changes nothing but the trace.** Every run of the scheduler's loops that
ends ends with the registers the machine without a scheduler computes, having dispatched
as many words. On a greedy-closed text, from any `ip` within it, the two agree on every
outcome, faults included. -/
theorem run_interpret (text : Text) (registers : Registers) (ip : Nat) :
    (∀ r cs, run text registers ip = .ok (r, cs) →
      interpret text registers ip = .ok (r, (cs.map Cycle.dispatched).sum)) ∧
    (GreedyClosed text → ip ≤ text.length →
      (fun (x : Registers × List Cycle) => (x.1, (x.2.map Cycle.dispatched).sum)) <$>
        run text registers ip = interpret text registers ip) := by
  refine ⟨fun _ _ => interpret_run, fun hc hip => ?_⟩
  rcases h : run text registers ip with f | ⟨r, cs⟩
  · exact (interpret_run_error hc hip h).symm
  · exact (interpret_run h).symm

/-- A greedy `NOOP` bundled with a `NOOP`, then `EBREAK`: the run from the initial file
ends, and agrees with `interpret` on its registers and on the three words dispatched. -/
theorem run_interpret_sample :
    GreedyClosed [0x8000#64, 0x0000#64, 0x0002#64] ∧ 0 ≤ [0x8000#64, 0x0000#64, 0x0002#64].length ∧
      (∃ r cs, run [0x8000#64, 0x0000#64, 0x0002#64] Registers.initial 0 = .ok (r, cs) ∧
        interpret [0x8000#64, 0x0000#64, 0x0002#64] Registers.initial 0 =
          .ok (r, (cs.map Cycle.dispatched).sum)) ∧
      (fun (x : Registers × List Cycle) => (x.1, (x.2.map Cycle.dispatched).sum)) <$>
          run [0x8000#64, 0x0000#64, 0x0002#64] Registers.initial 0 =
        interpret [0x8000#64, 0x0000#64, 0x0002#64] Registers.initial 0 :=
  have hc : GreedyClosed [0x8000#64, 0x0000#64, 0x0002#64] :=
    greedyClosed_of_getLast (by simp [isGreedy_iff_testBit]; decide)
  have ⟨r, cs, h⟩ := run_total hc unboxed_initial (Nat.zero_le _)
  ⟨hc, Nat.zero_le _, ⟨r, cs, h, (run_interpret _ Registers.initial 0).1 r cs h⟩,
    (run_interpret _ Registers.initial 0).2 hc (Nat.zero_le _)⟩

end ViuaVm.Machine.Interpret
