import Mathlib

/-! # The call stack of the legacy CPU

`CPU` of `src/src/cpu/cpu.cpp` keeps its call stack in `frames`, the frame being prepared
for the next call in `frame_new`, and the register set instructions address in `uregset`:
the top frame's, or the global `regset` when the stack is empty. `requestNewFrame` prepares a
frame, the calls push it (`callNative`, `callForeign`, `callForeignMethod`, each through
`pushFrame`), and `dropFrame` pops one.

The header `viua/cpu/cpu.h` is not among the sources: the CPU is modelled with the fields
these functions read and write (`Cpu`), `MAX_STACK_SIZE` is a parameter, and a frame is its
address, the address of its register set and the fields a call sets. What the callbacks of
the foreign calls do to registers is left out: `invoke` says only whether they throw.

`pushFrame` tests `frames.size() > MAX_STACK_SIZE` before it pushes, so a run reaches
`MAX_STACK_SIZE + 1` frames (`reachable_max_stack_size_succ`); along every run the stack
holds at most that many, no frame twice, and `uregset` is the top frame's
(`Inv.of_reachable`). The foreign calls push the frame before they look the name up, so a
call to an unregistered name throws with the frame left on the stack
(`callForeign_unregistered`).
-/
namespace ViuaVm.Legacy.CallStack

/-! ## The state -/

/-- What these functions throw: a `new Exception(...)`, which bytecode can catch; a
`std::string` or a C string; the `std::out_of_range` of `at`; and operations whose behaviour
C++ leaves undefined. -/
inductive Thrown
  | exception (message : String)
  | string (message : String)
  | cString (message : String)
  | outOfRange
  | undefined
  deriving DecidableEq, Repr

/-- A frame: its address, the address of the register set it allocates, its sizes, and the
fields a call sets before it pushes the frame. -/
structure Frame where
  addr : Nat
  regset : Nat
  argumentsSize : Nat
  registersSize : Nat
  functionName : String := ""
  returnAddress : Nat := 0
  resolveReturnValueRegister : Bool := false
  placeReturnValueIn : Int := 0
  deriving DecidableEq, Repr

/-- The fields of `CPU` the frame operations read and write. Addresses are numbers; a
bytecode module is its size and the address of its bytes. -/
structure Cpu where
  frames : List Frame
  frameNew : Option Frame
  uregset : Nat
  regset : Nat
  bytecode : Nat
  jumpBase : Nat
  functionAddresses : String → Option Nat
  linkedFunctions : String → Option (String × Nat)
  linkedModules : String → Option (Nat × Nat)
  foreignFunctions : String → Bool
  foreignMethods : String → Bool

/-- The register set `uregset` should be: the top frame's, or the global one. -/
def Cpu.topRegset (s : Cpu) (frames : List Frame) : Nat :=
  match frames.getLast? with
  | some f => f.regset
  | none => s.regset

/-- What an operation leaves: its value or what it threw, and the state, which a throw does
not roll back. -/
inductive Outcome (α : Type)
  | ok (a : α) (s : Cpu)
  | error (e : Thrown) (s : Cpu)

/-- The state an outcome leaves. -/
def Outcome.state {α : Type} : Outcome α → Cpu
  | .ok _ s => s
  | .error _ s => s

@[simp] theorem Outcome.state_ok {α : Type} (a : α) (s : Cpu) : (Outcome.ok a s).state = s := rfl
@[simp] theorem Outcome.state_error {α : Type} (e : Thrown) (s : Cpu) :
    (Outcome.error (α := α) e s).state = s := rfl

/-- Go on with `k` from the state an outcome left, unless it threw. -/
def Outcome.bind {α β : Type} : Outcome α → (α → Cpu → Outcome β) → Outcome β
  | .ok a s, k => k a s
  | .error e s, _ => .error e s

/-- What holds of the state an outcome left holds after going on with a `k` that keeps it. -/
theorem Outcome.bind_state {α β : Type} {P : Cpu → Prop} {r : Outcome α}
    {k : α → Cpu → Outcome β} (h : P r.state) (hk : ∀ a s, P s → P (k a s).state) :
    P (r.bind k).state := by
  cases r with
  | ok a s => exact hk a s h
  | error e s => exact h

/-- The state a run goes on from: none after undefined behaviour. -/
def Outcome.next {α : Type} : Outcome α → Option Cpu
  | .error .undefined _ => none
  | r => some r.state

theorem Outcome.eq_of_next {α : Type} {r : Outcome α} {s : Cpu} (h : r.next = some s) :
    r.state = s := by
  rcases r with _ | ⟨_ | _ | _ | _ | _, _⟩ <;> simp_all [Outcome.next]

/-! ## The frame operations -/

/-- The address of a frame as `ostream` prints a pointer. -/
def hexAddr (addr : Nat) : String := "0x" ++ String.mk (Nat.toDigits 16 addr)

/-- `CPU::requestNewFrame`: `new` put the frame at `addr` and its register set at
`regset`. -/
def requestNewFrame (addr regset argumentsSize registersSize : Nat) (s : Cpu) : Outcome Frame :=
  if s.frameNew.isSome then .error (.cString "requested new frame while last one is unused") s
  else
    let frame : Frame := { addr, regset, argumentsSize, registersSize }
    .ok frame { s with frameNew := some frame }

/-- `CPU::pushFrame`. The size is tested before the push against `MAX_STACK_SIZE` itself,
and `uregset` is switched before the test for a frame pushed twice. -/
def pushFrame (maxStackSize : Nat) (s : Cpu) : Outcome Unit :=
  match s.frameNew with
  | none => .error .undefined s
  | some frameNew =>
    if s.frames.length > maxStackSize then
      .error (.exception ("stack size (" ++ toString maxStackSize ++ ") exceeded with call to \x27" ++
        frameNew.functionName ++ "/" ++ toString frameNew.argumentsSize ++ "\x27")) s
    else
      let s := { s with uregset := frameNew.regset }
      if frameNew.addr ∈ s.frames.map (·.addr) then
        .error (.string ("stack corruption: frame " ++ hexAddr frameNew.addr ++ " for function " ++
          frameNew.functionName ++ "/" ++ toString frameNew.argumentsSize ++
          " pushed more than once")) s
      else .ok () { s with frames := s.frames ++ [frameNew], frameNew := none }

/-- `CPU::dropFrame`: `back` and `pop_back` of an empty stack are undefined. -/
def dropFrame (s : Cpu) : Outcome Unit :=
  if s.frames = [] then .error .undefined s
  else
    let frames := s.frames.dropLast
    .ok () { s with frames, uregset := s.topRegset frames }

/-- The address after a call's operand: the name the call was written with and its NUL. -/
def returnAddressOf (addr : Nat) (callName realCallName : String) : Nat :=
  addr + (if realCallName.utf8ByteSize ≠ 0 then realCallName.utf8ByteSize
    else callName.utf8ByteSize) + 1

/-- What a call sets in `frame_new` before it pushes it. -/
def Frame.enter (f : Frame) (callName : String) (returnAddress : Nat) (returnRef : Bool)
    (returnIndex : Int) : Frame :=
  { f with functionName := callName, returnAddress, resolveReturnValueRegister := returnRef,
           placeReturnValueIn := returnIndex }

@[simp] theorem Frame.addr_enter (f : Frame) (callName : String) (returnAddress : Nat)
    (returnRef : Bool) (returnIndex : Int) :
    (f.enter callName returnAddress returnRef returnIndex).addr = f.addr := rfl
@[simp] theorem Frame.regset_enter (f : Frame) (callName : String) (returnAddress : Nat)
    (returnRef : Bool) (returnIndex : Int) :
    (f.enter callName returnAddress returnRef returnIndex).regset = f.regset := rfl

/-- Where `callNative` jumps and what becomes `jump_base`: a function of the loaded bytecode,
or one of a linked module, found with `at`. -/
def nativeTarget (s : Cpu) (callName : String) : Except Thrown (Nat × Nat) :=
  match s.functionAddresses callName with
  | some offset => .ok (s.bytecode + offset, s.bytecode)
  | none =>
    match s.linkedFunctions callName with
    | none => .error .outOfRange
    | some (module, address) =>
      match s.linkedModules module with
      | none => .error .outOfRange
      | some (_, moduleBytecode) => .ok (address, moduleBytecode)

/-- `CPU::callNative`: returns the address to jump to. -/
def callNative (maxStackSize addr : Nat) (callName : String) (returnRef : Bool)
    (returnIndex : Int) (realCallName : String) (s : Cpu) : Outcome Nat :=
  match nativeTarget s callName with
  | .error e => .error e s
  | .ok (callAddress, jumpBase) =>
    let s := { s with jumpBase }
    match s.frameNew with
    | none => .error (.exception ("function call without first_operand_index frame: use " ++
        "\x60frame 0\x27 in source code if the function takes no parameters")) s
    | some frameNew =>
      let frame := frameNew.enter callName (returnAddressOf addr callName realCallName) returnRef
        returnIndex
      (pushFrame maxStackSize { s with frameNew := some frame }).bind fun () s => .ok callAddress s

/-- The body `callForeign` and `callForeignMethod` share: prepare `frame_new` and push it,
look the name up in `registered`, run the callback (`invoke`: the callback and the reading
of its return value, either of which may throw), and drop the frame. Returns the return
address. Placing the returned value after the drop writes registers, which the model does
not hold, and is left out. -/
def callForeignWith (registered : Cpu → String → Bool) (noFrame unregistered : String)
    (maxStackSize addr : Nat) (callName : String) (returnRef : Bool) (returnIndex : Int)
    (realCallName : String) (invoke : Frame → Except Thrown Unit) (s : Cpu) : Outcome Nat :=
  let returnAddress := returnAddressOf addr callName realCallName
  match s.frameNew with
  | none => .error (.exception noFrame) s
  | some frameNew =>
    let frame := frameNew.enter callName returnAddress returnRef returnIndex
    (pushFrame maxStackSize { s with frameNew := some frame }).bind fun () s =>
      if !registered s callName then .error (.exception (unregistered ++ callName)) s
      else
        match invoke frame with
        | .error e => .error e s
        | .ok () => (dropFrame s).bind fun () s => .ok returnAddress s

/-- `CPU::callForeign`. -/
def callForeign : Nat → Nat → String → Bool → Int → String → (Frame → Except Thrown Unit) →
    Cpu → Outcome Nat :=
  callForeignWith (·.foreignFunctions) ("external function call without a frame: use " ++
    "\x60frame 0\x27 in source code if the function takes no parameters")
    "call to unregistered external function: "

/-- `CPU::callForeignMethod`; the method's object is left out with the registers. -/
def callForeignMethod : Nat → Nat → String → Bool → Int → String →
    (Frame → Except Thrown Unit) → Cpu → Outcome Nat :=
  callForeignWith (·.foreignMethods) "foreign method call without a frame"
    "call to unregistered foreign method: "

/-! ## Runs -/

/-- The operations on the call stack, with what `new` and the callbacks do. -/
inductive Op
  | request (addr regset argumentsSize registersSize : Nat)
  | native (addr : Nat) (callName : String) (returnRef : Bool) (returnIndex : Int)
      (realCallName : String)
  | foreign (addr : Nat) (callName : String) (returnRef : Bool) (returnIndex : Int)
      (realCallName : String) (invoke : Frame → Except Thrown Unit)
  | foreignMethod (addr : Nat) (callName : String) (returnRef : Bool) (returnIndex : Int)
      (realCallName : String) (invoke : Frame → Except Thrown Unit)
  | drop

/-- The state an operation leaves, unless it was undefined behaviour. -/
def Op.next (maxStackSize : Nat) : Op → Cpu → Option Cpu
  | .request addr regset argumentsSize registersSize, s =>
    (requestNewFrame addr regset argumentsSize registersSize s).next
  | .native addr callName returnRef returnIndex realCallName, s =>
    (callNative maxStackSize addr callName returnRef returnIndex realCallName s).next
  | .foreign addr callName returnRef returnIndex realCallName invoke, s =>
    (callForeign maxStackSize addr callName returnRef returnIndex realCallName invoke s).next
  | .foreignMethod addr callName returnRef returnIndex realCallName invoke, s =>
    (callForeignMethod maxStackSize addr callName returnRef returnIndex realCallName invoke
      s).next
  | .drop, s => (dropFrame s).next

/-- What `new` guarantees: the frame it returns is at an address no frame on the stack has. -/
def Op.Fresh (s : Cpu) : Op → Prop
  | .request addr .. => addr ∉ s.frames.map (·.addr)
  | _ => True

/-- The states that runs of operations reach from a CPU with an empty call stack. A run goes
on after an exception, which bytecode can catch, but not after undefined behaviour. -/
inductive Reachable (maxStackSize : Nat) : Cpu → Prop
  | initial {s : Cpu} (hframes : s.frames = []) (hnew : s.frameNew = none)
      (hureg : s.uregset = s.regset) : Reachable maxStackSize s
  | step {s s' : Cpu} (op : Op) : Reachable maxStackSize s → op.Fresh s →
      op.next maxStackSize s = some s' → Reachable maxStackSize s'

/-- A CPU with an empty call stack whose bytecode has `main` at its start. -/
def sampleCpu : Cpu :=
  { frames := [], frameNew := none, uregset := 0, regset := 0, bytecode := 0, jumpBase := 0,
    functionAddresses := fun name => if name = "main" then some 0 else none,
    linkedFunctions := fun _ => none, linkedModules := fun _ => none,
    foreignFunctions := fun _ => false, foreignMethods := fun _ => false }

/-! ## The invariant -/

/-- What holds of every reachable state: at most `MAX_STACK_SIZE + 1` frames, none twice, the
frame being prepared not among them, and `uregset` the top frame's register set. -/
structure Inv (maxStackSize : Nat) (s : Cpu) : Prop where
  length_le : s.frames.length ≤ maxStackSize + 1
  nodup : (s.frames.map (·.addr)).Nodup
  fresh : ∀ f, s.frameNew = some f → f.addr ∉ s.frames.map (·.addr)
  uregset_eq : s.uregset = s.topRegset s.frames

section Inv
variable {maxStackSize : Nat} {s : Cpu}

theorem Inv.initial (hframes : s.frames = []) (hnew : s.frameNew = none)
    (hureg : s.uregset = s.regset) : Inv maxStackSize s :=
  ⟨by simp [hframes], by simp [hframes], by simp [hnew], by simp [hureg, hframes, Cpu.topRegset]⟩

/-- Preparing a frame at a fresh address, or changing the prepared frame but not its
address, keeps the invariant. -/
theorem Inv.setFrameNew (h : Inv maxStackSize s) {f : Frame} (hf : f.addr ∉ s.frames.map (·.addr))
    (jumpBase : Nat) : Inv maxStackSize { s with frameNew := some f, jumpBase } :=
  ⟨h.length_le, h.nodup, by rintro _ ⟨⟩; exact hf, h.uregset_eq⟩

theorem Inv.requestNewFrame (h : Inv maxStackSize s) {addr : Nat}
    (hfresh : addr ∉ s.frames.map (·.addr)) (regset argumentsSize registersSize : Nat) :
    Inv maxStackSize (requestNewFrame addr regset argumentsSize registersSize s).state := by
  unfold CallStack.requestNewFrame
  split
  · exact h
  · exact h.setFrameNew hfresh s.jumpBase

theorem Inv.pushFrame (h : Inv maxStackSize s) : Inv maxStackSize (pushFrame maxStackSize s).state := by
  unfold CallStack.pushFrame
  split
  · exact h
  · next f hf =>
    have hfresh := h.fresh f hf
    split
    · exact h
    · rw [if_neg hfresh, Outcome.state_ok]
      refine ⟨?_, ?_, by simp, ?_⟩
      · simp only [List.length_append, List.length_singleton]; omega
      · rw [List.map_append, List.nodup_append]
        exact ⟨h.nodup, by simp, by simpa using hfresh⟩
      · simp [Cpu.topRegset]

theorem Inv.dropFrame (h : Inv maxStackSize s) : Inv maxStackSize (dropFrame s).state := by
  unfold CallStack.dropFrame
  split
  · exact h
  · have hsub := (List.dropLast_sublist s.frames).map (·.addr)
    refine ⟨?_, h.nodup.sublist hsub, fun f hf hmem => h.fresh f hf (hsub.subset hmem), rfl⟩
    simp only [Outcome.state_ok, List.length_dropLast]
    have := h.length_le
    omega

theorem Inv.callNative (h : Inv maxStackSize s) (addr : Nat) (callName : String)
    (returnRef : Bool) (returnIndex : Int) (realCallName : String) :
    Inv maxStackSize
      (callNative maxStackSize addr callName returnRef returnIndex realCallName s).state := by
  unfold CallStack.callNative
  rcases nativeTarget s callName with e | ⟨callAddress, jumpBase⟩
  · exact h
  · dsimp only
    rcases hf : s.frameNew with _ | f
    · exact ⟨h.length_le, h.nodup, by simp [hf], h.uregset_eq⟩
    · have hnew := h.setFrameNew (f := f.enter callName (returnAddressOf addr callName realCallName)
        returnRef returnIndex) (h.fresh f hf) jumpBase
      exact Outcome.bind_state hnew.pushFrame fun _ _ h' => h'

theorem Inv.callForeignWith (h : Inv maxStackSize s) (registered : Cpu → String → Bool)
    (noFrame unregistered : String) (addr : Nat) (callName : String) (returnRef : Bool)
    (returnIndex : Int) (realCallName : String) (invoke : Frame → Except Thrown Unit) :
    Inv maxStackSize (callForeignWith registered noFrame unregistered maxStackSize addr callName
      returnRef returnIndex realCallName invoke s).state := by
  unfold CallStack.callForeignWith
  dsimp only
  rcases hf : s.frameNew with _ | f
  · exact h
  · have hnew := h.setFrameNew (f := f.enter callName (returnAddressOf addr callName realCallName)
      returnRef returnIndex) (h.fresh f hf) s.jumpBase
    refine Outcome.bind_state hnew.pushFrame fun _ s' h' => ?_
    split
    · exact h'
    · split
      · exact h'
      · exact Outcome.bind_state h'.dropFrame fun _ _ h'' => h''

/-- **The invariant holds along every run.** -/
theorem Inv.next (h : Inv maxStackSize s) {op : Op} (hfresh : op.Fresh s) {s' : Cpu}
    (hnext : op.next maxStackSize s = some s') : Inv maxStackSize s' := by
  cases op <;> simp only [Op.next] at hnext <;> rw [← Outcome.eq_of_next hnext]
  · exact h.requestNewFrame hfresh _ _ _
  · exact h.callNative ..
  · exact h.callForeignWith ..
  · exact h.callForeignWith ..
  · exact h.dropFrame

/-- **Every reachable state has at most `MAX_STACK_SIZE + 1` frames, none twice, and
`uregset` is the top frame's register set, or the global one when the stack is empty.** -/
theorem Inv.of_reachable (h : Reachable maxStackSize s) : Inv maxStackSize s := by
  induction h with
  | initial hframes hnew hureg => exact .initial hframes hnew hureg
  | step op _ hfresh hnext ih => exact ih.next hfresh hnext

/-- Runs start at the sample CPU, and the invariant holds there. -/
theorem Inv.of_reachable_sample : Reachable 4 sampleCpu ∧ Inv 4 sampleCpu :=
  ⟨.initial rfl rfl rfl, Inv.of_reachable (.initial rfl rfl rfl)⟩

end Inv

/-! ## Successful operations -/

section Steps
variable {maxStackSize : Nat} {s : Cpu}

theorem requestNewFrame_ok (hnew : s.frameNew = none) (addr regset argumentsSize registersSize : Nat) :
    requestNewFrame addr regset argumentsSize registersSize s =
      .ok { addr, regset, argumentsSize, registersSize }
        { s with frameNew := some { addr, regset, argumentsSize, registersSize } } := by
  simp [requestNewFrame, hnew]

/-- A frame not on the stack is pushed onto a stack of at most `MAX_STACK_SIZE` frames. -/
theorem pushFrame_ok {f : Frame} (hnew : s.frameNew = some f)
    (hlen : s.frames.length ≤ maxStackSize) (hfresh : f.addr ∉ s.frames.map (·.addr)) :
    pushFrame maxStackSize s =
      .ok () { s with frames := s.frames ++ [f], frameNew := none, uregset := f.regset } := by
  simp only [pushFrame, hnew, gt_iff_lt, Nat.not_lt.mpr hlen, if_false, hfresh]

theorem callNative_ok {f : Frame} {callName : String} {offset : Nat}
    (hcallee : s.functionAddresses callName = some offset) (hnew : s.frameNew = some f)
    (hlen : s.frames.length ≤ maxStackSize) (hfresh : f.addr ∉ s.frames.map (·.addr))
    (addr : Nat) (returnRef : Bool) (returnIndex : Int) (realCallName : String) :
    callNative maxStackSize addr callName returnRef returnIndex realCallName s =
      .ok (s.bytecode + offset)
        { s with jumpBase := s.bytecode, frameNew := none, uregset := f.regset,
                 frames := s.frames ++
                   [f.enter callName (returnAddressOf addr callName realCallName) returnRef
                     returnIndex] } := by
  simp only [callNative, nativeTarget, hcallee, hnew]
  rw [pushFrame_ok (s := { s with jumpBase := s.bytecode, frameNew := some (f.enter callName
    (returnAddressOf addr callName realCallName) returnRef returnIndex) }) rfl hlen hfresh]
  rfl

/-- A request and a native call, from a state with no frame prepared and room on the stack,
push one frame. -/
theorem reachable_push (hs : Reachable maxStackSize s) (hnew : s.frameNew = none)
    (hlen : s.frames.length ≤ maxStackSize) {callName : String} {offset : Nat}
    (hcallee : s.functionAddresses callName = some offset) :
    ∃ s', Reachable maxStackSize s' ∧ s'.frames.length = s.frames.length + 1 ∧
      s'.frameNew = none ∧ s'.functionAddresses = s.functionAddresses := by
  -- `new` returns an address above every address on the stack
  have hfresh : (s.frames.map (·.addr)).sum + 1 ∉ s.frames.map (·.addr) := fun h => by
    have := List.le_sum_of_mem h; omega
  let frame : Frame :=
    { addr := (s.frames.map (·.addr)).sum + 1, regset := 0, argumentsSize := 0, registersSize := 0 }
  have hs1 : Reachable maxStackSize { s with frameNew := some frame } :=
    .step (.request _ 0 0 0) hs hfresh (by rw [Op.next, requestNewFrame_ok hnew]; rfl)
  have hcall := callNative_ok (s := { s with frameNew := some frame })
    hcallee rfl hlen hfresh 0 false 0 ""
  refine ⟨_, .step (.native 0 callName false 0 "") hs1 trivial (by rw [Op.next, hcall]; rfl),
    ?_, ?_, ?_⟩ <;> simp

end Steps

/-! ## The stack limit and the foreign calls -/

/-- **A run reaches `MAX_STACK_SIZE + 1` frames.** From every CPU with an empty call stack and
a function it can call, `MAX_STACK_SIZE + 1` frame requests and native calls all succeed:
before the last push the stack holds `MAX_STACK_SIZE` frames, which the test
`frames.size() > MAX_STACK_SIZE` lets through. -/
theorem reachable_max_stack_size_succ (maxStackSize : Nat) {start : Cpu}
    (hframes : start.frames = []) (hnew : start.frameNew = none)
    (hureg : start.uregset = start.regset) {callName : String} {offset : Nat}
    (hcallee : start.functionAddresses callName = some offset) :
    ∃ s, Reachable maxStackSize s ∧ s.frames.length = maxStackSize + 1 := by
  have hdepth : ∀ n ≤ maxStackSize + 1, ∃ s, Reachable maxStackSize s ∧ s.frames.length = n ∧
      s.frameNew = none ∧ s.functionAddresses = start.functionAddresses := by
    intro n hn
    induction n with
    | zero => exact ⟨start, .initial hframes hnew hureg, by simp [hframes], hnew, rfl⟩
    | succ n ih =>
      obtain ⟨s, hs, hlen, hnew', htab⟩ := ih (by omega)
      obtain ⟨s', hs', hlen', hnew'', htab'⟩ :=
        reachable_push hs hnew' (by omega) (by rw [htab]; exact hcallee)
      exact ⟨s', hs', by omega, hnew'', htab'.trans htab⟩
  obtain ⟨s, hs, hlen, -⟩ := hdepth (maxStackSize + 1) le_rfl
  exact ⟨s, hs, hlen⟩

/-- With a limit of 4 frames, a run reaches 5. -/
theorem reachable_max_stack_size_succ_sample :
    (sampleCpu.frames = [] ∧ sampleCpu.frameNew = none ∧ sampleCpu.uregset = sampleCpu.regset ∧
      sampleCpu.functionAddresses "main" = some 0) ∧
      ∃ s, Reachable 4 s ∧ s.frames.length = 4 + 1 :=
  ⟨⟨rfl, rfl, rfl, rfl⟩,
    @reachable_max_stack_size_succ 4 sampleCpu rfl rfl rfl "main" 0 rfl⟩

/-- A foreign call to a name `registered` does not have throws with the frame it prepared
pushed, whatever the callback would have done. -/
theorem callForeignWith_unregistered {maxStackSize : Nat} {s : Cpu} {f : Frame}
    (hnew : s.frameNew = some f) (hlen : s.frames.length ≤ maxStackSize)
    (hfresh : f.addr ∉ s.frames.map (·.addr)) {registered : Cpu → String → Bool}
    {noFrame unregistered : String} (addr : Nat) (callName : String) (returnRef : Bool)
    (returnIndex : Int) (realCallName : String) (invoke : Frame → Except Thrown Unit)
    (hreg : registered { s with
        frames := s.frames ++
          [f.enter callName (returnAddressOf addr callName realCallName) returnRef returnIndex],
        frameNew := none, uregset := f.regset } callName = false) :
    callForeignWith registered noFrame unregistered maxStackSize addr callName returnRef
        returnIndex realCallName invoke s =
      .error (.exception (unregistered ++ callName)) { s with
        frames := s.frames ++
          [f.enter callName (returnAddressOf addr callName realCallName) returnRef returnIndex],
        frameNew := none, uregset := f.regset } := by
  simp only [callForeignWith, hnew]
  rw [pushFrame_ok (s := { s with frameNew := some (f.enter callName
    (returnAddressOf addr callName realCallName) returnRef returnIndex) }) rfl hlen hfresh]
  simp only [Outcome.bind, Frame.regset_enter, hreg, Bool.not_false, if_true]

/-- **A foreign call to an unregistered name leaves its frame on the stack.** From every
state with a frame prepared, room on the stack and the frame not on it, `callForeign` of a
name with no registered function, and `callForeignMethod` of a name with no registered method,
throw after `pushFrame`: the stack has the frame on top, `frame_new` is empty and `uregset`
is the frame's register set. -/
theorem callForeign_unregistered {maxStackSize : Nat} {s : Cpu} {f : Frame}
    (hnew : s.frameNew = some f) (hlen : s.frames.length ≤ maxStackSize)
    (hfresh : f.addr ∉ s.frames.map (·.addr)) (addr : Nat) (callName : String)
    (returnRef : Bool) (returnIndex : Int) (realCallName : String)
    (invoke : Frame → Except Thrown Unit) :
    (s.foreignFunctions callName = false →
      callForeign maxStackSize addr callName returnRef returnIndex realCallName invoke s =
        .error (.exception ("call to unregistered external function: " ++ callName)) { s with
          frames := s.frames ++
            [f.enter callName (returnAddressOf addr callName realCallName) returnRef returnIndex],
          frameNew := none, uregset := f.regset }) ∧
    (s.foreignMethods callName = false →
      callForeignMethod maxStackSize addr callName returnRef returnIndex realCallName invoke s =
        .error (.exception ("call to unregistered foreign method: " ++ callName)) { s with
          frames := s.frames ++
            [f.enter callName (returnAddressOf addr callName realCallName) returnRef returnIndex],
          frameNew := none, uregset := f.regset }) :=
  ⟨fun hreg => callForeignWith_unregistered hnew hlen hfresh addr callName returnRef returnIndex
      realCallName invoke hreg,
    fun hreg => callForeignWith_unregistered hnew hlen hfresh addr callName returnRef returnIndex
      realCallName invoke hreg⟩

/-- A frame prepared on the sample CPU, at address 1 with its register set at 2. -/
def sampleFrame : Frame := { addr := 1, regset := 2, argumentsSize := 0, registersSize := 16 }

/-- On the sample CPU, where no foreign function is registered, calling `puts` throws with
the frame on the stack, `frame_new` empty and `uregset` the frame's register set. -/
theorem callForeign_unregistered_sample :
    ({ sampleCpu with frameNew := some sampleFrame } : Cpu).frameNew = some sampleFrame ∧
      ({ sampleCpu with frameNew := some sampleFrame } : Cpu).frames.length ≤ 4 ∧
      sampleFrame.addr ∉ ({ sampleCpu with frameNew := some sampleFrame } : Cpu).frames.map (·.addr) ∧
      callForeign 4 0 "puts" false 0 "" (fun _ => .ok ()) { sampleCpu with frameNew := some sampleFrame } =
        .error (.exception "call to unregistered external function: puts")
          { sampleCpu with frames := [sampleFrame.enter "puts" 5 false 0], uregset := 2 } :=
  ⟨rfl, by decide, by decide,
    (@callForeign_unregistered 4 _ _ rfl (by decide) (by decide) 0 "puts" false 0 ""
      fun _ => .ok ()).1 rfl⟩

end ViuaVm.Legacy.CallStack
