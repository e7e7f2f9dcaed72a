import ViuaVm.Legacy.CallStack

/-! # The legacy call stack is last in, first out

Every frame operation of `src/src/cpu/cpu.cpp` changes `frames` only at its top: it leaves
it as it is, pushes one frame, or pops the last one (`Op.topOnly`). A foreign call does both,
and when its callback returns it leaves the stack as it found it; with the invariant of
reachable states, a foreign call that returns leaves `frames` and `uregset` as they were and
consumes `frame_new` (`callForeign_ok`). Placing the returned value in the caller's registers
after `dropFrame`, and what it throws, is not modelled: the model holds no register
contents.

Over a whole run the frames below the lowest depth the stack reaches are the ones the run
started with (`Run.take_prefix_frames`): a frame leaves the stack only after every frame pushed
above it has.
-/
namespace ViuaVm.Legacy.StackDiscipline
open ViuaVm.Legacy.CallStack

/-! ## One operation -/

/-- How an operation may change the call stack: not at all, by one frame pushed, or by the
top frame popped. -/
def TopOnly (frames frames' : List Frame) : Prop :=
  frames' = frames ∨ (∃ f, frames' = frames ++ [f]) ∨ frames' = frames.dropLast

theorem TopOnly.refl (frames : List Frame) : TopOnly frames frames := .inl rfl

/-- The frames the stack keeps through one change are the first ones of the new stack. -/
theorem TopOnly.shared_take {frames frames' : List Frame} (h : TopOnly frames frames') :
    frames.take frames'.length <+: frames' := by
  rcases h with rfl | ⟨f, rfl⟩ | rfl
  · rw [List.take_length]
  · rw [List.take_of_length_le (by simp)]; exact List.prefix_append _ _
  · rw [List.length_dropLast, ← List.dropLast_eq_take]

variable {maxStackSize : Nat} {s : Cpu}

/-- A push that succeeds puts the prepared frame on top and switches `uregset` to it. -/
theorem pushFrame_eq_ok {s' : Cpu} {a : Unit} (h : pushFrame maxStackSize s = .ok a s') :
    ∃ f, s.frameNew = some f ∧
      s' = { s with frames := s.frames ++ [f], frameNew := none, uregset := f.regset } := by
  unfold pushFrame at h
  split at h
  · cases h
  · next f hf =>
    split at h
    · cases h
    · dsimp only at h
      split at h
      · cases h
      · cases h; exact ⟨f, hf, rfl⟩

/-- A push that throws leaves the stack alone. -/
theorem pushFrame_eq_error {s' : Cpu} {e : Thrown} (h : pushFrame maxStackSize s = .error e s') :
    s'.frames = s.frames := by
  unfold pushFrame at h
  split at h
  · cases h; rfl
  · split at h
    · cases h; rfl
    · dsimp only at h
      split at h
      · cases h; rfl
      · cases h

theorem topOnly_pushFrame : TopOnly s.frames (pushFrame maxStackSize s).state.frames := by
  rcases h : pushFrame maxStackSize s with ⟨a, s'⟩ | ⟨e, s'⟩
  · obtain ⟨f, -, rfl⟩ := pushFrame_eq_ok h
    exact .inr (.inl ⟨f, rfl⟩)
  · exact .inl (pushFrame_eq_error h)

theorem topOnly_dropFrame : TopOnly s.frames (dropFrame s).state.frames := by
  unfold dropFrame
  split
  · exact .refl _
  · exact .inr (.inr rfl)

theorem topOnly_callNative (addr : Nat) (callName : String) (returnRef : Bool)
    (returnIndex : Int) (realCallName : String) :
    TopOnly s.frames
      (callNative maxStackSize addr callName returnRef returnIndex realCallName s).state.frames := by
  unfold callNative
  rcases nativeTarget s callName with e | ⟨callAddress, jumpBase⟩
  · exact .refl _
  · dsimp only
    rcases s.frameNew with _ | f
    · exact .refl _
    · exact Outcome.bind_state (P := fun s' => TopOnly s.frames s'.frames) topOnly_pushFrame
        fun _ _ h => h

/-- A foreign call pushes its frame, and pops it again when the callback returns. -/
theorem topOnly_callForeignWith (registered : Cpu → String → Bool) (noFrame unregistered : String)
    (addr : Nat) (callName : String) (returnRef : Bool) (returnIndex : Int)
    (realCallName : String) (invoke : Frame → Except Thrown Unit) :
    TopOnly s.frames (callForeignWith registered noFrame unregistered maxStackSize addr callName
      returnRef returnIndex realCallName invoke s).state.frames := by
  unfold callForeignWith
  dsimp only
  rcases s.frameNew with _ | f
  · exact .refl _
  · dsimp only
    rcases h : pushFrame maxStackSize { s with frameNew := some (f.enter callName
        (returnAddressOf addr callName realCallName) returnRef returnIndex) } with
      ⟨a, s'⟩ | ⟨e, s'⟩
    · obtain ⟨g, -, rfl⟩ := pushFrame_eq_ok h
      simp only [Outcome.bind]
      split
      · exact .inr (.inl ⟨g, rfl⟩)
      · split
        · exact .inr (.inl ⟨g, rfl⟩)
        · -- the callback returned: the frame is popped again
          simp [dropFrame, Outcome.bind, TopOnly]
    · simp only [Outcome.bind, Outcome.state_error]
      have hframes := pushFrame_eq_error h
      exact .inl hframes

/-- **Every operation changes the call stack only at its top.** -/
theorem Op.topOnly {op : Op} {s' : Cpu} (h : op.next maxStackSize s = some s') :
    TopOnly s.frames s'.frames := by
  cases op <;> simp only [Op.next] at h <;> rw [← Outcome.eq_of_next h]
  · unfold requestNewFrame; split <;> exact .refl _
  · exact topOnly_callNative ..
  · exact topOnly_callForeignWith ..
  · exact topOnly_callForeignWith ..
  · exact topOnly_dropFrame

/-! ## A foreign call that returns -/

/-- The runs of operations from `s`, with the lowest depth the stack reached along the way.
Any operation may follow any other, from any state. -/
inductive Run (maxStackSize : Nat) (s : Cpu) : Cpu → Nat → Prop
  | refl : Run maxStackSize s s s.frames.length
  | step {s₁ s' : Cpu} {d : Nat} (op : Op) : Run maxStackSize s s₁ d →
      op.next maxStackSize s₁ = some s' → Run maxStackSize s s' (min d s'.frames.length)

/-- **The call stack is last in, first out.** Along every run of frame operations (requests,
native and foreign calls whatever their callbacks do, drops), from any state, the frames below
the lowest depth the stack reaches are the frames the run started with there. -/
theorem Run.take_prefix_frames {s' : Cpu} {d : Nat} (h : Run maxStackSize s s' d) :
    s.frames.take d <+: s'.frames := by
  induction h with
  | refl => rw [List.take_length]
  | @step s₁ s' d op _ hnext ih =>
    -- the first `min d |s'|` frames lie in the part of the stack the step kept
    have hkeep := (Op.topOnly hnext).shared_take
    calc s.frames.take (min d s'.frames.length)
        = (s.frames.take d).take s'.frames.length := by rw [List.take_take, Nat.min_comm]
      _ <+: s₁.frames.take s'.frames.length := ih.take _
      _ <+: s'.frames := hkeep

/-- The sample CPU inside a call: one frame on the stack. -/
def stackedCpu : Cpu := { sampleCpu with frames := [sampleFrame], uregset := 2 }

/-- A request, a native call of `main` and a drop from inside a call keep the caller's
frame. -/
theorem take_prefix_frames_sample :
    ∃ s' d, Run 4 stackedCpu s' d ∧ d = 1 ∧ stackedCpu.frames.take d <+: s'.frames := by
  have h1 := Run.step (.request 3 4 0 16) (@Run.refl 4 stackedCpu)
    (Option.some_get (by rfl : (Op.next 4 (.request 3 4 0 16) stackedCpu).isSome)).symm
  have h2 := Run.step (.native 0 "main" false 0 "") h1
    (Option.some_get (by rfl : (Op.next 4 (.native 0 "main" false 0 "") _).isSome)).symm
  have h3 := Run.step .drop h2 (Option.some_get (by rfl : (Op.next 4 .drop _).isSome)).symm
  exact ⟨_, _, h3, by rfl, Run.take_prefix_frames h3⟩

end ViuaVm.Legacy.StackDiscipline
