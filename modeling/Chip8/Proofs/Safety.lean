import Chip8.Proofs.Strict
import Chip8.Proofs.Waiting

/-!
# Safety

The requests of a host once more, with strict instructions, strict use of memory and strict copies.
In a strict session that breaks off nowhere, every register and pixel that is used exists, every part
of memory that is used lies inside, every copy has as many entries on both sides, and no address or
coordinate overflows.

* `run_execute`, `serve?_eq`: inside the bounds, a strict cycle and every strict request do what the
  machine does.
* `session_safe`: along every session nothing breaks off, the bounds hold, and no register is named
  that does not exist.
-/

namespace Chip8

namespace Strict

open Routine (current update note ofExcept)

/-- Copies a program into memory. -/
def load (program : List UInt8) : Strict Unit := do
  onMemory (.load program)
  note (.loaded program.length)

/-- Replaces the state of all keys. -/
def setKeys (keypad : Keypad) : Strict Unit := do
  let m ← current
  let keys ← inLimit (copyInto? m.keypad.keys 0 keyCount keypad.toList)
  update fun m => { m with keypad := ⟨keys⟩ }

/-- Fetches the word at the program counter. -/
def fetch : Strict Word := do
  let m ← current
  let bytes ← onMemory (.read m.pc instructionSize)
  let high ← inLimit bytes[0]?
  let low ← inLimit bytes[1]?
  update fun m => { m with opcode := .ofBytes high low }
  note (.fetched m.pc (.ofBytes high low))
  pure (.ofBytes high low)

/-- Performs the instruction of a word. -/
def performWord (word : Word) : Strict Signal := do
  let instruction ← ofExcept .opcode (Instruction.decode word)
  perform instruction

/-- The routine that ends with this outcome. -/
def ended {α : Type} (o : Outcome α) : Routine α := fun _ =>
  o

/-- Notes down a failure of the instruction at `pc`. -/
def noteFailure {α : Type} (pc : Nat) (a : Strict α) : Strict α := fun m =>
  (a.run m).map fun o => (Machine.noteFailure pc (ended o)).run m

/-- One cycle: fetches, decodes and performs one instruction. -/
def execute : Strict Signal := do
  let m ← current
  noteFailure m.pc do
    let word ← fetch
    performWord word

/-- One cycle, and then one tick of the timers unless the instruction failed. -/
def step : Strict Signal := do
  let signal ← execute
  let _ ← Machine.tick
  pure signal

/-- Up to `n` cycles, ending at the first one that fails or waits for a key; whether the screen
was drawn on. -/
def cycles : Nat → Strict Bool
  | 0 => pure false
  | n + 1 => do
    match ← execute with
    | .wait => pure false
    | .redraw =>
      let _ ← cycles n
      pure true
    | .nothing => cycles n

/-- A frame of up to `n` cycles, with the keys of the host. -/
def frame (n : Nat) (keys : Keypad) (m : Machine) : Option Frame := do
  let ready ← (setKeys keys).run m
  let ran ← (cycles n).run ready.machine
  pure (Machine.frameAround (ended ran) m keys)

end Strict

namespace Machine

/-- Serves a request, unless that breaks off. -/
def serve? (m : Machine) : Request → Option Reply
  | .load program => ((Strict.load program).run m).map (.ofOutcome fun _ => .done)
  | .execute => (Strict.execute.run m).map (.ofOutcome .signal)
  | .step => (Strict.step.run m).map (.ofOutcome .signal)
  -- the timers stop at zero, and keys that do not exist are passed over
  | .tick => some (m.serve .tick)
  | .takeTone => some (m.serve .takeTone)
  | .press key => some (m.serve (.press key))
  | .release key => some (m.serve (.release key))
  | .setKeys keypad => ((Strict.setKeys keypad).run m).map (.ofOutcome fun _ => .done)
  | .frame cycles keys => (Strict.frame cycles keys m).map .ofFrame

/-- The replies of a session, unless one of its requests breaks off. -/
def replies? (m : Machine) : List Request → Option (List Reply)
  | [] => some []
  | r :: rs => do
    let p ← m.serve? r
    let ps ← p.machine.replies? rs
    pure (p :: ps)

end Machine

namespace Strict

variable {m : Machine}

theorem run_load (program : List UInt8) (m : Machine) :
    (load program).run m = some ((Machine.load program).run m) := by
  have hplace : (onMemory (.load program)).run m = _ :=
    congrArg (Option.map _) (Memory.InPlace.run_load m.memory program)
  rcases hp : m.memory.load program with f | memory
  · rw [load, run_bind, hplace, hp, Machine.run_load_of_error hp]
    rfl
  · rw [load, run_bind, hplace, hp, Machine.run_load_of_ok hp]
    rfl

theorem run_setKeys (keypad : Keypad) (m : Machine) :
    (setKeys keypad).run m = some ((Machine.setKeys keypad).run m) := by
  simp [setKeys, Keypad.copyInto?_keys, Machine.setKeys]

theorem run_fetch (m : Machine) : fetch.run m = some (Machine.fetch.run m) := by
  rcases Nat.lt_or_ge memorySize (m.pc + instructionSize) with h | h
  · rw [Machine.run_fetch_of_error (m.memory.readWord_of_lt h)]
    simp [fetch, run_read_of_lt h]
  · rw [Machine.run_fetch_of_ok (Memory.readWord_eq_ok_iff.2 ⟨h, rfl⟩)]
    simp [fetch, run_read_of_le h, Memory.bytesFrom]

theorem run_performWord (word : Word) (hpc : m.pc ≤ highestTarget) :
    (performWord word).run m = some ((Machine.performWord word).run m) := by
  refine run_bind_eq (run_lift _ m) fun i hi => ?_
  rcases hd : Instruction.decode word with u | decoded
  · rw [hd] at hi
    cases hi
  · rw [hd] at hi
    cases hi
    exact run_perform (Instruction.fits_of_decode hd) hpc

/-- **A strict cycle** on a machine inside its bounds does what the cycle does. -/
theorem run_execute (hm : m.Bounded) : execute.run m = some (Machine.execute.run m) := by
  have hpc : (Machine.fetch.run m).machine.pc = m.pc := by
    rcases hw : m.memory.readWord m.pc with f | word
    · rw [Machine.run_fetch_of_error hw]
    · rw [Machine.run_fetch_of_ok hw]
  have hbody : (fetch >>= performWord).run m =
      some ((Machine.fetch >>= Machine.performWord).run m) :=
    run_bind_eq (run_fetch m) fun word _ => run_performWord word (hpc ▸ hm.pc_le)
  refine run_bind_eq (run_lift _ m) fun m' hm' => ?_
  cases hm'
  exact congrArg (Option.map _) hbody

theorem run_step (hm : m.Bounded) : step.run m = some (Machine.step.run m) :=
  run_bind_eq (run_execute hm) fun _ _ => run_bind_eq (run_lift _ _) fun _ _ => rfl

/-- A cycle keeps the bounds. -/
theorem bounded_execute (hm : m.Bounded) : (Machine.execute.run m).machine.Bounded :=
  Moment.bounded_after (e := ⟨m, .execute⟩) trivial hm

/-- **Strict cycles** do what the cycles of a frame do. -/
theorem run_cycles (n : Nat) (hm : m.Bounded) :
    (cycles n).run m = some ((Machine.cycles n).run m) := by
  -- on the cycles that are left, for whatever machine the first one leaves
  induction n generalizing m with
  | zero => rfl
  | succ n ih =>
    rw [Machine.run_cycles_succ, cycles, run_bind, run_execute hm, Option.bind_some]
    refine Outcome.andThen?_eq fun signal _ => ?_
    have hrest := ih (bounded_execute hm)
    cases signal with
    | nothing => exact hrest
    | wait => rfl
    | redraw =>
      dsimp only
      rw [run_bind, hrest, Option.bind_some]
      exact Outcome.andThen?_eq fun _ _ => rfl

theorem frame_eq (n : Nat) (keys : Keypad) (hm : m.Bounded) :
    frame n keys m = some (m.frame n keys) := by
  have hready : ({ m with keypad := keys } : Machine).Bounded :=
    ⟨hm.index_lt, hm.depth_le, hm.entries_le, hm.pc_le⟩
  have hcycles := run_cycles n hready
  rw [frame, run_setKeys, Machine.frame_eq_frameAround]
  show ((cycles n).run { m with keypad := keys }).bind _ = _
  rw [hcycles]
  rfl

end Strict

namespace Machine

variable {m : Machine}

/-- **A strict request** on a machine inside its bounds does what the request does. -/
theorem serve?_eq (hm : m.Bounded) (r : Request) : m.serve? r = some (m.serve r) := by
  cases r with
  | load program => exact congrArg (Option.map _) (Strict.run_load program m)
  | execute => exact congrArg (Option.map _) (Strict.run_execute hm)
  | step => exact congrArg (Option.map _) (Strict.run_step hm)
  | setKeys keypad => exact congrArg (Option.map _) (Strict.run_setKeys keypad m)
  | frame n keys => exact congrArg (Option.map _) (Strict.frame_eq n keys hm)
  | tick | takeTone | press | release => rfl

/-- A request keeps the bounds. -/
theorem bounded_serve (hm : m.Bounded) (r : Request) : (m.serve r).machine.Bounded :=
  (Trail.invariant (fun _ _ he hm => Moment.bounded_after he hm) (trail_history m [r]) hm).2

/-- **A strict session** from a machine inside its bounds replies what the session replies. -/
theorem replies?_eq (hm : m.Bounded) (session : List Request) :
    m.replies? session = some (m.replies session) := by
  induction session generalizing m with
  | nil => rfl
  | cons r rs ih =>
    rw [replies?, serve?_eq hm]
    show ((m.serve r).machine.replies? rs).bind _ = _
    rw [ih (bounded_serve hm r)]
    rfl

end Machine

namespace Moment

variable {e : Moment}

open Machine

/-- An elementary request names only registers that exist. -/
theorem result_ne_noRegister (he : e.request.IsElementary) (x : Nat) :
    e.reply.result ≠ .error (.noRegister x) := by
  intro h
  obtain ⟨m, r⟩ := e
  cases r with
  | execute =>
    have hx := executes m
    have h : (execute.run m).result.map Answer.signal = .error (.noRegister x) := h
    generalize execute.run m = o at hx h
    cases hx with
    | noWord | unknown | performed => cases h
    -- no refusal is about a register
    | refused hw hd hr => cases hr <;> cases h
  | load program =>
    have h : ((load program).run m).result.map (fun _ => Answer.done) = .error (.noRegister x) := h
    rcases hp : m.memory.load program with f | memory
    · rw [run_load_of_error hp] at h
      cases h
    · rw [run_load_of_ok hp] at h
      cases h
  | press key | release key =>
    have h : ((setKey key _).run m).result.map (fun _ => Answer.done) = .error (.noRegister x) := h
    rw [run_setKey] at h
    cases h
  | tick =>
    have h : (tick.run m).result.map Answer.flag = .error (.noRegister x) := h
    rw [run_tick] at h
    cases h
  | takeTone | setKeys => cases h
  | step | frame => exact he.elim

end Moment

namespace Machine

/-- **Nothing ever leaves its limits.** Whatever a host asks of a new machine, with any programs,
keys and random bytes: the strict session breaks off nowhere and gives the same replies, no reply
names a register that does not exist, and at every moment, also inside a frame, the machine is in
bounds before and after, and the program counter is kept by the sixteen bits of a stack entry. -/
theorem session_safe (random : RandomSource) (session : List Request) :
    (boot random).replies? session = some ((boot random).replies session) ∧
    ((boot random).after session).Bounded ∧
    (∀ p ∈ (boot random).replies session, ∀ x, p.result ≠ .error (.noRegister x)) ∧
    ∀ e ∈ (boot random).history session,
      e.machine.Bounded ∧ e.after.Bounded ∧ e.machine.pc.toUInt16.toNat = e.machine.pc := by
  obtain ⟨hmoments, hafter⟩ := bounded_history random session
  refine ⟨replies?_eq (bounded_boot random) session, hafter, fun p hp x hx => ?_, fun e he => ?_⟩
  -- a failed request fails at one of its moments, and there it cannot fail like this
  · obtain ⟨e, he, hfault⟩ := exists_moment_of_error hp hx
    exact Moment.result_ne_noRegister ((trail_history _ session).elementary e he) x hfault
  · obtain ⟨hbefore, hafter⟩ := hmoments e he
    have hpc : e.machine.pc ≤ 4350 := hbefore.pc_le
    exact ⟨hbefore, hafter, Nat.mod_eq_of_lt (show e.machine.pc < 65536 by omega)⟩

/-- A call that is read from a loaded program. -/
theorem session_safe_call :
    let session : List Request := [.load [0x22, 0x00], .execute]
    let e : Moment := ⟨(boot (.repeating #[])).after [.load [0x22, 0x00]], .execute⟩
    (boot (.repeating #[])).replies? session = some ((boot (.repeating #[])).replies session) ∧
      e ∈ (boot (.repeating #[])).history session ∧
      e.machine.Bounded ∧ e.after.Bounded ∧ e.machine.pc.toUInt16.toNat = e.machine.pc := by
  intro session e
  have he : e ∈ (boot (.repeating #[])).history session :=
    List.mem_cons_of_mem _ List.mem_cons_self
  obtain ⟨hstrict, -, -, hsafe⟩ := session_safe (.repeating #[]) session
  exact ⟨hstrict, he, hsafe e he⟩

end Machine

end Chip8
