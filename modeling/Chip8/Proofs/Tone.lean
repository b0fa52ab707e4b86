import Chip8.Proofs.Frames

/-!
# The end of a tone

A tone sounds while the sound timer is not zero. A frame tells the host to stop it if the tick of
the frame takes the timer from one to zero. A program can also silence the tone itself, by a zero
that it stores in the timer, and of that the host is not told.

* `sound_execute`: a cycle leaves the sound timer alone unless it stores a value in it.
* `sound_cycles`: the cycles of a frame leave what they stored last.
* `stopTone_mem_iff`: the host is told of a tone that ends in a frame, unless the program silenced
  it.
* `tone_end_is_signalled`: a tone that ends in a run of frames ends in one of them, and the host is
  told unless the program silenced it there.
-/

namespace Chip8

namespace Timers

theorem countDown_eq_zero_iff {t : UInt8} : countDown t = 0 ↔ t = 0 ∨ t = 1 := by
  have h := toNat_countDown t
  rw [← UInt8.toNat_inj, h, ← UInt8.toNat_inj, ← UInt8.toNat_inj]
  show t.toNat - 1 = 0 ↔ t.toNat = 0 ∨ t.toNat = 1
  omega

theorem endsTone_iff {t : Timers} : t.endsTone = true ↔ t.sound = 1 :=
  beq_iff_eq

end Timers

namespace Instruction

/-- What an instruction stores in the sound timer: only `FX18` stores anything. -/
def soundStore? (r : Registers) : Instruction → Option UInt8
  | setSound x => some (r.valueAt x)
  | _ => none

variable {m m' : Machine} {i : Instruction} {step : Step} {signal : Signal} {log : List Record}
  {e : Fault}

/-- An instruction leaves the sound timer as it was, unless it stores a value in it. -/
theorem Performs.sound_eq (h : Performs m i m' step signal log) :
    m'.timers.sound = (i.soundStore? m.registers).getD m.timers.sound := by
  cases h <;> rfl

/-- An instruction that is refused stores nothing in the sound timer. -/
theorem Refuses.soundStore?_eq_none (h : Refuses m i e) (r : Registers) :
    i.soundStore? r = none := by
  cases h <;> rfl

/-- An instruction does not touch the note that a tone ended. -/
theorem Performs.toneEnded_eq (h : Performs m i m' step signal log) :
    m'.toneEnded = m.toneEnded := by
  cases h <;> rfl

end Instruction

namespace Machine

open Instruction

/-- What a cycle stores in the sound timer, by the instruction that it fetches. -/
def soundStore? (m : Machine) : Option UInt8 :=
  match m.memory.readWord m.pc with
  | .ok w => (ofWord? w).bind (Instruction.soundStore? m.registers)
  | .error _ => none

/-- What the cycles of a frame store in the sound timer, in order. -/
def soundStores (m : Machine) (n : Nat) (keys : Keypad) : List UInt8 :=
  (m.executions [.frame n keys]).filterMap fun e => e.machine.soundStore?

/-- A frame in which a tone ends: it sounds when the frame begins and not any more when it is
over. -/
def ToneEnds (m : Machine) (n : Nat) (keys : Keypad) : Prop :=
  m.timers.sound ≠ 0 ∧ (m.frame n keys).machine.timers.sound = 0

variable {m : Machine} {n : Nat} {keys : Keypad}

/-- The instruction of a cycle decides what the cycle stores in the sound timer. -/
theorem soundStore?_of_decode {w : Word} {i : Instruction} (hw : m.memory.readWord m.pc = .ok w)
    (hd : decode w = .ok i) : m.soundStore? = i.soundStore? m.registers := by
  rw [soundStore?, hw]
  simp only [decode_eq_ok_iff_ofWord?.1 hd, Option.bind_some]

/-- **A cycle leaves the sound timer** as it was, unless it stores a value in it. -/
theorem sound_execute (m : Machine) :
    (execute.run m).machine.timers.sound = m.soundStore?.getD m.timers.sound := by
  have hx := executes m
  generalize execute.run m = o at hx
  cases hx with
  | noWord hlt =>
    rw [soundStore?, m.memory.readWord_of_lt hlt]
    rfl
  | unknown hw hd =>
    rw [soundStore?, hw]
    simp only [hd]
    rfl
  | refused hw hd hr =>
    rw [soundStore?_of_decode hw hd, hr.soundStore?_eq_none]
    rfl
  | performed hw hd hp =>
    rw [soundStore?_of_decode hw hd]
    exact hp.sound_eq

/-- A cycle does not touch the note that a tone ended. -/
theorem toneEnded_execute (m : Machine) : (execute.run m).machine.toneEnded = m.toneEnded := by
  have hx := executes m
  generalize execute.run m = o at hx
  cases hx with
  | noWord | unknown | refused => rfl
  | performed hw hd hp => exact hp.toneEnded_eq

/-- Cycles in a row leave in the sound timer what they stored in it last. -/
theorem sound_after_executes {rs : List Request} (h : ∀ r ∈ rs, r = .execute) (m : Machine) :
    (m.after rs).timers.sound =
      ((m.moments rs).filterMap fun e => e.machine.soundStore?).getLast?.getD m.timers.sound := by
  induction rs generalizing m with
  | nil => rfl
  | cons r rs ih =>
    obtain rfl := h r List.mem_cons_self
    have hrest := ih (fun s hs => h s (List.mem_cons_of_mem _ hs)) (m.serve .execute).machine
    have hfirst : (m.serve .execute).machine.timers.sound = m.soundStore?.getD m.timers.sound :=
      sound_execute m
    rw [after, hrest, hfirst, moments, getLast?_filterMap_cons]

/-- Cycles do not touch the note that a tone ended. -/
theorem toneEnded_cycles (n : Nat) (m : Machine) :
    ((cycles n).run m).machine.toneEnded = m.toneEnded :=
  cycles_unchanged (f := toneEnded) toneEnded_execute n m

/-- **The cycles of a frame leave in the sound timer** what they stored in it last. -/
theorem sound_cycles (m : Machine) (n : Nat) (keys : Keypad) :
    ((cycles n).run { m with keypad := keys }).machine.timers.sound =
      (m.soundStores n keys).getLast?.getD m.timers.sound := by
  rw [← after_cycleRequests, soundStores, executions_frame]
  exact sound_after_executes (elementary_cycleRequests n _) _

/-- **The host is told of a tone that ends in a frame**, unless the program silenced it: unless the
last value that the frame stored in the sound timer is zero. -/
theorem stopTone_mem_iff (hok : (m.frame n keys).result = .ok ()) (hclear : m.toneEnded = false)
    (hends : m.ToneEnds n keys) :
    .stopTone ∈ (m.frame n keys).calls ↔ (m.soundStores n keys).getLast? ≠ some 0 := by
  obtain ⟨redraw, ran, log, hran⟩ := cycles_of_frame_ok hok
  have hframe := frame_of_cycles_ok hran
  have hsound : ran.timers.sound = (m.soundStores n keys).getLast?.getD m.timers.sound := by
    rw [← sound_cycles, hran]
  have hquiet : ran.toneEnded = false := by
    have hsame := toneEnded_cycles n { m with keypad := keys }
    rw [hran] at hsame
    exact hsame.trans hclear
  obtain ⟨hstart, hend⟩ := hends
  have hone : ran.timers.sound = 0 ∨ ran.timers.sound = 1 := by
    rw [hframe] at hend
    exact Timers.countDown_eq_zero_iff.1 hend
  -- the host is told if the tick met a one
  have hcalls : .stopTone ∈ (m.frame n keys).calls ↔ ran.timers.sound = 1 := by
    rw [hframe, hquiet, Bool.false_or, ← Timers.endsTone_iff]
    cases redraw <;> cases ran.timers.endsTone <;> simp
  rw [hcalls]
  rcases hlast : (m.soundStores n keys).getLast? with _ | v <;> rw [hlast] at hsound
  · -- nothing was stored, and the timer was not zero before
    have hsame : ran.timers.sound = m.timers.sound := hsound
    have hlast : ran.timers.sound = 1 := hone.resolve_left (hsame ▸ hstart)
    exact iff_of_true hlast nofun
  · have hstored : ran.timers.sound = v := hsound
    rw [hstored] at hone ⊢
    rcases hone with rfl | rfl
    · decide
    · decide

section Run

variable (m : Machine) (n : Nat) (keys : Nat → Keypad)

/-- A tone that sounds before a frame of a run and not any more before a later one ends in one of
the frames between. -/
theorem exists_toneEnds {i j : Nat} (hij : i ≤ j)
    (hi : (m.beforeFrame n keys i).timers.sound ≠ 0)
    (hj : (m.beforeFrame n keys j).timers.sound = 0) :
    ∃ k, i ≤ k ∧ k < j ∧ (m.beforeFrame n keys k).ToneEnds n (keys k) := by
  induction hij with
  | refl => exact absurd hj hi
  | @step j hij ih =>
    by_cases h : (m.beforeFrame n keys j).timers.sound = 0
    · obtain ⟨k, hik, hkj, hk⟩ := ih h
      exact ⟨k, hik, Nat.lt_succ_of_lt hkj, hk⟩
    · exact ⟨j, hij, Nat.lt_succ_self j, h, hj⟩

/-- After a frame that succeeds, no end of a tone is left that the host was not told of. -/
theorem toneEnded_of_frame_ok {k : Nat} (hok : (m.frameAt n keys k).result = .ok ()) :
    (m.beforeFrame n keys (k + 1)).toneEnded = false := by
  obtain ⟨redraw, ran, log, hran⟩ := cycles_of_frame_ok hok
  rw [beforeFrame, frame_of_cycles_ok hran]

end Run

/-- A frame of two cycles that load a value and store it in the sound timer. -/
theorem frame_of_store (keys : Keypad) {w : Word} {v : UInt8} (h₀ : m.memory.readWord m.pc = .ok w)
    (hd : decode w = .ok (.load 0 v)) (h₂ : m.memory.readWord (m.pc + 2) = .ok 0xF018)
    (hclear : m.toneEnded = false) :
    (m.frame 2 keys).result = .ok () ∧
      (m.frame 2 keys).machine =
        { m with
          keypad := keys, opcode := 0xF018, registers := m.registers.write 0 v, pc := m.pc + 4,
          timers := ⟨Timers.countDown m.timers.delay, Timers.countDown v⟩ } ∧
      (m.frame 2 keys).calls = .readKeys :: if v = 1 then [.stopTone] else [] := by
  let ready : Machine := { m with keypad := keys }
  let loaded : Machine :=
    { ready with opcode := w, registers := m.registers.write 0 v, pc := m.pc + 2 }
  let stored : Machine :=
    { loaded with
      opcode := 0xF018, pc := m.pc + 4,
      timers := { m.timers with sound := (m.registers.write 0 v).valueAt 0 } }
  have hload : execute.run ready = ⟨.ok .nothing, loaded, [.fetched m.pc w]⟩ := by
    have hw : ready.memory.readWord ready.pc = .ok w := h₀
    exact run_of_executes (.performed hw hd (.load v (by decide)))
  have hstore : execute.run loaded = ⟨.ok .nothing, stored, [.fetched (m.pc + 2) 0xF018]⟩ := by
    have hw : loaded.memory.readWord loaded.pc = .ok 0xF018 := h₂
    exact run_of_executes (.performed hw (i := .setSound 0) rfl (.setSound (by decide)))
  have hcycles : (cycles 2).run ready =
      ⟨.ok false, stored, [.fetched m.pc w, .fetched (m.pc + 2) 0xF018]⟩ := by
    rw [run_cycles_succ, hload, Outcome.andThen_ok]
    simp only [run_cycles_succ, hstore, Outcome.andThen_ok, run_cycles_zero]
    rfl
  have hvalue : (m.registers.write 0 v).valueAt 0 = v := by
    rw [Registers.valueAt_write _ _ _ _ (by decide), if_pos rfl]
  rw [frame_of_cycles_ok hcycles]
  refine ⟨rfl, ?_, ?_⟩
  · simp only [stored, loaded, ready, hvalue, hclear, Timers.tick]
  · simp only [stored, loaded, ready, hvalue, hclear, Timers.endsTone_iff, Bool.false_or]
    rfl

/-- A program that starts a tone in its first two cycles, and stores another value in the sound
timer in the next two. -/
def storeTwice (v : UInt8) : List UInt8 :=
  [0x60, 5, 0xF0, 0x18, 0x60, v, 0xF0, 0x18]

/-- The first two frames of this program, of two cycles each. -/
theorem run_of_storeTwice {v : UInt8} (hd : decode (Word.ofBytes 0x60 v) = .ok (.load 0 v)) :
    let m := (boot (.repeating #[])).after [.load (storeTwice v)]
    let keys := fun _ => Keypad.blank
    (∀ k, 0 ≤ k → k ≤ 1 → (m.frameAt 2 keys k).result = .ok ()) ∧
      (m.beforeFrame 2 keys 1).timers.sound = 4 ∧
      (m.beforeFrame 2 keys 2).timers.sound = Timers.countDown v ∧
      (m.frameAt 2 keys 1).calls = .readKeys :: if v = 1 then [.stopTone] else [] := by
  intro m keys
  let memory := Memory.blank.poke programStart (storeTwice v)
  have hm : m = { boot (.repeating #[]) with memory } := by
    have hlength : (storeTwice v).length ≤ 3584 := by simp [storeTwice]
    exact serve_load_machine_of_ok (Memory.load_eq_ok_iff.2 ⟨hlength, rfl⟩)
  have word {k : Nat} {high low : UInt8} (hk : k < 7) (hh : (storeTwice v)[k]? = some high)
      (hl : (storeTwice v)[k + 1]? = some low) :
      m.memory.readWord (m.pc + k) = .ok (Word.ofBytes high low) := by
    rw [hm]
    exact Memory.blank.readWord_poke (show 0x200 + k + 2 ≤ 4096 by omega) hh hl
  have h₀ : m.memory.readWord m.pc = .ok 0x6005 := word (k := 0) (by decide) rfl rfl
  have h₂ : m.memory.readWord (m.pc + 2) = .ok 0xF018 := word (k := 2) (by decide) rfl rfl
  have h₄ : m.memory.readWord (m.pc + 4) = .ok (Word.ofBytes 0x60 v) :=
    word (k := 4) (by decide) rfl rfl
  have h₆ : m.memory.readWord (m.pc + 6) = .ok 0xF018 := word (k := 6) (by decide) rfl rfl
  have hclear : m.toneEnded = false := by rw [hm]; rfl
  clear_value m
  -- the first frame stores a five and counts it down, and the second one goes on from there
  obtain ⟨hok₀, hm₁, -⟩ := frame_of_store .blank (v := 5) h₀ rfl h₂ hclear
  have hm₁ : m.beforeFrame 2 keys 1 = _ := hm₁
  obtain ⟨hok₁, hm₂, hcalls⟩ := frame_of_store (m := m.beforeFrame 2 keys 1) .blank
    (by rw [hm₁]; exact h₄) hd (by rw [hm₁]; exact h₆) (by rw [hm₁]; exact hclear)
  have hm₂ : m.beforeFrame 2 keys 2 = _ := hm₂
  refine ⟨fun k _ hk => ?_, ?_, ?_, hcalls⟩
  · rcases k with _ | _ | k
    · exact hok₀
    · exact hok₁
    · omega
  · have hfive : Timers.countDown 5 = 4 := by decide
    rw [hm₁, ← hfive]
  · rw [hm₂]

/-- **The host is told of a tone that ends**, unless the program silences it. Let the frames from
`i` to `j` of a run succeed, a tone sound after frame `i` and none sound after frame `j`. Then a
tone ends in one of the frames after `i` up to `j`. Each of these frames in which a tone ends tells
the host to stop it, unless the last value that its instructions store in the sound timer is
zero. -/
theorem tone_end_is_signalled (m : Machine) (n : Nat) (keys : Nat → Keypad) {i j : Nat}
    (hij : i < j)
    (hok : ∀ k, i ≤ k → k ≤ j → (m.frameAt n keys k).result = .ok ())
    (hi : (m.beforeFrame n keys (i + 1)).timers.sound ≠ 0)
    (hj : (m.beforeFrame n keys (j + 1)).timers.sound = 0) :
    (∃ k, i < k ∧ k ≤ j ∧ (m.beforeFrame n keys k).ToneEnds n (keys k)) ∧
    ∀ k, i < k → k ≤ j → (m.beforeFrame n keys k).ToneEnds n (keys k) →
      (.stopTone ∈ (m.frameAt n keys k).calls ↔
        ((m.beforeFrame n keys k).soundStores n (keys k)).getLast? ≠ some 0) := by
  constructor
  · obtain ⟨k, hik, hkj, hk⟩ := exists_toneEnds m n keys (Nat.succ_le_succ (Nat.le_of_lt hij)) hi hj
    exact ⟨k, hik, Nat.le_of_lt_succ hkj, hk⟩
  · intro k hik hkj hk
    -- the frame before succeeded too, and told the host of all that there was to tell
    obtain ⟨k, rfl⟩ : ∃ k', k = k' + 1 := ⟨k - 1, by omega⟩
    have hclear := toneEnded_of_frame_ok m n keys (hok k (by omega) (by omega))
    exact stopTone_mem_iff (hok (k + 1) (by omega) hkj) hclear hk

/-- A tone that the second frame ends by its tick. -/
theorem tone_end_is_signalled_by_tick :
    let m := (boot (.repeating #[])).after [.load (storeTwice 1)]
    let keys := fun _ => Keypad.blank
    (∀ k, 0 ≤ k → k ≤ 1 → (m.frameAt 2 keys k).result = .ok ()) ∧
      (m.beforeFrame 2 keys 1).timers.sound ≠ 0 ∧ (m.beforeFrame 2 keys 2).timers.sound = 0 ∧
      .stopTone ∈ (m.frameAt 2 keys 1).calls ∧
      (m.beforeFrame 2 keys 1).ToneEnds 2 (keys 1) ∧
      ((m.beforeFrame 2 keys 1).soundStores 2 (keys 1)).getLast? ≠ some 0 := by
  intro m keys
  obtain ⟨hok, hfour, hzero, hcalls⟩ := run_of_storeTwice (v := 1) rfl
  have hi : (m.beforeFrame 2 keys 1).timers.sound ≠ 0 := by
    rw [hfour]
    decide
  have hj : (m.beforeFrame 2 keys 2).timers.sound = 0 := by
    rw [hzero]
    decide
  have hstop : .stopTone ∈ (m.frameAt 2 keys 1).calls := by
    rw [hcalls]
    decide
  obtain ⟨⟨k, hk, hk', hends⟩, htold⟩ := tone_end_is_signalled m 2 keys Nat.zero_lt_one hok hi hj
  obtain rfl : k = 1 := by omega
  exact ⟨hok, hi, hj, hstop, hends, (htold 1 hk hk' hends).1 hstop⟩

/-- A tone that the second frame silences by a zero: no frame tells the host. -/
theorem silenced_tone_is_not_signalled :
    let m := (boot (.repeating #[])).after [.load (storeTwice 0)]
    let keys := fun _ => Keypad.blank
    (∀ k, 0 ≤ k → k ≤ 1 → (m.frameAt 2 keys k).result = .ok ()) ∧
      (m.beforeFrame 2 keys 1).timers.sound ≠ 0 ∧ (m.beforeFrame 2 keys 2).timers.sound = 0 ∧
      ¬ ∃ k, 0 < k ∧ k ≤ 1 ∧ .stopTone ∈ (m.frameAt 2 keys k).calls := by
  intro m keys
  obtain ⟨hok, hfour, hzero, hcalls⟩ := run_of_storeTwice (v := 0) rfl
  have hi : (m.beforeFrame 2 keys 1).timers.sound ≠ 0 := by
    rw [hfour]
    decide
  have hj : (m.beforeFrame 2 keys 2).timers.sound = 0 := by
    rw [hzero]
    decide
  refine ⟨hok, hi, hj, ?_⟩
  rintro ⟨k, hk, hk', hstop⟩
  obtain rfl : k = 1 := by omega
  rw [hcalls] at hstop
  simp at hstop

end Machine

end Chip8
