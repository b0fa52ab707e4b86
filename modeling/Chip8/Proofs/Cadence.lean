import Chip8.Proofs.Core

/-!
# Cadence

The cycles of a session in a row, without what the host does between them. As long as no cycle looks
at timers or keys, the core that the session begins with decides them all: how often the timers
tick, and which keys are pressed, makes no difference to them.

* `observation_eq_of_core`: a cycle shows the same on machines with the same core.
* `Trail.coreTrail`: the cycles of a session lead from core to core.
* `cadence_independent`: two sessions from the same core with equally many cycles show the same.
-/

namespace Chip8

/-- The words that look at a timer or at the keys: `EX9E`, `EXA1`, `FX07` and `FX0A`. -/
def Word.Sensing (w : Nat) : Prop :=
  (w / 0x1000 = 0xE ∧ (w % 0x100 = 0x9E ∨ w % 0x100 = 0xA1)) ∨
  (w / 0x1000 = 0xF ∧ (w % 0x100 = 0x07 ∨ w % 0x100 = 0x0A))

instance : DecidablePred Word.Sensing := fun w =>
  inferInstanceAs (Decidable (
    (w / 0x1000 = 0xE ∧ (w % 0x100 = 0x9E ∨ w % 0x100 = 0xA1)) ∨
    (w / 0x1000 = 0xF ∧ (w % 0x100 = 0x07 ∨ w % 0x100 = 0x0A))))

/-- What a cycle shows: the word that it fetches, its result, and the core that it leaves. -/
structure Observation where
  word : Except Memory.Fault Word
  result : Except Fault Signal
  core : Core

/-- What a cycle at this moment shows. -/
def Moment.observation (e : Moment) : Observation where
  word := e.machine.memory.readWord e.machine.pc
  result := (Machine.execute.run e.machine).result
  core := (Machine.execute.run e.machine).machine.core

/-- `CoreTrail c es c'`: the cycles lead from core to core, from the first to the last. -/
def CoreTrail : Core → List Moment → Core → Prop
  | c, [], c' => c' = c
  | c, e :: es, c' => e.machine.core = c ∧ CoreTrail e.observation.core es c'

/-- A word is sensing if its instruction looks at a timer or at the keys. -/
theorem Word.sensing_of_senses {w : Word} {i : Instruction} (h : Instruction.ofWord? w = some i)
    (hi : i.Senses) : Sensing w.toNat := by
  obtain ⟨hfits, hcode⟩ := Instruction.code_of_ofWord? h
  rw [← hcode]
  cases i with
  | skipIfPressed x =>
    have hx : x < 0x10 := hfits
    refine .inl ⟨?_, .inl ?_⟩ <;> simp only [Instruction.code, Instruction.constCode] <;> omega
  | skipUnlessPressed x =>
    have hx : x < 0x10 := hfits
    refine .inl ⟨?_, .inr ?_⟩ <;> simp only [Instruction.code, Instruction.constCode] <;> omega
  | readDelay x =>
    have hx : x < 0x10 := hfits
    refine .inr ⟨?_, .inl ?_⟩ <;> simp only [Instruction.code, Instruction.constCode] <;> omega
  | awaitKey x =>
    have hx : x < 0x10 := hfits
    refine .inr ⟨?_, .inr ?_⟩ <;> simp only [Instruction.code, Instruction.constCode] <;> omega
  | _ => exact hi.elim

namespace Moment

variable {e f : Moment}

open Machine Instruction

/-- **A cycle that does not look at timers or keys** shows the same on machines with the same
core. -/
theorem observation_eq_of_core (hcore : e.machine.core = f.machine.core)
    (hblind : ∀ w, e.observation.word = .ok w → ¬ Word.Sensing w.toNat) :
    e.observation = f.observation := by
  have hnot : ∀ w i, e.machine.memory.readWord e.machine.pc = .ok w → decode w = .ok i →
      ¬ i.Senses := by
    intro w i hw hd hi
    exact hblind w hw (Word.sensing_of_senses (decode_eq_ok_iff_ofWord?.1 hd) hi)
  obtain ⟨n', hx, hsame⟩ := (executes e.machine).of_core hcore hnot
  have hrun := run_of_executes hx
  have hmemory : e.machine.memory = f.machine.memory := congrArg Core.memory hcore
  have hpc : e.machine.pc = f.machine.pc := congrArg Core.pc hcore
  simp only [observation, hmemory, hpc, hrun, hsame]

end Moment

/-- The cycles of a trail without a load lead from core to core, for nothing else touches it. -/
theorem Trail.coreTrail {m m' : Machine} {es : List Moment} (h : Trail m es m')
    (hload : ∀ e ∈ es, ∀ program, e.request ≠ .load program) :
    CoreTrail m.core (es.filter fun e => e.request.isExecute) m'.core := by
  induction es generalizing m with
  | nil =>
    obtain rfl : m' = m := h
    rfl
  | cons e es ih =>
    obtain ⟨rfl, he, h⟩ := h
    have hrest := ih h fun f hf => hload f (List.mem_cons_of_mem e hf)
    by_cases hx : e.request = .execute
    · have hexec := Request.isExecute_iff.2 hx
      rw [Moment.after_of_execute hx] at hrest
      rw [List.filter_cons, if_pos hexec]
      exact ⟨rfl, hrest⟩
    · have hexec := mt Request.isExecute_iff.1 hx
      have hcore : e.after.core = e.machine.core :=
        Machine.core_serve e.machine he hx (hload e List.mem_cons_self)
      rw [List.filter_cons, if_neg hexec, ← hcore]
      exact hrest

/-- Two rows of cycles from the same core that are equally long show the same, if one of them does
not look at timers or keys. -/
theorem CoreTrail.observations_eq {c c₁ c₂ : Core} {es fs : List Moment} (he : CoreTrail c es c₁)
    (hf : CoreTrail c fs c₂) (hlength : es.length = fs.length)
    (hblind : ∀ e ∈ es, ∀ w, e.observation.word = .ok w → ¬ Word.Sensing w.toNat) :
    es.map Moment.observation = fs.map Moment.observation ∧ c₁ = c₂ := by
  induction es generalizing c fs with
  | nil =>
    obtain rfl := List.length_eq_zero_iff.1 hlength.symm
    exact ⟨rfl, he.trans hf.symm⟩
  | cons e es ih =>
    rcases fs with _ | ⟨f, fs⟩
    · cases hlength
    obtain ⟨hcore, he⟩ := he
    obtain ⟨hcore', hf⟩ := hf
    -- the two first cycles show the same, so the rest starts from the same core again
    have hfirst : e.observation = f.observation :=
      Moment.observation_eq_of_core (hcore.trans hcore'.symm) (hblind e List.mem_cons_self)
    rw [← hfirst] at hf
    obtain ⟨hmap, hlast⟩ := ih he hf (Nat.succ.inj hlength)
      fun g hg => hblind g (List.mem_cons_of_mem e hg)
    rw [List.map_cons, List.map_cons, hfirst, hmap]
    exact ⟨rfl, hlast⟩

namespace Machine

/-- **Timers and keys do not leak into a program that does not ask.** Take two machines with the
same core and a session for each, without loads and with equally many cycles, the host doing what it
likes between them. If no cycle of the first session fetches a word that looks at timers or keys,
the cycles of both fetch the same words, have the same results and leave the same cores. -/
theorem cadence_independent {m n : Machine} {rs ss : List Request} (hcore : m.core = n.core)
    (hrs : ∀ program, .load program ∉ rs) (hss : ∀ program, .load program ∉ ss)
    (hcount : (m.executions rs).length = (n.executions ss).length)
    (hblind : ∀ e ∈ m.executions rs, ∀ w, e.observation.word = .ok w → ¬ Word.Sensing w.toNat) :
    (m.executions rs).map Moment.observation = (n.executions ss).map Moment.observation ∧
      (m.after rs).core = (n.after ss).core := by
  have hm := (trail_history m rs).coreTrail fun e he program hp =>
    hrs program (load_mem_of_mem_history he hp)
  have hn := (trail_history n ss).coreTrail fun e he program hp =>
    hss program (load_mem_of_mem_history he hp)
  rw [← hcore] at hn
  exact hm.observations_eq hn hcount hblind

/-- Two steps, and two cycles with ticks and keys between them. -/
theorem cadence_independent_two_steps :
    let m := { boot (.repeating #[]) with
      memory := Memory.blank.poke programStart [0x60, 0x12, 0x70, 0x01] }
    let n := { m with timers := ⟨3, 9⟩, toneEnded := true }
    let paced : List Request := [.execute, .press 3, .tick, .takeTone, .execute]
    (m.executions [.step, .step]).length = 2 ∧
      (m.executions [.step, .step]).map Moment.observation =
        (n.executions paced).map Moment.observation ∧
      (m.after [.step, .step]).core = (n.after paced).core := by
  intro m n paced
  have h₀ : m.memory.readWord (programStart + 0) = .ok (Word.ofBytes 0x60 0x12) :=
    Memory.blank.readWord_poke (by decide) rfl rfl
  have h₂ : m.memory.readWord (programStart + 2) = .ok (Word.ofBytes 0x70 0x01) :=
    Memory.blank.readWord_poke (by decide) rfl rfl
  -- what the two cycles do, whatever the timers, the keys and the tone are
  let first (t : Timers) (k : Keypad) (b : Bool) : Machine :=
    { m with timers := t, keypad := k, toneEnded := b }
  let second (t : Timers) (k : Keypad) (b : Bool) : Machine :=
    { first t k b with opcode := 0x6012, registers := .write .blank 0 0x12, pc := 0x202 }
  let third (t : Timers) (k : Keypad) (b : Bool) : Machine :=
    { second t k b with
      opcode := 0x7001, registers := .write (.write .blank 0 0x12) 0 0x13, pc := 0x204 }
  have hfirst (t k b) : execute.run (first t k b) =
      ⟨.ok .nothing, second t k b, [.fetched 0x200 0x6012]⟩ := by
    have hw : (first t k b).memory.readWord (first t k b).pc = .ok 0x6012 := h₀
    exact run_of_executes (.performed hw (i := .load 0 0x12) rfl (.load 0x12 (by decide)))
  have hsecond (t k b) : execute.run (second t k b) =
      ⟨.ok .nothing, third t k b, [.fetched 0x202 0x7001]⟩ := by
    have hw : (second t k b).memory.readWord (second t k b).pc = .ok 0x7001 := h₂
    exact run_of_executes (.performed hw (i := .add 0 0x01) rfl (.add 0x01 (by decide)))
  have hsteps : m.executions [.step, .step] =
      [⟨first .blank .blank false, .execute⟩, ⟨second .blank .blank false, .execute⟩] := by
    have hserve : ((first .blank .blank false).serve .step).machine =
        second .blank .blank false := by
      rw [serve_step_machine, run_step_of_ok (by rw [hfirst]), hfirst, run_tick]
      rfl
    show (first .blank .blank false).executions [.step, .step] = _
    simp only [executions, history, breakdown, hserve, hfirst, hsecond]
    rfl
  have hpaced : n.executions paced =
      [⟨first ⟨3, 9⟩ .blank true, .execute⟩,
        ⟨second (.tick ⟨3, 9⟩) (.press .blank 3) false, .execute⟩] := by
    have hserve : ((first ⟨3, 9⟩ .blank true).serve .execute).machine =
        second ⟨3, 9⟩ .blank true := by
      rw [serve_execute_machine, hfirst]
    have hpress : ((second ⟨3, 9⟩ .blank true).serve (.press 3)).machine =
        second ⟨3, 9⟩ (.press .blank 3) true := serve_press_machine _ 3
    have htick : ((second ⟨3, 9⟩ (.press .blank 3) true).serve .tick).machine =
        second (.tick ⟨3, 9⟩) (.press .blank 3) true := serve_tick_machine _
    show (first ⟨3, 9⟩ .blank true).executions paced = _
    simp only [paced, executions, history, breakdown, hserve, hpress, htick]
    rfl
  have hblind : ∀ e ∈ m.executions [.step, .step], ∀ w, e.observation.word = .ok w →
      ¬ Word.Sensing w.toNat := by
    intro e he w hw
    rw [hsteps] at he
    rcases List.mem_cons.1 he with rfl | he
    · obtain rfl : w = 0x6012 := Except.ok.inj (hw.symm.trans h₀)
      decide
    · obtain rfl := List.mem_singleton.1 he
      obtain rfl : w = 0x7001 := Except.ok.inj (hw.symm.trans h₂)
      decide
  have hcount : (m.executions [.step, .step]).length = (n.executions paced).length := by
    rw [hsteps, hpaced]
    rfl
  refine ⟨by rw [hsteps]; rfl, ?_⟩
  exact cadence_independent (m := m) (n := n) rfl (by simp) (by simp [paced]) hcount hblind

end Machine

end Chip8
