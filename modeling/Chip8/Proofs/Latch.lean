import Chip8.Proofs.Pace
import Mathlib.Data.List.DropRight

/-!
# The latch of the tone

A tick that meets a sound timer of one ends the tone. The machine remembers this until the host asks
for it, and forgets it with the answer.

* `Moment.toneEnded_after`: how an elementary request moves the latch.
* `Trail.toneEnded_eq`: the latch is set if a tick since the last question ended a tone.
* `Trail.exists_store`: a sound timer that was zero and is not any more was stored in.
* `tone_told_once`: what the host is told when it asks, and how often a tone can end.
-/

namespace Chip8

/-- Whether a request asks for the end of a tone. -/
def Request.asksTone : Request → Bool
  | takeTone => true
  | _ => false

/-- The moments since the host last asked for the end of a tone, all if it never did. -/
def sinceAsked (es : List Moment) : List Moment :=
  es.rtakeWhile fun e => !e.request.asksTone

namespace Moment

open Machine

variable {e : Moment}

/-- Whether this is a tick that ends a tone: one that meets a sound timer of one. -/
def endsTone (e : Moment) : Bool :=
  e.request.isTick && e.machine.timers.sound == 1

theorem endsTone_iff : e.endsTone = true ↔ e.request = .tick ∧ e.machine.timers.sound = 1 := by
  obtain ⟨m, r⟩ := e
  cases r <;> simp [endsTone, Request.isTick]

/-- **An elementary request** clears the latch if it asks for it, and sets it if it ends a tone. -/
theorem toneEnded_after (he : e.request.IsElementary) :
    e.after.toneEnded =
      if e.request.asksTone then false else e.machine.toneEnded || e.endsTone := by
  obtain ⟨m, r⟩ := e
  unfold after reply
  -- only the question clears it and only a tick sets it, so nothing else has an end to report
  cases r with
  | execute =>
    rw [serve_execute_machine, toneEnded_execute]
    exact (Bool.or_false _).symm
  | tick =>
    rw [serve_tick_machine]
    rfl
  | load program =>
    rcases hp : m.memory.load program with f | memory
    · rw [serve_load_machine_of_error hp]
      exact (Bool.or_false _).symm
    · rw [serve_load_machine_of_ok hp]
      exact (Bool.or_false _).symm
  | press key =>
    rw [serve_press_machine]
    exact (Bool.or_false _).symm
  | release key =>
    rw [serve_release_machine]
    exact (Bool.or_false _).symm
  | setKeys keys =>
    rw [serve_setKeys_machine]
    exact (Bool.or_false _).symm
  | takeTone => rfl
  | step | frame _ _ => exact he.elim

/-- A tick that ends a tone leaves the sound timer at zero. -/
theorem sound_after_of_endsTone (h : e.endsTone = true) : e.after.timers.sound = 0 := by
  obtain ⟨m, r⟩ := e
  obtain ⟨rfl, hone⟩ := endsTone_iff.1 h
  have hone : m.timers.sound = 1 := hone
  show (m.serve .tick).machine.timers.sound = 0
  rw [serve_tick_machine]
  exact Timers.countDown_eq_zero_iff.2 (.inr hone)

/-- An instruction that stores `VX` in the sound timer leaves that value in it. -/
theorem sound_after_of_performs {x : Nat} (h : e.Performs (.setSound x)) :
    e.after.timers.sound = e.machine.registers.valueAt x := by
  obtain ⟨w, m', step, signal, log, hpc, hp, hafter⟩ := performs_cases h
  cases hp
  rw [hafter]

/-- A sound timer of zero stays at zero, unless another value is stored in it. -/
theorem sound_after_eq_zero (he : e.request.IsElementary) (hzero : e.machine.timers.sound = 0)
    (hs : ∀ x, e.Performs (.setSound x) → e.machine.registers.valueAt x = 0) :
    e.after.timers.sound = 0 := by
  by_cases hstore : ∃ x, e.Performs (.setSound x)
  · obtain ⟨x, hx⟩ := hstore
    rw [sound_after_of_performs hx]
    exact hs x hx
  · have hsound := timer_after (t := .sound) he fun x hx => hstore ⟨x, hx⟩
    have hzero : (Timer.sound.value e.machine.timers).toNat = 0 := congrArg UInt8.toNat hzero
    rw [hzero, Nat.zero_sub] at hsound
    exact UInt8.toNat_inj.1 hsound

end Moment

namespace Trail

variable {m m' : Machine} {es : List Moment}

/-- **The latch along a trail** that starts with a clear one is set if a tick since the host last
asked ended a tone. -/
theorem toneEnded_eq (h : Trail m es m') (hclear : m.toneEnded = false) :
    m'.toneEnded = (sinceAsked es).any Moment.endsTone := by
  -- from the last moment back, for the last question is what counts
  induction es using List.reverseRecOn generalizing m' with
  | nil =>
    obtain rfl : m' = m := h
    exact hclear
  | append_singleton es e ih =>
    obtain ⟨m₁, hes, rfl, he, rfl⟩ := append_iff.1 h
    have hlatch := ih hes
    rw [Moment.toneEnded_after he, hlatch]
    unfold sinceAsked
    by_cases hask : e.request.asksTone = true
    · rw [List.rtakeWhile_concat_neg _ _ _ (by simp [hask]), if_pos hask]
      rfl
    · rw [List.rtakeWhile_concat_pos _ _ _ (by simp [hask]), if_neg hask]
      simp

/-- **A sound timer that was zero and is not any more** was stored in. -/
theorem exists_store (h : Trail m es m') (hzero : m.timers.sound = 0)
    (hne : m'.timers.sound ≠ 0) :
    ∃ e ∈ es, ∃ x, e.Performs (.setSound x) ∧ e.machine.registers.valueAt x ≠ 0 := by
  by_contra hnone
  push Not at hnone
  have hkept := invariant (P := fun m => m.timers.sound = 0)
    (fun e he hel hz => Moment.sound_after_eq_zero hel hz (hnone e he)) h hzero
  exact hne hkept.2

/-- **Along a trail without stores** in the sound timer at most one tick ends a tone, and none if
the timer is zero at the start. -/
theorem countP_endsTone_le (h : Trail m es m')
    (hs : ∀ e ∈ es, ∀ x, ¬ e.Performs (.setSound x)) :
    es.countP Moment.endsTone ≤ if m.timers.sound = 0 then 0 else 1 := by
  induction es generalizing m with
  | nil => exact Nat.zero_le _
  | cons e es ih =>
    obtain ⟨rfl, he, h⟩ := h
    have hfirst := hs e List.mem_cons_self
    have hrest := ih h fun f hf => hs f (List.mem_cons_of_mem e hf)
    rw [List.countP_cons]
    by_cases hends : e.endsTone = true
    · -- the timer was one, and it is zero from here on
      have hone : e.machine.timers.sound = 1 := (Moment.endsTone_iff.1 hends).2
      have hne : e.machine.timers.sound ≠ 0 := by
        rw [hone]
        decide
      rw [if_pos (Moment.sound_after_of_endsTone hends)] at hrest
      rw [if_pos hends, if_neg hne]
      omega
    · rw [if_neg hends]
      by_cases hzero : e.machine.timers.sound = 0
      · have hafter := Moment.sound_after_eq_zero he hzero fun x hx => absurd hx (hfirst x)
        rw [if_pos hafter] at hrest
        rw [if_pos hzero]
        exact hrest
      · rw [if_neg hzero]
        split at hrest
        · omega
        · exact hrest

end Trail

namespace Machine

/-- **The host is told of each end of a tone once.** After any session, the answer to the question
for the tone is whether a tick since the last question, or since power-on, ended a tone: whether it
met a sound timer of one. Between two ticks of a session that end a tone, an instruction stored a
value other than zero in the sound timer, and in a stretch of a session that stores nothing in the
timer at most one tick ends a tone. -/
theorem tone_told_once (random : RandomSource) (session : List Request) :
    let es := (boot random).history session
    (((boot random).after session).serve .takeTone).result =
        .ok (.flag ((sinceAsked es).any Moment.endsTone)) ∧
      (∀ (before : List Moment) (first : Moment) (between : List Moment) (second : Moment) later,
        es = before ++ first :: (between ++ second :: later) →
        first.endsTone = true → second.endsTone = true →
        ∃ e ∈ between, ∃ x, e.Performs (.setSound x) ∧ e.machine.registers.valueAt x ≠ 0) ∧
      ∀ before stretch later, es = before ++ (stretch ++ later) →
        (∀ e ∈ stretch, ∀ x, ¬ e.Performs (.setSound x)) →
        stretch.countP Moment.endsTone ≤ 1 := by
  intro es
  have htrail : Trail (boot random) es ((boot random).after session) := trail_history _ _
  refine ⟨?_, ?_, ?_⟩
  · rw [← htrail.toneEnded_eq rfl]
    rfl
  · intro before first between second later hes hfirst hsecond
    rw [hes, Trail.append_iff] at htrail
    obtain ⟨m₁, -, rfl, -, htrail⟩ := htrail
    obtain ⟨m₂, hbetween, rfl, -, -⟩ := Trail.append_iff.1 htrail
    have hzero := Moment.sound_after_of_endsTone hfirst
    have hone : second.machine.timers.sound = 1 := (Moment.endsTone_iff.1 hsecond).2
    have hne : second.machine.timers.sound ≠ 0 := by
      rw [hone]
      decide
    exact hbetween.exists_store hzero hne
  · intro before stretch later hes hs
    rw [hes, Trail.append_iff] at htrail
    obtain ⟨m₁, -, htrail⟩ := htrail
    obtain ⟨m₂, hstretch, -⟩ := Trail.append_iff.1 htrail
    have hcount := hstretch.countP_endsTone_le hs
    split at hcount
    · omega
    · exact hcount

/-- A step whose cycle succeeds is a cycle and a tick. -/
theorem history_step_of_ok {m : Machine} {signal : Signal}
    (h : (execute.run m).result = .ok signal) (rs : List Request) :
    m.history (.step :: rs) =
      ⟨m, .execute⟩ :: ⟨(execute.run m).machine, .tick⟩ ::
        ((execute.run m).machine.serve .tick).machine.history rs := by
  have hserve : (m.serve .step).machine = ((execute.run m).machine.serve .tick).machine := by
    rw [serve_step_machine, run_step_of_ok h]
    rfl
  rw [history, hserve, breakdown, h]
  rfl

/-- A program that stores a one in the sound timer in two steps, each of which ends the tone by its
own tick. -/
theorem tone_told_once_two_stores :
    let m := boot (.repeating #[])
    let session := [.load [0x60, 0x01, 0xF0, 0x18, 0xF0, 0x18], .step, .step, .step, .tick]
    ((m.after session).serve .takeTone).result = .ok (.flag true) ∧
      ∃ before first between second idle,
        m.history session = before ++ first :: (between ++ [second, idle]) ∧
        first.endsTone = true ∧ second.endsTone = true ∧
        (∃ e ∈ between, ∃ x, e.Performs (.setSound x) ∧ e.machine.registers.valueAt x ≠ 0) ∧
        (∀ e ∈ [second, idle], ∀ x, ¬ e.Performs (.setSound x)) ∧
        [second, idle].countP Moment.endsTone ≤ 1 := by
  intro m session
  let program : List UInt8 := [0x60, 0x01, 0xF0, 0x18, 0xF0, 0x18]
  let memory := m.memory.poke programStart program
  have hfit : program.length ≤ programCapacity := by decide
  have h₀ : memory.readWord 0x200 = .ok 0x6001 :=
    m.memory.readWord_program (k := 0) hfit rfl rfl
  have h₂ : memory.readWord 0x202 = .ok 0xF018 :=
    m.memory.readWord_program (k := 2) hfit rfl rfl
  have h₄ : memory.readWord 0x204 = .ok 0xF018 :=
    m.memory.readWord_program (k := 4) hfit rfl rfl
  have hload : (m.serve (.load program)).machine = { m with memory } :=
    serve_load_machine_of_ok (Memory.load_eq_ok_iff.2 ⟨hfit, rfl⟩)
  clear_value memory
  -- the machines before and behind the three cycles; each tick counts a one down to zero
  let m₀ : Machine := { m with memory }
  let m₁ : Machine :=
    { m₀ with opcode := 0x6001, registers := Registers.blank.write 0 1, pc := 0x202 }
  let m₂ : Machine := { m₁ with opcode := 0xF018, timers := ⟨0, 1⟩, pc := 0x204 }
  let m₃ : Machine := { m₂ with timers := m₂.timers.tick, toneEnded := true }
  let m₄ : Machine := { m₂ with toneEnded := true, pc := 0x206 }
  let m₅ : Machine := { m₄ with timers := m₄.timers.tick }
  have hx₀ : execute.run m₀ = ⟨.ok .nothing, m₁, [.fetched m₀.pc 0x6001]⟩ := by
    have hw : m₀.memory.readWord m₀.pc = .ok 0x6001 := h₀
    exact run_of_executes (.performed hw (i := .load 0 1) rfl (.load 1 (by decide)))
  have hx₁ : execute.run m₁ = ⟨.ok .nothing, m₂, [.fetched m₁.pc 0xF018]⟩ := by
    have hw : m₁.memory.readWord m₁.pc = .ok 0xF018 := h₂
    exact run_of_executes (.performed hw (i := .setSound 0) rfl (.setSound (by decide)))
  have hx₃ : execute.run m₃ = ⟨.ok .nothing, m₄, [.fetched m₃.pc 0xF018]⟩ := by
    have hw : m₃.memory.readWord m₃.pc = .ok 0xF018 := h₄
    exact run_of_executes (.performed hw (i := .setSound 0) rfl (.setSound (by decide)))
  have ht₁ : (m₁.serve .tick).machine = m₁ := serve_tick_machine m₁
  have ht₂ : (m₂.serve .tick).machine = m₃ := serve_tick_machine m₂
  have ht₄ : (m₄.serve .tick).machine = m₅ := serve_tick_machine m₄
  have hhistory : m.history session =
      [⟨m, .load program⟩, ⟨m₀, .execute⟩, ⟨m₁, .tick⟩, ⟨m₁, .execute⟩] ++ ⟨m₂, .tick⟩ ::
        ([⟨m₃, .execute⟩] ++ [⟨m₄, .tick⟩, ⟨m₅, .tick⟩]) := by
    have hload : (m.serve (.load program)).machine = m₀ := hload
    have hsteps : m₀.history [.step, .step, .step, .tick] =
        [⟨m₀, .execute⟩, ⟨m₁, .tick⟩, ⟨m₁, .execute⟩, ⟨m₂, .tick⟩, ⟨m₃, .execute⟩, ⟨m₄, .tick⟩,
          ⟨m₅, .tick⟩] := by
      rw [history_step_of_ok (by rw [hx₀]), hx₀, ht₁, history_step_of_ok (by rw [hx₁]), hx₁, ht₂,
        history_step_of_ok (by rw [hx₃]), hx₃, ht₄]
      rfl
    rw [history, hload, hsteps]
    rfl
  obtain ⟨htold, hbetween, hstretch⟩ := tone_told_once (.repeating #[]) session
  have hticks : ∀ e ∈ [(⟨m₄, .tick⟩ : Moment), ⟨m₅, .tick⟩], ∀ x, ¬ e.Performs (.setSound x) := by
    intro e he x hp
    have hr := hp.1
    simp only [List.mem_cons, List.not_mem_nil, or_false] at he
    rcases he with rfl | rfl <;> cases hr
  have hstores := hbetween _ _ _ _ _ hhistory rfl rfl
  have hcount := hstretch [⟨m, .load program⟩, ⟨m₀, .execute⟩, ⟨m₁, .tick⟩, ⟨m₁, .execute⟩,
    ⟨m₂, .tick⟩, ⟨m₃, .execute⟩] [⟨m₄, .tick⟩, ⟨m₅, .tick⟩] [] hhistory hticks
  refine ⟨?_, _, _, _, _, _, hhistory, rfl, rfl, hstores, hticks, hcount⟩
  have hasked : (sinceAsked (m.history session)).any Moment.endsTone = true := by
    rw [hhistory]
    rfl
  exact htold.trans (by rw [hasked])

end Machine

end Chip8
