import Chip8.Proofs.Frames
import Chip8.Proofs.Halt

/-!
# The picture

The host shows the screen that it was given last. A frame gives it the screen if one of its
instructions drew on it, and no other instruction touches the screen. A frame that fails gives it
nothing, but then the machine is halted and no later frame succeeds.

* `screen_cycles`: cycles that report no drawing leave the screen alone.
* `screen_frame`: after a frame that succeeds, the screen is the one that the frame presented, or the
  one from before.
* `screen_eq_or_halted`: along a run of frames, the screen is the one that was presented last, unless
  the machine is halted.
* `picture_never_stale`: after every frame that succeeds, the host shows the screen as it is.
-/

namespace Chip8

/-- The screen that a call presents, if it presents one. -/
def HostCall.screen? : HostCall → Option Screen
  | present screen => some screen
  | readKeys | stopTone => none

/-- The screen that was presented last, if there was one. -/
def lastPresented (calls : List HostCall) : Option Screen :=
  (calls.filterMap HostCall.screen?).getLast?

theorem lastPresented_append (cs ds : List HostCall) :
    lastPresented (cs ++ ds) = (lastPresented ds).or (lastPresented cs) := by
  rw [lastPresented, List.filterMap_append, List.getLast?_append]
  rfl

/-- An instruction that does not ask for the screen to be shown has not drawn on it. -/
theorem Instruction.Performs.screen_eq {m m' : Machine} {i : Instruction} {step : Step}
    {signal : Signal} {log : List Record} (h : Performs m i m' step signal log)
    (hs : signal ≠ .redraw) : m'.screen = m.screen := by
  cases h with
  | clear | draw => exact absurd rfl hs
  | _ => rfl

namespace Machine

variable {m : Machine} {n : Nat} {keys : Keypad}

/-- A cycle that does not ask for the screen to be shown has not drawn on it. -/
theorem screen_execute (h : (execute.run m).result ≠ .ok .redraw) :
    (execute.run m).machine.screen = m.screen := by
  have hx := executes m
  generalize execute.run m = o at hx h
  cases hx with
  | noWord | unknown | refused => rfl
  | performed hw hd hp => exact hp.screen_eq fun hs => h (congrArg Except.ok hs)

/-- **Cycles that report no drawing** leave the screen alone. -/
theorem screen_cycles (h : ((cycles n).run m).result = .ok false) :
    ((cycles n).run m).machine.screen = m.screen := by
  induction n generalizing m with
  | zero => rfl
  | succ n ih =>
    rw [run_cycles_succ] at h ⊢
    have hfirst := screen_execute (m := m)
    rcases hx : execute.run m with ⟨e | _ | _ | _, m', log⟩ <;> rw [hx] at h hfirst
    · cases h
    · have hsame : m'.screen = m.screen := hfirst nofun
      rw [← hsame]
      exact ih h
    · exact hfirst nofun
    · -- a drawing is reported at the end, whatever the cycles behind it do
      rw [Outcome.andThen_ok, Outcome.andThen] at h
      rcases hc : ((cycles n).run m').result with e | redraw <;> rw [hc] at h <;> cases h

/-- **After a frame that succeeds**, the screen is the one that the frame presented, or the one from
before. -/
theorem screen_frame (hok : (m.frame n keys).result = .ok ()) :
    (m.frame n keys).machine.screen = (lastPresented (m.frame n keys).calls).getD m.screen := by
  obtain ⟨redraw, ran, log, hran⟩ := cycles_of_frame_ok hok
  rw [frame_of_cycles_ok hran]
  -- a call to stop the tone presents nothing
  have htone : lastPresented (if ran.toneEnded || ran.timers.endsTone then [.stopTone] else []) =
      none := by
    split <;> rfl
  rw [lastPresented_append, htone, Option.none_or]
  cases redraw with
  | true => rfl
  | false =>
    have hsame := screen_cycles (congrArg Outcome.result hran)
    rw [hran] at hsame
    exact hsame

section Run

variable (m : Machine) (n : Nat) (keys : Nat → Keypad)

/-- The calls to the host in the first `k` frames of a run. -/
def callsUpTo (k : Nat) : List HostCall :=
  (List.range k).flatMap fun j => (m.frameAt n keys j).calls

theorem callsUpTo_succ (k : Nat) :
    m.callsUpTo n keys (k + 1) = m.callsUpTo n keys k ++ (m.frameAt n keys k).calls := by
  rw [callsUpTo, List.range_succ, List.flatMap_append, List.flatMap_singleton]
  rfl

variable {m n keys}

/-- A frame that succeeds keeps what the host shows up to date. -/
theorem screen_succ {k : Nat} (hok : (m.frameAt n keys k).result = .ok ())
    (h : (m.beforeFrame n keys k).screen =
      (lastPresented (m.callsUpTo n keys k)).getD m.screen) :
    (m.beforeFrame n keys (k + 1)).screen =
      (lastPresented (m.callsUpTo n keys (k + 1))).getD m.screen := by
  have hframe : (m.beforeFrame n keys (k + 1)).screen =
      (lastPresented (m.frameAt n keys k).calls).getD (m.beforeFrame n keys k).screen :=
    screen_frame hok
  rw [hframe, h, callsUpTo_succ, lastPresented_append]
  cases lastPresented (m.frameAt n keys k).calls <;> rfl

/-- **Along a run of frames**, the screen is the one that was presented last, unless the machine is
halted. -/
theorem screen_eq_or_halted (k : Nat) :
    (m.beforeFrame n keys k).screen = (lastPresented (m.callsUpTo n keys k)).getD m.screen ∨
      0 < n ∧ ∃ e, Halted (m.beforeFrame n keys k) e := by
  induction k with
  | zero => exact .inl rfl
  | succ k ih =>
    rcases ih with hscreen | ⟨hn, e, hhalted⟩
    · rcases hresult : (m.frameAt n keys k).result with e | ⟨⟩
      · have hserve : ((m.beforeFrame n keys k).serve (.frame n (keys k))).result = .error e :=
          map_eq_error_iff.2 hresult
        have hn : 0 < n := by
          -- a frame without cycles cannot fail
          rcases Nat.eq_zero_or_pos n with rfl | hn
          · rw [serve_frame_eq_error_iff, run_cycles_zero] at hserve
            cases hserve
          · exact hn
        exact .inr ⟨hn, e, halted_of_serve (r := .frame n (keys k)) hn hserve⟩
      · exact .inl (screen_succ hresult hscreen)
    · have hsame := (hhalted.serve (r := .frame n (keys k)) nofun).1
      exact .inr ⟨hn, e, hhalted.of_core hsame.symm⟩

end Run

/-- **The picture is never stale.** A program is loaded into a new machine, and the host calls for
one frame after the other, of up to `n` cycles and each with its own keys. After every frame that
succeeds, the screen is the one that was presented last, and dark if none was presented. -/
theorem picture_never_stale (random : RandomSource) (program : List UInt8) (n : Nat)
    (keys : Nat → Keypad) {k : Nat}
    (hok : (((boot random).after [.load program]).frameAt n keys k).result = .ok ()) :
    (((boot random).after [.load program]).beforeFrame n keys (k + 1)).screen =
      (lastPresented (((boot random).after [.load program]).callsUpTo n keys (k + 1))).getD
        .blank := by
  have hdark : ((boot random).after [.load program]).screen = .blank := by
    rcases hload : (boot random).memory.load program with f | memory
    · exact congrArg Machine.screen (serve_load_machine_of_error hload)
    · exact congrArg Machine.screen (serve_load_machine_of_ok hload)
  generalize (boot random).after [.load program] = m at hok hdark
  rw [← hdark]
  rcases screen_eq_or_halted k with hscreen | ⟨hn, e, hhalted⟩
  · exact screen_succ hok hscreen
  · -- a halted machine has no frame that succeeds
    have hfault : (m.frameAt n keys k).result = .error e :=
      map_eq_error_iff.1 ((hhalted.serve (r := .frame n (keys k)) nofun).2 hn)
    rw [hfault] at hok
    cases hok

/-- A frame of one cycle that does not wait. -/
theorem frame_of_execute {m ran : Machine} {keys : Keypad} {signal : Signal} {log : List Record}
    (hx : execute.run { m with keypad := keys } = ⟨.ok signal, ran, log⟩) (hs : signal ≠ .wait) :
    m.frame 1 keys =
      ⟨.ok (), { ran with timers := ran.timers.tick, toneEnded := false }, log ++ ran.timers.notes,
        .readKeys :: (if signal == .redraw then [.present ran.screen] else []) ++
          if ran.toneEnded || ran.timers.endsTone then [.stopTone] else []⟩ := by
  have hcycle : (cycles 1).run { m with keypad := keys } = ⟨.ok (signal == .redraw), ran, log⟩ := by
    rw [run_cycles_succ, hx]
    cases signal with
    | wait => exact absurd rfl hs
    | nothing | redraw => simp
  exact frame_of_cycles_ok hcycle

/-- A frame that draws the first row of a zero, and one that draws nothing. -/
theorem picture_never_stale_row :
    let m := (boot (.repeating #[])).after [.load [0xD0, 0x01, 0x12, 0x02]]
    let keys := fun _ => Keypad.blank
    (m.frameAt 1 keys 1).result = .ok () ∧ (m.frameAt 1 keys 1).calls = [.readKeys] ∧
      (m.beforeFrame 1 keys 2).screen = (lastPresented (m.callsUpTo 1 keys 2)).getD .blank ∧
      (m.beforeFrame 1 keys 2).screen.isLit (.ofCoords 3 0) = true := by
  intro m keys
  have hstale := picture_never_stale (.repeating #[]) [0xD0, 0x01, 0x12, 0x02] 1 keys (k := 1)
  let memory := Memory.blank.poke programStart [0xD0, 0x01, 0x12, 0x02]
  have hm : m = { boot (.repeating #[]) with memory } :=
    serve_load_machine_of_ok (Memory.load_eq_ok_iff.2 ⟨by decide, rfl⟩)
  have h₀ : m.memory.readWord m.pc = .ok (Word.ofBytes 0xD0 0x01) := by
    rw [hm]
    exact Memory.blank.readWord_poke (k := 0) (by decide) rfl rfl
  have h₂ : m.memory.readWord (m.pc + 2) = .ok (Word.ofBytes 0x12 0x02) := by
    rw [hm]
    exact Memory.blank.readWord_poke (k := 2) (by decide) rfl rfl
  have hrow : m.memory.bytesFrom 0 1 = [0xF0] := by
    have hbyte : memory.byteAt 0 = 0xF0 := by
      rw [Memory.byteAt_poke _ _ _ _ (by decide), if_neg (by decide), Memory.blank,
        Memory.byteAt_poke _ _ _ _ (by decide)]
      rfl
    rw [hm]
    simp [Memory.bytesFrom, hbyte]
  have hregisters : m.registers = .blank := by rw [hm]; rfl
  have hscreen : m.screen = .blank := by rw [hm]; rfl
  have htimers : m.timers = .blank := by rw [hm]; rfl
  have htone : m.toneEnded = false := by rw [hm]; rfl
  have hpc : m.pc = 0x200 := by rw [hm]; rfl
  change (m.frameAt 1 keys 1).result = .ok () → (m.beforeFrame 1 keys 2).screen =
    (lastPresented (m.callsUpTo 1 keys 2)).getD .blank at hstale
  clear_value m
  obtain ⟨screen, hit, hdrawing⟩ : ∃ screen hit,
      Screen.blank.drawSprite 0 0 [0xF0] = (screen, hit) := ⟨_, _, rfl⟩
  -- the machines after the drawing and after the jump
  let ready : Machine := { m with keypad := .blank }
  let drawn : Machine :=
    { ready with
      opcode := 0xD001, pc := m.pc + 2, screen, registers := m.registers.setFlag hit }
  let jumped : Machine := { drawn with opcode := 0x1202, pc := 0x202 }
  have hdraw : execute.run ready = ⟨.ok .redraw, drawn, [.fetched m.pc 0xD001]⟩ := by
    have hw : ready.memory.readWord ready.pc = .ok 0xD001 := h₀
    have hp : Instruction.Performs { ready with opcode := 0xD001 } (.draw 0 0 1)
        { ready with opcode := 0xD001, screen, registers := m.registers.setFlag hit } .next .redraw
        [] := by
      refine .draw (by decide) (by decide) ?_ ?_
      · show m.registers.index.toNat + 1 ≤ memorySize
        rw [hregisters]
        decide
      · show m.screen.drawSprite (m.registers.valueAt 0).toNat (m.registers.valueAt 0).toNat
          (m.memory.bytesFrom m.registers.index.toNat 1) = (screen, hit)
        rw [hregisters, hscreen]
        exact (congrArg (Screen.blank.drawSprite 0 0) hrow).trans hdrawing
    exact run_of_executes (.performed hw rfl hp)
  have hjump : execute.run drawn = ⟨.ok .nothing, jumped, [.fetched (m.pc + 2) 0x1202]⟩ := by
    have hw : drawn.memory.readWord drawn.pc = .ok 0x1202 := h₂
    exact run_of_executes (.performed hw (i := .jump 0x202) rfl (.jump 0x202))
  have hframe₀ := frame_of_execute (m := m) hdraw (by decide)
  have hfirst : m.beforeFrame 1 keys 1 = drawn := by
    have hmachine : m.beforeFrame 1 keys 1 = _ := congrArg Frame.machine hframe₀
    rw [hmachine]
    simp only [drawn, ready, htimers, htone]
    rfl
  have hframe₁ : drawn.frame 1 .blank = _ := frame_of_execute hjump (by decide)
  have hsecond : m.frameAt 1 keys 1 = _ := (congrArg (frame · 1 .blank) hfirst).trans hframe₁
  have hok : (m.frameAt 1 keys 1).result = .ok () := by rw [hsecond]
  refine ⟨hok, ?_, hstale hok, ?_⟩
  · rw [hsecond]
    simp only [jumped, drawn, ready, htimers, htone]
    rfl
  · have hlit : screen.isLit (.ofCoords 3 0) =
        (Screen.blank.drawSprite 0 0 [0xF0]).1.isLit (.ofCoords 3 0) := by rw [hdrawing]
    show (m.frameAt 1 keys 1).machine.screen.isLit _ = _
    rw [hsecond, hlit, Screen.drawSprite, Screen.isLit_blit, Screen.isLit_blank]
    decide

end Machine

end Chip8
