import Chip8.Proofs.History
import Chip8.Proofs.Records

/-!
# The log as an audit trail

What the machine notes down tells what it did. A cycle notes down the word that it fetched, then what
its instruction did, and at last its failure, each at a level of its own. Whoever keeps account of the
calls by the texts of the log has the addresses that are on the stack.

* `notes_breakdown`, `log_eq_notes`: a log is what the moments of the history note down.
* `log_of_executes`, `Moment.isNoted_of_execute`: the notes of a cycle.
* `Moment.playBack_log`, `Trail.playBack_notes`: the notes of a moment, and of a trail, retell how the
  stack moved.
* `log_is_faithful`: what the log of a session tells.
-/

namespace Chip8

/-- The addresses on the stack, the newest first. -/
def Stack.addresses (s : Stack) : List Nat :=
  s.entries.map UInt16.toNat

/-- The note of a failure of the instruction at `pc`, if it failed. -/
def failureNotes {α : Type} (pc : Nat) : Except Fault α → List Record
  | .ok _ => []
  | .error f => [.failed pc f]

theorem level_of_mem_failureNotes {α : Type} (pc : Nat) (result : Except Fault α) :
    ∀ r ∈ failureNotes pc result, r.level = .warn := by
  cases result <;> simp [failureNotes, Record.level]

namespace Instruction.Performs

variable {m m' : Machine} {i : Instruction} {step : Step} {signal : Signal} {log : List Record}

/-- All that an instruction notes down itself is at level `debug`. -/
theorem level_eq (h : Performs m i m' step signal log) : ∀ r ∈ log, r.level = .debug := by
  cases h <;> simp [Record.level]

/-- **An instruction notes down how it moves the stack.** The stack keeps 16 bits of the address of a
call, which are all of it for an address in memory. -/
theorem playBack_log (h : Performs m i m' step signal log)
    (hpc : m.pc + instructionSize ≤ memorySize) :
    playBack m.stack.addresses log = some m'.stack.addresses := by
  cases h with
  | call nnn hd =>
    show some (m.pc :: m.stack.addresses) = some (m.pc.toUInt16.toNat :: m.stack.addresses)
    rw [Memory.toNat_toUInt16_of_le hpc]
  | @ret a rest hs =>
    have haddresses : m.stack.addresses = a.toNat :: rest.map UInt16.toNat :=
      congrArg (List.map UInt16.toNat) hs
    rw [haddresses]
    exact congrArg (· >>= some) (if_pos rfl)
  | _ => rfl

end Instruction.Performs

namespace Machine

/-- The note of the word that a cycle fetches, if there is one at the program counter. -/
def fetchNotes (m : Machine) : List Record :=
  match m.memory.readWord m.pc with
  | .ok w => [.fetched m.pc w]
  | .error _ => []

theorem level_of_mem_fetchNotes (m : Machine) : ∀ r ∈ m.fetchNotes, r.level = .trace := by
  rw [fetchNotes]
  split <;> simp [Record.level]

/-- **The notes of a cycle**: the word, what the instruction notes down, and the failure. -/
theorem log_of_executes {m : Machine} {o : Outcome Signal} (h : Executes m o) :
    ∃ log, (∀ r ∈ log, r.level = .debug) ∧
      o.log = m.fetchNotes ++ log ++ failureNotes m.pc o.result := by
  cases h with
  | noWord hlt => exact ⟨[], nofun, by simp [fetchNotes, m.memory.readWord_of_lt hlt, failureNotes]⟩
  | unknown hw | refused hw => exact ⟨[], nofun, by simp [fetchNotes, hw, failureNotes]⟩
  | performed hw hd hp => exact ⟨_, hp.level_eq, by simp [fetchNotes, hw, failureNotes]⟩

/-- What a session notes down. -/
def log (m : Machine) (rs : List Request) : List Record :=
  (m.replies rs).flatMap Reply.log

end Machine

/-- What is noted down at some moments. -/
def notes (es : List Moment) : List Record :=
  es.flatMap fun e => e.reply.log

theorem notes_append (es es' : List Moment) : notes (es ++ es') = notes es ++ notes es' :=
  List.flatMap_append

namespace Moment

/-- The lines that are logged at this moment. -/
def lines (e : Moment) : List (Record.Level × String) :=
  e.reply.log.map Record.printed

/-- **The cycle of this moment is in the log.** The one line at level `trace` has its address and the
word that it fetched. If it failed, the one line at level `warn` has its address before all other
numbers, and is the last line. There are no others at these levels. -/
structure IsNoted (e : Moment) : Prop where
  trace_of_ok : ∀ word, e.machine.memory.readWord e.machine.pc = .ok word →
    ∃ text, textsAt .trace e.lines = [text] ∧
      Numeral.numbers 16 text.toList = [e.machine.pc, word.toNat]
  trace_of_error : ∀ f, e.machine.memory.readWord e.machine.pc = .error f →
    textsAt .trace e.lines = []
  warn_of_error : ∀ f, e.reply.result = .error f →
    ∃ text, textsAt .warn e.lines = [text] ∧ e.lines.getLast? = some (.warn, text) ∧
      (Numeral.numbers 16 text.toList).head? = some e.machine.pc
  warn_of_ok : ∀ answer, e.reply.result = .ok answer → textsAt .warn e.lines = []

open Machine

variable {e : Moment}

theorem log_of_execute (h : e.request = .execute) :
    e.reply.log = (execute.run e.machine).log := by
  rw [reply, h]
  rfl

theorem failureNotes_of_execute (h : e.request = .execute) (pc : Nat) :
    failureNotes pc e.reply.result = failureNotes pc (execute.run e.machine).result := by
  rw [reply, h]
  show failureNotes pc ((execute.run e.machine).result.map Answer.signal) = _
  cases (execute.run e.machine).result <;> rfl

/-- A cycle notes down its word at level `trace`, its failure at level `warn`, and that last. -/
theorem recordsAt_of_execute (h : e.request = .execute) :
    recordsAt .trace e.reply.log = e.machine.fetchNotes ∧
      recordsAt .warn e.reply.log = failureNotes e.machine.pc e.reply.result ∧
      ∃ before, e.reply.log = before ++ failureNotes e.machine.pc e.reply.result := by
  obtain ⟨log, hlog, hshape⟩ := log_of_executes (executes e.machine)
  rw [← log_of_execute h, ← failureNotes_of_execute h] at hshape
  have hfetch := level_of_mem_fetchNotes e.machine
  have hfailure := level_of_mem_failureNotes e.machine.pc e.reply.result
  -- the three parts of the log are at three different levels
  have hparts (level : Record.Level) := calc
    recordsAt level e.reply.log
    _ = recordsAt level e.machine.fetchNotes ++ recordsAt level log ++
          recordsAt level (failureNotes e.machine.pc e.reply.result) := by
        rw [hshape, recordsAt_append, recordsAt_append]
    _ = (if .trace = level then e.machine.fetchNotes else []) ++
          (if .debug = level then log else []) ++
          if .warn = level then failureNotes e.machine.pc e.reply.result else [] := by
        rw [recordsAt_of_forall hfetch, recordsAt_of_forall hlog, recordsAt_of_forall hfailure]
  exact ⟨by simp [hparts], by simp [hparts], _, hshape⟩

theorem isNoted_of_execute (h : e.request = .execute) : e.IsNoted := by
  obtain ⟨htrace, hwarn, before, hlast⟩ := recordsAt_of_execute h
  have htrace : textsAt .trace e.lines = e.machine.fetchNotes.map Record.text := by
    rw [lines, textsAt_printed, htrace]
  have hwarn : textsAt .warn e.lines =
      (failureNotes e.machine.pc e.reply.result).map Record.text := by
    rw [lines, textsAt_printed, hwarn]
  refine ⟨fun word hw => ?_, fun f hf => ?_, fun f hf => ?_, fun answer ha => ?_⟩
  · rw [htrace, fetchNotes, hw]
    exact ⟨_, rfl, numbers_text_fetched e.machine.pc word⟩
  · rw [htrace, fetchNotes, hf]
    rfl
  · rw [hwarn, lines, hlast, hf]
    refine ⟨_, rfl, ?_, head?_numbers_text_failed e.machine.pc f⟩
    rw [List.map_append]
    exact List.getLast?_concat
  · rw [hwarn, ha]
    rfl

theorem playBack_log_of_execute (h : e.request = .execute) :
    playBack e.machine.stack.addresses e.reply.log = some e.after.stack.addresses := by
  rw [log_of_execute h, after_of_execute h]
  have hx := executes e.machine
  generalize execute.run e.machine = o at hx
  cases hx with
  | noWord | unknown | refused => rfl
  | performed hw hd hp =>
    -- the word that was fetched is not played back
    exact hp.playBack_log (Memory.readWord_eq_ok_iff.1 hw).1

/-- Requests other than cycles note down neither calls nor returns. -/
theorem playBack_log_of_ne_execute (calls : List Nat) (he : e.request.IsElementary)
    (h : e.request ≠ .execute) : playBack calls e.reply.log = some calls := by
  obtain ⟨m, r⟩ := e
  have hkey (key : Nat) (pressed : Bool) :
      playBack calls ((setKey key pressed).run m).log = some calls := by
    rw [run_setKey]
    unfold Keypad.notes
    split <;> rfl
  cases r with
  | load program =>
    show playBack calls ((Machine.load program).run m).log = _
    rcases hp : m.memory.load program with f | memory
    · rw [run_load_of_error hp]
      rfl
    · rw [run_load_of_ok hp]
      rfl
  | tick =>
    show playBack calls (tick.run m).log = _
    rw [run_tick]
    unfold Timers.notes
    split <;> rfl
  | press key => exact hkey key true
  | release key => exact hkey key false
  | takeTone | setKeys => rfl
  | execute => exact absurd rfl h
  | step | frame => exact he.elim

/-- **What is noted down at a moment** retells how the stack moved. -/
theorem playBack_log (he : e.request.IsElementary) :
    playBack e.machine.stack.addresses e.reply.log = some e.after.stack.addresses := by
  by_cases hr : e.request = .execute
  · exact playBack_log_of_execute hr
  · obtain ⟨memory, timers, keypad, tone, hm⟩ := serve_of_ne_execute e.machine he hr
    have hstack : e.after.stack = e.machine.stack := by rw [after, reply, hm]
    rw [hstack]
    exact playBack_log_of_ne_execute _ he hr

end Moment

/-- **What is noted down along a trail** retells how the stack moved. -/
theorem Trail.playBack_notes {m m' : Machine} {es : List Moment} (h : Trail m es m') :
    playBack m.stack.addresses (notes es) = some m'.stack.addresses := by
  induction es generalizing m with
  | nil =>
    obtain rfl : m' = m := h
    rfl
  | cons e es ih =>
    obtain ⟨rfl, he, h⟩ := h
    rw [notes, List.flatMap_cons, playBack_append (Moment.playBack_log he)]
    exact ih h

/-- What goes on silently adds nothing to the notes. -/
theorem Outcome.log_andThen_of_silent {α β : Type} {o : Outcome α} {f : α → Machine → Outcome β}
    (h : ∀ a m, (f a m).log = []) : (o.andThen f).log = o.log := by
  rw [andThen]
  split
  · rfl
  · simp [h]

namespace Machine

/-- The cycles of a frame note down what they do one after the other. -/
theorem notes_cycleRequests (n : Nat) (m : Machine) :
    notes (m.moments (cycleRequests n m)) = ((cycles n).run m).log := by
  -- on the cycles that are left, for whatever machine the first one leaves
  induction n generalizing m with
  | zero => rfl
  | succ n ih =>
    rw [run_cycles_succ, cycleRequests, moments, notes, List.flatMap_cons, serve_execute_machine,
      Moment.log_of_execute rfl, Outcome.andThen]
    rcases hx : (execute.run m).result with e | _ | _ | _
    · exact List.append_nil _
    · exact congrArg ((execute.run m).log ++ ·) (ih _)
    · rfl
    · -- the cycles that remain note down the same as on their own
      have hrest := ih (execute.run m).machine
      show (execute.run m).log ++ notes _ = (execute.run m).log ++ Outcome.log (Outcome.andThen _ _)
      rw [hrest, Outcome.log_andThen_of_silent fun _ _ => rfl]

/-- **A request notes down** what its elementary requests do. -/
theorem notes_breakdown (m : Machine) (r : Request) :
    notes (m.moments (m.breakdown r)) = (m.serve r).log := by
  cases r with
  | step =>
    rw [breakdown]
    show (execute.run m).log ++ notes _ = (step.run m).log
    rcases hx : (execute.run m).result with e | signal
    · rw [run_step_of_error hx]
      exact List.append_nil _
    · rw [run_step_of_ok hx]
      exact congrArg ((execute.run m).log ++ ·) (List.append_nil _)
  | frame n keys =>
    -- the keys that the host reads are not noted down, and no more is the question for the tone
    let ready := { m with keypad := keys }
    have hcycles := notes_cycleRequests n ready
    simp only [breakdown, List.cons_append]
    show notes (ready.moments _) = (m.frame n keys).log
    rw [moments_append, notes_append, hcycles, after_cycleRequests]
    rcases hc : (cycles n).run ready with ⟨e | redraw, ran, log⟩
    · rw [frame_of_cycles_error (by rw [hc]), hc]
      exact List.append_nil _
    · rw [frame_of_cycles_ok hc]
      show log ++ ((tick.run ran).log ++ []) = _
      rw [run_tick, List.append_nil]
  | _ => exact List.append_nil _

/-- **The log of a session** is what the moments of its history note down. -/
theorem log_eq_notes (m : Machine) (rs : List Request) : m.log rs = notes (m.history rs) := by
  induction rs generalizing m with
  | nil => rfl
  | cons r rs ih =>
    rw [history, notes_append, notes_breakdown, ← ih]
    rfl

/-- **The log is a faithful audit trail.** From power-on, let the host ask for anything. Then the log
is what the moments of the history note down, one after the other, with every cycle in it, also those
inside steps and frames: a line at level `trace` has its address and its fetched word, a line at level
`warn` has the address of a cycle that failed, and is its last one, and there are no others. Kept from
no calls at all, the account of the calls by the texts at level `debug` never meets a return without a
call or to another address than that of the newest call, and it ends with the addresses that are on
the stack. -/
theorem log_is_faithful (random : RandomSource) (session : List Request) :
    let m := boot random
    m.log session = notes (m.history session) ∧
    (∀ e ∈ m.executions session, e.IsNoted) ∧
    replay [] (textsAt .debug ((m.log session).map Record.printed)) =
      some (m.after session).stack.addresses := by
  intro m
  have hlog := log_eq_notes m session
  refine ⟨hlog, fun e he => ?_, ?_⟩
  · exact Moment.isNoted_of_execute (Request.isExecute_iff.1 (List.mem_filter.1 he).2)
  · rw [replay_textsAt_debug, hlog]
    exact (trail_history m session).playBack_notes

end Machine

end Chip8
