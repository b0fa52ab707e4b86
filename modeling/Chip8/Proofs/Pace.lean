import Chip8.Proofs.Calls
import Chip8.Proofs.Tone
import Mathlib.Logic.Basic

/-!
# The pace of the timers

The host calls for frames at the rate of the timers, and each frame that succeeds counts them down
once. How many instructions a frame executes, whether one of them waits for a key, and how many
frames failed before has no part in that.

* `Moment.timer_after`: an elementary request leaves a timer alone, unless it stores in it or is a
  tick.
* `Trail.timer_eq`: along a trail without stores, a timer goes down once for each tick.
* `countP_isTick_history`: in a session of frames and loads, each frame that succeeds ticks once.
* `count_stopTone_serve`: which frame tells the host to stop the tone.
* `one_tick_per_frame`: what a session of frames and loads leaves in the timers, and when it tells
  the host to stop the tone.
-/

namespace Chip8

/-- One of the two timers. -/
inductive Timer where
  | delay
  | sound

namespace Timer

/-- What a timer holds. -/
def value (ts : Timers) : Timer → UInt8
  | delay => ts.delay
  | sound => ts.sound

/-- The instruction that stores `VX` in a timer, `FX15` or `FX18`. -/
def store (x : Nat) : Timer → Instruction
  | delay => .setDelay x
  | sound => .setSound x

theorem value_tick (t : Timer) (ts : Timers) :
    (t.value ts.tick).toNat = (t.value ts).toNat - 1 := by
  cases t <;> exact Timers.toNat_countDown _

end Timer

/-- Whether a request is a tick. -/
def Request.isTick : Request → Bool
  | tick => true
  | _ => false

/-- Requests of a host that only runs frames and loads programs. -/
def Request.IsFrameOrLoad : Request → Prop
  | frame _ _ | load _ => True
  | execute | step | tick | takeTone | press _ | release _ | setKeys _ => False

/-- An instruction leaves a timer as it was, unless it is the one that stores in it. -/
theorem Instruction.Performs.timer_eq {m m' : Machine} {i : Instruction} {step : Step}
    {signal : Signal} {log : List Record} {t : Timer} (h : Performs m i m' step signal log)
    (hi : ∀ x, i ≠ t.store x) : t.value m'.timers = t.value m.timers := by
  cases h with
  | setDelay =>
    cases t with
    | delay => exact absurd rfl (hi _)
    | sound => rfl
  | setSound =>
    cases t with
    | delay => rfl
    | sound => exact absurd rfl (hi _)
  | _ => rfl

namespace Moment

open Machine

variable {e : Moment} {t : Timer}

/-- Whether this is a frame that succeeds. -/
def isOkFrame (e : Moment) : Bool :=
  match e.request, e.reply.result with
  | .frame _ _, .ok _ => true
  | _, _ => false

/-- A cycle leaves a timer as it was, unless it performs an instruction that stores in it. -/
theorem timer_after_execute (hr : e.request = .execute) (hs : ∀ x, ¬ e.Performs (t.store x)) :
    t.value e.after.timers = t.value e.machine.timers := by
  rw [after_of_execute hr]
  rcases hx : (execute.run e.machine).result with f | signal
  · rw [machine_of_error hx]
  · obtain ⟨w, i, m', step, log, hw, hd, hp, hrun⟩ := performed_of_ok hx
    rw [hrun]
    refine hp.timer_eq fun x hi => hs x ⟨hr, w, signal, hw, ?_, hx⟩
    rw [hd, hi]

/-- **An elementary request** leaves a timer as it was, unless it stores in it or is a tick. -/
theorem timer_after (he : e.request.IsElementary) (hs : ∀ x, ¬ e.Performs (t.store x)) :
    (t.value e.after.timers).toNat =
      (t.value e.machine.timers).toNat - if e.request.isTick then 1 else 0 := by
  obtain ⟨m, r⟩ := e
  cases r with
  | execute => exact congrArg UInt8.toNat (timer_after_execute rfl hs)
  | tick =>
    rw [after, reply, serve_tick_machine]
    exact t.value_tick m.timers
  | load program =>
    rw [after, reply]
    rcases hp : m.memory.load program with f | memory
    · rw [serve_load_machine_of_error hp]
      rfl
    · rw [serve_load_machine_of_ok hp]
      rfl
  | press key =>
    rw [after, reply, serve_press_machine]
    rfl
  | release key =>
    rw [after, reply, serve_release_machine]
    rfl
  | takeTone | setKeys _ => rfl
  | step | frame _ _ => exact he.elim

end Moment

/-- **Along a trail without stores** in a timer, it goes down once for each tick. -/
theorem Trail.timer_eq {m m' : Machine} {es : List Moment} {t : Timer} (h : Trail m es m')
    (hs : ∀ e ∈ es, ∀ x, ¬ e.Performs (t.store x)) :
    (t.value m'.timers).toNat =
      (t.value m.timers).toNat - es.countP fun e => e.request.isTick := by
  induction es generalizing m with
  | nil =>
    obtain rfl : m' = m := h
    rfl
  | cons e es ih =>
    obtain ⟨rfl, he, h⟩ := h
    have hfirst := Moment.timer_after he (hs e List.mem_cons_self)
    rw [ih h fun f hf => hs f (List.mem_cons_of_mem e hf), hfirst, List.countP_cons]
    -- the two subtractions make one, also where the timer has stopped between them
    omega

namespace Machine

variable {m : Machine} {n : Nat} {keys : Keypad} {t : Timer} {r : Request} {rs : List Request}

/-- The frames of a session that succeed. -/
def okFrames (m : Machine) (rs : List Request) : List Moment :=
  (m.moments rs).filter Moment.isOkFrame

/-- No instruction of a session stores in a timer. -/
def Untouched (m : Machine) (t : Timer) (rs : List Request) : Prop :=
  ∀ e ∈ m.executions rs, ∀ x, ¬ e.Performs (t.store x)

theorem executions_cons (m : Machine) (r : Request) (rs : List Request) :
    m.executions (r :: rs) = m.executions [r] ++ (m.serve r).machine.executions rs := by
  simp [executions, history]

theorem untouched_cons :
    m.Untouched t (r :: rs) ↔ m.Untouched t [r] ∧ (m.serve r).machine.Untouched t rs := by
  simp only [Untouched, executions_cons m r rs, List.forall_mem_append]

/-- A timer that a session does not touch goes down once for each tick of the session. -/
theorem Untouched.timer_after (h : m.Untouched t rs) :
    (t.value (m.after rs).timers).toNat =
      (t.value m.timers).toNat - (m.history rs).countP fun e => e.request.isTick := by
  refine (trail_history m rs).timer_eq fun e he x hp => ?_
  -- whatever performs an instruction is a cycle
  exact h e (List.mem_filter.2 ⟨he, Request.isExecute_iff.2 hp.1⟩) x hp

/-- A timer that a frame does not touch is as it was when the cycles of the frame are over. -/
theorem Untouched.timer_cycles (h : m.Untouched t [.frame n keys]) :
    t.value ((cycles n).run { m with keypad := keys }).machine.timers = t.value m.timers := by
  rw [Untouched, executions_frame] at h
  refine ((trail_cycles n { m with keypad := keys }).invariant
    (P := fun m' => t.value m'.timers = t.value m.timers) (fun e he _ hm => ?_) rfl).2
  have hexec := elementary_cycleRequests n _ _ (request_mem_of_mem_moments he)
  rw [Moment.timer_after_execute hexec (h e he), hm]

theorem map_request_moments (m : Machine) (rs : List Request) :
    (m.moments rs).map Moment.request = rs := by
  induction rs generalizing m with
  | nil => rfl
  | cons r rs ih => exact congrArg (r :: ·) (ih _)

theorem isOkFrame_of_ok (h : (m.frame n keys).result = .ok ()) :
    Moment.isOkFrame ⟨m, .frame n keys⟩ = true := by
  simp [Moment.isOkFrame, Moment.reply, serve, Reply.ofFrame, h, Except.map]

theorem isOkFrame_of_error {f : Fault} (h : (m.frame n keys).result = .error f) :
    Moment.isOkFrame ⟨m, .frame n keys⟩ = false := by
  simp [Moment.isOkFrame, Moment.reply, serve, Reply.ofFrame, h, Except.map]

/-- A frame ticks once if it succeeds, and not at all if it fails. A load does not tick. -/
theorem countP_isTick_breakdown (hr : r.IsFrameOrLoad) :
    (m.breakdown r).countP Request.isTick = if Moment.isOkFrame ⟨m, r⟩ then 1 else 0 := by
  cases r with
  | load program => rfl
  | frame n keys =>
    let ready : Machine := { m with keypad := keys }
    have hcycles : (cycleRequests n ready).countP Request.isTick = 0 := by
      refine List.countP_eq_zero.2 fun s hs => ?_
      rw [elementary_cycleRequests n ready s hs]
      nofun
    simp only [breakdown, List.cons_append, List.countP_cons, List.countP_append]
    rw [hcycles]
    rcases hc : (cycles n).run ready with ⟨f | redraw, ran, log⟩
    · rw [isOkFrame_of_error (by rw [frame_of_cycles_error (congrArg Outcome.result hc)])]
      rfl
    · rw [isOkFrame_of_ok (by rw [frame_of_cycles_ok hc])]
      rfl
  | execute | step | tick | takeTone | press _ | release _ | setKeys _ => exact hr.elim

theorem okFrames_cons_of_pos (h : Moment.isOkFrame ⟨m, r⟩ = true) :
    m.okFrames (r :: rs) = ⟨m, r⟩ :: (m.serve r).machine.okFrames rs :=
  List.filter_cons_of_pos h

theorem okFrames_cons_of_neg (h : ¬ Moment.isOkFrame ⟨m, r⟩ = true) :
    m.okFrames (r :: rs) = (m.serve r).machine.okFrames rs :=
  List.filter_cons_of_neg h

/-- **Each frame that succeeds ticks once**, and nothing else ticks in a session of frames and
loads. -/
theorem countP_isTick_history (hrs : ∀ r ∈ rs, r.IsFrameOrLoad) :
    ((m.history rs).countP fun e => e.request.isTick) = (m.okFrames rs).length := by
  induction rs generalizing m with
  | nil => rfl
  | cons r rs ih =>
    have hfirst : ((m.moments (m.breakdown r)).countP fun e => e.request.isTick) =
        if Moment.isOkFrame ⟨m, r⟩ then 1 else 0 := by
      rw [← countP_isTick_breakdown (hrs r List.mem_cons_self),
        ← congrArg (List.countP Request.isTick) (map_request_moments m (m.breakdown r)),
        List.countP_map]
      rfl
    rw [history, List.countP_append, hfirst, ih fun s hs => hrs s (List.mem_cons_of_mem r hs)]
    by_cases hok : Moment.isOkFrame ⟨m, r⟩ = true
    · rw [if_pos hok, okFrames_cons_of_pos hok, List.length_cons, Nat.add_comm]
    · rw [if_neg hok, okFrames_cons_of_neg hok, Nat.zero_add]

/-- **A timer that a session of frames and loads does not touch** goes down once for each frame that
succeeds. -/
theorem Untouched.timer_after_frames (h : m.Untouched t rs) (hrs : ∀ r ∈ rs, r.IsFrameOrLoad) :
    (t.value (m.after rs).timers).toNat = (t.value m.timers).toNat - (m.okFrames rs).length := by
  rw [h.timer_after, countP_isTick_history hrs]

/-- **A frame that fails** calls for the keys only, and leaves what its cycles leave: it keeps the
note that a tone ended, and a timer that nothing is stored in. -/
theorem frame_of_error {f : Fault} (h : (m.frame n keys).result = .error f) :
    (m.frame n keys).calls = [.readKeys] ∧ (m.frame n keys).machine.toneEnded = m.toneEnded ∧
      ∀ t : Timer, m.Untouched t [.frame n keys] →
        t.value (m.frame n keys).machine.timers = t.value m.timers := by
  have hserve : (m.serve (.frame n keys)).result = .error f := map_eq_error_iff.2 h
  rw [frame_of_cycles_error (serve_frame_eq_error_iff.1 hserve)]
  exact ⟨rfl, toneEnded_cycles n _, fun t ht => ht.timer_cycles⟩

/-- A frame that fails does not tick. -/
theorem not_isTick_of_error {f : Fault} (h : (m.frame n keys).result = .error f) :
    ∀ e ∈ m.history [.frame n keys], e.request ≠ .tick := by
  have hcount : ((m.history [.frame n keys]).countP fun e => e.request.isTick) = 0 := by
    have hframe : ¬ Moment.isOkFrame ⟨m, .frame n keys⟩ = true := by
      rw [isOkFrame_of_error h]
      exact Bool.false_ne_true
    rw [countP_isTick_history (by simp [Request.IsFrameOrLoad]), okFrames_cons_of_neg hframe]
    rfl
  intro e he htick
  refine List.countP_eq_zero.1 hcount e he ?_
  rw [htick]
  rfl

/-- A frame that succeeds tells the host once to stop the tone if the timer is one behind its
cycles. -/
theorem count_stopTone_of_cycles_ok {redraw : Bool} {ran : Machine} {log : List Record}
    (h : (cycles n).run { m with keypad := keys } = ⟨.ok redraw, ran, log⟩)
    (hquiet : ran.toneEnded = false) :
    (m.frame n keys).calls.count .stopTone = if ran.timers.sound.toNat = 1 then 1 else 0 := by
  have hscreen : (HostCall.readKeys :: if redraw then [.present ran.screen] else []).count
      .stopTone = 0 := by
    cases redraw <;> rfl
  rw [frame_of_cycles_ok h, hquiet, Bool.false_or]
  simp only [List.count_append, hscreen, Nat.zero_add, Timers.endsTone_iff]
  have hone : ran.timers.sound = 1 ↔ ran.timers.sound.toNat = 1 := UInt8.toNat_inj.symm
  by_cases hs : ran.timers.sound = 1
  · rw [if_pos hs, if_pos (hone.1 hs)]
    rfl
  · rw [if_neg hs, if_neg fun h => hs (hone.2 h)]
    rfl

/-- **Which frame tells the host to stop the tone**: the one that succeeds when the sound timer is
one, if nothing is stored in the timer. -/
theorem count_stopTone_serve (hr : r.IsFrameOrLoad) (hclear : m.toneEnded = false)
    (hs : m.Untouched .sound [r]) :
    (m.serve r).machine.toneEnded = false ∧
      (m.serve r).calls.count .stopTone =
        if Moment.isOkFrame ⟨m, r⟩ ∧ m.timers.sound.toNat = 1 then 1 else 0 := by
  cases r with
  | load program =>
    refine ⟨?_, by simp [Moment.isOkFrame, serve, Reply.ofOutcome]⟩
    rcases hp : m.memory.load program with f | memory
    · rw [serve_load_machine_of_error hp, hclear]
    · rw [serve_load_machine_of_ok hp, hclear]
  | frame n keys =>
    have hsame := hs.timer_cycles
    have hquiet := (toneEnded_cycles n { m with keypad := keys }).trans hclear
    show (m.frame n keys).machine.toneEnded = false ∧ (m.frame n keys).calls.count .stopTone = _
    rcases hc : (cycles n).run { m with keypad := keys } with ⟨f | redraw, ran, log⟩
    · have herror : (m.frame n keys).result = .error f := by
        rw [frame_of_cycles_error (congrArg Outcome.result hc)]
      obtain ⟨hcalls, htone, -⟩ := frame_of_error herror
      rw [hcalls, htone, isOkFrame_of_error herror]
      exact ⟨hclear, by simp⟩
    · rw [hc] at hsame hquiet
      have hsound : ran.timers.sound = m.timers.sound := hsame
      have hok : (m.frame n keys).result = .ok () := by rw [frame_of_cycles_ok hc]
      rw [count_stopTone_of_cycles_ok hc hquiet, isOkFrame_of_ok hok, hsound]
      refine ⟨by rw [frame_of_cycles_ok hc], ?_⟩
      simp only [true_and]
  | execute | step | tick | takeTone | press _ | release _ | setKeys _ => exact hr.elim

/-- **When the host is told to stop the tone** in a session of frames and loads that stores nothing
in the sound timer: once, by the frame that counts it down to zero. -/
theorem count_stopTone (hrs : ∀ r ∈ rs, r.IsFrameOrLoad) (hclear : m.toneEnded = false)
    (hs : m.Untouched .sound rs) :
    ((m.replies rs).flatMap Reply.calls).count .stopTone =
        (if 1 ≤ m.timers.sound.toNat ∧ m.timers.sound.toNat ≤ (m.okFrames rs).length then 1
          else 0) ∧
      ∀ j e, (m.okFrames rs)[j]? = some e →
        e.reply.calls.count .stopTone = if j + 1 = m.timers.sound.toNat then 1 else 0 := by
  -- on the requests that are left, for a machine with the timer as the first one leaves it
  induction rs generalizing m with
  | nil =>
    refine ⟨(if_neg fun h => ?_).symm, nofun⟩
    exact absurd (Nat.le_trans h.1 h.2) (Nat.not_succ_le_zero 0)
  | cons r rs ih =>
    obtain ⟨hfirst, hrest⟩ := untouched_cons.1 hs
    have hr := hrs r List.mem_cons_self
    obtain ⟨hquiet, hcount⟩ := count_stopTone_serve hr hclear hfirst
    have hsound : (m.serve r).machine.timers.sound.toNat =
        m.timers.sound.toNat - (m.okFrames [r]).length :=
      hfirst.timer_after_frames (by simpa using hr)
    obtain ⟨htotal, heach⟩ := ih (fun s hs => hrs s (List.mem_cons_of_mem r hs)) hquiet hrest
    rw [replies, List.flatMap_cons, List.count_append, hcount, htotal]
    by_cases hok : Moment.isOkFrame ⟨m, r⟩ = true
    · -- the frames that succeed later are counted from the next one, with one less in the timer
      have hsound : (m.serve r).machine.timers.sound.toNat = m.timers.sound.toNat - 1 := by
        rw [hsound, okFrames_cons_of_pos hok]
        rfl
      rw [okFrames_cons_of_pos hok, List.length_cons, hsound]
      simp only [hok, true_and] at hcount ⊢
      refine ⟨?_, fun j e hj => ?_⟩
      · by_cases hone : m.timers.sound.toNat = 1
        · rw [if_pos hone, if_neg (by omega), if_pos (by omega)]
        · rw [if_neg hone, Nat.zero_add]
          exact if_congr (by omega) rfl rfl
      · rcases j with _ | j
        · obtain rfl : ⟨m, r⟩ = e := Option.some.inj hj
          exact hcount.trans (if_congr (by omega) rfl rfl)
        · rw [heach j e hj, hsound]
          exact if_congr (by omega) rfl rfl
    · -- a load and a frame that fails are not counted, and leave the timer as it was
      have hsound : (m.serve r).machine.timers.sound.toNat = m.timers.sound.toNat := by
        rw [hsound, okFrames_cons_of_neg hok]
        rfl
      rw [okFrames_cons_of_neg hok, hsound, if_neg fun h => hok h.1, Nat.zero_add]
      exact ⟨rfl, hsound ▸ heach⟩

/-- **One tick for each frame that succeeds.** A host runs frames and loads programs, on a machine
that has no end of a tone to tell of. Let `k` of the frames succeed, of whatever lengths and with
whatever keys. Then there are `k` ticks. A timer that the session stores nothing in goes down by `k`
and stops at zero. If it is the sound timer, and was `s`, the host is told once to stop the tone if
`s` is from `1` to `k`, by the frame that is the `s`-th to succeed, and else not at all.

A frame that fails calls for the keys only, keeps the note that a tone ended, and does not tick: a
timer that it stores nothing in stays as it was. -/
theorem one_tick_per_frame (m : Machine) (rs : List Request) (hrs : ∀ r ∈ rs, r.IsFrameOrLoad)
    (hclear : m.toneEnded = false) :
    let k := (m.okFrames rs).length
    let s := m.timers.sound.toNat
    ((m.history rs).countP fun e => e.request.isTick) = k ∧
    (m.Untouched .delay rs → (m.after rs).timers.delay.toNat = m.timers.delay.toNat - k) ∧
    (m.Untouched .sound rs →
      (m.after rs).timers.sound.toNat = s - k ∧
      ((m.replies rs).flatMap Reply.calls).count .stopTone = (if 1 ≤ s ∧ s ≤ k then 1 else 0) ∧
      ∀ j e, (m.okFrames rs)[j]? = some e →
        e.reply.calls.count .stopTone = if j + 1 = s then 1 else 0) ∧
    ∀ (m' : Machine) (n : Nat) (keys : Keypad) (f : Fault), (m'.frame n keys).result = .error f →
      (m'.frame n keys).calls = [.readKeys] ∧
      (m'.frame n keys).machine.toneEnded = m'.toneEnded ∧
      (∀ e ∈ m'.history [.frame n keys], e.request ≠ .tick) ∧
      ∀ t : Timer, m'.Untouched t [.frame n keys] →
        t.value (m'.frame n keys).machine.timers = t.value m'.timers := by
  refine ⟨countP_isTick_history hrs, fun hd => hd.timer_after_frames hrs, fun hs => ?_, ?_⟩
  · exact ⟨hs.timer_after_frames hrs, count_stopTone hrs hclear hs⟩
  · intro m' n keys f hf
    obtain ⟨hcalls, htone, htimers⟩ := frame_of_error hf
    exact ⟨hcalls, htone, not_isTick_of_error hf, htimers⟩

/-- A frame whose first instruction fails or waits for a key executes no other. -/
theorem executions_frame_of_stop {result : Except Fault Signal}
    (hx : (execute.run { m with keypad := keys }).result = result)
    (hstop : ∀ signal, result = .ok signal → signal = .wait) :
    m.executions [.frame (n + 1) keys] = [⟨{ m with keypad := keys }, .execute⟩] := by
  have hrequests : cycleRequests (n + 1) { m with keypad := keys } = [.execute] := by
    rw [cycleRequests, hx]
    rcases result with e | signal
    · rfl
    · rw [hstop signal rfl]
  rw [executions_frame, hrequests]
  rfl

/-- A session with a frame that fails, a load, a frame that waits for a key and a frame without
cycles: two frames succeed, and the second one tells the host to stop the tone. -/
theorem one_tick_per_frame_waiting :
    let m : Machine :=
      { boot (.repeating #[]) with
        memory := Memory.blank.poke programStart [0x00, 0x01], timers := ⟨3, 2⟩ }
    let rs := [.frame 2 .blank, .load [0xF0, 0x0A], .frame 2 .blank, .frame 0 .blank]
    (m.frame 2 .blank).calls = [.readKeys] ∧
      (m.after rs).timers.delay.toNat = 1 ∧ (m.after rs).timers.sound.toNat = 0 ∧
      ((m.replies rs).flatMap Reply.calls).count .stopTone = 1 ∧
      ∃ e, (m.okFrames rs)[1]? = some e ∧ e.reply.calls.count .stopTone = 1 := by
  intro m rs
  -- the machines behind the frame that fails, the load and the frame that waits
  let failed : Machine := { m with opcode := 0x0001 }
  let loaded : Machine := { failed with memory := m.memory.poke programStart [0xF0, 0x0A] }
  let waited : Machine := { loaded with opcode := 0xF00A, timers := m.timers.tick }
  have hunknown : m.memory.readWord (programStart + 0) = .ok (Word.ofBytes 0x00 0x01) :=
    Memory.blank.readWord_poke (by decide) rfl rfl
  have hwait : loaded.memory.readWord (programStart + 0) = .ok (Word.ofBytes 0xF0 0x0A) :=
    m.memory.readWord_poke (by decide) rfl rfl
  have hfail := run_of_executes (m := m) (.unknown hunknown rfl)
  have hawait := run_of_executes (m := loaded)
    (.performed hwait (i := .awaitKey 0) rfl (.awaitNoKey 0 rfl))
  have hcycles₁ : (cycles 2).run { m with keypad := .blank } =
      ⟨.error (.opcode ⟨0x0001⟩), failed, (execute.run m).log⟩ := by
    show (cycles 2).run m = _
    rw [run_cycles_succ, hfail]
    rfl
  have hcycles₂ : (cycles 2).run { loaded with keypad := .blank } =
      ⟨.ok false, { waited with timers := m.timers }, (execute.run loaded).log⟩ := by
    show (cycles 2).run loaded = _
    rw [run_cycles_succ, hawait]
    rfl
  have hframe₁ := frame_of_cycles_error (congrArg Outcome.result hcycles₁)
  have hframe₂ := frame_of_cycles_ok hcycles₂
  have hframe₃ := frame_of_cycles_ok (run_cycles_zero { waited with keypad := .blank })
  have hfailed : (m.serve (.frame 2 .blank)).machine = failed := by
    rw [serve_frame_machine, hframe₁, hcycles₁]
  have hloaded : (failed.serve (.load [0xF0, 0x0A])).machine = loaded :=
    serve_load_machine_of_ok (Memory.load_eq_ok_iff.2 ⟨by decide, rfl⟩)
  have hwaited : (loaded.serve (.frame 2 .blank)).machine = waited := by
    rw [serve_frame_machine, hframe₂]
    rfl
  have hframes : m.okFrames rs = [⟨loaded, .frame 2 .blank⟩, ⟨waited, .frame 0 .blank⟩] := by
    have hframe : ¬ Moment.isOkFrame ⟨m, .frame 2 .blank⟩ = true := by
      rw [isOkFrame_of_error (by rw [hframe₁])]
      nofun
    have hload : ¬ Moment.isOkFrame ⟨failed, .load [0xF0, 0x0A]⟩ = true := Bool.false_ne_true
    rw [okFrames_cons_of_neg hframe, hfailed, okFrames_cons_of_neg hload, hloaded,
      okFrames_cons_of_pos (isOkFrame_of_ok (by rw [hframe₂])), hwaited,
      okFrames_cons_of_pos (isOkFrame_of_ok (by rw [hframe₃]))]
    rfl
  have hexecutions : m.executions rs = [⟨m, .execute⟩, ⟨loaded, .execute⟩] := by
    have hfirst : m.executions [.frame 2 .blank] = [⟨m, .execute⟩] :=
      executions_frame_of_stop (m := m) (congrArg Outcome.result hfail) nofun
    have hsecond : loaded.executions [.frame 2 .blank] = [⟨loaded, .execute⟩] :=
      executions_frame_of_stop (m := loaded) (congrArg Outcome.result hawait)
        fun _ h => (Except.ok.inj h).symm
    rw [executions_cons m, hfirst, hfailed, executions_cons failed, hloaded, executions_cons loaded,
      hsecond]
    rfl
  have huntouched (t : Timer) : m.Untouched t rs := by
    intro e he x hp
    rw [hexecutions] at he
    obtain ⟨-, w, signal, hw, hd, hok⟩ := hp
    simp only [List.mem_cons, List.not_mem_nil, or_false] at he
    rcases he with rfl | rfl
    · rw [hfail] at hok
      cases hok
    · have hw : loaded.memory.readWord (programStart + 0) = .ok w := hw
      rw [hwait] at hw
      cases hw
      cases t <;> cases hd
  obtain ⟨-, hdelay, hsound, hquiet⟩ :=
    one_tick_per_frame m rs (by simp [rs, Request.IsFrameOrLoad]) rfl
  have hdelay := hdelay (huntouched .delay)
  obtain ⟨hsound, htotal, heach⟩ := hsound (huntouched .sound)
  have hlast := heach 1 ⟨waited, .frame 0 .blank⟩ (by rw [hframes]; rfl)
  rw [hframes] at hdelay hsound htotal
  exact ⟨(hquiet m 2 .blank _ (by rw [hframe₁])).1, hdelay, hsound, htotal, _, by rw [hframes]; rfl,
    hlast⟩

end Machine

end Chip8
