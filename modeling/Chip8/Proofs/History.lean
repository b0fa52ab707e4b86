import Chip8.Proofs.Requests

/-!
# Histories

A step is a cycle and a tick, and a frame takes over the keys, runs cycles, ticks and asks for the
tone. The history of a session lists these elementary requests with the machine that each of them
met, so that a statement about a history speaks of every instruction, also of those inside a frame.

* `after_breakdown`: a request does what its elementary requests do.
* `trail_history`: the moments of a history follow one another.
* `Trail.invariant`: what elementary requests preserve holds along a history.
* `exists_moment_of_error`: a fault of a request is the fault of one of its moments.
-/

namespace Chip8

/-- **The last word on something**, if the first of several says it, or one behind it. -/
theorem getLast?_filterMap_cons {α β : Type} (f : α → Option β) (a : α) (l : List α) (start : β) :
    ((a :: l).filterMap f).getLast?.getD start =
      (l.filterMap f).getLast?.getD ((f a).getD start) := by
  rw [List.filterMap_cons]
  rcases f a with _ | b
  · rfl
  · rw [List.getLast?_cons]
    rfl

/-- Requests that do one thing only. -/
def Request.IsElementary : Request → Prop
  | step | frame _ _ => False
  | load _ | execute | tick | takeTone | press _ | release _ | setKeys _ => True

/-- Whether a request is a cycle. -/
def Request.isExecute : Request → Bool
  | execute => true
  | _ => false

theorem Request.isExecute_iff {r : Request} : r.isExecute = true ↔ r = .execute := by
  cases r <;> simp [isExecute]

/-- A request, and the machine that serves it. -/
structure Moment where
  machine : Machine
  request : Request

namespace Moment

/-- What the machine replies. -/
def reply (e : Moment) : Reply :=
  e.machine.serve e.request

/-- The machine afterwards. -/
def after (e : Moment) : Machine :=
  e.reply.machine

theorem after_of_execute {e : Moment} (h : e.request = .execute) :
    e.after = (Machine.execute.run e.machine).machine := by
  rw [after, reply, h]
  rfl

end Moment

namespace Machine

open Routine

/-- The cycles that a frame of up to `n` of them runs. -/
def cycleRequests : Nat → Machine → List Request
  | 0, _ => []
  | n + 1, m =>
    .execute :: match (execute.run m).result with
      | .ok .nothing | .ok .redraw => cycleRequests n (execute.run m).machine
      | .ok .wait | .error _ => []

/-- The elementary requests that a request comes down to. -/
def breakdown (m : Machine) : Request → List Request
  | .step =>
    .execute :: match (execute.run m).result with
      | .ok _ => [.tick]
      | .error _ => []
  | .frame n keys =>
    let ready := { m with keypad := keys }
    .setKeys keys :: cycleRequests n ready ++ match ((cycles n).run ready).result with
      | .ok _ => [.tick, .takeTone]
      | .error _ => []
  | r => [r]

/-- The moments of a list of requests. -/
def moments (m : Machine) : List Request → List Moment
  | [] => []
  | r :: rs => ⟨m, r⟩ :: (m.serve r).machine.moments rs

/-- **The history of a session**: the moments of its elementary requests. -/
def history (m : Machine) : List Request → List Moment
  | [] => []
  | r :: rs => m.moments (m.breakdown r) ++ (m.serve r).machine.history rs

/-- The cycles of a session, also those inside its steps and frames. -/
def executions (m : Machine) (rs : List Request) : List Moment :=
  (m.history rs).filter fun e => e.request.isExecute

/-- An elementary request other than a cycle is left to memory, the timers, the keys and the
tone. -/
theorem serve_of_ne_execute (m : Machine) {r : Request} (he : r.IsElementary)
    (hr : r ≠ .execute) : ∃ memory timers keypad toneEnded,
      (m.serve r).machine = { m with memory, timers, keypad, toneEnded } := by
  cases r with
  | load program =>
    rcases hp : m.memory.load program with f | memory
    · rw [serve_load_machine_of_error hp]
      exact ⟨_, _, _, _, rfl⟩
    · rw [serve_load_machine_of_ok hp]
      exact ⟨_, _, _, _, rfl⟩
  | tick => exact ⟨_, _, _, _, serve_tick_machine m⟩
  | press key => exact ⟨_, _, _, _, serve_press_machine m key⟩
  | release key => exact ⟨_, _, _, _, serve_release_machine m key⟩
  | takeTone | setKeys _ => exact ⟨_, _, _, _, rfl⟩
  | execute => exact absurd rfl hr
  | step | frame _ _ => exact he.elim

theorem after_cycleRequests (n : Nat) (m : Machine) :
    m.after (cycleRequests n m) = ((cycles n).run m).machine := by
  -- on the cycles that are left, for whatever machine the first one leaves
  induction n generalizing m with
  | zero => rfl
  | succ n ih =>
    rw [run_cycles_succ, cycleRequests, after, serve_execute_machine, Outcome.andThen]
    rcases hx : (execute.run m).result with e | _ | _ | _
    · rfl
    · exact ih _
    · rfl
    · -- the cycles that remain end as they do on their own
      simp only [ih, Outcome.andThen]
      split <;> rfl

/-- **A request does what its elementary requests do.** -/
theorem after_breakdown (m : Machine) (r : Request) :
    m.after (m.breakdown r) = (m.serve r).machine := by
  cases r with
  | step =>
    rw [breakdown, after, serve_execute_machine, serve_step_machine]
    rcases hx : (execute.run m).result with e | signal
    · rw [run_step_of_error hx]
      rfl
    · rw [run_step_of_ok hx]
      rfl
  | frame n keys =>
    -- the tick and the question for the tone come only after cycles that did not fail
    simp only [breakdown]
    rw [after_append, after, serve_setKeys_machine, after_cycleRequests, serve_frame_machine, frame]
    rcases ((cycles n).run { m with keypad := keys }).result with e | redraw <;> rfl
  | _ => rfl

theorem elementary_cycleRequests (n : Nat) (m : Machine) :
    ∀ r ∈ cycleRequests n m, r = .execute := by
  induction n generalizing m with
  | zero => intro r hr; cases hr
  | succ n ih =>
    intro r hr
    rw [cycleRequests] at hr
    rcases List.mem_cons.1 hr with rfl | hr
    · rfl
    · split at hr
      · exact ih _ r hr
      · exact ih _ r hr
      · cases hr
      · cases hr

/-- A breakdown leaves only elementary requests. -/
theorem elementary_breakdown {m : Machine} {r s : Request} (h : s ∈ m.breakdown r) :
    s.IsElementary := by
  cases r with
  | step =>
    rw [breakdown] at h
    rcases List.mem_cons.1 h with rfl | h
    · trivial
    · split at h
      · obtain rfl := List.mem_singleton.1 h
        trivial
      · cases h
  | frame n keys =>
    simp only [breakdown, List.cons_append, List.mem_cons, List.mem_append] at h
    rcases h with rfl | h | h
    · trivial
    · rw [elementary_cycleRequests n _ s h]
      trivial
    · split at h
      · simp only [List.mem_cons, List.not_mem_nil, or_false] at h
        rcases h with rfl | rfl <;> trivial
      · cases h
  | _ =>
    obtain rfl := List.mem_singleton.1 h
    trivial

/-- Only a load comes down to a load. -/
theorem load_of_mem_breakdown {m : Machine} {r : Request} {program : List UInt8}
    (h : .load program ∈ m.breakdown r) : r = .load program := by
  cases r with
  | step =>
    rw [breakdown] at h
    rcases List.mem_cons.1 h with h | h
    · cases h
    · split at h
      · cases List.mem_singleton.1 h
      · cases h
  | frame n keys =>
    simp only [breakdown, List.cons_append, List.mem_cons, List.mem_append] at h
    rcases h with h | h | h
    · cases h
    · cases elementary_cycleRequests n _ _ h
    · split at h
      · simp at h
      · cases h
  | _ => exact (List.mem_singleton.1 h).symm

theorem request_mem_of_mem_moments {m : Machine} {rs : List Request} {e : Moment}
    (h : e ∈ m.moments rs) : e.request ∈ rs := by
  induction rs generalizing m with
  | nil => cases h
  | cons r rs ih =>
    rcases List.mem_cons.1 h with rfl | h
    · exact List.mem_cons_self
    · exact List.mem_cons_of_mem r (ih h)

/-- A load in a history is a load of the session. -/
theorem load_mem_of_mem_history {m : Machine} {rs : List Request} {e : Moment}
    {program : List UInt8} (he : e ∈ m.history rs) (h : e.request = .load program) :
    .load program ∈ rs := by
  induction rs generalizing m with
  | nil => cases he
  | cons r rs ih =>
    rw [history] at he
    rcases List.mem_append.1 he with he | he
    · have hmem := request_mem_of_mem_moments he
      rw [h] at hmem
      exact load_of_mem_breakdown hmem ▸ List.mem_cons_self
    · exact List.mem_cons_of_mem r (ih he)

end Machine

/-- `Trail m es m'`: the moments follow one another, from the first machine to the last. -/
def Trail : Machine → List Moment → Machine → Prop
  | m, [], m' => m' = m
  | m, e :: es, m' => e.machine = m ∧ e.request.IsElementary ∧ Trail e.after es m'

namespace Trail

variable {m m' : Machine} {es es' : List Moment} {e : Moment}

theorem append_iff :
    Trail m (es ++ es') m' ↔ ∃ m₁, Trail m es m₁ ∧ Trail m₁ es' m' := by
  induction es generalizing m with
  | nil => simp [Trail]
  | cons e es ih =>
    simp only [List.cons_append, Trail, ih]
    constructor
    · rintro ⟨hm, he, m₁, h, h'⟩
      exact ⟨m₁, ⟨hm, he, h⟩, h'⟩
    · rintro ⟨m₁, ⟨hm, he, h⟩, h'⟩
      exact ⟨hm, he, m₁, h, h'⟩

theorem elementary (h : Trail m es m') : ∀ e ∈ es, e.request.IsElementary := by
  induction es generalizing m with
  | nil => simp
  | cons e es ih =>
    obtain ⟨rfl, he, h⟩ := h
    exact List.forall_mem_cons.2 ⟨he, ih h⟩

/-- **What elementary requests preserve** holds along a trail. -/
theorem invariant {P : Machine → Prop}
    (hP : ∀ e ∈ es, e.request.IsElementary → P e.machine → P e.after) (h : Trail m es m')
    (hm : P m) : (∀ e ∈ es, P e.machine ∧ P e.after) ∧ P m' := by
  induction es generalizing m with
  | nil =>
    obtain rfl : m' = m := h
    exact ⟨by simp, hm⟩
  | cons e es ih =>
    obtain ⟨rfl, he, h⟩ := h
    -- the property holds after the first moment, and that is where the rest starts
    have hafter := hP e List.mem_cons_self he hm
    obtain ⟨hes, hm'⟩ := ih (fun f hf => hP f (List.mem_cons_of_mem e hf)) h hafter
    refine ⟨fun f hf => ?_, hm'⟩
    rcases List.mem_cons.1 hf with rfl | hf
    · exact ⟨hm, hafter⟩
    · exact hes f hf

end Trail

namespace Machine

theorem trail_moments (m : Machine) {rs : List Request} (h : ∀ r ∈ rs, r.IsElementary) :
    Trail m (m.moments rs) (m.after rs) := by
  induction rs generalizing m with
  | nil => rfl
  | cons r rs ih =>
    exact ⟨rfl, h r List.mem_cons_self, ih _ fun s hs => h s (List.mem_cons_of_mem r hs)⟩

/-- **The moments of a history follow one another**, up to the machine after the session. -/
theorem trail_history (m : Machine) (rs : List Request) : Trail m (m.history rs) (m.after rs) := by
  induction rs generalizing m with
  | nil => rfl
  | cons r rs ih =>
    refine Trail.append_iff.2 ⟨(m.serve r).machine, ?_, ih _⟩
    rw [← after_breakdown]
    exact trail_moments m fun s hs => elementary_breakdown hs

theorem moments_append (m : Machine) (rs rs' : List Request) :
    m.moments (rs ++ rs') = m.moments rs ++ (m.after rs).moments rs' := by
  induction rs generalizing m with
  | nil => rfl
  | cons r rs ih => exact congrArg (_ :: ·) (ih _)

/-- **Cycles that fail** fail in one of them, and go no further. -/
theorem exists_failed_cycle {f : Fault} {n : Nat} {m : Machine}
    (h : ((cycles n).run m).result = .error f) :
    ∃ last : Machine, ⟨last, .execute⟩ ∈ m.moments (cycleRequests n m) ∧
      (execute.run last).result = .error f ∧
      ((cycles n).run m).machine = (execute.run last).machine := by
  induction n generalizing m with
  | zero => cases h
  | succ n ih =>
    have later {e : Moment} (hc : cycleRequests (n + 1) m =
        .execute :: cycleRequests n (execute.run m).machine)
        (he : e ∈ (execute.run m).machine.moments (cycleRequests n (execute.run m).machine)) :
        e ∈ m.moments (cycleRequests (n + 1) m) := by
      rw [hc]
      exact List.mem_cons_of_mem _ he
    rw [run_cycles_succ, Outcome.andThen] at h ⊢
    rcases hx : (execute.run m).result with e | _ | _ | _ <;> simp only [hx] at h ⊢
    -- the first cycle fails, or goes on with or without a drawing, or waits and so cannot fail
    · cases h
      exact ⟨m, List.mem_cons_self, hx, rfl⟩
    · obtain ⟨last, hmem, hf, hm⟩ := ih h
      exact ⟨last, later (by simp only [cycleRequests, hx]) hmem, hf, hm⟩
    · cases h
    · rcases hc : ((cycles n).run (execute.run m).machine).result with e | redraw <;>
        simp only [Outcome.andThen, hc] at h ⊢
      · cases h
        obtain ⟨last, hmem, hf, hm⟩ := ih hc
        exact ⟨last, later (by simp only [cycleRequests, hx]) hmem, hf, hm⟩
      · cases h

theorem exists_moment_of_breakdown_error {f : Fault} {m : Machine} {r : Request}
    (h : (m.serve r).result = .error f) :
    ∃ e ∈ m.moments (m.breakdown r), e.reply.result = .error f := by
  cases r with
  | step =>
    have hx := serve_step_eq_error_iff.1 h
    exact ⟨⟨m, .execute⟩, List.mem_cons_self, serve_execute_eq_error_iff.2 hx⟩
  | frame n keys =>
    obtain ⟨last, hmem, hx, -⟩ := exists_failed_cycle (serve_frame_eq_error_iff.1 h)
    refine ⟨⟨last, .execute⟩, ?_, serve_execute_eq_error_iff.2 hx⟩
    simp only [breakdown, List.cons_append]
    rw [moments, moments_append]
    exact List.mem_cons_of_mem _ (List.mem_append_left _ hmem)
  | _ => exact ⟨_, List.mem_cons_self, h⟩

/-- **A fault of a request** is the fault of one of its moments. -/
theorem exists_moment_of_error {f : Fault} {m : Machine} {rs : List Request} {p : Reply}
    (hp : p ∈ m.replies rs) (hf : p.result = .error f) :
    ∃ e ∈ m.history rs, e.reply.result = .error f := by
  induction rs generalizing m with
  | nil => cases hp
  | cons r rs ih =>
    rw [history]
    rcases List.mem_cons.1 hp with rfl | hp
    · obtain ⟨e, he, hf⟩ := exists_moment_of_breakdown_error hf
      exact ⟨e, List.mem_append_left _ he, hf⟩
    · obtain ⟨e, he, hf⟩ := ih hp
      exact ⟨e, List.mem_append_right _ he, hf⟩

end Machine

end Chip8
