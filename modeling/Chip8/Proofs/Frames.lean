import Chip8.Proofs.History

/-!
# Frames in a row

The cycles inside a frame, and the runs of a host that calls for one frame after the other.

* `executions_frame`: the cycles that a frame runs.
* `trail_cycles`: these cycles follow one another.
* `cycles_unchanged`: what no cycle changes, they do not change.
* `beforeFrame`, `frameAt`: the machines and the frames of a run.
-/

namespace Chip8

namespace Machine

/-- **The cycles that a frame runs**, with the keys of the host in place. -/
theorem executions_frame (m : Machine) (n : Nat) (keys : Keypad) :
    m.executions [.frame n keys] =
      ({ m with keypad := keys } : Machine).moments (cycleRequests n { m with keypad := keys }) := by
  have hcycles : ∀ e ∈ ({ m with keypad := keys } : Machine).moments
      (cycleRequests n { m with keypad := keys }), e.request.isExecute = true := by
    intro e he
    exact Request.isExecute_iff.2
      (elementary_cycleRequests n _ _ (request_mem_of_mem_moments he))
  simp only [executions, history, breakdown, List.append_nil, List.cons_append]
  rw [moments, moments_append, List.filter_cons, if_neg (by simp [Request.isExecute]),
    List.filter_append, serve_setKeys_machine, List.filter_eq_self.2 hcycles]
  -- what follows the cycles is no cycle
  split <;> simp [moments, Request.isExecute]

/-- **The cycles of a frame follow one another**, up to the machine that they leave. -/
theorem trail_cycles (n : Nat) (m : Machine) :
    Trail m (m.moments (cycleRequests n m)) ((cycles n).run m).machine := by
  rw [← after_cycleRequests]
  refine trail_moments m fun r hr => ?_
  rw [elementary_cycleRequests n m r hr]
  trivial

/-- **What no cycle changes**, the cycles of a frame do not change. -/
theorem cycles_unchanged {α : Type} {f : Machine → α}
    (hf : ∀ m, f (execute.run m).machine = f m) (n : Nat) (m : Machine) :
    f ((cycles n).run m).machine = f m := by
  refine ((trail_cycles n m).invariant (P := fun m' => f m' = f m) (fun e he _ h => ?_) rfl).2
  have hexec := elementary_cycleRequests n m _ (request_mem_of_mem_moments he)
  rw [Moment.after_of_execute hexec, hf, h]

variable (m : Machine) (n : Nat) (keys : Nat → Keypad)

/-- The machine before each frame of a run, the frames counted from zero, each of up to `n` cycles
and with its own keys. -/
def beforeFrame : Nat → Machine
  | 0 => m
  | k + 1 => ((beforeFrame k).frame n (keys k)).machine

/-- The frames of a run. -/
def frameAt (k : Nat) : Frame :=
  (m.beforeFrame n keys k).frame n (keys k)

end Machine

end Chip8
