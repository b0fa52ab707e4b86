import Chip8.Proofs.Assembly
import Chip8.Proofs.Calls
import Chip8.Proofs.Core

/-!
# Stored blocks

Two instructions store in memory, and each stores a block of bytes from `I` on. A byte outside the
blocks that a run stores is as before, so registers that were saved in memory can be fetched again.

* `Moment.byteAt_after`: an elementary request leaves a byte alone, unless it is a load or stores a
  block around it.
* `Trail.byteAt_eq`: the same for a run.
* `registers_restored`: registers that were saved are restored later, and registers that were
  fetched can be saved again without a change.
-/

namespace Chip8

namespace Memory

/-- A byte that a store does not reach is as before. -/
theorem byteAt_poke_of_outside (m : Memory) {a i : Nat} {bs : List UInt8}
    (h : i < a ∨ a + bs.length ≤ i) : (m.poke a bs).byteAt i = m.byteAt i := by
  rcases Nat.lt_or_ge i memorySize with hi | hi
  · rw [byteAt_poke _ _ _ _ hi]
    by_cases hle : a ≤ i
    · have hbeyond : bs.length ≤ i - a := by omega
      rw [if_pos hle, List.getElem?_eq_none hbeyond]
      rfl
    · rw [if_neg hle]
  · rw [byteAt_of_le _ hi, byteAt_of_le _ hi]

/-- A word that a store does not reach is as before. -/
theorem readWord_poke_of_outside (m : Memory) {a i : Nat} {bs : List UInt8}
    (h : i + instructionSize ≤ a ∨ a + bs.length ≤ i) :
    (m.poke a bs).readWord i = m.readWord i := by
  simp only [instructionSize] at h
  unfold readWord
  rw [byteAt_poke_of_outside m (by omega), byteAt_poke_of_outside m (by omega)]

/-- A byte that was stored is found again. -/
theorem byteAt_poke_add (m : Memory) {a k : Nat} {bs : List UInt8} (hk : k < bs.length)
    (h : a + k < memorySize) : (m.poke a bs).byteAt (a + k) = bs[k] := by
  rw [byteAt_poke _ _ _ _ h, if_pos (Nat.le_add_right a k), Nat.add_sub_cancel_left,
    List.getElem?_eq_getElem hk]
  rfl

/-- Storing the bytes that are there changes nothing. -/
theorem poke_bytesFrom (m : Memory) (a len : Nat) : m.poke a (m.bytesFrom a len) = m := by
  apply ext_byteAt
  intro i hi
  by_cases h : a ≤ i ∧ i < a + len
  · obtain ⟨k, rfl⟩ : ∃ k, i = a + k := ⟨i - a, by omega⟩
    have hk : k < (m.bytesFrom a len).length := by
      rw [length_bytesFrom]
      omega
    rw [byteAt_poke_add m hk hi]
    simp [bytesFrom]
  · refine byteAt_poke_of_outside m ?_
    rw [length_bytesFrom]
    omega

end Memory

namespace Instruction

/-- How many bytes an instruction stores from `I` on. -/
def blockSize : Instruction → Nat
  | storeDecimal _ => 3
  | storeRegisters x => x + 1
  | _ => 0

/-- An instruction leaves every byte outside its block as it was. -/
theorem Performs.byteAt_eq {m m' : Machine} {i : Instruction} {step : Step} {signal : Signal}
    {log : List Record} (h : Performs m i m' step signal log) {a : Nat}
    (ha : a < m.registers.index.toNat ∨ m.registers.index.toNat + i.blockSize ≤ a) :
    m'.memory.byteAt a = m.memory.byteAt a := by
  cases h with
  | storeDecimal => exact m.memory.byteAt_poke_of_outside ha
  | storeRegisters =>
    refine m.memory.byteAt_poke_of_outside ?_
    rw [Registers.length_upTo]
    exact ha
  | _ => rfl

end Instruction

namespace Moment

open Machine

variable {e : Moment} {i : Instruction} {a x : Nat}

/-- An instruction is performed at this moment that stores a block around the address. -/
def StoresAt (e : Moment) (a : Nat) : Prop :=
  ∃ i, e.Performs i ∧ e.machine.registers.index.toNat ≤ a ∧
    a < e.machine.registers.index.toNat + i.blockSize

/-- The instruction is executed at this moment, whether it succeeds or not. -/
def Meets (e : Moment) (i : Instruction) : Prop :=
  e.request = .execute ∧ e.machine.memory.Holds e.machine.pc i

/-- **An elementary request** other than a load leaves a byte alone, unless it stores a block around
it. -/
theorem byteAt_after (he : e.request.IsElementary) (hload : ∀ program, e.request ≠ .load program)
    (hs : ¬ e.StoresAt a) : e.after.memory.byteAt a = e.machine.memory.byteAt a := by
  by_cases hr : e.request = .execute
  · rw [after_of_execute hr]
    rcases hx : (execute.run e.machine).result with f | signal
    · rw [machine_of_error hx]
    · obtain ⟨w, i, m', step, log, hw, hd, hp, hrun⟩ := performed_of_ok hx
      rw [hrun]
      have hperforms : e.Performs i := ⟨hr, w, signal, hw, hd, hx⟩
      have houtside : a < e.machine.registers.index.toNat ∨
          e.machine.registers.index.toNat + i.blockSize ≤ a := by
        by_contra hinside
        refine hs ⟨i, hperforms, ?_, ?_⟩ <;> omega
      exact hp.byteAt_eq houtside
  · have hcore := core_serve e.machine he hr hload
    have hmemory : e.after.memory = e.machine.memory := congrArg Core.memory hcore
    rw [hmemory]

/-- An instruction that is met succeeds if a rule for it applies. -/
theorem performs_of_meets (h : e.Meets i)
    (hrule : ∀ w, ∃ m' step signal log,
      Instruction.Performs { e.machine with opcode := w } i m' step signal log) :
    e.Performs i := by
  obtain ⟨m, r⟩ := e
  obtain ⟨hr, w, hw, hd⟩ := h
  obtain rfl : r = .execute := hr
  obtain ⟨m', step, signal, log, hp⟩ := hrule w
  exact (performs_of_rule hw hd hp).1

/-- An instruction that is met names registers that exist. -/
theorem namesRegisters_of_meets (h : e.Meets i) : i.NamesRegisters := by
  obtain ⟨-, w, -, hd⟩ := h
  exact Instruction.namesRegisters_of_decode hd

/-- **Saving registers** stores `V0` to `VX` at `I`, and changes no register. -/
theorem after_of_performs_storeRegisters (h : e.Performs (.storeRegisters x)) :
    e.machine.registers.index.toNat + (x + 1) ≤ memorySize ∧
      e.after.memory =
        e.machine.memory.poke e.machine.registers.index.toNat (e.machine.registers.upTo x) := by
  obtain ⟨w, m', step, signal, log, hpc, hp, hafter⟩ := performs_cases h
  cases hp with
  | storeRegisters hx hle =>
    rw [hafter]
    exact ⟨hle, rfl⟩

/-- **Fetching registers** takes `V0` to `VX` from `I` on, and leaves everything else as it was. -/
theorem after_of_performs_fetchRegisters (h : e.Performs (.fetchRegisters x)) :
    e.machine.registers.index.toNat + (x + 1) ≤ memorySize ∧ x < registerCount ∧
      e.after.memory = e.machine.memory ∧
      e.after.registers =
        e.machine.registers.fill
          (e.machine.memory.bytesFrom e.machine.registers.index.toNat (x + 1)) := by
  obtain ⟨w, m', step, signal, log, hpc, hp, hafter⟩ := performs_cases h
  cases hp with
  | fetchRegisters hx hle =>
    rw [hafter]
    exact ⟨hle, hx, rfl, rfl⟩

end Moment

/-- **A byte that a trail neither loads nor stores** is as before. -/
theorem Trail.byteAt_eq {m m' : Machine} {es : List Moment} {a : Nat} (h : Trail m es m')
    (hload : ∀ e ∈ es, ∀ program, e.request ≠ .load program) (hs : ∀ e ∈ es, ¬ e.StoresAt a) :
    m'.memory.byteAt a = m.memory.byteAt a := by
  have hkept := invariant (P := fun m₁ => m₁.memory.byteAt a = m.memory.byteAt a)
    (fun e he hel hbyte => ?_) h rfl
  · exact hkept.2
  · rw [Moment.byteAt_after hel (hload e he) (hs e he), hbyte]

/-- **The core is kept** by a trail without cycles and loads. -/
theorem Trail.core_eq {m m' : Machine} {es : List Moment} (h : Trail m es m')
    (hquiet : ∀ e ∈ es, e.request ≠ .execute ∧ ∀ program, e.request ≠ .load program) :
    m'.core = m.core := by
  have hkept := invariant (P := fun m₁ => m₁.core = m.core) (fun e he hel hcore => ?_) h rfl
  · exact hkept.2
  · obtain ⟨hr, hload⟩ := hquiet e he
    exact (Machine.core_serve e.machine hel hr hload).trans hcore

namespace Registers

/-- Registers up to `VX` that were fetched are the bytes that were there. -/
theorem valueAt_fill_bytesFrom (r : Registers) (memory : Memory) {a x k : Nat}
    (hx : x < registerCount) (hk : k ≤ x) :
    (r.fill (memory.bytesFrom a (x + 1))).valueAt k = memory.byteAt (a + k) := by
  have hlt : k < (memory.bytesFrom a (x + 1)).length := by
    rw [Memory.length_bytesFrom]
    omega
  rw [valueAt_fill _ _ _ (by omega), List.getElem?_eq_getElem hlt]
  simp [Memory.bytesFrom]

/-- Registers behind `VX` are not fetched. -/
theorem valueAt_fill_of_lt (r : Registers) (memory : Memory) {a x k : Nat} (hk : x < k) :
    (r.fill (memory.bytesFrom a (x + 1))).valueAt k = r.valueAt k := by
  rcases Nat.lt_or_ge k registerCount with hlt | hge
  · have hnone : (memory.bytesFrom a (x + 1))[k]? = none := by
      rw [List.getElem?_eq_none_iff, Memory.length_bytesFrom]
      omega
    rw [valueAt_fill _ _ _ hlt, hnone]
    rfl
  · rw [valueAt_of_le _ hge, valueAt_of_le _ hge]

/-- Registers that were fetched are the bytes that were there, all together. -/
theorem upTo_fill_bytesFrom (r : Registers) (memory : Memory) {a x : Nat}
    (hx : x < registerCount) :
    (r.fill (memory.bytesFrom a (x + 1))).upTo x = memory.bytesFrom a (x + 1) := by
  unfold upTo
  conv_rhs => unfold Memory.bytesFrom
  apply List.map_congr_left
  intro k hk
  have hle : k ≤ x := Nat.le_of_lt_succ (List.mem_range.1 hk)
  exact r.valueAt_fill_bytesFrom memory hx hle

end Registers

namespace Machine

/-- **Registers that were saved are restored.** In the history of any session, let `V0` to `VX` be
saved at `I`, and later, with the same `I`, be fetched again. Between the two there is no load and
no byte of the saved block is stored, but everything else may happen. Then the fetching succeeds:
`V0` to `VX` hold what was saved, and the other registers, `I` and memory are as just before.

The other way round, let `V0` to `VX` be fetched and then, with no cycle and no load between, be
saved again. Then the saving succeeds and memory is as it was before both. -/
theorem registers_restored (m : Machine) (session : List Request) (x : Nat) :
    (∀ (before : List Moment) (save : Moment) (between : List Moment) (restore : Moment) later,
      m.history session = before ++ save :: (between ++ restore :: later) →
      save.Performs (.storeRegisters x) →
      (∀ e ∈ between, ∀ program, e.request ≠ .load program) →
      (∀ e ∈ between, ∀ k, k ≤ x → ¬ e.StoresAt (save.machine.registers.index.toNat + k)) →
      restore.Meets (.fetchRegisters x) →
      restore.machine.registers.index = save.machine.registers.index →
      restore.Performs (.fetchRegisters x) ∧
        (∀ k, k ≤ x →
          restore.after.registers.valueAt k = save.machine.registers.valueAt k) ∧
        (∀ k, x < k →
          restore.after.registers.valueAt k = restore.machine.registers.valueAt k) ∧
        restore.after.registers.index = restore.machine.registers.index ∧
        restore.after.memory = restore.machine.memory) ∧
    ∀ (before : List Moment) (fetch : Moment) (between : List Moment) (save : Moment) later,
      m.history session = before ++ fetch :: (between ++ save :: later) →
      fetch.Performs (.fetchRegisters x) →
      (∀ e ∈ between, e.request ≠ .execute ∧ ∀ program, e.request ≠ .load program) →
      save.Meets (.storeRegisters x) →
      save.Performs (.storeRegisters x) ∧ save.after.memory = fetch.machine.memory := by
  have htrail := trail_history m session
  constructor
  · intro before save between restore later hhistory hsave hload hkeep hmeets hindex
    rw [hhistory, Trail.append_iff] at htrail
    obtain ⟨m₁, -, rfl, -, htrail⟩ := htrail
    obtain ⟨m₂, hbetween, rfl, -, -⟩ := Trail.append_iff.1 htrail
    obtain ⟨hle, hsaved⟩ := Moment.after_of_performs_storeRegisters hsave
    have hperforms : restore.Performs (.fetchRegisters x) := by
      refine Moment.performs_of_meets hmeets fun w => ⟨_, _, _, _, .fetchRegisters ?_ ?_⟩
      · exact Moment.namesRegisters_of_meets hmeets x List.mem_cons_self
      · exact hindex ▸ hle
    obtain ⟨-, hx, hmemory, hregisters⟩ := Moment.after_of_performs_fetchRegisters hperforms
    refine ⟨hperforms, ?_, ?_, ?_, hmemory⟩
    · intro k hk
      -- the byte of this register was stored, kept and fetched
      have hkept := hbetween.byteAt_eq hload fun e he => hkeep e he k hk
      have hlt : k < (save.machine.registers.upTo x).length := by
        rw [Registers.length_upTo]
        omega
      have hstored := save.machine.memory.byteAt_poke_add
        (a := save.machine.registers.index.toNat) hlt (by omega)
      rw [hregisters, Registers.valueAt_fill_bytesFrom _ _ hx hk, hindex, hkept, hsaved, hstored]
      simp [Registers.upTo]
    · intro k hk
      rw [hregisters, Registers.valueAt_fill_of_lt _ _ hk]
    · rw [hregisters, Registers.index_fill]
  · intro before fetch between save later hhistory hfetch hquiet hmeets
    rw [hhistory, Trail.append_iff] at htrail
    obtain ⟨m₁, -, rfl, -, htrail⟩ := htrail
    obtain ⟨m₂, hbetween, rfl, -, -⟩ := Trail.append_iff.1 htrail
    obtain ⟨hle, hx, hmemory, hregisters⟩ := Moment.after_of_performs_fetchRegisters hfetch
    have hcore := hbetween.core_eq hquiet
    have hregisters : save.machine.registers = _ := (congrArg Core.registers hcore).trans hregisters
    have hmemory : save.machine.memory = _ := (congrArg Core.memory hcore).trans hmemory
    have hperforms : save.Performs (.storeRegisters x) := by
      refine Moment.performs_of_meets hmeets fun w => ⟨_, _, _, _, .storeRegisters hx ?_⟩
      show save.machine.registers.index.toNat + (x + 1) ≤ memorySize
      rw [hregisters, Registers.index_fill]
      exact hle
    obtain ⟨-, hsaved⟩ := Moment.after_of_performs_storeRegisters hperforms
    refine ⟨hperforms, ?_⟩
    rw [hsaved, hmemory, hregisters, Registers.index_fill, Registers.upTo_fill_bytesFrom _ _ hx,
      Memory.poke_bytesFrom]

/-- The machine after a single request is the one after its moment. -/
theorem after_singleton (m : Machine) (r : Request) : m.after [r] = Moment.after ⟨m, r⟩ :=
  rfl

/-- Two registers are saved, one of them is changed, both are restored and saved again. -/
theorem registers_restored_two :
    let program : List UInt8 := [0xF1, 0x55, 0x61, 0x09, 0xF1, 0x65, 0xF1, 0x55]
    let m : Machine :=
      { boot (.repeating #[]) with
        memory := Memory.blank.poke programStart program
        registers := (Registers.blank.write 1 7).setIndex 0x300 }
    let changed := m.after [.execute, .execute, .tick]
    let restored := changed.after [.execute]
    changed.registers.valueAt 1 = 9 ∧ restored.registers.valueAt 1 = 7 ∧
      restored.memory = changed.memory ∧
      (restored.after [.tick, .execute]).memory = changed.memory := by
  intro program m changed restored
  let memory := m.memory
  have hfit : program.length ≤ programCapacity := by decide
  let saved := memory.poke 0x300 (m.registers.upTo 1)
  have hsaved {a : Nat} (ha : a + 2 ≤ 0x300) : saved.readWord a = memory.readWord a :=
    memory.readWord_poke_of_outside (.inl ha)
  have h₀ : memory.readWord 0x200 = .ok 0xF155 :=
    Memory.blank.readWord_program (k := 0) hfit rfl rfl
  have h₂ : saved.readWord 0x202 = .ok 0x6109 :=
    (hsaved (by decide)).trans (Memory.blank.readWord_program (k := 2) hfit rfl rfl)
  have h₄ : saved.readWord 0x204 = .ok 0xF165 :=
    (hsaved (by decide)).trans (Memory.blank.readWord_program (k := 4) hfit rfl rfl)
  have h₆ : saved.readWord 0x206 = .ok 0xF155 :=
    (hsaved (by decide)).trans (Memory.blank.readWord_program (k := 6) hfit rfl rfl)
  -- the machines between the four instructions; the timers stand still
  let m₁ : Machine := { m with opcode := 0xF155, memory := saved, pc := 0x202 }
  let m₂ : Machine :=
    { m₁ with opcode := 0x6109, registers := m.registers.write 1 9, pc := 0x204 }
  let m₃ : Machine :=
    { m₂ with
      opcode := 0xF165, pc := 0x206
      registers := m₂.registers.fill (saved.bytesFrom 0x300 2) }
  obtain ⟨hsave, hm₁⟩ := Moment.performs_of_rule (m := m) (i := .storeRegisters 1) h₀ rfl
    (.storeRegisters (by decide) (by decide))
  obtain ⟨-, hm₂⟩ := Moment.performs_of_rule (m := m₁) (i := .load 1 9) h₂ rfl
    (.load 9 (by decide))
  obtain ⟨hfetch, hm₃⟩ := Moment.performs_of_rule (m := m₂) (i := .fetchRegisters 1) h₄ rfl
    (.fetchRegisters (by decide) (by decide))
  have hm₁ : (m.serve .execute).machine = m₁ := hm₁
  have hm₂ : (m₁.serve .execute).machine = m₂ := hm₂
  have hm₃ : (m₂.serve .execute).machine = m₃ := hm₃
  have ht₂ : (m₂.serve .tick).machine = m₂ := serve_tick_machine m₂
  have ht₃ : (m₃.serve .tick).machine = m₃ := serve_tick_machine m₃
  have hhistory : m.history [.execute, .execute, .tick, .execute, .tick, .execute] =
      [⟨m, .execute⟩, ⟨m₁, .execute⟩, ⟨m₂, .tick⟩, ⟨m₂, .execute⟩, ⟨m₃, .tick⟩,
        ⟨m₃, .execute⟩] := by
    simp only [history, breakdown, hm₁, hm₂, hm₃, ht₂, ht₃]
    rfl
  have hkeep : ∀ e ∈ [(⟨m₁, .execute⟩ : Moment), ⟨m₂, .tick⟩], ∀ k, k ≤ 1 →
      ¬ e.StoresAt (m.registers.index.toNat + k) := by
    rintro e he k - ⟨i, ⟨hr, w, signal, hw, hd, -⟩, hlow, hhigh⟩
    simp only [List.mem_cons, List.not_mem_nil, or_false] at he
    rcases he with rfl | rfl
    · have hw : saved.readWord 0x202 = .ok w := hw
      rw [h₂] at hw
      cases hw
      cases hd
      have hnone : m.registers.index.toNat + k < m.registers.index.toNat + 0 := hhigh
      omega
    · cases hr
  obtain ⟨hrestore, hresave⟩ := registers_restored m
    [.execute, .execute, .tick, .execute, .tick, .execute] 1
  obtain ⟨-, hvalue, -, -, hmemory⟩ := hrestore [] ⟨m, .execute⟩
    [⟨m₁, .execute⟩, ⟨m₂, .tick⟩] ⟨m₂, .execute⟩ _ hhistory hsave (by simp) hkeep
    ⟨rfl, _, h₄, rfl⟩ rfl
  obtain ⟨-, hagain⟩ := hresave [⟨m, .execute⟩, ⟨m₁, .execute⟩, ⟨m₂, .tick⟩] ⟨m₂, .execute⟩
    [⟨m₃, .tick⟩] ⟨m₃, .execute⟩ _ hhistory hfetch (by simp) ⟨rfl, _, h₆, rfl⟩
  have hchanged : changed = m₂ := by
    show m.after [.execute, .execute, .tick] = m₂
    rw [after, hm₁, after, hm₂, after, ht₂, after]
  have hrestored : restored = Moment.after ⟨m₂, .execute⟩ := by
    rw [← after_singleton, ← hchanged]
  have hresaved : restored.after [.tick, .execute] = Moment.after ⟨m₃, .execute⟩ := by
    have hrest : m₂.after [.execute] = m₃ := by rw [after, hm₃, after]
    show (changed.after [.execute]).after [.tick, .execute] = _
    rw [hchanged, hrest, after, ht₃, after_singleton]
  rw [hresaved, hrestored, hchanged, hvalue 1 (Nat.le_refl 1)]
  exact ⟨by decide, by decide, hmemory, hagain⟩

end Machine

end Chip8
