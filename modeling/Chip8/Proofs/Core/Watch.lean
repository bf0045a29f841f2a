import Chip8.Core.Tick

namespace Chip8

/-- What the host keeps in the processor for watching programs. -/
def Cpu.watch (c : Cpu) : Bool × Nat × List Word :=
  (c.debug, c.cycle, c.breakpoints)

namespace Core

/-- The same core with other slots for return addresses and under another watch. -/
def disguise (c : Core) (stack : CallStack) (watch : Bool × Nat × List Word) : Core :=
  { c with cpu :=
      { c.cpu with
        stack := stack
        debug := watch.1
        cycle := watch.2.1
        breakpoints := watch.2.2 } }

/-- The outcome `o'` is the outcome `o` under a watch, with a stack that shows the same open calls. If
the stack `t` from which `o'` came had no other slots than that of `c`, then no slot is different
afterwards. -/
structure Disguised (c : Core) (t : CallStack) (watch : Bool × Nat × List Word)
    (o o' : Outcome) (t' : CallStack) : Prop where
  outcome : o' = (o.1.disguise t' watch, o.2)
  live : t'.toList = o.1.cpu.stack.toList
  slots : t = c.cpu.stack → t' = o.1.cpu.stack

variable {c : Core} {t : CallStack} {watch : Bool × Nat × List Word} {roll : UInt8}

/-- An instruction that does not touch the stack does not look at it either. -/
theorem Disguised.of_level {o o' : Outcome} (hlive : t.toList = c.cpu.stack.toList)
    (hstack : o.1.cpu.stack = c.cpu.stack) (houtcome : o' = (o.1.disguise t watch, o.2)) :
    Disguised c t watch o o' t :=
  ⟨houtcome, hstack ▸ hlive, fun h => h.trans hstack.symm⟩

theorem skipIf_disguise (c : Core) (t : CallStack) (watch : Bool × Nat × List Word)
    (condition : Bool) :
    ({ c.disguise t watch with cpu := (c.disguise t watch).cpu.skipIf condition } : Core) =
      ({ c with cpu := c.cpu.skipIf condition } : Core).disguise t watch := by
  cases condition <;> rfl

/-- No instruction looks at the slots that hold no open call, or at what the host keeps for watching
it. The stack matters to a call and a return only, and these see its open calls. -/
theorem exists_execute_disguised (watch : Bool × Nat × List Word) (roll : UInt8)
    (insn : Instruction Reg) (hlive : t.toList = c.cpu.stack.toList) :
    ∃ t', Disguised c t watch (c.execute roll insn) ((c.disguise t watch).execute roll insn) t' := by
  cases insn with
  | ret =>
    cases hpop : c.cpu.stack.pop? with
    | none =>
      have hempty : t.pop? = none := by
        rw [CallStack.pop?_eq_none_iff, hlive]
        exact (CallStack.pop?_eq_none_iff _).mp hpop
      refine ⟨t, .of_level hlive ?_ ?_⟩ <;> simp only [execute, returnFromCall, hpop]
      simp only [disguise, hempty]
    | some top =>
      obtain ⟨addr, stack⟩ := top
      obtain ⟨t', htake, hrest⟩ := CallStack.exists_pop?_of_toList hlive hpop
      refine ⟨t', ?_, ?_, ?_⟩ <;> simp only [execute, returnFromCall, hpop]
      · simp only [disguise, htake]
      · exact hrest
      · rintro rfl
        rw [hpop] at htake
        cases htake
        rfl
  | call a =>
    cases hpush : c.cpu.stack.push? c.cpu.pc with
    | none =>
      have hfull : t.push? c.cpu.pc = none := by
        rw [CallStack.push?_eq_none_iff, ← CallStack.length_toList, hlive, CallStack.length_toList]
        exact (CallStack.push?_eq_none_iff _ _).mp hpush
      refine ⟨t, .of_level hlive ?_ ?_⟩ <;> simp only [execute, callTo, hpush]
      simp only [disguise, hfull]
    | some stack =>
      obtain ⟨t', htake, hrest⟩ := CallStack.exists_push?_of_toList hlive hpush
      refine ⟨t', ?_, ?_, ?_⟩ <;> simp only [execute, callTo, hpush]
      · simp only [disguise, htake]
      · exact hrest
      · rintro rfl
        rw [hpush] at htake
        cases htake
        rfl
  | skipEqByte | skipNeByte | skipEq | skipNe =>
    exact ⟨t, .of_level hlive (Cpu.stack_skipIf _ _) (congrArg (·, _) (c.skipIf_disguise t watch _))⟩
  | alu op y x => cases op <;> exact ⟨t, .of_level hlive rfl rfl⟩
  | draw y x n =>
    refine ⟨t, .of_level hlive ?_ ?_⟩ <;> simp only [execute, drawSprite, disguise, Cpu.reg]
    · split <;> rfl
    · split <;> rfl
  | load x =>
    refine ⟨t, .of_level hlive ?_ ?_⟩ <;> simp only [execute, loadRegisters, disguise]
    · split
      · rfl
      · exact Cpu.stack_setLeading _ _
    · split <;> rfl
  | _ => exact ⟨t, .of_level hlive rfl rfl⟩

/-- How many cycles a tick counts that ended in this way. -/
def cyclesOf : Except Error Unit → Nat
  | .ok () => 1
  | .error _ => 0

/-- What becomes of a watch when a tick ends: the cycles are counted on, and no more. -/
def watchAfter (watch : Bool × Nat × List Word) (answer : Except Error Unit) :
    Bool × Nat × List Word :=
  (watch.1, watch.2.1 + cyclesOf answer, watch.2.2)

/-- The same for a whole tick. A fetch sees the program counter and memory, and only the
count of cycles moves on. -/
theorem exists_tick_disguised (watch : Bool × Nat × List Word) (roll : UInt8)
    (hlive : t.toList = c.cpu.stack.toList) :
    ∃ t', Disguised c t (watchAfter watch (c.tick roll).2) (c.tick roll)
      ((c.disguise t watch).tick roll) t' := by
  have hfetch : (c.disguise t watch).cpu.fetch (c.disguise t watch).mem = c.cpu.fetch c.mem := rfl
  rw [tick, tick, hfetch]
  cases c.cpu.fetch c.mem with
  | error e => exact ⟨t, .of_level hlive rfl rfl⟩
  | ok word =>
    dsimp only
    cases Instruction.ofWord? word with
    | none => exact ⟨t, .of_level hlive rfl rfl⟩
    | some insn =>
      have hadvance : (c.disguise t watch).advance = c.advance.disguise t watch := rfl
      obtain ⟨t', houtcome, hlive', hslots⟩ :=
        exists_execute_disguised (c := c.advance) watch roll insn hlive
      dsimp only
      rw [hadvance, houtcome]
      refine ⟨t', ?_⟩
      generalize c.advance.execute roll insn = o at hlive' hslots
      obtain ⟨d, result⟩ := o
      cases result with
      | error e => exact ⟨rfl, hlive', hslots⟩
      | ok _ => exact ⟨rfl, hlive', hslots⟩

/-- Of what the host watches, a tick changes the count of cycles alone. -/
theorem watch_tick (c : Core) (roll : UInt8) :
    (c.tick roll).1.cpu.watch = watchAfter c.cpu.watch (c.tick roll).2 := by
  obtain ⟨t', hdisguised⟩ := exists_tick_disguised (c := c) c.cpu.watch roll rfl
  exact congrArg (fun o : Outcome => o.1.cpu.watch) hdisguised.outcome

/-- The same core with its watch changed. -/
def rewatch (c : Core) (change : Bool × Nat × List Word → Bool × Nat × List Word) : Core :=
  c.disguise c.cpu.stack (change c.cpu.watch)

/-- A tick does the same under a changed watch, if the change leaves alone how cycles are counted. -/
theorem tick_rewatch (c : Core) (change : Bool × Nat × List Word → Bool × Nat × List Word)
    (hcounts : ∀ watch answer, watchAfter (change watch) answer = change (watchAfter watch answer))
    (roll : UInt8) :
    (c.rewatch change).tick roll = ((c.tick roll).1.rewatch change, (c.tick roll).2) := by
  obtain ⟨t', houtcome, _, hslots⟩ :=
    exists_tick_disguised (c := c) (change c.cpu.watch) roll rfl
  rw [hslots rfl, hcounts, ← watch_tick] at houtcome
  exact houtcome

theorem debug_tick (c : Core) (roll : UInt8) : (c.tick roll).1.cpu.debug = c.cpu.debug :=
  congrArg (fun watch => watch.1) (c.watch_tick roll)

theorem cycle_tick (c : Core) (roll : UInt8) :
    (c.tick roll).1.cpu.cycle = c.cpu.cycle + cyclesOf (c.tick roll).2 :=
  congrArg (fun watch => watch.2.1) (c.watch_tick roll)

theorem breakpoints_tick (c : Core) (roll : UInt8) :
    (c.tick roll).1.cpu.breakpoints = c.cpu.breakpoints :=
  congrArg (fun watch => watch.2.2) (c.watch_tick roll)

end Core

end Chip8
