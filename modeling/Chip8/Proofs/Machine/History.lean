import Chip8.Proofs.Core.Block
import Chip8.Proofs.Machine.Lifecycle

namespace Chip8

namespace Core

variable {c : Core} {roll : UInt8}

/-- `FX55` is the only instruction that writes to memory. -/
theorem mem_execute {insn : Instruction Reg} (hother : ∀ x, insn ≠ .store x) :
    (c.execute roll insn).1.mem = c.mem := by
  cases insn with
  | ret =>
    rw [execute, returnFromCall]
    split <;> rfl
  | call a =>
    rw [execute, callTo]
    split <;> rfl
  | draw y x n =>
    rw [execute, drawSprite]
    dsimp only
    split <;> rfl
  | store x => exact absurd rfl (hother x)
  | load x =>
    rw [execute, loadRegisters]
    split <;> rfl
  | _ => rfl

/-- A tick that faults writes nothing, not even a part of a block. -/
theorem mem_tick_of_error {e : Error} (herror : (c.tick roll).2 = .error e) :
    (c.tick roll).1.mem = c.mem := by
  rw [tick_of_fault roll ((c.tick_eq_error_iff roll e).mp herror)]
  split <;> rfl

/-- Whatever else is executed, memory stays as it is. -/
theorem mem_tick_of_not_fits (hfits : ¬ c.word.Fits "FX55") : (c.tick roll).1.mem = c.mem := by
  cases hanswer : (c.tick roll).2 with
  | error e => exact mem_tick_of_error hanswer
  | ok _ =>
    obtain ⟨insn, d, _, hinsn, hexecute, hafter⟩ := exists_execute_of_tick_ok hanswer
    have hother (x : Reg) : insn ≠ .store x := by
      rintro rfl
      exact hfits (Instruction.fits_form_of_ofWord? hinsn)
    have hmem : (c.advance.execute roll insn).1.mem = c.advance.mem := mem_execute hother
    rw [hexecute] at hmem
    rw [hafter]
    exact hmem

/-- An `FX55` that does not fault stores its block. -/
theorem storesBlock_of_tick_ok (hok : (c.tick roll).2 = .ok ()) (hfits : c.word.Fits "FX55") :
    c.StoresBlock c.operandX (c.tick roll).1.mem := by
  obtain ⟨_, _, hpc, _⟩ := exists_execute_of_tick_ok hok
  have hroom : c.cpu.i.toNat + c.operandX.val ≤ 4095 := by
    apply Nat.le_of_not_lt
    intro hspan
    have hblock : Fault.block.Holds c := ⟨hpc, Or.inl hfits, hspan⟩
    rw [(c.tick_eq_error_iff roll _).mpr (Fault.fault?_of_holds hblock)] at hok
    cases hok
  obtain ⟨mem, hstore, hstores⟩ := exists_stored hroom
  rw [tick_of_stored hstore hpc hfits rfl]
  exact hstores

/-- What is fetched are the two bytes at the program counter. -/
theorem fetch_eq_ok_iff (c : Core) (word : Word) : c.cpu.fetch c.mem = .ok word ↔
    c.mem.read c.cpu.pc.toNat = .ok word.high ∧ c.mem.read (c.cpu.pc.toNat + 1) = .ok word.low := by
  have hfetch : c.cpu.fetch c.mem = .ok word ↔ c.mem.readWord c.cpu.pc.toNat = .ok word := by
    by_cases hpc : Memory.size - 2 < c.cpu.pc.toNat
    · have hout : ¬ Memory.Within c.cpu.pc.toNat (c.cpu.pc.toNat + 2) :=
        fun hwithin => absurd hwithin.2 (by omega)
      rw [Cpu.fetch, if_pos hpc, Memory.readWord, dif_neg hout]
      simp only [reduceCtorEq]
    · rw [Cpu.fetch, if_neg hpc]
  rw [hfetch, Memory.readWord_eq_ok_iff]
  constructor
  · rintro ⟨high, low, hhigh, hlow, hword⟩
    have hbytes : word = Word.ofBytes high low := UInt16.toNat_inj.mp (hword.trans (by simp))
    rw [hbytes, Word.high_ofBytes, Word.low_ofBytes]
    exact ⟨hhigh, hlow⟩
  · rintro ⟨hhigh, hlow⟩
    refine ⟨word.high, word.low, hhigh, hlow, ?_⟩
    rw [Word.toNat_high, Word.toNat_low]
    exact (Nat.div_add_mod _ 256).symm

end Core

namespace Machine

theorem mem_pause (m : Machine) : m.pause.mem = m.mem := by
  unfold pause
  split <;> rfl

theorem mem_resume (m : Machine) : m.resume.mem = m.mem := by
  unfold resume
  split <;> rfl

end Machine

namespace Run

/-- The next instruction completes, it is `FX55`, and the block that it stores covers an address. -/
structure Stores (r : Run) (addr : Nat) : Prop where
  completes : r.tick.2 = .ok ()
  fits : r.machine.toCore.word.Fits "FX55"
  after_start : r.machine.cpu.i.toNat ≤ addr
  up_to_end : addr ≤ r.machine.cpu.i.toNat + r.machine.toCore.operandX.val

/-- The states in which up to `n` steps execute an instruction, in their order. -/
def moments (r : Run) : Nat → List Run
  | 0 => []
  | n + 1 => if r.machine.state = .running then r :: r.step.1.moments n else []

/-- The states in which a call executes an instruction. -/
def momentsOf (r : Run) : HostCall → List Run
  | .step => r.moments 1
  | .multistep n => r.moments n
  | _ => []

/-- The states in which calls one after the other execute an instruction. -/
def history (r : Run) : List HostCall → List Run
  | [] => []
  | call :: rest => r.momentsOf call ++ (r.perform call).1.history rest

/-- The call does not load a program, and if it edits the machine it leaves memory alone. -/
def SparesMemory (r : Run) : HostCall → Prop
  | .load _ _ | .loadProgram _ => False
  | .edit core _ _ => core.mem = r.machine.mem
  | _ => True

/-- None of the calls writes to memory but by executing instructions. -/
def Undisturbed (r : Run) : List HostCall → Prop
  | [] => True
  | call :: rest => r.SparesMemory call ∧ (r.perform call).1.Undisturbed rest

end Run

/-- Executing one instruction in each of the states leads from one memory to another. -/
inductive Leads : Memory → List Run → Memory → Prop where
  | nil (m : Memory) : Leads m [] m
  | cons {r : Run} {rest : List Run} {last : Memory}
      (htail : Leads r.tick.1.machine.mem rest last) : Leads r.machine.mem (r :: rest) last

/-- Every byte of `last` is the one that was last stored to its address in one of the states, or else
that of `first`. -/
structure LastWritten (first : Memory) (history : List Run) (last : Memory) : Prop where
  stored : ∀ before r after addr, history = before ++ r :: after → r.Stores addr →
    (∀ s ∈ after, ¬ s.Stores addr) →
    ∃ j : Reg, addr = r.machine.cpu.i.toNat + j.val ∧ last.read addr = .ok (r.machine.cpu.reg j)
  untouched : ∀ addr, (∀ r ∈ history, ¬ r.Stores addr) → last.read addr = first.read addr

namespace Run

variable {r : Run} {addr : Nat}

theorem mem_tick (r : Run) :
    r.tick.1.machine.mem = (r.machine.toCore.tick r.noise.next).1.mem := by
  rw [toCore_tick]

/-- A byte that is stored is that of the register whose cell it is. -/
theorem read_tick_of_stores (h : r.Stores addr) :
    ∃ j : Reg, addr = r.machine.cpu.i.toNat + j.val ∧
      r.tick.1.machine.mem.read addr = .ok (r.machine.cpu.reg j) := by
  obtain ⟨hok, hfits, hstart, hend⟩ := h
  rw [answer_tick] at hok
  obtain ⟨hstored, _⟩ := Core.storesBlock_of_tick_ok hok hfits
  have hx := r.machine.toCore.operandX.isLt
  obtain ⟨k, rfl⟩ := Nat.exists_eq_add_of_le hstart
  have hk : k ≤ r.machine.toCore.operandX.val := Nat.le_of_add_le_add_left hend
  rw [mem_tick]
  exact ⟨⟨k, Nat.lt_of_le_of_lt hk hx⟩, rfl, hstored ⟨k, _⟩ hk⟩

/-- Memory outlasts everything but an `FX55` that completes. -/
theorem mem_tick_of_quiet
    (hquiet : (∃ e, r.tick.2 = .error e) ∨ ¬ r.machine.toCore.word.Fits "FX55") :
    r.tick.1.machine.mem = r.machine.mem := by
  rw [mem_tick]
  obtain ⟨e, herror⟩ | hfits := hquiet
  · exact Core.mem_tick_of_error (r.answer_tick.symm.trans herror)
  · exact Core.mem_tick_of_not_fits hfits

/-- A byte outside the block stays, and so does every byte if there is no block. -/
theorem read_tick_of_not_stores (h : ¬ r.Stores addr) :
    r.tick.1.machine.mem.read addr = r.machine.mem.read addr := by
  cases hanswer : r.tick.2 with
  | error e => rw [mem_tick_of_quiet (Or.inl ⟨e, hanswer⟩)]
  | ok _ =>
    by_cases hfits : r.machine.toCore.word.Fits "FX55"
    · have hok := r.answer_tick.symm.trans hanswer
      obtain ⟨_, hothers⟩ := Core.storesBlock_of_tick_ok hok hfits
      rw [mem_tick]
      apply hothers
      rintro j hj rfl
      exact h ⟨hanswer, hfits, Nat.le_add_right _ _, Nat.add_le_add_left hj _⟩
    · rw [mem_tick_of_quiet (Or.inr hfits)]

end Run

namespace Leads

variable {first middle last : Memory} {before after history : List Run} {r : Run}

theorem of_eq (h : last = first) : Leads first [] last := by
  rw [h]
  exact .nil first

theorem append (hbefore : Leads first before middle) (hafter : Leads middle after last) :
    Leads first (before ++ after) last := by
  induction hbefore with
  | nil m => exact hafter
  | cons htail ih => exact .cons (ih hafter)

/-- Each of the states has the memory to which those before it have led. -/
theorem to_state (h : Leads first (before ++ r :: after) last) :
    Leads first before r.machine.mem := by
  induction before generalizing first with
  | nil =>
    cases h
    exact .nil _
  | cons s rest ih =>
    cases h with
    | cons htail => exact .cons (ih htail)

/-- Stores that follow each other leave the last one to each address. -/
theorem lastWritten (h : Leads first history last) : LastWritten first history last := by
  induction h with
  | nil m =>
    refine ⟨fun before r after addr hsplit => ?_, fun _ _ => rfl⟩
    exact absurd hsplit.symm (by simp)
  | @cons r rest last htail ih =>
    -- What the first state stores stays until a later one stores to the same address.
    refine ⟨fun before s after addr hsplit hstores hlatest => ?_, fun addr hnone => ?_⟩
    · cases before with
      | nil =>
        cases hsplit
        obtain ⟨j, haddr, hread⟩ := Run.read_tick_of_stores hstores
        exact ⟨j, haddr, (ih.untouched addr hlatest).trans hread⟩
      | cons _ before =>
        cases hsplit
        exact ih.stored before s after addr rfl hstores hlatest
    · have hrest := ih.untouched addr fun s hs => hnone s (List.mem_cons_of_mem _ hs)
      exact hrest.trans (Run.read_tick_of_not_stores (hnone r List.mem_cons_self))

end Leads

namespace Run

variable {r : Run}

theorem mem_step_of_running (hrun : r.machine.state = .running) :
    r.step.1.machine.mem = r.tick.1.machine.mem := by
  have hends := r.step_ends
  generalize r.step = o at hends ⊢
  cases hends with
  | stopped hstopped => exact absurd hrun hstopped
  | _ => rfl

/-- A step writes to memory only if its tick does. -/
theorem mem_step_of_mem_tick (htick : r.tick.1.machine.mem = r.machine.mem) :
    r.step.1.machine.mem = r.machine.mem := by
  by_cases hrun : r.machine.state = .running
  · rw [mem_step_of_running hrun, htick]
  · rw [step_of_stopped hrun]

theorem moments_one (hrun : r.machine.state = .running) : r.moments 1 = [r] := by
  rw [moments, if_pos hrun, moments]

/-- Steps write to memory in the states in which they execute an instruction. -/
theorem moments_lead_steps (r : Run) (n : Nat) :
    Leads r.machine.mem (r.moments n) (r.steps n).1.machine.mem := by
  induction n generalizing r with
  | zero => exact .nil _
  | succ n ih =>
    rw [moments, steps_succ]
    split
    · next hrun =>
      have htail := ih r.step.1
      rw [mem_step_of_running hrun] at htail
      exact .cons htail
    · next hstopped =>
      rw [step_of_stopped hstopped, steps_of_stopped hstopped]
      exact .nil _

/-- A call writes to memory by executing instructions, unless it loads or edits it. -/
theorem momentsOf_lead_perform {call : HostCall} (h : r.SparesMemory call) :
    Leads r.machine.mem (r.momentsOf call) (r.perform call).1.machine.mem := by
  cases call with
  | load font program => exact h.elim
  | loadProgram program => exact h.elim
  | step => exact r.moments_lead_steps 1
  | multistep n =>
    rw [perform, (r.multistep_sumsUp n).run]
    exact r.moments_lead_steps n
  | tickTimers => exact .nil _
  | pause => exact .of_eq r.machine.mem_pause
  | resume => exact .of_eq r.machine.mem_resume
  | edit core timers keypad => exact .of_eq h

/-- The memory in the end is what the whole history makes of that at first. -/
theorem history_leads_performAll {calls : List HostCall} (h : r.Undisturbed calls) :
    Leads r.machine.mem (r.history calls) (r.performAll calls).1.machine.mem := by
  induction calls generalizing r with
  | nil => exact .nil _
  | cons call rest ih => exact (momentsOf_lead_perform h.1).append (ih h.2)

/-- As long as nothing but the machine writes to memory, each of its bytes is the register that the
latest completed `FX55` over its address stored there, and the byte that was there at first if there
was none. Whatever is executed in between was fetched from this memory, and no other instruction and
none that faults changes it. -/
theorem memory_is_last_written (r : Run) (calls : List HostCall) (h : r.Undisturbed calls) :
    LastWritten r.machine.mem (r.history calls) (r.performAll calls).1.machine.mem ∧
      (∀ before s after, r.history calls = before ++ s :: after →
        LastWritten r.machine.mem before s.machine.mem ∧
        ∀ word, s.machine.cpu.fetch s.machine.mem = .ok word ↔
          s.machine.mem.read s.machine.cpu.pc.toNat = .ok word.high ∧
            s.machine.mem.read (s.machine.cpu.pc.toNat + 1) = .ok word.low) ∧
      ∀ s : Run, (∃ e, s.tick.2 = .error e) ∨ ¬ s.machine.toCore.word.Fits "FX55" →
        s.tick.1.machine.mem = s.machine.mem ∧ s.step.1.machine.mem = s.machine.mem := by
  have hleads := history_leads_performAll h
  refine ⟨hleads.lastWritten, ?_, ?_⟩
  · intro before s after hsplit
    rw [hsplit] at hleads
    exact ⟨hleads.to_state.lastWritten, s.machine.toCore.fetch_eq_ok_iff⟩
  · intro s hquiet
    have htick := mem_tick_of_quiet hquiet
    exact ⟨htick, mem_step_of_mem_tick htick⟩

private theorem history_two_steps (hfirst : r.machine.state = .running)
    (hsecond : r.step.1.machine.state = .running) :
    r.history [.step, .step] = [r, r.step.1] := by
  have htail : (r.perform .step).1.moments 1 = [r.step.1] := moments_one hsecond
  rw [history, history, history, momentsOf, momentsOf, moments_one hfirst, htail]
  rfl

/-- The next instruction is `F155`, and the block is the instruction after it. -/
def rewritesNext : Run :=
  start
    { toCore := .loaded { Cpu.initial false with
        i := 0x202
        v := .ofFn fun j => if j.val = 0 then 0x61 else 0x42 } [0xF1, 0x55]
      timers := .zero
      keypad := .released
      state := .running }
    (.ofSeed 0)

/-- The second step executes the word that the first one has stored. -/
theorem memory_is_last_written_next :
    rewritesNext.Undisturbed [.step, .step] ∧
      rewritesNext.step.1.machine.cpu.fetch rewritesNext.step.1.machine.mem = .ok 0x6142 ∧
      (rewritesNext.performAll [.step, .step]).1.machine.mem.read 0x203 = .ok 0x42 := by
  have hword : rewritesNext.machine.toCore.word = 0xF155 := Core.word_loaded rfl 0xF1 0x55 []
  have hfits : rewritesNext.machine.toCore.word.Fits "FX55" := hword ▸ by decide
  have hx : rewritesNext.machine.toCore.operandX = 1 :=
    Core.operandX_of_word hword
  have hi : rewritesNext.machine.cpu.i.toNat = 0x202 := rfl
  obtain ⟨mem, hstore, _⟩ := Core.exists_stored (c := rewritesNext.machine.toCore) (x := 1) (by decide)
  have hticked : rewritesNext.machine.toCore.tick rewritesNext.noise.next = _ :=
    Core.tick_of_stored hstore (by decide) hfits hx
  have hok : rewritesNext.tick.2 = .ok () := by rw [answer_tick, hticked]
  have hclear : rewritesNext.tick.1.machine.toCore.cpu.atBreakpoint = false := by
    rw [toCore_tick, hticked]
    rfl
  have hstep := step_of_tick_clear rfl hok hclear
  have hpc : rewritesNext.step.1.machine.toCore.cpu.pc.toNat = 0x202 := by
    rw [hstep, toCore_tick, hticked]
    rfl
  have hrun : rewritesNext.step.1.machine.state = .running := by
    rw [hstep, state_tick]
    rfl
  have hhistory := history_two_steps (r := rewritesNext) rfl hrun
  have hspared : rewritesNext.Undisturbed [.step, .step] := ⟨trivial, trivial, trivial⟩
  obtain ⟨hlast, hmoments, _⟩ := memory_is_last_written rewritesNext [.step, .step] hspared
  obtain ⟨hwritten, hfetch⟩ := hmoments [rewritesNext] _ [] hhistory
  have hstores (j : Reg) (hj : j.val ≤ 1) : rewritesNext.Stores (0x202 + j.val) := by
    refine ⟨hok, hfits, ?_, ?_⟩
    · rw [hi]
      exact Nat.le_add_right _ _
    · rw [hi, hx]
      exact Nat.add_le_add_left hj _
  have hread (j : Reg) (hj : j.val ≤ 1) :
      rewritesNext.step.1.machine.mem.read (0x202 + j.val) = .ok (rewritesNext.machine.cpu.reg j) := by
    obtain ⟨j', hsame, hread⟩ := hwritten.stored [] _ [] _ rfl (hstores j hj) nofun
    rw [hi] at hsame
    rw [hread, Fin.ext (Nat.add_left_cancel hsame)]
  have hnext : rewritesNext.step.1.machine.cpu.fetch rewritesNext.step.1.machine.mem = .ok 0x6142 := by
    rw [hfetch, hpc]
    exact ⟨hread 0 (by decide), hread 1 (by decide)⟩
  have hother : ¬ rewritesNext.step.1.Stores 0x203 := by
    intro hstores
    have hfits := hstores.fits
    rw [Core.fetch_of_le (by rw [hpc]; decide)] at hnext
    rw [Except.ok.inj hnext] at hfits
    exact absurd hfits (by decide)
  obtain ⟨j, hsame, hfinal⟩ := hlast.stored [] _ [rewritesNext.step.1] 0x203 hhistory
    (hstores 1 (by decide)) (fun s hs => List.mem_singleton.mp hs ▸ hother)
  have hj : j = 1 := Fin.ext (by rw [hi] at hsame; exact (Nat.add_left_cancel hsame).symm)
  rw [hj] at hfinal
  exact ⟨hspared, hnext, hfinal⟩

end Run

end Chip8
