import Chip8.Proofs.Core.Fetch
import Chip8.Proofs.Cpu.Alu

namespace Chip8

namespace Core

/-- What the register of the second digit holds. -/
def vx (c : Core) : Nat := (c.cpu.reg c.operandX).toNat

/-- What the register of the third digit holds. -/
def vy (c : Core) : Nat := (c.cpu.reg c.operandY).toNat

/-- The return addresses of the open calls, oldest first. -/
def returns (c : Core) : List Nat := c.cpu.stack.toList.map UInt16.toNat

variable {c : Core}

/-- Where a call is open there is an address to return to. -/
theorem exists_pop?_of_returns (hopen : c.returns ≠ []) :
    ∃ addr stack, c.cpu.stack.pop? = some (addr, stack) := by
  have hpop : c.cpu.stack.pop? ≠ none := by
    rw [Ne, CallStack.pop?_eq_none_iff]
    intro hnone
    exact hopen (congrArg (List.map UInt16.toNat) hnone)
  obtain ⟨⟨addr, stack⟩, hsome⟩ := Option.ne_none_iff_exists'.mp hpop
  exact ⟨addr, stack, hsome⟩

/-- With fewer than twelve open calls there is room for another one. -/
theorem exists_push?_of_returns (hroom : c.returns.length < 12) (addr : Word) :
    ∃ stack, c.cpu.stack.push? addr = some stack := by
  have hpush : c.cpu.stack.push? addr ≠ none := by
    rw [Ne, CallStack.push?_eq_none_iff]
    intro hfull
    rw [returns, List.length_map, CallStack.length_toList, hfull] at hroom
    exact Nat.lt_irrefl 12 hroom
  exact Option.ne_none_iff_exists'.mp hpush

theorem returnFromCall_of_pop? {addr : Word} {stack : CallStack}
    (hpop : c.cpu.stack.pop? = some (addr, stack)) :
    c.returnFromCall = ({ c with cpu := { c.cpu with stack := stack, pc := addr } }, .ok ()) := by
  rw [returnFromCall, hpop]

theorem callTo_of_push? {addr : Word} {stack : CallStack}
    (hpush : c.cpu.stack.push? c.cpu.pc = some stack) :
    c.callTo addr = ({ c with cpu := { c.cpu with stack := stack, pc := addr } }, .ok ()) := by
  rw [callTo, hpush]

end Core

/-- A row of the table of instructions: the form of its words, the condition under which they can be
carried out, and what the core shows afterwards, all of it in terms of the core before. Where a row
says nothing the core stays as it is, only that the program counter moves on by one word. -/
structure Row where
  form : String
  applies : Core → Prop := fun _ => True
  pc : Core → Nat := fun c => c.cpu.pc.toNat + 2
  index : Core → Nat := fun c => c.cpu.i.toNat
  register : Core → UInt8 → Reg → Nat := fun c _ k => (c.cpu.reg k).toNat
  returns : Core → List Nat := Core.returns
  pixel : Core → Nat → Nat → Option Bool := fun c => c.screen.get?

namespace Row

def goTo (form : String) (target : Core → Nat) : Row where
  form := form
  pc := target

def skip (form : String) (condition : Core → Bool) : Row :=
  goTo form fun c => if condition c then c.cpu.pc.toNat + 4 else c.cpu.pc.toNat + 2

def point (form : String) (target : Core → Nat) : Row where
  form := form
  index := target

/-- A row that writes a value to `vX`. -/
def assign (form : String) (value : Core → UInt8 → Nat) : Row where
  form := form
  register c roll k := if k = c.operandX then value c roll else (c.cpu.reg k).toNat

/-- A row that writes a value to `vX` and after it a flag to `vF`, both made from `vX` and `vY` as
they were before either was written. -/
def arith (form : String) (value : Nat → Nat → Nat) (flag : Nat → Nat → Bool) : Row where
  form := form
  register c _ k :=
    if k.val = 15 then (flag c.vx c.vy).toNat
    else if k = c.operandX then value c.vx c.vy
    else (c.cpu.reg k).toNat

def clear : Row where
  form := "00E0"
  pixel c x y := (c.screen.get? x y).map fun _ => false

/-- A return goes to the address behind the call that was opened last. -/
def ret : Row where
  form := "00EE"
  applies c := c.returns ≠ []
  pc c := c.returns.getLastD 0
  returns c := c.returns.dropLast

def call : Row where
  form := "2NNN"
  applies c := c.returns.length < 12
  pc := Core.nnn
  returns c := c.returns ++ [c.cpu.pc.toNat + 2]

def table : List Row :=
  [clear,
    ret,
    goTo "1NNN" Core.nnn,
    call,
    skip "3XNN" fun c => c.vx == c.nn,
    skip "4XNN" fun c => c.vx != c.nn,
    skip "5XY0" fun c => c.vx == c.vy,
    assign "6XNN" fun c _ => c.nn,
    assign "7XNN" fun c _ => (c.vx + c.nn) % 256,
    assign "8XY0" fun c _ => c.vy,
    assign "8XY1" fun c _ => c.vx ||| c.vy,
    assign "8XY2" fun c _ => c.vx &&& c.vy,
    assign "8XY3" fun c _ => c.vx ^^^ c.vy,
    arith "8XY4" (fun x y => (x + y) % 256) fun x y => decide (256 ≤ x + y),
    arith "8XY5" (fun x y => (x + 256 - y) % 256) fun x y => decide (y ≤ x),
    arith "8XY6" (fun x _ => x / 2) fun x _ => decide (x % 2 = 1),
    arith "8XY7" (fun x y => (y + 256 - x) % 256) fun x y => decide (x ≤ y),
    arith "8XYE" (fun x _ => 2 * x % 256) fun x _ => decide (128 ≤ x),
    skip "9XY0" fun c => c.vx != c.vy,
    point "ANNN" Core.nnn,
    assign "CXNN" fun c roll => roll.toNat &&& c.nn,
    point "FX1E" fun c => (c.cpu.i.toNat + c.vx) % 0x10000]

/-- `d` is what a row makes of `c`. A slot of the stack that holds no open call afterwards is not
written to, and one more instruction is counted. -/
structure Describes (row : Row) (c : Core) (roll : UInt8) (d : Core) : Prop where
  pc : d.cpu.pc.toNat = row.pc c
  index : d.cpu.i.toNat = row.index c
  register : ∀ k : Reg, (d.cpu.reg k).toNat = row.register c roll k
  returns : d.returns = row.returns c
  dead : ∀ k, d.cpu.stack.depth ≤ k → d.cpu.stack.slots[k]? = c.cpu.stack.slots[k]?
  pixel : ∀ x y, d.screen.get? x y = row.pixel c x y
  width : d.screen.width = c.screen.width
  height : d.screen.height = c.screen.height
  mem : d.mem = c.mem
  cycle : d.cpu.cycle = c.cpu.cycle + 1
  debug : d.cpu.debug = c.cpu.debug
  breakpoints : d.cpu.breakpoints = c.cpu.breakpoints

variable {row : Row} {c d d' : Core} {roll : UInt8} {form : String}

/-- A row leaves nothing open. -/
theorem Describes.unique (h : row.Describes c roll d) (h' : row.Describes c roll d') : d = d' := by
  have hpc : d.cpu.pc = d'.cpu.pc := UInt16.toNat_inj.mp (h.pc.trans h'.pc.symm)
  have hindex : d.cpu.i = d'.cpu.i := UInt16.toNat_inj.mp (h.index.trans h'.index.symm)
  have hregister : d.cpu.v = d'.cpu.v := by
    apply Cpu.ext_reg
    intro k
    exact UInt8.toNat_inj.mp ((h.register k).trans (h'.register k).symm)
  have hlive : d.cpu.stack.toList = d'.cpu.stack.toList := by
    have hsame := h.returns.trans h'.returns.symm
    exact (List.map_inj_right fun _ _ => UInt16.toNat_inj.mp).mp hsame
  have hdepth : d.cpu.stack.depth = d'.cpu.stack.depth := by
    rw [← CallStack.length_toList, hlive, CallStack.length_toList]
  have hstack : d.cpu.stack = d'.cpu.stack := by
    apply CallStack.ext_toList hlive
    intro k hk
    rw [h.dead k (hdepth ▸ hk), h'.dead k hk]
  have hscreen : d.screen = d'.screen := by
    apply Screen.ext_get? (h.width.trans h'.width.symm) (h.height.trans h'.height.symm)
    intro x y
    rw [h.pixel, h'.pixel]
  have hmem : d.mem = d'.mem := h.mem.trans h'.mem.symm
  have hcpu : d.cpu = d'.cpu := by
    cases hd : d.cpu
    cases hd' : d'.cpu
    simp only [hd, hd'] at hpc hindex hregister hstack
    have hcycle := h.cycle.trans h'.cycle.symm
    have hdebug := h.debug.trans h'.debug.symm
    have hbreakpoints := h.breakpoints.trans h'.breakpoints.symm
    simp only [hd, hd'] at hcycle hdebug hbreakpoints
    simp only [hpc, hindex, hregister, hstack, hcycle, hdebug, hbreakpoints]
  cases d
  cases d'
  cases hcpu
  cases hscreen
  cases hmem
  rfl

/-- A tick ends as a row says if the instruction of its form does. -/
theorem tick_of_describes {i : Instruction Reg} (hpc : c.cpu.pc.toNat ≤ 4094)
    (hfits : c.word.Fits i.form)
    (hexecute : c.advance.execute roll (i.withOperands c.word) = (d, .ok ()))
    (hdescribes : row.Describes c roll d.countCycle) :
    ∃ after, c.tick roll = (after, .ok ()) ∧
      ∀ other, row.Describes c roll other ↔ other = after := by
  have hinsn := Instruction.ofWord?_of_fits_form hfits
  refine ⟨d.countCycle, Core.tick_of_execute_ok hpc hinsn hexecute, ?_⟩
  intro other
  constructor
  · intro hother
    exact hother.unique hdescribes
  · rintro rfl
    exact hdescribes

variable {target : Core → Nat} {condition : Core → Bool} {value : Core → UInt8 → Nat}

/-- Where only the program counter is written, everything else is as before. -/
theorem describes_goTo {a : Word} (ha : a.toNat = target c) :
    (goTo form target).Describes c roll
      (Core.countCycle { c.advance with cpu := { c.advance.cpu with pc := a } }) :=
  ⟨ha, rfl, fun _ => rfl, rfl, fun _ _ => rfl, fun _ _ => rfl, rfl, rfl, rfl, rfl, rfl, rfl⟩

/-- Either way the instruction has been passed. A skip passes the next one as well. -/
theorem describes_skip {met : Bool} (hpc : c.cpu.pc.toNat ≤ 4094) (hmet : condition c = met) :
    (skip form condition).Describes c roll
      (Core.countCycle { c.advance with cpu := c.advance.cpu.skipIf met }) := by
  have hnext := Core.toNat_pc_advance hpc
  cases met with
  | true =>
    have hafter : c.advance.cpu.advance.pc.toNat = c.advance.cpu.pc.toNat + 2 :=
      Cpu.toNat_pc_advance (by omega)
    apply describes_goTo
    rw [if_pos hmet]
    exact hafter.trans (congrArg (· + 2) hnext)
  | false =>
    have hunmet : ¬ condition c = true := (Bool.not_eq_true _).mpr hmet
    apply describes_goTo
    rw [if_neg hunmet]
    exact hnext

theorem describes_point {a : Word} (hpc : c.cpu.pc.toNat ≤ 4094) (ha : a.toNat = target c) :
    (point form target).Describes c roll
      (Core.countCycle { c.advance with cpu := { c.advance.cpu with i := a } }) :=
  ⟨Core.toNat_pc_advance hpc, ha, fun _ => rfl, rfl, fun _ _ => rfl, fun _ _ => rfl, rfl, rfl, rfl, rfl, rfl,
    rfl⟩

/-- Only `vX` is written, and what it holds in the end is the value of the row. -/
theorem describes_assign {b : UInt8} (hpc : c.cpu.pc.toNat ≤ 4094) (hb : b.toNat = value c roll) :
    (assign form value).Describes c roll
      (Core.countCycle { c.advance with cpu := c.advance.cpu.setReg c.word.x b }) := by
  refine ⟨Core.toNat_pc_advance hpc, rfl, ?_, rfl, fun _ _ => rfl, fun _ _ => rfl, rfl, rfl, rfl, rfl, rfl,
    rfl⟩
  intro k
  have hk := c.advance.cpu.reg_setReg c.word.x b k
  refine (congrArg UInt8.toNat hk).trans ?_
  rw [apply_ite UInt8.toNat, hb]
  rfl

/-- The flag is written over whatever the result has left in `vF`. -/
theorem describes_arith {result : Nat → Nat → Nat} {flag : Nat → Nat → Bool} {b f : UInt8}
    (hpc : c.cpu.pc.toNat ≤ 4094) (hb : b.toNat = result c.vx c.vy)
    (hf : f.toNat = (flag c.vx c.vy).toNat) :
    (arith form result flag).Describes c roll
      (Core.countCycle { c.advance with
        cpu := (c.advance.cpu.setReg c.word.x b).setReg Cpu.flagReg f }) := by
  refine ⟨Core.toNat_pc_advance hpc, rfl, ?_, rfl, fun _ _ => rfl, fun _ _ => rfl, rfl, rfl, rfl, rfl, rfl,
    rfl⟩
  intro k
  have hflag : k = Cpu.flagReg ↔ k.val = 15 := Fin.ext_iff
  have hk := (c.advance.cpu.setReg c.word.x b).reg_setReg Cpu.flagReg f k
  rw [c.advance.cpu.reg_setReg c.word.x b k] at hk
  refine (congrArg UInt8.toNat hk).trans ?_
  rw [apply_ite UInt8.toNat, apply_ite UInt8.toNat, hb, hf]
  simp only [hflag]
  rfl

/-- A cleared screen has its size from before. -/
theorem describes_clear (hpc : c.cpu.pc.toNat ≤ 4094) :
    clear.Describes c roll (Core.countCycle { c.advance with screen := c.screen.clear }) :=
  ⟨Core.toNat_pc_advance hpc, rfl, fun _ => rfl, rfl, fun _ _ => rfl, c.screen.get?_clear_eq_map, rfl, rfl,
    rfl, rfl, rfl, rfl⟩

/-- The address that is taken off is that of the newest call, and its slot keeps it. -/
theorem describes_ret {addr : Word} {stack : CallStack}
    (hpop : c.cpu.stack.pop? = some (addr, stack)) :
    ret.Describes c roll
      (Core.countCycle { c.advance with
        cpu := { c.advance.cpu with stack := stack, pc := addr } }) := by
  have hlive : c.returns = stack.toList.map UInt16.toNat ++ [addr.toNat] := by
    rw [Core.returns, CallStack.toList_of_pop? hpop, List.map_append, List.map_singleton]
  have hslots := CallStack.slots_of_pop? hpop
  refine ⟨?_, rfl, fun _ => rfl, ?_, ?_, fun _ _ => rfl, rfl, rfl, rfl, rfl, rfl, rfl⟩
  · change addr.toNat = c.returns.getLastD 0
    rw [hlive, List.getLastD_concat]
  · change stack.toList.map UInt16.toNat = c.returns.dropLast
    rw [hlive, List.dropLast_concat]
  · intro k _
    exact congrArg (·[k]?) hslots

/-- The new return address is put behind those that were there, into a slot that was free. -/
theorem describes_call {stack : CallStack} (hpc : c.cpu.pc.toNat ≤ 4094)
    (hpush : c.cpu.stack.push? c.advance.cpu.pc = some stack) :
    call.Describes c roll
      (Core.countCycle { c.advance with
        cpu := { c.advance.cpu with stack := stack, pc := c.word.nnn } }) := by
  refine ⟨Word.toNat_nnn _, rfl, fun _ => rfl, ?_, ?_, fun _ _ => rfl, rfl, rfl, rfl, rfl, rfl, rfl⟩
  · change stack.toList.map UInt16.toNat = c.returns ++ [c.cpu.pc.toNat + 2]
    rw [CallStack.toList_of_push? hpush, List.map_append, List.map_singleton, Core.toNat_pc_advance hpc]
    rfl
  · intro k hk
    exact CallStack.slots_of_push? hpush hk

/-- With the program counter inside memory, a word that a row of the table is about makes of the
core exactly what the row says, whatever registers it names. -/
theorem tick_follows_table (c : Core) (roll : UInt8) (hpc : c.cpu.pc.toNat ≤ 4094)
    (hrow : row ∈ table) (hfits : c.word.Fits row.form) (happlies : row.applies c) :
    ∃ after, c.tick roll = (after, .ok ()) ∧
      ∀ other, row.Describes c roll other ↔ other = after := by
  have hnn := c.toNat_nn_word
  have hnnn := c.toNat_nnn_word
  have heqByte : (c.vx == c.nn) = (c.cpu.reg c.word.x == c.word.nn) := by
    rw [← hnn]
    exact Alu.toNat_beq _ _
  simp only [table, List.mem_cons, List.not_mem_nil, or_false] at hrow
  obtain rfl | rfl | rfl | rfl | rfl | rfl | rfl | rfl | rfl | rfl | rfl | rfl | rfl | rfl | rfl |
    rfl | rfl | rfl | rfl | rfl | rfl | rfl := hrow
  · exact tick_of_describes (i := .clear) hpc hfits rfl (describes_clear hpc)
  · obtain ⟨addr, stack, hpop⟩ := Core.exists_pop?_of_returns happlies
    exact tick_of_describes (i := .ret) hpc hfits (Core.returnFromCall_of_pop? hpop)
      (describes_ret hpop)
  · exact tick_of_describes (i := .jump 0) hpc hfits rfl (describes_goTo hnnn)
  · obtain ⟨stack, hpush⟩ := Core.exists_push?_of_returns happlies c.advance.cpu.pc
    exact tick_of_describes (i := .call 0) hpc hfits (Core.callTo_of_push? hpush)
      (describes_call hpc hpush)
  · exact tick_of_describes (i := .skipEqByte 0 0) hpc hfits rfl (describes_skip hpc heqByte)
  · exact tick_of_describes (i := .skipNeByte 0 0) hpc hfits rfl
      (describes_skip hpc (congrArg not heqByte))
  · exact tick_of_describes (i := .skipEq 0 0) hpc hfits rfl (describes_skip hpc (Alu.toNat_beq _ _))
  · exact tick_of_describes (i := .setByte 0 0) hpc hfits rfl (describes_assign hpc hnn)
  · refine tick_of_describes (i := .addByte 0 0) hpc hfits rfl (describes_assign hpc ?_)
    rw [UInt8.toNat_add, hnn]
    rfl
  · exact tick_of_describes (i := .alu .copy 0 0) hpc hfits rfl (describes_assign hpc rfl)
  · exact tick_of_describes (i := .alu .or 0 0) hpc hfits rfl
      (describes_assign hpc (UInt8.toNat_or _ _))
  · exact tick_of_describes (i := .alu .and 0 0) hpc hfits rfl
      (describes_assign hpc (UInt8.toNat_and _ _))
  · exact tick_of_describes (i := .alu .xor 0 0) hpc hfits rfl
      (describes_assign hpc (UInt8.toNat_xor _ _))
  · exact tick_of_describes (i := .alu .add 0 0) hpc hfits rfl
      (describes_arith hpc (UInt8.toNat_add _ _) (Alu.toNat_toUInt8 _))
  · exact tick_of_describes (i := .alu .sub 0 0) hpc hfits rfl
      (describes_arith hpc (Alu.toNat_difference _ _) (Alu.toNat_noBorrow _ _))
  · exact tick_of_describes (i := .alu .shiftRight 0 0) hpc hfits rfl
      (describes_arith hpc (Alu.toNat_halve _) (Alu.toNat_lowestBit _))
  · exact tick_of_describes (i := .alu .subReverse 0 0) hpc hfits rfl
      (describes_arith hpc (Alu.toNat_difference _ _) (Alu.toNat_noBorrow _ _))
  · exact tick_of_describes (i := .alu .shiftLeft 0 0) hpc hfits rfl
      (describes_arith hpc (Alu.toNat_double _) (Alu.toNat_highestBit _))
  · exact tick_of_describes (i := .skipNe 0 0) hpc hfits rfl (describes_skip hpc (Alu.toNat_bne _ _))
  · exact tick_of_describes (i := .setIndex 0) hpc hfits rfl (describes_point hpc hnnn)
  · refine tick_of_describes (i := .random 0 0) hpc hfits rfl (describes_assign hpc ?_)
    rw [UInt8.toNat_and, hnn]
  · refine tick_of_describes (i := .addIndex 0) hpc hfits rfl (describes_point hpc ?_)
    rw [UInt16.toNat_add, UInt8.toNat_toUInt16]
    rfl

/-- A program that adds `vF` to itself, both of which are 200. -/
def addOntoFlag : Core :=
  .loaded { Cpu.initial false with v := Vector.replicate 16 200 } [0x8F, 0xF4]

theorem word_addOntoFlag : addOntoFlag.word = 0x8FF4 :=
  Core.word_loaded rfl 0x8F 0xF4 []

/-- The carry replaces the sum. -/
theorem tick_follows_table_add_onto_flag :
    ∃ after, addOntoFlag.tick 0 = (after, .ok ()) ∧ after.cpu.reg 15 = 1 := by
  have hrow : table[13]? = some (arith "8XY4" _ _) := rfl
  have hfits : addOntoFlag.word.Fits "8XY4" := word_addOntoFlag ▸ by decide
  obtain ⟨after, htick, hdescribes⟩ := tick_follows_table addOntoFlag 0 (by decide)
    (List.mem_of_getElem? hrow) hfits trivial
  refine ⟨after, htick, ?_⟩
  have hregister (k : Reg) : addOntoFlag.cpu.reg k = 200 := Vector.getElem_replicate k.isLt
  have hflag := ((hdescribes after).mpr rfl).register 15
  simp only [arith, Core.vx, Core.vy, hregister] at hflag
  exact UInt8.toNat_inj.mp hflag

end Row

end Chip8
