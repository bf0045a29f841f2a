import Chip8.Cpu.Alu
import Chip8.Memory.Load
import Chip8.Proofs.Checked.Basic

namespace Chip8

namespace Checked

/-- A processor as it is stored, with nothing known about the number of its open calls. -/
structure Cpu where
  debug : Bool
  stack : Vector Word 12
  sp : Nat
  pc : Word
  i : Word
  v : Vector UInt8 16
  cycle : Nat
  breakpoints : List Word

namespace Cpu

def reset (c : Cpu) : Cpu :=
  { c with
    stack := Vector.replicate 12 0
    sp := 0
    pc := Cpu.entry
    i := 0
    v := Vector.replicate 16 0
    cycle := 0 }

def initial : Cpu where
  debug := false
  stack := Vector.replicate 12 0
  sp := 0
  pc := Cpu.entry
  i := 0
  v := Vector.replicate 16 0
  cycle := 0
  breakpoints := []

def setV (c : Cpu) (reg : Nat) (value : UInt8) : Outcome Cpu Unit :=
  if h : reg < 16 then ({ c with v := c.v.set reg value }, .ok ())
  else (c, .error (.invalidRegister reg))

def setBreak (c : Cpu) (addr : Word) : Cpu :=
  if addr ∈ c.breakpoints then c else { c with breakpoints := c.breakpoints ++ [addr] }

def unsetBreak (c : Cpu) (addr : Word) : Cpu :=
  { c with breakpoints := c.breakpoints.filter (· != addr) }

def atBreakpoint (c : Cpu) : Bool :=
  decide (c.pc ∈ c.breakpoints)

def openCalls (c : Cpu) : Guarded (List Word) := do
  span 0 c.sp 12
  return (c.stack.extract 0 c.sp).toList

def reg (c : Cpu) (x : Nat) : Guarded UInt8 := do
  let k ← place x 16
  return c.v.get k

def setReg (c : Cpu) (x : Nat) (value : UInt8) : Guarded Cpu := do
  let k ← place x 16
  return { c with v := c.v.set k value }

/-- The registers up to and including one. -/
def leading (c : Cpu) (x : Nat) : Guarded (List UInt8) := do
  let stop ← plus x 1
  span 0 stop 16
  return c.v.toList.take stop

def setLeading (c : Cpu) (x : Nat) (values : List UInt8) : Guarded Cpu := do
  let stop ← plus x 1
  span 0 stop 16
  fits values.length 0 stop
  return { c with v := Vector.ofFn fun k => values[k.val]?.getD (c.v.get k) }

def advance (c : Cpu) : Cpu :=
  { c with pc := c.pc + 2 }

def skipIf (c : Cpu) (condition : Bool) : Cpu :=
  if condition then c.advance else c

def operate (c : Cpu) (op : Alu) (y x : Nat) : Guarded Cpu := do
  match op.eval (← c.reg x) (← c.reg y) with
  | (value, none) => c.setReg x value
  | (value, some flag) => (← c.setReg x value).setReg 15 flag

def addIndex (c : Cpu) (x : Nat) : Guarded Cpu := do
  return { c with i := c.i + (← c.reg x).toUInt16 }

def ret (c : Cpu) : Guarded (Cpu × Except Error Unit) :=
  if c.sp = 0 then return (c, .error (.stackUnderflow (c.pc - 2)))
  else do
    let sp ← minus c.sp 1
    let k ← place sp 12
    return ({ c with sp := sp, pc := c.stack.get k }, .ok ())

def call (c : Cpu) (addr : Word) : Guarded (Cpu × Except Error Unit) :=
  if h : c.sp < 12 then do
    let sp ← plus c.sp 1
    return ({ c with stack := c.stack.set c.sp c.pc, sp := sp, pc := addr }, .ok ())
  else return (c, .error (.stackOverflow addr))

def fetch (c : Cpu) (m : Memory) : Guarded (Except Error Word) := do
  let last ← minus Memory.size 2
  if last < c.pc.toNat then return .error (.outOfBounds c.pc.toNat)
  else do
    let stop ← plus c.pc.toNat 2
    match m.slice c.pc.toNat stop with
    | .error e => return .error e
    | .ok bytes => do
      let high ← place 0 bytes.length
      let low ← place 1 bytes.length
      return .ok (Word.ofBytes (bytes.get high) (bytes.get low))

/-- Counts the next cycle. -/
def countCycle (c : Cpu) : Guarded Cpu := do
  demand (c.cycle + 1 < limit) .count
  return { c with cycle := c.cycle + 1 }

/-- Lists the next instruction if this is on, with the cycle that it will complete. -/
def listNext (c : Cpu) : Guarded Unit :=
  if c.debug then demand (c.cycle + 1 < limit) .count else return ()

end Cpu

def clearRegion (m : Memory) (r : Region) : Guarded Memory := do
  span r.start r.stop Memory.size
  return m.blit r.start (List.replicate (r.stop - r.start) 0)

def readRegion (m : Memory) (r : Region) : Guarded (List UInt8) := do
  span r.start r.stop Memory.size
  return (m.bytes.extract r.start r.stop).toList

/-- Copies bytes to a span of memory. -/
def copyTo (m : Memory) (start stop : Nat) (data : List UInt8) : Guarded Memory := do
  span start stop Memory.size
  fits data.length start stop
  return m.blit start data

/-- Copies bytes to a span if it lies in memory. -/
def storeTo (m : Memory) (start stop : Nat) (data : List UInt8) : Guarded (Outcome Memory Unit) :=
  if Memory.Within start stop then do
    fits data.length start stop
    return (m.blit start data, .ok ())
  else return (m, .error (Memory.spanError start))

def loadMemory (m : Memory) (font program : List UInt8) : Guarded (Outcome Memory Unit) :=
  if Region.charset.size < font.length then
    return (m, .error (.fontTooLarge font.length Region.charset.size))
  else if Region.program.size < program.length then
    return (m, .error (.romTooLarge program.length Region.program.size))
  else do
    let withoutFont ← clearRegion m .charset
    let cleared ← clearRegion withoutFont .program
    let fontStop ← plus Region.charset.start font.length
    let withFont ← copyTo cleared Region.charset.start fontStop font
    let programStop ← plus Region.program.start program.length
    let loaded ← copyTo withFont Region.program.start programStop program
    return (loaded, .ok ())

end Checked

theorem Region.start_le_stop (r : Region) : r.start ≤ r.stop := by
  cases r <;> decide

theorem Region.stop_le_size (r : Region) : r.stop ≤ Memory.size := by
  cases r <;> decide

namespace Memory

/-- The span that is cleared lies in memory. -/
theorem clearRegion_checked (m : Memory) (r : Region) :
    Checked.clearRegion m r = .ok (m.clearRegion r) := by
  rw [Checked.clearRegion, Checked.span_of_le r.start_le_stop r.stop_le_size]
  rfl

theorem region_checked (m : Memory) (r : Region) : Checked.readRegion m r = .ok (m.region r) := by
  rw [Checked.readRegion, Checked.span_of_le r.start_le_stop r.stop_le_size]
  rfl

/-- A copy to a span of its own length, within memory, is a blit. -/
theorem copyTo_checked (m : Memory) {start : Nat} {data : List UInt8}
    (hroom : start + data.length ≤ size) :
    Checked.copyTo m start (start + data.length) data = .ok (m.blit start data) := by
  rw [Checked.copyTo, Checked.span_of_le (Nat.le_add_right start _) hroom,
    Checked.fits_of_eq (by omega)]
  rfl

/-- The span is looked at before the copy, and it has the length of what is copied. -/
theorem store_checked (m : Memory) (start : Nat) (data : List UInt8) :
    Checked.storeTo m start (start + data.length) data = .ok (m.store start data) := by
  rw [Checked.storeTo, Checked.fits_of_eq (by omega), store]
  split <;> rfl

/-- Once the two sizes have been looked at, neither copy of a load is too long. -/
theorem load_checked (m : Memory) (font program : List UInt8) :
    Checked.loadMemory m font program = .ok (m.load font program) := by
  unfold Checked.loadMemory load
  split
  · rfl
  · next hfont =>
    split
    · rfl
    · next hprogram =>
      have hfontRoom : Region.charset.start + font.length ≤ size := by
        simp only [Region.size, Region.start, Region.stop, size] at hfont ⊢
        omega
      have hprogramRoom : Region.program.start + program.length ≤ size := by
        simp only [Region.size, Region.start, Region.stop, size] at hprogram ⊢
        omega
      have hlimit : size < Checked.limit := by decide
      rw [clearRegion_checked, Checked.plus_of_lt (Nat.lt_of_le_of_lt hfontRoom hlimit),
        Checked.plus_of_lt (Nat.lt_of_le_of_lt hprogramRoom hlimit)]
      simp only [Checked.ok_bind, Checked.pure_eq_ok, clearRegion_checked,
        copyTo_checked _ hfontRoom, copyTo_checked _ hprogramRoom]

theorem slice_pair (m : Memory) {addr : Nat} (hfirst : addr < size) (hlast : addr + 1 < size) :
    m.slice addr (addr + 2) = .ok [m.bytes[addr], m.bytes[addr + 1]] := by
  have hlength : (m.bytes.extract addr (addr + 2)).toList.length = 2 := by
    rw [Vector.length_toList]
    omega
  rw [slice, if_pos ((within_add_iff addr 2).mpr hlast)]
  congr 1
  apply List.ext_getElem hlength
  intro k hk _
  rw [hlength] at hk
  obtain rfl | rfl : k = 0 ∨ k = 1 := by omega
  · simp
  · simp

end Memory

namespace Cpu

/-- The processor without what is known about it. -/
def bare (c : Cpu) : Checked.Cpu where
  debug := c.debug
  stack := c.stack.slots
  sp := c.stack.depth
  pc := c.pc
  i := c.i
  v := c.v
  cycle := c.cycle
  breakpoints := c.breakpoints

variable (c : Cpu)

@[simp] theorem debug_bare : c.bare.debug = c.debug := rfl

@[simp] theorem sp_bare : c.bare.sp = c.stack.depth := rfl

@[simp] theorem pc_bare : c.bare.pc = c.pc := rfl

@[simp] theorem i_bare : c.bare.i = c.i := rfl

@[simp] theorem cycle_bare : c.bare.cycle = c.cycle := rfl

theorem setV_bare (reg : Nat) (value : UInt8) :
    c.bare.setV reg value = ((c.setV reg value).1.bare, (c.setV reg value).2) := by
  unfold Checked.Cpu.setV setV
  split <;> rfl

theorem setBreak_bare (addr : Word) : c.bare.setBreak addr = (c.setBreak addr).bare := by
  by_cases hset : addr ∈ c.breakpoints
  · rw [setBreak, if_pos hset]
    exact if_pos hset
  · rw [setBreak, if_neg hset]
    exact if_neg hset

/-- The stack pointer is never past the last slot, so the open calls are a span. -/
theorem openCalls_bare : c.bare.openCalls = .ok c.stack.toList := by
  rw [Checked.Cpu.openCalls, sp_bare, Checked.span_of_le (Nat.zero_le _) c.stack.depth_le]
  rfl

/-- A register operand is a nibble, and there are as many registers. -/
theorem reg_bare (x : Reg) : c.bare.reg x.val = .ok (c.reg x) := by
  rw [Checked.Cpu.reg, Checked.place_of_lt x.isLt]
  rfl

theorem setReg_bare (x : Reg) (value : UInt8) :
    c.bare.setReg x.val value = .ok (c.setReg x value).bare := by
  rw [Checked.Cpu.setReg, Checked.place_of_lt x.isLt]
  rfl

/-- The span behind a register ends at sixteen at most. -/
theorem leading_bare (x : Reg) : c.bare.leading x.val = .ok (c.v.toList.take (x.val + 1)) := by
  have hx := x.isLt
  have hlimit : 16 < Checked.limit := by decide
  rw [Checked.Cpu.leading, Checked.plus_of_lt (by omega)]
  simp only [Checked.ok_bind]
  rw [Checked.span_of_le (Nat.zero_le _) hx]
  rfl

/-- As many values as the operand asks for fit the registers. -/
theorem setLeading_bare (x : Reg) {values : List UInt8} (hlength : values.length = x.val + 1) :
    c.bare.setLeading x.val values = .ok (c.setLeading values).bare := by
  have hx := x.isLt
  have hlimit : 16 < Checked.limit := by decide
  rw [Checked.Cpu.setLeading, Checked.plus_of_lt (by omega)]
  simp only [Checked.ok_bind]
  rw [Checked.span_of_le (Nat.zero_le _) hx, Checked.fits_of_eq hlength]
  rfl

theorem skipIf_bare (condition : Bool) : c.bare.skipIf condition = (c.skipIf condition).bare := by
  cases condition <;> rfl

/-- The operands of an operation and the flag are registers. -/
theorem operate_bare (op : Alu) (y x : Reg) :
    c.bare.operate op y.val x.val = .ok (c.operate op y x).bare := by
  rw [Checked.Cpu.operate, reg_bare, reg_bare, operate]
  simp only [Checked.ok_bind]
  cases op.eval (c.reg x) (c.reg y) with
  | mk value flag? =>
    cases flag? with
    | none => exact c.setReg_bare x value
    | some flag =>
      dsimp only
      rw [setReg_bare, Checked.ok_bind]
      exact (c.setReg x value).setReg_bare flagReg flag

/-- The index register wraps around when it is added to. -/
theorem addIndex_bare (x : Reg) :
    c.bare.addIndex x.val = .ok { c with i := c.i + (c.reg x).toUInt16 }.bare := by
  rw [Checked.Cpu.addIndex, reg_bare]
  rfl

/-- The word that is fetched lies in memory, and a slice of two bytes has both of them. -/
theorem fetch_bare (m : Memory) : c.bare.fetch m = .ok (c.fetch m) := by
  have hlast : Checked.minus Memory.size 2 = .ok (Memory.size - 2) :=
    Checked.minus_of_le (by decide)
  rw [Checked.Cpu.fetch, hlast, Checked.ok_bind, pc_bare, fetch]
  by_cases hpc : Memory.size - 2 < c.pc.toNat
  · rw [if_pos hpc, if_pos hpc]
    rfl
  · have hlow : c.pc.toNat + 1 < Memory.size := by
      simp only [Memory.size] at hpc ⊢
      omega
    have hhigh : c.pc.toNat < Memory.size := Nat.lt_of_succ_lt hlow
    have hstop : c.pc.toNat + 2 < Checked.limit :=
      Nat.lt_of_le_of_lt (Nat.succ_le_of_lt hlow) (by decide)
    rw [if_neg hpc, if_neg hpc, Checked.plus_of_lt hstop, Checked.ok_bind, m.slice_pair hhigh hlow,
      m.readWord_of_lt hhigh hlow]
    rfl

/-- An open call has its address in the slot below the stack pointer. -/
theorem ret_bare : c.bare.ret =
    .ok (match c.stack.pop? with
      | none => (c.bare, .error (.stackUnderflow (c.pc - 2)))
      | some (addr, stack) => ({ c with stack := stack, pc := addr }.bare, .ok ())) := by
  have hle := c.stack.depth_le
  rw [Checked.Cpu.ret, sp_bare, CallStack.pop?]
  by_cases hopen : 0 < c.stack.depth
  · rw [if_neg (by omega), dif_pos hopen, Checked.minus_of_le hopen, Checked.ok_bind,
      Checked.place_of_lt (by omega)]
    rfl
  · rw [if_pos (by omega), dif_neg hopen]
    rfl

/-- A call looks for a free slot before it uses one. -/
theorem call_bare (addr : Word) : c.bare.call addr =
    .ok (match c.stack.push? c.pc with
      | none => (c.bare, .error (.stackOverflow addr))
      | some stack => ({ c with stack := stack, pc := addr }.bare, .ok ())) := by
  rw [Checked.Cpu.call, CallStack.push?]
  by_cases hroom : c.stack.depth < 12
  · have hlimit : c.bare.sp + 1 < Checked.limit := Nat.lt_of_le_of_lt hroom (by decide)
    rw [dif_pos (show c.bare.sp < 12 from hroom), dif_pos hroom, Checked.plus_of_lt hlimit]
    rfl
  · rw [dif_neg (show ¬ c.bare.sp < 12 from hroom), dif_neg hroom]
    rfl

/-- The cycles that are completed, and the one that a listing would name. -/
def counted (c : Cpu) : Nat :=
  c.cycle + c.debug.toNat

/-- A listing names the cycle that comes next, and that number is the one thing it forms. -/
theorem listNext_bare : Checked.Completes c.bare.listNext () c.counted := by
  rw [Checked.Cpu.listNext, debug_bare, cycle_bare, counted]
  cases c.debug with
  | false => exact Or.inl rfl
  | true => exact Checked.demand_completes (Nat.le_refl _)

/-- Nothing but the count itself can be too large. -/
theorem countCycle_bare {top : Nat} (h : c.cycle + 1 ≤ top) :
    Checked.Completes c.bare.countCycle { c with cycle := c.cycle + 1 }.bare top :=
  (Checked.demand_completes h).bind (Or.inl rfl)

end Cpu

end Chip8
