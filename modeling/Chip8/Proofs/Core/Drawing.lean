import Chip8.Proofs.Core.Refusal
import Chip8.Proofs.Screen.Blit

namespace Chip8.Core

/-- The column of the screen in which a sprite at `vx` begins. -/
def column (c : Core) (x : Reg) : Nat :=
  (c.cpu.reg x).toNat % c.screen.width

/-- The row of the screen in which a sprite at `vy` begins. -/
def row (c : Core) (y : Reg) : Nat :=
  (c.cpu.reg y).toNat % c.screen.height

/-- Some pixel is lit in `c` and dark in `d`. -/
def TurnsOff (c d : Core) : Prop :=
  ∃ px py, c.screen.get? px py = some true ∧ d.screen.get? px py = some false

/-- What an instruction that draws `n` rows makes of `c`. The origin comes from the registers as they
were before, also where one of them is `vF`. -/
structure DrawsSprite (c : Core) (y x : Reg) (n : UInt8) (d : Core) : Prop where
  width : d.screen.width = c.screen.width
  height : d.screen.height = c.screen.height
  /-- Bit `b` of row `r`, counted from the left, if it lies on the screen. -/
  covered : ∀ r b, r < n.toNat → b < 8 → c.row y + r < c.screen.height →
    c.column x + b < c.screen.width →
      ∃ old byte, c.screen.get? (c.column x + b) (c.row y + r) = some old ∧
        c.mem.read (c.cpu.i.toNat + r) = .ok byte ∧
        d.screen.get? (c.column x + b) (c.row y + r) = some (old ^^ byte.toNat.testBit (7 - b))
  others : ∀ px py,
    (∀ r b, r < n.toNat → b < 8 → ¬ (px = c.column x + b ∧ py = c.row y + r)) →
      d.screen.get? px py = c.screen.get? px py
  hit : c.TurnsOff d → d.cpu.reg 15 = 1
  miss : ¬ c.TurnsOff d → d.cpu.reg 15 = 0
  /-- `v0` to `vE`. -/
  registers : ∀ k : Reg, k.val < 15 → d.cpu.reg k = c.cpu.reg k
  index : d.cpu.i = c.cpu.i
  mem : d.mem = c.mem
  stack : d.cpu.stack = c.cpu.stack
  /-- All `n` rows make the same picture as those above the lower edge, whatever the others hold. -/
  clipped : ∀ sprite : List UInt8, sprite.length = n.toNat →
    (∀ r < c.visibleRows y n, sprite[r]? = c.mem.bytes[c.cpu.i.toNat + r]?) →
      c.screen.draw (c.cpu.reg x).toNat (c.cpu.reg y).toNat sprite =
        (d.screen, d.cpu.reg 15 == 1)

variable {c d : Core} {y x : Reg} {n : UInt8}

/-- A row is visible if the sprite has it and it lies above the lower edge. -/
theorem lt_visibleRows_iff {r : Nat} :
    r < c.visibleRows y n ↔ r < n.toNat ∧ c.row y + r < c.screen.height := by
  have hrow : c.row y < c.screen.height := Nat.mod_lt _ c.screen.height_pos
  change r < min n.toNat (c.screen.height - c.row y) ↔ _
  omega

/-- The core with a picture that was drawn, and in the flag whether something was hit. -/
def withDrawn (c : Core) (drawn : Screen × Bool) : Core :=
  { c with cpu := c.cpu.setReg Cpu.flagReg drawn.2.toUInt8, screen := drawn.1 }

theorem flag_withDrawn (c : Core) (drawn : Screen × Bool) :
    (c.withDrawn drawn).cpu.reg 15 = drawn.2.toUInt8 :=
  (c.cpu.reg_setReg _ _ _).trans (if_pos rfl)

/-- The instruction draws the bytes of the visible rows, or faults because memory lacks one. -/
theorem drawSprite_eq (c : Core) (y x : Reg) (n : UInt8) :
    c.drawSprite y x n =
      match c.mem.slice c.cpu.i.toNat (c.cpu.i.toNat + c.visibleRows y n) with
      | .error e => (c, .error e)
      | .ok sprite =>
        (c.withDrawn (c.screen.draw (c.cpu.reg x).toNat (c.cpu.reg y).toNat sprite), .ok ()) := rfl

/-- What was drawn without a fault are the bytes that memory has for the visible rows. -/
theorem exists_sprite_of_drawSprite_ok (hok : (c.drawSprite y x n).2 = .ok ()) :
    ∃ sprite, c.mem.slice c.cpu.i.toNat (c.cpu.i.toNat + c.visibleRows y n) = .ok sprite ∧
      (c.drawSprite y x n).1 =
        c.withDrawn (c.screen.draw (c.cpu.reg x).toNat (c.cpu.reg y).toNat sprite) := by
  rw [drawSprite_eq] at hok ⊢
  cases hslice : c.mem.slice c.cpu.i.toNat (c.cpu.i.toNat + c.visibleRows y n) with
  | error e =>
    rw [hslice] at hok
    cases hok
  | ok sprite => exact ⟨sprite, rfl, rfl⟩

section Sprite

variable {sprite : List UInt8}

theorem getElem?_sprite
    (hslice : c.mem.slice c.cpu.i.toNat (c.cpu.i.toNat + c.visibleRows y n) = .ok sprite) (r : Nat) :
    sprite[r]? = if r < c.visibleRows y n then c.mem.bytes[c.cpu.i.toNat + r]? else none := by
  rw [Memory.getElem?_of_slice hslice, Nat.add_sub_cancel_left]

/-- Rows below the edge of the screen do not show, so that the visible ones stand for all. -/
theorem draw_all_rows
    (hslice : c.mem.slice c.cpu.i.toNat (c.cpu.i.toNat + c.visibleRows y n) = .ok sprite)
    {all : List UInt8} (hlength : all.length = n.toNat)
    (hall : ∀ r < c.visibleRows y n, all[r]? = c.mem.bytes[c.cpu.i.toNat + r]?) :
    c.screen.draw (c.cpu.reg x).toNat (c.cpu.reg y).toNat all =
      c.screen.draw (c.cpu.reg x).toNat (c.cpu.reg y).toNat sprite := by
  apply Screen.draw_congr
  intro r hr
  rw [getElem?_sprite hslice]
  by_cases hvisible : r < c.visibleRows y n
  · rw [if_pos hvisible, hall r hvisible]
  · have hbehind : n.toNat ≤ r := by
      apply Nat.not_lt.mp
      intro hrow
      exact hvisible (lt_visibleRows_iff.mpr ⟨hrow, Nat.add_lt_of_lt_sub' hr⟩)
    rw [if_neg hvisible, List.getElem?_eq_none (hlength ▸ hbehind)]

/-- The picture of the visible rows, with the flag that it gives, is all that the instruction makes. -/
theorem drawsSprite_withDrawn
    (hslice : c.mem.slice c.cpu.i.toNat (c.cpu.i.toNat + c.visibleRows y n) = .ok sprite) :
    c.DrawsSprite y x n
      (c.withDrawn (c.screen.draw (c.cpu.reg x).toNat (c.cpu.reg y).toNat sprite)) := by
  have hblits : Screen.Blits (Screen.spriteMask (c.column x) (c.row y) sprite) c.screen
      (c.screen.draw (c.cpu.reg x).toNat (c.cpu.reg y).toNat sprite) :=
    c.screen.drawRows_blits (c.column x) (c.row y) sprite
  have hlength : sprite.length = c.visibleRows y n := by
    rw [Memory.length_of_slice hslice, Nat.add_sub_cancel_left]
  have hclipped (all : List UInt8) (hall : all.length = n.toNat)
      (hread : ∀ r < c.visibleRows y n, all[r]? = c.mem.bytes[c.cpu.i.toNat + r]?) :
      c.screen.draw (c.cpu.reg x).toNat (c.cpu.reg y).toNat all =
        c.screen.draw (c.cpu.reg x).toNat (c.cpu.reg y).toNat sprite :=
    draw_all_rows hslice hall hread
  -- From here on only what is known of the picture counts, and not how it was drawn.
  generalize c.screen.draw (c.cpu.reg x).toNat (c.cpu.reg y).toNat sprite = drawn at hblits hclipped
  have hflag := c.flag_withDrawn drawn
  constructor
  case width => exact hblits.width
  case height => exact hblits.height
  case covered =>
    intro r b hr hb hbottom hright
    have hvisible : r < c.visibleRows y n := lt_visibleRows_iff.mpr ⟨hr, hbottom⟩
    obtain ⟨old, hold⟩ := Screen.exists_get? ⟨hright, hbottom⟩
    obtain ⟨byte, hbyte⟩ : ∃ byte, sprite[r]? = some byte :=
      ⟨_, List.getElem?_eq_getElem (hlength ▸ hvisible)⟩
    refine ⟨old, byte, hold, ?_, ?_⟩
    · rw [Memory.read_eq_ok_iff, ← hbyte, getElem?_sprite hslice, if_pos hvisible]
    · have hmask := Screen.spriteMask_add (x := c.column x) (y := c.row y) hbyte hb
      exact (hblits.pixel _ _).trans (by rw [hold, hmask, Option.map_some])
  case others =>
    intro px py hout
    have hmask : Screen.spriteMask (c.column x) (c.row y) sprite px py = false := by
      rw [Bool.eq_false_iff]
      intro hset
      obtain ⟨r, b, hr, hb, hpx, hpy⟩ := Screen.exists_of_spriteMask hset
      have hvisible : r < c.visibleRows y n := hlength ▸ hr
      exact hout r b (lt_visibleRows_iff.mp hvisible).1 hb ⟨hpx, hpy⟩
    refine (hblits.pixel px py).trans ?_
    rw [hmask]
    simp
  case hit =>
    intro hturns
    rw [hflag, hblits.hit_iff_turned_off.mpr hturns]
    rfl
  case miss =>
    intro hturns
    have hmiss : drawn.2 = false := by
      rw [Bool.eq_false_iff]
      exact fun hhit => hturns (hblits.hit_iff_turned_off.mp hhit)
    rw [hflag, hmiss]
    rfl
  case registers =>
    intro k hk
    have hne : k ≠ Cpu.flagReg := Fin.ne_of_lt hk
    exact (c.cpu.reg_setReg _ _ _).trans (if_neg hne)
  case index => rfl
  case mem => rfl
  case stack => rfl
  case clipped =>
    intro all hlength hall
    rw [hclipped all hlength hall, hflag]
    obtain ⟨screen, hit⟩ := drawn
    cases hit <;> rfl

end Sprite

theorem drawsSprite_of_ok (hok : (c.drawSprite y x n).2 = .ok ()) :
    c.DrawsSprite y x n (c.drawSprite y x n).1 := by
  obtain ⟨sprite, hslice, hdrawn⟩ := exists_sprite_of_drawSprite_ok hok
  rw [hdrawn]
  exact drawsSprite_withDrawn hslice

/-- Neither the step past the instruction nor the count of cycles has to do with drawing. -/
theorem drawsSprite_of_advance (h : c.advance.DrawsSprite y x n d) :
    c.DrawsSprite y x n d.countCycle :=
  ⟨h.width, h.height, h.covered, h.others, h.hit, h.miss, h.registers, h.index, h.mem, h.stack,
    h.clipped⟩

theorem drawsSprite_tick {roll : UInt8} (hfits : c.word.Fits "DXYN") (hok : (c.tick roll).2 = .ok ()) :
    c.DrawsSprite c.operandY c.operandX c.operandN (c.tick roll).1 := by
  have hinsn : Instruction.ofWord? c.word = some (.draw c.operandY c.operandX c.operandN) :=
    Instruction.ofWord?_of_fits_form (i := .draw 0 0 0) hfits
  obtain ⟨insn, d, _, hsome, hexecute, hdone⟩ := exists_execute_of_tick_ok hok
  obtain rfl : .draw c.operandY c.operandX c.operandN = insn := Option.some.inj (hinsn.symm.trans hsome)
  have hdraw : c.advance.drawSprite c.operandY c.operandX c.operandN = (d, .ok ()) := hexecute
  have hdraws := drawsSprite_of_ok (congrArg Prod.snd hdraw)
  rw [hdraw] at hdraws
  rw [hdone]
  exact drawsSprite_of_advance hdraws

/-- Memory behind the visible rows is not looked at. -/
theorem drawSprite_of_memory {mem : Memory}
    (hvisible : ∀ r < c.visibleRows y n,
      mem.bytes[c.cpu.i.toNat + r]? = c.mem.bytes[c.cpu.i.toNat + r]?) :
    ({ c with mem := mem } : Core).drawSprite y x n =
      ({ (c.drawSprite y x n).1 with mem := mem }, (c.drawSprite y x n).2) := by
  have hslice : mem.slice c.cpu.i.toNat (c.cpu.i.toNat + c.visibleRows y n) =
      c.mem.slice c.cpu.i.toNat (c.cpu.i.toNat + c.visibleRows y n) := by
    apply Memory.slice_congr
    rw [Nat.add_sub_cancel_left]
    exact hvisible
  have hrows : ({ c with mem := mem } : Core).visibleRows y n = c.visibleRows y n := rfl
  simp only [drawSprite_eq, hrows, hslice]
  cases c.mem.slice c.cpu.i.toNat (c.cpu.i.toNat + c.visibleRows y n) with
  | error e => rfl
  | ok sprite => rfl

/-- An instruction `DXYN` that does not fault turns over the pixels under the set bits of its sprite and
tells in `vF` whether one of them was lit. Nothing else changes. What memory holds for the rows below
the edge of the screen does not matter. -/
theorem draw_turns_over_visible_sprite (c : Core) :
    (∀ (y x : Reg) (n : UInt8), (c.drawSprite y x n).2 = .ok () →
      c.DrawsSprite y x n (c.drawSprite y x n).1) ∧
    (∀ roll : UInt8, c.word.Fits "DXYN" → (c.tick roll).2 = .ok () →
      c.DrawsSprite c.operandY c.operandX c.operandN (c.tick roll).1) ∧
    ∀ (y x : Reg) (n : UInt8) (mem : Memory),
      (∀ r < c.visibleRows y n,
        mem.bytes[c.cpu.i.toNat + r]? = c.mem.bytes[c.cpu.i.toNat + r]?) →
      ({ c with mem := mem } : Core).drawSprite y x n =
        ({ (c.drawSprite y x n).1 with mem := mem }, (c.drawSprite y x n).2) :=
  ⟨fun _ _ _ => drawsSprite_of_ok, fun _ => drawsSprite_tick, fun _ _ _ _ => drawSprite_of_memory⟩

/-- The next instruction is `DF03`. It draws at the lit corner of a small screen, where one row and one
column of the sprite have room, and only this row is in memory. -/
def spriteInCorner : Core where
  cpu := { Cpu.initial false with i := 0xFFF, v := Vector.replicate 16 9 }
  mem := (Memory.zeroed.blit 0x200 [0xDF, 0x03]).blit 0xFFF [0xC0]
  screen := .cornerLit

/-- Memory without the program, but with the one byte that is seen. -/
def cornerMemory : Memory := Memory.zeroed.blit 0xFFF [0xC0]

/-- The register `vF` gives the column, is overwritten, and reports the pixel that was turned off. -/
theorem draw_turns_over_visible_sprite_corner :
    spriteInCorner.word.Fits "DXYN" ∧ (spriteInCorner.tick 0).2 = .ok () ∧
      spriteInCorner.screen.get? 4 1 = some true ∧
      (spriteInCorner.tick 0).1.screen.get? 4 1 = some false ∧
      (spriteInCorner.tick 0).1.cpu.reg 15 = 1 ∧
      (spriteInCorner.tick 0).1.screen.get? 3 1 = some false ∧
      ({ spriteInCorner with mem := cornerMemory } : Core).drawSprite 0 15 3 =
        ({ (spriteInCorner.drawSprite 0 15 3).1 with mem := cornerMemory },
          (spriteInCorner.drawSprite 0 15 3).2) := by
  obtain ⟨hword, hy, hx, hn, hfault⟩ : spriteInCorner.word = 0xDF03 ∧
      spriteInCorner.operandY = 0 ∧ spriteInCorner.operandX = 15 ∧ spriteInCorner.operandN = 3 ∧
        spriteInCorner.fault? = none := by
    decide +kernel
  have hfits : spriteInCorner.word.Fits "DXYN" := hword ▸ by decide
  have hok := tick_of_no_fault 0 hfault
  have hbyte : spriteInCorner.mem.bytes[0xFFF + 0]? = some 0xC0 :=
    (Memory.getElem?_blit _ _ _ _).trans (if_pos (by decide))
  have hsame : ∀ r < 1, cornerMemory.bytes[0xFFF + r]? = spriteInCorner.mem.bytes[0xFFF + r]? := by
    intro r hr
    obtain rfl := Nat.lt_one_iff.mp hr
    exact ((Memory.getElem?_blit _ _ _ _).trans (if_pos (by decide))).trans hbyte.symm
  obtain ⟨_, htick, hmemory⟩ := draw_turns_over_visible_sprite spriteInCorner
  have hdraws := htick 0 hfits hok
  rw [hy, hx, hn] at hdraws
  have hlit : spriteInCorner.screen.get? 4 1 = some true := by decide
  have hdark : spriteInCorner.screen.get? 3 1 = some false := by decide
  obtain ⟨old, byte, hold, hread, hafter⟩ :=
    hdraws.covered 0 0 (by decide) (by decide) (by decide) (by decide)
  obtain rfl : true = old := Option.some.inj (hlit.symm.trans hold)
  obtain rfl : 0xC0 = byte :=
    Option.some.inj (hbyte.symm.trans ((Memory.read_eq_ok_iff _ _ _).mp hread))
  have hoff : (spriteInCorner.tick 0).1.screen.get? 4 1 = some false := hafter
  refine ⟨hfits, hok, hlit, hoff, hdraws.hit ⟨4, 1, hlit, hoff⟩, ?_,
    hmemory 0 15 3 cornerMemory hsame⟩
  rw [hdraws.others 3 1 ?_, hdark]
  rintro r b _ _ ⟨hcolumn, _⟩
  have hstart : spriteInCorner.column 15 = 4 := by decide
  omega

end Chip8.Core
