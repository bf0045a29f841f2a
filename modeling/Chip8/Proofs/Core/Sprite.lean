import Chip8.Proofs.Core.Fault

namespace Chip8.Core

variable {c : Core}

/-- Some row of a sprite that lies on the screen lies outside memory. -/
def BlitsOutside (c : Core) (y : Reg) (n : UInt8) : Prop :=
  ∃ r, r < c.visibleRows y n ∧ 4096 ≤ c.cpu.i.toNat + r

/-- The first row of a sprite is on the screen, if it has one. -/
theorem visibleRows_eq_zero_iff (c : Core) (y : Reg) (n : UInt8) :
    c.visibleRows y n = 0 ↔ n = 0 := by
  have hmod := Nat.mod_lt (c.cpu.reg y).toNat c.screen.height_pos
  rw [visibleRows, ← UInt8.toNat_inj, UInt8.toNat_zero]
  omega

/-- If any row on the screen lies outside memory, then the last of them does. -/
theorem blitsOutside_iff (c : Core) (y : Reg) (n : UInt8) :
    c.BlitsOutside y n ↔ n ≠ 0 ∧ 4096 < c.cpu.i.toNat + c.visibleRows y n := by
  have hzero := visibleRows_eq_zero_iff c y n
  constructor
  · rintro ⟨r, hr, hout⟩
    refine ⟨?_, by omega⟩
    intro hn
    have hnone := hzero.mpr hn
    omega
  · rintro ⟨hn, hlong⟩
    have hsome : c.visibleRows y n ≠ 0 := fun h => hn (hzero.mp h)
    exact ⟨c.visibleRows y n - 1, by omega, by omega⟩

/-- How an instruction that draws `n` rows ends. It faults for a row on the screen that memory does
not have. An instruction without rows has no such row and draws nothing, yet it faults as well if
the index register points further than the end of memory. -/
structure EndsAsDraw (c : Core) (y : Reg) (n : UInt8) (o : Outcome) : Prop where
  fault_iff : n ≠ 0 ∨ c.cpu.i.toNat ≤ 4096 →
    ((∃ addr, o.2 = .error (.outOfBounds addr)) ↔ c.BlitsOutside y n)
  ok_iff : n ≠ 0 ∨ c.cpu.i.toNat ≤ 4096 → (o.2 = .ok () ↔ ¬ c.BlitsOutside y n)
  nothing : n = 0 → c.cpu.i.toNat ≤ 4096 → o.1.screen = c.screen ∧ o.1.cpu.reg 15 = 0
  behind : n = 0 → 4096 < c.cpu.i.toNat →
    o.2 = .error (.outOfBounds c.cpu.i.toNat) ∧ ¬ c.BlitsOutside y n

/-- How an instruction ends that draws follows from when its span is refused. -/
private theorem endsAsDraw_of_refusal {y : Reg} {n : UInt8} {o : Outcome}
    (hrefused : ∀ e, c.spanRefusal? (c.visibleRows y n) = some e → o.2 = .error e)
    (hdone : c.spanRefusal? (c.visibleRows y n) = none → o.2 = .ok ())
    (hnothing : n = 0 → c.cpu.i.toNat ≤ 4096 →
      o.1.screen = c.screen ∧ o.1.cpu.reg 15 = 0) : c.EndsAsDraw y n o := by
  have hblits := blitsOutside_iff c y n
  have hzero := visibleRows_eq_zero_iff c y n
  -- A span that is too long has a row outside memory, unless it has no row at all.
  by_cases hlong : 4096 < c.cpu.i.toNat + c.visibleRows y n
  · have herror := hrefused _ (if_pos hlong)
    have hout (h : n ≠ 0 ∨ c.cpu.i.toNat ≤ 4096) : c.BlitsOutside y n := by
      refine hblits.mpr ⟨?_, hlong⟩
      intro hn
      have hnone := hzero.mpr hn
      obtain hrow | hindex := h
      · exact hrow hn
      · omega
    refine ⟨fun h => ⟨fun _ => hout h, fun _ => ⟨_, herror⟩⟩, fun h => ?_, hnothing, ?_⟩
    · rw [herror]
      exact ⟨fun hok => (nomatch hok), fun hin => absurd (hout h) hin⟩
    · intro hn hbehind
      rw [herror, Nat.max_eq_left (Nat.le_of_lt hbehind)]
      exact ⟨rfl, fun h => (hblits.mp h).1 hn⟩
  · have hok := hdone (if_neg hlong)
    have hin : ¬ c.BlitsOutside y n := fun h => hlong (hblits.mp h).2
    refine ⟨fun _ => ⟨?_, fun h => absurd h hin⟩, fun _ => ⟨fun _ => hin, fun _ => hok⟩, hnothing, ?_⟩
    · rintro ⟨addr, herror⟩
      rw [hok] at herror
      cases herror
    · intro _ hbehind
      omega

/-- A sprite without rows clears the flag, as long as its empty span is not refused. -/
theorem drawSprite_zero (y x : Reg) (hindex : c.cpu.i.toNat ≤ 4096) :
    c.drawSprite y x 0 = ({ c with cpu := c.cpu.setReg Cpu.flagReg 0 }, .ok ()) := by
  have hnone : c.spanRefusal? 0 = none := if_neg (Nat.not_lt.mpr hindex)
  obtain ⟨sprite, hslice⟩ := slice_of_no_refusal hnone
  have hlength := Memory.length_of_slice hslice
  have hempty : sprite = [] := List.eq_nil_of_length_eq_zero (by omega)
  subst hempty
  have hrows : min (0 : UInt8).toNat (c.screen.height - (c.cpu.reg y).toNat % c.screen.height) = 0 :=
    Nat.zero_min _
  unfold drawSprite
  dsimp only
  rw [hrows, hslice]
  rfl

theorem drawSprite_endsAsDraw (c : Core) (y x : Reg) (n : UInt8) :
    c.EndsAsDraw y n (c.drawSprite y x n) := by
  apply endsAsDraw_of_refusal
  · intro e he
    have hexecute : c.execute 0 (.draw y x n) = (c, .error e) := execute_of_refusal 0 he
    exact congrArg Prod.snd hexecute
  · intro hnone
    have hexecute : (c.execute 0 (.draw y x n)).2 = .ok () := execute_of_no_refusal 0 hnone
    exact hexecute
  · intro hn hindex
    subst hn
    rw [drawSprite_zero y x hindex]
    exact ⟨rfl, (c.cpu.reg_setReg _ _ _).trans (if_pos rfl)⟩

theorem tick_endsAsDraw (roll : UInt8) (hpc : c.cpu.pc.toNat ≤ 4094)
    (hfits : c.word.Fits "DXYN") : c.EndsAsDraw c.operandY c.operandN (c.tick roll) := by
  have hinsn : Instruction.ofWord? c.word = some (.draw c.operandY c.operandX c.operandN) :=
    Instruction.ofWord?_of_fits_form (i := .draw 0 0 0) hfits
  have hfault : c.fault? = c.spanRefusal? (c.visibleRows c.operandY c.operandN) :=
    Fault.fault?_of_fits (i := .draw 0 0 0) hpc hfits
  apply endsAsDraw_of_refusal
  · intro e he
    rw [tick_of_fault roll (hfault.trans he)]
  · intro hnone
    exact tick_of_no_fault roll (hfault.trans hnone)
  · intro hn hindex
    have hexecute : c.advance.execute roll (.draw c.operandY c.operandX c.operandN) =
        ({ c.advance with cpu := c.advance.cpu.setReg Cpu.flagReg 0 }, .ok ()) := by
      rw [hn]
      exact drawSprite_zero c.operandY c.operandX hindex
    rw [tick_of_execute_ok hpc hinsn hexecute]
    exact ⟨rfl, (c.advance.cpu.reg_setReg _ _ _).trans (if_pos rfl)⟩

/-- An instruction `DXYN` faults exactly for the rows that it would draw, as long as it has a row or
the index register does not point further than the end of memory. Otherwise it reads nothing and
faults all the same. -/
theorem draw_faults_for_blitted_rows (c : Core) (roll : UInt8) :
    (∀ (y x : Reg) (n : UInt8), c.EndsAsDraw y n (c.drawSprite y x n)) ∧
      (c.cpu.pc.toNat ≤ 4094 → c.word.Fits "DXYN" →
        c.EndsAsDraw c.operandY c.operandN (c.tick roll)) :=
  ⟨c.drawSprite_endsAsDraw, tick_endsAsDraw roll⟩

/-- The next instruction is `D000` and the index register points one byte further than the end of
memory. -/
def emptySpriteBehindMemory : Core :=
  loaded { Cpu.initial false with i := 0x1001 } [0xD0, 0x00]

private theorem word_emptySpriteBehindMemory :
    emptySpriteBehindMemory.word.Fits "DXYN" ∧ emptySpriteBehindMemory.operandN = 0 := by
  have hword : emptySpriteBehindMemory.word = Word.ofBytes 0xD0 0x00 := word_loaded rfl 0xD0 0x00 []
  rw [operandN, hword]
  decide

/-- The empty span begins behind the end of memory, and this is what is reported. -/
theorem draw_faults_for_blitted_rows_behind_memory :
    emptySpriteBehindMemory.cpu.pc.toNat ≤ 4094 ∧ emptySpriteBehindMemory.word.Fits "DXYN" ∧
      (emptySpriteBehindMemory.tick 0).2 = .error (.outOfBounds 0x1001) := by
  obtain ⟨hfits, hn⟩ := word_emptySpriteBehindMemory
  have hpc : emptySpriteBehindMemory.cpu.pc.toNat ≤ 4094 := by decide
  have hends := (draw_faults_for_blitted_rows emptySpriteBehindMemory 0).2 hpc hfits
  exact ⟨hpc, hfits, (hends.behind hn (by decide)).1⟩

/-- The fault of a sprite without rows is not one of a row that it would draw. -/
theorem empty_sprite_faults_behind_memory :
    ¬ ((∃ addr, (emptySpriteBehindMemory.tick 0).2 = .error (.outOfBounds addr)) ↔
      emptySpriteBehindMemory.BlitsOutside emptySpriteBehindMemory.operandY
        emptySpriteBehindMemory.operandN) := by
  obtain ⟨hfits, hn⟩ := word_emptySpriteBehindMemory
  have hends := tick_endsAsDraw (c := emptySpriteBehindMemory) 0 (by decide) hfits
  obtain ⟨herror, hin⟩ := hends.behind hn (by decide)
  exact fun h => hin (h.mp ⟨_, herror⟩)

end Chip8.Core
