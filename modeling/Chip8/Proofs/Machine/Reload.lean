import Chip8.Proofs.Machine.Operation

namespace Chip8

namespace Memory

/-- Bytes followed by zeros up to a given length. -/
def padded (length : Nat) (data : List UInt8) : List UInt8 :=
  data ++ List.replicate (length - data.length) 0

/-- The bytes of a memory that was just loaded. Font and program stand at the starts of their
regions, with zeros behind each of them. -/
def image (font program : List UInt8) : List UInt8 :=
  padded 0x200 font ++ padded 0xE00 program

variable {font program data : List UInt8} {length : Nat}

theorem length_padded (h : data.length ≤ length) : (padded length data).length = length := by
  rw [padded, List.length_append, List.length_replicate]
  omega

/-- First the data is found, then zeros, then nothing. -/
theorem getElem?_padded (h : data.length ≤ length) (k : Nat) :
    (padded length data)[k]? =
      if k < data.length then data[k]? else if k < length then some 0 else none := by
  rw [padded, List.getElem?_append, List.getElem?_replicate]
  by_cases hk : k < data.length
  · rw [if_pos hk, if_pos hk]
  · rw [if_neg hk, if_neg hk]
    congr 1
    simp only [eq_iff_iff]
    omega

/-- A program that is too long is reported before anything is cleared. -/
theorem load_of_long_program (m : Memory) (hfont : font.length ≤ 512)
    (hprogram : 3584 < program.length) :
    m.load font program = (m, .error (.romTooLarge program.length 3584)) := by
  rw [load, if_neg (show ¬ Region.charset.size < font.length from Nat.not_lt.mpr hfont)]
  exact if_pos hprogram

/-- A load that has room for everything succeeds, and fills all of memory. -/
theorem exists_load (m : Memory) (hfont : font.length ≤ 512) (hprogram : program.length ≤ 3584) :
    ∃ loaded, m.load font program = (loaded, .ok ()) ∧
      loaded.bytes.toList = image font program := by
  refine ⟨_, m.load_eq_blit hfont hprogram, ?_⟩
  apply List.ext_getElem?
  intro addr
  rw [image, List.getElem?_append, length_padded hfont, getElem?_padded hfont,
    getElem?_padded hprogram, Vector.getElem?_toList, getElem?_blit, getElem?_blit, zeroed,
    Vector.getElem?_replicate]
  simp only [Region.start]
  grind

/-- A program lies behind the place of the font. -/
theorem getElem?_of_image {m : Memory} (himage : m.bytes.toList = image font program)
    (hfont : font.length ≤ 512) (hprogram : program.length ≤ 3584) {k : Nat} {b : UInt8}
    (hb : program[k]? = some b) : m.bytes[0x200 + k]? = some b := by
  have hk : k < program.length := (List.getElem?_eq_some_iff.mp hb).1
  rw [← Vector.getElem?_toList, himage, image, List.getElem?_append_right, length_padded hfont,
    Nat.add_sub_cancel_left, getElem?_padded hprogram, if_pos hk, hb]
  rw [length_padded hfont]
  exact Nat.le_add_right _ _

/-- The span of a program in memory that was just loaded holds the program and nothing else. -/
theorem slice_of_image {m : Memory} (himage : m.bytes.toList = image font program)
    (hfont : font.length ≤ 512) (hprogram : program.length ≤ 3584) :
    m.slice 0x200 (0x200 + program.length) = .ok program := by
  have hwithin : Within 0x200 (0x200 + program.length) :=
    (within_add_iff _ _).mpr (Nat.add_le_add_left hprogram 0x200)
  have hslice : m.slice 0x200 (0x200 + program.length) =
      .ok (m.bytes.extract 0x200 (0x200 + program.length)).toList := by
    rw [slice, if_pos hwithin]
  rw [hslice, Except.ok.injEq]
  apply List.ext_getElem?
  intro k
  rw [getElem?_of_slice hslice, Nat.add_sub_cancel_left]
  split
  · next hk =>
    rw [List.getElem?_eq_getElem hk]
    exact getElem?_of_image himage hfont hprogram (List.getElem?_eq_getElem hk)
  · next hk => rw [List.getElem?_eq_none (Nat.not_lt.mp hk)]

end Memory

namespace Machine

/-- Machines that look the same in what a load leaves to the host. -/
structure SameForHost (m n : Machine) : Prop where
  width : m.screen.width = n.screen.width
  height : m.screen.height = n.screen.height
  debug : m.cpu.debug = n.cpu.debug
  breakpoints : m.cpu.breakpoints = n.cpu.breakpoints
  keypad : m.keypad = n.keypad

theorem SameForHost.trans {l m n : Machine} (h : l.SameForHost m) (h' : m.SameForHost n) :
    l.SameForHost n :=
  ⟨h.width.trans h'.width, h.height.trans h'.height, h.debug.trans h'.debug,
    h.breakpoints.trans h'.breakpoints, h.keypad.trans h'.keypad⟩

/-- A machine at the start of a program. -/
structure Starts (m : Machine) (font program : List UInt8) : Prop where
  running : m.state = .running
  entry : m.cpu.pc = 0x200
  cycle : m.cpu.cycle = 0
  dark : ∀ x y, x < m.screen.width → y < m.screen.height → m.screen.get? x y = some false
  timers : m.timers = .zero
  memory : m.mem.bytes.toList = Memory.image font program

variable {m n : Machine} {font program : List UInt8} {e : Error}

/-- If memory refuses a load and is left as it was, then so is the whole machine. -/
theorem load_of_memory_error (h : m.mem.load font program = (m.mem, .error e)) :
    m.load font program = (m, .error e) := by
  rw [load, h]

/-- A load that has room for everything starts the machine and keeps what is the host's. -/
theorem exists_load (m : Machine) (hfont : font.length ≤ 512) (hprogram : program.length ≤ 3584) :
    ∃ loaded, m.load font program = (loaded, .ok ()) ∧ loaded.Starts font program ∧
      m.SameForHost loaded := by
  obtain ⟨mem, hload, hbytes⟩ := m.mem.exists_load hfont hprogram
  rw [load, hload]
  -- Everything but the pixels and the bytes of memory is put there as it is.
  refine ⟨_, rfl, ⟨rfl, rfl, rfl, ?_, rfl, hbytes⟩, ⟨rfl, rfl, rfl, rfl, rfl⟩⟩
  intro x y hx hy
  exact m.screen.get?_clear hx hy

end Machine

namespace Run

variable {font program : List UInt8}

end Run

end Chip8
