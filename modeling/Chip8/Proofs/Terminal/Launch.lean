import Chip8.Proofs.Machine.Reload
import Chip8.Proofs.Terminal.Setup
import Chip8.Terminal.Program

namespace Chip8

namespace Terminal

section Keys

variable {k : Keypad} {key : Nat} {keys : List Nat}

theorem press_of_lt (hkey : 0xF < key) : k.press key = (k, .error (.invalidKey key)) :=
  dif_neg (Nat.not_lt.mpr hkey)

theorem exists_press (hkey : key ≤ 0xF) : ∃ next changed, k.press key = (next, .ok changed) :=
  ⟨_, _, dif_pos (Nat.lt_succ_of_le hkey)⟩

theorem pressAll_of_press {next : Keypad} {changed : Bool} (h : k.press key = (next, .ok changed))
    (rest : List Nat) : pressAll k (key :: rest) = pressAll next rest := by
  rw [pressAll, h]

/-- The first key that does not exist is the one that is reported. -/
theorem pressAll_of_find? (h : keys.find? (0xF < ·) = some key) :
    (pressAll k keys).2 = .error (.invalidKey key) := by
  induction keys generalizing k with
  | nil => cases h
  | cons first rest ih =>
    by_cases hfirst : 0xF < first
    · rw [List.find?_cons_of_pos (by simpa using hfirst)] at h
      cases h
      rw [pressAll, press_of_lt hfirst]
    · rw [List.find?_cons_of_neg (by simpa using hfirst)] at h
      obtain ⟨next, changed, hpress⟩ := exists_press (k := k) (Nat.not_lt.mp hfirst)
      rw [pressAll_of_press hpress, ih h]

/-- Keys that all exist are held down in the end, along with those that were before. -/
theorem exists_pressAll (h : ∀ key ∈ keys, key ≤ 0xF) : ∃ pressed, pressAll k keys = (pressed, .ok ()) ∧
    ∀ key, pressed.isPressed key = true ↔ key ∈ keys ∨ k.isPressed key = true := by
  induction keys generalizing k with
  | nil => exact ⟨k, rfl, fun key => by simp⟩
  | cons first rest ih =>
    obtain ⟨hfirst, hrest⟩ := List.forall_mem_cons.mp h
    obtain ⟨next, changed, hpress⟩ := exists_press (k := k) hfirst
    obtain ⟨pressed, hall, hheld⟩ := ih (k := next) hrest
    refine ⟨pressed, (pressAll_of_press hpress rest).trans hall, ?_⟩
    intro key
    rw [hheld, Keypad.isPressed_of_set hpress, List.mem_cons]
    by_cases hsame : key = first
    · simp [hsame]
    · simp [hsame]

end Keys

section Setup

variable {o : Options} {rom : List UInt8} {loaded : Machine}

/-- How a session stands before its first frame: the machine is at the start of the program, with the
breakpoints, the listing and the keys that were asked for. An address that is asked for again is set
where it was asked for first. -/
structure Session.Ready (s : Session) (o : Options) (rom : List UInt8) : Prop where
  starts : s.run.machine.Starts Font.bytes rom
  cpu : s.run.machine.cpu = { Cpu.initial o.debug with breakpoints := o.breakpoints.eraseDups }
  keys : ∀ key, s.run.machine.keypad.isPressed key = true ↔ key ∈ o.keys
  debug : s.debug = o.debug
  frames : s.frames = o.frames
  ipf : s.ipf = o.ipf
  rate : s.rate = max o.rate 1
  rate_pos : 1 ≤ s.rate
  realtime : s.realtime = o.realtime
  notices : s.notices = #[]

/-- What is told about a program before it runs: the dump of its bytes, if that is asked for. -/
def dumpNotices (o : Options) (rom : List UInt8) : List Notice :=
  if o.dump then [.dump (Dump.text 0x200 rom)] else []

/-- A program that is too long is refused before anything is told. -/
theorem setUp_of_long (o : Options) (noise : Noise) (hrom : 3584 < rom.length) :
    Session.setUp o rom noise = ([], .error (.romTooLarge rom.length 3584)) := by
  have hload : Machine.standard.loadProgram rom = (_, .error (.romTooLarge rom.length 3584)) :=
    Machine.load_of_memory_error (Memory.load_of_long_program _ Font.length_bytes_le hrom)
  rw [Session.setUp, hload]

/-- The dump of a program that was loaded cannot fail, and shows the bytes of the file. -/
theorem programDump_of_starts (o : Options) (h : loaded.Starts Font.bytes rom)
    (hrom : rom.length ≤ 3584) :
    programDump o rom.length loaded.mem = (dumpNotices o rom, .ok ()) := by
  have hslice : loaded.mem.slice 0x200 (0x200 + rom.length) = .ok rom :=
    Memory.slice_of_image h.memory Font.length_bytes_le hrom
  have htext : loaded.mem.hexdump Region.program.start (Region.program.start + rom.length) =
      .ok (Dump.text 0x200 rom) := by
    change (loaded.mem.slice 0x200 (0x200 + rom.length)).map _ = _
    rw [hslice]
    rfl
  rw [programDump, dumpNotices, Memory.dump, htext]
  dsimp only
  rw [String.empty_append]
  split <;> rfl

/-- What a program that fits comes to before keys are looked at. -/
theorem exists_setUp_eq (o : Options) (noise : Noise) (hrom : rom.length ≤ 3584) :
    ∃ loaded : Machine, loaded.Starts Font.bytes rom ∧ loaded.cpu = Cpu.initial false ∧
      loaded.keypad = .released ∧
      Session.setUp o rom noise = (dumpNotices o rom,
        (prepare o loaded).2.map fun () => .start o (prepare o loaded).1 noise) := by
  obtain ⟨loaded, hload, hstarts, _⟩ := Machine.standard.exists_load Font.length_bytes_le hrom
  have hdump := programDump_of_starts o hstarts hrom
  have hsetUp : Session.setUp o rom noise = (dumpNotices o rom,
      (prepare o loaded).2.map fun () => .start o (prepare o loaded).1 noise) := by
    rw [Session.setUp, Machine.loadProgram, hload]
    dsimp only
    rw [hdump]
  obtain ⟨mem, rfl⟩ := Machine.eq_of_load hload
  exact ⟨_, hstarts, rfl, rfl, hsetUp⟩

/-- No key of a released keypad is held down, existing or not. -/
theorem isPressed_released (key : Nat) : Keypad.released.isPressed key = false := by
  rw [Keypad.isPressed, Keypad.released, Vector.getElem?_replicate]
  split <;> rfl

theorem keys_le_of_find? (h : o.keys.find? (0xF < ·) = none) : ∀ key ∈ o.keys, key ≤ 0xF := by
  intro key hkey
  have hlt := List.find?_eq_none.mp h key hkey
  exact Nat.not_lt.mp (by simpa using hlt)

/-- If all keys exist, preparing a machine makes it ready. -/
theorem exists_prepare (hstarts : loaded.Starts Font.bytes rom)
    (hcpu : loaded.cpu = Cpu.initial false) (hkeypad : loaded.keypad = .released)
    (hkeys : ∀ key ∈ o.keys, key ≤ 0xF) :
    ∃ machine, prepare o loaded = (machine, .ok ()) ∧
      ∀ noise, (Session.start o machine noise).Ready o rom := by
  obtain ⟨pressed, hpress, hheld⟩ := exists_pressAll (k := loaded.keypad) hkeys
  have hprocessor : o.breakpoints.foldl Cpu.setBreak { loaded.cpu with debug := o.debug } =
      { Cpu.initial o.debug with breakpoints := o.breakpoints.eraseDups } := by
    rw [hcpu, Cpu.foldl_setBreak_eq, Cpu.breakpoints_foldl_setBreak rfl]
    rfl
  refine ⟨{ loaded with
    cpu := { Cpu.initial o.debug with breakpoints := o.breakpoints.eraseDups }
    keypad := pressed }, ?_, ?_⟩
  · rw [prepare, hpress, hprocessor]
  · intro noise
    constructor
    case starts =>
      exact ⟨hstarts.running, rfl, rfl, hstarts.dark, hstarts.timers, hstarts.memory⟩
    case keys =>
      intro key
      refine (hheld key).trans (or_iff_left ?_)
      rw [hkeypad, isPressed_released]
      exact Bool.false_ne_true
    case rate => exact Nat.max_comm _ _
    case rate_pos => exact Nat.le_max_left _ _
    all_goals rfl

/-- The output shows the dump that is told, and nothing else. -/
theorem textOn_dumpNotices (o : Options) (rom : List UInt8) :
    Transcript.textOn .output (dumpNotices o rom) =
      if o.dump then Dump.text 0x200 rom else "" := by
  rw [dumpNotices]
  split
  · change String.join [Dump.text 0x200 rom] = Dump.text 0x200 rom
    simp
  · rfl

/-- Only a key that does not exist keeps a program that fits from being set up. -/
theorem setUp_of_fitting (o : Options) (noise : Noise) (hrom : rom.length ≤ 3584) :
    (Session.setUp o rom noise).1 = dumpNotices o rom ∧
      (∀ e, (Session.setUp o rom noise).2 = .error e ↔
        ∃ key, o.keys.find? (0xF < ·) = some key ∧ e = .invalidKey key) ∧
      (o.keys.find? (0xF < ·) = none → ∃ s, (Session.setUp o rom noise).2 = .ok s ∧
        s.Ready o rom) := by
  obtain ⟨loaded, hstarts, hcpu, hkeypad, hsetUp⟩ := exists_setUp_eq o noise hrom
  rw [hsetUp]
  cases hfind : o.keys.find? (0xF < ·) with
  | some key =>
    have hkeys : (prepare o loaded).2 = .error (.invalidKey key) := pressAll_of_find? hfind
    rw [hkeys]
    refine ⟨rfl, fun e => ?_, nofun⟩
    constructor
    · intro h
      cases h
      exact ⟨key, rfl, rfl⟩
    · rintro ⟨_, hkey, rfl⟩
      cases hkey
      rfl
  | none =>
    obtain ⟨machine, hprepare, hready⟩ :=
      exists_prepare hstarts hcpu hkeypad (keys_le_of_find? hfind)
    rw [hprepare]
    refine ⟨rfl, fun e => ?_, fun _ => ⟨_, rfl, hready noise⟩⟩
    constructor
    · nofun
    · nofun

end Setup

/-- What a command line and a program come to before the first frame. A program that is too long is
refused, and nothing is told. For any other program the dump of its bytes is told if it is asked for.
After that the first key that does not exist is reported, and the session is ready if there is none. -/
theorem setUp_follows_options (o : Options) (rom : List UInt8) (noise : Noise) :
    (Session.setUp o rom noise = ([], .error (.romTooLarge rom.length 3584)) ↔ 3584 < rom.length) ∧
    (rom.length ≤ 3584 →
      (Session.setUp o rom noise).1 = dumpNotices o rom ∧
      Transcript.textOn .output (Session.setUp o rom noise).1 =
        (if o.dump then Dump.text 0x200 rom else "") ∧
      (∀ e, (Session.setUp o rom noise).2 = .error e ↔
        ∃ key, o.keys.find? (0xF < ·) = some key ∧ e = .invalidKey key) ∧
      (o.keys.find? (0xF < ·) = none → ∃ s, (Session.setUp o rom noise).2 = .ok s ∧
        s.Ready o rom)) := by
  constructor
  · constructor
    · intro hlong
      by_contra hrom
      obtain ⟨_, herror, _⟩ := setUp_of_fitting o noise (Nat.not_lt.mp hrom)
      obtain ⟨key, _, hkey⟩ := (herror _).mp (congrArg Prod.snd hlong)
      cases hkey
    · exact setUp_of_long o noise
  · intro hrom
    obtain ⟨htold, herror, hok⟩ := setUp_of_fitting o noise hrom
    refine ⟨htold, ?_, herror, hok⟩
    rw [htold, textOn_dumpNotices]

/-- A dump, keys of which two do not exist, and an address that is asked for twice. -/
def crowded : Options :=
  { Options.default with dump := true, breakpoints := [0x300, 0x202, 0x300], keys := [3, 0x20, 0x10] }

/-- The dump of three bytes stays although the first of the keys that do not exist is reported. With
keys that exist the session is ready, and one byte more than memory has room for is too long. -/
theorem setUp_follows_options_crowded :
    [(0x60 : UInt8), 0x05, 0x12].length ≤ 3584 ∧
      (Session.setUp crowded [0x60, 0x05, 0x12] (.ofSeed 0)).1 =
        [.dump (Dump.text 0x200 [0x60, 0x05, 0x12])] ∧
      (Session.setUp crowded [0x60, 0x05, 0x12] (.ofSeed 0)).2 = .error (.invalidKey 0x20) ∧
      (∃ s, (Session.setUp { crowded with keys := [3, 0xF, 3] } [0x60, 0x05, 0x12] (.ofSeed 0)).2 =
          .ok s ∧
        s.run.machine.cpu.breakpoints = [0x300, 0x202] ∧
        s.run.machine.keypad.isPressed 0xF = true ∧ s.run.machine.keypad.isPressed 4 = false) ∧
      Session.setUp crowded (List.replicate 3585 0) (.ofSeed 0) =
        ([], .error (.romTooLarge 3585 3584)) := by
  obtain ⟨htold, _, herror, _⟩ :=
    (setUp_follows_options crowded [0x60, 0x05, 0x12] (.ofSeed 0)).2 (by decide)
  obtain ⟨_, _, _, hok⟩ := (setUp_follows_options { crowded with keys := [3, 0xF, 3] }
    [0x60, 0x05, 0x12] (.ofSeed 0)).2 (by decide)
  obtain ⟨s, hs, hready⟩ := hok (by decide)
  obtain ⟨hlong, _⟩ := setUp_follows_options crowded (List.replicate 3585 0) (.ofSeed 0)
  rw [List.length_replicate] at hlong
  refine ⟨by decide, htold, (herror _).mpr ⟨0x20, by decide, rfl⟩, ⟨s, hs, ?_, ?_, ?_⟩,
    hlong.mpr (by decide)⟩
  · rw [hready.cpu]
    decide
  · exact (hready.keys 0xF).mpr (by decide)
  · exact Bool.eq_false_iff.mpr (mt (hready.keys 4).mp (by decide))

end Terminal

end Chip8
