import Chip8.Proofs.Checked.Machine
import Chip8.Proofs.Machine.Operation

namespace Chip8

namespace Checked

def Cpu.handle (c : Cpu) : Chip8.Cpu.Operation → Guarded (Cpu × Reply)
  | .setV reg value => return (c.setV reg value).reply .done
  | .setPc pc => return ({ c with pc := pc }, .silent)
  | .setI i => return ({ c with i := i }, .silent)
  | .setBreak addr => return (c.setBreak addr, .silent)
  | .unsetBreak addr => return (c.unsetBreak addr, .silent)
  | .reset => return (c.reset, .silent)
  | .toggleDebug => return ({ c with debug := !c.debug }, .silent)
  | .stack => return (c, .words (← c.openCalls))

/-- The operations on addresses look at them first, so that they are the same as ever. -/
def handleMemory (m : Memory) : Memory.Operation → Guarded (Memory × Reply)
  | .load font program => return (← loadMemory m font program).reply .done
  | .region r => return (m, .bytes (.ok (← readRegion m r)))
  | .clearRegion r => return (← clearRegion m r, .silent)
  | op => return m.handle op

def Screen.handle (s : Screen) : Chip8.Screen.Operation → Guarded (Screen × Reply)
  | .draw x y sprite => do
    let (next, hit) ← s.draw x y sprite
    return (next, .truth hit)
  | .get x y => return (s, .pixel (← s.get? x y))
  | .clear => return (s.clear, .silent)

namespace Run

def load (r : Run) (font program : List UInt8) : Guarded (Run × Reply) := do
  let (machine, result) ← r.machine.load font program
  return (r.withMachine machine, .done result)

def handle (r : Run) : Operation → Guarded (Run × Reply)
  | .load font program => r.load font program
  | .loadProgram program => r.load Font.bytes program
  | .tick => do
    let (next, result) ← r.tick
    return (next, .done result)
  | .step => do
    let (next, result) ← r.step
    return (next, .state result)
  | .multistep n => do
    let (next, result) ← r.multistep n
    return (next, .state result)
  | .pause => return (r.withMachine r.machine.pause, .silent)
  | .resume => return (r.withMachine r.machine.resume, .silent)
  | .cpu op => do
    let (cpu, reply) ← r.machine.cpu.handle op
    return (r.withMachine { r.machine with cpu := cpu }, reply)
  | .memory op => do
    let (mem, reply) ← handleMemory r.machine.mem op
    return (r.withMachine { r.machine with mem := mem }, reply)
  | .screen op => do
    let (screen, reply) ← r.machine.screen.handle op
    return (r.withMachine { r.machine with screen := screen }, reply)
  | .timers op =>
    let (timers, reply) := r.machine.timers.handle op
    return (r.withMachine { r.machine with timers := timers }, reply)
  | .keypad op =>
    let (keypad, reply) := r.machine.keypad.handle op
    return (r.withMachine { r.machine with keypad := keypad }, reply)

def handleAll (r : Run) : List Operation → Guarded (Run × List Reply)
  | [] => return (r, [])
  | op :: rest => do
    let (next, reply) ← r.handle op
    let (last, replies) ← next.handleAll rest
    return (last, reply :: replies)

end Run

/-- A machine that a constructor has given, of at most as many pixels as there are integers. -/
def Machine.IsNew (m : Machine) : Prop :=
  standard = .ok m ∨ ∃ width height, width * height < limit ∧ ofSize width height = .ok (.ok m)

/-- The pixels and the open calls are as many as there should be. -/
structure Machine.WellFormed (m : Machine) : Prop where
  width : 0 < m.screen.width
  height : 0 < m.screen.height
  pixels : m.screen.pixels.size = m.screen.width * m.screen.height
  calls : m.cpu.sp ≤ 12

end Checked

/-- No operation on the processor forms anything out of range, whatever number it is given. -/
theorem Cpu.handle_bare (c : Cpu) (op : Cpu.Operation) :
    c.bare.handle op = .ok ((c.handle op).1.bare, (c.handle op).2) := by
  cases op with
  | setV reg value =>
    rw [Checked.Cpu.handle, setV_bare]
    rfl
  | setBreak addr =>
    rw [Checked.Cpu.handle, setBreak_bare]
    rfl
  | stack =>
    rw [Checked.Cpu.handle, openCalls_bare]
    rfl
  | setPc | setI | unsetBreak | reset | toggleDebug => rfl

/-- The spans of the regions are fixed, and the other spans are looked at first. -/
theorem Memory.handle_checked (m : Memory) (op : Memory.Operation) :
    Checked.handleMemory m op = .ok (m.handle op) := by
  cases op with
  | load font program =>
    rw [Checked.handleMemory, load_checked]
    rfl
  | region r =>
    rw [Checked.handleMemory, region_checked]
    rfl
  | clearRegion r =>
    rw [Checked.handleMemory, clearRegion_checked]
    rfl
  | read | write | slice | fill => rfl

/-- The host draws and looks at pixels as safely as programs do. -/
theorem Screen.handle_bare {s : Screen} (harea : s.area < Checked.limit) (op : Screen.Operation) :
    s.bare.handle op = .ok ((s.handle op).1.bare, (s.handle op).2) := by
  cases op with
  | draw x y sprite =>
    rw [Checked.Screen.handle, draw_bare harea]
    rfl
  | get x y =>
    rw [Checked.Screen.handle, get?_bare harea]
    rfl
  | clear =>
    rw [Checked.Screen.handle, clear_bare]
    rfl

theorem Machine.area_of_ofSize {width height : Nat} {harea : width * height < Screen.areaLimit}
    {m : Machine} (h : ofSize width height harea = .ok m) : m.screen.area = width * height := by
  unfold ofSize Screen.ofSize at h
  split at h <;> cases h
  rfl

theorem Machine.area_load (m : Machine) (font program : List UInt8) :
    (m.load font program).1.screen.area = m.screen.area := by
  unfold load
  split <;> rfl

/-- What the machine knows about itself holds of how it is stored. -/
theorem Machine.wellFormed_bare (m : Machine) : m.bare.WellFormed where
  width := m.screen.width_pos
  height := m.screen.height_pos
  pixels := m.screen.pixels.size_toArray
  calls := m.cpu.stack.depth_le

/-- The constructors give the same machines with the checks as without. -/
theorem Machine.IsNew.bare {m : Machine} (h : m.IsNew) (harea : m.screen.area < Checked.limit) :
    m.bare.IsNew := by
  obtain rfl | ⟨width, height, hroom, hsize⟩ := h
  · exact Or.inl standard_bare
  · refine Or.inr ⟨width, height, hroom, ?_⟩
    rw [ofSize_bare hroom, hsize]
    rfl

namespace Run

variable {r : Run}

/-- A load completes, since both sizes are looked at first. -/
theorem load_bare (r : Run) (font program : List UInt8) :
    r.bare.load font program =
      .ok ((r.handle (.load font program)).1.bare, (r.handle (.load font program)).2) := by
  have hload : r.bare.machine.load font program = .ok _ := r.machine.load_bare font program
  rw [Checked.Run.load, hload]
  rfl

/-- Every operation comes to the same as without the checks. -/
theorem handle_bare (harea : r.machine.screen.area < Checked.limit) (op : Operation) :
    Checked.Completes (r.bare.handle op) ((r.handle op).1.bare, (r.handle op).2)
      (r.handle op).1.machine.cpu.counted := by
  cases op with
  | load font program => exact Or.inl (r.load_bare font program)
  | loadProgram program => exact Or.inl (r.load_bare Font.bytes program)
  | tick => exact (tick_bare harea).bind (Or.inl rfl)
  | step => exact (step_bare harea).bind (Or.inl rfl)
  | multistep n => exact (multistep_bare harea n).bind (Or.inl rfl)
  | pause =>
    have hpause : r.bare.machine.pause = r.machine.pause.bare := r.machine.pause_bare
    rw [Checked.Run.handle, hpause]
    exact Or.inl rfl
  | resume =>
    have hresume : r.bare.machine.resume = r.machine.resume.bare := r.machine.resume_bare
    rw [Checked.Run.handle, hresume]
    exact Or.inl rfl
  | cpu op =>
    have hcpu : r.bare.machine.cpu.handle op = _ := r.machine.cpu.handle_bare op
    rw [Checked.Run.handle, hcpu]
    exact Or.inl rfl
  | memory op =>
    have hmem : Checked.handleMemory r.bare.machine.mem op = _ := r.machine.mem.handle_checked op
    rw [Checked.Run.handle, hmem]
    exact Or.inl rfl
  | screen op =>
    have hscreen : r.bare.machine.screen.handle op = _ := Screen.handle_bare harea op
    rw [Checked.Run.handle, hscreen]
    exact Or.inl rfl
  | timers op => exact Or.inl rfl
  | keypad op => exact Or.inl rfl

/-- A host has no operation that changes the size of the screen. -/
theorem area_handle (r : Run) (op : Operation) :
    (r.handle op).1.machine.screen.area = r.machine.screen.area := by
  cases op with
  | load font program => exact r.machine.area_load font program
  | loadProgram program => exact r.machine.area_load Font.bytes program
  | tick => exact r.tick_continues.area
  | step => exact r.step_continues.area
  | multistep n => exact (r.multistep_continues n).area
  | pause =>
    change r.machine.pause.screen.area = _
    unfold Machine.pause
    split <;> rfl
  | resume =>
    change r.machine.resume.screen.area = _
    unfold Machine.resume
    split <;> rfl
  | screen op =>
    cases op with
    | draw x y sprite => exact Screen.area_draw _ _ _ _
    | get | clear => rfl
  | cpu | memory | timers | keypad => rfl

/-- Operations one after the other are stopped by nothing but a cycle count. -/
theorem handleAll_bare (harea : r.machine.screen.area < Checked.limit) (ops : List Operation) :
    r.bare.handleAll ops = .ok ((r.handleAll ops).1.bare, (r.handleAll ops).2) ∨
      r.bare.handleAll ops = .error .count ∧ ∃ k ≤ ops.length,
        Checked.limit ≤ (r.handleAll (ops.take k)).1.machine.cpu.counted := by
  induction ops generalizing r with
  | nil => exact Or.inl rfl
  | cons op rest ih =>
    rw [Checked.Run.handleAll, handleAll_cons]
    obtain hfirst | ⟨hfirst, hcount⟩ := handle_bare harea op
    · obtain hrest | ⟨hrest, k, hk, hcount⟩ := ih (r := (r.handle op).1) (by rwa [area_handle])
      · left
        rw [hfirst, Checked.ok_bind]
        dsimp only
        rw [hrest]
        rfl
      · right
        refine ⟨?_, k + 1, Nat.succ_le_succ hk, hcount⟩
        rw [hfirst, Checked.ok_bind]
        dsimp only
        rw [hrest]
        rfl
    · right
      refine ⟨?_, 1, by simp, ?_⟩
      · rw [hfirst]
        rfl
      · exact hcount

/-- Whatever a host does with a new machine, no index, span, copy, remainder, sum or difference that
the machine forms is out of range. Only its count of cycles could become too large, and while it does
not, all operations end. Where they do, they have come to the same as without the checks, the screen
has as many pixels as its size tells, and there are no more open calls than slots. -/
theorem handleAll_never_traps {m : Machine} (hnew : m.IsNew)
    (harea : m.screen.width * m.screen.height < Checked.limit) (noise : Noise)
    (ops : List Operation) :
    m.bare.IsNew ∧
      (∀ trap, (start m noise).bare.handleAll ops = .error trap → trap = .count) ∧
      ((∀ k ≤ ops.length,
          ((start m noise).handleAll (ops.take k)).1.machine.cpu.counted < Checked.limit) →
        ∃ o, (start m noise).bare.handleAll ops = .ok o) ∧
      ∀ o, (start m noise).bare.handleAll ops = .ok o →
        o = (((start m noise).handleAll ops).1.bare, ((start m noise).handleAll ops).2) ∧
          o.1.machine.WellFormed := by
  have hall := handleAll_bare (r := start m noise) harea ops
  refine ⟨hnew.bare harea, ?_, ?_, ?_⟩
  · intro trap htrap
    obtain hok | ⟨hcount, _⟩ := hall
    · rw [hok] at htrap
      cases htrap
    · rw [hcount] at htrap
      cases htrap
      rfl
  · intro hbelow
    obtain hok | ⟨_, k, hk, hcount⟩ := hall
    · exact ⟨_, hok⟩
    · exact absurd (hbelow k hk) (Nat.not_lt.mpr hcount)
  · intro o ho
    obtain hok | ⟨hcount, _⟩ := hall
    · rw [hok] at ho
      cases ho
      exact ⟨rfl, Machine.wellFormed_bare _⟩
    · rw [hcount] at ho
      cases ho

/-- Calls until the stack is full, with the listing on, and a sprite over the corner of the screen. -/
def crowded : List Operation :=
  [.cpu .toggleDebug, .memory (.write 0x200 0x22), .multistep 20, .cpu .stack,
    .screen (.draw 0x10003F 0x10001E [0xFF, 0xFF, 0xFF]), .screen (.get 63 31)]

/-- The thirteenth call finds no slot, and of the sprite one column of two rows is on the
screen. -/
theorem handleAll_never_traps_crowded :
    Machine.standard.IsNew ∧
      ∃ o, (start .standard (.ofSeed 0)).bare.handleAll crowded = .ok o ∧
        o.1.machine.cpu.sp = 12 ∧ o.1.machine.state = .quit := by
  have hnew : Machine.standard.IsNew := Or.inl rfl
  obtain ⟨hdepth, hquit, hbelow⟩ :
      ((start .standard (.ofSeed 0)).handleAll crowded).1.machine.cpu.stack.depth = 12 ∧
        ((start .standard (.ofSeed 0)).handleAll crowded).1.machine.state = .quit ∧
        ∀ k ≤ crowded.length,
          ((start .standard (.ofSeed 0)).handleAll (crowded.take k)).1.machine.cpu.counted <
            Checked.limit := by
    decide +kernel
  obtain ⟨_, _, hends, hsame⟩ := handleAll_never_traps hnew (by decide) (.ofSeed 0) crowded
  obtain ⟨o, ho⟩ := hends hbelow
  obtain ⟨hvalue, _⟩ := hsame o ho
  have hmachine : o.1.machine = ((start .standard (.ofSeed 0)).handleAll crowded).1.machine.bare :=
    congrArg (fun o => o.1.machine) hvalue
  exact ⟨hnew, o, ho, by rw [hmachine, Machine.sp_bare, hdepth],
    by rw [hmachine, Machine.state_bare, hquit]⟩

end Run

end Chip8
