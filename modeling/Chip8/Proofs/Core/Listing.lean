import Chip8.Core.Trace
import Chip8.Proofs.Core.Fetch
import Chip8.Proofs.Core.Watch
import Chip8.Proofs.Text.Line

namespace Chip8

open Text Instruction

theorem Instruction.printable_text (i : Instruction Nat) : Printable i.text := by
  cases i with
  | alu op y x =>
    have hop : Printable op.mnemonic := by cases op <;> decide
    simp only [text, register, printable_append_iff, printable_alignLeft hop, printable_upperHex]
    decide
  | _ =>
    simp only [text, register, immediate, printable_append_iff, printable_upperHex, printable_hex]
    decide

/-- What a line of a listing says. -/
structure Entry where
  cycle : Nat
  addr : Nat
  insn : String
  word : Nat
deriving DecidableEq

/-- A number in hexadecimal that fits into a word. -/
def readAddress? (digits : List Char) : Option Nat :=
  (readNumber 16 (UInt16.size - 1) (String.ofList digits)).toOption

/-- Reads a line of a listing, whatever its colours are. It begins with the number of a cycle, which
spaces may precede, and with an address up to a colon. The four characters at its end are a word, and
what stands between is the text of an instruction. -/
def Entry.ofLine? (line : String) : Option Entry := do
  let (cycle, behindCycle) ← cut? ' ' ((unstyled line).toList.dropWhile (· == ' '))
  let (addr, behindAddr) ← cut? ':' behindCycle
  let (_, behindSpace) ← cut? ' ' behindAddr
  let (body, _) ← cut? '\n' behindSpace
  let (insn, word) := body.splitAt (body.length - 4)
  return {
    cycle := Nat.ofDigitChars 10 cycle 0
    addr := ← readAddress? addr
    insn := String.ofList insn
    word := ← readAddress? word }

namespace TraceLine

/-- Whatever is listed takes one line. -/
theorem isLine_render (t : TraceLine) : IsLine t.render := by
  refine ⟨_, rfl, ?_⟩
  have hcycle := inline_dim (printable_alignRight (printable_decimal t.cycle) 3).inline
  have hpc := (printable_hex 3 t.pc.toNat).inline
  have hword := inline_dim (printable_hex 4 t.word.toNat).inline
  have hinsn : Inline t.insn.listing := (Instruction.printable_text _).inline
  simp only [inline_append_iff, hcycle, hword, hinsn, hpc]
  decide

/-- Without its colours a line is made of its fields as they stand. -/
theorem unstyled_render (t : TraceLine) :
    unstyled t.render = alignRight 3 (decimal t.cycle) ++ (" " ++ (hex 3 t.pc.toNat ++ (": " ++
      (t.insn.listing ++ (hex 4 t.word.toNat ++ "\n"))))) := by
  have hcycle := (printable_alignRight (printable_decimal t.cycle) 3).bare
  have hpc := (printable_hex 3 t.pc.toNat).bare
  have hword := (printable_hex 4 t.word.toNat).bare
  have hinsn : Bare t.insn.listing := (Instruction.printable_text _).bare
  simp only [render, String.append_assoc]
  rw [unstyled_dim_append hcycle, unstyled_append (by decide), unstyled_append hpc,
    unstyled_append (by decide), unstyled_append hinsn, unstyled_dim_append hword]
  rfl

theorem dropWhile_alignRight (width n : Nat) (rest : List Char) :
    ((alignRight width (decimal n)).toList ++ rest).dropWhile (· == ' ') =
      Nat.toDigits 10 n ++ rest := by
  have hspaces (k : Nat) : ∀ c ∈ List.replicate k ' ', (c == ' ') = true := by
    intro c hc
    rw [(List.mem_replicate.mp hc).2]
    rfl
  rw [alignRight, String.toList_ofList, List.leftpad, List.append_assoc,
    List.dropWhile_append_of_pos (hspaces _), decimal, String.toList_ofList]
  cases hdigits : Nat.toDigits 10 n with
  | nil => exact absurd hdigits Nat.toDigits_ne_nil
  | cons c digits =>
    have hdigit : c ∈ "0123456789abcdef".toList :=
      digit_of_mem_toDigits (n := n) (by decide) (by decide) (hdigits ▸ List.mem_cons_self)
    rw [List.cons_append, List.dropWhile_cons_of_neg]
    intro hspace
    rw [beq_iff_eq.mp hspace] at hdigit
    exact absurd hdigit (by decide)

theorem readAddress?_hex {width : Nat} (hwidth : 0 < width) (w : Word) :
    readAddress? (hex width w.toNat).toList = some w.toNat := by
  have hread : readNumber 16 (UInt16.size - 1) (hex width w.toNat) = .ok w.toNat :=
    readNumber_hex hwidth (Nat.le_pred_of_lt w.toNat_lt)
  rw [readAddress?, String.ofList_toList, hread]
  rfl

/-- The text of a line tells all about it. -/
theorem ofLine?_render (t : TraceLine) : Entry.ofLine? t.render =
    some ⟨t.cycle, t.pc.toNat, t.insn.listing, t.word.toNat⟩ := by
  have hspace : ' ' ∉ Nat.toDigits 10 t.cycle := fun h =>
    absurd (digit_of_mem_toDigits (by decide) (by decide) h) (by decide)
  have hcolon : ':' ∉ (hex 3 t.pc.toNat).toList := fun h => absurd (digit_of_mem_hex h) (by decide)
  have hend : '\n' ∉ t.insn.listing.toList ++ (hex 4 t.word.toNat).toList := by
    rw [List.mem_append, not_or]
    exact ⟨(Instruction.printable_text _).inline, (printable_hex _ _).inline⟩
  have hfour : (hex 4 t.word.toNat).toList.length = 4 := by
    rw [String.length_toList]
    exact length_hex ((Nat.length_toDigits_le_iff (by decide) (by decide)).mpr t.word.toNat_lt)
  have hchars : (unstyled t.render).toList.dropWhile (· == ' ') =
      Nat.toDigits 10 t.cycle ++ ' ' :: ((hex 3 t.pc.toNat).toList ++ ':' :: ([] ++ ' ' ::
        (t.insn.listing.toList ++ (hex 4 t.word.toNat).toList ++ '\n' :: []))) := by
    rw [unstyled_render, String.toList_append, dropWhile_alignRight]
    simp
  have hsplit : (t.insn.listing.toList ++ (hex 4 t.word.toNat).toList).splitAt
      ((t.insn.listing.toList ++ (hex 4 t.word.toNat).toList).length - 4) =
        (t.insn.listing.toList, (hex 4 t.word.toNat).toList) := by
    rw [List.length_append, hfour, Nat.add_sub_cancel, List.splitAt_eq, List.take_left,
      List.drop_left]
  have hcycle : Nat.ofDigitChars 10 (Nat.toDigits 10 t.cycle) 0 = t.cycle :=
    Nat.ofDigitChars_toDigits (by decide) (by decide)
  have haddr : readAddress? (hex 3 t.pc.toNat).toList = _ := readAddress?_hex (by decide) t.pc
  have hword : readAddress? (hex 4 t.word.toNat).toList = _ := readAddress?_hex (by decide) t.word
  rw [Entry.ofLine?, hchars]
  simp only [Option.bind_eq_bind, Option.bind_some, cut?_append hspace, cut?_append hcolon,
    cut?_append List.not_mem_nil, cut?_append hend, hsplit, haddr, hword, String.ofList_toList,
    hcycle]
  rfl

end TraceLine

example : (TraceLine.mk 1 0x200 (.draw 1 2 5) 0xD215).render =
    "\x1b[90m  1\x1b[39m 200: draw   #5, v2, v1\x1b[90md215\x1b[39m\n" := by decide

namespace Core

/-- The same core with listing switched on or off. -/
def withDebug (c : Core) (on : Bool) : Core :=
  { c with cpu := { c.cpu with debug := on } }

variable {c : Core} {roll : UInt8} {line : TraceLine}

/-- A tick does the same whether or not it is listed. -/
theorem tick_withDebug (c : Core) (on : Bool) (roll : UInt8) :
    (c.withDebug on).tick roll = ((c.tick roll).1.withDebug on, (c.tick roll).2) :=
  c.tick_rewatch (fun watch => (on, watch.2)) (fun _ _ => rfl) roll

theorem trace?_of_silent (hdebug : c.cpu.debug = false) : c.trace? = none := by
  rw [trace?, hdebug]
  rfl

/-- A line is printed for an instruction that was fetched and decoded, and tells about it. -/
theorem trace?_eq_some_iff (hdebug : c.cpu.debug = true) : c.trace? = some line ↔
    c.cpu.fetch c.mem = .ok line.word ∧ ofWord? line.word = some line.insn ∧
      line.pc = c.cpu.pc ∧ line.cycle = c.cpu.cycle + 1 := by
  obtain ⟨cycle, pc, insn, word⟩ := line
  rw [trace?, if_pos hdebug]
  cases c.cpu.fetch c.mem with
  | error e => simp
  | ok fetched =>
    simp only [Option.map_eq_some_iff, TraceLine.mk.injEq, Except.ok.injEq]
    constructor
    · rintro ⟨insn, hinsn, rfl, rfl, rfl, rfl⟩
      exact ⟨rfl, hinsn, rfl, rfl⟩
    · rintro ⟨rfl, hinsn, rfl, rfl⟩
      exact ⟨insn, hinsn, rfl, rfl, rfl, rfl⟩

/-- What was executed to completion was listed. -/
theorem exists_trace?_of_tick_ok (hdebug : c.cpu.debug = true) (hok : (c.tick roll).2 = .ok ()) :
    ∃ line, c.trace? = some line := by
  obtain ⟨insn, _, hpc, hinsn, _⟩ := exists_execute_of_tick_ok hok
  exact ⟨⟨_, _, insn, c.word⟩, (trace?_eq_some_iff hdebug).mpr ⟨fetch_of_le hpc, hinsn, rfl, rfl⟩⟩

end Core

end Chip8
