import Chip8.Memory.Dump
import Mathlib.Order.Bounds.Defs

namespace Chip8

namespace Word

/-- The high byte of a word is its upper eight bits. -/
theorem high_eq_shiftRight (w : Word) : w.high = (w >>> 8).toUInt8 := by
  apply UInt8.toNat_inj.mp
  have hw := w.toNat_lt
  rw [toNat_high, UInt16.toNat_toUInt8, UInt16.toNat_shiftRight, Nat.shiftRight_eq_div_pow]
  change w.toNat / 256 = w.toNat / 2 ^ 8 % 2 ^ 8
  omega

theorem low_eq_and (w : Word) : w.low = (w &&& 0xFF).toUInt8 := by
  apply UInt8.toNat_inj.mp
  have hmask : (w &&& 0xFF).toNat = w.toNat % 256 := by
    rw [UInt16.toNat_and]
    exact Nat.and_two_pow_sub_one_eq_mod w.toNat 8
  rw [toNat_low, UInt16.toNat_toUInt8, hmask]
  exact (Nat.mod_mod w.toNat 256).symm

end Word

namespace Memory

/-- A way to look at memory or to change it through an address or a span of addresses. -/
inductive Access where
  | read (addr : Nat)
  | write (addr : Nat) (value : UInt8)
  | readWord (addr : Nat)
  | writeWord (addr : Nat) (word : Word)
  | slice (start stop : Nat)
  | store (start : Nat) (data : List UInt8)
  | fill (start stop : Nat) (value : UInt8)
  /-- Makes the text of a dump. -/
  | hexdump (start stop : Nat)
  /-- Makes the text of a dump and prints it. -/
  | dump (start stop : Nat)

namespace Access

/-- The first address of an access. -/
def start : Access → Nat
  | read addr | write addr _ | readWord addr | writeWord addr _ => addr
  | store start _ => start
  | slice start _ | fill start _ _ | hexdump start _ | dump start _ => start

/-- The address behind the last one of an access. -/
def stop : Access → Nat
  | read addr | write addr _ => addr + 1
  | readWord addr | writeWord addr _ => addr + 2
  | store start data => start + data.length
  | slice _ stop | fill _ stop _ | hexdump _ stop | dump _ stop => stop

end Access

/-- Memory, and the output that dumps of it are printed to. -/
structure Console where
  memory : Memory
  printed : String

namespace Console

/-- Goes on with the memory that an access has left, be it whole or torn. -/
def written (s : Console) (o : Outcome Memory Unit) : Outcome Console Unit :=
  ({ s with memory := o.1 }, o.2)

/-- Goes on with what was read, which is not kept. -/
def seen {α : Type} (s : Console) (result : Except Error α) : Outcome Console Unit :=
  (s, result.map fun _ => ())

/-- What an access leaves of memory and of the output, and why it failed if it did. -/
def access (s : Console) : Access → Outcome Console Unit
  | .read addr => s.seen (s.memory.read addr)
  | .write addr value => s.written (s.memory.write addr value)
  | .readWord addr => s.seen (s.memory.readWord addr)
  | .writeWord addr word => s.written (s.memory.writeWord addr word)
  | .slice start stop => s.seen (s.memory.slice start stop)
  | .store start data => s.written (s.memory.store start data)
  | .fill start stop value => s.written (s.memory.fill start stop value)
  | .hexdump start stop => s.seen (s.memory.hexdump start stop)
  | .dump start stop =>
    let (printed, result) := s.memory.dump start stop s.printed
    ({ s with printed := printed }, result)

end Console

variable {m : Memory} {start stop addr : Nat}

theorem read_of_lt (h : addr < size) : m.read addr = .ok m.bytes[addr] :=
  dif_pos h

/-- A read behind the last byte is refused, and the error names the address that was asked
for. -/
theorem read_of_le (h : size ≤ addr) : m.read addr = .error (.outOfBounds addr) :=
  dif_neg (Nat.not_lt.mpr h)

theorem exists_read_iff : (∃ b, m.read addr = .ok b) ↔ addr < size := by
  constructor
  · rintro ⟨b, hread⟩
    apply Nat.not_le.mp
    intro hout
    rw [read_of_le hout] at hread
    cases hread
  · intro h
    exact ⟨_, read_of_lt h⟩

/-- Reading sees nothing of memory but the byte at its address. -/
theorem read_congr {m' : Memory} (h : m.bytes[addr]? = m'.bytes[addr]?) :
    m.read addr = m'.read addr := by
  by_cases haddr : addr < size
  · rw [Vector.getElem?_eq_getElem haddr, Vector.getElem?_eq_getElem haddr] at h
    rw [read_of_lt haddr, read_of_lt haddr, Option.some.inj h]
  · rw [read_of_le (Nat.not_lt.mp haddr), read_of_le (Nat.not_lt.mp haddr)]

theorem ext_read {m' : Memory} (h : ∀ addr, m.read addr = m'.read addr) : m = m' := by
  apply ext_toList
  apply List.ext_getElem?
  intro addr
  rw [Vector.getElem?_toList, Vector.getElem?_toList]
  by_cases haddr : addr < size
  · have hsame := h addr
    rw [read_of_lt haddr, read_of_lt haddr] at hsame
    rw [Vector.getElem?_eq_getElem haddr, Vector.getElem?_eq_getElem haddr,
      Except.ok.inj hsame]
  · rw [Vector.getElem?_eq_none (Nat.not_lt.mp haddr),
      Vector.getElem?_eq_none (Nat.not_lt.mp haddr)]

section Store

variable {data : List UInt8}

theorem store_of_le (h : start + data.length ≤ size) :
    m.store start data = (m.blit start data, .ok ()) :=
  if_pos ((within_add_iff start data.length).mpr h)

/-- Behind a blit, each address it covers reads as its byte of the data. -/
theorem read_blit_inside (h : start + data.length ≤ size) {k : Nat} {b : UInt8}
    (hb : data[k]? = some b) : (m.blit start data).read (start + k) = .ok b := by
  obtain ⟨hk, _⟩ := List.getElem?_eq_some_iff.mp hb
  rw [read_eq_ok_iff, getElem?_blit, if_pos (by omega), Nat.add_sub_cancel_left, hb]

/-- A blit cannot be seen from the addresses before and behind it. -/
theorem read_blit_outside (h : addr < start ∨ start + data.length ≤ addr) :
    (m.blit start data).read addr = m.read addr := by
  apply read_congr
  rw [getElem?_blit, if_neg (by omega)]

end Store

section Slice

variable {bytes : List UInt8}

/-- A slice is refused for no other reason than that its span does not lie in memory. -/
theorem exists_slice_iff : (∃ bytes, m.slice start stop = .ok bytes) ↔ Within start stop := by
  unfold slice
  split
  · next hwithin => exact iff_of_true ⟨_, rfl⟩ hwithin
  · next hout => exact iff_of_false (fun ⟨_, h⟩ => nomatch h) hout

/-- A slice holds the bytes of its span in the order of their addresses. -/
theorem map_ok_of_slice (h : m.slice start stop = .ok bytes) :
    bytes.map .ok = (List.range' start (stop - start)).map m.read := by
  have hlength := length_of_slice h
  apply List.ext_getElem
  · rw [List.length_map, List.length_map, List.length_range', hlength]
  · intro k hk _
    rw [List.length_map] at hk
    have hbyte := getElem?_of_slice h k
    rw [if_pos (hlength ▸ hk), List.getElem?_eq_getElem hk] at hbyte
    rw [List.getElem_map, List.getElem_map, List.getElem_range', Nat.one_mul]
    exact ((read_eq_ok_iff m _ _).mpr hbyte.symm).symm

/-- A span that is not empty lies in memory if each of its addresses does. -/
theorem within_iff_forall_read (hspan : start < stop) :
    Within start stop ↔ ∀ addr, start ≤ addr → addr < stop → ∃ b, m.read addr = .ok b := by
  simp only [exists_read_iff]
  constructor
  · intro hwithin addr _ hstop
    exact Nat.lt_of_lt_of_le hstop hwithin.2
  · intro hall
    have hlast := hall (stop - 1) (by omega) (by omega)
    exact ⟨Nat.le_of_lt hspan, by omega⟩

end Slice

/-- A word is read exactly if both of its bytes are, and the first one is the high one. -/
theorem readWord_eq_ok_iff (m : Memory) (addr : Nat) (word : Word) :
    m.readWord addr = .ok word ↔ ∃ high low, m.read addr = .ok high ∧
      m.read (addr + 1) = .ok low ∧ word.toNat = 256 * high.toNat + low.toNat := by
  have htoNat (high low : UInt8) :
      Word.ofBytes high low = word ↔ word.toNat = 256 * high.toNat + low.toNat := by
    rw [← UInt16.toNat_inj, Word.toNat_ofBytes, eq_comm]
  by_cases hinside : addr + 1 < size
  · have hfirst : addr < size := Nat.lt_of_succ_lt hinside
    rw [m.readWord_of_lt hfirst hinside, read_of_lt hfirst, read_of_lt hinside, Except.ok.injEq,
      htoNat]
    simp only [Except.ok.injEq, exists_and_left, exists_eq_left']
  · rw [readWord, dif_neg (by rw [within_add_iff]; exact hinside), read_of_le (Nat.not_lt.mp hinside)]
    simp

/-- A write is a store of one byte. The error is the same too, since the first address that
is missing is the one that was asked for. -/
theorem write_eq_store (m : Memory) (addr : Nat) (value : UInt8) :
    m.write addr value = m.store addr [value] := by
  by_cases haddr : addr < size
  · have hset : m.bytes.set addr value = m.bytes.setIfInBounds addr value := by
      apply Vector.ext
      intro k hk
      rw [Vector.getElem_set, Vector.getElem_setIfInBounds]
    rw [write, dif_pos haddr, store_of_le haddr, hset]
    rfl
  · have hout : ¬ Within addr (addr + [value].length) := by
      rw [within_add_iff]
      exact haddr
    rw [write, dif_neg haddr, store, if_neg hout, spanError, Nat.max_eq_left (Nat.not_lt.mp haddr)]

/-- Where there is room for a word, writing it is writing its two bytes, the high one first. Where
there is not, two single writes might come to half of it. -/
theorem writeWord_eq_writes (m : Memory) (word : Word) (hinside : addr + 1 < size) :
    ∃ first, m.write addr word.high = (first, .ok ()) ∧
      m.writeWord addr word = first.write (addr + 1) word.low := by
  have hfirst : addr < size := Nat.lt_of_succ_lt hinside
  refine ⟨m.blit addr [word.high], ?_, ?_⟩
  · rw [write_eq_store, store_of_le hfirst]
  · rw [write_eq_store, writeWord, store_of_le hinside, store_of_le hinside]
    rfl

section Access

variable {s : Console} {a : Access}

theorem spanError_of_le (h : size ≤ start) : spanError start = .outOfBounds start := by
  rw [spanError, Nat.max_eq_left h]

/-- An access to a span that leaves memory is over before it has written or printed anything. -/
theorem access_of_outside (hout : size < a.stop) :
    s.access a = (s, .error (spanError a.start)) := by
  have hnot : ¬ Within a.start a.stop := fun h => absurd h.2 (Nat.not_le.mpr hout)
  -- Each way in has a check of its own, which comes before its first effect.
  cases a with
  | read addr =>
    have hle : size ≤ addr := Nat.le_of_lt_succ hout
    rw [Console.access, read_of_le hle, ← spanError_of_le hle]
    rfl
  | write addr value =>
    have hle : size ≤ addr := Nat.le_of_lt_succ hout
    rw [Console.access, write, dif_neg (Nat.not_lt.mpr hle), ← spanError_of_le hle]
    rfl
  | readWord addr =>
    have hrefused : s.memory.readWord addr = .error (spanError addr) := dif_neg hnot
    rw [Console.access, hrefused]
    rfl
  | writeWord addr word =>
    have hrefused : s.memory.writeWord addr word = (s.memory, .error (spanError addr)) :=
      if_neg hnot
    rw [Console.access, hrefused]
    rfl
  | slice start stop =>
    have hrefused : s.memory.slice start stop = .error (spanError start) := if_neg hnot
    rw [Console.access, hrefused]
    rfl
  | store start data =>
    have hrefused : s.memory.store start data = (s.memory, .error (spanError start)) :=
      if_neg hnot
    rw [Console.access, hrefused]
    rfl
  | fill start stop value =>
    have hrefused : s.memory.fill start stop value = (s.memory, .error (spanError start)) :=
      if_neg hnot
    rw [Console.access, hrefused]
    rfl
  | hexdump start stop =>
    have hrefused : s.memory.slice start stop = .error (spanError start) := if_neg hnot
    rw [Console.access, hexdump, hrefused]
    rfl
  | dump start stop =>
    have hrefused : s.memory.slice start stop = .error (spanError start) := if_neg hnot
    rw [Console.access, dump, hexdump, hrefused]
    rfl

/-- An access to a span that lies in memory ends well. -/
theorem access_ok_of_inside (hspan : a.start < a.stop) (hin : a.stop ≤ size) :
    (s.access a).2 = .ok () := by
  have hwithin : Within a.start a.stop := ⟨Nat.le_of_lt hspan, hin⟩
  cases a with
  | read addr =>
    have hread : s.memory.read addr = .ok _ := dif_pos hin
    rw [Console.access, hread]
    rfl
  | write addr value =>
    have hwrite : s.memory.write addr value = (_, .ok ()) := dif_pos hin
    rw [Console.access, hwrite]
    rfl
  | readWord addr =>
    have hread : s.memory.readWord addr = .ok _ := dif_pos hwithin
    rw [Console.access, hread]
    rfl
  | writeWord addr word =>
    have hwrite : s.memory.writeWord addr word = (_, .ok ()) := if_pos hwithin
    rw [Console.access, hwrite]
    rfl
  | slice start stop =>
    have hslice : s.memory.slice start stop = .ok _ := if_pos hwithin
    rw [Console.access, hslice]
    rfl
  | store start data =>
    rw [Console.access, store_of_le hin]
    rfl
  | fill start stop value =>
    have hfill : s.memory.fill start stop value = (_, .ok ()) := if_pos hwithin
    rw [Console.access, hfill]
    rfl
  | hexdump start stop =>
    have hslice : s.memory.slice start stop = .ok _ := if_pos hwithin
    rw [Console.access, hexdump, hslice]
    rfl
  | dump start stop =>
    have hslice : s.memory.slice start stop = .ok _ := if_pos hwithin
    rw [Console.access, dump, hexdump, hslice]
    rfl

/-- The address that an error names is the first one of the span that memory lacks. -/
theorem isLeast_outside (hspan : start < stop) (hout : size < stop) :
    IsLeast {addr | start ≤ addr ∧ addr < stop ∧ size ≤ addr} (max start size) := by
  constructor
  · exact ⟨Nat.le_max_left _ _, Nat.max_lt.mpr ⟨hspan, hout⟩, Nat.le_max_right _ _⟩
  · rintro addr ⟨hstart, _, hsize⟩
    exact Nat.max_le.mpr ⟨hstart, hsize⟩

/-- Whether an access fails depends on the end of its span alone. -/
theorem exists_failure_iff (hspan : a.start < a.stop) :
    (∃ e, (s.access a).2 = .error e) ↔ size < a.stop := by
  by_cases hout : size < a.stop
  · rw [access_of_outside hout]
    exact iff_of_true ⟨_, rfl⟩ hout
  · rw [access_ok_of_inside hspan (Nat.not_lt.mp hout)]
    exact iff_of_false (fun ⟨_, h⟩ => nomatch h) hout

/-- An access that failed with an error has changed nothing and printed nothing, and the error names
the first address of its span that memory lacks. -/
structure Console.FailedWhole (s : Console) (a : Access) (e : Error) : Prop where
  memory : (s.access a).1.memory = s.memory
  printed : (s.access a).1.printed = s.printed
  first : ∃ addr, e = .outOfBounds addr ∧
    IsLeast {other | a.start ≤ other ∧ other < a.stop ∧ size ≤ other} addr

/-- Every access that fails does so as a whole. No error can come of one that had begun to
write or to print. -/
theorem failedWhole_of_failure {e : Error} (hspan : a.start < a.stop)
    (hfailure : (s.access a).2 = .error e) : s.FailedWhole a e := by
  have hout := (exists_failure_iff hspan).mp ⟨e, hfailure⟩
  have haccess : s.access a = _ := access_of_outside hout
  rw [haccess, Except.error.injEq] at hfailure
  exact ⟨congrArg (fun o => o.1.memory) haccess, congrArg (fun o => o.1.printed) haccess,
    _, hfailure.symm, isLeast_outside hspan hout⟩

end Access

section Word

variable {m' : Memory} {word : Word}

/-- A word that has no room is refused, even where its first byte would have had some. -/
theorem writeWord_of_le (h : size ≤ addr + 1) :
    m.writeWord addr word = (m, .error (spanError addr)) := by
  apply if_neg
  rw [within_add_iff]
  exact Nat.not_lt.mpr h

/-- A word can be written wherever its second byte lies in memory. -/
theorem exists_writeWord_iff :
    (∃ m', m.writeWord addr word = (m', .ok ())) ↔ addr + 1 < size := by
  by_cases hinside : addr + 1 < size
  · exact iff_of_true ⟨_, store_of_le hinside⟩ hinside
  · rw [writeWord_of_le (Nat.not_lt.mp hinside)]
    exact iff_of_false (fun ⟨_, h⟩ => nomatch h) hinside

/-- A word that was written is read back byte by byte, and no other address reads
differently. -/
theorem read_of_writeWord (h : m.writeWord addr word = (m', .ok ())) :
    m'.read addr = .ok word.high ∧ m'.read (addr + 1) = .ok word.low ∧
      ∀ other, other ≠ addr → other ≠ addr + 1 → m'.read other = m.read other := by
  have hinside : addr + [word.high, word.low].length ≤ size := exists_writeWord_iff.mp ⟨m', h⟩
  rw [writeWord, store_of_le hinside] at h
  cases h
  refine ⟨read_blit_inside (k := 0) hinside rfl, read_blit_inside (k := 1) hinside rfl, ?_⟩
  intro other hfirst hsecond
  apply read_blit_outside
  change other < addr ∨ addr + 2 ≤ other
  omega

end Word

/-- All ways to reach memory reach the same bytes. A word is the two bytes at its address and the next
one, and a span is the bytes of its addresses, whether they are read or written. An access that does
not lie in memory as a whole does nothing but report the first address that is missing. -/
theorem accesses_agree (m : Memory) :
    (∀ addr word, m.readWord addr = .ok word ↔ ∃ high low, m.read addr = .ok high ∧
        m.read (addr + 1) = .ok low ∧ word.toNat = 256 * high.toNat + low.toNat) ∧
      (∀ addr word, (∃ m', m.writeWord addr word = (m', .ok ())) ↔ addr + 1 < size) ∧
      (∀ (addr : Nat) (word : Word), addr + 1 < size → ∃ first,
        m.write addr (word >>> 8).toUInt8 = (first, .ok ()) ∧
          m.writeWord addr word = first.write (addr + 1) (word &&& 0xFF).toUInt8) ∧
      (∀ addr word m', m.writeWord addr word = (m', .ok ()) →
        m'.read addr = .ok (word >>> 8).toUInt8 ∧ m'.read (addr + 1) = .ok (word &&& 0xFF).toUInt8 ∧
          ∀ other, other ≠ addr → other ≠ addr + 1 → m'.read other = m.read other) ∧
      (∀ start stop, start < stop →
        ((∃ bytes, m.slice start stop = .ok bytes) ↔
          ∀ addr, start ≤ addr → addr < stop → ∃ b, m.read addr = .ok b) ∧
        ∀ bytes, m.slice start stop = .ok bytes →
          bytes.map .ok = (List.range' start (stop - start)).map m.read) ∧
      (∀ (printed : String) (a : Access), a.start < a.stop →
        ((∃ e, ((⟨m, printed⟩ : Console).access a).2 = .error e) ↔ size < a.stop) ∧
          ∀ e, ((⟨m, printed⟩ : Console).access a).2 = .error e →
            (⟨m, printed⟩ : Console).FailedWhole a e) ∧
      ∀ word, m.writeWord 0xFFF word = (m, .error (.outOfBounds 0x1000)) := by
  simp only [← Word.high_eq_shiftRight, ← Word.low_eq_and]
  refine ⟨m.readWord_eq_ok_iff, fun _ _ => exists_writeWord_iff,
    fun _ word hinside => m.writeWord_eq_writes word hinside, fun _ _ _ => read_of_writeWord,
    ?_, ?_, ?_⟩
  · intro start stop hspan
    rw [exists_slice_iff]
    exact ⟨within_iff_forall_read hspan, fun _ => map_ok_of_slice⟩
  · intro printed a hspan
    exact ⟨exists_failure_iff hspan, fun _ => failedWhole_of_failure hspan⟩
  · intro word
    exact writeWord_of_le (by decide)

/-- Memory with two bytes at its end. -/
def endFilled : Memory := zeroed.blit 0xFFE [0x12, 0x34]

/-- The last word can be read and replaced, and what leads out of memory is refused as a whole. -/
theorem accesses_agree_at_end :
    endFilled.readWord 0xFFE = .ok 0x1234 ∧
      (∃ m', endFilled.writeWord 0xFFE 0xABCD = (m', .ok ()) ∧ m'.read 0xFFF = .ok 0xCD ∧
        m'.read 0x200 = endFilled.read 0x200) ∧
      (∃ bytes, endFilled.slice 0xFFE 0x1000 = .ok bytes ∧
        bytes.map .ok = [endFilled.read 0xFFE, endFilled.read 0xFFF]) ∧
      (∃ e, ((⟨endFilled, ""⟩ : Console).access (.dump 0xFFF 0x1010)).2 = .error e) ∧
      ((⟨endFilled, ""⟩ : Console).access (.dump 0xFFF 0x1010)).1.printed = "" ∧
      ((⟨endFilled, ""⟩ : Console).access (.fill 0xFFE 0x1002 7)).1.memory = endFilled := by
  obtain ⟨hread, hroom, _, hwritten, hslice, hfails, _⟩ := accesses_agree endFilled
  have hfirst : endFilled.read 0xFFE = .ok 0x12 := read_blit_inside (k := 0) (by decide) rfl
  have hlast : endFilled.read 0xFFF = .ok 0x34 := read_blit_inside (k := 1) (by decide) rfl
  obtain ⟨m', hwrite⟩ := (hroom 0xFFE 0xABCD).mpr (by decide)
  obtain ⟨_, hlow, hothers⟩ := hwritten 0xFFE 0xABCD m' hwrite
  obtain ⟨hslices, hbytes⟩ := hslice 0xFFE 0x1000 (by decide)
  obtain ⟨bytes, hspan⟩ := hslices.mpr fun addr _ hlt => ⟨_, read_of_lt hlt⟩
  obtain ⟨hdump, hdumped⟩ := hfails "" (.dump 0xFFF 0x1010) (by decide)
  obtain ⟨hfill, hfilled⟩ := hfails "" (.fill 0xFFE 0x1002 7) (by decide)
  obtain ⟨e, herror⟩ := hdump.mpr (by decide)
  obtain ⟨e', herror'⟩ := hfill.mpr (by decide)
  exact ⟨(hread 0xFFE 0x1234).mpr ⟨0x12, 0x34, hfirst, hlast, rfl⟩,
    ⟨m', hwrite, hlow, hothers 0x200 (by decide) (by decide)⟩, ⟨bytes, hspan, hbytes bytes hspan⟩,
    ⟨e, herror⟩, (hdumped e herror).printed, (hfilled e' herror').memory⟩

end Memory

end Chip8
