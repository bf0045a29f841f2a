import Chip8.Memory.Dump
import Chip8.Proofs.Text.Line
import Chip8.Proofs.Text.Style

namespace Chip8.Dump

open Text

/-- What a line of a dump tells. -/
structure Row where
  addr : Nat
  words : List Word
deriving DecidableEq

namespace Row

/-- The numbers of a line, the address first. -/
def fields (row : Row) : List String :=
  hex 6 row.addr :: row.words.map fun w => hex 4 w.toNat

/-- A line as it looks without colours, up to its end. -/
def body (row : Row) : String :=
  " ".intercalate row.fields

def text (row : Row) : String :=
  row.body ++ "\n"

/-- The bytes of a line, the high byte of each word first. -/
def bytes (row : Row) : List UInt8 :=
  row.words.flatMap fun w => [w.high, w.low]

/-- A line of its own, of numbers in lower-case hexadecimal: the address with six digits or more, and
the words with four each. -/
structure Legible (row : Row) : Prop where
  line : IsLine row.text
  digits : ∀ field ∈ row.fields, ∀ c ∈ field.toList, c ∈ "0123456789abcdef".toList
  address : 6 ≤ (hex 6 row.addr).length
  words : ∀ w ∈ row.words, (hex 4 w.toNat).length = 4

end Row

/-- The lines of a dump: sixteen bytes each as long as there are as many. -/
def rows (start : Nat) (data : List UInt8) : List Row :=
  if h : data = [] then []
  else
    ⟨start, words (data.take (2 * wordsPerLine))⟩ ::
      rows (start + 2 * wordsPerLine) (data.drop (2 * wordsPerLine))
termination_by data.length
decreasing_by
  have hpos := List.length_pos_iff.mpr h
  simp only [wordsPerLine, List.length_drop]
  omega

/-- The zero that makes up for a missing last low byte. -/
def padding (data : List UInt8) : List UInt8 :=
  if data.length % 2 = 1 then [0] else []

/-- The rows show `data` from the address `start` on, without gaps and with eight words a line. -/
structure Shows (start : Nat) (data : List UInt8) (rows : List Row) : Prop where
  count : rows.length = (data.length + 15) / 16
  address : ∀ k row, rows[k]? = some row → row.addr = start + 16 * k
  full : ∀ k row, rows[k]? = some row → k + 1 < rows.length → row.words.length = 8
  last : ∀ row ∈ rows, 0 < row.words.length ∧ row.words.length ≤ 8
  bytes : rows.flatMap Row.bytes = data ++ padding data

/-- The pieces of a text between separators. -/
def pieces (separator : Char) (text : String) : List String :=
  (text.toList.splitOn separator).map String.ofList

def readWord? (field : String) : Option Word :=
  (readNumber 16 (UInt16.size - 1) field).toOption.map UInt16.ofNat

def readRow? (line : String) : Option Row :=
  match pieces ' ' line with
  | [] => none
  | addr :: words =>
    match readNumber 16 (UInt64.size - 1) addr, words.mapM readWord? with
    | .ok addr, some words => some ⟨addr, words⟩
    | _, _ => none

/-- Reads a dump without colours line by line. Nothing stands behind the end of the last line. -/
def read? (text : String) : Option (List Row) :=
  (pieces '\n' text).dropLast.mapM readRow?

section Words

theorem length_words (data : List UInt8) : (words data).length = (data.length + 1) / 2 := by
  induction data using words.induct with
  | case1 => rfl
  | case2 high => simp [words]
  | case3 high low rest ih =>
    rw [words, List.length_cons, ih, List.length_cons, List.length_cons]
    omega

/-- Cutting data behind an even number of bytes does not cut a word. -/
theorem words_take_append_drop (k : Nat) (data : List UInt8) :
    words (data.take (2 * k)) ++ words (data.drop (2 * k)) = words data := by
  induction k generalizing data with
  | zero => rfl
  | succ k ih =>
    match data with
    | [] => rfl
    | [high] => rfl
    | high :: low :: rest => exact congrArg (Word.ofBytes high low :: ·) (ih rest)

/-- The words fall apart into the bytes they were made of, with a zero behind an odd last
one. -/
theorem bytes_words (data : List UInt8) :
    (words data).flatMap (fun w => [w.high, w.low]) = data ++ padding data := by
  induction data using words.induct with
  | case1 => rfl
  | case2 high =>
    rw [words, List.flatMap_singleton, Word.high_ofBytes, Word.low_ofBytes]
    rfl
  | case3 high low rest ih =>
    have hpadding : padding (high :: low :: rest) = padding rest := by
      simp only [padding, List.length_cons, Nat.add_assoc, Nat.add_mod_right]
    rw [words, List.flatMap_cons, ih, Word.high_ofBytes, Word.low_ofBytes, hpadding]
    rfl

end Words

section Rows

variable {start : Nat} {data : List UInt8}

theorem rows_nil (start : Nat) : rows start [] = [] := by
  rw [rows, dif_pos rfl]

/-- The first line takes sixteen bytes or all there are, and the lines after it show the
rest. -/
theorem rows_of_ne_nil (h : data ≠ []) : rows start data =
    ⟨start, words (data.take 16)⟩ :: rows (start + 16) (data.drop 16) := by
  rw [rows, dif_neg h]
  rfl

/-- Each line can be given without those before it: line `k` shows the sixteen bytes from
`16 * k` on. -/
theorem getElem?_rows (start : Nat) (data : List UInt8) (k : Nat) :
    (rows start data)[k]? =
      if 16 * k < data.length then
        some ⟨start + 16 * k, words ((data.drop (16 * k)).take 16)⟩
      else none := by
  induction k generalizing start data with
  | zero =>
    by_cases hempty : data = []
    · rw [hempty, rows_nil]
      rfl
    · rw [rows_of_ne_nil hempty, if_pos (List.length_pos_iff.mpr hempty)]
      rfl
  | succ k ih =>
    by_cases hempty : data = []
    · rw [hempty, rows_nil]
      rfl
    · have hdrop : (data.drop 16).drop (16 * k) = data.drop (16 * (k + 1)) := by
        rw [List.drop_drop]
        congr 1
        omega
      have hlength : 16 * k < (data.drop 16).length ↔ 16 * (k + 1) < data.length := by
        rw [List.length_drop]
        omega
      have haddr : start + 16 + 16 * k = start + 16 * (k + 1) := by omega
      rw [rows_of_ne_nil hempty, List.getElem?_cons_succ, ih, hdrop, haddr]
      simp only [hlength]

theorem getElem?_rows_eq_some_iff {k : Nat} {row : Row} : (rows start data)[k]? = some row ↔
    16 * k < data.length ∧ ⟨start + 16 * k, words ((data.drop (16 * k)).take 16)⟩ = row := by
  rw [getElem?_rows, Option.ite_none_right_eq_some, Option.some.injEq]

/-- Only the last line may be short, so their number is a sixteenth of the bytes, rounded up. -/
theorem length_rows (start : Nat) (data : List UInt8) :
    (rows start data).length = (data.length + 15) / 16 := by
  induction start, data using rows.induct with
  | case1 start => rw [rows_nil]; rfl
  | case2 start data h ih =>
    have hpos := List.length_pos_iff.mpr h
    have hrest : (rows (start + 16) (data.drop 16)).length = (data.length - 16 + 15) / 16 := by
      rw [← List.length_drop]
      exact ih
    rw [rows_of_ne_nil h, List.length_cons, hrest]
    omega

theorem words_rows (start : Nat) (data : List UInt8) :
    (rows start data).flatMap Row.words = words data := by
  induction start, data using rows.induct with
  | case1 start => rw [rows_nil]; rfl
  | case2 start data h ih =>
    rw [rows_of_ne_nil h, List.flatMap_cons]
    exact (congrArg _ ih).trans (words_take_append_drop wordsPerLine data)

/-- Data that fills its lines shares none with what follows. -/
theorem rows_append {front : List UInt8} (h : 16 ∣ front.length) (start : Nat) (back : List UInt8) :
    rows start (front ++ back) = rows start front ++ rows (start + front.length) back := by
  induction start, front using rows.induct with
  | case1 start => rw [rows_nil]; rfl
  | case2 start front hne ih =>
    have hpos := List.length_pos_iff.mpr hne
    have hline : 16 ≤ front.length := Nat.le_of_dvd hpos h
    have hrest : (front.drop 16).length = front.length - 16 := List.length_drop
    have hdvd : 16 ∣ (front.drop 16).length := by
      rw [hrest]
      exact Nat.dvd_sub h (Nat.dvd_refl 16)
    have hstart : start + 16 + (front.drop 16).length = start + front.length := by omega
    rw [rows_of_ne_nil (List.append_ne_nil_of_left_ne_nil hne back), rows_of_ne_nil hne,
      List.take_append_of_le_length hline, List.drop_append_of_le_length hline, List.cons_append,
      ← hstart]
    exact congrArg _ (ih hdvd)

theorem mem_rows_iff {row : Row} : row ∈ rows start data ↔ ∃ k, 16 * k < data.length ∧
    ⟨start + 16 * k, words ((data.drop (16 * k)).take 16)⟩ = row := by
  simp only [List.mem_iff_getElem?, getElem?_rows_eq_some_iff]

/-- The lines of a dump show the data they were made from. -/
theorem rows_show (start : Nat) (data : List UInt8) : Shows start data (rows start data) where
  count := length_rows start data
  address k row hrow := by
    obtain ⟨_, rfl⟩ := getElem?_rows_eq_some_iff.mp hrow
    rfl
  full k row hrow hnext := by
    obtain ⟨_, rfl⟩ := getElem?_rows_eq_some_iff.mp hrow
    rw [length_rows] at hnext
    simp only [length_words, List.length_take, List.length_drop]
    omega
  last row hrow := by
    obtain ⟨k, hlt, rfl⟩ := mem_rows_iff.mp hrow
    simp only [length_words, List.length_take, List.length_drop]
    omega
  bytes := by
    rw [← bytes_words, ← words_rows start data, List.flatMap_assoc]
    rfl

end Rows

section Text

variable {row : Row} {start : Nat} {data : List UInt8}

/-- The words of a line with the space before each. -/
def Row.tail (row : Row) : String :=
  String.join (row.words.map fun w => " " ++ hex 4 w.toNat)

/-- A line as it is printed. -/
def Row.styled (row : Row) : String :=
  phosphor (hex 6 row.addr) ++ row.tail ++ "\n"

theorem lines_eq (start : Nat) (data : List UInt8) :
    lines start data = (rows start data).map Row.styled := by
  induction start, data using rows.induct with
  | case1 start =>
    rw [lines, dif_pos rfl, rows_nil]
    rfl
  | case2 start data h ih =>
    rw [lines, dif_neg h, rows, dif_neg h, List.map_cons, ih]
    rfl

/-- A separator between fields is the same as one in front of every field but the first. -/
theorem intercalate_cons_eq_join (first : String) (rest : List String) :
    " ".intercalate (first :: rest) = first ++ String.join (rest.map (" " ++ ·)) := by
  induction rest generalizing first with
  | nil => simp
  | cons second rest ih =>
    rw [String.intercalate_cons_cons, ih, List.map_cons, String.join_cons]
    simp only [String.append_assoc]

theorem body_eq (row : Row) : row.body = hex 6 row.addr ++ row.tail := by
  rw [Row.body, Row.fields, intercalate_cons_eq_join, List.map_map]
  rfl

/-- The words of a line are made of digits and the spaces between them. -/
theorem digit_or_space_of_mem_tail {c : Char} (hc : c ∈ row.tail.toList) :
    c = ' ' ∨ c ∈ "0123456789abcdef".toList := by
  rw [Row.tail, String.toList_join, List.mem_flatMap] at hc
  obtain ⟨_, hword, hc⟩ := hc
  obtain ⟨w, _, rfl⟩ := List.mem_map.mp hword
  rw [String.toList_append, List.mem_append] at hc
  obtain hspace | hdigit := hc
  · exact Or.inl (List.mem_singleton.mp hspace)
  · exact Or.inr (digit_of_mem_hex hdigit)

theorem bare_tail (row : Row) : Bare row.tail :=
  fun h => absurd (digit_or_space_of_mem_tail h) (by decide)

/-- No line of a dump is broken by what it shows. -/
theorem inline_body (row : Row) : Inline row.body := by
  rw [body_eq, inline_append_iff]
  exact ⟨(printable_hex _ _).inline, fun h => absurd (digit_or_space_of_mem_tail h) (by decide)⟩

/-- Taking the colours off leaves the lines that the rows tell. -/
theorem unstyled_join (rows : List Row) :
    unstyled (String.join (rows.map Row.styled)) = String.join (rows.map Row.text) := by
  induction rows with
  | nil => rfl
  | cons row rest ih =>
    have haddr : Bare (hex 6 row.addr) := (printable_hex _ _).bare
    have hend : Bare "\n" := by decide
    rw [List.map_cons, List.map_cons, String.join_cons, String.join_cons, Row.styled,
      String.append_assoc, String.append_assoc, unstyled_phosphor_append haddr,
      unstyled_append (bare_tail row), unstyled_append hend, ih, Row.text, body_eq]
    simp only [String.append_assoc]

/-- Without colours the dump of some data is the text of its rows. -/
theorem unstyled_text (start : Nat) (data : List UInt8) :
    unstyled (text start data) = String.join ((rows start data).map Row.text) := by
  rw [text, lines_eq, unstyled_join]

theorem digit_of_mem_field {field : String} (hfield : field ∈ row.fields) {c : Char}
    (hc : c ∈ field.toList) : c ∈ "0123456789abcdef".toList := by
  obtain rfl | hword := List.mem_cons.mp hfield
  · exact digit_of_mem_hex hc
  · obtain ⟨w, _, rfl⟩ := List.mem_map.mp hword
    exact digit_of_mem_hex hc

/-- The width of a word is always enough for it, and an address that needs more digits gets
them. -/
theorem legible (row : Row) : row.Legible where
  line := ⟨row.body, rfl, inline_body row⟩
  digits _ hfield _ hc := digit_of_mem_field hfield hc
  address := le_length_hex 6 row.addr
  words w _ := length_hex ((Nat.length_toDigits_le_iff (by decide) (by decide)).mpr w.toNat_lt)

end Text

section Reading

variable {row : Row} {start : Nat} {data : List UInt8}

/-- What is written one by one can be read one by one, if each of the values can. -/
theorem mapM_map_eq_some {α β : Type} {write : α → β} {read : β → Option α} {values : List α}
    (h : ∀ a ∈ values, read (write a) = some a) : (values.map write).mapM read = some values := by
  induction values with
  | nil => rfl
  | cons a rest ih =>
    have hrest := ih fun b hb => h b (List.mem_cons_of_mem _ hb)
    rw [List.map_cons, List.mapM_cons, h a List.mem_cons_self, hrest]
    rfl

/-- Fields that do not contain the separator are found again between the separators. -/
theorem pieces_intercalate {c : Char} {separator : String} {fields : List String}
    (hseparator : separator.toList = [c]) (hfields : ∀ field ∈ fields, c ∉ field.toList)
    (hne : fields ≠ []) : pieces c (separator.intercalate fields) = fields := by
  have hnone : ∀ field ∈ fields.map String.toList, c ∉ field := by
    intro field hfield
    obtain ⟨text, htext, rfl⟩ := List.mem_map.mp hfield
    exact hfields text htext
  rw [pieces, String.toList_intercalate, hseparator,
    List.splitOn_intercalate c hnone (mt List.map_eq_nil_iff.mp hne), List.map_map]
  simp

theorem readWord?_hex (w : Word) : readWord? (hex 4 w.toNat) = some w := by
  have hread : readNumber 16 (UInt16.size - 1) (hex 4 w.toNat) = .ok w.toNat :=
    readNumber_hex (by decide) (Nat.le_pred_of_lt w.toNat_lt)
  rw [readWord?, hread]
  exact congrArg some UInt16.ofNat_toNat

/-- A line without colours gives back its row, for any address of sixty-four bits. -/
theorem readRow?_body (haddr : row.addr < UInt64.size) : readRow? row.body = some row := by
  have hfields : ∀ field ∈ row.fields, ' ' ∉ field.toList :=
    fun field hfield h => absurd (digit_of_mem_field hfield h) (by decide)
  have hpieces : pieces ' ' row.body = row.fields :=
    pieces_intercalate rfl hfields (List.cons_ne_nil _ _)
  have hread : readNumber 16 (UInt64.size - 1) (hex 6 row.addr) = .ok row.addr :=
    readNumber_hex (by decide) (Nat.le_pred_of_lt haddr)
  have hwords := mapM_map_eq_some fun w (_ : w ∈ row.words) => readWord?_hex w
  rw [readRow?, hpieces, Row.fields]
  dsimp only
  rw [hread, hwords]

/-- The lines of a dump are separated by their ends, with nothing behind the last one. -/
theorem join_text_eq (rows : List Row) :
    String.join (rows.map Row.text) = "\n".intercalate (rows.map Row.body ++ [""]) := by
  induction rows with
  | nil => simp
  | cons row rest ih =>
    rw [List.map_cons, List.map_cons, String.join_cons, ih, List.cons_append,
      String.intercalate_cons_of_ne_nil (by simp), Row.text]

/-- Every line is read for itself, since none contains the end of another. -/
theorem read?_join {rows : List Row} (haddr : ∀ row ∈ rows, row.addr < UInt64.size) :
    read? (String.join (rows.map Row.text)) = some rows := by
  have hlines : ∀ line ∈ rows.map Row.body ++ [""], '\n' ∉ line.toList := by
    intro line hline
    obtain hbody | hlast := List.mem_append.mp hline
    · obtain ⟨row, _, rfl⟩ := List.mem_map.mp hbody
      exact inline_body row
    · rw [List.mem_singleton.mp hlast]
      decide
  rw [read?, join_text_eq, pieces_intercalate rfl hlines (by simp), List.dropLast_concat]
  exact mapM_map_eq_some fun row hrow => readRow?_body (haddr row hrow)

/-- A reader of the dump finds the rows that the data was cut into. -/
theorem read?_unstyled_text (h : start + data.length < UInt64.size) :
    read? (unstyled (text start data)) = some (rows start data) := by
  rw [unstyled_text]
  apply read?_join
  intro row hrow
  obtain ⟨k, hlt, rfl⟩ := mem_rows_iff.mp hrow
  exact Nat.lt_trans (Nat.add_lt_add_left hlt start) h

end Reading

section Uniqueness

variable {start start' : Nat} {data data' : List UInt8}

/-- Data that is the same with its padding can differ by no more than a zero at the end. -/
theorem eq_up_to_zero_of_padding (h : data ++ padding data = data' ++ padding data') :
    data = data' ∨ data ++ [0] = data' ∨ data = data' ++ [0] := by
  unfold padding at h
  split at h <;> split at h <;> simp_all

/-- What data a line shows and where it starts can be told from the rows. -/
theorem eq_of_rows_eq (hne : data ≠ []) (h : rows start data = rows start' data') :
    start = start' ∧ (data = data' ∨ data ++ [0] = data' ∨ data = data' ++ [0]) := by
  obtain ⟨_, haddr, _, _, hbytes⟩ := rows_show start data
  obtain ⟨_, haddr', _, _, hbytes'⟩ := rows_show start' data'
  rw [← h] at haddr' hbytes'
  have hfirst : (rows start data)[0]? = some ⟨start, words (data.take 16)⟩ :=
    getElem?_rows_eq_some_iff.mpr ⟨List.length_pos_iff.mpr hne, rfl⟩
  exact ⟨(haddr 0 _ hfirst).symm.trans (haddr' 0 _ hfirst),
    eq_up_to_zero_of_padding (hbytes.symm.trans hbytes')⟩

/-- Data that fills its lines can be dumped apart from what follows it. -/
theorem text_append {front : List UInt8} (h : 16 ∣ front.length) (start : Nat) (back : List UInt8) :
    text start (front ++ back) = text start front ++ text (start + front.length) back := by
  simp only [text, lines_eq, rows_append h, List.map_append, String.join_append]

end Uniqueness

/-- Without its colours a dump is a table that can be read: its lines show the data from the start
address on, in full rows but for the last one, and a reader that knows nothing else finds them again.
So the text determines the start and the data, up to a zero that may have been filled in behind a
last odd byte. A dump of data that follows a whole number of lines follows their dump. -/
theorem text_reads_back :
    (∀ (start : Nat) (data : List UInt8), start + data.length < UInt64.size →
      ∃ rows, unstyled (text start data) = String.join (rows.map Row.text) ∧
        (∀ row ∈ rows, row.Legible) ∧ Shows start data rows ∧
        read? (unstyled (text start data)) = some rows) ∧
    (∀ (start start' : Nat) (data data' : List UInt8),
      start + data.length < UInt64.size → start' + data'.length < UInt64.size → data ≠ [] →
      unstyled (text start data) = unstyled (text start' data') →
      start = start' ∧ (data = data' ∨ data ++ [0] = data' ∨ data = data' ++ [0])) ∧
    ∀ (start : Nat) (front back : List UInt8), 16 ∣ front.length →
      text start (front ++ back) = text start front ++ text (start + front.length) back := by
  refine ⟨?_, ?_, fun start front back h => text_append h start back⟩
  · intro start data h
    exact ⟨rows start data, unstyled_text start data, fun row _ => legible row,
      rows_show start data, read?_unstyled_text h⟩
  · intro start start' data data' h h' hne hsame
    have hread := read?_unstyled_text h
    rw [hsame, read?_unstyled_text h'] at hread
    exact eq_of_rows_eq hne (Option.some.inj hread).symm

/-- Three bytes and the same bytes with a zero behind them give one text, which is read as four bytes.
A single byte that begins a second line is dumped for itself. -/
theorem text_reads_back_odd :
    unstyled (text 0x200 [0x00, 0xE0, 0x12]) = "000200 00e0 1200\n" ∧
      unstyled (text 0x200 [0x00, 0xE0, 0x12, 0x00]) = "000200 00e0 1200\n" ∧
      (∃ rows, read? "000200 00e0 1200\n" = some rows ∧
        rows.flatMap Row.bytes = [0x00, 0xE0, 0x12, 0x00]) ∧
      [(0x00 : UInt8), 0xE0, 0x12] ++ [0] = [0x00, 0xE0, 0x12, 0x00] ∧
      text 0x200 (List.replicate 16 1 ++ [2]) = text 0x200 (List.replicate 16 1) ++ text 0x210 [2] := by
  have hodd : unstyled (text 0x200 [0x00, 0xE0, 0x12]) = "000200 00e0 1200\n" := by
    rw [unstyled_text, rows_of_ne_nil (by decide), List.drop_of_length_le (by decide), rows_nil]
    decide
  have heven : unstyled (text 0x200 [0x00, 0xE0, 0x12, 0x00]) = "000200 00e0 1200\n" := by
    rw [unstyled_text, rows_of_ne_nil (by decide), List.drop_of_length_le (by decide), rows_nil]
    decide
  obtain ⟨hreads, hunique, hjoins⟩ := text_reads_back
  obtain ⟨rows, _, _, hshows, hread⟩ := hreads 0x200 [0x00, 0xE0, 0x12] (by decide)
  obtain ⟨_, hequal⟩ := hunique 0x200 0x200 [0x00, 0xE0, 0x12] [0x00, 0xE0, 0x12, 0x00] (by decide)
    (by decide) (by decide) (hodd.trans heven.symm)
  rw [hodd] at hread
  refine ⟨hodd, heven, ⟨rows, hread, hshows.bytes⟩, ?_, hjoins 0x200 _ [2] (by decide)⟩
  obtain hsame | hpadded | hcut := hequal
  · exact absurd hsame (by decide)
  · exact hpadded
  · exact absurd hcut (by decide)

end Chip8.Dump
