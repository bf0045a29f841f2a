import Chip8.Instruction.Text
import Chip8.Proofs.Instruction.RoundTrip
import Chip8.Proofs.Text.Numeral

namespace Chip8

open Text

/-- An operand as it stands in a listing, where its form tells what kind of operand it is. -/
inductive Operand where
  /-- A number without a sign in front, such as `2A0`. -/
  | address (value : Nat)
  /-- A number behind a hash, such as `#0f`. -/
  | immediate (value : Nat)
  /-- A number behind a dollar sign, such as `$2a0`. -/
  | pointer (value : Nat)
  /-- A number behind a `v`, such as `vA`. -/
  | register (x : Nat)
  /-- The index register, `I`. -/
  | index
deriving DecidableEq, Repr

namespace Operand

/-- The value of hexadecimal digits. As many digits as there are have room for it. -/
def number? (digits : List Char) : Option Nat :=
  (readNumber 16 (16 ^ digits.length) (String.ofList digits)).toOption

def ofChars? : List Char → Option Operand
  | ['I'] => some index
  | '#' :: digits => (number? digits).map immediate
  | '$' :: digits => (number? digits).map pointer
  | 'v' :: digits => (number? digits).map register
  | digits => (number? digits).map address

end Operand

/-- The operation on two registers with a given name. -/
def Alu.ofMnemonic? : String → Option Alu
  | "mov" => some copy
  | "or" => some or
  | "and" => some and
  | "xor" => some xor
  | "add" => some add
  | "sub" => some sub
  | "shr" => some shiftRight
  | "bsub" => some subReverse
  | "shl" => some shiftLeft
  | _ => none

namespace Instruction

/-- The instruction with a given name and given operands. The operands decide between instructions
that share a name. -/
def ofOperands? (name : String) : List Operand → Option (Instruction Nat)
  | [] =>
    match name with
    | "cls" => some clear
    | "ret" => some ret
    | _ => none
  | [.address a] =>
    match name with
    | "jmp" => some (jump (.ofNat a))
    | "call" => some (call (.ofNat a))
    | _ => none
  | [.register x] =>
    match name with
    | "dmao" => some (store x)
    | "dmai" => some (load x)
    | _ => none
  | [.immediate b, .register x] =>
    match name with
    | "se" => some (skipEqByte (.ofNat b) x)
    | "sne" => some (skipNeByte (.ofNat b) x)
    | "mov" => some (setByte (.ofNat b) x)
    | "add" => some (addByte (.ofNat b) x)
    | "rand" => some (random (.ofNat b) x)
    | _ => none
  | [.register y, .register x] =>
    match name with
    | "se" => some (skipEq y x)
    | "sne" => some (skipNe y x)
    | _ => (Alu.ofMnemonic? name).map fun op => alu op y x
  | [.pointer a, .index] => if name = "mov" then some (setIndex (.ofNat a)) else none
  | [.register x, .index] => if name = "add" then some (addIndex x) else none
  | [.immediate n, .register x, .register y] =>
    if name = "draw" then some (draw y x (.ofNat n)) else none
  | _ => none

/-- The parts of a line between spaces. -/
def words (chars : List Char) : List (List Char) :=
  (chars.splitOn ' ').filter (· ≠ [])

/-- The words of a line of a listing. Commas do not belong to them. -/
def tokens (text : String) : List (List Char) :=
  words (text.toList.filter (· != ','))

/-- Reads a line of a listing. -/
def ofText? (text : String) : Option (Instruction Nat) :=
  match tokens text with
  | [] => none
  | name :: fields => (fields.mapM Operand.ofChars?).bind (ofOperands? (String.ofList name))

/-- The name of an instruction in a listing. -/
def mnemonic : Instruction Nat → String
  | clear => "cls"
  | ret => "ret"
  | jump _ => "jmp"
  | call _ => "call"
  | skipEqByte _ _ | skipEq _ _ => "se"
  | skipNeByte _ _ | skipNe _ _ => "sne"
  | setByte _ _ | setIndex _ => "mov"
  | addByte _ _ | addIndex _ => "add"
  | alu op _ _ => op.mnemonic
  | random _ _ => "rand"
  | draw _ _ _ => "draw"
  | store _ => "dmao"
  | load _ => "dmai"

/-- The operands of an instruction in the order of a listing. -/
def operands : Instruction Nat → List Operand
  | clear | ret => []
  | jump a | call a => [.address a.toNat]
  | skipEqByte b x | skipNeByte b x | setByte b x | addByte b x | random b x =>
    [.immediate b.toNat, .register x]
  | skipEq y x | skipNe y x | alu _ y x => [.register y, .register x]
  | setIndex a => [.pointer a.toNat, .index]
  | draw y x n => [.immediate n.toNat, .register x, .register y]
  | addIndex x => [.register x, .index]
  | store x | load x => [.register x]

/-- The operands as they are written. -/
def fields : Instruction Nat → List String
  | clear | ret => []
  | jump a | call a => [hex 3 a.toNat]
  | skipEqByte b x | skipNeByte b x | setByte b x | addByte b x | random b x =>
    [immediate b, register x]
  | skipEq y x | skipNe y x | alu _ y x => [register y, register x]
  | setIndex a => ["$" ++ hex 3 a.toNat, "I"]
  | draw y x n => ["#" ++ hex 1 n.toNat, register x, register y]
  | addIndex x => [register x, "I"]
  | store x | load x => [register x]

/-- Name and operands are all that there is of an instruction. -/
theorem ofOperands?_operands (i : Instruction Nat) :
    ofOperands? i.mnemonic i.operands = some i := by
  cases i with
  | alu op y x => cases op <;> rfl
  | _ => simp [mnemonic, operands, ofOperands?]

/-- The name stands in a column of its own, and commas separate the operands. -/
theorem text_eq (i : Instruction Nat) :
    i.text = alignLeft 7 i.mnemonic ++ ", ".intercalate i.fields := by
  cases i <;> simp [text, mnemonic, fields, String.append_assoc]

section Tokens

/-- What can be a word of a listing. -/
def IsToken (chars : List Char) : Prop :=
  chars ≠ [] ∧ ∀ c ∈ chars, c ≠ ' ' ∧ c ≠ ','

instance (chars : List Char) : Decidable (IsToken chars) :=
  decidable_of_iff (chars ≠ [] ∧ chars.all (fun c => c ≠ ' ' ∧ c ≠ ',') = true)
    (by rw [IsToken, List.all_eq_true]; simp)

variable {chars : List Char} {name : String} {fields : List String}

/-- A space ends one word and begins another. -/
theorem words_append_space (front back : List Char) :
    words (front ++ ' ' :: back) = words front ++ words back := by
  have hcut : (front ++ ' ' :: back).splitOn ' ' = front.splitOn ' ' ++ back.splitOn ' ' :=
    List.splitOnP_append_cons front back rfl
  rw [words, hcut, List.filter_append]
  rfl

/-- A token is a word by itself. -/
theorem words_of_isToken (h : IsToken chars) : words chars = [chars] := by
  have hwhole : chars.splitOn ' ' = [chars] := by
    apply List.splitOnP_eq_singleton
    intro c hc
    exact beq_false_of_ne (h.2 c hc).1
  rw [words, hwhole, List.filter_cons_of_pos (by simpa using h.1), List.filter_nil]

/-- Spaces in front do not begin a word. -/
theorem words_spaces_append (k : Nat) (rest : List Char) :
    words (List.replicate k ' ' ++ rest) = words rest := by
  induction k with
  | zero => rfl
  | succ k ih =>
    rw [List.replicate_succ, List.cons_append, ← ih]
    exact words_append_space [] _

theorem IsToken.filter_comma (h : IsToken chars) : chars.filter (· != ',') = chars := by
  apply List.filter_eq_self.mpr
  intro c hc
  exact bne_iff_ne.mpr (h.2 c hc).2

/-- The operands are found again between the commas. -/
theorem tokens_intercalate (hfields : ∀ field ∈ fields, IsToken field.toList) :
    tokens (", ".intercalate fields) = fields.map String.toList := by
  induction fields with
  | nil => rfl
  | cons first rest ih =>
    obtain ⟨hfirst, hrest⟩ := List.forall_mem_cons.mp hfields
    cases rest with
    | nil =>
      rw [String.intercalate_singleton, tokens, hfirst.filter_comma, words_of_isToken hfirst]
      rfl
    | cons second rest =>
      have hcut : tokens (", ".intercalate (first :: second :: rest)) =
          words (first.toList ++ ' ' ::
            (", ".intercalate (second :: rest)).toList.filter (· != ',')) := by
        rw [String.intercalate_cons_cons, tokens, String.toList_append, String.toList_append,
          List.filter_append, List.filter_append, hfirst.filter_comma, List.append_assoc]
        rfl
      rw [hcut, words_append_space, words_of_isToken hfirst, List.map_cons, ← ih hrest]
      rfl

/-- A name that leaves room in its column stands apart from the operands. -/
theorem tokens_line (hname : IsToken name.toList) (hroom : name.toList.length < 7)
    (hfields : ∀ field ∈ fields, IsToken field.toList) :
    tokens (alignLeft 7 name ++ ", ".intercalate fields) =
      name.toList :: fields.map String.toList := by
  -- The first of the spaces that fill the column ends the name, and the others mean nothing.
  obtain ⟨k, hk⟩ : ∃ k, 7 - name.toList.length = k + 1 := ⟨6 - name.toList.length, by omega⟩
  have hspaces : (List.replicate (k + 1) ' ').filter (· != ',') = List.replicate (k + 1) ' ' :=
    List.filter_eq_self.mpr fun c hc => by rw [List.eq_of_mem_replicate hc]; rfl
  rw [tokens, String.toList_append, alignLeft, String.toList_ofList, List.rightpad, hk,
    List.filter_append, List.filter_append, hname.filter_comma, hspaces, List.replicate_succ,
    List.append_assoc, List.cons_append, words_append_space, words_of_isToken hname,
    words_spaces_append]
  exact congrArg (name.toList :: ·) (tokens_intercalate hfields)

end Tokens

section Operands

variable {digits : List Char} {width : Nat}

/-- A digit does not end a word, and no operand of another form begins with one. -/
theorem of_mem_digits {c : Char} (hc : c ∈ "0123456789abcdefABCDEF".toList) :
    (c ≠ ' ' ∧ c ≠ ',') ∧ c ≠ '#' ∧ c ≠ '$' ∧ c ≠ 'v' ∧ c ≠ 'I' := by
  have hother {d : Char} (hd : d ∉ "0123456789abcdefABCDEF".toList) : c ≠ d := by
    rintro rfl
    exact hd hc
  exact ⟨⟨hother (by decide), hother (by decide)⟩, hother (by decide), hother (by decide),
    hother (by decide), hother (by decide)⟩

theorem mem_digits_of_hex {n : Nat} {c : Char} (hc : c ∈ (hex width n).toList) :
    c ∈ "0123456789abcdefABCDEF".toList :=
  List.mem_append_left "ABCDEF".toList (digit_of_mem_hex hc)

/-- Upper-case digits are among the digits of operands. -/
theorem mem_digits_of_upperHex {n : Nat} {c : Char} (hc : c ∈ (upperHex n).toList) :
    c ∈ "0123456789abcdefABCDEF".toList := by
  have hsubset : "0123456789ABCDEF".toList ⊆ "0123456789abcdefABCDEF".toList := by decide
  exact hsubset (digit_of_mem_upperHex hc)

/-- The digits that are written have the value that was written, zeros in front or not. -/
theorem number?_hex (hwidth : 0 < width) (n : Nat) :
    Operand.number? (hex width n).toList = some n := by
  have hroom := Nat.le_of_lt (lt_pow_length_hex width n)
  rw [Operand.number?, String.ofList_toList, readNumber_hex hwidth hroom]
  rfl

theorem number?_upperHex (n : Nat) : Operand.number? (upperHex n).toList = some n := by
  have hroom := Nat.le_of_lt (lt_pow_length_upperHex n)
  rw [Operand.number?, String.ofList_toList, readNumber_upperHex hroom]
  rfl

theorem toList_signed {sign : String} {c : Char} (hsign : sign.toList = [c]) (text : String) :
    (sign ++ text).toList = c :: text.toList := by
  rw [String.toList_append, hsign, List.singleton_append]

/-- A sign in front of digits does not cut them off. -/
theorem isToken_signed {sign : Char} (hsign : sign ≠ ' ' ∧ sign ≠ ',')
    (hdigits : ∀ c ∈ digits, c ∈ "0123456789abcdefABCDEF".toList) : IsToken (sign :: digits) :=
  ⟨List.cons_ne_nil _ _, List.forall_mem_cons.mpr
    ⟨hsign, fun c hc => (of_mem_digits (hdigits c hc)).1⟩⟩

theorem isToken_hex (hwidth : 0 < width) (n : Nat) : IsToken (hex width n).toList := by
  refine ⟨?_, fun c hc => (of_mem_digits (mem_digits_of_hex hc)).1⟩
  apply List.ne_nil_of_length_pos
  rw [String.length_toList]
  exact Nat.lt_of_lt_of_le hwidth (le_length_hex width n)

/-- Every operand is written as one word. -/
theorem isToken_of_mem_fields (i : Instruction Nat) :
    ∀ field ∈ i.fields, IsToken field.toList := by
  have himmediate (width n : Nat) : IsToken ("#" ++ hex width n).toList := by
    rw [toList_signed rfl]
    exact isToken_signed (by decide) fun c hc => mem_digits_of_hex hc
  have hpointer (n : Nat) : IsToken ("$" ++ hex 3 n).toList := by
    rw [toList_signed rfl]
    exact isToken_signed (by decide) fun c hc => mem_digits_of_hex hc
  have hregister (x : Nat) : IsToken ("v" ++ upperHex x).toList := by
    rw [toList_signed rfl]
    exact isToken_signed (by decide) fun c hc => mem_digits_of_upperHex hc
  have haddress (n : Nat) : IsToken (hex 3 n).toList := isToken_hex (by decide) n
  have hindex : IsToken "I".toList := by decide
  cases i <;>
    simp only [fields, immediate, register, List.forall_mem_cons, List.not_mem_nil, false_implies,
      implies_true, and_true, himmediate, hpointer, hregister, haddress, hindex]

theorem ofChars?_immediate (digits : List Char) :
    Operand.ofChars? ('#' :: digits) = (Operand.number? digits).map .immediate := rfl

theorem ofChars?_pointer (digits : List Char) :
    Operand.ofChars? ('$' :: digits) = (Operand.number? digits).map .pointer := rfl

theorem ofChars?_register (digits : List Char) :
    Operand.ofChars? ('v' :: digits) = (Operand.number? digits).map .register := rfl

/-- A number without a sign is told from the other forms by its first digit. -/
theorem ofChars?_address (hdigits : ∀ c ∈ digits, c ∈ "0123456789abcdefABCDEF".toList) :
    Operand.ofChars? digits = (Operand.number? digits).map .address := by
  have hfirst {c : Char} {rest : List Char} (h : digits = c :: rest) :=
    (of_mem_digits (hdigits c (h ▸ List.mem_cons_self))).2
  unfold Operand.ofChars?
  split
  · exact absurd rfl (hfirst rfl).2.2.2
  · exact absurd rfl (hfirst rfl).1
  · exact absurd rfl (hfirst rfl).2.1
  · exact absurd rfl (hfirst rfl).2.2.1
  · rfl

/-- The operands of an instruction are read back from how they are written. -/
theorem mapM_fields (i : Instruction Nat) :
    (i.fields.map String.toList).mapM Operand.ofChars? = some i.operands := by
  have himmediate (width n : Nat) (hwidth : 0 < width) :
      Operand.ofChars? ("#" ++ hex width n).toList = some (.immediate n) := by
    rw [toList_signed (c := '#') rfl, ofChars?_immediate, number?_hex hwidth, Option.map_some]
  have hbyte (n : Nat) := himmediate 2 n (by decide)
  have hrows (n : Nat) := himmediate 1 n (by decide)
  have hpointer (n : Nat) : Operand.ofChars? ("$" ++ hex 3 n).toList = some (.pointer n) := by
    rw [toList_signed (c := '$') rfl, ofChars?_pointer, number?_hex (by decide), Option.map_some]
  have hregister (x : Nat) : Operand.ofChars? ("v" ++ upperHex x).toList = some (.register x) := by
    rw [toList_signed (c := 'v') rfl, ofChars?_register, number?_upperHex, Option.map_some]
  have haddress (n : Nat) : Operand.ofChars? (hex 3 n).toList = some (.address n) := by
    rw [ofChars?_address fun c hc => mem_digits_of_hex hc, number?_hex (by decide), Option.map_some]
  have hindex : Operand.ofChars? "I".toList = some .index := rfl
  cases i <;>
    simp only [fields, immediate, register, operands, List.map_cons, List.map_nil, List.mapM_cons,
      List.mapM_nil, hbyte, hrows, hpointer, hregister, haddress, hindex] <;> rfl

end Operands

/-- A line of a listing is read back as the instruction that it was written for. -/
theorem ofText?_text (i : Instruction Nat) : ofText? i.text = some i := by
  have hname : IsToken i.mnemonic.toList ∧ i.mnemonic.toList.length < 7 := by
    cases i with
    | alu op y x =>
      simp only [mnemonic]
      cases op <;> decide
    | _ =>
      simp only [mnemonic]
      decide
  have htokens := tokens_line hname.1 hname.2 i.isToken_of_mem_fields
  rw [ofText?, text_eq, htokens]
  dsimp only
  rw [mapM_fields, Option.bind_some, String.ofList_toList, ofOperands?_operands]

/-- The numbers that name the registers tell them apart. -/
theorem eq_of_map_val_eq {i j : Instruction Reg} (h : i.map Fin.val = j.map Fin.val) : i = j := by
  have hnames (k : Instruction Reg) : (k.map Fin.val).map (Fin.ofNat 16) = k := by
    cases k <;> simp [map]
  rw [← hnames i, h, hnames j]

/-- No two instructions have the same text, whatever their operands are, and although four names
stand for more than one kind of instruction. So a listing tells which words were executed. -/
theorem text_determines_instruction :
    (∀ i j : Instruction Nat, i.text = j.text ↔ i = j) ∧
    ∀ (w w' : Word) (i i' : Instruction Reg), ofWord? w = some i → ofWord? w' = some i' →
      (i.listing = i'.listing ↔ w = w') := by
  have htext (i j : Instruction Nat) : i.text = j.text ↔ i = j := by
    constructor
    · intro h
      have hread := ofText?_text i
      rw [h, ofText?_text] at hread
      exact (Option.some.inj hread).symm
    · exact congrArg text
  refine ⟨htext, ?_⟩
  intro w w' i i' hw hw'
  constructor
  · intro h
    obtain rfl := eq_of_map_val_eq ((htext _ _).mp h)
    exact (ofWord?_eq_some_iff.mp hw).2.symm.trans (ofWord?_eq_some_iff.mp hw').2
  · rintro rfl
    rw [Option.some.inj (hw.symm.trans hw')]

/-- Three instructions by the name `add`, which differ from the first operand on or in the last one
only. -/
theorem text_determines_instruction_add :
    ofWord? 0x8114 = some (.alu .add 1 1) ∧ ofWord? 0xF11E = some (.addIndex 1) ∧
      ofWord? 0x7101 = some (.addByte 1 1) ∧
      (Instruction.alu .add 1 1 : Instruction Reg).listing ≠ (addIndex 1).listing ∧
      (addByte 1 1 : Instruction Reg).listing ≠ (Instruction.alu .add 1 1).listing ∧
      (Instruction.alu .add 1 1 : Instruction Nat).text ≠ (Instruction.alu .add 1 17).text := by
  obtain ⟨htext, hwords⟩ := text_determines_instruction
  have hregisters : ofWord? 0x8114 = some (.alu .add 1 1) := rfl
  have hindex : ofWord? 0xF11E = some (.addIndex 1) := rfl
  have hbyte : ofWord? 0x7101 = some (.addByte 1 1) := rfl
  refine ⟨hregisters, hindex, hbyte, ?_, ?_, ?_⟩
  · exact mt (hwords _ _ _ _ hregisters hindex).mp (by decide)
  · exact mt (hwords _ _ _ _ hbyte hregisters).mp (by decide)
  · exact mt (htext _ _).mp (by decide)

end Instruction

end Chip8
