import Chip8.Text.Numeral
import Chip8.Text.Reading
import Mathlib.Algebra.Group.Nat.Defs

namespace Chip8.Text

/-- Numbers in a base up to sixteen use the digits of that base and no others. -/
theorem digit_of_mem_toDigits {base n : Nat} {c : Char} (hlow : 1 < base) (hhigh : base ≤ 16)
    (hc : c ∈ Nat.toDigits base n) : c ∈ "0123456789abcdef".toList := by
  have hdigit : ∀ d < 16, Nat.digitChar d ∈ "0123456789abcdef".toList := by decide
  induction n using Nat.strongRecOn with
  | ind n ih =>
    rw [Nat.toDigits_eq_if hlow] at hc
    split at hc
    · next hn =>
      rw [List.mem_singleton.mp hc]
      exact hdigit n (Nat.lt_of_lt_of_le hn hhigh)
    · next hn =>
      obtain hfirst | hlast := List.mem_append.mp hc
      · exact ih (n / base) (Nat.div_lt_self (by omega) hlow) hfirst
      · rw [List.mem_singleton.mp hlast]
        have hlt : n % base < base := Nat.mod_lt _ (by omega)
        exact hdigit _ (Nat.lt_of_lt_of_le hlt hhigh)

/-- The decimal digits are among the hexadecimal ones, so one alphabet serves for both. -/
theorem digit_of_mem_decimal {n : Nat} {c : Char} (hc : c ∈ (decimal n).toList) :
    c ∈ "0123456789abcdef".toList := by
  rw [decimal, String.toList_ofList] at hc
  exact digit_of_mem_toDigits (by decide) (by decide) hc

section Hex

variable {width n max : Nat}

/-- The zeros that fill up a column are digits like the others. -/
theorem digit_of_mem_hex {c : Char} (hc : c ∈ (hex width n).toList) :
    c ∈ "0123456789abcdef".toList := by
  rw [toList_hex, List.leftpad, List.mem_append, List.mem_replicate] at hc
  obtain ⟨_, rfl⟩ | hdigit := hc
  · decide
  · exact digit_of_mem_toDigits (by decide) (by decide) hdigit

theorem le_length_hex (width n : Nat) : width ≤ (hex width n).length := by
  rw [← String.length_toList, toList_hex, List.length_leftpad]
  exact Nat.le_max_left _ _

/-- A number that the column has room for fills it exactly. -/
theorem length_hex (hroom : (Nat.toDigits 16 n).length ≤ width) : (hex width n).length = width := by
  rw [← String.length_toList, toList_hex, List.length_leftpad]
  exact Nat.max_eq_left hroom

theorem digitValue?_digitChar {d : Nat} (hd : d < 16) : digitValue? 16 d.digitChar = some d := by
  have hall : ∀ d < 16, digitValue? 16 d.digitChar = some d := by decide
  exact hall d hd

/-- One more digit is taken if the number stays within the limit. -/
theorem readDigits_digitChar {d value : Nat} (hd : d < 16) (hmax : value * 16 + d ≤ max)
    (rest : List Char) :
    readDigits 16 max value (d.digitChar :: rest) = readDigits 16 max (value * 16 + d) rest := by
  rw [readDigits, digitValue?_digitChar hd]
  exact if_neg (Nat.not_lt.mpr hmax)

/-- The digits are read from the highest on, and what was read so far is never more than the whole. -/
theorem readDigits_toDigits (hn : n ≤ max) (rest : List Char) :
    readDigits 16 max 0 (Nat.toDigits 16 n ++ rest) = readDigits 16 max n rest := by
  -- All digits but the last one are those of `n / 16`, read with the last one still to come.
  induction n using Nat.strongRecOn generalizing rest with
  | ind n ih =>
    rw [Nat.toDigits_eq_if (by decide)]
    split
    · next hsmall =>
      rw [List.singleton_append, readDigits_digitChar hsmall (by omega), Nat.zero_mul, Nat.zero_add]
    · next hlarge =>
      have hvalue : n / 16 * 16 + n % 16 = n := Nat.div_add_mod' n 16
      rw [List.append_assoc, ih (n / 16) (by omega) (by omega), List.singleton_append,
        readDigits_digitChar (Nat.mod_lt n (by decide)) (by omega), hvalue]

/-- Zeros in front do not change the number. -/
theorem readDigits_zeros (k : Nat) (rest : List Char) :
    readDigits 16 max 0 (List.replicate k '0' ++ rest) = readDigits 16 max 0 rest := by
  induction k with
  | zero => rfl
  | succ k ih =>
    rw [List.replicate_succ, List.cons_append, ← ih]
    exact readDigits_digitChar (d := 0) (by decide) (Nat.zero_le _) _

/-- A text without a sign is read from its first character on. -/
theorem readNumber_of_unsigned {base : Nat} {text : String} (hempty : text.toList ≠ [])
    (hsign : '+' ∉ text.toList) : readNumber base max text = readDigits base max 0 text.toList := by
  unfold readNumber
  split
  · next h => exact absurd h hempty
  · next h => exact absurd (h ▸ List.mem_cons_self) hsign
  · next h => exact absurd (h ▸ List.mem_cons_self) hsign
  · rfl

/-- What is written in hexadecimal is read back, with the zeros before it. -/
theorem readNumber_hex (hwidth : 0 < width) (hn : n ≤ max) :
    readNumber 16 max (hex width n) = .ok n := by
  have hempty : (hex width n).toList ≠ [] := by
    apply List.ne_nil_of_length_pos
    rw [String.length_toList]
    exact Nat.lt_of_lt_of_le hwidth (le_length_hex width n)
  have hsign : '+' ∉ (hex width n).toList := fun h => absurd (digit_of_mem_hex h) (by decide)
  rw [readNumber_of_unsigned hempty hsign, toList_hex, List.leftpad, readDigits_zeros,
    ← List.append_nil (Nat.toDigits 16 n), readDigits_toDigits hn]
  rfl

/-- The number of digits bounds the number. -/
theorem lt_pow_length_toDigits (n : Nat) : n < 16 ^ (Nat.toDigits 16 n).length :=
  (Nat.length_toDigits_le_iff (by decide) Nat.length_toDigits_pos).mp (Nat.le_refl _)

theorem lt_pow_length_hex (width n : Nat) : n < 16 ^ (hex width n).toList.length := by
  rw [toList_hex, List.length_leftpad]
  calc n < 16 ^ (Nat.toDigits 16 n).length := lt_pow_length_toDigits n
    _ ≤ 16 ^ max width (Nat.toDigits 16 n).length :=
      Nat.pow_le_pow_right (by decide) (Nat.le_max_right _ _)

end Hex

section UpperHex

variable {n max value : Nat} {digits : List Char}

/-- Upper-case numbers use the upper-case digits. -/
theorem digit_of_mem_upperHex {c : Char} (hc : c ∈ (upperHex n).toList) :
    c ∈ "0123456789ABCDEF".toList := by
  have hupper : "0123456789abcdef".toList.map Char.toUpper = "0123456789ABCDEF".toList := by decide
  rw [toList_upperHex, List.mem_map] at hc
  obtain ⟨d, hd, rfl⟩ := hc
  rw [← hupper]
  exact List.mem_map_of_mem (digit_of_mem_toDigits (by decide) (by decide) hd)

/-- A digit has the same value in upper case. -/
theorem digitValue?_toUpper {c : Char} (hc : c ∈ "0123456789abcdef".toList) :
    digitValue? 16 c.toUpper = digitValue? 16 c := by
  have hall : "0123456789abcdef".toList.map (fun d => digitValue? 16 d.toUpper) =
      "0123456789abcdef".toList.map (digitValue? 16) := by
    decide
  exact List.map_inj_left.mp hall c hc

/-- A reader takes letters of either case. -/
theorem readDigits_map_toUpper (hdigits : ∀ c ∈ digits, c ∈ "0123456789abcdef".toList) :
    readDigits 16 max value (digits.map Char.toUpper) = readDigits 16 max value digits := by
  induction digits generalizing value with
  | nil => rfl
  | cons c rest ih =>
    obtain ⟨hc, hrest⟩ := List.forall_mem_cons.mp hdigits
    rw [List.map_cons, readDigits, readDigits, digitValue?_toUpper hc]
    simp only [ih hrest]

theorem lt_pow_length_upperHex (n : Nat) : n < 16 ^ (upperHex n).toList.length := by
  rw [toList_upperHex, List.length_map]
  exact lt_pow_length_toDigits n

/-- What is written in upper-case hexadecimal is read back. -/
theorem readNumber_upperHex (hn : n ≤ max) : readNumber 16 max (upperHex n) = .ok n := by
  have hempty : (upperHex n).toList ≠ [] := by
    rw [toList_upperHex]
    exact mt List.map_eq_nil_iff.mp Nat.toDigits_ne_nil
  have hsign : '+' ∉ (upperHex n).toList := fun h => absurd (digit_of_mem_upperHex h) (by decide)
  rw [readNumber_of_unsigned hempty hsign, toList_upperHex,
    readDigits_map_toUpper fun c hc => digit_of_mem_toDigits (by decide) (by decide) hc,
    ← List.append_nil (Nat.toDigits 16 n), readDigits_toDigits hn]
  rfl

end UpperHex

end Chip8.Text
