import ChainLab.Digest
import ChainLab.Json.Record
import ChainLab.Proofs.TextBytes
import Mathlib.Data.List.TakeWhile

/-!
# Strings, numbers and keys are read as they were written

Every text comes back from the body of a JSON string it is escaped into, control characters, quotes
and backslashes included; every number from its digits; and every key from its hexadecimal text.
-/

namespace ChainLab

namespace Json

/-! ### Strings -/

/-- How a byte may be written: as it is, by a letter, or by the digits of its code. -/
inductive Escaped (b : UInt8) : List UInt8 → Prop where
  | plain (quote : b ≠ 34) (backslash : b ≠ 92) (printable : ¬b < 32) : Escaped b [b]
  | letter {l : UInt8} (meant : letterEscape? l = some b) : Escaped b [92, l]
  | code {high low : UInt8} (control : b < 32) (digits : codeUnit? 48 48 high low = some b.toNat) :
    Escaped b [92, 117, 48, 48, high, low]

theorem codeUnit?_control : ∀ n < 32, codeUnit? 48 48 (48 + UInt8.ofNat n / 16)
    (Hex.digitChar (UInt8.ofNat n % 16)).toUInt8 = some n := by
  decide

theorem escaped_escapeByte (b : UInt8) : Escaped b (escapeByte b) := by
  unfold escapeByte
  split
  case isTrue special =>
    rcases special with rfl | rfl <;> exact .letter (by decide)
  case isFalse special =>
    iterate 5
      split
      · subst b
        exact .letter (by decide)
    split
    case isTrue control =>
      have digits := codeUnit?_control b.toNat (UInt8.lt_iff_toNat_lt.mp control)
      rw [UInt8.ofNat_toNat] at digits
      exact .code control digits
    case isFalse printable =>
      rw [not_or] at special
      exact .plain special.1 special.2 printable

theorem utf8_control : ∀ n < 32, utf8 n = [UInt8.ofNat n] := by
  have spelled (n : Nat) : utf8 n = [Char.ofNat n].flatMap String.utf8EncodeChar :=
    toList_toUTF8_ofList [Char.ofNat n]
  simp only [spelled]
  decide

theorem isSurrogate_control : ∀ n < 32, isHighSurrogate n = false ∧ isLowSurrogate n = false := by
  decide

theorem Escaped.unescape? {b : UInt8} {written : List UInt8} (h : Escaped b written)
    (rest : List UInt8) : unescape? (written ++ rest) = (unescape? rest).map (b :: ·) := by
  cases h with
  | plain quote backslash printable =>
    exact unescape?.eq_4 b rest (fun _ _ _ _ _ h _ => backslash h) fun _ _ h _ => backslash h
  | @letter l meant =>
    have other : l ≠ 117 := by
      rintro rfl
      cases meant
    have read := unescape?.eq_3 l rest fun _ _ _ _ _ h _ => other h
    rwa [meant] at read
  | @code high low control digits =>
    have read := unescape?.eq_2 48 48 high low rest
    have small := UInt8.lt_iff_toNat_lt.mp control
    obtain ⟨notHigh, notLow⟩ := isSurrogate_control b.toNat small
    simp only [digits, notHigh, notLow, utf8_control b.toNat small, UInt8.ofNat_toNat] at read
    exact read

theorem unescape?_escape (text : String) : unescape? (escape text) = some text.toUTF8.toList := by
  unfold escape
  induction text.toUTF8.toList with
  | nil => rfl
  | cons b rest ih => rw [List.flatMap_cons, (escaped_escapeByte b).unescape?, ih, Option.map_some]

theorem decode?_escape (text : String) : decode? (escape text) = some text := by
  rw [decode?, unescape?_escape, Option.bind_some, fromUTF8?_toByteArray_toList]

/-! ### Numbers -/

theorem isDigit_digit : ∀ d < 10, isDigit (48 + UInt8.ofNat d) = true := by
  decide

theorem toNat_digit : ∀ d < 10, (48 + UInt8.ofNat d).toNat - 48 = d := by
  decide

/-- Only the number zero starts with a zero. -/
theorem digits_eq_cons (n : Nat) : ∃ first rest, digits n = first :: rest ∧
    isDigit first = true ∧ (∀ b ∈ rest, isDigit b = true) ∧ (first = 48 → n = 0 ∧ rest = []) := by
  fun_induction digits n with
  | case1 n small =>
    refine ⟨_, [], rfl, isDigit_digit n small, by simp, fun zero => ⟨?_, rfl⟩⟩
    have value := toNat_digit n small
    rw [zero] at value
    exact value.symm
  | case2 n large ih =>
    obtain ⟨first, rest, spelled, digit, digits, leading⟩ := ih
    have last := isDigit_digit _ (Nat.mod_lt n (by decide))
    refine ⟨first, rest ++ [_], by rw [spelled, List.cons_append], digit, ?_, fun zero => ?_⟩
    · exact List.forall_mem_append.mpr ⟨digits, List.forall_mem_singleton.mpr last⟩
    · have := (leading zero).1
      omega

theorem foldl_digits (n : Nat) :
    (digits n).foldl (fun value b => 10 * value + (b.toNat - 48)) 0 = n := by
  fun_induction digits n with
  | case1 n small =>
    rw [List.foldl_cons, List.foldl_nil, toNat_digit n small]
    omega
  | case2 n large ih =>
    have last := toNat_digit _ (Nat.mod_lt n (by decide))
    rw [List.foldl_append, ih, List.foldl_cons, List.foldl_nil, last]
    omega

theorem isDigit_of_mem_digits {n : Nat} {b : UInt8} (hb : b ∈ digits n) : isDigit b = true := by
  obtain ⟨first, rest, spelled, digit, digits, -⟩ := digits_eq_cons n
  rw [spelled] at hb
  rcases List.mem_cons.mp hb with rfl | hb
  · exact digit
  · exact digits b hb

theorem natural?_natural (n : Nat) : natural? (natural n) = some n := by
  have all : (digits n).all isDigit = true := List.all_eq_true.mpr fun b => isDigit_of_mem_digits
  simp only [natural, natural?, all, if_true, foldl_digits]

theorem isNumber_digits (n : Nat) : isNumber (digits n) = true := by
  obtain ⟨first, rest, spelled, digit, digits, leading⟩ := digits_eq_cons n
  have unsigned : first ≠ 45 := by
    rintro rfl
    cases digit
  have done : rest.dropWhile isDigit = [] := List.dropWhile_eq_nil_iff.mpr digits
  rw [spelled, isNumber.eq_2 _ fun _ minus => unsigned (List.cons.inj minus).1]
  by_cases zero : first = 48
  · rw [zero, (leading zero).2]
    rfl
  · rw [isUnsigned.eq_2 _ _ zero, digit, done]
    rfl

/-- Digits are read as a number and not as one of the names. -/
theorem ofWord?_digits (n : Nat) : Token.ofWord? (digits n) = some (.number (digits n)) := by
  obtain ⟨first, rest, spelled, digit, -, -⟩ := digits_eq_cons n
  have number := isNumber_digits n
  have other (letter : UInt8) (letters : List UInt8) (h : isDigit letter = false) :
      digits n ≠ letter :: letters := by
    rw [spelled]
    intro same
    rw [(List.cons.inj same).1, h] at digit
    cases digit
  rw [Token.ofWord?, if_neg, if_neg, if_neg, if_pos number]
  all_goals
    rw [toList_eq_toList_data]
    exact other _ _ rfl

theorem word?_natural {bits n : Nat} (h : n < Nat.pow 2 bits) :
    word? bits (natural n) = some n := by
  rw [word?, natural?_natural, Option.bind_some, if_pos h]

end Json

/-! ### Keys -/

namespace Hex

theorem utf8EncodeChar_digitChar : ∀ n < 16,
    String.utf8EncodeChar (digitChar (UInt8.ofNat n)) = [(digitChar (UInt8.ofNat n)).toUInt8] := by
  decide

theorem digit?_digitChar : ∀ n < 16,
    digit? (digitChar (UInt8.ofNat n)).toUInt8 = some (UInt8.ofNat n) := by
  decide

/-- Half a byte is written as one byte, from which it is read back. -/
theorem exists_code (half : UInt8) (h : half.toNat < 16) :
    ∃ code, String.utf8EncodeChar (digitChar half) = [code] ∧ digit? code = some half := by
  have written := utf8EncodeChar_digitChar half.toNat h
  have read := digit?_digitChar half.toNat h
  rw [UInt8.ofNat_toNat] at written read
  exact ⟨_, written, read⟩

theorem toNat_high (b : UInt8) : (b / 16).toNat = b.toNat / 16 := UInt8.toNat_div b 16

theorem toNat_low (b : UInt8) : (b % 16).toNat = b.toNat % 16 := UInt8.toNat_mod b 16

theorem halves (b : UInt8) : 16 * (b / 16) + b % 16 = b := by
  apply UInt8.toNat_inj.mp
  have := b.toNat_lt
  simp only [UInt8.toNat_add, UInt8.toNat_mul, toNat_high, toNat_low, UInt8.reduceToNat]
  omega

/-- A byte in front is written as two digits in front. -/
theorem toList_encode_cons (b : UInt8) (bytes : List UInt8) :
    ∃ high low, (encode (b :: bytes)).toUTF8.toList = high :: low :: (encode bytes).toUTF8.toList ∧
      digit? high = some (b / 16) ∧ digit? low = some (b % 16) := by
  have := b.toNat_lt
  obtain ⟨high, writtenHigh, readHigh⟩ := exists_code (b / 16) (by
    rw [toNat_high]
    omega)
  obtain ⟨low, writtenLow, readLow⟩ := exists_code (b % 16) (by
    rw [toNat_low]
    omega)
  refine ⟨high, low, ?_, readHigh, readLow⟩
  simp only [encode, toList_toUTF8_ofList, List.flatMap_cons, writtenHigh, writtenLow,
    List.cons_append, List.nil_append]

theorem length_encode_mod (bytes : List UInt8) : (encode bytes).toUTF8.toList.length % 2 = 0 := by
  induction bytes with
  | nil =>
    rw [toList_eq_toList_data]
    rfl
  | cons b bytes ih =>
    obtain ⟨high, low, spelled, -, -⟩ := toList_encode_cons b bytes
    rw [spelled, List.length_cons, List.length_cons]
    omega

theorem decodePairs_encode (position : Nat) (bytes : List UInt8) :
    decodePairs position (encode bytes).toUTF8.toList = .ok bytes := by
  induction bytes generalizing position with
  | nil =>
    rw [toList_eq_toList_data]
    rfl
  | cons b bytes ih =>
    obtain ⟨high, low, spelled, readHigh, readLow⟩ := toList_encode_cons b bytes
    simp only [spelled, decodePairs, readHigh, readLow, ih, Except.map, halves]

theorem decode_encode (bytes : List UInt8) : decode (encode bytes) = .ok bytes := by
  have even := length_encode_mod bytes
  rw [decode, if_neg (by omega), decodePairs_encode]

end Hex

theorem PublicKey.ofHex_hex (key : PublicKey) : ofHex key.hex = .ok key := by
  rw [ofHex, hex, Hex.decode_encode]
  simp only [Bytes.ofList?_toList]

end ChainLab
