import Mathlib.Data.List.Basic

/-!
# Base64

Three bytes are four characters; two bytes at the end are three characters, one byte is two.
-/

namespace Idiom.Base64

open List

def digit (n : ℕ) : Char :=
  "ABCDEFGHIJKLMNOPQRSTUVWXYZabcdefghijklmnopqrstuvwxyz0123456789-_".toList.getD n 'A'

def value (c : Char) : Option ℕ :=
  if 'A' ≤ c ∧ c ≤ 'Z' then some (c.toNat - 'A'.toNat)
  else if 'a' ≤ c ∧ c ≤ 'z' then some (c.toNat - 'a'.toNat + 26)
  else if '0' ≤ c ∧ c ≤ '9' then some (c.toNat - '0'.toNat + 52)
  else if c = '-' then some 62
  else if c = '_' then some 63
  else none

/-- The bytes in groups of six bits; the last group is filled with zeros. -/
def sextets : List UInt8 → List ℕ
  | [] => []
  | [a] => [a.toNat / 4, a.toNat % 4 * 16]
  | [a, b] => [a.toNat / 4, a.toNat % 4 * 16 + b.toNat / 16, b.toNat % 16 * 4]
  | a :: b :: c :: rest =>
    a.toNat / 4 :: (a.toNat % 4 * 16 + b.toNat / 16) :: (b.toNat % 16 * 4 + c.toNat / 64) ::
      c.toNat % 64 :: sextets rest

def encode (bytes : List UInt8) : String := String.ofList ((sextets bytes).map digit)

/-- The bits that are left over have to be zero. -/
def bytes : List ℕ → Option (List UInt8)
  | [] => some []
  | [_] => none
  | [w, x] => if x % 16 = 0 then some [UInt8.ofNat (w * 4 + x / 16)] else none
  | [w, x, y] =>
    if y % 4 = 0 then
      some [UInt8.ofNat (w * 4 + x / 16), UInt8.ofNat (x % 16 * 16 + y / 4)]
    else none
  | w :: x :: y :: z :: rest =>
    (bytes rest).map fun tail => UInt8.ofNat (w * 4 + x / 16) ::
      UInt8.ofNat (x % 16 * 16 + y / 4) ::
      UInt8.ofNat (y % 4 * 64 + z) :: tail

def decode (s : String) : Option (List UInt8) := (s.toList.mapM value).bind bytes

/-! ## The round trip -/

set_option maxRecDepth 4000 in
theorem value_digit {n : ℕ} (h : n < 64) : value (digit n) = some n := by
  revert n
  decide

theorem mapM_map {f : ℕ → Char} {g : Char → Option ℕ} {groups : List ℕ}
    (h : ∀ n ∈ groups, g (f n) = some n) : (groups.map f).mapM g = some groups := by
  induction groups with
  | nil => rfl
  | cons n groups ih =>
    rw [map_cons, mapM_cons, h n mem_cons_self,
      ih fun m hm => h m (mem_cons_of_mem n hm)]
    rfl

theorem sextets_lt (input : List UInt8) : ∀ n ∈ sextets input, n < 64 := by
  induction input using sextets.induct with
  | case1 =>
    intro n hn
    cases hn
  | case2 a =>
    have ha := a.toNat_lt
    intro n hn
    simp only [sextets, mem_cons, not_mem_nil, or_false] at hn
    omega
  | case3 a b =>
    have ha := a.toNat_lt
    have hb := b.toNat_lt
    intro n hn
    simp only [sextets, mem_cons, not_mem_nil, or_false] at hn
    omega
  | case4 a b c rest ih =>
    have ha := a.toNat_lt
    have hb := b.toNat_lt
    have hc := c.toNat_lt
    intro n hn
    rw [sextets, mem_cons, mem_cons, mem_cons, mem_cons] at hn
    rcases hn with hn | hn | hn | hn | hn
    · omega
    · omega
    · omega
    · omega
    · exact ih n hn

theorem ofNat_eq {b : UInt8} {n : ℕ} (h : n = b.toNat) : UInt8.ofNat n = b := by
  rw [h, UInt8.ofNat_toNat]

theorem bytes_sextets (input : List UInt8) : bytes (sextets input) = some input := by
  induction input using sextets.induct with
  | case1 => rfl
  | case2 a =>
    rw [sextets, bytes, if_pos (by omega), ofNat_eq (b := a) (by omega)]
  | case3 a b =>
    have hb := b.toNat_lt
    rw [sextets, bytes, if_pos (by omega), ofNat_eq (b := a) (by omega),
      ofNat_eq (b := b) (by omega)]
  | case4 a b c rest ih =>
    have hb := b.toNat_lt
    have hc := c.toNat_lt
    rw [sextets, bytes, ih, ofNat_eq (b := a) (by omega), ofNat_eq (b := b) (by omega),
      ofNat_eq (b := c) (by omega)]
    rfl

/-- **Round trip.**  The bytes that were encoded are decoded. -/
theorem decode_encode (input : List UInt8) : decode (encode input) = some input := by
  unfold decode encode
  rw [String.toList_ofList, mapM_map fun n hn => value_digit (sextets_lt input n hn),
    Option.bind_some, bytes_sextets]

set_option maxRecDepth 4000 in
theorem digit_ne_dot {n : ℕ} (h : n < 64) : digit n ≠ '.' := by
  revert n
  decide

theorem dot_notMem_encode (input : List UInt8) : '.' ∉ (encode input).toList := by
  unfold encode
  rw [String.toList_ofList, mem_map]
  rintro ⟨n, hn, hdot⟩
  exact digit_ne_dot (sextets_lt input n hn) hdot

/-! ## The standard alphabet -/

def standardDigit (n : ℕ) : Char := if n = 62 then '+' else if n = 63 then '/' else digit n

def standardValue (c : Char) : Option ℕ :=
  if c = '+' then some 62
  else if c = '/' then some 63
  else if c = '-' ∨ c = '_' then none
  else value c

def encodeStandard (bytes : List UInt8) : String :=
  String.ofList ((sextets bytes).map standardDigit ++
    replicate ((4 - (sextets bytes).length % 4) % 4) '=')

/-- The padding has to be there. -/
def decodeStandard (s : String) : Option (List UInt8) :=
  let digits := s.toList.takeWhile (· ≠ '=')
  if s.toList = digits ++ replicate ((4 - digits.length % 4) % 4) '=' then
    (digits.mapM standardValue).bind bytes
  else none

set_option maxRecDepth 4000 in
theorem standardValue_digit {n : ℕ} (h : n < 64) :
    standardValue (standardDigit n) = some n ∧ standardDigit n ≠ '=' := by
  revert n
  decide

theorem decodeStandard_encodeStandard (input : List UInt8) :
    decodeStandard (encodeStandard input) = some input := by
  have hdigits : ∀ pad : ℕ, ((sextets input).map standardDigit ++ replicate pad '=').takeWhile
      (· ≠ '=') = (sextets input).map standardDigit := by
    intro pad
    rw [takeWhile_append_of_pos]
    · cases pad <;> simp [replicate_succ]
    · intro c hc
      obtain ⟨n, hn, rfl⟩ := mem_map.1 hc
      exact decide_eq_true (standardValue_digit (sextets_lt input n hn)).2
  unfold decodeStandard encodeStandard
  simp only [String.toList_ofList, hdigits, length_map, if_true]
  rw [mapM_map fun n hn => (standardValue_digit (sextets_lt input n hn)).1, Option.bind_some,
    bytes_sextets]

end Idiom.Base64
