import Mathlib.Data.List.TakeWhile
import Mathlib.Data.Nat.Digits.Lemmas

/-!
# Base 58

Bytes as base-58 text: the bytes are the digits of one number in base 256, the characters
its digits in base 58, and a leading zero byte is a leading `1`.
-/

namespace Idiom.Base58

open List

/-! ## Changing the base -/

/-- The leading zeros, and the rest of the digits as a number in the other base. -/
def rebase (b b' : ℕ) (ds : List ℕ) : List ℕ :=
  ds.takeWhile (· = 0) ++ (Nat.digits b' (Nat.ofDigits b (ds.dropWhile (· = 0)).reverse)).reverse

variable {ds : List ℕ}

theorem eq_zero_of_mem_takeWhile {d : ℕ} (h : d ∈ ds.takeWhile (· = 0)) : d = 0 := by
  simpa using mem_takeWhile_imp h

theorem rebase_lt {b b' : ℕ} (hb' : 1 < b') (ds : List ℕ) : ∀ d ∈ rebase b b' ds, d < b' := by
  intro d hd
  rcases mem_append.1 hd with hzero | hdigit
  · have := eq_zero_of_mem_takeWhile hzero
    omega
  · exact Nat.digits_lt_base hb' (mem_reverse.1 hdigit)

/-- The digits of a number, most significant first, have no leading zero. -/
theorem head_digits_ne_zero {b n d : ℕ} (h : (Nat.digits b n).reverse = d :: ds) : d ≠ 0 := by
  have hdigits : Nat.digits b n = ds.reverse ++ [d] := by
    rw [← reverse_cons, ← h, reverse_reverse]
  have hn : n ≠ 0 := by
    rintro rfl
    simp at hdigits
  have hlast := Nat.getLast_digit_ne_zero b hn
  simpa [hdigits] using hlast

theorem takeWhile_rebase (b b' : ℕ) (ds : List ℕ) :
    (rebase b b' ds).takeWhile (· = 0) = ds.takeWhile (· = 0) := by
  have hzero : ∀ d ∈ ds.takeWhile (· = 0), decide (d = 0) = true :=
    fun d hd => decide_eq_true (eq_zero_of_mem_takeWhile hd)
  unfold rebase
  rw [takeWhile_append_of_pos hzero]
  cases h : (Nat.digits b' (Nat.ofDigits b (ds.dropWhile (· = 0)).reverse)).reverse with
  | nil => simp
  | cons d rest => simp [head_digits_ne_zero h]

theorem dropWhile_rebase (b b' : ℕ) (ds : List ℕ) :
    (rebase b b' ds).dropWhile (· = 0) =
      (Nat.digits b' (Nat.ofDigits b (ds.dropWhile (· = 0)).reverse)).reverse := by
  have hsplit := takeWhile_append_dropWhile (p := fun d => decide (d = 0)) (l := rebase b b' ds)
  rw [takeWhile_rebase] at hsplit
  exact append_cancel_left hsplit

/-- **There and back.**  The digits are recovered from those in the other base. -/
theorem rebase_rebase {b b' : ℕ} (hb : 1 < b) (hds : ∀ d ∈ ds, d < b) :
    rebase b' b (rebase b b' ds) = ds := by
  have hdigits : ∀ d ∈ (ds.dropWhile (· = 0)).reverse, d < b := by
    intro d hd
    exact hds d ((dropWhile_sublist _).mem (mem_reverse.1 hd))
  have hlast : ∀ h : (ds.dropWhile (· = 0)).reverse ≠ [],
      (ds.dropWhile (· = 0)).reverse.getLast h ≠ 0 := by
    intro h
    simpa using head_dropWhile_not (fun d => decide (d = 0)) (l := ds) (by simpa using h)
  rw [rebase, takeWhile_rebase, dropWhile_rebase, reverse_reverse, Nat.ofDigits_digits,
    Nat.digits_ofDigits b hb _ hdigits hlast, reverse_reverse, takeWhile_append_dropWhile]

/-! ## The alphabet -/

/-- No `0`, `O`, `I` or `l`. -/
def alphabet : List Char := "123456789ABCDEFGHJKLMNPQRSTUVWXYZabcdefghijkmnopqrstuvwxyz".toList

def digitChar (d : ℕ) : Char := alphabet.getD d '1'

def charDigit (c : Char) : Option ℕ :=
  if alphabet.idxOf c < 58 then some (alphabet.idxOf c) else none

theorem charDigit_digitChar {d : ℕ} (hd : d < 58) : charDigit (digitChar d) = some d := by
  have hall : ∀ d : Fin 58, charDigit (digitChar d) = some d.val := by decide
  exact hall ⟨d, hd⟩

theorem mem_alphabet_digitChar {d : ℕ} (hd : d < 58) : digitChar d ∈ alphabet := by
  have hlength : alphabet.length = 58 := by decide
  unfold digitChar
  rw [getD_eq_getElem?_getD, getElem?_eq_getElem (by omega)]
  exact getElem_mem _

theorem mapM_charDigit (hds : ∀ d ∈ ds, d < 58) : (ds.map digitChar).mapM charDigit = some ds := by
  induction ds with
  | nil => rfl
  | cons d ds ih =>
    have hd := charDigit_digitChar (hds d (by simp))
    have hrest := ih (fun d' hd' => hds d' (by simp [hd']))
    simp [hd, hrest]

/-! ## Bytes and text -/

/-- `bs58::encode(..).into_string()`. -/
def encode (bytes : List UInt8) : String :=
  String.ofList ((rebase 256 58 (bytes.map UInt8.toNat)).map digitChar)

/-- `bs58::decode(..).into_vec()`; `none` on a character outside the alphabet. -/
def decode (text : String) : Option (List UInt8) :=
  (text.toList.mapM charDigit).map fun ds => (rebase 58 256 ds).map UInt8.ofNat

theorem toNat_lt_of_mem {bytes : List UInt8} : ∀ d ∈ bytes.map UInt8.toNat, d < 256 := by
  intro d hd
  obtain ⟨b, -, rfl⟩ := mem_map.1 hd
  exact b.toNat_lt

theorem map_ofNat_toNat (bytes : List UInt8) : (bytes.map UInt8.toNat).map UInt8.ofNat = bytes := by
  induction bytes with
  | nil => rfl
  | cons b bytes ih => simp only [map_cons, ih, UInt8.ofNat_toNat]

theorem decode_encode (bytes : List UInt8) : decode (encode bytes) = some bytes := by
  unfold decode encode
  rw [String.toList_ofList, mapM_charDigit (rebase_lt (by decide) _), Option.map_some,
    rebase_rebase (by decide) toNat_lt_of_mem, map_ofNat_toNat]

theorem mem_alphabet_of_mem_encode {bytes : List UInt8} {c : Char}
    (h : c ∈ (encode bytes).toList) : c ∈ alphabet := by
  unfold encode at h
  rw [String.toList_ofList] at h
  obtain ⟨d, hd, rfl⟩ := mem_map.1 h
  exact mem_alphabet_digitChar (rebase_lt (by decide) _ d hd)

example : decode "2g" = some [97] := by decide
example : encode [0, 97] = "12g" := by decide

end Idiom.Base58
