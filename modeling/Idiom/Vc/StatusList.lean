import Idiom.Ecash.Transfer
import Idiom.Lib.Base64
import Idiom.Lib.BitString
import Idiom.Lib.Fallible

/-!
# Bitstring status lists (`vc/src/formats/status_list.rs`)

A credential names a list of bits and its place in it; if its entry is not all zero, the credential
is revoked. The place is a product of two numbers from outside.
-/

namespace Idiom.Vc

open Ajna (Json)
open BitString List

/-! ## Arithmetic -/

/-- Overflow checks are on in `dev` and off in `release`. -/
inductive Profile where
  | dev
  | release
  deriving DecidableEq

inductive StatusListError where
  | parse (text : String)
  | outOfRange (index len : UInt64)
  | base64 (text : String)
  | inflate (text : String)
  deriving DecidableEq

/-- How a call does not return a value. -/
inductive Halt where
  | panicked
  | error (e : StatusListError)
  deriving DecidableEq

abbrev Outcome (α : Type) := Except Halt α

def addU64 (profile : Profile) (a b : UInt64) : Outcome UInt64 :=
  if profile = .dev ∧ 2 ^ 64 ≤ a.toNat + b.toNat then .error .panicked else .ok (a + b)

def mulU64 (profile : Profile) (a b : UInt64) : Outcome UInt64 :=
  if profile = .dev ∧ 2 ^ 64 ≤ a.toNat * b.toNat then .error .panicked else .ok (a * b)

/-! ## Reading an entry -/

/-- A `Vec<u8>` has less than `isize::MAX` bytes. -/
abbrev Bitstring := {bytes : List UInt8 // bytes.length < 2 ^ 63}

/-- The next bit, shifted into the value. -/
def readBit (profile : Profile) (bitstring : List UInt8) (bitIndex value : UInt64) (i : ℕ) :
    Outcome UInt64 := do
  let bi ← addU64 profile bitIndex (UInt64.ofNat i)
  match bitstring[(bi / 8).toNat]? with
  | none => .error .panicked
  | some byte =>
    let bit := (byte >>> (7 - bi % 8).toUInt8) &&& 1
    .ok ((value <<< 1) ||| bit.toUInt64)

/-- Read the entry at `index`: with `statusSize` > 1 the unsigned integer that its bits form. -/
def readStatusBit (profile : Profile) (bitstring : Bitstring) (index : UInt64)
    (statusSize : UInt8) : Outcome UInt64 := do
  let statusSize := (max statusSize 1).toUInt64
  let bitIndex ← mulU64 profile index statusSize
  let totalBits ← mulU64 profile (UInt64.ofNat bitstring.1.length) 8
  let afterEntry ← addU64 profile bitIndex statusSize
  if totalBits < afterEntry then .error (.error (.outOfRange index totalBits))
  else (range statusSize.toNat).foldlM (readBit profile bitstring.1 bitIndex) 0

/-! ## Deciding -/

/-- `statusListIndex`: a number, or a string. -/
inductive StatusListIndex where
  | number (n : UInt64)
  | string (s : String)
  deriving DecidableEq

/-- The fields of `credentialStatus` that are read. -/
structure CredentialStatusEntry where
  statusListIndex : StatusListIndex
  statusSize : UInt8
  deriving DecidableEq

inductive StatusVerdict where
  | active
  | set
  deriving DecidableEq

/-- What the code calls: base64 with padding, and `flate2` if the feature is on. -/
structure Host where
  decodeUrlSafe : String → Except String (List UInt8)
  gunzip : Option (List UInt8 → Except String (List UInt8))

/-- The next digit of a `u64`; the product is looked at after the digit. -/
def pushDigit (n : ℕ) (c : Char) : Except String ℕ :=
  if ¬ c.isDigit then .error "invalid digit found in string"
  else if 2 ^ 64 ≤ 10 * n + (c.toNat - '0'.toNat) then
    .error "number too large to fit in target type"
  else .ok (10 * n + (c.toNat - '0'.toNat))

/-- `str::parse::<u64>`. -/
def parseU64 (s : String) : Except String UInt64 :=
  match s.toList with
  | [] => .error "cannot parse integer from empty string"
  | ['+'] => .error "invalid digit found in string"
  | '+' :: digits => (digits.foldlM pushDigit 0).map UInt64.ofNat
  | digits => (digits.foldlM pushDigit 0).map UInt64.ofNat

def StatusListIndex.asU64 : StatusListIndex → Outcome UInt64
  | .number n => .ok n
  | .string s => (parseU64 s).mapError fun e =>
    .error (.parse ("statusListIndex not numeric: " ++ e))

section

variable (host : Host)

/-- Without the feature a list that is no gzip stream is taken as it is. -/
def inflateGzip (compressed : List UInt8) : Outcome (List UInt8) :=
  match host.gunzip with
  | some gunzip => (gunzip compressed).mapError fun e => .error (.inflate e)
  | none =>
    match compressed with
    | 0x1f :: 0x8b :: _ =>
      .error (.error (.inflate "gzip decoding requires the `status-list-gzip` feature"))
    | _ => .ok compressed

/-- Decode a status list credential's `encodedList` field into the raw bits. -/
def decodeStatusList (encodedList : String) : Outcome (List UInt8) := do
  let trimmed := (encodedList.toList.reverse.dropWhile (· = '=')).reverse
  let compressed ←
    match Base64.decode (String.ofList trimmed) with
    | some compressed => Except.ok compressed
    | none => (host.decodeUrlSafe encodedList).mapError fun e => Halt.error (.base64 e)
  inflateGzip host compressed

def encodedList (statusListCredential : Json) : Outcome String :=
  match statusListCredential.get "credentialSubject" with
  | none => .error (.error (.parse "status list credential missing credentialSubject"))
  | some subject =>
    match (subject.get "encodedList").bind Json.asStr with
    | none => .error (.error (.parse "missing encodedList"))
    | some encoded => .ok encoded

/-- A vector in memory. -/
def toBitstring (bytes : List UInt8) : Outcome Bitstring :=
  if h : bytes.length < 2 ^ 63 then .ok ⟨bytes, h⟩ else .error .panicked

def checkStatus (profile : Profile) (entry : CredentialStatusEntry)
    (statusListCredential : Json) : Outcome StatusVerdict := do
  let encoded ← encodedList statusListCredential
  let bits ← decodeStatusList host encoded
  let bits ← toBitstring bits
  let index ← entry.statusListIndex.asU64
  let value ← readStatusBit profile bits index entry.statusSize
  .ok (if value = 0 then .active else .set)

end

/-! ## Stating it -/

/-- The bits of an entry. -/
def width (statusSize : UInt8) : ℕ := max statusSize.toNat 1

/-- The entry lies in the list. -/
def InRange (bits : Bitstring) (index : UInt64) (statusSize : UInt8) : Prop :=
  (index.toNat + 1) * width statusSize ≤ 8 * bits.1.length

def entryBit (bits : Bitstring) (index : UInt64) (statusSize : UInt8) (i : ℕ) : Bool :=
  bitAt bits.1 (index.toNat * width statusSize + i)

/-- The entry says that its credential is in good standing. -/
def AllZero (bits : Bitstring) (index : UInt64) (statusSize : UInt8) : Prop :=
  ∀ i < width statusSize, entryBit bits index statusSize i = false

structure Queries (host : Host) (entry : CredentialStatusEntry) (statusListCredential : Json)
    (bits : Bitstring) (index : UInt64) (statusSize : UInt8) : Prop where
  list : ∃ encoded, encodedList statusListCredential = .ok encoded ∧
    decodeStatusList host encoded = .ok bits.1
  index : entry.statusListIndex.asU64 = .ok index
  size : entry.statusSize = statusSize

structure ReadsExactly (bits : Bitstring) (index : UInt64) (statusSize : UInt8) : Prop where
  /-- Overflow checks have nothing to complain about. -/
  noWrap : readStatusBit .dev bits index statusSize ≠ .error .panicked
  outOfRange : ∀ profile, (∃ len, readStatusBit profile bits index statusSize =
    .error (.error (.outOfRange index len))) ↔ ¬ InRange bits index statusSize
  active : InRange bits index statusSize → ∀ host profile entry statusListCredential,
    Queries host entry statusListCredential bits index statusSize →
    (checkStatus host profile entry statusListCredential = .ok .active ↔
      AllZero bits index statusSize)

/-- No product and no sum reaches 2^64. -/
def Unwrapped (bits : Bitstring) (index : UInt64) (statusSize : UInt8) : Prop :=
  (index.toNat + 1) * width statusSize < 2 ^ 64 ∧ 8 * bits.1.length < 2 ^ 64

/-- No set bit is shifted out unless one of the last 64 is set. -/
def KeepsSetBit (bits : Bitstring) (index : UInt64) (statusSize : UInt8) : Prop :=
  AllZero bits index statusSize ∨
    ∃ i < width statusSize, width statusSize ≤ i + 64 ∧ entryBit bits index statusSize i = true

/-! ## Arithmetic without overflow -/

section

variable {profile : Profile} {a b : UInt64}

theorem addU64_eq (h : a.toNat + b.toNat < 2 ^ 64) : addU64 profile a b = .ok (a + b) :=
  if_neg fun hover => absurd hover.2 (by omega)

theorem mulU64_eq (h : a.toNat * b.toNat < 2 ^ 64) : mulU64 profile a b = .ok (a * b) :=
  if_neg fun hover => absurd hover.2 (by omega)

theorem addU64_dev (h : 2 ^ 64 ≤ a.toNat + b.toNat) : addU64 .dev a b = .error .panicked :=
  if_pos ⟨rfl, h⟩

theorem mulU64_dev (h : 2 ^ 64 ≤ a.toNat * b.toNat) : mulU64 .dev a b = .error .panicked :=
  if_pos ⟨rfl, h⟩

theorem toNat_add_of_lt (h : a.toNat + b.toNat < 2 ^ 64) : (a + b).toNat = a.toNat + b.toNat := by
  rw [UInt64.toNat_add, Nat.mod_eq_of_lt h]

theorem toNat_mul_of_lt (h : a.toNat * b.toNat < 2 ^ 64) : (a * b).toNat = a.toNat * b.toNat := by
  rw [UInt64.toNat_mul, Nat.mod_eq_of_lt h]

theorem toNat_width (statusSize : UInt8) :
    (max statusSize 1).toUInt64.toNat = width statusSize := by
  have hmax : (max statusSize 1).toNat = max statusSize.toNat 1 := by
    show (if statusSize ≤ 1 then 1 else statusSize).toNat = _
    split
    · next h => exact (Nat.max_eq_right (UInt8.le_iff_toNat_le.1 h)).symm
    · next h =>
      exact (Nat.max_eq_left (Nat.le_of_not_le fun hle => h (UInt8.le_iff_toNat_le.2 hle))).symm
  rw [UInt8.toNat_toUInt64, hmax, width]

theorem toNat_length (bits : Bitstring) : (UInt64.ofNat bits.1.length).toNat = bits.1.length := by
  rw [UInt64.toNat_ofNat', Nat.mod_eq_of_lt (by omega)]

end

/-! ## The loop -/

section

variable {profile : Profile} {bits : List UInt8} {bitIndex value : UInt64}

theorem pushBit_eq (value : UInt64) (byte : UInt8) {k : ℕ} (hk : k < 8) :
    (value <<< 1) ||| ((byte >>> UInt8.ofNat k) &&& 1).toUInt64 =
      UInt64.ofNat (2 * value.toNat + (byte.toNat.testBit k).toNat) := by
  have hbit : ((byte >>> UInt8.ofNat k) &&& 1).toNat = (byte.toNat.testBit k).toNat := by
    rw [UInt8.toNat_and, UInt8.toNat_shiftRight, UInt8.toNat_ofNat']
    have hmod : k % 2 ^ 8 % 8 = k := by omega
    rw [hmod, Nat.testBit]
    rw [show UInt8.toNat 1 = 1 from rfl, Nat.and_comm 1, Nat.and_one_is_mod]
    rcases Nat.mod_two_eq_zero_or_one (byte.toNat >>> k) with hlast | hlast <;> rw [hlast] <;> rfl
  have hle := Bool.toNat_le (byte.toNat.testBit k)
  refine UInt64.toNat_inj.1 ?_
  rw [UInt64.toNat_or, UInt64.toNat_shiftLeft, UInt8.toNat_toUInt64, UInt64.toNat_ofNat']
  have hshift : value.toNat <<< ((1 : UInt64).toNat % 64) % 2 ^ 64 =
      2 ^ 1 * (value.toNat % 2 ^ 63) := by
    rw [show (1 : UInt64).toNat % 64 = 1 from rfl]
    omega
  rw [hshift, ← Nat.two_pow_add_eq_or_of_lt (by omega)]
  omega

theorem readBit_eq (h64 : 8 * bits.length < 2 ^ 64) {i : ℕ}
    (hi : bitIndex.toNat + i < 8 * bits.length) :
    readBit profile bits bitIndex value i = .ok (UInt64.ofNat
      (2 * value.toNat + (bitAt bits (bitIndex.toNat + i)).toNat)) := by
  have hi64 : (UInt64.ofNat i).toNat = i := by
    rw [UInt64.toNat_ofNat', Nat.mod_eq_of_lt (by omega)]
  have hsum : bitIndex.toNat + (UInt64.ofNat i).toNat < 2 ^ 64 := by omega
  have hbyte : (bitIndex.toNat + i) / 8 < bits.length := by omega
  have hindex : ((bitIndex + UInt64.ofNat i) / 8).toNat = (bitIndex.toNat + i) / 8 := by
    rw [UInt64.toNat_div, toNat_add_of_lt hsum, hi64]
    rfl
  have hplace : (7 - (bitIndex + UInt64.ofNat i) % 8).toUInt8 =
      UInt8.ofNat (7 - (bitIndex.toNat + i) % 8) := by
    refine UInt8.toNat_inj.1 ?_
    have hmod : ((bitIndex + UInt64.ofNat i) % 8).toNat = (bitIndex.toNat + i) % 8 := by
      rw [UInt64.toNat_mod, toNat_add_of_lt hsum, hi64]
      rfl
    have hle : (bitIndex + UInt64.ofNat i) % 8 ≤ 7 := by
      rw [UInt64.le_iff_toNat_le, show (7 : UInt64).toNat = 7 from rfl]
      omega
    rw [UInt64.toNat_toUInt8, UInt64.toNat_sub_of_le _ _ hle, hmod, UInt8.toNat_ofNat',
      show (7 : UInt64).toNat = 7 from rfl]
  unfold readBit
  rw [addU64_eq hsum]
  show (match bits[((bitIndex + UInt64.ofNat i) / 8).toNat]? with
    | none => _
    | some byte => _) = _
  rw [hindex, getElem?_eq_getElem hbyte]
  dsimp only
  rw [hplace, pushBit_eq _ _ (by omega)]
  unfold bitAt
  rw [getD_eq_getElem _ _ hbyte]

/-- **The loop reads the number of the entry**, as far as a `u64` holds it. -/
theorem foldlM_readBit_eq (h64 : 8 * bits.length < 2 ^ 64) {length : ℕ}
    (hlength : bitIndex.toNat + length ≤ 8 * bits.length) :
    (range length).foldlM (readBit profile bits bitIndex) 0 =
      .ok (UInt64.ofNat (number bits bitIndex.toNat length)) := by
  induction length with
  | zero => rfl
  | succ length ih =>
    rw [range_succ, foldlM_append, ih (by omega)]
    show ([length].foldlM (readBit profile bits bitIndex) _ : Outcome UInt64) = _
    rw [foldlM_cons, readBit_eq h64 (by omega), number]
    show Except.ok _ = Except.ok _
    congr 1
    refine UInt64.toNat_inj.1 ?_
    rw [UInt64.toNat_ofNat', UInt64.toNat_ofNat', UInt64.toNat_ofNat']
    omega

theorem ofNat_number_eq_zero_iff (bits : List UInt8) (start length : ℕ) :
    UInt64.ofNat (number bits start length) = 0 ↔
      ∀ i < length, length ≤ i + 64 → bitAt bits (start + i) = false := by
  have hzero : UInt64.ofNat (number bits start length) = 0 ↔
      number bits start length % 2 ^ 64 = 0 := by
    rw [← UInt64.toNat_inj]
    rfl
  rw [hzero]
  rcases Nat.le_total length 64 with hle | hle
  · have hlt := Nat.lt_of_lt_of_le (number_lt bits start length)
      (Nat.pow_le_pow_right (by decide) hle)
    rw [Nat.mod_eq_of_lt hlt, number_eq_zero_iff]
    exact forall_congr' fun i => forall_congr' fun _ => ⟨fun hbit _ => hbit, fun h => h (by omega)⟩
  · obtain ⟨high, rfl⟩ : ∃ high, length = high + 64 := ⟨length - 64, by omega⟩
    rw [number_add, Nat.mul_add_mod_self_right,
      Nat.mod_eq_of_lt (number_lt _ _ _), number_eq_zero_iff]
    constructor
    · intro h i hi hlast
      have hbit := h (i - high) (by omega)
      rwa [show start + high + (i - high) = start + i by omega] at hbit
    · intro h i hi
      rw [Nat.add_assoc]
      exact h (high + i) (by omega) (by omega)

end

/-! ## Reading and deciding -/

section

variable {profile : Profile} {bits : Bitstring} {index : UInt64} {statusSize : UInt8}

theorem readStatusBit_eq (h : Unwrapped bits index statusSize) :
    readStatusBit profile bits index statusSize =
      if (UInt64.ofNat bits.1.length * 8) < index * (max statusSize 1).toUInt64 +
          (max statusSize 1).toUInt64 then
        .error (.error (.outOfRange index (UInt64.ofNat bits.1.length * 8)))
      else (range (max statusSize 1).toUInt64.toNat).foldlM
        (readBit profile bits.1 (index * (max statusSize 1).toUInt64)) 0 := by
  obtain ⟨hentry, hlength⟩ := h
  have hmul : index.toNat * (max statusSize 1).toUInt64.toNat +
      (max statusSize 1).toUInt64.toNat < 2 ^ 64 := by
    rw [toNat_width, ← Nat.succ_mul]
    exact hentry
  have hplace : index.toNat * (max statusSize 1).toUInt64.toNat < 2 ^ 64 := by omega
  have htotal : (UInt64.ofNat bits.1.length).toNat * (8 : UInt64).toNat < 2 ^ 64 := by
    rw [toNat_length, Nat.mul_comm]
    exact hlength
  unfold readStatusBit
  dsimp only [bind, Except.bind]
  rw [mulU64_eq hplace, mulU64_eq htotal]
  dsimp only
  rw [addU64_eq (by rwa [toNat_mul_of_lt hplace])]

theorem totalBits_lt_iff (h : Unwrapped bits index statusSize) :
    (UInt64.ofNat bits.1.length * 8) < index * (max statusSize 1).toUInt64 +
      (max statusSize 1).toUInt64 ↔ ¬ InRange bits index statusSize := by
  obtain ⟨hentry, hlength⟩ := h
  rw [Nat.succ_mul] at hentry
  have hplace : index.toNat * (max statusSize 1).toUInt64.toNat < 2 ^ 64 := by
    rw [toNat_width]
    omega
  have htotal : (UInt64.ofNat bits.1.length).toNat * (8 : UInt64).toNat < 2 ^ 64 := by
    rw [toNat_length, Nat.mul_comm]
    exact hlength
  have hafter : (index * (max statusSize 1).toUInt64).toNat +
      (max statusSize 1).toUInt64.toNat < 2 ^ 64 := by
    rwa [toNat_mul_of_lt hplace, toNat_width]
  rw [UInt64.lt_iff_toNat_lt, toNat_add_of_lt hafter, toNat_mul_of_lt hplace,
    toNat_mul_of_lt htotal, toNat_width, toNat_length, show (8 : UInt64).toNat = 8 from rfl,
    InRange, Nat.succ_mul, Nat.not_le, Nat.mul_comm 8]

theorem readStatusBit_outOfRange (h : Unwrapped bits index statusSize)
    (hrange : ¬ InRange bits index statusSize) :
    readStatusBit profile bits index statusSize =
      .error (.error (.outOfRange index (UInt64.ofNat bits.1.length * 8))) := by
  rw [readStatusBit_eq h, if_pos ((totalBits_lt_iff h).2 hrange)]

theorem readStatusBit_inRange (h : Unwrapped bits index statusSize)
    (hrange : InRange bits index statusSize) :
    readStatusBit profile bits index statusSize = .ok (UInt64.ofNat
      (number bits.1 (index.toNat * width statusSize) (width statusSize))) := by
  have hplace : (index * (max statusSize 1).toUInt64).toNat = index.toNat * width statusSize := by
    have hentry := h.1
    rw [Nat.succ_mul] at hentry
    rw [toNat_mul_of_lt (by rw [toNat_width]; omega), toNat_width]
  have hend : index.toNat * width statusSize + width statusSize ≤ 8 * bits.1.length := by
    rw [← Nat.succ_mul]
    exact hrange
  rw [readStatusBit_eq h, if_neg fun hlt => (totalBits_lt_iff h).1 hlt hrange, toNat_width,
    foldlM_readBit_eq h.2 (by rwa [hplace]), hplace]

theorem readStatusBit_wraps (h : ¬ Unwrapped bits index statusSize) :
    readStatusBit .dev bits index statusSize = .error .panicked := by
  unfold readStatusBit
  dsimp only [bind, Except.bind]
  by_cases hplace : index.toNat * (max statusSize 1).toUInt64.toNat < 2 ^ 64
  · rw [mulU64_eq hplace]
    by_cases htotal : (UInt64.ofNat bits.1.length).toNat * (8 : UInt64).toNat < 2 ^ 64
    · rw [mulU64_eq htotal]
      dsimp only
      rw [addU64_dev]
      rw [toNat_mul_of_lt hplace, toNat_width, ← Nat.succ_mul]
      rw [toNat_length, Nat.mul_comm] at htotal
      exact Nat.le_of_not_lt fun hlt => h ⟨hlt, htotal⟩
    · rw [mulU64_dev (Nat.le_of_not_lt htotal)]
  · rw [mulU64_dev (Nat.le_of_not_lt hplace)]

theorem readStatusBit_ne_panicked_iff :
    readStatusBit .dev bits index statusSize ≠ .error .panicked ↔
      Unwrapped bits index statusSize := by
  constructor
  · intro h
    by_contra hwraps
    exact h (readStatusBit_wraps hwraps)
  · intro h
    by_cases hrange : InRange bits index statusSize
    · rw [readStatusBit_inRange h hrange]
      exact fun heq => nomatch heq
    · rw [readStatusBit_outOfRange h hrange]
      exact fun heq => nomatch heq

theorem value_eq_zero_iff (bits : Bitstring) (index : UInt64) (statusSize : UInt8) :
    (UInt64.ofNat (number bits.1 (index.toNat * width statusSize)
      (width statusSize)) = 0 ↔ AllZero bits index statusSize) ↔
      KeepsSetBit bits index statusSize := by
  rw [ofNat_number_eq_zero_iff]
  constructor
  · intro h
    by_cases hzero : AllZero bits index statusSize
    · exact .inl hzero
    · refine .inr (by_contra fun hnone => hzero (h.1 fun i hi hlast => ?_))
      exact Bool.eq_false_of_not_eq_true fun hbit => hnone ⟨i, hi, hlast, hbit⟩
  · rintro (hzero | ⟨i, hi, hlast, hbit⟩)
    · exact ⟨fun _ => hzero, fun _ i hi _ => hzero i hi⟩
    · constructor
      · intro h
        exact absurd (h i hi hlast) (by rw [entryBit] at hbit; simp [hbit])
      · intro h
        exact absurd (h i hi) (by simp [hbit])

variable {host : Host} {entry : CredentialStatusEntry} {statusListCredential : Json}

theorem checkStatus_eq (h : Queries host entry statusListCredential bits index statusSize) :
    checkStatus host profile entry statusListCredential =
      (readStatusBit profile bits index statusSize).map
        fun value => if value = 0 then .active else .set := by
  obtain ⟨encoded, hencoded, hlist⟩ := h.list
  unfold checkStatus
  dsimp only [bind, Except.bind]
  rw [hencoded]
  dsimp only
  rw [hlist]
  dsimp only
  rw [toBitstring, dif_pos bits.2]
  rw [h.index, h.size]
  dsimp only
  cases readStatusBit profile bits index statusSize with
  | error e | ok value => rfl

theorem checkStatus_active_iff (hunwrapped : Unwrapped bits index statusSize)
    (hrange : InRange bits index statusSize)
    (h : Queries host entry statusListCredential bits index statusSize) :
    checkStatus host profile entry statusListCredential = .ok .active ↔
      UInt64.ofNat (number bits.1 (index.toNat * width statusSize) (width statusSize)) = 0 := by
  rw [checkStatus_eq h, readStatusBit_inRange hunwrapped hrange, Except.map]
  split
  · next hzero => exact iff_of_true rfl hzero
  · next hset => exact iff_of_false (fun heq => nomatch heq) hset

end

section

/-- A list that a credential can carry: `gunzip` gives it back. -/
def listHost (bits : Bitstring) : Host where
  decodeUrlSafe _ := .ok []
  gunzip := some fun _ => .ok bits.1

def listCredential : Json :=
  .object [("credentialSubject", .object [("encodedList", .string "")])]

theorem listHost_queries (bits : Bitstring) (index : UInt64) (statusSize : UInt8) :
    Queries (listHost bits) ⟨.number index, statusSize⟩ listCredential bits index statusSize :=
  ⟨⟨"", by decide, rfl⟩, rfl, rfl⟩

/-- **Entries are read exactly if nothing wraps and the last 64 bits show a set bit.** -/
theorem readsExactly_iff (bits : Bitstring) (index : UInt64) (statusSize : UInt8) :
    ReadsExactly bits index statusSize ↔ Unwrapped bits index statusSize ∧
      (InRange bits index statusSize → KeepsSetBit bits index statusSize) := by
  constructor
  · intro h
    have hunwrapped := readStatusBit_ne_panicked_iff.1 h.noWrap
    refine ⟨hunwrapped, fun hrange => (value_eq_zero_iff bits index statusSize).1 ?_⟩
    have hqueries := listHost_queries bits index statusSize
    have hactive := @checkStatus_active_iff .dev bits _ _ _ _ _ hunwrapped hrange hqueries
    rw [← hactive]
    exact h.active hrange _ .dev _ _ hqueries
  · rintro ⟨hunwrapped, hkeeps⟩
    refine ⟨readStatusBit_ne_panicked_iff.2 hunwrapped, fun profile => ?_, ?_⟩
    · constructor
      · rintro ⟨len, hlen⟩ hrange
        rw [readStatusBit_inRange hunwrapped hrange] at hlen
        exact nomatch hlen
      · intro hrange
        exact ⟨_, readStatusBit_outOfRange hunwrapped hrange⟩
    · intro hrange host profile entry statusListCredential hqueries
      rw [checkStatus_active_iff hunwrapped hrange hqueries]
      exact (value_eq_zero_iff bits index statusSize).2 (hkeeps hrange)

/-- The product of 2^63 and 2 wraps to the first entry of the list. -/
theorem readsExactly_wraps : ¬ ∀ bits index statusSize, ReadsExactly bits index statusSize := by
  intro h
  have hrange := (h ⟨[0], by decide⟩ 9223372036854775808 2).outOfRange .release
  obtain ⟨len, hlen⟩ := hrange.2 (by unfold InRange width; decide)
  exact nomatch hlen

end

end Idiom.Vc
