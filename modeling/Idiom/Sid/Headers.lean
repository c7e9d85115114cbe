import Idiom.Lib.Indexing
import Idiom.Sid.Encodings

/-!
# Headers of identifiers (`crypto/src/sid/headers.rs`, `mod.rs`)

The three leading digits to base 125 say what an identifier is for, fourteen digits are random,
and the last is the checksum. Where the program panics a function is `none`.
-/

namespace Idiom.Sid

open Indexing (fit fit_of_lt)
open Option

/-- The digit of the given index, from the most significant on. -/
def extractDigit (sidInt index : ℕ) : UInt8 :=
  UInt8.ofNat ((fun n => n / 125)^[17 - index] sidInt % 125)

inductive Version where
  | v0
  | v1
  | v2
  | v3
  deriving DecidableEq

open Version

def Version.fromU8 (value : UInt8) : Except SidError Version :=
  match value.toNat with
  | 0 => .ok .v0
  | 1 => .ok .v1
  | 2 => .ok .v2
  | 3 => .ok .v3
  | _ => .error (.invalidVersion value)

def Version.asU8 : Version → UInt8
  | .v0 => 0
  | .v1 => 1
  | .v2 => 2
  | .v3 => 3

inductive Network where
  | mainnet
  | testnet
  | devnet
  | staging
  deriving DecidableEq

def Network.fromU8 (value : UInt8) : Except SidError Network :=
  match value.toNat with
  | 0 => .ok .mainnet
  | 1 => .ok .testnet
  | 2 => .ok .devnet
  | 3 => .ok .staging
  | v =>
    if v < 8 then .error (.invalidFormat ("Reserved network value: " ++ toString v))
    else .error (.invalidFormat ("Invalid network value: " ++ toString v))

def Network.asU8 : Network → UInt8
  | .mainnet => 0
  | .testnet => 1
  | .devnet => 2
  | .staging => 3

inductive DIDKind where
  | generic
  | person
  | organization
  | device
  | agent
  | service
  | faucet
  deriving DecidableEq

def DIDKind.fromU8 (value : UInt8) : Except SidError DIDKind :=
  match value.toNat with
  | 0 => .ok .generic
  | 1 => .ok .person
  | 2 => .ok .organization
  | 3 => .ok .device
  | 4 => .ok .agent
  | 5 => .ok .service
  | 6 => .ok .faucet
  | v =>
    if v < 125 then .error (.invalidFormat ("Reserved DID kind: " ++ toString v))
    else .error (.invalidFormat ("Invalid DID kind: " ++ toString v))

def DIDKind.asU8 : DIDKind → UInt8
  | .generic => 0
  | .person => 1
  | .organization => 2
  | .device => 3
  | .agent => 4
  | .service => 5
  | .faucet => 6

/-- A digit that stands for one of sixteen shards. -/
structure ShardId where
  value : UInt8
  value_lt : value.toNat < 125
  deriving DecidableEq

def ShardId.new (value : UInt8) : Except SidError ShardId :=
  if h : value.toNat < 125 then .ok ⟨value, h⟩
  else .error (.invalidFormat ("ShardId value too large: " ++ toString value))

def ShardId.shard (shardId : ShardId) : UInt8 := shardId.value % 16

structure SIDHeader where
  version : Version
  network : Network
  kind : DIDKind
  shardId : ShardId
  deriving DecidableEq

namespace SIDHeader

/-- The header that the three leading digits are. -/
def fromDigits (d₀ d₁ d₂ : UInt8) : Except SidError SIDHeader := do
  let version ← fromU8 (d₀ >>> 3)
  let network ← Network.fromU8 (d₀ &&& 0x07)
  let kind ← DIDKind.fromU8 d₁
  let shardId ← ShardId.new d₂
  .ok ⟨version, network, kind, shardId⟩

def toDigits (header : SIDHeader) : UInt8 × UInt8 × UInt8 :=
  (header.version.asU8 <<< 3 ||| header.network.asU8, header.kind.asU8, header.shardId.value)

def fromSidInt (sidInt : ℕ) : Except SidError SIDHeader :=
  fromDigits (extractDigit sidInt 0) (extractDigit sidInt 1) (extractDigit sidInt 2)

end SIDHeader

open SIDHeader

namespace SID

/-- `expect`, which says that the header is always valid. -/
def header (sid : SID) : Option SIDHeader := (fromSidInt sid.inner).toOption

def version (sid : SID) : Option Version := sid.header.map SIDHeader.version

def network (sid : SID) : Option Network := sid.header.map SIDHeader.network

def didKind (sid : SID) : Option DIDKind := sid.header.map kind

def shardId (sid : SID) : Option UInt8 := sid.header.map fun header => header.shardId.shard

end SID

open SID

/-! ## Digits -/

theorem iterate_div (sidInt k : ℕ) : (fun n => n / 125)^[k] sidInt = sidInt / 125 ^ k := by
  induction k with
  | zero => exact (Nat.div_one sidInt).symm
  | succ k ih => rw [Function.iterate_succ_apply', ih, Nat.div_div_eq_div_mul, pow_succ]

theorem extractDigit_eq (sidInt index : ℕ) :
    extractDigit sidInt index = UInt8.ofNat (sidInt / 125 ^ (17 - index) % 125) := by
  rw [extractDigit, iterate_div]

theorem toNat_extractDigit (sidInt index : ℕ) :
    (extractDigit sidInt index).toNat = sidInt / 125 ^ (17 - index) % 125 := by
  rw [extractDigit_eq, UInt8.toNat_ofNat']
  omega

/-! ## Whether there is a header -/

theorem Version.exists_fromU8_iff (value : UInt8) :
    (∃ version, fromU8 value = .ok version) ↔ value.toNat < 4 := by
  unfold fromU8
  generalize value.toNat = n
  rcases n with _ | _ | _ | _ | n
  iterate 4 exact iff_of_true ⟨_, rfl⟩ (by decide)
  exact iff_of_false (fun ⟨_, h⟩ => nomatch h) (by omega)

theorem Network.exists_fromU8_iff (value : UInt8) :
    (∃ network, Network.fromU8 value = .ok network) ↔ value.toNat < 4 := by
  unfold Network.fromU8
  generalize value.toNat = n
  rcases n with _ | _ | _ | _ | n
  iterate 4 exact iff_of_true ⟨_, rfl⟩ (by decide)
  refine iff_of_false ?_ (by omega)
  show ¬ ∃ network, (if n + 4 < 8 then Except.error _ else .error _) = Except.ok network
  split <;> exact fun ⟨_, h⟩ => nomatch h

theorem DIDKind.exists_fromU8_iff (value : UInt8) :
    (∃ kind, DIDKind.fromU8 value = .ok kind) ↔ value.toNat < 7 := by
  unfold DIDKind.fromU8
  generalize value.toNat = n
  rcases n with _ | _ | _ | _ | _ | _ | _ | n
  iterate 7 exact iff_of_true ⟨_, rfl⟩ (by decide)
  refine iff_of_false ?_ (by omega)
  show ¬ ∃ kind, (if n + 7 < 125 then Except.error _ else .error _) = Except.ok kind
  split <;> exact fun ⟨_, h⟩ => nomatch h

/-- The two leading digits are assigned: version, network and kind are not reserved. -/
def HasAssignedHeader (sidInt : ℕ) : Prop :=
  sidInt / 125 ^ 17 % 125 / 8 < 4 ∧ sidInt / 125 ^ 17 % 125 % 8 < 4 ∧ sidInt / 125 ^ 16 % 125 < 7

theorem toNat_shiftRight_three (d : UInt8) : (d >>> 3).toNat = d.toNat / 8 := by
  rw [UInt8.toNat_shiftRight, show (3 : UInt8).toNat % 8 = 3 from rfl, Nat.shiftRight_eq_div_pow]

theorem toNat_and_seven (d : UInt8) : (d &&& 0x07).toNat = d.toNat % 8 := by
  rw [UInt8.toNat_and, show (0x07 : UInt8).toNat = 2 ^ 3 - 1 from rfl,
    Nat.and_two_pow_sub_one_eq_mod]

theorem exists_fromSidInt_iff (sidInt : ℕ) :
    (∃ header, fromSidInt sidInt = .ok header) ↔ HasAssignedHeader sidInt := by
  have hversion := exists_fromU8_iff (extractDigit sidInt 0 >>> 3)
  have hnetwork := Network.exists_fromU8_iff (extractDigit sidInt 0 &&& 0x07)
  have hkind := DIDKind.exists_fromU8_iff (extractDigit sidInt 1)
  have hshard : (extractDigit sidInt 2).toNat < 125 := by
    rw [toNat_extractDigit]
    exact Nat.mod_lt _ (by decide)
  rw [toNat_shiftRight_three, toNat_extractDigit] at hversion
  rw [toNat_and_seven, toNat_extractDigit] at hnetwork
  rw [toNat_extractDigit] at hkind
  unfold HasAssignedHeader
  rw [← hversion, ← hnetwork, ← hkind]
  constructor
  · rintro ⟨header, h⟩
    obtain ⟨version, hversion, h⟩ := bind_eq_ok.1 h
    obtain ⟨network, hnetwork, h⟩ := bind_eq_ok.1 h
    obtain ⟨kind, hkind, -⟩ := bind_eq_ok.1 h
    exact ⟨⟨version, hversion⟩, ⟨network, hnetwork⟩, ⟨kind, hkind⟩⟩
  · rintro ⟨⟨version, hversion⟩, ⟨network, hnetwork⟩, ⟨kind, hkind⟩⟩
    refine ⟨⟨version, network, kind, ⟨_, hshard⟩⟩, ?_⟩
    unfold fromSidInt fromDigits
    rw [hversion, hnetwork, hkind, ShardId.new, dif_pos hshard]
    rfl

/-- No access to the header panics. -/
structure HeaderSafe (sid : SID) : Prop where
  header : sid.header ≠ none
  version : sid.version ≠ none
  network : sid.network ≠ none
  didKind : sid.didKind ≠ none
  shardId : sid.shardId ≠ none

theorem headerSafe_iff_hasAssignedHeader (sid : SID) :
    HeaderSafe sid ↔ HasAssignedHeader sid.inner := by
  rw [← exists_fromSidInt_iff]
  constructor
  · intro h
    have hheader := h.header
    unfold SID.header at hheader
    cases hread : fromSidInt sid.inner with
    | ok header => exact ⟨header, rfl⟩
    | error e =>
      rw [hread] at hheader
      exact absurd rfl hheader
  · rintro ⟨header, hread⟩
    have hheader : sid.header = some header := by rw [SID.header, hread]; rfl
    refine ⟨?_, ?_, ?_, ?_, ?_⟩
    · rw [hheader]
      exact some_ne_none _
    · rw [SID.version, hheader]
      exact some_ne_none _
    · rw [SID.network, hheader]
      exact some_ne_none _
    · rw [SID.didKind, hheader]
      exact some_ne_none _
    · rw [SID.shardId, hheader]
      exact some_ne_none _

/-- What an identifier is parsed from. -/
inductive Source where
  | did (text : String)
  | sanskrit (text : String)
  | english (words : List String)

def Source.parse (blake3 : Blake3) : Source → Except SidError SID
  | .did text => fromDid blake3 text
  | .sanskrit text => fromSanskrit blake3 text
  | .english words => fromEnglish blake3 words

/-- **Header access is safe** after a source was accepted exactly where its leading digits are
assigned, which the checksum does not say. -/
theorem headerSafe_iff (blake3 : Blake3) (source : Source) :
    (∀ sid, source.parse blake3 = .ok sid → HeaderSafe sid) ↔
      ∀ sid, source.parse blake3 = .ok sid → HasAssignedHeader sid.inner := by
  simp only [headerSafe_iff_hasAssignedHeader]

/-- BLAKE3 of the leading digits of an identifier with the first reserved kind. -/
def reservedHash : Blake3 := fun bytes =>
  if bytes = [0, 0, 9, 207, 32, 121, 29, 120, 133, 81, 166, 30, 227, 2, 111, 147] then
    #v[190, 162, 146, 34, 177, 236, 47, 48, 164, 80, 249, 238, 248, 172, 9, 228,
      148, 139, 22, 168, 76, 25, 48, 214, 16, 237, 45, 73, 171, 219, 15, 98]
  else Vector.replicate 32 0

/-- Its kind is the seventh, and its checksum right. -/
def reserved : SID := ⟨7 * 125 ^ 16 + 65, by decide⟩

/-- The DID of the reserved kind is accepted, and access to its header panics. -/
theorem not_headerSafe_reserved : ¬ ∀ (blake3 : Blake3) (source : Source) (sid : SID),
    source.parse blake3 = .ok sid → HeaderSafe sid := by
  intro h
  have hdid : reserved.toDid = "did:ajna:vakakakakakakakakakakakakakakakaguka" := by decide
  have hverify : verify reservedHash reserved.inner = true := by decide
  have hread : (Source.did "did:ajna:vakakakakakakakakakakakakakakakaguka").parse reservedHash =
      .ok reserved := by
    rw [← hdid]
    exact (fromDid_toDid reserved).trans (fromSanskrit_toSanskrit hverify (by decide))
  exact (h reservedHash _ reserved hread).header rfl

/-! ## Generated identifiers -/

/-- One digit more. -/
def pushDigit (sidInt digit : ℕ) : Option ℕ := do fit 128 ((← fit 128 (sidInt * 125)) + digit)

/-- The digits of the payload, from the least significant on. -/
def pushPayload : ℕ → ℕ → ℕ → Option ℕ
  | 0, _, sidInt => some sidInt
  | count + 1, n, sidInt => do pushPayload count (n / 125) (← pushDigit sidInt (n % 125))

/-- The lower 98 bits. -/
def masked (payload : ℕ) : ℕ := payload &&& 2 ^ 98 - 1

def assemble (blake3 : Blake3) (header : SIDHeader) (payload : ℕ) : Option ℕ := do
  let (d₀, d₁, d₂) := header.toDigits
  let sidInt ← pushDigit 0 d₀.toNat
  let sidInt ← pushDigit sidInt d₁.toNat
  let sidInt ← pushDigit sidInt d₂.toNat
  let sidInt ← pushPayload 14 (masked payload) sidInt
  let sidInt ← fit 128 (sidInt * 125)
  let checksum := computeChecksum blake3 sidInt
  fit 128 (sidInt + checksum.toNat)

/-- The random number is a parameter. -/
def SID.generateWithHeader (blake3 : Blake3) (random : ℕ) (header : SIDHeader) : Option SID :=
  (assemble blake3 header random).map fromU128

def SID.fromSeedWithHeader (blake3 : Blake3) (seed : List UInt8) (header : SIDHeader) :
    Option SID :=
  (assemble blake3 header (Dcx.fromBeBytes ((blake3 seed).toList.take 16))).map fromU128

/-- An identifier with a header, a payload and its checksum. -/
structure WellFormed (blake3 : Blake3) (header : SIDHeader) (payload : ℕ) (sid : SID) : Prop where
  lt : sid.inner < 125 ^ 18
  verify : verify blake3 sid.inner = true
  header : sid.header = some header
  payload : ∀ i < 14, (extractDigit sid.inner (3 + i)).toNat = masked payload / 125 ^ i % 125

theorem pushDigit_eq {sidInt digit count : ℕ} (hsidInt : sidInt < 125 ^ count) (hcount : count < 18)
    (hdigit : digit < 125) :
    pushDigit sidInt digit = some (sidInt * 125 + digit) ∧
      sidInt * 125 + digit < 125 ^ (count + 1) := by
  have hnext : sidInt * 125 + digit < 125 ^ (count + 1) := by
    rw [pow_succ]
    omega
  have hfit : 125 ^ (count + 1) < 2 ^ 128 :=
    (Nat.pow_le_pow_right (by decide) hcount).trans_lt (by decide)
  refine ⟨?_, hnext⟩
  unfold pushDigit
  rw [fit_of_lt (by omega)]
  exact fit_of_lt (by omega)

theorem pushPayload_spec (count : ℕ) {n sidInt before : ℕ} (hsidInt : sidInt < 125 ^ before)
    (hcount : before + count ≤ 18) :
    ∃ result, pushPayload count n sidInt = some result ∧ result / 125 ^ count = sidInt ∧
      result < 125 ^ (before + count) ∧
      ∀ i < count, result / 125 ^ (count - 1 - i) % 125 = n / 125 ^ i % 125 := by
  induction count generalizing n sidInt before with
  | zero => exact ⟨sidInt, rfl, Nat.div_one sidInt, hsidInt, fun i hi => by omega⟩
  | succ count ih =>
    obtain ⟨hpush, hlt⟩ := pushDigit_eq hsidInt (by omega) (Nat.mod_lt n (show 0 < 125 by decide))
    obtain ⟨result, hresult, hdiv, hbound, hdigits⟩ := ih (n := n / 125) hlt (by omega)
    refine ⟨result, ?_, ?_, ?_, ?_⟩
    · rw [pushPayload, hpush]
      exact hresult
    · rw [pow_succ, ← Nat.div_div_eq_div_mul, hdiv]
      omega
    · rwa [Nat.add_right_comm] at hbound
    · intro i hi
      cases i with
      | zero =>
        rw [Nat.add_sub_cancel, Nat.sub_zero, hdiv, pow_zero, Nat.div_one]
        omega
      | succ i =>
        rw [show count + 1 - 1 - (i + 1) = count - 1 - i by omega, hdigits i (by omega),
          Nat.div_div_eq_div_mul, pow_succ']

theorem fromDigits_toDigits (header : SIDHeader) :
    fromDigits header.toDigits.1 header.toDigits.2.1 header.toDigits.2.2 = .ok header := by
  obtain ⟨version, network, kind, shardId⟩ := header
  have hversion : fromU8 ((version.asU8 <<< 3 ||| network.asU8) >>> 3) = .ok version := by
    cases version <;> cases network <;> rfl
  have hnetwork : Network.fromU8 ((version.asU8 <<< 3 ||| network.asU8) &&& 0x07) =
      .ok network := by
    cases version <;> cases network <;> rfl
  have hkind : DIDKind.fromU8 kind.asU8 = .ok kind := by
    cases kind <;> rfl
  have hshard : ShardId.new shardId.value = .ok shardId := dif_pos shardId.value_lt
  unfold fromDigits toDigits
  dsimp only
  rw [hversion, hnetwork, hkind, hshard]
  rfl

theorem toDigits_lt (header : SIDHeader) :
    header.toDigits.1.toNat < 125 ∧ header.toDigits.2.1.toNat < 125 ∧
      header.toDigits.2.2.toNat < 125 := by
  obtain ⟨version, network, kind, shardId⟩ := header
  refine ⟨?_, ?_, shardId.value_lt⟩
  · show (version.asU8 <<< 3 ||| network.asU8).toNat < 125
    cases version <;> cases network <;> decide
  · show kind.asU8.toNat < 125
    cases kind <;> decide

theorem assemble_spec (blake3 : Blake3) (header : SIDHeader) (payload : ℕ) :
    ∃ sid, (assemble blake3 header payload).map SID.fromU128 = some sid ∧
      WellFormed blake3 header payload sid := by
  obtain ⟨hd₀, hd₁, hd₂⟩ := toDigits_lt header
  have hread := fromDigits_toDigits header
  rcases hheader : header.toDigits with ⟨d₀, d₁, d₂⟩
  rw [hheader] at hd₀ hd₁ hd₂ hread
  dsimp only at hd₀ hd₁ hd₂ hread
  obtain ⟨hpush₀, hlt₀⟩ := pushDigit_eq (pow_zero 125 ▸ Nat.zero_lt_one) (by decide) hd₀
  obtain ⟨hpush₁, hlt₁⟩ := pushDigit_eq hlt₀ (by decide) hd₁
  obtain ⟨hpush₂, hlt₂⟩ := pushDigit_eq hlt₁ (by decide) hd₂
  obtain ⟨w, hpayload, hdiv, hlt, hdigits⟩ :=
    pushPayload_spec 14 (n := masked payload) hlt₂ (by decide)
  have hchecksum := computeChecksum_lt blake3 (w * 125)
  generalize hc : (computeChecksum blake3 (w * 125)).toNat = c at hchecksum
  have hfit : w * 125 + c < 125 ^ 18 := by omega
  have hassemble : assemble blake3 header payload = some (w * 125 + c) := by
    unfold assemble
    rw [hheader]
    dsimp only
    rw [hpush₀]
    simp only [bind_eq_bind, bind_some, hpush₁, hpush₂, hpayload, hc,
      fit_of_lt (show w * 125 < 2 ^ 128 by omega), fit_of_lt (show w * 125 + c < 2 ^ 128 by omega)]
  have hinner : (SID.fromU128 (w * 125 + c)).inner = w * 125 + c :=
    Nat.mod_eq_of_lt (show w * 125 + c < 2 ^ 128 by omega)
  have hdigit : ∀ k, (w * 125 + c) / 125 ^ (k + 1) = w / 125 ^ k := fun k => by
    rw [pow_succ', ← Nat.div_div_eq_div_mul, show (w * 125 + c) / 125 = w by omega]
  refine ⟨SID.fromU128 (w * 125 + c), by rw [hassemble]; rfl, ?_, ?_, ?_, fun i hi => ?_⟩
  · rw [hinner]
    exact hfit
  · have hsame : computeChecksum blake3 (w * 125 + c) = computeChecksum blake3 (w * 125) := by
      unfold computeChecksum
      rw [show (w * 125 + c) / 125 = w * 125 / 125 by omega]
    rw [hinner, verify, hsame, decide_eq_true_eq, show (w * 125 + c) % 125 = c by omega, ← hc]
    exact UInt8.ofNat_toNat
  · have hleading : ∀ k, (w * 125 + c) / 125 ^ (15 + k) =
        (((0 * 125 + d₀.toNat) * 125 + d₁.toNat) * 125 + d₂.toNat) / 125 ^ k := fun k => by
      rw [show 15 + k = 14 + k + 1 by omega, hdigit, pow_add, ← Nat.div_div_eq_div_mul, hdiv]
    have he₀ : extractDigit (w * 125 + c) 0 = d₀ := by
      refine UInt8.toNat_inj.1 ?_
      rw [toNat_extractDigit, hleading 2]
      omega
    have he₁ : extractDigit (w * 125 + c) 1 = d₁ := by
      refine UInt8.toNat_inj.1 ?_
      rw [toNat_extractDigit, hleading 1]
      omega
    have he₂ : extractDigit (w * 125 + c) 2 = d₂ := by
      refine UInt8.toNat_inj.1 ?_
      rw [toNat_extractDigit, hleading 0]
      omega
    rw [SID.header, hinner, fromSidInt, he₀, he₁, he₂, hread]
    rfl
  · rw [hinner, toNat_extractDigit, show 17 - (3 + i) = 14 - 1 - i + 1 by omega, hdigit,
      hdigits i hi]

/-- **Generated identifiers are well formed**, whatever the header and the random payload. -/
theorem generate_spec (blake3 : Blake3) (header : SIDHeader) :
    (∀ random, ∃ sid, generateWithHeader blake3 random header = some sid ∧
      WellFormed blake3 header random sid) ∧
    ∀ seed, ∃ sid, fromSeedWithHeader blake3 seed header = some sid ∧
      WellFormed blake3 header (Dcx.fromBeBytes ((blake3 seed).toList.take 16)) sid :=
  ⟨fun random => assemble_spec blake3 header random, fun _ => assemble_spec blake3 header _⟩

end Idiom.Sid
