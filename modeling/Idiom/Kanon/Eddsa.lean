import Idiom.Kanon.BabyJub
import Idiom.Kanon.Blake512
import Idiom.Lib.Base64
import Idiom.Lib.LittleEndian

/-!
# Signatures over leaves (`eddsa.rs`)

EdDSA on BabyJubjub, with BLAKE-512 for the keys and nonces and Poseidon for the challenge.
-/

namespace Idiom.Kanon

open LittleEndian List Edwards BabyJub

/-- How a call ends without a value: with an error, or by a panic. -/
inductive Abort where
  | error (e : KanonError)
  | panicked
  deriving DecidableEq

def orPanic {α : Type} (x : Option α) : Except Abort α := x.elim (.error .panicked) .ok

def orAbort {α : Type} (x : Except KanonError α) : Except Abort α := x.mapError .error

/-! ## Keys -/

/-- A signature over a leaf. -/
structure KanonZkSignature where
  r8x : ℕ
  r8y : ℕ
  s : ℕ
  deriving DecidableEq

structure KanonZkIssuerKey where
  privateKeyHex : String
  ax : ℕ
  ay : ℕ

/-- Clear the low three bits and the top bit, set bit 254. -/
def prune (buf32 : List UInt8) : List UInt8 :=
  (buf32.modify 0 (· &&& 0xF8)).modify 31 fun b => b &&& 0x7F ||| 0x40

section

variable (host : Host)

/-- A private key of 32 bytes in hex, with or without `0x`. -/
def parsePriv (privateKeyHex : String) : Except KanonError Bytes32 :=
  let s := ((Mediation.stripPrefix "0x" privateKeyHex).orElse fun _ =>
    Mediation.stripPrefix "0X" privateKeyHex).getD privateKeyHex
  match Hex.decode s with
  | .error e => .error (.invalid ("private key hex: " ++ host.showHexError e))
  | .ok raw =>
    if h : raw.length = 32 then .ok ⟨raw, h⟩
    else .error (.invalid "private key must be 32 bytes")

/-- Normalise to `0x<64 hex>`. -/
def normalizePrivHex (privateKeyHex : String) : String :=
  let lower := privateKeyHex.toLower
  if (Mediation.stripPrefix "0x" lower).isSome then lower else "0x" ++ lower

def secretScalar (sk : Bytes32) : ℕ :=
  number (prune ((Blake512.blake512 sk.1).take 32))

def restoreIssuerKey (privateKeyHex : String) : Except Abort KanonZkIssuerKey := do
  let sk ← orAbort (parsePriv host privateKeyHex)
  let s := secretScalar sk
  let a ← orPanic (mul base8 (s / 8))
  .ok ⟨normalizePrivHex privateKeyHex, a.x.val, a.y.val⟩

/-! ## Signing and verifying -/

/-- `r = BLAKE-512(h[32:64] || msg_LE_32) mod SUB_ORDER`. -/
def nonce (sk : Bytes32) (leaf : Fr) : ℕ :=
  number (Blake512.blake512 (((Blake512.blake512 sk.1).drop 32).take 32 ++
    bytes 32 leaf.val)) % subOrder

def signPoseidon (privateKeyHex : String) (leaf : Fr) : Except Abort KanonZkSignature := do
  let sk ← orAbort (parsePriv host privateKeyHex)
  let s := secretScalar sk
  let aPoint ← orPanic (mul base8 (s / 8))
  let r := nonce sk leaf
  let r8 ← orPanic (mul base8 r)
  let c ← orAbort (poseidonHash host [r8.x, r8.y, aPoint.x, aPoint.y, leaf])
  .ok ⟨r8.x.val, r8.y.val, (r + c.val * s) % subOrder⟩

def pointFromBiguints (x y : ℕ) : Point := ⟨Fin.ofNat bn254Prime x, Fin.ofNat bn254Prime y⟩

/-- Verify a Mode B signature; `none` is a panic. -/
def verifyPoseidon (publicKey : ℕ × ℕ) (leaf : Fr) (sig : KanonZkSignature) : Option Bool :=
  if subOrder ≤ sig.s then some false
  else if sig.s = 0 then some false
  else
    let r8 := pointFromBiguints sig.r8x sig.r8y
    let a := pointFromBiguints publicKey.1 publicKey.2
    if r8 = .neutral then some false
    else if a = .neutral then some false
    else if !BabyJub.inCurve r8 then some false
    else if !BabyJub.inCurve a then some false
    else
      match poseidonHash host [r8.x, r8.y, a.x, a.y, leaf] with
      | .error _ => some false
      | .ok c => do
        let pLeft ← mul base8 sig.s
        let coeff := c.val * 8 % order
        let pRightTerm ← mul a coeff
        let pRight ← add r8 pRightTerm
        some (pLeft = pRight)

/-! ## The wire form -/

/-- 32 big-endian bytes, left-zero-padded. -/
def biguintToBe32 (v : ℕ) : List UInt8 := (bytes 32 v).reverse

/-- Pack `(R8x, R8y, S)` as 96 big-endian bytes, then base64. -/
def encodeZkSignature (sig : KanonZkSignature) : String :=
  Base64.encodeStandard (biguintToBe32 sig.r8x ++ biguintToBe32 sig.r8y ++ biguintToBe32 sig.s)

/-- Inverse of `encodeZkSignature`; `base64Error` is the text of the decoder's error. -/
def decodeZkSignature (base64Error : String → String) (value : String) :
    Except KanonError KanonZkSignature :=
  match Base64.decodeStandard value with
  | none => .error (.invalid ("kanonZkSig base64: " ++ base64Error value))
  | some buf =>
    if buf.length ≠ 96 then
      .error (.invalid ("expected 96 bytes, got " ++ toString buf.length))
    else
      let fromBe (bytes : List UInt8) : ℕ := number bytes.reverse
      .ok ⟨fromBe (buf.take 32), fromBe ((buf.drop 32).take 32), fromBe ((buf.drop 64).take 32)⟩

/-- Every part of the signature fits its 32 bytes. -/
structure KanonZkSignature.Fits (sig : KanonZkSignature) : Prop where
  r8x : sig.r8x < 256 ^ 32
  r8y : sig.r8y < 256 ^ 32
  s : sig.s < 256 ^ 32

theorem fits_of_lt (r8 : Point) {s : ℕ} (hs : s < subOrder) :
    KanonZkSignature.Fits ⟨r8.x.val, r8.y.val, s⟩ := by
  have hsub : subOrder < 256 ^ 32 := by decide
  have hprime : bn254Prime < 256 ^ 32 := by decide
  exact ⟨r8.x.isLt.trans hprime, r8.y.isLt.trans hprime, hs.trans hsub⟩

theorem decode_encodeZkSignature {sig : KanonZkSignature} (h : sig.Fits)
    (base64Error : String → String) :
    decodeZkSignature base64Error (encodeZkSignature sig) = .ok sig := by
  have hlength : ∀ v, (biguintToBe32 v).length = 32 := fun v => by simp [biguintToBe32]
  have hread : ∀ v, v < 256 ^ 32 → number (biguintToBe32 v).reverse = v := by
    intro v hv
    rw [biguintToBe32, reverse_reverse, number_bytes_of_lt hv]
  unfold decodeZkSignature encodeZkSignature
  rw [Base64.decodeStandard_encodeStandard]
  simp [drop_append, hlength, hread _ h.r8x, hread _ h.r8y, hread _ h.s,
    drop_eq_nil_of_le, take_of_length_le]

/-! ## Honest signatures -/

theorem eight_dvd_number_prune (buf : List UInt8) : 8 ∣ number (prune buf) := by
  cases buf with
  | nil => exact Nat.dvd_zero 8
  | cons b l =>
    have hlow : (b &&& 0xF8).toNat % 8 = 0 := by
      rw [UInt8.toNat_and, show 8 = 2 ^ 3 from rfl, Nat.and_mod_two_pow]
      exact Nat.and_zero _
    have hhead : ∃ rest, prune (b :: l) = (b &&& 0xF8) :: rest := ⟨_, rfl⟩
    obtain ⟨rest, hrest⟩ := hhead
    rw [hrest, number]
    omega

theorem pointFromBiguints_val (p : Point) : pointFromBiguints p.x.val p.y.val = p := by
  obtain ⟨x, y⟩ := p
  simp [pointFromBiguints, Fin.ofNat, Nat.mod_eq_of_lt x.isLt, Nat.mod_eq_of_lt y.isLt]

section

variable {B : Point curve} (hB : base8.Is B)

include hB

theorem mod_subOrder_nsmul (n : ℕ) : (n % subOrder) • B = n • B := by
  conv_rhs => rw [← Nat.div_add_mod n subOrder, add_nsmul, mul_comm, mul_nsmul',
    subOrder_nsmul hB, nsmul_zero, zero_add]

theorem nsmul_eq_zero_iff (n : ℕ) : n • B = 0 ↔ subOrder ∣ n := by
  have horder : addOrderOf B = subOrder := by
    have hprime : Fact subOrder.Prime := ⟨prime_subOrder⟩
    refine addOrderOf_eq_prime (subOrder_nsmul hB) ?_
    rintro rfl
    have hneutral := hB.unique neutral_is
    revert hneutral
    decide +kernel
  rw [← horder, addOrderOf_dvd_iff_nsmul_eq_zero]

theorem verifyPoseidon_iff {r8 a : Point} {R A : Point curve} (hr : r8.Is R)
    (ha : a.Is A) {leaf c : Fr} (hc : poseidonHash host [r8.x, r8.y, a.x, a.y, leaf] = .ok c)
    (s : ℕ) :
    verifyPoseidon host (a.x.val, a.y.val) leaf ⟨r8.x.val, r8.y.val, s⟩ = some true ↔
      s < subOrder ∧ s ≠ 0 ∧ R ≠ 0 ∧ A ≠ 0 ∧
        s • B = R + (c.val * 8 % order) • A := by
  have hneutral : ∀ {p : Point} {P : Point curve}, p.Is P → (p = .neutral ↔ P = 0) := by
    intro p P hp
    constructor
    · rintro rfl
      exact hp.inj neutral_is
    · rintro rfl
      exact hp.unique neutral_is
  obtain ⟨left, hleft, hleft'⟩ := hB.mul s
  obtain ⟨term, hterm, hterm'⟩ := ha.mul (c.val * 8 % order)
  obtain ⟨right, hright, hright'⟩ := hr.add hterm'
  have heq : left = right ↔ s • B = R + (c.val * 8 % order) • A := by
    constructor
    · rintro rfl
      exact hleft'.inj hright'
    · intro h
      exact hleft'.unique (h ▸ hright')
  have hr8 := hneutral hr
  have ha' := hneutral ha
  unfold verifyPoseidon
  dsimp only
  rw [pointFromBiguints_val, pointFromBiguints_val, (inCurve_iff r8).2 ⟨R, hr⟩,
    (inCurve_iff a).2 ⟨A, ha⟩, hc]
  by_cases hs : subOrder ≤ s
  · simp [hs]
  · by_cases hzero : s = 0
    · simp [hzero]
    · by_cases hR : R = 0
      · simp [hr8.2 hR, hR, hs]
      · by_cases hA : A = 0
        · simp [ha'.2 hA, hA, hs]
        · simp [mt hr8.1 hR, mt ha'.1 hA, hR, hA, hs, hzero, Nat.lt_of_not_le hs, hleft, hterm,
            hright, heq]

/-- What an honest signer computes: a nonce, and a key that is eight times another. -/
theorem signature_eq {r s c : ℕ} (hs : 8 ∣ s) :
    ((r + c * s) % subOrder) • B = r • B + (c * 8 % order) • (s / 8) • B := by
  obtain ⟨k, rfl⟩ := hs
  have horder : order = 8 * subOrder := by decide
  have hkey : order • (k • B) = 0 := by
    rw [horder, ← mul_nsmul', mul_assoc, mul_comm, mul_assoc, mul_nsmul,
      subOrder_nsmul hB, nsmul_zero]
  have hmod : (c * 8 % order) • (k • B) = (c * 8) • (k • B) := by
    conv_rhs => rw [← Nat.div_add_mod (c * 8) order, add_nsmul, mul_comm, mul_nsmul',
      hkey, nsmul_zero, zero_add]
  rw [mod_subOrder_nsmul hB, Nat.mul_div_cancel_left k (by decide), hmod, add_nsmul,
    ← mul_nsmul', mul_assoc]

end

theorem signPoseidon_eq {privateKeyHex : String} {sk : Bytes32}
    (hkey : parsePriv host privateKeyHex = .ok sk) (leaf : Fr) {B : Point curve} (hB : base8.Is B) :
    ∃ (a r8 : Point) (c : Fr), a.Is ((secretScalar sk / 8) • B) ∧ r8.Is (nonce sk leaf • B) ∧
      poseidonHash host [r8.x, r8.y, a.x, a.y, leaf] = .ok c ∧
      restoreIssuerKey host privateKeyHex = .ok ⟨normalizePrivHex privateKeyHex, a.x.val, a.y.val⟩ ∧
      signPoseidon host privateKeyHex leaf = .ok ⟨r8.x.val, r8.y.val,
        (nonce sk leaf + c.val * secretScalar sk) % subOrder⟩ := by
  obtain ⟨a, ha, ha'⟩ := hB.mul (secretScalar sk / 8)
  obtain ⟨r8, hr, hr'⟩ := hB.mul (nonce sk leaf)
  obtain ⟨c, hc⟩ := @poseidonHash_ok host [r8.x, r8.y, a.x, a.y, leaf] (by simp) (by simp)
  refine ⟨a, r8, c, ha', hr', hc, ?_, ?_⟩
  · unfold restoreIssuerKey
    rw [hkey]
    simp only [orAbort, Except.mapError, bind, Except.bind, ha, orPanic, Option.elim]
  · unfold signPoseidon
    rw [hkey]
    simp only [orAbort, Except.mapError, bind, Except.bind, ha, hr, hc, orPanic, Option.elim]

theorem signPoseidon_accepted {privateKeyHex : String} {sk : Bytes32}
    (hkey : parsePriv host privateKeyHex = .ok sk) (leaf : Fr) : ∃ key sig,
      restoreIssuerKey host privateKeyHex = .ok key ∧
      signPoseidon host privateKeyHex leaf = .ok sig ∧
      (∀ base64Error, decodeZkSignature base64Error (encodeZkSignature sig) = .ok sig) ∧
      (verifyPoseidon host (key.ax, key.ay) leaf sig = some true ↔
        nonce sk leaf ≠ 0 ∧ sig.s ≠ 0 ∧ pointFromBiguints key.ax key.ay ≠ .neutral) := by
  obtain ⟨B, hB⟩ := base8_is
  obtain ⟨a, r8, c, ha, hr, hc, hrestore, hsign⟩ := signPoseidon_eq host hkey leaf hB
  have hlt : (nonce sk leaf + c.val * secretScalar sk) % subOrder < subOrder :=
    Nat.mod_lt _ (by decide)
  refine ⟨_, _, hrestore, hsign, fun base64Error =>
    decode_encodeZkSignature (fits_of_lt r8 hlt) base64Error, ?_⟩
  have hnonce : nonce sk leaf • B ≠ 0 ↔ nonce sk leaf ≠ 0 := by
    rw [Ne, nsmul_eq_zero_iff hB]
    refine not_congr ⟨fun hdvd => ?_, fun hzero => hzero ▸ dvd_zero _⟩
    exact Nat.eq_zero_of_dvd_of_lt hdvd (Nat.mod_lt _ (by decide))
  have hpublic : (secretScalar sk / 8) • B ≠ 0 ↔ pointFromBiguints a.x.val a.y.val ≠ .neutral := by
    rw [pointFromBiguints_val]
    refine not_congr ⟨fun hzero => ?_, ?_⟩
    · rw [hzero] at ha
      exact ha.unique neutral_is
    · rintro rfl
      exact ha.inj neutral_is
  rw [verifyPoseidon_iff host hB hr ha hc, hnonce, hpublic]
  have hequation := signature_eq hB (r := nonce sk leaf) (c := c.val)
    (eight_dvd_number_prune ((Blake512.blake512 sk.1).take 32))
  exact ⟨fun h => ⟨h.2.2.1, h.2.1, h.2.2.2.1⟩, fun h => ⟨hlt, h.2.1, h.1, h.2.2, hequation⟩⟩

/-- **Honest signatures verify**: where the nonce and the response are not zero and the public point
is not neutral, the signature that was written and read back is accepted. -/
theorem verifyPoseidon_signPoseidon {privateKeyHex : String} {sk : Bytes32}
    (hkey : parsePriv host privateKeyHex = .ok sk) (leaf : Fr) (base64Error : String → String) :
    ∃ key sig, restoreIssuerKey host privateKeyHex = .ok key ∧
      signPoseidon host privateKeyHex leaf = .ok sig ∧
      (nonce sk leaf ≠ 0 → sig.s ≠ 0 → pointFromBiguints key.ax key.ay ≠ .neutral →
        ∃ sig', decodeZkSignature base64Error (encodeZkSignature sig) = .ok sig' ∧
          verifyPoseidon host (key.ax, key.ay) leaf sig' = some true) := by
  obtain ⟨key, sig, hrestore, hsign, hread, haccept⟩ := signPoseidon_accepted host hkey leaf
  exact ⟨key, sig, hrestore, hsign, fun hnonce hs hpublic =>
    ⟨sig, hread base64Error, haccept.2 ⟨hnonce, hs, hpublic⟩⟩⟩

end

namespace Sample

/-- A host whose Poseidon tables keep the first lane at one. -/
def plainHost : Host where
  keccak256 _ := zero32
  c := replicate 16 [1]
  m := replicate 16 [[1]]
  showHexError _ := "hex"

def plainKey : String := "0x0101010101010101010101010101010101010101010101010101010101010101"

def plainSecret : Bytes32 := ⟨replicate 32 1, rfl⟩

theorem foldl_mix (state : List Fr) (l : List ℕ) (acc : Fr) :
    l.foldl (fun acc j => acc + [1].getD (j + 1) 0 * state.getD (j + 1) 0) acc = acc := by
  induction l generalizing acc with
  | nil => rfl
  | cons j l ih => simp

theorem poseidonRound_cons (t nRp r : ℕ) (x : Fr) (rest : List Fr) : ∃ rest',
    poseidonRound [1] [[1]] (t + 1) nRp (x :: rest) r =
      pow5 (x + if r = 0 then 1 else 0) :: rest' := by
  have hhead : ∃ rest', sBox nRp r ((x :: rest).mapIdx fun i x =>
      x + [1].getD (r * (t + 1) + i) 0) = pow5 (x + if r = 0 then 1 else 0) :: rest' := by
    cases r <;> simp [sBox, mapIdx_cons] <;> split_ifs <;> simp
  obtain ⟨rest', hhead⟩ := hhead
  unfold poseidonRound
  rw [hhead, range_succ_eq_map, map_cons]
  refine ⟨_, congrArg (· :: _) ?_⟩
  rw [foldl_cons, foldl_map]
  refine (foldl_mix _ _ _).trans ?_
  simp

theorem poseidonHash_plainHost {inputs : List Fr} {c : Fr}
    (h : poseidonHash plainHost inputs = .ok c) : c = 1 := by
  unfold poseidonHash poseidonHashWithState at h
  dsimp only at h
  split_ifs at h with hpos hlength
  have hone : ∀ n, ∃ rest, (range (n + 1)).foldl (poseidonRound [1] [[1]] (inputs.length + 1)
      (nRoundsP.getD (inputs.length + 1 - 2) 0)) (0 :: inputs) = 1 :: rest := by
    intro n
    induction n with
    | zero => simpa [pow5] using poseidonRound_cons inputs.length _ 0 0 inputs
    | succ n ih =>
      obtain ⟨rest, hrest⟩ := ih
      rw [range_succ, foldl_append, hrest]
      simpa [pow5] using poseidonRound_cons inputs.length _ (n + 1) 1 rest
  have hlt : inputs.length + 1 - 2 < 16 := by
    have hlength : ¬ 16 < inputs.length := hlength
    omega
  have hget : ∀ {α : Type} (x d : α), (replicate 16 x).getD (inputs.length + 1 - 2) d = x := by
    intro α x d
    rw [getD_eq_getElem?_getD, getElem?_replicate, if_pos hlt]
    rfl
  obtain ⟨rest, hrest⟩ := hone (7 + nRoundsP.getD (inputs.length + 1 - 2) 0)
  rw [← Except.ok.inj h, show plainHost.c = replicate 16 [1] from rfl, hget,
    show plainHost.m = replicate 16 [[1]] from rfl, hget, show nRoundsF = 7 + 1 from rfl,
    Nat.add_right_comm, hrest]
  rfl

variable {privateKeyHex : String} {sk : Bytes32} {leaf : Fr} {key : KanonZkIssuerKey}
  {sig : KanonZkSignature}

theorem nonzero_plainHost (hkey : parsePriv plainHost privateKeyHex = .ok sk)
    (hsecret : ¬ subOrder ∣ secretScalar sk / 8)
    (hresponse : (nonce sk leaf + 1 * secretScalar sk) % subOrder ≠ 0)
    (hrestore : restoreIssuerKey plainHost privateKeyHex = .ok key)
    (hsign : signPoseidon plainHost privateKeyHex leaf = .ok sig) :
    sig.s ≠ 0 ∧ pointFromBiguints key.ax key.ay ≠ .neutral := by
  obtain ⟨B, hB⟩ := base8_is
  obtain ⟨a, r8, c, ha, -, hc, hrestore', hsign'⟩ := signPoseidon_eq plainHost hkey leaf hB
  obtain rfl := Except.ok.inj (hrestore'.symm.trans hrestore)
  obtain rfl := Except.ok.inj (hsign'.symm.trans hsign)
  constructor
  · rw [poseidonHash_plainHost hc]
    exact hresponse
  · intro hneutral
    rw [pointFromBiguints_val] at hneutral
    rw [hneutral] at ha
    exact hsecret ((nsmul_eq_zero_iff hB _).1 (ha.inj neutral_is))

end Sample

open Sample

/-- The key of ones: neither its nonce nor its scalar is zero. -/
theorem verifyPoseidon_signPoseidon_plain : ∃ key sig sig',
    restoreIssuerKey plainHost plainKey = .ok key ∧ signPoseidon plainHost plainKey 0 = .ok sig ∧
      decodeZkSignature id (encodeZkSignature sig) = .ok sig' ∧
      verifyPoseidon plainHost (key.ax, key.ay) 0 sig' = some true := by
  have hkey : parsePriv plainHost plainKey = .ok plainSecret := by decide +kernel
  have hnonce : nonce plainSecret 0 ≠ 0 := by decide +kernel
  have hresponse : (nonce plainSecret 0 + 1 * secretScalar plainSecret) % subOrder ≠ 0 := by
    decide +kernel
  obtain ⟨key, sig, hrestore, hsign, haccepted⟩ :=
    verifyPoseidon_signPoseidon plainHost hkey 0 id
  obtain ⟨hs, hpublic⟩ := nonzero_plainHost hkey (by decide +kernel) hresponse hrestore hsign
  obtain ⟨sig', hdecode, hverify⟩ := haccepted hnonce hs hpublic
  exact ⟨key, sig, sig', hrestore, hsign, hdecode, hverify⟩

end Idiom.Kanon
