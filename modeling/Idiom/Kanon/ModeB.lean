import Idiom.Kanon.CanonicalJson
import Idiom.Kanon.Eddsa
import Idiom.Kanon.Zk
import Idiom.Lib.Fallible

/-!
# Mode B credentials (`registry_kanon/src/zk.rs`)

The issuer signs the leaf of a fresh id and of the attribute values; the names only say in which
order the values are hashed.
-/

namespace Idiom.Kanon

open List BabyJub Except

section

variable (host : Host)

/-- What the leaf, the signature and the verification all start from. -/
def modeBLeaf (credDefId : Bytes32) (credId : String) (attributes : List (String × String)) :
    Except KanonError Fr := do
  let attrFelts := encodeAttributesCanonical host attributes
  let padded ← padAttrsToCircuit attrFelts
  computeZkLeaf host credDefId (host.keccak256 (asBytes credId)) padded

theorem computePoseidonLeaf_eq (credDefId : Bytes32) (credId : String)
    (attributes : List (String × String)) :
    computePoseidonLeaf host credDefId credId attributes =
      (modeBLeaf host credDefId credId attributes).map feltToBytes32 := by
  simp only [computePoseidonLeaf, modeBLeaf, bind]
  cases padAttrsToCircuit (encodeAttributesCanonical host attributes) with
  | error e => rfl
  | ok padded =>
    cases computeZkLeaf host credDefId (host.keccak256 (asBytes credId)) padded <;> rfl

/-! ## Signing and verifying -/

def issuerKeyDomain : List UInt8 := asBytes "kanon-zk-issuer-key-v1"

/-- `0x || keccak256(DOMAIN || credDefId)`. -/
def issuerPrivateKeyHex (credDefId : Bytes32) : String :=
  "0x" ++ Hex.encode (host.keccak256 (issuerKeyDomain ++ credDefId.1)).1

/-- A credential id of the clock and of a counter. -/
def mintCredId (credDefId : Bytes32) (nanos ctr : ℕ) : String :=
  "0x" ++ Hex.encode (host.keccak256 (credDefId.1 ++ (LittleEndian.bytes 16 nanos).reverse ++
    (LittleEndian.bytes 8 ctr).reverse)).1

structure ModeBPrep where
  attributes : List (String × String)
  kanonCredId : String
  kanonZkSig : String

def prepareModeB (nanos ctr : ℕ) (credDefId : Bytes32) (domainAttrs : List (String × String)) :
    Except Abort ModeBPrep :=
  match domainAttrs.find? fun attr => attr.1 ∈ kanonZkReservedAttributeNames with
  | some (name, _) =>
    .error (.error (.invalid ("domain attributes must not include reserved name \"" ++ name ++
      "\"; the issuer injects them")))
  | none => do
    let kanonCredId := mintCredId host credDefId nanos ctr
    let leaf ← orAbort (modeBLeaf host credDefId kanonCredId domainAttrs)
    let sig ← signPoseidon host (issuerPrivateKeyHex host credDefId) leaf
    let kanonZkSig := encodeZkSignature sig
    .ok ⟨domainAttrs ++ [(kanonCredIdAttribute, kanonCredId), (kanonZkSigAttribute, kanonZkSig)],
      kanonCredId, kanonZkSig⟩

def verifyModeBSig (base64Error : String → String) (credDefId : Bytes32) (kanonCredId : String)
    (domainAttrs : List (String × String)) (kanonZkSigB64 : String) : Except Abort Bool := do
  let leaf ← orAbort (modeBLeaf host credDefId kanonCredId domainAttrs)
  let sig ← orAbort (decodeZkSignature base64Error kanonZkSigB64)
  let key ← restoreIssuerKey host (issuerPrivateKeyHex host credDefId)
  orPanic (verifyPoseidon host (key.ax, key.ay) leaf sig)

/-! ## What is hashed -/

def valuesByName (attributes : List (String × String)) : List String :=
  (sortFields (attributes.filter fun v => v.1 ∉ kanonZkReservedAttributeNames)).map Prod.snd

/-- The felts of the values, and zeros up to the width of the circuit. -/
def paddedFelts (attributes : List (String × String)) : List Fr :=
  let felts := (valuesByName attributes).map (attrValueToFelt host)
  felts ++ replicate (kanonZkCircuitAttrs - felts.length) 0

def leafInputs (credDefId : Bytes32) (credId : String) (attrHash : Fr) : List Fr :=
  [kanonZkLeafTag, feltFromBeBytes credDefId, attrValueToFelt host credId, attrHash]

def hashedInputs (credDefId : Bytes32) (credId : String) (attributes : List (String × String)) :
    List (List Fr) :=
  match poseidonHash host (paddedFelts host attributes) with
  | .ok attrHash => [paddedFelts host attributes, leafInputs host credDefId credId attrHash]
  | .error _ => [paddedFelts host attributes]

/-- No two texts, and no two lists of felts, that the two leaves are hashed from collide. -/
structure CollisionFree (credDefId : Bytes32) (credId credId' : String)
    (attributes attributes' : List (String × String)) : Prop where
  text : Set.InjOn (attrValueToFelt host)
    {t | t ∈ credId :: credId' :: (valuesByName attributes ++ valuesByName attributes')}
  poseidon : Set.InjOn (poseidonHash host)
    {l | l ∈ hashedInputs host credDefId credId attributes ++
      hashedInputs host credDefId credId' attributes'}

/-- One list is the other and values whose felt is the padding. -/
def Agree (values values' : List String) : Prop :=
  ∃ tail, (∀ v ∈ tail, attrValueToFelt host v = 0) ∧
    (values' = values ++ tail ∨ values = values' ++ tail)

end

/-! ## Padded lists -/

section

variable {α β : Type} {f : α → β} {z : β} {s : Set α} (hf : s.InjOn f)

include hf

theorem map_inj_of_injOn {l l' : List α} (hl : ∀ x ∈ l, x ∈ s) (hl' : ∀ x ∈ l', x ∈ s)
    (h : l.map f = l'.map f) : l = l' := by
  induction l generalizing l' with
  | nil => exact (map_eq_nil_iff.1 h.symm).symm
  | cons x l ih =>
    obtain ⟨y, m, rfl, hxy, hlm⟩ := map_eq_cons_iff.1 h.symm
    rw [forall_mem_cons] at hl hl'
    rw [hf hl'.1 hl.1 hxy, ih hl.2 hl'.2 hlm.symm]

/-- The longer of two lists that are padded to the same is the other and a tail of padding. -/
theorem pad_eq_iff_of_le {n : ℕ} {l l' : List α} (hl : ∀ x ∈ l, x ∈ s) (hl' : ∀ x ∈ l', x ∈ s)
    (hle : l.length ≤ l'.length) (hn : l'.length ≤ n) :
    l.map f ++ replicate (n - l.length) z = l'.map f ++ replicate (n - l'.length) z ↔
      ∃ tail, (∀ x ∈ tail, f x = z) ∧ l' = l ++ tail := by
  constructor
  · intro h
    obtain ⟨p, t, rfl, hp⟩ : ∃ p t, l' = p ++ t ∧ p.length = l.length :=
      ⟨l'.take l.length, l'.drop l.length, (take_append_drop _ _).symm, by simp [hle]⟩
    rw [map_append, append_assoc] at h
    obtain ⟨hhead, htail⟩ := append_inj h (by simp [hp])
    refine ⟨t, fun x hx => ?_, ?_⟩
    · exact eq_of_mem_replicate (htail ▸ mem_append_left _ (mem_map_of_mem hx))
    · rw [map_inj_of_injOn hf hl (fun x hx => hl' x (mem_append_left t hx)) hhead]
  · rintro ⟨t, ht, rfl⟩
    have hzeros : t.map f = replicate t.length z :=
      eq_replicate_iff.2 ⟨length_map _, by simpa using ht⟩
    rw [length_append] at hn ⊢
    rw [map_append, hzeros, append_assoc, replicate_append_replicate]
    congr 2
    omega

end

section

variable (host : Host)

theorem paddedFelts_eq_iff {attributes attributes' : List (String × String)} {s : Set String}
    (hf : s.InjOn (attrValueToFelt host))
    (hs : ∀ v ∈ valuesByName attributes, v ∈ s) (hs' : ∀ v ∈ valuesByName attributes', v ∈ s)
    (hsize : (valuesByName attributes).length ≤ kanonZkCircuitAttrs)
    (hsize' : (valuesByName attributes').length ≤ kanonZkCircuitAttrs) :
    paddedFelts host attributes = paddedFelts host attributes' ↔
      Agree host (valuesByName attributes) (valuesByName attributes') := by
  unfold paddedFelts Agree
  generalize valuesByName attributes = l at *
  generalize valuesByName attributes' = l' at *
  dsimp only
  rw [length_map, length_map]
  rcases le_total l.length l'.length with hle | hle
  · rw [pad_eq_iff_of_le hf hs hs' hle hsize']
    refine exists_congr fun tail => and_congr_right fun _ => ⟨.inl, ?_⟩
    rintro (h | rfl)
    · exact h
    · have htail : tail.length = 0 := by simpa using hle
      simp [length_eq_zero_iff.1 htail]
  · rw [eq_comm, pad_eq_iff_of_le hf hs' hs hle hsize]
    refine exists_congr fun tail => and_congr_right fun _ => ⟨.inr, ?_⟩
    rintro (rfl | h)
    · have htail : tail.length = 0 := by simpa using hle
      simp [length_eq_zero_iff.1 htail]
    · exact h

theorem feltToBytes32_injective : Function.Injective feltToBytes32 := by
  intro x y h
  have hbyte : ∀ k < 32, x.val / 256 ^ k % 256 = y.val / 256 ^ k % 256 := by
    intro k hk
    have hget := congrArg (fun b : Bytes32 => (b.1.getD (31 - k) 0).toNat) h
    have hk' : 31 - k < 32 := by omega
    have hsub : 31 - (31 - k) = k := by omega
    simpa [feltToBytes32, getElem?_range hk', hsub] using hget
  have hmod : ∀ k ≤ 32, x.val % 256 ^ k = y.val % 256 ^ k := by
    intro k hk
    induction k with
    | zero => rw [Nat.pow_zero, Nat.mod_one, Nat.mod_one]
    | succ k ih => rw [Nat.pow_succ, Nat.mod_mul, Nat.mod_mul, ih (by omega), hbyte k (by omega)]
  have hprime : bn254Prime < 256 ^ 32 := by decide
  have hall := hmod 32 le_rfl
  rw [Nat.mod_eq_of_lt (x.isLt.trans hprime), Nat.mod_eq_of_lt (y.isLt.trans hprime)] at hall
  exact Fin.ext hall

theorem encodeAttributesCanonical_eq (attributes : List (String × String)) :
    encodeAttributesCanonical host attributes =
      (valuesByName attributes).map (attrValueToFelt host) := by
  unfold encodeAttributesCanonical encodeAttributesCanonicalExcl valuesByName
  rw [map_map]
  rfl

section

variable (credDefId : Bytes32) {credId credId' : String}
  {attributes attributes' : List (String × String)}

theorem length_valuesByName_le (h : attributes.length ≤ kanonZkCircuitAttrs) :
    (valuesByName attributes).length ≤ kanonZkCircuitAttrs := by
  rw [valuesByName, length_map, (sortFields_perm _).length_eq]
  exact (length_filter_le _ _).trans h

theorem modeBLeaf_eq (credId : String) (h : attributes.length ≤ kanonZkCircuitAttrs) :
    ∃ attrHash, poseidonHash host (paddedFelts host attributes) = .ok attrHash ∧
      modeBLeaf host credDefId credId attributes =
        poseidonHash host (leafInputs host credDefId credId attrHash) ∧
      hashedInputs host credDefId credId attributes =
        [paddedFelts host attributes, leafInputs host credDefId credId attrHash] := by
  have hvalues := length_valuesByName_le h
  have hlength : (paddedFelts host attributes).length = kanonZkCircuitAttrs := by
    simp [paddedFelts, hvalues]
  have hsixteen : kanonZkCircuitAttrs = 16 := rfl
  obtain ⟨attrHash, hhash⟩ := @poseidonHash_ok host (paddedFelts host attributes)
    (by omega) (by omega)
  have hpad : padAttrsToCircuit (encodeAttributesCanonical host attributes) =
      .ok (paddedFelts host attributes) := by
    rw [encodeAttributesCanonical_eq]
    exact if_neg (by rw [length_map]; omega)
  refine ⟨attrHash, hhash, ?_, ?_⟩
  · simp only [modeBLeaf, hpad, bind, Except.bind, computeZkLeaf, hlength, hhash]
    rfl
  · simp only [hashedInputs, hhash]

theorem modeBLeaf_ok (credId : String) (h : attributes.length ≤ kanonZkCircuitAttrs) :
    ∃ leaf, modeBLeaf host credDefId credId attributes = .ok leaf := by
  obtain ⟨attrHash, -, hleaf, -⟩ := modeBLeaf_eq host credDefId credId h
  rw [hleaf]
  exact poseidonHash_ok host (by simp [leafInputs]) (by simp [leafInputs])

theorem modeBLeaf_eq_iff (hsize : attributes.length ≤ kanonZkCircuitAttrs)
    (hsize' : attributes'.length ≤ kanonZkCircuitAttrs)
    (hfree : CollisionFree host credDefId credId credId' attributes attributes') :
    modeBLeaf host credDefId credId attributes = modeBLeaf host credDefId credId' attributes' ↔
      credId = credId' ∧ Agree host (valuesByName attributes) (valuesByName attributes') := by
  obtain ⟨attrHash, hhash, hleaf, hinputs⟩ := modeBLeaf_eq host credDefId credId hsize
  obtain ⟨attrHash', hhash', hleaf', hinputs'⟩ := modeBLeaf_eq host credDefId credId' hsize'
  have hposeidon := hfree.poseidon
  rw [hinputs, hinputs'] at hposeidon
  have hpadded := @paddedFelts_eq_iff host attributes attributes' _ hfree.text
    (fun v hv => by simp [hv]) (fun v hv => by simp [hv])
    (length_valuesByName_le hsize) (length_valuesByName_le hsize')
  rw [hleaf, hleaf', ← hpadded]
  constructor
  · intro h
    have hsame := hposeidon (by simp) (by simp) h
    obtain ⟨hid, hattrs⟩ : attrValueToFelt host credId = attrValueToFelt host credId' ∧
        attrHash = attrHash' := by simpa [leafInputs] using hsame
    exact ⟨hfree.text (by simp) (by simp) hid,
      hposeidon (by simp) (by simp) (by rw [hhash, hhash', hattrs])⟩
  · rintro ⟨rfl, hsame⟩
    rw [hsame] at hhash
    rw [ok.inj (hhash.symm.trans hhash')]

theorem modeBLeaf_perm (credId : String) (hperm : attributes.Perm attributes')
    (hnodup : (attributes.map Prod.fst).Nodup) :
    modeBLeaf host credDefId credId attributes = modeBLeaf host credDefId credId attributes' := by
  have hsame : valuesByName attributes = valuesByName attributes' :=
    congrArg (map Prod.snd) (sortFields_eq_of_perm (hperm.filter _)
      (hnodup.sublist (filter_sublist.map Prod.fst)))
  simp only [modeBLeaf, encodeAttributesCanonical_eq, hsame]

end

/-! ## What the signature binds -/

/-- The challenge, as far as the multiples of a point of the subgroup depend on it. -/
def challenge (publicKey : ℕ × ℕ) (sig : KanonZkSignature) (leaf : Fr) : Except KanonError ℕ :=
  let r8 := pointFromBiguints sig.r8x sig.r8y
  let a := pointFromBiguints publicKey.1 publicKey.2
  (poseidonHash host [r8.x, r8.y, a.x, a.y, leaf]).map fun c => c.val % subOrder

theorem parsePriv_issuerPrivateKeyHex (credDefId : Bytes32) :
    parsePriv host (issuerPrivateKeyHex host credDefId) =
      .ok (host.keccak256 (issuerKeyDomain ++ credDefId.1)) := by
  have hmark : ∀ s, Mediation.stripPrefix "0x" ("0x" ++ s) = some s := by
    intro s
    simp [Mediation.stripPrefix]
  simp [parsePriv, issuerPrivateKeyHex, hmark, Hex.decode_encode,
    (host.keccak256 (issuerKeyDomain ++ credDefId.1)).2]

theorem challenge_eq_of_nsmul_eq {B : Edwards.Point curve} (hB : base8.Is B)
    {k c c' : ℕ} (hA : k • B ≠ 0) (h : (c * 8 % order) • k • B = (c' * 8 % order) • k • B) :
    c % subOrder = c' % subOrder := by
  have horder : addOrderOf (k • B) = subOrder := by
    have hprime : Fact subOrder.Prime := ⟨prime_subOrder⟩
    refine addOrderOf_eq_prime ?_ hA
    rw [← mul_nsmul', mul_nsmul, subOrder_nsmul hB, nsmul_zero]
  have hmod := nsmul_eq_nsmul_iff_modEq.1 h
  rw [horder] at hmod
  have hdvd : subOrder ∣ order := by decide +kernel
  have height : c * 8 ≡ c' * 8 [MOD subOrder] := by
    rw [Nat.ModEq, Nat.mod_mod_of_dvd _ hdvd, Nat.mod_mod_of_dvd _ hdvd] at hmod
    exact hmod
  exact height.cancel_right_of_coprime (by decide +kernel)

variable {credDefId : Bytes32}

theorem challenge_eq_of_verify {base64Error : String → String} {leaf leaf' : Fr}
    {sig sig' : KanonZkSignature} {key : KanonZkIssuerKey}
    (hsign : signPoseidon host (issuerPrivateKeyHex host credDefId) leaf = .ok sig)
    (hkey : restoreIssuerKey host (issuerPrivateKeyHex host credDefId) = .ok key)
    (hdecode : decodeZkSignature base64Error (encodeZkSignature sig) = .ok sig')
    (haccept : verifyPoseidon host (key.ax, key.ay) leaf' sig' = some true) :
    challenge host (key.ax, key.ay) sig' leaf = challenge host (key.ax, key.ay) sig' leaf' := by
  obtain ⟨B, hB⟩ := base8_is
  obtain ⟨a, r8, c, ha, hr, hc, hrestore, hsign'⟩ :=
    signPoseidon_eq host (parsePriv_issuerPrivateKeyHex host credDefId) leaf hB
  obtain rfl := ok.inj (hrestore.symm.trans hkey)
  obtain rfl := ok.inj (hsign'.symm.trans hsign)
  obtain rfl := ok.inj
    ((decode_encodeZkSignature (fits_of_lt r8 (Nat.mod_lt _ (by decide))) _).symm.trans hdecode)
  obtain ⟨c', hc'⟩ := @poseidonHash_ok host [r8.x, r8.y, a.x, a.y, leaf'] (by simp) (by simp)
  obtain ⟨-, -, -, hA, heq⟩ := (verifyPoseidon_iff host hB hr ha hc' _).1 haccept
  have hsigned := (signature_eq hB (eight_dvd_number_prune _)).symm.trans heq
  have hsame := challenge_eq_of_nsmul_eq hB hA (add_left_cancel hsigned)
  unfold challenge
  dsimp only
  rw [pointFromBiguints_val, pointFromBiguints_val, hc, hc', Except.map, Except.map, hsame]

theorem prepareModeB_eq_ok {nanos ctr : ℕ} {attributes : List (String × String)} {prep : ModeBPrep}
    (h : prepareModeB host nanos ctr credDefId attributes = .ok prep) :
    ∃ leaf sig, modeBLeaf host credDefId prep.kanonCredId attributes = .ok leaf ∧
      signPoseidon host (issuerPrivateKeyHex host credDefId) leaf = .ok sig ∧
      prep.kanonZkSig = encodeZkSignature sig := by
  unfold prepareModeB at h
  split at h
  · cases h
  · obtain ⟨leaf, hleaf, h⟩ := bind_eq_ok.1 h
    obtain ⟨sig, hsig, h⟩ := bind_eq_ok.1 h
    obtain rfl := ok.inj h
    exact ⟨leaf, sig, mapError_eq_ok.1 hleaf, hsig, rfl⟩

theorem verifyModeBSig_eq_true {base64Error : String → String} {credId : String}
    {attributes : List (String × String)} {value : String}
    (h : verifyModeBSig host base64Error credDefId credId attributes value = .ok true) :
    ∃ leaf sig key, modeBLeaf host credDefId credId attributes = .ok leaf ∧
      decodeZkSignature base64Error value = .ok sig ∧
      restoreIssuerKey host (issuerPrivateKeyHex host credDefId) = .ok key ∧
      verifyPoseidon host (key.ax, key.ay) leaf sig = some true := by
  obtain ⟨leaf, hleaf, h⟩ := bind_eq_ok.1 h
  obtain ⟨sig, hsig, h⟩ := bind_eq_ok.1 h
  obtain ⟨key, hkey, h⟩ := bind_eq_ok.1 h
  refine ⟨leaf, sig, key, mapError_eq_ok.1 hleaf, mapError_eq_ok.1 hsig, hkey, ?_⟩
  cases hverify : verifyPoseidon host (key.ax, key.ay) leaf sig with
  | none => rw [hverify] at h; cases h
  | some accepted => rw [hverify] at h; exact congrArg some (ok.inj h)

/-- **Binding.**  Where nothing that is hashed collides, leaves are equal for the same id and the
same values in the order of their names, and a signature is accepted for these only. The order of
the list does not matter. -/
theorem modeB_binds (credDefId : Bytes32) {credId credId' : String}
    {attributes attributes' : List (String × String)}
    (hsize : attributes.length ≤ kanonZkCircuitAttrs)
    (hsize' : attributes'.length ≤ kanonZkCircuitAttrs)
    (hfree : CollisionFree host credDefId credId credId' attributes attributes') :
    (computePoseidonLeaf host credDefId credId attributes =
        computePoseidonLeaf host credDefId credId' attributes' ↔
      credId = credId' ∧ Agree host (valuesByName attributes) (valuesByName attributes')) ∧
    (∀ nanos ctr prep base64Error,
      prepareModeB host nanos ctr credDefId attributes = .ok prep → prep.kanonCredId = credId →
      (∀ key sig, restoreIssuerKey host (issuerPrivateKeyHex host credDefId) = .ok key →
        decodeZkSignature base64Error prep.kanonZkSig = .ok sig →
        Set.InjOn (challenge host (key.ax, key.ay) sig)
          {leaf | modeBLeaf host credDefId credId attributes = .ok leaf ∨
            modeBLeaf host credDefId credId' attributes' = .ok leaf}) →
      verifyModeBSig host base64Error credDefId credId' attributes' prep.kanonZkSig = .ok true →
      credId = credId' ∧ Agree host (valuesByName attributes) (valuesByName attributes')) ∧
    (∀ listed, attributes.Perm listed → (attributes.map Prod.fst).Nodup →
      computePoseidonLeaf host credDefId credId listed =
          computePoseidonLeaf host credDefId credId attributes ∧
        ∀ base64Error sig, verifyModeBSig host base64Error credDefId credId listed sig =
          verifyModeBSig host base64Error credDefId credId attributes sig) := by
  have hleaf := modeBLeaf_eq_iff host credDefId hsize hsize' hfree
  refine ⟨?_, fun nanos ctr prep base64Error hprep hid hchallenge haccept => ?_,
    fun listed hperm hnodup => ?_⟩
  · obtain ⟨leaf, hok⟩ := modeBLeaf_ok host credDefId credId hsize
    obtain ⟨leaf', hok'⟩ := modeBLeaf_ok host credDefId credId' hsize'
    rw [← hleaf, computePoseidonLeaf_eq, computePoseidonLeaf_eq, hok, hok']
    simp only [Except.map, Except.ok.injEq, feltToBytes32_injective.eq_iff]
  · obtain ⟨leaf, signed, hsigned, hsign, hwritten⟩ := prepareModeB_eq_ok host hprep
    obtain ⟨leaf', sig, key, haccepted, hdecode, hkey, hverify⟩ :=
      verifyModeBSig_eq_true host haccept
    rw [hid] at hsigned
    rw [← hleaf, hsigned, haccepted]
    refine congrArg Except.ok (hchallenge key sig hkey hdecode (.inl hsigned) (.inr haccepted) ?_)
    rw [hwritten] at hdecode
    exact challenge_eq_of_verify host hsign hkey hdecode hverify
  · have hsame := modeBLeaf_perm host credDefId credId hperm hnodup
    refine ⟨?_, fun base64Error sig => ?_⟩
    · rw [computePoseidonLeaf_eq, computePoseidonLeaf_eq, hsame]
    · rw [verifyModeBSig, verifyModeBSig, hsame]

/-! ## Issued credentials -/

theorem modeBLeaf_reserved (credDefId : Bytes32) (credId kanonCredId kanonZkSig : String)
    (attributes : List (String × String)) :
    modeBLeaf host credDefId credId (attributes ++
        [(kanonCredIdAttribute, kanonCredId), (kanonZkSigAttribute, kanonZkSig)]) =
      modeBLeaf host credDefId credId attributes := by
  have hvalues : valuesByName (attributes ++ [(kanonCredIdAttribute, kanonCredId),
      (kanonZkSigAttribute, kanonZkSig)]) = valuesByName attributes := by
    simp [valuesByName, kanonZkReservedAttributeNames]
  rw [modeBLeaf, modeBLeaf, encodeAttributesCanonical_eq, encodeAttributesCanonical_eq, hvalues]

/-- **An issued credential verifies** with the attributes that the issuer added to it, unless the
nonce, the response or the public point is zero. -/
theorem prepareModeB_verifies (nanos ctr : ℕ) (credDefId : Bytes32)
    {attributes : List (String × String)} (hsize : attributes.length ≤ kanonZkCircuitAttrs)
    (hnames : ∀ attr ∈ attributes, attr.1 ∉ kanonZkReservedAttributeNames) :
    ∃ prep leaf sig key, prepareModeB host nanos ctr credDefId attributes = .ok prep ∧
      modeBLeaf host credDefId prep.kanonCredId attributes = .ok leaf ∧
      signPoseidon host (issuerPrivateKeyHex host credDefId) leaf = .ok sig ∧
      restoreIssuerKey host (issuerPrivateKeyHex host credDefId) = .ok key ∧
      ∀ base64Error, verifyModeBSig host base64Error credDefId prep.kanonCredId prep.attributes
          prep.kanonZkSig = .ok true ↔
        nonce (host.keccak256 (issuerKeyDomain ++ credDefId.1)) leaf ≠ 0 ∧ sig.s ≠ 0 ∧
          pointFromBiguints key.ax key.ay ≠ .neutral := by
  obtain ⟨leaf, hleaf⟩ := modeBLeaf_ok host credDefId (mintCredId host credDefId nanos ctr) hsize
  obtain ⟨key, sig, hkey, hsign, hread, haccept⟩ :=
    signPoseidon_accepted host (parsePriv_issuerPrivateKeyHex host credDefId) leaf
  have hfind : attributes.find? (fun attr => attr.1 ∈ kanonZkReservedAttributeNames) = none :=
    find?_eq_none.2 fun attr hattr => by simpa using hnames attr hattr
  refine ⟨⟨attributes ++ [(kanonCredIdAttribute, mintCredId host credDefId nanos ctr),
    (kanonZkSigAttribute, encodeZkSignature sig)], mintCredId host credDefId nanos ctr,
    encodeZkSignature sig⟩, leaf, sig, key, ?_, hleaf, hsign, hkey, fun base64Error => ?_⟩
  · unfold prepareModeB
    rw [hfind]
    simp only [hleaf, hsign, orAbort, Except.mapError, bind, Except.bind]
  · unfold verifyModeBSig
    rw [modeBLeaf_reserved, hleaf, hread, hkey, ← haccept]
    simp only [orAbort, Except.mapError, bind, Except.bind]
    cases verifyPoseidon host (key.ax, key.ay) leaf sig with
    | none | some accepted => simp [orPanic]

open Sample in
theorem prepareModeB_verifies_alice : ∃ prep,
    prepareModeB plainHost 7 0 zero32 [("name", "Alice")] = .ok prep ∧
      verifyModeBSig plainHost id zero32 prep.kanonCredId prep.attributes prep.kanonZkSig =
        .ok true := by
  obtain ⟨prep, leaf, sig, key, hprep, hleaf, hsign, hkey, hverify⟩ :=
    @prepareModeB_verifies plainHost 7 0 zero32 [("name", "Alice")] (by decide) (by decide)
  obtain ⟨_, _, heq, _⟩ := @modeBLeaf_eq plainHost zero32 [("name", "Alice")] prep.kanonCredId
    (by decide)
  obtain rfl : leaf = 1 := poseidonHash_plainHost (heq.symm.trans hleaf)
  have hresponse : (nonce zero32 1 + 1 * secretScalar zero32) % subOrder ≠ 0 := by decide +kernel
  exact ⟨prep, hprep, (hverify id).2 ⟨by decide +kernel, nonzero_plainHost
    (parsePriv_issuerPrivateKeyHex plainHost zero32) (by decide +kernel) hresponse hkey hsign⟩⟩

end

theorem valuesByName_singleton (name value : String)
    (h : name ∉ kanonZkReservedAttributeNames) : valuesByName [(name, value)] = [value] := by
  simp [valuesByName, sortFields, h]

namespace Sample

/-- The digests of three texts, and tables that add the state up. -/
def digestHost : Host where
  keccak256 bytes :=
    let digest (n : ℕ) : Bytes32 := ⟨biguintToBe32 n, by simp [biguintToBe32]⟩
    if bytes = asBytes "x" then
      digest 0x7521d1cadbcfa91eec65aa16715b94ffc1c9654ba57ea2ef1a2127bca1127a83
    else if bytes = asBytes "y" then
      digest 0x83847cf31c36389df832d0d4d3df7cf28f211e3f83173e5c157bab31573d61f3
    else if bytes = asBytes "0x01" then
      digest 0xe127292c8f7eb20e1ae830ed6055b6eb36e261836100610d12677231d0791f7f
    else zero32
  c := []
  m := replicate 16 [replicate 17 1]
  showHexError _ := "hex"

def digestInputs (value : String) : List (List Fr) :=
  let padded := attrValueToFelt digestHost value :: replicate 15 0
  match poseidonHash digestHost padded with
  | .ok attrHash => [padded, leafInputs digestHost zero32 "0x01" attrHash]
  | .error _ => [padded]

theorem digestHost_free :
    CollisionFree digestHost zero32 "0x01" "0x01" [("a", "x")] [("a", "y")] := by
  have hx := valuesByName_singleton "a" "x" (by decide)
  have hy := valuesByName_singleton "a" "y" (by decide)
  constructor
  · rw [hx, hy]
    have htext : ∀ t ∈ ["0x01", "0x01", "x", "y"], ∀ t' ∈ ["0x01", "0x01", "x", "y"],
        attrValueToFelt digestHost t = attrValueToFelt digestHost t' → t = t' := by
      decide +kernel
    exact fun t ht t' ht' => htext t ht t' ht'
  · have hposeidon : ∀ l ∈ digestInputs "x" ++ digestInputs "y",
        ∀ l' ∈ digestInputs "x" ++ digestInputs "y",
        poseidonHash digestHost l = poseidonHash digestHost l' → l = l' := by
      decide +kernel
    rw [hashedInputs, hashedInputs, paddedFelts, paddedFelts, hx, hy]
    exact fun l hl l' hl' => hposeidon l hl l' hl'

end Sample

/-- Another value has another leaf. -/
theorem modeB_binds_digestHost :
    computePoseidonLeaf Sample.digestHost zero32 "0x01" [("a", "x")] ≠
      computePoseidonLeaf Sample.digestHost zero32 "0x01" [("a", "y")] := by
  rw [Ne, (modeB_binds Sample.digestHost zero32 (by decide) (by decide)
    Sample.digestHost_free).1, valuesByName_singleton _ _ (by decide),
    valuesByName_singleton _ _ (by decide)]
  rintro ⟨-, tail, -, h | h⟩ <;> simp at h

/-- The names are not hashed: a value can move to another name, with any host. -/
theorem modeB_renamed : [("a", "x")] ≠ [("b", "x")] ∧
    ∀ (host : Host) (credDefId : Bytes32) (credId : String),
      computePoseidonLeaf host credDefId credId [("a", "x")] =
        computePoseidonLeaf host credDefId credId [("b", "x")] ∧
      ∀ base64Error sig, verifyModeBSig host base64Error credDefId credId [("b", "x")] sig =
        verifyModeBSig host base64Error credDefId credId [("a", "x")] sig := by
  refine ⟨by decide, fun host credDefId credId => ?_⟩
  have hsame : modeBLeaf host credDefId credId [("a", "x")] =
      modeBLeaf host credDefId credId [("b", "x")] := by
    rw [modeBLeaf, modeBLeaf, encodeAttributesCanonical_eq, encodeAttributesCanonical_eq,
      valuesByName_singleton _ _ (by decide), valuesByName_singleton _ _ (by decide)]
  refine ⟨?_, fun base64Error sig => ?_⟩
  · rw [computePoseidonLeaf_eq, computePoseidonLeaf_eq, hsame]
  · rw [verifyModeBSig, verifyModeBSig, hsame]

end Idiom.Kanon
