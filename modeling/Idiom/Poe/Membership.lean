import Idiom.Lib.LittleEndian

/-!
# The membership proof of `poe_prover/src/membership.rs`

A holder proves that it knows the key of a registered commitment; the proof is bound to a nonce, a
context and a session by a challenge. The two hashes and the proof system are parameters.
-/

namespace Idiom.Poe

open LittleEndian List

/-! ## The field -/

/-- The modulus of the Pasta field. -/
def pastaPrime : ℕ := 0x40000000000000000000000000000000224698fc094cf91b992d30ed00000001

instance : NeZero pastaPrime := ⟨by decide⟩

abbrev Fp := Fin pastaPrime

abbrev Bytes32 := {bytes : List UInt8 // bytes.length = 32}

/-- `PrimeField::from_repr`: 32 little-endian bytes, below the modulus. -/
def fromRepr (b : Bytes32) : Option Fp :=
  if h : number b.1 < pastaPrime then some ⟨number b.1, h⟩ else none

/-- `PrimeField::to_repr`. -/
def toRepr (f : Fp) : Bytes32 := ⟨bytes 32 f.val, length_bytes 32 f.val⟩

/-- `Fp::from_raw`, with two zero words. -/
def fromRaw (w0 w1 : ℕ) : Fp := Fin.ofNat pastaPrime (w0 + 2 ^ 64 * w1)

/-! ## Hashes -/

/-- Poseidon over the field, for two inputs and for three. -/
structure Poseidon where
  hash2 : Fp → Fp → Fp
  hash3 : Fp → Fp → Fp → Fp

/-- Sums, for runs. -/
def sumPoseidon : Poseidon := ⟨fun a b => a + b + 1, fun a b c => a + b + c⟩

/-- Merkle tree depth (supports up to 2^DEPTH registered commitments). -/
def depth : ℕ := 16

/-- Split a 32-byte key into two 128-bit little-endian field limbs. -/
def keyToLimbs (key : Bytes32) : Fp × Fp :=
  (limb (key.1.take 16), limb (key.1.drop 16))
where
  limb (b : List UInt8) : Fp :=
    fromRaw (number (b.take 8)) (number ((b.drop 8).take 8))

/-- `slice::chunks(16)`. -/
def chunks (b : List UInt8) : List (List UInt8) :=
  (range ((b.length + 15) / 16)).map fun i => (b.drop (16 * i)).take 16

/-- A chunk at the start of 32 zero bytes. -/
def limbRepr (chunk : List UInt8) : Option Bytes32 :=
  if h : chunk.length ≤ 32 then
    some ⟨chunk ++ replicate (32 - chunk.length) 0, by simp; omega⟩
  else none

def two128 : Fp := Fin.ofNat pastaPrime (2 ^ 128)

/-- Fold arbitrary bytes into the field via 128-bit little-endian limbs. -/
def fieldFromBytes (b : List UInt8) : Option Fp :=
  (chunks b).foldlM (fun acc chunk => do
    let limb ← (limbRepr chunk).bind fromRepr
    some (acc * two128 + limb)) 0

/-- What a proof is bound to. -/
structure Binding where
  nonce : List UInt8
  contextHash : List UInt8
  sessionId : List UInt8
  deriving DecidableEq

section

variable (poseidon : Poseidon)

/-- PoE context binding. -/
def challengeFromBinding (binding : Binding) : Option Fp := do
  let nonce ← fieldFromBytes binding.nonce
  let contextHash ← fieldFromBytes binding.contextHash
  let sessionId ← fieldFromBytes binding.sessionId
  some (poseidon.hash3 nonce contextHash sessionId)

/-- The registry leaf of a key. -/
def commitment (key : Bytes32) : Fp :=
  let (lo, hi) := keyToLimbs key
  poseidon.hash2 lo hi

/-- Fold a Merkle authentication path to its root: the node is the right child where `dirs` is. -/
def merkleRoot (leaf : Fp) (siblings : List Fp) (dirs : List Bool) : Fp :=
  (siblings.zip dirs).foldl
    (fun cur (s, d) => if d then poseidon.hash2 s cur else poseidon.hash2 cur s) leaf

/-- One-time challenge tag binding the key. -/
def tag (key : Bytes32) (challenge : Fp) : Fp :=
  let (lo, hi) := keyToLimbs key
  poseidon.hash3 lo hi challenge

end

/-! ## Proofs -/

/-- The private inputs. -/
structure MembershipCircuit where
  k : Fp × Fp
  siblings : List Fp
  dirs : List Bool

/-- `create_proof`, with its randomness, and `verify_proof`, over the public inputs. -/
structure Halo2 where
  createProof : MembershipCircuit → List Fp → ℕ → Option (List UInt8)
  verifyProof : List UInt8 → List Fp → Bool

section

variable (poseidon : Poseidon) (halo2 : Halo2)

def prove (key : Bytes32) (siblings : List Fp) (dirs : List Bool) (challenge : Fp) (rng : ℕ) :
    Option (List UInt8 × Fp) := do
  let root := merkleRoot poseidon (commitment poseidon key) siblings dirs
  let t := tag poseidon key challenge
  let proof ← halo2.createProof ⟨keyToLimbs key, siblings, dirs⟩ [root, challenge, t] rng
  some (proof, t)

def verify (proof : List UInt8) (root challenge tag : Fp) : Bool :=
  halo2.verifyProof proof [root, challenge, tag]

/-- Prove membership bound to a nonce, a context and a session: the proof, the root and the tag. -/
def provePoe (key : Bytes32) (siblings : List Bytes32) (dirs : List Bool) (binding : Binding)
    (rng : ℕ) : Option (List UInt8 × Bytes32 × Bytes32) :=
  if siblings.length = depth ∧ dirs.length = depth then do
    let sib ← siblings.mapM fromRepr
    let challenge ← challengeFromBinding poseidon binding
    let root := merkleRoot poseidon (commitment poseidon key) sib dirs
    let (proof, tag) ← prove poseidon halo2 key sib dirs challenge rng
    some (proof, toRepr root, toRepr tag)
  else none

/-- Verify a proof against a trusted root and the expected binding. -/
def verifyPoe (proof : List UInt8) (root : Bytes32) (binding : Binding) (tag : Bytes32) :
    Option Bool := do
  let challenge ← challengeFromBinding poseidon binding
  let root ← fromRepr root
  let tag ← fromRepr tag
  some (verify halo2 proof root challenge tag)

end

/-! ## Bytes and numbers -/

theorem fromRepr_isSome_iff {b : Bytes32} : (fromRepr b).isSome ↔ number b.1 < pastaPrime := by
  unfold fromRepr
  split
  · next h => exact iff_of_true rfl h
  · next h => exact iff_of_false (fun hsome => nomatch hsome) h

@[simp] theorem fromRepr_toRepr (f : Fp) : fromRepr (toRepr f) = some f := by
  have hwidth : f.val < 256 ^ 32 := Nat.lt_trans f.isLt (by decide)
  have hnumber : number (toRepr f).1 = f.val := number_bytes_of_lt hwidth
  unfold fromRepr
  rw [dif_pos (by rw [hnumber]; exact f.isLt)]
  exact congrArg some (Fin.ext hnumber)

theorem length_le_of_mem_chunks {b chunk : List UInt8} (h : chunk ∈ chunks b) :
    chunk.length ≤ 16 := by
  obtain ⟨i, -, rfl⟩ := mem_map.1 h
  rw [length_take]
  omega

theorem limbRepr_bind_fromRepr {chunk : List UInt8} (h : chunk.length ≤ 16) :
    (limbRepr chunk).bind fromRepr = some (Fin.ofNat pastaPrime (number chunk)) := by
  have hlt : number chunk < pastaPrime := by
    have hpow : 256 ^ chunk.length ≤ 256 ^ 16 := Nat.pow_le_pow_right (by decide) h
    exact Nat.lt_of_lt_of_le (number_lt chunk) (Nat.le_trans hpow (by decide))
  unfold limbRepr
  rw [dif_pos (by omega), Option.bind_some]
  unfold fromRepr
  rw [dif_pos (by rwa [number_append_zeros])]
  refine congrArg some (Fin.ext ?_)
  dsimp only
  rw [number_append_zeros, Fin.val_ofNat, Nat.mod_eq_of_lt hlt]

/-- The number of some bytes: the first chunk is the highest limb. -/
def limbsNumber (b : List UInt8) : ℕ :=
  (chunks b).foldl (fun n chunk => n * 2 ^ 128 + number chunk) 0

theorem ofNat_horner (n limb : ℕ) :
    Fin.ofNat pastaPrime n * two128 + Fin.ofNat pastaPrime limb =
      Fin.ofNat pastaPrime (n * 2 ^ 128 + limb) := by
  refine Fin.ext ?_
  simp only [two128, Fin.val_add, Fin.val_mul, Fin.val_ofNat, Nat.mod_add_mod, Nat.add_mod_mod]
  rw [Nat.add_mod, ← Nat.mul_mod, ← Nat.add_mod]

/-- **The bytes are folded to their number, modulo the prime.** -/
theorem fieldFromBytes_eq (b : List UInt8) :
    fieldFromBytes b = some (Fin.ofNat pastaPrime (limbsNumber b)) := by
  have hloop : ∀ (l : List (List UInt8)) (n : ℕ), (∀ chunk ∈ l, chunk.length ≤ 16) →
      (l.foldlM (fun acc chunk => do
        let limb ← (limbRepr chunk).bind fromRepr
        some (acc * two128 + limb)) (Fin.ofNat pastaPrime n) : Option Fp) =
      some (Fin.ofNat pastaPrime
        (l.foldl (fun n chunk => n * 2 ^ 128 + number chunk) n)) := by
    intro l
    induction l with
    | nil => exact fun n _ => rfl
    | cons chunk l ih =>
      intro n hl
      rw [foldlM_cons, limbRepr_bind_fromRepr (hl chunk mem_cons_self)]
      simp only [bind, Option.bind_some, ofNat_horner]
      exact ih _ fun chunk hchunk => hl chunk (mem_cons_of_mem _ hchunk)
  exact hloop (chunks b) 0 fun chunk => length_le_of_mem_chunks

end Idiom.Poe
