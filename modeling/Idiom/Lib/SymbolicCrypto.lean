import Mathlib.Data.Set.Insert

/-!
# Symbolic byte strings

Byte strings are kept as the terms they were built from, so that who can build one is
a matter of which key pairs it took. A box for a pair of keys takes the secret of one
of them; a seal takes nothing, since its ephemeral key is drawn inside; a hybrid wrap
takes the secret of the ephemeral key it names.
-/

namespace Idiom.Symbolic

/-- Byte strings, by how they are built. A text is its UTF-8 bytes. -/
inductive Term (K : Type) where
  | bytes (bs : List UInt8)
  | text (s : String)
  | base64 (t : Term K)
  | base58 (t : Term K)
  | nil
  | cons (head tail : Term K)
  | edSecret (k : K)
  | edPublic (k : K)
  | xPublic (k : K)
  | kemSecret (k : K)
  /-- An encapsulation of the shared secret `seed` to the KEM key `k`. -/
  | kemCiphertext (k : K) (seed : List UInt8)
  /-- Authenticated encryption under the Diffie–Hellman secret of `a` and `b`. -/
  | box (a b : K) (nonce payload : Term K)
  /-- Anonymous encryption to `recipient`. -/
  | seal (recipient : K) (payload : Term K)
  /-- Encryption under the Diffie–Hellman secret of `eph` and `recipient` combined with
  the secret encapsulated to `kem`. -/
  | hybrid (eph recipient kem : K) (seed : List UInt8) (nonce payload : Term K)
  | aeadBody (key nonce aad payload : Term K)
  | aeadTag (key nonce aad payload : Term K)
  deriving DecidableEq

variable {K : Type} [DecidableEq K]

/-! ## Opening -/

/-- Open a box that `ours` and `theirs` share. -/
def boxOpen (ours theirs : K) (t nonce : Term K) : Option (Term K) :=
  match t with
  | .box a b n p =>
    if ((a = ours ∧ b = theirs) ∨ (a = theirs ∧ b = ours)) ∧ n = nonce then some p else none
  | _ => none

def sealOpen (ours : K) (t : Term K) : Option (Term K) :=
  match t with
  | .seal r p => if r = ours then some p else none
  | _ => none

/-- Open a hybrid wrap with our two secrets, the ephemeral public key and the KEM
ciphertext that came along. -/
def hybridOpen (ours kem : K) (ephPublic kemCt nonce t : Term K) : Option (Term K) :=
  match t with
  | .hybrid e r k seed n p =>
    if r = ours ∧ k = kem ∧ ephPublic = .xPublic e ∧ kemCt = .kemCiphertext k seed ∧ n = nonce
    then some p else none
  | _ => none

def aeadOpen (key nonce aad body tag : Term K) : Option (Term K) :=
  match body with
  | .aeadBody k n a p =>
    if k = key ∧ n = nonce ∧ a = aad ∧ tag = .aeadTag k n a p then some p else none
  | _ => none

theorem boxOpen_eq_some {ours theirs : K} {t nonce p : Term K} :
    boxOpen ours theirs t nonce = some p ↔
      t = .box ours theirs nonce p ∨ t = .box theirs ours nonce p := by
  cases t <;> simp only [boxOpen, reduceCtorEq, or_self]
  case box a b n q =>
    simp only [Option.ite_none_right_eq_some, Option.some.injEq, Term.box.injEq]
    constructor
    · rintro ⟨⟨⟨rfl, rfl⟩ | ⟨rfl, rfl⟩, rfl⟩, rfl⟩
      · exact .inl ⟨rfl, rfl, rfl, rfl⟩
      · exact .inr ⟨rfl, rfl, rfl, rfl⟩
    · rintro (⟨rfl, rfl, rfl, rfl⟩ | ⟨rfl, rfl, rfl, rfl⟩)
      · exact ⟨⟨.inl ⟨rfl, rfl⟩, rfl⟩, rfl⟩
      · exact ⟨⟨.inr ⟨rfl, rfl⟩, rfl⟩, rfl⟩

theorem boxOpen_of_hybridOpen {ours kem : K} {eph ct nonce t p : Term K}
    (h : hybridOpen ours kem eph ct nonce t = some p) (theirs : K) (nonce' : Term K) :
    boxOpen ours theirs t nonce' = none := by
  cases t <;> simp_all [hybridOpen, boxOpen]

/-! ## Building -/

/-- A party that holds the secrets of the keys in `P` can build the byte string. -/
inductive Derivable (P : Set K) : Term K → Prop
  | bytes (bs) : Derivable P (.bytes bs)
  | text (s) : Derivable P (.text s)
  | base64 {t} : Derivable P t → Derivable P (.base64 t)
  | base58 {t} : Derivable P t → Derivable P (.base58 t)
  | nil : Derivable P .nil
  | cons {t u} : Derivable P t → Derivable P u → Derivable P (.cons t u)
  | edSecret {k} : k ∈ P → Derivable P (.edSecret k)
  | edPublic (k) : Derivable P (.edPublic k)
  | xPublic (k) : Derivable P (.xPublic k)
  | kemSecret {k} : k ∈ P → Derivable P (.kemSecret k)
  | kemCiphertext (k seed) : Derivable P (.kemCiphertext k seed)
  | box {a b n p} : a ∈ P ∨ b ∈ P → Derivable P n → Derivable P p → Derivable P (.box a b n p)
  | seal (r) {p} : Derivable P p → Derivable P (.seal r p)
  | hybrid {e r} (k seed) {n p} : e ∈ P ∨ r ∈ P → Derivable P n → Derivable P p →
      Derivable P (.hybrid e r k seed n p)
  | aeadBody {k n a p} : Derivable P k → Derivable P n → Derivable P a → Derivable P p →
      Derivable P (.aeadBody k n a p)
  | aeadTag {k n a p} : Derivable P k → Derivable P n → Derivable P a → Derivable P p →
      Derivable P (.aeadTag k n a p)

omit [DecidableEq K] in
theorem Derivable.of_base64 {P : Set K} {t : Term K} (h : Derivable P (.base64 t)) :
    Derivable P t := by
  cases h with
  | base64 h => exact h

omit [DecidableEq K] in
theorem derivable_cons {P : Set K} {t u : Term K} :
    Derivable P (.cons t u) ↔ Derivable P t ∧ Derivable P u := by
  constructor
  · intro h
    cases h with
    | cons ht hu => exact ⟨ht, hu⟩
  · rintro ⟨ht, hu⟩
    exact .cons ht hu

/-- **Who made a box.**  A byte string that opens as a box of two keys was built by a
party that holds the secret of one of them. -/
theorem Derivable.key_of_boxOpen {P : Set K} {ours theirs : K} {t nonce p : Term K}
    (h : Derivable P t) (hopen : boxOpen ours theirs t nonce = some p) : ours ∈ P ∨ theirs ∈ P := by
  rcases boxOpen_eq_some.mp hopen with rfl | rfl
  · cases h with
    | box hk => exact hk
  · cases h with
    | box hk => exact hk.symm

end Idiom.Symbolic
