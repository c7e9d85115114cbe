import Idiom.Ajna.BundleWire

/-!
# Splitting a bundle

`split_if_needed` fills a bundle operation by operation, and starts the next one with the
operation that did not fit any more. It never asks whether that operation fits alone; the
next creation does.
-/

namespace Idiom.Ajna
namespace OpBundle

open OpBundle.Sample List

/-- The loop of `split_if_needed`: `bundles` are closed, `currentOps` are to go into the next
one, and `tick` counts the creations. -/
def splitLoop (host : SyncHost) (now : ℕ → Int64) (did : String) (maxSize : ℕ) :
    List Operation → ℕ → List OpBundle → List Operation → Except AjnaError (List OpBundle)
  | [], tick, bundles, currentOps =>
    if currentOps.isEmpty then .ok bundles
    else
      match create host (now tick) did currentOps maxSize with
      | .ok bundle => .ok (bundles ++ [bundle])
      | .error e => .error e
  | op :: operations, tick, bundles, currentOps =>
    match create host (now tick) did (currentOps ++ [op]) maxSize with
    | .ok _ => splitLoop host now did maxSize operations (tick + 1) bundles (currentOps ++ [op])
    | .error (.bundleTooLarge _ _) =>
      if 1 < (currentOps ++ [op]).length then
        match create host (now (tick + 1)) did (currentOps ++ [op]).dropLast maxSize with
        | .ok bundle =>
          splitLoop host now did maxSize operations (tick + 2) (bundles ++ [bundle]) [op]
        | .error e => .error e
      else .error (.invalidOperation "Single operation exceeds max bundle size")
    | .error e => .error e

/-- Split an oversized bundle into smaller ones. The `i`-th creation reads the clock as
`now i`. -/
def splitIfNeeded (host : SyncHost) (now : ℕ → Int64) (did : String)
    (operations : List Operation) (maxSize : ℕ) : Except AjnaError (List OpBundle) :=
  match create host (now 0) did operations maxSize with
  | .ok bundle => .ok [bundle]
  | .error (.bundleTooLarge _ _) => splitLoop host now did maxSize operations 1 [] []
  | .error e => .error e

variable {host : SyncHost} {now : ℕ → Int64} {did : String} {maxSize : ℕ}

/-- The bundle was made by one of the creations. -/
def Created (host : SyncHost) (now : ℕ → Int64) (did : String) (maxSize : ℕ)
    (bundle : OpBundle) : Prop :=
  ∃ i, create host (now i) did bundle.operations maxSize = .ok bundle

variable {operations : List Operation}

theorem create_of_toVec {now : Int64} {bytes : List UInt8}
    (h : host.toVec (assemble host now did operations) = .ok bytes) :
    create host now did operations maxSize =
      if maxSize < bytes.length then .error (.bundleTooLarge bytes.length maxSize)
      else .ok (assemble host now did operations) := by
  have hbytes : (assemble host now did operations).toBytes host = .ok bytes := by
    rw [toBytes, h]
    rfl
  simp only [create, hbytes]

variable {bundle : OpBundle}

theorem create_eq_ok_iff {now : Int64} :
    create host now did operations maxSize = .ok bundle ↔
      bundle = assemble host now did operations ∧
        ∃ bytes, host.toVec (assemble host now did operations) = .ok bytes ∧
          bytes.length ≤ maxSize := by
  cases hvec : host.toVec (assemble host now did operations) with
  | error e =>
    have hbytes : (assemble host now did operations).toBytes host =
        .error (.serializationError e) := by
      rw [toBytes, hvec]
      rfl
    simp [create, hbytes]
  | ok bytes =>
    rw [create_of_toVec hvec]
    by_cases hlarge : maxSize < bytes.length
    · simp [hlarge]
    · simp [hlarge, not_lt.1 hlarge, eq_comm]

theorem created_of_create {i : ℕ} (h : create host (now i) did operations maxSize = .ok bundle) :
    Created host now did maxSize bundle ∧ bundle.operations = operations := by
  have hops : bundle.operations = operations := by
    rw [(create_eq_ok_iff.1 h).1]
    rfl
  refine ⟨⟨i, ?_⟩, hops⟩
  rw [hops]
  exact h

theorem Created.fits (h : Created host now did maxSize bundle) :
    ∃ bytes, bundle.toBytes host = .ok bytes ∧ bytes.length ≤ maxSize := by
  obtain ⟨i, hcreate⟩ := h
  obtain ⟨hbundle, bytes, hvec, hle⟩ := create_eq_ok_iff.1 hcreate
  refine ⟨bytes, ?_, hle⟩
  rw [toBytes, hbundle, hvec]
  rfl

/-- The operations of some bundles, in order. -/
def allOperations (bundles : List OpBundle) : List Operation :=
  bundles.flatMap OpBundle.operations

theorem allOperations_snoc (bundles : List OpBundle) (bundle : OpBundle) :
    allOperations (bundles ++ [bundle]) = allOperations bundles ++ bundle.operations := by
  rw [allOperations, flatMap_append, flatMap_singleton, allOperations]

/-- **The loop loses nothing**: the bundles returned hold the closed ones' operations, the
open ones and the rest, in this order, and each of them was created. -/
theorem splitLoop_ok {tick : ℕ} {bundles result : List OpBundle} {currentOps : List Operation}
    (h : splitLoop host now did maxSize operations tick bundles currentOps = .ok result)
    (hcreated : ∀ bundle ∈ bundles, Created host now did maxSize bundle) :
    allOperations result = allOperations bundles ++ currentOps ++ operations ∧
      ∀ bundle ∈ result, Created host now did maxSize bundle := by
  induction operations generalizing tick bundles currentOps with
  | nil =>
    unfold splitLoop at h
    split at h
    · next hempty =>
      cases h
      rw [isEmpty_iff.1 hempty, append_nil, append_nil]
      exact ⟨rfl, hcreated⟩
    · split at h
      · next bundle hcreate =>
        cases h
        obtain ⟨hnew, hops⟩ := created_of_create hcreate
        rw [allOperations_snoc, hops, append_nil]
        refine ⟨rfl, fun b hb => ?_⟩
        rcases mem_append.1 hb with hold | hlast
        · exact hcreated b hold
        · rw [mem_singleton.1 hlast]
          exact hnew
      · cases h
  | cons op operations ih =>
    unfold splitLoop at h
    split at h
    · obtain ⟨hall, hmade⟩ := ih h hcreated
      refine ⟨?_, hmade⟩
      rw [hall]
      simp
    · split at h
      · split at h
        · next bundle hcreate =>
          obtain ⟨hnew, hops⟩ := created_of_create hcreate
          obtain ⟨hall, hmade⟩ := ih h (by
            intro b hb
            rcases mem_append.1 hb with hold | hlast
            · exact hcreated b hold
            · rw [mem_singleton.1 hlast]
              exact hnew)
          refine ⟨?_, hmade⟩
          rw [hall, allOperations_snoc, hops]
          simp
        · cases h
      · cases h
    · cases h

/-- A split loses nothing and every bundle fits, whatever the codec does. -/
theorem splitIfNeeded_ok {bundles : List OpBundle}
    (h : splitIfNeeded host now did operations maxSize = .ok bundles) :
    allOperations bundles = operations ∧
      ∀ bundle ∈ bundles, Created host now did maxSize bundle := by
  unfold splitIfNeeded at h
  split at h
  · next bundle hcreate =>
    cases h
    obtain ⟨hnew, hops⟩ := created_of_create hcreate
    rw [allOperations, flatMap_singleton]
    refine ⟨hops, fun b hb => ?_⟩
    rw [mem_singleton.1 hb]
    exact hnew
  · exact splitLoop_ok h (by simp)
  · cases h

/-- The size of a serialized bundle of `did`: it does not depend on the clock, and grows
with the operations. -/
structure SizedBy (host : SyncHost) (now : ℕ → Int64) (did : String)
    (size : List Operation → ℕ) : Prop where
  toVec : ∀ i operations, ∃ bytes, host.toVec (assemble host (now i) did operations) = .ok bytes ∧
    bytes.length = size operations
  grows : ∀ operations operations', operations.Sublist operations' →
    size operations ≤ size operations'

section

variable {size : List Operation → ℕ} (hsize : SizedBy host now did size)

include hsize

theorem create_sized (maxSize i : ℕ) (operations : List Operation) :
    (size operations ≤ maxSize ∧ ∃ bundle,
      create host (now i) did operations maxSize = .ok bundle) ∨
    (maxSize < size operations ∧ create host (now i) did operations maxSize =
      .error (.bundleTooLarge (size operations) maxSize)) := by
  obtain ⟨bytes, hvec, hlength⟩ := hsize.toVec i operations
  by_cases hle : size operations ≤ maxSize
  · exact .inl ⟨hle, _, create_eq_ok_iff.2 ⟨rfl, bytes, hvec, by omega⟩⟩
  · refine .inr ⟨not_le.1 hle, ?_⟩
    have hlarge : maxSize < bytes.length := by omega
    rw [create_of_toVec hvec, if_pos hlarge, hlength]

/-- **The loop succeeds** if every operation left fits alone and the open ones fit
together. -/
theorem splitLoop_total {operations : List Operation} {tick : ℕ} {bundles : List OpBundle}
    {currentOps : List Operation} (hsingle : ∀ op ∈ operations, size [op] ≤ maxSize)
    (hopen : currentOps = [] ∨ size currentOps ≤ maxSize) :
    ∃ result, splitLoop host now did maxSize operations tick bundles currentOps = .ok result := by
  induction operations generalizing tick bundles currentOps with
  | nil =>
    unfold splitLoop
    split
    · exact ⟨_, rfl⟩
    · next hne =>
      have hfits : size currentOps ≤ maxSize :=
        hopen.resolve_left fun hnil => hne (by rw [hnil]; rfl)
      rcases create_sized hsize maxSize tick currentOps with
        ⟨-, bundle, hcreate⟩ | ⟨hlarge, -⟩
      · rw [hcreate]
        exact ⟨_, rfl⟩
      · omega
  | cons op operations ih =>
    have hrest : ∀ op' ∈ operations, size [op'] ≤ maxSize := fun op' hop' =>
      hsingle op' (mem_cons_of_mem _ hop')
    have hop : size [op] ≤ maxSize := hsingle op mem_cons_self
    unfold splitLoop
    rcases create_sized hsize maxSize tick (currentOps ++ [op]) with
      ⟨hfits, bundle, hcreate⟩ | ⟨hlarge, hcreate⟩
    · rw [hcreate]
      exact ih hrest (.inr hfits)
    · rw [hcreate]
      dsimp only
      -- an operation that fits alone overflows only a bundle that is not empty
      have hne : currentOps ≠ [] := by
        rintro rfl
        rw [nil_append] at hlarge
        omega
      have hlength : 1 < (currentOps ++ [op]).length := by
        have := length_pos_iff.2 hne
        rw [length_append, length_singleton]
        omega
      have hclosed : size currentOps ≤ maxSize := hopen.resolve_left hne
      rw [if_pos hlength, dropLast_concat]
      rcases create_sized hsize maxSize (tick + 1) currentOps with
        ⟨-, bundle, hclose⟩ | ⟨hover, -⟩
      · rw [hclose]
        exact ih hrest (.inr hop)
      · omega

end

/-- **Splitting loses nothing**: it succeeds exactly if every operation fits alone, and then
the bundles hold the operations in order and each is within the limit. -/
theorem split_iff (size : List Operation → ℕ) (hsize : SizedBy host now did size)
    (operations : List Operation) (maxSize : ℕ) :
    ((∃ bundles, splitIfNeeded host now did operations maxSize = .ok bundles) ↔
      ∀ op ∈ operations, size [op] ≤ maxSize) ∧
    ∀ bundles, splitIfNeeded host now did operations maxSize = .ok bundles →
      bundles.flatMap OpBundle.operations = operations ∧
        ∀ bundle ∈ bundles, ∃ bytes, bundle.toBytes host = .ok bytes ∧ bytes.length ≤ maxSize := by
  refine ⟨⟨?_, fun hsingle => ?_⟩, fun bundles h => ?_⟩
  · rintro ⟨bundles, h⟩ op hop
    obtain ⟨hall, hmade⟩ := splitIfNeeded_ok h
    rw [← hall] at hop
    obtain ⟨bundle, hbundle, hmem⟩ := mem_flatMap.1 hop
    obtain ⟨i, hcreate⟩ := hmade bundle hbundle
    have hle : size bundle.operations ≤ maxSize := by
      rcases create_sized hsize maxSize i bundle.operations with
        ⟨hle, -⟩ | ⟨-, herror⟩
      · exact hle
      · rw [hcreate] at herror
        cases herror
    exact (hsize.grows _ _ (singleton_sublist.2 hmem)).trans hle
  · unfold splitIfNeeded
    rcases create_sized hsize maxSize 0 operations with
      ⟨-, bundle, hcreate⟩ | ⟨-, hcreate⟩
    · rw [hcreate]
      exact ⟨_, rfl⟩
    · rw [hcreate]
      exact splitLoop_total hsize hsingle (.inl rfl)
  · obtain ⟨hall, hmade⟩ := splitIfNeeded_ok h
    exact ⟨hall, fun bundle hbundle => (hmade bundle hbundle).fits⟩

/-- The codec on small trees; a digest is 32 bytes, and in base64 44 characters. -/
def Sample.packHost (order : IterOrder String) : SyncHost :=
  (codec .nil).host order
    { injectiveHost with
      blake3 := fun _ => replicate 32 0
      encode64 := fun _ => "AAAAAAAAAAAAAAAAAAAAAAAAAAAAAAAAAAAAAAAAAAA=" }

/-- The size of a bundle that the codec packs. -/
def Sample.packedSize (order : IterOrder String) (operations : List Operation) : ℕ :=
  (pack ((assemble (packHost order) 0 "did:ajna:alice" operations).write order)).length

theorem Sample.length_packItems {trees trees' : List Serde.Tree} (h : trees.Sublist trees') :
    (packItems trees).length ≤ (packItems trees').length := by
  induction h with
  | slnil => exact le_refl _
  | cons tree _ ih =>
    rw [packItems, length_append]
    omega
  | cons_cons tree _ ih =>
    rw [packItems, packItems, length_append, length_append]
    omega

theorem Sample.packedSize_eq (order : IterOrder String) (operations : List Operation) :
    packedSize order operations =
      (packItems (operations.map (Operation.write order))).length + 65 := by
  have hdoc : (pack (.str "did:ajna:alice")).length = 15 := by decide +kernel
  have hid : (pack (.str "AAAAAAAAAAAAAAAAAAAAAAAAAAAAAAAAAAAAAAAAAAA=")).length = 46 := by
    decide +kernel
  have hbundle : packedSize order operations = (pack (.seq
      [.str "did:ajna:alice", .seq (operations.map (Operation.write order)), .seq [],
        .str "AAAAAAAAAAAAAAAAAAAAAAAAAAAAAAAAAAAAAAAAAAA=", .int 0])).length := rfl
  rw [hbundle, pack]
  simp only [packItems, length_cons, length_append, hdoc, hid]
  simp only [pack, packItems, length_cons, length_nil]
  omega

theorem Sample.sizedBy_packedSize (order : IterOrder String) :
    SizedBy (packHost order) (fun _ => 0) "did:ajna:alice" (packedSize order) where
  toVec _ operations := ⟨_, rfl, rfl⟩
  grows operations operations' h := by
    have hitems := length_packItems (h.map (Operation.write order))
    rw [packedSize_eq, packedSize_eq]
    omega

/-- Two operations that deactivate the document, split at 128 bytes. -/
theorem split_iff_two : ∃ bundles,
    splitIfNeeded (packHost .some) (fun _ => 0) "did:ajna:alice"
      [blankOperation "did:ajna:alice", blankOperation "did:ajna:alice"] 128 = .ok bundles := by
  refine (split_iff (packedSize .some) (sizedBy_packedSize .some) _ 128).1.2 ?_
  intro op hop
  have hop : op = blankOperation "did:ajna:alice" := by simpa using hop
  rw [hop]
  decide +kernel

end OpBundle
end Idiom.Ajna
