import Idiom.Ajna.FieldOrder
import Std.Data.String.ToNat

/-!
# Every field has a proof

The extraction numbers the fields as it goes and keeps one entry for each path. The tree is
built and read level by level; the index says where a path's leaf is.
-/

namespace Idiom.Ajna

open List AjnaDocument Sample

/-! ## Paths -/

theorem nodup_flatMap_of_kind {α κ : Type*} (kind : α → κ) {parts : List (κ × List α)}
    (hkinds : (parts.map Prod.fst).Nodup)
    (hparts : ∀ part ∈ parts, part.2.Nodup ∧ ∀ a ∈ part.2, kind a = part.1) :
    (parts.flatMap Prod.snd).Nodup := by
  induction parts with
  | nil => exact nodup_nil
  | cons part parts ih =>
    rw [map_cons, nodup_cons] at hkinds
    obtain ⟨hnodup, hkind⟩ := hparts part mem_cons_self
    have hrest : ∀ part' ∈ parts, part'.2.Nodup ∧ ∀ a ∈ part'.2, kind a = part'.1 :=
      fun part' hpart' => hparts part' (mem_cons_of_mem _ hpart')
    rw [flatMap_cons, nodup_append']
    refine ⟨hnodup, ih hkinds.2 hrest, fun a ha ha' => ?_⟩
    obtain ⟨part', hpart', hmem⟩ := mem_flatMap.1 ha'
    have heq : part'.1 = part.1 := ((hrest part' hpart').2 a hmem).symm.trans (hkind a ha)
    exact hkinds.1 (heq ▸ mem_map_of_mem hpart')

/-- Blocks at different places of a list share nothing if a member tells its place. -/
theorem nodup_flatMap_zipIdx {α β : Type*} (block : ℕ → α → List β) (l : List α)
    (hblock : ∀ i, ∀ a ∈ l, (block i a).Nodup)
    (hplace : ∀ i j a b x, x ∈ block i a → x ∈ block j b → i = j) :
    (l.zipIdx.flatMap fun p => block p.2 p.1).Nodup := by
  rw [nodup_flatMap]
  constructor
  · rintro ⟨a, i⟩ hp
    have hmem : a ∈ l := by
      have := mem_map_of_mem (f := Prod.fst) hp
      rwa [zipIdx_map_fst] at this
    exact hblock i a hmem
  · have hplaces : l.zipIdx.Pairwise fun p q => p.2 ≠ q.2 :=
      pairwise_map.1 (nodup_zipIdx_map_snd l)
    refine hplaces.imp fun {p q} hne => ?_
    intro x hx hx'
    exact hne (hplace _ _ _ _ x hx hx')

namespace FieldIndex

/-- The second character of a path tells the part of the document. -/
def pathKind (path : String) : Option Char := path.toList[1]?

theorem pathKind_append {base : String} {c d : Char} {rest : List Char}
    (h : base.toList = c :: d :: rest) (path : String) : pathKind (base ++ path) = some d := by
  rw [pathKind, String.toList_append, h]
  rfl

theorem append_toString_injective (base : String) :
    Function.Injective fun i : ℕ => base ++ toString i := by
  intro i j h
  exact Nat.repr_injective (String.append_right_inj base |>.1 h)

variable {doc : AjnaDocument} {orders : FieldOrders}

theorem nodup_controllerPaths : ((doc.controllerPart orders).map Prod.fst).Nodup := by
  rw [controllerPart, map_map]
  have hplaces := nodup_zipIdx_map_snd (orders.controllers.list doc.controllerSet)
  have hpaths := hplaces.map (append_toString_injective "/controller/")
  rw [map_map] at hpaths
  exact hpaths

/-- The paths of a method, past their base. -/
def methodPaths (vm : VerificationMethod) : List String :=
  ["/id", "/type", "/controller", "/publicKeyMultibase"] ++
    (vm.purpose.getD []).zipIdx.map fun p => "/purpose/" ++ toString p.2

theorem map_fst_methodFields (base : String) (vm : VerificationMethod) :
    (methodFields base vm).map Prod.fst =
      (methodPaths vm).map fun path => base ++ path := by
  simp [methodFields, methodPaths, String.append_assoc]

theorem nodup_methodPaths (vm : VerificationMethod) : (methodPaths vm).Nodup := by
  rw [methodPaths, nodup_append']
  refine ⟨by decide, ?_, ?_⟩
  · have hpaths := (nodup_zipIdx_map_snd (vm.purpose.getD [])).map
      (append_toString_injective "/purpose/")
    rw [map_map] at hpaths
    exact hpaths
  · intro path hfixed hpurpose
    obtain ⟨p, -, rfl⟩ := mem_map.1 hpurpose
    have hchar : ("/purpose/" ++ toString p.2).toList[3]? = some 'r' := by
      rw [String.toList_append]
      rfl
    simp only [mem_cons, not_mem_nil, or_false] at hfixed
    rcases hfixed with h | h | h | h <;> rw [h] at hchar <;> exact absurd hchar (by decide)

theorem slash_of_methodPaths {vm : VerificationMethod} {path : String}
    (h : path ∈ methodPaths vm) : path.toList.head? = some '/' := by
  rcases mem_append.1 h with hfixed | hpurpose
  · simp only [mem_cons, not_mem_nil, or_false] at hfixed
    rcases hfixed with rfl | rfl | rfl | rfl <;> rfl
  · obtain ⟨p, -, rfl⟩ := mem_map.1 hpurpose
    rw [String.toList_append]
    rfl

theorem place_of_methodPath {i j : ℕ} {path path' : String} (h : path.toList.head? = some '/')
    (h' : path'.toList.head? = some '/')
    (heq : "/verificationMethod/" ++ toString i ++ path =
      "/verificationMethod/" ++ toString j ++ path') : i = j := by
  have hlist := congrArg String.toList heq
  simp only [String.append_assoc, String.toList_append, append_cancel_left_eq] at hlist
  have hdigit : ∀ n : ℕ, ∀ c ∈ (toString n).toList, c.isDigit = true := by
    intro n c hc
    rw [Nat.toString_eq_ofList_toDigits, String.toList_ofList] at hc
    exact Nat.isDigit_of_mem_toDigits (by decide) (by decide) hc
  have hdigits : (toString i).toList = (toString j).toList := by
    refine eq_of_append_eq_append (hdigit i) (hdigit j) ?_ ?_ hlist
    · rw [h]
      intro c hc
      cases hc
      decide
    · rw [h']
      intro c hc
      cases hc
      decide
  exact Nat.repr_injective (String.toList_inj.1 hdigits)

theorem nodup_methodPart : ((doc.methodPart orders).map Prod.fst).Nodup := by
  rw [methodPart, map_flatMap]
  simp only [map_fst_methodFields]
  refine nodup_flatMap_zipIdx
    (fun i vm => (methodPaths vm).map fun path =>
      "/verificationMethod/" ++ toString i ++ path) _ (fun i vm _ => ?_) ?_
  · exact (nodup_methodPaths vm).map fun path path' h => (String.append_right_inj _).1 h
  · intro i j vm vm' x hx hx'
    obtain ⟨path, hpath, rfl⟩ := mem_map.1 hx
    obtain ⟨path', hpath', heq⟩ := mem_map.1 hx'
    exact place_of_methodPath (slash_of_methodPaths hpath) (slash_of_methodPaths hpath') heq.symm

theorem nodup_map_fst_entryList {V : Type} (m : LWWMap String V) (order : IterOrder String) :
    ((m.entryList order).map Prod.fst).Nodup := by
  refine Nodup.map_on ?_ (LWWMap.nodup_entryList m order)
  rintro ⟨key, value⟩ h ⟨key', value'⟩ h' heq
  obtain rfl : key = key' := heq
  rw [LWWMap.mem_entryList] at h h'
  rw [h] at h'
  cases h'
  rfl

theorem key_of_servicePath {key key' : String} {suffix suffix' : String}
    (h : suffix ∈ ["/id", "/type", "/serviceEndpoint"])
    (h' : suffix' ∈ ["/id", "/type", "/serviceEndpoint"])
    (heq : "/service/" ++ key ++ suffix = "/service/" ++ key' ++ suffix') :
    key = key' ∧ suffix = suffix' := by
  have hlast : suffix.toList.getLast? = suffix'.toList.getLast? := by
    have hends : ∀ base : String, ∀ s ∈ ["/id", "/type", "/serviceEndpoint"],
        (base ++ s).toList.getLast? = s.toList.getLast? := by
      intro base s hs
      rw [String.toList_append, getLast?_append_of_ne_nil]
      simp only [mem_cons, not_mem_nil, or_false] at hs
      rcases hs with rfl | rfl | rfl <;> decide
    rw [← hends ("/service/" ++ key) suffix h, heq, hends ("/service/" ++ key') suffix' h']
  have hsuffix : suffix = suffix' := by
    simp only [mem_cons, not_mem_nil, or_false] at h h'
    rcases h with rfl | rfl | rfl <;> rcases h' with rfl | rfl | rfl <;>
      first | rfl | exact absurd hlast (by decide)
  rw [hsuffix, String.append_left_inj, String.append_right_inj] at heq
  exact ⟨heq, hsuffix⟩

theorem nodup_servicePart : ((doc.servicePart orders).map Prod.fst).Nodup := by
  have hpaths : ∀ key service, (serviceFields key service).map Prod.fst =
      ["/id", "/type", "/serviceEndpoint"].map fun suffix => "/service/" ++ key ++ suffix :=
    fun _ _ => rfl
  rw [servicePart, map_flatMap, nodup_flatMap]
  simp only [hpaths]
  constructor
  · intro p _
    exact Nodup.map (fun s s' h => (String.append_right_inj _).1 h) (by decide)
  · have hkeys := nodup_map_fst_entryList (doc.service.getD LWWMap.new) orders.services
    refine (pairwise_map.1 hkeys).imp fun {p q} hne x hx hx' => ?_
    obtain ⟨suffix, hsuffix, rfl⟩ := mem_map.1 hx
    obtain ⟨suffix', hsuffix', heq⟩ := mem_map.1 hx'
    exact hne (key_of_servicePath hsuffix hsuffix' heq.symm).1

theorem nodup_policyPart : ((doc.policyPart orders).map Prod.fst).Nodup := by
  have hkeys := nodup_map_fst_entryList (doc.policy.getD LWWMap.new) orders.policy
  have hpaths := hkeys.map fun key key' h => (String.append_right_inj "/policy/").1 h
  rw [map_map] at hpaths
  rw [policyPart, map_map]
  exact hpaths

theorem nodup_deactivatedPart : (doc.deactivatedPart.map Prod.fst).Nodup ∧
    ∀ path ∈ doc.deactivatedPart.map Prod.fst, pathKind path = some 'd' := by
  unfold deactivatedPart
  cases doc.deactivated with
  | none => simp
  | some deactivated =>
    have hkind : pathKind "/deactivated" = some 'd' := by decide
    refine ⟨nodup_singleton _, fun path hpath => ?_⟩
    rw [mem_singleton.1 hpath, hkind]

theorem pathKind_controllerPart :
    ∀ path ∈ (doc.controllerPart orders).map Prod.fst, pathKind path = some 'c' := by
  intro path hpath
  obtain ⟨field, hfield, rfl⟩ := mem_map.1 hpath
  obtain ⟨p, -, rfl⟩ := mem_map.1 hfield
  exact pathKind_append rfl _

theorem pathKind_methodPart :
    ∀ path ∈ (doc.methodPart orders).map Prod.fst, pathKind path = some 'v' := by
  intro path hpath
  rw [methodPart, map_flatMap] at hpath
  obtain ⟨p, -, hp⟩ := mem_flatMap.1 hpath
  rw [map_fst_methodFields] at hp
  obtain ⟨suffix, -, rfl⟩ := mem_map.1 hp
  rw [String.append_assoc]
  exact pathKind_append rfl _

theorem pathKind_servicePart :
    ∀ path ∈ (doc.servicePart orders).map Prod.fst, pathKind path = some 's' := by
  intro path hpath
  obtain ⟨field, hfield, rfl⟩ := mem_map.1 hpath
  obtain ⟨p, -, hp⟩ := mem_flatMap.1 hfield
  simp only [serviceFields, mem_cons, not_mem_nil, or_false] at hp
  rcases hp with rfl | rfl | rfl <;> dsimp only <;> rw [String.append_assoc] <;>
    exact pathKind_append rfl _

theorem pathKind_policyPart :
    ∀ path ∈ (doc.policyPart orders).map Prod.fst, pathKind path = some 'p' := by
  intro path hpath
  obtain ⟨field, hfield, rfl⟩ := mem_map.1 hpath
  obtain ⟨p, -, rfl⟩ := mem_map.1 hfield
  exact pathKind_append rfl _

/-- **No two fields of a document share a path.** -/
theorem nodup_paths (doc : AjnaDocument) (orders : FieldOrders) :
    ((doc.fields orders).map Prod.fst).Nodup := by
  have hparts : (doc.fields orders).map Prod.fst =
      [(some 'i', ["/id"]), (some 'c', (doc.controllerPart orders).map Prod.fst),
        (some 'v', (doc.methodPart orders).map Prod.fst),
        (some 's', (doc.servicePart orders).map Prod.fst),
        (some 'p', (doc.policyPart orders).map Prod.fst),
        (some 'd', doc.deactivatedPart.map Prod.fst)].flatMap Prod.snd := by
    simp [AjnaDocument.fields]
  have hkinds : [some 'i', some 'c', some 'v', some 's', some 'p', some 'd'].Nodup := by decide
  rw [hparts]
  refine nodup_flatMap_of_kind pathKind hkinds ?_
  simp only [forall_mem_cons, not_mem_nil, false_imp_iff, implies_true, and_true]
  exact ⟨⟨nodup_singleton _, rfl⟩, ⟨nodup_controllerPaths, pathKind_controllerPart⟩,
    ⟨nodup_methodPart, pathKind_methodPart⟩, ⟨nodup_servicePart, pathKind_servicePart⟩,
    ⟨nodup_policyPart, pathKind_policyPart⟩, nodup_deactivatedPart⟩

/-! ## The index -/

variable {host : FieldHost}

theorem lookup_of_foldlM {fields : List (String × Json)} {e e' : Extracted}
    (h : fields.foldlM (addField host) e = .ok e') :
    (∀ path, path ∉ fields.map Prod.fst → e'.fields.lookup path = e.fields.lookup path) ∧
      ((fields.map Prod.fst).Nodup → ∀ i field, fields[i]? = some field →
        ∃ value, host.toVec field.2 = .ok value ∧ e'.fields.lookup field.1 =
          some (hashField host field.1 value, value, e.index + i)) := by
  induction fields generalizing e with
  | nil =>
    cases h
    exact ⟨fun _ _ => rfl, fun _ i field hi => by simp at hi⟩
  | cons f fields ih =>
    rw [foldlM_cons] at h
    cases hf : host.toVec f.2 with
    | error msg =>
      simp only [addField, hf] at h
      cases h
    | ok value =>
      simp only [addField, hf] at h
      obtain ⟨hother, hown⟩ := ih h
      constructor
      · intro path hpath
        rw [map_cons, mem_cons, not_or] at hpath
        rw [hother path hpath.2, FMap.lookup_insert_ite, if_neg hpath.1]
      · intro hnodup i field hi
        rw [map_cons, nodup_cons] at hnodup
        cases i with
        | zero =>
          cases hi
          refine ⟨value, hf, ?_⟩
          rw [hother f.1 hnodup.1, FMap.lookup_insert_ite, if_pos rfl]
          rfl
        | succ i =>
          obtain ⟨value', hvalue', hlookup⟩ := hown hnodup.2 i field hi
          refine ⟨value', hvalue', ?_⟩
          rw [hlookup]
          simp only [Option.some.injEq, Prod.mk.injEq, true_and]
          omega

theorem lookup_of_build {doc : AjnaDocument} {orders : FieldOrders} {index : FieldIndex}
    (h : build host doc orders = .ok index) :
    (∀ path, path ∉ (doc.fields orders).map Prod.fst → index.fields.lookup path = none) ∧
      ∀ i field, (doc.fields orders)[i]? = some field →
        ∃ value, host.toVec field.2 = .ok value ∧
          index.fields.lookup field.1 = some (hashField host field.1 value, value, i) := by
  unfold build at h
  cases he : extractFields host doc orders with
  | error e =>
    rw [he] at h
    cases h
  | ok extracted =>
    rw [he] at h
    cases h
    obtain ⟨hother, hown⟩ := lookup_of_foldlM he
    refine ⟨hother, fun i field hi => ?_⟩
    obtain ⟨value, hvalue, hlookup⟩ := hown (nodup_paths doc orders) i field hi
    refine ⟨value, hvalue, ?_⟩
    rw [hlookup, Nat.zero_add]

theorem prove_of_getElem? {doc : AjnaDocument} {orders : FieldOrders} {index : FieldIndex}
    (h : build host doc orders = .ok index) {i : ℕ} {field : String × Json}
    (hi : (doc.fields orders)[i]? = some field) :
    ∃ value proof, host.toVec field.2 = .ok value ∧ index.prove field.1 = .ok proof ∧
      proof.path = field.1 ∧ proof.value = value ∧
      verifyFieldProof host proof index.root = true := by
  obtain ⟨htree, htop, -⟩ := leaves_of_build h
  obtain ⟨value, hvalue, hlookup⟩ := (lookup_of_build h).2 i field hi
  have hleaf : (leaves host doc orders)[i]? = some (hashField host field.1 value) := by
    rw [leaves, getElem?_map, hi, Option.map_some, text, valueBytes, hvalue]
    rfl
  obtain ⟨path, hpath, hclimb⟩ := MerkleTree.top_eq_climb (hashPair host) hleaf
  refine ⟨value, ⟨field.1, value, path, i⟩, hvalue, ?_, rfl, rfl, ?_⟩
  · rw [← htree] at hpath
    simp only [prove, hlookup, hpath]
  · rw [htop] at hclimb
    exact decide_eq_true (Option.some.inj hclimb).symm

/-- **Every field has a proof**: the paths of a document are distinct, the index holds
exactly these, and the proof of each one shows its value and is accepted against the root. -/
theorem prove_complete (host : FieldHost) (doc : AjnaDocument) (orders : FieldOrders)
    (index : FieldIndex) (h : build host doc orders = .ok index) :
    ((doc.fields orders).map Prod.fst).Nodup ∧
      (∀ path, path ∈ index.fields ↔ path ∈ (doc.fields orders).map Prod.fst) ∧
      ∀ path json, (path, json) ∈ doc.fields orders →
        ∃ value proof, host.toVec json = .ok value ∧ index.prove path = .ok proof ∧
          proof.path = path ∧ proof.value = value ∧
          verifyFieldProof host proof index.root = true := by
  refine ⟨nodup_paths doc orders, fun path => ⟨?_, ?_⟩, fun path json hfield => ?_⟩
  · intro hmem
    by_contra hpath
    rw [← Finmap.lookup_isSome, (lookup_of_build h).1 path hpath] at hmem
    cases hmem
  · intro hpath
    obtain ⟨field, hfield, rfl⟩ := mem_map.1 hpath
    obtain ⟨i, hi⟩ := mem_iff_getElem?.1 hfield
    obtain ⟨value, -, hlookup⟩ := (lookup_of_build h).2 i field hi
    exact Finmap.mem_of_lookup_eq_some hlookup
  · obtain ⟨i, hi⟩ := mem_iff_getElem?.1 hfield
    exact prove_of_getElem? h hi

/-- Every field of a document with a member in each collection has a proof. -/
theorem prove_complete_full : ∃ index, build fullHost fullDocument fieldOrders = .ok index ∧
    (∃ proof, index.prove "/verificationMethod/0/controller" = .ok proof ∧
      proof.value = asBytes "\"did:ajna:alice\"" ∧
      verifyFieldProof fullHost proof index.root = true) ∧
    ∃ proof, index.prove "/policy/quorum" = .ok proof ∧ proof.value = asBytes "true" ∧
      verifyFieldProof fullHost proof index.root = true := by
  obtain ⟨index, hbuild⟩ := exists_build (prints_tableHost _) fullDocument fieldOrders
  obtain ⟨-, -, hproof⟩ := prove_complete fullHost fullDocument fieldOrders index hbuild
  rw [fields_full] at hproof
  refine ⟨index, hbuild, ?_, ?_⟩
  · obtain ⟨value, proof, hvalue, hprove, -, rfl, hv⟩ :=
      hproof "/verificationMethod/0/controller" (.string did) (by simp [fullFields])
    exact ⟨proof, hprove, (Except.ok.inj hvalue).symm, hv⟩
  · obtain ⟨value, proof, hvalue, hprove, -, rfl, hv⟩ :=
      hproof "/policy/quorum" (.bool true) (by simp [fullFields])
    exact ⟨proof, hprove, (Except.ok.inj hvalue).symm, hv⟩

end FieldIndex
end Idiom.Ajna
