import Idiom.Ajna.FieldIndex
import Mathlib.Data.List.Permutation

/-!
# The disclosure root and iteration orders

Controllers and verification methods get their paths, and all four collections of a
document their places among the leaves, from the order in which a hash map is iterated.
Two replicas with the same document iterate in different orders.
-/

namespace Idiom.Ajna

open List AjnaDocument IterOrder MerkleTree

theorem asBytes_append (s t : String) : asBytes (s ++ t) = asBytes s ++ asBytes t := by
  simp [asBytes]

/-! ## Blocks in a row -/

section

variable {α β : Type*} (block : ℕ → α → List β)

/-- The blocks of a list from place `n` on. -/
def layout (n : ℕ) (l : List α) : List β := (l.zipIdx n).flatMap fun p => block p.2 p.1

variable {block}

@[simp] theorem layout_cons (n : ℕ) (a : α) (l : List α) :
    layout block n (a :: l) = block n a ++ layout block (n + 1) l := by
  simp [layout]

theorem layout_singleton (f : ℕ → α → β) (n : ℕ) (l : List α) :
    layout (fun i a => [f i a]) n l = (l.zipIdx n).map fun p => f p.2 p.1 :=
  map_eq_flatMap.symm

theorem layout_const (f : α → List β) (n : ℕ) (l : List α) :
    layout (fun _ => f) n l = l.flatMap f := by
  induction l generalizing n with
  | nil => rfl
  | cons a l ih => rw [layout_cons, ih, flatMap_cons]

theorem layout_congr {l l' : List α} (h : ∀ a ∈ l, ∀ b ∈ l', ∀ i, block i a = block i b)
    (hlen : l.length = l'.length) (n : ℕ) : layout block n l = layout block n l' := by
  induction l generalizing l' n with
  | nil => rw [eq_nil_of_length_eq_zero hlen.symm]
  | cons a l ih =>
    cases l' with
    | nil => cases hlen
    | cons b l' =>
      rw [layout_cons, layout_cons, h a mem_cons_self b mem_cons_self,
        ih (fun x hx y hy => h x (mem_cons_of_mem _ hx) y (mem_cons_of_mem _ hy))
          (Nat.succ.inj hlen)]

theorem length_layout_perm (block : ℕ → α → List β)
    (hlen : ∀ i a, (block i a).length = (block 0 a).length) {l l' : List α} (h : l.Perm l')
    (n : ℕ) : (layout block n l).length = (layout block n l').length := by
  have hflat : ∀ (l : List α) (n : ℕ),
      (layout block n l).length = (l.flatMap (block 0)).length := by
    intro l
    induction l with
    | nil => exact fun n => rfl
    | cons a l ih =>
      intro n
      rw [layout_cons, flatMap_cons, length_append, length_append, hlen, ih]
  rw [hflat, hflat]
  exact (h.flatMap_right _).length_eq

theorem eq_of_append_eq_append {p : β → Bool} {A B R R' : List β} (hA : ∀ x ∈ A, p x = true)
    (hB : ∀ x ∈ B, p x = true) (hR : ∀ x ∈ R.head?, p x = false)
    (hR' : ∀ x ∈ R'.head?, p x = false) (h : A ++ R = B ++ R') : A = B := by
  have hcut : ∀ (A R : List β), (∀ x ∈ A, p x = true) → (∀ x ∈ R.head?, p x = false) →
      (A ++ R).takeWhile p = A := by
    intro A R hA hR
    rw [takeWhile_append_of_pos hA]
    cases R with
    | nil => simp
    | cons x R => simp [hR x rfl]
  rw [← hcut A R hA hR, h, hcut B R' hB hR']

end

/-! ## The texts of a document -/

namespace FieldIndex

variable {host : FieldHost}

def controllerTexts (host : FieldHost) (i : ℕ) (controller : String) : List (List UInt8) :=
  [text host ("/controller/" ++ toString i, .string controller)]

/-- The texts of a method, past the base of their paths. -/
def methodTexts (host : FieldHost) (vm : VerificationMethod) : List (List UInt8) :=
  (methodFields "" vm).map (text host)

def methodTextsAt (host : FieldHost) (i : ℕ) (vm : VerificationMethod) : List (List UInt8) :=
  (methodTexts host vm).map fun t => asBytes ("/verificationMethod/" ++ toString i) ++ t

def serviceTexts (host : FieldHost) (p : String × Service) : List (List UInt8) :=
  (serviceFields p.1 p.2).map (text host)

def policyTexts (host : FieldHost) (p : String × Json) : List (List UInt8) :=
  [text host ("/policy/" ++ p.1, p.2)]

theorem text_append (base path : String) (json : Json) :
    text host (base ++ path, json) = asBytes base ++ text host (path, json) := by
  rw [text, asBytes_append, append_assoc]
  rfl

theorem map_text_methodFields (base : String) (vm : VerificationMethod) :
    (methodFields base vm).map (text host) =
      (methodTexts host vm).map fun t => asBytes base ++ t := by
  have hempty : asBytes "" = [] := rfl
  simp only [methodTexts, methodFields, map_append, map_cons, map_nil,
    map_map, Function.comp_def, String.append_assoc, text_append, hempty, nil_append]

theorem map_text_fields (doc : AjnaDocument) (orders : FieldOrders) :
    (doc.fields orders).map (text host) =
      text host ("/id", .string doc.id) ::
        (layout (controllerTexts host) 0 (orders.controllers.list doc.controllerSet) ++
          (layout (methodTextsAt host) 0 (orders.methods.list doc.verificationMethods.keys) ++
            (layout (fun _ => serviceTexts host) 0
                ((doc.service.getD LWWMap.new).entryList orders.services) ++
              (layout (fun _ => policyTexts host) 0
                  ((doc.policy.getD LWWMap.new).entryList orders.policy) ++
                doc.deactivatedPart.map (text host))))) := by
  have hcontrollers : (doc.controllerPart orders).map (text host) =
      layout (controllerTexts host) 0 (orders.controllers.list doc.controllerSet) := by
    unfold controllerTexts
    rw [layout_singleton, controllerPart, map_map]
    rfl
  have hmethods : (doc.methodPart orders).map (text host) =
      layout (methodTextsAt host) 0 (orders.methods.list doc.verificationMethods.keys) := by
    simp only [methodPart, layout, methodTextsAt, map_flatMap, map_text_methodFields]
  have hservices : (doc.servicePart orders).map (text host) =
      layout (fun _ => serviceTexts host) 0
        ((doc.service.getD LWWMap.new).entryList orders.services) := by
    rw [layout_const, servicePart, map_flatMap]
    rfl
  have hpolicy : (doc.policyPart orders).map (text host) =
      layout (fun _ => policyTexts host) 0
        ((doc.policy.getD LWWMap.new).entryList orders.policy) := by
    rw [layout_const, policyPart, map_map, map_eq_flatMap]
    rfl
  rw [AjnaDocument.fields, map_cons, map_append, map_append, map_append,
    map_append, hcontrollers, hmethods, hservices, hpolicy, append_assoc,
    append_assoc, append_assoc]

/-! ## Documents with the same fields -/

/-- The disclosed parts of two documents are equal as sets and maps. -/
structure SameFields (doc doc' : AjnaDocument) : Prop where
  id : doc.id = doc'.id
  controllers : doc.controllerSet = doc'.controllerSet
  methods : doc.verificationMethods.keys = doc'.verificationMethods.keys
  services : ∀ key, doc.getService key = doc'.getService key
  policy : ∀ key, doc.getPolicy key = doc'.getPolicy key
  deactivated : doc.deactivated = doc'.deactivated

open SameFields

theorem SameFields.refl (doc : AjnaDocument) : SameFields doc doc :=
  ⟨rfl, rfl, rfl, fun _ => rfl, fun _ => rfl, rfl⟩

/-- The root is a function of the document, whatever the iteration orders. -/
def OrderFree (host : FieldHost) (doc : AjnaDocument) : Prop :=
  ∀ doc' orders orders' index index', SameFields doc doc' →
    build host doc orders = .ok index → build host doc' orders' = .ok index' →
    index.root = index'.root

/-- Within each collection, all members have the same texts. -/
structure Interchangeable (host : FieldHost) (doc : AjnaDocument) : Prop where
  controllers : ∀ a ∈ doc.controllerSet, ∀ b ∈ doc.controllerSet,
    valueBytes host (.string a) = valueBytes host (.string b)
  methods : ∀ a ∈ doc.verificationMethods.keys, ∀ b ∈ doc.verificationMethods.keys,
    methodTexts host a = methodTexts host b
  services : ∀ key service key' service', doc.getService key = some service →
    doc.getService key' = some service' →
    serviceTexts host (key, service) = serviceTexts host (key', service')
  policy : ∀ key value key' value', doc.getPolicy key = some value →
    doc.getPolicy key' = some value' → policyTexts host (key, value) =
      policyTexts host (key', value')

theorem getService_eq (doc : AjnaDocument) (key : String) :
    (doc.service.getD LWWMap.new).get key = doc.getService key := by
  unfold getService
  cases doc.service with
  | none => simp [LWWMap.new, LWWMap.get]
  | some m => rfl

theorem getPolicy_eq (doc : AjnaDocument) (key : String) :
    (doc.policy.getD LWWMap.new).get key = doc.getPolicy key := by
  unfold getPolicy
  cases doc.policy with
  | none => simp [LWWMap.new, LWWMap.get]
  | some m => rfl

theorem SameFields.entryList_perm {doc doc' : AjnaDocument} (h : SameFields doc doc')
    (o o' : IterOrder String) :
    ((doc.service.getD LWWMap.new).entryList o).Perm ((doc'.service.getD LWWMap.new).entryList o') ∧
      ((doc.policy.getD LWWMap.new).entryList o).Perm
        ((doc'.policy.getD LWWMap.new).entryList o') := by
  refine ⟨LWWMap.entryList_perm (fun key => ?_) o o', LWWMap.entryList_perm (fun key => ?_) o o'⟩
  · rw [getService_eq, getService_eq, h.services]
  · rw [getPolicy_eq, getPolicy_eq, h.policy]

/-- **Interchangeable members leave no trace of the order.** -/
theorem Interchangeable.map_text_eq {doc doc' : AjnaDocument} (h : Interchangeable host doc)
    (hsame : SameFields doc doc') (orders orders' : FieldOrders) :
    (doc.fields orders).map (text host) = (doc'.fields orders').map (text host) := by
  have hcontrollers : layout (controllerTexts host) 0 (orders.controllers.list doc.controllerSet) =
      layout (controllerTexts host) 0 (orders'.controllers.list doc'.controllerSet) := by
    rw [← hsame.controllers]
    refine layout_congr (fun a ha b hb i => ?_) (list_perm _ _ _).length_eq 0
    rw [mem_list] at ha hb
    rw [controllerTexts, controllerTexts, text, text, h.controllers a ha b hb]
  have hmethods : layout (methodTextsAt host) 0 (orders.methods.list doc.verificationMethods.keys) =
      layout (methodTextsAt host) 0 (orders'.methods.list doc'.verificationMethods.keys) := by
    rw [← hsame.methods]
    refine layout_congr (fun a ha b hb i => ?_) (list_perm _ _ _).length_eq 0
    rw [mem_list] at ha hb
    rw [methodTextsAt, methodTextsAt, h.methods a ha b hb]
  have hservices : layout (fun _ => serviceTexts host) 0
      ((doc.service.getD LWWMap.new).entryList orders.services) =
      layout (fun _ => serviceTexts host) 0
        ((doc'.service.getD LWWMap.new).entryList orders'.services) := by
    refine layout_congr (fun a ha b hb _ => ?_) (hsame.entryList_perm _ _).1.length_eq 0
    rw [LWWMap.mem_entryList, getService_eq] at ha hb
    rw [← hsame.services] at hb
    exact h.services _ _ _ _ ha hb
  have hpolicy : layout (fun _ => policyTexts host) 0
      ((doc.policy.getD LWWMap.new).entryList orders.policy) =
      layout (fun _ => policyTexts host) 0
        ((doc'.policy.getD LWWMap.new).entryList orders'.policy) := by
    refine layout_congr (fun a ha b hb _ => ?_) (hsame.entryList_perm _ _).2.length_eq 0
    rw [LWWMap.mem_entryList, getPolicy_eq] at ha hb
    rw [← hsame.policy] at hb
    exact h.policy _ _ _ _ ha hb
  have hflag : doc.deactivatedPart = doc'.deactivatedPart := by
    unfold deactivatedPart
    rw [hsame.deactivated]
  rw [map_text_fields, map_text_fields, hsame.id, hcontrollers, hmethods, hservices, hpolicy, hflag]

/-! ## What the root tells about the order -/

theorem length_fields (host : FieldHost) (doc : AjnaDocument) (orders orders' : FieldOrders) :
    ((doc.fields orders).map (text host)).length =
      ((doc.fields orders').map (text host)).length := by
  obtain ⟨hservices, -⟩ :=
    (refl doc).entryList_perm orders.services orders'.services
  obtain ⟨-, hpolicy⟩ := (refl doc).entryList_perm orders.policy orders'.policy
  have hcontrollers :=
    list_perm orders.controllers orders'.controllers doc.controllerSet
  have hmethods :=
    list_perm orders.methods orders'.methods doc.verificationMethods.keys
  have hlen : ∀ i vm, (methodTextsAt host i vm).length = (methodTextsAt host 0 vm).length :=
    fun _ _ => (length_map _).trans (length_map _).symm
  rw [map_text_fields, map_text_fields]
  simp only [length_cons, length_append]
  rw [length_layout_perm (controllerTexts host) (fun _ _ => rfl) hcontrollers,
    length_layout_perm (methodTextsAt host) hlen hmethods,
    length_layout_perm (fun _ => serviceTexts host) (fun _ _ => rfl) hservices,
    length_layout_perm (fun _ => policyTexts host) (fun _ _ => rfl) hpolicy]

def allHashedBytes (host : FieldHost) (doc : AjnaDocument) : Set (List UInt8) :=
  {bytes | ∃ orders, bytes ∈ hashedBytes host doc orders}

/-- **Without collisions, a root that does not depend on the order comes from texts that do
not.** -/
theorem OrderFree.map_text_eq {doc : AjnaDocument} (h : OrderFree host doc)
    (hjson : host.PrintsJson) (hcf : Set.InjOn host.blake3 (allHashedBytes host doc))
    (orders orders' : FieldOrders) :
    (doc.fields orders).map (text host) = (doc.fields orders').map (text host) := by
  obtain ⟨index, hbuild⟩ := exists_build hjson doc orders
  obtain ⟨index', hbuild'⟩ := exists_build hjson doc orders'
  have hroot := h doc orders orders' index index' (refl doc) hbuild hbuild'
  have hleaves : ∀ o, leaves host doc o = ((doc.fields o).map (text host)).map (leaf host) :=
    fun o => (map_map).symm
  have heq : leaves host doc orders = leaves host doc orders' := by
    refine eq_of_top_eq (hashPair_injOn hcf) ?_ ?_ ?_ ?_
    · exact fun p hp => ⟨orders, .inr ⟨p, hp, rfl⟩⟩
    · exact fun p hp => ⟨orders', .inr ⟨p, hp, rfl⟩⟩
    · rw [hleaves, hleaves]
      exact (length_map _).trans ((length_fields host doc orders orders').trans (length_map _).symm)
    · rw [(leaves_of_build hbuild).2.1, (leaves_of_build hbuild').2.1, hroot]
  rw [hleaves, hleaves] at heq
  refine eq_of_map_eq_map (S := {t | dstAjnaField ++ t ∈ allHashedBytes host doc}) ?_
    ?_ ?_ heq
  · intro t ht t' ht' htt
    exact append_cancel_left (hcf ht ht' htt)
  · intro t ht
    obtain ⟨f, hf, rfl⟩ := mem_map.1 ht
    exact ⟨orders, .inl ⟨f, hf, rfl⟩⟩
  · intro t ht
    obtain ⟨f, hf, rfl⟩ := mem_map.1 ht
    exact ⟨orders', .inl ⟨f, hf, rfl⟩⟩

theorem mem_keys_of_get {V : Type} {m : LWWMap String V} {key : String} {value : V}
    (h : m.get key = some value) : key ∈ m.entries.keys := by
  obtain ⟨entry, hentry, -⟩ := Option.bind_eq_some_iff.1 h
  exact Finmap.mem_keys.2 (Finmap.mem_of_lookup_eq_some hentry)

theorem exists_entryList_first {V : Type} {m : LWWMap String V} {key : String} {value : V}
    (h : m.get key = some value) : ∃ l, m.entryList (first key) = (key, value) :: l := by
  obtain ⟨l, hl⟩ := exists_list_first key (mem_keys_of_get h)
  refine ⟨l.filterMap fun k => (m.get k).map fun v => (k, v), ?_⟩
  rw [LWWMap.entryList, hl, filterMap_cons, h]
  rfl

theorem methodTexts_eq {a b : VerificationMethod} {l l' : List VerificationMethod}
    (h : layout (methodTextsAt host) 0 (a :: l) = layout (methodTextsAt host) 0 (b :: l')) :
    methodTexts host a = methodTexts host b := by
  -- the paths say which texts are those of place 0
  have hzero : ∀ vm, ∀ t ∈ methodTextsAt host 0 vm,
      decide (asBytes "/verificationMethod/0" <+: t) = true := by
    intro vm t ht
    obtain ⟨u, -, rfl⟩ := mem_map.1 ht
    exact decide_eq_true (prefix_append _ _)
  have hone : ∀ l, ∀ t ∈ (layout (methodTextsAt host) 1 l).head?,
      decide (asBytes "/verificationMethod/0" <+: t) = false := by
    intro l t ht
    cases l with
    | nil => cases ht
    | cons vm l =>
      rw [layout_cons] at ht
      cases ht
      refine decide_eq_false fun hpre => ?_
      have hlen := prefix_of_prefix_length_le hpre
        (prefix_append (asBytes "/verificationMethod/1") _) (by decide)
      exact absurd hlen (by decide)
  rw [layout_cons] at h
  have hblock := eq_of_append_eq_append (hzero a) (hzero b) (hone l) (hone l') h
  exact map_injective_iff.2 (fun _ _ h => append_cancel_left h) hblock

/-! ### Two members in the first place

Each time two members take turns in the first place and everything else stays. -/

section

variable {doc : AjnaDocument} (h : OrderFree host doc) (hjson : host.PrintsJson)
  (hcf : Set.InjOn host.blake3 (allHashedBytes host doc))

include h hjson hcf

theorem OrderFree.controllers {a b : String} (ha : a ∈ doc.controllerSet)
    (hb : b ∈ doc.controllerSet) : valueBytes host (.string a) = valueBytes host (.string b) := by
  have htexts := h.map_text_eq hjson hcf ⟨.first a, .some, .some, .some⟩
    ⟨.first b, .some, .some, .some⟩
  obtain ⟨l, hl⟩ := exists_list_first a ha
  obtain ⟨l', hl'⟩ := exists_list_first b hb
  rw [map_text_fields, map_text_fields] at htexts
  have hpart := append_cancel_right (cons.inj htexts).2
  rw [hl, hl', layout_cons] at hpart
  exact append_cancel_left (cons.inj hpart).1

theorem OrderFree.methods {a b : VerificationMethod} (ha : a ∈ doc.verificationMethods.keys)
    (hb : b ∈ doc.verificationMethods.keys) : methodTexts host a = methodTexts host b := by
  have htexts := h.map_text_eq hjson hcf ⟨.some, .first a, .some, .some⟩
    ⟨.some, .first b, .some, .some⟩
  obtain ⟨l, hl⟩ := exists_list_first a ha
  obtain ⟨l', hl'⟩ := exists_list_first b hb
  rw [map_text_fields, map_text_fields] at htexts
  have hpart := append_cancel_right (append_cancel_left (cons.inj htexts).2)
  rw [hl, hl'] at hpart
  exact methodTexts_eq hpart

theorem OrderFree.services {key key' : String} {service service' : Service}
    (hs : doc.getService key = some service) (hs' : doc.getService key' = some service') :
    serviceTexts host (key, service) = serviceTexts host (key', service') := by
  have htexts := h.map_text_eq hjson hcf ⟨.some, .some, .first key, .some⟩
    ⟨.some, .some, .first key', .some⟩
  rw [← getService_eq] at hs hs'
  obtain ⟨l, hl⟩ := exists_entryList_first hs
  obtain ⟨l', hl'⟩ := exists_entryList_first hs'
  rw [map_text_fields, map_text_fields] at htexts
  have hpart := append_cancel_right (append_cancel_left (append_cancel_left (cons.inj htexts).2))
  rw [hl, hl', layout_cons] at hpart
  exact (append_inj hpart rfl).1

theorem OrderFree.policy {key key' : String} {value value' : Json}
    (hv : doc.getPolicy key = some value) (hv' : doc.getPolicy key' = some value') :
    policyTexts host (key, value) = policyTexts host (key', value') := by
  have htexts := h.map_text_eq hjson hcf ⟨.some, .some, .some, .first key⟩
    ⟨.some, .some, .some, .first key'⟩
  rw [← getPolicy_eq] at hv hv'
  obtain ⟨l, hl⟩ := exists_entryList_first hv
  obtain ⟨l', hl'⟩ := exists_entryList_first hv'
  rw [map_text_fields, map_text_fields] at htexts
  have hpart := append_cancel_right (append_cancel_left
    (append_cancel_left (append_cancel_left (cons.inj htexts).2)))
  rw [hl, hl', layout_cons] at hpart
  exact (append_inj hpart rfl).1

end

/-- **The root is a function of the document exactly when the members of each collection are
interchangeable**, if the hash does not collide on the bytes that are hashed. -/
theorem orderFree_iff (host : FieldHost) (hjson : host.PrintsJson) (doc : AjnaDocument)
    (hcf : Set.InjOn host.blake3 (allHashedBytes host doc)) :
    OrderFree host doc ↔ Interchangeable host doc := by
  constructor
  · intro h
    exact
      { controllers := fun _ ha _ hb => h.controllers hjson hcf ha hb
        methods := fun _ ha _ hb => h.methods hjson hcf ha hb
        services := fun _ _ _ _ hs hs' => h.services hjson hcf hs hs'
        policy := fun _ _ _ _ hv hv' => h.policy hjson hcf hv hv' }
  · intro h doc' orders orders' index index' hsame hbuild hbuild'
    have hleaves : leaves host doc orders = leaves host doc' orders' := by
      have htexts := congrArg (map (leaf host)) (h.map_text_eq hsame orders orders')
      rwa [map_map, map_map] at htexts
    have htop := (leaves_of_build hbuild).2.1
    rw [hleaves, (leaves_of_build hbuild').2.1] at htop
    exact (Option.some.inj htop).symm

open Sample

theorem orderFree_full : OrderFree fullHost fullDocument := by
  have hservice : ∀ key service, fullDocument.getService key = some service → key = "hub" :=
    fun key service h => Finset.mem_singleton.1 (mem_keys_of_get ((getService_eq _ _).trans h))
  have hpolicy : ∀ key value, fullDocument.getPolicy key = some value → key = "quorum" :=
    fun key value h => Finset.mem_singleton.1 (mem_keys_of_get ((getPolicy_eq _ _).trans h))
  refine (orderFree_iff fullHost (prints_tableHost _) fullDocument
    ((injOn_tableHost (by decide +kernel)).mono fun _ ⟨orders, h⟩ => hashedBytes_full orders h)).2
    ⟨?_, ?_, ?_, ?_⟩
  · rw [controllerSet_full]
    rintro a ha b hb
    rw [Finset.mem_singleton.1 ha, Finset.mem_singleton.1 hb]
  · rw [methods_full]
    rintro a ha b hb
    rw [Finset.mem_singleton.1 ha, Finset.mem_singleton.1 hb]
  · intro key service key' service' hs hs'
    obtain rfl := hservice _ _ hs
    obtain rfl := hservice _ _ hs'
    obtain rfl := Option.some.inj (hs.symm.trans hs')
    rfl
  · intro key value key' value' hv hv'
    obtain rfl := hpolicy _ _ hv
    obtain rfl := hpolicy _ _ hv'
    obtain rfl := Option.some.inj (hv.symm.trans hv')
    rfl

end FieldIndex

namespace Sample

open FieldIndex

def twoControllers : AjnaDocument :=
  .newWithGenesis did "node1" ["did:ajna:bob", "did:ajna:carol"] [] 0 0 (fun i => i) (fun _ => 0)

def twoTable : List (List UInt8) :=
  table [("/id", .string did), ("/controller/0", .string "did:ajna:bob"),
    ("/controller/1", .string "did:ajna:carol"), ("/controller/0", .string "did:ajna:carol"),
    ("/controller/1", .string "did:ajna:bob")]
    [(0, 1), (2, 2), (5, 6), (0, 3), (4, 4), (8, 9)]

theorem hashedBytes_two (orders : FieldOrders) :
    hashedBytes (tableHost twoTable) twoControllers orders ⊆ {bytes | bytes ∈ twoTable} := by
  have hfields : ∃ a b, twoControllers.fields orders = [("/id", .string did),
      ("/controller/0", .string a), ("/controller/1", .string b)] ∧
      (a, b) ∈ [("did:ajna:bob", "did:ajna:carol"), ("did:ajna:carol", "did:ajna:bob")] := by
    have hset : twoControllers.controllerSet = {"did:ajna:bob", "did:ajna:carol"} := by decide
    have hmethods : twoControllers.verificationMethods.keys = ∅ := by decide
    have hservices : (twoControllers.service.getD LWWMap.new).entries.keys = ∅ := by decide
    have hpolicy : (twoControllers.policy.getD LWWMap.new).entries.keys = ∅ := by decide
    have hperm : (orders.controllers.list twoControllers.controllerSet).Perm
        ["did:ajna:bob", "did:ajna:carol"] := by
      rw [← Multiset.coe_eq_coe, orders.controllers.spec, hset]
      rfl
    simp only [AjnaDocument.fields, controllerPart, methodPart, servicePart, policyPart,
      deactivatedPart, LWWMap.entryList, hmethods, hservices, hpolicy, list_empty]
    rcases perm_pair.1 hperm with h | h
    · exact ⟨_, _, by rw [h]; rfl, mem_cons_self⟩
    · exact ⟨_, _, by rw [h]; rfl, mem_cons_of_mem _ mem_cons_self⟩
  obtain ⟨a, b, hfields, hab⟩ := hfields
  have hleaf : ∀ f ∈ twoControllers.fields orders,
      dstAjnaField ++ text (tableHost twoTable) f ∈ twoTable := by
    rw [hfields]
    simp only [mem_cons, not_mem_nil, or_false, Prod.mk.injEq] at hab
    rcases hab with ⟨rfl, rfl⟩ | ⟨rfl, rfl⟩ <;> decide +kernel
  rintro bytes (⟨f, hf, rfl⟩ | ⟨p, hp, rfl⟩)
  · exact hleaf f hf
  · rw [leaves, hfields] at hp
    rw [hashedPairs_of_lt (by simp), hashedPairs_of_lt (by simp [length_nextLevel]), hashedPairs,
      if_neg (by simp [length_nextLevel])] at hp
    simp only [mem_cons, not_mem_nil, or_false, Prod.mk.injEq] at hab
    revert p
    rcases hab with ⟨rfl, rfl⟩ | ⟨rfl, rfl⟩ <;> decide +kernel

end Sample

namespace FieldIndex

open Sample

theorem orderFree_fails_twoControllers : (tableHost twoTable).PrintsJson ∧
    Set.InjOn (tableHost twoTable).blake3 (allHashedBytes (tableHost twoTable) twoControllers) ∧
    ¬ OrderFree (tableHost twoTable) twoControllers := by
  have hcf : Set.InjOn (tableHost twoTable).blake3
      (allHashedBytes (tableHost twoTable) twoControllers) :=
    (injOn_tableHost (by decide +kernel)).mono fun _ ⟨orders, h⟩ => hashedBytes_two orders h
  refine ⟨prints_tableHost _, hcf, fun h => ?_⟩
  have heq := h.controllers (prints_tableHost _) hcf (a := "did:ajna:bob") (b := "did:ajna:carol")
    (by decide) (by decide)
  exact absurd heq (by decide +kernel)

end FieldIndex
end Idiom.Ajna
