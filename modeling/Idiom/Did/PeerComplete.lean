import Idiom.Did.PeerLongForm

/-!
# The document of a did:peer:4 as the resolver completes it

The resolver fills in controllers, hoists embedded methods and reads the result as a DID document.
-/

namespace Idiom.Did

open Ajna (Json)
open Ajna.JsonReader List VerificationRelationship OrderedMap

/-! ## The completed document -/

def mapItems (f : Json → Json) : Json → Json
  | .array items => .array (items.map f)
  | value => value

/-- What stands under a name before the methods are hoisted. -/
def filled (did short : String) (fields : Fields) : Fields :=
  fillControllers did ("verificationMethod" :: relationships)
    (insert "alsoKnownAs" (.array [.string short]) (insert "id" (.string did) fields))

theorem get_fillField (did : String) (fields : Fields) (name key : String) :
    get (fillField did fields name) key =
      if key = name then (get fields key).map (mapItems (withController did))
      else get fields key := by
  unfold fillField
  by_cases hkey : key = name
  · rw [if_pos hkey]
    subst hkey
    split
    · next items hitems =>
      rw [get_insert, if_pos rfl, hitems]
      rfl
    · next hother =>
      cases hget : get fields key with
      | none => rfl
      | some value =>
        cases value with
        | array items => exact absurd hget (hother items)
        | null | bool b | number n | string s | object m => rfl
  · rw [if_neg hkey]
    split
    · rw [get_insert, if_neg fun h => hkey h.symm]
    · rfl

theorem get_fillControllers (did : String) {names : List String} (hnodup : names.Nodup)
    (fields : Fields) (key : String) :
    get (fillControllers did names fields) key =
      if key ∈ names then (get fields key).map (mapItems (withController did))
      else get fields key := by
  induction names generalizing fields with
  | nil => simp [fillControllers]
  | cons name names ih =>
    obtain ⟨hname, hnames⟩ := nodup_cons.1 hnodup
    unfold fillControllers at ih ⊢
    rw [foldl_cons, ih hnames, get_fillField]
    by_cases hkey : key = name
    · rw [if_neg (hkey ▸ hname), if_pos hkey, if_pos (hkey ▸ mem_cons_self)]
    · rw [if_neg hkey]
      by_cases hmem : key ∈ names
      · rw [if_pos hmem, if_pos (mem_cons_of_mem _ hmem)]
      · rw [if_neg hmem, if_neg fun h => (mem_cons.1 h).elim hkey hmem]

section

variable (did short : String) (fields : Fields)

theorem get_filled {key : String} (hid : key ≠ "id") (hknown : key ≠ "alsoKnownAs") :
    get (filled did short fields) key =
      if key ∈ "verificationMethod" :: relationships then
        (get fields key).map (mapItems (withController did))
      else get fields key := by
  unfold filled
  rw [get_fillControllers did (by decide), get_insert, get_insert,
    if_neg hknown.symm, if_neg hid.symm]

theorem get_complete (key : String) :
    get (complete did short fields) key =
      if key = "verificationMethod" ∧ hoist (filled did short fields) ≠ [] then
        some (.array (hoist (filled did short fields)))
      else get (filled did short fields) key := by
  show get (if (hoist (filled did short fields)).isEmpty then filled did short fields
    else insert "verificationMethod" (.array (hoist (filled did short fields)))
      (filled did short fields)) key = _
  by_cases hempty : hoist (filled did short fields) = []
  · simp [hempty]
  · rw [if_neg (by simpa using hempty), get_insert]
    by_cases hkey : "verificationMethod" = key
    · rw [if_pos hkey, if_pos ⟨hkey.symm, hempty⟩]
    · rw [if_neg hkey, if_neg fun h => hkey h.1.symm]

theorem get_complete_id : get (complete did short fields) "id" = some (.string did) := by
  rw [get_complete, if_neg fun h => absurd h.1 (by decide)]
  unfold filled
  rw [get_fillControllers did (by decide), if_neg (by decide), get_insert,
    if_neg (by decide), get_insert, if_pos rfl]

theorem get_complete_alsoKnownAs :
    get (complete did short fields) "alsoKnownAs" = some (.array [.string short]) := by
  rw [get_complete, if_neg fun h => absurd h.1 (by decide)]
  unfold filled
  rw [get_fillControllers did (by decide), if_neg (by decide), get_insert, if_pos rfl]

theorem get_complete_relationship {name : String} (h : name ∈ relationships) :
    get (complete did short fields) name =
      (get fields name).map (mapItems (withController did)) := by
  have hother : name ≠ "verificationMethod" ∧ name ≠ "id" ∧ name ≠ "alsoKnownAs" := by
    revert h
    exact (by decide : ∀ name ∈ relationships,
      name ≠ "verificationMethod" ∧ name ≠ "id" ∧ name ≠ "alsoKnownAs") name
  rw [get_complete, if_neg fun h => hother.1 h.1, get_filled did short fields hother.2.1 hother.2.2,
    if_pos (mem_cons_of_mem _ h)]

theorem get_complete_other {name : String}
    (h : name ∉ "id" :: "alsoKnownAs" :: "verificationMethod" :: relationships) :
    get (complete did short fields) name = get fields name := by
  simp only [mem_cons, not_or] at h
  obtain ⟨hid, hknown, hmethod, hrelationship⟩ := h
  rw [get_complete, if_neg fun h => hmethod h.1, get_filled did short fields hid hknown, if_neg]
  simp only [mem_cons, not_or]
  exact ⟨hmethod, hrelationship⟩

end

/-! ## Hoisted methods -/

def Covers (ids : List String) (methods : List Json) : Prop :=
  ∀ id, id ∈ ids ↔ ∃ method ∈ methods, idOf method = some id

section

variable {ids : List String} {methods items : List Json} {q : Json → Bool}

theorem covers_filterMap (methods : List Json) : Covers (methods.filterMap idOf) methods := by
  intro id
  rw [mem_filterMap]

theorem Covers.concat (h : Covers ids methods) {item : Json} {id : String}
    (hid : idOf item = some id) : Covers (id :: ids) (methods ++ [item]) := by
  intro id'
  rw [mem_cons, h id']
  constructor
  · rintro (rfl | ⟨method, hmethod, hid'⟩)
    · exact ⟨item, mem_append_right _ (mem_singleton_self _), hid⟩
    · exact ⟨method, mem_append_left _ hmethod, hid'⟩
  · rintro ⟨method, hmethod, hid'⟩
    rcases mem_append.1 hmethod with hmethod | hmethod
    · exact .inr ⟨method, hmethod, hid'⟩
    · rw [mem_singleton.1 hmethod, hid] at hid'
      exact .inl (Option.some.inj hid').symm

theorem foldl_hoistItem_eq (ids : List String) (methods items : List Json) :
    ∃ embedded, (items.foldl hoistItem (ids, methods)).2 = methods ++ embedded ∧
      ∀ method ∈ embedded, method ∈ items ∧ (idOf method).isSome := by
  induction items generalizing ids methods with
  | nil => exact ⟨[], (append_nil _).symm, fun method h => absurd h (not_mem_nil)⟩
  | cons item items ih =>
    have htail : ∀ {embedded : List Json},
        (∀ method ∈ embedded, method ∈ items ∧ (idOf method).isSome) →
        ∀ method ∈ embedded, method ∈ item :: items ∧ (idOf method).isSome :=
      fun h method hmethod => (h method hmethod).imp_left (mem_cons_of_mem _)
    rw [foldl_cons]
    cases hid : idOf item with
    | none =>
      rw [show hoistItem (ids, methods) item = (ids, methods) by unfold hoistItem; rw [hid]]
      obtain ⟨embedded, heq, hembedded⟩ := ih ids methods
      exact ⟨embedded, heq, htail hembedded⟩
    | some id =>
      by_cases hmem : id ∈ ids
      · rw [show hoistItem (ids, methods) item = (ids, methods) by
          unfold hoistItem; rw [hid]; exact if_pos hmem]
        obtain ⟨embedded, heq, hembedded⟩ := ih ids methods
        exact ⟨embedded, heq, htail hembedded⟩
      · rw [show hoistItem (ids, methods) item = (id :: ids, methods ++ [item]) by
          unfold hoistItem; rw [hid]; exact if_neg hmem]
        obtain ⟨embedded, heq, hembedded⟩ := ih (id :: ids) (methods ++ [item])
        refine ⟨item :: embedded, by rw [heq, append_assoc]; rfl, fun method hmethod => ?_⟩
        rcases mem_cons.1 hmethod with rfl | hmethod
        · exact ⟨mem_cons_self, by rw [hid]; rfl⟩
        · exact htail hembedded method hmethod

/-- **A search that goes by the id finds among the hoisted methods what it finds among all**: an
item is left out only behind another of its id. -/
theorem find?_foldl_hoistItem (hcovers : Covers ids methods)
    (hq : ∀ a b id, idOf a = some id → idOf b = some id → q a = q b) :
    (items.foldl hoistItem (ids, methods)).2.find? q =
      (methods ++ items.filter fun item => (idOf item).isSome).find? q := by
  induction items generalizing ids methods with
  | nil => rw [foldl_nil, filter_nil, append_nil]
  | cons item items ih =>
    rw [foldl_cons]
    cases hid : idOf item with
    | none =>
      rw [show hoistItem (ids, methods) item = (ids, methods) by unfold hoistItem; rw [hid],
        filter_cons_of_neg (by simp [hid])]
      exact ih hcovers
    | some id =>
      rw [filter_cons_of_pos (by simp [hid])]
      by_cases hmem : id ∈ ids
      · rw [show hoistItem (ids, methods) item = (ids, methods) by
          unfold hoistItem; rw [hid]; exact if_pos hmem, ih hcovers]
        obtain ⟨method, hmethod, hmethodId⟩ := (hcovers id).1 hmem
        have hsame : q method = q item := hq method item id hmethodId hid
        rw [find?_append, find?_append, find?_cons]
        split
        · next hitem =>
          -- the method of this id is found before
          obtain ⟨found, hfound⟩ : ∃ found, methods.find? q = some found :=
            Option.isSome_iff_exists.1 (find?_isSome.2 ⟨method, hmethod, hsame.trans hitem⟩)
          rw [hfound]
          rfl
        · rfl
      · rw [show hoistItem (ids, methods) item = (id :: ids, methods ++ [item]) by
          unfold hoistItem; rw [hid]; exact if_neg hmem, ih (hcovers.concat hid),
          append_assoc]
        rfl

end

/-- The methods of a document: those of `verificationMethod`, and behind them the embedded ones. -/
def candidates (fields : Fields) : List Json :=
  itemsOf fields "verificationMethod" ++
    (relationships.flatMap (itemsOf fields)).filter fun item => (idOf item).isSome

/-- The id of a method, which may be written by position. -/
def methodId : Json → Option String
  | .object method => (get method "id").bind Json.asStr
  | .array (id :: _) => id.asStr
  | _ => none

/-- The base58 key of a method, which may be written by position. -/
def methodKey : Json → Option String
  | .object method => (get method "publicKeyBase58").bind Json.asStr
  | .array [_, _, _, key, _, _] => key.asStr
  | _ => none

variable {item : Json}

theorem methodId_of_idOf {id : String} (h : idOf item = some id) : methodId item = some id := by
  cases item with
  | object method => exact h
  | null | bool b | number n | string s | array items => cases h

section

variable (did : String) (item : Json)

theorem get_withController (method : Fields) (key : String) (h : key ≠ "controller") :
    get (if (get method "controller").isSome then method
      else insert "controller" (.string did) method) key = get method key := by
  split
  · rfl
  · rw [get_insert, if_neg h.symm]

theorem idOf_withController : idOf (withController did item) = idOf item := by
  cases item with
  | object method =>
    exact congrArg (·.bind Json.asStr) (get_withController did method "id" (by decide))
  | null | bool b | number n | string s | array items => rfl

theorem methodId_withController : methodId (withController did item) = methodId item := by
  cases item with
  | object method =>
    exact congrArg (·.bind Json.asStr) (get_withController did method "id" (by decide))
  | null | bool b | number n | string s | array items => rfl

theorem methodKey_withController : methodKey (withController did item) = methodKey item := by
  cases item with
  | object method =>
    exact congrArg (·.bind Json.asStr) (get_withController did method "publicKeyBase58" (by decide))
  | null | bool b | number n | string s | array items => rfl

end

theorem itemsOf_filled (did short : String) (fields : Fields) {name : String}
    (h : name ∈ "verificationMethod" :: relationships) :
    itemsOf (filled did short fields) name = (itemsOf fields name).map (withController did) := by
  have hother : name ≠ "id" ∧ name ≠ "alsoKnownAs" := by
    revert h
    exact (by decide : ∀ name ∈ "verificationMethod" :: relationships,
      name ≠ "id" ∧ name ≠ "alsoKnownAs") name
  unfold itemsOf
  rw [get_filled did short fields hother.1 hother.2, if_pos h]
  cases get fields name with
  | none => rfl
  | some value =>
    cases value with
    | null | bool b | number n | string s | array items | object m => rfl

section

variable (did short : String) (fields : Fields)

theorem embedded_filled :
    relationships.flatMap (itemsOf (filled did short fields)) =
      (relationships.flatMap (itemsOf fields)).map (withController did) := by
  rw [map_flatMap]
  exact flatMap_congr fun name hname =>
    itemsOf_filled did short fields (mem_cons_of_mem _ hname)

theorem hoist_filled :
    hoist (filled did short fields) =
      (((relationships.flatMap (itemsOf fields)).map (withController did)).foldl hoistItem
        (((itemsOf fields "verificationMethod").map (withController did)).filterMap idOf,
          (itemsOf fields "verificationMethod").map (withController did))).2 := by
  unfold hoist
  rw [← embedded_filled did short, foldl_flatMap, itemsOf_filled did short fields mem_cons_self]

theorem candidates_filled :
    ((itemsOf fields "verificationMethod").map (withController did)) ++
        ((relationships.flatMap (itemsOf fields)).map (withController did)).filter
          (fun item => (idOf item).isSome) =
      (candidates fields).map (withController did) := by
  unfold candidates
  rw [map_append, filter_map]
  simp only [Function.comp_def, idOf_withController]

theorem find?_hoist {q : Json → Bool}
    (hq : ∀ a b id, idOf a = some id → idOf b = some id → q a = q b)
    (hcontroller : ∀ item, q (withController did item) = q item) :
    (hoist (filled did short fields)).find? q =
      ((candidates fields).find? q).map (withController did) := by
  rw [hoist_filled, find?_foldl_hoistItem (covers_filterMap _) hq, candidates_filled, find?_map]
  simp only [Function.comp_def, hcontroller]

theorem find?_hoist_methodId (id : String) :
    (hoist (filled did short fields)).find? (fun item => methodId item = some id) =
      ((candidates fields).find? fun item => methodId item = some id).map (withController did) := by
  refine find?_hoist did short fields (fun a b id' ha hb => ?_) fun item => ?_
  · rw [methodId_of_idOf ha, methodId_of_idOf hb]
  · rw [methodId_withController]

theorem hoist_eq_nil_iff : hoist (filled did short fields) = [] ↔ candidates fields = [] := by
  have hfind := find?_hoist did short fields (q := fun _ => true) (fun _ _ _ _ _ => rfl)
    fun _ => rfl
  constructor
  · intro h
    rw [h] at hfind
    cases hcandidates : candidates fields with
    | nil => rfl
    | cons item items =>
      rw [hcandidates] at hfind
      cases hfind
  · intro h
    rw [h] at hfind
    cases hhoist : hoist (filled did short fields) with
    | nil => rfl
    | cons item items =>
      rw [hhoist] at hfind
      cases hfind

end

/-! ## Which documents are read -/

/-- What is read as a method once a missing controller is filled in. -/
def isMethod : Json → Bool
  | .object method =>
    (get method "id").any isString && (get method "type").any isString &&
      (get method "controller").all isString &&
      (get method "publicKeyBase58").all isOptionalString &&
      (get method "publicKeyMultibase").all isOptionalString
  | .array [id, type_, controller, publicKeyBase58, publicKeyMultibase, _] =>
    isString id && isString type_ && isString controller && isOptionalString publicKeyBase58 &&
      isOptionalString publicKeyMultibase
  | _ => false

def isRelationship (item : Json) : Bool := isString item || isMethod item

theorem isSome_method (did : String) (item : Json) :
    (VerificationMethod.fromValue (withController did item)).isSome = isMethod item := by
  cases item with
  | object method =>
    have hcontroller : (get (if (get method "controller").isSome then method
        else insert "controller" (.string did) method) "controller").any isString =
        (get method "controller").all isString := by
      split
      · next hsome =>
        obtain ⟨controller, hget⟩ := Option.isSome_iff_exists.1 hsome
        rw [hget]
        rfl
      · next hnone =>
        rw [get_insert, Option.not_isSome_iff_eq_none.1 hnone]
        rfl
    simp only [withController, VerificationMethod.fromValue, isMethod]
    rw [VerificationMethod.isSome_read, hcontroller, get_withController did method _ (by decide),
      get_withController did method _ (by decide), get_withController did method _ (by decide),
      get_withController did method _ (by decide)]
  | array items =>
    rcases items with _ | ⟨id, _ | ⟨type_, _ | ⟨controller, _ | ⟨publicKeyBase58,
      _ | ⟨publicKeyMultibase, _ | ⟨publicKeyJwk, _ | ⟨item, items⟩⟩⟩⟩⟩⟩⟩
    · rfl
    · rfl
    · rfl
    · rfl
    · rfl
    · rfl
    · exact VerificationMethod.isSome_read
    · rfl
  | null | bool b | number n | string s => rfl

theorem isSome_relationship (did : String) (item : Json) :
    (fromValue (withController did item)).isSome = isRelationship item := by
  unfold isRelationship
  rw [← isSome_method did]
  cases item with
  | null | bool b | number n | string s => rfl
  | array items | object m => exact Option.isSome_map

theorem method_spec {m : VerificationMethod} (h : VerificationMethod.fromValue item = some m) :
    methodId item = some m.id ∧ methodKey item = m.publicKeyBase58 := by
  have hread : ∀ {id type_ controller publicKeyBase58 publicKeyMultibase publicKeyJwk :
    Option Json},
      VerificationMethod.read id type_ controller publicKeyBase58 publicKeyMultibase publicKeyJwk =
        some m →
      id.bind Json.asStr = some m.id ∧ publicKeyBase58.bind Json.asStr = m.publicKeyBase58 := by
    intro _ _ _ _ _ _ h
    obtain ⟨hid, -, -, hkey, -, -⟩ := VerificationMethod.read_eq_some_iff.1 h
    exact ⟨hid, (eq_bind_of_readOptional hkey).symm⟩
  unfold VerificationMethod.fromValue at h
  split at h
  · exact hread h
  · exact hread h
  · cases h

theorem isMethod_of_isRelationship (h : isRelationship item) (hid : (idOf item).isSome) :
    isMethod item := by
  rcases Bool.or_eq_true_iff.1 h with hstring | hmethod
  · cases item with
    | string s => cases hid
    | null | bool b | number n | array items | object m => cases hstring
  · exact hmethod

theorem isVec_map (p : Json → Bool) (f : Json → Json) (field : Option Json) :
    isVec p (field.map (mapItems f)) = isVec (fun item => p (f item)) field := by
  cases field with
  | none => rfl
  | some value =>
    cases value with
    | array items => exact all_map
    | null | bool b | number n | string s | object m => rfl

/-- The field of the methods is read, or the embedded methods take its place. -/
def isMethodField (fields : Fields) : Bool :=
  isVec isMethod (get fields "verificationMethod") ||
    (!isVec (fun _ => true) (get fields "verificationMethod") && !(candidates fields).isEmpty)

def areRelationships (fields : Fields) : Bool :=
  relationships.all fun name => isVec isRelationship (get fields name)

/-- **Which documents the resolver reads**, once they are completed. -/
def resolves (fields : Fields) : Bool :=
  isMethodField fields && areRelationships fields && isVec isService (get fields "service")

section

variable (did short : String) {fields : Fields}

theorem mem_candidates :
    item ∈ candidates fields ↔ item ∈ itemsOf fields "verificationMethod" ∨
      (∃ name ∈ relationships, item ∈ itemsOf fields name) ∧ (idOf item).isSome := by
  unfold candidates
  rw [mem_append, mem_filter, mem_flatMap]

theorem isMethod_of_embedded (h : areRelationships fields) {name : String}
    (hname : name ∈ relationships) (hitem : item ∈ itemsOf fields name) (hid : (idOf item).isSome) :
    isMethod item := by
  have hfield := all_eq_true.1 h name hname
  unfold itemsOf at hitem
  cases hget : get fields name with
  | none =>
    rw [hget] at hitem
    cases hitem
  | some value =>
    rw [hget] at hitem hfield
    cases value with
    | array items => exact isMethod_of_isRelationship (all_eq_true.1 hfield item hitem) hid
    | null | bool b | number n | string s | object m => cases hfield

theorem mem_hoist {method : Json} (h : method ∈ hoist (filled did short fields)) :
    ∃ item ∈ candidates fields, method = withController did item := by
  obtain ⟨embedded, heq, hembedded⟩ := foldl_hoistItem_eq
    (((itemsOf fields "verificationMethod").map (withController did)).filterMap idOf)
    ((itemsOf fields "verificationMethod").map (withController did))
    ((relationships.flatMap (itemsOf fields)).map (withController did))
  rw [hoist_filled, heq] at h
  rcases mem_append.1 h with hown | hmem
  · obtain ⟨item, hitem, rfl⟩ := mem_map.1 hown
    exact ⟨item, mem_candidates.2 (.inl hitem), rfl⟩
  · obtain ⟨hitems, hid⟩ := hembedded method hmem
    obtain ⟨item, hitem, rfl⟩ := mem_map.1 hitems
    rw [idOf_withController] at hid
    exact ⟨item, mem_candidates.2 (.inr ⟨mem_flatMap.1 hitem, hid⟩), rfl⟩

theorem mem_hoist_of_own (h : item ∈ itemsOf fields "verificationMethod") :
    withController did item ∈ hoist (filled did short fields) := by
  obtain ⟨embedded, heq, -⟩ := foldl_hoistItem_eq
    (((itemsOf fields "verificationMethod").map (withController did)).filterMap idOf)
    ((itemsOf fields "verificationMethod").map (withController did))
    ((relationships.flatMap (itemsOf fields)).map (withController did))
  rw [hoist_filled, heq]
  exact mem_append_left _ (mem_map_of_mem h)

theorem isVec_complete (hrelationships : areRelationships fields) :
    isVec (fun item => (VerificationMethod.fromValue item).isSome)
      (get (complete did short fields) "verificationMethod") = isMethodField fields := by
  have hempty := hoist_eq_nil_iff did short fields
  rw [get_complete]
  by_cases hhoist : hoist (filled did short fields) = []
  · have hnone := hempty.1 hhoist
    rw [if_neg fun h => h.2 hhoist, get_filled did short fields (by decide) (by decide),
      if_pos mem_cons_self, isVec_map]
    simp only [isSome_method]
    unfold isMethodField
    rw [hnone]
    simp
  · rw [if_pos ⟨rfl, hhoist⟩]
    have hsome : candidates fields ≠ [] := fun h => hhoist (hempty.2 h)
    have hall : isVec (fun item => (VerificationMethod.fromValue item).isSome)
        (some (.array (hoist (filled did short fields)))) =
        (itemsOf fields "verificationMethod").all isMethod := by
      rw [Bool.eq_iff_iff]
      constructor
      · intro h
        refine all_eq_true.2 fun item hitem => ?_
        rw [← isSome_method did]
        exact all_eq_true.1 h _ (mem_hoist_of_own did short hitem)
      · intro h
        refine all_eq_true.2 fun method hmethod => ?_
        obtain ⟨item, hitem, rfl⟩ := mem_hoist did short hmethod
        rw [isSome_method]
        rcases mem_candidates.1 hitem with hown | ⟨⟨name, hname, hmem⟩, hid⟩
        · exact all_eq_true.1 h item hown
        · exact isMethod_of_embedded hrelationships hname hmem hid
    rw [hall]
    unfold isMethodField itemsOf
    cases hget : get fields "verificationMethod" with
    | none => rfl
    | some value =>
      cases value with
      | array items => simp [isVec, Json.asArray]
      | null | bool b | number n | string s | object m => simp [isVec, Json.asArray, hsome]

/-- **The resolver reads what it can**: the completed document is a DID document if the embedded
one is. -/
theorem isSome_fromValue :
    (DidDocument.fromValue (.object (complete did short fields))).isSome ↔ resolves fields := by
  have hrelationship : ∀ name ∈ relationships,
      (readDefault fromValue (get (complete did short fields) name)).isSome =
          isVec isRelationship (get fields name) := by
    intro name hname
    rw [isSome_readDefault, get_complete_relationship did short fields hname, isVec_map]
    simp only [isSome_relationship]
  have hservice : (readDefault Service.fromValue
      (get (complete did short fields) "service")).isSome =
      isVec isService (get fields "service") := by
    rw [isSome_readDefault, get_complete_other did short fields (by decide)]
    simp only [isSome_service]
  have hmethods : areRelationships fields → (readDefault VerificationMethod.fromValue
      (get (complete did short fields) "verificationMethod")).isSome = isMethodField fields := by
    intro h
    rw [isSome_readDefault, isVec_complete did short h]
  unfold resolves
  simp only [Bool.and_eq_true]
  constructor
  · intro h
    obtain ⟨d, hd⟩ := Option.isSome_iff_exists.1 h
    obtain ⟨-, hvm, hauth, hassert, hagree, hinvoke, hdelegate, hsvc, -⟩ :=
      DidDocument.read_eq_some_iff.1 hd
    have hall : areRelationships fields := by
      refine all_eq_true.2 fun name hname => ?_
      rw [← hrelationship name hname]
      simp only [relationships, mem_cons, not_mem_nil, or_false] at hname
      rcases hname with rfl | rfl | rfl | rfl | rfl
      · rw [hauth]; rfl
      · rw [hagree]; rfl
      · rw [hassert]; rfl
      · rw [hdelegate]; rfl
      · rw [hinvoke]; rfl
    refine ⟨⟨?_, hall⟩, ?_⟩
    · rw [← hmethods hall, hvm]
      rfl
    · rw [← hservice, hsvc]
      rfl
  · rintro ⟨⟨hvm, hall⟩, hsvc⟩
    have hread : ∀ name ∈ relationships, ∃ l, readDefault fromValue
        (get (complete did short fields) name) = some l := by
      intro name hname
      rw [← Option.isSome_iff_exists, hrelationship name hname]
      exact all_eq_true.1 hall name hname
    rw [← hmethods hall] at hvm
    rw [← hservice] at hsvc
    obtain ⟨methods, hvm⟩ := Option.isSome_iff_exists.1 hvm
    obtain ⟨services, hsvc⟩ := Option.isSome_iff_exists.1 hsvc
    obtain ⟨authentication, hauth⟩ := hread "authentication" (by decide)
    obtain ⟨assertionMethod, hassert⟩ := hread "assertionMethod" (by decide)
    obtain ⟨keyAgreement, hagree⟩ := hread "keyAgreement" (by decide)
    obtain ⟨capabilityInvocation, hinvoke⟩ := hread "capabilityInvocation" (by decide)
    obtain ⟨capabilityDelegation, hdelegate⟩ := hread "capabilityDelegation" (by decide)
    obtain ⟨context, hcontext⟩ := Option.isSome_iff_exists.1
      (isSome_readOptional_some (get (complete did short fields) "@context"))
    obtain ⟨controller, hcontroller⟩ := Option.isSome_iff_exists.1
      (isSome_readOptional_some (get (complete did short fields) "controller"))
    refine Option.isSome_iff_exists.2 ⟨⟨did, methods, authentication, assertionMethod, keyAgreement,
      capabilityInvocation, capabilityDelegation, services, context, [short], controller⟩, ?_⟩
    refine DidDocument.read_eq_some_iff.2 ⟨?_, hvm, hauth, hassert, hagree, hinvoke, hdelegate,
      hsvc, hcontext, ?_, hcontroller⟩
    · rw [get_complete_id]
      rfl
    · rw [get_complete_alsoKnownAs]
      rfl

variable {did short}

theorem mapM_hoist {d : DidDocument}
    (h : DidDocument.fromValue (.object (complete did short fields)) = some d) :
    (hoist (filled did short fields)).mapM VerificationMethod.fromValue =
      some d.verificationMethod := by
  obtain ⟨-, hvm, -⟩ := DidDocument.read_eq_some_iff.1 h
  rw [get_complete] at hvm
  by_cases hhoist : hoist (filled did short fields) = []
  · rw [if_neg fun h => h.2 hhoist, get_filled did short fields (by decide) (by decide)] at hvm
    have hown : itemsOf fields "verificationMethod" = [] :=
      (append_eq_nil_iff.1 ((hoist_eq_nil_iff did short fields).1 hhoist)).1
    rw [hhoist, ← hvm]
    unfold itemsOf at hown
    cases hget : get fields "verificationMethod" with
    | none => rfl
    | some value =>
      rw [hget] at hvm hown
      cases value with
      | array items =>
        rw [show items = [] from hown]
        rfl
      | null | bool b | number n | string s | object m => cases hvm
  · rw [if_pos ⟨rfl, hhoist⟩] at hvm
    exact hvm

def exactKey (fields : Fields) (id : String) : Option String :=
  ((candidates fields).find? fun item => methodId item = some id).bind methodKey

theorem exactKey_eq_some_iff {d : DidDocument}
    (h : DidDocument.fromValue (.object (complete did short fields)) = some d) (id key : String) :
    (∃ method, d.verificationMethod.find? (fun method => method.id = id) = some method ∧
      method.publicKeyBase58 = some key) ↔ exactKey fields id = some key := by
  have hmapM := mapM_hoist h
  have hfind := find?_of_mapM (fun method => decide (method.id = id))
    (fun item => decide (methodId item = some id)) hmapM fun item _ method hmethod => by
      rw [(method_spec hmethod).1]
      simp
  have hfound := find?_hoist_methodId did short fields id
  rw [hfind, hfound]
  unfold exactKey
  cases hitem : (candidates fields).find? fun item => decide (methodId item = some id) with
  | none => simp
  | some item =>
    have hread : (VerificationMethod.fromValue (withController did item)).isSome := by
      have hmem : withController did item ∈ hoist (filled did short fields) := by
        rw [hitem] at hfound
        exact mem_of_find?_eq_some hfound
      have hall : (hoist (filled did short fields)).all
          fun item => (VerificationMethod.fromValue item).isSome := by
        rw [← isSome_mapM, hmapM]
        rfl
      exact all_eq_true.1 hall _ hmem
    obtain ⟨method, hmethod⟩ := Option.isSome_iff_exists.1 hread
    have hkey := (method_spec hmethod).2
    rw [methodKey_withController] at hkey
    simp [hmethod, hkey]

end

end Idiom.Did
