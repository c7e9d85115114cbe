import Idiom.Ajna.Operation
import Idiom.Lib.CausalOrder

/-!
# Replaying operations on a document

A replica applies the deltas of a list of operations to a new document. This file
says what the result shows, one cell at a time, as a function of the list.

Services depend on the replica's own clock readings; they have a section of their own.
-/

namespace Idiom.Ajna

open Causal (lastWrite?)
open Operation List Delta ORSet Ranked LWWEntry

/-! ## What a document shows -/

/-- What a document shows, cell by cell. -/
structure View where
  methods : VerificationMethod → Bool
  refs : VerificationPurpose → String → Bool
  services : String → Option Service
  policy : String → Option Json
  controllers : String → Bool
  deactivated : Bool

namespace AjnaDocument

/-- A purpose that has no set yet shows no references. -/
def showsRef (doc : AjnaDocument) (p : VerificationPurpose) (r : String) : Bool :=
  ((doc.purposeSet p).getD ORSet.new).contains r

def view (doc : AjnaDocument) : View where
  methods := doc.verificationMethods.contains
  refs := doc.showsRef
  services := doc.getService
  policy := doc.getPolicy
  controllers := doc.isController
  deactivated := doc.isDeactivated

/-! ## Replay -/

/-- Apply the deltas of operations one after another, each with its ambient values. -/
def applyAllV2 (doc : AjnaDocument) (l : List (Operation × Ambient)) : Result AjnaDocument :=
  l.foldlM (fun doc p => doc.applyDeltaV2 p.1.delta p.2) doc

theorem applyAllV2_append_ok {doc d : AjnaDocument} {l₁ l₂ : List (Operation × Ambient)}
    (h : doc.applyAllV2 (l₁ ++ l₂) = .ok d) :
    ∃ d₁, doc.applyAllV2 l₁ = .ok d₁ ∧ d₁.applyAllV2 l₂ = .ok d := by
  unfold applyAllV2 at *
  rw [foldlM_append] at h
  cases hd : l₁.foldlM (fun doc p => doc.applyDeltaV2 p.1.delta p.2) doc with
  | error fault => rw [hd] at h; cases h
  | ok d₁ => rw [hd] at h; exact ⟨d₁, rfl, h⟩

variable {l : List (Operation × Ambient)}

theorem applyAllV2_snoc_ok {doc d' : AjnaDocument} {p : Operation × Ambient}
    (h : doc.applyAllV2 (l ++ [p]) = .ok d') :
    ∃ d, doc.applyAllV2 l = .ok d ∧ d.applyDeltaV2 p.1.delta p.2 = .ok d' := by
  obtain ⟨d, hd, hlast⟩ := applyAllV2_append_ok h
  refine ⟨d, hd, ?_⟩
  have hlast' : (d.applyDeltaV2 p.1.delta p.2 >>= fun x => pure x) = .ok d' := hlast
  rwa [bind_pure] at hlast'

theorem applyAllV2_ok (doc : AjnaDocument) (h : ∀ p ∈ l, p.1.delta.Applies) :
    ∃ d, doc.applyAllV2 l = .ok d := by
  induction l generalizing doc with
  | nil => exact ⟨doc, rfl⟩
  | cons p l ih =>
    obtain ⟨d, hd⟩ := applyDeltaV2_ok (h p mem_cons_self) doc p.2
    obtain ⟨d', hd'⟩ := ih d fun q hq => h q (mem_cons_of_mem _ hq)
    refine ⟨d', ?_⟩
    unfold applyAllV2 at *
    rw [foldlM_cons, hd]
    exact hd'

/-- The replay rule: what holds of the document at the start, and of the document
after each further operation, holds of the result. -/
theorem applyAllV2_induction {P : List (Operation × Ambient) → AjnaDocument → Prop}
    {doc : AjnaDocument} (hstart : P [] doc)
    (hstep : ∀ l p d d', doc.applyAllV2 l = .ok d → P l d → d.applyDeltaV2 p.1.delta p.2 = .ok d' →
      P (l ++ [p]) d')
    {d : AjnaDocument} (h : doc.applyAllV2 l = .ok d) : P l d := by
  induction l using reverseRecOn generalizing d with
  | nil => cases h; exact hstart
  | append_singleton l p ih =>
    obtain ⟨d₀, hd₀, hd⟩ := applyAllV2_snoc_ok h
    exact hstep l p d₀ d hd₀ (ih hd₀) hd

end AjnaDocument

/-! ## References and controllers -/

section

variable {T : Type} [DecidableEq T]

theorem contains_getD_add (o : Option (ORSet T)) (x e : T) (u : Uuid) :
    ((some ((o.getD new).add x u)).getD new).contains e =
      if x = e then true else (o.getD new).contains e := by
  rw [Option.getD_some, Bool.eq_iff_iff, contains_add]
  by_cases h : x = e
  · simp [h]
  · simp [h, Ne.symm h]

theorem contains_getD_remove (o : Option (ORSet T)) (x e : T) :
    ((o.map fun set => set.remove x).getD new).contains e =
      if x = e then false else (o.getD new).contains e := by
  cases o with
  | none => simp
  | some set =>
    rw [Option.map_some, Option.getD_some, Bool.eq_iff_iff, contains_remove]
    by_cases h : x = e
    · simp [h]
    · simp [h, Ne.symm h]

end

section

variable {did nodeId : String} {created updated : DateTime} {l : List (Operation × Ambient)}
  {d : AjnaDocument}

/-- What an operation does to a reference: add it, remove it, or neither. -/
def Operation.touchesRef (p : VerificationPurpose) (r : String) (op : Operation) : Option Bool :=
  match op.delta with
  | .refAdd q s => if q = p ∧ s = r then some true else none
  | .refRemove q s => if q = p ∧ s = r then some false else none
  | _ => none

def Operation.touchesController (c : String) (op : Operation) : Option Bool :=
  match op.delta with
  | .controllerAdd c' => if c' = c then some true else none
  | .controllerRemove c' => if c' = c then some false else none
  | _ => none

theorem replay_ref (h : (AjnaDocument.new did nodeId created updated).applyAllV2 l = .ok d)
    (p : VerificationPurpose) (r : String) :
    d.showsRef p r = (lastWrite? (touchesRef p r) (l.map Prod.fst)).getD false := by
  refine AjnaDocument.applyAllV2_induction (P := fun l d =>
    d.showsRef p r = (lastWrite? (touchesRef p r) (l.map Prod.fst)).getD false)
    ?_ ?_ h
  · cases p <;> simp [AjnaDocument.showsRef, AjnaDocument.purposeSet, AjnaDocument.new, lastWrite?]
  · rintro l ⟨op, amb⟩ d d' - ih hd
    have hset := (AjnaDocument.applied_of_ok hd).purposeSet p
    rw [map_append, map_singleton, Causal.lastWrite?_snoc]
    unfold AjnaDocument.showsRef at *
    cases hδ : op.delta with
    | refAdd q s =>
      simp only [hδ, onPurposeSet] at hset
      by_cases hq : p = q
      · subst hq
        rw [if_pos rfl] at hset
        rw [hset, contains_getD_add]
        by_cases hs : s = r <;> simp [touchesRef, hδ, hs, ih]
      · simp [hset, ih, touchesRef, hδ, hq, Ne.symm hq]
    | refRemove q s =>
      simp only [hδ, onPurposeSet] at hset
      by_cases hq : p = q
      · subst hq
        rw [if_pos rfl] at hset
        rw [hset, contains_getD_remove]
        by_cases hs : s = r <;> simp [touchesRef, hδ, hs, ih]
      · simp [hset, ih, touchesRef, hδ, hq, Ne.symm hq]
    | _ =>
      simp only [hδ, onPurposeSet] at hset
      rw [hset, ih]
      simp [touchesRef, hδ]

theorem isController_eq (doc : AjnaDocument) (c : String) :
    doc.isController c = (doc.controller.getD new).contains c := by
  unfold AjnaDocument.isController
  cases doc.controller with
  | none => simp
  | some set => rfl

theorem replay_controller
    (h : (AjnaDocument.new did nodeId created updated).applyAllV2 l = .ok d) (c : String) :
    d.isController c = (lastWrite? (touchesController c) (l.map Prod.fst)).getD false := by
  rw [isController_eq]
  refine AjnaDocument.applyAllV2_induction (P := fun l d =>
    (d.controller.getD new).contains c =
      (lastWrite? (touchesController c) (l.map Prod.fst)).getD false) ?_ ?_ h
  · simp [AjnaDocument.new, lastWrite?]
  · rintro l ⟨op, amb⟩ d d' - ih hd
    have hset := (AjnaDocument.applied_of_ok hd).controller
    rw [map_append, map_singleton, Causal.lastWrite?_snoc]
    cases hδ : op.delta with
    | controllerAdd c' =>
      simp only [hδ, onController] at hset
      rw [hset, contains_getD_add]
      by_cases hc : c' = c <;> simp [touchesController, hδ, hc, ih]
    | controllerRemove c' =>
      simp only [hδ, onController] at hset
      rw [hset, contains_getD_remove]
      by_cases hc : c' = c <;> simp [touchesController, hδ, hc, ih]
    | _ =>
      simp only [hδ, onController] at hset
      rw [hset, ih]
      simp [touchesController, hδ]

/-! ## The deactivated flag -/

def Operation.deactivates (op : Operation) : Bool :=
  match op.delta with
  | .deactivate _ => true
  | _ => false

theorem replay_deactivated
    (h : (AjnaDocument.new did nodeId created updated).applyAllV2 l = .ok d) :
    d.isDeactivated = (l.map Prod.fst).any deactivates := by
  refine AjnaDocument.applyAllV2_induction (P := fun l d =>
    d.isDeactivated = (l.map Prod.fst).any deactivates) rfl ?_ h
  rintro l ⟨op, amb⟩ d d' - ih hd
  have hflag := (AjnaDocument.applied_of_ok hd).deactivated
  unfold AjnaDocument.isDeactivated at *
  rw [map_append, any_append, ← ih]
  cases hδ : op.delta with
  | deactivate reason | _ =>
    simp only [onDeactivated] at hflag
    simp [hflag, deactivates, hδ]

/-! ## Verification methods -/

/-- What an operation may do to a verification method: a removal names only its id. -/
def Operation.touchesMethod (e : VerificationMethod) (op : Operation) : Option Bool :=
  match op.delta with
  | .vmAdd e' => if e' = e then some true else none
  | .vmRemove id => if id = e.id then some false else none
  | _ => none

variable {e : VerificationMethod} {methods : ORSet VerificationMethod}
  {order : IterOrder VerificationMethod}

open AjnaDocument

theorem contains_removeFirstMethod_of_ne {id : String} (h : e.id ≠ id) :
    (removeFirstMethod methods order id).contains e = methods.contains e := by
  unfold removeFirstMethod
  split
  · next m hm =>
    have hid := find?_some hm
    rw [Bool.eq_iff_iff, contains_remove]
    have hne : e ≠ m := by
      rintro rfl
      simp [h] at hid
    simp [hne]
  · rfl

theorem contains_of_removeFirstMethod {id : String}
    (h : (removeFirstMethod methods order id).contains e = true) : methods.contains e = true := by
  unfold removeFirstMethod at h
  split at h
  · exact ((contains_remove _ _ _).1 h).2
  · exact h

theorem contains_removeFirstMethod_self (h : ∀ m, methods.contains m = true → m.id = e.id → m = e) :
    (removeFirstMethod methods order e.id).contains e = false := by
  rw [Bool.eq_false_iff]
  intro hc
  have hmem : e ∈ methods.keys := (mem_keys_iff e).2 (contains_of_removeFirstMethod hc)
  have hfind : (order.list methods.keys).find? (fun m => m.id = e.id) = some e := by
    refine order.find?_eq_some_of_unique hmem (by simp) fun m hm hid => ?_
    exact h m ((mem_keys_iff m).1 hm) (by simpa using hid)
  unfold removeFirstMethod at hc
  rw [hfind] at hc
  exact ((contains_remove _ _ _).1 hc).1 rfl

theorem replay_method_added (h : (new did nodeId created updated).applyAllV2 l = .ok d)
    (he : d.verificationMethods.contains e = true) :
    ∃ op ∈ l.map Prod.fst, op.delta = .vmAdd e := by
  refine applyAllV2_induction (P := fun l d =>
    d.verificationMethods.contains e = true → ∃ op ∈ l.map Prod.fst, op.delta = .vmAdd e)
    ?_ ?_ h he
  · simp [AjnaDocument.new]
  · rintro l ⟨op, amb⟩ d d' - ih hd he
    have hset := (applied_of_ok hd).verificationMethods
    rw [map_append]
    have hold : d.verificationMethods.contains e = true →
        ∃ op' ∈ l.map Prod.fst ++ [op], op'.delta = .vmAdd e := by
      intro hd
      obtain ⟨op', hmem, hop'⟩ := ih hd
      exact ⟨op', mem_append_left _ hmem, hop'⟩
    cases hδ : op.delta with
    | vmAdd e' =>
      simp only [hδ, onVerificationMethods] at hset
      rw [hset, contains_add] at he
      rcases he with rfl | he
      · exact ⟨op, by simp, hδ⟩
      · exact hold he
    | vmRemove id =>
      simp only [hδ] at hset
      rw [hset] at he
      exact hold (contains_of_removeFirstMethod he)
    | _ =>
      simp only [hδ] at hset
      rw [hset] at he
      exact hold he

/-- No other method with the id of `e` is ever added. -/
def SoleMethod (ops : List Operation) (e : VerificationMethod) : Prop :=
  ∀ op ∈ ops, ∀ e', op.delta = .vmAdd e' → e'.id = e.id → e' = e

theorem replay_method_of_added
    (h : (new did nodeId created updated).applyAllV2 l = .ok d)
    (he : lastWrite? (touchesMethod e) (l.map Prod.fst) = some true) :
    d.verificationMethods.contains e = true := by
  refine applyAllV2_induction (P := fun l d =>
    lastWrite? (touchesMethod e) (l.map Prod.fst) = some true →
      d.verificationMethods.contains e = true) ?_ ?_ h he
  · simp [lastWrite?]
  · rintro l ⟨op, amb⟩ d d' - ih hd he
    have hset := (applied_of_ok hd).verificationMethods
    rw [map_append, map_singleton, Causal.lastWrite?_snoc] at he
    cases hδ : op.delta with
    | vmAdd e' =>
      simp only [hδ, onVerificationMethods] at hset
      rw [hset, contains_add]
      by_cases hee : e' = e
      · exact .inl hee.symm
      · exact .inr (ih (by simpa [touchesMethod, hδ, hee] using he))
    | vmRemove id =>
      simp only [hδ, onVerificationMethods] at hset
      by_cases hid : id = e.id
      · simp [touchesMethod, hδ, hid] at he
      · rw [hset, contains_removeFirstMethod_of_ne (Ne.symm hid)]
        exact ih (by simpa [touchesMethod, hδ, hid] using he)
    | _ =>
      simp only [hδ] at hset
      rw [hset]
      exact ih (by simpa [touchesMethod, hδ] using he)

theorem replay_method_of_removed
    (h : (new did nodeId created updated).applyAllV2 l = .ok d)
    (hsole : SoleMethod (l.map Prod.fst) e)
    (he : lastWrite? (touchesMethod e) (l.map Prod.fst) = some false) :
    d.verificationMethods.contains e = false := by
  refine applyAllV2_induction (P := fun l d => SoleMethod (l.map Prod.fst) e →
    lastWrite? (touchesMethod e) (l.map Prod.fst) = some false →
      d.verificationMethods.contains e = false) ?_ ?_ h hsole he
  · simp [lastWrite?]
  · rintro l ⟨op, amb⟩ d d' hl ih hd hsole he
    have hset := (applied_of_ok hd).verificationMethods
    rw [map_append, map_singleton] at hsole he
    rw [Causal.lastWrite?_snoc] at he
    have hsole' : SoleMethod (l.map Prod.fst) e :=
      fun op' hop' => hsole op' (mem_append_left _ hop')
    cases hδ : op.delta with
    | vmAdd e' =>
      simp only [hδ, onVerificationMethods] at hset
      by_cases hee : e' = e
      · simp [touchesMethod, hδ, hee] at he
      · have hold := ih hsole' (by simpa [touchesMethod, hδ, hee] using he)
        rw [hset, Bool.eq_false_iff, ne_eq, contains_add, not_or, hold]
        exact ⟨Ne.symm hee, by simp⟩
    | vmRemove id =>
      simp only [hδ, onVerificationMethods] at hset
      rw [hset]
      by_cases hid : id = e.id
      · subst hid
        refine contains_removeFirstMethod_self fun m hm hmid => ?_
        obtain ⟨op', hmem, hop'⟩ := replay_method_added hl hm
        exact hsole' op' hmem m hop' hmid
      · rw [contains_removeFirstMethod_of_ne (Ne.symm hid)]
        exact ih hsole' (by simpa [touchesMethod, hδ, hid] using he)
    | _ =>
      simp only [hδ] at hset
      rw [hset]
      exact ih hsole' (by simpa [touchesMethod, hδ] using he)

theorem replay_method_of_untouched
    (h : (new did nodeId created updated).applyAllV2 l = .ok d)
    (he : lastWrite? (touchesMethod e) (l.map Prod.fst) = none) :
    d.verificationMethods.contains e = false := by
  rw [Bool.eq_false_iff]
  intro hc
  obtain ⟨op, hmem, hop⟩ := replay_method_added h hc
  rw [lastWrite?, findSome?_eq_none_iff] at he
  have hnone := he op (mem_reverse.2 hmem)
  simp [touchesMethod, hop] at hnone

/-! ## Policy -/

/-- The policy write an operation makes: Lamport time, read as signed, and value. -/
def Operation.writesPolicy (key : String) (op : Operation) : Option (ℤ × Json) :=
  match op.delta with
  | .propSet k value ts => if k = key then some (ts.toInt64.toInt, value) else none
  | _ => none

/-- The entry a policy write stores on a replica. -/
def policyEntry (nodeId : String) (w : ℤ × Json) : LWWEntry Json :=
  .withTimestamp w.2 (w.1 * 1000000) nodeId

theorem policyEntry_stamp_le {nodeId : String} {v w : ℤ × Json} :
    (policyEntry nodeId v).stamp ≤ (policyEntry nodeId w).stamp ↔ v.1 ≤ w.1 := by
  unfold policyEntry withTimestamp stamp
  rw [Prod.Lex.toLex_le_toLex]
  have hlt : v.1 * 1000000 < w.1 * 1000000 ↔ v.1 < w.1 := by omega
  have heq : v.1 * 1000000 = w.1 * 1000000 ↔ v.1 = w.1 := by omega
  rw [hlt, heq, and_iff_left (le_refl nodeId), le_iff_lt_or_eq]

theorem replay_policy_entry
    (h : (new did nodeId created updated).applyAllV2 l = .ok d) (key : String) :
    (d.policy.getD LWWMap.new).entries.lookup key =
      offerAll stamp
        (((l.map Prod.fst).filterMap (writesPolicy key)).map (policyEntry nodeId)) := by
  refine applyAllV2_induction (P := fun l d => d.nodeId = nodeId ∧
    (d.policy.getD LWWMap.new).entries.lookup key = offerAll stamp
      (((l.map Prod.fst).filterMap (writesPolicy key)).map (policyEntry nodeId)))
    ?_ ?_ h |>.2
  · exact ⟨rfl, by simp [AjnaDocument.new, LWWMap.new, offerAll]⟩
  · rintro l ⟨op, amb⟩ d d' - ⟨hnode, ih⟩ hd
    refine ⟨by rw [(applied_of_ok hd).nodeId, hnode], ?_⟩
    have hpol := (applied_of_ok hd).policy
    rw [map_append, filterMap_append]
    cases hδ : op.delta with
    | propSet k value ts =>
      simp only [hδ, onPolicy] at hpol
      rw [hpol, Option.getD_some, LWWMap.setWithTimestamp, LWWMap.lookup_setEntry]
      by_cases hk : key = k
      · subst hk
        rw [ih, hnode]
        simp [writesPolicy, hδ, offerAll_snoc, policyEntry]
      · rw [if_neg hk, ih]
        simp [writesPolicy, hδ, Ne.symm hk]
    | _ =>
      simp only [hδ, onPolicy] at hpol
      rw [hpol, ih]
      simp [writesPolicy, hδ]

/-- The value of a policy write that no other write to the key outranks. -/
def Operation.topPolicy (key : String) (ops : List Operation) (op : Operation) : Option Json :=
  match op.writesPolicy key with
  | some w =>
    if (ops.filterMap (writesPolicy key)).all fun v => v.1 ≤ w.1 then some w.2
    else none
  | none => none

theorem getPolicy_eq (doc : AjnaDocument) (key : String) :
    doc.getPolicy key = ((doc.policy.getD LWWMap.new).entries.lookup key).bind fun entry =>
      if entry.isTombstone then none else some entry.value := by
  unfold getPolicy
  cases doc.policy with
  | none => simp [LWWMap.new]
  | some m => rfl

theorem find?_filterMap_eq_findSome? {α β : Type} (f : α → Option β) (q : β → Bool)
    (l : List α) : (l.filterMap f).find? q = l.findSome? fun a => (f a).filter q := by
  induction l with
  | nil => rfl
  | cons a l ih =>
    cases hf : f a with
    | none => simp [hf, ih]
    | some b => by_cases hq : q b <;> simp [hf, hq, ih, Option.filter]

/-- **A policy value is that of the first write of the highest Lamport time**, whatever
the replica and its clock. -/
theorem replay_policy
    (h : (new did nodeId created updated).applyAllV2 l = .ok d) (key : String) :
    d.getPolicy key = (l.map Prod.fst).findSome? (topPolicy key (l.map Prod.fst)) := by
  generalize hops : l.map Prod.fst = ops
  have hfind : (d.policy.getD LWWMap.new).entries.lookup key =
      (ops.findSome? fun op => (op.writesPolicy key).filter fun w =>
        (ops.filterMap (writesPolicy key)).all fun v => v.1 ≤ w.1).map
        (policyEntry nodeId) := by
    rw [replay_policy_entry h key, hops, offerAll_eq_find?, find?_map,
      ← find?_filterMap_eq_findSome?]
    congr 2
    funext w
    simp only [Function.comp_apply, forall_mem_map, policyEntry_stamp_le]
    rw [Bool.eq_iff_iff, all_eq_true]
    simp only [decide_eq_true_eq]
  have htop : topPolicy key ops = Option.map Prod.snd ∘ fun op =>
      (op.writesPolicy key).filter fun w =>
        (ops.filterMap (writesPolicy key)).all fun v => v.1 ≤ w.1 := by
    funext op
    simp only [topPolicy, Function.comp_apply]
    cases op.writesPolicy key with
    | none => rfl
    | some w =>
      simp only [Option.filter]
      split <;> rfl
  rw [getPolicy_eq, hfind, htop, ← map_findSome?]
  cases ops.findSome? fun op => (op.writesPolicy key).filter fun w =>
    (ops.filterMap (writesPolicy key)).all fun v => v.1 ≤ w.1 with
  | none | some w => rfl

end

/-! ## Services

A service write is stamped with the clock reading of the replica that applies it, and a
removal does nothing as long as no service has ever been added. -/

section

variable {doc d d' : AjnaDocument} {l : List (Operation × Ambient)}

def Operation.addsService (op : Operation) : Prop := ∃ entry, op.delta = .serviceAdd entry

def serviceEntry (doc : AjnaDocument) (id : String) : Option (LWWEntry Service) :=
  (doc.service.getD LWWMap.new).entries.lookup id

theorem getService_eq (doc : AjnaDocument) (id : String) :
    doc.getService id = (serviceEntry doc id).bind fun entry =>
      if entry.isTombstone then none else some entry.value := by
  unfold AjnaDocument.getService serviceEntry
  cases doc.service with
  | none => simp [LWWMap.new]
  | some m => rfl

/-- What an operation writes under a service id. Before the first service is added, a
removal writes nothing. -/
def serviceWrite (doc : AjnaDocument) (id : String) (amb : Ambient) :
    Delta → Option (LWWEntry Service)
  | .serviceAdd entry =>
    if id = entry.id then some (.withTimestamp entry amb.now doc.nodeId) else none
  | .serviceRemove i =>
    if id = i ∧ doc.service.isSome = true then some (.tombstone amb.now doc.nodeId) else none
  | _ => none

variable {amb : Ambient} {delta : Delta}

theorem serviceEntry_step (id : String) (h : d.applyDeltaV2 delta amb = .ok d') :
    serviceEntry d' id = join stamp (serviceEntry d id) (serviceWrite d id amb delta) := by
  have hsrv := (AjnaDocument.applied_of_ok h).service
  unfold serviceEntry
  rw [hsrv]
  cases delta with
  | serviceAdd entry =>
    rw [onService, Option.getD_some, LWWMap.set, LWWMap.lookup_setEntry, serviceWrite]
    split
    · next hid => rw [hid]
    · rfl
  | serviceRemove i =>
    rw [onService, serviceWrite]
    cases d.service with
    | none => simp
    | some m =>
      simp only [Option.map_some, Option.getD_some, Option.isSome_some, and_true, LWWMap.remove,
        LWWMap.lookup_setEntry]
      split
      · next hid => rw [hid]
      · rfl
  | _ => rfl

variable {id : String} {entry : LWWEntry Service}

theorem serviceWrite_eq_some (h : serviceWrite d id amb delta = some entry) :
    (∃ e, delta = .serviceAdd e ∧ e.id = id ∧ entry = .withTimestamp e amb.now d.nodeId) ∨
    (delta = .serviceRemove id ∧ d.service.isSome = true ∧
      entry = .tombstone amb.now d.nodeId) := by
  cases delta with
  | serviceAdd e =>
    rw [serviceWrite] at h
    split at h
    · next hid => exact .inl ⟨e, rfl, hid.symm, (Option.some.inj h).symm⟩
    · cases h
  | serviceRemove i =>
    rw [serviceWrite] at h
    split at h
    · next hid =>
      obtain ⟨rfl, hsrv⟩ := hid
      exact .inr ⟨rfl, hsrv, (Option.some.inj h).symm⟩
    · cases h
  | _ => cases h

theorem timestamp_serviceWrite (h : serviceWrite d id amb delta = some entry) :
    entry.timestamp = amb.now := by
  rcases serviceWrite_eq_some h with ⟨e, -, -, rfl⟩ | ⟨-, -, rfl⟩ <;> rfl

/-- **What every write has, every entry has.**  A write is read in the document its
operation was applied to. -/
theorem replay_serviceEntry {P : LWWEntry Service → Prop} (hstart : serviceEntry doc id = none)
    (h : doc.applyAllV2 l = .ok d)
    (hwrite : ∀ l₁ p l₂ d₁, l = l₁ ++ p :: l₂ → doc.applyAllV2 l₁ = .ok d₁ →
      ∀ entry, serviceWrite d₁ id p.2 p.1.delta = some entry → P entry) :
    ∀ entry, serviceEntry d id = some entry → P entry := by
  refine AjnaDocument.applyAllV2_induction (P := fun l d =>
    (∀ l₁ p l₂ d₁, l = l₁ ++ p :: l₂ → doc.applyAllV2 l₁ = .ok d₁ →
      ∀ entry, serviceWrite d₁ id p.2 p.1.delta = some entry → P entry) →
    ∀ entry, serviceEntry d id = some entry → P entry) ?_ ?_ h hwrite
  · intro _ entry hentry
    rw [hstart] at hentry
    cases hentry
  · rintro l p d d' hl ih hd hwrite entry hentry
    rw [serviceEntry_step id hd] at hentry
    rcases join_eq_some hentry with hold | ⟨hnew, -⟩
    · exact ih (fun l₁ q l₂ d₁ hl₁ => hwrite l₁ q (l₂ ++ [p]) d₁ (by simp [hl₁])) entry hold
    · exact hwrite l p [] d rfl hl entry hnew

theorem serviceEntry_new (did nodeId : String) (created updated : DateTime) (id : String) :
    serviceEntry (AjnaDocument.new did nodeId created updated) id = none := by
  simp [serviceEntry, AjnaDocument.new, LWWMap.new]

theorem isSome_serviceEntry_of_added (h : doc.applyAllV2 l = .ok d) {e : Service}
    (hadded : ∃ op ∈ l.map Prod.fst, op.delta = .serviceAdd e) :
    (serviceEntry d e.id).isSome = true := by
  refine AjnaDocument.applyAllV2_induction (P := fun l d =>
    (∃ op ∈ l.map Prod.fst, op.delta = .serviceAdd e) → (serviceEntry d e.id).isSome = true)
    ?_ ?_ h hadded
  · rintro ⟨op, hmem, -⟩
    cases hmem
  · rintro l ⟨op, amb⟩ d d' - ih hd ⟨op', hmem, hδ⟩
    rw [serviceEntry_step e.id hd]
    rw [map_append, map_singleton, mem_append, mem_singleton] at hmem
    rcases hmem with hmem | rfl
    · obtain ⟨entry, hentry⟩ := Option.isSome_iff_exists.1 (ih ⟨op', hmem, hδ⟩)
      have hbelow : Below stamp entry (some entry) := below_self entry
      obtain ⟨kept, hkept, -⟩ := hbelow.join_left (serviceWrite d e.id amb op.delta)
      rw [hentry, hkept]
      rfl
    · rw [hδ, serviceWrite, if_pos rfl]
      rfl

theorem replay_service_isSome (h : doc.applyAllV2 l = .ok d) :
    d.service.isSome = true ↔ doc.service.isSome = true ∨ ∃ op ∈ l.map Prod.fst,
      op.addsService := by
  refine AjnaDocument.applyAllV2_induction (P := fun l d => d.service.isSome = true ↔
    doc.service.isSome = true ∨ ∃ op ∈ l.map Prod.fst, op.addsService) ?_ ?_ h
  · simp
  · rintro l ⟨op, amb⟩ d d' - ih hd
    have hsrv := (AjnaDocument.applied_of_ok hd).service
    have hmem : (∃ op' ∈ (l ++ [(op, amb)]).map Prod.fst, op'.addsService) ↔
        (∃ op' ∈ l.map Prod.fst, op'.addsService) ∨ op.addsService := by
      simp [or_and_right, exists_or]
    rw [hmem, ← or_assoc, ← ih]
    cases hδ : op.delta with
    | serviceAdd entry =>
      simp only [hδ, onService] at hsrv
      have hop : op.addsService := ⟨entry, hδ⟩
      simp [hsrv, hop]
    | _ =>
      simp only [hδ, onService] at hsrv
      have hop : ¬ op.addsService := by
        rintro ⟨entry, hc⟩
        rw [hδ] at hc
        cases hc
      simp [hsrv, hop]

variable {created updated : DateTime} {did nodeId : String}

theorem replay_service_never_added
    (h : (AjnaDocument.new did nodeId created updated).applyAllV2 l = .ok d)
    (hnever : ∀ op ∈ l.map Prod.fst, ∀ entry, op.delta = .serviceAdd entry → entry.id ≠ id) :
    d.getService id = none := by
  have htomb : ∀ entry, serviceEntry d id = some entry → entry.isTombstone = true := by
    refine replay_serviceEntry (serviceEntry_new _ _ _ _ id) h fun l₁ p l₂ d₁ hl _ entry hw => ?_
    rcases serviceWrite_eq_some hw with ⟨e, hδ, hid, -⟩ | ⟨-, -, rfl⟩
    · exact absurd hid (hnever p.1 (mem_map.2 ⟨p, by simp [hl], rfl⟩) e hδ)
    · rfl
  rw [getService_eq]
  cases hentry : serviceEntry d id with
  | none => rfl
  | some entry => simp [htomb entry hentry]

/-- If every addition under an id carries the same service, and every removal of the id
comes before all additions, the service shows. -/
theorem replay_service_sole (h : (AjnaDocument.new did nodeId created updated).applyAllV2 l = .ok d)
    {e : Service}
    (hsame : ∀ op ∈ l.map Prod.fst, ∀ entry, op.delta = .serviceAdd entry → entry.id = id → entry =
      e)
    (hbefore : (l.map Prod.fst).Pairwise fun a b => a.addsService → b.delta ≠ .serviceRemove id)
    (hadded : ∃ op ∈ l.map Prod.fst, op.delta = .serviceAdd e) (hid : e.id = id) :
    d.getService id = some e := by
  have hshows : ∀ entry, serviceEntry d id = some entry →
      entry.value = e ∧ entry.isTombstone = false := by
    refine replay_serviceEntry (serviceEntry_new _ _ _ _ id) h fun l₁ p l₂ d₁ hl hd₁ entry hw => ?_
    rcases serviceWrite_eq_some hw with ⟨e', hδ, hid', rfl⟩ | ⟨hδ, hsrv, -⟩
    · exact ⟨hsame p.1 (mem_map.2 ⟨p, by simp [hl], rfl⟩) e' hδ hid', rfl⟩
    · -- the map exists, so an addition came before this removal
      rw [hl, map_append] at hbefore
      rcases (replay_service_isSome hd₁).1 hsrv with hc | ⟨op, hmem, hop⟩
      · simp [AjnaDocument.new] at hc
      · exact absurd hδ ((pairwise_append.1 hbefore).2.2 op hmem p.1 mem_cons_self hop)
  obtain ⟨entry, hentry⟩ := Option.isSome_iff_exists.1 (isSome_serviceEntry_of_added h hadded)
  rw [hid] at hentry
  obtain ⟨hv, ht⟩ := hshows entry hentry
  rw [getService_eq]
  simp [hentry, hv, ht]

/-! ### The write with the latest clock reading wins -/

theorem stamp_lt_of_timestamp_lt {V : Type} {a b : LWWEntry V} (h : a.timestamp < b.timestamp) :
    a.stamp < b.stamp := by
  unfold stamp
  rw [Prod.Lex.toLex_lt_toLex]
  exact .inl h

theorem replay_service_epoch
    (h : (AjnaDocument.new did nodeId created updated).applyAllV2 l = .ok d)
    (hclock : ∀ p ∈ l, p.2.now = 0) (hentry : serviceEntry d id = some entry) :
    entry.timestamp = 0 := by
  refine replay_serviceEntry (P := fun entry => entry.timestamp = 0)
    (serviceEntry_new _ _ _ _ id) h (fun l₁ p l₂ d₁ hl _ entry hw => ?_) entry hentry
  rw [timestamp_serviceWrite hw]
  exact hclock p (by simp [hl])

/-- An entry stamped after the epoch survives writes stamped with the epoch. -/
theorem replay_service_survives (hentry : serviceEntry doc id = some entry)
    (hlate : 0 < entry.timestamp) (h : doc.applyAllV2 l = .ok d) (hclock : ∀ p ∈ l, p.2.now = 0) :
    serviceEntry d id = some entry := by
  refine AjnaDocument.applyAllV2_induction (P := fun l d => (∀ p ∈ l, p.2.now = 0) →
    serviceEntry d id = some entry) (fun _ => hentry) ?_ h hclock
  rintro l ⟨op, amb⟩ d d' - ih hd hclock
  have hold := ih fun p hp => hclock p (mem_append_left _ hp)
  have hnow : amb.now = 0 := hclock (op, amb) (by simp)
  rw [serviceEntry_step id hd, hold]
  cases hw : serviceWrite d id amb op.delta with
  | none => rfl
  | some new =>
    have hlt : new.stamp < entry.stamp := by
      refine stamp_lt_of_timestamp_lt ?_
      rw [timestamp_serviceWrite hw, hnow]
      exact hlate
    rw [join_some_some, if_neg hlt.not_gt]

/-- **The one service write that is stamped after the epoch decides what shows**, be it
an addition, or a removal once a service has been added. -/
theorem replay_service_winner {l₁ l₂ : List (Operation × Ambient)} {x : Operation}
    (h : (AjnaDocument.new did nodeId created updated).applyAllV2 (l₁ ++ (x, amb) :: l₂) = .ok d)
    (hx : amb.now = 1) (h₁ : ∀ p ∈ l₁, p.2.now = 0) (h₂ : ∀ p ∈ l₂, p.2.now = 0) (id : String) :
    (∀ e, x.delta = .serviceAdd e → e.id = id → d.getService id = some e) ∧
    (x.delta = .serviceRemove id → (∃ op ∈ l₁.map Prod.fst, op.addsService) →
      d.getService id = none) := by
  obtain ⟨d₁, hd₁, hrest⟩ := AjnaDocument.applyAllV2_append_ok h
  rw [← singleton_append] at hrest
  obtain ⟨d₂, hd₂, hd⟩ := AjnaDocument.applyAllV2_append_ok hrest
  have hstep : d₁.applyDeltaV2 x.delta amb = .ok d₂ := by
    obtain ⟨d₀, hd₀, hd₀'⟩ := AjnaDocument.applyAllV2_snoc_ok (l := []) hd₂
    cases hd₀
    exact hd₀'
  -- whatever the document held before, the late write replaces it
  have hwins : ∀ new : LWWEntry Service, new.timestamp = 1 →
      join stamp (serviceEntry d₁ id) (some new) = some new := by
    intro new hnew
    cases hold : serviceEntry d₁ id with
    | none => rfl
    | some old =>
      have hlt : old.stamp < new.stamp := by
        refine stamp_lt_of_timestamp_lt ?_
        rw [replay_service_epoch hd₁ h₁ hold, hnew]
        decide
      rw [join_some_some, if_pos hlt]
  have hfinal : ∀ new : LWWEntry Service, new.timestamp = 1 → serviceEntry d₂ id = some new →
      serviceEntry d id = some new := by
    intro new hnew hentry
    exact replay_service_survives hentry (by rw [hnew]; decide) hd h₂
  constructor
  · intro e hδ hid
    have hentry := serviceEntry_step id hstep
    rw [hδ, serviceWrite, if_pos hid.symm, hwins _ hx] at hentry
    rw [getService_eq, hfinal _ hx hentry]
    rfl
  · intro hδ hadded
    have hsrv : d₁.service.isSome = true := (replay_service_isSome hd₁).2 (.inr hadded)
    have hentry := serviceEntry_step id hstep
    rw [hδ, serviceWrite, if_pos ⟨rfl, hsrv⟩, hwins _ hx] at hentry
    rw [getService_eq, hfinal _ hx hentry]
    rfl

end

end Idiom.Ajna
