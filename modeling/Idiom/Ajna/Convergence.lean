import Idiom.Ajna.Replay

/-!
# When replicas of a did:ajna document converge

Two replicas apply the same operations in two orders that respect the operations'
parents, each with its own node id, UUIDs, iteration orders and clock. The documents
are OR-Sets and LWW-Maps, but the deltas are not applied as the CRDTs want them: a
removal removes whatever the replica happens to hold, a service is stamped with the
replica's own clock, and a policy write of equal Lamport time loses to the one applied
first.
-/

namespace Idiom.Ajna

open Causal AjnaDocument Operation List

/-! ## Replicas -/

/-- `p` is named as a parent of `q`. -/
def parentOf (p q : Operation) : Prop := p.opId ∈ q.parents

/-- Operations that can be applied: none twice, their parents acyclic (the list itself
respects them), and every Lamport time a date. -/
structure Admissible (ops : List Operation) : Prop where
  nodup : ops.Nodup
  respects : Respects parentOf ops
  applies : ∀ op ∈ ops, op.delta.Applies

/-- What one replica applies: the operations, in an order that respects their parents,
each with ambient values of its own. -/
def IsReplay (ops : List Operation) (l : List (Operation × Ambient)) : Prop :=
  IsOrdering parentOf ops (l.map Prod.fst)

/-- Any two replicas with different node ids that apply all operations show the same. -/
def Converges (did : String) (ops : List Operation) : Prop :=
  ∀ (n₁ n₂ : String) (c₁ u₁ c₂ u₂ : DateTime) (l₁ l₂ : List (Operation × Ambient)), n₁ ≠ n₂ →
    IsReplay ops l₁ → IsReplay ops l₂ →
    ∃ d₁ d₂, (new did n₁ c₁ u₁).applyAllV2 l₁ = .ok d₁ ∧
      (new did n₂ c₂ u₂).applyAllV2 l₂ = .ok d₂ ∧ d₁.view = d₂.view

/-- The writes to a register that can come last write the same. -/
def SameLast {β : Type} (ops : List Operation) (f : Operation → Option β) : Prop :=
  ∀ x y, LastWrite parentOf ops f x → LastWrite parentOf ops f y → f x = f y

/-- The writes to a register that can come first write the same. -/
def SameFirst {β : Type} (ops : List Operation) (f : Operation → Option β) : Prop :=
  ∀ x y, FirstWrite parentOf ops f x → FirstWrite parentOf ops f y → f x = f y

/-- The condition on the operations and their causal order. -/
structure Agree (ops : List Operation) : Prop where
  /-- The last operations on a reference all add it or all remove it. -/
  refs : ∀ p r, SameLast ops (touchesRef p r)
  /-- The last operations on a controller all add it or all remove it. -/
  controllers : ∀ c, SameLast ops (touchesController c)
  /-- The last operations on a verification method all add it or all remove its id. -/
  methods : ∀ e, SameLast ops (touchesMethod e)
  /-- A method that is removed for good has its id to itself. -/
  removals : ∀ e x, LastWrite parentOf ops (touchesMethod e) x →
    x.touchesMethod e = some false → (∃ op ∈ ops, op.delta = .vmAdd e) → SoleMethod ops e
  /-- Of the policy writes with the highest Lamport time, those that can come first carry
  the same value. -/
  policy : ∀ key, SameFirst ops (topPolicy key ops)
  /-- All additions of a service carry the same service, and a removal of its id is
  causally before every addition of a service. -/
  services : ∀ a ∈ ops, ∀ e, a.delta = .serviceAdd e → ∀ b ∈ ops,
    (∀ e', b.delta = .serviceAdd e' → e'.id = e.id → e' = e) ∧
    (b.delta = .serviceRemove e.id → ∀ c ∈ ops, c.addsService → Before parentOf ops b c)

/-- No two different methods share an id that some operation removes. -/
def UnambiguousIds (ops : List Operation) : Prop :=
  ∀ a ∈ ops, ∀ b ∈ ops, ∀ c ∈ ops, ∀ e e', a.delta = .vmAdd e → b.delta = .vmAdd e' →
    c.delta = .vmRemove e.id → e'.id = e.id → e' = e

/-! ## The condition is enough -/

section

variable {ops : List Operation} {did n₁ n₂ : String} {c₁ u₁ c₂ u₂ : DateTime}
  {l₁ l₂ : List (Operation × Ambient)} {d₁ d₂ : AjnaDocument}

theorem Admissible.isOrdering (h : Admissible ops) : IsOrdering parentOf ops ops :=
  ⟨Perm.refl _, h.respects⟩

theorem SameLast.lastWrite?_eq {β : Type} {f : Operation → Option β} (h : SameLast ops f)
    (hops : ops.Nodup) (h₁ : IsReplay ops l₁) (h₂ : IsReplay ops l₂) :
    lastWrite? f (l₁.map Prod.fst) = lastWrite? f (l₂.map Prod.fst) :=
  (last_agree_iff h₁ hops).2 h _ _ h₁ h₂

theorem topPolicy_perm {key : String} {ops' : List Operation} (h : ops'.Perm ops) :
    topPolicy key ops' = topPolicy key ops := by
  funext op
  unfold topPolicy
  cases op.writesPolicy key with
  | none => rfl
  | some w =>
    have hall : ((ops'.filterMap (writesPolicy key)).all fun v => v.1 ≤ w.1) =
        (ops.filterMap (writesPolicy key)).all fun v => v.1 ≤ w.1 :=
      (h.filterMap _).all_eq
    simp only [hall]

section

variable (hops : ops.Nodup) (h : Agree ops) (h₁ : IsReplay ops l₁) (h₂ : IsReplay ops l₂)
  (hd₁ : (new did n₁ c₁ u₁).applyAllV2 l₁ = .ok d₁)
  (hd₂ : (new did n₂ c₂ u₂).applyAllV2 l₂ = .ok d₂)
include hops h h₁ h₂ hd₁ hd₂

theorem converges_methods (e : VerificationMethod) :
    d₁.verificationMethods.contains e = d₂.verificationMethods.contains e := by
  have hlast := (h.methods e).lastWrite?_eq hops h₁ h₂
  cases hw : lastWrite? (touchesMethod e) (l₁.map Prod.fst) with
  | none =>
    rw [replay_method_of_untouched hd₁ hw, replay_method_of_untouched hd₂ (hlast ▸ hw)]
  | some b =>
    cases b with
    | true => rw [replay_method_of_added hd₁ hw, replay_method_of_added hd₂ (hlast ▸ hw)]
    | false =>
      -- removed last: it is gone if it was ever there
      have hgone : ∀ {l : List (Operation × Ambient)} {n : String} {c u : DateTime}
          {d : AjnaDocument}, IsReplay ops l →
          (new did n c u).applyAllV2 l = .ok d →
          lastWrite? (touchesMethod e) (l.map Prod.fst) = some false →
          d.verificationMethods.contains e = false := by
        intro l n c u d hl hd hw
        obtain ⟨x, hx, hxf⟩ := lastWrite_of_lastWrite? hl hops hw
        by_contra hc
        rw [Bool.not_eq_false] at hc
        obtain ⟨op, hmem, hop⟩ := replay_method_added hd hc
        have hsole := h.removals e x hx hxf ⟨op, (hl.mem_iff op).1 hmem, hop⟩
        have hsole' : SoleMethod (l.map Prod.fst) e :=
          fun op' hop' => hsole op' ((hl.mem_iff op').1 hop')
        rw [replay_method_of_removed hd hsole' hw] at hc
        cases hc
      rw [hgone h₁ hd₁ hw, hgone h₂ hd₂ (hlast ▸ hw)]

theorem converges_policy (key : String) : d₁.getPolicy key = d₂.getPolicy key := by
  rw [replay_policy hd₁, replay_policy hd₂, topPolicy_perm h₁.perm, topPolicy_perm h₂.perm]
  exact (first_agree_iff h₁ hops).2 (h.policy key) _ _ h₁ h₂

theorem converges_services (id : String) : d₁.getService id = d₂.getService id := by
  by_cases hadded : ∃ a ∈ ops, ∃ e, a.delta = .serviceAdd e ∧ e.id = id
  · obtain ⟨a, ha, e, hae, hid⟩ := hadded
    have hshows : ∀ {l : List (Operation × Ambient)} {n : String} {c u : DateTime}
        {d : AjnaDocument}, IsReplay ops l →
        (new did n c u).applyAllV2 l = .ok d → d.getService id = some e := by
      intro l n c u d hl hd
      refine replay_service_sole hd ?_ ?_ ⟨a, (hl.mem_iff a).2 ha, hae⟩ hid
      · intro op hop entry hentry hentryId
        exact (h.services a ha e hae op ((hl.mem_iff op).1 hop)).1 entry hentry
          (hentryId.trans hid.symm)
      · -- an addition before a removal of the id would contradict the causal order
        rw [pairwise_iff_forall_sublist]
        intro x y hxy hx hy
        have hxm := (hl.mem_iff x).1 (hxy.subset (by simp))
        have hym := (hl.mem_iff y).1 (hxy.subset (by simp))
        have hbefore := (h.services a ha e hae y hym).2 (hid ▸ hy) x hxm hx
        have hyx := hl.sublist_of_before hops hbefore
        have hnd := (sublist_pair_trans (hl.nodup hops) hxy hyx).nodup (hl.nodup hops)
        simp at hnd
    rw [hshows h₁ hd₁, hshows h₂ hd₂]
  · have hnever : ∀ {l : List (Operation × Ambient)}, IsReplay ops l →
        ∀ op ∈ l.map Prod.fst, ∀ entry, op.delta = .serviceAdd entry → entry.id ≠ id := by
      intro l hl op hop entry hentry hentryId
      exact hadded ⟨op, (hl.mem_iff op).1 hop, entry, hentry, hentryId⟩
    rw [replay_service_never_added hd₁ (hnever h₁), replay_service_never_added hd₂ (hnever h₂)]

end

theorem converges_of_agree (hadm : Admissible ops) (h : Agree ops) (did : String) :
    Converges did ops := by
  intro n₁ n₂ c₁ u₁ c₂ u₂ l₁ l₂ _ h₁ h₂
  have happly : ∀ {l : List (Operation × Ambient)}, IsReplay ops l →
      ∀ p ∈ l, p.1.delta.Applies := by
    intro l hl p hp
    exact hadm.applies p.1 ((hl.mem_iff p.1).1 (mem_map_of_mem hp))
  obtain ⟨d₁, hd₁⟩ := applyAllV2_ok (new did n₁ c₁ u₁) (happly h₁)
  obtain ⟨d₂, hd₂⟩ := applyAllV2_ok (new did n₂ c₂ u₂) (happly h₂)
  refine ⟨d₁, d₂, hd₁, hd₂, ?_⟩
  unfold view
  congr 1
  · funext e
    exact converges_methods hadm.nodup h h₁ h₂ hd₁ hd₂ e
  · funext p r
    rw [replay_ref hd₁, replay_ref hd₂, (h.refs p r).lastWrite?_eq hadm.nodup h₁ h₂]
  · funext id
    exact converges_services hadm.nodup h h₁ h₂ hd₁ hd₂ id
  · funext key
    exact converges_policy hadm.nodup h h₁ h₂ hd₁ hd₂ key
  · funext c
    rw [replay_controller hd₁, replay_controller hd₂,
      (h.controllers c).lastWrite?_eq hadm.nodup h₁ h₂]
  · rw [replay_deactivated hd₁, replay_deactivated hd₂]
    exact (h₁.perm.trans h₂.perm.symm).any_eq

end

/-! ## The condition is needed -/

section

variable {ops : List Operation} {did : String}

open Classical in
/-- Ambient values in which only the clock reading for `x` is after the epoch. -/
noncomputable def clockAt (x op : Operation) : Ambient where
  uuid := 0
  now := if op = x then 1 else 0
  updatedAt := 0
  order := IterOrder.some

/-- An order of the operations, replayed with the clock set for `x`. -/
noncomputable def replayAt (x : Operation) (l : List Operation) : List (Operation × Ambient) :=
  l.map fun op => (op, clockAt x op)

theorem map_fst_replayAt (x : Operation) (l : List Operation) :
    (replayAt x l).map Prod.fst = l := by
  unfold replayAt
  rw [map_map]
  exact map_id l

theorem Converges.view_eq (h : Converges did ops) {l₁ l₂ : List Operation}
    (h₁ : IsOrdering parentOf ops l₁) (h₂ : IsOrdering parentOf ops l₂) (x₁ x₂ : Operation) :
    ∃ d₁ d₂, (new did "a" 0 0).applyAllV2 (replayAt x₁ l₁) = .ok d₁ ∧
      (new did "b" 0 0).applyAllV2 (replayAt x₂ l₂) = .ok d₂ ∧ d₁.view = d₂.view := by
  refine h "a" "b" 0 0 0 0 _ _ (by decide) ?_ ?_
  · rw [IsReplay, map_fst_replayAt]
    exact h₁
  · rw [IsReplay, map_fst_replayAt]
    exact h₂

theorem Converges.shown_eq (h : Converges did ops) {α : Type} {f : AjnaDocument → α}
    {g : List Operation → α} (hview : ∀ {d₁ d₂ : AjnaDocument}, d₁.view = d₂.view → f d₁ = f d₂)
    (hreplay : ∀ {x : Operation} {l : List Operation} {n : String} {d : AjnaDocument},
      (new did n 0 0).applyAllV2 (replayAt x l) = .ok d → f d = g l)
    {l₁ l₂ : List Operation} (h₁ : IsOrdering parentOf ops l₁) (h₂ : IsOrdering parentOf ops l₂) :
    g l₁ = g l₂ := by
  cases ops with
  | nil => rw [perm_nil.1 h₁.perm, perm_nil.1 h₂.perm]
  | cons x _ =>
    obtain ⟨d₁, d₂, hd₁, hd₂, heq⟩ := h.view_eq h₁ h₂ x x
    rw [← hreplay hd₁, ← hreplay hd₂]
    exact hview heq

theorem sameLast_of_shows (hops : ops.Nodup) {l : List Operation} (hl : IsOrdering parentOf ops l)
    {f : Operation → Option Bool}
    (h : ∀ l₁ l₂, IsOrdering parentOf ops l₁ → IsOrdering parentOf ops l₂ →
      (lastWrite? f l₁).getD false = (lastWrite? f l₂).getD false) : SameLast ops f := by
  refine (last_agree_iff hl hops).1 fun l₁ l₂ h₁ h₂ => ?_
  have hnone : lastWrite? f l₁ = none ↔ lastWrite? f l₂ = none := by
    simp only [lastWrite?, findSome?_eq_none_iff, mem_reverse, h₁.mem_iff, h₂.mem_iff]
  have hshows := h l₁ l₂ h₁ h₂
  cases hw₁ : lastWrite? f l₁ with
  | none => rw [hnone.1 hw₁]
  | some b₁ =>
    cases hw₂ : lastWrite? f l₂ with
    | none => rw [hnone.2 hw₂] at hw₁; cases hw₁
    | some b₂ =>
      rw [hw₁, hw₂] at hshows
      simpa using hshows

variable {e : VerificationMethod}

theorem touchesMethod_eq_true {op : Operation} (h : op.touchesMethod e = some true) :
    op.delta = .vmAdd e := by
  unfold touchesMethod at h
  split at h
  · next e' hδ =>
    split at h
    · next he => rw [hδ, he]
    · cases h
  · split at h <;> cases h
  · cases h

theorem touchesMethod_eq_false {op : Operation} (h : op.touchesMethod e = some false) :
    op.delta = .vmRemove e.id := by
  unfold touchesMethod at h
  split at h
  · split at h <;> cases h
  · next id hδ =>
    split at h
    · next hid => rw [hδ, hid]
    · cases h
  · cases h

theorem UnambiguousIds.soleMethod (h : UnambiguousIds ops) {a c : Operation} (ha : a ∈ ops)
    (hae : a.delta = .vmAdd e) (hc : c ∈ ops) (hce : c.delta = .vmRemove e.id) : SoleMethod ops e :=
  fun b hb e' hbe' hid => h a ha b hb c hc e e' hae hbe' hce hid

theorem methods_of_converges (hadm : Admissible ops) (hids : UnambiguousIds ops)
    (h : Converges did ops) (e : VerificationMethod) : SameLast ops (touchesMethod e) := by
  by_cases hboth : (∃ a ∈ ops, a.delta = .vmAdd e) ∧ ∃ c ∈ ops, c.delta = .vmRemove e.id
  · obtain ⟨⟨a, ha, hae⟩, c, hc, hce⟩ := hboth
    have hsole := hids.soleMethod ha hae hc hce
    refine sameLast_of_shows hadm.nodup hadm.isOrdering fun l₁ l₂ h₁ h₂ => ?_
    obtain ⟨d₁, d₂, hd₁, hd₂, hview⟩ := h.view_eq h₁ h₂ a a
    have hshows : ∀ {l : List Operation} {n : String} {d : AjnaDocument},
        IsOrdering parentOf ops l →
        (new did n 0 0).applyAllV2 (replayAt a l) = .ok d →
        d.verificationMethods.contains e = (lastWrite? (touchesMethod e) l).getD false := by
      intro l n d hl hd
      have hfst := map_fst_replayAt a l
      cases hw : lastWrite? (touchesMethod e) l with
      | none => exact replay_method_of_untouched hd (by rw [hfst, hw])
      | some b =>
        cases b with
        | true => exact replay_method_of_added hd (by rw [hfst, hw])
        | false =>
          refine replay_method_of_removed hd ?_ (by rw [hfst, hw])
          rw [hfst]
          exact fun op hop => hsole op ((hl.mem_iff op).1 hop)
    rw [← hshows h₁ hd₁, ← hshows h₂ hd₂]
    exact congrFun (congrArg View.methods hview) e
  · -- only additions, or only removals: nothing to disagree about
    intro x y hx hy
    obtain ⟨bx, hbx⟩ := Option.isSome_iff_exists.1 hx.writes
    obtain ⟨by', hby⟩ := Option.isSome_iff_exists.1 hy.writes
    rw [hbx, hby]
    cases bx <;> cases by'
    · rfl
    · exact absurd ⟨⟨y, hy.mem, touchesMethod_eq_true hby⟩, x, hx.mem,
        touchesMethod_eq_false hbx⟩ hboth
    · exact absurd ⟨⟨x, hx.mem, touchesMethod_eq_true hbx⟩, y, hy.mem,
        touchesMethod_eq_false hby⟩ hboth
    · rfl

theorem replayAt_service (hops : ops.Nodup) {l s t : List Operation} {x : Operation}
    (hl : IsOrdering parentOf ops l) (hsplit : l = s ++ x :: t) {n : String} {d : AjnaDocument}
    (hd : (new did n 0 0).applyAllV2 (replayAt x l) = .ok d) (id : String) :
    (∀ e, x.delta = .serviceAdd e → e.id = id → d.getService id = some e) ∧
    (x.delta = .serviceRemove id → (∃ op ∈ s, op.addsService) → d.getService id = none) := by
  have hnd := hl.nodup hops
  rw [hsplit] at hnd hd
  obtain ⟨-, hndt, hdisj⟩ := nodup_append.1 hnd
  have hxs : x ∉ s := fun hx => hdisj x hx x mem_cons_self rfl
  have hxt : x ∉ t := (nodup_cons.1 hndt).1
  have hclock : ∀ {u : List Operation}, x ∉ u → ∀ p ∈ replayAt x u, p.2.now = 0 := by
    intro u hu p hp
    obtain ⟨op, hop, rfl⟩ := mem_map.1 hp
    have hne : op ≠ x := by
      rintro rfl
      exact hu hop
    simp [clockAt, hne]
  have hmap : replayAt x (s ++ x :: t) = replayAt x s ++ (x, clockAt x x) :: replayAt x t := by
    simp [replayAt]
  rw [hmap] at hd
  have hwin := replay_service_winner hd (by simp [clockAt]) (hclock hxs) (hclock hxt) id
  rw [map_fst_replayAt] at hwin
  exact hwin

theorem services_of_converges (hadm : Admissible ops) (h : Converges did ops) {a : Operation}
    (ha : a ∈ ops) {e : Service} (hae : a.delta = .serviceAdd e) {b : Operation} (hb : b ∈ ops) :
    (∀ e', b.delta = .serviceAdd e' → e'.id = e.id → e' = e) ∧
    (b.delta = .serviceRemove e.id → ∀ c ∈ ops, c.addsService → Before parentOf ops b c) := by
  have hord := hadm.isOrdering
  constructor
  · intro e' hbe' hid
    obtain ⟨s, t, hs⟩ := append_of_mem ha
    obtain ⟨s', t', hs'⟩ := append_of_mem hb
    obtain ⟨d₁, d₂, hd₁, hd₂, hview⟩ := h.view_eq hord hord a b
    have hg₁ := (replayAt_service hadm.nodup hord hs hd₁ e.id).1 e hae rfl
    have hg₂ := (replayAt_service hadm.nodup hord hs' hd₂ e.id).1 e' hbe' hid
    have heq : d₁.getService e.id = d₂.getService e.id :=
      congrFun (congrArg View.services hview) e.id
    rw [hg₁, hg₂] at heq
    exact (Option.some.inj heq).symm
  · intro hbe c hc hcadd
    by_contra hnot
    -- apply `c` and what is before it first, so that the removal finds a service map
    obtain ⟨front, back, hord', hfront⟩ := hord.exists_causesFirst c
    have hcfront : c ∈ front := (hfront c).2 ⟨hc, .inl rfl⟩
    have hbback : b ∈ back := by
      refine (mem_append.1 ((hord'.mem_iff b).2 hb)).resolve_left fun hbfront => ?_
      obtain ⟨-, rfl | hbefore⟩ := (hfront b).1 hbfront
      · obtain ⟨entry, hentry⟩ := hcadd
        rw [hbe] at hentry
        cases hentry
      · exact hnot hbefore
    obtain ⟨s, t, hs⟩ := append_of_mem hbback
    obtain ⟨s', t', hs'⟩ := append_of_mem ha
    obtain ⟨d₁, d₂, hd₁, hd₂, hview⟩ := h.view_eq hord' hord b a
    have hg₁ := (replayAt_service hadm.nodup hord' (s := front ++ s)
      (by rw [hs, append_assoc]) hd₁ e.id).2 hbe ⟨c, mem_append_left _ hcfront, hcadd⟩
    have hg₂ := (replayAt_service hadm.nodup hord hs' hd₂ e.id).1 e hae rfl
    have heq : d₁.getService e.id = d₂.getService e.id :=
      congrFun (congrArg View.services hview) e.id
    rw [hg₁, hg₂] at heq
    cases heq

theorem agree_of_converges (hadm : Admissible ops) (hids : UnambiguousIds ops)
    (h : Converges did ops) : Agree ops where
  refs p r := by
    refine sameLast_of_shows hadm.nodup hadm.isOrdering fun l₁ l₂ h₁ h₂ => ?_
    refine h.shown_eq (f := fun d => d.showsRef p r)
      (g := fun l => (lastWrite? (touchesRef p r) l).getD false)
      (fun hview => congrFun (congrFun (congrArg View.refs hview) p) r) (fun hd => ?_) h₁ h₂
    rw [replay_ref hd, map_fst_replayAt]
  controllers c := by
    refine sameLast_of_shows hadm.nodup hadm.isOrdering fun l₁ l₂ h₁ h₂ => ?_
    refine h.shown_eq (f := fun d => d.isController c)
      (g := fun l => (lastWrite? (touchesController c) l).getD false)
      (fun hview => congrFun (congrArg View.controllers hview) c) (fun hd => ?_) h₁ h₂
    rw [replay_controller hd, map_fst_replayAt]
  methods e := methods_of_converges hadm hids h e
  removals e x hx hxf := fun ⟨_, ha, hae⟩ =>
    hids.soleMethod ha hae hx.mem (touchesMethod_eq_false hxf)
  policy key := by
    refine (first_agree_iff hadm.isOrdering hadm.nodup).1 fun l₁ l₂ h₁ h₂ => ?_
    have hshown := h.shown_eq (f := fun d => d.getPolicy key)
      (g := fun l => l.findSome? (topPolicy key l))
      (fun hview => congrFun (congrArg View.policy hview) key)
      (fun hd => by rw [replay_policy hd, map_fst_replayAt]) h₁ h₂
    rwa [topPolicy_perm h₁.perm, topPolicy_perm h₂.perm] at hshown
  services a ha e hae b hb := services_of_converges hadm h ha hae hb

end

/-! ## Convergence -/

/-- **Replicas converge if the operations agree; and they do not converge otherwise, as
long as no two different methods share an id that is removed.** -/
theorem replicas_converge_iff_agree (did : String) (ops : List Operation) (hadm : Admissible ops) :
    (Agree ops → Converges did ops) ∧ (UnambiguousIds ops → (Converges did ops ↔ Agree ops)) :=
  ⟨fun h => converges_of_agree hadm h did, fun hids =>
    ⟨fun h => agree_of_converges hadm hids h, fun h => converges_of_agree hadm h did⟩⟩

/-- An operation on the authentication references of a sample DID. -/
def Sample.authOperation (opId : String) (parents : List String) (delta : Delta) : Operation where
  opType := "org.ajna.did/op/1.0"
  doc := "did:ajna:alice"
  opId := opId
  parents := parents
  actor := "did:ajna:alice"
  clock := ⟨1, 1⟩
  delta := delta
  auth := ⟨"", "did:ajna:alice#key-1"⟩
  timestampMs := 0

open Sample

/-- Add the reference to `key-1`. -/
def Sample.addRef : Operation :=
  authOperation "op-1" [] (.refAdd .authentication "did:ajna:alice#key-1")

/-- Remove the reference to `key-1`, knowing of the operations `parents`. -/
def Sample.removeRef (parents : List String) : Operation :=
  authOperation "op-2" parents (.refRemove .authentication "did:ajna:alice#key-1")

theorem Sample.addRef_ne_removeRef (parents : List String) : addRef ≠ removeRef parents := by
  intro hc
  have hid : "op-1" = "op-2" := congrArg opId hc
  exact absurd hid (by decide)

theorem Sample.admissible (parents : List String) :
    Admissible [addRef, removeRef parents] where
  nodup := by
    simp [addRef_ne_removeRef parents]
  respects := by
    rw [Respects, pairwise_pair]
    exact fun hc => by cases hc
  applies op hop := by
    simp only [mem_cons, not_mem_nil, or_false] at hop
    rcases hop with rfl | rfl <;> trivial

/-- An addition and a removal that knows of it: every replica ends without the
reference. -/
theorem replicas_converge_ordered : Converges "did:ajna:alice" [addRef, removeRef ["op-1"]] := by
  refine (replicas_converge_iff_agree _ _ (admissible _)).1 ?_
  have hmem : ∀ {x : Operation}, x ∈ [addRef, removeRef ["op-1"]] →
      x = addRef ∨ x = removeRef ["op-1"] := by
    intro x hx
    simpa using hx
  have hbefore : Before parentOf [addRef, removeRef ["op-1"]] addRef
      (removeRef ["op-1"]) :=
    Relation.TransGen.single ⟨by simp, by simp, addRef_ne_removeRef _, mem_cons_self⟩
  refine ⟨fun p r x y hx hy => ?_, fun c x y hx _ => ?_, fun e x y hx _ => ?_,
    fun e x hx => ?_, fun key x y hx _ => ?_, fun a ha e hae => ?_⟩
  · -- the addition cannot come last: the removal writes the same reference after it
    have hlast : ∀ {z}, LastWrite parentOf [addRef, removeRef ["op-1"]]
        (touchesRef p r) z → z = removeRef ["op-1"] := by
      intro z hz
      rcases hmem hz.mem with rfl | rfl
      · refine absurd hbefore (hz.last _ (by simp) ?_)
        have hw := hz.writes
        simp only [touchesRef, addRef, removeRef, authOperation] at hw ⊢
        split at hw
        · next hc => rw [if_pos hc]; rfl
        · cases hw
      · rfl
    rw [hlast hx, hlast hy]
  iterate 4 rcases hmem hx.mem with rfl | rfl <;> cases hx.writes
  · rcases hmem ha with rfl | rfl <;> cases hae

/-- A concurrent addition and removal: the replica that applies the addition last shows
the reference, the other one does not. -/
theorem replicas_diverge_concurrent :
    ¬ ∀ (did : String) (ops : List Operation), Admissible ops → Converges did ops := by
  intro hclaim
  have h := hclaim "did:ajna:alice" _ (admissible [])
  have h₁ := (admissible []).isOrdering
  have h₂ : IsOrdering parentOf [addRef, removeRef []]
      [removeRef [], addRef] := by
    refine ⟨Perm.swap _ _ _, ?_⟩
    rw [Respects, pairwise_pair]
    exact fun hc => by cases hc
  obtain ⟨d₁, d₂, hd₁, hd₂, hview⟩ := h.view_eq h₁ h₂ addRef addRef
  have heq : d₁.showsRef .authentication "did:ajna:alice#key-1" =
      d₂.showsRef .authentication "did:ajna:alice#key-1" :=
    congrFun (congrFun (congrArg View.refs hview) _) _
  rw [replay_ref hd₁, replay_ref hd₂, map_fst_replayAt] at heq
  exact absurd heq (by decide)

end Idiom.Ajna
