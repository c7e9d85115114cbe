import Idiom.Kanon.Registry
import Idiom.Kanon.Update

/-!
# Status lists and the chain

A status list is registered by revoking the credentials of its new indices one by one; the list is
stored only after that. A call of the chain or of the storage may fail at any point.
-/

namespace Idiom.Kanon

open Ajna (Json)
open Run Prog Registry List Function Finmap

/-! ## Conditions -/

section

variable (host : Host)

def RevokedOnChain (s : Registry) (revRegId : String) (idx : UInt32) : Prop :=
  ∃ info kanonCredId, s.metas.lookup revRegId = some info ∧
    s.index.lookup (indexKey revRegId idx) = some kanonCredId ∧
    s.status (resourceIdToBytes32 host info.credDefId) (credIdHash host kanonCredId) = .revoked

/-- The indices of the list that the registration has to revoke. -/
def newIndices (info : RevRegMeta) (statusList : Json) : List UInt32 :=
  (revokedIndicesValue statusList).filter (· ∉ prevIndices info)

/-- The registry is known, and each index has a credential. -/
def Acceptable (s : Registry) (revRegId : String) (statusList : Json) : Prop :=
  ∃ info, s.metas.lookup revRegId = some info ∧
    ∀ idx ∈ newIndices info statusList, indexKey revRegId idx ∈ s.index

/-- The credentials of the indices. -/
def credHashes (s : Registry) (revRegId : String) (indices : List UInt32) : List Bytes32 :=
  indices.filterMap fun idx => (s.index.lookup (indexKey revRegId idx)).map (credIdHash host)

/-- The credentials are different, and none of them is revoked yet. -/
def Revocable (s : Registry) (revRegId : String) (cd : Bytes32) (indices : List UInt32) : Prop :=
  (credHashes host s revRegId indices).Nodup ∧
    ∀ cid ∈ credHashes host s revRegId indices, s.status cd cid ≠ .revoked

def HasRevoked (trace : List (RegistryAccess × Answer)) : Prop :=
  ∃ cd cid e, (RegistryAccess.revokeCredential cd cid, e) ∈ trace ∧ e.applies

/-- The access does not break the call off, or the list is stored. -/
def GoesThrough : RegistryAccess → Answer → Registry → Prop
  | .issueCredential cd cid, e, s =>
    (∀ applied, e ≠ .crashed applied) ∧ (s.status cd cid = .unknown → e.applies)
  | .revokeCredential _ _, e, _ => ∃ tx, e = .done tx
  | .findIndex _, e, _ => ∃ value, e = .done value
  | .updateMeta _, e, _ => e ≠ .crashed false
  | .saveMeta info, e, s => e.applies ∨ s.metas.lookup info.revRegId = some info
  | _, _, _ => True

def Revokes : RegistryAccess → Answer → Registry → Prop
  | .revokeCredential cd cid, e, s => e.applies ∧ s.status cd cid = .issued
  | _, _, _ => False

/-- An index of a stored list does not get a credential that is not revoked. -/
def KeepsIndex (key kanonCredId : String) (e : Answer) (s : Registry) : Prop :=
  e.applies → ∀ revRegId info idx, s.metas.lookup revRegId = some info →
    idx ∈ prevIndices info → indexKey revRegId idx = key →
    s.status (resourceIdToBytes32 host info.credDefId) (credIdHash host kanonCredId) = .revoked

/-- The index that the access may write keeps a credential that is revoked. -/
def KeepsIndices : RegistryAccess → Answer → Registry → Prop
  | .updateIndex key kanonCredId, e, s => KeepsIndex host key kanonCredId e s
  | .saveIndex key kanonCredId, e, s => KeepsIndex host key kanonCredId e s
  | _, _, _ => True

/-- The condition of an access. -/
def Guard (trace : List (RegistryAccess × Answer)) (label : RegistryAccess) (e : Answer)
    (s : Registry) : Prop :=
  KeepsIndices host label e s ∧ (HasRevoked trace ∨ Revokes label e s → GoesThrough label e s)

end

/-! ## What every access keeps -/

section

variable {host : Host} {s t u : Registry} {label : RegistryAccess} {e : Answer}

variable (host) in
/-- Every index of the list of the record is revoked on chain. -/
def Covered (s : Registry) (info : RevRegMeta) : Prop :=
  ∀ idx ∈ prevIndices info, ∃ kanonCredId,
    s.index.lookup (indexKey info.revRegId idx) = some kanonCredId ∧
    s.status (resourceIdToBytes32 host info.credDefId) (credIdHash host kanonCredId) = .revoked

variable (host) in
/-- Every index of a stored list is revoked on chain. -/
def RegistryInv (s : Registry) : Prop :=
  ∀ revRegId info, s.metas.lookup revRegId = some info →
    info.revRegId = revRegId ∧ Covered host s info

theorem registryInv_fresh : RegistryInv host .fresh := by
  intro revRegId info h
  cases h

def StaysRevoked (s t : Registry) : Prop :=
  ∀ cd cid, s.status cd cid = .revoked → t.status cd cid = .revoked

theorem setStatus_status (cd cid cd' cid' : Bytes32) (status : CredStatus) :
    (s.setStatus cd cid status).status cd' cid' =
      if cd' = cd ∧ cid' = cid then status else s.status cd' cid' := by
  show update s.status cd (update (s.status cd) cid status) cd' cid' = _
  by_cases hcd : cd' = cd
  · subst hcd
    rw [update_self]
    by_cases hcid : cid' = cid
    · subst hcid
      rw [update_self, if_pos ⟨rfl, rfl⟩]
    · rw [update_of_ne hcid, if_neg fun h => hcid h.2]
  · rw [update_of_ne hcd, if_neg fun h => hcd h.1]

theorem effect_staysRevoked : StaysRevoked s (label.effect e s) := by
  intro cd cid h
  cases label with
  | issueCredential cd' cid' =>
    show (ite _ _ _ : Registry).status cd cid = _
    split
    · next happlies =>
      rw [setStatus_status, if_neg]
      · exact h
      · rintro ⟨rfl, rfl⟩
        rw [h] at happlies
        cases happlies.2
    · exact h
  | revokeCredential cd' cid' =>
    show (ite _ _ _ : Registry).status cd cid = _
    split
    · rw [setStatus_status]
      split
      · rfl
      · exact h
    · exact h
  | findMeta _ | findIndex _ => exact h
  | updateMeta _ | saveMeta _ | updateIndex _ _ | saveIndex _ _ =>
    show (ite _ _ _ : Registry).status cd cid = _
    split <;> exact h

theorem Covered.mono {info : RevRegMeta} (h : Covered host s info) (hindex : t.index = s.index)
    (hrevoked : StaysRevoked s t) : Covered host t info := by
  intro idx hidx
  obtain ⟨kanonCredId, hlookup, hstatus⟩ := h idx hidx
  exact ⟨kanonCredId, by rw [hindex]; exact hlookup, hrevoked _ _ hstatus⟩

theorem RegistryInv.mono (h : RegistryInv host s) (hmetas : t.metas = s.metas)
    (hindex : t.index = s.index) (hrevoked : StaysRevoked s t) : RegistryInv host t := by
  intro revRegId info hinfo
  rw [hmetas] at hinfo
  obtain ⟨hid, hcovered⟩ := h revRegId info hinfo
  exact ⟨hid, hcovered.mono hindex hrevoked⟩

theorem RegistryInv.putMeta {info : RevRegMeta} (h : RegistryInv host s)
    (hcovered : Covered host s info) : RegistryInv host (s.putMeta info) := by
  intro revRegId info' hinfo
  have hinfo : (s.metas.insert info.revRegId info).lookup revRegId = some info' := hinfo
  rw [FMap.lookup_insert_ite] at hinfo
  split at hinfo
  · next heq =>
    cases hinfo
    exact ⟨heq.symm, hcovered⟩
  · exact h revRegId info' hinfo

theorem RegistryInv.putIndex {key kanonCredId : String} (h : RegistryInv host s)
    (hkeeps : ∀ revRegId info idx, s.metas.lookup revRegId = some info →
      idx ∈ prevIndices info → indexKey revRegId idx = key →
      s.status (resourceIdToBytes32 host info.credDefId) (credIdHash host kanonCredId) = .revoked) :
    RegistryInv host (s.putIndex key kanonCredId) := by
  intro revRegId info hinfo
  obtain ⟨hid, hcovered⟩ := h revRegId info hinfo
  refine ⟨hid, fun idx hidx => ?_⟩
  show ∃ credId, (s.index.insert key kanonCredId).lookup _ = _ ∧ s.status _ _ = _
  rw [FMap.lookup_insert_ite]
  split
  · next heq =>
    rw [hid] at heq
    exact ⟨kanonCredId, rfl, hkeeps revRegId info idx hinfo hidx heq⟩
  · exact hcovered idx hidx

/-- The record that the access may write. -/
def RegistryAccess.written : RegistryAccess → Option RevRegMeta
  | .updateMeta info => some info
  | .saveMeta info => some info
  | _ => none

theorem RegistryInv.effect (h : RegistryInv host s) (hkeeps : KeepsIndices host label e s)
    (hwritten : ∀ info, label.written = some info → Covered host s info) :
    RegistryInv host (label.effect e s) := by
  have hchain : ∀ t : Registry, t = label.effect e s → t.metas = s.metas → t.index = s.index →
      RegistryInv host t := by
    rintro t rfl hmetas hindex
    exact h.mono hmetas hindex effect_staysRevoked
  cases label with
  | issueCredential _ _ | revokeCredential _ _ =>
    refine hchain _ rfl ?_ ?_
    · show (ite _ _ _ : Registry).metas = _
      split <;> rfl
    · show (ite _ _ _ : Registry).index = _
      split <;> rfl
  | findMeta _ | findIndex _ => exact h
  | updateMeta info | saveMeta info =>
    show RegistryInv host (ite _ _ _)
    split
    · exact h.putMeta (hwritten info rfl)
    · exact h
  | updateIndex key kanonCredId =>
    show RegistryInv host (ite _ _ _)
    split
    · next happlies => exact h.putIndex (hkeeps happlies.1)
    · exact h
  | saveIndex key kanonCredId =>
    show RegistryInv host (ite _ _ _)
    split
    · next happlies => exact h.putIndex (hkeeps happlies)
    · exact h

end

/-! ## What a registration does -/

section

variable {host : Host} {s t : Registry} {trace trace' : List (RegistryAccess × Answer)}
  {cd cid : Bytes32} {revRegId : String} {idx : UInt32}

theorem HasRevoked.mono {made : List (RegistryAccess × Answer)} (h : HasRevoked trace) :
    HasRevoked (trace ++ made) := by
  obtain ⟨cd, cid, e, hmem, happlies⟩ := h
  exact ⟨cd, cid, e, mem_append_left _ hmem, happlies⟩

theorem HasRevoked.reaches {α : Type} {p : RegistryProg α} {r : Except Stop α}
    (hrevoked : HasRevoked trace) (h : p.Reaches (Guard host) trace s r trace' t) :
    HasRevoked trace' := by
  obtain ⟨made, rfl⟩ := h.trace_eq
  exact hrevoked.mono

/-- The records are as they were, and what was revoked still is. -/
structure ChainOnly (s t : Registry) : Prop where
  metas : t.metas = s.metas
  index : t.index = s.index
  revoked : StaysRevoked s t

theorem ChainOnly.refl (s : Registry) : ChainOnly s s := ⟨rfl, rfl, fun _ _ h => h⟩

theorem ChainOnly.trans {u : Registry} (hst : ChainOnly s t) (htu : ChainOnly t u) :
    ChainOnly s u where
  metas := htu.metas.trans hst.metas
  index := htu.index.trans hst.index
  revoked cd cid h := htu.revoked cd cid (hst.revoked cd cid h)

/-- Nothing was revoked. -/
def Unrevoked (s t : Registry) : Prop :=
  ∀ cd cid, t.status cd cid = .revoked → s.status cd cid = .revoked

variable {r : Except Stop Unit}

theorem issueCredential_reaches
    (h : (ignoreError (issueCredential cd cid)).Reaches (Guard host) trace s r trace' t) :
    ChainOnly s t ∧ Unrevoked s t ∧
      (HasRevoked trace → r = .ok () ∧ t.status cd cid ≠ .unknown) := by
  obtain ⟨e, hguard, h⟩ := h
  have ht : t = (RegistryAccess.issueCredential cd cid).effect e s := by
    cases e with
    | failed _ | lost _ | crashed _ => exact h.2.2
    | done tx =>
      by_cases hstatus : s.status cd cid = .unknown
      · simp only [hstatus, decide_true] at h
        exact h.2.2
      · simp only [hstatus, decide_false, Bool.false_eq_true] at h
        exact h.2.2
  have hchain : ChainOnly s t := by
    rw [ht]
    refine ⟨?_, ?_, effect_staysRevoked⟩
    · show (ite _ _ _ : Registry).metas = _
      split <;> rfl
    · show (ite _ _ _ : Registry).index = _
      split <;> rfl
  have hstatus : ∀ cd' cid', t.status cd' cid' = if e.applies ∧ s.status cd cid = .unknown ∧
      cd' = cd ∧ cid' = cid then .issued else s.status cd' cid' := by
    intro cd' cid'
    rw [ht]
    show (ite _ _ _ : Registry).status cd' cid' = _
    by_cases happlies : e.applies ∧ s.status cd cid = .unknown
    · rw [if_pos happlies, setStatus_status]
      simp only [happlies, true_and]
    · rw [if_neg happlies, if_neg fun h => happlies ⟨h.1, h.2.1⟩]
  refine ⟨hchain, fun cd' cid' hrevoked => ?_, fun hhas => ?_⟩
  · rw [hstatus] at hrevoked
    split at hrevoked
    · cases hrevoked
    · exact hrevoked
  · obtain ⟨hcrashed, happlies⟩ := hguard.2 (.inl hhas)
    refine ⟨?_, ?_⟩
    · cases e with
      | failed _ | lost _ => exact h.1
      | crashed applied => exact absurd rfl (hcrashed applied)
      | done tx =>
        by_cases hunknown : s.status cd cid = .unknown
        · simp only [hunknown, decide_true] at h
          exact h.1
        · simp only [hunknown, decide_false, Bool.false_eq_true] at h
          exact h.1
    · rw [hstatus]
      split
      · exact CredStatus.noConfusion
      · next hnot => exact fun hunknown => hnot ⟨happlies hunknown, hunknown, rfl, rfl⟩

/-- **A revocation** either succeeds, or changes nothing; after another one, it only fails if the
credential is not issued. -/
theorem revokeCredential_reaches {r : Except Stop String}
    (h : (revokeCredential cd cid).Reaches (Guard host) trace s r trace' t) :
    (∃ tx, r = .ok tx ∧ s.status cd cid = .issued ∧ t = s.setStatus cd cid .revoked ∧
        HasRevoked trace') ∨
      (∃ stop, r = .error stop) ∧ t = s ∧ (HasRevoked trace → s.status cd cid ≠ .issued) := by
  obtain ⟨e, hguard, h⟩ := h
  by_cases hissued : s.status cd cid = .issued
  · by_cases happlies : e.applies
    · obtain ⟨tx, rfl⟩ := hguard.2 (.inr ⟨happlies, hissued⟩)
      simp only [hissued, decide_true] at h
      obtain ⟨rfl, rfl, rfl⟩ := h
      refine .inl ⟨tx, rfl, hissued, ?_, cd, cid, .done tx, by simp, rfl⟩
      show ite _ _ _ = _
      rw [if_pos ⟨rfl, hissued⟩]
    · refine .inr ?_
      have ht : (RegistryAccess.revokeCredential cd cid).effect e s = s := by
        show ite _ _ _ = _
        rw [if_neg fun h => happlies h.1]
      rw [ht] at h
      cases e with
      | done tx | lost _ => exact absurd rfl happlies
      | failed _ | crashed _ =>
        refine ⟨⟨_, h.1⟩, h.2.2, fun hhas => ?_⟩
        obtain ⟨tx, htx⟩ := hguard.2 (.inl hhas)
        cases htx
  · refine .inr ?_
    have ht : (RegistryAccess.revokeCredential cd cid).effect e s = s := by
      show ite _ _ _ = _
      rw [if_neg fun h => hissued h.2]
    rw [ht] at h
    cases e with
    | done tx =>
      simp only [hissued, decide_false, Bool.false_eq_true] at h
      exact ⟨⟨_, h.1⟩, h.2.2, fun _ => hissued⟩
    | lost _ | failed _ | crashed _ => exact ⟨⟨_, h.1⟩, h.2.2, fun _ => hissued⟩

theorem getCredIndex_reaches {r : Except Stop (Option String)}
    (h : (getCredIndex revRegId idx).Reaches (Guard host) trace s r trace' t) :
    t = s ∧ (r = .ok (s.index.lookup (indexKey revRegId idx)) ∨
      (∃ stop, r = .error stop) ∧ ¬ HasRevoked trace) := by
  obtain ⟨e, hguard, h⟩ := h
  cases e with
  | done _ => exact ⟨h.2.2, .inl h.1⟩
  | failed _ | lost _ | crashed _ =>
    refine ⟨h.2.2, .inr ⟨⟨_, h.1⟩, fun hhas => ?_⟩⟩
    obtain ⟨value, hvalue⟩ := hguard.2 (.inl hhas)
    cases hvalue

theorem revokeIndex_reaches
    (h : (revokeIndex host revRegId cd idx).Reaches (Guard host) trace s r trace' t) :
    ChainOnly s t ∧
      ((∃ kanonCredId, s.index.lookup (indexKey revRegId idx) = some kanonCredId ∧ r = .ok () ∧
          HasRevoked trace' ∧ t.status cd (credIdHash host kanonCredId) = .revoked ∧
          ∀ cd' cid', t.status cd' cid' = .revoked → s.status cd' cid' = .revoked ∨
            (cd' = cd ∧ cid' = credIdHash host kanonCredId)) ∨
        (∃ stop, r = .error stop) ∧ Unrevoked s t ∧ (HasRevoked trace →
          ∀ kanonCredId, s.index.lookup (indexKey revRegId idx) = some kanonCredId →
            s.status cd (credIdHash host kanonCredId) = .revoked)) := by
  rcases reaches_bind.1 h with ⟨stop, hfind, rfl⟩ | ⟨found, trace₁, s₁, hfind, h⟩
  · obtain ⟨rfl, hok | ⟨_, hnone⟩⟩ := getCredIndex_reaches hfind
    · cases hok
    · exact ⟨.refl _, .inr ⟨⟨_, rfl⟩, fun _ _ h => h, fun hhas => absurd hhas hnone⟩⟩
  · have hhas₁ : HasRevoked trace → HasRevoked trace₁ := fun hhas => hhas.reaches hfind
    obtain ⟨rfl, hok | ⟨⟨_, hstop⟩, _⟩⟩ := getCredIndex_reaches hfind
    swap
    · cases hstop
    obtain rfl : found = s₁.index.lookup (indexKey revRegId idx) := Except.ok.inj hok
    cases hlookup : s₁.index.lookup (indexKey revRegId idx) with
    | none =>
      rw [hlookup] at h
      obtain ⟨rfl, rfl, rfl⟩ := h
      exact ⟨.refl _, .inr ⟨⟨_, rfl⟩, fun _ _ h => h, fun _ _ h => (by cases h)⟩⟩
    | some kanonCredId =>
      rw [hlookup] at h
      rcases reaches_bind.1 h with ⟨stop, hissue, rfl⟩ | ⟨⟨⟩, trace₂, s₂, hissue, h⟩
      · obtain ⟨hchain, hun, hgoes⟩ := issueCredential_reaches hissue
        refine ⟨hchain, .inr ⟨⟨_, rfl⟩, hun, fun hhas => ?_⟩⟩
        cases (hgoes (hhas₁ hhas)).1
      · obtain ⟨hchain, hun, hgoes⟩ := issueCredential_reaches hissue
        rcases reaches_bind.1 h with ⟨stop, hrevoke, rfl⟩ | ⟨tx, trace₃, s₃, hrevoke, h⟩
        · obtain ⟨_, hok, _⟩ | ⟨_, rfl, hissued⟩ := revokeCredential_reaches hrevoke
          · cases hok
          · refine ⟨hchain, .inr ⟨⟨_, rfl⟩, hun, fun hhas credId hcred => ?_⟩⟩
            cases hcred
            have hnot := hissued ((hhas₁ hhas).reaches hissue)
            have hknown := (hgoes (hhas₁ hhas)).2
            refine hun _ _ ?_
            cases hstatus : t.status cd (credIdHash host kanonCredId) with
            | unknown => exact absurd hstatus hknown
            | issued => exact absurd hstatus hnot
            | revoked => rfl
        · obtain ⟨rfl, rfl, rfl⟩ := h
          obtain ⟨_, _, _, rfl, hhas⟩ | ⟨⟨_, hstop⟩, _⟩ := revokeCredential_reaches hrevoke
          · refine ⟨hchain.trans ⟨rfl, rfl, fun cd' cid' h => ?_⟩, .inl ⟨kanonCredId, rfl, rfl,
              hhas, ?_, fun cd' cid' h => ?_⟩⟩
            · rw [setStatus_status]
              split
              · rfl
              · exact h
            · rw [setStatus_status, if_pos ⟨rfl, rfl⟩]
            · rw [setStatus_status] at h
              split at h
              · next heq => exact .inr heq
              · exact .inl (hun _ _ h)
          · cases hstop

/-! ## The loop -/

theorem revokeNew_eq (prevList newList : List UInt32) :
    revokeNew host revRegId cd prevList newList =
      revokeNew host revRegId cd [] (newList.filter (· ∉ prevList)) := by
  induction newList with
  | nil => rfl
  | cons idx newList ih =>
    by_cases hidx : idx ∈ prevList
    · rw [filter_cons_of_neg (by simp [hidx]), ← ih, revokeNew, if_pos hidx]
    · rw [filter_cons_of_pos (by simp [hidx]), revokeNew, revokeNew, if_neg hidx,
        if_neg not_mem_nil, ih]

theorem revokeNew_cons (indices : List UInt32) :
    revokeNew host revRegId cd [] (idx :: indices) =
      revokeIndex host revRegId cd idx >>= fun _ => revokeNew host revRegId cd [] indices := by
  rw [revokeNew, if_neg not_mem_nil]

variable {kanonCredId : String}

theorem credHashes_cons (indices : List UInt32)
    (h : s.index.lookup (indexKey revRegId idx) = some kanonCredId) :
    credHashes host s revRegId (idx :: indices) =
      credIdHash host kanonCredId :: credHashes host s revRegId indices := by
  unfold credHashes
  rw [filterMap_cons_some]
  rw [h]
  rfl

variable {indices : List UInt32}

theorem Revocable.tail (h : Revocable host s revRegId cd (idx :: indices))
    (hlookup : s.index.lookup (indexKey revRegId idx) = some kanonCredId)
    (hindex : t.index = s.index)
    (honly : ∀ cd' cid', t.status cd' cid' = .revoked → s.status cd' cid' = .revoked ∨
      (cd' = cd ∧ cid' = credIdHash host kanonCredId))
    : Revocable host t revRegId cd indices := by
  obtain ⟨hnodup, hnot⟩ := h
  rw [credHashes_cons indices hlookup] at hnodup hnot
  have heq : credHashes host t revRegId indices = credHashes host s revRegId indices := by
    unfold credHashes
    rw [hindex]
  unfold Revocable
  rw [heq]
  refine ⟨(nodup_cons.1 hnodup).2, fun cid hcid hrevoked => ?_⟩
  rcases honly cd cid hrevoked with hrevoked | ⟨_, rfl⟩
  · exact hnot cid (mem_cons_of_mem _ hcid) hrevoked
  · exact (nodup_cons.1 hnodup).1 hcid

/-- **The loop** revokes the credentials of all indices, or it breaks off; where the indices can be
revoked it breaks off only before it has revoked one. -/
theorem revokeNew_reaches
    (h : (revokeNew host revRegId cd [] indices).Reaches (Guard host) trace s r trace' t) :
    ChainOnly s t ∧
      ((r = .ok () ∧ (HasRevoked trace' ∨ Unrevoked s t) ∧ ∀ idx ∈ indices, ∃ kanonCredId,
          s.index.lookup (indexKey revRegId idx) = some kanonCredId ∧
          t.status cd (credIdHash host kanonCredId) = .revoked) ∨
        (∃ stop, r = .error stop) ∧ ((∀ idx ∈ indices, indexKey revRegId idx ∈ s.index) →
          Revocable host s revRegId cd indices → ¬ HasRevoked trace ∧ Unrevoked s t)) := by
  induction indices generalizing trace s with
  | nil =>
    obtain ⟨rfl, rfl, rfl⟩ := h
    exact ⟨.refl _, .inl ⟨rfl, .inr fun _ _ h => h, fun idx hidx => by cases hidx⟩⟩
  | cons idx indices ih =>
    rcases reaches_bind.1 h with ⟨stop, hfirst, rfl⟩ | ⟨⟨⟩, trace₁, s₁, hfirst, h⟩
    · obtain ⟨hchain, ⟨_, _, hok, _⟩ | ⟨_, hun, hfails⟩⟩ := revokeIndex_reaches hfirst
      · cases hok
      · refine ⟨hchain, .inr ⟨⟨stop, rfl⟩, fun hkeys hrevocable => ⟨fun hhas => ?_, hun⟩⟩⟩
        obtain ⟨kanonCredId, hlookup⟩ := mem_iff.1 (hkeys idx mem_cons_self)
        refine hrevocable.2 _ ?_ (hfails hhas kanonCredId hlookup)
        rw [credHashes_cons indices hlookup]
        exact mem_cons_self
    · obtain ⟨hchain, ⟨kanonCredId, hlookup, _, hhas, hrevoked, honly⟩ | ⟨⟨_, hstop⟩, _⟩⟩ :=
        revokeIndex_reaches hfirst
      · obtain ⟨hchain', ⟨hr, _, hall⟩ | ⟨hstop, hfails⟩⟩ := ih h
        · refine ⟨hchain.trans hchain', .inl ⟨hr, .inl (hhas.reaches h), fun idx' hidx' => ?_⟩⟩
          rcases mem_cons.1 hidx' with rfl | hidx'
          · exact ⟨kanonCredId, hlookup, hchain'.revoked _ _ hrevoked⟩
          · rw [← hchain.index]
            exact hall idx' hidx'
        · refine ⟨hchain.trans hchain', .inr ⟨hstop, fun hkeys hrevocable => ?_⟩⟩
          refine absurd hhas (hfails (fun idx' hidx' => ?_)
            (hrevocable.tail hlookup hchain.index honly)).1
          rw [hchain.index]
          exact hkeys idx' (mem_cons_of_mem _ hidx')
      · cases hstop

/-! ## The snapshot -/

theorem putMeta_putMeta (info : RevRegMeta) : (s.putMeta info).putMeta info = s.putMeta info := by
  show mk ((s.metas.insert info.revRegId info).insert info.revRegId info) _ _ = _
  rw [insert_insert]
  rfl

@[simp] theorem lookup_putMeta (info : RevRegMeta) :
    (s.putMeta info).metas.lookup info.revRegId = some info := lookup_insert _

variable {info : RevRegMeta}

theorem saveMeta_reaches
    (h : (saveRegistryRecord (.saveMeta info) catRevregMeta).Reaches (Guard host) trace s r trace'
      t) :
    (t = s ∨ t = s.putMeta info) ∧ (r = .ok () → t = s.putMeta info) ∧
      (HasRevoked trace → t.metas.lookup info.revRegId = some info) := by
  obtain ⟨e, hguard, h⟩ := h
  have ht : t = if e.applies then s.putMeta info else s := by
    cases e with
    | done _ | failed _ | lost _ | crashed _ => exact h.2.2
  refine ⟨?_, ?_, fun hhas => ?_⟩
  · rw [ht]
    split
    · exact .inr rfl
    · exact .inl rfl
  · rintro rfl
    cases e with
    | done _ => exact ht
    | failed _ | lost _ | crashed _ => cases h.1
  · rw [ht]
    split
    · exact lookup_putMeta info
    · next hnot => exact (hguard.2 (.inl hhas)).resolve_left hnot

/-- **The snapshot** is stored or not; after a revocation it is. -/
theorem saveRevregMeta_reaches (h : (saveRevregMeta info).Reaches (Guard host) trace s r trace' t) :
    (t = s ∨ t = s.putMeta info) ∧ (r = .ok () → t = s.putMeta info) ∧
      (HasRevoked trace → info.revRegId ∈ s.metas → t.metas.lookup info.revRegId = some info) := by
  obtain ⟨e, hguard, h⟩ := h
  have heffect : (RegistryAccess.updateMeta info).effect e s =
      if e.applies ∧ info.revRegId ∈ s.metas then s.putMeta info else s := rfl
  rw [heffect] at h
  -- the update failed, or found no record
  have hsave : (saveRegistryRecord (.saveMeta info) catRevregMeta).Reaches (Guard host)
      (trace ++ [(.updateMeta info, e)])
      (if e.applies ∧ info.revRegId ∈ s.metas then s.putMeta info else s) r trace' t →
      (t = s ∨ t = s.putMeta info) ∧ (r = .ok () → t = s.putMeta info) ∧
      (HasRevoked trace → info.revRegId ∈ s.metas → t.metas.lookup info.revRegId = some info) := by
    intro h
    obtain ⟨hone, hok, hhas⟩ := saveMeta_reaches h
    refine ⟨?_, ?_, fun hrevoked _ => hhas hrevoked.mono⟩
    · split at hone
      · rw [putMeta_putMeta] at hone
        exact .inr (hone.elim id id)
      · exact hone
    · intro hr
      rw [hok hr]
      split
      · exact putMeta_putMeta info
      · rfl
  cases e with
  | failed _ | lost _ => exact hsave h
  | done _ =>
    by_cases hmem : info.revRegId ∈ s.metas
    · simp only [hmem, decide_true] at h
      obtain ⟨rfl, rfl, rfl⟩ := h
      exact ⟨.inr rfl, fun _ => rfl, fun _ _ => lookup_putMeta info⟩
    · simp only [hmem, decide_false, Bool.false_eq_true] at h
      refine hsave ?_
      rw [if_neg fun h => hmem h.2]
      exact h
  | crashed applied =>
    obtain ⟨rfl, _, rfl⟩ := h
    refine ⟨?_, fun hr => (by cases hr), fun hhas hmem => ?_⟩
    · split
      · exact .inr rfl
      · exact .inl rfl
    · have hgoes : Answer.crashed applied ≠ .crashed false := hguard.2 (.inl hhas)
      cases applied with
      | false => exact absurd rfl hgoes
      | true =>
        rw [if_pos ⟨rfl, hmem⟩]
        exact lookup_putMeta info

/-! ## One registration -/

theorem loadRevregMeta_reaches {r : Except Stop (Option RevRegMeta)}
    (h : (loadRevregMeta revRegId).Reaches (Guard host) trace s r trace' t) :
    t = s ∧ (r = .ok (s.metas.lookup revRegId) ∨ ∃ stop, r = .error stop) ∧
      ∃ e, trace' = trace ++ [(.findMeta revRegId, e)] := by
  obtain ⟨e, _, h⟩ := h
  cases e with
  | done _ => exact ⟨h.2.2, .inl h.1, _, h.2.1⟩
  | failed _ | lost _ | crashed _ => exact ⟨h.2.2, .inr ⟨_, h.1⟩, _, h.2.1⟩

variable (host) in
/-- The list is accepted, and its new credentials can be revoked. -/
def Registrable (s : Registry) (revRegId : String) (statusList : Json) : Prop :=
  Acceptable s revRegId statusList ∧ ∀ info, s.metas.lookup revRegId = some info →
    Revocable host s revRegId (resourceIdToBytes32 host info.credDefId) (newIndices info statusList)

variable {statusList : Json}

theorem Registrable.mono (h : Registrable host s revRegId statusList) (hmetas : t.metas = s.metas)
    (hindex : t.index = s.index) (hun : Unrevoked s t) :
    Registrable host t revRegId statusList := by
  unfold Registrable Acceptable Revocable credHashes at h ⊢
  rw [hmetas, hindex]
  refine ⟨h.1, fun info hinfo => ⟨(h.2 info hinfo).1, fun cid hcid hrevoked => ?_⟩⟩
  exact (h.2 info hinfo).2 cid hcid (hun _ _ hrevoked)

theorem registrable_of_stored (h : s.metas.lookup revRegId = some info)
    (hlist : info.revListJson = some statusList) : Registrable host s revRegId statusList := by
  have hnew : newIndices info statusList = [] := by
    unfold newIndices prevIndices
    rw [hlist]
    refine filter_eq_nil_iff.2 fun idx hidx => ?_
    simpa using hidx
  refine ⟨⟨info, h, fun idx hidx => ?_⟩, fun info' hinfo' => ?_⟩
  · rw [hnew] at hidx
    cases hidx
  · obtain rfl : info = info' := Option.some.inj (h.symm.trans hinfo')
    rw [hnew]
    exact ⟨nodup_nil, fun cid hcid => by cases hcid⟩

/-- **A registration.**  If it breaks off, the list can be registered as before. -/
theorem registerRevocationStatusList_reaches (hinv : RegistryInv host s)
    (h : (registerRevocationStatusList host revRegId statusList).Reaches
      (Guard host) [] s r trace' t) :
    RegistryInv host t ∧
      (r = .ok () → ∀ idx ∈ revokedIndicesValue statusList, RevokedOnChain host t revRegId idx) ∧
      ((∃ stop, r = .error stop) → Registrable host s revRegId statusList →
        Registrable host t revRegId statusList) := by
  rcases reaches_bind.1 h with ⟨stop, hload, rfl⟩ | ⟨found, trace₁, s₁, hload, h⟩
  · obtain ⟨rfl, _⟩ := loadRevregMeta_reaches hload
    exact ⟨hinv, fun hr => (by cases hr), fun _ h => h⟩
  obtain ⟨rfl, hok | ⟨_, hstop⟩, e, rfl⟩ := loadRevregMeta_reaches hload
  swap
  · cases hstop
  obtain rfl : found = s₁.metas.lookup revRegId := Except.ok.inj hok
  cases hlookup : s₁.metas.lookup revRegId with
  | none =>
    rw [hlookup] at h
    obtain ⟨rfl, rfl, rfl⟩ := h
    exact ⟨hinv, fun hr => (by cases hr), fun _ h => h⟩
  | some info =>
    rw [hlookup] at h
    obtain ⟨hid, hcovered⟩ := hinv revRegId info hlookup
    have h : (revokeNew host revRegId (resourceIdToBytes32 host info.credDefId) (prevIndices info)
        (revokedIndicesValue statusList) >>= fun _ =>
          saveRevregMeta { info with revListJson := some statusList }).Reaches (Guard host) _ s₁ r
          trace' t := h
    rw [revokeNew_eq] at h
    rcases reaches_bind.1 h with ⟨stop, hloop, rfl⟩ | ⟨⟨⟩, trace₂, s₂, hloop, hsave⟩
    · obtain ⟨hchain, ⟨hok, _⟩ | ⟨_, hfails⟩⟩ := revokeNew_reaches hloop
      · cases hok
      · refine ⟨hinv.mono hchain.metas hchain.index hchain.revoked, fun hr => (by cases hr),
          fun _ hreg => ?_⟩
        obtain ⟨info', hinfo', hkeys⟩ := hreg.1
        obtain rfl : info = info' := Option.some.inj (hlookup.symm.trans hinfo')
        exact hreg.mono hchain.metas hchain.index (hfails hkeys (hreg.2 info hlookup)).2
    · obtain ⟨hchain, ⟨_, hhas, hall⟩ | ⟨⟨_, hstop⟩, _⟩⟩ := revokeNew_reaches hloop
      swap
      · cases hstop
      obtain ⟨hone, hok, hstored⟩ := saveRevregMeta_reaches hsave
      have hmem : info.revRegId ∈ s₂.metas := by
        rw [hchain.metas, hid]
        exact mem_of_lookup_eq_some hlookup
      -- old indices were covered, new ones are revoked by the loop
      have hcovers : ∀ idx ∈ revokedIndicesValue statusList, ∃ kanonCredId,
          s₂.index.lookup (indexKey revRegId idx) = some kanonCredId ∧
          s₂.status (resourceIdToBytes32 host info.credDefId) (credIdHash host kanonCredId) =
            .revoked := by
        intro idx hidx
        rw [hchain.index]
        by_cases hprev : idx ∈ prevIndices info
        · obtain ⟨kanonCredId, hcred, hstatus⟩ := hcovered idx hprev
          rw [hid] at hcred
          exact ⟨kanonCredId, hcred, hchain.revoked _ _ hstatus⟩
        · exact hall idx (mem_filter.2 ⟨hidx, by simp [hprev]⟩)
      have hinv₂ := hinv.mono hchain.metas hchain.index hchain.revoked
      have hput : RegistryInv host (s₂.putMeta { info with revListJson := some statusList }) := by
        refine hinv₂.putMeta fun idx hidx => ?_
        show ∃ kanonCredId, s₂.index.lookup (indexKey info.revRegId idx) = _ ∧ _
        rw [hid]
        exact hcovers idx hidx
      refine ⟨?_, fun hr idx hidx => ?_, fun _ hreg => ?_⟩
      · rcases hone with rfl | rfl
        · exact hinv₂
        · exact hput
      · rw [hok hr]
        obtain ⟨kanonCredId, hcred, hstatus⟩ := hcovers idx hidx
        refine ⟨{ info with revListJson := some statusList }, kanonCredId, ?_, hcred, hstatus⟩
        rw [← hid]
        exact lookup_putMeta { info with revListJson := some statusList }
      · rcases hone with rfl | rfl
        · rcases hhas with hhas | hun
          · have hlookup' := hstored hhas hmem
            rw [hid] at hlookup'
            exact registrable_of_stored hlookup' rfl
          · exact hreg.mono hchain.metas hchain.index hun
        · refine @registrable_of_stored _ _ _ { info with revListJson := some statusList } _ ?_ rfl
          rw [← hid]
          exact lookup_putMeta { info with revListJson := some statusList }

/-! ## The calls are accepted -/

/-- The call is accepted and succeeds. -/
def accepted : Answer := .done ""

theorem saveRevregMeta_always (info : RevRegMeta) :
    ∃ u, (saveRevregMeta info).always accepted s = (.ok (), u) := by
  show ∃ u, always accepted (if decide (info.revRegId ∈ s.metas) = true then .done ()
    else saveRegistryRecord (.saveMeta info) catRevregMeta) _ = _
  split
  · exact ⟨_, rfl⟩
  · exact ⟨_, rfl⟩

theorem revokeIndex_always (hlookup : s.index.lookup (indexKey revRegId idx) = some kanonCredId)
    (hnot : s.status cd (credIdHash host kanonCredId) ≠ .revoked) :
    ∃ u, (revokeIndex host revRegId cd idx).always accepted s = (.ok (), u) ∧
      u.index = s.index ∧ ∀ cd' cid', u.status cd' cid' = .revoked → s.status cd' cid' = .revoked ∨
        (cd' = cd ∧ cid' = credIdHash host kanonCredId) := by
  have hfind : (getCredIndex revRegId idx).always accepted s = (.ok (some kanonCredId), s) := by
    show (Except.ok (s.index.lookup (indexKey revRegId idx)), s) = _
    rw [hlookup]
  -- afterwards the credential is issued
  obtain ⟨v, hissue, hindex, hissued, hothers⟩ : ∃ v,
      (ignoreError (issueCredential cd (credIdHash host kanonCredId))).always accepted s =
        (.ok (), v) ∧ v.index = s.index ∧ v.status cd (credIdHash host kanonCredId) = .issued ∧
      ∀ cd' cid', v.status cd' cid' = .revoked → s.status cd' cid' = .revoked := by
    cases hstatus : s.status cd (credIdHash host kanonCredId) with
    | revoked => exact absurd hstatus hnot
    | issued =>
      refine ⟨s, ?_, rfl, hstatus, fun _ _ h => h⟩
      show always accepted (ignoreError (if decide (s.status cd _ = .unknown) = true then
        .done "" else .fail _)) (ite _ _ _) = _
      rw [hstatus, if_neg (by decide)]
      rfl
    | unknown =>
      refine ⟨s.setStatus cd (credIdHash host kanonCredId) .issued, ?_, rfl, ?_,
        fun cd' cid' h => ?_⟩
      · show always accepted (ignoreError (if decide (s.status cd _ = .unknown) = true then
          .done "" else .fail _)) (ite _ _ _) = _
        rw [hstatus]
        rfl
      · rw [setStatus_status, if_pos ⟨rfl, rfl⟩]
      · rw [setStatus_status] at h
        split at h
        · cases h
        · exact h
  have hrevoke : (revokeCredential cd (credIdHash host kanonCredId)).always accepted v =
      (.ok "", v.setStatus cd (credIdHash host kanonCredId) .revoked) := by
    show always accepted (if decide (v.status cd _ = .issued) = true then .done "" else
      .fail _) (ite _ _ _) = _
    rw [hissued]
    rfl
  refine ⟨v.setStatus cd (credIdHash host kanonCredId) .revoked, ?_, hindex, fun cd' cid' h => ?_⟩
  · unfold revokeIndex
    rw [always_bind_ok hfind]
    show always _ (ignoreError _ >>= fun _ => revokeCredential _ _ >>= fun _ => .done ()) _ = _
    rw [always_bind_ok hissue, always_bind_ok hrevoke]
    rfl
  · rw [setStatus_status] at h
    split at h
    · next heq => exact .inr heq
    · exact .inl (hothers _ _ h)

theorem revokeNew_always (hkeys : ∀ idx ∈ indices, indexKey revRegId idx ∈ s.index)
    (hrevocable : Revocable host s revRegId cd indices) :
    ∃ u, (revokeNew host revRegId cd [] indices).always accepted s = (.ok (), u) := by
  induction indices generalizing s with
  | nil => exact ⟨s, rfl⟩
  | cons idx indices ih =>
    obtain ⟨kanonCredId, hlookup⟩ := mem_iff.1 (hkeys idx mem_cons_self)
    have hnot : s.status cd (credIdHash host kanonCredId) ≠ .revoked := by
      refine hrevocable.2 _ ?_
      rw [credHashes_cons indices hlookup]
      exact mem_cons_self
    obtain ⟨v, hfirst, hindex, honly⟩ := revokeIndex_always hlookup hnot
    rw [revokeNew_cons, always_bind_ok hfirst]
    refine ih (fun idx' hidx' => ?_) (hrevocable.tail hlookup hindex honly)
    rw [hindex]
    exact hkeys idx' (mem_cons_of_mem _ hidx')

theorem Registrable.always (h : Registrable host s revRegId statusList) :
    ∃ u, (registerRevocationStatusList host revRegId statusList).always accepted s =
      (.ok (), u) := by
  obtain ⟨⟨info, hlookup, hkeys⟩, hrevocable⟩ := h
  have hload : (loadRevregMeta revRegId).always accepted s = (.ok (some info), s) := by
    show (Except.ok (s.metas.lookup revRegId), s) = _
    rw [hlookup]
  obtain ⟨v, hloop⟩ := revokeNew_always hkeys (hrevocable info hlookup)
  obtain ⟨u, hsave⟩ := saveRevregMeta_always (s := v) { info with revListJson := some statusList }
  refine ⟨u, ?_⟩
  unfold registerRevocationStatusList
  rw [Prog.always_bind_ok hload]
  show Prog.always accepted (revokeNew host revRegId (resourceIdToBytes32 host info.credDefId)
    (prevIndices info) (revokedIndicesValue statusList) >>= fun _ => saveRevregMeta _) s = _
  rw [revokeNew_eq, ← hsave]
  exact Prog.always_bind_ok hloop

end

/-! ## Runs -/

section

variable {host : Host} {mask : UInt8} {x y : Registry} {a : RegistryOp × List Answer}

/-- A call runs to its end, on the answers it gets. -/
def Registry.step (host : Host) (defaultPolicyMask : UInt8) (x : Registry)
    (a : RegistryOp × List Answer) : Option Registry :=
  ((call host defaultPolicyMask a.1).run a.2 x).map fun out => out.2.1

/-- Its accesses meet the condition, and an acceptable list has new credentials that can be
revoked. -/
def Registry.Careful (host : Host) (defaultPolicyMask : UInt8) (x : Registry)
    (a : RegistryOp × List Answer) : Prop :=
  (call host defaultPolicyMask a.1).Meets (Guard host) [] a.2 x ∧
    ∀ revRegId statusList, a.1 = .registerRevocationStatusList revRegId statusList →
      Acceptable x revRegId statusList → Registrable host x revRegId statusList

variable {trace trace' : List (RegistryAccess × Answer)}

theorem putCredIndex_reaches {revRegId kanonCredId : String} {idx : UInt32} {r : Except Stop Unit}
    (hinv : RegistryInv host x)
    (h : (putCredIndex revRegId idx kanonCredId).Reaches (Guard host) trace x r trace' y) :
    RegistryInv host y := by
  obtain ⟨e, hguard, h⟩ := h
  have hupdated := hinv.effect hguard.1 fun info hinfo => by cases hinfo
  have hsave : ∀ {trace x}, RegistryInv host x → (saveRegistryRecord
      (.saveIndex (indexKey revRegId idx) kanonCredId) catRevregIndex).Reaches (Guard host) trace x
        r trace' y → RegistryInv host y := by
    intro trace x hinv h
    obtain ⟨e, hguard, h⟩ := h
    have hsaved := hinv.effect hguard.1 fun info hinfo => by cases hinfo
    cases e with
    | done _ | failed _ | lost _ | crashed _ =>
      rw [h.2.2]
      exact hsaved
  cases e with
  | failed _ | lost _ => exact hsave hupdated h
  | crashed _ =>
    rw [h.2.2]
    exact hupdated
  | done _ =>
    by_cases hmem : indexKey revRegId idx ∈ x.index
    · simp only [hmem, decide_true] at h
      rw [h.2.2]
      exact hupdated
    · simp only [hmem, decide_false, Bool.false_eq_true] at h
      exact hsave hupdated h

variable {r : Except Stop String}

theorem chainCall_reaches {label : RegistryAccess} {accepts : Registry → Bool}
    (h : (chainCall label accepts).Reaches (Guard host) trace x r trace' y) :
    ∃ e, Guard host trace label e x ∧ y = label.effect e x := by
  obtain ⟨e, hguard, h⟩ := h
  refine ⟨e, hguard, ?_⟩
  cases e with
  | failed _ | lost _ | crashed _ => exact h.2.2
  | done tx =>
    by_cases haccepts : accepts x
    · simp only [haccepts] at h
      exact h.2.2
    · simp only [haccepts, Bool.false_eq_true] at h
      exact h.2.2

variable {trace' : List (RegistryAccess × Answer)}

theorem onCredentialIssued_reaches {credDefId kanonCredId : String} {revRegId : Option String}
    {credRevId : Option UInt32} (hinv : RegistryInv host x)
    (h : (onCredentialIssued host credDefId kanonCredId revRegId credRevId).Reaches (Guard host)
      [] x r trace' y)
    : RegistryInv host y := by
  have hissue : ∀ {r : Except Stop String} {trace₁ z}, (issueCredential
      (resourceIdToBytes32 host credDefId) (credIdHash host kanonCredId)).Reaches (Guard host) []
        x r trace₁ z → RegistryInv host z := by
    intro r trace₁ z h
    obtain ⟨e, hguard, rfl⟩ := chainCall_reaches h
    exact hinv.effect hguard.1 fun info hinfo => by cases hinfo
  rcases reaches_bind.1 h with ⟨stop, hfirst, rfl⟩ | ⟨tx, trace₁, z, hfirst, h⟩
  · exact hissue hfirst
  have hz := hissue hfirst
  cases revRegId with
  | none =>
    rw [h.2.2]
    exact hz
  | some revRegId =>
    cases credRevId with
    | none =>
      rw [h.2.2]
      exact hz
    | some credRevId =>
      rcases reaches_bind.1 h with ⟨stop, hput, rfl⟩ | ⟨⟨⟩, trace₂, u, hput, hdone⟩
      · exact putCredIndex_reaches hz hput
      · rw [hdone.2.2]
        exact putCredIndex_reaches hz hput

theorem registerRevocationRegistryDef_reaches {revRegDef : Json} (hinv : RegistryInv host x)
    (h : (registerRevocationRegistryDef mask revRegDef).Reaches (Guard host) [] x r trace' y) :
    RegistryInv host y := by
  unfold registerRevocationRegistryDef at h
  split at h
  · rw [h.2.2]
    exact hinv
  · -- the new record has no list
    have hsave : ∀ {info : RevRegMeta} {r : Except Stop Unit} {trace₁ z}, info.revListJson = none →
        (saveRevregMeta info).Reaches (Guard host) [] x r trace₁ z → RegistryInv host z := by
      intro info r trace₁ z hlist h
      rcases (saveRevregMeta_reaches h).1 with rfl | rfl
      · exact hinv
      · refine hinv.putMeta fun idx hidx => ?_
        unfold prevIndices at hidx
        rw [hlist] at hidx
        cases hidx
    rcases reaches_bind.1 h with ⟨stop, hfirst, rfl⟩ | ⟨⟨⟩, trace₁, z, hfirst, hdone⟩
    · exact hsave rfl hfirst
    · rw [hdone.2.2]
      exact hsave rfl hfirst

theorem RegistryInv.step (hinv : RegistryInv host x) (hcareful : Registry.Careful host mask x a)
    (h : step host mask x a = some y) : RegistryInv host y := by
  obtain ⟨⟨r, y, rest⟩, hrun, rfl⟩ := Option.map_eq_some_iff.1 h
  obtain ⟨trace', hreaches⟩ := hcareful.1.reaches hrun
  obtain ⟨op, inputs⟩ := a
  cases op with
  | onCredentialIssued credDefId kanonCredId revRegId credRevId =>
    obtain ⟨_, h, _⟩ := reaches_map.1 hreaches
    exact onCredentialIssued_reaches hinv h
  | registerRevocationRegistryDef revRegDef =>
    obtain ⟨_, h, _⟩ := reaches_map.1 hreaches
    exact registerRevocationRegistryDef_reaches hinv h
  | registerRevocationStatusList revRegDefId statusList =>
    obtain ⟨_, h, _⟩ := reaches_map.1 hreaches
    exact (registerRevocationStatusList_reaches hinv h).1

def ShowsRevoked (host : Host) (s : Registry) : Prop :=
  ∀ revRegId inputs statusList t rest,
    (getRevocationStatusList revRegId).run inputs s = some (.ok statusList, t, rest) →
    ∀ idx ∈ revokedIndicesValue statusList, RevokedOnChain host s revRegId idx

/-- The list is registered by a call all of whose accesses succeed. -/
def RegistersAgain (host : Host) (mask : UInt8) (s : Registry) (revRegId : String)
    (statusList : Json) : Prop :=
  ∃ n t rest, (call host mask (.registerRevocationStatusList revRegId statusList)).run
    (replicate n accepted) s = some (.ok .listed, t, rest)

/-- A registration that succeeds leaves every 1-bit revoked; an acceptable list whose registration
fails can be registered again. -/
def Converges (host : Host) (mask : UInt8) (revRegId : String) (statusList : Json)
    (s t : Registry) :
    Except Stop RegistryReply → Prop
  | .ok _ => ∀ idx ∈ revokedIndicesValue statusList, RevokedOnChain host t revRegId idx
  | .error _ => Acceptable s revRegId statusList → RegistersAgain host mask t revRegId statusList

theorem Registrable.registersAgain {revRegId : String} {statusList : Json}
    (h : Registrable host x revRegId statusList) :
      RegistersAgain host mask x revRegId statusList := by
  obtain ⟨u, halways⟩ := h.always
  have hcall : (call host mask (.registerRevocationStatusList revRegId statusList)).always accepted
      x = (.ok .listed, u) := always_bind_ok halways
  obtain ⟨n, rest, hrun⟩ := run_replicate accepted
    (call host mask (.registerRevocationStatusList revRegId statusList)) x
  rw [hcall] at hrun
  exact ⟨n, u, rest, hrun⟩

theorem RegistryInv.showsRevoked (hinv : RegistryInv host x) : ShowsRevoked host x := by
  intro revRegId inputs statusList t rest hrun idx hidx
  obtain ⟨trace', hreaches⟩ := @Reaches.of_run _ _ _ _ _ _ _ _ [] _ _ _ hrun
  rcases reaches_bind.1 hreaches with ⟨stop, _, hr⟩ | ⟨found, trace₁, s₁, hload, h⟩
  · cases hr
  obtain ⟨e, _, hload⟩ := hload
  obtain rfl : found = x.metas.lookup revRegId := by
    cases e with
    | done _ => exact Except.ok.inj hload.1
    | failed _ | lost _ | crashed _ => cases hload.1
  cases hlookup : x.metas.lookup revRegId with
  | none =>
    rw [hlookup] at h
    cases h.1
  | some info =>
    rw [hlookup] at h
    obtain ⟨hid, hcovered⟩ := hinv revRegId info hlookup
    cases hlist : info.revListJson with
    | none =>
      simp only [hlist] at h
      cases h.1
    | some json =>
      simp only [hlist] at h
      obtain rfl : statusList = json := Except.ok.inj h.1
      obtain ⟨kanonCredId, hcred, hstatus⟩ := hcovered idx (by
        unfold prevIndices
        rw [hlist]
        exact hidx)
      rw [hid] at hcred
      exact ⟨info, kanonCredId, hlookup, hcred, hstatus⟩

/-- **Status lists follow the chain** in every run of careful calls: in every state each index that
is shown as revoked is revoked on chain, and a careful registration revokes every 1-bit or can be
made again. -/
theorem statusList_followsChain {l : List (RegistryOp × List Answer)}
    (hcareful : Along (step host mask) (Registry.Careful host mask) .fresh l)
    (hx : exec (step host mask) .fresh l = some x) :
    ShowsRevoked host x ∧ ∀ revRegId statusList inputs r y rest,
      Registry.Careful host mask x (.registerRevocationStatusList revRegId statusList, inputs) →
      (call host mask (.registerRevocationStatusList revRegId statusList)).run inputs x =
        some (r, y, rest) → Converges host mask revRegId statusList x y r := by
  have hinv : RegistryInv host x :=
    exec_invariant_along (fun u a v hu hcareful hstep => hu.step hcareful hstep) registryInv_fresh
      hcareful hx
  refine ⟨hinv.showsRevoked, fun revRegId statusList inputs r y rest hcareful hrun => ?_⟩
  obtain ⟨trace', hreaches⟩ := hcareful.1.reaches hrun
  obtain ⟨result, h, rfl⟩ := reaches_map.1 hreaches
  obtain ⟨_, hok, hfails⟩ := registerRevocationStatusList_reaches hinv h
  cases result with
  | ok _ => exact hok rfl
  | error stop =>
    intro hacceptable
    exact (hfails ⟨stop, rfl⟩ (hcareful.2 _ _ rfl hacceptable)).registersAgain

end

/-! ## One credential -/

def oneDef : Json :=
  .object [("issuerId", .string "did:kanon:issuer"), ("credDefId", .string "c"),
    ("tag", .string "default"), ("value", .object [("maxCredNum", .number (.posInt 1))])]

def oneList : Json :=
  .object [("issuerId", .string "did:kanon:issuer"), ("revRegDefId", .string "c/revoc/default"),
    ("revocationList", .array [.number (.posInt 1)])]

/-- The registry of the definition, without a list. -/
def oneInfo (mask : UInt8) : RevRegMeta := ⟨"c/revoc/default", "c", mask, 1, some oneDef, none⟩

/-- The calls that register the definition and issue the credential. -/
def issueOne : List (RegistryOp × List Answer) :=
  [(.registerRevocationRegistryDef oneDef, [accepted, accepted]),
    (.onCredentialIssued "c" "a" (some "c/revoc/default") (some 0), [accepted, accepted, accepted])]

def issuedOne (host : Host) (mask : UInt8) : Registry :=
  ((fresh.putMeta (oneInfo mask)).setStatus (resourceIdToBytes32 host "c")
    (credIdHash host "a") .issued).putIndex "c/revoc/default:0" "a"

theorem exec_issueOne (host : Host) (mask : UInt8) :
    exec (step host mask) .fresh issueOne = some (issuedOne host mask) := rfl

theorem prevIndices_oneInfo {mask : UInt8} {revRegId : String} {info : RevRegMeta}
    (h : (fresh.putMeta (oneInfo mask)).metas.lookup revRegId = some info) :
    prevIndices info = [] := by
  have h : ((∅ : FMap String RevRegMeta).insert (oneInfo mask).revRegId (oneInfo mask)).lookup
    revRegId = some info := h
  rw [FMap.lookup_insert_ite] at h
  split at h
  · cases h
    rfl
  · cases h

/-- The two calls are careful: the index that is written is not shown. -/
theorem careful_issueOne (host : Host) (mask : UInt8) :
    Along (step host mask) (Registry.Careful host mask) .fresh issueOne := by
  have hkeeps : ∀ e status, KeepsIndex host "c/revoc/default:0" "a" e
      ⟨(fresh.putMeta (oneInfo mask)).metas, ∅, status⟩ := by
    intro e status _ revRegId info idx hinfo hidx
    rw [prevIndices_oneInfo hinfo] at hidx
    cases hidx
  have hdef : Registry.Careful host mask .fresh (.registerRevocationRegistryDef oneDef,
      [accepted, accepted]) := by
    refine ⟨⟨⟨trivial, ?_⟩, ⟨trivial, ?_⟩, trivial⟩, fun _ _ h => by cases h⟩
    · rintro (⟨_, _, _, hmem, _⟩ | h)
      · cases hmem
      · cases h
    · rintro (⟨_, _, _, hmem, _⟩ | h)
      · simp at hmem
      · cases h
  have hissue : Registry.Careful host mask (fresh.putMeta (oneInfo mask))
      (.onCredentialIssued "c" "a" (some "c/revoc/default") (some 0),
        [accepted, accepted, accepted]) := by
    refine ⟨⟨⟨trivial, ?_⟩, ⟨hkeeps _ _, fun _ => trivial⟩, ⟨hkeeps _ _, fun _ => trivial⟩,
      trivial⟩,
      fun _ _ h => by cases h⟩
    rintro (⟨_, _, _, hmem, _⟩ | h)
    · cases hmem
    · cases h
  exact along_cons hdef rfl (along_cons hissue rfl trivial)

theorem acceptable_issuedOne (host : Host) (mask : UInt8) :
    Acceptable (issuedOne host mask) "c/revoc/default" oneList := by
  refine ⟨oneInfo mask, rfl, fun idx hidx => ?_⟩
  rw [mem_singleton.1 hidx]
  exact mem_of_lookup_eq_some (b := "a") rfl

theorem registrable_issuedOne (host : Host) (mask : UInt8) :
    Registrable host (issuedOne host mask) "c/revoc/default" oneList := by
  refine ⟨acceptable_issuedOne host mask, fun info hinfo => ?_⟩
  obtain rfl : oneInfo mask = info := Option.some.inj hinfo
  refine ⟨nodup_singleton _, fun cid hcid hrevoked => ?_⟩
  rw [mem_singleton.1 hcid] at hrevoked
  have hrevoked : ((fresh.putMeta (oneInfo mask)).setStatus (resourceIdToBytes32 host "c")
    (credIdHash host "a") .issued).status (resourceIdToBytes32 host "c") (credIdHash host "a") =
      .revoked := hrevoked
  rw [setStatus_status, if_pos ⟨rfl, rfl⟩] at hrevoked
  cases hrevoked

section

variable {host : Host} {s : Registry} {cd : Bytes32} {revRegId kanonCredId : String} {idx : UInt32}
  {α : Type}

theorem run_getCredIndex (f : Option String → RegistryProg α) (inputs : List Answer) :
    (getCredIndex revRegId idx >>= f).run (accepted :: inputs) s =
      (f (s.index.lookup (indexKey revRegId idx))).run inputs s := rfl

theorem always_getCredIndex (f : Option String → RegistryProg α) :
    (getCredIndex revRegId idx >>= f).always accepted s =
      (f (s.index.lookup (indexKey revRegId idx))).always accepted s := rfl

theorem run_revokeIndex (f : Unit → RegistryProg α) (inputs : List Answer)
    (hlookup : s.index.lookup (indexKey revRegId idx) = some kanonCredId)
    (hissued : s.status cd (credIdHash host kanonCredId) = .issued) :
    (revokeIndex host revRegId cd idx >>= f).run (accepted :: .failed "" :: accepted :: inputs) s =
      (f ()).run inputs (s.setStatus cd (credIdHash host kanonCredId) .revoked) := by
  have heffect : accepted.applies = true ∧ s.status cd (credIdHash host kanonCredId) = .issued :=
    ⟨rfl, hissued⟩
  unfold revokeIndex
  rw [bind_assoc, run_getCredIndex, hlookup]
  show run (((if decide (s.status cd (credIdHash host kanonCredId) = .issued) = true then
    done "" else .fail _) >>= fun _ => .done ()) >>= f) inputs
      (if accepted.applies = true ∧ s.status cd (credIdHash host kanonCredId) = .issued then
        s.setStatus cd (credIdHash host kanonCredId) .revoked else s) = _
  rw [if_pos heffect, if_pos (decide_eq_true hissued)]
  rfl

theorem always_revokeIndex (f : Unit → RegistryProg α)
    (hlookup : s.index.lookup (indexKey revRegId idx) = some kanonCredId)
    (hrevoked : s.status cd (credIdHash host kanonCredId) = .revoked) :
    (revokeIndex host revRegId cd idx >>= f).always accepted s =
      (.error (.error (.chain "")), s) := by
  have hnot : ∀ status, status ≠ .revoked →
      ¬ s.status cd (credIdHash host kanonCredId) = status := by
    rintro _ hstatus rfl
    exact hstatus hrevoked
  have hunknown := hnot .unknown CredStatus.noConfusion
  have hissued := hnot .issued CredStatus.noConfusion
  have hissue : (ignoreError (issueCredential cd (credIdHash host kanonCredId))).always accepted s =
      (.ok (), s) := by
    show always accepted (ignoreError (if decide (s.status cd (credIdHash host kanonCredId) =
      .unknown) = true then .done "" else .fail _))
        (if accepted.applies = true ∧ s.status cd (credIdHash host kanonCredId) = .unknown then _
          else s) = _
    rw [if_neg fun h => hunknown (of_decide_eq_true h), if_neg fun h => hunknown h.2]
    rfl
  unfold revokeIndex
  rw [bind_assoc, always_getCredIndex, hlookup]
  show always accepted ((ignoreError (issueCredential cd (credIdHash host kanonCredId)) >>=
    fun _ => revokeCredential cd (credIdHash host kanonCredId) >>= fun _ => .done ()) >>= f) s = _
  rw [bind_assoc, always_bind_ok hissue]
  show always accepted (((if decide (s.status cd (credIdHash host kanonCredId) = .issued) = true
    then done "" else .fail _) >>= fun _ => .done ()) >>= f)
      (if accepted.applies = true ∧ s.status cd (credIdHash host kanonCredId) = .issued then _
        else s) = _
  rw [if_neg fun h => hissued (of_decide_eq_true h), if_neg fun h => hissued h.2]
  rfl

end

/-- The credential is revoked, and the list is not stored. -/
def revokedOne (host : Host) (mask : UInt8) : Registry :=
  (issuedOne host mask).setStatus (resourceIdToBytes32 host "c") (credIdHash host "a") .revoked

theorem issuedOne_status (host : Host) (mask : UInt8) :
    (issuedOne host mask).status (resourceIdToBytes32 host "c") (credIdHash host "a") =
      .issued := by
  show ((fresh.putMeta (oneInfo mask)).setStatus (resourceIdToBytes32 host "c")
    (credIdHash host "a") .issued).status (resourceIdToBytes32 host "c") (credIdHash host "a") = _
  rw [setStatus_status, if_pos ⟨rfl, rfl⟩]

/-- The revocation succeeds, and the storage fails. -/
def brokenOff : List Answer := [accepted, accepted, .failed "", accepted, .failed "", .failed ""]

theorem run_brokenOff (host : Host) (mask : UInt8) :
    (call host mask (.registerRevocationStatusList "c/revoc/default" oneList)).run brokenOff
      (issuedOne host mask) =
        some (.error (.error (.storage ("save " ++ catRevregMeta ++ ": " ++ ""))),
          revokedOne host mask, []) := by
  show run ((fun _ => RegistryReply.listed) <$> (revokeNew host "c/revoc/default"
    (resourceIdToBytes32 host "c") [] [0] >>= fun _ =>
      saveRevregMeta { oneInfo mask with revListJson := some oneList }))
    (accepted :: .failed "" :: accepted :: [.failed "", .failed ""]) (issuedOne host mask) = _
  rw [revokeNew_cons, map_eq, bind_assoc, bind_assoc,
    @run_revokeIndex _ _ _ _ "a" _ _ _ _ rfl (issuedOne_status host mask)]
  rfl

/-- The revocation succeeds, and so does the write of the list, but its answer is lost. -/
def storedLate : List Answer :=
  [accepted, accepted, .failed "", accepted, .failed "", .lost "timeout"]

theorem run_storedLate (host : Host) (mask : UInt8) :
    (call host mask (.registerRevocationStatusList "c/revoc/default" oneList)).run storedLate
      (issuedOne host mask) =
        some (.error (.error (.storage ("save " ++ catRevregMeta ++ ": " ++ "timeout"))),
          (revokedOne host mask).putMeta { oneInfo mask with revListJson := some oneList },
            []) := by
  show run ((fun _ => RegistryReply.listed) <$> (revokeNew host "c/revoc/default"
    (resourceIdToBytes32 host "c") [] [0] >>= fun _ =>
      saveRevregMeta { oneInfo mask with revListJson := some oneList }))
    (accepted :: .failed "" :: accepted :: [.failed "", .lost "timeout"]) (issuedOne host mask) = _
  rw [revokeNew_cons, map_eq, bind_assoc, bind_assoc,
    @run_revokeIndex _ _ _ _ "a" _ _ _ _ rfl (issuedOne_status host mask)]
  rfl

/-- A credential is issued and revoked. The registration fails after the revocation, and can be made
again. -/
theorem statusList_followsChain_storedLate : ∃ x e y,
    exec (step hostZero 1) .fresh issueOne = some x ∧ ShowsRevoked hostZero x ∧
      (call hostZero 1 (.registerRevocationStatusList "c/revoc/default" oneList)).run storedLate x =
        some (.error e, y, []) ∧
      y.status (resourceIdToBytes32 hostZero "c") (credIdHash hostZero "a") = .revoked ∧
      RegistersAgain hostZero 1 y "c/revoc/default" oneList := by
  have hx := exec_issueOne hostZero 1
  obtain ⟨hshows, hconverges⟩ := statusList_followsChain (careful_issueOne hostZero 1) hx
  have hcareful : Registry.Careful hostZero 1 (issuedOne hostZero 1)
      (.registerRevocationStatusList "c/revoc/default" oneList, storedLate) := by
    refine ⟨⟨⟨trivial, fun _ => trivial⟩, ⟨trivial, fun _ => ⟨_, rfl⟩⟩,
      ⟨trivial, fun _ => ⟨nofun, fun hunknown => ?_⟩⟩, ⟨trivial, fun _ => ⟨_, rfl⟩⟩, ?_⟩,
      fun _ _ h _ => ?_⟩
    · exact absurd ((issuedOne_status hostZero 1).symm.trans hunknown) (by decide)
    · exact ⟨⟨trivial, fun _ => nofun⟩, ⟨trivial, fun _ => .inl rfl⟩, trivial⟩
    · cases h
      exact registrable_issuedOne hostZero 1
  refine ⟨_, _, _, hx, hshows, run_storedLate hostZero 1, by decide, ?_⟩
  exact hconverges _ _ _ _ _ _ hcareful (run_storedLate hostZero 1)
    (acceptable_issuedOne hostZero 1)

/-- **A registration that was broken off cannot be made again**: the credential is revoked, and
revoking it once more fails. -/
theorem statusList_followsChain_fails :
    ¬ ∃ host mask, ∀ l x, exec (step host mask) .fresh l = some x →
      ShowsRevoked host x ∧ ∀ revRegId statusList inputs r y rest,
        (call host mask (.registerRevocationStatusList revRegId statusList)).run inputs x =
          some (r, y, rest) → Converges host mask revRegId statusList x y r := by
  rintro ⟨host, mask, h⟩
  have hconverges := (h _ _ (exec_issueOne host mask)).2 _ _ _ _ _ _ (run_brokenOff host mask)
  obtain ⟨n, t, rest, hagain⟩ := hconverges (acceptable_issuedOne host mask)
  have halways := always_of_run hagain
  have hrevoked : (revokedOne host mask).status (resourceIdToBytes32 host "c")
      (credIdHash host "a") = .revoked := by
    unfold revokedOne
    rw [setStatus_status, if_pos ⟨rfl, rfl⟩]
  have hload : (call host mask (.registerRevocationStatusList "c/revoc/default" oneList)).always
      accepted (revokedOne host mask) = ((fun _ => RegistryReply.listed) <$>
        (revokeNew host "c/revoc/default" (resourceIdToBytes32 host "c") [] [0] >>= fun _ =>
          saveRevregMeta { oneInfo mask with revListJson := some oneList })).always accepted
            (revokedOne host mask) := rfl
  rw [hload, revokeNew_cons, map_eq, bind_assoc, bind_assoc,
    @always_revokeIndex _ _ _ _ "a" _ _ _ rfl hrevoked] at halways
  cases halways

end Idiom.Kanon
