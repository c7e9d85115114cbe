import Idiom.Kanon.Update
import Idiom.Lib.Run

/-!
# Revocation in sequential runs

The calls on a credential definition run one after another; any of their accesses may fail, and the
process may crash after any. `add_issued` compares a credential with the active leaves only.
-/

namespace Idiom.Kanon

open Run PoseidonZk List ZkReply

/-! ## One access -/

section

variable {host : Host} {P : Answer → Prop} {s t : Issuer}

open Prog

theorem loadActive_ends {r : Except Stop (List ActiveLeaf)} (h : (loadActive host).Ends P s r t) :
    t = s ∧ (r = .ok (s.leaves host) ∨ ∃ stop, r = .error stop) := by
  obtain ⟨e, _, h⟩ := ends_access.1 h
  cases e with
  | done _ => exact ⟨(ends_done.1 h).2, .inl (ends_done.1 h).1⟩
  | failed _ | lost _ | crashed _ =>
    exact ⟨(ends_fail.1 h).2, .inr ⟨_, (ends_fail.1 h).1⟩⟩

variable {r : Except Stop Unit}

theorem initMerkleState_ends {rootKeccak rootPoseidon : Bytes32}
    (h : (initMerkleState rootKeccak rootPoseidon).Ends P s r t) :
    t.leaves host = s.leaves host ∧ t.log = s.log := by
  obtain ⟨e, _, h⟩ := ends_access.1 h
  have ht : t = (Access.initMerkleState rootKeccak rootPoseidon).effect e s := by
    cases e with
    | done _ | failed _ | lost _ => exact (ends_done.1 h).2
    | crashed _ => exact (ends_fail.1 h).2
  rw [ht]
  show Issuer.leaves host (ite _ _ _) = _ ∧ Issuer.log (ite _ _ _) = _
  split <;> exact ⟨rfl, rfl⟩

theorem batchUpdate_ends {u : BatchUpdate} {r : Except Stop String}
    (h : (batchUpdate u).Ends P s r t) :
    (t = s.publish u ∧ ∃ tx, r = .ok tx) ∨ ((t = s.publish u ∨ t = s) ∧ ∃ stop, r =
      .error stop) := by
  obtain ⟨e, _, h⟩ := ends_access.1 h
  have heffect : (Access.batchUpdate u).effect e s = s.publish u ∨
      (Access.batchUpdate u).effect e s = s := by
    show ite _ _ _ = _ ∨ ite _ _ _ = _
    split
    · exact .inl rfl
    · exact .inr rfl
  cases e with
  | done tx => exact .inl ⟨(ends_done.1 h).2, tx, (ends_done.1 h).1⟩
  | failed _ | lost _ | crashed _ =>
    obtain ⟨hr, ht⟩ := ends_fail.1 h
    rw [← ht] at heffect
    exact .inr ⟨heffect, _, hr⟩

/-- What the store may have done with a checkpoint. -/
def MaySave (active : List ActiveLeaf) (s t : Issuer) : Prop :=
  t = s ∨ (published t.log = published s.log ∧ t.record = some (.fromActive active))

theorem maySave_write (active : List ActiveLeaf) :
    MaySave active s (s.write (.fromActive active)) :=
  .inr ⟨published_write _, rfl⟩

theorem saveRecord_ends {active : List ActiveLeaf}
    (h : (saveRecord (.fromActive active)).Ends P s r t) :
    MaySave active s t ∧ (r = .ok () → t.record = some (.fromActive active)) := by
  obtain ⟨e, _, h⟩ := ends_access.1 h
  have heffect : MaySave active s ((Access.save (.fromActive active)).effect e s) := by
    show MaySave active s (ite _ _ _)
    split
    · exact maySave_write active
    · exact .inl rfl
  cases e with
  | done _ =>
    obtain ⟨_, rfl⟩ := ends_done.1 h
    exact ⟨heffect, fun _ => rfl⟩
  | failed _ | lost _ | crashed _ =>
    obtain ⟨rfl, rfl⟩ := ends_fail.1 h
    exact ⟨heffect, fun hr => (by cases hr)⟩

theorem saveActive_ends {active : List ActiveLeaf} (h : (saveActive active).Ends P s r t) :
    MaySave active s t ∧ (r = .ok () → t.record = some (.fromActive active)) := by
  obtain ⟨e, _, h⟩ := ends_access.1 h
  have heffect : MaySave active s ((Access.update (.fromActive active)).effect e s) := by
    show MaySave active s (ite _ _ _)
    split
    · exact maySave_write active
    · exact .inl rfl
  -- the record that was found missing, or whose update failed, is saved
  have hsave : ∀ {r' : Except Stop Unit} {t' : Issuer},
      (saveRecord (.fromActive active)).Ends P
        ((Access.update (.fromActive active)).effect e s) r' t' →
      MaySave active s t' ∧ (r' = .ok () → t'.record = some (.fromActive active)) := by
    intro r' t' h'
    obtain ⟨hmay, hok⟩ := saveRecord_ends h'
    refine ⟨?_, hok⟩
    rcases hmay with rfl | ⟨hlog, hrecord⟩
    · exact heffect
    · refine .inr ⟨?_, hrecord⟩
      rw [hlog]
      rcases heffect with heq | ⟨hlog', _⟩
      · rw [heq]
      · exact hlog'
  cases e with
  | failed _ | lost _ => exact hsave h
  | crashed _ =>
    obtain ⟨rfl, rfl⟩ := ends_fail.1 h
    exact ⟨heffect, fun hr => (by cases hr)⟩
  | done _ =>
    by_cases hrecord : s.record.isSome
    · simp only [if_pos hrecord] at h
      obtain ⟨_, rfl⟩ := ends_done.1 h
      refine ⟨heffect, fun _ => ?_⟩
      show Issuer.record (ite _ _ _) = _
      rw [if_pos ⟨rfl, hrecord⟩]
      rfl
    · simp only [if_neg hrecord] at h
      exact hsave h

/-! ## One call -/

variable (host) in
/-- What a call does: nothing that lasts, or an update that follows from the checkpoint. -/
def CallDoes (op : ZkOp) (s t : Issuer) (r : Except Stop ZkReply) : Prop :=
  (t.leaves host = s.leaves host ∧ published t.log = published s.log ∧
      ∀ reply, r = .ok reply → ∃ credId domainAttrs, op = .addIssued credId domainAttrs) ∨
    ∃ u next, Follows host (s.leaves host) u next ∧
      (∀ k ∈ u.addedKeccak, ∃ credId domainAttrs, op = .addIssued credId domainAttrs ∧
        deriveLeafHex host credId = .ok k) ∧
      (∀ credIds, op = .revokeByCredIds credIds → ∀ cid ∈ credIds,
        ∃ k ∈ u.revokedKeccak, deriveLeafHex host cid = .ok k) ∧
      published t.log = published s.log ++ [u] ∧
      (t.leaves host = next ∨ (t.leaves host = s.leaves host ∧ ∃ stop, r = .error stop))

variable {op : ZkOp} {active : List ActiveLeaf} {p : ZkProg ZkReply} {r : Except Stop ZkReply}

theorem Rest.ends (hp : Rest host op active p) (hactive : s.leaves host = active)
    (h : p.Ends P s r t) : CallDoes host op s t r := by
  induction hp generalizing s with
  | fail e =>
    obtain ⟨rfl, rfl⟩ := ends_fail.1 h
    exact .inl ⟨rfl, rfl, fun reply hreply => by cases hreply⟩
  | present credId domainAttrs hop =>
    obtain ⟨rfl, rfl⟩ := ends_done.1 h
    exact .inl ⟨rfl, rfl, fun _ _ => ⟨credId, domainAttrs, hop⟩⟩
  | init rootKeccak rootPoseidon p hkeccak hposeidon _ ih =>
    rcases ends_bind.1 h with ⟨stop, hinit, rfl⟩ | ⟨_, u, hinit, hu⟩
    · obtain ⟨hleaves, hlog⟩ := @initMerkleState_ends host _ _ _ _ _ _ hinit
      exact .inl ⟨hleaves, by rw [hlog], fun reply hreply => by cases hreply⟩
    · obtain ⟨hleaves, hlog⟩ := @initMerkleState_ends host _ _ _ _ _ _ hinit
      have := ih (hleaves.trans hactive) hu
      unfold CallDoes at this ⊢
      rw [hleaves, hlog] at this
      exact this
  | commit u next reply hfollows hadd hrevoke =>
    rw [← hactive] at hfollows
    rcases ends_bind.1 h with ⟨stop, hbatch, rfl⟩ | ⟨tx, s₁, hbatch, hu⟩
    · obtain ⟨_, _, hok⟩ | ⟨rfl | rfl, _⟩ := batchUpdate_ends hbatch
      · cases hok
      · exact .inr ⟨u, next, hfollows, hadd, hrevoke, published_publish u, .inr ⟨rfl, stop, rfl⟩⟩
      · exact .inl ⟨rfl, rfl, fun reply hreply => by cases hreply⟩
    · obtain ⟨rfl, _⟩ | ⟨_, _, hstop⟩ := batchUpdate_ends hbatch
      · have hmay : ∀ {t'}, MaySave next (s.publish u) t' →
            published t'.log = published s.log ++ [u] ∧
              (t'.leaves host = next ∨ t'.leaves host = s.leaves host) := by
          rintro t' (rfl | ⟨hlog, hrecord⟩)
          · exact ⟨published_publish u, .inr rfl⟩
          · exact ⟨hlog.trans (published_publish u), .inl (leaves_of_record hrecord)⟩
        rcases ends_bind.1 hu with ⟨stop, hsave, rfl⟩ | ⟨⟨⟩, s₂, hsave, hdone⟩
        · obtain ⟨hlog, hleaves⟩ := hmay (saveActive_ends hsave).1
          exact .inr ⟨u, next, hfollows, hadd, hrevoke, hlog,
            hleaves.imp_right fun hleaves => ⟨hleaves, stop, rfl⟩⟩
        · obtain ⟨_, rfl⟩ := ends_done.1 hdone
          obtain ⟨hsave, hok⟩ := saveActive_ends hsave
          exact .inr ⟨u, next, hfollows, hadd, hrevoke, (hmay hsave).1,
            .inl (leaves_of_record (hok rfl))⟩
      · cases hstop

theorem perform_ends {credDefId : Bytes32} (hnodup : (keccaks (s.leaves host)).Nodup)
    (h : (perform host credDefId op).Ends P s r t) : CallDoes host op s t r := by
  obtain ⟨e, he⟩ | ⟨rest, hrest, hcases⟩ := @perform_cases host credDefId op
  · rw [he] at h
    obtain ⟨rfl, rfl⟩ := ends_fail.1 h
    exact .inl ⟨rfl, rfl, fun reply hreply => by cases hreply⟩
  · rw [hrest] at h
    rcases ends_bind.1 h with ⟨stop, hload, rfl⟩ | ⟨active, u, hload, hu⟩
    · obtain ⟨rfl, _⟩ := loadActive_ends hload
      exact .inl ⟨rfl, rfl, fun reply hreply => by cases hreply⟩
    · obtain ⟨rfl, hok | ⟨_, hstop⟩⟩ := loadActive_ends hload
      · cases hok
        exact (hcases _ hnodup).ends rfl hu
      · cases hstop

theorem CallDoes.nodup (h : CallDoes host op s t r) (hnodup : (keccaks (s.leaves host)).Nodup) :
    (keccaks (t.leaves host)).Nodup := by
  obtain ⟨hleaves, _⟩ | ⟨u, next, hfollows, _, _, _, hleaves | ⟨hleaves, _⟩⟩ := h
  · rw [hleaves]
    exact hnodup
  · rw [hleaves]
    exact hfollows.nodup hnodup
  · rw [hleaves]
    exact hnodup

end

/-! ## Runs -/

/-- The calls run one after another. -/
structure Sequential where
  issuer : Issuer
  results : List (ZkOp × Except Stop ZkReply)

namespace Sequential

def fresh : Sequential := ⟨.fresh, []⟩

/-- A call runs to its end, on the answers it gets. -/
def step (host : Host) (credDefId : Bytes32) (x : Sequential) (a : ZkOp × List Answer) :
    Option Sequential :=
  ((perform host credDefId a.1).run a.2 x.issuer).map fun out =>
    ⟨out.2.1, x.results ++ [(a.1, out.1)]⟩

end Sequential

open Kanon.Sequential

/-! ## Calls that succeed -/

section

variable {host : Host} {credDefId : Bytes32} {s : Issuer} {x : Sequential}

/-- Every access succeeds. -/
def smooth : List Answer := replicate 5 (.done "")

theorem run_loadActive {α : Type} (f : List ActiveLeaf → ZkProg α) (inputs : List Answer) :
    (loadActive host >>= f).run (.done "" :: inputs) s = (f (s.leaves host)).run inputs s := rfl

theorem run_initFirst {active : List ActiveLeaf} (hempty : active.isEmpty) {α : Type}
    (p : ZkProg α) (inputs : List Answer) :
    ∃ t, (initFirst host active >>= fun _ => p).run (.done "" :: inputs) s = p.run inputs t := by
  obtain ⟨root, hroot⟩ := @computePoseidonRoot_ok host active
    (by rw [isEmpty_iff.1 hempty]; exact Nat.zero_le _)
  unfold initFirst
  rw [if_pos hempty, hroot]
  exact ⟨_, rfl⟩

theorem run_commit (u : BatchUpdate) (next : List ActiveLeaf) (reply : String → ZkReply)
    (rest : List Answer) :
    ∃ t rest', (commit u next reply).run (.done "" :: .done "" :: .done "" :: rest) s =
      some (.ok (reply ""), t, rest') ∧ t.leaves host = next := by
  obtain ⟨record, chain, log⟩ := s
  cases record with
  | none | some record => exact ⟨_, _, rfl, leaves_of_record rfl⟩

theorem run_publishIssued {active : List ActiveLeaf} (keccakLeaf poseidonLeaf : Bytes32)
    (hfit : active.length ≤ 2 ^ poseidonTreeDepth) (rest : List Answer) :
    ∃ t rest', (added <$> publishIssued host credDefId active keccakLeaf poseidonLeaf).run
        (.done "" :: .done "" :: .done "" :: rest) s = some (.ok (.added (some "")), t, rest') ∧
      t.leaves host = active := by
  obtain ⟨root, hroot⟩ := computePoseidonRoot_ok host hfit
  unfold publishIssued
  rw [hroot]
  show ∃ t rest', (added <$> (batchUpdate _ >>= fun tx => saveActive _ >>= fun _ =>
    .done (some tx))).run _ _ = _ ∧ _
  rw [map_commit]
  exact run_commit _ _ _ rest

theorem step_addIssued {credId : String} {keccakLeaf : Bytes32}
    (hkeccak : deriveLeafHex host credId = .ok keccakLeaf)
    (hnew : keccakLeaf ∉ keccaks (x.issuer.leaves host))
    (hfit : (x.issuer.leaves host).length < 2 ^ poseidonTreeDepth) :
    ∃ y poseidonLeaf, step host credDefId x (.addIssued credId [], smooth) = some y ∧
      y.results = x.results ++ [(.addIssued credId [], .ok (.added (some "")))] ∧
      y.issuer.leaves host = x.issuer.leaves host ++ [⟨keccakLeaf, poseidonLeaf⟩] := by
  obtain ⟨poseidonLeaf, hposeidon⟩ := @computePoseidonLeaf_ok host credDefId credId []
    (Nat.zero_le _)
  have hany : ¬ (x.issuer.leaves host).any (fun l => l.keccak = keccakLeaf) = true := by
    intro hany
    obtain ⟨l, hl, hk⟩ := any_eq_true.1 hany
    exact hnew (mem_keccaks.2 ⟨l, hl, of_decide_eq_true hk⟩)
  have hrun : ∃ t rest, (perform host credDefId (.addIssued credId [])).run smooth x.issuer =
      some (.ok (.added (some "")), t, rest) ∧
      t.leaves host = x.issuer.leaves host ++ [⟨keccakLeaf, poseidonLeaf⟩] := by
    show ∃ t rest, (added <$> addIssued host credDefId credId []).run
      (.done "" :: replicate 4 (.done "")) x.issuer = _ ∧ _
    rw [addIssued_eq credDefId hposeidon hkeccak, map_bind, run_loadActive, if_neg hany, map_bind]
    have hlength : (x.issuer.leaves host ++ [ActiveLeaf.mk keccakLeaf poseidonLeaf]).length ≤
        2 ^ poseidonTreeDepth := by
      rw [length_append, length_singleton]
      omega
    by_cases hempty : (x.issuer.leaves host).isEmpty
    · obtain ⟨u, hu⟩ := run_initFirst (s := x.issuer) hempty (added <$>
        publishIssued host credDefId (x.issuer.leaves host ++ [⟨keccakLeaf, poseidonLeaf⟩])
          keccakLeaf poseidonLeaf) (replicate 3 (.done ""))
      show ∃ t rest, Prog.run _ (Answer.done "" :: replicate 3 (.done "")) _ = _ ∧ _
      rw [hu]
      exact run_publishIssued _ _ hlength []
    · unfold initFirst
      rw [if_neg hempty]
      exact run_publishIssued _ _ hlength [.done ""]
  obtain ⟨t, rest, hrun, hleaves⟩ := hrun
  refine ⟨⟨t, x.results ++ [(.addIssued credId [], .ok (.added (some "")))]⟩, poseidonLeaf, ?_, rfl,
    hleaves⟩
  unfold step
  rw [hrun]
  rfl

theorem step_revokeByCredIds {credId : String} {leaf : ActiveLeaf}
    (hkeccak : deriveLeafHex host credId = .ok leaf.keccak)
    (hleaves : x.issuer.leaves host = [leaf]) :
    ∃ y plan, step host credDefId x (.revokeByCredIds [credId], smooth) = some y ∧
      y.results = x.results ++ [(.revokeByCredIds [credId], .ok (.revoked plan ""))] ∧
      y.issuer.leaves host = [] := by
  obtain ⟨root, hroot⟩ := @computePoseidonRoot_ok host [] (Nat.zero_le _)
  have hfind : [leaf].find? (fun l => l.keccak = leaf.keccak) = some leaf := by simp
  have herase : [leaf].eraseP (fun l => l.keccak = leaf.keccak) = [] := by simp
  obtain ⟨plan, hplan, hremaining⟩ : ∃ plan, planRevoke host [leaf] [credId] = .ok plan ∧
      plan.remaining = [] := by
    refine ⟨⟨[leaf.keccak], [leaf.poseidon], computeKeccakRoot host [], root, []⟩, ?_, rfl⟩
    unfold planRevoke PoseidonZk.remove
    simp only [foldlM_cons, foldlM_nil, hkeccak, bind, Except.bind, hfind, herase, pure,
      Except.pure, hroot]
    rfl
  have hrun : ∃ t rest, (perform host credDefId (.revokeByCredIds [credId])).run smooth
      x.issuer = some (.ok (.revoked plan ""), t, rest) ∧ t.leaves host = [] := by
    show ∃ t rest, ((fun r => revoked r.1 r.2) <$> revokeByCredIds host credDefId
      [credId]).run (.done "" :: replicate 4 (.done "")) x.issuer = _ ∧ _
    rw [revokeByCredIds_eq credDefId (cons_ne_nil _ _), map_bind, run_loadActive, hleaves,
      hplan, ← hremaining]
    show ∃ t rest, ((fun r => revoked r.1 r.2) <$> (batchUpdate _ >>= fun tx =>
      saveActive _ >>= fun _ => .done (plan, tx))).run _ _ = _ ∧ _
    rw [map_commit]
    exact run_commit _ _ _ [.done ""]
  obtain ⟨t, rest, hrun, ht⟩ := hrun
  refine ⟨⟨t, x.results ++ [(.revokeByCredIds [credId], .ok (.revoked plan ""))]⟩, plan, ?_, rfl,
    ht⟩
  unfold step
  rw [hrun]
  rfl

end

/-! ## Revoked credentials -/

/-- A call that returned `Ok` has revoked the credential with the leaf. -/
def Revoked (host : Host) (x : Sequential) (k : Bytes32) : Prop :=
  ∃ credIds reply, (ZkOp.revokeByCredIds credIds, Except.ok reply) ∈ x.results ∧
    ∃ cid ∈ credIds, deriveLeafHex host cid = .ok k

/-- A credential is not issued again after a call has revoked it. -/
def NotIssuedAgain (host : Host) (x : Sequential) (a : ZkOp × List Answer) : Prop :=
  ∀ credId domainAttrs, a.1 = .addIssued credId domainAttrs →
    ∀ k, deriveLeafHex host credId = .ok k → ¬ Revoked host x k

/-- The leaf is in no active set of `y` and in no root published between `x` and `y`. -/
def GoneSince (host : Host) (k : Bytes32) (x y : Sequential) : Prop :=
  k ∉ keccaks (y.issuer.leaves host) ∧
    ∃ since, published y.issuer.log = published x.issuer.log ++ since ∧
      ∀ u ∈ since, ∃ active, u.RootsOf host active ∧ k ∉ keccaks active

section

variable {host : Host} {credDefId : Bytes32} {x y z : Sequential} {a : ZkOp × List Answer}
  {k : Bytes32}

theorem Sequential.step_does (h : step host credDefId x a = some y)
    (hnodup : (keccaks (x.issuer.leaves host)).Nodup) :
    ∃ r, y.results = x.results ++ [(a.1, r)] ∧ CallDoes host a.1 x.issuer y.issuer r := by
  obtain ⟨out, hout, rfl⟩ := Option.map_eq_some_iff.1 h
  exact ⟨out.1, rfl, @perform_ends host (fun _ => True) _ _ _ _ credDefId hnodup
    ⟨a.2, out.2.2, fun _ _ => trivial, hout⟩⟩

/-- What a run keeps. -/
structure Tidy (host : Host) (x : Sequential) : Prop where
  nodup : (keccaks (x.issuer.leaves host)).Nodup
  gone : ∀ k, Revoked host x k → k ∉ keccaks (x.issuer.leaves host)

theorem tidy_fresh : Tidy host .fresh where
  nodup := nodup_nil
  gone k _ hk := by cases hk

theorem Revoked.append {more : List (ZkOp × Except Stop ZkReply)} (h : Revoked host x k)
    (hy : y.results = x.results ++ more) : Revoked host y k := by
  obtain ⟨credIds, reply, hmem, hcid⟩ := h
  exact ⟨credIds, reply, by rw [hy]; exact mem_append_left _ hmem, hcid⟩

theorem Revoked.of_append {r : Except Stop ZkReply} (h : Revoked host y k)
    (hy : y.results = x.results ++ [(a.1, r)]) :
    Revoked host x k ∨ ∃ credIds reply, a.1 = .revokeByCredIds credIds ∧ r = .ok reply ∧
      ∃ cid ∈ credIds, deriveLeafHex host cid = .ok k := by
  obtain ⟨credIds, reply, hmem, hcid⟩ := h
  rw [hy, mem_append, mem_singleton, Prod.mk.injEq] at hmem
  rcases hmem with hmem | ⟨hop, hr⟩
  · exact .inl ⟨credIds, reply, hmem, hcid⟩
  · exact .inr ⟨credIds, reply, hop.symm, hr.symm, hcid⟩

theorem Follows.stays_gone {active next : List ActiveLeaf} {u : BatchUpdate}
    (h : Follows host active u next) (hk : k ∉ keccaks active) (hadd : k ∉ u.addedKeccak) :
    k ∉ keccaks next := by
  rw [h.mem_keccaks_iff]
  rintro (⟨hmem, _⟩ | hmem)
  · exact hk hmem
  · exact hadd hmem

theorem Tidy.step (h : Tidy host x) (hfresh : NotIssuedAgain host x a)
    (hstep : step host credDefId x a = some y) :
    Tidy host y ∧ ∀ k, Revoked host x k → GoneSince host k x y := by
  obtain ⟨r, hresults, hdoes⟩ := step_does hstep h.nodup
  have hnodup := hdoes.nodup h.nodup
  obtain ⟨hleaves, hlog, hadd⟩ | ⟨u, next, hfollows, hadd, hrevoke, hlog, hnext⟩ := hdoes
  · refine ⟨⟨hnodup, fun k hk => ?_⟩, fun k hk => ⟨?_, [], ?_, fun u hu => by cases hu⟩⟩
    · rw [hleaves]
      rcases hk.of_append hresults with hk | ⟨credIds, reply, hop, hr, _⟩
      · exact h.gone k hk
      · obtain ⟨_, _, hissued⟩ := hadd reply hr
        rw [hop] at hissued
        cases hissued
    · rw [hleaves]
      exact h.gone k hk
    · rw [append_nil]
      exact hlog
  · have hstays : ∀ k, Revoked host x k → k ∉ keccaks next := by
      intro k hk
      refine hfollows.stays_gone (h.gone k hk) fun hmem => ?_
      obtain ⟨credId, domainAttrs, hop, hleaf⟩ := hadd k hmem
      exact hfresh credId domainAttrs hop k hleaf hk
    have hgone : ∀ k, Revoked host x k → k ∉ keccaks (y.issuer.leaves host) := by
      intro k hk
      rcases hnext with hnext | ⟨hnext, _⟩
      · rw [hnext]
        exact hstays k hk
      · rw [hnext]
        exact h.gone k hk
    refine ⟨⟨hnodup, fun k hk => ?_⟩, fun k hk => ⟨hgone k hk, [u], hlog, fun v hv => ?_⟩⟩
    · rcases hk.of_append hresults with hk | ⟨credIds, reply, hop, hr, cid, hcid, hleaf⟩
      · exact hgone k hk
      · obtain ⟨k', hk', hleaf'⟩ := hrevoke credIds hop cid hcid
        obtain rfl : k = k' := Except.ok.inj (hleaf.symm.trans hleaf')
        rcases hnext with hnext | ⟨_, stop, hstop⟩
        · rw [hnext]
          exact hfollows.notMem_of_revoked hk'
        · rw [hr] at hstop
          cases hstop
    · rw [mem_singleton.1 hv]
      exact ⟨next, hfollows.roots, hstays k hk⟩

theorem GoneSince.trans (hxy : GoneSince host k x y) (hyz : GoneSince host k y z) :
    GoneSince host k x z := by
  obtain ⟨_, since, hsince, hroots⟩ := hxy
  obtain ⟨hgone, later, hlater, hroots'⟩ := hyz
  refine ⟨hgone, since ++ later, by rw [hlater, hsince, append_assoc], fun u hu => ?_⟩
  rcases mem_append.1 hu with hu | hu
  · exact hroots u hu
  · exact hroots' u hu

theorem goneSince_of_exec {l : List (ZkOp × List Answer)} (hx : Tidy host x)
    (hfresh : Along (step host credDefId) (NotIssuedAgain host) x l)
    (h : exec (step host credDefId) x l = some y) (hk : Revoked host x k) :
    GoneSince host k x y := by
  have hstart : GoneSince host k x x :=
    ⟨hx.gone k hk, [], (append_nil _).symm, fun u hu => by cases hu⟩
  refine (exec_invariant_along (P := fun z => Tidy host z ∧ Revoked host z k ∧
    GoneSince host k x z) (fun u a v hu hfresh hstep => ?_) ⟨hx, hk, hstart⟩ hfresh h).2.2
  obtain ⟨htidy, hrevoked, hgone⟩ := hu
  obtain ⟨hv, hsince⟩ := htidy.step hfresh hstep
  obtain ⟨r, hresults, _⟩ := step_does hstep htidy.nodup
  exact ⟨hv, hrevoked.append hresults, hgone.trans (hsince k hrevoked)⟩

/-- **Revocation is permanent** in every run in which no credential is issued again after a call
has revoked it: once a revocation has returned `Ok`, the leaf is in no later active set and in no
later published root. -/
theorem revocation_isPermanent {l l' : List (ZkOp × List Answer)}
    (hfresh : Along (step host credDefId) (NotIssuedAgain host) .fresh (l ++ l'))
    (hx : exec (step host credDefId) .fresh l = some x)
    (hy : exec (step host credDefId) x l' = some y) (hk : Revoked host x k) :
    GoneSince host k x y := by
  have htidy : Tidy host x :=
    exec_invariant_along (fun u a v hu hfresh hstep => (hu.step hfresh hstep).1) tidy_fresh
      hfresh.left hx
  exact goneSince_of_exec htidy (hfresh.right hx) hy hk

end

/-- The credential whose id is one. -/
def credOne : String := "0x" ++ String.ofList (replicate 63 '0' ++ ['1'])

theorem revoked_credZero (host : Host) (credDefId : Bytes32) : ∃ x y plan,
    step host credDefId .fresh (.addIssued credZero [], smooth) = some x ∧
      step host credDefId x (.revokeByCredIds [credZero], smooth) = some y ∧
      exec (step host credDefId) .fresh
        [(.addIssued credZero [], smooth), (.revokeByCredIds [credZero], smooth)] = some y ∧
      y.results = [(.addIssued credZero [], .ok (.added (some ""))),
        (.revokeByCredIds [credZero], .ok (.revoked plan ""))] ∧
      y.issuer.leaves host = [] ∧ Revoked host y (deriveLeafBytes host zero32) := by
  have hleaf := deriveLeafHex_credZero host
  obtain ⟨x, p, hx, hadded, hleaves⟩ := @step_addIssued _ credDefId .fresh _ _ hleaf
    (fun hmem => by cases hmem) (Nat.two_pow_pos _)
  obtain ⟨y, plan, hy, hresults, hempty⟩ := @step_revokeByCredIds _ credDefId _ _
    ⟨deriveLeafBytes host zero32, p⟩ hleaf hleaves
  rw [hadded] at hresults
  refine ⟨x, y, plan, hx, hy, exec_cons_eq_some.2 ⟨x, hx, exec_cons_eq_some.2 ⟨y, hy, rfl⟩⟩,
    hresults, hempty, [credZero], .revoked plan "", ?_, credZero, mem_singleton_self _, hleaf⟩
  rw [hresults]
  exact mem_append_right _ (mem_singleton_self _)

/-- The credential zero is issued and revoked, and then another one is issued. -/
theorem revocation_isPermanent_zero :
    ∃ x y, exec (step hostZero zero32) .fresh
        [(.addIssued credZero [], smooth), (.revokeByCredIds [credZero], smooth)] = some x ∧
      exec (step hostZero zero32) x [(.addIssued credOne [], smooth)] = some y ∧
      GoneSince hostZero (deriveLeafBytes hostZero zero32) x y := by
  have hzero := deriveLeafHex_credZero hostZero
  obtain ⟨one, hone, hne⟩ : ∃ one, deriveLeafHex hostZero credOne = .ok one ∧
      deriveLeafBytes hostZero zero32 ≠ one := ⟨_, rfl, by decide⟩
  obtain ⟨x, y, plan, hx, hy, hrun, hresults, hempty, hrevoked⟩ := revoked_credZero hostZero zero32
  obtain ⟨z, q, hz, _, _⟩ := @step_addIssued _ zero32 y _ _ hone
    (by rw [hempty]; exact not_mem_nil) (by rw [hempty]; exact Nat.two_pow_pos _)
  -- nothing else was revoked
  have hother : ¬ Revoked hostZero y one := by
    rintro ⟨credIds, reply, hmem, cid, hcid, hleaf⟩
    rw [hresults] at hmem
    have hids : credIds = [credZero] := by
      simp only [mem_cons, Prod.mk.injEq,
        reduceCtorEq, false_and, false_or, not_mem_nil, or_false] at hmem
      exact ZkOp.revokeByCredIds.inj hmem.1
    rw [hids, mem_singleton] at hcid
    rw [hcid] at hleaf
    exact hne (Except.ok.inj hleaf)
  have hrun' : exec (step hostZero zero32) y [(.addIssued credOne [], smooth)] = some z := by
    rw [exec_cons, hz]
    rfl
  refine ⟨y, z, hrun, hrun', revocation_isPermanent ?_ hrun hrun' hrevoked⟩
  refine along_cons (fun _ _ _ k _ hk => ?_) hx (along_cons (fun _ _ hop => by cases hop) hy
    (along_cons (fun credId _ hop k hk => ?_) hz trivial))
  · obtain ⟨_, _, hmem, _⟩ := hk
    cases hmem
  · cases hop
    obtain rfl : one = k := Except.ok.inj (hone.symm.trans hk)
    exact hother

/-- **A revoked credential comes back**: it is issued, revoked, and its issuance is notified once
more. -/
theorem revocation_isPermanent_fails :
    ¬ ∃ host credDefId, ∀ l l' x y k, exec (step host credDefId) .fresh l = some x →
      exec (step host credDefId) x l' = some y → Revoked host x k →
      GoneSince host k x y := by
  rintro ⟨host, credDefId, h⟩
  obtain ⟨x, y, plan, -, -, hrun, -, hempty, hrevoked⟩ := revoked_credZero host credDefId
  obtain ⟨z, q, hz, _, hagain⟩ := @step_addIssued _ credDefId y _ _ (deriveLeafHex_credZero host)
    (by rw [hempty]; exact not_mem_nil) (by rw [hempty]; exact Nat.two_pow_pos _)
  have hrun' : exec (step host credDefId) y [(.addIssued credZero [], smooth)] = some z := by
    rw [exec_cons, hz]
    rfl
  refine (h _ _ y z _ hrun hrun' hrevoked).1 ?_
  rw [hagain, hempty]
  exact mem_singleton_self _

end Idiom.Kanon
