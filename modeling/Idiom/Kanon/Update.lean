import Idiom.Kanon.Zk

/-!
# What the two operations publish
-/

namespace Idiom.Kanon

open PoseidonZk List ZkReply

/-! ## Updates -/

def BatchUpdate.added (u : BatchUpdate) : List ActiveLeaf :=
  zipWith ActiveLeaf.mk u.addedKeccak u.addedPoseidon

/-- The leaves after an update. -/
def BatchUpdate.apply (u : BatchUpdate) (active : List ActiveLeaf) : List ActiveLeaf :=
  active.filter (fun l => l.keccak ∉ u.revokedKeccak) ++ u.added

/-- The roots are those of the leaves. -/
structure BatchUpdate.RootsOf (host : Host) (u : BatchUpdate) (active : List ActiveLeaf) :
    Prop where
  keccak : u.newRootKeccak = computeKeccakRoot host active
  poseidon : computePoseidonRoot host active = .ok u.newRootPoseidon

/-- The update is computed from `active`, and leads to `next`. -/
structure Follows (host : Host) (active : List ActiveLeaf) (u : BatchUpdate)
    (next : List ActiveLeaf) : Prop where
  next_eq : next = u.apply active
  roots : u.RootsOf host next
  added_length : u.addedKeccak.length ≤ u.addedPoseidon.length
  added_nodup : u.addedKeccak.Nodup
  added_new : ∀ k ∈ u.addedKeccak, k ∉ keccaks active
  revoked_nodup : u.revokedKeccak.Nodup
  revoked_active : ∀ k ∈ u.revokedKeccak, k ∈ keccaks active

section

variable {host : Host} {active next : List ActiveLeaf} {u : BatchUpdate} {k : Bytes32}

theorem mem_keccaks : k ∈ keccaks active ↔ ∃ l ∈ active, l.keccak = k := mem_map

theorem keccaks_filter (active : List ActiveLeaf) (ks : List Bytes32) :
    keccaks (active.filter fun l => l.keccak ∉ ks) = (keccaks active).filter fun k => k ∉ ks :=
  (filter_map (p := fun k => k ∉ ks) (f := ActiveLeaf.keccak) (l := active)).symm

theorem keccaks_zipWith {ks ps : List Bytes32} (h : ks.length ≤ ps.length) :
    keccaks (zipWith ActiveLeaf.mk ks ps) = ks := by
  induction ks generalizing ps with
  | nil => rfl
  | cons k ks ih =>
    cases ps with
    | nil => cases h
    | cons p ps => exact congrArg (k :: ·) (ih (Nat.le_of_succ_le_succ h))

theorem Follows.keccaks_added (h : Follows host active u next) : keccaks u.added = u.addedKeccak :=
  keccaks_zipWith h.added_length

theorem Follows.keccaks_eq (h : Follows host active u next) :
    keccaks next = (keccaks active).filter (fun k => k ∉ u.revokedKeccak) ++ u.addedKeccak := by
  rw [h.next_eq, BatchUpdate.apply, keccaks_append, keccaks_filter, h.keccaks_added]

theorem Follows.mem_keccaks_iff (h : Follows host active u next) :
    k ∈ keccaks next ↔ (k ∈ keccaks active ∧ k ∉ u.revokedKeccak) ∨ k ∈ u.addedKeccak := by
  rw [h.keccaks_eq, mem_append, mem_filter, decide_eq_true_iff]

theorem Follows.nodup (h : Follows host active u next) (hactive : (keccaks active).Nodup) :
    (keccaks next).Nodup := by
  rw [h.keccaks_eq]
  refine (hactive.filter _).append h.added_nodup ?_
  intro k hk hadded
  exact h.added_new k hadded (mem_of_mem_filter hk)

theorem Follows.notMem_of_revoked (h : Follows host active u next) (hk : k ∈ u.revokedKeccak) :
    k ∉ keccaks next := by
  rw [h.mem_keccaks_iff]
  rintro (⟨_, hnot⟩ | hadded)
  · exact hnot hk
  · exact h.added_new k hadded (h.revoked_active k hk)

end

/-! ## Revocation -/

section

variable {host : Host} {active : List ActiveLeaf} {a a' : Removal} {cid : String}
  {credIds : List String} {plan : RevokeRoots}

theorem eraseP_eq_filter (hactive : (keccaks active).Nodup) (k : Bytes32) :
    active.eraseP (fun l => l.keccak = k) = active.filter fun l => l.keccak ≠ k := by
  induction active with
  | nil => rfl
  | cons l active ih =>
    have hcons : l.keccak ∉ keccaks active ∧ (keccaks active).Nodup := nodup_cons.1 hactive
    by_cases h : l.keccak = k
    · have hall : active.filter (fun l => l.keccak ≠ k) = active := by
        refine filter_eq_self.2 fun l' hl' => decide_eq_true fun heq => hcons.1 ?_
        rw [h, ← heq]
        exact mem_map_of_mem hl'
      rw [eraseP_cons_of_pos (by simpa using h), filter_cons_of_neg (by simpa using h), hall]
    · rw [eraseP_cons_of_neg (by simpa using h), filter_cons_of_pos (by simpa using h), ih hcons.2]

/-- What has been removed so far. -/
structure RemovedFrom (active : List ActiveLeaf) (a : Removal) : Prop where
  remaining_eq : a.remaining = active.filter fun l => l.keccak ∉ a.revokedKeccak
  revoked_nodup : a.revokedKeccak.Nodup
  revoked_active : ∀ k ∈ a.revokedKeccak, k ∈ keccaks active

theorem RemovedFrom.remove (h : RemovedFrom active a) (hactive : (keccaks active).Nodup)
    (hremove : remove host a cid = .ok a') :
    RemovedFrom active a' ∧ ∃ k, deriveLeafHex host cid = .ok k ∧
      a'.revokedKeccak = a.revokedKeccak ++ [k] := by
  unfold PoseidonZk.remove at hremove
  cases hleaf : deriveLeafHex host cid with
  | error e =>
    rw [hleaf] at hremove
    cases hremove
  | ok k =>
    rw [hleaf] at hremove
    simp only [bind, Except.bind] at hremove
    cases hfind : a.remaining.find? fun l => l.keccak = k with
    | none =>
      rw [hfind] at hremove
      cases hremove
    | some removed =>
      rw [hfind] at hremove
      cases hremove
      have hk : removed.keccak = k := by simpa using find?_some hfind
      have hmem : removed ∈ active ∧ removed.keccak ∉ a.revokedKeccak := by
        have := mem_of_find?_eq_some hfind
        rw [h.remaining_eq, mem_filter] at this
        exact ⟨this.1, of_decide_eq_true this.2⟩
      have hnodup : (keccaks a.remaining).Nodup := by
        rw [h.remaining_eq, keccaks_filter]
        exact hactive.filter _
      refine ⟨⟨?_, ?_, ?_⟩, k, rfl, by rw [hk]⟩
      · show a.remaining.eraseP (fun l => l.keccak = k) = _
        rw [eraseP_eq_filter hnodup, h.remaining_eq, filter_filter]
        refine filter_congr fun l _ => ?_
        simp only [hk, mem_append]
        by_cases hl : l.keccak = k <;> simp [hl]
      · exact nodup_append.2 ⟨h.revoked_nodup, nodup_singleton _, fun x hx y hy heq =>
          hmem.2 (by rw [← mem_singleton.1 hy, ← heq]; exact hx)⟩
      · intro x hx
        rcases mem_append.1 hx with hx | hx
        · exact h.revoked_active x hx
        · rw [mem_singleton.1 hx]
          exact mem_map_of_mem hmem.1

theorem RemovedFrom.foldlM (hactive : (keccaks active).Nodup) (h : RemovedFrom active a)
    (hfold : credIds.foldlM (PoseidonZk.remove host) a = .ok a') :
    RemovedFrom active a' ∧ (∀ k ∈ a.revokedKeccak, k ∈ a'.revokedKeccak) ∧
      ∀ cid ∈ credIds, ∃ k ∈ a'.revokedKeccak, deriveLeafHex host cid = .ok k := by
  induction credIds generalizing a with
  | nil =>
    cases hfold
    exact ⟨h, fun _ hk => hk, fun cid hcid => by cases hcid⟩
  | cons cid credIds ih =>
    rw [foldlM_cons] at hfold
    cases hremove : PoseidonZk.remove host a cid with
    | error e =>
      rw [hremove] at hfold
      cases hfold
    | ok a₁ =>
      rw [hremove] at hfold
      obtain ⟨h₁, k, hleaf, hrevoked⟩ := h.remove hactive hremove
      obtain ⟨h', hkeep, hall⟩ := ih h₁ hfold
      rw [hrevoked] at hkeep
      refine ⟨h', fun x hx => hkeep x (mem_append_left _ hx), fun c hc => ?_⟩
      rcases mem_cons.1 hc with rfl | hc
      · exact ⟨k, hkeep k (by simp), hleaf⟩
      · exact hall c hc

/-- The update of a revocation. -/
def RevokeRoots.toUpdate (plan : RevokeRoots) (credDefId : Bytes32) : BatchUpdate :=
  ⟨credDefId, [], [], plan.revokedKeccak, plan.revokedPoseidon, plan.newRootKeccak,
    plan.newRootPoseidon⟩

/-- **A revocation** removes all its credentials and nothing else. -/
theorem planRevoke_follows (hactive : (keccaks active).Nodup)
    (hplan : planRevoke host active credIds = .ok plan) (credDefId : Bytes32) :
    Follows host active (plan.toUpdate credDefId) plan.remaining ∧
      ∀ cid ∈ credIds, ∃ k ∈ plan.revokedKeccak, deriveLeafHex host cid = .ok k := by
  unfold planRevoke at hplan
  cases hfold : credIds.foldlM (PoseidonZk.remove host) ⟨active, [], []⟩ with
  | error e =>
    rw [hfold] at hplan
    cases hplan
  | ok a =>
    rw [hfold] at hplan
    have hstart : RemovedFrom active ⟨active, [], []⟩ :=
      ⟨by simp, nodup_nil, fun k hk => by cases hk⟩
    obtain ⟨ha, _, hall⟩ := RemovedFrom.foldlM hactive hstart hfold
    cases hroot : computePoseidonRoot host a.remaining with
    | error e =>
      simp only [bind, Except.bind, hroot] at hplan
      cases hplan
    | ok root =>
      simp only [bind, Except.bind, hroot] at hplan
      cases hplan
      refine ⟨⟨?_, ⟨rfl, hroot⟩, Nat.le_refl _, nodup_nil, fun k hk => (by cases hk),
        ha.revoked_nodup, ha.revoked_active⟩, hall⟩
      show a.remaining = active.filter (fun l => l.keccak ∉ a.revokedKeccak) ++ []
      rw [append_nil]
      exact ha.remaining_eq

end

/-! ## The log -/

/-- The updates the chain has applied. -/
def published (log : List Change) : List BatchUpdate :=
  log.filterMap fun change =>
    match change with
    | .published u => some u
    | .saved _ => none

@[simp] theorem published_append (log log' : List Change) :
    published (log ++ log') = published log ++ published log' := filterMap_append

section

variable {host : Host} {s : Issuer}

@[simp] theorem published_publish (u : BatchUpdate) :
    published (s.publish u).log = published s.log ++ [u] := published_append _ _

@[simp] theorem published_write (cp : ActiveCheckpoint) :
    published (s.write cp).log = published s.log := by
  show published (s.log ++ [.saved cp]) = _
  rw [published_append]
  exact append_nil _

theorem leaves_of_record {active : List ActiveLeaf} (h : s.record = some (.fromActive active)) :
    s.leaves host = active := by
  unfold Issuer.leaves
  rw [h]
  exact ActiveCheckpoint.toActive_fromActive host active

end

/-! ## Operations -/

/-- Publish an update, and write the leaves it leads to. -/
def commit (u : BatchUpdate) (next : List ActiveLeaf) (reply : String → ZkReply) :
    ZkProg ZkReply := do
  let tx ← batchUpdate u
  saveActive next
  .done (reply tx)

/-- What an operation does after it has loaded `active`. -/
inductive Rest (host : Host) (op : ZkOp) (active : List ActiveLeaf) : ZkProg ZkReply → Prop
  | fail (e : KanonError) : Rest host op active (.fail (.error e))
  | present (credId : String) (domainAttrs : List (String × String))
      (hop : op = .addIssued credId domainAttrs) : Rest host op active (.done (.added none))
  | commit (u : BatchUpdate) (next : List ActiveLeaf) (reply : String → ZkReply)
      (hfollows : Follows host active u next)
      (hadd : ∀ k ∈ u.addedKeccak, ∃ credId domainAttrs, op = .addIssued credId domainAttrs ∧
        deriveLeafHex host credId = .ok k)
      (hrevoke : ∀ credIds, op = .revokeByCredIds credIds → ∀ cid ∈ credIds,
        ∃ k ∈ u.revokedKeccak, deriveLeafHex host cid = .ok k) :
      Rest host op active (commit u next reply)
  | init (rootKeccak rootPoseidon : Bytes32) (p : ZkProg ZkReply)
      (hkeccak : rootKeccak = computeKeccakRoot host [])
      (hposeidon : computePoseidonRoot host [] = .ok rootPoseidon)
      (hrest : Rest host op active p) :
      Rest host op active (initMerkleState rootKeccak rootPoseidon >>= fun _ => p)

section

variable (host : Host) (credDefId : Bytes32)

def publishIssued (next : List ActiveLeaf) (keccakLeaf poseidonLeaf : Bytes32) :
    ZkProg (Option String) := do
  let newRootPoseidon ← ofResult (computePoseidonRoot host next)
  let tx ← batchUpdate ⟨credDefId, [keccakLeaf], [poseidonLeaf], [], [],
    computeKeccakRoot host next, newRootPoseidon⟩
  saveActive next
  .done (some tx)

variable {host}

theorem map_bind {α β γ : Type} (f : β → γ) (p : ZkProg α) (g : α → ZkProg β) :
    f <$> (p >>= g) = p >>= fun a => f <$> g a := Prog.bind_assoc _ _ _

theorem map_commit {α : Type} (u : BatchUpdate) (next : List ActiveLeaf) (f : α → ZkReply)
    (g : String → α) :
    f <$> (batchUpdate u >>= fun tx => saveActive next >>= fun _ => .done (g tx)) =
      commit u next fun tx => f (g tx) := by
  simp only [map_bind]
  rfl

variable {credId : String} {keccakLeaf : Bytes32}

theorem addIssued_eq {domainAttrs : List (String × String)} {poseidonLeaf : Bytes32}
    (hposeidon : computePoseidonLeaf host credDefId credId domainAttrs = .ok poseidonLeaf)
    (hkeccak : deriveLeafHex host credId = .ok keccakLeaf) :
    addIssued host credDefId credId domainAttrs = loadActive host >>= fun active =>
      if active.any fun l => l.keccak = keccakLeaf then .done none
      else initFirst host active >>= fun _ =>
        publishIssued host credDefId (active ++ [⟨keccakLeaf, poseidonLeaf⟩]) keccakLeaf
          poseidonLeaf := by
  unfold addIssued
  rw [hposeidon, hkeccak]
  rfl

theorem revokeByCredIds_eq {credIds : List String} (h : credIds ≠ []) :
    revokeByCredIds host credDefId credIds = loadActive host >>= fun active =>
      ofResult (planRevoke host active credIds) >>= fun plan =>
        batchUpdate (plan.toUpdate credDefId) >>= fun tx =>
          saveActive plan.remaining >>= fun _ => .done (plan, tx) := by
  cases credIds with
  | nil => exact absurd rfl h
  | cons cid credIds => rfl

theorem rest_publishIssued {active : List ActiveLeaf} (poseidonLeaf : Bytes32)
    (domainAttrs : List (String × String)) (hleaf : deriveLeafHex host credId = .ok keccakLeaf)
    (hnew : keccakLeaf ∉ keccaks active) :
    Rest host (.addIssued credId domainAttrs) active
      (.added <$> publishIssued host credDefId (active ++ [⟨keccakLeaf, poseidonLeaf⟩]) keccakLeaf
        poseidonLeaf) := by
  unfold publishIssued
  cases hroot : computePoseidonRoot host (active ++ [⟨keccakLeaf, poseidonLeaf⟩]) with
  | error e => exact .fail e
  | ok root =>
    show Rest _ _ _ (added <$> (batchUpdate _ >>= fun tx => saveActive _ >>= fun _ =>
      .done (some tx)))
    rw [map_commit]
    refine .commit _ _ _ ⟨?_, ⟨rfl, hroot⟩, Nat.le_refl _, nodup_singleton _, fun k hk => ?_,
      nodup_nil, fun k hk => (by cases hk)⟩ (fun k hk => ?_) fun credIds hop => (by cases hop)
    · simp [BatchUpdate.apply, BatchUpdate.added]
    · rw [mem_singleton.1 hk]
      exact hnew
    · rw [mem_singleton.1 hk]
      exact ⟨credId, domainAttrs, rfl, hleaf⟩

/-- **Every operation** fails, or it loads the leaves and goes on with one of a few things. -/
theorem perform_cases (op : ZkOp) :
    (∃ e, perform host credDefId op = .fail (.error e)) ∨
      ∃ rest : List ActiveLeaf → ZkProg ZkReply,
        perform host credDefId op = loadActive host >>= rest ∧
          ∀ active, (keccaks active).Nodup → Rest host op active (rest active) := by
  cases op with
  | addIssued credId domainAttrs =>
    show (∃ e, added <$> addIssued host credDefId credId domainAttrs = _) ∨
      ∃ rest, added <$> addIssued host credDefId credId domainAttrs = _ ∧ _
    cases hposeidon : computePoseidonLeaf host credDefId credId domainAttrs with
    | error e =>
      unfold addIssued
      rw [hposeidon]
      exact .inl ⟨e, rfl⟩
    | ok poseidonLeaf =>
      cases hkeccak : deriveLeafHex host credId with
      | error e =>
        unfold addIssued
        rw [hposeidon, hkeccak]
        exact .inl ⟨e, rfl⟩
      | ok keccakLeaf =>
        rw [addIssued_eq credDefId hposeidon hkeccak, map_bind]
        refine .inr ⟨_, rfl, fun active _ => ?_⟩
        split
        · exact .present credId domainAttrs rfl
        · next hany =>
          have hnew : keccakLeaf ∉ keccaks active := by
            intro hmem
            obtain ⟨l, hl, hk⟩ := mem_keccaks.1 hmem
            exact hany (any_eq_true.2 ⟨l, hl, decide_eq_true hk⟩)
          have hpublish := rest_publishIssued credDefId poseidonLeaf domainAttrs hkeccak hnew
          cases active with
          | cons l active => exact hpublish
          | nil =>
            obtain ⟨root, hroot⟩ := @computePoseidonRoot_ok host [] (by simp)
            rw [map_bind]
            unfold initFirst
            rw [hroot]
            exact .init _ root _ rfl hroot hpublish
  | revokeByCredIds credIds =>
    show (∃ e, (fun r => revoked r.1 r.2) <$> revokeByCredIds host credDefId credIds = _) ∨
      ∃ rest, (fun r => revoked r.1 r.2) <$> revokeByCredIds host credDefId credIds = _ ∧ _
    by_cases hempty : credIds = []
    · subst hempty
      exact .inl ⟨_, rfl⟩
    · rw [revokeByCredIds_eq credDefId hempty, map_bind]
      refine .inr ⟨_, rfl, fun active hactive => ?_⟩
      cases hplan : planRevoke host active credIds with
      | error e => exact .fail e
      | ok plan =>
        obtain ⟨hfollows, hall⟩ := planRevoke_follows hactive hplan credDefId
        show Rest _ _ _ ((fun r => revoked r.1 r.2) <$>
          (batchUpdate (plan.toUpdate credDefId) >>= fun tx => saveActive plan.remaining >>=
            fun _ =>
            .done (plan, tx)))
        rw [map_commit]
        refine .commit _ _ _ hfollows (fun k hk => (by cases hk)) fun ids hids => ?_
        cases hids
        exact hall

theorem perform_addIssued_first (host : Host)
    (hkeccak : deriveLeafHex host credId = .ok keccakLeaf) :
    ∃ poseidonLeaf rootKeccak rootPoseidon newRootKeccak newRootPoseidon rest,
      perform host credDefId (.addIssued credId []) = loadActive host >>= rest ∧
        rest [⟨keccakLeaf, poseidonLeaf⟩] = .done (.added none) ∧
        rest [] = initMerkleState rootKeccak rootPoseidon >>= fun _ =>
          commit ⟨credDefId, [keccakLeaf], [poseidonLeaf], [], [], newRootKeccak, newRootPoseidon⟩
            [⟨keccakLeaf, poseidonLeaf⟩] fun tx => .added (some tx) := by
  obtain ⟨poseidonLeaf, hposeidon⟩ := @computePoseidonLeaf_ok host credDefId credId []
    (Nat.zero_le _)
  obtain ⟨genesis, hgenesis⟩ := @computePoseidonRoot_ok host [] (Nat.zero_le _)
  obtain ⟨root, hroot⟩ := @computePoseidonRoot_ok host [⟨keccakLeaf, poseidonLeaf⟩]
    (Nat.one_le_two_pow)
  refine ⟨poseidonLeaf, computeKeccakRoot host [], genesis,
    computeKeccakRoot host [⟨keccakLeaf, poseidonLeaf⟩], root, _,
    (congrArg (added <$> ·) (addIssued_eq credDefId hposeidon hkeccak)).trans (map_bind _ _ _),
    by simp [Prog.map_eq], ?_⟩
  show added <$> (initFirst host [] >>= fun _ =>
    publishIssued host credDefId [⟨keccakLeaf, poseidonLeaf⟩] keccakLeaf poseidonLeaf) = _
  unfold initFirst publishIssued
  rw [map_bind, hgenesis, hroot]
  show (initMerkleState (computeKeccakRoot host []) genesis >>= fun _ => added <$>
    (batchUpdate _ >>= fun tx => saveActive _ >>= fun _ => .done (some tx))) = _
  rw [map_commit]

end

/-! ## A credential -/

/-- The credential whose id is all zeros. -/
def credZero : String := "0x" ++ String.ofList (replicate 64 '0')

theorem deriveLeafHex_credZero (host : Host) :
    deriveLeafHex host credZero = .ok (deriveLeafBytes host zero32) := rfl

/-- Its hash keeps the first 32 bytes, and its tables are empty. -/
def hostZero : Host where
  keccak256 bytes := ⟨(bytes ++ replicate 32 0).take 32, by simp⟩
  c := []
  m := []
  showHexError _ := ""

end Idiom.Kanon
