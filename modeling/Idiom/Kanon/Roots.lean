import Idiom.Kanon.Update
import Idiom.Lib.Rely

/-!
# Roots and checkpoint under concurrent calls

Any number of `add_issued` and `revoke_by_cred_ids` calls run at once on one credential definition.
Each loads the checkpoint, publishes an update, and writes the checkpoint, with no lock over the
three.
-/

namespace Idiom.Kanon

open Run PoseidonZk List Access Tasks BatchUpdate Option

/-! ## Leaves of the updates -/

def addedLeaves (us : List BatchUpdate) : List ActiveLeaf := us.flatMap added

def revokedLeaves (us : List BatchUpdate) : List Bytes32 := us.flatMap revokedKeccak

/-- The active leaves after some updates. -/
def activeAfter (us : List BatchUpdate) : List ActiveLeaf :=
  us.foldl (fun active u => u.apply active) []

@[simp] theorem addedLeaves_snoc (us : List BatchUpdate) (u : BatchUpdate) :
    addedLeaves (us ++ [u]) = addedLeaves us ++ u.added := by simp [addedLeaves]

@[simp] theorem revokedLeaves_snoc (us : List BatchUpdate) (u : BatchUpdate) :
    revokedLeaves (us ++ [u]) = revokedLeaves us ++ u.revokedKeccak := by simp [revokedLeaves]

@[simp] theorem activeAfter_snoc (us : List BatchUpdate) (u : BatchUpdate) :
    activeAfter (us ++ [u]) = u.apply (activeAfter us) := by simp [activeAfter]

/-- The last change is an update: the checkpoint is behind the chain. -/
def Behind (log : List Change) : Prop := ∃ u, log.getLast? = some (.published u)

namespace Issuer

def issuedCount (s : Issuer) : ℕ := (s.chain.map MerkleState.issuedCount).getD 0

def revokedCount (s : Issuer) : ℕ := (s.chain.map MerkleState.revokedCount).getD 0

end Issuer

open Issuer

/-- Roots, checkpoint and counts agree. -/
structure Matches (host : Host) (s : Issuer) : Prop where
  roots : ∀ st ∈ s.chain, st.rootKeccak = computeKeccakRoot host (s.leaves host) ∧
    computePoseidonRoot host (s.leaves host) = .ok st.rootPoseidon
  nodup : (keccaks (s.leaves host)).Nodup
  leaves : ∀ leaf, leaf ∈ s.leaves host ↔
    leaf ∈ addedLeaves (published s.log) ∧ leaf.keccak ∉ revokedLeaves (published s.log)
  issued : s.issuedCount = (keccaks (addedLeaves (published s.log))).toFinset.card
  revoked : s.revokedCount = (revokedLeaves (published s.log)).toFinset.card

/-! ## What accesses keep -/

/-- Between any two accesses. -/
structure Ledger (host : Host) (s : Issuer) : Prop where
  nodup : (keccaks (activeAfter (published s.log))).Nodup
  leaves : ∀ leaf, leaf ∈ activeAfter (published s.log) ↔
    leaf ∈ addedLeaves (published s.log) ∧ leaf.keccak ∉ revokedLeaves (published s.log)
  uninitialized : s.chain = none → published s.log = []
  roots : ∀ st ∈ s.chain, st.rootKeccak = computeKeccakRoot host (activeAfter (published s.log)) ∧
    computePoseidonRoot host (activeAfter (published s.log)) = .ok st.rootPoseidon
  added_nodup : (keccaks (addedLeaves (published s.log))).Nodup
  revoked_nodup : (revokedLeaves (published s.log)).Nodup
  issued : s.issuedCount = (addedLeaves (published s.log)).length
  revoked : s.revokedCount = (revokedLeaves (published s.log)).length
  loaded_nodup : (keccaks (s.leaves host)).Nodup
  current : ¬ Behind s.log → s.leaves host = activeAfter (published s.log)

section

variable {host : Host} {s : Issuer} {u : BatchUpdate} {next : List ActiveLeaf}

theorem ledger_fresh : Ledger host .fresh where
  nodup := nodup_nil
  leaves leaf := by simp [Issuer.fresh, published, activeAfter, addedLeaves]
  uninitialized _ := rfl
  roots st hst := by cases hst
  added_nodup := nodup_nil
  revoked_nodup := nodup_nil
  issued := rfl
  revoked := rfl
  loaded_nodup := nodup_nil
  current _ := rfl

theorem behind_publish : Behind (s.publish u).log := ⟨u, getLast?_concat⟩

theorem not_behind_write (cp : ActiveCheckpoint) : ¬ Behind (s.write cp).log := by
  rintro ⟨u, hu⟩
  have hlast : (s.write cp).log.getLast? = some (.saved cp) := getLast?_concat
  rw [hlast] at hu
  cases hu

/-- **Settled.**  When the checkpoint is not behind, everything agrees. -/
theorem Ledger.matches (h : Ledger host s) (hcurrent : ¬ Behind s.log) : Matches host s where
  roots st hst := by
    rw [h.current hcurrent]
    exact h.roots st hst
  nodup := h.loaded_nodup
  leaves leaf := by
    rw [h.current hcurrent]
    exact h.leaves leaf
  issued := by
    rw [toFinset_card_of_nodup h.added_nodup, h.issued]
    exact (length_map _).symm
  revoked := by rw [toFinset_card_of_nodup h.revoked_nodup, h.revoked]

theorem Ledger.init (h : Ledger host s) {rootKeccak rootPoseidon : Bytes32}
    (hkeccak : rootKeccak = computeKeccakRoot host [])
    (hposeidon : computePoseidonRoot host [] = .ok rootPoseidon) (e : Answer) :
    Ledger host ((Access.initMerkleState rootKeccak rootPoseidon).effect e s) := by
  show Ledger host (ite _ _ _)
  split
  · next hinit =>
    have hnone : s.chain = none := isNone_iff_eq_none.1 hinit.2
    have hpublished := h.uninitialized hnone
    have hissued := h.issued
    have hrevoked := h.revoked
    simp only [issuedCount, revokedCount, hnone, map_none] at hissued hrevoked
    refine ⟨h.nodup, h.leaves, fun hcontra => (by cases hcontra), fun st hst => ?_, h.added_nodup,
      h.revoked_nodup, hissued, hrevoked, h.loaded_nodup, h.current⟩
    cases hst
    show _ = computeKeccakRoot host (activeAfter (published s.log)) ∧
      computePoseidonRoot host (activeAfter (published s.log)) = _
    rw [hpublished]
    exact ⟨hkeccak, hposeidon⟩
  · exact h

/-- **An update** that follows from the leaves, and adds none that was revoked. -/
theorem Ledger.publish (h : Ledger host s)
    (hfollows : Follows host (activeAfter (published s.log)) u next)
    (hnew : ∀ k ∈ u.addedKeccak, k ∉ revokedLeaves (published s.log)) :
    Ledger host (s.publish u) := by
  have hnext : u.apply (activeAfter (published s.log)) = next := hfollows.next_eq.symm
  have hadded : keccaks u.added = u.addedKeccak := hfollows.keccaks_added
  have hlength : u.added.length = u.addedKeccak.length := by
    rw [← hadded]
    exact (length_map _).symm
  -- a leaf that was added is active or revoked
  have hfresh : ∀ k ∈ u.addedKeccak, k ∉ keccaks (addedLeaves (published s.log)) := by
    intro k hk hmem
    obtain ⟨leaf, hleaf, rfl⟩ := mem_keccaks.1 hmem
    exact hfollows.added_new _ hk (mem_keccaks.2 ⟨leaf, (h.leaves leaf).2 ⟨hleaf, hnew _ hk⟩, rfl⟩)
  have hactive : ∀ k ∈ u.revokedKeccak, k ∉ revokedLeaves (published s.log) := by
    intro k hk hmem
    obtain ⟨leaf, hleaf, rfl⟩ := mem_keccaks.1 (hfollows.revoked_active k hk)
    exact ((h.leaves leaf).1 hleaf).2 hmem
  refine ⟨?_, fun leaf => ?_, fun hcontra => (by cases hcontra), fun st hst => ?_, ?_, ?_, ?_, ?_,
    h.loaded_nodup, fun hcurrent => absurd behind_publish hcurrent⟩
  · rw [published_publish, activeAfter_snoc, hnext]
    exact hfollows.nodup h.nodup
  · rw [published_publish, activeAfter_snoc, addedLeaves_snoc, revokedLeaves_snoc]
    simp only [apply, mem_append, mem_filter, decide_eq_true_iff, not_or, h.leaves leaf]
    constructor
    · rintro (⟨⟨hold, hnot⟩, hkeep⟩ | hnewLeaf)
      · exact ⟨.inl hold, hnot, hkeep⟩
      · have hk : leaf.keccak ∈ u.addedKeccak := by
          rw [← hadded]
          exact mem_map_of_mem hnewLeaf
        exact ⟨.inr hnewLeaf, hnew _ hk,
          fun hrevoked => hfollows.added_new _ hk (hfollows.revoked_active _ hrevoked)⟩
    · rintro ⟨hold | hnewLeaf, hnot, hkeep⟩
      · exact .inl ⟨⟨hold, hnot⟩, hkeep⟩
      · exact .inr hnewLeaf
  · rw [published_publish, activeAfter_snoc, hnext]
    cases hst
    exact ⟨hfollows.roots.keccak, hfollows.roots.poseidon⟩
  · rw [published_publish, addedLeaves_snoc, keccaks_append, hadded]
    refine h.added_nodup.append hfollows.added_nodup fun k hk hk' => hfresh k hk' hk
  · rw [published_publish, revokedLeaves_snoc]
    refine h.revoked_nodup.append hfollows.revoked_nodup fun k hk hk' => hactive k hk' hk
  · rw [published_publish, addedLeaves_snoc, length_append, ← h.issued, hlength]
    cases hchain : s.chain <;> simp [Issuer.publish, Issuer.issuedCount, hchain]
  · rw [published_publish, revokedLeaves_snoc, length_append, ← h.revoked]
    cases hchain : s.chain <;> simp [Issuer.publish, Issuer.revokedCount, hchain]

/-- **The checkpoint** of the leaves after all updates. -/
theorem Ledger.write (h : Ledger host s) (hnext : activeAfter (published s.log) = next) :
    Ledger host (s.write (.fromActive next)) := by
  have hleaves : (s.write (.fromActive next)).leaves host = next := leaves_of_record rfl
  have hpublished : published (s.write (.fromActive next)).log = published s.log :=
    published_write _
  refine ⟨?_, ?_, ?_, ?_, ?_, ?_, ?_, ?_, ?_, fun _ => ?_⟩
  · rw [hpublished]; exact h.nodup
  · rw [hpublished]; exact h.leaves
  · rw [hpublished]; exact h.uninitialized
  · rw [hpublished]; exact h.roots
  · rw [hpublished]; exact h.added_nodup
  · rw [hpublished]; exact h.revoked_nodup
  · rw [hpublished]; exact h.issued
  · rw [hpublished]; exact h.revoked
  · rw [hleaves, ← hnext]; exact h.nodup
  · rw [hleaves, hpublished, hnext]

end

/-! ## The condition -/

section

variable {ι : Type}

/-- The access changes the leaves on chain. -/
def publishes (b : ι × Access × Answer) : Bool :=
  match b.2.1 with
  | .batchUpdate _ => b.2.2.applies
  | _ => false

/-- The access changes the leaves on chain, or it is about the checkpoint's content. -/
def touches (b : ι × Access × Answer) : Bool :=
  match b.2.1 with
  | .batchUpdate _ => b.2.2.applies
  | .update _ | .save _ => true
  | _ => false

/-- The last call that has published. -/
def lastPublisher (trace : List (ι × Access × Answer)) : Option ι :=
  (trace.filter publishes).getLast?.map Prod.fst

/-- Since the call has loaded the checkpoint, nobody has published or written. -/
def Undisturbed (t : ι) (trace : List (ι × Access × Answer)) : Prop :=
  ∀ before e after, trace = before ++ (t, .find, e) :: after → ∀ b ∈ after, touches b = false

/-- The condition of an access.
* An update is applied only if the checkpoint is not behind, the call is undisturbed, no added leaf
  was revoked before, and then the call hears of it.
* The call does not crash before the checkpoint is written.
* The second attempt to write succeeds, if the first one did not; and nobody has published between
  the two, or it fails. -/
def CarefulAccess (w : World ι Issuer Answer Access) (t : ι) : Access → Answer → Prop
  | .batchUpdate u, e => e.applies = true → (∃ tx, e = .done tx) ∧ ¬ Behind w.1.log ∧
      Undisturbed t w.2 ∧ ∀ k ∈ u.addedKeccak, k ∉ revokedLeaves (published w.1.log)
  | .update _, e => ∀ applied, e = .crashed applied → applied = true ∧ w.1.record.isSome
  | .save _, e => (lastPublisher w.2 = some t → Behind w.1.log → e.applies = true) ∧
      (e.applies = true → lastPublisher w.2 = some t)
  | .find, _ => True
  | .initMerkleState _ _, _ => True

/-- What stays while others run. -/
structure Evolves (t : ι) (w w' : World ι Issuer Answer Access) : Prop where
  trace : ∃ after, w'.2 = w.2 ++ after ∧ (∀ b ∈ after, b.1 ≠ t) ∧
    ((∀ b ∈ after, touches b = false) → w'.1.record = w.1.record) ∧
    ((∀ b ∈ after, publishes b = false) → published w'.1.log = published w.1.log ∧
      (Behind w'.1.log → Behind w.1.log))
  held : lastPublisher w.2 = some t → Behind w.1.log →
    w'.1.log = w.1.log ∧ lastPublisher w'.2 = some t

open Evolves

variable {t u : ι} {w w' w'' : World ι Issuer Answer Access}

theorem Evolves.refl (t : ι) (w : World ι Issuer Answer Access) : Evolves t w w where
  trace := ⟨[], (append_nil _).symm, fun b hb => (by cases hb), fun _ => rfl, fun _ => ⟨rfl, id⟩⟩
  held hlast _ := ⟨rfl, hlast⟩

theorem Evolves.trans (h : Evolves t w w') (h' : Evolves t w' w'') : Evolves t w w'' := by
  obtain ⟨after, hw', hother, hrecord, hlog⟩ := h.trace
  obtain ⟨after', hw'', hother', hrecord', hlog'⟩ := h'.trace
  refine ⟨⟨after ++ after', by rw [hw'', hw', append_assoc], fun b hb => ?_, fun hnone => ?_,
    fun hnone => ?_⟩, fun hlast hbehind => ?_⟩
  · exact (mem_append.1 hb).elim (hother b) (hother' b)
  · exact (hrecord' fun b hb => hnone b (mem_append_right _ hb)).trans
      (hrecord fun b hb => hnone b (mem_append_left _ hb))
  · obtain ⟨heq, himp⟩ := hlog fun b hb => hnone b (mem_append_left _ hb)
    obtain ⟨heq', himp'⟩ := hlog' fun b hb => hnone b (mem_append_right _ hb)
    exact ⟨heq'.trans heq, fun hbehind => himp (himp' hbehind)⟩
  · obtain ⟨heq, hlast'⟩ := h.held hlast hbehind
    obtain ⟨heq', hlast''⟩ := h'.held hlast' (by rw [heq]; exact hbehind)
    exact ⟨heq'.trans heq, hlast''⟩

/-- The ledger, and somebody has published if the checkpoint is behind. -/
structure RootsInv (host : Host) (w : World ι Issuer Answer Access) : Prop where
  ledger : Ledger host w.1
  publisher : Behind w.1.log → ∃ t, lastPublisher w.2 = some t

/-- What a call relies on. -/
def rootsRely (ι : Type) (host : Host) : Rely ι Issuer Answer Access where
  inv := RootsInv host
  evolves := Evolves
  guard := CarefulAccess
  refl := refl
  trans _ _ _ _ := trans

/-! ## The last publisher -/

variable {trace : List (ι × Access × Answer)}

theorem lastPublisher_append {after : List (ι × Access × Answer)}
    (hnone : ∀ b ∈ after, publishes b = false) :
    lastPublisher (trace ++ after) = lastPublisher trace := by
  have hfilter : after.filter publishes = [] :=
    filter_eq_nil_iff.2 fun b hb => by simp [hnone b hb]
  unfold lastPublisher
  rw [filter_append, hfilter, append_nil]

variable {b : ι × Access × Answer}

theorem lastPublisher_snoc (hb : publishes b = true) : lastPublisher (trace ++ [b]) = some b.1 := by
  unfold lastPublisher
  rw [filter_append, filter_cons_of_pos hb, filter_nil, getLast?_concat]
  rfl

theorem lastPublisher_of_append {after : List (ι × Access × Answer)}
    (h : lastPublisher (trace ++ after) = some t) (hother : ∀ b ∈ after, b.1 ≠ t) :
    lastPublisher trace = some t ∧ ∀ b ∈ after, publishes b = false := by
  have hnone : after.filter publishes = [] := by
    by_contra hne
    unfold lastPublisher at h
    rw [filter_append, getLast?_append_of_ne_nil _ hne, map_eq_some_iff] at h
    obtain ⟨b, hb, hbt⟩ := h
    exact hother b (mem_of_mem_filter (mem_of_getLast? hb)) hbt
  have hafter : ∀ b ∈ after, publishes b = false := fun b hb => by
    simpa using filter_eq_nil_iff.1 hnone b hb
  rw [lastPublisher_append hafter] at h
  exact ⟨h, hafter⟩

theorem lastPublisher_of_silent (h : Rely.Silent t w) : lastPublisher w.2 ≠ some t := by
  intro hlast
  obtain ⟨b, hb, hbt⟩ := map_eq_some_iff.1 hlast
  exact h b (mem_of_mem_filter (mem_of_getLast? hb)) hbt

theorem Evolves.lastPublisher (h : Evolves t w w') (hlast : lastPublisher w'.2 = some t) :
    lastPublisher w.2 = some t ∧ published w'.1.log = published w.1.log ∧
      (Behind w'.1.log → Behind w.1.log) := by
  obtain ⟨after, hw', hother, _, hlog⟩ := h.trace
  rw [hw'] at hlast
  obtain ⟨hlast, hnone⟩ := lastPublisher_of_append hlast hother
  exact ⟨hlast, hlog hnone⟩

/-! ## Accesses -/

variable {host : Host}

theorem evolves_of_eq {s : Issuer} (hb : b.1 ≠ u) (hpub : publishes b = false)
    (hrecord : s.record = w.1.record) (hlog : s.log = w.1.log) :
    Evolves u w (s, w.2 ++ [b]) where
  trace := ⟨[b], rfl, fun b' hb' => by rw [mem_singleton.1 hb']; exact hb, fun _ => hrecord,
    fun _ => ⟨by rw [hlog], fun hbehind => by rw [← hlog]; exact hbehind⟩⟩
  held hlast _ := ⟨hlog, by
    rw [lastPublisher_append fun b' hb' => by rw [mem_singleton.1 hb']; exact hpub]
    exact hlast⟩

variable {e : Answer}

theorem kept_of_eq {s : Issuer} {label : Access} (hinv : RootsInv host w) (hledger : Ledger host s)
    (hpub : publishes (t, label, e) = false) (hrecord : s.record = w.1.record)
    (hlog : s.log = w.1.log) : (rootsRely ι host).Kept t w (s, w.2 ++ [(t, label, e)]) := by
  refine ⟨⟨hledger, fun hbehind => ?_⟩, fun _ hu => evolves_of_eq hu.symm hpub hrecord hlog⟩
  rw [lastPublisher_append fun b hb => by rw [mem_singleton.1 hb]; exact hpub]
  exact hinv.publisher (by rw [← hlog]; exact hbehind)

theorem kept_publish {args : BatchUpdate} (hledger : Ledger host (w.1.publish args))
    (hcurrent : ¬ Behind w.1.log) (he : e.applies = true) :
    (rootsRely ι host).Kept t w (w.1.publish args, w.2 ++ [(t, .batchUpdate args, e)]) := by
  refine ⟨⟨hledger, fun _ => ⟨t, lastPublisher_snoc he⟩⟩, fun u hu => ⟨⟨[(t, .batchUpdate args, e)],
    rfl, fun b hb => ?_, fun hnone => ?_, fun hnone => ?_⟩,
      fun _ hbehind => absurd hbehind hcurrent⟩⟩
  · rw [mem_singleton.1 hb]
    exact hu.symm
  · exact absurd (hnone _ (mem_singleton_self _)) (by simp [touches, he])
  · exact absurd (hnone _ (mem_singleton_self _)) (by simp [publishes, he])

variable {next : List ActiveLeaf}

theorem kept_write {label : Access} (hledger : Ledger host w.1)
    (hnext : activeAfter (published w.1.log) = next) (htouches : touches (t, label, e) = true)
    (hlast : lastPublisher w.2 = some t) :
    (rootsRely ι host).Kept t w (w.1.write (.fromActive next), w.2 ++ [(t, label, e)]) := by
  refine ⟨⟨hledger.write hnext, fun hbehind => absurd hbehind (not_behind_write _)⟩,
    fun u hu => ⟨⟨[(t, label, e)], rfl, fun b hb => ?_, fun hnone => ?_,
      fun _ => ⟨published_write _, fun hbehind => absurd hbehind (not_behind_write _)⟩⟩,
    fun hlast' _ => ?_⟩⟩
  · rw [mem_singleton.1 hb]
    exact hu.symm
  · rw [hnone _ (mem_singleton_self _)] at htouches
    cases htouches
  · rw [hlast] at hlast'
    exact absurd (some.inj hlast') hu.symm

/-! ## Calls -/

/-- When a call has ended, the checkpoint is not behind on its account. -/
def EndsWell (t : ι) (_ : Except Stop ZkReply) (w : World ι Issuer Answer Access) : Prop :=
  lastPublisher w.2 = some t → ¬ Behind w.1.log

theorem endsWell_evolves {r : Except Stop ZkReply} (h : EndsWell t r w) (hw : Evolves t w w') :
    EndsWell t r w' := by
  intro hlast hbehind
  obtain ⟨hlast, _, himp⟩ := hw.lastPublisher hlast
  exact h hlast (himp hbehind)

theorem safe_done {reply : ZkReply} (h : EndsWell t (.ok reply) w) :
    (rootsRely ι host).Safe t (EndsWell t) (.done reply) w :=
  fun _ hw _ => endsWell_evolves h hw

theorem safe_fail {stop : Stop} (h : EndsWell t (.error stop) w) :
    (rootsRely ι host).Safe t (EndsWell t) (.fail stop) w :=
  fun _ hw _ => endsWell_evolves h hw

theorem safe_saveRecord {reply : ZkReply}
    (hnext : lastPublisher w.2 = some t → activeAfter (published w.1.log) = next) :
    (rootsRely ι host).Safe t (EndsWell t)
      (saveRecord (.fromActive next) >>= fun _ => .done reply) w := by
  intro w' e hw hinv hguard
  obtain ⟨happlies, honly⟩ := hguard
  have hpub : publishes (t, save (.fromActive next), e) = false := rfl
  have hstate : ∀ s, (save (.fromActive next)).effect e w'.1 = s →
      (rootsRely ι host).Kept t w' (s, w'.2 ++ [(t, .save (.fromActive next), e)]) ∧
        ∀ r, EndsWell t r (s, w'.2 ++ [(t, .save (.fromActive next), e)]) := by
    rintro s rfl
    by_cases he : e.applies = true
    · have hlast := honly he
      obtain ⟨hlast₀, hpublished, _⟩ := hw.lastPublisher hlast
      have heffect : (save (.fromActive next)).effect e w'.1 =
          w'.1.write (.fromActive next) := if_pos he
      rw [heffect]
      exact ⟨kept_write hinv.ledger (by rw [hpublished]; exact hnext hlast₀) rfl hlast,
        fun r _ => not_behind_write _⟩
    · have heffect : (save (.fromActive next)).effect e w'.1 = w'.1 := if_neg he
      rw [heffect]
      refine ⟨kept_of_eq hinv hinv.ledger hpub rfl rfl, fun r hlast hbehind => he
        (happlies ?_ hbehind)⟩
      rw [lastPublisher_append fun b hb => by rw [mem_singleton.1 hb]; exact hpub] at hlast
      exact hlast
  obtain ⟨hkept, hends⟩ := hstate _ rfl
  refine ⟨hkept, ?_⟩
  cases e with
  | done _ => exact safe_done (hends _)
  | failed _ | lost _ | crashed _ => exact safe_fail (hends _)

theorem safe_saveActive {reply : ZkReply} (hlast : lastPublisher w.2 = some t)
    (hbehind : Behind w.1.log) (hnext : activeAfter (published w.1.log) = next) :
    (rootsRely ι host).Safe t (EndsWell t) (saveActive next >>= fun _ => .done reply) w := by
  intro w' e hw hinv hguard
  obtain ⟨hlog, hlast'⟩ := hw.held hlast hbehind
  have hnext' : activeAfter (published w'.1.log) = next := by
    rw [hlog]
    exact hnext
  have hpub : publishes (t, update (.fromActive next), e) = false := rfl
  by_cases hwrites : e.applies = true ∧ w'.1.record.isSome
  · have heffect : (update (.fromActive next)).effect e w'.1 =
        w'.1.write (.fromActive next) := if_pos hwrites
    show (rootsRely ι host).Kept t w' ((update (.fromActive next)).effect e w'.1, _) ∧ _
    rw [heffect]
    refine ⟨kept_write hinv.ledger hnext' rfl hlast', ?_⟩
    have hsave : (rootsRely ι host).Safe t (EndsWell t)
        (saveRecord (.fromActive next) >>= fun _ => .done reply)
        (w'.1.write (.fromActive next), w'.2 ++ [(t, .update (.fromActive next), e)]) :=
      safe_saveRecord fun _ => by rw [published_write]; exact hnext'
    cases e with
    | failed _ | lost _ => exact hsave
    | crashed _ => exact safe_fail fun _ => not_behind_write _
    | done _ =>
      simp only [if_pos hwrites.2]
      exact safe_done fun _ => not_behind_write _
  · have heffect : (update (.fromActive next)).effect e w'.1 = w'.1 := if_neg hwrites
    show (rootsRely ι host).Kept t w' ((update (.fromActive next)).effect e w'.1, _) ∧ _
    rw [heffect]
    refine ⟨kept_of_eq hinv hinv.ledger hpub rfl rfl, ?_⟩
    have hsave : (rootsRely ι host).Safe t (EndsWell t)
        (saveRecord (.fromActive next) >>= fun _ => .done reply)
        (w'.1, w'.2 ++ [(t, .update (.fromActive next), e)]) :=
      safe_saveRecord fun _ => hnext'
    cases e with
    | failed _ | lost _ => exact hsave
    | crashed applied =>
      obtain ⟨rfl, hrecord⟩ := hguard applied rfl
      exact absurd ⟨rfl, hrecord⟩ hwrites
    | done _ =>
      have hrecord : ¬ w'.1.record.isSome := fun hrecord => hwrites ⟨rfl, hrecord⟩
      simp only [if_neg hrecord]
      exact hsave

/-- The call has loaded `active`, and the checkpoint still has these leaves unless somebody has
published or written since. -/
def Loaded (host : Host) (t : ι) (active : List ActiveLeaf) (w : World ι Issuer Answer Access) :
    Prop :=
  ∃ before e after, w.2 = before ++ (t, .find, e) :: after ∧
    ((∀ b ∈ after, touches b = false) → w.1.leaves host = active)

theorem leaves_congr {s s' : Issuer} (h : s.record = s'.record) : s.leaves host =
    s'.leaves host := by
  unfold leaves
  rw [h]

variable {active : List ActiveLeaf}

theorem Loaded.evolves (h : Loaded host t active w) (hw : Evolves u w w') :
    Loaded host t active w' := by
  obtain ⟨before, e, after, htrace, hleaves⟩ := h
  obtain ⟨after', hw', _, hrecord, _⟩ := hw.trace
  refine ⟨before, e, after ++ after', by rw [hw', htrace]; simp, fun hnone => ?_⟩
  rw [leaves_congr (hrecord fun b hb => hnone b (mem_append_right _ hb))]
  exact hleaves fun b hb => hnone b (mem_append_left _ hb)

theorem Loaded.snoc (h : Loaded host t active w) {s : Issuer} (hrecord : s.record = w.1.record) :
    Loaded host t active (s, w.2 ++ [b]) := by
  obtain ⟨before, e, after, htrace, hleaves⟩ := h
  refine ⟨before, e, after ++ [b], by rw [htrace]; simp, fun hnone => ?_⟩
  rw [leaves_congr hrecord]
  exact hleaves fun b hb => hnone b (mem_append_left _ hb)

theorem Loaded.leaves (h : Loaded host t active w) (hundisturbed : Undisturbed t w.2) :
    w.1.leaves host = active := by
  obtain ⟨before, e, after, htrace, hleaves⟩ := h
  exact hleaves (hundisturbed before e after htrace)

theorem safe_commit {u : BatchUpdate} {reply : String → ZkReply} (hloaded : Loaded host t active w)
    (hnot : lastPublisher w.2 ≠ some t) (hfollows : Follows host active u next) :
    (rootsRely ι host).Safe t (EndsWell t) (commit u next reply) w := by
  intro w' e hw hinv hguard
  have hnot' : lastPublisher w'.2 ≠ some t := fun hlast => hnot (hw.lastPublisher hlast).1
  by_cases he : e.applies = true
  · obtain ⟨⟨tx, rfl⟩, hcurrent, hundisturbed, hnew⟩ := hguard he
    have hleaves : activeAfter (published w'.1.log) = active :=
      (hinv.ledger.current hcurrent).symm.trans ((hloaded.evolves hw).leaves hundisturbed)
    rw [← hleaves] at hfollows
    refine ⟨kept_publish (hinv.ledger.publish hfollows hnew) hcurrent rfl, ?_⟩
    refine safe_saveActive (lastPublisher_snoc rfl) behind_publish ?_
    show activeAfter (published (w'.1.publish u).log) = next
    rw [published_publish, activeAfter_snoc]
    exact hfollows.next_eq.symm
  · have heffect : (Access.batchUpdate u).effect e w'.1 = w'.1 := if_neg he
    have hpub : publishes (t, Access.batchUpdate u, e) = false := by
      simpa [publishes] using he
    show (rootsRely ι host).Kept t w' ((Access.batchUpdate u).effect e w'.1, _) ∧ _
    rw [heffect]
    refine ⟨kept_of_eq hinv hinv.ledger hpub rfl rfl, ?_⟩
    have hends : ∀ r, EndsWell t r (w'.1, w'.2 ++ [(t, Access.batchUpdate u, e)]) := by
      intro r hlast
      rw [lastPublisher_append fun b hb => by rw [mem_singleton.1 hb]; exact hpub] at hlast
      exact absurd hlast hnot'
    cases e with
    | done _ => exact absurd rfl he
    | failed _ | lost _ | crashed _ => exact safe_fail (hends _)

theorem Rest.safe {op : ZkOp} {p : ZkProg ZkReply} (hp : Rest host op active p)
    (hloaded : Loaded host t active w) (hnot : lastPublisher w.2 ≠ some t) :
    (rootsRely ι host).Safe t (EndsWell t) p w := by
  induction hp generalizing w with
  | fail e => exact safe_fail fun hlast => absurd hlast hnot
  | present credId domainAttrs _ => exact safe_done fun hlast => absurd hlast hnot
  | commit u next reply hfollows _ _ => exact safe_commit hloaded hnot hfollows
  | init rootKeccak rootPoseidon p hkeccak hposeidon _ ih =>
    intro w' e hw hinv _
    have hnot' : lastPublisher w'.2 ≠ some t := fun hlast => hnot (hw.lastPublisher hlast).1
    have hsame : ((Access.initMerkleState rootKeccak rootPoseidon).effect e w'.1).record =
        w'.1.record ∧
        ((Access.initMerkleState rootKeccak rootPoseidon).effect e w'.1).log = w'.1.log := by
      show record (ite _ _ _) = _ ∧ log (ite _ _ _) = _
      split <;> exact ⟨rfl, rfl⟩
    have hpub : publishes (t, Access.initMerkleState rootKeccak rootPoseidon, e) = false := rfl
    refine ⟨kept_of_eq hinv (hinv.ledger.init hkeccak hposeidon e) hpub hsame.1 hsame.2, ?_⟩
    have hnot'' : lastPublisher (w'.2 ++
        [(t, Access.initMerkleState rootKeccak rootPoseidon, e)]) ≠ some t := by
      rw [lastPublisher_append fun b hb => by rw [mem_singleton.1 hb]; exact hpub]
      exact hnot'
    have hnext := ih ((hloaded.evolves hw).snoc hsame.1) hnot''
    cases e with
    | done _ | failed _ | lost _ => exact hnext
    | crashed _ => exact safe_fail fun hlast => absurd hlast hnot''

theorem safe_perform (credDefId : Bytes32) (op : ZkOp) (hsilent : Rely.Silent t w) :
    (rootsRely ι host).Safe t (EndsWell t) (perform host credDefId op) w := by
  have hnot : lastPublisher w.2 ≠ some t := lastPublisher_of_silent hsilent
  obtain ⟨e, he⟩ | ⟨rest, hrest, hcases⟩ := @perform_cases host credDefId op
  · rw [he]
    exact safe_fail fun hlast => absurd hlast hnot
  · rw [hrest]
    intro w' e hw hinv _
    have hpub : publishes (t, find, e) = false := rfl
    have hnot' : lastPublisher (w'.2 ++ [(t, find, e)]) ≠ some t := by
      rw [lastPublisher_append fun b hb => by rw [mem_singleton.1 hb]; exact hpub]
      exact fun hlast => hnot (hw.lastPublisher hlast).1
    refine ⟨kept_of_eq hinv hinv.ledger hpub rfl rfl, ?_⟩
    cases e with
    | done value =>
      exact (hcases _ hinv.ledger.loaded_nodup).safe ⟨w'.2, .done value, [], rfl, fun _ => rfl⟩
        hnot'
    | failed _ | lost _ | crashed _ => exact safe_fail fun hlast => absurd hlast hnot'

/-! ## Runs -/

variable [DecidableEq ι]

/-- The calls run at once. -/
def concurrent (host : Host) (credDefId : Bytes32) (ops : ι → ZkOp)
    (x : Tasks ι Issuer Answer Access Stop ZkReply) (a : TaskStep ι Answer) :
    Option (Tasks ι Issuer Answer Access Stop ZkReply) :=
  step (fun t => perform host credDefId (ops t)) x a

/-- The condition of a step. -/
def Careful (x : Tasks ι Issuer Answer Access Stop ZkReply) : TaskStep ι Answer → Prop
  | .start _ => True
  | .go t e => ∀ p ∈ x.tasks t, ∀ label ∈ p.label, CarefulAccess (x.shared, x.trace) t label e

/-- No call is in progress. -/
def Quiet (x : Tasks ι Issuer Answer Access Stop ZkReply) : Prop :=
  ∀ t, ∀ p ∈ x.tasks t, p.label = none

omit [DecidableEq ι] in
theorem not_behind_of_quiet {x : Tasks ι Issuer Answer Access Stop ZkReply}
    (hsound : (rootsRely ι host).Sound EndsWell x) (hquiet : Quiet x) : ¬ Behind x.shared.log := by
  intro hbehind
  obtain ⟨t, hlast⟩ := hsound.inv.publisher hbehind
  cases ht : x.tasks t with
  | none => exact lastPublisher_of_silent (hsound.silent t ht) hlast
  | some p =>
    have hsafe := hsound.safe t p ht
    cases p with
    | done reply | fail stop => exact hsafe _ (refl t _) hsound.inv hlast hbehind
    | access label effect next => cases hquiet t _ ht

end

/-! ## Two runs -/

section

variable {host : Host} {credDefId : Bytes32} {rest : List ActiveLeaf → ZkProg ZkReply}
  {rootKeccak rootPoseidon : Bytes32} {u : BatchUpdate} {next : List ActiveLeaf}
  {reply : String → ZkReply} {again : ZkReply}

theorem concurrent_eq {ι : Type} [DecidableEq ι] {op : ZkOp}
    (h : perform host credDefId op = loadActive host >>= rest) :
    concurrent host credDefId (fun _ : ι => op) = step fun _ => loadActive host >>= rest :=
  congrArg step (funext fun _ => h)

/-- One call, whose record is missing at first, and then another. -/
def inTurn : List (TaskStep Bool Answer) :=
  .start false :: replicate 5 (.go false (.done "")) ++ [.start true, .go true (.done "")]

theorem exec_inTurn (hagain : rest next = .done again)
    (hrest : rest [] = initMerkleState rootKeccak rootPoseidon >>= fun _ => commit u next reply) :
    ∃ x, exec (step fun _ : Bool => loadActive host >>= rest) (fresh .fresh) inTurn = some x ∧
      Along (step fun _ : Bool => loadActive host >>= rest) Careful (fresh .fresh) inTurn ∧
      Quiet x ∧ x.shared.issuedCount = 0 + u.addedKeccak.length := by
  have hfind : step (fun _ : Bool => loadActive host >>= rest)
      ⟨.fresh, Function.update (fun _ => none) false (some (loadActive host >>= rest)), []⟩
      (.go false (.done "")) = some ⟨.fresh, Function.update (Function.update (fun _ => none) false
        (some (loadActive host >>= rest))) false (some (initMerkleState rootKeccak rootPoseidon >>=
          fun _ => commit u next reply)), [(false, .find, .done "")]⟩ := by
    rw [← hrest]
    rfl
  refine ⟨_, exec_cons_eq_some.2 ⟨_, rfl, exec_cons_eq_some.2 ⟨_, hfind, rfl⟩⟩,
    along_cons trivial rfl (along_cons ?_ hfind (along_cons ?_ rfl (along_cons ?_ rfl
      (along_cons ?_ rfl (along_cons ?_ rfl (along_cons trivial rfl (along_cons ?_ rfl
        trivial))))))), ?_, rfl⟩
  iterate 2
    intro p hp label hlabel
    cases hp
    cases hlabel
    trivial
  · intro p hp label hlabel
    cases hp
    cases hlabel
    refine fun _ => ⟨⟨"", rfl⟩, fun ⟨v, hv⟩ => (by cases hv), fun before e after htrace b hb => ?_,
      fun k _ => not_mem_nil⟩
    have hmem : b ∈ before ++ (false, find, e) :: after :=
      mem_append_right _ (mem_cons_of_mem _ hb)
    rw [← htrace] at hmem
    rcases mem_append.1 hmem with hmem | hmem
    · rw [mem_singleton.1 hmem]
      rfl
    · rw [mem_singleton.1 hmem]
      rfl
  · intro p hp label hlabel
    cases hp
    cases hlabel
    intro applied happlied
    cases happlied
  · intro p hp label hlabel
    cases hp
    cases hlabel
    exact ⟨fun _ _ => rfl, fun _ => rfl⟩
  · intro p hp label hlabel
    cases hp
    cases hlabel
    trivial
  · rintro (_ | _) p hp
    · cases hp
      rfl
    · cases hp
      show (rest (Issuer.leaves host _)).label = none
      rw [leaves_of_record rfl, hagain]
      rfl

/-- Two calls load the checkpoint, then both publish, and then both write it. -/
def overlapping : List (TaskStep Bool Answer) :=
  [.start false, .start true, .go false (.done ""), .go true (.done "")] ++
    [.go false (.done ""), .go true (.done ""), .go false (.done ""), .go true (.done ""),
      .go false (.done ""), .go false (.done ""), .go true (.done "")]

theorem exec_overlapping
    (hrest : rest [] = initMerkleState rootKeccak rootPoseidon >>= fun _ => commit u next reply) :
    ∃ x, exec (step fun _ : Bool => loadActive host >>= rest) (fresh .fresh) overlapping = some x ∧
      Quiet x ∧ published x.shared.log = [u, u] ∧
        x.shared.issuedCount = 0 + u.addedKeccak.length + u.addedKeccak.length := by
  obtain ⟨trace, hload⟩ : ∃ trace, exec (step fun _ : Bool => loadActive host >>= rest)
      (fresh .fresh) [.start false, .start true, .go false (.done ""), .go true (.done "")] =
        some ⟨.fresh, fun _ => some (rest []), trace⟩ := by
    refine ⟨[(false, .find, .done ""), (true, .find, .done "")], ?_⟩
    refine congrArg (fun tasks => some (mk Issuer.fresh tasks _)) ?_
    funext t
    cases t <;> rfl
  rw [hrest] at hload
  obtain ⟨x, hx, hquiet⟩ : ∃ x, exec (step fun _ : Bool => loadActive host >>= rest)
      ⟨.fresh, fun _ => some (initMerkleState rootKeccak rootPoseidon >>= fun _ =>
        commit u next reply), trace⟩
      [.go false (.done ""), .go true (.done ""), .go false (.done ""), .go true (.done ""),
        .go false (.done ""), .go false (.done ""), .go true (.done "")] = some x ∧
      Quiet x ∧ published x.shared.log = [u, u] ∧
        x.shared.issuedCount = 0 + u.addedKeccak.length + u.addedKeccak.length := by
    refine ⟨_, rfl, fun t p hp => ?_, rfl, rfl⟩
    cases t <;> cases hp <;> rfl
  exact ⟨x, exec_append_eq_some.2 ⟨_, hload, hx⟩, hquiet⟩

end

section

variable {ι : Type} [DecidableEq ι]

/-- **Published roots match the active set** in every careful run of concurrent calls, whenever no
call is in progress: the roots on chain are those of the checkpointed leaves, these are the leaves
that were added and not revoked, and the counts on chain are the numbers of distinct leaves added
and revoked. -/
theorem roots_match (host : Host) (credDefId : Bytes32) (ops : ι → ZkOp)
    (l : List (TaskStep ι Answer)) (x : Tasks ι Issuer Answer Access Stop ZkReply)
    (hcareful : Along (concurrent host credDefId ops) Careful (fresh .fresh) l)
    (h : exec (concurrent host credDefId ops) (fresh .fresh) l = some x)
    (hquiet : Quiet x) : Matches host x.shared := by
  have hstart : RootsInv host ((fresh, []) : World ι Issuer Answer Access) := by
    refine ⟨ledger_fresh, fun hbehind => ?_⟩
    obtain ⟨u, hu⟩ := hbehind
    cases hu
  have hsound : (rootsRely ι host).Sound EndsWell x :=
    @Rely.sound_of_exec _ _ _ _ _ _ _ _ _ (fun t => perform host credDefId (ops t)) _ _ _
      (fun x a y hstep => hstep) (fun t w _ hsilent => safe_perform credDefId (ops t) hsilent)
      _ (Rely.sound_fresh hstart) (hcareful.imp fun x a hcareful => by
        cases a with
        | start t => trivial
        | go t e => exact hcareful) h
  exact hsound.inv.ledger.matches (not_behind_of_quiet hsound hquiet)

/-- The issuance of a credential is notified twice, one notification after the other. -/
theorem roots_match_inTurn : ∃ x,
    exec (concurrent hostZero zero32 fun _ => .addIssued credZero []) (fresh .fresh) inTurn =
      some x ∧
      x.shared.issuedCount = 1 ∧ Matches hostZero x.shared := by
  obtain ⟨p, rk, rp, k, r, rest, hperform, hagain, hrest⟩ :=
    perform_addIssued_first zero32 hostZero (deriveLeafHex_credZero hostZero)
  obtain ⟨x, hx, hcareful, hquiet, hcount⟩ := @exec_inTurn hostZero _ _ _ _ _ _ _ hagain hrest
  rw [← concurrent_eq hperform] at hx hcareful
  exact ⟨x, hx, hcount, roots_match hostZero zero32 _ inTurn x hcareful hx hquiet⟩

/-- **A credential is counted twice**: its issuance is notified twice at once. -/
theorem roots_match_fails : ¬ ∃ host credDefId, ∀ (ops : Bool → ZkOp) l x,
    exec (concurrent host credDefId ops) (fresh .fresh) l = some x → Quiet x →
      Matches host x.shared := by
  rintro ⟨host, credDefId, h⟩
  obtain ⟨p, rk, rp, k, r, rest, hperform, -, hrest⟩ :=
    perform_addIssued_first credDefId host (deriveLeafHex_credZero host)
  obtain ⟨x, hx, hquiet, hpublished, hcount⟩ := @exec_overlapping host _ _ _ _ _ _ hrest
  rw [← concurrent_eq hperform] at hx
  have hmatch := h (fun _ => .addIssued credZero []) overlapping x hx hquiet
  have hissued := hmatch.issued
  rw [hcount, hpublished] at hissued
  simp [addedLeaves, added, keccaks] at hissued

end

end Idiom.Kanon
