import Idiom.Ecash.Transfer
import Mathlib.Algebra.GroupWithZero.Nat

/-!
# What a batch commit says

A commit names its batch by thirty-two bytes and promises an amount, the sum of its notes. The
handler takes a value that it cannot read as zero, and an integer above 255 as its last byte.
-/

namespace Idiom.Ecash

open Ajna (Json)
open List

/-! ## Stating it -/

def listField (val : Json) (field : String) : Option (List Json) :=
  (val.get field).bind Json.asArray

def amountField (val : Json) (field : String) : Option UInt64 := (val.get field).bind Json.asU64

/-- An amount, as the handler reads it. -/
def amountOrZero (val : Json) (field : String) : ℕ := ((amountField val field).getD 0).toNat

/-- The value is an integer in 0..255. -/
def IsByte (v : Json) : Prop := ∃ n, v.asU64 = some n ∧ n.toNat ≤ 255

/-- The commit as it should be. -/
structure Exact (commit : Json) : Prop where
  batchId : ∃ items, listField commit "batch_id" = some items ∧ items.length = 32 ∧
    ∀ v ∈ items, IsByte v
  total : ∃ total notes, ∃ amounts : List UInt64, amountField commit "total_amount" = some total ∧
    listField commit "notes" = some notes ∧
    notes.map (amountField · "amount") = amounts.map some ∧
    total.toNat = (amounts.map UInt64.toNat).sum

section

variable (handler : BatchTransferHandler) (inbound : InboundMessage)

structure Carries (commit : Json) : Prop where
  msgType : inbound.msgType = piuriBatchCommit
  text : ∃ text, (inbound.body.get "commit").bind Json.asStr = some text ∧
    handler.codec.parseJson text = .ok commit

/-- The handler returns without an error, and there is a new pending entry. -/
def AcceptsCommit (key : Bytes 32) : Prop :=
  ∃ s reply t, (handle handler inbound).Ends (fun _ => True) s (.ok reply) t ∧
    s.pending.lookup key = none ∧ (t.pending.lookup key).isSome

end

structure CommitsExact (handler : BatchTransferHandler) (inbound inbound' : InboundMessage) :
    Prop where
  exact : ∀ message ∈ [inbound, inbound'], ∀ commit key,
    Carries handler message commit → AcceptsCommit handler message key → Exact commit
  apart : ∀ commit commit' key key', Carries handler inbound commit →
    Carries handler inbound' commit' → AcceptsCommit handler inbound key →
    AcceptsCommit handler inbound' key' →
    commit.get "batch_id" ≠ commit'.get "batch_id" → key ≠ key'

/-- What the handler checks: the number of bytes, and the sum if there are notes. -/
structure Fits (commit : Json) : Prop where
  batchId : ∃ items, listField commit "batch_id" = some items ∧ items.length = 32
  sum : ∀ notes, listField commit "notes" = some notes →
    (notes.map (amountOrZero · "amount")).sum = amountOrZero commit "total_amount"

/-- No value is missing or of another type, and no byte is above 255. -/
structure Plain (commit : Json) : Prop where
  bytes : ∀ items, listField commit "batch_id" = some items → ∀ v ∈ items, IsByte v
  total : (amountField commit "total_amount").isSome
  notes : (listField commit "notes").isSome
  amounts : ∀ notes, listField commit "notes" = some notes →
    ∀ note ∈ notes, (amountField note "amount").isSome

/-- The commits of the message that pass the checks are plain. -/
def ReadPlainly (handler : BatchTransferHandler) (inbound : InboundMessage) : Prop :=
  handler.seProvider = true → ∀ commit, Carries handler inbound commit → Fits commit → Plain commit

/-! ## The checks -/

/-- A byte, as the handler reads it. -/
def byteOrZero (v : Json) : UInt8 := (v.asU64.getD 0).toUInt8

theorem parse32FromJson_ok_iff {val : Json} {field : String} {key : Bytes 32} :
    parse32FromJson val field = .ok key ↔
      ∃ items, listField val field = some items ∧ items.length = 32 ∧
        key.1 = items.map byteOrZero := by
  unfold parse32FromJson listField
  cases (val.get field).bind Json.asArray with
  | none => simp
  | some items =>
    dsimp only
    split
    · next hlength =>
      constructor
      · intro h
        exact ⟨items, rfl, hlength, congrArg Subtype.val (Except.ok.inj h).symm⟩
      · rintro ⟨_, ⟨⟩, _, hkey⟩
        exact congrArg Except.ok (Subtype.ext hkey.symm)
    · next hlength =>
      refine iff_of_false (fun h => nomatch h) ?_
      rintro ⟨_, ⟨⟩, h, _⟩
      exact hlength h

theorem foldl_amount (notes : List Json) (start : ℕ) :
    notes.foldl (fun sum n => sum + (((n.get "amount").bind Json.asU64).getD 0).toNat) start =
      start + (notes.map (amountOrZero · "amount")).sum := by
  induction notes generalizing start with
  | nil => rfl
  | cons note notes ih =>
    rw [foldl_cons, ih, Nat.add_assoc]
    rfl

theorem checkTotal_ok_iff {commit : Json} :
    checkTotal commit = .ok () ↔ ∀ notes, listField commit "notes" = some notes →
      (notes.map (amountOrZero · "amount")).sum = amountOrZero commit "total_amount" := by
  unfold checkTotal listField
  cases (commit.get "notes").bind Json.asArray with
  | none => simp
  | some notes =>
    dsimp only
    rw [foldl_amount, Nat.zero_add]
    split
    · next hne => exact iff_of_false (fun h => nomatch h) fun h => hne (h notes rfl)
    · next heq =>
      refine iff_of_true rfl ?_
      rintro _ ⟨⟩
      exact not_not.1 heq

theorem readCommit_ok_iff {handler : BatchTransferHandler} {inbound : InboundMessage}
    {commit : Json} {key : Bytes 32} (h : Carries handler inbound commit) :
    (∃ text, readCommit handler.codec inbound.body = .ok (text, key)) ↔
      parse32FromJson commit "batch_id" = .ok key ∧ checkTotal commit = .ok () := by
  obtain ⟨-, text, htext, hcommit⟩ := h
  unfold readCommit requireStr parseBody
  rw [htext]
  simp only [hcommit, Except.mapError, bind, Except.bind, pure, Except.pure]
  cases parse32FromJson commit "batch_id" with
  | error e => simp
  | ok batchId =>
    cases checkTotal commit with
    | error e => simp
    | ok _ => simp [Prod.ext_iff]

/-! ## Accepting -/

section

variable {handler : BatchTransferHandler} {inbound : InboundMessage} {s t : Maps}

theorem ends_acknowledgeCommit (batchId : Bytes 32) (pk : Bytes 33) (s : Maps) :
    ∃ reply, (acknowledgeCommit handler inbound batchId pk).Ends (fun _ => True) s
      (.ok reply) s := by
  unfold acknowledgeCommit perform
  by_cases hsigner : handler.didSigner = true
  · simp only [if_pos hsigner, Prog.ends_access, Prog.ends_done]
    exact ⟨_, inputZero, trivial, inputZero, trivial, rfl, rfl⟩
  · simp only [if_neg hsigner, Prog.ends_access, Prog.ends_done]
    exact ⟨_, inputZero, trivial, rfl, rfl⟩

theorem pending_of_acknowledgeCommit {batchId : Bytes 32} {pk : Bytes 33}
    {reply : Except MessageHandlerError (Option OutboundMessage)}
    (h : (acknowledgeCommit handler inbound batchId pk).Ends (fun _ => True) s reply t) :
    t = s := by
  unfold acknowledgeCommit perform at h
  rw [Prog.ends_access] at h
  obtain ⟨clock, -, h⟩ := h
  split at h
  · rw [Prog.ends_access] at h
    obtain ⟨e, -, h⟩ := h
    exact (Prog.ends_done.1 h).2
  · exact (Prog.ends_done.1 h).2

theorem pending_of_handleBatchCommit {reply : Option OutboundMessage}
    (h : (handleBatchCommit handler inbound).Ends (fun _ => True) s (.ok reply) t) :
    handler.seProvider = true ∧ ∃ text batchId entry,
      readCommit handler.codec inbound.body = .ok (text, batchId) ∧
        t.pending = s.pending.insert batchId entry := by
  unfold handleBatchCommit at h
  split at h
  · exact nomatch (Prog.ends_fail.1 h).1
  · next text batchId hread =>
    split at h
    · next hse =>
      unfold perform at h
      rw [Prog.ends_access] at h
      obtain ⟨e, -, h⟩ := h
      cases hkey : e.key with
      | error reason =>
        rw [hkey] at h
        exact nomatch (Prog.ends_fail.1 h).1
      | ok pk =>
        rw [hkey] at h
        unfold acceptKey acceptCommit perform at h
        rw [Prog.ends_access] at h
        obtain ⟨e', -, h⟩ := h
        refine ⟨hse, text, batchId, .commitReceived ⟨text, rxSeLabel handler batchId, pk⟩ e'.now,
          hread, ?_⟩
        rw [pending_of_acknowledgeCommit h]
        rfl
    · exact nomatch (Prog.ends_fail.1 h).1

theorem ends_handleBatchCommit {text : String} {batchId : Bytes 32}
    (hse : handler.seProvider = true)
    (hread : readCommit handler.codec inbound.body = .ok (text, batchId)) (s : Maps) :
    ∃ reply t entry, (handleBatchCommit handler inbound).Ends (fun _ => True) s (.ok reply) t ∧
      t.pending = s.pending.insert batchId entry := by
  let commit : ReceivedCommit := ⟨text, rxSeLabel handler batchId, keyZero⟩
  let stored := (Access.storeCommit batchId commit).effect inputZero s
  obtain ⟨reply, hreply⟩ : ∃ reply, (acknowledgeCommit handler inbound batchId keyZero).Ends
      (fun _ => True) stored (.ok reply) stored := ends_acknowledgeCommit batchId keyZero stored
  refine ⟨reply, stored, .commitReceived commit inputZero.now, ?_, rfl⟩
  unfold handleBatchCommit
  rw [hread]
  dsimp only
  rw [if_pos hse]
  refine Prog.ends_access.2 ⟨inputZero, trivial, ?_⟩
  exact Prog.ends_access.2 ⟨inputZero, trivial, hreply⟩

/-- **A commit is accepted if there is a key store and the commit passes the checks.** -/
theorem acceptsCommit_iff {commit : Json} {key : Bytes 32} (h : Carries handler inbound commit) :
    AcceptsCommit handler inbound key ↔ handler.seProvider = true ∧
      parse32FromJson commit "batch_id" = .ok key ∧ checkTotal commit = .ok () := by
  have hhandle : handle handler inbound = handleBatchCommit handler inbound := if_pos h.msgType
  unfold AcceptsCommit
  rw [hhandle, ← readCommit_ok_iff h]
  constructor
  · rintro ⟨s, reply, t, hends, hnone, hsome⟩
    obtain ⟨hse, text, batchId, entry, hread, hpending⟩ := pending_of_handleBatchCommit hends
    rw [hpending, FMap.lookup_insert_ite] at hsome
    split at hsome
    · next heq => exact ⟨hse, text, heq ▸ hread⟩
    · rw [hnone] at hsome
      exact nomatch hsome
  · rintro ⟨hse, text, hread⟩
    obtain ⟨reply, t, entry, hends, hpending⟩ := ends_handleBatchCommit hse hread Maps.new
    refine ⟨Maps.new, reply, t, hends, rfl, ?_⟩
    rw [hpending, FMap.lookup_insert_ite, if_pos rfl]
    rfl

end

/-! ## Exact commits -/

section

variable {commit commit' : Json} {key : Bytes 32}

theorem fits_iff : Fits commit ↔
    (∃ key, parse32FromJson commit "batch_id" = .ok key) ∧ checkTotal commit = .ok () := by
  rw [checkTotal_ok_iff]
  constructor
  · rintro ⟨⟨items, hitems, hlength⟩, hsum⟩
    have hbytes : (items.map byteOrZero).length = 32 := by rw [length_map, hlength]
    exact ⟨⟨⟨_, hbytes⟩, parse32FromJson_ok_iff.2 ⟨items, hitems, hlength, rfl⟩⟩, hsum⟩
  · rintro ⟨⟨key, hkey⟩, hsum⟩
    obtain ⟨items, hitems, hlength, -⟩ := parse32FromJson_ok_iff.1 hkey
    exact ⟨⟨items, hitems, hlength⟩, hsum⟩

theorem sum_amountOrZero {notes : List Json} {amounts : List UInt64}
    (h : notes.map (amountField · "amount") = amounts.map some) :
    (notes.map (amountOrZero · "amount")).sum = (amounts.map UInt64.toNat).sum := by
  have hread : notes.map (amountOrZero · "amount") =
      (notes.map (amountField · "amount")).map fun amount => (amount.getD 0).toNat := by
    rw [map_map]
    rfl
  rw [hread, h, map_map]
  rfl

theorem Fits.exact_iff (hfits : Fits commit) : Exact commit ↔ Plain commit := by
  constructor
  · rintro ⟨⟨items, hitems, -, hbytes⟩, total, notes, amounts, htotal, hnotes, hamounts, -⟩
    refine ⟨fun items' hitems' => ?_, by rw [htotal]; rfl, by rw [hnotes]; rfl,
      fun notes' hnotes' note hnote => ?_⟩
    · obtain rfl := Option.some.inj (hitems.symm.trans hitems')
      exact hbytes
    · obtain rfl := Option.some.inj (hnotes.symm.trans hnotes')
      have hmem := mem_map_of_mem (f := (amountField · "amount")) hnote
      rw [hamounts] at hmem
      obtain ⟨amount, -, hamount⟩ := mem_map.1 hmem
      rw [← hamount]
      rfl
  · intro hplain
    obtain ⟨items, hitems, hlength⟩ := hfits.batchId
    obtain ⟨total, htotal⟩ := Option.isSome_iff_exists.1 hplain.total
    obtain ⟨notes, hnotes⟩ := Option.isSome_iff_exists.1 hplain.notes
    have hamounts : notes.map (amountField · "amount") =
        (notes.map fun note => (amountField note "amount").getD 0).map some := by
      rw [map_map]
      refine map_congr_left fun note hnote => ?_
      obtain ⟨amount, hamount⟩ :=
        Option.isSome_iff_exists.1 (hplain.amounts notes hnotes note hnote)
      simp [hamount]
    refine ⟨⟨items, hitems, hlength, hplain.bytes items hitems⟩, total, notes, _, htotal, hnotes,
      hamounts, ?_⟩
    rw [← sum_amountOrZero hamounts, hfits.sum notes hnotes, amountOrZero, htotal]
    rfl

theorem IsByte.eq_of_byteOrZero_eq {v v' : Json} (h : IsByte v) (h' : IsByte v')
    (heq : byteOrZero v = byteOrZero v') : v = v' := by
  obtain ⟨n, hn, hle⟩ := h
  obtain ⟨n', hn', hle'⟩ := h'
  have hnum : ∀ {v : Json} {n : UInt64}, v.asU64 = some n → v = .number (.posInt n) := by
    intro v n h
    unfold Json.asU64 at h
    split at h
    · cases h
      rfl
    · cases h
  unfold byteOrZero at heq
  rw [hn, hn'] at heq
  have hnat : n.toNat % 256 = n'.toNat % 256 := congrArg UInt8.toNat heq
  rw [hnum hn, hnum hn', UInt64.toNat_inj.1 (show n.toNat = n'.toNat by omega)]

theorem Exact.batchId_eq (h : Exact commit) (h' : Exact commit')
    (hkey : parse32FromJson commit "batch_id" = .ok key)
    (hkey' : parse32FromJson commit' "batch_id" = .ok key) :
    commit.get "batch_id" = commit'.get "batch_id" := by
  have hget : ∀ {val : Json} {items : List Json}, listField val "batch_id" = some items →
      val.get "batch_id" = some (.array items) := by
    intro val items h
    obtain ⟨v, hv, harray⟩ := Option.bind_eq_some_iff.1 h
    unfold Json.asArray at harray
    split at harray
    · cases harray
      exact hv
    · cases harray
  obtain ⟨items, hitems, -, hbytes⟩ := h.batchId
  obtain ⟨items', hitems', -, hbytes'⟩ := h'.batchId
  obtain ⟨_, hread, -, hmap⟩ := parse32FromJson_ok_iff.1 hkey
  obtain ⟨_, hread', -, hmap'⟩ := parse32FromJson_ok_iff.1 hkey'
  obtain rfl := Option.some.inj (hitems.symm.trans hread)
  obtain rfl := Option.some.inj (hitems'.symm.trans hread')
  have hlist : items = items' := by
    refine ext_getElem ?_ fun i hi hi' => ?_
    · rw [← length_map (f := byteOrZero), ← hmap, hmap', length_map]
    · have hbyte : byteOrZero items[i] = byteOrZero items'[i] := by
        have hat := congrArg (·[i]?) (hmap.symm.trans hmap')
        simpa [hi, hi'] using hat
      exact (hbytes _ (getElem_mem hi)).eq_of_byteOrZero_eq (hbytes' _ (getElem_mem hi')) hbyte
  rw [hget hitems, hget hitems', hlist]

end

/-! ## When commits are read exactly -/

section

variable {handler : BatchTransferHandler} {inbound inbound' : InboundMessage}

theorem exact_iff_readPlainly : (∀ commit key, Carries handler inbound commit →
    AcceptsCommit handler inbound key → Exact commit) ↔ ReadPlainly handler inbound := by
  constructor
  · intro h hse commit hcarries hfits
    obtain ⟨⟨key, hkey⟩, htotal⟩ := fits_iff.1 hfits
    have haccepted : AcceptsCommit handler inbound key :=
      (acceptsCommit_iff hcarries).2 ⟨hse, hkey, htotal⟩
    exact hfits.exact_iff.1 (h commit key hcarries haccepted)
  · intro h commit key hcarries haccepted
    obtain ⟨hse, hkey, htotal⟩ := (acceptsCommit_iff hcarries).1 haccepted
    have hfits : Fits commit := fits_iff.2 ⟨⟨key, hkey⟩, htotal⟩
    exact hfits.exact_iff.2 (h hse commit hcarries hfits)

/-- **Commits are read exactly if those that pass the checks are plain.** -/
theorem commitsExact_iff_plain (handler : BatchTransferHandler)
    (inbound inbound' : InboundMessage) : CommitsExact handler inbound inbound' ↔
      ReadPlainly handler inbound ∧ ReadPlainly handler inbound' := by
  constructor
  · intro h
    exact ⟨exact_iff_readPlainly.1 (h.exact inbound (by simp)),
      exact_iff_readPlainly.1 (h.exact inbound' (by simp))⟩
  · rintro ⟨h, h'⟩
    have hexact := exact_iff_readPlainly.2 h
    have hexact' := exact_iff_readPlainly.2 h'
    refine ⟨fun message hmessage => ?_, ?_⟩
    · rcases mem_pair.1 hmessage with rfl | rfl
      · exact hexact
      · exact hexact'
    · rintro commit commit' key key' hcarries hcarries' haccepted haccepted' hne rfl
      exact hne ((hexact commit key hcarries haccepted).batchId_eq
        (hexact' commit' key hcarries' haccepted') ((acceptsCommit_iff hcarries).1 haccepted).2.1
        ((acceptsCommit_iff hcarries').1 haccepted').2.1)

end

/-! ## Two commits for one entry -/

/-- A first byte of 256, and neither an amount nor notes. -/
def batchWideJson : Json :=
  .object [("batch_id", .array (.number (.posInt 256) :: replicate 31 (.number (.posInt 0))))]

def batchWideText : String :=
  "\x7b\"batch_id\":[256," ++ String.intercalate "," (replicate 31 "0") ++ "]\x7d"

def commitWide : InboundMessage :=
  messageZero piuriBatchCommit [("commit", .string batchWideText)]

/-- A parser of the two texts. -/
def wideCodec : Codec :=
  { zeroCodec with
    parseJson := fun text =>
      if text = batchWideText then .ok batchWideJson else zeroCodec.parseJson text }

def wideHandler : BatchTransferHandler := ⟨wideCodec, true, false⟩

/-- The commit for 256 followed by zeros takes the entry of the batch of zeros. -/
theorem commitsExact_fails :
    ¬ ∀ handler inbound inbound', CommitsExact handler inbound inbound' := by
  intro h
  have hnarrow : wideCodec.parseJson batchZeroText = .ok batchZeroJson := by
    simp only [wideCodec, zeroCodec]
    rw [if_neg (by decide), if_pos trivial]
  have hparse : wideCodec.parseJson batchWideText = .ok batchWideJson := by
    simp only [wideCodec]
    rw [if_pos trivial]
  have hzero : Carries wideHandler commitZero batchZeroJson := ⟨rfl, batchZeroText, rfl, hnarrow⟩
  have hwide : Carries wideHandler commitWide batchWideJson := ⟨rfl, batchWideText, rfl, hparse⟩
  have hne : batchZeroJson.get "batch_id" ≠ batchWideJson.get "batch_id" := by
    intro heq
    injection heq with heq
    injection heq with heq
    injection heq with heq
    injection heq with heq
    exact absurd heq (by decide)
  exact (h wideHandler commitZero commitWide).apart batchZeroJson batchWideJson batchZero batchZero
    hzero hwide ((acceptsCommit_iff hzero).2 ⟨rfl, rfl, rfl⟩)
    ((acceptsCommit_iff hwide).2 ⟨rfl, rfl, rfl⟩) hne rfl

end Idiom.Ecash
