import Idiom.Connections.Repository
import Idiom.Lib.Run

/-!
# The storage-backed repository and the in-memory one

Both repositories perform the same calls one after the other, and the storage-backed one may be
stopped and opened again at any point.
-/

namespace Idiom.Connections

open AddOnlyIndex Option Finmap FMap Indexes

variable {Value : Type}

/-! ## The two repositories -/

inductive Call (Value : Type) where
  | save (record : CurrentRecord Value)
  | update (record : CurrentRecord Value)
  | delete (id : String)
  /-- The process stops, and the next one opens the storage with hash maps of another order. -/
  | restart (order : IterOrder String)
  | findById (id : String)
  | findByTheirDid (theirDid : String)
  | findByAuthKey (key : String)
  | findByKaKey (key : String)

structure Repositories (Value : Type) where
  memory : ConnectionRepository Value
  backed : StorageBackedConnectionRepository Value

def Repositories.new (order : IterOrder String) : Repositories Value where
  memory := .new
  backed := .new ∅ order

section
variable (reread : Value → Option Value) (found : IterOrder String)

def step (s : Repositories Value) : Call Value → Option (Repositories Value)
  | .save record => some ⟨(s.memory.save record).1, (s.backed.save reread found record).1⟩
  | .update record => some ⟨(s.memory.update record).1, (s.backed.update reread found record).1⟩
  | .delete id => some ⟨(s.memory.delete id).1, (s.backed.delete reread found id).1⟩
  | .restart order => some ⟨s.memory, s.backed.restart order⟩
  | .findById id => some ⟨s.memory, (s.backed.findById reread found id).1⟩
  | .findByTheirDid did => some ⟨s.memory, (s.backed.findByTheirDid reread found did).1⟩
  | .findByAuthKey key => some ⟨s.memory, (s.backed.findByAuthKey reread found key).1⟩
  | .findByKaKey key => some ⟨s.memory, (s.backed.findByKaKey reread found key).1⟩

/-- The answer to a lookup is a connection whose current key is `key`, or there is none. -/
structure Answers (attr : ConnectionRecord Value → Option String)
    (memory : ConnectionRepository Value)
    (key : String) (reply : Option (ConnectionRecord Value)) : Prop where
  sound : ∀ r, reply = some r → attr r = some key ∧
    ∃ r', memory.records.lookup r.id = some r' ∧ attr r' = some key
  complete : reply = none → ∀ id r, memory.records.lookup id = some r → attr r ≠ some key

/-- The storage-backed repository finds what the plain scan finds. -/
structure Agrees (s : Repositories Value) : Prop where
  theirDid : ∀ order did,
    (s.backed.findByTheirDid reread found did).2.Perm (s.memory.findByTheirDid order did)
  authKey : ∀ key, Answers ConnectionRecord.theirAuthenticationKeyBase58 s.memory key
    (s.backed.findByAuthKey reread found key).2
  kaKey : ∀ key, Answers ConnectionRecord.theirKeyAgreementKeyBase58 s.memory key
    (s.backed.findByKaKey reread found key).2

/-! ## The condition -/

/-- No other connection has the DID of the record, and no index names the record under a DID or a
key that is not its own. -/
structure PutKeeps (s : Repositories Value) (record : ConnectionRecord Value) : Prop where
  unshared : ∀ id r did, id ≠ record.id → s.memory.records.lookup id = some r →
    record.theirDid = some did → r.theirDid ≠ some did
  theirDid : ∀ did, record.theirDid ≠ some did →
    (s.backed.ensureCache reread found).indexes.theirDid.lookup did ≠ some record.id
  authKey : ∀ key, record.theirAuthenticationKeyBase58 ≠ some key →
    (s.backed.ensureCache reread found).indexes.authKey.lookup key ≠ some record.id
  kaKey : ∀ key, record.theirKeyAgreementKeyBase58 ≠ some key →
    (s.backed.ensureCache reread found).indexes.kaKey.lookup key ≠ some record.id

/-- No other connection has a key under which an index names the one that goes. -/
structure DeleteKeeps (s : Repositories Value) (id : String) : Prop where
  authKey : ∀ key, (s.backed.ensureCache reread found).indexes.authKey.lookup key = some id →
    ∀ id' r, id' ≠ id → s.memory.records.lookup id' = some r →
      r.theirAuthenticationKeyBase58 ≠ some key
  kaKey : ∀ key, (s.backed.ensureCache reread found).indexes.kaKey.lookup key = some id →
    ∀ id' r, id' ≠ id → s.memory.records.lookup id' = some r →
      r.theirKeyAgreementKeyBase58 ≠ some key

/-- Every connection with a DID comes back from the storage as it is. -/
def RestartKeeps (s : Repositories Value) : Prop :=
  ∀ id r, s.memory.records.lookup id = some r → r.theirDid.isSome → r.reloaded reread = r

def Keeps (s : Repositories Value) : Call Value → Prop
  -- a `save` of a known id and an `update` of an unknown one are refused
  | .save record => record.1.id ∈ s.memory.records ∨ PutKeeps reread found s record
  | .update record => record.1.id ∉ s.memory.records ∨ PutKeeps reread found s record
  | .delete id => DeleteKeeps reread found s id
  | .restart _ => RestartKeeps reread s
  | .findById _ => True
  | .findByTheirDid _ => True
  | .findByAuthKey _ => True
  | .findByKaKey _ => True

end

variable {reread : Value → Option Value} {found : IterOrder String}

/-! ## Loading -/

namespace StorageBackedConnectionRepository

variable {repo : StorageBackedConnectionRepository Value}

theorem ensureCache_of_some {cache : FMap String (ConnectionRecord Value)}
    (h : repo.cache = some cache) : repo.ensureCache reread found = repo := by
  rw [ensureCache, h]

theorem ensureCache_cache : ∃ cache, (repo.ensureCache reread found).cache = some cache := by
  unfold ensureCache
  cases h : repo.cache with
  | none => exact ⟨_, rfl⟩
  | some cache => exact ⟨cache, h⟩

@[simp] theorem ensureCache_ensureCache :
    (repo.ensureCache reread found).ensureCache reread found = repo.ensureCache reread found := by
  obtain ⟨cache, hcache⟩ := @ensureCache_cache _ reread found repo
  exact ensureCache_of_some hcache

@[simp] theorem ensureCache_storage : (repo.ensureCache reread found).storage = repo.storage := by
  unfold ensureCache
  cases repo.cache <;> rfl

@[simp] theorem ensureCache_put (record : ConnectionRecord Value) :
    (repo.put record).ensureCache reread found = repo.put record := rfl

@[simp] theorem findByKey_ensureCache (index : Indexes → AddOnlyIndex String String)
  (tag key : String) :
    (repo.ensureCache reread found).findByKey reread found index tag key =
      repo.findByKey reread found index tag key := by
  rw [findByKey, findByKey, ensureCache_ensureCache]

theorem fst_findByTheirDid (did : String) :
    (repo.findByTheirDid reread found did).1 = repo.ensureCache reread found := by
  unfold findByTheirDid
  dsimp only
  split
  · rfl
  · split <;> rfl

theorem snd_findByTheirDid (did : String) :
    (repo.findByTheirDid reread found did).2 =
      ((repo.ensureCache reread found).indexes.theirDid.get
        (repo.ensureCache reread found).cached did).toList := by
  unfold findByTheirDid AddOnlyIndex.get
  dsimp only
  cases (repo.ensureCache reread found).indexes.theirDid.lookup did with
  | none => rfl
  | some connId =>
    dsimp only [bind_some]
    cases (repo.ensureCache reread found).cached.lookup connId <;> rfl

end StorageBackedConnectionRepository

open StorageBackedConnectionRepository

/-! ## The indexes of all the records -/

theorem Indexes.authKey_foldl (rows : List (ConnectionRecord Value)) (indexes : Indexes) :
    (rows.foldl indexRecord indexes).authKey =
      addAll ConnectionRecord.theirAuthenticationKeyBase58 ConnectionRecord.id
        indexes.authKey rows := by
  induction rows generalizing indexes with
  | nil => rfl
  | cons r rows ih => exact ih (indexes.indexRecord r)

theorem Indexes.kaKey_foldl (rows : List (ConnectionRecord Value)) (indexes : Indexes) :
    (rows.foldl indexRecord indexes).kaKey =
      addAll ConnectionRecord.theirKeyAgreementKeyBase58 ConnectionRecord.id
        indexes.kaKey rows := by
  induction rows generalizing indexes with
  | nil => rfl
  | cons r rows ih => exact ih (indexes.indexRecord r)

theorem Indexes.theirDid_foldl (rows : List (ConnectionRecord Value)) (indexes : Indexes) :
    (rows.foldl indexRecord indexes).theirDid =
      addAll ConnectionRecord.theirDid ConnectionRecord.id indexes.theirDid rows := by
  induction rows generalizing indexes with
  | nil => rfl
  | cons r rows ih => exact ih (indexes.indexRecord r)

/-! ## What the cache and the storage have to do with the records -/

/-- What the lookups read of a record. -/
structure ConnectionRecord.Alike (r c : ConnectionRecord Value) : Prop where
  id : c.id = r.id
  theirDid : c.theirDid = r.theirDid
  authKey : c.theirAuthenticationKeyBase58 = r.theirAuthenticationKeyBase58
  kaKey : c.theirKeyAgreementKeyBase58 = r.theirKeyAgreementKeyBase58

theorem ConnectionRecord.Alike.refl (r : ConnectionRecord Value) : r.Alike r := ⟨rfl, rfl, rfl, rfl⟩

theorem ConnectionRecord.Current.alike {r : ConnectionRecord Value} (h : r.Current)
    (reread : Value → Option Value) : r.Alike (r.reloaded reread) := by
  rw [h.reloaded]
  exact ⟨rfl, rfl, rfl, rfl⟩

/-- A loaded repository holds the connections of `memory`. -/
structure Represents (reread : Value → Option Value)
    (memory : FMap String (ConnectionRecord Value))
    (repo : StorageBackedConnectionRepository Value) : Prop where
  loaded : ∃ cache, repo.cache = some cache
  current : ∀ id r, memory.lookup id = some r → r.id = id ∧ r.Current
  stored : ∀ id, repo.storage.lookup id = (memory.lookup id).map toStorageRecord
  cached : ∀ id, repo.cached.lookup id = memory.lookup id ∨
    repo.cached.lookup id = (memory.lookup id).map (ConnectionRecord.reloaded reread)
  authIndexed : Indexed ConnectionRecord.theirAuthenticationKeyBase58
    repo.indexes.authKey repo.cached
  kaIndexed : Indexed ConnectionRecord.theirKeyAgreementKeyBase58 repo.indexes.kaKey repo.cached

namespace Represents

variable {memory : FMap String (ConnectionRecord Value)}
  {repo : StorageBackedConnectionRepository Value}

theorem ensureCache (h : Represents reread memory repo) : repo.ensureCache reread found = repo := by
  obtain ⟨cache, hcache⟩ := h.loaded
  exact ensureCache_of_some hcache

theorem keyed (h : Represents reread memory repo) : memory.Keyed ConnectionRecord.id :=
  fun id r hr => (h.current id r hr).1

theorem cached_of_memory (h : Represents reread memory repo) {id : String}
    {r : ConnectionRecord Value} (hr : memory.lookup id = some r) :
    ∃ c, repo.cached.lookup id = some c ∧ r.Alike c := by
  rcases h.cached id with hc | hc
  · exact ⟨r, hc.trans hr, .refl r⟩
  · rw [hr] at hc
    exact ⟨_, hc, (h.current id r hr).2.alike reread⟩

theorem memory_of_cached (h : Represents reread memory repo) {id : String}
    {c : ConnectionRecord Value} (hc : repo.cached.lookup id = some c) :
    ∃ r, memory.lookup id = some r ∧ r.Alike c := by
  cases hr : memory.lookup id with
  | none =>
    rcases h.cached id with h' | h' <;> rw [hr, hc] at h' <;> cases h'
  | some r =>
    obtain ⟨c', hc', halike⟩ := h.cached_of_memory hr
    rw [← some.inj (hc.symm.trans hc')] at halike
    exact ⟨r, rfl, halike⟩

theorem mem_cached (h : Represents reread memory repo) (id : String) :
    id ∈ repo.cached ↔ id ∈ memory := by
  rw [← lookup_isSome, ← lookup_isSome, isSome_iff_exists, isSome_iff_exists]
  constructor
  · rintro ⟨c, hc⟩
    obtain ⟨r, hr, -⟩ := h.memory_of_cached hc
    exact ⟨r, hr⟩
  · rintro ⟨r, hr⟩
    obtain ⟨c, hc, -⟩ := h.cached_of_memory hr
    exact ⟨c, hc⟩

theorem cachedKeyed (h : Represents reread memory repo) :
    repo.cached.Keyed ConnectionRecord.id := by
  intro id c hc
  obtain ⟨r, hr, halike⟩ := h.memory_of_cached hc
  rw [halike.id, h.keyed id r hr]

/-- A process that has just loaded the cache. -/
structure Fresh (reread : Value → Option Value) (memory : FMap String (ConnectionRecord Value))
    (repo : StorageBackedConnectionRepository Value) : Prop where
  cached : ∀ id, repo.cached.lookup id = (memory.lookup id).map (ConnectionRecord.reloaded reread)
  authKey : Finds ConnectionRecord.theirAuthenticationKeyBase58 repo.indexes.authKey repo.cached
  kaKey : Finds ConnectionRecord.theirKeyAgreementKeyBase58 repo.indexes.kaKey repo.cached
  theirDid : Finds ConnectionRecord.theirDid repo.indexes.theirDid repo.cached

theorem fresh_ensureCache (hcurrent : ∀ id r, memory.lookup id = some r → r.id = id ∧ r.Current)
    (hstored : ∀ id, repo.storage.lookup id = (memory.lookup id).map toStorageRecord)
    (hcache : repo.cache = none) : Fresh reread memory (repo.ensureCache reread found) := by
  have hload : repo.ensureCache reread found =
      { repo with
        cache := some (load reread found repo.storage)
        indexes := ((load reread found repo.storage).values
          repo.order).foldl indexRecord .empty } := by
    rw [StorageBackedConnectionRepository.ensureCache, hcache]
  have hcached : ∀ id, (load reread found repo.storage).lookup id =
      (memory.lookup id).map (ConnectionRecord.reloaded reread) := by
    intro id
    have hall : repo.storage.findAll found [] = repo.storage.values found := by
      simp [Storage.findAll]
    rw [load, hall, lookup_insertAll_values, hstored, map_map]
    · rfl
    · intro k sr hsr
      rw [hstored, map_eq_some_iff] at hsr
      obtain ⟨r, hr, rfl⟩ := hsr
      obtain ⟨hid, hcur⟩ := hcurrent k r hr
      exact (hcur.alike reread).id.trans hid
  have hkeyed : (load reread found repo.storage).Keyed
      ConnectionRecord.id := by
    intro id c hc
    rw [hcached, map_eq_some_iff] at hc
    obtain ⟨r, hr, rfl⟩ := hc
    obtain ⟨hid, hcur⟩ := hcurrent id r hr
    exact (hcur.alike reread).id.trans hid
  rw [hload]
  refine ⟨hcached, ?_, ?_, ?_⟩
  · rw [authKey_foldl]
    exact finds_addAll hkeyed _
  · rw [kaKey_foldl]
    exact finds_addAll hkeyed _
  · rw [theirDid_foldl]
    exact finds_addAll hkeyed _

theorem load (hcurrent : ∀ id r, memory.lookup id = some r → r.id = id ∧ r.Current)
    (hstored : ∀ id, repo.storage.lookup id = (memory.lookup id).map toStorageRecord)
    (hcache : repo.cache = none) : Represents reread memory (repo.ensureCache reread found) where
  loaded := ensureCache_cache
  current := hcurrent
  stored id := by rw [ensureCache_storage, hstored]
  cached id := .inr ((fresh_ensureCache hcurrent hstored hcache).cached id)
  authIndexed := (fresh_ensureCache hcurrent hstored hcache).authKey.indexed
  kaIndexed := (fresh_ensureCache hcurrent hstored hcache).kaKey.indexed

theorem put (h : Represents reread memory repo) {record : ConnectionRecord Value}
    (hrecord : record.Current) :
    Represents reread (insert record.id record memory) (repo.put record) where
  loaded := ⟨_, rfl⟩
  current id r hr := by
    rw [lookup_insert_ite] at hr
    split at hr
    · next heq =>
      cases hr
      exact ⟨heq.symm, hrecord⟩
    · exact h.current id r hr
  stored id := by
    show (insert record.id (toStorageRecord record) repo.storage).lookup id = _
    rw [lookup_insert_ite, lookup_insert_ite]
    split
    · rfl
    · exact h.stored id
  cached id := by
    show (insert record.id record repo.cached).lookup id = _ ∨
      (insert record.id record repo.cached).lookup id = _
    rw [lookup_insert_ite, lookup_insert_ite]
    split
    · exact .inl rfl
    · exact h.cached id
  authIndexed := h.authIndexed.insert record.id record
  kaIndexed := h.kaIndexed.insert record.id record

theorem erase (h : Represents reread memory repo) (id : String) :
    Represents reread (Finmap.erase id memory)
      { repo with
        storage := repo.storage.erase id
        cache := some (repo.cached.erase id) } where
  loaded := ⟨_, rfl⟩
  current id' r hr := by
    rw [lookup_erase_ite] at hr
    split at hr
    · cases hr
    · exact h.current id' r hr
  stored id' := by
    rw [lookup_erase_ite, lookup_erase_ite]
    split
    · rfl
    · exact h.stored id'
  cached id' := by
    show (Finmap.erase id repo.cached).lookup id' = _ ∨ (Finmap.erase id repo.cached).lookup id' = _
    rw [lookup_erase_ite, lookup_erase_ite]
    split
    · exact .inl rfl
    · exact h.cached id'
  authIndexed := h.authIndexed.erase id
  kaIndexed := h.kaIndexed.erase id

theorem others_iff (h : Represents reread memory repo)
    {attr : ConnectionRecord Value → Option String}
    (hattr : ∀ r c, r.Alike c → attr c = attr r) (id key : String) :
    (∀ id' c, id' ≠ id → repo.cached.lookup id' = some c → attr c ≠ some key) ↔
      ∀ id' r, id' ≠ id → memory.lookup id' = some r → attr r ≠ some key := by
  constructor
  · intro hcached id' r hne hr
    obtain ⟨c, hc, halike⟩ := h.cached_of_memory hr
    rw [← hattr r c halike]
    exact hcached id' c hne hc
  · intro hmemory id' c hne hc
    obtain ⟨r, hr, halike⟩ := h.memory_of_cached hc
    rw [hattr r c halike]
    exact hmemory id' r hne hr

/-! ## What the lookups answer -/

theorem findByKey_eq (h : Represents reread memory repo)
    {index : Indexes → AddOnlyIndex String String} {tag : String}
    {attr : ConnectionRecord Value → Option String}
    (hindexed : Indexed attr (index repo.indexes) repo.cached)
    (htag : ∀ conn, (toStorageRecord conn).tags.lookup tag = attr conn)
    (hattr : ∀ r c, r.Alike c → attr c = attr r) (key : String) :
    repo.findByKey reread found index tag key =
      (repo, (index repo.indexes).get repo.cached key) := by
  unfold findByKey AddOnlyIndex.get
  simp only [h.ensureCache]
  cases hentry : (index repo.indexes).lookup key with
  | some id => rfl
  | none =>
    have hnone : repo.storage.findAll found [(tag, key)] = [] := by
      rw [Storage.findAll, List.filter_eq_nil_iff]
      intro sr hsr hmatch
      obtain ⟨id, hid⟩ := mem_values.1 hsr
      rw [h.stored, map_eq_some_iff] at hid
      obtain ⟨r, hr, rfl⟩ := hid
      simp only [List.all_cons, List.all_nil, Bool.and_true, decide_eq_true_eq, htag] at hmatch
      obtain ⟨c, hc, halike⟩ := h.cached_of_memory hr
      have hsome := hindexed id c key hc ((hattr r c halike).trans hmatch)
      rw [hentry] at hsome
      cases hsome
    rw [hnone]
    rfl

theorem answers_iff (h : Represents reread memory repo)
    {attr : ConnectionRecord Value → Option String}
    {index : AddOnlyIndex String String} (hattr : ∀ r c, r.Alike c → attr c = attr r) :
    (∀ key, Answers attr ⟨memory⟩ key (index.get repo.cached key)) ↔
      Finds attr index repo.cached := by
  constructor
  · intro hanswers
    refine ⟨fun key c hget => ((hanswers key).sound c hget).1, fun id c key hc hkey => ?_⟩
    obtain ⟨r, hr, halike⟩ := h.memory_of_cached hc
    by_contra hnone
    refine (hanswers key).complete (not_isSome_iff_eq_none.1 hnone) id r hr ?_
    rw [← hattr r c halike, hkey]
  · intro hfinds key
    refine ⟨fun c hget => ?_, fun hnone id r hr hkey => ?_⟩
    · have hkey := hfinds.sound key c hget
      obtain ⟨id, -, hc⟩ := get_eq_some.1 hget
      obtain ⟨r, hr, halike⟩ := h.memory_of_cached hc
      refine ⟨hkey, r, ?_, ?_⟩
      · rw [h.cachedKeyed id c hc]
        exact hr
      · rw [← hattr r c halike, hkey]
    · obtain ⟨c, hc, halike⟩ := h.cached_of_memory hr
      have hsome := hfinds.complete id c key hc ((hattr r c halike).trans hkey)
      rw [hnone] at hsome
      cases hsome

end Represents

/-- No two connections share a DID, those that have one stand in the cache as they are, and every
index finds the right ones. -/
structure Finding (memory : FMap String (ConnectionRecord Value))
    (repo : StorageBackedConnectionRepository Value) : Prop where
  unique : memory.Unique ConnectionRecord.theirDid
  unchanged : ∀ id r, memory.lookup id = some r → r.theirDid.isSome → repo.cached.lookup id = some r
  theirDid : Finds ConnectionRecord.theirDid repo.indexes.theirDid repo.cached
  authKey : Finds ConnectionRecord.theirAuthenticationKeyBase58 repo.indexes.authKey repo.cached
  kaKey : Finds ConnectionRecord.theirKeyAgreementKeyBase58 repo.indexes.kaKey repo.cached

namespace Represents

variable {memory : FMap String (ConnectionRecord Value)}
  {repo : StorageBackedConnectionRepository Value}

theorem perm_iff (h : Represents reread memory repo) :
    (∀ order did, (repo.indexes.theirDid.get repo.cached did).toList.Perm
      (ConnectionRepository.findByTheirDid order ⟨memory⟩ did)) ↔
      memory.Unique ConnectionRecord.theirDid ∧
      (∀ id r, memory.lookup id = some r → r.theirDid.isSome → repo.cached.lookup id = some r) ∧
      Finds ConnectionRecord.theirDid repo.indexes.theirDid repo.cached := by
  -- two lists without repetitions are compared by what they contain
  have hmem : ∀ order did v, v ∈ ConnectionRepository.findByTheirDid order ⟨memory⟩ did ↔
      memory.lookup v.id = some v ∧ v.theirDid = some did := by
    intro order did v
    rw [ConnectionRepository.findByTheirDid, List.mem_filter, mem_values, decide_eq_true_eq]
    constructor
    · rintro ⟨⟨id, hv⟩, hdid⟩
      obtain ⟨rfl, hcur⟩ := h.current id v hv
      exact ⟨hv, hcur.tag ▸ hdid⟩
    · rintro ⟨hv, hdid⟩
      exact ⟨⟨v.id, hv⟩, (h.current v.id v hv).2.tag.trans hdid⟩
  have hperm : (∀ order did, (repo.indexes.theirDid.get repo.cached did).toList.Perm
      (ConnectionRepository.findByTheirDid order ⟨memory⟩ did)) ↔
      ∀ did v, repo.indexes.theirDid.get repo.cached did = some v ↔
        memory.lookup v.id = some v ∧ v.theirDid = some did := by
    have hnodup : ∀ order did,
        (ConnectionRepository.findByTheirDid order ⟨memory⟩ did).Nodup := fun order did =>
      (h.keyed.nodup_values order).filter _
    have hnodup' : ∀ did, (repo.indexes.theirDid.get repo.cached did).toList.Nodup := by
      intro did
      cases repo.indexes.theirDid.get repo.cached did <;> simp
    simp only [fun order did => List.perm_ext_iff_of_nodup (hnodup' did) (hnodup order did), hmem,
      mem_toList]
    exact ⟨fun hall did v => hall repo.order did v, fun hall _ did v => hall did v⟩
  rw [hperm]
  constructor
  · intro hget
    have hunchanged : ∀ id r, memory.lookup id = some r → r.theirDid.isSome →
        repo.cached.lookup id = some r := by
      intro id r hr hdid
      obtain ⟨did, hdid⟩ := isSome_iff_exists.1 hdid
      obtain ⟨hid, -⟩ := h.current id r hr
      obtain ⟨id', -, hc⟩ := get_eq_some.1 ((hget did r).2 ⟨hid ▸ hr, hdid⟩)
      rw [← hid, h.cachedKeyed id' r hc]
      exact hc
    refine ⟨fun id id' r r' did hr hr' hdid hdid' => ?_, hunchanged,
      fun did v hv => ((hget did v).1 hv).2, fun id c did hc hdid => ?_⟩
    · have hid := (h.current id r hr).1
      have hid' := (h.current id' r' hr').1
      have hfound := (hget did r).2 ⟨hid ▸ hr, hdid⟩
      have hfound' := (hget did r').2 ⟨hid' ▸ hr', hdid'⟩
      rw [← hid, ← hid', some.inj (hfound.symm.trans hfound')]
    · obtain ⟨r, hr, halike⟩ := h.memory_of_cached hc
      have hfound := (hget did r).2 ⟨(h.current id r hr).1 ▸ hr, halike.theirDid ▸ hdid⟩
      rw [hfound]
      rfl
  · rintro ⟨hunique, hunchanged, hfinds⟩ did v
    constructor
    · intro hv
      have hdid := hfinds.sound did v hv
      obtain ⟨id, -, hc⟩ := get_eq_some.1 hv
      obtain ⟨r, hr, halike⟩ := h.memory_of_cached hc
      have hsame := hunchanged id r hr (by rw [← halike.theirDid, hdid]; rfl)
      obtain rfl := some.inj (hc.symm.trans hsame)
      exact ⟨h.keyed id v hr ▸ hr, hdid⟩
    · rintro ⟨hr, hdid⟩
      have hc := hunchanged v.id v hr (by rw [hdid]; rfl)
      obtain ⟨w, hw⟩ := isSome_iff_exists.1 (hfinds.complete v.id v did hc hdid)
      obtain ⟨id, -, hwc⟩ := get_eq_some.1 hw
      obtain ⟨r, hr', halike⟩ := h.memory_of_cached hwc
      have hid := hunique id v.id r v did hr' hr (halike.theirDid ▸ hfinds.sound did w hw) hdid
      rw [hid] at hwc
      rw [hw, ← hwc, hc]

variable {backed : StorageBackedConnectionRepository Value}

theorem findByAuthKey_eq (h : Represents reread memory (backed.ensureCache reread found))
    (key : String) :
    backed.findByAuthKey reread found key =
      (backed.ensureCache reread found, (backed.ensureCache reread found).indexes.authKey.get
          (backed.ensureCache reread found).cached key) := by
  rw [findByAuthKey, ← findByKey_ensureCache]
  exact h.findByKey_eq h.authIndexed lookup_authTag (fun r c halike => halike.authKey) key

theorem findByKaKey_eq (h : Represents reread memory (backed.ensureCache reread found))
    (key : String) :
    backed.findByKaKey reread found key =
      (backed.ensureCache reread found, (backed.ensureCache reread found).indexes.kaKey.get
          (backed.ensureCache reread found).cached key) := by
  rw [findByKaKey, ← findByKey_ensureCache]
  exact h.findByKey_eq h.kaIndexed lookup_kaTag (fun r c halike => halike.kaKey) key

/-- The two repositories agree exactly when the lookups find what they should. -/
theorem agrees_iff_finding (h : Represents reread memory (backed.ensureCache reread found)) :
    Agrees reread found ⟨⟨memory⟩, backed⟩ ↔ Finding memory (backed.ensureCache reread found) := by
  have hdids := h.perm_iff
  have hauths := @answers_iff _ _ _ _ h _ (backed.ensureCache reread found).indexes.authKey
    fun r c halike => halike.authKey
  have hkas := @answers_iff _ _ _ _ h _ (backed.ensureCache reread found).indexes.kaKey
    fun r c halike => halike.kaKey
  constructor
  · intro hagrees
    obtain ⟨hunique, hunchanged, hfinds⟩ := hdids.1 fun order did => by
      rw [← snd_findByTheirDid]
      exact hagrees.theirDid order did
    refine ⟨hunique, hunchanged, hfinds, hauths.1 fun key => ?_, hkas.1 fun key => ?_⟩
    · have hanswer := hagrees.authKey key
      rw [h.findByAuthKey_eq] at hanswer
      exact hanswer
    · have hanswer := hagrees.kaKey key
      rw [h.findByKaKey_eq] at hanswer
      exact hanswer
  · intro hfinding
    refine ⟨fun order did => ?_, fun key => ?_, fun key => ?_⟩
    · rw [snd_findByTheirDid]
      exact hdids.2 ⟨hfinding.unique, hfinding.unchanged, hfinding.theirDid⟩ order did
    · rw [h.findByAuthKey_eq]
      exact hauths.2 hfinding.authKey key
    · rw [h.findByKaKey_eq]
      exact hkas.2 hfinding.kaKey key

end Represents

/-! ## One call -/

namespace Finding

variable {memory : FMap String (ConnectionRecord Value)}
  {repo : StorageBackedConnectionRepository Value}

theorem put_iff (h : Finding memory repo) (record : ConnectionRecord Value) :
    Finding (insert record.id record memory) (repo.put record) ↔
      (∀ id r did, id ≠ record.id → memory.lookup id = some r → record.theirDid = some did →
        r.theirDid ≠ some did) ∧
      (∀ did, record.theirDid ≠ some did → repo.indexes.theirDid.lookup did ≠ some record.id) ∧
      (∀ key, record.theirAuthenticationKeyBase58 ≠ some key →
        repo.indexes.authKey.lookup key ≠ some record.id) ∧
      (∀ key, record.theirKeyAgreementKeyBase58 ≠ some key →
        repo.indexes.kaKey.lookup key ≠ some record.id) := by
  have hunchanged : ∀ id r, (insert record.id record memory).lookup id = some r →
      r.theirDid.isSome → (insert record.id record repo.cached).lookup id = some r := by
    intro id r hr hdid
    rw [lookup_insert_ite] at hr ⊢
    split
    · next heq => rwa [if_pos heq] at hr
    · next hne =>
      rw [if_neg hne] at hr
      exact h.unchanged id r hr hdid
  rw [← unique_insert h.unique, ← finds_insert h.theirDid,
    ← finds_insert h.authKey, ← finds_insert h.kaKey]
  exact ⟨fun hf => ⟨hf.unique, hf.theirDid, hf.authKey, hf.kaKey⟩,
    fun ⟨hu, hd, ha, hk⟩ => ⟨hu, hunchanged, hd, ha, hk⟩⟩

theorem theirDid_erase (hrep : Represents reread memory repo) (h : Finding memory repo)
    (id : String) :
    Finds ConnectionRecord.theirDid repo.indexes.theirDid (repo.cached.erase id) := by
  rw [finds_erase h.theirDid]
  intro did hentry id' c hne hc hdid
  obtain ⟨w, hw⟩ := isSome_iff_exists.1 (h.theirDid.complete id' c did hc hdid)
  have hwdid := h.theirDid.sound did w hw
  rw [AddOnlyIndex.get, hentry] at hw
  obtain ⟨r, hr, halike⟩ := hrep.memory_of_cached hc
  obtain ⟨r', hr', halike'⟩ := hrep.memory_of_cached hw
  exact hne (h.unique id' id r r' did hr hr' (halike.theirDid ▸ hdid) (halike'.theirDid ▸ hwdid))

theorem erase_iff (hrep : Represents reread memory repo) (h : Finding memory repo) (id : String) :
    Finding (erase id memory)
      { repo with
        storage := repo.storage.erase id
        cache := some (repo.cached.erase id) } ↔
      (∀ key, repo.indexes.authKey.lookup key = some id → ∀ id' r, id' ≠ id →
        memory.lookup id' = some r → r.theirAuthenticationKeyBase58 ≠ some key) ∧
      (∀ key, repo.indexes.kaKey.lookup key = some id → ∀ id' r, id' ≠ id →
        memory.lookup id' = some r → r.theirKeyAgreementKeyBase58 ≠ some key) := by
  have hunchanged : ∀ id' r, (erase id memory).lookup id' = some r → r.theirDid.isSome →
      (erase id repo.cached).lookup id' = some r := by
    intro id' r hr hdid
    rw [lookup_erase_ite] at hr ⊢
    split at hr
    · cases hr
    · next hne =>
      rw [if_neg hne]
      exact h.unchanged id' r hr hdid
  have hauth := finds_erase h.authKey id
  have hka := finds_erase h.kaKey id
  simp only [hrep.others_iff fun r c halike => halike.authKey] at hauth
  simp only [hrep.others_iff fun r c halike => halike.kaKey] at hka
  rw [← hauth, ← hka]
  exact ⟨fun hf => ⟨hf.authKey, hf.kaKey⟩,
    fun ⟨ha, hk⟩ => ⟨h.unique.erase id, hunchanged, h.theirDid_erase hrep id, ha, hk⟩⟩

end Finding

/-- The records behind both repositories, and lookups that find what they should. -/
structure Invariant (reread : Value → Option Value) (found : IterOrder String)
    (s : Repositories Value) : Prop where
  represents : Represents reread s.memory.records (s.backed.ensureCache reread found)
  finding : Finding s.memory.records (s.backed.ensureCache reread found)

variable {s t : Repositories Value}

theorem Invariant.unchanged (h : Invariant reread found s)
    (hmemory : t.memory = s.memory) (hbacked : t.backed = s.backed.ensureCache reread found) :
    Represents reread t.memory.records (t.backed.ensureCache reread found) ∧
      Finding t.memory.records (t.backed.ensureCache reread found) := by
  rw [hmemory, hbacked, ensureCache_ensureCache]
  exact ⟨h.represents, h.finding⟩

/-- No connection has a key under which an index names one that is not there. -/
theorem Invariant.deleteKeeps_of_notMem (h : Invariant reread found s) {id : String}
    (hmem : id ∉ s.memory.records) : DeleteKeeps reread found s id := by
  have hcached : (s.backed.ensureCache reread found).cached.lookup id = none :=
    lookup_eq_none.2 fun hc => hmem ((h.represents.mem_cached id).1 hc)
  refine ⟨fun key hentry => ?_, fun key hentry => ?_⟩
  · refine (h.represents.others_iff (fun r c halike => halike.authKey) id key).1 ?_
    intro id' c _ hc hkey
    have hsome := h.finding.authKey.complete id' c key hc hkey
    rw [AddOnlyIndex.get, hentry, bind_some, hcached] at hsome
    cases hsome
  · refine (h.represents.others_iff (fun r c halike => halike.kaKey) id key).1 ?_
    intro id' c _ hc hkey
    have hsome := h.finding.kaKey.complete id' c key hc hkey
    rw [AddOnlyIndex.get, hentry, bind_some, hcached] at hsome
    cases hsome

theorem Invariant.stored (h : Invariant reread found s) (id : String) :
    s.backed.storage.lookup id = (s.memory.records.lookup id).map toStorageRecord := by
  rw [← h.represents.stored, ensureCache_storage]

theorem Invariant.represents_restart (h : Invariant reread found s) (order : IterOrder String) :
    Represents reread s.memory.records ((s.backed.restart order).ensureCache reread found) :=
  Represents.load h.represents.current h.stored rfl

/-- After a restart every index is built from the records, and what may differ is what does not
come back from the storage as it was. -/
theorem Invariant.finding_restart_iff (h : Invariant reread found s) (order : IterOrder String) :
    Finding s.memory.records ((s.backed.restart order).ensureCache reread found) ↔
      RestartKeeps reread s := by
  have hfresh : Represents.Fresh reread s.memory.records
      ((s.backed.restart order).ensureCache reread found) :=
    Represents.fresh_ensureCache h.represents.current h.stored rfl
  constructor
  · intro hf id r hr hdid
    have hsame := hf.unchanged id r hr hdid
    rw [hfresh.cached, hr] at hsame
    exact some.inj hsame
  · intro hkeeps
    refine ⟨h.finding.unique, fun id r hr hdid => ?_, hfresh.theirDid, hfresh.authKey, hfresh.kaKey⟩
    rw [hfresh.cached, hr, map_some, hkeeps id r hr hdid]

/-- **One call.**  It keeps the connections behind both repositories, and the lookups find what
they should after it exactly when it meets the condition. -/
theorem Invariant.step (h : Invariant reread found s) (call : Call Value)
    (hstep : step reread found s call = some t) :
    Represents reread t.memory.records (t.backed.ensureCache reread found) ∧
      (Finding t.memory.records (t.backed.ensureCache reread found) ↔
        Keeps reread found s call) := by
  have hput : ∀ record : CurrentRecord Value,
      t = ⟨⟨s.memory.records.insert record.1.id record⟩,
        (s.backed.ensureCache reread found).put record⟩ →
      Represents reread t.memory.records (t.backed.ensureCache reread found) ∧
        (Finding t.memory.records (t.backed.ensureCache reread found) ↔
          PutKeeps reread found s record) := by
    rintro record rfl
    refine ⟨h.represents.put record.2, (h.finding.put_iff record).trans ?_⟩
    exact ⟨fun ⟨hu, hd, ha, hk⟩ => ⟨hu, hd, ha, hk⟩, fun hk => ⟨hk.1, hk.2, hk.3, hk.4⟩⟩
  have hsame : ∀ {P : Prop}, P → t.memory = s.memory →
      t.backed = s.backed.ensureCache reread found →
      Represents reread t.memory.records (t.backed.ensureCache reread found) ∧
        (Finding t.memory.records (t.backed.ensureCache reread found) ↔ P) := by
    intro P hP hmemory hbacked
    obtain ⟨hrep, hfind⟩ := h.unchanged hmemory hbacked
    exact ⟨hrep, iff_of_true hfind hP⟩
  cases call with
  | save record =>
    have ht := some.inj hstep
    by_cases hmem : record.1.id ∈ s.memory.records
    · have hcached := (h.represents.mem_cached record.1.id).2 hmem
      refine hsame (.inl hmem) ?_ ?_
      · rw [← ht, ConnectionRepository.save, if_pos hmem]
      · rw [← ht, save, if_pos hcached]
    · have hcached := fun hc => hmem ((h.represents.mem_cached record.1.id).1 hc)
      rw [ConnectionRepository.save, if_neg hmem, save, if_neg hcached] at ht
      obtain ⟨hrep, hiff⟩ := hput record ht.symm
      exact ⟨hrep, hiff.trans (or_iff_right hmem).symm⟩
  | update record =>
    have ht := some.inj hstep
    by_cases hmem : record.1.id ∈ s.memory.records
    · have hcached := (h.represents.mem_cached record.1.id).2 hmem
      rw [ConnectionRepository.update, if_pos hmem, update, if_pos hcached] at ht
      obtain ⟨hrep, hiff⟩ := hput record ht.symm
      exact ⟨hrep, hiff.trans (or_iff_right (not_not_intro hmem)).symm⟩
    · have hcached := fun hc => hmem ((h.represents.mem_cached record.1.id).1 hc)
      refine hsame (.inl hmem) ?_ ?_
      · rw [← ht, ConnectionRepository.update, if_neg hmem]
      · rw [← ht, update, if_neg hcached]
  | delete id =>
    have ht := some.inj hstep
    by_cases hmem : id ∈ s.memory.records
    · have hcached := (h.represents.mem_cached id).2 hmem
      rw [ConnectionRepository.delete, if_pos hmem, delete, if_pos hcached] at ht
      subst ht
      refine ⟨h.represents.erase id, (h.finding.erase_iff h.represents id).trans ?_⟩
      exact ⟨fun ⟨ha, hk⟩ => ⟨ha, hk⟩, fun hk => ⟨hk.1, hk.2⟩⟩
    · have hcached := fun hc => hmem ((h.represents.mem_cached id).1 hc)
      refine hsame (h.deleteKeeps_of_notMem hmem) ?_ ?_
      · rw [← ht, ConnectionRepository.delete, if_neg hmem]
      · rw [← ht, delete, if_neg hcached]
  | restart order =>
    cases hstep
    exact ⟨h.represents_restart order, h.finding_restart_iff order⟩
  | findById id =>
    cases hstep
    exact hsame trivial rfl rfl
  | findByTheirDid did =>
    cases hstep
    exact hsame trivial rfl (fst_findByTheirDid did)
  | findByAuthKey key =>
    cases hstep
    exact hsame trivial rfl (congrArg Prod.fst (h.represents.findByAuthKey_eq key))
  | findByKaKey key =>
    cases hstep
    exact hsame trivial rfl (congrArg Prod.fst (h.represents.findByKaKey_eq key))

/-! ## Runs -/

theorem invariant_new (order : IterOrder String) :
    Invariant reread found (Repositories.new order : Repositories Value) := by
  have hcurrent : ∀ (id : String) (r : ConnectionRecord Value),
      (∅ : FMap String (ConnectionRecord Value)).lookup id = some r → r.id = id ∧ r.Current := by
    intro id r hr
    cases hr
  have hstored : ∀ id : String, (∅ : Storage Value).lookup id =
      ((∅ : FMap String (ConnectionRecord Value)).lookup id).map toStorageRecord := by
    intro id
    rw [lookup_empty]
    rfl
  have hfresh : Represents.Fresh reread ∅
      ((Repositories.new order : Repositories Value).backed.ensureCache reread found) :=
    Represents.fresh_ensureCache hcurrent hstored rfl
  have hempty : ∀ (id : String) (r : ConnectionRecord Value),
      (Repositories.new order : Repositories Value).memory.records.lookup id ≠ some r := by
    intro id r hr
    cases (lookup_empty id).symm.trans hr
  exact ⟨Represents.load hcurrent hstored rfl,
    ⟨fun id _ r _ _ hr => absurd hr (hempty id r), fun id r hr => absurd hr (hempty id r),
      hfresh.theirDid, hfresh.authKey, hfresh.kaKey⟩⟩

theorem Invariant.agrees (h : Invariant reread found s) : Agrees reread found s :=
  h.represents.agrees_iff_finding.2 h.finding

theorem Invariant.not_agrees (h : Invariant reread found s) (call : Call Value)
    (hstep : Connections.step reread found s call = some t) (hbad : ¬ Keeps reread found s call) :
    ¬ Agrees reread found t := by
  obtain ⟨hrep, hiff⟩ := h.step call hstep
  exact fun hagrees => hbad (hiff.1 (hrep.agrees_iff_finding.1 hagrees))

/-- **The repositories agree in every state of a run exactly when every call meets the
condition.** -/
theorem lookups_agree_iff (reread : Value → Option Value) (found order : IterOrder String)
    (calls : List (Call Value)) :
    (∀ s, Run.Visits (step reread found) (.new order) calls s → Agrees reread found s) ↔
      Run.Along (step reread found) (Keeps reread found) (.new order) calls := by
  refine Run.visits_iff_along_of_invariant (I := Invariant reread found) ?_
    (fun _ h => h.agrees) ?_ (invariant_new order)
  · intro s call t h hkeeps hstep
    obtain ⟨hrep, hiff⟩ := h.step call hstep
    exact ⟨hrep, hiff.2 hkeeps⟩
  · intro s call h hbad
    obtain ⟨t, ht⟩ : ∃ t, step reread found s call = some t := by
      cases call <;> exact ⟨_, rfl⟩
    exact ⟨t, ht, h.not_agrees call ht hbad⟩

/-- A connection whose peer goes by `did`. -/
def Sample.connection (did : String) : ConnectionRecord Unit :=
  (ConnectionRecord.new "conn-1" 0 .requester .completed "thread-1" "oob-1"
    "did:peer:1").setTheirDid
    1 did

theorem Sample.current {did : String} (h : '#' ∉ did.toList) : (connection did).Current where
  id := by
    show ConnectionRecord.isValidator "conn-1" = false
    decide
  theirDid did' hdid := by
    cases hdid
    exact h
  tag := rfl

def Sample.before : CurrentRecord Unit := ⟨connection "did:peer:2", current (by decide)⟩

def Sample.rotated : CurrentRecord Unit := ⟨connection "did:peer:3", current (by decide)⟩

open Sample

theorem ensureCache_new (order : IterOrder String) :
    (new ∅ order).ensureCache reread found =
      { storage := ∅, cache := some ∅, indexes := .empty, order := order } := by
  have hload : load reread found ∅ = ∅ := by
    rw [load, Storage.findAll, values_empty]
    rfl
  rw [ensureCache]
  simp only [new, hload, values_empty]
  rfl

theorem save_new (order : IterOrder String) (record : ConnectionRecord Value) :
    ((new ∅ order).save reread found record).1 =
      ((new ∅ order).ensureCache reread found).put record := by
  rw [save, ensureCache_new, if_neg]
  exact notMem_empty

theorem mem_save_new (record : ConnectionRecord Value) :
    record.id ∈ (ConnectionRepository.new.save record).1.records := by
  rw [ConnectionRepository.save]
  exact mem_insert.2 (.inl rfl)

/-- The peer rotates its DID: the old DID still leads to the connection. -/
theorem lookups_agree_fails :
    ¬ ∀ (found order : IterOrder String) (calls : List (Call Unit)) (s : Repositories Unit),
      Run.Visits (step some found) (.new order) calls s → Agrees some found s := by
  intro hall
  have hagrees := hall .some .some [.save before, .update rotated] _ (.of_exec rfl)
  have hsave : Keeps some .some (.new .some) (.save before) := by
    right
    rw [Repositories.new]
    refine ⟨fun id r _ _ hr => ?_, fun _ _ => ?_, fun _ _ => ?_, fun _ _ => ?_⟩
    · cases (lookup_empty id).symm.trans hr
    all_goals
      rw [ensureCache_new]
      exact fun h => by cases (lookup_empty _).symm.trans h
  obtain ⟨hrep, hiff⟩ := (invariant_new IterOrder.some).step (.save before) rfl
  refine Invariant.not_agrees ⟨hrep, hiff.2 hsave⟩ (.update rotated) rfl ?_ hagrees
  rintro (hmem | hput)
  · exact hmem (mem_save_new _)
  · refine hput.theirDid "did:peer:2" (by decide) ?_
    rw [Repositories.new, save_new, ensureCache_put]
    exact (lookup_add _ _ _ _).trans (if_pos rfl)

end Idiom.Connections
