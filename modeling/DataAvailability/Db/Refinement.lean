import DataAvailability.Db.PgDB
import Mathlib.Data.Finset.Card

namespace DataAvailability.Refinement

open Codec Types Sql PgDB

/-- The Durable Store of the spec: a cursor per task, the set of unresolved batch keys, and
the stored payloads with their batch numbers keyed by hash; `keys` is the domain of
`offchain`. -/
structure Store where
  cursor : String → Option UInt64
  unresolved : Finset BatchKey
  offchain : Hash → Option (Bytes × UInt64)
  keys : Finset Hash
  mem_keys : ∀ h, h ∈ keys ↔ (offchain h).isSome

theorem Store.ext {S T : Store} (hc : S.cursor = T.cursor) (hu : S.unresolved = T.unresolved)
    (ho : S.offchain = T.offchain) : S = T := by
  obtain ⟨c, u, o, k, hk⟩ := S
  obtain ⟨c', u', o', k', hk'⟩ := T
  dsimp only at hc hu ho
  subst hc hu ho
  obtain rfl : k = k' := Finset.ext fun h => (hk h).trans (hk' h).symm
  rfl

namespace Store

def storeLastProcessedBlock (S : Store) (block : UInt64) (task : String) : Store :=
  { S with cursor := Function.update S.cursor task (some block) }

def storeUnresolvedBatchKeys (S : Store) (ks : List BatchKey) : Store :=
  { S with unresolved := S.unresolved ∪ ks.toFinset }

def deleteUnresolvedBatchKeys (S : Store) (ks : List BatchKey) : Store :=
  { S with unresolved := S.unresolved \ ks.toFinset }

def storeOffChainData (S : Store) (od : List OffChainData) : Store where
  cursor := S.cursor
  unresolved := S.unresolved
  offchain h :=
    match od.reverse.find? (·.key = h) with
    | some d => some (d.value, d.batchNum)
    | none => S.offchain h
  keys := S.keys ∪ (od.map (·.key)).toFinset
  mem_keys h := by
    dsimp only
    split
    · rename_i d hd
      have hk : d.key = h := by simpa using List.find?_some hd
      have hm : d ∈ od := List.mem_reverse.1 (List.mem_of_find?_eq_some hd)
      simp only [Option.isSome_some, iff_true, Finset.mem_union, List.mem_toFinset, List.mem_map]
      exact Or.inr ⟨d, hm, hk⟩
    · rename_i hd
      have hn : h ∉ od.map (·.key) := by
        simp only [List.find?_eq_none, List.mem_reverse, decide_eq_true_eq] at hd
        simpa using hd
      simp [hn, S.mem_keys]

end Store

theorem Store.storeOffChainData_cons (S : Store) (d : OffChainData) (ds : List OffChainData) :
    (S.storeOffChainData [d]).storeOffChainData ds = S.storeOffChainData (d :: ds) := by
  refine Store.ext rfl rfl (funext fun h => ?_)
  simp only [Store.storeOffChainData, List.reverse_cons, List.find?_append]
  cases ds.reverse.find? (·.key = h) <;> rfl

def absKey (r : UnresolvedBatch) : BatchKey := ⟨r.num, hexToHash r.hash⟩

/-- The store the three tables stand for, read through the decoders the readers use:
`HexToHash` on the `hash` and `key` columns, `FromHex` on `value`. -/
def abs (db : Tables) : Store where
  cursor task := (db.syncTasks.lookup task).map (·.block)
  unresolved := (db.unresolvedBatches.rows.map absKey).toFinset
  offchain h :=
    (db.offchainData.rows.find? (hexToHash ·.key = h)).map fun r => (fromHex r.value, r.batchNum)
  keys := (db.offchainData.rows.map (hexToHash ·.key)).toFinset
  mem_keys h := by simp [List.find?_isSome]

/-- Every string column holds what the writers' encoders produce: decoding and encoding
again gives the column back. -/
structure Canonical (db : Tables) : Prop where
  hash : ∀ r ∈ db.unresolvedBatches.rows, (hexToHash r.hash).hex = r.hash
  key : ∀ r ∈ db.offchainData.rows, (hexToHash r.key).hex = r.key
  value : ∀ r ∈ db.offchainData.rows, bytes2Hex (fromHex r.value) = r.value

theorem hexToHash_eq_iff {s : String} (hs : (hexToHash s).hex = s) (h : Hash) :
    hexToHash s = h ↔ s = h.hex :=
  ⟨fun he => hs.symm.trans (congrArg Hash.hex he), fun he => he ▸ hexToHash_hex h⟩

theorem find?_congr {α : Type} {p q : α → Bool} {l : List α} (h : ∀ x ∈ l, p x = q x) :
    l.find? p = l.find? q := by
  induction l with
  | nil => rfl
  | cons x xs ih =>
    simp only [List.find?_cons, h x (List.mem_cons_self x xs)]
    rw [ih fun y hy => h y (List.mem_cons_of_mem x hy)]

theorem abs_offchain {db : Tables} (hdb : Canonical db) (h : Hash) :
    (abs db).offchain h =
      (db.offchainData.lookup h.hex).map fun r => (fromHex r.value, r.batchNum) := by
  simp only [abs, Table.lookup]
  exact congrArg _ (find?_congr fun r hr => by simp only [hexToHash_eq_iff (hdb.key r hr)])

@[simp] theorem absKey_encode (bk : BatchKey) : absKey ⟨bk.number, bk.hash.hex⟩ = bk := by
  simp [absKey]

theorem absKey_eq_iff {r : UnresolvedBatch} (hr : (hexToHash r.hash).hex = r.hash) (bk : BatchKey) :
    absKey r = bk ↔ (r.num = bk.number && r.hash = bk.hash.hex) = true := by
  obtain ⟨n, h⟩ := bk
  simp [absKey, hexToHash_eq_iff hr]

section Statements

variable {db : Tables}

theorem abs_storeUnresolvedBatchesSQL (bk : BatchKey) (db : Tables) :
    abs (storeUnresolvedBatchesSQL bk db) = (abs db).storeUnresolvedBatchKeys [bk] := by
  refine Store.ext rfl (Finset.ext fun k => ?_) rfl
  simp only [abs, Store.storeUnresolvedBatchKeys, storeUnresolvedBatchesSQL, List.mem_toFinset,
    Finset.mem_union, List.mem_map, Table.mem_insertOrIgnore _ _ _ (fun _ _ h => h),
    List.mem_singleton]
  constructor
  · rintro ⟨r, rfl | hr, rfl⟩
    · exact Or.inr (absKey_encode bk)
    · exact Or.inl ⟨r, hr, rfl⟩
  · rintro (⟨r, hr, rfl⟩ | rfl)
    · exact ⟨r, Or.inr hr, rfl⟩
    · exact ⟨_, Or.inl rfl, absKey_encode k⟩

theorem Canonical.storeUnresolvedBatchesSQL (hdb : Canonical db) (bk : BatchKey) :
    Canonical (storeUnresolvedBatchesSQL bk db) := by
  refine { hdb with hash := fun r hr => ?_ }
  rcases (Table.mem_insertOrIgnore _ _ r (fun _ _ h => h)).1 hr with rfl | hr
  · exact congrArg Hash.hex (hexToHash_hex bk.hash)
  · exact hdb.hash r hr

theorem abs_deleteUnresolvedBatchKeysSQL (hdb : Canonical db) (bk : BatchKey) :
    abs (deleteUnresolvedBatchKeysSQL bk db) = (abs db).deleteUnresolvedBatchKeys [bk] := by
  refine Store.ext rfl (Finset.ext fun k => ?_) rfl
  simp only [abs, Store.deleteUnresolvedBatchKeys, deleteUnresolvedBatchKeysSQL, Table.mem_delete,
    List.mem_toFinset, List.mem_map, Finset.mem_sdiff, List.mem_singleton]
  constructor
  · rintro ⟨r, ⟨hr, hp⟩, rfl⟩
    exact ⟨⟨r, hr, rfl⟩, fun he => by simp [(absKey_eq_iff (hdb.hash r hr) bk).1 he] at hp⟩
  · rintro ⟨⟨r, hr, rfl⟩, hne⟩
    exact ⟨r, ⟨hr, by simpa using mt (absKey_eq_iff (hdb.hash r hr) bk).2 hne⟩, rfl⟩

theorem Canonical.deleteUnresolvedBatchKeysSQL (hdb : Canonical db) (bk : BatchKey) :
    Canonical (deleteUnresolvedBatchKeysSQL bk db) :=
  { hdb with hash := fun r hr => hdb.hash r ((Table.mem_delete _ _ r).1 hr).1 }

theorem Canonical.storeOffChainDataSQL (hdb : Canonical db) (d : OffChainData) :
    Canonical (storeOffChainDataSQL d db) := by
  refine { hdb with key := fun r hr => ?_, value := fun r hr => ?_ } <;>
    rcases mem_upsert hr with rfl | hr
  · exact congrArg Hash.hex (hexToHash_hex d.key)
  · exact hdb.key r hr
  · exact congrArg bytes2Hex (fromHex_bytes2Hex d.value)
  · exact hdb.value r hr

theorem abs_storeOffChainDataSQL (hdb : Canonical db) (d : OffChainData) :
    abs (storeOffChainDataSQL d db) = (abs db).storeOffChainData [d] := by
  refine Store.ext rfl rfl (funext fun h => ?_)
  rw [abs_offchain (hdb.storeOffChainDataSQL d)]
  simp only [storeOffChainDataSQL, Table.lookup_insertOrUpdate, Store.storeOffChainData,
    List.reverse_singleton, List.find?_singleton]
  by_cases hk : d.key = h
  · subst hk
    simp
  · have : d.key.hex ≠ h.hex := fun he => hk (hex_injective he)
    simp [hk, this, abs_offchain hdb]

theorem abs_foldl {α : Type} (stmt : α → Tables → Tables) (op : Store → α → Store)
    (hc : ∀ x db, Canonical db → Canonical (stmt x db))
    (ha : ∀ x db, Canonical db → abs (stmt x db) = op (abs db) x) (xs : List α)
    (hdb : Canonical db) :
    Canonical (xs.foldl (fun db x => stmt x db) db) ∧
      abs (xs.foldl (fun db x => stmt x db) db) = xs.foldl op (abs db) := by
  induction xs generalizing db with
  | nil => exact ⟨hdb, rfl⟩
  | cons x xs ih =>
    simp only [List.foldl_cons, ← ha x db hdb]
    exact ih (hc x db hdb)

theorem foldl_storeUnresolvedBatchKeys (S : Store) (ks : List BatchKey) :
    ks.foldl (fun S k => S.storeUnresolvedBatchKeys [k]) S = S.storeUnresolvedBatchKeys ks := by
  induction ks generalizing S with
  | nil => exact Store.ext rfl (by simp [Store.storeUnresolvedBatchKeys]) rfl
  | cons k ks ih =>
    rw [List.foldl_cons, ih]
    exact Store.ext rfl (Finset.ext fun x => by
      simp [Store.storeUnresolvedBatchKeys, or_left_comm]) rfl

theorem foldl_deleteUnresolvedBatchKeys (S : Store) (ks : List BatchKey) :
    ks.foldl (fun S k => S.deleteUnresolvedBatchKeys [k]) S = S.deleteUnresolvedBatchKeys ks := by
  induction ks generalizing S with
  | nil => exact Store.ext rfl (by simp [Store.deleteUnresolvedBatchKeys]) rfl
  | cons k ks ih =>
    rw [List.foldl_cons, ih]
    exact Store.ext rfl (Finset.ext fun x => by
      simp [Store.deleteUnresolvedBatchKeys, not_or, and_assoc]) rfl

theorem foldl_storeOffChainData (S : Store) (od : List OffChainData) :
    od.foldl (fun S d => S.storeOffChainData [d]) S = S.storeOffChainData od := by
  induction od generalizing S with
  | nil => exact Store.ext rfl rfl (funext fun h => rfl)
  | cons d ds ih => rw [List.foldl_cons, ih, Store.storeOffChainData_cons]

end Statements

inductive Write
  | storeLastProcessedBlock (fault : Option DbError) (now : Nat) (block : UInt64) (task : String)
  | storeUnresolvedBatchKeys (f : TxFaults) (bks : List BatchKey)
  | deleteUnresolvedBatchKeys (f : TxFaults) (bks : List BatchKey)
  | storeOffChainData (f : TxFaults) (od : List OffChainData)

namespace Write

def call : Write → Tables → Except DbError Unit × Tables
  | storeLastProcessedBlock fault now block task => PgDB.storeLastProcessedBlock fault now block task
  | storeUnresolvedBatchKeys f bks => PgDB.storeUnresolvedBatchKeys f bks
  | deleteUnresolvedBatchKeys f bks => PgDB.deleteUnresolvedBatchKeys f bks
  | storeOffChainData f od => PgDB.storeOffChainData f od

def spec : Write → Store → Store
  | storeLastProcessedBlock _ _ block task, S => S.storeLastProcessedBlock block task
  | storeUnresolvedBatchKeys _ bks, S => S.storeUnresolvedBatchKeys bks
  | deleteUnresolvedBatchKeys _ bks, S => S.deleteUnresolvedBatchKeys bks
  | storeOffChainData _ od, S => S.storeOffChainData od

end Write

def run (ws : List Write) : Tables := ws.foldl (fun db w => (w.call db).2) Tables.empty

theorem call_of_ne_ok {w : Write} {db : Tables} (h : (w.call db).1 ≠ .ok ()) :
    (w.call db).2 = db := by
  cases w with
  | storeLastProcessedBlock fault now block task =>
    cases fault
    · exact absurd rfl h
    · rfl
  | storeUnresolvedBatchKeys f bks | deleteUnresolvedBatchKeys f bks | storeOffChainData f od =>
    exact execTx_snd_of_ne_ok _ h

theorem call_refines {w : Write} {db : Tables} (hdb : Canonical db) (h : (w.call db).1 = .ok ()) :
    Canonical (w.call db).2 ∧ abs (w.call db).2 = w.spec (abs db) := by
  cases w with
  | storeLastProcessedBlock fault now block task =>
    cases fault
    · refine ⟨⟨hdb.hash, hdb.key, hdb.value⟩, Store.ext (funext fun t => ?_) rfl rfl⟩
      obtain ⟨p, hp⟩ := storeLastProcessedBlockSQL_eq now block task db.syncTasks
      simp only [Write.call, PgDB.storeLastProcessedBlock, hp]
      by_cases ht : task = t <;>
        simp [abs, Write.spec, Store.storeLastProcessedBlock, Table.lookup_insertOrUpdate,
          Function.update_apply, eq_comm, ht]
    · cases h
  | storeUnresolvedBatchKeys f bks =>
    rw [Write.call, PgDB.storeUnresolvedBatchKeys, execTx_ok _ h, Write.spec,
      ← foldl_storeUnresolvedBatchKeys]
    exact abs_foldl _ _ (fun x _ h => h.storeUnresolvedBatchesSQL x)
      (fun x db _ => abs_storeUnresolvedBatchesSQL x db) bks hdb
  | deleteUnresolvedBatchKeys f bks =>
    rw [Write.call, PgDB.deleteUnresolvedBatchKeys, execTx_ok _ h, Write.spec,
      ← foldl_deleteUnresolvedBatchKeys]
    exact abs_foldl _ _ (fun x _ h => h.deleteUnresolvedBatchKeysSQL x)
      (fun x _ h => abs_deleteUnresolvedBatchKeysSQL h x) bks hdb
  | storeOffChainData f od =>
    rw [Write.call, PgDB.storeOffChainData, execTx_ok _ h, Write.spec,
      ← foldl_storeOffChainData]
    exact abs_foldl _ _ (fun x _ h => h.storeOffChainDataSQL x)
      (fun x _ h => abs_storeOffChainDataSQL h x) od hdb

theorem canonical_call {w : Write} {db : Tables} (hdb : Canonical db) : Canonical (w.call db).2 := by
  by_cases h : (w.call db).1 = .ok ()
  · exact (call_refines hdb h).1
  · rw [call_of_ne_ok h]; exact hdb

theorem canonical_run (ws : List Write) : Canonical (run ws) := by
  suffices ∀ db, Canonical db → Canonical (ws.foldl (fun db w => (w.call db).2) db) from
    this _ ⟨by simp [Tables.empty, Table.empty], by simp [Tables.empty, Table.empty],
      by simp [Tables.empty, Table.empty]⟩
  induction ws with
  | nil => exact fun _ h => h
  | cons w ws ih => exact fun db h => ih _ (canonical_call h)

section Reads

variable {db : Tables}

theorem getLastProcessedBlock_eq (fault : Option DbError) (task : String) (db : Tables) :
    getLastProcessedBlock fault task db = queryRow fault ((abs db).cursor task) := by
  cases fault <;> cases h : db.syncTasks.lookup task <;> simp [getLastProcessedBlock, abs, queryRow, h]

theorem getOffChainData_eq (hdb : Canonical db) (fault : Option DbError) (key : Hash) :
    getOffChainData fault key db =
      match queryRow fault ((abs db).offchain key) with
      | .error err => .error (if err = .errNoRows then .errStateNotSynchronized else err)
      | .ok (value, batchNum) => .ok ⟨key, value, batchNum⟩ := by
  rw [abs_offchain hdb]
  cases fault with
  | some err => rfl
  | none =>
    cases h : db.offchainData.lookup key.hex with
    | none => simp [getOffChainData, queryRow, h]
    | some r =>
      have hk := (Table.lookup_eq_some h).2
      simp only [getOffChainData, queryRow, h, Option.map_some', decodeOffchainRow]
      rw [show r.key = key.hex from hk, hexToHash_hex]

theorem nodup_keys (hdb : Canonical db) :
    (db.offchainData.rows.map fun r => hexToHash r.key).Nodup := by
  rw [show (fun r : OffchainRow => hexToHash r.key) = hexToHash ∘ OffchainRow.key from rfl,
    ← List.map_map]
  refine db.offchainData.nodup.map_on fun a ha b hb he => ?_
  obtain ⟨x, hx, rfl⟩ := List.mem_map.1 ha
  obtain ⟨y, hy, rfl⟩ := List.mem_map.1 hb
  rw [← hdb.key x hx, ← hdb.key y hy, he]

theorem countOffchainData_eq (hdb : Canonical db) (fault : Option DbError) :
    countOffchainData fault db = queryRow fault (some (UInt64.ofNat (abs db).keys.card)) := by
  rw [countOffchainData, abs, List.toFinset_card_of_nodup (nodup_keys hdb), List.length_map]

theorem absKey_injOn (hdb : Canonical db) :
    ∀ x ∈ db.unresolvedBatches.rows, ∀ y ∈ db.unresolvedBatches.rows, absKey x = absKey y → x = y := by
  intro x hx y hy he
  simp only [absKey, BatchKey.mk.injEq] at he
  rw [UnresolvedBatch.mk.injEq, ← hdb.hash x hx, ← hdb.hash y hy, he.2]
  exact ⟨he.1, rfl⟩

theorem nodup_unresolved_rows (db : Tables) : db.unresolvedBatches.rows.Nodup := by
  simpa using db.unresolvedBatches.nodup

theorem getUnresolvedBatchKeys_sound (hdb : Canonical db) {limit : Nat}
    {rows : List UnresolvedBatch} (hq : getUnresolvedBatchKeysSQL limit db rows) {f : RowsFault}
    {l : List BatchKey} (h : getUnresolvedBatchKeys f rows = .ok l) :
    l.Nodup ∧ l.length ≤ limit ∧ ∀ k ∈ l, k ∈ (abs db).unresolved := by
  obtain rfl := getUnresolvedBatchKeys_ok h
  have hsub : ∀ r ∈ rows, r ∈ db.unresolvedBatches.rows := fun r hr => hq.mem hr
  refine ⟨(hq.nodup (nodup_unresolved_rows db)).map_on fun x hx y hy =>
      absKey_injOn hdb x (hsub x hx) y (hsub y hy), by simpa using hq.length_le, ?_⟩
  intro k hk
  obtain ⟨r, hr, rfl⟩ := List.mem_map.1 hk
  exact List.mem_toFinset.2 (List.mem_map_of_mem _ (hsub r hr))

theorem getUnresolvedBatchKeys_complete (hdb : Canonical db) {limit : Nat}
    {rows : List UnresolvedBatch} (hq : StreamsAll db.unresolvedBatches.rows limit rows) :
    ∃ l, getUnresolvedBatchKeys {} rows = .ok l ∧ l.length = min limit (abs db).unresolved.card := by
  obtain ⟨order, hp, rfl⟩ := hq
  refine ⟨_, scanRows_eq_ok _ _ 0, ?_⟩
  rw [abs, List.toFinset_card_of_nodup ((nodup_unresolved_rows db).map_on (absKey_injOn hdb)),
    List.length_map, List.length_map, List.length_take, hp.length_eq]

theorem mem_listOffchainDataSQL {keys : List Hash} {rows : List OffchainRow}
    (hq : listOffchainDataSQL keys db rows) {r : OffchainRow} (hr : r ∈ rows) :
    r ∈ db.offchainData.rows ∧ ∃ h ∈ keys, h.hex = r.key := by
  have := hq.mem hr
  simp only [List.mem_filter, List.mem_map, decide_eq_true_eq] at this
  exact this

theorem listOffChainData_sound (hdb : Canonical db) {keys : List Hash}
    {rows : List OffchainRow} (hq : listOffchainDataSQL keys db rows) {f : RowsFault}
    {l : List OffChainData} (h : listOffChainData f keys rows = .ok l) :
    (l.map (·.key)).Nodup ∧
      ∀ d ∈ l, d.key ∈ keys ∧ (abs db).offchain d.key = some (d.value, d.batchNum) := by
  rcases listOffChainData_ok h with rfl | rfl
  · simp
  refine ⟨?_, fun d hd => ?_⟩
  · obtain ⟨order, hp, hs⟩ := hq.sublist
    have hsel : ((db.offchainData.rows.filter fun r => r.key ∈ keys.map Hash.hex).map
        fun r => hexToHash r.key).Nodup :=
      (nodup_keys hdb).sublist ((List.filter_sublist _).map _)
    simpa [List.map_map, decodeOffchainRow] using ((hp.map _).nodup_iff.2 hsel).sublist (hs.map _)
  · obtain ⟨r, hr, rfl⟩ := List.mem_map.1 hd
    obtain ⟨hrow, k, hk, hkr⟩ := mem_listOffchainDataSQL hq hr
    simp only [decodeOffchainRow, ← hkr, hexToHash_hex, abs_offchain hdb]
    exact ⟨hk, by rw [hkr, Table.lookup_of_mem hrow]; rfl⟩

theorem listOffChainData_complete (hdb : Canonical db) {keys : List Hash}
    {rows : List OffchainRow}
    (hq : StreamsAll (db.offchainData.rows.filter fun r => r.key ∈ keys.map Hash.hex)
      (db.offchainData.rows.filter fun r => r.key ∈ keys.map Hash.hex).length rows) :
    ∃ l, listOffChainData {} keys rows = .ok l ∧
      ∀ k ∈ keys, ∀ value batchNum, (abs db).offchain k = some (value, batchNum) →
        ⟨k, value, batchNum⟩ ∈ l := by
  obtain ⟨order, hp, rfl⟩ := hq
  set sel := db.offchainData.rows.filter fun r => r.key ∈ keys.map Hash.hex
  refine ⟨(order.take sel.length).map decodeOffchainRow, ?_, fun k hk value batchNum hv => ?_⟩
  · cases keys with
    | nil => simpa [listOffChainData] using Or.inl (by simp [sel])
    | cons _ _ => exact scanRows_eq_ok _ _ 0
  · rw [abs_offchain hdb] at hv
    obtain ⟨r, hr, hrv⟩ := Option.map_eq_some'.1 hv
    obtain ⟨hrow, hkey⟩ := Table.lookup_eq_some hr
    rw [← hp.length_eq, List.take_length]
    refine List.mem_map.2 ⟨r, hp.mem_iff.2 (List.mem_filter.2 ⟨hrow, ?_⟩), ?_⟩
    · simpa [hkey] using List.mem_map_of_mem Hash.hex hk
    · simp only [decodeOffchainRow, hkey, hexToHash_hex]
      simp only [Prod.mk.injEq] at hrv
      rw [hrv.1, hrv.2]

end Reads

/-- From empty tables, after any sequence of calls, a write moves the abstract store by its
specification when it returns without error, and leaves it as it was when it fails. -/
theorem writes_refine_store (ws : List Write) (w : Write) :
    abs (w.call (run ws)).2 =
      match (w.call (run ws)).1 with
      | .ok () => w.spec (abs (run ws))
      | .error _ => abs (run ws) := by
  cases h : (w.call (run ws)).1 with
  | ok u => exact (call_refines (canonical_run ws) h).2
  | error e => rw [call_of_ne_ok (by simp [h])]

/-- From empty tables, after any sequence of calls, the single-row reads answer with what the
abstract store holds: the cursor, the payload under a key, the number of keys. -/
theorem single_reads_refine_store (ws : List Write) (fault : Option DbError) (task : String)
    (key : Hash) :
    getLastProcessedBlock fault task (run ws) = queryRow fault ((abs (run ws)).cursor task) ∧
    getOffChainData fault key (run ws) =
      (match queryRow fault ((abs (run ws)).offchain key) with
      | .error err => .error (if err = .errNoRows then .errStateNotSynchronized else err)
      | .ok (value, batchNum) => .ok ⟨key, value, batchNum⟩) ∧
    countOffchainData fault (run ws) =
      queryRow fault (some (UInt64.ofNat (abs (run ws)).keys.card)) :=
  ⟨getLastProcessedBlock_eq fault task _, getOffChainData_eq (canonical_run ws) fault key,
    countOffchainData_eq (canonical_run ws) fault⟩


/-- From empty tables, after any sequence of calls, the multi-row reads return distinct keys that
the abstract store holds, whatever rows the server streams; and, when the stream does not break
and nothing fails, all of them, up to `limit` for the unresolved keys. -/
theorem multi_reads_refine_store (ws : List Write) :
    (∀ limit rows f l, getUnresolvedBatchKeysSQL limit (run ws) rows →
      getUnresolvedBatchKeys f rows = .ok l →
      l.Nodup ∧ l.length ≤ limit ∧ ∀ k ∈ l, k ∈ (abs (run ws)).unresolved) ∧
    (∀ limit rows, StreamsAll (run ws).unresolvedBatches.rows limit rows →
      ∃ l, getUnresolvedBatchKeys {} rows = .ok l ∧
        l.length = min limit (abs (run ws)).unresolved.card) ∧
    (∀ keys rows f l, listOffchainDataSQL keys (run ws) rows → listOffChainData f keys rows = .ok l →
      (l.map (·.key)).Nodup ∧
        ∀ d ∈ l, d.key ∈ keys ∧ (abs (run ws)).offchain d.key = some (d.value, d.batchNum)) ∧
    (∀ keys rows,
      StreamsAll ((run ws).offchainData.rows.filter fun r => r.key ∈ keys.map Hash.hex)
        ((run ws).offchainData.rows.filter fun r => r.key ∈ keys.map Hash.hex).length rows →
      ∃ l, listOffChainData {} keys rows = .ok l ∧
        ∀ k ∈ keys, ∀ value batchNum, (abs (run ws)).offchain k = some (value, batchNum) →
          ⟨k, value, batchNum⟩ ∈ l) :=
  have hdb := canonical_run ws
  ⟨fun _ _ _ _ hq h => getUnresolvedBatchKeys_sound hdb hq h,
    fun _ _ hq => getUnresolvedBatchKeys_complete hdb hq,
    fun _ _ _ _ hq h => listOffChainData_sound hdb hq h,
    fun _ _ hq => listOffChainData_complete hdb hq⟩

def hashOf (b : UInt8) : Hash := ⟨List.replicate 31 0 ++ [b], by simp⟩

theorem multi_reads_refine_store_one_each :
    let bk : BatchKey := ⟨3, hashOf 3⟩
    let d : OffChainData := ⟨hashOf 1, [0xaa], 7⟩
    let ws := [Write.storeUnresolvedBatchKeys {} [bk], .storeOffChainData {} [d]]
    let ub : UnresolvedBatch := ⟨3, (hashOf 3).hex⟩
    let row : OffchainRow := ⟨d.key.hex, bytes2Hex d.value, d.batchNum⟩
    getUnresolvedBatchKeys {} [ub] = .ok [bk] ∧
      ([bk].Nodup ∧ [bk].length ≤ 1 ∧ ∀ k ∈ [bk], k ∈ (abs (run ws)).unresolved) ∧
      listOffChainData {} [d.key] [row] = .ok [d] ∧
      (([d].map (·.key)).Nodup ∧
        ∀ x ∈ [d], x.key ∈ [d.key] ∧ (abs (run ws)).offchain x.key = some (x.value, x.batchNum)) := by
  intro bk d ws ub row
  have hu : getUnresolvedBatchKeys {} [ub] = .ok [bk] := by
    simp only [getUnresolvedBatchKeys, scanRows, failsAt, hexToHash_hex, ub, bk]
    rfl
  have hl : listOffChainData {} [d.key] [row] = .ok [d] := by
    simp only [listOffChainData, scanRows, failsAt, decodeOffchainRow, hexToHash_hex,
      fromHex_bytes2Hex, row]
    rfl
  exact ⟨hu, (multi_reads_refine_store ws).1 1 [ub] {} [bk] ⟨[ub], by decide, by decide⟩ hu, hl,
    (multi_reads_refine_store ws).2.2.1 [d.key] [row] {} [d] ⟨[row], by decide, by decide⟩ hl⟩

/-- Two payloads stored in one call, both requested; the server's row stream breaks after the
first row. `Next` returns false, `rows.Err()` is not consulted, and the call returns one item
and no error while the store holds both. -/
theorem listOffChainData_partial_without_error :
    let d1 : OffChainData := ⟨hashOf 1, [0xaa], 7⟩
    let d2 : OffChainData := ⟨hashOf 2, [0xbb], 8⟩
    let db := run [.storeOffChainData {} [d1, d2]]
    let row1 : OffchainRow := ⟨d1.key.hex, bytes2Hex d1.value, d1.batchNum⟩
    listOffchainDataSQL [d1.key, d2.key] db [row1] ∧
      listOffChainData {} [d1.key, d2.key] [row1] = .ok [d1] ∧
      (abs db).offchain d2.key = some (d2.value, d2.batchNum) := by
  refine ⟨⟨[⟨(hashOf 1).hex, bytes2Hex [0xaa], 7⟩, ⟨(hashOf 2).hex, bytes2Hex [0xbb], 8⟩],
    by decide, by decide⟩, ?_, by decide⟩
  simp only [listOffChainData, scanRows, failsAt, decodeOffchainRow, hexToHash_hex,
    fromHex_bytes2Hex]
  rfl

end DataAvailability.Refinement
