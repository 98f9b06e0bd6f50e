import DataAvailability.Db.Sql
import DataAvailability.Types

namespace DataAvailability.PgDB

open Codec Types Sql

/-- `INSERT INTO data_node.sync_tasks (task, block) ... ON CONFLICT (task) DO UPDATE SET block =
EXCLUDED.block, processed = NOW()`, run when the server's clock reads `now`. -/
def storeLastProcessedBlockSQL (now : Nat) (block : UInt64) (task : String)
    (t : Table SyncTask String SyncTask.task) : Table SyncTask String SyncTask.task :=
  match t.lookup task with
  | some _ => t.insertOrUpdate ⟨task, block, some now⟩
  | none => t.insertOrUpdate ⟨task, block, none⟩

def storeLastProcessedBlock (fault : Option DbError) (now : Nat) (block : UInt64) (task : String)
    (db : Tables) : Except DbError Unit × Tables :=
  match fault with
  | some err => (.error err, db)
  | none => (.ok (), { db with syncTasks := storeLastProcessedBlockSQL now block task db.syncTasks })

theorem storeLastProcessedBlockSQL_eq (now : Nat) (block : UInt64) (task : String)
    (t : Table SyncTask String SyncTask.task) :
    ∃ p, storeLastProcessedBlockSQL now block task t = t.insertOrUpdate ⟨task, block, p⟩ := by
  unfold storeLastProcessedBlockSQL
  split <;> exact ⟨_, rfl⟩

def getLastProcessedBlock (fault : Option DbError) (task : String) (db : Tables) :
    Except DbError UInt64 :=
  (·.block) <$> queryRow fault (db.syncTasks.lookup task)

def storeUnresolvedBatchesSQL (bk : BatchKey) (db : Tables) : Tables :=
  { db with unresolvedBatches := db.unresolvedBatches.insertOrIgnore ⟨bk.number, bk.hash.hex⟩ }

def storeUnresolvedBatchKeys (f : TxFaults) (bks : List BatchKey) (db : Tables) :
    Except DbError Unit × Tables :=
  execTx storeUnresolvedBatchesSQL f bks db

def getUnresolvedBatchKeysSQL (limit : Nat) (db : Tables) (rows : List UnresolvedBatch) : Prop :=
  Streams db.unresolvedBatches.rows limit rows

def getUnresolvedBatchKeys (f : RowsFault) (rows : List UnresolvedBatch) :
    Except DbError (List BatchKey) :=
  match f.query with
  | some err => .error err
  | none => scanRows (fun bk => ⟨bk.num, hexToHash bk.hash⟩) f.scan 0 rows

def deleteUnresolvedBatchKeysSQL (bk : BatchKey) (db : Tables) : Tables :=
  { db with
    unresolvedBatches :=
      db.unresolvedBatches.delete fun r => r.num = bk.number && r.hash = bk.hash.hex }

def deleteUnresolvedBatchKeys (f : TxFaults) (bks : List BatchKey) (db : Tables) :
    Except DbError Unit × Tables :=
  execTx deleteUnresolvedBatchKeysSQL f bks db

def storeOffChainDataSQL (d : OffChainData) (db : Tables) : Tables :=
  { db with
    offchainData := db.offchainData.insertOrUpdate ⟨d.key.hex, bytes2Hex d.value, d.batchNum⟩ }

def storeOffChainData (f : TxFaults) (od : List OffChainData) (db : Tables) :
    Except DbError Unit × Tables :=
  execTx storeOffChainDataSQL f od db

def decodeOffchainRow (r : OffchainRow) : OffChainData :=
  ⟨hexToHash r.key, fromHex r.value, r.batchNum⟩

def getOffChainData (fault : Option DbError) (key : Hash) (db : Tables) :
    Except DbError OffChainData :=
  match queryRow fault (db.offchainData.lookup key.hex) with
  | .error err => .error (if err = .errNoRows then .errStateNotSynchronized else err)
  | .ok r => .ok (decodeOffchainRow r)

def listOffchainDataSQL (keys : List Hash) (db : Tables) (rows : List OffchainRow) : Prop :=
  let selected := db.offchainData.rows.filter fun r => r.key ∈ keys.map Hash.hex
  Streams selected selected.length rows

def listOffChainData (f : RowsFault) (keys : List Hash) (rows : List OffchainRow) :
    Except DbError (List OffChainData) :=
  if keys.isEmpty then .ok []
  else
    match f.query with
    | some err => .error err
    | none => scanRows decodeOffchainRow f.scan 0 rows

theorem getUnresolvedBatchKeys_ok {f : RowsFault} {rows : List UnresolvedBatch} {l : List BatchKey}
    (h : getUnresolvedBatchKeys f rows = .ok l) : l = rows.map fun bk => ⟨bk.num, hexToHash bk.hash⟩ := by
  unfold getUnresolvedBatchKeys at h
  split at h
  · cases h
  · exact scanRows_ok h

theorem getOffChainData_ok {fault : Option DbError} {key : Hash} {db : Tables} {d : OffChainData}
    (h : getOffChainData fault key db = .ok d) :
    ∃ r, db.offchainData.lookup key.hex = some r ∧ d = decodeOffchainRow r := by
  unfold getOffChainData at h
  split at h
  · cases h
  · rename_i r hr
    exact ⟨r, queryRow_eq_ok hr, (Except.ok.inj h).symm⟩

theorem listOffChainData_ok {f : RowsFault} {keys : List Hash} {rows : List OffchainRow}
    {l : List OffChainData} (h : listOffChainData f keys rows = .ok l) :
    l = [] ∨ l = rows.map decodeOffchainRow := by
  unfold listOffChainData at h
  split at h
  · exact .inl (Except.ok.inj h).symm
  · split at h
    · cases h
    · exact .inr (scanRows_ok h)

def countOffchainData (fault : Option DbError) (db : Tables) : Except DbError UInt64 :=
  queryRow fault (some (UInt64.ofNat db.offchainData.rows.length))

def FailsUnchanged (r : Except DbError Unit × Tables) (db : Tables) : Prop :=
  (∃ err, r.1 = .error err) ∧ r.2 = db

theorem execTx_fails_unchanged {α : Type} (stmt : α → Tables → Tables) {f : TxFaults}
    {xs : List α} (db : Tables) (h : f.Hits xs.length) : FailsUnchanged (execTx stmt f xs db) db := by
  obtain ⟨err, he⟩ := execTx_error_of_hits stmt db h
  exact ⟨⟨err, he⟩, execTx_snd_of_ne_ok stmt (by simp [he])⟩

/-- Whichever statement of a batched write fails, and whether its rollback fails too, the
write returns an error and no prefix of the list is persisted. -/
theorem failed_writes_leave_tables (f : TxFaults) (db : Tables) :
    (∀ bks, f.Hits bks.length → FailsUnchanged (storeUnresolvedBatchKeys f bks db) db) ∧
    (∀ bks, f.Hits bks.length → FailsUnchanged (deleteUnresolvedBatchKeys f bks db) db) ∧
    (∀ od, f.Hits od.length → FailsUnchanged (storeOffChainData f od db) db) :=
  ⟨fun _ h => execTx_fails_unchanged _ db h, fun _ h => execTx_fails_unchanged _ db h,
    fun _ h => execTx_fails_unchanged _ db h⟩

theorem failed_writes_leave_tables_third :
    TxFaults.Hits { exec := some (2, .driver "conn reset"), rollback := some (.driver "closed") } 3 ∧
    FailsUnchanged (storeOffChainData
      { exec := some (2, .driver "conn reset"), rollback := some (.driver "closed") }
      [⟨FixedBytes.zero 32, [1], 1⟩, ⟨FixedBytes.zero 32, [2], 2⟩, ⟨FixedBytes.zero 32, [3], 3⟩]
      Tables.empty) Tables.empty :=
  let f : TxFaults := { exec := some (2, .driver "conn reset"), rollback := some (.driver "closed") }
  have h : f.Hits 3 := Or.inr (Or.inl ⟨2, _, rfl, by decide⟩)
  ⟨h, (failed_writes_leave_tables f Tables.empty).2.2 _ h⟩

end DataAvailability.PgDB
