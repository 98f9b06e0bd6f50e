import DataAvailability.Db.Refinement

namespace DataAvailability.Batches

open Codec Types Sql PgDB Refinement

section Tables

variable {R K : Type} [DecidableEq K] {pk : R → K}

omit [DecidableEq K] in
theorem table_eq_of_rows {t t' : Table R K pk} (h : t.rows = t'.rows) : t = t' := by
  cases t
  cases t'
  cases h
  rfl

theorem eq_of_keys_find? {l l' : List R} (hn : (l.map pk).Nodup) (hk : l.map pk = l'.map pk)
    (hf : ∀ k, l.find? (fun x => pk x = k) = l'.find? (fun x => pk x = k)) : l = l' := by
  induction l generalizing l' with
  | nil => simpa using hk.symm
  | cons x xs ih =>
    cases l' with
    | nil => cases hk
    | cons y ys =>
      simp only [List.map_cons, List.cons.injEq] at hk
      rw [List.map_cons, List.nodup_cons] at hn
      obtain rfl : x = y := by simpa [hk.1] using hf (pk x)
      refine congrArg _ (ih hn.2 hk.2 fun k => ?_)
      by_cases hxk : pk x = k
      · subst hxk
        have hys : pk x ∉ ys.map pk := hk.2 ▸ hn.1
        rw [List.find?_eq_none.2 (by simpa using hn.1), List.find?_eq_none.2 (by simpa using hys)]
      · simpa [List.find?_cons, hxk] using hf k

theorem table_eq_of_keys {t t' : Table R K pk} (hk : t.rows.map pk = t'.rows.map pk)
    (hf : ∀ k, t.lookup k = t'.lookup k) : t = t' :=
  table_eq_of_rows (eq_of_keys_find? t.nodup hk hf)

omit [DecidableEq K] in
theorem mem_keys_foldl (g : Table R K pk → R → Table R K pk)
    (hg : ∀ t r k, k ∈ (g t r).rows.map pk ↔ k = pk r ∨ k ∈ t.rows.map pk) (rs : List R)
    (t : Table R K pk) (k : K) :
    k ∈ (rs.foldl g t).rows.map pk ↔ k ∈ rs.map pk ∨ k ∈ t.rows.map pk := by
  induction rs generalizing t with
  | nil => simp
  | cons r rs ih => rw [List.foldl_cons, ih, hg, List.map_cons, List.mem_cons, or_left_comm, or_assoc]

theorem mem_keys_insertOrUpdate (t : Table R K pk) (r : R) (k : K) :
    k ∈ (t.insertOrUpdate r).rows.map pk ↔ k = pk r ∨ k ∈ t.rows.map pk :=
  mem_map_upsert pk r t.rows k

theorem mem_keys_insertOrIgnore (t : Table R K pk) (r : R) (k : K) :
    k ∈ (t.insertOrIgnore r).rows.map pk ↔ k = pk r ∨ k ∈ t.rows.map pk := by
  unfold Table.insertOrIgnore
  split
  · exact ⟨Or.inr, fun h => h.elim (· ▸ ‹_›) id⟩
  · simp [or_comm]

theorem keys_upsert_of_mem {r : R} {l : List R} (h : pk r ∈ l.map pk) :
    (upsert pk r l).map pk = l.map pk := by
  induction l with
  | nil => cases h
  | cons x xs ih =>
    by_cases hx : pk x = pk r
    · simp [upsert, hx]
    · simp only [List.map_cons, List.mem_cons] at h
      simp [upsert, hx, ih (h.resolve_left (Ne.symm hx))]

theorem keys_insertOrUpdate_of_mem {t : Table R K pk} {r : R} (h : pk r ∈ t.rows.map pk) :
    (t.insertOrUpdate r).rows.map pk = t.rows.map pk :=
  keys_upsert_of_mem h

theorem keys_foldl_insertOrUpdate_of_mem {rs : List R} {t : Table R K pk}
    (h : ∀ r ∈ rs, pk r ∈ t.rows.map pk) :
    (rs.foldl Table.insertOrUpdate t).rows.map pk = t.rows.map pk := by
  induction rs generalizing t with
  | nil => rfl
  | cons r rs ih =>
    have hr := keys_insertOrUpdate_of_mem (h r (List.mem_cons_self r rs))
    rw [List.foldl_cons, ih fun r' hr' => hr ▸ h r' (List.mem_cons_of_mem r hr'), hr]

theorem insertOrUpdate_of_lookup {t : Table R K pk} {r : R} (h : t.lookup (pk r) = some r) :
    t.insertOrUpdate r = t := by
  refine table_eq_of_keys (keys_insertOrUpdate_of_mem
    (List.mem_map_of_mem pk (Table.lookup_eq_some h).1)) fun k => ?_
  rw [Table.lookup_insertOrUpdate]
  split <;> simp_all

theorem lookup_foldl_insertOrUpdate (rs : List R) (t : Table R K pk) (k : K) :
    (rs.foldl Table.insertOrUpdate t).lookup k =
      (rs.reverse.find? fun x => pk x = k).or (t.lookup k) := by
  induction rs generalizing t with
  | nil => simp
  | cons r rs ih =>
    rw [List.foldl_cons, ih, Table.lookup_insertOrUpdate, List.reverse_cons, List.find?_append,
      Option.or_assoc]
    by_cases h : pk r = k <;> simp [h]

theorem foldl_insertOrUpdate_idem (rs : List R) (t : Table R K pk) :
    rs.foldl Table.insertOrUpdate (rs.foldl Table.insertOrUpdate t) =
      rs.foldl Table.insertOrUpdate t := by
  refine table_eq_of_keys (keys_foldl_insertOrUpdate_of_mem fun r hr => ?_) fun k => ?_
  · exact (mem_keys_foldl _ mem_keys_insertOrUpdate rs t _).2 (.inl (List.mem_map_of_mem pk hr))
  · rw [lookup_foldl_insertOrUpdate, lookup_foldl_insertOrUpdate, ← Option.or_assoc, Option.or_self]

theorem foldl_insertOrIgnore_idem (rs : List R) (t : Table R K pk) :
    rs.foldl Table.insertOrIgnore (rs.foldl Table.insertOrIgnore t) =
      rs.foldl Table.insertOrIgnore t := by
  have hpresent : ∀ r ∈ rs, pk r ∈ (rs.foldl Table.insertOrIgnore t).rows.map pk := fun r hr =>
    (mem_keys_foldl _ mem_keys_insertOrIgnore rs t _).2 (.inl (List.mem_map_of_mem pk hr))
  generalize rs.foldl Table.insertOrIgnore t = t' at hpresent ⊢
  induction rs with
  | nil => rfl
  | cons r rs ih =>
    rw [List.foldl_cons, Table.insertOrIgnore, dif_pos (hpresent r (List.mem_cons_self r rs))]
    exact ih fun r' hr' => hpresent r' (List.mem_cons_of_mem r hr')

theorem rows_foldl_insertOrIgnore (rs : List R) (t : Table R K pk) :
    ∃ extra, (rs.foldl Table.insertOrIgnore t).rows = t.rows ++ extra ∧ ∀ x ∈ extra, x ∈ rs := by
  induction rs generalizing t with
  | nil => exact ⟨[], by simp, by simp⟩
  | cons r rs ih =>
    obtain ⟨extra, he, hx⟩ := ih (t.insertOrIgnore r)
    have hr : ∃ e, (t.insertOrIgnore r).rows = t.rows ++ e ∧ ∀ x ∈ e, x = r := by
      unfold Table.insertOrIgnore
      split
      · exact ⟨[], by simp, by simp⟩
      · exact ⟨[r], rfl, by simp⟩
    obtain ⟨e, hre, hex⟩ := hr
    refine ⟨e ++ extra, by rw [List.foldl_cons, he, hre, List.append_assoc], fun x hx' => ?_⟩
    rcases List.mem_append.1 hx' with h | h
    · exact hex x h ▸ List.mem_cons_self r rs
    · exact List.mem_cons_of_mem r (hx x h)

omit [DecidableEq K] in
theorem rows_foldl_delete (ps : List (R → Bool)) (t : Table R K pk) :
    (ps.foldl Table.delete t).rows = t.rows.filter fun r => ps.all fun p => !p r := by
  induction ps generalizing t with
  | nil => simp
  | cons p ps ih =>
    rw [List.foldl_cons, ih]
    simp only [Table.delete, List.filter_filter, List.all_cons, Bool.and_comm]

omit [DecidableEq K] in
theorem foldl_delete_idem (ps : List (R → Bool)) (t : Table R K pk) :
    ps.foldl Table.delete (ps.foldl Table.delete t) = ps.foldl Table.delete t :=
  table_eq_of_rows (by simp only [rows_foldl_delete, List.filter_filter, Bool.and_self])

end Tables

section Statements

theorem foldl_storeUnresolvedBatchesSQL (bks : List BatchKey) (db : Tables) :
    bks.foldl (fun db bk => storeUnresolvedBatchesSQL bk db) db =
      { db with
        unresolvedBatches := (bks.map fun bk => ⟨bk.number, bk.hash.hex⟩).foldl
          Table.insertOrIgnore db.unresolvedBatches } := by
  induction bks generalizing db with
  | nil => rfl
  | cons bk bks ih => exact ih _

theorem foldl_deleteUnresolvedBatchKeysSQL (bks : List BatchKey) (db : Tables) :
    bks.foldl (fun db bk => deleteUnresolvedBatchKeysSQL bk db) db =
      { db with
        unresolvedBatches := (bks.map fun bk r => r.num = bk.number && r.hash = bk.hash.hex).foldl
          Table.delete db.unresolvedBatches } := by
  induction bks generalizing db with
  | nil => rfl
  | cons bk bks ih => exact ih _

theorem foldl_storeOffChainDataSQL (od : List OffChainData) (db : Tables) :
    od.foldl (fun db d => storeOffChainDataSQL d db) db =
      { db with
        offchainData := (od.map fun d => ⟨d.key.hex, bytes2Hex d.value, d.batchNum⟩).foldl
          Table.insertOrUpdate db.offchainData } := by
  induction od generalizing db with
  | nil => rfl
  | cons d od ih => exact ih _

end Statements

section Tx

variable {α : Type} (stmt : α → Tables → Tables)

theorem execTx_no_faults (xs : List α) (db : Tables) :
    execTx stmt {} xs db = (.ok (), xs.foldl (fun db x => stmt x db) db) := by
  simp [execTx, execEach_eq_ok stmt none xs 0 db fun _ _ _ => rfl]

theorem execTx_append {f : TxFaults} {xs ys : List α} {db : Tables}
    (h : (execTx stmt f (xs ++ ys) db).1 = .ok ()) :
    (execTx stmt f (xs ++ ys) db).2 = (execTx stmt {} ys (execTx stmt {} xs db).2).2 := by
  rw [execTx_ok stmt h, execTx_no_faults, execTx_no_faults, List.foldl_append]

theorem execTx_replay {f : TxFaults} {xs : List α} {db : Tables}
    (hidem : xs.foldl (fun db x => stmt x db) (xs.foldl (fun db x => stmt x db) db) =
      xs.foldl (fun db x => stmt x db) db)
    (h : (execTx stmt f xs db).1 = .ok ()) (f' : TxFaults) :
    (execTx stmt f' xs (execTx stmt f xs db).2).2 = (execTx stmt f xs db).2 := by
  rw [execTx_ok stmt h]
  by_cases h' : (execTx stmt f' xs (xs.foldl (fun db x => stmt x db) db)).1 = .ok ()
  · rw [execTx_ok stmt h', hidem]
  · exact execTx_snd_of_ne_ok stmt h'

theorem execEach_error_at (err : DbError) {i j : Nat} (xs : List α) (tx : Tables) (hij : i ≤ j)
    (hj : j < i + xs.length) : execEach stmt (some (j, err)) i xs tx = .error err := by
  induction xs generalizing i tx with
  | nil => simp at hj; omega
  | cons x xs ih =>
    unfold execEach
    by_cases hji : j = i
    · simp [failsAt, hji]
    · simpa [failsAt, hji] using ih (stmt x tx) (by omega : i + 1 ≤ j) (by simp at hj; omega)

theorem execTx_exec_error {f : TxFaults} {xs : List α} {i : Nat} {err : DbError} (db : Tables)
    (hb : f.begin = none) (he : f.exec = some (i, err)) (hi : i < xs.length) :
    execTx stmt f xs db = (.error (rollbackError f.rollback err), db) := by
  simp only [execTx, hb, he, execEach_error_at stmt err xs db (Nat.zero_le i) (by omega)]

end Tx

theorem error_rollbackError (rb : Option DbError) (err : DbError) :
    ∃ pre, (rollbackError rb err).error = pre ++ err.error := by
  cases rb with
  | none => exact ⟨"", (String.empty_append _).symm⟩
  | some txErr => exact ⟨txErr.error ++ ": rollback caused by ", rfl⟩

/-- A batched write that commits leaves the tables as two fault-free calls on the two parts of
its list, one after the other: splitting a batch changes neither what is stored nor the order
of the rows. -/
theorem batched_writes_split (f : TxFaults) (db : Tables) :
    (∀ bks bks', (storeUnresolvedBatchKeys f (bks ++ bks') db).1 = .ok () →
      (storeUnresolvedBatchKeys f (bks ++ bks') db).2 =
        (storeUnresolvedBatchKeys {} bks' (storeUnresolvedBatchKeys {} bks db).2).2) ∧
    (∀ bks bks', (deleteUnresolvedBatchKeys f (bks ++ bks') db).1 = .ok () →
      (deleteUnresolvedBatchKeys f (bks ++ bks') db).2 =
        (deleteUnresolvedBatchKeys {} bks' (deleteUnresolvedBatchKeys {} bks db).2).2) ∧
    (∀ od od', (storeOffChainData f (od ++ od') db).1 = .ok () →
      (storeOffChainData f (od ++ od') db).2 =
        (storeOffChainData {} od' (storeOffChainData {} od db).2).2) :=
  ⟨fun _ _ => execTx_append _, fun _ _ => execTx_append _, fun _ _ => execTx_append _⟩

theorem batched_writes_split_halves :
    let b1 : BatchKey := ⟨1, .zero 32⟩
    let b2 : BatchKey := ⟨2, .zero 32⟩
    let d1 : OffChainData := ⟨.zero 32, [1], 1⟩
    let d2 : OffChainData := ⟨.zero 32, [2], 2⟩
    let db := (storeUnresolvedBatchKeys {} [b1, b2] Tables.empty).2
    (storeUnresolvedBatchKeys {} [b1, b2] Tables.empty).2 =
      (storeUnresolvedBatchKeys {} [b2] (storeUnresolvedBatchKeys {} [b1] Tables.empty).2).2 ∧
    (deleteUnresolvedBatchKeys {} [b1, b2] db).2 =
      (deleteUnresolvedBatchKeys {} [b2] (deleteUnresolvedBatchKeys {} [b1] db).2).2 ∧
    (storeOffChainData {} [d1, d2] Tables.empty).2 =
      (storeOffChainData {} [d2] (storeOffChainData {} [d1] Tables.empty).2).2 :=
  ⟨(batched_writes_split {} Tables.empty).1 [_] [_] rfl,
    (batched_writes_split {} _).2.1 [_] [_] rfl, (batched_writes_split {} Tables.empty).2.2 [_] [_] rfl⟩

section Cursor

variable {db : Tables} {task : String} {block : UInt64} {p₁ : Option Nat}

theorem lookup_storeLastProcessedBlockSQL (now : Nat) (block : UInt64) (task : String)
    (t : Table SyncTask String SyncTask.task) :
    ∃ p₁, (storeLastProcessedBlockSQL now block task t).lookup task = some ⟨task, block, p₁⟩ := by
  obtain ⟨p₁, hp⟩ := storeLastProcessedBlockSQL_eq now block task t
  exact ⟨p₁, by rw [hp, Table.lookup_insertOrUpdate, if_pos rfl]⟩

theorem storeLastProcessedBlock_of_lookup (h : db.syncTasks.lookup task = some ⟨task, block, p₁⟩)
    (fault : Option DbError) (now : Nat) :
    ∃ p, (storeLastProcessedBlock fault now block task db).2 =
      { db with syncTasks := db.syncTasks.insertOrUpdate ⟨task, block, p⟩ } := by
  cases fault with
  | some err => exact ⟨p₁, by rw [insertOrUpdate_of_lookup h]; rfl⟩
  | none => exact ⟨some now, by simp only [storeLastProcessedBlock, storeLastProcessedBlockSQL, h]⟩

theorem cursor_insertOrUpdate_of_lookup (h : db.syncTasks.lookup task = some ⟨task, block, p₁⟩)
    (p : Option Nat) :
    (Refinement.abs { db with syncTasks := db.syncTasks.insertOrUpdate ⟨task, block, p⟩ }).cursor =
      (Refinement.abs db).cursor := by
  funext k
  simp only [Refinement.abs, Table.lookup_insertOrUpdate]
  split <;> simp_all

end Cursor

/-- A write that returned without error, sent again with the same arguments, whether the second
call commits or fails: each batched writer leaves every table exactly as the first call left it;
`StoreLastProcessedBlock` leaves every table as the first call left it but for the `processed`
column of the task's row, which its `ON CONFLICT` branch rewrites with `NOW()`, so
`GetLastProcessedBlock` answers as before for every task. Each writer can be retried after a lost
acknowledgement. -/
theorem writes_replay (db : Tables) :
    (∀ fault fault' now now' block task, (storeLastProcessedBlock fault now block task db).1 = .ok () →
      (∃ p, (storeLastProcessedBlock fault' now' block task
          (storeLastProcessedBlock fault now block task db).2).2 =
        { (storeLastProcessedBlock fault now block task db).2 with
          syncTasks := (storeLastProcessedBlock fault now block task db).2.syncTasks.insertOrUpdate
            ⟨task, block, p⟩ }) ∧
      ∀ fault'' t, getLastProcessedBlock fault'' t
          (storeLastProcessedBlock fault' now' block task
            (storeLastProcessedBlock fault now block task db).2).2 =
        getLastProcessedBlock fault'' t (storeLastProcessedBlock fault now block task db).2) ∧
    (∀ f f' bks, (storeUnresolvedBatchKeys f bks db).1 = .ok () →
      (storeUnresolvedBatchKeys f' bks (storeUnresolvedBatchKeys f bks db).2).2 =
        (storeUnresolvedBatchKeys f bks db).2) ∧
    (∀ f f' bks, (deleteUnresolvedBatchKeys f bks db).1 = .ok () →
      (deleteUnresolvedBatchKeys f' bks (deleteUnresolvedBatchKeys f bks db).2).2 =
        (deleteUnresolvedBatchKeys f bks db).2) ∧
    (∀ f f' od, (storeOffChainData f od db).1 = .ok () →
      (storeOffChainData f' od (storeOffChainData f od db).2).2 = (storeOffChainData f od db).2) := by
  refine ⟨fun fault fault' now now' block task h => ?_, fun f f' bks h => ?_, fun f f' bks h => ?_,
    fun f f' od h => ?_⟩
  · cases fault with
    | some err => cases h
    | none =>
      obtain ⟨p₁, hl⟩ := lookup_storeLastProcessedBlockSQL now block task db.syncTasks
      replace hl : (storeLastProcessedBlock none now block task db).2.syncTasks.lookup task =
          some ⟨task, block, p₁⟩ := hl
      obtain ⟨p, hp⟩ := storeLastProcessedBlock_of_lookup hl fault' now'
      refine ⟨⟨p, hp⟩, fun fault'' t => ?_⟩
      rw [getLastProcessedBlock_eq, getLastProcessedBlock_eq, hp, cursor_insertOrUpdate_of_lookup hl]
  · exact execTx_replay _ (by simp only [foldl_storeUnresolvedBatchesSQL, foldl_insertOrIgnore_idem]) h f'
  · exact execTx_replay _ (by simp only [foldl_deleteUnresolvedBatchKeysSQL, foldl_delete_idem]) h f'
  · exact execTx_replay _ (by simp only [foldl_storeOffChainDataSQL, foldl_insertOrUpdate_idem]) h f'

theorem writes_replay_twice :
    let bk : BatchKey := ⟨1, .zero 32⟩
    let d : OffChainData := ⟨.zero 32, [1], 1⟩
    let db1 := (storeLastProcessedBlock none 1 5 "sync" Tables.empty).2
    ((∃ p, (storeLastProcessedBlock none 2 5 "sync" db1).2 =
        { db1 with syncTasks := db1.syncTasks.insertOrUpdate ⟨"sync", 5, p⟩ }) ∧
      ∀ fault t, getLastProcessedBlock fault t (storeLastProcessedBlock none 2 5 "sync" db1).2 =
        getLastProcessedBlock fault t db1) ∧
    (storeLastProcessedBlock none 2 5 "sync" db1).2.syncTasks.rows = [⟨"sync", 5, some 2⟩] ∧
    (storeUnresolvedBatchKeys {} [bk] (storeUnresolvedBatchKeys {} [bk] Tables.empty).2).2 =
      (storeUnresolvedBatchKeys {} [bk] Tables.empty).2 ∧
    (deleteUnresolvedBatchKeys {} [bk] (deleteUnresolvedBatchKeys {} [bk] Tables.empty).2).2 =
      (deleteUnresolvedBatchKeys {} [bk] Tables.empty).2 ∧
    (storeOffChainData {} [d] (storeOffChainData {} [d] Tables.empty).2).2 =
      (storeOffChainData {} [d] Tables.empty).2 :=
  ⟨(writes_replay Tables.empty).1 none none 1 2 5 "sync" rfl, rfl,
    (writes_replay Tables.empty).2.1 {} {} _ rfl, (writes_replay Tables.empty).2.2.1 {} {} _ rfl,
    (writes_replay Tables.empty).2.2.2 {} {} _ rfl⟩

/-- When the statement for element `i` of a batched write fails, the write returns that
statement's error, wrapped with the rollback's error when the rollback fails as well, so its
message ends with the statement's own; the tables stay as they were. -/
theorem failed_write_reports_statement_error (f : TxFaults) (db : Tables) {i : Nat} {err : DbError}
    (hb : f.begin = none) (he : f.exec = some (i, err)) :
    (∀ bks, i < bks.length →
      storeUnresolvedBatchKeys f bks db = (.error (rollbackError f.rollback err), db)) ∧
    (∀ bks, i < bks.length →
      deleteUnresolvedBatchKeys f bks db = (.error (rollbackError f.rollback err), db)) ∧
    (∀ od, i < od.length → storeOffChainData f od db = (.error (rollbackError f.rollback err), db)) ∧
    ∃ pre, (rollbackError f.rollback err).error = pre ++ err.error :=
  ⟨fun _ => execTx_exec_error _ db hb he, fun _ => execTx_exec_error _ db hb he,
    fun _ => execTx_exec_error _ db hb he, error_rollbackError _ _⟩

theorem failed_write_reports_statement_error_second :
    let f : TxFaults := { exec := some (1, .driver "conn reset"), rollback := some (.driver "tx closed") }
    let bks : List BatchKey := [⟨1, .zero 32⟩, ⟨2, .zero 32⟩]
    let od : List OffChainData := [⟨.zero 32, [1], 1⟩, ⟨.zero 32, [2], 2⟩]
    let e : DbError := .rollbackCausedBy (.driver "tx closed") (.driver "conn reset")
    storeUnresolvedBatchKeys f bks Tables.empty = (.error e, Tables.empty) ∧
    deleteUnresolvedBatchKeys f bks Tables.empty = (.error e, Tables.empty) ∧
    storeOffChainData f od Tables.empty = (.error e, Tables.empty) ∧
    ∃ pre, e.error = pre ++ "conn reset" :=
  have h := failed_write_reports_statement_error
    { exec := some (1, .driver "conn reset"), rollback := some (.driver "tx closed") } Tables.empty
    rfl rfl
  ⟨h.1 _ (by decide), h.2.1 _ (by decide), h.2.2.1 _ (by decide), h.2.2.2⟩

/-- Keys stored as unresolved and then deleted, both calls committing, leave the tables exactly
as they were when none of the keys was stored before: a batch that is resolved leaves no trace. -/
theorem store_then_delete_unresolved (f f' : TxFaults) (bks : List BatchKey) (db : Tables)
    (hnew : ∀ bk ∈ bks, (⟨bk.number, bk.hash.hex⟩ : UnresolvedBatch) ∉ db.unresolvedBatches.rows)
    (h : (storeUnresolvedBatchKeys f bks db).1 = .ok ())
    (h' : (deleteUnresolvedBatchKeys f' bks (storeUnresolvedBatchKeys f bks db).2).1 = .ok ()) :
    (deleteUnresolvedBatchKeys f' bks (storeUnresolvedBatchKeys f bks db).2).2 = db := by
  rw [deleteUnresolvedBatchKeys, execTx_ok _ h', storeUnresolvedBatchKeys, execTx_ok _ h,
    foldl_storeUnresolvedBatchesSQL, foldl_deleteUnresolvedBatchKeysSQL]
  obtain ⟨extra, he, hx⟩ := rows_foldl_insertOrIgnore
    (bks.map fun bk => (⟨bk.number, bk.hash.hex⟩ : UnresolvedBatch)) db.unresolvedBatches
  suffices hrows : _ = db.unresolvedBatches.rows from
    congrArg (fun t => { db with unresolvedBatches := t }) (table_eq_of_rows hrows)
  have hkeep : ∀ x ∈ db.unresolvedBatches.rows, ∀ bk ∈ bks,
      (x.num = bk.number && x.hash = bk.hash.hex) = false := by
    intro ⟨n, hs⟩ hx' bk hbk
    by_cases hn : n = bk.number
    · subst hn
      simpa using fun he' : hs = bk.hash.hex => hnew bk hbk (he' ▸ hx')
    · simp [hn]
  have hdrop : ∀ x ∈ extra, ∃ bk ∈ bks, (x.num = bk.number && x.hash = bk.hash.hex) = true := by
    intro x hx'
    obtain ⟨bk, hbk, rfl⟩ := List.mem_map.1 (hx x hx')
    exact ⟨bk, hbk, by simp⟩
  simp only [rows_foldl_delete, he, List.filter_append, List.all_map]
  rw [List.filter_eq_self.2 fun x hx' => ?_, List.filter_eq_nil_iff.2 fun x hx' => ?_, List.append_nil]
  · simpa using hdrop x hx'
  · simpa using hkeep x hx'

theorem store_then_delete_unresolved_one :
    let bk : BatchKey := ⟨1, .zero 32⟩
    let db := (storeUnresolvedBatchKeys {} [⟨2, .zero 32⟩] Tables.empty).2
    (∀ k ∈ [bk], (⟨k.number, k.hash.hex⟩ : UnresolvedBatch) ∉ db.unresolvedBatches.rows) ∧
      (deleteUnresolvedBatchKeys {} [bk] (storeUnresolvedBatchKeys {} [bk] db).2).2 = db ∧
      db.unresolvedBatches.rows = [⟨2, Hash.hex (FixedBytes.zero 32)⟩] := by
  intro bk db
  have hnew : ∀ k ∈ [bk], (⟨k.number, k.hash.hex⟩ : UnresolvedBatch) ∉ db.unresolvedBatches.rows := by
    decide
  exact ⟨hnew, store_then_delete_unresolved {} {} _ db hnew rfl rfl, rfl⟩

end DataAvailability.Batches
