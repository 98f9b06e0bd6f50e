import DataAvailability.Codec
import Mathlib.Data.List.Perm.Basic

namespace DataAvailability.Sql

inductive DbError
  | errNoRows
  | errStateNotSynchronized
  | driver (msg : String)
  | rollbackCausedBy (txErr err : DbError)
deriving DecidableEq, Repr

def DbError.error : DbError → String
  | .errNoRows => "sql: no rows in result set"
  | .errStateNotSynchronized => "state not synchronized"
  | .driver msg => msg
  | .rollbackCausedBy txErr err => txErr.error ++ ": rollback caused by " ++ err.error

section Table

variable {R K : Type} [DecidableEq K]

def upsert (pk : R → K) (r : R) : List R → List R
  | [] => [r]
  | x :: xs => if pk x = pk r then r :: xs else x :: upsert pk r xs

theorem mem_map_upsert (pk : R → K) (r : R) (l : List R) (k : K) :
    k ∈ (upsert pk r l).map pk ↔ k = pk r ∨ k ∈ l.map pk := by
  induction l with
  | nil => simp [upsert]
  | cons x xs ih =>
    by_cases hx : pk x = pk r
    · simp [upsert, hx]
    · simp only [upsert, hx, if_false, List.map_cons, List.mem_cons, ih]
      exact or_left_comm

theorem mem_upsert {pk : R → K} {r x : R} {l : List R} (hx : x ∈ upsert pk r l) :
    x = r ∨ x ∈ l := by
  induction l with
  | nil => simpa [upsert] using hx
  | cons y ys ih =>
    unfold upsert at hx
    split at hx <;> simp only [List.mem_cons] at hx
    · exact hx.imp_right (List.mem_cons_of_mem y)
    · exact hx.elim (fun h => Or.inr (h ▸ List.mem_cons_self y ys))
        fun h => (ih h).imp_right (List.mem_cons_of_mem y)

theorem nodup_upsert (pk : R → K) (r : R) {l : List R} (h : (l.map pk).Nodup) :
    ((upsert pk r l).map pk).Nodup := by
  induction l with
  | nil => simp [upsert]
  | cons x xs ih =>
    rw [List.map_cons, List.nodup_cons] at h
    by_cases hx : pk x = pk r
    · simpa [upsert, hx] using h
    · simp only [upsert, hx, if_false, List.map_cons, List.nodup_cons, mem_map_upsert, not_or]
      exact ⟨⟨not_false, h.1⟩, ih h.2⟩

theorem find?_upsert (pk : R → K) (r : R) (l : List R) (k : K) :
    (upsert pk r l).find? (fun x => pk x = k) =
      if pk r = k then some r else l.find? (fun x => pk x = k) := by
  induction l with
  | nil => by_cases h : pk r = k <;> simp [upsert, h]
  | cons x xs ih =>
    by_cases hx : pk x = pk r
    · by_cases h : pk r = k <;> simp [upsert, hx, h]
    · by_cases h : pk x = k
      · have : pk r ≠ k := fun h' => hx (h.trans h'.symm)
        rw [upsert, if_neg hx]
        simp [h, this]
      · simp [upsert, hx, h, ih]

theorem find?_key_of_mem {pk : R → K} {l : List R} (hl : (l.map pk).Nodup) {r : R} (hr : r ∈ l) :
    l.find? (fun x => pk x = pk r) = some r := by
  induction l with
  | nil => cases hr
  | cons x xs ih =>
    rw [List.map_cons, List.nodup_cons] at hl
    rcases List.mem_cons.1 hr with rfl | hr
    · simp
    · have : pk x ≠ pk r := fun he => hl.1 (he ▸ List.mem_map_of_mem pk hr)
      simp [this, ih hl.2 hr]

structure Table (R K : Type) (pk : R → K) where
  rows : List R
  nodup : (rows.map pk).Nodup

namespace Table

variable {pk : R → K}

def empty : Table R K pk := ⟨[], List.nodup_nil⟩

def lookup (t : Table R K pk) (k : K) : Option R := t.rows.find? fun r => pk r = k

def insertOrUpdate (t : Table R K pk) (r : R) : Table R K pk :=
  ⟨upsert pk r t.rows, nodup_upsert pk r t.nodup⟩

def insertOrIgnore (t : Table R K pk) (r : R) : Table R K pk :=
  if h : pk r ∈ t.rows.map pk then t
  else ⟨t.rows ++ [r], by simpa [List.nodup_append, t.nodup] using h⟩

def delete (t : Table R K pk) (p : R → Bool) : Table R K pk :=
  ⟨t.rows.filter (fun r => !p r), t.nodup.sublist ((List.filter_sublist _).map pk)⟩

theorem lookup_of_mem {t : Table R K pk} {r : R} (hr : r ∈ t.rows) : t.lookup (pk r) = some r :=
  find?_key_of_mem t.nodup hr

theorem lookup_eq_some {t : Table R K pk} {k : K} {r : R} (h : t.lookup k = some r) :
    r ∈ t.rows ∧ pk r = k :=
  ⟨List.mem_of_find?_eq_some h, by simpa using List.find?_some h⟩

theorem lookup_insertOrUpdate (t : Table R K pk) (r : R) (k : K) :
    (t.insertOrUpdate r).lookup k = if pk r = k then some r else t.lookup k :=
  find?_upsert pk r t.rows k

theorem mem_insertOrIgnore (t : Table R K pk) (r x : R) (hid : ∀ y ∈ t.rows, pk y = pk r → y = r) :
    x ∈ (t.insertOrIgnore r).rows ↔ x = r ∨ x ∈ t.rows := by
  unfold insertOrIgnore
  split
  · rename_i h
    obtain ⟨y, hy, he⟩ := List.mem_map.1 h
    constructor
    · exact Or.inr
    · rintro (rfl | hx)
      · exact hid y hy he ▸ hy
      · exact hx
  · simp [or_comm]

omit [DecidableEq K] in
theorem mem_delete (t : Table R K pk) (p : R → Bool) (x : R) :
    x ∈ (t.delete p).rows ↔ x ∈ t.rows ∧ p x = false := by
  simp [delete]

end Table

end Table

/-- A row of `data_node.sync_tasks`. `processed` is `none` while the row holds the column's
default, which the schema outside src/ sets, and the server's time once a conflict rewrote it
with `NOW()`. -/
structure SyncTask where
  task : String
  block : UInt64
  processed : Option Nat
deriving DecidableEq, Repr

structure UnresolvedBatch where
  num : UInt64
  hash : String
deriving DecidableEq, Repr

structure OffchainRow where
  key : String
  value : String
  batchNum : UInt64
deriving DecidableEq, Repr

structure Tables where
  syncTasks : Table SyncTask String SyncTask.task
  unresolvedBatches : Table UnresolvedBatch UnresolvedBatch id
  offchainData : Table OffchainRow String OffchainRow.key

def Tables.empty : Tables := ⟨.empty, .empty, .empty⟩

structure TxFaults where
  begin : Option DbError := none
  exec : Option (Nat × DbError) := none
  rollback : Option DbError := none
  commit : Option DbError := none
deriving DecidableEq, Repr

def failsAt : Option (Nat × DbError) → Nat → Option DbError
  | some (j, err), i => if j = i then some err else none
  | none, _ => none

section Tx

variable {α : Type} (stmt : α → Tables → Tables)

def execEach (fault : Option (Nat × DbError)) : Nat → List α → Tables → Except DbError Tables
  | _, [], tx => .ok tx
  | i, x :: xs, tx =>
    match failsAt fault i with
    | some err => .error err
    | none => execEach fault (i + 1) xs (stmt x tx)

def rollbackError : Option DbError → DbError → DbError
  | some txErr, err => .rollbackCausedBy txErr err
  | none, err => err

/-- The shape `StoreUnresolvedBatchKeys`, `DeleteUnresolvedBatchKeys` and `StoreOffChainData`
share: begin, one statement per element, roll back at the first error, commit. The committed
tables change only when the commit succeeds. -/
def execTx (f : TxFaults) (xs : List α) (db : Tables) : Except DbError Unit × Tables :=
  match f.begin with
  | some err => (.error err, db)
  | none =>
    match execEach stmt f.exec 0 xs db with
    | .error err => (.error (rollbackError f.rollback err), db)
    | .ok tx =>
      match f.commit with
      | some err => (.error err, db)
      | none => (.ok (), tx)

def TxFaults.Hits (f : TxFaults) (n : Nat) : Prop :=
  f.begin.isSome ∨ (∃ i err, f.exec = some (i, err) ∧ i < n) ∨ f.commit.isSome

theorem execEach_eq_ok (fault : Option (Nat × DbError)) (xs : List α) (i : Nat) (tx : Tables)
    (h : ∀ j, i ≤ j → j < i + xs.length → failsAt fault j = none) :
    execEach stmt fault i xs tx = .ok (xs.foldl (fun db x => stmt x db) tx) := by
  induction xs generalizing i tx with
  | nil => rfl
  | cons x xs ih =>
    simp only [execEach, h i le_rfl (by simp), List.foldl_cons]
    exact ih (i + 1) _ fun j hj hj' => h j (by omega) (by simp at hj' ⊢; omega)

theorem execEach_ok {fault : Option (Nat × DbError)} {xs : List α} {i : Nat} {tx tx' : Tables}
    (h : execEach stmt fault i xs tx = .ok tx') : tx' = xs.foldl (fun db x => stmt x db) tx := by
  induction xs generalizing i tx with
  | nil => exact (Except.ok.inj h).symm
  | cons x xs ih =>
    unfold execEach at h
    split at h
    · cases h
    · exact ih h

theorem execEach_error_of_lt {i j : Nat} (err : DbError) (xs : List α) (tx : Tables)
    (hij : i ≤ j) (hj : j < i + xs.length) :
    ∃ e, execEach stmt (some (j, err)) i xs tx = .error e := by
  induction xs generalizing i tx with
  | nil => simp at hj; omega
  | cons x xs ih =>
    unfold execEach
    by_cases hji : j = i
    · exact ⟨err, by simp [failsAt, hji]⟩
    · simpa [failsAt, hji] using ih (stmt x tx) (by omega : i + 1 ≤ j) (by simp at hj; omega)

theorem execTx_snd_of_ne_ok {f : TxFaults} {xs : List α} {db : Tables}
    (h : (execTx stmt f xs db).1 ≠ .ok ()) : (execTx stmt f xs db).2 = db := by
  unfold execTx at h ⊢
  split
  · rfl
  · split
    · rfl
    · split
      · rfl
      · simp_all

theorem execTx_ok {f : TxFaults} {xs : List α} {db : Tables}
    (h : (execTx stmt f xs db).1 = .ok ()) :
    (execTx stmt f xs db).2 = xs.foldl (fun db x => stmt x db) db := by
  unfold execTx at h ⊢
  split <;> simp_all
  split <;> simp_all
  rename_i tx htx
  split <;> simp_all
  exact execEach_ok stmt htx

theorem execTx_error_of_hits {f : TxFaults} {xs : List α} (db : Tables) (h : f.Hits xs.length) :
    ∃ e, (execTx stmt f xs db).1 = .error e := by
  unfold execTx
  rcases h with hb | ⟨i, err, he, hi⟩ | hc
  · obtain ⟨e, he⟩ := Option.isSome_iff_exists.1 hb
    exact ⟨e, by simp [he]⟩
  · split
    · exact ⟨_, rfl⟩
    · obtain ⟨e, he'⟩ := execEach_error_of_lt stmt err xs db (Nat.zero_le i) (by omega)
      exact ⟨_, by rw [he, he']⟩
  · obtain ⟨e, hc⟩ := Option.isSome_iff_exists.1 hc
    split
    · exact ⟨_, rfl⟩
    · split
      · exact ⟨_, rfl⟩
      · exact ⟨e, by simp [hc]⟩

end Tx

def queryRow {R : Type} : Option DbError → Option R → Except DbError R
  | some err, _ => .error err
  | none, none => .error .errNoRows
  | none, some r => .ok r

theorem queryRow_eq_ok {R : Type} {fault : Option DbError} {o : Option R} {r : R}
    (h : queryRow fault o = .ok r) : o = some r := by
  cases fault <;> cases o <;> simp_all [queryRow]

structure RowsFault where
  query : Option DbError := none
  scan : Option (Nat × DbError) := none
deriving DecidableEq, Repr

/-- The `for rows.Next()` loop: decode each row the driver hands over, returning at the first
`StructScan` that fails. `rows.Err()` is never consulted. -/
def scanRows {R β : Type} (decode : R → β) (fault : Option (Nat × DbError)) :
    Nat → List R → Except DbError (List β)
  | _, [] => .ok []
  | i, r :: rs =>
    match failsAt fault i with
    | some err => .error err
    | none => (decode r :: ·) <$> scanRows decode fault (i + 1) rs

theorem scanRows_ok {R β : Type} {decode : R → β} {fault : Option (Nat × DbError)} {i : Nat}
    {rows : List R} {l : List β} (h : scanRows decode fault i rows = .ok l) :
    l = rows.map decode := by
  induction rows generalizing i l with
  | nil => exact (Except.ok.inj h).symm
  | cons r rs ih =>
    unfold scanRows at h
    split at h
    · cases h
    · cases hs : scanRows decode fault (i + 1) rs with
      | error e => simp [hs] at h
      | ok l' => simp [hs] at h; cases h; simp [ih hs]

theorem scanRows_eq_ok {R β : Type} (decode : R → β) (rows : List R) (i : Nat) :
    scanRows decode none i rows = .ok (rows.map decode) := by
  induction rows generalizing i with
  | nil => rfl
  | cons r rs ih => simp [scanRows, failsAt, ih]

/-- The rows a `SELECT` hands to `rows.Next()`: the rows it selects, in an order of the
server's choosing, cut at `LIMIT`; or, when the stream breaks, any prefix of them, since
`Next` then returns false just as after the last row. -/
def Streams {R : Type} (selected : List R) (limit : Nat) (rows : List R) : Prop :=
  ∃ order : List R, order.Perm selected ∧ rows <+: order.take limit

def StreamsAll {R : Type} (selected : List R) (limit : Nat) (rows : List R) : Prop :=
  ∃ order : List R, order.Perm selected ∧ rows = order.take limit

theorem StreamsAll.streams {R : Type} {selected rows : List R} {limit : Nat}
    (h : StreamsAll selected limit rows) : Streams selected limit rows := by
  obtain ⟨order, hp, rfl⟩ := h
  exact ⟨order, hp, List.prefix_refl _⟩

theorem Streams.sublist {R : Type} {selected rows : List R} {limit : Nat}
    (h : Streams selected limit rows) : ∃ order : List R, order.Perm selected ∧ rows.Sublist order := by
  obtain ⟨order, hp, hr⟩ := h
  exact ⟨order, hp, hr.sublist.trans (List.take_sublist _ _)⟩

theorem Streams.mem {R : Type} {selected rows : List R} {limit : Nat}
    (h : Streams selected limit rows) {x : R} (hx : x ∈ rows) : x ∈ selected := by
  obtain ⟨order, hp, hs⟩ := h.sublist
  exact hp.mem_iff.1 (hs.subset hx)

theorem Streams.nodup {R : Type} {selected rows : List R} {limit : Nat}
    (h : Streams selected limit rows) (hn : selected.Nodup) : rows.Nodup := by
  obtain ⟨order, hp, hs⟩ := h.sublist
  exact (hp.nodup_iff.2 hn).sublist hs

theorem Streams.length_le {R : Type} {selected rows : List R} {limit : Nat}
    (h : Streams selected limit rows) : rows.length ≤ limit := by
  obtain ⟨order, -, hr⟩ := h
  exact hr.length_le.trans (List.length_take_le _ _)

end DataAvailability.Sql
