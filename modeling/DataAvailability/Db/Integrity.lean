import DataAvailability.Db.Refinement

namespace DataAvailability.Integrity

open Codec Types Sql PgDB Refinement

variable (H : Hashing)

def Intact (db : Tables) : Prop :=
  ∀ r ∈ db.offchainData.rows, H.keccak256 (fromHex r.value) = hexToHash r.key

/-- A write whose payloads, if it stores any, are the `OffChainData()` of a sequence, as on the
attestation path. -/
def FromSequence : Write → Prop
  | .storeOffChainData _ od => ∃ s : SequenceBanana, od = s.offChainData H
  | _ => True

theorem forall₂_offChainData (s : SequenceBanana) :
    List.Forall₂ (fun d b => d.key = H.keccak256 b.l2Data ∧ d.value = b.l2Data)
      (s.offChainData H) s.batches := by
  unfold SequenceBanana.offChainData
  induction s.batches with
  | nil => exact .nil
  | cons b bs ih => exact .cons ⟨rfl, rfl⟩ ih

variable {H}

theorem Intact.storeOffChainDataSQL {db : Tables} (hdb : Intact H db) {d : OffChainData}
    (hd : H.keccak256 d.value = d.key) : Intact H (storeOffChainDataSQL d db) := by
  intro r hr
  rcases mem_upsert hr with rfl | hr
  · simpa using hd
  · exact hdb r hr

theorem Intact.foldl {α : Type} (stmt : α → Tables → Tables) {xs : List α}
    (hs : ∀ x ∈ xs, ∀ db, Intact H db → Intact H (stmt x db)) {db : Tables} (hdb : Intact H db) :
    Intact H (xs.foldl (fun db x => stmt x db) db) := by
  induction xs generalizing db with
  | nil => exact hdb
  | cons x xs ih =>
    exact ih (fun y hy => hs y (List.mem_cons_of_mem x hy)) (hs x (List.mem_cons_self x xs) db hdb)

theorem Intact.call {db : Tables} (hdb : Intact H db) {w : Write} (hw : FromSequence H w) :
    Intact H (w.call db).2 := by
  by_cases h : (w.call db).1 = .ok ()
  · cases w with
    | storeLastProcessedBlock fault now block task => cases fault <;> exact hdb
    | storeUnresolvedBatchKeys f bks =>
      rw [Write.call, PgDB.storeUnresolvedBatchKeys, execTx_ok _ h]
      exact Intact.foldl storeUnresolvedBatchesSQL (fun _ _ _ h => h) hdb
    | deleteUnresolvedBatchKeys f bks =>
      rw [Write.call, PgDB.deleteUnresolvedBatchKeys, execTx_ok _ h]
      exact Intact.foldl deleteUnresolvedBatchKeysSQL (fun _ _ _ h => h) hdb
    | storeOffChainData f od =>
      obtain ⟨s, rfl⟩ := hw
      rw [Write.call, PgDB.storeOffChainData, execTx_ok _ h]
      refine Intact.foldl PgDB.storeOffChainDataSQL (fun d hd _ h => h.storeOffChainDataSQL ?_) hdb
      obtain ⟨b, -, rfl⟩ := List.mem_map.1 hd
      rfl
  · rw [call_of_ne_ok h]; exact hdb

theorem intact_run {ws : List Write} (hws : ∀ w ∈ ws, FromSequence H w) : Intact H (run ws) := by
  suffices ∀ db, Intact H db → Intact H (ws.foldl (fun db w => (w.call db).2) db) from
    this _ fun r hr => by simp [Tables.empty, Table.empty] at hr
  induction ws with
  | nil => exact fun _ h => h
  | cons w ws ih =>
    exact fun db h => ih (fun w' hw' => hws w' (List.mem_cons_of_mem w hw'))
      _ (h.call (hws w (List.mem_cons_self w ws)))

variable (H)

/-- `OffChainData()` gives one item per batch, in batch order, keyed by the Keccak-256 of its
payload; so on tables written only with such items (and any other calls), every item the
readers return hashes to its key, through the hex encoding and decoding of both columns. -/
theorem offchain_hash_integrity :
    (∀ s : SequenceBanana, List.Forall₂ (fun d b => d.key = H.keccak256 b.l2Data ∧ d.value = b.l2Data)
      (s.offChainData H) s.batches) ∧
    (∀ s : SignedSequenceBanana, List.Forall₂ (fun d b => d.key = H.keccak256 b.l2Data ∧ d.value = b.l2Data)
      (s.offChainData H) s.sequence.batches) ∧
    ∀ ws : List Write, (∀ w ∈ ws, FromSequence H w) →
      (∀ fault key d, getOffChainData fault key (run ws) = .ok d → H.keccak256 d.value = d.key) ∧
      (∀ f keys rows l, listOffchainDataSQL keys (run ws) rows →
        listOffChainData f keys rows = .ok l → ∀ d ∈ l, H.keccak256 d.value = d.key) := by
  refine ⟨forall₂_offChainData H, fun s => forall₂_offChainData H s.sequence, fun ws hws => ?_⟩
  have hi := intact_run hws
  refine ⟨fun fault key d h => ?_, fun f keys rows l hq h d hd => ?_⟩
  · obtain ⟨r, hr, rfl⟩ := getOffChainData_ok h
    exact hi r (Table.lookup_eq_some hr).1
  · rcases listOffChainData_ok h with rfl | rfl
    · cases hd
    · obtain ⟨r, hr, rfl⟩ := List.mem_map.1 hd
      exact hi r (mem_listOffchainDataSQL hq hr).1

theorem offchain_hash_integrity_stored :
    let H : Hashing := ⟨FixedBytes.setBytes 32⟩
    let s : SequenceBanana :=
      ⟨[⟨[1, 2], .zero 32, 0, .zero 20, .zero 32⟩], .zero 32, .zero 32, 0⟩
    let ws := [Write.storeOffChainData {} (s.offChainData H)]
    (∀ w ∈ ws, FromSequence H w) ∧
      ∃ d, getOffChainData none (H.keccak256 [1, 2]) (run ws) = .ok d ∧ H.keccak256 d.value = d.key := by
  intro H s ws
  have hws : ∀ w ∈ ws, FromSequence H w := by simp [ws, FromSequence]
  have hget : getOffChainData none (H.keccak256 [1, 2]) (run ws) = .ok ⟨H.keccak256 [1, 2], [1, 2], 0⟩ := by
    simp [ws, s, H, SequenceBanana.offChainData, getOffChainData, run, Write.call,
      PgDB.storeOffChainData, execTx, execEach, failsAt, storeOffChainDataSQL, Table.lookup,
      Table.insertOrUpdate, upsert, Tables.empty, Table.empty, queryRow, decodeOffchainRow]
  exact ⟨hws, _, hget, ((offchain_hash_integrity H).2.2 ws hws).1 none _ _ hget⟩

/-- Storing a sequence's `OffChainData()` records batch number 0 under the key of each of its
batches, whatever batch number the store held there before: the attestation path overwrites the
batch numbers the synchronizer stored. -/
theorem attestation_zeroes_batch_numbers (ws : List Write) (f : TxFaults) (s : SequenceBanana)
    (h : (storeOffChainData f (s.offChainData H) (run ws)).1 = .ok ()) :
    ∀ b ∈ s.batches,
      ((abs (storeOffChainData f (s.offChainData H) (run ws)).2).offchain
        (H.keccak256 b.l2Data)).map Prod.snd = some 0 := by
  intro b hb
  have hr : abs (storeOffChainData f (s.offChainData H) (run ws)).2 =
      (abs (run ws)).storeOffChainData (s.offChainData H) :=
    (call_refines (canonical_run ws)
      (show ((Write.storeOffChainData f (s.offChainData H)).call (run ws)).1 = .ok () from h)).2
  rw [hr]
  simp only [Store.storeOffChainData]
  have hmem : (⟨H.keccak256 b.l2Data, b.l2Data, 0⟩ : OffChainData) ∈ (s.offChainData H).reverse :=
    List.mem_reverse.2 (List.mem_map_of_mem _ hb)
  obtain ⟨d, hd⟩ : ∃ d, (s.offChainData H).reverse.find? (·.key = H.keccak256 b.l2Data) = some d :=
    Option.isSome_iff_exists.1 (List.find?_isSome.2 ⟨_, hmem, by simp⟩)
  obtain ⟨b', -, rfl⟩ := List.mem_map.1 (List.mem_reverse.1 (List.mem_of_find?_eq_some hd))
  rw [hd]
  rfl

theorem attestation_zeroes_batch_numbers_after_sync :
    let H : Hashing := ⟨FixedBytes.setBytes 32⟩
    let s : SequenceBanana :=
      ⟨[⟨[1, 2], .zero 32, 0, .zero 20, .zero 32⟩], .zero 32, .zero 32, 0⟩
    let ws := [Write.storeOffChainData {} [⟨H.keccak256 [1, 2], [1, 2], 7⟩]]
    (abs (run ws)).offchain (H.keccak256 [1, 2]) = some ([1, 2], 7) ∧
      ∀ b ∈ s.batches,
        ((abs (storeOffChainData {} (s.offChainData H) (run ws)).2).offchain
          (H.keccak256 b.l2Data)).map Prod.snd = some 0 :=
  ⟨by decide, attestation_zeroes_batch_numbers _ _ {} _ rfl⟩

end DataAvailability.Integrity
