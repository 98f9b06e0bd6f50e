import DataAvailability.Db.Refinement

namespace DataAvailability.Reads

open Codec Types Sql PgDB Refinement

theorem getOffChainData_eq_ok {db : Tables} (hdb : Canonical db) {key : Hash} {d : OffChainData} :
    getOffChainData none key db = .ok d ↔
      d.key = key ∧ (abs db).offchain key = some (d.value, d.batchNum) := by
  rw [getOffChainData_eq hdb]
  cases h : (abs db).offchain key with
  | none => simp [queryRow]
  | some p =>
    obtain ⟨value, batchNum⟩ := p
    obtain ⟨k, v, b⟩ := d
    simp only [queryRow, Except.ok.injEq, OffChainData.mk.injEq, Option.some.injEq, Prod.mk.injEq]
    constructor <;> rintro ⟨rfl, rfl, rfl⟩ <;> exact ⟨rfl, rfl, rfl⟩

/-- On every table state the calls reach, each item `ListOffChainData` returns is what
`GetOffChainData` returns for its key, whatever rows the server streams; and when the stream
does not break and nothing fails, every requested key `GetOffChainData` finds is among the
items: the batched read agrees with the single one. -/
theorem list_agrees_with_get (ws : List Write) (keys : List Hash) (rows : List OffchainRow)
    (l : List OffChainData) :
    (∀ f, listOffchainDataSQL keys (run ws) rows → listOffChainData f keys rows = .ok l →
      ∀ d ∈ l, getOffChainData none d.key (run ws) = .ok d) ∧
    (StreamsAll ((run ws).offchainData.rows.filter fun r => r.key ∈ keys.map Hash.hex)
        ((run ws).offchainData.rows.filter fun r => r.key ∈ keys.map Hash.hex).length rows →
      listOffChainData {} keys rows = .ok l →
      ∀ k ∈ keys, ∀ d, getOffChainData none k (run ws) = .ok d → d ∈ l) := by
  have hdb := canonical_run ws
  refine ⟨fun f hq h d hd => ?_, fun hq h k hk d hget => ?_⟩
  · exact (getOffChainData_eq_ok hdb).2 ⟨rfl, ((listOffChainData_sound hdb hq h).2 d hd).2⟩
  · obtain ⟨l', hl', hmem⟩ := listOffChainData_complete hdb hq
    obtain ⟨rfl, hv⟩ := (getOffChainData_eq_ok hdb).1 hget
    rw [h, Except.ok.injEq] at hl'
    exact hl' ▸ hmem _ hk _ _ hv

theorem list_agrees_with_get_one :
    let d : OffChainData := ⟨hashOf 1, [0xaa], 7⟩
    let row : OffchainRow := ⟨d.key.hex, bytes2Hex d.value, d.batchNum⟩
    let ws := [Write.storeOffChainData {} [d]]
    listOffChainData {} [d.key] [row] = .ok [d] ∧
      (∀ x ∈ [d], getOffChainData none x.key (run ws) = .ok x) ∧
      ∀ k ∈ [d.key], ∀ x, getOffChainData none k (run ws) = .ok x → x ∈ [d] := by
  intro d row ws
  have hl : listOffChainData {} [d.key] [row] = .ok [d] := by
    simp only [listOffChainData, scanRows, failsAt, decodeOffchainRow, hexToHash_hex,
      fromHex_bytes2Hex, row]
    rfl
  have h := list_agrees_with_get ws [d.key] [row] [d]
  exact ⟨hl, h.1 {} ⟨[row], by decide, by decide⟩ hl, h.2 ⟨[row], by decide, by decide⟩ hl⟩

theorem keys_subset_call {db : Tables} (hdb : Canonical db) (w : Write) :
    (abs db).keys ⊆ (abs (w.call db).2).keys := by
  by_cases h : (w.call db).1 = .ok ()
  · rw [(call_refines hdb h).2]
    cases w with
    | storeOffChainData f od => exact Finset.subset_union_left
    | _ => exact Finset.Subset.refl _
  · rw [call_of_ne_ok h]

theorem keys_subset_run (ws ws' : List Write) :
    (abs (run ws)).keys ⊆ (abs (run (ws ++ ws'))).keys := by
  induction ws' generalizing ws with
  | nil => rw [List.append_nil]
  | cons w ws' ih =>
    have hw : run (ws ++ [w]) = (w.call (run ws)).2 := by
      simp only [run, List.foldl_append, List.foldl_cons, List.foldl_nil]
    calc (abs (run ws)).keys ⊆ (abs (run (ws ++ [w]))).keys := hw ▸ keys_subset_call (canonical_run ws) w
      _ ⊆ (abs (run (ws ++ [w] ++ ws'))).keys := ih _
      _ = (abs (run (ws ++ w :: ws'))).keys := by rw [List.append_assoc, List.singleton_append]

/-- No call removes a row of `offchain_data`: after any further calls, whatever fails, every key
`GetOffChainData` found is found again, and the number of stored keys, which `CountOffchainData`
returns, never decreases. -/
theorem stored_payloads_persist (ws ws' : List Write) :
    (∀ key d, getOffChainData none key (run ws) = .ok d →
      ∃ d', getOffChainData none key (run (ws ++ ws')) = .ok d' ∧ d'.key = key) ∧
    (abs (run ws)).keys.card ≤ (abs (run (ws ++ ws'))).keys.card := by
  refine ⟨fun key d h => ?_, Finset.card_le_card (keys_subset_run ws ws')⟩
  obtain ⟨rfl, hv⟩ := (getOffChainData_eq_ok (canonical_run ws)).1 h
  have hk : d.key ∈ (abs (run (ws ++ ws'))).keys :=
    keys_subset_run ws ws' (((abs (run ws)).mem_keys _).2 (by simp [hv]))
  obtain ⟨⟨value, batchNum⟩, hp⟩ := Option.isSome_iff_exists.1 (((abs _).mem_keys _).1 hk)
  exact ⟨⟨d.key, value, batchNum⟩, (getOffChainData_eq_ok (canonical_run _)).2 ⟨rfl, hp⟩, rfl⟩

end DataAvailability.Reads
