import DataAvailability.Types

namespace DataAvailability.AccInputHash

open Codec Types

variable (H : Hashing)

/-- The data of a batch that `HashToSign` hands to `SoliditySHA3` besides the accumulator: the
payload's hash and the coinbase, with the batch's own forced values when `ForcedTimestamp > 0`,
the sequence's `L1InfoRoot` and `MaxSequenceTimestamp` and a zero block hash otherwise. -/
def effective (s : SequenceBanana) (b : Batch) : Hash × Hash × UInt64 × Address × Hash :=
  if b.forcedTimestamp > 0 then
    (H.keccak256 b.l2Data, b.forcedGER, b.forcedTimestamp, b.coinbase, b.forcedBlockHashL1)
  else
    (H.keccak256 b.l2Data, s.l1InfoRoot, s.maxSequenceTimestamp, b.coinbase, FixedBytes.zero 32)

/-- What the packing keeps of that data: all of it but the timestamp. -/
def signed (s : SequenceBanana) (b : Batch) : Hash × Hash × Address × Hash :=
  if b.forcedTimestamp > 0 then
    (H.keccak256 b.l2Data, b.forcedGER, b.coinbase, b.forcedBlockHashL1)
  else
    (H.keccak256 b.l2Data, s.l1InfoRoot, b.coinbase, FixedBytes.zero 32)

def packSigned (c : Bytes) : Hash × Hash × Address × Hash → Bytes
  | (k, g, a, f) => rightPad32 c ++ k.bytes ++ g.bytes ++ List.replicate 8 0 ++ a.bytes ++ f.bytes

theorem rightPad32_of_length {b : Bytes} (h : b.length = 32) : rightPad32 b = b := by
  simp [rightPad32, h]

theorem pack_values (s : SequenceBanana) (c : Bytes) (b : Batch) :
    (s.values H c b).pack = packSigned c (signed H s b) := by
  unfold SequenceBanana.values signed
  split <;> simp [AccInputValues.pack, packSigned, packArgUint64, rightPad32_of_length,
    FixedBytes.length_eq]

theorem packSigned_inj {c c' : Bytes} {e e' : Hash × Hash × Address × Hash} (hc : c.length = 32)
    (hc' : c'.length = 32) (h : packSigned c e = packSigned c' e') : c = c' ∧ e = e' := by
  obtain ⟨k, g, a, f⟩ := e
  obtain ⟨k', g', a', f'⟩ := e'
  simp only [packSigned, rightPad32_of_length hc, rightPad32_of_length hc'] at h
  obtain ⟨h, hf⟩ := List.append_inj' h (f.length_eq.trans f'.length_eq.symm)
  obtain ⟨h, ha⟩ := List.append_inj' h (a.length_eq.trans a'.length_eq.symm)
  obtain ⟨h, -⟩ := List.append_inj' h rfl
  obtain ⟨h, hg⟩ := List.append_inj' h (g.length_eq.trans g'.length_eq.symm)
  obtain ⟨rfl, hk⟩ := List.append_inj' h (k.length_eq.trans k'.length_eq.symm)
  rw [FixedBytes.ext hk, FixedBytes.ext hg, FixedBytes.ext ha, FixedBytes.ext hf]
  exact ⟨rfl, rfl⟩

theorem hashToSign_eq (s : SequenceBanana) :
    s.hashToSign H = (s.batches.map (signed H s)).foldl
      (fun c e => (H.keccak256 (packSigned c e)).bytes) s.oldAccInputHash.bytes := by
  simp only [SequenceBanana.hashToSign, List.foldl_map, Hashing.soliditySHA3, pack_values]

/-- Two sequences of one regular batch that differ only in `MaxSequenceTimestamp` sign the same
hash under every Keccak-256, although the data of their batch differ in the timestamp. -/
theorem hashToSign_ignores_max_sequence_timestamp :
    let b : Batch := ⟨[1], .zero 32, 0, .zero 20, .zero 32⟩
    let s1 : SequenceBanana := ⟨[b], .zero 32, .zero 32, 100⟩
    let s2 : SequenceBanana := ⟨[b], .zero 32, .zero 32, 200⟩
    s1.hashToSign H = s2.hashToSign H ∧ s1.oldAccInputHash = s2.oldAccInputHash ∧
      effective H s1 b ≠ effective H s2 b :=
  ⟨by rw [hashToSign_eq, hashToSign_eq]; rfl, rfl, by simp [effective]⟩

/-- The byte strings the loop of `HashToSign` hands to Keccak-256 from accumulator `c`, one
packing per batch. -/
def packingsFrom (s : SequenceBanana) : Bytes → List Batch → List Bytes
  | _, [] => []
  | c, b :: bs => (s.values H c b).pack :: packingsFrom s (H.soliditySHA3 (s.values H c b)) bs

def packings (s : SequenceBanana) : List Bytes := packingsFrom H s s.oldAccInputHash.bytes s.batches

/-- No two of the byte strings `ps` share a Keccak-256 hash. -/
def CollisionFree (ps : List Bytes) : Prop :=
  ∀ p ∈ ps, ∀ q ∈ ps, H.keccak256 p = H.keccak256 q → p = q

instance : DecidablePred (CollisionFree H) := fun ps =>
  inferInstanceAs (Decidable (∀ p ∈ ps, ∀ q ∈ ps, H.keccak256 p = H.keccak256 q → p = q))

theorem collisionFree_pair (p : Bytes) : CollisionFree H [p, p] := fun q hq q' hq' _ => by
  simp only [List.mem_cons, List.not_mem_nil, or_false, or_self] at hq hq'
  rw [hq, hq']

theorem CollisionFree.mono {ps qs : List Bytes} (h : CollisionFree H ps) (hs : qs ⊆ ps) :
    CollisionFree H qs :=
  fun p hp q hq => h p (hs hp) q (hs hq)

theorem foldl_hash_inj (s1 s2 : SequenceBanana) :
    ∀ {bs1 bs2 : List Batch} {c1 c2 : Bytes}, bs1.length = bs2.length → c1.length = 32 →
      c2.length = 32 → CollisionFree H (packingsFrom H s1 c1 bs1 ++ packingsFrom H s2 c2 bs2) →
      bs1.foldl (fun c b => H.soliditySHA3 (s1.values H c b)) c1 =
        bs2.foldl (fun c b => H.soliditySHA3 (s2.values H c b)) c2 →
      c1 = c2 ∧ bs1.map (signed H s1) = bs2.map (signed H s2)
  | [], [], _, _, _, _, _, _, h => ⟨h, rfl⟩
  | b1 :: bs1, b2 :: bs2, _, _, hl, hc1, hc2, hcf, h => by
    have htail : CollisionFree H (packingsFrom H s1 (H.soliditySHA3 (s1.values H _ b1)) bs1 ++
        packingsFrom H s2 (H.soliditySHA3 (s2.values H _ b2)) bs2) :=
      hcf.mono _ fun x hx => by
        simp only [packingsFrom, List.mem_append, List.mem_cons] at hx ⊢
        tauto
    obtain ⟨hstep, hrest⟩ := foldl_hash_inj s1 s2 (by simpa using hl) (FixedBytes.length_eq _)
      (FixedBytes.length_eq _) htail h
    have hp := hcf _ (by simp [packingsFrom]) _ (by simp [packingsFrom]) (FixedBytes.ext hstep)
    rw [pack_values, pack_values] at hp
    obtain ⟨rfl, he⟩ := packSigned_inj hc1 hc2 hp
    exact ⟨rfl, by rw [List.map_cons, List.map_cons, he, hrest]⟩

/-- With no collision among the byte strings the two computations hash, two sequences of one
length sign the same hash exactly when they start from the same accumulator and their batches
carry the same data but for the timestamps, index by index: payload, coinbase and order count;
the values a batch's kind ignores, and every timestamp, do not. -/
theorem hashToSign_binds_signed {s1 s2 : SequenceBanana}
    (hlen : s1.batches.length = s2.batches.length)
    (hcf : CollisionFree H (packings H s1 ++ packings H s2)) :
    s1.hashToSign H = s2.hashToSign H ↔
      s1.oldAccInputHash = s2.oldAccInputHash ∧
        s1.batches.map (signed H s1) = s2.batches.map (signed H s2) := by
  refine ⟨fun h => ?_, fun ⟨ho, hs⟩ => by rw [hashToSign_eq, hashToSign_eq, ho, hs]⟩
  obtain ⟨ho, hs⟩ := foldl_hash_inj H s1 s2 hlen s1.oldAccInputHash.length_eq
    s2.oldAccInputHash.length_eq hcf h
  exact ⟨FixedBytes.ext ho, hs⟩

theorem hashToSign_binds_signed_timestamps :
    let H : Hashing := ⟨FixedBytes.setBytes 32⟩
    let s1 : SequenceBanana := ⟨[⟨[1], .zero 32, 0, .zero 20, .zero 32⟩], .zero 32, .zero 32, 100⟩
    let s2 : SequenceBanana := ⟨[⟨[1], .zero 32, 0, .zero 20, .zero 32⟩], .zero 32, .zero 32, 200⟩
    CollisionFree H (packings H s1 ++ packings H s2) ∧
      (s1.hashToSign H = s2.hashToSign H ↔
        s1.oldAccInputHash = s2.oldAccInputHash ∧
          s1.batches.map (signed H s1) = s2.batches.map (signed H s2)) :=
  ⟨collisionFree_pair _ _, hashToSign_binds_signed _ rfl (collisionFree_pair _ _)⟩

/-- The accumulated input hash chains: the hash of a sequence whose batches are `bs ++ bs'` is
the hash of the sequence of `bs'` alone, started from the hash of `bs`, as the contract chains
one sequence onto the next. -/
theorem hashToSign_append (s : SequenceBanana) (bs bs' : List Batch) :
    { s with batches := bs ++ bs' }.hashToSign H =
      { s with
        batches := bs', oldAccInputHash := FixedBytes.setBytes 32 ({ s with batches := bs }.hashToSign H) }.hashToSign H := by
  have hb := congrArg FixedBytes.bytes (setBytes_bytes ⟨_, length_hashToSign H { s with batches := bs }⟩)
  simp only [SequenceBanana.hashToSign] at hb ⊢
  rw [hb, List.foldl_append]
  rfl

theorem signed_fst (s : SequenceBanana) (b : Batch) : (signed H s b).1 = H.keccak256 b.l2Data := by
  unfold signed
  split <;> rfl

/-- With no collision among the byte strings the two computations hash, the hash a committee
member signs commits to the keys under which the sequence's payloads are stored: two sequences of
one length with the same `HashToSign` give `OffChainData()` items with the same keys, in the same
order. -/
theorem hashToSign_binds_stored_keys {s1 s2 : SequenceBanana}
    (hlen : s1.batches.length = s2.batches.length)
    (hcf : CollisionFree H (packings H s1 ++ packings H s2)) (h : s1.hashToSign H = s2.hashToSign H) :
    (s1.offChainData H).map (·.key) = (s2.offChainData H).map (·.key) := by
  obtain ⟨-, hs⟩ := foldl_hash_inj H s1 s2 hlen s1.oldAccInputHash.length_eq
    s2.oldAccInputHash.length_eq hcf h
  have hkeys := congrArg (List.map Prod.fst) hs
  simpa [SequenceBanana.offChainData, List.map_map, Function.comp_def, signed_fst] using hkeys

theorem hashToSign_binds_stored_keys_regular :
    let H : Hashing := ⟨FixedBytes.setBytes 32⟩
    let s1 : SequenceBanana := ⟨[⟨[1], .zero 32, 0, .zero 20, .zero 32⟩], .zero 32, .zero 32, 5⟩
    let s2 : SequenceBanana :=
      ⟨[⟨[1], FixedBytes.setBytes 32 [9], 0, .zero 20, .zero 32⟩], .zero 32, .zero 32, 5⟩
    s1 ≠ s2 ∧ CollisionFree H (packings H s1 ++ packings H s2) ∧
      s1.hashToSign H = s2.hashToSign H ∧
      (s1.offChainData H).map (·.key) = (s2.offChainData H).map (·.key) :=
  ⟨by decide, collisionFree_pair _ _, rfl, hashToSign_binds_stored_keys _ rfl (collisionFree_pair _ _) rfl⟩

end DataAvailability.AccInputHash
