import DataAvailability.AccInputHash

namespace DataAvailability.Signature

open Codec Types AccInputHash

/-- Modelled from the spec: the constant `signatureLen` of package `types`, declared in a file
that is not under src/; the spec's signatures are 65 bytes `(r, s, v)`. -/
def signatureLen : Nat := 65

/-- ECDSA over secp256k1 as `crypto.Sign`, `crypto.SigToPub` and `crypto.PubkeyToAddress`
expose it. -/
structure Ecdsa (PrivateKey PublicKey : Type) where
  publicKey : PrivateKey → PublicKey
  sign : Bytes → PrivateKey → Except String Bytes
  sigToPub : Bytes → Bytes → Except String PublicKey
  pubkeyToAddress : PublicKey → Address

variable {PrivateKey PublicKey : Type} (E : Ecdsa PrivateKey PublicKey)

/-- Correct ECDSA: signing a 32-byte hash gives a 65-byte `(r, s, v)` signature from which
`SigToPub` recovers the signer's public key. -/
def Ecdsa.Correct : Prop :=
  ∀ k (hash : Bytes), hash.length = 32 →
    ∃ sig, E.sign hash k = .ok sig ∧ sig.length = 65 ∧ E.sigToPub hash sig = .ok (E.publicKey k)

/-- Modelled from the spec: the package function `types.Sign`, not under src/. It signs with
`crypto.Sign` and puts the recovery id on the wire as `v + 27`. -/
def sign (privateKey : PrivateKey) (data : Bytes) : Except String Bytes :=
  match E.sign data privateKey with
  | .error err => .error err
  | .ok sig => .ok (sig.set 64 (sig.getD 64 0 + 27))

variable (H : Hashing)

def SequenceBanana.sign (s : SequenceBanana) (privateKey : PrivateKey) : Except String Bytes :=
  Signature.sign E privateKey (s.hashToSign H)

def SignedSequenceBanana.sign (s : SignedSequenceBanana) (privateKey : PrivateKey) :
    Except String Bytes :=
  SequenceBanana.sign E H s.sequence privateKey

def SignedSequenceBanana.signer (s : SignedSequenceBanana) : Except String Address :=
  if s.signature.length ≠ signatureLen then .error "invalid signature"
  else
    let sig := s.signature.set 64 (s.signature.getD 64 0 - 27)
    match E.sigToPub (s.sequence.hashToSign H) sig with
    | .error err => .error err
    | .ok pubKey => .ok (E.pubkeyToAddress pubKey)

theorem set_sub_set_add (sig : Bytes) (h : 64 < sig.length) :
    (sig.set 64 (sig.getD 64 0 + 27)).set 64
      ((sig.set 64 (sig.getD 64 0 + 27)).getD 64 0 - 27) = sig := by
  rw [List.set_set, List.getD_eq_getElem?_getD, List.getElem?_set_self h, Option.getD_some,
    add_sub_cancel_right]
  refine List.ext_getElem (List.length_set ..) fun i _ _ => ?_
  rw [List.getElem_set]
  split <;> simp_all [List.getD_eq_getElem?_getD, List.getElem?_eq_getElem h]

theorem signer_sign (hE : E.Correct) (s s' : SequenceBanana) (h : s'.hashToSign H = s.hashToSign H)
    (k : PrivateKey) :
    ∃ sig, SequenceBanana.sign E H s k = .ok sig ∧
      SignedSequenceBanana.signer E H ⟨s', sig⟩ = .ok (E.pubkeyToAddress (E.publicKey k)) := by
  obtain ⟨sig, hs, hl, hp⟩ := hE k _ (length_hashToSign H s)
  refine ⟨_, by rw [SequenceBanana.sign, Signature.sign, hs], ?_⟩
  have hlen : (sig.set 64 (sig.getD 64 0 + 27)).length = signatureLen := by
    rw [List.length_set, hl]; rfl
  simp only [SignedSequenceBanana.signer, hlen, ne_eq, not_true_eq_false, if_false,
    set_sub_set_add sig (by omega), h, hp]

/-- With ECDSA correct, signing any sequence with any key succeeds, and `Signer` recovers the
key's address from that signature: both hash the same 32-byte message, and the `+27`/`-27`
offsets cancel. -/
theorem signer_recovers_signing_key (hE : E.Correct) (s : SequenceBanana) (k : PrivateKey) :
    ∃ sig, SequenceBanana.sign E H s k = .ok sig ∧
      SignedSequenceBanana.signer E H ⟨s, sig⟩ = .ok (E.pubkeyToAddress (E.publicKey k)) :=
  signer_sign E H hE s s rfl k

theorem signer_recovers_signing_key_one_batch :
    let H : Hashing := ⟨FixedBytes.setBytes 32⟩
    let E : Ecdsa Address Address :=
      ⟨id, fun _ k => .ok (k.bytes ++ List.replicate 45 0),
        fun _ sig => .ok (FixedBytes.setBytes 20 (sig.take 20)), id⟩
    let s : SequenceBanana := ⟨[⟨[1], .zero 32, 0, .zero 20, .zero 32⟩], .zero 32, .zero 32, 0⟩
    E.Correct ∧
      ∃ sig, SequenceBanana.sign E H s (.zero 20) = .ok sig ∧
        SignedSequenceBanana.signer E H ⟨s, sig⟩ = .ok (E.pubkeyToAddress (E.publicKey (.zero 20))) := by
  intro H E s
  have hE : E.Correct := fun k _ _ =>
    ⟨_, rfl, by simp [E, k.length_eq], by simp [E, List.take_left' k.length_eq, setBytes_bytes]⟩
  exact ⟨hE, signer_recovers_signing_key E H hE s _⟩

def SameButForcedTimestamp (b b' : Batch) : Prop :=
  ∃ t : UInt64, (t > 0 ↔ b.forcedTimestamp > 0) ∧ b' = { b with forcedTimestamp := t }

/-- Two sequences that differ at most in their timestamps: in `MaxSequenceTimestamp`, and in the
value of each batch's `ForcedTimestamp` where it stays positive or stays zero. -/
def SameButTimestamps (s s' : SequenceBanana) : Prop :=
  s'.oldAccInputHash = s.oldAccInputHash ∧ s'.l1InfoRoot = s.l1InfoRoot ∧
    List.Forall₂ SameButForcedTimestamp s.batches s'.batches

theorem map_signed_of_forall₂ {s s' : SequenceBanana} (hr : s'.l1InfoRoot = s.l1InfoRoot)
    {l l' : List Batch} (h : List.Forall₂ SameButForcedTimestamp l l') :
    l'.map (signed H s') = l.map (signed H s) := by
  induction h with
  | nil => rfl
  | @cons b _ _ _ hb _ ih =>
    obtain ⟨t, ht, rfl⟩ := hb
    rw [List.map_cons, List.map_cons, ih]
    unfold signed
    by_cases hb0 : b.forcedTimestamp > 0
    · rw [if_pos (ht.2 hb0), if_pos hb0]
    · rw [if_neg (mt ht.1 hb0), if_neg hb0, hr]

theorem hashToSign_of_sameButTimestamps {s s' : SequenceBanana} (h : SameButTimestamps s s') :
    s'.hashToSign H = s.hashToSign H := by
  obtain ⟨ho, hr, hbs⟩ := h
  rw [hashToSign_eq, hashToSign_eq, map_signed_of_forall₂ H hr hbs, ho]

/-- With ECDSA correct, the signature a key makes over a sequence makes `Signer` return the key's
address for every sequence that differs from it only in its timestamps: the signed
`HashToSign` packs the `types.ArgUint64` timestamps as zero, so no signature authenticates
them. -/
theorem signature_ignores_timestamps (hE : E.Correct) {s s' : SequenceBanana}
    (hs : SameButTimestamps s s') (k : PrivateKey) :
    ∃ sig, SequenceBanana.sign E H s k = .ok sig ∧
      SignedSequenceBanana.signer E H ⟨s', sig⟩ = .ok (E.pubkeyToAddress (E.publicKey k)) :=
  signer_sign E H hE s s' (hashToSign_of_sameButTimestamps H hs) k

theorem signature_ignores_timestamps_forced :
    let H : Hashing := ⟨FixedBytes.setBytes 32⟩
    let E : Ecdsa Address Address :=
      ⟨id, fun _ k => .ok (k.bytes ++ List.replicate 45 0),
        fun _ sig => .ok (FixedBytes.setBytes 20 (sig.take 20)), id⟩
    let s : SequenceBanana :=
      ⟨[⟨[1], .zero 32, 0, .zero 20, .zero 32⟩, ⟨[2], .zero 32, 7, .zero 20, .zero 32⟩],
        .zero 32, .zero 32, 100⟩
    let s' : SequenceBanana :=
      ⟨[⟨[1], .zero 32, 0, .zero 20, .zero 32⟩, ⟨[2], .zero 32, 9, .zero 20, .zero 32⟩],
        .zero 32, .zero 32, 200⟩
    E.Correct ∧ SameButTimestamps s s' ∧
      ∃ sig, SequenceBanana.sign E H s (.zero 20) = .ok sig ∧
        SignedSequenceBanana.signer E H ⟨s', sig⟩ = .ok (E.pubkeyToAddress (E.publicKey (.zero 20))) := by
  intro H E s s'
  have hE : E.Correct := fun k _ _ =>
    ⟨_, rfl, by simp [E, k.length_eq], by simp [E, List.take_left' k.length_eq, setBytes_bytes]⟩
  have hs : SameButTimestamps s s' :=
    ⟨rfl, rfl, .cons ⟨0, by decide, rfl⟩ (.cons ⟨9, by decide, rfl⟩ .nil)⟩
  exact ⟨hE, hs, signature_ignores_timestamps E H hE hs _⟩

end DataAvailability.Signature
