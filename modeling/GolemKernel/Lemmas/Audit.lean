import GolemKernel.Lemmas.Text
import GolemKernel.Lib.HashChain
import GolemKernel.Sentinel.Audit

/-!
# What `verify` checks

The entries of a trail are a hash chain (`auditChain`), and `verify` succeeds when they are linked and every stored hash is that
of the entry's payload (`verify_ok_iff`). Of an entry whose `prev_hash` has 64 characters the payload determines the sequence, the
timestamp, the text of the three fields between them and the `prev_hash`, but not where in that text the fields end
(`payload_inj`).
-/

namespace GolemKernel

namespace Sentinel

open Text

/-- The `prev_hash` of the first entry. -/
def zeros : Text := List.replicate 64 '0'

/-- A hash is written with 64 digits. -/
theorem length_sha256Hex (data : List UInt8) : (sha256Hex data).length = 64 := by
  simp [sha256Hex, length_hexPadded]

namespace AuditEntry

/-- The three fields as they stand in the payload. -/
def fields (e : AuditEntry) : Text := e.actor ++ "|" ++ e.action ++ "|" ++ e.target

/-- The stored hash is that of the payload. -/
def Authentic (e : AuditEntry) : Prop := sha256Hex e.payload.asBytes = e.hash

variable {e e' : AuditEntry}

/-- What is hashed: the sequence number, the timestamp, the three fields and the previous hash, with bars between them. -/
theorem payload_eq (e : AuditEntry) :
    e.payload = decimal e.sequence.toNat ++ '|' :: (decimal e.timestamp.toNat ++ '|' :: (e.fields ++ '|' :: e.prevHash)) := by
  simp [payload, fields, List.append_assoc]

/-- What the payload says of an entry. -/
theorem payload_inj (h : e.prevHash.length = e'.prevHash.length) :
    e.payload = e'.payload ↔
      e.sequence = e'.sequence ∧ e.timestamp = e'.timestamp ∧ e.fields = e'.fields ∧ e.prevHash = e'.prevHash := by
  rw [payload_eq, payload_eq, decimal_sep_inj (by decide), decimal_sep_inj (by decide), UInt64.toNat_inj, UInt64.toNat_inj]
  -- the fields may contain the separator, so what comes last is taken off by its length
  have hlast : e.fields ++ '|' :: e.prevHash = e'.fields ++ '|' :: e'.prevHash ↔ e.fields = e'.fields ∧ e.prevHash = e'.prevHash := by
    refine ⟨fun heq => ?_, fun heq => by rw [heq.1, heq.2]⟩
    obtain ⟨hfields, hprev⟩ := List.append_inj' heq (by simp [h])
    exact ⟨hfields, (List.cons.inj hprev).2⟩
  rw [hlast]

end AuditEntry

/-- The chain that the entries of a trail make. -/
def auditChain : HashChain AuditEntry Text where
  digest := AuditEntry.hash
  prev := AuditEntry.prevHash
  genesis := zeros

namespace AuditTrail

/-- The walk accepts entries exactly if each links to the one before it and has the hash of its payload. -/
theorem verifyFrom_ok_iff (expectedPrev : Text) (es : List AuditEntry) :
    verifyFrom expectedPrev es = .ok () ↔ auditChain.LinkedFrom expectedPrev es ∧ ∀ e ∈ es, e.Authentic := by
  induction es generalizing expectedPrev with
  | nil => simp [verifyFrom, HashChain.LinkedFrom]
  | cons e es ih =>
    rw [verifyFrom, HashChain.LinkedFrom, List.forall_mem_cons]
    by_cases hprev : e.prevHash = expectedPrev
    · rw [if_neg (not_not.mpr hprev)]
      by_cases hhash : sha256Hex e.payload.asBytes = e.hash
      · have hauth : e.Authentic := hhash
        simp only [hhash, ne_eq, not_true_eq_false, if_false, ih, auditChain, hprev, hauth, true_and]
      · have hauth : ¬e.Authentic := hhash
        simp [hhash, hauth]
    · simp [hprev, auditChain]

/-- `verify` succeeds with the number of entries, exactly if they are linked and authentic. -/
theorem verify_ok_iff {t : AuditTrail} {n : Nat} :
    t.verify = .ok n ↔ t.entries.length = n ∧ auditChain.Linked t.entries ∧ ∀ e ∈ t.entries, e.Authentic := by
  have hfrom := verifyFrom_ok_iff zeros t.entries
  rw [HashChain.Linked, show auditChain.genesis = zeros from rfl, ← hfrom]
  cases hres : verifyFrom zeros t.entries with
  | error err =>
    have hverify : t.verify = .error err := congrArg (· >>= fun _ => pure t.entries.length) hres
    simp [hverify]
  | ok u =>
    have hverify : t.verify = .ok t.entries.length := congrArg (· >>= fun _ => pure t.entries.length) hres
    simp [hverify]

/-- `verify` fails exactly if the entries are not linked or one of them is not authentic. -/
theorem verify_error_iff {t : AuditTrail} :
    (∃ err, t.verify = .error err) ↔ ¬(auditChain.Linked t.entries ∧ ∀ e ∈ t.entries, e.Authentic) := by
  cases hres : t.verify with
  | error err =>
    refine iff_of_true ⟨err, rfl⟩ fun hchain => ?_
    rw [verify_ok_iff.mpr ⟨rfl, hchain⟩] at hres
    cases hres
  | ok n =>
    refine iff_of_false ?_ (not_not.mpr (verify_ok_iff.mp hres).2)
    rintro ⟨err, herr⟩
    cases herr

/-! ## Recording -/

/-- The arguments of a call of `record`. -/
structure Call where
  timestamp : UInt64
  actor : Text
  action : Text
  target : Text
  deriving DecidableEq

/-- `record`, on the arguments of a call. -/
def recordCall (t : AuditTrail) (call : Call) : Text × AuditTrail := t.record call.timestamp call.actor call.action call.target

/-- A new trail after the calls, one after another. -/
def recordAll (calls : List Call) : AuditTrail := calls.foldl (fun t call => (t.recordCall call).2) .new

/-- The entry that a call adds. -/
def entryOf (t : AuditTrail) (call : Call) : AuditEntry where
  sequence := t.sequence + 1
  timestamp := call.timestamp
  actor := call.actor
  action := call.action
  target := call.target
  hash := (t.recordCall call).1
  prevHash := if t.lastHash.isEmpty then zeros else t.lastHash

variable {t : AuditTrail}

/-- A call appends its entry, and keeps the hash and the sequence number of it. -/
theorem recordCall_eq (t : AuditTrail) (call : Call) :
    t.recordCall call =
      ((t.entryOf call).hash, ⟨t.entries ++ [t.entryOf call], (t.entryOf call).hash, (t.entryOf call).sequence⟩) := rfl

/-- The entry of a call has the hash of its payload. -/
theorem authentic_entryOf (t : AuditTrail) (call : Call) : (t.entryOf call).Authentic := rfl

/-- The three pieces of state agree: the entries are a chain with authentic hashes, `last_hash` is the last of them, and
`sequence` counts them. -/
structure Intact (t : AuditTrail) : Prop where
  linked : auditChain.Linked t.entries
  authentic : ∀ e ∈ t.entries, e.Authentic
  lastHash : (if t.lastHash.isEmpty then zeros else t.lastHash) = auditChain.lastDigest zeros t.entries
  sequence : t.sequence = UInt64.ofNat t.entries.length

/-- An empty trail is intact. -/
theorem intact_new : new.Intact where
  linked := trivial
  authentic := fun _ he => nomatch he
  lastHash := rfl
  sequence := rfl

/-- Recording keeps a trail intact. -/
theorem Intact.recordCall (h : t.Intact) (call : Call) : (t.recordCall call).2.Intact := by
  rw [recordCall_eq]
  refine ⟨?_, ?_, ?_, ?_⟩
  · exact HashChain.linked_concat_iff.mpr ⟨h.linked, h.lastHash⟩
  · intro e he
    rcases List.mem_append.mp he with he | he
    · exact h.authentic e he
    · rw [List.mem_singleton.mp he]
      exact authentic_entryOf t call
  · -- a hash is never the empty string that stands for "no entry yet"
    have hne : (t.entryOf call).hash.isEmpty = false := by
      rw [List.isEmpty_eq_false_iff_exists_mem]
      exact List.exists_mem_of_length_pos (by rw [← authentic_entryOf, length_sha256Hex]; decide)
    rw [if_neg (by simp [hne]), HashChain.lastDigest_concat]
    rfl
  · show t.sequence + 1 = _
    rw [h.sequence, List.length_append, List.length_singleton, UInt64.ofNat_add]
    rfl

/-- The last call is recorded on what the ones before it have left. -/
theorem recordAll_concat (calls : List Call) (call : Call) :
    recordAll (calls ++ [call]) = ((recordAll calls).recordCall call).2 := by
  simp [recordAll]

/-- Every trail that calls have made is intact. -/
theorem intact_recordAll (calls : List Call) : (recordAll calls).Intact := by
  induction calls using List.reverseRecOn with
  | nil => exact intact_new
  | append_singleton calls call ih =>
    rw [recordAll_concat]
    exact ih.recordCall call

/-- The entries of a trail: for each call, the one that it added after the calls before it. -/
theorem entries_recordAll_concat (calls : List Call) (call : Call) :
    (recordAll (calls ++ [call])).entries = (recordAll calls).entries ++ [(recordAll calls).entryOf call] := by
  rw [recordAll_concat, recordCall_eq]

/-- There is one entry for each call. -/
theorem length_recordAll (calls : List Call) : (recordAll calls).entries.length = calls.length := by
  induction calls using List.reverseRecOn with
  | nil => rfl
  | append_singleton calls call ih => simp [entries_recordAll_concat, ih]

/-- `verify` accepts every trail that calls have made. -/
theorem verify_recordAll (calls : List Call) : (recordAll calls).verify = .ok calls.length :=
  verify_ok_iff.mpr ⟨length_recordAll calls, (intact_recordAll calls).linked, (intact_recordAll calls).authentic⟩

/-- The entries of the first calls are the first entries. -/
theorem entries_recordAll_prefix {pre calls : List Call} (h : pre <+: calls) :
    (recordAll pre).entries <+: (recordAll calls).entries := by
  obtain ⟨rest, rfl⟩ := h
  induction rest using List.reverseRecOn with
  | nil => simp
  | append_singleton rest call ih =>
    rw [← List.append_assoc, entries_recordAll_concat]
    exact ih.trans (List.prefix_append _ _)

end AuditTrail

end Sentinel

end GolemKernel
