import GolemKernel.Lemmas.Audit

/-!
# What the audit chain guarantees

A trail that was built by `record` verifies, and its entries are what the calls were (`audit_chain_integrity`). The rest is about
entries that were changed behind its back, where the hash is taken to be injective on the payloads at hand. The hash of the last
entry commits to the whole chain, up to where the three texts of an entry end (`head_hash_commits`). So a change of the texts is
seen unless it only moves a separator (`tampering_detected_iff`), and of the entries that are left out, repeated or moved all are
missed but those at the end (`removal_detected_iff`).
-/

namespace GolemKernel

namespace Sentinel

open Text

namespace AuditTrail

/-! ## Recording -/

/-- The entry of a call is the one that the calls before it lead to. -/
theorem getElem?_recordAll {calls : List Call} {i : Nat} {call : Call} (h : calls[i]? = some call) :
    (recordAll calls).entries[i]? = some ((recordAll (calls.take i)).entryOf call) := by
  obtain ⟨hlt, rfl⟩ := List.getElem?_eq_some_iff.mp h
  have hprefix : (recordAll (calls.take i ++ [calls[i]])).entries <+: (recordAll calls).entries := by
    refine entries_recordAll_prefix ?_
    rw [List.take_append_getElem]
    exact List.take_prefix _ _
  rw [entries_recordAll_concat] at hprefix
  have hlen : (recordAll (calls.take i)).entries.length = i := by
    rw [length_recordAll, List.length_take, Nat.min_eq_left hlt.le]
  obtain ⟨rest, hrest⟩ := hprefix
  rw [← hrest, List.append_assoc, List.getElem?_append_right hlen.le, hlen]
  simp

/-- For every sequence of calls: `verify` counts them, the entry of each call has its number, its arguments and the hash it returned,
the first entry carries 64 zeros and every other the hash of the one before, and what a snapshot shows stays at the front of all
later ones. -/
theorem audit_chain_integrity (calls : List Call) :
    (recordAll calls).verify = .ok calls.length ∧
    (∀ i call, calls[i]? = some call → ∃ e, (recordAll calls).entries[i]? = some e ∧
      e.sequence = UInt64.ofNat (i + 1) ∧ (i + 1 < 2 ^ 64 → e.sequence.toNat = i + 1) ∧
      e.timestamp = call.timestamp ∧ e.actor = call.actor ∧ e.action = call.action ∧ e.target = call.target ∧
      e.hash = ((recordAll (calls.take i)).record call.timestamp call.actor call.action call.target).1) ∧
    (∀ e, (recordAll calls).entries[0]? = some e → e.prevHash = List.replicate 64 '0') ∧
    (∀ i e e', (recordAll calls).entries[i]? = some e → (recordAll calls).entries[i + 1]? = some e' → e'.prevHash = e.hash) ∧
    ∀ pre, pre <+: calls → (recordAll pre).snapshot <+: (recordAll calls).snapshot := by
  have hintact := intact_recordAll calls
  refine ⟨?_, ?_, ?_, ?_, ?_⟩
  · exact verify_ok_iff.mpr ⟨length_recordAll calls, hintact.linked, hintact.authentic⟩
  · intro i call hcall
    have hseq : ((recordAll (calls.take i)).entryOf call).sequence = UInt64.ofNat (i + 1) := by
      have hlt : i < calls.length := (List.getElem?_eq_some_iff.mp hcall).1
      show (recordAll (calls.take i)).sequence + 1 = _
      rw [(intact_recordAll _).sequence, length_recordAll, List.length_take, Nat.min_eq_left hlt.le, UInt64.ofNat_add]
      rfl
    refine ⟨_, getElem?_recordAll hcall, hseq, fun hsmall => ?_, rfl, rfl, rfl, rfl, rfl⟩
    rw [hseq, UInt64.toNat_ofNat_of_lt' hsmall]
  · intro e he
    exact hintact.linked.prev_first he
  · intro i e e' he he'
    exact hintact.linked.prev_next he he'
  · intro pre hpre
    exact entries_recordAll_prefix hpre

/-! ## The head hash -/

/-- The byte strings that are hashed for entries. -/
def payloads (es : List AuditEntry) : Set (List UInt8) := { p | ∃ e ∈ es, e.payload.asBytes = p }

section Binding

variable {es es' : List AuditEntry} {P : Set (List UInt8)}

/-- In a chain that verifies, every `prev_hash` has 64 characters. -/
theorem length_prevHash (hlinked : auditChain.Linked es) (hauth : ∀ e ∈ es, e.Authentic) : ∀ e ∈ es, e.prevHash.length = 64 := by
  intro e he
  obtain ⟨i, hi⟩ := List.mem_iff_getElem?.mp he
  have hprev : e.prevHash = auditChain.lastDigest zeros (es.take i) := HashChain.LinkedFrom.prev_of_getElem? hlinked hi
  rw [hprev]
  refine HashChain.lastDigest_of_forall (P := fun d : Text => d.length = 64) rfl ?_
  intro x hx
  have hhash : auditChain.digest x = sha256Hex x.payload.asBytes := (hauth x (List.mem_of_mem_take hx)).symm
  rw [hhash, length_sha256Hex]

/-- Entries with authentic hashes whose payloads the hash tells apart. -/
structure Faithful (P : Set (List UInt8)) (e : AuditEntry) : Prop where
  authentic : e.Authentic
  length : e.prevHash.length = 64
  payload : e.payload.asBytes ∈ P

/-- The entries of a chain that verifies are such. -/
theorem faithful_of_verify {t : AuditTrail} {n : Nat} (hv : t.verify = .ok n) (hP : payloads t.entries ⊆ P) :
    ∀ e ∈ t.entries, Faithful P e := by
  obtain ⟨-, hlinked, hauth⟩ := verify_ok_iff.mp hv
  intro e he
  exact ⟨hauth e he, length_prevHash hlinked hauth e he, hP ⟨e, he, rfl⟩⟩

/-- Equal hashes come from equal payloads, and these from entries that agree but for where the texts end. -/
theorem Faithful.agree {e e' : AuditEntry} (h : Faithful P e) (h' : Faithful P e') (hinj : Set.InjOn sha256Hex P)
    (hhash : e.hash = e'.hash) :
    e.sequence = e'.sequence ∧ e.timestamp = e'.timestamp ∧ e.fields = e'.fields ∧ e.prevHash = e'.prevHash := by
  have hsha : sha256Hex e.payload.asBytes = sha256Hex e'.payload.asBytes := by
    rw [h.authentic, h'.authentic, hhash]
  have hpayload := asBytes_injective (hinj h.payload h'.payload hsha)
  exact (AuditEntry.payload_inj (h.length.trans h'.length.symm)).mp hpayload

/-- So their hashes bind the chain. -/
theorem binding_of_injOn (hinj : Set.InjOn sha256Hex P) (hzero : ∀ p ∈ P, sha256Hex p ≠ List.replicate 64 '0') :
    auditChain.Binding { e | Faithful P e } where
  prev_eq := by
    intro e he e' he' hhash
    exact (he.agree he' hinj hhash).2.2.2
  ne_genesis := by
    intro e he hbad
    refine hzero _ he.payload ?_
    rw [he.authentic]
    exact hbad

end Binding

/-- For any two non-empty chains that verify and end in the same hash, where the hash is injective on the payloads of both and none
hashes to 64 zeros: they are as long as each other, and the entries at each place agree on everything but where the actor, the action
and the target end in the text of the three. -/
theorem head_hash_commits (t t' : AuditTrail) (n n' : Nat) (hv : t.verify = .ok n) (hv' : t'.verify = .ok n')
    (last last' : AuditEntry) (hlast : t.entries.getLast? = some last) (hlast' : t'.entries.getLast? = some last')
    (hhash : last.hash = last'.hash) (hinj : Set.InjOn sha256Hex (payloads t.entries ∪ payloads t'.entries))
    (hzero : ∀ p ∈ payloads t.entries ∪ payloads t'.entries, sha256Hex p ≠ List.replicate 64 '0') :
    t.entries.length = t'.entries.length ∧
    ∀ (i : Nat) (e e' : AuditEntry), t.entries[i]? = some e → t'.entries[i]? = some e' →
      e.sequence = e'.sequence ∧ e.timestamp = e'.timestamp ∧ e.hash = e'.hash ∧ e.prevHash = e'.prevHash ∧
      e.actor ++ "|" ++ e.action ++ "|" ++ e.target = e'.actor ++ "|" ++ e'.action ++ "|" ++ e'.target := by
  have hfaithful := faithful_of_verify (P := payloads t.entries ∪ payloads t'.entries) hv Set.subset_union_left
  have hfaithful' := faithful_of_verify (P := payloads t.entries ∪ payloads t'.entries) hv' Set.subset_union_right
  have hends : auditChain.lastDigest zeros t.entries = auditChain.lastDigest zeros t'.entries := by
    simp only [HashChain.lastDigest, hlast, hlast', Option.map_some, Option.getD_some]
    exact hhash
  have hdigests := (verify_ok_iff.mp hv).2.1.forall₂_of_lastDigest (binding_of_injOn hinj hzero) (verify_ok_iff.mp hv').2.1
    hfaithful hfaithful' hends
  refine ⟨hdigests.length_eq, ?_⟩
  intro i e e' he he'
  obtain ⟨hi, rfl⟩ := List.getElem?_eq_some_iff.mp he
  obtain ⟨hi', rfl⟩ := List.getElem?_eq_some_iff.mp he'
  have hsame := hdigests.get hi hi'
  obtain ⟨hseq, htime, hfields, hprev⟩ :=
    (hfaithful _ (List.getElem_mem hi)).agree (hfaithful' _ (List.getElem_mem hi')) hinj hsame
  exact ⟨hseq, htime, hsame, hprev, hfields⟩

/-- A call whose actor contains the separator. -/
def separatorCall : Call := ⟨1, "a|b", "c", "t"⟩

/-- The entry of that call with the separator moved from the actor to the action. -/
def shiftedEntry : AuditEntry := { entryOf .new separatorCall with actor := "a", action := "b|c" }

theorem entries_separatorCall : (recordAll [separatorCall]).entries = [entryOf .new separatorCall] := rfl

/-- The separator in a field makes two entries with one payload. -/
theorem payload_shiftedEntry : shiftedEntry.payload = (entryOf .new separatorCall).payload := rfl

theorem payloads_separatorCall : payloads [entryOf .new separatorCall] = {(entryOf .new separatorCall).payload.asBytes} := by
  ext p
  simp [payloads, eq_comm]

/-- Before and after there is one payload. -/
theorem payloads_shiftedEntry : payloads (recordAll [separatorCall]).entries ∪ payloads [shiftedEntry] =
    {(entryOf .new separatorCall).payload.asBytes} := by
  have hsame : payloads [shiftedEntry] = payloads [entryOf .new separatorCall] := by simp [payloads, payload_shiftedEntry]
  rw [entries_separatorCall, hsame, Set.union_self, payloads_separatorCall]

-- a digest is evaluated once, for its first digit, and every inequality about it is read off that
theorem head_sha256Hex_separatorCall : (sha256Hex (entryOf .new separatorCall).payload.asBytes).head? = some '8' := by
  decide +kernel

theorem sha256Hex_separatorCall : sha256Hex (entryOf .new separatorCall).payload.asBytes ≠ List.replicate 64 '0' := by
  intro heq
  have hhead := head_sha256Hex_separatorCall
  rw [heq] at hhead
  cases hhead

/-- So `verify` does not tell them apart. -/
theorem verify_shiftedEntry : verify { recordAll [separatorCall] with entries := [shiftedEntry] } = .ok 1 := by
  refine verify_ok_iff.mpr ⟨rfl, ?_, ?_⟩
  · exact (intact_recordAll [separatorCall]).linked
  · intro e he
    rw [List.mem_singleton.mp he, AuditEntry.Authentic, payload_shiftedEntry]
    exact authentic_entryOf .new separatorCall

/-- A second call, and its entry. -/
def laterCall : Call := ⟨2, "d", "e", "u"⟩

def laterEntry : AuditEntry := (recordAll [separatorCall]).entryOf laterCall

theorem head_sha256Hex_laterEntry : (sha256Hex laterEntry.payload.asBytes).head? = some '7' := by
  decide +kernel

/-- Before and after there are two payloads. -/
theorem payloads_laterEntry : payloads (recordAll [separatorCall, laterCall]).entries ∪ payloads [shiftedEntry, laterEntry] =
    {(entryOf .new separatorCall).payload.asBytes, laterEntry.payload.asBytes} := by
  have hentries : (recordAll [separatorCall, laterCall]).entries = [entryOf .new separatorCall, laterEntry] := rfl
  have hsame : payloads [shiftedEntry, laterEntry] = payloads [entryOf .new separatorCall, laterEntry] := by
    simp [payloads, payload_shiftedEntry]
  rw [hentries, hsame, Set.union_self]
  ext p
  simp [payloads, eq_comm]

/-- Nor when another entry follows. -/
theorem verify_shiftedEntry_laterEntry :
    verify { recordAll [separatorCall, laterCall] with entries := [shiftedEntry, laterEntry] } = .ok 2 := by
  have hintact := intact_recordAll [separatorCall, laterCall]
  refine verify_ok_iff.mpr ⟨rfl, hintact.linked, ?_⟩
  intro e he
  rcases List.mem_cons.mp he with rfl | he
  · rw [AuditEntry.Authentic, payload_shiftedEntry]
    exact authentic_entryOf .new separatorCall
  · rw [List.mem_singleton.mp he]
    exact authentic_entryOf _ laterCall

/-- The chains of two calls, and of the same with the separator moved in the first entry: the second entry has the same hash in both. -/
theorem head_hash_commits_shifted :
    (recordAll [separatorCall, laterCall]).entries.length = [shiftedEntry, laterEntry].length ∧
      (entryOf .new separatorCall).hash = shiftedEntry.hash ∧ (entryOf .new separatorCall).fields = shiftedEntry.fields := by
  have hverify : (recordAll [separatorCall, laterCall]).verify = .ok 2 :=
    verify_ok_iff.mpr ⟨rfl, (intact_recordAll _).linked, (intact_recordAll _).authentic⟩
  have hdiffer : sha256Hex (entryOf .new separatorCall).payload.asBytes ≠ sha256Hex laterEntry.payload.asBytes := by
    intro heq
    have hhead := head_sha256Hex_separatorCall
    rw [heq, head_sha256Hex_laterEntry] at hhead
    cases hhead
  have hlater : sha256Hex laterEntry.payload.asBytes ≠ List.replicate 64 '0' := by
    intro heq
    have hhead := head_sha256Hex_laterEntry
    rw [heq] at hhead
    cases hhead
  have h := head_hash_commits (recordAll [separatorCall, laterCall])
    { recordAll [separatorCall, laterCall] with entries := [shiftedEntry, laterEntry] } 2 2 hverify verify_shiftedEntry_laterEntry
    laterEntry laterEntry rfl rfl rfl
    (by
      rw [payloads_laterEntry]
      rintro p (rfl | rfl) q (rfl | rfl) hpq
      · rfl
      · exact absurd hpq hdiffer
      · exact absurd hpq.symm hdiffer
      · rfl)
    (by
      rw [payloads_laterEntry]
      rintro p (rfl | rfl)
      · exact sha256Hex_separatorCall
      · exact hlater)
  obtain ⟨-, -, hhash, -, hfields⟩ := h.2 0 _ _ rfl rfl
  exact ⟨h.1, hhash, hfields⟩

/-! ## Changed texts -/

/-- The second entry differs from the first in nothing but the timestamp, the actor, the action and the target. -/
def Reworded (e e' : AuditEntry) : Prop := e'.sequence = e.sequence ∧ e'.hash = e.hash ∧ e'.prevHash = e.prevHash

/-- An entry that was changed so passes exactly if its timestamp and the text of its three fields are as they were. -/
theorem Reworded.authentic_iff {e e' : AuditEntry} (h : Reworded e e') (hauth : e.Authentic) {P : Set (List UInt8)}
    (hinj : Set.InjOn sha256Hex P) (he : e.payload.asBytes ∈ P) (he' : e'.payload.asBytes ∈ P) :
    e'.Authentic ↔ e'.timestamp = e.timestamp ∧ e'.fields = e.fields := by
  obtain ⟨hseq, hhash, hprev⟩ := h
  calc e'.Authentic ↔ sha256Hex e'.payload.asBytes = sha256Hex e.payload.asBytes := by
        rw [AuditEntry.Authentic, hhash, ← hauth]
    _ ↔ e'.payload = e.payload := by rw [hinj.eq_iff he' he, asBytes_injective.eq_iff]
    _ ↔ e'.timestamp = e.timestamp ∧ e'.fields = e.fields := by
        rw [AuditEntry.payload_inj (by rw [hprev])]
        simp [hseq, hprev]

/-- For every trail built by `record` and every change of timestamps, actors, actions and targets that leaves the rest of the entries
as it is, where the hash is injective on the payloads before and after: `verify` fails if and only if some entry has another timestamp
or another text of its three fields joined by separators. -/
theorem tampering_detected_iff (calls : List Call) (es' : List AuditEntry)
    (hchange : List.Forall₂ Reworded (recordAll calls).entries es')
    (hinj : Set.InjOn sha256Hex (payloads (recordAll calls).entries ∪ payloads es')) :
    (∃ err, verify { recordAll calls with entries := es' } = .error err) ↔
      ∃ (i : Nat) (e e' : AuditEntry), (recordAll calls).entries[i]? = some e ∧ es'[i]? = some e' ∧
        (e'.timestamp ≠ e.timestamp ∨
          e'.actor ++ "|" ++ e'.action ++ "|" ++ e'.target ≠ e.actor ++ "|" ++ e.action ++ "|" ++ e.target) := by
  have hintact := intact_recordAll calls
  have hlinked : auditChain.Linked es' := by
    refine (HashChain.linkedFrom_congr (hchange.imp ?_) _).mp hintact.linked
    intro e e' h
    exact ⟨h.2.1.symm, h.2.2.symm⟩
  have hpair : ∀ (i : Nat) (e e' : AuditEntry), (recordAll calls).entries[i]? = some e → es'[i]? = some e' →
      (e'.Authentic ↔ e'.timestamp = e.timestamp ∧ e'.fields = e.fields) := by
    intro i e e' he he'
    obtain ⟨hi, rfl⟩ := List.getElem?_eq_some_iff.mp he
    obtain ⟨hi', rfl⟩ := List.getElem?_eq_some_iff.mp he'
    exact (hchange.get hi hi').authentic_iff (hintact.authentic _ (List.getElem_mem hi)) hinj
      (.inl ⟨_, List.getElem_mem hi, rfl⟩) (.inr ⟨_, List.getElem_mem hi', rfl⟩)
  rw [verify_error_iff]
  constructor
  · intro hbad
    by_contra hnone
    push Not at hnone
    refine hbad ⟨hlinked, ?_⟩
    intro e' he'
    obtain ⟨i, hi'⟩ := List.mem_iff_getElem?.mp he'
    obtain ⟨hlt, -⟩ := List.getElem?_eq_some_iff.mp hi'
    have hi := List.getElem?_eq_getElem (hchange.length_eq.symm ▸ hlt : i < (recordAll calls).entries.length)
    exact (hpair i _ e' hi hi').mpr (hnone i _ e' hi hi')
  · rintro ⟨i, e, e', he, he', hdiff⟩ ⟨-, hauth⟩
    obtain ⟨htime, hfields⟩ := (hpair i e e' he he').mp (hauth e' (List.mem_of_getElem? he'))
    rcases hdiff with hdiff | hdiff
    · exact hdiff htime
    · exact hdiff hfields

/-- The entry of that call with another actor. -/
def forgedEntry : AuditEntry := { entryOf .new separatorCall with actor := "x" }

theorem head_sha256Hex_forgedEntry : (sha256Hex forgedEntry.payload.asBytes).head? = some 'a' := by
  decide +kernel

/-- The forged entry has another hash. -/
theorem sha256Hex_forgedEntry :
    sha256Hex (entryOf .new separatorCall).payload.asBytes ≠ sha256Hex forgedEntry.payload.asBytes := by
  intro heq
  have hhead := head_sha256Hex_separatorCall
  rw [heq, head_sha256Hex_forgedEntry] at hhead
  cases hhead

theorem tampering_detected_forged :
    ∃ err, verify { recordAll [separatorCall] with entries := [forgedEntry] } = .error err := by
  refine (tampering_detected_iff [separatorCall] [forgedEntry] ?_ ?_).mpr ⟨0, _, _, rfl, rfl, .inr (by decide)⟩
  · exact .cons ⟨rfl, rfl, rfl⟩ .nil
  · rintro p (⟨e, he, rfl⟩ | ⟨e, he, rfl⟩) q (⟨e', he', rfl⟩ | ⟨e', he', rfl⟩) hpq
    all_goals
      obtain rfl := List.mem_singleton.mp he
      obtain rfl := List.mem_singleton.mp he'
    · rfl
    · exact absurd hpq sha256Hex_forgedEntry
    · exact absurd hpq.symm sha256Hex_forgedEntry
    · rfl

/-- A separator moves from the actor to the action of an entry: the entry is another one, the hash is injective on its payload before
and after, and `verify` accepts it. -/
theorem shifted_separator_undetected :
    List.Forall₂ Reworded (recordAll [separatorCall]).entries [shiftedEntry] ∧
      shiftedEntry.actor ≠ separatorCall.actor ∧ shiftedEntry.action ≠ separatorCall.action ∧
      Set.InjOn sha256Hex (payloads (recordAll [separatorCall]).entries ∪ payloads [shiftedEntry]) ∧
      verify { recordAll [separatorCall] with entries := [shiftedEntry] } = .ok 1 := by
  refine ⟨.cons ⟨rfl, rfl, rfl⟩ .nil, by decide, by decide, ?_, verify_shiftedEntry⟩
  rw [payloads_shiftedEntry]
  exact Set.injOn_singleton _ _

/-! ## Removed and moved entries -/

/-- For every trail built by `record` and every sequence of its entries, with any of them left out, repeated or moved, where the hash is
injective on their payloads and none hashes to 64 zeros: `verify` fails if and only if the sequence is not a prefix of the entries. -/
theorem removal_detected_iff (calls : List Call) (es' : List AuditEntry) (hfrom : ∀ e ∈ es', e ∈ (recordAll calls).entries)
    (hinj : Set.InjOn sha256Hex (payloads (recordAll calls).entries))
    (hzero : ∀ p ∈ payloads (recordAll calls).entries, sha256Hex p ≠ List.replicate 64 '0') :
    (∃ err, verify { recordAll calls with entries := es' } = .error err) ↔ ¬es' <+: (recordAll calls).entries := by
  have hintact := intact_recordAll calls
  have hverify : (recordAll calls).verify = .ok _ := verify_ok_iff.mpr ⟨rfl, hintact.linked, hintact.authentic⟩
  have hprefix := hintact.linked.linked_iff_prefix (binding_of_injOn hinj hzero) (faithful_of_verify hverify subset_rfl) hfrom
  have hauth : ∀ e ∈ es', e.Authentic := by
    intro e he
    exact hintact.authentic e (hfrom e he)
  rw [verify_error_iff, ← hprefix]
  exact not_congr (and_iff_left hauth)

theorem removal_detected_repeated :
    ∃ err, verify { recordAll [separatorCall] with
      entries := [entryOf .new separatorCall, entryOf .new separatorCall] } = .error err := by
  refine (removal_detected_iff [separatorCall] _ ?_ ?_ ?_).mpr ?_
  · rw [entries_separatorCall]
    simp
  · rw [entries_separatorCall, payloads_separatorCall]
    exact Set.injOn_singleton _ _
  · rw [entries_separatorCall, payloads_separatorCall]
    rintro p rfl
    exact sha256Hex_separatorCall
  · intro hprefix
    have hlen := hprefix.length_le
    rw [entries_separatorCall] at hlen
    exact absurd hlen (by decide)

/-- The only entry of a trail is deleted, and `verify` accepts what is left. -/
theorem deleted_tail_undetected :
    ([] : List AuditEntry) ≠ (recordAll [separatorCall]).entries ∧
      Set.InjOn sha256Hex (payloads (recordAll [separatorCall]).entries) ∧
      (∀ p ∈ payloads (recordAll [separatorCall]).entries, sha256Hex p ≠ List.replicate 64 '0') ∧
      verify { recordAll [separatorCall] with entries := [] } = .ok 0 := by
  rw [entries_separatorCall, payloads_separatorCall]
  refine ⟨(List.cons_ne_nil _ _).symm, Set.injOn_singleton _ _, ?_, rfl⟩
  rintro p rfl
  exact sha256Hex_separatorCall

end AuditTrail

end Sentinel

end GolemKernel
