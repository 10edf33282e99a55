import GolemKernel.Sentinel.Indexed
import GolemKernel.Theorems.Response

/-!
# Writing into fixed buffers

A `FixedWriter` takes each part that fits and refuses the first that does not. A response is written as a whole or reported as too
large (`serialization_all_or_nothing`). The timestamp is written the same way, but there the failure is ignored, and a counter with
twenty digits is one digit too long for the buffer (`timestamp_complete_iff`).
-/

namespace GolemKernel

namespace Sentinel

namespace Ipc

open Text Slice

/-! ## Accesses of the writer -/

/-- The writer over the bytes of its buffer. -/
def FixedWriter.indexed {n : Nat} (w : FixedWriter n) : Indexed.Writer := ⟨w.buf.toList, w.pos, w.overflow⟩

variable {n : Nat}

/-- Byte by byte, with its bounds checked, `write_str` never panics and writes what it writes. -/
theorem writeStr_indexed (w : FixedWriter n) (s : Text) :
    Indexed.writeStr w.indexed s = .ok ((w.writeStr s).1, (w.writeStr s).2.indexed) := by
  have hlength : w.indexed.buf.length = n := Vector.length_toList
  rw [Indexed.writeStr, hlength, FixedWriter.writeStr]
  show (if w.pos + s.len > n then _ else _) = _
  by_cases hfull : w.pos + s.len > n
  · rw [if_pos hfull, if_pos hfull]
    rfl
  · have hcopy : copy w.indexed.buf w.indexed.pos (w.pos + s.len) s.asBytes = _ := copy_eq_ok (by rw [hlength]; omega) rfl
    have hlist := toList_copyFromSlice w.buf (show w.pos + s.asBytes.length ≤ n from Nat.not_lt.1 hfull)
    rw [if_neg hfull, if_neg hfull]
    show (copy w.indexed.buf w.indexed.pos (w.pos + s.len) s.asBytes >>= _) = _
    rw [hcopy, ok_bind]
    simp only [FixedWriter.indexed, hlist]
    rfl

/-- And so for all parts of a format. -/
theorem writeFmt_indexed (parts : List Text) (w : FixedWriter n) :
    Indexed.writeFmt w.indexed parts = .ok ((w.writeFmt parts).1, (w.writeFmt parts).2.indexed) := by
  induction parts generalizing w with
  | nil => rfl
  | cons s parts ih =>
    rw [Indexed.writeFmt, writeStr_indexed, ok_bind, FixedWriter.writeFmt]
    cases w.writeStr s with
    | mk ok w' =>
      cases ok with
      | false => rfl
      | true => exact ih w'

/-- No write of `serialize_response` is outside the buffer. -/
theorem serializeResponse_indexed (resp : RegisterResponse) (out : Vector UInt8 n) :
    Indexed.serializeResponse resp out.toList = .ok ((serializeResponse resp out).1, (serializeResponse resp out).2.toList) := by
  have hnew : (⟨out.toList, 0, false⟩ : Indexed.Writer) = (FixedWriter.new out).indexed := rfl
  rw [Indexed.serializeResponse, hnew, writeFmt_indexed, ok_bind, serializeResponse]
  rfl

/-! ## Responses -/

/-- A text from a buffer is no longer than the buffer. -/
theorem len_inlineText (buf : Vector UInt8 n) (k : Nat) : (inlineText buf k).len ≤ n := by
  unfold inlineText
  cases hutf8 : fromUtf8 (buf.toList.take k) with
  | none => exact Nat.zero_le n
  | some s =>
    have hlen : s.len = (buf.toList.take k).length := congrArg List.length (asBytes_of_fromUtf8 hutf8)
    rw [Option.getD_some, hlen, List.length_take, Vector.length_toList]
    exact Nat.min_le_right k n

/-- A truth value has at most five letters. -/
theorem len_ofBool (b : Bool) : (ofBool b).len ≤ 5 := by
  cases b <;> decide

/-- The length of the parts is the sum. -/
theorem len_flatten (parts : List Text) : len parts.flatten = (parts.map len).sum := by
  induction parts with
  | nil => rfl
  | cons s parts ih => rw [List.flatten_cons, len_append, ih, List.map_cons, List.sum_cons]

/-- Every response fits into the buffer of `handle_one`. -/
theorem len_text_le (resp : RegisterResponse) : resp.text.len ≤ maxMessage := by
  have hagent : resp.agentId.len ≤ 128 := len_inlineText _ _
  have hhash : resp.auditHash.len ≤ 16 := len_inlineText _ _
  have htime : resp.timestamp.len ≤ 24 := len_inlineText _ _
  have hsuccess := len_ofBool resp.success
  have h₁ : len "\x7b\"success\":".toList = 11 := by decide +kernel
  have h₂ : len ",\"agent_id\":\"".toList = 13 := by decide +kernel
  have h₃ : len "\",\"audit_hash\":\"".toList = 16 := by decide +kernel
  have h₄ : len "\",\"timestamp\":\"".toList = 15 := by decide +kernel
  have h₅ : len "\"\x7d".toList = 2 := by decide +kernel
  have hmax : maxMessage = 4096 := rfl
  rw [RegisterResponse.text, len_flatten]
  simp only [RegisterResponse.parts, List.map_cons, List.map_nil, List.sum_cons, List.sum_nil, h₁, h₂, h₃, h₄, h₅]
  omega

/-- For every response and every buffer: `serialize_response` returns a length if and only if it is that of the complete text and the
buffer has room for it, and then the text is in the buffer; otherwise it returns `MessageTooLarge`; and every write is in the buffer.
Every response fits into a message, so `handle_one` answers every request that it parses. -/
theorem serialization_all_or_nothing (resp : RegisterResponse) {n : Nat} (out : Vector UInt8 n) :
    (∀ m, (serializeResponse resp out).1 = .ok m ↔ m = resp.text.len ∧ m ≤ n) ∧
    (resp.text.len ≤ n → (serializeResponse resp out).2.toList.take resp.text.len = resp.text.asBytes) ∧
    (¬resp.text.len ≤ n → (serializeResponse resp out).1 = .error .messageTooLarge) ∧
    Indexed.serializeResponse resp out.toList = .ok ((serializeResponse resp out).1, (serializeResponse resp out).2.toList) ∧
    resp.text.len ≤ maxMessage ∧
    ∀ (c c₁ : Channel) (counter : UInt64) (k : Nat) (reqBuf : List UInt8) (req : RegisterRequest),
      c.readMessage (List.replicate maxMessage 0) = some (k, reqBuf, c₁) → parseRegisterRequest (reqBuf.take k) = .ok req →
        ∃ c₂ counter', handleOne c counter = some (.ok req, c₂, counter') := by
  refine ⟨?_, ?_, fun h => serializeResponse_too_large out (Nat.not_le.1 h), serializeResponse_indexed resp out, len_text_le resp, ?_⟩
  · intro m
    by_cases hfits : resp.text.len ≤ n
    · obtain ⟨out', hok, -⟩ := serializeResponse_fits out hfits
      rw [hok]
      constructor
      · intro h
        cases h
        exact ⟨rfl, hfits⟩
      · rintro ⟨rfl, -⟩
        rfl
    · rw [serializeResponse_too_large out (Nat.not_le.1 hfits)]
      constructor
      · intro h
        cases h
      · rintro ⟨rfl, hle⟩
        exact absurd hle hfits
  · intro hfits
    obtain ⟨out', hok, htake⟩ := serializeResponse_fits out hfits
    rw [hok]
    exact htake
  · intro c c₁ counter k reqBuf req hread hparse
    obtain ⟨m, respBuf, c₂, -, -, hone⟩ := handleOne_answers hread hparse
    exact ⟨c₂, _, hone⟩

/-- The response of the test `response_buffer_overflow_is_reported`, into its buffer of 8 bytes. -/
theorem serialization_all_or_nothing_tiny :
    (serializeResponse (buildResponse (registerRequest "svc".toList .write (by decide +kernel)) 0).1 (Vector.replicate 8 0)).1 =
      .error .messageTooLarge :=
  (serialization_all_or_nothing _ _).2.2.1 (by decide +kernel)

/-! ## Timestamps -/

/-- The bytes that `now_string` returns. -/
def timestampBytes (counter : UInt64) : List UInt8 := (nowString counter).1.1.toList.take (nowString counter).1.2

/-- Digits are ASCII. -/
theorem isDigit_lt {c : Char} (h : c.isDigit = true) : c.toNat < 128 := by
  simp only [Char.isDigit, Bool.and_eq_true, decide_eq_true_eq] at h
  have hle : c.val.toNat ≤ 57 := h.2
  exact Nat.lt_of_le_of_lt hle (by decide)

/-- So a number has one byte for each digit. -/
theorem len_decimal (n : Nat) : len (decimal n) = (decimal n).length := by
  rw [len, asBytes_ascii fun c hc => isDigit_lt (isDigit_of_mem_decimal hc), List.length_map]

/-- The timestamp fits in 24 bytes as long as the counter has at most 19 digits. -/
theorem timestamp_fits_iff (counter : UInt64) : len ("mono+".toList ++ decimal counter.toNat) ≤ 24 ↔ counter.toNat < 10 ^ 19 := by
  have hmono : len "mono+".toList = 5 := by decide +kernel
  have hdigits : (decimal counter.toNat).length ≤ 19 ↔ counter.toNat < 10 ^ 19 := Nat.length_toDigits_le_iff (by decide) (by decide)
  rw [len_append, hmono, len_decimal, ← hdigits]
  omega

/-- `mono+` alone is not the text of any value. -/
theorem mono_ne (n : Nat) : asBytes "mono+".toList ≠ asBytes ("mono+".toList ++ decimal n) := by
  intro h
  have htext := asBytes_injective h
  exact Nat.toDigits_ne_nil (List.self_eq_append_right.1 htext)

/-- For every value of the counter: the timestamp is `mono+` and the whole number, and no other value gives the same, if and only if the
number has at most 19 digits. -/
theorem timestamp_complete_iff (n : UInt64) :
    (timestampBytes n = asBytes ("mono+".toList ++ decimal n.toNat) ∧ ∀ m, m ≠ n → timestampBytes m ≠ timestampBytes n) ↔
      n.toNat < 10 ^ 19 := by
  rw [← timestamp_fits_iff]
  constructor
  · rintro ⟨htext, -⟩
    by_contra hfits
    exact mono_ne n.toNat ((nowString_of_not_fits hfits).symm.trans htext)
  · intro hfits
    have htext : timestampBytes n = asBytes ("mono+".toList ++ decimal n.toNat) := nowString_of_fits hfits
    refine ⟨htext, ?_⟩
    intro m hne heq
    rw [htext] at heq
    by_cases hm : len ("mono+".toList ++ decimal m.toNat) ≤ 24
    · have hdigits := List.append_cancel_left (asBytes_injective ((nowString_of_fits hm).symm.trans heq))
      exact hne (UInt64.toNat_inj.1 (decimal_injective hdigits))
    · exact mono_ne n.toNat ((nowString_of_not_fits hm).symm.trans heq)

/-- The last value with 19 digits. -/
theorem timestamp_complete_iff_last :
    timestampBytes 9999999999999999999 = asBytes ("mono+".toList ++ decimal 9999999999999999999) :=
  ((timestamp_complete_iff 9999999999999999999).2 (by decide)).1

/-- The first two values with 20 digits give the same timestamp, without a digit. -/
theorem twenty_digits_left_out :
    timestampBytes 10000000000000000000 = asBytes "mono+".toList ∧
      timestampBytes 10000000000000000001 = timestampBytes 10000000000000000000 := by
  have hleft : ∀ n : UInt64, ¬n.toNat < 10 ^ 19 → timestampBytes n = asBytes "mono+".toList :=
    fun n hn => nowString_of_not_fits (mt (timestamp_fits_iff n).1 hn)
  have hfirst := hleft 10000000000000000000 (by decide)
  have hsecond := hleft 10000000000000000001 (by decide)
  exact ⟨hfirst, hsecond.trans hfirst.symm⟩

end Ipc

end Sentinel

end GolemKernel
