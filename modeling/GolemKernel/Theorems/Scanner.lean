import GolemKernel.Lemmas.Ipc
import GolemKernel.Sentinel.Indexed

/-!
# The scanner stays in bounds

The positions of the scanner are those of the slices that `Ipc` has in their place, and none of its accesses faults
(`jsonStringField_indexed`). The value it cuts out is between two quotes of the source. A quote is ASCII, so the value starts and ends
between characters, also when an escape has skipped the first byte of one.
-/

namespace GolemKernel

namespace Sentinel

namespace Ipc

open Text Slice

/-! ## One turn of the scan to the closing quote -/

/-- A backslash takes the next byte with it. -/
theorem closingQuote_escape (bytes : List UInt8) : closingQuote ('\\'.toUInt8 :: bytes) = closingQuote (bytes.drop 1) := by
  cases bytes with
  | nil => rfl
  | cons b bytes => exact if_pos rfl

/-- A quote ends the string. -/
theorem closingQuote_quote (bytes : List UInt8) : closingQuote ('"'.toUInt8 :: bytes) = some ('"'.toUInt8 :: bytes) := by
  cases bytes with
  | nil => rfl
  | cons b bytes => rfl

/-! ## Positions -/

namespace Indexed

variable {bytes : List UInt8}

/-- The needle is the key between quotes, if that fits in 64 bytes. -/
theorem needleFor_eq {key : Text} (h : key.len + 2 ≤ 64) :
    needleFor key = .ok ('"'.toUInt8 :: key.asBytes ++ ['"'.toUInt8]) := by
  rw [needleFor]
  generalize '"'.toUInt8 = quote
  have hlen : key.asBytes.length = key.len := rfl
  have hset : (List.replicate 64 (0 : UInt8)).set 0 quote = quote :: List.replicate 63 0 := rfl
  have hdrop : (quote :: List.replicate 63 (0 : UInt8)).drop (1 + key.len) = 0 :: List.replicate (62 - key.len) 0 := by
    rw [Nat.add_comm, List.drop_succ_cons, List.drop_replicate, ← List.replicate_succ]
    congr 1
    omega
  have hmark : ([quote] ++ key.asBytes ++ 0 :: List.replicate (62 - key.len) 0).set (1 + key.len) quote =
      quote :: key.asBytes ++ [quote] ++ List.replicate (62 - key.len) 0 := by
    rw [List.set_append_right _ _ (by simp [hlen])]
    simp [hlen, Nat.add_comm]
  have hlength : (quote :: key.asBytes ++ [quote]).length = key.len + 2 := by simp [hlen]
  rw [set_eq_ok (by simp), ok_bind, hset, copy_eq_ok (by simp; omega) (by omega), ok_bind, hdrop, List.take_succ_cons,
    List.take_zero, set_eq_ok (by simp; omega), ok_bind, hmark, range_eq_ok (by omega) (by simp; omega), List.drop_zero, Nat.sub_zero,
    List.take_left' hlength]

/-- The position after the needle, for the slice after it. -/
theorem findNeedle_eq {needle : List UInt8} (hneedle : 0 < needle.length) (bytes : List UInt8) (i : Nat) :
    ∃ r, findNeedle bytes needle i = .ok r ∧ Ipc.findNeedle needle (bytes.drop i) = r.map bytes.drop ∧
      ∀ p, r = some p → p ≤ bytes.length := by
  induction hk : bytes.length - i using Nat.strong_induction_on generalizing i with
  | _ k ih =>
    by_cases hshort : i + needle.length > bytes.length
    · refine ⟨none, ?_, ?_, by intro p hp; cases hp⟩
      · rw [findNeedle, if_pos hshort]
      · exact findNeedle_of_short (by rw [List.length_drop]; omega)
    have hlt : i < bytes.length := by omega
    rw [findNeedle, if_neg hshort, range_eq_ok (by omega) (by omega), ok_bind, Nat.add_sub_cancel_left]
    by_cases hhere : (bytes.drop i).take needle.length = needle
    · refine ⟨some (i + needle.length), if_pos hhere, ?_, ?_⟩
      · have hprefix : needle <+: bytes.drop i := List.prefix_iff_eq_take.2 hhere.symm
        rw [List.drop_eq_getElem_cons hlt] at hprefix ⊢
        rw [findNeedle_cons, if_pos hprefix, ← List.drop_eq_getElem_cons hlt, List.drop_drop]
        rfl
      · rintro p hp
        obtain rfl := Option.some.inj hp
        omega
    · have hprefix : ¬needle <+: bytes.drop i := fun h => hhere (List.prefix_iff_eq_take.1 h).symm
      rw [if_neg hhere]
      rw [List.drop_eq_getElem_cons hlt] at hprefix ⊢
      rw [findNeedle_cons, if_neg hprefix]
      exact ih (bytes.length - (i + 1)) (by omega) (i + 1) rfl

/-- The loop over blanks ends at the first byte that is none, and never reads past the end. -/
theorem skipWhitespace_eq (bytes : List UInt8) (j : Nat) (hj : j ≤ bytes.length) :
    ∃ j', skipWhitespace bytes j = .ok j' ∧ bytes.drop j' = (bytes.drop j).dropWhile isAsciiWhitespace ∧ j' ≤ bytes.length := by
  induction hk : bytes.length - j generalizing j with
  | zero =>
    have hend : bytes.length ≤ j := by omega
    refine ⟨j, ?_, ?_, hj⟩
    · rw [skipWhitespace, if_neg (by omega)]
    · rw [List.drop_eq_nil_of_le hend]
      rfl
  | succ k ih =>
    have hlt : j < bytes.length := by omega
    rw [skipWhitespace, if_pos hlt, get_eq_ok (List.getElem?_eq_getElem hlt), ok_bind, List.drop_eq_getElem_cons hlt,
      List.dropWhile_cons]
    split
    · exact ih (j + 1) hlt (by omega)
    · exact ⟨j, rfl, List.drop_eq_getElem_cons hlt, hj⟩

/-- A byte is absent at the end of the text or where another one stands. -/
theorem absent_eq (bytes : List UInt8) (j : Nat) (b : UInt8) :
    absent bytes j b = .ok true ∧ expectByte b (bytes.drop j) = none ∨
      absent bytes j b = .ok false ∧ expectByte b (bytes.drop j) = some (bytes.drop (j + 1)) ∧ bytes[j]? = some b := by
  unfold absent
  by_cases hlt : j < bytes.length
  · rw [if_neg (Nat.not_le.2 hlt), get_eq_ok (List.getElem?_eq_getElem hlt), ok_bind, List.drop_eq_getElem_cons hlt, expectByte,
      List.getElem?_eq_getElem hlt]
    by_cases hb : bytes[j] = b
    · right
      rw [if_pos hb]
      simp [hb]
    · left
      rw [if_neg hb]
      simp [hb]
  · left
    rw [if_pos (Nat.not_lt.1 hlt), List.drop_eq_nil_of_le (Nat.not_lt.1 hlt)]
    exact ⟨rfl, rfl⟩

/-- The position of the closing quote, for the slice from it on. -/
theorem closingQuote_eq (src : Text) (bytes : List UInt8) (start j : Nat) :
    ∃ r, closingQuote src bytes start j = r.elim (.ok none) (getText src start) ∧
      Ipc.closingQuote (bytes.drop j) = r.map bytes.drop ∧ ∀ p, r = some p → j ≤ p ∧ bytes[p]? = some '"'.toUInt8 := by
  induction hk : bytes.length - j using Nat.strong_induction_on generalizing j with
  | _ k ih =>
    by_cases hlt : j < bytes.length
    · rw [closingQuote, if_pos hlt, get_eq_ok (List.getElem?_eq_getElem hlt), ok_bind, List.drop_eq_getElem_cons hlt]
      by_cases hescape : bytes[j] = '\\'.toUInt8
      · obtain ⟨r, hr, hslice, hp⟩ := ih (bytes.length - (j + 2)) (by omega) (j + 2) rfl
        refine ⟨r, (if_pos hescape).trans hr, ?_, fun p h => ⟨by have := (hp p h).1; omega, (hp p h).2⟩⟩
        rw [hescape, closingQuote_escape, List.drop_drop]
        exact hslice
      rw [if_neg hescape]
      by_cases hquote : bytes[j] = '"'.toUInt8
      · refine ⟨some j, if_pos hquote, ?_, ?_⟩
        · rw [hquote, closingQuote_quote, ← hquote, ← List.drop_eq_getElem_cons hlt]
          rfl
        · intro p h
          obtain rfl := Option.some.inj h
          exact ⟨Nat.le_refl j, by rw [List.getElem?_eq_getElem hlt, hquote]⟩
      · obtain ⟨r, hr, hslice, hp⟩ := ih (bytes.length - (j + 1)) (by omega) (j + 1) rfl
        refine ⟨r, (if_neg hquote).trans hr, ?_, fun p h => ⟨by have := (hp p h).1; omega, (hp p h).2⟩⟩
        rw [closingQuote_cons hquote hescape]
        exact hslice
    · refine ⟨none, ?_, ?_, by intro p hp; cases hp⟩
      · rw [closingQuote, if_neg hlt]
        rfl
      · rw [List.drop_eq_nil_of_le (Nat.not_lt.1 hlt)]
        rfl

end Indexed

/-! ## Quotes and characters -/

/-- A byte below 128 is a character of its own, and starts where the characters before it end. -/
theorem exists_split_of_ascii {src : Text} {p : Nat} {b : UInt8} (h : src.asBytes[p]? = some b) (hb : b.toNat < 128) :
    ∃ s c t, src = s ++ c :: t ∧ len s = p ∧ c.toNat < 128 ∧ c.toUInt8 = b := by
  induction src generalizing p with
  | nil => cases h
  | cons c src ih =>
    obtain ⟨hc, hbytes⟩ | ⟨-, b₀, high, hb₀, hhigh, hbytes⟩ := asBytes_cons_cases c src
    · rw [hbytes] at h
      cases p with
      | zero => exact ⟨[], c, src, rfl, rfl, hc, Option.some.inj h⟩
      | succ p =>
        obtain ⟨s, d, t, rfl, hlen, hd, hdb⟩ := ih h
        have hsize : len [c] = 1 := by rw [len, asBytes_cons_ascii hc]; rfl
        refine ⟨c :: s, d, t, rfl, ?_, hd, hdb⟩
        rw [← List.singleton_append, len_append, hsize, hlen, Nat.add_comm]
    · -- the bytes of the character are all above
      have hsize : c.utf8Size = 1 + high.length := by
        have hlen : len (c :: src) = 1 + high.length + len src := by
          rw [len, hbytes]
          simp [len]
          omega
        rw [len_cons] at hlen
        omega
      rw [hbytes] at h
      have hout : ¬p < 1 + high.length := by
        intro hp
        have hmem : b ∈ b₀ :: high := by
          rw [← List.cons_append, List.getElem?_append_left (by rw [List.length_cons]; omega)] at h
          exact List.mem_of_getElem? h
        have hall : ∀ b' ∈ b₀ :: high, 128 ≤ b'.toNat := List.forall_mem_cons.2 ⟨hb₀, hhigh⟩
        have := hall b hmem
        omega
      rw [← List.cons_append, List.getElem?_append_right (by rw [List.length_cons]; omega), List.length_cons] at h
      obtain ⟨s, d, t, rfl, hlen, hd, hdb⟩ := ih h
      refine ⟨c :: s, d, t, rfl, ?_, hd, hdb⟩
      rw [len_cons, hsize, hlen]
      omega

theorem len_quote : len ['"'] = 1 := by decide

/-- The text between two quotes. -/
theorem get_between_quotes {src : Text} {q p : Nat} (hq : src.asBytes[q]? = some '"'.toUInt8) (hp : src.asBytes[p]? = some '"'.toUInt8)
    (hlt : q < p) :
    ∃ before body after, src = before ++ '"' :: (body ++ '"' :: after) ∧ src.get (q + 1) p = some body ∧
      src.asBytes.drop (q + 1) = asBytes body ++ src.asBytes.drop p := by
  have hquote : '"'.toUInt8.toNat < 128 := quote_ascii
  obtain ⟨before, c, t, rfl, hbefore, hc, hcb⟩ := exists_split_of_ascii hq hquote
  obtain rfl := (toUInt8_inj hc quote_ascii).1 hcb
  -- the second quote, counted from the first
  have hbytes : asBytes (before ++ '"' :: t) = asBytes (before ++ ['"']) ++ asBytes t := by rw [← asBytes_append]; simp
  have hopen : (asBytes (before ++ ['"'])).length = q + 1 := by rw [← len, len_append, hbefore, len_quote]
  rw [hbytes, List.getElem?_append_right (by omega), hopen] at hp
  obtain ⟨body, d, after, rfl, hbody, hd, hdb⟩ := exists_split_of_ascii hp hquote
  obtain rfl := (toUInt8_inj hd quote_ascii).1 hdb
  have hafter : (asBytes (before ++ '"' :: (body ++ '"' :: after))).drop (q + 1) = asBytes body ++ asBytes ('"' :: after) := by
    rw [hbytes, List.drop_left' hopen, asBytes_append]
  refine ⟨before, body, after, rfl, ?_, ?_⟩
  · have hfrom := sliceFrom_append (before ++ ['"']) (body ++ '"' :: after)
    rw [len, hopen, List.append_assoc, List.singleton_append] at hfrom
    rw [Text.get, if_pos (by omega), hfrom, Option.bind_some, ← hbody, sliceTo_append]
  · rw [hafter, show p = q + 1 + len body by omega, ← List.drop_drop, hafter, len, List.drop_left]

/-! ## The scanner -/

/-- The text of a string: bytes that are neither quotes nor backslashes, and escapes of two bytes. -/
inductive Escaped : List UInt8 → Prop
  | nil : Escaped []
  | escape (b : UInt8) {bytes : List UInt8} : Escaped bytes → Escaped ('\\'.toUInt8 :: b :: bytes)
  | plain {b : UInt8} {bytes : List UInt8} : b ≠ '"'.toUInt8 → b ≠ '\\'.toUInt8 → Escaped bytes → Escaped (b :: bytes)

/-- What the scan to the closing quote passes over. -/
theorem closingQuote_escaped {bytes stop : List UInt8} (h : closingQuote bytes = some stop) :
    ∃ body, bytes = body ++ stop ∧ Escaped body := by
  fun_induction closingQuote bytes with
  | case1 => cases h
  | case2 => exact ⟨[], Option.some.inj h, .nil⟩
  | case3 => cases h
  | case4 b bytes ih =>
    obtain ⟨body, rfl, hbody⟩ := ih h
    exact ⟨_, rfl, .escape b hbody⟩
  | case5 b bytes _ => exact ⟨[], Option.some.inj h, .nil⟩
  | case6 b b' bytes hescape hquote ih =>
    obtain ⟨body, hbytes, hbody⟩ := ih h
    exact ⟨b :: body, by rw [hbytes]; rfl, .plain hquote hescape hbody⟩

/-- From the opening quote at `q` on: the value is found, and no end of it is inside a character. -/
theorem closingQuote_indexed (src : Text) {q : Nat} (hq : src.asBytes[q]? = some '"'.toUInt8) :
    Indexed.closingQuote src src.asBytes (q + 1) (q + 1) = .ok none ∧ closingQuote (src.asBytes.drop (q + 1)) = none ∨
      ∃ p value before after, Indexed.closingQuote src src.asBytes (q + 1) (q + 1) = .ok (some value) ∧
        closingQuote (src.asBytes.drop (q + 1)) = some (src.asBytes.drop p) ∧ p ≤ src.asBytes.length ∧
        src.get (q + 1) p = some value ∧ src = before ++ '"' :: (value ++ '"' :: after) ∧ Escaped value.asBytes := by
  obtain ⟨r, hindexed, hslice, hp⟩ := Indexed.closingQuote_eq src src.asBytes (q + 1) (q + 1)
  cases r with
  | none => exact Or.inl ⟨hindexed, hslice⟩
  | some p =>
    obtain ⟨hle, hquote⟩ := hp p rfl
    obtain ⟨before, value, after, hsrc, hget, hbytes⟩ := get_between_quotes hq hquote hle
    have hin : p < src.asBytes.length := (List.getElem?_eq_some_iff.1 hquote).1
    refine Or.inr ⟨p, value, before, after, ?_, hslice, Nat.le_of_lt hin, hget, hsrc, ?_⟩
    · rw [hindexed]
      simp only [Option.elim_some, Indexed.getText, hget]
    · -- what was passed over is the value
      obtain ⟨body, hbody, hescaped⟩ := closingQuote_escaped hslice
      rwa [List.append_cancel_right (hbytes.symm.trans hbody)]

/-- No access of the scanner faults, and it finds what the scanner on slices finds: a part of the source between two quotes. -/
theorem jsonStringField_indexed (src key : Text) :
    Indexed.jsonStringField src key = .ok (jsonStringField src key) ∧
      ∀ value, jsonStringField src key = some value →
        ∃ before after, src = before ++ '"' :: (value ++ '"' :: after) ∧ Escaped value.asBytes := by
  have hlength : ('"'.toUInt8 :: key.asBytes ++ ['"'.toUInt8]).length = key.len + 2 := by simp [len]
  have hnone : ∀ value : Text, none = some value →
      ∃ before after, src = before ++ '"' :: (value ++ '"' :: after) ∧ Escaped value.asBytes := by
    intro value hvalue
    cases hvalue
  unfold Indexed.jsonStringField jsonStringField
  dsimp only
  rw [hlength]
  by_cases hlong : key.len + 2 > 64
  · rw [if_pos hlong, if_pos hlong]
    exact ⟨rfl, hnone⟩
  rw [if_neg hlong, if_neg hlong, Indexed.needleFor_eq (Nat.not_lt.1 hlong), ok_bind]
  have hneedle : 0 < ('"'.toUInt8 :: key.asBytes ++ ['"'.toUInt8]).length := Nat.succ_pos _
  obtain ⟨r, hfind, hslice, hstart⟩ := Indexed.findNeedle_eq hneedle src.asBytes 0
  rw [List.drop_zero] at hslice
  rw [hfind, ok_bind, hslice]
  cases r with
  | none => exact ⟨rfl, hnone⟩
  | some start =>
    obtain ⟨j, hskip, hdrop, hj⟩ := Indexed.skipWhitespace_eq src.asBytes start (hstart start rfl)
    simp only [Option.map_some, Option.bind_eq_bind, Option.bind_some, hskip, ok_bind, ← hdrop]
    rcases Indexed.absent_eq src.asBytes j ':'.toUInt8 with ⟨habsent, hexpect⟩ | ⟨habsent, hexpect, hcolon⟩
    · simp only [habsent, ok_bind, hexpect]
      exact ⟨rfl, hnone⟩
    obtain ⟨q, hskip', hdrop', hq⟩ :=
      Indexed.skipWhitespace_eq src.asBytes (j + 1) (Nat.succ_le_of_lt (List.getElem?_eq_some_iff.1 hcolon).1)
    simp only [habsent, ok_bind, hexpect, Option.bind_some, Bool.false_eq_true, if_false, hskip', ← hdrop']
    rcases Indexed.absent_eq src.asBytes q '"'.toUInt8 with ⟨habsent', hexpect'⟩ | ⟨habsent', hexpect', hquote⟩
    · simp only [habsent', ok_bind, hexpect']
      exact ⟨rfl, hnone⟩
    simp only [habsent', ok_bind, hexpect', Option.bind_some, Bool.false_eq_true, if_false]
    rcases closingQuote_indexed src hquote with
      ⟨hindexed, hstop⟩ | ⟨p, value, before, after, hindexed, hstop, hp, hget, hsrc, hvalue⟩
    · rw [hindexed, hstop]
      exact ⟨rfl, hnone⟩
    · have hopen : src.asBytes.length - (src.asBytes.drop (q + 1)).length = q + 1 := by
        have := (List.getElem?_eq_some_iff.1 hquote).1
        rw [List.length_drop]
        omega
      have hclose : src.asBytes.length - (src.asBytes.drop p).length = p := by
        rw [List.length_drop]
        omega
      rw [hindexed, hstop, Option.bind_some, hopen, hclose, hget]
      refine ⟨rfl, ?_⟩
      rintro _ ⟨rfl⟩
      exact ⟨before, after, hsrc, hvalue⟩

/-! ## Requests -/

/-- The fields of a request, as the index by index parser returns them. -/
def RegisterRequest.fields (req : RegisterRequest) : List UInt8 × Nat × PermissionTier :=
  (req.agentIdBuf.toList, req.agentIdLen, req.permissionTier)

/-- The buffer of the request begins with the agent id. -/
theorem toList_agentIdBuf {agentId : Text} (tier : PermissionTier) (h : agentId.len ≤ maxAgentId) :
    (registerRequest agentId tier h).agentIdBuf.toList = agentId.asBytes ++ (List.replicate maxAgentId 0).drop agentId.len := by
  have hfits : 0 + agentId.asBytes.length ≤ maxAgentId := by rwa [Nat.zero_add]
  have hlist := toList_copyFromSlice (Vector.replicate maxAgentId 0) hfits
  rwa [Vector.toList_replicate, Nat.zero_add, List.take_zero, List.nil_append] at hlist

/-- The copy to it is within its bounds. -/
theorem agentIdBuf_eq {agentId : Text} (tier : PermissionTier) (h : agentId.len ≤ maxAgentId) :
    Indexed.agentIdBuf agentId = .ok (registerRequest agentId tier h).agentIdBuf.toList := by
  have hroom : agentId.asBytes.length ≤ (List.replicate maxAgentId (0 : UInt8)).length := by rwa [List.length_replicate]
  have hcopy := copy_eq_ok hroom (Nat.zero_add agentId.asBytes.length)
  rw [toList_agentIdBuf]
  exact hcopy

/-- And is read back. -/
theorem take_agentIdBuf {agentId : Text} (tier : PermissionTier) (h : agentId.len ≤ maxAgentId) :
    (registerRequest agentId tier h).agentIdBuf.toList.take agentId.len = agentId.asBytes := by
  rw [toList_agentIdBuf, len, List.take_left]

/-- Without a value the rest is not run. -/
theorem okOr_bind {α β : Type} (o : Option α) (e : IpcError) (f : α → Except IpcError β) : okOr o e >>= f = o.elim (.error e) f := by
  cases o <;> rfl

/-- Byte by byte, with its bounds checked, `parse_register_request` never panics and gives what it gives. -/
theorem parseRegisterRequest_indexed (raw : List UInt8) :
    Indexed.parseRegisterRequest raw = .ok ((parseRegisterRequest raw).map RegisterRequest.fields) := by
  unfold Indexed.parseRegisterRequest parseRegisterRequest
  simp only [okOr_bind, (jsonStringField_indexed _ _).1, ok_bind]
  cases fromUtf8 raw with
  | none => rfl
  | some src =>
    simp only [Option.elim_some]
    cases jsonStringField src "method".toList with
    | none => rfl
    | some method =>
      simp only [Option.elim_some]
      by_cases hmethod : method ≠ "register".toList
      · rw [if_pos hmethod, if_pos hmethod]
        rfl
      rw [if_neg hmethod, if_neg hmethod]
      cases jsonStringField src "agent_id".toList with
      | none => rfl
      | some agentId =>
        simp only [Option.elim_some]
        by_cases hlen : agentId.len > maxAgentId
        · rw [if_pos hlen, dif_pos hlen]
          rfl
        rw [if_neg hlen, dif_neg hlen]
        cases jsonStringField src "permission_tier".toList with
        | none => rfl
        | some tierStr =>
          simp only [Option.elim_some]
          cases PermissionTier.fromWire tierStr with
          | none => rfl
          | some tier =>
            simp only [Option.elim_some, agentIdBuf_eq tier (Nat.not_lt.1 hlen), ok_bind]
            rfl

/-- For every byte string, no access of `parse_register_request` is out of range and none cuts a character. It returns an error, or a
request whose agent id is valid UTF-8 of at most 128 bytes, stands in the input between two quotes, and consists of escapes of two
bytes and of bytes that are neither quotes nor backslashes. -/
theorem scanner_safe (raw : List UInt8) :
    ∃ result, Indexed.parseRegisterRequest raw = .ok result ∧ result = (parseRegisterRequest raw).map RegisterRequest.fields ∧
      ((∃ e, result = .error e) ∨
        ∃ buf len tier agentId, result = .ok (buf, len, tier) ∧ Indexed.agentId buf len = .ok agentId ∧
          fromUtf8 (buf.take len) = some agentId ∧ agentId.len ≤ 128 ∧
          (∃ before after, raw = before ++ '"'.toUInt8 :: (agentId.asBytes ++ '"'.toUInt8 :: after)) ∧ Escaped agentId.asBytes) := by
  refine ⟨_, parseRegisterRequest_indexed raw, rfl, ?_⟩
  cases hparse : parseRegisterRequest raw with
  | error e => exact Or.inl ⟨e, rfl⟩
  | ok req =>
    obtain ⟨src, agentId, tier, hlen, hsrc, -, hid, -, rfl⟩ := parseRegisterRequest_eq_ok_iff.1 hparse
    obtain ⟨before, after, hsplit, hescaped⟩ := (jsonStringField_indexed src "agent_id".toList).2 agentId hid
    have hutf8 : fromUtf8 ((registerRequest agentId tier hlen).agentIdBuf.toList.take agentId.len) = some agentId := by
      rw [take_agentIdBuf, fromUtf8_asBytes]
    refine Or.inr ⟨_, _, tier, agentId, rfl, ?_, hutf8, hlen, ⟨asBytes before, asBytes after, ?_⟩, hescaped⟩
    · rw [Indexed.agentId, range_eq_ok (Nat.zero_le _) (by rw [Vector.length_toList]; exact hlen), ok_bind, List.drop_zero, Nat.sub_zero]
      exact congrArg (fun o => Except.ok (o.getD "".toList)) hutf8
    · rw [← asBytes_of_fromUtf8 hsrc, hsplit, asBytes_append, asBytes_cons_ascii quote_ascii, asBytes_append,
        asBytes_cons_ascii quote_ascii]

end Ipc

end Sentinel

end GolemKernel
