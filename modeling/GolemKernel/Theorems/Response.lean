import GolemKernel.Lemmas.Fields

/-!
# Registration responses

`serialize_response` writes the agent id into the response as it stands in the request. The scanner that read it does not check what a
string may contain, so the response is JSON exactly when the text of the agent id is that of a JSON string.
-/

namespace GolemKernel

namespace Sentinel

namespace Ipc

open Text Json

/-! ## Writing -/

namespace FixedWriter

variable {n : Nat}

/-- Parts that fit are written one after another. -/
theorem writeFmt_fits (parts : List Text) {w : FixedWriter n} (h : w.pos + len parts.flatten ≤ n) :
    ∃ w' : FixedWriter n, w.writeFmt parts = (true, w') ∧ w'.overflow = w.overflow ∧ w'.pos = w.pos + len parts.flatten ∧
      w'.buf.toList = w.buf.toList.take w.pos ++ asBytes parts.flatten ++ w.buf.toList.drop (w.pos + len parts.flatten) := by
  induction parts generalizing w with
  | nil =>
    refine ⟨w, rfl, rfl, rfl, ?_⟩
    simp [asBytes, len]
  | cons s parts ih =>
    rw [List.flatten_cons, len_append] at h ⊢
    have hs : ¬w.pos + len s > n := by omega
    let w₁ : FixedWriter n := { w with buf := copyFromSlice w.buf w.pos (asBytes s), pos := w.pos + len s }
    have hw₁ : w.writeStr s = (true, w₁) := if_neg hs
    have hbuf : w₁.buf.toList = w.buf.toList.take w.pos ++ asBytes s ++ w.buf.toList.drop (w.pos + len s) :=
      toList_copyFromSlice w.buf (by rw [← len]; omega)
    obtain ⟨w', hwrite, hoverflow, hpos, hlist⟩ := ih (w := w₁) (by show w.pos + len s + _ ≤ n; omega)
    refine ⟨w', ?_, hoverflow, ?_, ?_⟩
    · rw [writeFmt, hw₁]
      exact hwrite
    · rw [hpos]
      show w.pos + len s + _ = _
      omega
    · have hlength : (w.buf.toList.take w.pos ++ asBytes s).length = w.pos + len s := by
        rw [List.length_append, List.length_take, Vector.length_toList, Nat.min_eq_left (by omega), len]
      have htake : w₁.buf.toList.take w₁.pos = w.buf.toList.take w.pos ++ asBytes s := by
        rw [hbuf]
        exact List.take_left' hlength
      have hdrop : w₁.buf.toList.drop (w₁.pos + len parts.flatten) = w.buf.toList.drop (w.pos + (len s + len parts.flatten)) := by
        rw [hbuf, ← List.drop_drop, List.drop_left' hlength, List.drop_drop, Nat.add_assoc]
      rw [hlist, htake, hdrop, asBytes_append, List.append_assoc _ (asBytes s)]

/-- One piece is written as it is. -/
theorem writeFmt_singleton (w : FixedWriter n) (s : Text) : w.writeFmt [s] = w.writeStr s := by
  rw [writeFmt]
  cases hwrite : w.writeStr s with
  | mk ok w' => cases ok <;> rfl

/-- What is written fits. -/
theorem fits_of_writeFmt {parts : List Text} {w w' : FixedWriter n} (hpos : w.pos ≤ n) (h : w.writeFmt parts = (true, w')) :
    w.pos + len parts.flatten ≤ n := by
  induction parts generalizing w with
  | nil => exact hpos
  | cons s parts ih =>
    rw [List.flatten_cons, len_append]
    by_cases hs : w.pos + len s > n
    · have hfail : w.writeStr s = (false, { w with overflow := true }) := if_pos hs
      rw [writeFmt, hfail] at h
      cases h
    · have hw₁ : w.writeStr s = (true, { w with buf := copyFromSlice w.buf w.pos (asBytes s), pos := w.pos + len s }) := if_neg hs
      rw [writeFmt, hw₁] at h
      have hrest := ih (Nat.not_lt.1 hs) h
      have hsum : w.pos + len s + len parts.flatten ≤ n := hrest
      omega

end FixedWriter

/-- The text that `serialize_response` writes. -/
def RegisterResponse.text (resp : RegisterResponse) : Text := resp.parts.flatten

/-- A response that fits is written as its text. -/
theorem serializeResponse_fits {n : Nat} {resp : RegisterResponse} (out : Vector UInt8 n) (h : resp.text.len ≤ n) :
    ∃ out', serializeResponse resp out = (.ok resp.text.len, out') ∧ out'.toList.take resp.text.len = resp.text.asBytes := by
  have hfits : (FixedWriter.new out).pos + len resp.parts.flatten ≤ n := by
    show 0 + resp.text.len ≤ n
    omega
  obtain ⟨w, hwrite, hoverflow, hpos, hlist⟩ := FixedWriter.writeFmt_fits resp.parts hfits
  have hpos' : w.pos = resp.text.len := hpos.trans (Nat.zero_add _)
  refine ⟨w.buf, ?_, ?_⟩
  · rw [serializeResponse, hwrite, ← hpos']
    simp [hoverflow, FixedWriter.new]
  · rw [hlist]
    simp only [FixedWriter.new, List.take_zero, List.nil_append]
    exact List.take_left

/-- One that does not fit is an error. -/
theorem serializeResponse_too_large {n : Nat} {resp : RegisterResponse} (out : Vector UInt8 n) (h : n < resp.text.len) :
    (serializeResponse resp out).1 = .error .messageTooLarge := by
  cases hwrite : (FixedWriter.new out).writeFmt resp.parts with
  | mk ok w =>
    cases ok with
    | false =>
      rw [serializeResponse, hwrite]
      rfl
    | true =>
      have hfits := FixedWriter.fits_of_writeFmt (Nat.zero_le n) hwrite
      have hsum : (FixedWriter.new out).pos + len resp.parts.flatten = resp.text.len := Nat.zero_add _
      omega

/-- What was written is the text of the response. -/
theorem serializeResponse_ok {n m : Nat} {resp : RegisterResponse} {out out' : Vector UInt8 n}
    (h : serializeResponse resp out = (.ok m, out')) : out'.toList.take m = resp.text.asBytes := by
  have hfits : resp.text.len ≤ n := by
    by_contra hlarge
    have herror := serializeResponse_too_large out (Nat.not_le.1 hlarge)
    rw [h] at herror
    cases herror
  obtain ⟨buf, hok, htake⟩ := serializeResponse_fits out hfits
  rw [hok] at h
  cases h
  exact htake

/-! ## The response to a request -/

/-- The digits of `hex16`. -/
def hexText (value : UInt64) : Text :=
  List.ofFn fun i : Fin 16 => Nat.digitChar (((value >>> UInt64.ofNat ((15 - i) * 4)) &&& 0xf).toNat % 16)

/-- The table of the source has the hexadecimal digits in lower case. -/
theorem digitChar_spec (k : Nat) :
    (Nat.digitChar (k % 16)).toUInt8 = hexDigits.get (Fin.ofNat 16 k) ∧ Nat.digitChar (k % 16) ∈ "0123456789abcdef".toList := by
  have hdigits : ∀ d : Fin 16, (Nat.digitChar d).toUInt8 = hexDigits.get d ∧ Nat.digitChar d ∈ "0123456789abcdef".toList := by
    decide +kernel
  exact hdigits (Fin.ofNat 16 k)

/-- Such a digit is ASCII and needs no escape. -/
theorem lowercaseHex_spec {c : Char} (h : c ∈ "0123456789abcdef".toList) : c.toNat < 128 ∧ Unescaped c := by
  have hall : ("0123456789abcdef".toList.all fun c => decide (c.toNat < 128 ∧ Unescaped c)) = true := by decide +kernel
  simpa using List.all_eq_true.1 hall c h

/-- The audit hash is made of such digits. -/
theorem mem_hexText {value : UInt64} {c : Char} (h : c ∈ hexText value) : c ∈ "0123456789abcdef".toList := by
  obtain ⟨i, rfl⟩ := List.mem_ofFn.1 h
  exact (digitChar_spec _).2

/-- And its bytes are those of its text. -/
theorem toList_hex16 (value : UInt64) : (hex16 value).toList = (hexText value).asBytes := by
  rw [asBytes_ascii fun c hc => (lowercaseHex_spec (mem_hexText hc)).1, hex16, hexText, Vector.toList_ofFn, List.map_ofFn]
  congr 1
  funext i
  exact (digitChar_spec _).1.symm

/-- A buffer that begins with the bytes of a text is read as the text. -/
theorem inlineText_eq {n len : Nat} {buf : Vector UInt8 n} {s : Text} (h : buf.toList.take len = s.asBytes) : inlineText buf len = s := by
  rw [inlineText, h, fromUtf8_asBytes]
  rfl

/-- Decimal digits need no escape. -/
theorem unescaped_of_isDigit {c : Char} (h : c.isDigit = true) : Unescaped c := by
  refine ⟨Nat.le_of_lt (isDigit_gt h), ?_, ?_⟩
  · rintro rfl
    exact absurd h (by decide)
  · rintro rfl
    exact absurd h (by decide)

/-- Parts that fit into a fresh buffer are its first bytes. -/
theorem FixedWriter.take_new {n : Nat} (out : Vector UInt8 n) (parts : List Text) (h : len parts.flatten ≤ n) :
    ∃ w : FixedWriter n, (FixedWriter.new out).writeFmt parts = (true, w) ∧ w.pos = len parts.flatten ∧
      w.buf.toList.take w.pos = asBytes parts.flatten := by
  have hfits : (FixedWriter.new out).pos + len parts.flatten ≤ n := by
    show 0 + len parts.flatten ≤ n
    omega
  obtain ⟨w, hwrite, -, hpos, hlist⟩ := FixedWriter.writeFmt_fits parts hfits
  have hpos' : w.pos = len parts.flatten := hpos.trans (Nat.zero_add _)
  refine ⟨w, hwrite, hpos', ?_⟩
  rw [hlist, hpos']
  simp only [FixedWriter.new, List.take_zero, List.nil_append]
  exact List.take_left

/-- The timestamp is `mono+` and the counter, if that fits in 24 bytes. -/
theorem nowString_of_fits {counter : UInt64} (h : len ("mono+".toList ++ decimal counter.toNat) ≤ 24) :
    (nowString counter).1.1.toList.take (nowString counter).1.2 = asBytes ("mono+".toList ++ decimal counter.toNat) := by
  have hflat : ["mono+".toList, decimal counter.toNat].flatten = "mono+".toList ++ decimal counter.toNat := by simp
  obtain ⟨w, hwrite, -, htake⟩ :=
    FixedWriter.take_new (Vector.replicate 24 0) ["mono+".toList, decimal counter.toNat] (by rwa [hflat])
  rw [nowString, hwrite, ← hflat]
  exact htake

/-- A counter that does not fit is left out. -/
theorem nowString_of_not_fits {counter : UInt64} (h : ¬len ("mono+".toList ++ decimal counter.toNat) ≤ 24) :
    (nowString counter).1.1.toList.take (nowString counter).1.2 = asBytes "mono+".toList := by
  obtain ⟨w, hwrite, hpos, htake⟩ := FixedWriter.take_new (Vector.replicate 24 0) ["mono+".toList] (by decide +kernel)
  have hfull : w.pos + len (decimal counter.toNat) > 24 := by
    have hsum : len (["mono+".toList].flatten) + len (decimal counter.toNat) > 24 := by
      rw [len_append] at h
      simpa using h
    rwa [hpos]
  have hfirst : (FixedWriter.new (Vector.replicate 24 0)).writeStr "mono+".toList = (true, w) := by
    rwa [FixedWriter.writeFmt_singleton] at hwrite
  have hfail : w.writeStr (decimal counter.toNat) = (false, { w with overflow := true }) := if_pos hfull
  rw [nowString, FixedWriter.writeFmt, hfirst]
  simp only [FixedWriter.writeFmt, hfail]
  simpa using htake

/-- The timestamp is short and has nothing in it that needs an escape. -/
theorem nowString_spec (counter : UInt64) :
    ∃ t : Text, inlineText (nowString counter).1.1 (nowString counter).1.2 = t ∧ t.len ≤ 24 ∧ ∀ c ∈ t, Unescaped c := by
  have hmono : ∀ c ∈ "mono+".toList, Unescaped c := unescaped_of_all (by decide +kernel)
  by_cases hfits : len ("mono+".toList ++ decimal counter.toNat) ≤ 24
  · refine ⟨_, inlineText_eq (nowString_of_fits hfits), hfits, ?_⟩
    intro c hc
    rcases List.mem_append.1 hc with hc | hc
    · exact hmono c hc
    · exact unescaped_of_isDigit (isDigit_of_mem_decimal hc)
  · exact ⟨_, inlineText_eq (nowString_of_not_fits hfits), by decide +kernel, hmono⟩

/-- The text of the response with these parts. -/
def responseText (agentId auditHash timestamp : Text) : Text :=
  "\x7b\"success\":".toList ++ ("true".toList ++ (",\"agent_id\":\"".toList ++ (agentId ++ ("\",\"audit_hash\":\"".toList ++
    (auditHash ++ ("\",\"timestamp\":\"".toList ++ (timestamp ++ "\"\x7d".toList)))))))

/-- A response that reports success has this text. -/
theorem RegisterResponse.text_eq {resp : RegisterResponse} (h : resp.success = true) :
    resp.text = responseText resp.agentId resp.auditHash resp.timestamp := by
  rw [RegisterResponse.text, RegisterResponse.parts, h]
  simp only [List.flatten_cons, List.flatten_nil, List.append_nil]
  rfl

/-- The audit hash of a request has sixteen digits. -/
theorem auditHashFor_spec (req : RegisterRequest) :
    ∃ t : Text, inlineText (auditHashFor req) 16 = t ∧ t.length = 16 ∧ ∀ c ∈ t, c ∈ "0123456789abcdef".toList := by
  unfold auditHashFor
  generalize fnv1a (req.agentId.asBytes ++ req.permissionTier.asWire.asBytes) = value
  have hlist : (hex16 value).toList.take 16 = (hex16 value).toList := List.take_of_length_le (by simp)
  exact ⟨hexText value, inlineText_eq (hlist.trans (toList_hex16 value)), List.length_ofFn, fun c hc => mem_hexText hc⟩

/-- The response to a request: its agent id, its audit hash and the time. -/
theorem buildResponse_eq (req : RegisterRequest) (counter : UInt64) :
    (buildResponse req counter).1 =
      { success := true
        agentIdBuf := copyFromSlice (Vector.replicate maxAgentId 0) 0 req.agentId.asBytes
        agentIdLen := req.agentId.len
        auditHashBuf := auditHashFor req
        timestampBuf := (nowString counter).1.1
        timestampLen := (nowString counter).1.2 } := by
  unfold buildResponse
  cases nowString counter with
  | mk now counter' => cases now with
    | mk buf len => rfl

/-- What is written for a request that was accepted. -/
theorem text_buildResponse {raw : List UInt8} {req : RegisterRequest} (hparse : parseRegisterRequest raw = .ok req) (counter : UInt64) :
    ∃ auditHash timestamp, (buildResponse req counter).1.text = responseText req.agentId auditHash timestamp ∧
      req.agentId.len ≤ maxAgentId ∧ auditHash.length = 16 ∧ (∀ c ∈ auditHash, c ∈ "0123456789abcdef".toList) ∧
      timestamp.len ≤ 24 ∧ ∀ c ∈ timestamp, Unescaped c := by
  have hlen : req.agentId.len ≤ maxAgentId := by
    obtain ⟨src, agentId, tier, hlen, -, -, -, -, hreq⟩ := parseRegisterRequest_eq_ok_iff.1 hparse
    rwa [hreq, agentId_registerRequest]
  obtain ⟨timestamp, htime, htimeLen, htimeText⟩ := nowString_spec counter
  obtain ⟨auditHash, hhash, hhashLen, hhashText⟩ := auditHashFor_spec req
  have hagent := inlineText_copyFromSlice (Vector.replicate maxAgentId 0) hlen
  refine ⟨auditHash, timestamp, ?_, hlen, hhashLen, hhashText, htimeLen, htimeText⟩
  have hsuccess : (buildResponse req counter).1.success = true := by rw [buildResponse_eq]
  rw [RegisterResponse.text_eq hsuccess, buildResponse_eq, RegisterResponse.agentId, RegisterResponse.auditHash, RegisterResponse.timestamp,
    hagent, hhash, htime]

/-! ## The response as JSON -/

/-- The members of the response, when the agent id is the text of a string. -/
def responseMembers (agentId auditHash timestamp : Str) : Members :=
  [(Str.literal "success" (by decide +kernel), .bool true), (Str.literal "agent_id" unescaped_agent_id, .string agentId),
    (Str.literal "audit_hash" (by decide +kernel), .string auditHash), (Str.literal "timestamp" (by decide +kernel), .string timestamp)]

/-- The names in a response are distinct. -/
theorem distinct_response (agentId auditHash timestamp : Str) : Members.Distinct (responseMembers agentId auditHash timestamp) := by
  -- the names do not depend on the values
  have hnames : (responseMembers agentId auditHash timestamp).map (fun m => m.1.units) =
      (responseMembers [] [] []).map fun m => m.1.units := rfl
  rw [Members.Distinct, hnames]
  decide +kernel

/-- A string is written between quotes. -/
theorem text_string (s : Str) (rest : Text) : Token.text (.string s) ++ rest = '"' :: (s.text ++ '"' :: rest) := by
  simp [Token.text]

/-- The text of a response is an object with these members. -/
theorem isObject_response (agentId auditHash timestamp : Str) :
    IsObject (responseMembers agentId auditHash timestamp) (responseText agentId.text auditHash.text timestamp.text) := by
  have htext : (Value.object (responseMembers agentId auditHash timestamp)).tokens.flatMap Token.text =
      responseText agentId.text auditHash.text timestamp.text := by
    simp only [responseMembers, Value.tokens, moreMembers, List.flatMap_cons, List.flatMap_nil, List.cons_append, List.nil_append,
      text_string, Str.text_literal]
    rfl
  rw [← htext]
  exact spelled_flatMap isSpace _

/-- A response to a registration of this agent: one JSON object that says so. -/
def Answers (agentId : Text) (bytes : List UInt8) : Prop :=
  ∃ (members : Members) (text : Text) (id hash : Str), bytes = text.asBytes ∧ IsObject members text ∧ Members.Distinct members ∧
    Members.get? members "success".toList = some (.bool true) ∧
    Members.get? members "agent_id".toList = some (.string id) ∧ id.text = agentId ∧
    Members.get? members "audit_hash".toList = some (.string hash) ∧ hash.text.length = 16 ∧
    ∀ c ∈ hash.text, c ∈ "0123456789abcdef".toList

/-- So it answers the request for the agent id. -/
theorem answers_response (id : Str) {auditHash timestamp : Text} (hlen : auditHash.length = 16)
    (hhash : ∀ c ∈ auditHash, c ∈ "0123456789abcdef".toList) (htime : ∀ c ∈ timestamp, Unescaped c) :
    Answers id.text (responseText id.text auditHash timestamp).asBytes := by
  let hash := Str.plain auditHash fun c hc => (lowercaseHex_spec (hhash c hc)).2
  let time := Str.plain timestamp htime
  have hobject := isObject_response id hash time
  rw [Str.text_plain, Str.text_plain] at hobject
  refine ⟨responseMembers id hash time, _, id, hash, rfl, hobject, ?_, rfl, rfl, rfl, rfl, ?_, ?_⟩
  · exact distinct_response id hash time
  · rwa [Str.text_plain]
  · rwa [Str.text_plain]

/-! ## What the scanner lets through -/

/-- What follows the closing quote does not matter. -/
theorem scanString_stable {t body : Text} (h : scanString t = some body) (rest : Text) : scanString (body ++ '"' :: rest) = some body := by
  fun_induction scanString t generalizing body with
  | case1 => cases h
  | case2 =>
    obtain rfl := Option.some.inj h
    exact scanString_quote rest
  | case3 => cases h
  | case4 d t ih =>
    obtain ⟨body', hbody, rfl⟩ := Option.map_eq_some_iff.1 h
    rw [List.cons_append, List.cons_append, scanString_escape, ih hbody]
    rfl
  | case5 d t _ =>
    obtain rfl := Option.some.inj h
    exact scanString_quote rest
  | case6 c d t hescape hquote ih =>
    obtain ⟨body', hbody, rfl⟩ := Option.map_eq_some_iff.1 h
    rw [List.cons_append, scanString_cons hquote hescape, ih hbody]
    rfl

/-- The agent id of a request has been read as a string up to its closing quote, so it is read so again. -/
theorem scanString_agentId {raw : List UInt8} {req : RegisterRequest} (hparse : parseRegisterRequest raw = .ok req) (rest : Text) :
    scanString (req.agentId ++ '"' :: rest) = some req.agentId := by
  obtain ⟨src, agentId, tier, hlen, -, -, hid, -, hreq⟩ := parseRegisterRequest_eq_ok_iff.1 hparse
  rw [hreq, agentId_registerRequest]
  have hall : ("agent_id".toList.all fun c => decide (c.toNat < 128)) = true := by decide +kernel
  have hascii : Ascii "agent_id".toList := fun c hc => of_decide_eq_true (List.all_eq_true.1 hall c hc)
  rw [jsonStringField_eq hascii (by decide +kernel), scanField] at hid
  obtain ⟨start, -, hid⟩ := Option.bind_eq_some_iff.1 hid
  obtain ⟨j, -, hid⟩ := Option.bind_eq_some_iff.1 hid
  obtain ⟨value, -, hid⟩ := Option.bind_eq_some_iff.1 hid
  exact scanString_stable hid rest

/-- The blanks of JSON are control characters and the space. -/
theorem isSpace_le {c : Char} (h : isSpace c = true) : c.toNat ≤ 0x20 := by
  simp only [isSpace, Bool.or_eq_true, decide_eq_true_eq] at h
  rcases h with ((rfl | rfl) | rfl) | rfl <;> decide

section Spelled

variable {v : Value} {s : Str} {t : Token} {ts : List Token} {c : Char} {src : Text}

/-- A token of one character is taken off. -/
theorem spelled_tail (ht : t.text = [c]) (hc : 0x20 < c.toNat) (h : Spelled isSpace (t :: ts) (c :: src)) : Spelled isSpace ts src := by
  obtain ⟨text, rest, -, htext, rfl, hrest⟩ := h.uncons (fun _ => isSpace_le) hc
  rw [ht] at htext
  obtain rfl : [] = text := (List.cons.inj htext).2
  exact hrest

/-- A string token is taken off: it ends where the scanner says. -/
theorem spelled_string {body : Text} (hbody : scanString (body ++ '"' :: src) = some body)
    (h : Spelled isSpace (.string s :: ts) ('"' :: (body ++ '"' :: src))) : s.text = body ∧ Spelled isSpace ts src := by
  obtain ⟨text, rest, -, htext, hsrc, hrest⟩ := h.uncons (fun _ => isSpace_le) (by decide)
  obtain rfl : s.text ++ ['"'] = text := (List.cons.inj htext).2
  rw [List.append_assoc, List.singleton_append] at hsrc
  rw [hsrc, scanString_text] at hbody
  obtain rfl := Option.some.inj hbody
  obtain rfl := (List.cons.inj (List.append_cancel_left hsrc)).2
  exact ⟨rfl, hrest⟩

/-- A name and the colon after it are taken off. -/
theorem spelled_name {name : Text} (hname : (name.all fun c => decide (Unescaped c)) = true)
    (h : Spelled isSpace (.string s :: .nameSeparator :: ts) ('"' :: (name ++ '"' :: ':' :: src))) : Spelled isSpace ts src := by
  have hscan := scanString_text (Str.plain name (unescaped_of_all hname)) (':' :: src)
  rw [Str.text_plain] at hscan
  exact spelled_tail rfl (by decide) (spelled_string hscan h).2

/-- A value that starts with a `t` is taken off. -/
theorem spelled_true (h : Spelled isSpace (v.tokens ++ ts) ('t' :: 'r' :: 'u' :: 'e' :: src)) : Spelled isSpace ts src := by
  obtain ⟨t, ts', htokens, htrue, -⟩ := v.exists_tokens_eq
  rw [htokens, List.cons_append] at h
  obtain ⟨text, rest, hstart, htext, hsrc, hrest⟩ := h.uncons (fun _ => isSpace_le) (by decide)
  obtain rfl := htrue hstart
  obtain ⟨rfl, rfl⟩ : Token.bool true = t ∧ [] = ts' := by simpa [Value.tokens] using htokens
  obtain rfl : ['r', 'u', 'e'] = text := (List.cons.inj htext).2
  obtain rfl : src = rest := by simpa using hsrc
  exact hrest

/-- A value that starts with a quote is a string. -/
theorem exists_string_of_spelled (h : Spelled isSpace (v.tokens ++ ts) ('"' :: src)) : ∃ s, v = .string s := by
  obtain ⟨t, ts', htokens, -, hstring⟩ := v.exists_tokens_eq
  rw [htokens, List.cons_append] at h
  obtain ⟨_, _, hstart, -⟩ := h.uncons (fun _ => isSpace_le) (by decide)
  exact hstring hstart

end Spelled

/-- If the response is an object at all, the agent id is the text of a string. -/
theorem string_of_isObject {agentId auditHash timestamp : Text} (hscan : ∀ rest, scanString (agentId ++ '"' :: rest) = some agentId)
    {members : Members} (h : IsObject members (responseText agentId auditHash timestamp)) : ∃ s : Str, s.text = agentId := by
  obtain ⟨after, htext⟩ : ∃ after, responseText agentId auditHash timestamp =
      '\x7b' :: '"' :: ("success".toList ++ '"' :: ':' :: 't' :: 'r' :: 'u' :: 'e' :: ',' :: '"' ::
        ("agent_id".toList ++ '"' :: ':' :: '"' :: (agentId ++ '"' :: after))) := ⟨_, rfl⟩
  rw [IsObject, htext] at h
  cases members with
  | nil =>
    -- a quote is no closing brace
    rw [Value.tokens] at h
    obtain ⟨_, _, hstart, -⟩ := (spelled_tail rfl (by decide) h).uncons (fun _ => isSpace_le) (by decide)
    exact absurd (show '"' = '\x7d' from hstart) (by decide)
  | cons m members =>
    obtain ⟨name, v⟩ := m
    rw [Value.tokens, List.append_assoc] at h
    have hsuccess := spelled_true (spelled_name (by decide +kernel) (spelled_tail rfl (by decide) h))
    cases members with
    | nil =>
      -- neither is a comma
      obtain ⟨_, _, hstart, -⟩ := hsuccess.uncons (fun _ => isSpace_le) (by decide)
      exact absurd (show ',' = '\x7d' from hstart) (by decide)
    | cons m members =>
      obtain ⟨name', v'⟩ := m
      rw [moreMembers, List.cons_append, List.cons_append, List.cons_append, List.append_assoc] at hsuccess
      have hvalue := spelled_name (by decide +kernel) (spelled_tail rfl (by decide) hsuccess)
      obtain ⟨s, rfl⟩ := exists_string_of_spelled hvalue
      rw [Value.tokens, List.singleton_append] at hvalue
      exact ⟨s, (spelled_string (hscan _) hvalue).1⟩

/-- The length of two texts of known lengths. -/
theorem len_append_of {s t : Text} {m n : Nat} (hs : s.len = m) (ht : t.len = n) : len (s ++ t) = m + n := by
  rw [len_append, hs, ht]

/-- The length of a response: the texts between its members are fixed. -/
theorem len_responseText (agentId auditHash timestamp : Text) :
    (responseText agentId auditHash timestamp).len =
      11 + (4 + (13 + (agentId.len + (16 + (auditHash.len + (15 + (timestamp.len + 2))))))) := by
  refine len_append_of (by decide +kernel) (len_append_of (by decide +kernel) (len_append_of (by decide +kernel) (len_append_of rfl ?_)))
  refine len_append_of (by decide +kernel) (len_append_of rfl (len_append_of (by decide +kernel) (len_append_of rfl ?_)))
  decide +kernel

/-- The buffer of `handle_one` is large enough for every response. -/
theorem serializeResponse_returns {raw : List UInt8} {req : RegisterRequest} (hparse : parseRegisterRequest raw = .ok req) (counter : UInt64)
    {n : Nat} (hn : maxMessage ≤ n) (out : Vector UInt8 n) :
    ∃ m out', serializeResponse (buildResponse req counter).1 out = (.ok m, out') := by
  obtain ⟨auditHash, timestamp, htext, hidLen, hhashLen, hhash, htimeLen, -⟩ := text_buildResponse hparse counter
  have hlen : auditHash.len = 16 := by
    rw [len, asBytes_ascii fun c hc => (lowercaseHex_spec (hhash c hc)).1, List.length_map, hhashLen]
  have hfits : (buildResponse req counter).1.text.len ≤ n := by
    have hid : maxAgentId = 128 := rfl
    have hmax : maxMessage = 4096 := rfl
    rw [htext, len_responseText]
    omega
  obtain ⟨out', hok, -⟩ := serializeResponse_fits out hfits
  exact ⟨_, out', hok⟩

/-- For every request that was accepted and every time: a buffer of 4096 bytes or more takes the response, and what is written is a JSON
object that answers the request under its agent id if and only if the id is the text of a JSON string. -/
theorem response_answers_iff {raw : List UInt8} {req : RegisterRequest} (hparse : parseRegisterRequest raw = .ok req) (counter : UInt64)
    {n : Nat} (out : Vector UInt8 n) :
    (maxMessage ≤ n → ∃ m out', serializeResponse (buildResponse req counter).1 out = (.ok m, out')) ∧
      ∀ m out', serializeResponse (buildResponse req counter).1 out = (.ok m, out') →
        (Answers req.agentId (out'.toList.take m) ↔ ∃ s : Str, s.text = req.agentId) := by
  refine ⟨fun hn => serializeResponse_returns hparse counter hn out, ?_⟩
  intro m out' hok
  obtain ⟨auditHash, timestamp, htext, -, hhashLen, hhash, -, htime⟩ := text_buildResponse hparse counter
  rw [serializeResponse_ok hok, htext]
  constructor
  · intro ⟨members, text, id, hash, hbytes, hobject, _⟩
    rw [← asBytes_injective hbytes] at hobject
    exact string_of_isObject (scanString_agentId hparse) hobject
  · intro ⟨s, hs⟩
    rw [← hs]
    exact answers_response s hhashLen hhash htime

/-- A request with this text between the quotes of its agent id. -/
def writeRequest (agentId : Text) : Text :=
  "\x7b\"method\":\"register\",\"agent_id\":\"".toList ++ agentId ++ "\",\"permission_tier\":\"WRITE\"\x7d".toList

/-- The request of the test `serializes_response_round_trip` is accepted. -/
theorem parse_writeRequest_svc (hid : len "svc".toList ≤ maxAgentId) :
    parseRegisterRequest (writeRequest "svc".toList).asBytes = .ok (registerRequest "svc".toList .write hid) :=
  parseRegisterRequest_eq_ok_iff.2 ⟨_, _, _, hid, fromUtf8_asBytes _, by decide +kernel, by decide +kernel, by decide +kernel, rfl⟩

theorem response_answers_iff_svc :
    ∃ req m out', parseRegisterRequest (writeRequest "svc".toList).asBytes = .ok req ∧
      serializeResponse (buildResponse req 0).1 (Vector.replicate maxMessage 0) = (.ok m, out') ∧
      Answers "svc".toList (out'.toList.take m) := by
  have hid : len "svc".toList ≤ maxAgentId := by decide +kernel
  have hparse := parse_writeRequest_svc hid
  obtain ⟨hreturns, hiff⟩ := response_answers_iff hparse 0 (Vector.replicate maxMessage 0)
  obtain ⟨m, out', hok⟩ := hreturns (Nat.le_refl _)
  have hanswers := (hiff m out' hok).2
    ⟨Str.literal "svc" (by decide +kernel), by rw [Str.text_literal, agentId_registerRequest]⟩
  rw [agentId_registerRequest] at hanswers
  exact ⟨_, m, out', hparse, hok, hanswers⟩

/-- An agent id that is a control character: the request is accepted and what is written for it is no JSON object. -/
theorem control_character_echoed :
    ∃ req, parseRegisterRequest (writeRequest ['\x01']).asBytes = .ok req ∧
      ∃ m out', serializeResponse (buildResponse req 0).1 (Vector.replicate maxMessage 0) = (.ok m, out') ∧
        ¬∃ (members : Members) (text : Text), out'.toList.take m = text.asBytes ∧ IsObject members text := by
  have hid : len ['\x01'] ≤ maxAgentId := by decide +kernel
  have hparse : parseRegisterRequest (writeRequest ['\x01']).asBytes = .ok (registerRequest ['\x01'] .write hid) :=
    parseRegisterRequest_eq_ok_iff.2
      ⟨_, _, _, hid, fromUtf8_asBytes _, by decide +kernel, by decide +kernel, by decide +kernel, rfl⟩
  obtain ⟨m, out', hok⟩ := serializeResponse_returns hparse 0 (Nat.le_refl _) (Vector.replicate maxMessage 0)
  refine ⟨_, hparse, m, out', hok, ?_⟩
  intro ⟨members, text, hbytes, hobject⟩
  obtain ⟨auditHash, timestamp, htext, -⟩ := text_buildResponse hparse 0
  rw [serializeResponse_ok hok, htext] at hbytes
  rw [← asBytes_injective hbytes] at hobject
  obtain ⟨s, hs⟩ := string_of_isObject (scanString_agentId hparse) hobject
  rw [agentId_registerRequest] at hs
  -- no piece of a string starts with a control character
  cases s with
  | nil => cases hs
  | cons p s =>
    cases p with
    | unescaped c hc =>
      obtain ⟨rfl, -⟩ := List.cons.inj hs
      exact absurd hc (by decide)
    | escape e => exact absurd (List.cons.inj hs).1 (by decide)
    | unicode d₃ d₂ d₁ d₀ => exact absurd (List.cons.inj hs).1 (by decide)

/-! ## The round trip -/

/-- A request that is accepted is answered: neither the serialization nor the transmission fails. -/
theorem handleOne_answers {c c₁ : Channel} {counter : UInt64} {n : Nat} {reqBuf : List UInt8} {req : RegisterRequest}
    (hread : c.readMessage (List.replicate maxMessage 0) = some (n, reqBuf, c₁)) (hparse : parseRegisterRequest (reqBuf.take n) = .ok req) :
    ∃ m respBuf c₂, serializeResponse (buildResponse req counter).1 (Vector.replicate maxMessage 0) = (.ok m, respBuf) ∧
      c₁.sendMessage (respBuf.toList.take m) = .ok c₂ ∧ handleOne c counter = some (.ok req, c₂, (buildResponse req counter).2) := by
  obtain ⟨m, respBuf, hok⟩ := serializeResponse_returns hparse counter (Nat.le_refl _) (Vector.replicate maxMessage 0)
  have hsmall : ¬(respBuf.toList.take m).length > bufSize := by
    have hlength : (respBuf.toList.take m).length ≤ maxMessage := by
      rw [List.length_take, Vector.length_toList]
      exact Nat.min_le_right _ _
    exact Nat.not_lt.2 hlength
  obtain ⟨c₂, hsend⟩ : ∃ c₂, c₁.sendMessage (respBuf.toList.take m) = .ok c₂ := by
    rw [Channel.sendMessage, VirtQueue.fillTx, if_neg hsmall]
    exact ⟨_, rfl⟩
  refine ⟨m, respBuf, c₂, hok, hsend, ?_⟩
  rw [handleOne, hread]
  simp only [Option.bind_eq_bind, Option.bind_some, hparse, hok, hsend]
  rfl

end Ipc

end Sentinel

end GolemKernel
