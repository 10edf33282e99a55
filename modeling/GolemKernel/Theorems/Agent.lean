import GolemKernel.Sentinel.Agent
import GolemKernel.Theorems.Registration
import GolemKernel.Theorems.Service

/-!
# The demo agent and the kernel

Which registrations of the agent the kernel accepts, and under what id (`agent_registration_read`); and that the agent, which waits for a
line, never gets one (`agent_never_answered`).
-/

namespace GolemKernel

namespace Sentinel

namespace Ipc

open Text Json

/-! ## What is dumped -/

/-- A hexadecimal digit has the value it was made from. -/
theorem hexValue_hexDigit (n : Nat) : hexValue (hexDigit n).val = n % 16 := by
  have hdigits : ∀ d : Fin 16, hexValue (Nat.digitChar d) = d := by decide
  exact hdigits ⟨n % 16, Nat.mod_lt n (by decide)⟩

/-- An escape stands for its code unit. -/
theorem units_unicodeEscape (u : UInt16) : (unicodeEscape u).units = [u] := by
  have hlt := u.toNat_lt
  have hvalue : ((u.toNat / 4096 % 16 * 16 + u.toNat / 256 % 16) * 16 + u.toNat / 16 % 16) * 16 + u.toNat % 16 = u.toNat := by omega
  rw [unicodeEscape, Piece.units]
  simp only [hexValue_hexDigit, hvalue, UInt16.ofNat_toNat]

/-- A dumped character stands for its code units. -/
theorem units_escapeChar (c : Char) : Str.units (escapeChar c) = utf16 c := by
  have hunicode : ∀ us : List UInt16, Str.units (us.map unicodeEscape) = us := by
    intro us
    induction us with
    | nil => rfl
    | cons u us ih =>
      rw [Str.units, List.map_cons, List.flatMap_cons, units_unicodeEscape, ← Str.units, ih]
      rfl
  unfold escapeChar
  split_ifs with hquote hescape hn hr ht hf hb hplain
  · subst hquote; rfl
  · subst hescape; rfl
  · subst hn; rfl
  · subst hr; rfl
  · subst ht; rfl
  · subst hf; rfl
  · subst hb; rfl
  · exact List.append_nil _
  · exact hunicode _

/-- What is dumped means what was to be dumped. -/
theorem means_dumpsStr (t : Text) : (dumpsStr t).Means t := by
  induction t with
  | nil => rfl
  | cons c t ih =>
    rw [Str.Means, dumpsStr, List.flatMap_cons, List.flatMap_cons, ← dumpsStr, Str.units, List.flatMap_append, ← Str.units, ← Str.units,
      units_escapeChar, ih]

/-- The characters of a piece. -/
theorem Piece.mem_text {p : Piece} {c : Char} (h : c ∈ p.text) : c ≠ '\n' := by
  rintro rfl
  cases p with
  | unescaped d hd =>
    obtain rfl := List.mem_singleton.mp h
    exact absurd hd (by decide)
  | escape e => cases e <;> simp [Piece.text, Escape.letter] at h
  | unicode d₃ d₂ d₁ d₀ =>
    have hhex : ∀ d : { c : Char // HexDigit c }, '\n' ≠ d.val := by
      intro d hd
      exact absurd (hd ▸ d.property) (by decide)
    simp [Piece.text, hhex] at h

/-- A JSON string has no line break in it. -/
theorem newline_notMem_text (s : Str) : '\n' ∉ s.text := by
  intro h
  obtain ⟨p, -, hp⟩ := List.mem_flatMap.mp h
  exact Piece.mem_text hp rfl

/-! ## Registration -/

/-- The characters of a key are dumped as they are. -/
theorem escapeChar_of_letter {c : Char} (hc : c.isAlpha = true ∨ c = '_') : Str.text (escapeChar c) = [c] := by
  have hne : ∀ d : Char, ¬(d.isAlpha = true ∨ d = '_') → c ≠ d := by
    rintro d hd rfl
    exact hd hc
  have hplain : 0x20 ≤ c.toNat ∧ c.toNat ≤ 0x7e := by
    rcases hc with hletter | rfl
    · simp only [Char.isAlpha, Char.isUpper, Char.isLower, Bool.or_eq_true, Bool.and_eq_true, decide_eq_true_eq] at hletter
      have hnat : ∀ d : Char, d.val.toNat = d.toNat := fun _ => rfl
      rcases hletter with ⟨hge, hle⟩ | ⟨hge, hle⟩ <;> rw [ge_iff_le, UInt32.le_iff_toNat_le, hnat] at hge <;>
        rw [UInt32.le_iff_toNat_le, hnat] at hle <;> simp at hge hle <;> omega
    · decide
  rw [escapeChar, dif_neg (hne '"' (by decide)), dif_neg (hne '\\' (by decide)), if_neg (hne '\n' (by decide)),
    if_neg (hne '\r' (by decide)), if_neg (hne '\t' (by decide)), if_neg (hne '\x0c' (by decide)), if_neg (hne '\x08' (by decide)),
    dif_pos hplain]
  rfl

/-- Only a quote is dumped with a quote. -/
theorem quote_notMem_escapeChar {c : Char} (hc : c ≠ '"') : '"' ∉ Str.text (escapeChar c) := by
  have hpiece : Piece.escape .quotationMark ∉ escapeChar c := by
    rw [escapeChar, dif_neg hc]
    split_ifs <;> simp [unicodeEscape]
  intro h
  obtain ⟨p, hp, hquote⟩ := List.mem_flatMap.mp h
  rcases p.quote_notMem with hnot | rfl
  · exact hnot hquote
  · exact hpiece hp

/-- A text is dumped character by character. -/
theorem text_dumpsStr_cons (c : Char) (t : Text) : (dumpsStr (c :: t)).text = Str.text (escapeChar c) ++ (dumpsStr t).text := by
  rw [dumpsStr, List.flatMap_cons, Str.text, List.flatMap_append]
  rfl

/-- A character is dumped as it is, or as an escape. -/
theorem text_escapeChar (c : Char) : Str.text (escapeChar c) = [c] ∨ ∃ rest, Str.text (escapeChar c) = '\\' :: rest := by
  unfold escapeChar
  split_ifs
  · exact .inr ⟨_, rfl⟩
  · exact .inr ⟨_, rfl⟩
  · exact .inr ⟨_, rfl⟩
  · exact .inr ⟨_, rfl⟩
  · exact .inr ⟨_, rfl⟩
  · exact .inr ⟨_, rfl⟩
  · exact .inr ⟨_, rfl⟩
  · exact .inl rfl
  · unfold utf16
    simp only
    split_ifs <;> exact .inr ⟨_, rfl⟩

/-- Only the key itself is dumped as the key. -/
theorem text_dumpsStr_eq_iff {key : Text} (hkey : ∀ c ∈ key, c.isAlpha = true ∨ c = '_') (t : Text) : key = (dumpsStr t).text ↔ key = t := by
  constructor
  · intro h
    induction t generalizing key with
    | nil => exact h
    | cons c t ih =>
      rw [text_dumpsStr_cons] at h
      rcases text_escapeChar c with htext | ⟨rest, htext⟩
      · rw [htext] at h
        subst h
        exact congrArg (c :: ·) (ih (fun d hd => hkey d (List.mem_cons_of_mem _ hd)) rfl)
      · rw [htext] at h
        subst h
        exact absurd (hkey '\\' List.mem_cons_self) (by decide)
  · rintro rfl
    induction key with
    | nil => rfl
    | cons c key ih =>
      rw [text_dumpsStr_cons, escapeChar_of_letter (hkey c List.mem_cons_self), ← ih fun d hd => hkey d (List.mem_cons_of_mem _ hd)]
      rfl

/-- The dumped string ends in the quoted key when the string does. -/
theorem endsIn_dumpsStr_iff {key : Text} (hkey : Name key) (t : Text) : EndsIn key (dumpsStr t) ↔ '"' :: key <:+ '"' :: t := by
  have hsuffix : '"' :: key <:+ (dumpsStr t).text ↔ '"' :: key <:+ t := by
    induction t with
    | nil => rfl
    | cons c t ih =>
      rw [text_dumpsStr_cons]
      by_cases hc : c = '"'
      · subst hc
        have htext : Str.text (escapeChar '"') ++ (dumpsStr t).text = ['\\'] ++ '"' :: (dumpsStr t).text := rfl
        rw [htext, suffix_append_iff (by decide), List.suffix_cons_iff, List.suffix_cons_iff, ih, List.cons_inj_right, List.cons_inj_right,
          text_dumpsStr_eq_iff hkey.letter]
      · have hne : '"' :: key ≠ c :: t := fun heq => hc (List.cons.inj heq).1.symm
        rw [suffix_append_iff (quote_notMem_escapeChar hc), ih, List.suffix_cons_iff]
        exact ⟨.inr, fun h => h.resolve_left hne⟩
  rw [EndsIn, List.suffix_cons_iff, List.suffix_cons_iff, hsuffix, List.cons_inj_right, List.cons_inj_right,
    text_dumpsStr_eq_iff hkey.letter]

/-- It is dumped between quotes. -/
theorem dumpsString_append (t rest : Text) : dumpsString t ++ rest = '"' :: ((dumpsStr t).text ++ '"' :: rest) := by
  rw [dumpsString, List.cons_append, List.append_assoc]
  rfl

/-- The tiers are dumped as they are. -/
theorem text_dumpsStr_asWire (tier : PermissionTier) : (dumpsStr tier.asWire).text = tier.asWire := by
  have hletters : (tier.asWire.all fun c => c.isAlpha || c = '_') = true := by cases tier <;> decide +kernel
  exact ((text_dumpsStr_eq_iff (letters_of_all hletters) _).mpr rfl).symm

section

variable (id : Str) (tier : PermissionTier) (rest : Text)

/-- The text of a registration. -/
def registerText : Text :=
  "\x7b\"method\": \"register\", \"agent_id\": ".toList ++
    ('"' :: (id.text ++ '"' :: (", \"permission_tier\": ".toList ++ ('"' :: (tier.asWire ++ '"' :: rest)))))

/-- Up to the agent id, up to the tier, and the rest. -/
theorem dumps_register (agentId : Text) (heartbeat : Int) : ∃ rest,
    (AgentMessage.register agentId tier heartbeat).dumps ++ ['\n'] = registerText (dumpsStr agentId) tier rest := by
  refine ⟨", \"heartbeat_interval_secs\": ".toList ++ (dumpsInt heartbeat ++ ("\x7d".toList ++ ['\n'])), ?_⟩
  unfold AgentMessage.dumps registerText
  rw [List.append_assoc, List.append_assoc, List.append_assoc, List.append_assoc, List.append_assoc, List.append_assoc, dumpsString_append,
    dumpsString_append, text_dumpsStr_asWire]

/-- The kernel finds the method. -/
theorem method_registerText : jsonStringField (registerText id tier rest) "method".toList = some "register".toList := by
  rw [jsonStringField_eq name_method.ascii name_method.short]
  rfl

/-- It finds the agent id as it was dumped. -/
theorem agentId_registerText : jsonStringField (registerText id tier rest) "agent_id".toList = some id.text := by
  rw [jsonStringField_eq name_agent_id.ascii name_agent_id.short]
  exact scanString_text id _

/-- It finds the tier, unless the id ends in the name of that field. -/
theorem permissionTier_registerText : jsonStringField (registerText id tier rest) "permission_tier".toList =
    if EndsIn "permission_tier".toList id then none else some tier.asWire := by
  have hfound : search (needleOf "permission_tier".toList) (registerText id tier rest) = search (needleOf "permission_tier".toList)
      ('"' :: id.text ++ ['"'] ++ (", \"permission_tier\": ".toList ++ ('"' :: (tier.asWire ++ '"' :: rest)))) := by
    simp only [List.append_assoc, List.cons_append, List.nil_append]
    rfl
  have hstart : ¬"permission_tier".toList ++ ['"'] <+: ", \"permission_tier\": ".toList ++ ('"' :: (tier.asWire ++ '"' :: rest)) := by
    intro h
    exact absurd (List.cons_prefix_cons.mp h).1 (by decide)
  rw [jsonStringField_eq name_permission_tier.ascii name_permission_tier.short, scanField, hfound,
    search_string name_permission_tier id hstart]
  split
  · rfl
  · have htier := scanString_text (dumpsStr tier.asWire) rest
    rw [text_dumpsStr_asWire] at htier
    exact htier

/-- So the line is read as the request, or refused for one of two reasons. -/
theorem parse_registerText : parseRegisterRequest (registerText id tier rest).asBytes =
    if h : len id.text > maxAgentId then .error .messageTooLarge
    else if EndsIn "permission_tier".toList id then .error .malformedRequest
    else .ok (registerRequest id.text tier (Nat.not_lt.mp h)) := by
  have hok : ∀ {α : Type} {o : Option α} {a : α}, o = some a → okOr o .malformedRequest = .ok a := fun h => okOr_eq_ok.mpr h
  unfold parseRegisterRequest
  simp only [bind, Except.bind, hok (fromUtf8_asBytes _), hok (method_registerText id tier rest), hok (agentId_registerText id tier rest),
    permissionTier_registerText id tier rest]
  rw [if_neg (not_not.mpr rfl)]
  split_ifs with hlen hends
  · rfl
  · rfl
  · simp only [hok rfl, hok (fromWire_eq_some_iff.mpr rfl)]

end

/-- What the agent observes of itself is no registration. -/
theorem parse_observe (agentId token output outputHash : Text) (tokenCount : Nat) (announced : Bool) (toolCall : Option (Text × Text))
    (advanced : Bool) :
    parseRegisterRequest (AgentMessage.observe agentId token output outputHash tokenCount announced toolCall advanced).wire =
      .error .malformedRequest := by
  obtain ⟨rest, hrest⟩ : "\x7b\"method\": \"observe\", \"agent_id\": ".toList <+:
      (AgentMessage.observe agentId token output outputHash tokenCount announced toolCall advanced).dumps ++ ['\n'] := by
    unfold AgentMessage.dumps
    repeat apply List.prefix_append_of_prefix
    exact List.prefix_refl _
  have hmethod : jsonStringField ("\x7b\"method\": \"observe\", \"agent_id\": ".toList ++ rest) "method".toList = some "observe".toList := by
    rw [jsonStringField_eq name_method.ascii name_method.short]
    rfl
  rw [AgentMessage.wire, ← hrest]
  unfold parseRegisterRequest
  simp only [bind, Except.bind, okOr_eq_ok.mpr (fromUtf8_asBytes _), okOr_eq_ok.mpr hmethod]
  exact if_pos (by decide)

/-- For every agent id, the registration that the agent sends is accepted under the string that `json.dumps` makes of the id, and with the
tier, unless the string has more than 128 bytes or the id ends in `"permission_tier` (or is `permission_tier`). The response is an object
with that string for `agent_id`, and the string means the id. -/
theorem agent_registration_read (agentId : Text) (tier : PermissionTier) (heartbeat : Int) :
    (dumpsStr agentId).Means agentId ∧
    (parseRegisterRequest (AgentMessage.register agentId tier heartbeat).wire =
      if h : len (dumpsStr agentId).text > maxAgentId then .error .messageTooLarge
      else if '"' :: "permission_tier".toList <:+ '"' :: agentId then .error .malformedRequest
      else .ok (registerRequest (dumpsStr agentId).text tier (Nat.not_lt.mp h))) ∧
    ∀ req clock, parseRegisterRequest (AgentMessage.register agentId tier heartbeat).wire = .ok req →
      req.permissionTier = tier ∧ Answers (dumpsStr agentId).text (responseBytes req clock) := by
  obtain ⟨rest, hwire⟩ := dumps_register tier agentId heartbeat
  have hparse := parse_registerText (dumpsStr agentId) tier rest
  refine ⟨means_dumpsStr agentId, ?_, ?_⟩
  · rw [AgentMessage.wire, hwire, hparse]
    simp only [endsIn_dumpsStr_iff name_permission_tier]
  · intro req clock hreq
    rw [AgentMessage.wire, hwire] at hreq
    obtain ⟨auditHash, timestamp, htext, -, hlen, hhash, -, htime⟩ := text_buildResponse hreq clock
    rw [hparse] at hreq
    split_ifs at hreq with hlong hends
    obtain rfl := Except.ok.inj hreq
    rw [agentId_registerRequest] at htext
    refine ⟨rfl, ?_⟩
    rw [responseBytes, htext]
    exact answers_response (dumpsStr agentId) hlen hhash htime

theorem agent_registration_read_golem : ∃ req id, parseRegisterRequest (AgentMessage.register "golem-1".toList .write 30).wire = .ok req ∧
    id = "golem-1".toList ∧ Answers id (responseBytes req 0) := by
  have hlen : ¬len (dumpsStr "golem-1".toList).text > maxAgentId := by decide +kernel
  have hends : ¬ '"' :: "permission_tier".toList <:+ '"' :: "golem-1".toList := by decide +kernel
  obtain ⟨-, hparse, hanswers⟩ := agent_registration_read "golem-1".toList .write 30
  rw [dif_neg hlen, if_neg hends] at hparse
  exact ⟨_, _, hparse, by decide +kernel, (hanswers _ 0 hparse).2⟩

/-! ## The answer -/

/-- A byte that is a line break is one in the text. -/
theorem newline_mem_asBytes {t : Text} (h : newline ∈ t.asBytes) : '\n' ∈ t := by
  have hnewline : newline.toNat < 128 := by decide
  induction t with
  | nil => cases h
  | cons c t ih =>
    obtain ⟨hc, hbytes⟩ | ⟨-, b, high, hb, hhigh, hbytes⟩ := asBytes_cons_cases c t
    · rw [hbytes] at h
      rcases List.mem_cons.mp h with heq | hmem
      · have hchar : '\n' = c := (toUInt8_inj (by decide) hc).mp heq
        rw [hchar]
        exact List.mem_cons_self
      · exact List.mem_cons_of_mem _ (ih hmem)
    · rw [hbytes] at h
      rcases List.mem_cons.mp h with rfl | hmem
      · omega
      · rcases List.mem_append.mp hmem with hmem | hmem
        · have hge := hhigh _ hmem
          omega
        · exact List.mem_cons_of_mem _ (ih hmem)

/-- What the agent sends is accepted under an id without a line break. -/
theorem newline_notMem_agentId {m : AgentMessage} {req : RegisterRequest} (h : parseRegisterRequest m.wire = .ok req) :
    '\n' ∉ req.agentId := by
  cases m with
  | register agentId tier heartbeat =>
    obtain ⟨rest, hwire⟩ := dumps_register tier agentId heartbeat
    rw [AgentMessage.wire, hwire, parse_registerText] at h
    split_ifs at h with hlong hends
    obtain rfl := Except.ok.inj h
    rw [agentId_registerRequest]
    exact newline_notMem_text _
  | observe agentId token output outputHash tokenCount announced toolCall advanced =>
    rw [parse_observe] at h
    cases h

/-- Then there is none in the response. -/
theorem newline_notMem_responseBytes {raw : List UInt8} {req : RegisterRequest} (hparse : parseRegisterRequest raw = .ok req)
    (hid : '\n' ∉ req.agentId) (clock : UInt64) : newline ∉ responseBytes req clock := by
  obtain ⟨auditHash, timestamp, htext, -, -, hhash, -, htime⟩ := text_buildResponse hparse clock
  have hhash' : '\n' ∉ auditHash := fun h => absurd (hhash _ h) (by decide +kernel)
  have htime' : '\n' ∉ timestamp := fun h => absurd (htime _ h) (by decide)
  rw [responseBytes, htext]
  intro h
  have hmem := newline_mem_asBytes h
  unfold responseText at hmem
  simp only [List.mem_append, hid, hhash', htime', false_or] at hmem
  revert hmem
  decide +kernel

/-- Without a line break, all calls of `recv_json` give up. -/
theorem recvCalls_eq_none {α : Type} (loads : List UInt8 → Option α) (n : Nat) :
    ∀ (buf : List UInt8) (recvs : List Recv), newline ∉ buf → newline ∉ arrived recvs →
      recvCalls loads n buf recvs = List.replicate n none := by
  have hfill : ∀ (recvs : List Recv) (buf : List UInt8), newline ∉ buf → newline ∉ arrived recvs →
      ∃ buf' recvs', fillBuf buf recvs = (false, buf', recvs') ∧ newline ∉ buf' ∧ newline ∉ arrived recvs' := by
    intro recvs
    induction recvs with
    | nil =>
      intro buf hbuf harrived
      exact ⟨buf, [], by simp [fillBuf, hbuf], hbuf, harrived⟩
    | cons r recvs ih =>
      intro buf hbuf harrived
      cases r with
      | chunk bytes =>
        obtain ⟨hbytes, hrest⟩ : newline ∉ bytes ∧ newline ∉ arrived recvs := by simpa [arrived] using harrived
        rw [fillBuf, if_neg hbuf]
        exact ih _ (by simp [hbuf, hbytes]) hrest
      | silence => exact ⟨buf, recvs, by rw [fillBuf, if_neg hbuf], hbuf, harrived⟩
      | closed => exact ⟨buf, recvs, by rw [fillBuf, if_neg hbuf], hbuf, harrived⟩
  induction n with
  | zero =>
    intro buf recvs hbuf harrived
    rfl
  | succ n ih =>
    intro buf recvs hbuf harrived
    obtain ⟨buf', recvs', heq, hbuf', harrived'⟩ := hfill recvs buf hbuf harrived
    rw [recvCalls, recvJson, heq, List.replicate_succ]
    exact congrArg (none :: ·) (ih buf' recvs' hbuf' harrived')

namespace Service

open Channel (taken given)

variable {ι : Type} [DecidableEq ι]

/-- What is handed to the channel is the response to a request that was accepted. -/
theorem written_answers {start s : Service ι} {evs : Events ι} (hstart : start.Inv) (hclock : start.clock = 0)
    (hthreads : ∀ i, start.threads i = .start) (run : Run start evs s) {data : List UInt8} (hdata : data ∈ written evs) :
    ∃ req ∈ accepted evs, ∃ clock, data = responseBytes req clock := by
  obtain ⟨e, he, hwritten⟩ := List.mem_filterMap.mp hdata
  -- it was handed over by a thread
  obtain ⟨i, hi⟩ : ∃ i, thread? e.input = some i := by
    obtain ⟨pre, post, hsplit⟩ := List.append_of_mem he
    obtain ⟨hpre, htaken⟩ := Trace.Run.split run hsplit
    by_contra hnone
    have hturn : thread? e.input = none := Option.eq_none_iff_forall_ne_some.mpr fun i hi => hnone ⟨i, hi⟩
    obtain ⟨-, -, hnot⟩ := (step_moves (Run.inv_channel hstart hpre).1 htaken.step).seen_of_thread hturn
    cases hnot.symm.trans hwritten
  have hserved : Served i evs (s.threads i) := Run.served hstart run i (by rw [hthreads i]; exact ⟨rfl, rfl⟩)
  have hown : data ∈ (stamps (turnsOf i evs)).map Prod.snd := by
    rw [hserved.response]
    exact List.mem_append_left _ (List.mem_filterMap.mpr ⟨e, List.mem_filter.mpr ⟨he, by simp [hi]⟩, hwritten⟩)
  obtain ⟨⟨req, _⟩, hstamp, rfl⟩ := List.mem_map.mp hown
  have hmine : ∀ {β : Type} (f : Trace.Event (Service ι) (ServiceTurn ι) Seen → Option β), (turnsOf i evs).filterMap f ⊆ evs.filterMap f :=
    fun f => List.filterMap_subset f List.filter_sublist.subset
  have haccepted : req ∈ accepted (turnsOf i evs) := by
    rw [hserved.request]
    exact List.mem_append_left _ (List.mem_map.mpr ⟨_, hstamp, rfl⟩)
  refine ⟨req, hmine _ haccepted, ?_⟩
  obtain ⟨k, hk⟩ := List.mem_iff_getElem?.mp (hmine _ hstamp)
  exact ⟨_, (Run.stamped hstart hclock run).response hk⟩

/-- All that the device gives are lines that the agent has sent, a line in each buffer. Then none of the bytes that the kernel sends is a
line break, with any number of threads and in every interleaving; and `recv_json`, which waits for a line break, gives up each time it is
called, however the bytes arrive. -/
theorem agent_never_answered (d : MmioDevice) (rxMem txMem : UInt64) (c : Channel) (hinit : Channel.init d rxMem txMem = .ok c)
    (hrx : queueSize ≤ (d.numMax sentinelRxQueue).toNat) (htx : queueSize ≤ (d.numMax sentinelTxQueue).toNat) (evs : Events ι)
    (s : Service ι) (run : Run (boot c) evs s)
    (hagent : ∀ g ∈ given .rx (channelEvents evs), ∃ m : AgentMessage, message g = m.wire) :
    newline ∉ (taken .tx (channelEvents evs)).flatten ∧
    ∀ {α : Type} (loads : List UInt8 → Option α) (recvs : List Recv), arrived recvs <+: (taken .tx (channelEvents evs)).flatten →
      ∀ n, recvCalls loads n [] recvs = List.replicate n none := by
  obtain ⟨hboot, -, hrxInv, htxInv⟩ := Run.exchange hinit hrx htx run
  have hnone : newline ∉ (taken .tx (channelEvents evs)).flatten := by
    intro h
    obtain ⟨data, hdata, hnewline⟩ := List.mem_flatten.mp h
    have hwritten : data ∈ written evs := by
      rw [written_eq]
      exact htxInv.handed.subset hdata
    obtain ⟨req, hreq, clock, rfl⟩ := written_answers hboot rfl (fun _ => rfl) run hwritten
    rw [accepted_eq_requests hboot run hrxInv] at hreq
    obtain ⟨msg, hmsg, hparse⟩ := List.mem_filterMap.mp hreq
    obtain ⟨g, hg, rfl⟩ := List.mem_map.mp hmsg
    obtain ⟨m, hm⟩ := hagent g (List.mem_of_mem_take hg)
    have hok : parseRegisterRequest m.wire = .ok req := by
      rw [hm] at hparse
      cases hwire : parseRegisterRequest m.wire with
      | error e => rw [hwire] at hparse; cases hparse
      | ok r => rw [hwire] at hparse; cases hparse; rfl
    exact newline_notMem_responseBytes hok (newline_notMem_agentId hok) clock hnewline
  refine ⟨hnone, ?_⟩
  intro α loads recvs harrived n
  exact recvCalls_eq_none loads n [] recvs (List.not_mem_nil) fun h => hnone (harrived.subset h)

/-- A registration of the agent is given, accepted and answered, and the device takes the response: there is no line break in it. -/
theorem agent_never_answered_golem : ∃ (c : Channel) (evs : Events (Fin 2)) (s : Service (Fin 2)) (req : RegisterRequest),
    Channel.init (Link.deviceOf 16) 0x1000 0x3000 = .ok c ∧ Run (boot c) evs s ∧
      (given .rx (channelEvents evs)).map message = [(AgentMessage.register "golem-1".toList .write 30).wire] ∧ accepted evs = [req] ∧
      (taken .tx (channelEvents evs)).length = 1 ∧ newline ∉ (taken .tx (channelEvents evs)).flatten := by
  obtain ⟨rest, hwire⟩ := dumps_register .write "golem-1".toList 30
  have hlen : ¬len (dumpsStr "golem-1".toList).text > maxAgentId := by decide +kernel
  have hends : ¬EndsIn "permission_tier".toList (dumpsStr "golem-1".toList) := by
    rw [endsIn_dumpsStr_iff name_permission_tier]
    decide +kernel
  have hparse := parse_registerText (dumpsStr "golem-1".toList) .write rest
  rw [dif_neg hlen, if_neg hends, ← hwire] at hparse
  obtain ⟨c, evs, s, hinit, run, -, -, hgiven, htaken, haccepted, -⟩ := exists_run_answered (0 : Fin 2)
    (show (AgentMessage.register "golem-1".toList .write 30).wire.length ≤ bufSize by decide +kernel) hparse
  refine ⟨c, evs, s, _, hinit, run, hgiven, haccepted, htaken, ?_⟩
  refine (agent_never_answered (Link.deviceOf 16) 0x1000 0x3000 c hinit (by decide) (by decide) evs s run ?_).1
  intro g hg
  have hline : message g ∈ [(AgentMessage.register "golem-1".toList .write 30).wire] := hgiven ▸ List.mem_map_of_mem hg
  exact ⟨_, List.mem_singleton.mp hline⟩

end Service

end Ipc

end Sentinel

end GolemKernel
