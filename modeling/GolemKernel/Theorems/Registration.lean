import GolemKernel.Lemmas.Fields

/-!
# Registration requests

What `parse_register_request` accepts among the registrations that are written as flat JSON objects.
-/

namespace GolemKernel

namespace Sentinel

namespace Ipc

open Text Json

/-! ## The fields of a flat object -/

/-- The first member in which a string ends in the key does so with its name, and has this string as its value. -/
def Shows (members : Members) (key value : Text) : Prop :=
  ∃ before name s rest, members = before ++ (name, .string s) :: rest ∧ EndsIn key name ∧ s.text = value ∧
    ∀ m ∈ before, ¬EndsIn key m.1 ∧ ∀ u, m.2 = .string u → ¬EndsIn key u

section Members

variable {key value : Text} {members : Members}

/-- A first member whose name ends in the key is the one that counts. -/
theorem shows_cons_of_name {name : Str} {v : Value} (hname : EndsIn key name) :
    Shows ((name, v) :: members) key value ↔ ∃ s, v = .string s ∧ s.text = value := by
  constructor
  · rintro ⟨before, name', s, rest, hmembers, -, hs, hbefore⟩
    cases before with
    | nil =>
      obtain ⟨hhead, -⟩ := List.cons.inj hmembers
      exact ⟨s, (Prod.mk.inj hhead).2, hs⟩
    | cons m before =>
      obtain ⟨rfl, -⟩ := List.cons.inj hmembers
      exact absurd hname (hbefore _ List.mem_cons_self).1
  · rintro ⟨s, rfl, hs⟩
    exact ⟨[], name, s, members, rfl, hname, hs, List.forall_mem_nil _⟩

/-- A first member whose value ends in the key hides all others, since no colon comes after it. -/
theorem not_shows_cons_of_value {name u : Str} (hname : ¬EndsIn key name) (hu : EndsIn key u) :
    ¬Shows ((name, .string u) :: members) key value := by
  rintro ⟨before, name', s, rest, hmembers, hname', -, hbefore⟩
  cases before with
  | nil =>
    obtain ⟨hhead, -⟩ := List.cons.inj hmembers
    obtain ⟨rfl, -⟩ := Prod.mk.inj hhead
    exact hname hname'
  | cons m before =>
    obtain ⟨rfl, -⟩ := List.cons.inj hmembers
    exact (hbefore _ List.mem_cons_self).2 u rfl hu

/-- A first member that has the key neither in its name nor in its value is passed over. -/
theorem shows_cons_of_neither {name : Str} {v : Value} (hname : ¬EndsIn key name) (hv : ∀ u, v = .string u → ¬EndsIn key u) :
    Shows ((name, v) :: members) key value ↔ Shows members key value := by
  constructor
  · rintro ⟨before, name', s, rest, hmembers, hname', hs, hbefore⟩
    cases before with
    | nil =>
      obtain ⟨hhead, -⟩ := List.cons.inj hmembers
      obtain ⟨rfl, -⟩ := Prod.mk.inj hhead
      exact absurd hname' hname
    | cons m before =>
      obtain ⟨-, rfl⟩ := List.cons.inj hmembers
      exact ⟨before, name', s, rest, rfl, hname', hs, fun m' hm' => hbefore m' (List.mem_cons_of_mem m hm')⟩
  · rintro ⟨before, name', s, rest, rfl, hname', hs, hbefore⟩
    exact ⟨(name, v) :: before, name', s, rest, rfl, hname', hs, List.forall_mem_cons.2 ⟨⟨hname, hv⟩, hbefore⟩⟩

/-- So is one whose value is another string. -/
theorem shows_cons_of_strings {name u : Str} (hname : ¬EndsIn key name) (hu : ¬EndsIn key u) (h : Shows members key value) :
    Shows ((name, .string u) :: members) key value := by
  refine (shows_cons_of_neither hname ?_).2 h
  intro u' hu'
  obtain rfl := Value.string.inj hu'
  exact hu

/-- The tokens of an object are those of its members after a separator, up to tokens that are not strings. -/
theorem after_object (members : Members) :
    after key (Value.object members).tokens = after key (moreMembers members ++ [.endObject]) := by
  cases members with
  | nil => rfl
  | cons m members =>
    obtain ⟨name, v⟩ := m
    have htokens : (Value.object ((name, v) :: members)).tokens =
        .beginObject :: .string name :: .nameSeparator :: (v.tokens ++ moreMembers members ++ [.endObject]) := by
      rw [Value.tokens]
    rw [htokens, moreMembers, List.cons_append, after_beginObject, after_valueSeparator]
    rfl

/-- What follows a value in an object is not a colon. -/
theorem namedString_more (members : Members) : namedString (moreMembers members ++ [.endObject]) = none := by
  cases members with
  | nil => rfl
  | cons m members => rfl

/-- In the tokens of the members, the string after the key is the one that they show. -/
theorem after_more_eq_some_iff (hflat : ∀ m ∈ members, m.2.isFlat = true) :
    (after key (moreMembers members ++ [.endObject])).bind namedString = some value ↔ Shows members key value := by
  induction members with
  | nil =>
    constructor
    · intro h
      cases h
    · rintro ⟨before, name, s, rest, hmembers, -⟩
      exact absurd hmembers (by simp)
  | cons m members ih =>
    obtain ⟨name, v⟩ := m
    have hrest := ih fun m' hm' => hflat m' (List.mem_cons_of_mem _ hm')
    have hv : v.isFlat = true := hflat (name, v) List.mem_cons_self
    rw [moreMembers, List.cons_append, after_valueSeparator, List.cons_append, after]
    by_cases hname : EndsIn key name
    · rw [if_pos hname, shows_cons_of_name hname, Option.bind_some]
      cases v with
      | string s => simp [Value.tokens, namedString]
      | number n => simp [Value.tokens, namedString]
      | _ => cases hv
    · rw [if_neg hname, List.cons_append, after_nameSeparator]
      cases v with
      | string u =>
        rw [Value.tokens, List.singleton_append, List.cons_append, after]
        by_cases hu : EndsIn key u
        · rw [if_pos hu, Option.bind_some, namedString_more]
          simp [not_shows_cons_of_value hname hu]
        · rw [if_neg hu, hrest, shows_cons_of_neither hname]
          intro u' hu'
          obtain rfl := Value.string.inj hu'
          exact hu
      | number n =>
        have hnot : ∀ u, Value.number n = .string u → ¬EndsIn key u := by
          intro u hu
          cases hu
        rw [Value.tokens, List.singleton_append, List.cons_append, after_number, hrest,
          shows_cons_of_neither hname hnot]
      | _ => cases hv

/-- What follows a value in an object starts with a structural character. -/
theorem isStructural_more (members : Members) : ∀ t ∈ (moreMembers members ++ [Token.endObject]).head?, Token.isStructural t = true := by
  cases members with
  | nil => simp [moreMembers, Token.isStructural]
  | cons m members => simp [moreMembers, Token.isStructural]

/-- A token before separated ones is separated from them if it is no string or they begin with punctuation. -/
theorem separated_cons {t : Token} {ts : List Token} (ht : ∀ u ∈ ts.head?, Token.isString t = true → Token.isStructural u = true)
    (hts : Separated ts) : Separated (t :: ts) := List.isChain_cons.2 ⟨ht, hts⟩

/-- A member, and what follows it. -/
theorem separated_member {name : Str} {v : Value} {ts : List Token} (hv : v.isFlat = true)
    (hhead : ∀ t ∈ ts.head?, Token.isStructural t = true) (hts : Separated ts) :
    Separated (.string name :: .nameSeparator :: (v.tokens ++ ts)) := by
  refine separated_cons (by simp [Token.isStructural]) (separated_cons (fun _ _ h => nomatch h) ?_)
  cases v with
  | string s => exact separated_cons (fun u hu _ => hhead u hu) hts
  | number n => exact separated_cons (fun _ _ h => nomatch h) hts
  | _ => cases hv

/-- The tokens of flat members are separated. -/
theorem separated_more (hflat : ∀ m ∈ members, m.2.isFlat = true) : Separated (moreMembers members ++ [.endObject]) := by
  induction members with
  | nil => exact List.isChain_singleton _
  | cons m members ih =>
    obtain ⟨name, v⟩ := m
    have hmore : Separated (.string name :: .nameSeparator :: (v.tokens ++ (moreMembers members ++ [.endObject]))) :=
      separated_member (hflat (name, v) List.mem_cons_self) (isStructural_more members)
        (ih fun m' hm' => hflat m' (List.mem_cons_of_mem _ hm'))
    rw [moreMembers, List.cons_append, List.cons_append, List.cons_append, List.append_assoc]
    exact separated_cons (fun _ _ h => nomatch h) hmore

/-- The tokens of a flat object are separated. -/
theorem separated_object (hflat : ∀ m ∈ members, m.2.isFlat = true) : Separated (Value.object members).tokens := by
  cases members with
  | nil => exact separated_cons (fun _ _ h => nomatch h) (List.isChain_singleton _)
  | cons m members =>
    obtain ⟨name, v⟩ := m
    rw [Value.tokens, List.append_assoc]
    refine separated_cons (fun _ _ h => nomatch h) ?_
    exact separated_member (hflat (name, v) List.mem_cons_self) (isStructural_more members)
      (separated_more fun m' hm' => hflat m' (List.mem_cons_of_mem _ hm'))

/-- What the scanner reads from a flat object. -/
theorem jsonStringField_eq_some_iff (hkey : Name key) (hflat : ∀ m ∈ members, m.2.isFlat = true) {src : Text}
    (hspelled : Spelled isAsciiSpace (Value.object members).tokens src) :
    jsonStringField src key = some value ↔ Shows members key value := by
  rw [jsonStringField_eq hkey.ascii hkey.short, scanField_spelled hkey hspelled (separated_object hflat), after_object,
    after_more_eq_some_iff hflat]

end Members

/-! ## Requests -/

/-- A registration as a flat JSON object: names and values count by what they mean, not by how they are escaped. -/
structure Registration where
  members : Members
  flat : ∀ m ∈ members, m.2.isFlat = true
  distinct : Members.Distinct members
  method : Str
  method_get : Members.get? members "method".toList = some (.string method)
  method_means : method.Means "register".toList
  agentId : Str
  agentId_get : Members.get? members "agent_id".toList = some (.string agentId)
  agentId_len : Text.len agentId.text ≤ maxAgentId
  tier : PermissionTier
  tierStr : Str
  tier_get : Members.get? members "permission_tier".toList = some (.string tierStr)
  tier_means : tierStr.Means tier.asWire

/-- All characters of a key are letters or underscores if a check over them says so. -/
theorem letters_of_all {key : Text} (h : (key.all fun c => c.isAlpha || c = '_') = true) : ∀ c ∈ key, c.isAlpha = true ∨ c = '_' := by
  simpa using h

theorem name_method : Name "method".toList := ⟨by decide +kernel, letters_of_all (by decide +kernel), by decide +kernel⟩

theorem name_agent_id : Name "agent_id".toList := ⟨by decide +kernel, letters_of_all (by decide +kernel), by decide +kernel⟩

theorem name_permission_tier : Name "permission_tier".toList := ⟨by decide +kernel, letters_of_all (by decide +kernel), by decide +kernel⟩

/-- For every registration and every text that spells it as a JSON object: the kernel accepts the text with the agent id and the tier of
the registration if and only if, for each of `method`, `agent_id` and `permission_tier`, the first member in which a string ends in that
word does so with its name, and has the value that the registration gives it. -/
theorem registration_accepted_iff (r : Registration) (text : Text)
    (hspelled : Spelled isAsciiSpace (Value.object r.members).tokens text) :
    (∃ req, parseRegisterRequest text.asBytes = .ok req ∧ req.agentId = r.agentId.text ∧ req.permissionTier = r.tier) ↔
      Shows r.members "method".toList "register".toList ∧ Shows r.members "agent_id".toList r.agentId.text ∧
        Shows r.members "permission_tier".toList r.tier.asWire := by
  rw [← jsonStringField_eq_some_iff name_method r.flat hspelled, ← jsonStringField_eq_some_iff name_agent_id r.flat hspelled,
    ← jsonStringField_eq_some_iff name_permission_tier r.flat hspelled]
  constructor
  · rintro ⟨req, hparse, hagentId, htier⟩
    obtain ⟨src, agentId, tier, hlen, hsrc, hmethod, hid, htierStr, rfl⟩ := parseRegisterRequest_eq_ok_iff.1 hparse
    obtain rfl : text = src := Option.some.inj ((fromUtf8_asBytes text).symm.trans hsrc)
    rw [agentId_registerRequest] at hagentId
    rw [hagentId] at hid
    rw [← htier]
    exact ⟨hmethod, hid, htierStr⟩
  · rintro ⟨hmethod, hid, htierStr⟩
    refine ⟨registerRequest r.agentId.text r.tier r.agentId_len, ?_, agentId_registerRequest _ _, rfl⟩
    exact parseRegisterRequest_eq_ok_iff.2
      ⟨text, r.agentId.text, r.tier, r.agentId_len, fromUtf8_asBytes text, hmethod, hid, htierStr, rfl⟩

/-- A member that is written without escapes. -/
def plainMember (name value : String) (hname : (name.toList.all fun c => decide (Unescaped c)) = true)
    (hvalue : (value.toList.all fun c => decide (Unescaped c)) = true) : Str × Value :=
  (Str.literal name hname, .string (Str.literal value hvalue))

/-- The request of the test `tolerates_whitespace_and_ordering`. -/
def readOnlyRegistration : Registration where
  members :=
    [plainMember "permission_tier" "READ_ONLY" unescaped_permission_tier (by decide +kernel),
      plainMember "agent_id" "a" unescaped_agent_id (by decide +kernel),
      plainMember "method" "register" unescaped_method (by decide +kernel)]
  flat := by simp [plainMember, Value.isFlat]
  distinct := by decide +kernel
  method := _
  method_get := rfl
  method_means := Str.means_literal _ _
  agentId := _
  agentId_get := rfl
  agentId_len := by decide +kernel
  tier := .readOnly
  tierStr := _
  tier_get := rfl
  tier_means := Str.means_literal _ _

theorem spelled_readOnly :
    Spelled isAsciiSpace (Value.object readOnlyRegistration.members).tokens
      "\x7b  \"permission_tier\":\"READ_ONLY\" ,\"agent_id\":\"a\",\"method\":\"register\"\x7d".toList := by
  -- the space is before the first name and before the first comma
  have hspaces : ∀ c ∈ [' ', ' '], isAsciiSpace c = true := by simp [isAsciiSpace]
  have hspace : ∀ c ∈ [' '], isAsciiSpace c = true := by simp [isAsciiSpace]
  have hnone : ∀ c ∈ ([] : List Char), isAsciiSpace c = true := List.forall_mem_nil _
  exact .cons [] _ hnone (.cons [' ', ' '] _ hspaces (.cons [] _ hnone (.cons [] _ hnone (.cons [' '] _ hspace (spelled_flatMap _ _)))))

theorem registration_accepted_iff_readOnly :
    ∃ req, parseRegisterRequest (asBytes
        "\x7b  \"permission_tier\":\"READ_ONLY\" ,\"agent_id\":\"a\",\"method\":\"register\"\x7d".toList) = .ok req ∧
      req.agentId = "a".toList ∧ req.permissionTier = .readOnly := by
  have hiff := registration_accepted_iff readOnlyRegistration _ spelled_readOnly
  refine hiff.2 ⟨?_, ?_, ?_⟩
  · apply shows_cons_of_strings (by decide +kernel) (by decide +kernel)
    apply shows_cons_of_strings (by decide +kernel) (by decide +kernel)
    exact (shows_cons_of_name (by decide +kernel)).2 ⟨_, rfl, rfl⟩
  · apply shows_cons_of_strings (by decide +kernel) (by decide +kernel)
    exact (shows_cons_of_name (by decide +kernel)).2 ⟨_, rfl, rfl⟩
  · exact (shows_cons_of_name (by decide +kernel)).2 ⟨_, rfl, rfl⟩

/-- A registration with a note whose text is the name of a later field. -/
def notedRegistration : Registration where
  members :=
    [plainMember "note" "method" (by decide +kernel) unescaped_method,
      plainMember "method" "register" unescaped_method (by decide +kernel),
      plainMember "agent_id" "a" unescaped_agent_id (by decide +kernel),
      plainMember "permission_tier" "WRITE" unescaped_permission_tier (by decide +kernel)]
  flat := by simp [plainMember, Value.isFlat]
  distinct := by decide +kernel
  method := _
  method_get := rfl
  method_means := Str.means_literal _ _
  agentId := _
  agentId_get := rfl
  agentId_len := by decide +kernel
  tier := .write
  tierStr := _
  tier_get := rfl
  tier_means := Str.means_literal _ _

/-- The value `"method"` is taken for the name. -/
theorem noted_registration_refused :
    ∃ text : Text, Spelled isAsciiSpace (Value.object notedRegistration.members).tokens text ∧ text.len ≤ maxMessage ∧
      ¬∃ req, parseRegisterRequest text.asBytes = .ok req := by
  refine ⟨_, spelled_flatMap isAsciiSpace _, by decide +kernel, ?_⟩
  rintro ⟨req, hparse⟩
  obtain ⟨src, agentId, tier, hlen, hsrc, hmethod, -⟩ := parseRegisterRequest_eq_ok_iff.1 hparse
  obtain rfl := Option.some.inj ((fromUtf8_asBytes _).symm.trans hsrc)
  rw [jsonStringField_eq_some_iff name_method notedRegistration.flat (spelled_flatMap isAsciiSpace _)] at hmethod
  exact not_shows_cons_of_value (by decide +kernel) (by decide +kernel) hmethod

end Ipc

end Sentinel

end GolemKernel
