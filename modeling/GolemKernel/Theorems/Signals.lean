import GolemKernel.Sentinel.Monitor

/-!
# What the signals count, and how they escalate

The two scores that look for repetition count the elements that equal an earlier one. That number is the length less the number of
distinct elements, so the order of the observations does not matter. The number of tokens is summed in a `u32` and is exact while the sum
fits. The tier, read over the rationals, goes up with every score and down with every gate and every tier threshold.
-/

namespace GolemKernel

namespace Sentinel

/-! ## Repetitions -/

/-- One more element is counted if it is in the list already. -/
theorem countRepeats_concat (keys : List Text) (k : Text) :
    countRepeats (keys ++ [k]) = countRepeats keys + if k ∈ keys then 1 else 0 := by
  unfold countRepeats
  rw [List.zipIdx_append, List.foldl_append, Nat.zero_add, List.zipIdx_singleton, List.foldl_cons, List.foldl_nil]
  have hbefore : keys.zipIdx.foldl (fun hits p => if ((keys ++ [k]).take p.2).any (· == p.1) then hits + 1 else hits) 0 =
      keys.zipIdx.foldl (fun hits p => if (keys.take p.2).any (· == p.1) then hits + 1 else hits) 0 := by
    refine List.foldl_ext _ _ _ ?_
    intro hits p hp
    -- only earlier elements are looked at, and the new one is later
    have hlt : p.2 < keys.length := List.snd_lt_of_mem_zipIdx hp
    rw [List.take_append_of_le_length hlt.le]
  have hlast : ((keys ++ [k]).take keys.length).any (· == k) = true ↔ k ∈ keys := by
    rw [List.take_left, List.any_beq', List.contains_iff_mem]
  rw [hbefore]
  by_cases hk : k ∈ keys
  · rw [if_pos (hlast.mpr hk), if_pos hk]
  · rw [if_neg (fun h => hk (hlast.mp h)), if_neg hk, Nat.add_zero]

/-- The elements that equal an earlier one and the distinct ones are all of them. -/
theorem countRepeats_add_card (keys : List Text) : countRepeats keys + keys.toFinset.card = keys.length := by
  induction keys using List.reverseRecOn with
  | nil => rfl
  | append_singleton keys k ih =>
    have hset : (keys ++ [k]).toFinset = insert k keys.toFinset := by
      ext x
      simp
    rw [countRepeats_concat, hset, List.length_append, List.length_singleton]
    by_cases hk : k ∈ keys
    · rw [if_pos hk, Finset.insert_eq_of_mem (List.mem_toFinset.mpr hk)]
      omega
    · rw [if_neg hk, Finset.card_insert_of_notMem (fun h => hk (List.mem_toFinset.mp h))]
      omega

/-- One key is no repetition. -/
theorem countRepeats_of_length_lt {keys : List Text} (h : keys.length < 2) : countRepeats keys = 0 := by
  match keys, h with
  | [], _ => rfl
  | [_], _ => rfl

/-- The numerator of `repetition_score`; nothing is counted before an early return. -/
def repetitionHits (obs : List Observation) : Nat := if obs.length < 2 then 0 else countRepeats (obs.map (·.outputHash))

/-- The `calls` of `tool_retry_score`. -/
def toolCalls (obs : List Observation) : List Text := obs.filterMap (·.toolCallHash)

/-- The numerator of `tool_retry_score`; nothing is counted before an early return. -/
def toolRetryDups (obs : List Observation) : Nat :=
  if obs.length < 2 ∨ (toolCalls obs).length < 2 then 0 else countRepeats (toolCalls obs)

/-- The hits are the repetitions among the output hashes. -/
theorem repetitionHits_eq (obs : List Observation) : repetitionHits obs = countRepeats (obs.map (·.outputHash)) := by
  unfold repetitionHits
  split
  · rename_i hlt
    rw [countRepeats_of_length_lt (by rwa [List.length_map])]
  · rfl

/-- The retries are the repetitions among the tool calls. -/
theorem toolRetryDups_eq (obs : List Observation) : toolRetryDups obs = countRepeats (toolCalls obs) := by
  unfold toolRetryDups
  split
  · rename_i hlt
    have hle : (toolCalls obs).length ≤ obs.length := List.length_filterMap_le _ _
    rw [countRepeats_of_length_lt (by omega)]
  · rfl

/-- The repetitions are what is left of the keys when one of each is taken away. -/
theorem countRepeats_eq (keys : List Text) : countRepeats keys = keys.length - keys.toFinset.card := by
  have h := countRepeats_add_card keys
  omega

/-- The order of the keys does not matter. -/
theorem countRepeats_perm {keys keys' : List Text} (h : keys.Perm keys') : countRepeats keys = countRepeats keys' := by
  rw [countRepeats_eq, countRepeats_eq, h.length_eq, List.toFinset_eq_of_perm _ _ h]

/-- The first of the keys is never a repetition. -/
theorem countRepeats_lt {keys : List Text} (h : 0 < keys.length) : countRepeats keys < keys.length := by
  have hcard : 0 < keys.toFinset.card := by
    rw [Finset.card_pos, List.toFinset_nonempty_iff]
    exact List.ne_nil_of_length_pos h
  have hsum := countRepeats_add_card keys
  omega

/-- The numerators of both scores are the length less the number of distinct values. So they do not depend on the order of the window, and
a score with a denominator that is not zero is below one. -/
theorem duplicates_are_length_sub_distinct (obs : List Observation) :
    (repetitionScore obs = if obs.length < 2 then 0 else F32.ofNat (repetitionHits obs) / F32.ofNat obs.length) ∧
    (toolRetryScore obs =
      if obs.length < 2 ∨ (toolCalls obs).length < 2 then 0 else F32.ofNat (toolRetryDups obs) / F32.ofNat (toolCalls obs).length) ∧
    repetitionHits obs = obs.length - (obs.map (·.outputHash)).toFinset.card ∧
    toolRetryDups obs = (toolCalls obs).length - (toolCalls obs).toFinset.card ∧
    (∀ obs' : List Observation, obs'.Perm obs → repetitionHits obs' = repetitionHits obs ∧ toolRetryDups obs' = toolRetryDups obs) ∧
    (obs.length ≠ 0 → repetitionHits obs < obs.length) ∧
    ((toolCalls obs).length ≠ 0 → toolRetryDups obs < (toolCalls obs).length) := by
  refine ⟨?_, ?_, ?_, ?_, ?_, ?_, ?_⟩
  · rw [repetitionHits_eq]
    rfl
  · rw [toolRetryDups_eq]
    unfold toolRetryScore
    by_cases hobs : obs.length < 2
    · rw [if_pos hobs, if_pos (Or.inl hobs)]
    · by_cases hcalls : (toolCalls obs).length < 2
      · rw [if_neg hobs, if_pos (Or.inr hcalls)]
        exact if_pos hcalls
      · have hneither : ¬ (obs.length < 2 ∨ (toolCalls obs).length < 2) := not_or.mpr ⟨hobs, hcalls⟩
        rw [if_neg hobs]
        exact (if_neg hcalls).trans (if_neg hneither).symm
  · rw [repetitionHits_eq, countRepeats_eq, List.length_map]
  · rw [toolRetryDups_eq, countRepeats_eq]
  · intro obs' hperm
    rw [repetitionHits_eq, repetitionHits_eq, toolRetryDups_eq, toolRetryDups_eq]
    exact ⟨countRepeats_perm (hperm.map _), countRepeats_perm (hperm.filterMap _)⟩
  · intro hne
    have hpos : 0 < (obs.map (·.outputHash)).length := by
      rw [List.length_map]
      omega
    have hlt := countRepeats_lt hpos
    rwa [List.length_map, ← repetitionHits_eq] at hlt
  · intro hne
    rw [toolRetryDups_eq]
    exact countRepeats_lt (by omega)

/-! ## Tokens -/

/-- The exact sum of the token counts. -/
def tokenSum (obs : List Observation) : Nat := (obs.map (·.tokenCount.toNat)).sum

/-- The sum of the tokens wraps at 32 bits. -/
theorem totalTokens_toNat (obs : List Observation) : (totalTokens obs).toNat = tokenSum obs % 2 ^ 32 := by
  unfold totalTokens tokenSum
  induction obs using List.reverseRecOn with
  | nil => rfl
  | append_singleton obs o ih =>
    rw [List.foldl_append, List.foldl_cons, List.foldl_nil, UInt32.toNat_add, ih, List.map_append, List.sum_append,
      List.map_singleton, List.sum_singleton]
    exact Nat.mod_add_mod _ _ _

/-- `raised` is `obs` with the token count of one observation raised. -/
def RaisedFrom (raised obs : List Observation) : Prop :=
  ∃ before o after count, obs = before ++ o :: after ∧ raised = before ++ { o with tokenCount := count } :: after ∧
    o.tokenCount ≤ count

/-- More tokens in each observation are more tokens in all. -/
theorem RaisedFrom.sum_le {raised obs : List Observation} (h : RaisedFrom raised obs) : tokenSum obs ≤ tokenSum raised := by
  obtain ⟨before, o, after, count, rfl, rfl, hle⟩ := h
  unfold tokenSum
  simp only [List.map_append, List.map_cons, List.sum_append, List.sum_cons]
  have hle' : o.tokenCount.toNat ≤ count.toNat := hle
  omega

/-- The tokens of a window are counted as they are: the sum is exact, so it is zero only if every count is, and raising a count to get
this window did not lower it. -/
structure TokensExact (obs : List Observation) : Prop where
  sum : (totalTokens obs).toNat = tokenSum obs
  zero : totalTokens obs = 0 → ∀ o ∈ obs, o.tokenCount = 0
  raised : ∀ lower, RaisedFrom obs lower → totalTokens lower ≤ totalTokens obs

/-- The `u32` sum of `token_velocity_score` is right for the windows whose tokens fit a `u32`, and for no other. -/
theorem tokens_exact_iff (obs : List Observation) : TokensExact obs ↔ tokenSum obs < 2 ^ 32 := by
  constructor
  · intro h
    rw [← h.sum]
    exact UInt32.toNat_lt _
  · intro hlt
    have hexact : (totalTokens obs).toNat = tokenSum obs := by
      rw [totalTokens_toNat, Nat.mod_eq_of_lt hlt]
    refine ⟨hexact, ?_, ?_⟩
    · intro hzero o ho
      have hsum : tokenSum obs = 0 := by
        rw [← hexact, hzero]
        rfl
      unfold tokenSum at hsum
      have hcount : o.tokenCount.toNat = 0 := List.sum_eq_zero_iff_forall_eq_nat.mp hsum _ (List.mem_map_of_mem ho)
      exact UInt32.toNat_inj.mp hcount
    · intro lower hraised
      have hle := hraised.sum_le
      rw [UInt32.le_iff_toNat_le, totalTokens_toNat, totalTokens_toNat, Nat.mod_eq_of_lt hlt, Nat.mod_eq_of_lt (by omega)]
      exact hle

/-- An agent that wrote 2147483648 tokens and did not move its task. -/
def flooding : Observation := ⟨[], 0x80000000, false, none, false⟩

/-- The first of two such observations scores as a stall, and both together as silence: their sum wraps to zero. -/
theorem second_flood_wraps_to_zero :
    (((Monitor.new.observe "agent" flooding).2.observe "agent" flooding).2.buffer "agent").observations = [flooding, flooding] ∧
    tokenSum [flooding, flooding] = 2 ^ 32 ∧ totalTokens [flooding, flooding] = 0 ∧
    tokenVelocityScore [flooding] = 1 ∧ tokenVelocityScore [flooding, flooding] = 0 ∧
    RaisedFrom [flooding, flooding] [{ flooding with tokenCount := 0x7FFFFFFF }, flooding] ∧
    totalTokens [flooding, flooding] < totalTokens [{ flooding with tokenCount := 0x7FFFFFFF }, flooding] := by
  refine ⟨?_, by decide, by decide, by decide +kernel, by decide +kernel, ?_, by decide⟩
  · simp [Monitor.observe, Monitor.buffer, Monitor.new, AgentBuffer.new, popFront, Thresholds.defaultConfig]
  · exact ⟨[], _, [flooding], 0x80000000, rfl, rfl, by decide⟩

theorem tokens_exact_iff_flooding : TokensExact [flooding] ∧ ¬ TokensExact [flooding, flooding] :=
  ⟨(tokens_exact_iff _).mpr (by decide), fun h => absurd ((tokens_exact_iff _).mp h) (by decide)⟩

/-! ## Escalation -/

/-- A rational number between zero and one. -/
abbrev Fraction : Type := Set.Icc (0 : ℚ) 1

/-- One score for each of the four signals. -/
structure Quadruple where
  repetition : Fraction
  selfReferential : Fraction
  tokenVelocity : Fraction
  toolRetry : Fraction

structure Quadruple.Le (s s' : Quadruple) : Prop where
  repetition : s.repetition ≤ s'.repetition
  selfReferential : s.selfReferential ≤ s'.selfReferential
  tokenVelocity : s.tokenVelocity ≤ s'.tokenVelocity
  toolRetry : s.toolRetry ≤ s'.toolRetry

structure Levels.Le (cfg cfg' : Levels Fraction) : Prop where
  repetition : cfg.repetition ≤ cfg'.repetition
  selfReferential : cfg.selfReferential ≤ cfg'.selfReferential
  tokenVelocity : cfg.tokenVelocity ≤ cfg'.tokenVelocity
  toolRetry : cfg.toolRetry ≤ cfg'.toolRetry
  soft : cfg.soft ≤ cfg'.soft
  medium : cfg.medium ≤ cfg'.medium
  hard : cfg.hard ≤ cfg'.hard

/-- Every score is strictly below its gate. -/
structure Quadruple.BelowGates (s : Quadruple) (cfg : Levels Fraction) : Prop where
  repetition : s.repetition < cfg.repetition
  selfReferential : s.selfReferential < cfg.selfReferential
  tokenVelocity : s.tokenVelocity < cfg.tokenVelocity
  toolRetry : s.toolRetry < cfg.toolRetry

def Levels.values (cfg : Levels Fraction) : Levels ℚ :=
  ⟨cfg.repetition, cfg.selfReferential, cfg.tokenVelocity, cfg.toolRetry, cfg.soft, cfg.medium, cfg.hard⟩

def Quadruple.combined (s : Quadruple) (cfg : Levels Fraction) : ℚ :=
  combine (s.repetition : ℚ) s.selfReferential s.tokenVelocity s.toolRetry cfg.values

def Quadruple.tier (s : Quadruple) (cfg : Levels Fraction) : ResponseTier := tierFor (s.combined cfg) cfg.values

/-- The order `None < Soft < Medium < Hard`. -/
def ResponseTier.rank : ResponseTier → Nat
  | .none => 0
  | .soft => 1
  | .medium => 2
  | .hard => 3

/-- A gate below one rescales what is above it. -/
theorem contrib_of_le {score gate : ℚ} (hle : gate ≤ score) (hgate : gate < 1) : contrib score gate = (score - gate) / (1 - gate) := by
  unfold contrib
  rw [if_neg (not_lt.mpr hle), if_neg (by linarith)]

/-- A score at a gate of 1 contributes fully. -/
theorem contrib_of_full {score gate : ℚ} (hle : gate ≤ score) (hgate : 1 ≤ gate) : contrib score gate = 1 := by
  unfold contrib
  rw [if_neg (not_lt.mpr hle), if_pos (by linarith)]

/-- A score below its gate contributes nothing. -/
theorem contrib_of_lt {score gate : ℚ} (hlt : score < gate) : contrib score gate = 0 := by
  unfold contrib
  rw [if_pos hlt]

/-- No contribution is negative. -/
theorem contrib_nonneg (score gate : ℚ) : 0 ≤ contrib score gate := by
  by_cases hlt : score < gate
  · rw [contrib_of_lt hlt]
  · have hle : gate ≤ score := not_lt.mp hlt
    by_cases hgate : gate < 1
    · rw [contrib_of_le hle hgate]
      exact div_nonneg (by linarith) (by linarith)
    · rw [contrib_of_full hle (not_lt.mp hgate)]
      exact zero_le_one

/-- A contribution goes up with the score and down with the gate. -/
theorem contrib_le {score score' gate gate' : ℚ} (hscore : score ≤ score') (hgate : gate' ≤ gate) (hone : score' ≤ 1) :
    contrib score gate ≤ contrib score' gate' := by
  by_cases hlt : score < gate
  · rw [contrib_of_lt hlt]
    exact contrib_nonneg _ _
  · have hle : gate ≤ score := not_lt.mp hlt
    have hle' : gate' ≤ score' := hgate.trans (hle.trans hscore)
    by_cases hfull : 1 ≤ gate
    · -- a gate of one is only reached by a score of one, which contributes one through any gate
      have hscore' : score' = 1 := le_antisymm hone (hfull.trans (hle.trans hscore))
      rw [contrib_of_full hle hfull]
      by_cases hfull' : 1 ≤ gate'
      · rw [contrib_of_full hle' hfull']
      · have hspan : (1 : ℚ) - gate' ≠ 0 := by linarith
        rw [contrib_of_le hle' (not_le.mp hfull'), hscore', div_self hspan]
    · have hpos : 0 < 1 - gate := by linarith
      have hpos' : 0 < 1 - gate' := by linarith
      rw [contrib_of_le hle (not_le.mp hfull), contrib_of_le hle' (by linarith)]
      calc (score - gate) / (1 - gate) ≤ (score' - gate) / (1 - gate) := by gcongr
        _ ≤ (score' - gate') / (1 - gate') := by
          have hprod : 0 ≤ (gate - gate') * (1 - score') := mul_nonneg (by linarith) (by linarith)
          rw [div_le_div_iff₀ hpos hpos']
          linarith

/-- Clamping keeps the order. -/
theorem clamp_le {x y lo hi : ℚ} (h : x ≤ y) (hlohi : lo ≤ hi) : clamp x lo hi ≤ clamp y lo hi := by
  unfold clamp
  split_ifs <;> linarith

/-- What is clamped is within the bounds. -/
theorem clamp_mem {x lo hi : ℚ} (hlohi : lo ≤ hi) : lo ≤ clamp x lo hi ∧ clamp x lo hi ≤ hi := by
  unfold clamp
  split_ifs with hlo hhi
  · exact ⟨le_refl lo, hlohi⟩
  · exact ⟨hlohi, le_refl hi⟩
  · exact ⟨not_lt.mp hlo, not_lt.mp hhi⟩

/-- Higher scores and lower gates give at least the same combined score. -/
theorem Quadruple.combined_le {s s' : Quadruple} {cfg cfg' : Levels Fraction} (hs : s.Le s') (hcfg : cfg'.Le cfg) :
    s.combined cfg ≤ s'.combined cfg' := by
  unfold combined combine
  refine clamp_le ?_ zero_le_one
  refine add_le_add (add_le_add (add_le_add ?_ ?_) ?_) ?_
  · exact contrib_le hs.repetition hcfg.repetition s'.repetition.2.2
  · exact contrib_le hs.selfReferential hcfg.selfReferential s'.selfReferential.2.2
  · exact contrib_le hs.tokenVelocity hcfg.tokenVelocity s'.tokenVelocity.2.2
  · exact contrib_le hs.toolRetry hcfg.toolRetry s'.toolRetry.2.2

/-- Scores that are all below their gates combine to nothing. -/
theorem Quadruple.BelowGates.combined_eq {s : Quadruple} {cfg : Levels Fraction} (h : s.BelowGates cfg) : s.combined cfg = 0 := by
  unfold combined combine
  have hrep : contrib (s.repetition : ℚ) cfg.values.repetition = 0 := contrib_of_lt h.repetition
  have hsrl : contrib (s.selfReferential : ℚ) cfg.values.selfReferential = 0 := contrib_of_lt h.selfReferential
  have htvs : contrib (s.tokenVelocity : ℚ) cfg.values.tokenVelocity = 0 := contrib_of_lt h.tokenVelocity
  have htra : contrib (s.toolRetry : ℚ) cfg.values.toolRetry = 0 := contrib_of_lt h.toolRetry
  rw [hrep, hsrl, htvs, htra]
  simp [clamp]

/-- A higher score or lower tier thresholds reach a tier that is no lower. -/
theorem tierFor_rank_le {x x' : ℚ} {cfg cfg' : Levels ℚ} (hx : x ≤ x') (hsoft : cfg'.soft ≤ cfg.soft)
    (hmedium : cfg'.medium ≤ cfg.medium) (hhard : cfg'.hard ≤ cfg.hard) : (tierFor x cfg).rank ≤ (tierFor x' cfg').rank := by
  have hrank : ∀ t : ResponseTier, t.rank ≤ 3 := by
    intro t
    cases t <;> decide
  unfold tierFor
  by_cases hh : cfg'.hard ≤ x'
  · rw [if_pos hh]
    exact hrank _
  · rw [if_neg hh, if_neg (fun h => hh (hhard.trans (h.trans hx)))]
    by_cases hm : cfg'.medium ≤ x'
    · rw [if_pos hm]
      split_ifs <;> decide
    · rw [if_neg hm, if_neg (fun h => hm (hmedium.trans (h.trans hx)))]
      by_cases hs : cfg'.soft ≤ x'
      · rw [if_pos hs]
        split_ifs <;> decide
      · rw [if_neg hs, if_neg (fun h => hs (hsoft.trans (h.trans hx)))]

theorem Quadruple.Le.refl (s : Quadruple) : s.Le s := ⟨le_refl _, le_refl _, le_refl _, le_refl _⟩

theorem Levels.Le.refl (cfg : Levels Fraction) : cfg.Le cfg :=
  ⟨le_refl _, le_refl _, le_refl _, le_refl _, le_refl _, le_refl _, le_refl _⟩

/-- Over the rationals between zero and one, a tier goes up with the scores and down with the gates and the tier thresholds, and the
combined score is between zero and one, and zero if no signal reaches its gate. -/
theorem escalation_monotone :
    (∀ (cfg : Levels Fraction) (s s' : Quadruple), s.Le s' → (s.tier cfg).rank ≤ (s'.tier cfg).rank) ∧
    (∀ (s : Quadruple) (cfg cfg' : Levels Fraction), cfg.Le cfg' → (s.tier cfg').rank ≤ (s.tier cfg).rank) ∧
    ∀ (s : Quadruple) (cfg : Levels Fraction),
      0 ≤ s.combined cfg ∧ s.combined cfg ≤ 1 ∧ (s.BelowGates cfg → s.combined cfg = 0) := by
  refine ⟨?_, ?_, ?_⟩
  · intro cfg s s' hs
    exact tierFor_rank_le (Quadruple.combined_le hs (.refl cfg)) (le_refl _) (le_refl _) (le_refl _)
  · intro s cfg cfg' hcfg
    exact tierFor_rank_le (Quadruple.combined_le (.refl s) hcfg) hcfg.soft hcfg.medium hcfg.hard
  · intro s cfg
    have hmem : 0 ≤ s.combined cfg ∧ s.combined cfg ≤ 1 := clamp_mem zero_le_one
    exact ⟨hmem.1, hmem.2, fun h => h.combined_eq⟩

end Sentinel

end GolemKernel
