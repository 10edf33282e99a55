import GolemKernel.Lemmas.Channel

/-!
# The transmit queue along a run

The driver holds the transmit buffer except from the moment `write_message` offers it to the moment the same call collects it; to the
transmit queue the calls of `read_message` are idle time. `TxInv` ties the stage of the buffer to the phase of the driver and to what was
seen of the run. While the device has the buffer it holds the message of the call.
-/

namespace GolemKernel

namespace Sentinel

namespace Channel

/-! ## The invariant -/

/-- What the transmit queue has to do with a run. -/
structure TxView where
  offers : Nat
  given : List (Vector UInt8 bufSize × UInt32)
  taken : List (List UInt8)
  writes : List (List UInt8)

namespace TxView

def of (evs : Events) : TxView := ⟨Channel.offers .tx evs, Channel.given .tx evs, Channel.taken .tx evs, Channel.writes evs⟩

/-- One more turn. -/
def add (v : TxView) (turn : Turn) (obs : Obs) : TxView where
  offers := v.offers + (obs.published? .tx).toList.length
  given := v.given ++ (obs.gave? .tx).toList
  taken := v.taken ++ (obs.took? .tx).toList
  writes := v.writes ++ turn.write?.toList

/-- What is seen with the last event. -/
theorem of_concat (evs : Events) (e : Trace.Event Channel Turn Obs) : of (evs ++ [e]) = (of evs).add e.input e.output := by
  simp only [of, add, offers_concat, given_concat, taken_concat, writes_concat]

/-- A turn that has nothing to do with the transmit queue. -/
theorem add_of_none (v : TxView) {turn : Turn} {obs : Obs} (hpublished : obs.published? .tx = none) (hgave : obs.gave? .tx = none)
    (htook : obs.took? .tx = none) (hwrite : turn.write? = none) : v.add turn obs = v := by
  simp [add, hpublished, hgave, htook, hwrite]

end TxView

/-- Where the transmit buffer is in each phase, and what is in it. -/
def TxPhase (v : TxView) (p : Port) (k : Nat) (stage : Stage) : Phase → Prop
  | .copyIn data i => stage = .driver ∧ v.writes.length = k + 1 ∧ v.writes[k]? = some data ∧ data.length ≤ bufSize ∧
    i ≤ data.length ∧ p.mem.buffer.toList.take i = data.take i
  | .submit point (.write data) => Submitting p k stage (.write data) point ∧ v.writes.length = k + 1 ∧ v.writes[k]? = some data ∧
    data.length ≤ bufSize ∧ (stage = .driver → p.mem.buffer.toList.take data.length = data)
  | .await .write => stage ≠ .driver ∧ v.writes.length = k + 1
  | .collect .write => (∃ len, stage = .returned len) ∧ v.writes.length = k + 1
  | _ => stage = .driver ∧ v.writes.length = k

/-- What holds of the transmit queue along a run. -/
structure TxAt (v : TxView) (p : Port) (k : Nat) (stage : Stage) (phase : Phase) : Prop where
  port : p.At k stage
  offers : v.offers = k + stage.published
  given : v.given.length = k + stage.given
  handed : v.taken = v.writes.take (k + stage.consumed)
  lent : ∀ len writable, stage.Lent len writable → writable = false ∧ v.writes[k]? = some (p.mem.buffer.toList.take len.toNat)
  phase : TxPhase v p k stage phase

def TxInv (v : TxView) (p : Port) (phase : Phase) : Prop := ∃ k stage, TxAt v p k stage phase

/-! ## A turn -/

/-- The phases that are nothing to the transmit queue. -/
def OffTx : Phase → Prop
  | .idle | .await (.read _) | .collect (.read _) | .copyOut _ _ _ | .submit _ .init | .submit _ (.read _ _) => True
  | .await .write | .collect .write | .copyIn _ _ | .submit _ (.write _) => False

/-- While the driver is not at the transmit queue, the buffer is with the driver. -/
theorem txPhase_of_off {v : TxView} {p : Port} {k : Nat} {stage : Stage} {phase : Phase} (hoff : OffTx phase) :
    TxPhase v p k stage phase ↔ stage = .driver ∧ v.writes.length = k := by
  cases phase with
  | idle => rfl
  | await w => cases w with
    | read out => rfl
    | write => cases hoff
  | collect w => cases w with
    | read out => rfl
    | write => cases hoff
  | copyOut out n i => rfl
  | copyIn data i => cases hoff
  | submit point s => cases s with
    | init => rfl
    | read n out => rfl
    | write data => cases hoff

/-- A turn in a call of `read_message`. -/
theorem TxInv.elsewhere {v : TxView} {p : Port} {phase phase₁ phase' : Phase} {turn : Turn} {obs : Obs} (hinv : TxInv v p phase)
    (hphase : phase = phase₁) (hoff : OffTx phase₁) (hoff' : OffTx phase') (hview : v.add turn obs = v) :
    TxInv (v.add turn obs) p phase' := by
  obtain ⟨k, stage, h⟩ := hinv
  rw [hview]
  subst hphase
  exact ⟨k, stage, { h with phase := (txPhase_of_off hoff').2 ((txPhase_of_off hoff).1 h.phase) }⟩

section

variable {v : TxView} {p p' : Port} {k : Nat} {stage stage' : Stage} {phase : Phase}

theorem not_lent_driver {len : UInt32} {writable : Bool} : ¬Stage.driver.Lent len writable := by
  simp [Stage.Lent]

/-- While the device has the buffer no phase depends on what the device does with it. -/
theorem TxPhase.lent (h : TxPhase v p k stage phase) {len : UInt32} {writable : Bool} (hlent : stage.Lent len writable)
    (hstage' : stage' ≠ .driver) {v' : TxView} (hwrites : v'.writes = v.writes) : TxPhase v' p' k stage' phase := by
  have hdriver : stage ≠ .driver := by rcases hlent with rfl | rfl <;> simp
  cases phase with
  | idle => exact absurd h.1 hdriver
  | await w => cases w with
    | read out => exact absurd h.1 hdriver
    | write => exact ⟨hstage', hwrites ▸ h.2⟩
  | collect w => cases w with
    | read out => exact absurd h.1 hdriver
    | write =>
      obtain ⟨⟨l, rfl⟩, -⟩ := h
      rcases hlent with hl | hl <;> cases hl
  | copyOut out n i => exact absurd h.1 hdriver
  | copyIn data i => exact absurd h.1 hdriver
  | submit point s => cases s with
    | init => exact absurd h.1 hdriver
    | read n out => exact absurd h.1 hdriver
    | write data =>
      obtain ⟨hs, hlen, hcall, hsize, -⟩ := h
      cases point with
      | describe => exact absurd hs hdriver
      | enqueue => exact absurd hs.1 hdriver
      | publish => exact absurd hs.1 hdriver
      | notify => exact ⟨hstage', hwrites ▸ hlen, hwrites ▸ hcall, hsize, fun hs' => absurd hs' hstage'⟩

/-- What the device takes is the message of the call. -/
theorem TxAt.take (h : TxAt v p k stage phase) {len : UInt32} {writable : Bool} (hstage : stage = .offered len writable)
    (hport : p'.At k (.taken len writable)) (hmem : p'.mem = p.mem) :
    TxAt { v with taken := v.taken ++ [p.mem.buffer.toList.take len.toNat] } p' k (.taken len writable) phase := by
  subst hstage
  obtain ⟨hwritable, hcall⟩ := h.lent len writable (Or.inl rfl)
  refine ⟨hport, h.offers, h.given, ?_, ?_, h.phase.lent (Or.inl rfl) (by simp) rfl⟩
  · have hstep : v.writes.take (k + 1) = v.writes.take k ++ [p.mem.buffer.toList.take len.toNat] := by
      rw [List.take_add_one, hcall]
      rfl
    change v.taken ++ _ = v.writes.take (k + 1)
    rw [hstep, h.handed]
    rfl
  · intro l w hl
    rcases hl with hl | hl
    · cases hl
    · cases hl
      rw [hmem]
      exact ⟨hwritable, hcall⟩

/-- The device fills in the used ring. -/
theorem TxAt.put (h : TxAt v p k stage phase) {len : UInt32} {writable : Bool} (hlent : stage.Lent len writable)
    (hport : p'.At k stage) (hbuffer : p'.mem.buffer = p.mem.buffer) : TxAt v p' k stage phase where
  port := hport
  offers := h.offers
  given := h.given
  handed := h.handed
  lent := by
    rw [hbuffer]
    exact h.lent
  phase := h.phase.lent hlent (by rcases hlent with rfl | rfl <;> simp) rfl

/-- The device gives the buffer back. -/
theorem TxAt.give (h : TxAt v p k stage phase) {l len : UInt32} {writable : Bool} (hstage : stage = .taken l writable)
    (hport : p'.At k (.returned len)) (buffer : Vector UInt8 bufSize) :
    TxAt { v with given := v.given ++ [(buffer, len)] } p' k (.returned len) phase where
  port := hport
  offers := by rw [h.offers, hstage]; rfl
  given := by rw [List.length_append, h.given, hstage]; rfl
  handed := by rw [h.handed, hstage]; rfl
  lent l' w hl := by rcases hl with hl | hl <;> cases hl
  phase := h.phase.lent (Or.inr hstage) (by simp) rfl

/-- A write begins. -/
theorem TxAt.beginWrite (h : TxAt v p k stage .idle) {data : List UInt8} (hdata : ¬data.length > bufSize) :
    TxAt { v with writes := v.writes ++ [data] } p k stage (.copyIn data 0) := by
  obtain ⟨rfl, hlen⟩ := h.phase
  refine { h with handed := ?_, lent := fun l w hl => absurd hl not_lent_driver, phase := ⟨rfl, ?_, ?_, by omega, by omega, ?_⟩ }
  · rw [h.handed]
    exact (List.take_append_of_le_length hlen.ge).symm
  · rw [List.length_append, hlen]
    rfl
  · rw [← hlen, List.getElem?_concat_length]
  · simp

/-- One more byte is copied in. -/
theorem TxAt.copyIn {data : List UInt8} {i : Nat} (h : TxAt v p k stage (.copyIn data i)) (hi : i < data.length) :
    TxAt v { p with mem := { p.mem with buffer := p.mem.buffer.setIfInBounds i (data[i]?.getD 0) } } k stage
      (.copyIn data (i + 1)) := by
  obtain ⟨rfl, hlen, hcall, hsize, -, hcopied⟩ := h.phase
  refine { h with
    port := h.port.with_mem rfl rfl
    lent := fun l w hl => absurd hl not_lent_driver
    phase := ⟨rfl, hlen, hcall, hsize, hi, ?_⟩ }
  have hlt : i < p.mem.buffer.toList.length := by
    rw [Vector.length_toList]
    omega
  rw [Vector.toList_setIfInBounds, List.take_succ_eq_append_getElem (by rwa [List.length_set]), List.getElem_set_self,
    List.take_set_of_le (Nat.le_refl i), hcopied, List.take_succ_eq_append_getElem hi, List.getElem?_eq_getElem hi]
  rfl

/-- All bytes are copied in. -/
theorem TxAt.copiedIn {data : List UInt8} {i : Nat} (h : TxAt v p k stage (.copyIn data i)) (hi : ¬i < data.length) :
    TxAt v p k stage (.submit .describe (.write data)) := by
  obtain ⟨hstage, hlen, hcall, hsize, hle, hcopied⟩ := h.phase
  obtain rfl : i = data.length := by omega
  rw [List.take_length] at hcopied
  exact { h with phase := ⟨hstage, hlen, hcall, hsize, fun _ => hcopied⟩ }

end

section

variable {v : TxView} {p : Port} {k : Nat} {stage : Stage} {data : List UInt8}

/-- The descriptor is filled in. -/
theorem TxAt.describe (h : TxAt v p k stage (.submit .describe (.write data))) :
    TxAt v
      { p with mem := p.queue.describe p.mem (Submitter.write data).len (Submitter.write data).writable } k stage
      (.submit .enqueue (.write data)) := by
  obtain ⟨hs, hlen, hcall, hsize, hcopied⟩ := h.phase
  obtain ⟨rfl, hport, hnext⟩ := hs.describe h.port
  exact { h with
    port := hport
    lent := fun l w hl => absurd hl not_lent_driver
    phase := ⟨hnext, hlen, hcall, hsize, hcopied⟩ }

/-- The buffer is put in the available ring. -/
theorem TxAt.enqueue (h : TxAt v p k stage (.submit .enqueue (.write data))) :
    TxAt v { p with mem := p.queue.enqueue p.mem } k stage (.submit .publish (.write data)) := by
  obtain ⟨hs, hlen, hcall, hsize, hcopied⟩ := h.phase
  obtain ⟨rfl, hport, hnext⟩ := hs.enqueue h.port
  exact { h with
    port := hport
    lent := fun l w hl => absurd hl not_lent_driver
    phase := ⟨hnext, hlen, hcall, hsize, hcopied⟩ }

/-- The message is offered to the device. -/
theorem TxAt.publish (h : TxAt v p k stage (.submit .publish (.write data))) :
    TxAt { v with offers := v.offers + 1 }
      { p with queue := (p.queue.publish p.mem).1, mem := (p.queue.publish p.mem).2 } k
      (.offered (Submitter.write data).len (Submitter.write data).writable) (.submit .notify (.write data)) := by
  obtain ⟨hs, hlen, hcall, hsize, hcopied⟩ := h.phase
  obtain ⟨rfl, hport, hnext⟩ := hs.publish h.port
  refine ⟨hport, ?_, h.given, h.handed, ?_, hnext, hlen, hcall, hsize, nofun⟩
  · rw [h.offers]
    rfl
  · intro l w hl
    rcases hl with hl | hl
    · cases hl
      refine ⟨rfl, ?_⟩
      have hlength : (UInt32.ofNat data.length).toNat = data.length := by
        rw [UInt32.toNat_ofNat', Nat.mod_eq_of_lt]
        simp only [bufSize] at hsize
        omega
      change v.writes[k]? = some (p.mem.buffer.toList.take (UInt32.ofNat data.length).toNat)
      rw [hlength, hcopied rfl, hcall]
    · cases hl

/-- The call has collected its buffer. -/
theorem TxAt.collect (h : TxAt v p k stage (.collect .write)) :
    TxAt v { p with queue := (p.queue.collect p.mem).2 } (k + 1) .driver .idle := by
  obtain ⟨⟨len, rfl⟩, hlen⟩ := h.phase
  exact ⟨h.port.collect.2, h.offers, h.given, h.handed, fun l w hl => absurd hl not_lent_driver, rfl, hlen⟩

end

/-- Every turn keeps the transmit queue as what has been seen says. -/
theorem TxInv.moves {v : TxView} {c c' : Channel} {turn : Turn} {obs : Obs} (hm : Moves c turn obs c')
    (hinv : TxInv v c.tx c.phase) : TxInv (v.add turn obs) c'.tx c'.phase := by
  cases hm with
  | beginRead out idle => exact hinv.elsewhere idle trivial trivial (v.add_of_none rfl rfl rfl rfl)
  | refuse data idle large =>
    have hrefused : (Turn.call (.writeMessage data)).write? = none := if_pos large
    rw [v.add_of_none rfl rfl rfl hrefused]
    exact hinv
  | beginWrite data idle small =>
    rw [idle] at hinv
    obtain ⟨k, stage, h⟩ := hinv
    have hview : v.add (.call (.writeMessage data)) .quiet = { v with writes := v.writes ++ [data] } := by
      simp [TxView.add, Obs.published?, Obs.gave?, Obs.took?, Turn.write?, small]
    rw [hview]
    exact ⟨k, stage, h.beginWrite small⟩
  | spin w hw waits =>
    rw [v.add_of_none rfl rfl rfl rfl]
    exact hinv
  | see w hw returned =>
    cases w with
    | read out => exact hinv.elsewhere hw trivial trivial (v.add_of_none rfl rfl rfl rfl)
    | write =>
      rw [hw] at hinv
      rw [v.add_of_none rfl rfl rfl rfl]
      obtain ⟨k, stage, h⟩ := hinv
      exact ⟨k, stage, { h with phase := ⟨h.port.hasReturned_iff.1 returned, h.phase.2⟩ }⟩
  | collectRead out hc => exact hinv.elsewhere hc trivial trivial (v.add_of_none rfl rfl rfl rfl)
  | collectWrite hc =>
    rw [hc] at hinv
    rw [v.add_of_none rfl rfl rfl rfl]
    obtain ⟨k, stage, h⟩ := hinv
    exact ⟨k + 1, .driver, h.collect⟩
  | copyOut out n i hc more => exact hinv.elsewhere hc trivial trivial (v.add_of_none rfl rfl rfl rfl)
  | copiedOut out n i hc done => exact hinv.elsewhere hc trivial trivial (v.add_of_none rfl rfl rfl rfl)
  | copyIn data i hc more =>
    rw [hc] at hinv
    rw [v.add_of_none rfl rfl rfl rfl]
    obtain ⟨k, stage, h⟩ := hinv
    exact ⟨k, stage, h.copyIn more⟩
  | copiedIn data i hc done =>
    rw [hc] at hinv
    rw [v.add_of_none rfl rfl rfl rfl]
    obtain ⟨k, stage, h⟩ := hinv
    exact ⟨k, stage, h.copiedIn done⟩
  | describe s hs =>
    cases s with
    | init => exact hinv.elsewhere hs trivial trivial (v.add_of_none rfl rfl rfl rfl)
    | read n out => exact hinv.elsewhere hs trivial trivial (v.add_of_none rfl rfl rfl rfl)
    | write data =>
      rw [hs] at hinv
      rw [v.add_of_none rfl rfl rfl rfl]
      obtain ⟨k, stage, h⟩ := hinv
      exact ⟨k, stage, h.describe⟩
  | enqueue s hs =>
    cases s with
    | init => exact hinv.elsewhere hs trivial trivial (v.add_of_none rfl rfl rfl rfl)
    | read n out => exact hinv.elsewhere hs trivial trivial (v.add_of_none rfl rfl rfl rfl)
    | write data =>
      rw [hs] at hinv
      rw [v.add_of_none rfl rfl rfl rfl]
      obtain ⟨k, stage, h⟩ := hinv
      exact ⟨k, stage, h.enqueue⟩
  | publish s hs =>
    cases s with
    | init => exact hinv.elsewhere hs trivial trivial (v.add_of_none rfl rfl rfl rfl)
    | read n out => exact hinv.elsewhere hs trivial trivial (v.add_of_none rfl rfl rfl rfl)
    | write data =>
      rw [hs] at hinv
      obtain ⟨k, stage, h⟩ := hinv
      have hview : v.add .driver (.published .tx) = { v with offers := v.offers + 1 } := by
        simp [TxView.add, Obs.published?, Obs.gave?, Obs.took?, Turn.write?]
      exact ⟨k, _, hview ▸ h.publish⟩
  | notifyInit hs transport => exact hinv.elsewhere hs trivial trivial (v.add_of_none rfl rfl rfl rfl)
  | notifyRead n out hs transport => exact hinv.elsewhere hs trivial trivial (v.add_of_none rfl rfl rfl rfl)
  | notifyWrite data hs transport =>
    rw [hs] at hinv
    rw [v.add_of_none rfl rfl rfl rfl]
    obtain ⟨k, stage, h⟩ := hinv
    obtain ⟨hstage, hlen, -⟩ := h.phase
    exact ⟨k, stage, { h with phase := ⟨hstage, hlen⟩ }⟩
  | take side bytes p took =>
    cases side with
    | rx =>
      rw [v.add_of_none rfl rfl rfl rfl]
      exact hinv
    | tx =>
      obtain ⟨k, stage, h⟩ := hinv
      obtain ⟨len, writable, hstage, htaken, rfl, hmem, -⟩ := h.port.take took
      have hview : v.add (.take .tx) (.took .tx (c.tx.mem.buffer.toList.take len.toNat)) =
          { v with taken := v.taken ++ [c.tx.mem.buffer.toList.take len.toNat] } := by
        simp [TxView.add, Obs.published?, Obs.gave?, Obs.took?, Turn.write?]
      exact ⟨k, _, hview ▸ h.take hstage htaken hmem⟩
  | touch side buffer p touched =>
    rw [v.add_of_none rfl rfl rfl rfl]
    cases side with
    | rx => exact hinv
    | tx =>
      -- the transmit buffer is never offered for writing
      obtain ⟨k, stage, h⟩ := hinv
      obtain ⟨⟨len, hlent⟩, -⟩ := h.port.touch touched
      cases (h.lent len true hlent).1
  | put side head len p filled =>
    rw [v.add_of_none rfl rfl rfl rfl]
    cases side with
    | rx => exact hinv
    | tx =>
      obtain ⟨k, stage, h⟩ := hinv
      obtain ⟨⟨l, writable, hlent⟩, hfilled, hbuffer, -⟩ := h.port.put filled
      exact ⟨k, stage, h.put hlent hfilled hbuffer⟩
  | give side len p gave =>
    cases side with
    | rx =>
      rw [v.add_of_none rfl rfl rfl rfl]
      exact hinv
    | tx =>
      obtain ⟨k, stage, h⟩ := hinv
      obtain ⟨⟨l, writable, hstage⟩, hgiven, -⟩ := h.port.give gave
      have hview : v.add (.give .tx) (.gave .tx p.mem.buffer len) = { v with given := v.given ++ [(p.mem.buffer, len)] } := by
        simp [TxView.add, Obs.published?, Obs.gave?, Obs.took?, Turn.write?]
      rw [hview]
      exact ⟨k, .returned len, h.give hstage hgiven p.mem.buffer⟩

end Channel

end Sentinel

end GolemKernel
