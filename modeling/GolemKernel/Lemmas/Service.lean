import GolemKernel.Sentinel.Service
import GolemKernel.Theorems.Channel
import GolemKernel.Theorems.Response

/-!
# Turns of the Sentinel service

Who has the channel lock is in the call that the channel is in (`Locked`), so what the channel returns goes to the thread that asked.
`Moves` says what each turn does then. A run of the service is a run of the channel (`Run.channel`).
-/

namespace GolemKernel

namespace Sentinel

/-- The turns of the device. -/
def Turn.OfDevice : Turn → Prop
  | .call _ | .driver => False
  | .take _ | .touch _ _ | .put _ _ _ | .give _ => True

/-- The device does not go on with a call. -/
theorem device_keeps_phase {c c' : Channel} {turn : Turn} {obs : Obs} (hturn : turn.OfDevice) (h : c.step turn = some (obs, c')) :
    c'.phase = c.phase ∧ Obs.Passing obs := by
  have hset : ∀ side p, (c.setPort side p).phase = c.phase := fun side p => by cases side <;> rfl
  cases Channel.step_moves h with
  | take side bytes p took => exact ⟨hset side p, nofun⟩
  | touch side buffer p touched => exact ⟨hset side p, nofun⟩
  | put side head len p filled => exact ⟨hset side p, nofun⟩
  | give side len p gave => exact ⟨hset side p, nofun⟩
  | _ => cases hturn

/-- The other turns neither take a buffer nor give one back. -/
theorem driver_takes_nothing {c c' : Channel} {turn : Turn} {obs : Obs} (hturn : ¬turn.OfDevice) (h : c.step turn = some (obs, c'))
    (side : Side) : obs.gave? side = none ∧ obs.took? side = none := by
  cases Channel.step_moves h with
  | take => exact absurd trivial hturn
  | give => exact absurd trivial hturn
  | _ => exact ⟨rfl, rfl⟩

namespace Ipc

/-- The calls of the channel. -/
inductive Activity where
  | init | read | write
  deriving DecidableEq

/-- The call that a phase belongs to. -/
def activityOf : Phase → Option Activity
  | .idle => none
  | .await (.read _) | .collect (.read _) | .copyOut _ _ _ | .submit _ (.read _ _) => some .read
  | .await .write | .collect .write | .copyIn _ _ | .submit _ (.write _) => some .write
  | .submit _ .init => some .init

/-- The call that a thread is in. -/
def Handling.activity : Handling → Option Activity
  | .reading => some .read
  | .writing => some .write
  | .start | .parsed _ | .ready _ => none

/-- What a call of the channel returns. -/
def Activity.Returns : Activity → Obs → Prop
  | .init, obs => obs = .quiet
  | .read, obs => ∃ n out, obs = .returned (.readMessage n out)
  | .write, obs => obs = .returned (.writeMessage (.ok ()))

/-- An access of the driver goes on with the call, or ends it. -/
theorem activityOf_drive {c c' : Channel} {obs : Obs} {a : Activity} (ha : activityOf c.phase = some a) (h : c.drive = some (obs, c')) :
    (activityOf c'.phase = some a ∧ Obs.Passing obs) ∨ (c'.phase = .idle ∧ a.Returns obs) := by
  cases Channel.drive_moves h with
  | spin w hphase waits => exact .inl ⟨ha, nofun⟩
  | see w hphase returned =>
    rw [hphase] at ha
    cases w <;> exact .inl ⟨ha, nofun⟩
  | collectRead out hphase =>
    rw [hphase] at ha
    exact .inl ⟨ha, nofun⟩
  | collectWrite hphase =>
    rw [hphase] at ha
    cases ha
    exact .inr ⟨rfl, rfl⟩
  | copyOut out n i hphase more =>
    rw [hphase] at ha
    exact .inl ⟨ha, nofun⟩
  | copiedOut out n i hphase done =>
    rw [hphase] at ha
    exact .inl ⟨ha, nofun⟩
  | copyIn data i hphase more =>
    rw [hphase] at ha
    exact .inl ⟨ha, nofun⟩
  | copiedIn data i hphase done =>
    rw [hphase] at ha
    exact .inl ⟨ha, nofun⟩
  | describe s hphase =>
    rw [hphase] at ha
    cases s <;> exact .inl ⟨ha, nofun⟩
  | enqueue s hphase =>
    rw [hphase] at ha
    cases s <;> exact .inl ⟨ha, nofun⟩
  | publish s hphase =>
    rw [hphase] at ha
    cases s <;> exact .inl ⟨ha, nofun⟩
  | notifyInit hphase transport =>
    rw [hphase] at ha
    cases ha
    exact .inr ⟨rfl, rfl⟩
  | notifyRead n out hphase transport =>
    rw [hphase] at ha
    cases ha
    exact .inr ⟨rfl, n, out, rfl⟩
  | notifyWrite data hphase transport =>
    rw [hphase] at ha
    exact .inl ⟨ha, nofun⟩

/-- A response takes one tick of the counter. -/
theorem clock_buildResponse (req : RegisterRequest) (clock : UInt64) : (buildResponse req clock).2 = clock + 1 := by
  rw [buildResponse, nowString]

/-- The response to a request at a time, as it is sent. -/
def responseBytes (req : RegisterRequest) (clock : UInt64) : List UInt8 := (buildResponse req clock).1.text.asBytes

/-- The response to a request that was accepted fits in the buffer. -/
theorem serializeResponse_parsed {raw : List UInt8} {req : RegisterRequest} (hparse : parseRegisterRequest raw = .ok req) (clock : UInt64) :
    ∃ m respBuf, serializeResponse (buildResponse req clock).1 (Vector.replicate maxMessage 0) = (.ok m, respBuf) ∧
      respBuf.toList.take m = responseBytes req clock ∧ (responseBytes req clock).length ≤ bufSize := by
  obtain ⟨m, respBuf, hok⟩ := serializeResponse_returns hparse clock (Nat.le_refl _) (Vector.replicate maxMessage 0)
  have hdata := serializeResponse_ok hok
  refine ⟨m, respBuf, hok, hdata, ?_⟩
  rw [responseBytes, ← hdata, List.length_take, Vector.length_toList]
  exact Nat.min_le_right _ _

namespace Service

variable {ι : Type}

/-- The lock is with the call that the channel is in; what a thread has parsed can be answered, and what it has ready can be sent. -/
structure Inv (s : Service ι) : Prop where
  free : s.lock = none → s.channel.phase = .idle
  init : s.lock = some .init → activityOf s.channel.phase = some .init
  holder : ∀ i, s.lock = some (.thread i) → ∃ a, (s.threads i).activity = some a
  inside : ∀ i a, (s.threads i).activity = some a → s.lock = some (.thread i) ∧ activityOf s.channel.phase = some a
  parsed : ∀ i req, s.threads i = .parsed req → ∃ raw, parseRegisterRequest raw = .ok req
  ready : ∀ i data, s.threads i = .ready data → data.length ≤ bufSize

/-- While `init` has the lock no thread is in a call. -/
theorem inv_boot {c : Channel} (hc : activityOf c.phase = some .init) : (boot c : Service ι).Inv where
  free h := by cases h
  init _ := hc
  holder i h := by cases h
  inside i a h := by cases h
  parsed i req h := by cases h
  ready i data h := by cases h

section

variable [DecidableEq ι]

/-- All turns of the service, with what can be seen of them. -/
inductive Moves (s : Service ι) : ServiceTurn ι → Seen → Service ι → Prop
  | spin (i : ι) : Moves s (.thread i) .quiet s
  | device {turn : Turn} {obs : Obs} {c : Channel} (ofDevice : turn.OfDevice) (taken : s.channel.step turn = some (obs, c)) :
      Moves s (.device turn) (.channel turn obs) (s.setChannel c s.lock)
  | initPass {obs : Obs} {c : Channel} (lock : s.lock = some .init) (taken : s.channel.drive = some (obs, c))
      (goes : activityOf c.phase = some .init) (passing : obs.Passing) : Moves s .init (.channel .driver obs) (s.setChannel c s.lock)
  | initDone {c : Channel} (lock : s.lock = some .init) (taken : s.channel.drive = some (.quiet, c)) (idle : c.phase = .idle) :
      Moves s .init (.channel .driver .quiet) (s.setChannel c none)
  | beginRead (i : ι) (thread : s.threads i = .start) (lock : s.lock = none) :
      Moves s (.thread i) (.channel (.call (.readMessage requestBuffer)) .quiet)
        ((s.setChannel { s.channel with phase := .await (.read requestBuffer) } (some (.thread i))).setThread i .reading)
  | beginWrite (i : ι) {data : List UInt8} (thread : s.threads i = .ready data) (lock : s.lock = none) (small : ¬data.length > bufSize) :
      Moves s (.thread i) (.channel (.call (.writeMessage data)) .quiet)
        ((s.setChannel { s.channel with phase := .copyIn data 0 } (some (.thread i))).setThread i .writing)
  | pass (i : ι) {a : Activity} {obs : Obs} {c : Channel} (thread : (s.threads i).activity = some a)
      (taken : s.channel.drive = some (obs, c)) (goes : activityOf c.phase = some a) (passing : obs.Passing) :
      Moves s (.thread i) (.channel .driver obs) (s.setChannel c s.lock)
  | readDone (i : ι) {n : Nat} {out : List UInt8} {c : Channel} (thread : s.threads i = .reading)
      (taken : s.channel.drive = some (.returned (.readMessage n out), c)) (idle : c.phase = .idle) :
      Moves s (.thread i) (.channel .driver (.returned (.readMessage n out))) ((s.setChannel c none).setThread i (.afterRead n out))
  | writeDone (i : ι) {c : Channel} (thread : s.threads i = .writing)
      (taken : s.channel.drive = some (.returned (.writeMessage (.ok ())), c)) (idle : c.phase = .idle) :
      Moves s (.thread i) (.channel .driver (.returned (.writeMessage (.ok ())))) ((s.setChannel c none).setThread i .start)
  | stamp (i : ι) {req : RegisterRequest} (thread : s.threads i = .parsed req)
      (fits : (responseBytes req s.clock).length ≤ bufSize) :
      Moves s (.thread i) (.stamped req s.clock (responseBytes req s.clock))
        { s.setThread i (.ready (responseBytes req s.clock)) with clock := s.clock + 1 }

/-- A thread takes the lock and begins to read. -/
theorem enter_read (s : Service ι) (i : ι) (out : List UInt8) (handling : Handling) :
    s.enter i (.readMessage out) handling = (.channel (.call (.readMessage out)) .quiet,
      (s.setChannel { s.channel with phase := .await (.read out) } (some (.thread i))).setThread i handling) := rfl

/-- A thread takes the lock and begins to write. -/
theorem enter_write (s : Service ι) (i : ι) {data : List UInt8} (hsmall : ¬data.length > bufSize) (handling : Handling) :
    s.enter i (.writeMessage data) handling = (.channel (.call (.writeMessage data)) .quiet,
      (s.setChannel { s.channel with phase := .copyIn data 0 } (some (.thread i))).setThread i handling) := by
  rw [enter, Channel.begin, if_neg hsmall]

/-- A thread makes the response with the time of the clock. -/
theorem respond_eq (s : Service ι) (i : ι) {raw : List UInt8} {req : RegisterRequest} (hparse : parseRegisterRequest raw = .ok req) :
    s.respond i req = (.stamped req s.clock (responseBytes req s.clock),
      { s.setThread i (.ready (responseBytes req s.clock)) with clock := s.clock + 1 }) := by
  obtain ⟨m, respBuf, hok, hdata, -⟩ := serializeResponse_parsed hparse s.clock
  have hclock := clock_buildResponse req s.clock
  unfold respond
  generalize buildResponse req s.clock = r at hok hclock
  obtain ⟨resp, clock⟩ := r
  obtain rfl : clock = s.clock + 1 := hclock
  dsimp only at hok ⊢
  generalize serializeResponse resp (Vector.replicate maxMessage 0) = w at hok
  subst hok
  dsimp only
  rw [hdata]

/-- An access of a thread is one of the moves. -/
theorem access_moves {s s' : Service ι} {seen : Seen} {i : ι} {a : Activity} (hs : s.Inv) (ha : (s.threads i).activity = some a)
    (h : s.access i = some (seen, s')) : Moves s (.thread i) seen s' := by
  obtain ⟨⟨obs, c⟩, hdrive, heq⟩ := Option.map_eq_some_iff.mp h
  obtain ⟨-, hactivity⟩ := hs.inside i a ha
  rcases activityOf_drive hactivity hdrive with ⟨hgoes, hpassing⟩ | ⟨hidle, hreturns⟩
  · have hsame : (seen, s') = (.channel .driver obs, s.setChannel c s.lock) := by
      rw [← heq]
      cases obs with
      | returned reply => exact absurd rfl (hpassing reply)
      | _ => rfl
    cases hsame
    exact .pass i ha hdrive hgoes hpassing
  · cases hthread : s.threads i with
    | reading =>
      rw [hthread] at ha
      cases ha
      obtain ⟨n, out, rfl⟩ := hreturns
      cases heq
      exact .readDone i hthread hdrive hidle
    | writing =>
      rw [hthread] at ha
      cases ha
      obtain rfl : obs = .returned (.writeMessage (.ok ())) := hreturns
      cases heq
      exact .writeDone i hthread hdrive hidle
    | _ =>
      rw [hthread] at ha
      cases ha

/-- Every turn is one of the moves. -/
theorem step_moves {s s' : Service ι} {turn : ServiceTurn ι} {seen : Seen} (hs : s.Inv) (h : s.step turn = some (seen, s')) :
    Moves s turn seen s' := by
  cases turn with
  | init =>
    simp only [step] at h
    split at h
    case isFalse => cases h
    case isTrue hlock =>
      obtain ⟨⟨obs, c⟩, hdrive, heq⟩ := Option.map_eq_some_iff.mp h
      rcases activityOf_drive (hs.init hlock) hdrive with ⟨hgoes, hpassing⟩ | ⟨hidle, hreturns⟩
      · have hbusy : c.phase ≠ .idle := fun hidle => by
          rw [hidle] at hgoes
          cases hgoes
        simp only [if_neg hbusy] at heq
        cases heq
        exact .initPass hlock hdrive hgoes hpassing
      · simp only [if_pos hidle] at heq
        obtain rfl : obs = .quiet := hreturns
        cases heq
        exact .initDone hlock hdrive hidle
  | device turn =>
    cases turn with
    | call request => cases h
    | driver => cases h
    | _ =>
      obtain ⟨⟨obs, c⟩, hstep, heq⟩ := Option.map_eq_some_iff.mp h
      cases heq
      exact .device trivial hstep
  | thread i =>
    cases hthread : s.threads i with
    | start =>
      simp only [step, hthread] at h
      split at h
      case isTrue => cases h; exact .spin i
      case isFalse hlock =>
        simp only [enter_read, Option.some.injEq, Prod.mk.injEq] at h
        obtain ⟨rfl, rfl⟩ := h
        exact .beginRead i hthread (by simpa using hlock)
    | reading =>
      simp only [step, hthread] at h
      exact access_moves hs (by rw [hthread]; rfl) h
    | writing =>
      simp only [step, hthread] at h
      exact access_moves hs (by rw [hthread]; rfl) h
    | parsed req =>
      obtain ⟨raw, hparse⟩ := hs.parsed i req hthread
      obtain ⟨-, -, -, -, hfits⟩ := serializeResponse_parsed hparse s.clock
      simp only [step, hthread, respond_eq s i hparse, Option.some.injEq, Prod.mk.injEq] at h
      obtain ⟨rfl, rfl⟩ := h
      exact .stamp i hthread hfits
    | ready data =>
      simp only [step, hthread] at h
      split at h
      case isTrue => cases h; exact .spin i
      case isFalse hlock =>
        have hsmall : ¬data.length > bufSize := Nat.not_lt.mpr (hs.ready i data hthread)
        simp only [enter_write s i hsmall, Option.some.injEq, Prod.mk.injEq] at h
        obtain ⟨rfl, rfl⟩ := h
        exact .beginWrite i hthread (by simpa using hlock) hsmall

/-- After a read a thread is in no call. -/
theorem activity_afterRead (n : Nat) (out : List UInt8) : (Handling.afterRead n out).activity = none := by
  unfold Handling.afterRead
  split <;> rfl

/-- A thread goes on. Another thread that is in a call stays in it. -/
theorem Inv.setThread {s t : Service ι} (hs : s.Inv) {i : ι} {handling : Handling}
    (hthreads : t.threads = Function.update s.threads i handling)
    (hothers : ∀ j, j ≠ i → s.lock = some (.thread j) → t.lock = s.lock ∧ t.channel = s.channel)
    (hfree : t.lock = none → t.channel.phase = .idle)
    (hinit : t.lock = some .init → activityOf t.channel.phase = some .init)
    (hholder : ∀ j, t.lock = some (.thread j) → (j = i ∧ ∃ a, handling.activity = some a) ∨ (j ≠ i ∧ s.lock = some (.thread j)))
    (hinside : ∀ a, handling.activity = some a → t.lock = some (.thread i) ∧ activityOf t.channel.phase = some a)
    (hparsed : ∀ req, handling = .parsed req → ∃ raw, parseRegisterRequest raw = .ok req)
    (hready : ∀ data, handling = .ready data → data.length ≤ bufSize) : t.Inv where
  free := hfree
  init := hinit
  holder j hj := by
    rw [hthreads]
    rcases hholder j hj with ⟨rfl, ha⟩ | ⟨hne, hlock⟩
    · rwa [Function.update_self]
    · rw [Function.update_of_ne hne]
      exact hs.holder j hlock
  inside j a ha := by
    rw [hthreads] at ha
    by_cases hj : j = i
    · subst hj
      rw [Function.update_self] at ha
      exact hinside a ha
    · rw [Function.update_of_ne hj] at ha
      obtain ⟨hlock, hphase⟩ := hs.inside j a ha
      obtain ⟨hlock', hchannel⟩ := hothers j hj hlock
      rw [hlock', hchannel]
      exact ⟨hlock, hphase⟩
  parsed j req h := by
    rw [hthreads] at h
    by_cases hj : j = i
    · subst hj
      rw [Function.update_self] at h
      exact hparsed req h
    · rw [Function.update_of_ne hj] at h
      exact hs.parsed j req h
  ready j data h := by
    rw [hthreads] at h
    by_cases hj : j = i
    · subst hj
      rw [Function.update_self] at h
      exact hready data h
    · rw [Function.update_of_ne hj] at h
      exact hs.ready j data h

/-- It has a request only if the message was accepted. -/
theorem afterRead_eq_parsed {n : Nat} {out : List UInt8} {req : RegisterRequest} (h : Handling.afterRead n out = .parsed req) :
    parseRegisterRequest (out.take n) = .ok req := by
  unfold Handling.afterRead at h
  split at h
  · cases h
  · rename_i req' hparse
    cases h
    exact hparse

/-- And no response yet. -/
theorem afterRead_ne_ready {n : Nat} {out data : List UInt8} : Handling.afterRead n out ≠ .ready data := by
  unfold Handling.afterRead
  split <;> exact nofun

/-- Every turn keeps the lock with the thread that is in a call. -/
theorem Inv.moves {s s' : Service ι} {turn : ServiceTurn ι} {seen : Seen} (hs : s.Inv) (h : Moves s turn seen s') : s'.Inv := by
  cases h with
  | spin i => exact hs
  | @device turn obs c hturn hstep =>
    obtain ⟨hphase, -⟩ := device_keeps_phase hturn hstep
    exact
      { hs with
        free := fun hlock => hphase.trans (hs.free hlock)
        init := fun hlock => by rw [setChannel_channel, hphase]; exact hs.init hlock
        inside := fun i a ha => by rw [setChannel_channel, hphase]; exact hs.inside i a ha }
  | initPass hlock hdrive hgoes hpassing =>
    exact
      { hs with
        free := fun hnone => by cases hnone.symm.trans hlock
        init := fun _ => hgoes
        inside := fun i a ha => by cases (hs.inside i a ha).1.symm.trans hlock }
  | initDone hlock hdrive hidle =>
    exact
      { hs with
        free := fun _ => hidle
        init := fun hinit => by cases hinit
        holder := fun i hi => by cases hi
        inside := fun i a ha => by cases (hs.inside i a ha).1.symm.trans hlock }
  | beginRead i hthread hlock =>
    refine hs.setThread rfl ?_ nofun nofun ?_ ?_ nofun nofun
    · rw [hlock]
      exact nofun
    · intro j hj
      cases hj
      exact .inl ⟨rfl, _, rfl⟩
    · intro a ha
      cases ha
      exact ⟨rfl, rfl⟩
  | beginWrite i hthread hlock hsmall =>
    refine hs.setThread rfl ?_ nofun nofun ?_ ?_ nofun nofun
    · rw [hlock]
      exact nofun
    · intro j hj
      cases hj
      exact .inl ⟨rfl, _, rfl⟩
    · intro a ha
      cases ha
      exact ⟨rfl, rfl⟩
  | @pass i a obs c ha hdrive hgoes hpassing =>
    obtain ⟨hlock, -⟩ := hs.inside i a ha
    exact
      { hs with
        free := fun hnone => by cases hnone.symm.trans hlock
        init := fun hinit => by cases hinit.symm.trans hlock
        inside := fun j b hb => by
          obtain ⟨hlock', -⟩ := hs.inside j b hb
          cases hlock.symm.trans hlock'
          cases ha.symm.trans hb
          exact ⟨hlock, hgoes⟩ }
  | readDone i hthread hdrive hidle =>
    obtain ⟨hlock, -⟩ := hs.inside i .read (by rw [hthread]; rfl)
    refine hs.setThread rfl ?_ (fun _ => hidle) nofun nofun ?_ ?_ ?_
    · intro j hj hlock'
      cases hlock.symm.trans hlock'
      exact absurd rfl hj
    · intro a ha
      cases (activity_afterRead _ _).symm.trans ha
    · exact fun req hreq => ⟨_, afterRead_eq_parsed hreq⟩
    · exact fun data hdata => absurd hdata afterRead_ne_ready
  | writeDone i hthread hdrive hidle =>
    obtain ⟨hlock, -⟩ := hs.inside i .write (by rw [hthread]; rfl)
    refine hs.setThread rfl ?_ (fun _ => hidle) nofun nofun nofun nofun nofun
    intro j hj hlock'
    cases hlock.symm.trans hlock'
    exact absurd rfl hj
  | stamp i hthread hfits =>
    refine hs.setThread rfl (fun _ _ _ => ⟨rfl, rfl⟩) hs.free hs.init ?_ nofun nofun ?_
    · intro j hj
      refine .inr ⟨?_, hj⟩
      rintro rfl
      obtain ⟨a, ha⟩ := hs.holder j hj
      rw [hthread] at ha
      cases ha
    · intro data hdata
      cases hdata
      exact hfits

end

end Service

end Ipc

end Sentinel

end GolemKernel
