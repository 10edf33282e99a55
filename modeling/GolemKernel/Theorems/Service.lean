import GolemKernel.Lemmas.Service

/-!
# Requests are answered

What the device gave on the receive queue against what it took from the transmit queue. Each thread of the service answers the requests
it accepts in order, each once (`service_threads_answer`). One thread alone answers all requests in the order in which the device gave
them (`service_answers_in_order`).
-/

namespace GolemKernel

namespace Sentinel

namespace Ipc

namespace Service

open Channel (replies reads writes taken given offers received)

variable {ι : Type}

/-! ## What is seen of a run -/

abbrev Events (ι : Type) := List (Trace.Event (Service ι) (ServiceTurn ι) Seen)

def onChannel? : Seen → Option (Turn × Obs)
  | .channel turn obs => some (turn, obs)
  | _ => none

/-- The request that a thread has read, if it is one. -/
def accept (r : Nat × List UInt8) : Option RegisterRequest := (parseRegisterRequest (r.2.take r.1)).toOption

def accepted? (seen : Seen) : Option RegisterRequest := ((onChannel? seen).bind fun (_, obs) => obs.reply?).bind accept

def stamped? : Seen → Option (RegisterRequest × List UInt8)
  | .stamped req _ data => some (req, data)
  | _ => none

def written? (seen : Seen) : Option (List UInt8) := (onChannel? seen).bind fun (turn, _) => turn.write?

def thread? : ServiceTurn ι → Option ι
  | .thread i => some i
  | _ => none

/-- The run of the channel. -/
def channelEvents (evs : Events ι) : Channel.Events :=
  evs.filterMap fun e => (onChannel? e.output).map fun (turn, obs) => ⟨e.before.channel, turn, obs, e.after.channel⟩

/-- The requests that were accepted, first to last. -/
def accepted (evs : Events ι) : List RegisterRequest := evs.filterMap fun e => accepted? e.output

/-- The responses that were made, with their requests. -/
def stamps (evs : Events ι) : List (RegisterRequest × List UInt8) := evs.filterMap fun e => stamped? e.output

/-- The responses that were handed to the channel. -/
def written (evs : Events ι) : List (List UInt8) := evs.filterMap fun e => written? e.output

/-- The turns of one thread. -/
def turnsOf [DecidableEq ι] (i : ι) (evs : Events ι) : Events ι := evs.filter fun e => thread? e.input = some i

/-- The requests that were accepted are those among the messages that were read. -/
theorem accepted_eq (evs : Events ι) : accepted evs = (replies (channelEvents evs)).filterMap accept := by
  rw [replies, channelEvents, List.filterMap_filterMap, List.filterMap_filterMap]
  refine congrArg (evs.filterMap ·) (funext fun e => ?_)
  cases h : onChannel? e.output <;> simp [accepted?, h]

/-- The responses that were handed over are those that the channel has been given. -/
theorem written_eq (evs : Events ι) : written evs = writes (channelEvents evs) := by
  rw [writes, channelEvents, List.filterMap_filterMap]
  refine congrArg (evs.filterMap ·) (funext fun e => ?_)
  cases h : onChannel? e.output <;> simp [written?, h]

section

variable [DecidableEq ι]

/-- A turn is one of the channel, or leaves the channel alone. -/
theorem Moves.onChannel {s s' : Service ι} {turn : ServiceTurn ι} {seen : Seen} (hs : s.Inv) (h : Moves s turn seen s') :
    (∃ t obs, onChannel? seen = some (t, obs) ∧ s.channel.step t = some (obs, s'.channel)) ∨
      (onChannel? seen = none ∧ s'.channel = s.channel) := by
  cases h with
  | spin i => exact .inr ⟨rfl, rfl⟩
  | device ofDevice taken => exact .inl ⟨_, _, rfl, taken⟩
  | initPass lock taken goes passing => exact .inl ⟨_, _, rfl, taken⟩
  | initDone lock taken idle => exact .inl ⟨_, _, rfl, taken⟩
  | beginRead i thread lock => exact .inl ⟨_, _, rfl, if_pos (hs.free lock)⟩
  | beginWrite i thread lock small =>
    refine .inl ⟨_, _, rfl, ?_⟩
    rw [Channel.step, if_pos (hs.free lock), Channel.begin, if_neg small]
    rfl
  | pass i thread taken goes passing => exact .inl ⟨_, _, rfl, taken⟩
  | readDone i thread taken idle => exact .inl ⟨_, _, rfl, taken⟩
  | writeDone i thread taken idle => exact .inl ⟨_, _, rfl, taken⟩
  | stamp i thread fits => exact .inr ⟨rfl, rfl⟩

/-- A run of the service is a run of the channel. -/
theorem Run.inv_channel {start s : Service ι} {evs : Events ι} (hstart : start.Inv) (run : Run start evs s) :
    s.Inv ∧ Channel.Run start.channel (channelEvents evs) s.channel := by
  induction run with
  | nil => exact ⟨hstart, .nil⟩
  | @concat evs e _ taken ih =>
    obtain ⟨hbefore, run⟩ := ih
    have hmoves := step_moves hbefore taken.step
    refine ⟨hbefore.moves hmoves, ?_⟩
    rcases hmoves.onChannel hbefore with ⟨t, obs, hseen, hstep⟩ | ⟨hseen, hsame⟩
    · have hevents : channelEvents (evs ++ [e]) = channelEvents evs ++ [⟨e.before.channel, t, obs, e.after.channel⟩] := by
        simp [channelEvents, hseen]
      rw [hevents]
      exact .concat (e := ⟨e.before.channel, t, obs, e.after.channel⟩) run ⟨trivial, hstep⟩
    · have hevents : channelEvents (evs ++ [e]) = channelEvents evs := by
        simp [channelEvents, hseen]
      rw [hevents, hsame]
      exact run

/-! ## What one thread does -/

def parsed? : Handling → Option RegisterRequest
  | .parsed req => some req
  | _ => none

def ready? : Handling → Option (List UInt8)
  | .ready data => some data
  | _ => none

/-- After a read a thread has the request of the message, if it is one. -/
theorem parsed?_afterRead (n : Nat) (out : List UInt8) : parsed? (.afterRead n out) = accept (n, out) := by
  unfold Handling.afterRead accept
  cases parseRegisterRequest (out.take n) <;> rfl

/-- And no response yet. -/
theorem ready?_afterRead (n : Nat) (out : List UInt8) : ready? (.afterRead n out) = none := by
  unfold Handling.afterRead
  cases parseRegisterRequest (out.take n) <;> rfl

/-- An access in passing accepts nothing. -/
theorem accepted?_passing {obs : Obs} (h : obs.Passing) (turn : Turn) : accepted? (.channel turn obs) = none := by
  cases obs with
  | returned reply => exact absurd rfl (h reply)
  | _ => rfl

/-- What a turn adds to the lists of a run is what it takes from where the thread was, and leaves there. -/
structure Passes (handling handling' : Handling) (seen : Seen) : Prop where
  request : (parsed? handling).toList ++ (accepted? seen).toList =
    ((stamped? seen).map Prod.fst).toList ++ (parsed? handling').toList
  response : (ready? handling).toList ++ ((stamped? seen).map Prod.snd).toList = (written? seen).toList ++ (ready? handling').toList

/-- A turn of another thread leaves a thread where it is. -/
theorem threads_setThread_of_ne {s : Service ι} {i j : ι} {handling : Handling} (h : thread? (.thread j) ≠ some i) :
    (s.setThread j handling).threads i = s.threads i := Function.update_of_ne (fun hij => h (congrArg some hij.symm)) _ _

/-- A turn is nothing to the other threads. -/
theorem Moves.passes {s s' : Service ι} {turn : ServiceTurn ι} {seen : Seen} (h : Moves s turn seen s') (i : ι) :
    (thread? turn = some i → Passes (s.threads i) (s'.threads i) seen) ∧ (thread? turn ≠ some i → s'.threads i = s.threads i) := by
  cases h with
  | spin j => exact ⟨fun _ => ⟨by simp [accepted?, stamped?, onChannel?], by simp [written?, stamped?, onChannel?]⟩, fun _ => rfl⟩
  | device ofDevice taken => exact ⟨nofun, fun _ => rfl⟩
  | initPass lock taken goes passing => exact ⟨nofun, fun _ => rfl⟩
  | initDone lock taken idle => exact ⟨nofun, fun _ => rfl⟩
  | beginRead j thread lock =>
    refine ⟨?_, threads_setThread_of_ne⟩
    intro hj
    cases hj
    simp only [setThread_threads, Function.update_self, thread]
    exact ⟨rfl, rfl⟩
  | @beginWrite j data thread lock small =>
    refine ⟨?_, threads_setThread_of_ne⟩
    intro hj
    cases hj
    simp only [setThread_threads, Function.update_self, thread]
    refine ⟨rfl, ?_⟩
    have hwritten : written? (.channel (.call (.writeMessage data)) .quiet) = some data := if_neg small
    rw [hwritten]
    rfl
  | @pass j a obs c thread taken goes passing =>
    refine ⟨fun _ => ?_, fun _ => rfl⟩
    refine ⟨?_, by simp [written?, stamped?, onChannel?, Turn.write?]⟩
    rw [accepted?_passing passing]
    exact List.append_nil _
  | @readDone j n out c thread taken idle =>
    refine ⟨?_, threads_setThread_of_ne⟩
    intro hj
    cases hj
    simp only [setThread_threads, Function.update_self, thread]
    refine ⟨?_, ?_⟩
    · rw [parsed?_afterRead]
      rfl
    · rw [ready?_afterRead]
      rfl
  | writeDone j thread taken idle =>
    refine ⟨?_, threads_setThread_of_ne⟩
    intro hj
    cases hj
    simp only [setThread_threads, Function.update_self, thread]
    exact ⟨rfl, rfl⟩
  | stamp j thread fits =>
    refine ⟨?_, threads_setThread_of_ne⟩
    intro hj
    cases hj
    simp only [setThread_threads, Function.update_self, thread]
    exact ⟨rfl, rfl⟩

/-- The requests that a thread has accepted, the responses it has made and those it has handed to the channel. -/
structure Served (i : ι) (evs : Events ι) (handling : Handling) : Prop where
  request : accepted (turnsOf i evs) = (stamps (turnsOf i evs)).map Prod.fst ++ (parsed? handling).toList
  response : (stamps (turnsOf i evs)).map Prod.snd = written (turnsOf i evs) ++ (ready? handling).toList

/-- One more turn keeps the account of a thread. -/
theorem Served.concat {i : ι} {evs : Events ι} {e : Trace.Event (Service ι) (ServiceTurn ι) Seen}
    (h : Served i evs (e.before.threads i)) (hmoves : Moves e.before e.input e.output e.after) :
    Served i (evs ++ [e]) (e.after.threads i) := by
  obtain ⟨hown, hother⟩ := hmoves.passes i
  by_cases hi : thread? e.input = some i
  · obtain ⟨hrequest, hresponse⟩ := hown hi
    have hturns : turnsOf i (evs ++ [e]) = turnsOf i evs ++ [e] := by simp [turnsOf, hi]
    have haccepted : accepted (turnsOf i evs ++ [e]) = accepted (turnsOf i evs) ++ (accepted? e.output).toList :=
      Channel.filterMap_concat _ _ _
    have hstamps : stamps (turnsOf i evs ++ [e]) = stamps (turnsOf i evs) ++ (stamped? e.output).toList :=
      Channel.filterMap_concat _ _ _
    have hwritten : written (turnsOf i evs ++ [e]) = written (turnsOf i evs) ++ (written? e.output).toList :=
      Channel.filterMap_concat _ _ _
    have hmap : ∀ {β : Type} (f : RegisterRequest × List UInt8 → β),
        (stamped? e.output).toList.map f = ((stamped? e.output).map f).toList := fun f => by cases stamped? e.output <;> rfl
    refine ⟨?_, ?_⟩
    · rw [hturns, haccepted, hstamps, List.map_append, hmap, h.request, List.append_assoc, hrequest, ← List.append_assoc]
    · rw [hturns, hwritten, hstamps, List.map_append, hmap, h.response, List.append_assoc, hresponse, ← List.append_assoc]
  · have hturns : turnsOf i (evs ++ [e]) = turnsOf i evs := by simp [turnsOf, hi]
    rw [hother hi]
    exact ⟨by rw [hturns]; exact h.request, by rw [hturns]; exact h.response⟩

/-- At any time of a run, what a thread has accepted, made and handed over agrees with where it is. -/
theorem Run.served {start s : Service ι} {evs : Events ι} (hstart : start.Inv) (run : Run start evs s) (i : ι)
    (hserved : Served i [] (start.threads i)) : Served i evs (s.threads i) := by
  induction run with
  | nil => exact hserved
  | concat run taken ih => exact ih.concat (step_moves (Run.inv_channel hstart run).1 taken.step)

/-! ## The clock -/

/-- The response to the `k`-th of these requests is made with the time `k`. -/
def answer (reqs : List RegisterRequest) : List (List UInt8) := reqs.mapIdx fun k req => responseBytes req (UInt64.ofNat k)

/-- One more request is answered with the next time. -/
theorem answer_concat (reqs : List RegisterRequest) (req : RegisterRequest) :
    answer (reqs ++ [req]) = answer reqs ++ [responseBytes req (UInt64.ofNat reqs.length)] := List.mapIdx_concat

/-- Requests that come later do not change the answers before. -/
theorem answer_mono {reqs reqs' : List RegisterRequest} (h : reqs <+: reqs') : answer reqs <+: answer reqs' := by
  obtain ⟨rest, rfl⟩ := h
  rw [answer, answer, List.mapIdx_append]
  exact List.prefix_append _ _

/-- The clock has counted the responses. -/
structure Stamped (evs : Events ι) (clock : UInt64) : Prop where
  clock : clock = UInt64.ofNat (stamps evs).length
  data : (stamps evs).map Prod.snd = answer ((stamps evs).map Prod.fst)

omit [DecidableEq ι] in
/-- The response number `k` has the time `k`. -/
theorem Stamped.response {evs : Events ι} {clock : UInt64} (h : Stamped evs clock) {k : Nat} {req : RegisterRequest} {data : List UInt8}
    (hk : (stamps evs)[k]? = some (req, data)) : data = responseBytes req (UInt64.ofNat k) := by
  have hreq : ((stamps evs).map Prod.fst)[k]? = some req := by rw [List.getElem?_map, hk]; rfl
  have hget : (answer ((stamps evs).map Prod.fst))[k]? = some data := by rw [← h.data, List.getElem?_map, hk]; rfl
  rw [answer, List.getElem?_mapIdx, hreq] at hget
  exact (Option.some.inj hget).symm

/-- The clock goes on exactly when a response is made. -/
theorem Moves.clock {s s' : Service ι} {turn : ServiceTurn ι} {seen : Seen} (h : Moves s turn seen s') :
    (∃ req, stamped? seen = some (req, responseBytes req s.clock) ∧ s'.clock = s.clock + 1) ∨
      (stamped? seen = none ∧ s'.clock = s.clock) := by
  cases h with
  | stamp i thread fits => exact .inl ⟨_, rfl, rfl⟩
  | _ => exact .inr ⟨rfl, rfl⟩

/-- At any time of a run the responses that were made carry the times from 0 on. -/
theorem Run.stamped {start s : Service ι} {evs : Events ι} (hstart : start.Inv) (hclock : start.clock = 0) (run : Run start evs s) :
    Stamped evs s.clock := by
  induction run with
  | nil => exact ⟨hclock, rfl⟩
  | @concat evs e run taken ih =>
    obtain ⟨hcount, hdata⟩ := ih
    have hstamps : stamps (evs ++ [e]) = stamps evs ++ (stamped? e.output).toList := Channel.filterMap_concat _ _ _
    rcases (step_moves (Run.inv_channel hstart run).1 taken.step).clock with ⟨req, hseen, hnext⟩ | ⟨hseen, hsame⟩
    · rw [hseen] at hstamps
      refine ⟨?_, ?_⟩
      · rw [hnext, hcount, hstamps, List.length_append]
        exact (UInt64.ofNat_add _ 1).symm
      · rw [hstamps, List.map_append, List.map_append, hdata]
        simp only [Option.toList_some, List.map_cons, List.map_nil]
        rw [answer_concat, List.length_map, hcount]
    · rw [hseen, Option.toList_none, List.append_nil] at hstamps
      exact ⟨by rw [hsame, hstamps]; exact hcount, by rw [hstamps]; exact hdata⟩

/-! ## What the device gave -/

/-- The message in a buffer that the device has given back. -/
def message (g : Vector UInt8 bufSize × UInt32) : List UInt8 := g.1.toList.take g.2.toNat

/-- The requests among the messages. -/
def requests (msgs : List (List UInt8)) : List RegisterRequest := msgs.filterMap fun msg => (parseRegisterRequest msg).toOption

/-- What `read_request` gets is the message. -/
theorem take_received (buffer : Vector UInt8 bufSize) (len : UInt32) :
    (received buffer len requestBuffer).2.take (received buffer len requestBuffer).1 = message (buffer, len) := by
  have hlength : requestBuffer.length = bufSize := List.length_replicate
  rw [received, hlength, Nat.min_self, List.take_append_of_le_length (by simp), List.take_take, Nat.min_self, message]
  by_cases hle : len.toNat ≤ bufSize
  · rw [Nat.min_eq_left hle]
  · rw [Nat.min_eq_right (by omega), List.take_of_length_le (by simp), List.take_of_length_le (by simp; omega)]

/-- A thread accepts a message that is read as a request. -/
theorem accept_received (buffer : Vector UInt8 bufSize) (len : UInt32) :
    accept (received buffer len requestBuffer) = (parseRegisterRequest (message (buffer, len))).toOption := by
  rw [accept, take_received]

/-- Every read has the buffer of `handle_one`, of zeros. -/
theorem Moves.reads {s s' : Service ι} {turn : ServiceTurn ι} {seen : Seen} (h : Moves s turn seen s') {t : Turn} {obs : Obs}
    (hseen : onChannel? seen = some (t, obs)) {out : List UInt8} (hread : t.read? = some out) : out = requestBuffer := by
  cases h with
  | spin i => cases hseen
  | device ofDevice taken =>
    cases hseen
    cases t with
    | call request => cases ofDevice
    | _ => cases hread
  | beginRead i thread lock =>
    cases hseen
    exact (Option.some.inj hread).symm
  | stamp i thread fits => cases hseen
  | _ =>
    cases hseen
    cases hread

/-- All calls of `read_message` are made with a fresh buffer. -/
theorem Run.reads {start s : Service ι} {evs : Events ι} (hstart : start.Inv) (run : Run start evs s) :
    ∀ out ∈ Channel.reads (channelEvents evs), out = requestBuffer := by
  induction run with
  | nil =>
    intro out hout
    cases hout
  | @concat evs e run taken ih =>
    intro out hout
    rw [Channel.reads, channelEvents, List.filterMap_append, List.filterMap_append, List.mem_append] at hout
    rcases hout with hout | hout
    · exact ih out hout
    · have hmoves := step_moves (Run.inv_channel hstart run).1 taken.step
      cases hseen : onChannel? e.output with
      | none => simp [hseen] at hout
      | some p =>
        have hread : p.1.read? = some out := by simpa [hseen] using hout
        exact hmoves.reads hseen hread

/-! ## A thread without interference -/

/-- A thread in a call makes the next access of it. -/
theorem step_of_activity {s : Service ι} {i : ι} {a : Activity} (ha : (s.threads i).activity = some a) :
    s.step (.thread i) = s.access i := by
  cases hthread : s.threads i with
  | reading => simp only [step, hthread]
  | writing => simp only [step, hthread]
  | _ =>
    rw [hthread] at ha
    cases ha

/-- One more turn. -/
theorem Run.turn {start s s' : Service ι} {evs : Events ι} {turn : ServiceTurn ι} {seen : Seen} (run : Run start evs s)
    (h : s.step turn = some (seen, s')) : Run start (evs ++ [⟨s, turn, seen, s'⟩]) s' := .concat run ⟨trivial, h⟩

/-- Turns of one thread, and what is accepted, made and handed over in them. -/
structure Solo (i : ι) (start : Service ι) (evs : Events ι) (s : Service ι) (reqs : List RegisterRequest)
    (made : List (RegisterRequest × List UInt8)) (handed : List (List UInt8)) : Prop where
  run : Run start evs s
  input : ∀ e ∈ evs, e.input = .thread i
  accepted : accepted evs = reqs
  stamps : stamps evs = made
  written : written evs = handed

/-- Before a thread has moved. -/
theorem Solo.nil (i : ι) (s : Service ι) : Solo i s [] s [] [] [] := ⟨.nil, List.forall_mem_nil _, rfl, rfl, rfl⟩

/-- One turn after others. -/
theorem Solo.turn {i : ι} {start s s' : Service ι} {evs : Events ι} {seen : Seen} {reqs : List RegisterRequest}
    {made : List (RegisterRequest × List UInt8)} {handed : List (List UInt8)} (h : Solo i start evs s reqs made handed)
    (hstep : s.step (.thread i) = some (seen, s')) :
    Solo i start (evs ++ [⟨s, .thread i, seen, s'⟩]) s' (reqs ++ (accepted? seen).toList) (made ++ (stamped? seen).toList)
      (handed ++ (written? seen).toList) where
  run := Run.turn h.run hstep
  input e he := by
    rcases List.mem_append.mp he with he | he
    · exact h.input e he
    · rw [List.mem_singleton.mp he]
  accepted := by rw [Service.accepted, Channel.filterMap_concat, ← Service.accepted, h.accepted]
  stamps := by rw [Service.stamps, Channel.filterMap_concat, ← Service.stamps, h.stamps]
  written := by rw [Service.written, Channel.filterMap_concat, ← Service.written, h.written]

/-- Two stretches of a thread alone are one. -/
theorem Solo.append {i : ι} {start s s' : Service ι} {evs evs' : Events ι} {reqs reqs' : List RegisterRequest}
    {made made' : List (RegisterRequest × List UInt8)} {handed handed' : List (List UInt8)} (h : Solo i start evs s reqs made handed)
    (h' : Solo i s evs' s' reqs' made' handed') : Solo i start (evs ++ evs') s' (reqs ++ reqs') (made ++ made') (handed ++ handed') where
  run := h.run.append h'.run
  input e he := (List.mem_append.mp he).elim (h.input e) (h'.input e)
  accepted := by rw [Service.accepted, List.filterMap_append, ← Service.accepted, ← Service.accepted, h.accepted, h'.accepted]
  stamps := by rw [Service.stamps, List.filterMap_append, ← Service.stamps, ← Service.stamps, h.stamps, h'.stamps]
  written := by rw [Service.written, List.filterMap_append, ← Service.written, ← Service.written, h.written, h'.written]

/-- The accesses of a call in which it does not return are turns of the thread that is in it. -/
theorem exists_solo_drives {s : Service ι} {i : ι} {a : Activity} (ha : (s.threads i).activity = some a) {c' : Channel}
    (h : Channel.Drives s.channel c') : ∃ evs, Solo i s evs (s.setChannel c' s.lock) [] [] [] := by
  induction h with
  | refl => exact ⟨[], .nil i s⟩
  | @tail c₁ c₂ _ hstep ih =>
    obtain ⟨evs, hsolo⟩ := ih
    obtain ⟨obs, hpassing, hdrive⟩ := hstep
    have hstep : (s.setChannel c₁ s.lock).step (.thread i) = some (.channel .driver obs, s.setChannel c₂ s.lock) := by
      rw [step_of_activity (s := s.setChannel c₁ s.lock) ha, access, setChannel_channel, hdrive]
      cases obs with
      | returned reply => exact absurd rfl (hpassing reply)
      | _ => rfl
    have hturn := hsolo.turn hstep
    rw [accepted?_passing hpassing] at hturn
    exact ⟨_, hturn⟩

/-- Without interference a thread does what `read_request` does as one step. -/
theorem exists_solo_read {s : Service ι} {i : ι} (hlock : s.lock = none) (hstart : s.threads i = .start) {n : Nat}
    {reqBuf : List UInt8} {c₁ : Channel} (hread : s.channel.readMessage requestBuffer = some (n, reqBuf, c₁)) :
    ∃ evs, Solo i s evs ((s.setChannel c₁ none).setThread i (.afterRead n reqBuf)) (accept (n, reqBuf)).toList [] [] := by
  obtain ⟨c', hdrives, hreturns⟩ := Channel.drives_readMessage hread
  obtain ⟨t, ht⟩ : ∃ t, t = (s.setChannel { s.channel with phase := .await (.read requestBuffer) } (some (.thread i))).setThread i
    .reading := ⟨_, rfl⟩
  have hbegin : s.step (.thread i) = some (.channel (.call (.readMessage requestBuffer)) .quiet, t) := by
    simp only [step, hstart, hlock, ht]
    rfl
  have hreading : (t.threads i).activity = some .read := by
    rw [ht, setThread_threads, Function.update_self]
    rfl
  have hchannel : t.channel = { s.channel with phase := .await (.read requestBuffer) } := by rw [ht]; rfl
  obtain ⟨evs, hsolo⟩ := exists_solo_drives hreading (hchannel ▸ hdrives)
  have hend : (t.setChannel c' t.lock).step (.thread i) = some (.channel .driver (.returned (.readMessage n reqBuf)),
      (s.setChannel c₁ none).setThread i (.afterRead n reqBuf)) := by
    rw [step_of_activity (s := t.setChannel c' t.lock) hreading, access, setChannel_channel, hreturns, ht]
    simp [setChannel, setThread]
  exact ⟨_, (((Solo.nil i s).turn hbegin).append hsolo).turn hend⟩

/-- Without interference a thread does what `write_response_bytes` does as one step, up to where it waits. -/
theorem exists_solo_write {s : Service ι} {i : ι} {data : List UInt8} (hlock : s.lock = none) (hready : s.threads i = .ready data)
    {c₂ : Channel} (hsend : s.channel.sendMessage data = .ok c₂) :
    ∃ evs, Solo i s evs ((s.setChannel c₂ (some (.thread i))).setThread i .writing) [] [] [data] := by
  have hsmall := Channel.length_of_sendMessage hsend
  have hbegin : s.step (.thread i) = some (.channel (.call (.writeMessage data)) .quiet,
      (s.setChannel { s.channel with phase := .copyIn data 0 } (some (.thread i))).setThread i .writing) := by
    simp only [step, hready, hlock, enter_write s i hsmall]
    rfl
  have hwriting : (((s.setChannel { s.channel with phase := .copyIn data 0 } (some (.thread i))).setThread i .writing).threads
      i).activity = some .write := by
    rw [setThread_threads, Function.update_self]
    rfl
  have hhanded : written? (.channel (.call (.writeMessage data)) .quiet) = some data := if_neg hsmall
  obtain ⟨evs, hsolo⟩ := exists_solo_drives hwriting (Channel.drives_sendMessage hsend)
  have hwhole := ((Solo.nil i s).turn hbegin).append hsolo
  rw [hhanded] at hwhole
  exact ⟨_, hwhole⟩

/-- Without interference a thread does what `handle_one` does as one step, and then waits for the device. -/
theorem exists_solo_handleOne {s : Service ι} {i : ι} (hlock : s.lock = none) (hstart : s.threads i = .start) {n : Nat}
    {reqBuf : List UInt8} {c₁ : Channel} (hread : s.channel.readMessage requestBuffer = some (n, reqBuf, c₁)) {req : RegisterRequest}
    (hparse : parseRegisterRequest (reqBuf.take n) = .ok req) :
    ∃ evs c₂, handleOne s.channel s.clock = some (.ok req, c₂, s.clock + 1) ∧ c₁.sendMessage (responseBytes req s.clock) = .ok c₂ ∧
      Solo i s evs ⟨c₂, some (.thread i), s.clock + 1, Function.update s.threads i .writing⟩ [req]
        [(req, responseBytes req s.clock)] [responseBytes req s.clock] := by
  obtain ⟨m, respBuf, c₂, hok, hsend, hone⟩ := handleOne_answers hread hparse
  rw [clock_buildResponse] at hone
  obtain ⟨m', respBuf', hok', hdata, -⟩ := serializeResponse_parsed hparse s.clock
  cases hok.symm.trans hok'
  rw [hdata] at hsend
  have hafter : Handling.afterRead n reqBuf = .parsed req := by rw [Handling.afterRead, hparse]
  have haccept : accept (n, reqBuf) = some req := by
    rw [accept, hparse]
    rfl
  obtain ⟨evs₁, hreads⟩ := exists_solo_read hlock hstart hread
  rw [hafter, haccept] at hreads
  obtain ⟨t, ht⟩ : ∃ t, t = { (s.setChannel c₁ none).setThread i (.ready (responseBytes req s.clock)) with clock := s.clock + 1 } :=
    ⟨_, rfl⟩
  have hrespond : ((s.setChannel c₁ none).setThread i (.parsed req)).step (.thread i) =
      some (.stamped req s.clock (responseBytes req s.clock), t) := by
    have hparsed : ((s.setChannel c₁ none).setThread i (.parsed req)).threads i = .parsed req := Function.update_self ..
    simp only [step, hparsed, respond_eq _ i hparse, ht]
    simp [setChannel, setThread]
  have hready : t.threads i = .ready (responseBytes req s.clock) := by
    rw [ht]
    exact Function.update_self ..
  have hfree : t.lock = none ∧ t.channel = c₁ := by rw [ht]; exact ⟨rfl, rfl⟩
  obtain ⟨evs₂, hwrites⟩ := exists_solo_write hfree.1 hready (hfree.2.symm ▸ hsend)
  have hfinal : (t.setChannel c₂ (some (.thread i))).setThread i .writing =
      ⟨c₂, some (.thread i), s.clock + 1, Function.update s.threads i .writing⟩ := by
    simp [ht, setChannel, setThread]
  rw [hfinal] at hwrites
  exact ⟨_, c₂, hone, hsend, (hreads.turn hrespond).append hwrites⟩

/-- What a thread does to the channel is not what a device does. -/
theorem Moves.not_ofDevice {s s' : Service ι} {i : ι} {seen : Seen} (h : Moves s (.thread i) seen s') {turn : Turn} {obs : Obs}
    (hseen : onChannel? seen = some (turn, obs)) : ¬turn.OfDevice := by
  cases h with
  | spin => cases hseen
  | stamp => cases hseen
  | _ =>
    cases hseen
    exact not_false

/-- In the turns of a thread the device gives nothing back and takes nothing. -/
theorem Run.device_of_thread {start s : Service ι} {evs : Events ι} (hstart : start.Inv) (run : Run start evs s) {i : ι}
    (hinput : ∀ e ∈ evs, e.input = .thread i) (side : Side) :
    given side (channelEvents evs) = [] ∧ taken side (channelEvents evs) = [] := by
  induction run with
  | nil => exact ⟨rfl, rfl⟩
  | @concat evs e run htaken ih =>
    obtain ⟨hgiven, htook⟩ := ih fun e he => hinput e (List.mem_append_left _ he)
    have hbefore := (Run.inv_channel hstart run).1
    have hmoves := step_moves hbefore htaken.step
    have honChannel := hmoves.onChannel hbefore
    rw [hinput e (List.mem_append_right _ (List.mem_singleton_self e))] at hmoves
    simp only [given, taken, channelEvents, List.filterMap_append, List.append_eq_nil_iff] at hgiven htook ⊢
    rcases honChannel with ⟨turn, obs, hseen, hstep⟩ | ⟨hseen, -⟩
    · obtain ⟨hgave, htake⟩ := driver_takes_nothing (hmoves.not_ofDevice hseen) hstep side
      simp [hgiven, htook, hseen, hgave, htake]
    · simp [hgiven, htook, hseen]

/-! ## The exchange -/

omit [DecidableEq ι] in
/-- `init` leaves the channel at its first submission. -/
theorem activityOf_init {d : MmioDevice} {rxMem txMem : UInt64} {c : Channel} (hinit : Channel.init d rxMem txMem = .ok c) :
    activityOf c.phase = some .init := by
  unfold Channel.init at hinit
  split at hinit
  · cases hinit
  · split at hinit
    · cases hinit
    · cases hinit
      rfl

/-- The channel under a run of the service. -/
theorem Run.exchange {d : MmioDevice} {rxMem txMem : UInt64} {c : Channel} (hinit : Channel.init d rxMem txMem = .ok c)
    (hrx : queueSize ≤ (d.numMax sentinelRxQueue).toNat) (htx : queueSize ≤ (d.numMax sentinelTxQueue).toNat) {evs : Events ι}
    {s : Service ι} (run : Run (boot c) evs s) :
    (boot c : Service ι).Inv ∧ s.Inv ∧ Channel.RxInv (Channel.RxView.of (channelEvents evs)) s.channel.rx s.channel.phase ∧
      Channel.TxInv (Channel.TxView.of (channelEvents evs)) s.channel.tx s.channel.phase := by
  have hboot : (boot c : Service ι).Inv := inv_boot (activityOf_init hinit)
  obtain ⟨hs, hchannel⟩ := Run.inv_channel hboot run
  obtain ⟨hrxInv, htxInv⟩ := Channel.Run.inv hchannel (Channel.init_inv hinit hrx htx)
  exact ⟨hboot, hs, hrxInv, htxInv⟩

/-- What was accepted are the requests among the messages that the device gave and the service has read. -/
theorem accepted_eq_requests {start s : Service ι} {evs : Events ι} (hstart : start.Inv) (run : Run start evs s)
    (hinv : Channel.RxInv (Channel.RxView.of (channelEvents evs)) s.channel.rx s.channel.phase) :
    accepted evs = requests (((given .rx (channelEvents evs)).take (replies (channelEvents evs)).length).map message) := by
  obtain ⟨k, stage, h⟩ := hinv
  have hanswered : ∀ (i : Nat) r, (replies (channelEvents evs))[i]? = some r → ∃ buffer len out,
      (given .rx (channelEvents evs))[i]? = some (buffer, len) ∧ (Channel.reads (channelEvents evs))[i]? = some out ∧
        r = received buffer len out := h.answered
  have hreads := Run.reads hstart run
  rw [accepted_eq, requests, List.filterMap_map]
  generalize replies (channelEvents evs) = rs at hanswered ⊢
  generalize given .rx (channelEvents evs) = gs at hanswered ⊢
  have hreplies : rs = (gs.take rs.length).map fun g => received g.1 g.2 requestBuffer := by
    apply List.ext_getElem?
    intro i
    cases hr : rs[i]? with
    | some r =>
      obtain ⟨buffer, len, out, hgiven, hread, rfl⟩ := hanswered i r hr
      obtain ⟨hi, -⟩ := List.getElem?_eq_some_iff.mp hr
      obtain rfl := hreads out (List.mem_of_getElem? hread)
      rw [List.getElem?_map, List.getElem?_take, if_pos hi, hgiven]
      rfl
    | none =>
      have hlen := List.getElem?_eq_none_iff.mp hr
      rw [List.getElem?_map, List.getElem?_take, if_neg (by omega)]
      rfl
  calc rs.filterMap accept = ((gs.take rs.length).map fun g => received g.1 g.2 requestBuffer).filterMap accept :=
        congrArg (List.filterMap accept) hreplies
    _ = _ := by
        rw [List.filterMap_map]
        exact congrArg (List.filterMap · _) (funext fun g => accept_received g.1 g.2)

/-- A line at the start of a buffer. -/
def lineBuffer (line : List UInt8) : Vector UInt8 bufSize := Vector.ofFn fun i => line.getD i 0

/-- The message in a buffer with a line is the line. -/
theorem message_lineBuffer {line : List UInt8} (hfits : line.length ≤ bufSize) :
    message (lineBuffer line, UInt32.ofNat line.length) = line := by
  have hlen : (UInt32.ofNat line.length).toNat = line.length := UInt32.toNat_ofNat_of_lt' (Nat.lt_of_le_of_lt hfits (by decide))
  apply List.ext_getElem
  · simp only [message, hlen, List.length_take, Vector.length_toList]
    omega
  · intro k hk hline
    simp [message, lineBuffer, hline]

/-- The device has written the receive buffer. -/
def filled (s : Service ι) (buffer : Vector UInt8 bufSize) : Service ι :=
  s.setChannel (s.channel.setPort .rx { s.channel.rx with mem := { s.channel.rx.mem with buffer } }) s.lock

/-- The device may write all of a buffer that it has for writing. -/
theorem step_touch {s : Service ι} {head : UInt16} {desc : VirtqDesc} (hheld : head ∈ s.channel.rx.held)
    (hdesc : s.channel.rx.descriptor? head = some desc) (hflags : desc.flags = virtqDescFWrite) (hlen : desc.len.toNat = bufSize)
    (buffer : Vector UInt8 bufSize) : s.step (.device (.touch .rx buffer)) = some (.channel (.touch .rx buffer) .quiet, s.filled buffer) := by
  have hdrop : ∀ v : Vector UInt8 bufSize, v.toList.drop bufSize = [] := fun v => List.drop_eq_nil_of_le (by simp)
  have hallows : s.channel.rx.allows buffer head = true := by
    rw [Port.allows, hdesc]
    simp [hflags, hlen, hdrop]
  have htouch : (s.channel.port .rx).touch buffer = some { s.channel.rx with mem := { s.channel.rx.mem with buffer } } :=
    if_pos (List.any_eq_true.mpr ⟨head, List.mem_append_left _ hheld, hallows⟩)
  have hchannel : s.channel.step (.touch .rx buffer) = some (.quiet, (s.filled buffer).channel) := by
    rw [Channel.step, htouch]
    rfl
  simp only [step, hchannel]
  rfl

/-- All that has happened is that the device has given a buffer back. -/
def Gave (evs : Events ι) (buffer : Vector UInt8 bufSize) (len : UInt32) : Prop :=
  given .rx (channelEvents evs) = [(buffer, len)] ∧ taken .tx (channelEvents evs) = [] ∧
    accepted evs = [] ∧ stamps evs = [] ∧ written evs = []

set_option maxRecDepth 4000 in
/-- `init` arms the receive queue; the device takes the buffer, writes a line into it and gives it back. No thread has moved. -/
theorem exists_run_given (ι : Type) [DecidableEq ι] {line : List UInt8} (hfits : line.length ≤ bufSize) :
    ∃ (c : Channel) (evs : Events ι) (s : Service ι), Channel.init (Link.deviceOf 16) 0x1000 0x3000 = .ok c ∧ Run (boot c) evs s ∧
      s.lock = none ∧ s.clock = 0 ∧ (∀ i, s.threads i = .start) ∧ s.channel.tx.queue.availIdx = s.channel.tx.device.availIdx ∧
      (∃ n reqBuf c₁, s.channel.readMessage requestBuffer = some (n, reqBuf, c₁) ∧ reqBuf.take n = line ∧ c₁.tx = s.channel.tx) ∧
      (given .rx (channelEvents evs)).map message = [line] ∧ taken .tx (channelEvents evs) = [] ∧
      accepted evs = [] ∧ stamps evs = [] ∧ written evs = [] := by
  obtain ⟨c, hinit⟩ : ∃ c, Channel.init (Link.deviceOf 16) 0x1000 0x3000 = .ok c := ⟨_, rfl⟩
  obtain ⟨evs₁, s₁, desc, htake, hheld, hdesc, hflags, hwhole, hgive⟩ : ∃ (evs₁ : Events ι) (s₁ : Service ι) (desc : VirtqDesc),
      Trace.play step (boot c) (List.replicate 4 .init ++ [.device (.take .rx)]) = some (evs₁, s₁) ∧ 0 ∈ s₁.channel.rx.held ∧
      s₁.channel.rx.descriptor? 0 = some desc ∧ desc.flags = virtqDescFWrite ∧ desc.len.toNat = bufSize ∧
      ∀ buffer len, ∃ evs₂ s₂, Trace.play step (s₁.filled buffer) [.device (.put .rx 0 len), .device (.give .rx)] = some (evs₂, s₂) ∧
        (s₂.lock = none ∧ s₂.clock = 0 ∧ (∀ i, s₂.threads i = .start) ∧ s₂.channel.tx.queue.availIdx = s₂.channel.tx.device.availIdx) ∧
        (s₂.channel.rx.queue.hasReturned s₂.channel.rx.mem = true ∧ s₂.channel.rx.mem.buffer = buffer ∧
          (s₂.channel.rx.queue.collect s₂.channel.rx.mem).1 = len) ∧
        Gave (evs₁ ++ ([⟨s₁, .device (.touch .rx buffer), .channel (.touch .rx buffer) .quiet, s₁.filled buffer⟩] ++ evs₂))
          buffer len := by
    cases hinit
    exact ⟨_, _, _, rfl, List.mem_singleton_self 0, rfl, rfl, rfl, fun _ _ => ⟨_, _, rfl, ⟨rfl, rfl, fun _ => rfl, rfl⟩,
      ⟨rfl, rfl, rfl⟩, rfl, rfl, rfl, rfl, rfl⟩⟩
  obtain ⟨evs₂, s₂, hplay, ⟨hlock, hclock, hthreads, hcaught⟩, ⟨hreturned, hbuffer, hlen⟩, hevs⟩ :=
    hgive (lineBuffer line) (UInt32.ofNat line.length)
  have htouched : Run s₁ ([] ++ [⟨s₁, _, _, _⟩]) _ :=
    .concat .nil ⟨trivial, step_touch hheld hdesc hflags hwhole (lineBuffer line)⟩
  obtain ⟨hgiven, htaken, hlists⟩ := hevs
  obtain ⟨c₁, hread, htx⟩ := Channel.exists_readMessage hreturned requestBuffer
  rw [hbuffer, hlen] at hread
  refine ⟨c, _, s₂, hinit, (Trace.Run.of_play htake).append (htouched.append (Trace.Run.of_play hplay)), hlock, hclock, hthreads, hcaught,
    ⟨_, _, c₁, hread, ?_, htx⟩, ?_, htaken, hlists⟩
  · rw [take_received, message_lineBuffer hfits]
  · exact (congrArg (List.map message) hgiven).trans (congrArg ([·]) (message_lineBuffer hfits))

/-- A thread handles a request that the device has given, and the device takes the response. -/
theorem exists_run_answered (i : ι) {line : List UInt8} (hfits : line.length ≤ bufSize) {req : RegisterRequest}
    (hparse : parseRegisterRequest line = .ok req) :
    ∃ (c : Channel) (evs : Events ι) (s : Service ι), Channel.init (Link.deviceOf 16) 0x1000 0x3000 = .ok c ∧ Run (boot c) evs s ∧
      s.lock = some (.thread i) ∧ (∀ j, j ≠ i → s.threads j = .start) ∧ (given .rx (channelEvents evs)).map message = [line] ∧
      (taken .tx (channelEvents evs)).length = 1 ∧ accepted evs = [req] ∧ written evs = [responseBytes req 0] := by
  obtain ⟨c, evs₀, s₀, hinit, run₀, hlock, hclock, hthreads, hcaught, ⟨n, reqBuf, c₁, hread, hline, htx⟩, hgiven₀, htaken₀, haccepted₀,
    -, hwritten₀⟩ := exists_run_given ι hfits
  obtain ⟨evs₁, c₂, -, hsend, hsolo⟩ := exists_solo_handleOne hlock (hthreads i) hread (hline.symm ▸ hparse)
  rw [hclock] at hsend hsolo
  obtain ⟨bytes, c₃, htake⟩ := Channel.exists_take_of_sendMessage hsend (by rw [htx]; exact hcaught)
  obtain ⟨s₁, hs₁⟩ : ∃ s₁ : Service ι, s₁ = ⟨c₂, some (.thread i), 0 + 1, Function.update s₀.threads i .writing⟩ := ⟨_, rfl⟩
  rw [← hs₁] at hsolo
  have hstep : s₁.step (.device (.take .tx)) = some (.channel (.take .tx) (.took .tx bytes), s₁.setChannel c₃ s₁.lock) := by
    simp only [step, hs₁, htake]
    rfl
  have hboot : (boot c : Service ι).Inv := inv_boot (activityOf_init hinit)
  have hthread := Run.device_of_thread (Run.inv_channel hboot run₀).1 hsolo.run hsolo.input
  have hchannel : channelEvents (evs₀ ++ evs₁ ++ [⟨s₁, .device (.take .tx), .channel (.take .tx) (.took .tx bytes),
      s₁.setChannel c₃ s₁.lock⟩]) = channelEvents evs₀ ++ channelEvents evs₁ ++ [⟨s₁.channel, .take .tx, .took .tx bytes, c₃⟩] := by
    rw [channelEvents, Channel.filterMap_concat, List.filterMap_append]
    rfl
  refine ⟨c, _, _, hinit, Run.turn (run₀.append hsolo.run) hstep, ?_, ?_, ?_, ?_, ?_, ?_⟩
  · rw [setChannel_lock, hs₁]
  · intro j hj
    rw [setChannel_threads, hs₁]
    exact (Function.update_of_ne hj _ _).trans (hthreads j)
  · rw [hchannel, given, Channel.filterMap_concat, List.filterMap_append, ← given, ← given, (hthread .rx).1, List.append_nil]
    exact (congrArg _ (List.append_nil _)).trans hgiven₀
  · rw [hchannel, taken, Channel.filterMap_concat, List.filterMap_append, ← taken, ← taken, (hthread .tx).2, htaken₀]
    rfl
  · rw [accepted, Channel.filterMap_concat, List.filterMap_append, ← accepted, ← accepted, haccepted₀, hsolo.accepted]
    rfl
  · rw [written, Channel.filterMap_concat, List.filterMap_append, ← written, ← written, hwritten₀, hsolo.written]
    rfl

/-- Any number of threads call `handle_one` again and again, over a channel that `init` has set up with a device that offers at least
sixteen slots on both queues. In every interleaving with each other and with the device, what the threads accept are the requests among
the messages the device gave, in order; the `k`-th response that is made is made with the time `k`; each thread makes and hands over the
responses to the requests it has accepted in order, each once, and has handed over all of them when it calls `handle_one` again; and the
device takes what was handed over in order. -/
theorem service_threads_answer (d : MmioDevice) (rxMem txMem : UInt64) (c : Channel) (hinit : Channel.init d rxMem txMem = .ok c)
    (hrx : queueSize ≤ (d.numMax sentinelRxQueue).toNat) (htx : queueSize ≤ (d.numMax sentinelTxQueue).toNat) (evs : Events ι)
    (s : Service ι) (run : Run (boot c) evs s) :
    accepted evs = requests (((given .rx (channelEvents evs)).take (replies (channelEvents evs)).length).map message) ∧
    (∀ k req data, (stamps evs)[k]? = some (req, data) → data = responseBytes req (UInt64.ofNat k)) ∧
    (∀ i, (stamps (turnsOf i evs)).map Prod.fst <+: accepted (turnsOf i evs) ∧
      written (turnsOf i evs) <+: (stamps (turnsOf i evs)).map Prod.snd ∧
      (s.threads i = .start → accepted (turnsOf i evs) = (stamps (turnsOf i evs)).map Prod.fst ∧
        written (turnsOf i evs) = (stamps (turnsOf i evs)).map Prod.snd)) ∧
    taken .tx (channelEvents evs) <+: written evs := by
  obtain ⟨hboot, hs, hrxInv, htxInv⟩ := Run.exchange hinit hrx htx run
  refine ⟨accepted_eq_requests hboot run hrxInv, ?_, ?_, ?_⟩
  · intro k req data hk
    exact (Run.stamped hboot rfl run).response hk
  · intro i
    obtain ⟨hrequest, hresponse⟩ := Run.served hboot run i ⟨rfl, rfl⟩
    refine ⟨⟨_, hrequest.symm⟩, ⟨_, hresponse.symm⟩, ?_⟩
    intro hstart
    rw [hstart] at hrequest hresponse
    exact ⟨hrequest.trans (List.append_nil _), ((List.append_nil _).symm.trans hresponse.symm)⟩
  · rw [written_eq]
    exact htxInv.handed

/-- Of two threads the first accepts a registration, and waits until the device has taken the response; then the second finds the lock
taken. -/
theorem service_threads_answer_registration : ∃ (c : Channel) (evs : Events (Fin 2)) (s : Service (Fin 2)) (req : RegisterRequest),
    Channel.init (Link.deviceOf 16) 0x1000 0x3000 = .ok c ∧ Run (boot c) evs s ∧
      requests (((given .rx (channelEvents evs)).take (replies (channelEvents evs)).length).map message) = [req] ∧
      taken .tx (channelEvents evs) = [responseBytes req 0] := by
  obtain ⟨c, evs, s, hinit, run, hlock, hothers, -, htaken, haccepted, hwritten⟩ :=
    exists_run_answered (0 : Fin 2) (by decide +kernel) (parse_writeRequest_svc (by decide +kernel))
  have hspin : s.step (.thread 1) = some (.quiet, s) := by
    simp only [step, hothers 1 (by decide), hlock]
    rfl
  have run' := Run.turn run hspin
  have hchannel : channelEvents (evs ++ [⟨s, .thread 1, .quiet, s⟩]) = channelEvents evs := by
    rw [channelEvents, Channel.filterMap_concat]
    exact List.append_nil _
  obtain ⟨hread, -, -, hfound⟩ := service_threads_answer (Link.deviceOf 16) 0x1000 0x3000 c hinit (by decide) (by decide) _ s run'
  rw [accepted, Channel.filterMap_concat, ← accepted, haccepted] at hread
  rw [written, Channel.filterMap_concat, ← written, hwritten, hchannel] at hfound
  refine ⟨c, _, s, _, hinit, run', hread.symm, ?_⟩
  rw [hchannel]
  exact hfound.eq_of_length htaken

/-! ## One thread -/

/-- What is seen of a response or of a request is seen of a turn of a thread. -/
theorem Moves.seen_of_thread {s s' : Service ι} {turn : ServiceTurn ι} {seen : Seen} (h : Moves s turn seen s')
    (hturn : thread? turn = none) : accepted? seen = none ∧ stamped? seen = none ∧ written? seen = none := by
  cases h with
  | @device turn obs c ofDevice taken =>
    refine ⟨accepted?_passing (device_keeps_phase ofDevice taken).2 turn, rfl, ?_⟩
    cases turn with
    | call request => cases ofDevice
    | _ => rfl
  | initPass lock taken goes passing => exact ⟨accepted?_passing passing _, rfl, rfl⟩
  | initDone lock taken idle => exact ⟨rfl, rfl, rfl⟩
  | _ => cases hturn

/-- The turns of the only thread are all that is seen of requests and responses. -/
theorem Run.turnsOf {start s : Service Unit} {evs : Events Unit} (hstart : start.Inv) (run : Run start evs s) :
    accepted (turnsOf () evs) = accepted evs ∧ stamps (turnsOf () evs) = stamps evs ∧ written (turnsOf () evs) = written evs := by
  induction run with
  | nil => exact ⟨rfl, rfl, rfl⟩
  | @concat evs e run taken ih =>
    obtain ⟨haccepted, hstamps, hwritten⟩ := ih
    have hmoves := step_moves (Run.inv_channel hstart run).1 taken.step
    cases hturn : thread? e.input with
    | some i =>
      have hturns : Service.turnsOf () (evs ++ [e]) = Service.turnsOf () evs ++ [e] := by simp [Service.turnsOf, hturn]
      rw [hturns]
      simp only [accepted, stamps, written, List.filterMap_append] at haccepted hstamps hwritten ⊢
      rw [haccepted, hstamps, hwritten]
      exact ⟨rfl, rfl, rfl⟩
    | none =>
      obtain ⟨hreq, hstamp, hwrite⟩ := hmoves.seen_of_thread hturn
      have hturns : Service.turnsOf () (evs ++ [e]) = Service.turnsOf () evs := by simp [Service.turnsOf, hturn]
      rw [hturns]
      simp only [accepted, stamps, written] at haccepted hstamps hwritten ⊢
      rw [haccepted, hstamps, hwritten]
      simp [hreq, hstamp, hwrite]

end

/-! ## The service does not stop -/

/-- A message that has been given and not been collected. -/
def unread (c : Channel) : Nat := if c.rx.queue.hasReturned c.rx.mem then 1 else 0

/-- `read_message` has collected a message. -/
def isCollected : Phase → Bool
  | .copyOut _ _ _ | .submit _ (.read _ _) => true
  | _ => false

/-- An access of the driver collects a message, or leaves everything as it is in this respect. -/
theorem drive_unread {c c' : Channel} {obs : Obs} (hmoves : Channel.Moves c .driver obs c') :
    (∃ out, c.phase = .collect (.read out) ∧ c'.rx = { c.rx with queue := (c.rx.queue.collect c.rx.mem).2 }) ∨
      (unread c' = unread c ∧ (c'.phase = .idle ∨ isCollected c'.phase = isCollected c.phase)) := by
  cases hmoves with
  | spin w hphase waits => exact .inr ⟨rfl, .inr rfl⟩
  | collectRead out hphase => exact .inl ⟨out, hphase, rfl⟩
  | collectWrite hphase => exact .inr ⟨rfl, .inl rfl⟩
  | describe s hphase =>
    rw [hphase]
    cases s <;> exact .inr ⟨rfl, .inr rfl⟩
  | enqueue s hphase =>
    rw [hphase]
    cases s <;> exact .inr ⟨rfl, .inr rfl⟩
  | publish s hphase =>
    rw [hphase]
    cases s <;> exact .inr ⟨rfl, .inr rfl⟩
  | notifyInit hphase transport => exact .inr ⟨rfl, .inl rfl⟩
  | notifyRead n out hphase transport => exact .inr ⟨rfl, .inl rfl⟩
  | see w hphase returned =>
    rw [hphase]
    exact .inr ⟨rfl, .inr rfl⟩
  | copyOut out n i hphase more =>
    rw [hphase]
    exact .inr ⟨rfl, .inr rfl⟩
  | copiedOut out n i hphase done =>
    rw [hphase]
    exact .inr ⟨rfl, .inr rfl⟩
  | copyIn data i hphase more =>
    rw [hphase]
    exact .inr ⟨rfl, .inr rfl⟩
  | copiedIn data i hphase done =>
    rw [hphase]
    exact .inr ⟨rfl, .inr rfl⟩
  | notifyWrite data hphase transport =>
    rw [hphase]
    exact .inr ⟨rfl, .inr rfl⟩

/-- When a message is collected it was there, and there is no other. -/
theorem unread_collect {v : Channel.RxView} {p : Port} {out : List UInt8} (h : Channel.RxInv v p (.collect (.read out))) :
    p.queue.hasReturned p.mem = true ∧ (p.queue.collect p.mem).2.hasReturned p.mem = false := by
  obtain ⟨k, stage, h⟩ := h
  obtain ⟨len, rfl⟩ := h.phase.1
  refine ⟨h.port.hasReturned_iff.mpr ⟨len, rfl⟩, ?_⟩
  have hnext := h.port.collect.2.hasReturned_iff
  by_contra hreturned
  obtain ⟨len', hlen'⟩ := hnext.mp (by simpa using hreturned)
  cases hlen'

/-- How far a thread is from the next call of `handle_one`. -/
def handlingRank : Handling → Nat
  | .parsed _ => 5
  | .ready _ => 4
  | .writing => 3
  | .start => 2
  | .reading => 1

/-- How much the service has to do before it waits, and how much of it in the call that it is in. -/
def todo (s : Service Unit) : Nat ×ₗ Nat :=
  toLex (16 * unread s.channel + (if s.lock = some .init then 8 else 0) + (if isCollected s.channel.phase then 5 else 0) +
    handlingRank (s.threads ()), Channel.rank s.channel.phase)

/-- An access that goes on with a call. -/
theorem todo_lt_of_access {s : Service Unit} {c : Channel} {obs : Obs} {a : Activity} {v : Channel.RxView}
    (hrx : Channel.RxInv v s.channel.rx s.channel.phase) (hwaits : ¬s.channel.Waits) (hdrive : s.channel.drive = some (obs, c))
    (hgoes : activityOf c.phase = some a) : todo (s.setChannel c s.lock) < todo s := by
  have hmoves := Channel.drive_moves hdrive
  have hrank := Channel.rank_lt hmoves hwaits
  rw [todo, todo, Prod.Lex.toLex_lt_toLex]
  rcases drive_unread hmoves with ⟨out, hphase, hport⟩ | ⟨hunread, hidle | hcollected⟩
  · refine .inl ?_
    rw [hphase] at hrx
    obtain ⟨hbefore, hafter⟩ := unread_collect hrx
    have hone : unread s.channel = 1 := if_pos hbefore
    have hzero : unread c = 0 := by
      rw [unread, hport]
      exact if_neg (by simpa using hafter)
    have hcollected : isCollected s.channel.phase = false := by rw [hphase]; rfl
    simp only [setChannel_channel, setChannel_lock, setChannel_threads, hone, hzero, hcollected]
    split_ifs <;> omega
  · rw [hidle] at hgoes
    cases hgoes
  · refine .inr ⟨?_, hrank⟩
    simp only [setChannel_channel, setChannel_lock, setChannel_threads, hunread, hcollected]

/-- The last access of a call leaves the receive queue as it is. -/
theorem unread_of_idle {c c' : Channel} {obs : Obs} (hdrive : c.drive = some (obs, c')) (hidle : c'.phase = .idle) :
    unread c' = unread c := by
  cases Channel.drive_moves hdrive with
  | collectRead out hphase => cases hidle
  | describe s hphase => cases s <;> cases hidle
  | enqueue s hphase => cases s <;> cases hidle
  | publish s hphase => cases s <;> cases hidle
  | _ => rfl

/-- The turns of `init` and of the thread, but for those in which the thread finds the lock taken. -/
def Works (turn : ServiceTurn Unit) (seen : Seen) : Prop := (∀ t, turn ≠ .device t) ∧ seen ≠ .quiet

/-- With each of these turns the service has less to do, unless it waits for the device. -/
theorem Moves.todo_lt {s s' : Service Unit} {turn : ServiceTurn Unit} {seen : Seen} {v : Channel.RxView} (hs : s.Inv)
    (hrx : Channel.RxInv v s.channel.rx s.channel.phase) (hwaits : ¬s.channel.Waits) (hmoves : Moves s turn seen s')
    (hworks : Works turn seen) : todo s' < todo s := by
  cases hmoves with
  | spin i => exact absurd rfl hworks.2
  | device ofDevice taken => exact absurd rfl (hworks.1 _)
  | initPass lock taken goes passing => exact todo_lt_of_access hrx hwaits taken goes
  | pass i thread taken goes passing => exact todo_lt_of_access hrx hwaits taken goes
  | initDone lock taken idle =>
    rw [todo, todo, Prod.Lex.toLex_lt_toLex]
    refine .inl ?_
    simp only [setChannel_channel, setChannel_lock, setChannel_threads, unread_of_idle taken idle, idle, lock]
    simp [isCollected]
    omega
  | beginRead i thread lock =>
    rw [todo, todo, Prod.Lex.toLex_lt_toLex]
    refine .inl ?_
    simp [lock, thread, isCollected, hs.free lock, handlingRank, unread]
  | beginWrite i thread lock small =>
    rw [todo, todo, Prod.Lex.toLex_lt_toLex]
    refine .inl ?_
    simp [lock, thread, isCollected, hs.free lock, handlingRank, unread]
  | @readDone i n out c thread taken idle =>
    have hcollected : isCollected s.channel.phase = true := by
      cases Channel.drive_moves taken with
      | notifyRead n out hphase transport => rw [hphase]; rfl
    have hrank : handlingRank (.afterRead n out) ≤ 5 := by
      unfold Handling.afterRead
      split <;> simp [handlingRank]
    obtain ⟨hlock, -⟩ := hs.inside i .read (by rw [thread]; rfl)
    rw [todo, todo, Prod.Lex.toLex_lt_toLex]
    refine .inl ?_
    have hreading : handlingRank .reading = 1 := rfl
    simp only [setThread_channel, setThread_lock, setThread_threads, setChannel_channel, setChannel_lock, Function.update_self,
      unread_of_idle taken idle, idle, hcollected, hlock, thread, hreading]
    simp [isCollected]
    omega
  | writeDone i thread taken idle =>
    obtain ⟨hlock, -⟩ := hs.inside i .write (by rw [thread]; rfl)
    rw [todo, todo, Prod.Lex.toLex_lt_toLex]
    refine .inl ?_
    simp only [setThread_channel, setThread_lock, setThread_threads, setChannel_channel, setChannel_lock, Function.update_self,
      unread_of_idle taken idle, idle, hlock, thread]
    simp [isCollected, handlingRank]
  | stamp i thread fits =>
    rw [todo, todo, Prod.Lex.toLex_lt_toLex]
    refine .inl ?_
    simp [thread, handlingRank]

theorem works_init (turn : Turn) (obs : Obs) : Works .init (.channel turn obs) := by
  refine ⟨?_, ?_⟩
  · intro t h
    cases h
  · intro h
    cases h

/-- A turn of the thread counts as work if it is seen. -/
theorem works_thread {seen : Seen} (hseen : seen ≠ .quiet) : Works (.thread ()) seen := by
  refine ⟨?_, hseen⟩
  intro t h
  cases h

theorem channel_ne_quiet (turn : Turn) (obs : Obs) : Seen.channel turn obs ≠ .quiet := by
  intro h
  cases h

/-- The service has such a turn to take. -/
theorem exists_works {s : Service Unit} (hs : s.Inv) : ∃ turn seen s', Works turn seen ∧ s.step turn = some (seen, s') := by
  have hdrives : ∀ a, activityOf s.channel.phase = some a → ∃ obs c, s.channel.drive = some (obs, c) := by
    intro a ha
    refine Channel.exists_drive fun hidle => ?_
    rw [hidle] at ha
    cases ha
  by_cases hinit : s.lock = some .init
  · obtain ⟨obs, c, hdrive⟩ := hdrives _ (hs.init hinit)
    refine ⟨.init, .channel .driver obs, s.setChannel c (if c.phase = .idle then none else s.lock), works_init _ _, ?_⟩
    rw [step, if_pos hinit, hdrive]
    rfl
  -- out of a call, the lock is free
  have hfree : (s.threads ()).activity = none → ¬s.lock.isSome = true := by
    intro hout hlock
    obtain ⟨holder, hholder⟩ := Option.isSome_iff_exists.mp hlock
    cases holder with
    | init => exact hinit hholder
    | thread i =>
      obtain ⟨a, ha⟩ := hs.holder i hholder
      cases hout.symm.trans ha
  have haccess : ∀ a, (s.threads ()).activity = some a → ∃ obs s', s.access () = some (.channel .driver obs, s') := by
    intro a ha
    obtain ⟨obs, c, hdrive⟩ := hdrives a (hs.inside () a ha).2
    rw [access, hdrive]
    cases obs with
    | returned reply => cases reply <;> exact ⟨_, _, rfl⟩
    | _ => exact ⟨_, _, rfl⟩
  cases hthread : s.threads () with
  | start =>
    rw [hthread] at hfree
    have hstep : s.step (.thread ()) = some (s.enter () (.readMessage requestBuffer) .reading) := by
      simp only [step, hthread, if_neg (hfree rfl)]
    rw [enter_read] at hstep
    exact ⟨.thread (), .channel (.call (.readMessage requestBuffer)) .quiet, _, works_thread (channel_ne_quiet _ _), hstep⟩
  | reading =>
    obtain ⟨obs, s', hstep⟩ := haccess .read (by rw [hthread]; rfl)
    exact ⟨.thread (), .channel .driver obs, s', works_thread (channel_ne_quiet _ _), by simpa only [step, hthread] using hstep⟩
  | writing =>
    obtain ⟨obs, s', hstep⟩ := haccess .write (by rw [hthread]; rfl)
    exact ⟨.thread (), .channel .driver obs, s', works_thread (channel_ne_quiet _ _), by simpa only [step, hthread] using hstep⟩
  | parsed req =>
    obtain ⟨raw, hparse⟩ := hs.parsed () req hthread
    have hstep : s.step (.thread ()) = some (s.respond () req) := by simp only [step, hthread]
    rw [respond_eq s () hparse] at hstep
    have hstamped : Seen.stamped req s.clock (responseBytes req s.clock) ≠ .quiet := by
      intro h
      cases h
    exact ⟨.thread (), .stamped req s.clock (responseBytes req s.clock), _, works_thread hstamped, hstep⟩
  | ready data =>
    rw [hthread] at hfree
    have hsmall : ¬data.length > bufSize := Nat.not_lt.mpr (hs.ready () data hthread)
    have hstep : s.step (.thread ()) = some (s.enter () (.writeMessage data) .writing) := by
      simp only [step, hthread, if_neg (hfree rfl)]
    rw [enter_write s () hsmall] at hstep
    exact ⟨.thread (), .channel (.call (.writeMessage data)) .quiet, _, works_thread (channel_ne_quiet _ _), hstep⟩

/-- The service, left to itself, comes to wait for the device. -/
theorem exists_works_until_waits {start s : Service Unit} {evs : Events Unit} (hstart : start.Inv)
    (hchannel : Channel.RxInv (Channel.RxView.of []) start.channel.rx start.channel.phase ∧
      Channel.TxInv (Channel.TxView.of []) start.channel.tx start.channel.phase) (run : Run start evs s) :
    ∃ evs' s', Run s evs' s' ∧ (∀ e ∈ evs', Works e.input e.output) ∧ s'.channel.Waits := by
  induction hr : todo s using WellFoundedLT.induction generalizing s evs with
  | _ r ih =>
    by_cases hwaits : s.channel.Waits
    · exact ⟨[], s, .nil, by simp, hwaits⟩
    obtain ⟨hs, run'⟩ := Run.inv_channel hstart run
    obtain ⟨hrx, -⟩ := Channel.Run.inv run' hchannel
    obtain ⟨turn, seen, s₁, hworks, hstep⟩ := exists_works hs
    have hlt := (step_moves hs hstep).todo_lt hs hrx hwaits hworks
    have hfirst : Run s ([] ++ [⟨s, turn, seen, s₁⟩]) s₁ := .concat .nil ⟨trivial, hstep⟩
    obtain ⟨evs', s', hrest, hall, hend⟩ := ih _ (hr ▸ hlt) (run.append hfirst) rfl
    refine ⟨_, s', hfirst.append hrest, ?_, hend⟩
    intro e he
    rcases List.mem_cons.mp he with rfl | he
    · exact hworks
    · exact hall e he

/-! ## The order of the answers -/

/-- Messages that come later do not change the requests before. -/
theorem requests_mono {msgs msgs' : List (List UInt8)} (h : msgs <+: msgs') : requests msgs <+: requests msgs' := h.filterMap _

/-- In a call of `read_message` everything that was to be sent has been taken. -/
theorem taken_of_off {v : Channel.TxView} {p : Port} {phase : Phase} (h : Channel.TxInv v p phase) (hoff : Channel.OffTx phase) :
    v.taken = v.writes := by
  obtain ⟨k, stage, h⟩ := h
  obtain ⟨rfl, hwrites⟩ := (Channel.txPhase_of_off hoff).mp h.phase
  rw [h.handed]
  exact List.take_of_length_le (by rw [hwrites]; rfl)

/-- While `read_message` waits and the device has the buffer, everything that was given has been read. -/
theorem replies_of_await {v : Channel.RxView} {p : Port} {out : List UInt8} (h : Channel.RxInv v p (.await (.read out)))
    (hoffers : v.offers = v.given.length + 1) : v.replies.length = v.given.length := by
  obtain ⟨k, stage, h⟩ := h
  obtain ⟨-, hreplies, -, -⟩ := h.phase
  have hcounts := h.offers
  have hgiven := h.given
  have hpublished : stage.published ≤ 1 := by cases stage <;> simp [Stage.published]
  omega

/-- While the channel is in `read_message`, the thread is in `read_request`. -/
theorem reading_of_await {s : Service Unit} (hs : s.Inv) {out : List UInt8} (hphase : s.channel.phase = .await (.read out)) :
    s.threads () = .reading := by
  cases hlock : s.lock with
  | none =>
    rw [hs.free hlock] at hphase
    cases hphase
  | some holder =>
    cases holder with
    | init =>
      have hinit := hs.init hlock
      rw [hphase] at hinit
      cases hinit
    | thread i =>
      obtain ⟨a, ha⟩ := hs.holder i hlock
      obtain ⟨-, hactivity⟩ := hs.inside i a ha
      rw [hphase] at hactivity
      cases hactivity
      cases hthread : s.threads () with
      | reading => rfl
      | _ =>
        rw [hthread] at ha
        cases ha

/-- One thread calls `handle_one` again and again. Whatever the device does, it takes the responses to the requests among the messages it
gave, one for each, in order, the `k`-th made with the time `k`. It has taken all of them while the service waits to be given another
message. And left to itself the service comes to wait for the device: for a message, or for a response to be taken. -/
theorem service_answers_in_order (d : MmioDevice) (rxMem txMem : UInt64) (c : Channel) (hinit : Channel.init d rxMem txMem = .ok c)
    (hrx : queueSize ≤ (d.numMax sentinelRxQueue).toNat) (htx : queueSize ≤ (d.numMax sentinelTxQueue).toNat) (evs : Events Unit)
    (s : Service Unit) (run : Run (boot c) evs s) :
    taken .tx (channelEvents evs) <+: answer (requests ((given .rx (channelEvents evs)).map message)) ∧
    (∀ out, s.channel.phase = .await (.read out) → offers .rx (channelEvents evs) = (given .rx (channelEvents evs)).length + 1 →
      taken .tx (channelEvents evs) = answer (requests ((given .rx (channelEvents evs)).map message))) ∧
    ∃ evs' s', Run s evs' s' ∧ (∀ e ∈ evs', Works e.input e.output) ∧ ∃ w, s'.channel.phase = .await w ∧
      offers w.side (channelEvents (evs ++ evs')) = (given w.side (channelEvents (evs ++ evs'))).length + 1 := by
  obtain ⟨hboot, hs, hrxInv, htxInv⟩ := Run.exchange hinit hrx htx run
  obtain ⟨hrequest, hresponse⟩ := Run.served hboot run () ⟨rfl, rfl⟩
  obtain ⟨haccepted, hstamps, hwritten⟩ := Run.turnsOf hboot run
  rw [haccepted, hstamps] at hrequest
  rw [hstamps, hwritten, written_eq] at hresponse
  obtain ⟨-, hdata⟩ := Run.stamped hboot rfl run
  have hread := accepted_eq_requests hboot run hrxInv
  refine ⟨?_, ?_, ?_⟩
  · have hmade : writes (channelEvents evs) <+: answer (accepted evs) := by
      refine .trans ⟨_, hresponse.symm⟩ ?_
      rw [hdata]
      exact answer_mono ⟨_, hrequest.symm⟩
    refine htxInv.handed.trans (hmade.trans (answer_mono ?_))
    rw [hread]
    exact requests_mono ((List.take_prefix _ _).map _)
  · intro out hphase hoffers
    have hthread := reading_of_await hs hphase
    rw [hthread] at hrequest hresponse
    rw [hphase] at hrxInv htxInv
    have hreplies : (replies (channelEvents evs)).length = (given .rx (channelEvents evs)).length := replies_of_await hrxInv hoffers
    have htaken : taken .tx (channelEvents evs) = writes (channelEvents evs) := taken_of_off htxInv trivial
    rw [hreplies, List.take_length] at hread
    calc taken .tx (channelEvents evs) = (stamps evs).map Prod.snd := by rw [htaken, hresponse]; exact (List.append_nil _).symm
      _ = answer (accepted evs) := by rw [hdata, hrequest]; exact congrArg answer (List.append_nil _).symm
      _ = _ := by rw [hread]
  · have hstart := Channel.init_inv hinit hrx htx
    obtain ⟨evs', s', run', hworks, w, hphase, hwaits⟩ := exists_works_until_waits hboot hstart run
    obtain ⟨-, hchannel⟩ := Run.inv_channel hboot (run.append run')
    obtain ⟨hrxEnd, htxEnd⟩ := Channel.Run.inv hchannel hstart
    exact ⟨evs', s', run', hworks, w, hphase, Channel.offers_of_waits hphase hwaits hrxEnd htxEnd⟩

/-- A registration is given, and its response is taken. -/
theorem service_answers_in_order_registration : ∃ (c : Channel) (evs : Events Unit) (s : Service Unit) (req : RegisterRequest),
    Channel.init (Link.deviceOf 16) 0x1000 0x3000 = .ok c ∧ Run (boot c) evs s ∧
      (given .rx (channelEvents evs)).map message = [(writeRequest "svc".toList).asBytes] ∧
      requests [(writeRequest "svc".toList).asBytes] = [req] ∧ taken .tx (channelEvents evs) = answer [req] ∧
      ∃ evs' s', Run s evs' s' ∧ (∀ e ∈ evs', Works e.input e.output) ∧ ∃ w, s'.channel.phase = .await w ∧
        offers w.side (channelEvents (evs ++ evs')) = (given w.side (channelEvents (evs ++ evs'))).length + 1 := by
  have hparse := parse_writeRequest_svc (by decide +kernel)
  obtain ⟨c, evs, s, hinit, run, -, -, hgiven, htaken, -, -⟩ := exists_run_answered () (by decide +kernel) hparse
  have hrequests : requests [(writeRequest "svc".toList).asBytes] = [registerRequest "svc".toList .write (by decide +kernel)] := by
    rw [requests, List.filterMap_cons, hparse]
    rfl
  obtain ⟨hfound, -, hwaits⟩ :=
    service_answers_in_order (Link.deviceOf 16) 0x1000 0x3000 c hinit (by decide) (by decide) evs s run
  rw [hgiven, hrequests] at hfound
  exact ⟨c, evs, s, _, hinit, run, hgiven, hrequests, hfound.eq_of_length htaken, hwaits⟩

end Service

end Ipc

end Sentinel

end GolemKernel
