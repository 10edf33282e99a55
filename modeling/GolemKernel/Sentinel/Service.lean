import GolemKernel.Sentinel.Ipc

/-!
# The Sentinel service

Threads that call `handle_one` of `src/sentinel/ipc.rs` again and again, over the channel that `init` has set up. `read_request` and
`write_response_bytes` each hold the channel lock for their whole body; between the two a thread parses the request, takes the time and
serializes the response without it. The threads, `init` and the device take turns in any order. A thread that finds the lock taken tries
again.
-/

namespace GolemKernel

namespace Sentinel

namespace Ipc

/-- Where a thread is in `handle_one`. -/
inductive Handling where
  | start
  | reading
  | parsed (req : RegisterRequest)
  | ready (data : List UInt8)
  | writing

/-- Who has the channel lock. -/
inductive Holder (ι : Type) where
  | init
  | thread (i : ι)
  deriving DecidableEq

structure Service (ι : Type) where
  channel : Channel
  lock : Option (Holder ι)
  clock : UInt64
  threads : ι → Handling

/-- Whose turn it is. -/
inductive ServiceTurn (ι : Type) where
  | init
  | thread (i : ι)
  | device (turn : Turn)

/-- What can be seen of a turn: something of the channel, or a response with the time that was taken for it. -/
inductive Seen where
  | quiet
  | channel (turn : Turn) (obs : Obs)
  | stamped (req : RegisterRequest) (clock : UInt64) (data : List UInt8)

/-- What `handle_one` does with what `read_request` returned. -/
def Handling.afterRead (n : Nat) (reqBuf : List UInt8) : Handling :=
  match parseRegisterRequest (reqBuf.take n) with
  | .error _ => start
  | .ok req => parsed req

/-- `req_buf` before the call. -/
def requestBuffer : List UInt8 := List.replicate maxMessage 0

namespace Service

variable {ι : Type}

/-- `init` is about to post the first receive buffer. -/
def boot (c : Channel) : Service ι where
  channel := c
  lock := some .init
  clock := 0
  threads _ := .start

/-- The channel, and who has it. -/
@[simps]
def setChannel (s : Service ι) (c : Channel) (lock : Option (Holder ι)) : Service ι where
  channel := c
  lock
  clock := s.clock
  threads := s.threads

section

variable [DecidableEq ι]

@[simps]
def setThread (s : Service ι) (i : ι) (handling : Handling) : Service ι where
  channel := s.channel
  lock := s.lock
  clock := s.clock
  threads := Function.update s.threads i handling

/-- A thread takes the lock and begins a call of the channel. A call that returns at once gives the lock back. -/
def enter (s : Service ι) (i : ι) (request : Request) (handling : Handling) : Seen × Service ι :=
  match s.channel.begin request with
  | (.returned reply, c) => (.channel (.call request) (.returned reply), (s.setChannel c none).setThread i .start)
  | (obs, c) => (.channel (.call request) obs, (s.setChannel c (some (.thread i))).setThread i handling)

/-- The next access of a thread that is in a call. -/
def access (s : Service ι) (i : ι) : Option (Seen × Service ι) :=
  s.channel.drive.map fun (obs, c) =>
    match obs with
    | .returned (.readMessage n out) => (.channel .driver obs, (s.setChannel c none).setThread i (.afterRead n out))
    | .returned (.writeMessage _) => (.channel .driver obs, (s.setChannel c none).setThread i .start)
    | _ => (.channel .driver obs, s.setChannel c s.lock)

/-- `build_response` and `serialize_response`. -/
def respond (s : Service ι) (i : ι) (req : RegisterRequest) : Seen × Service ι :=
  let (resp, clock) := buildResponse req s.clock
  match serializeResponse resp (Vector.replicate maxMessage 0) with
  | (.error _, _) => (.quiet, { s.setThread i .start with clock })
  | (.ok m, respBuf) =>
    let data := respBuf.toList.take m
    (.stamped req s.clock data, { s.setThread i (.ready data) with clock })

/-- One turn. -/
def step (s : Service ι) : ServiceTurn ι → Option (Seen × Service ι)
  | .init =>
    if s.lock = some .init then
      s.channel.drive.map fun (obs, c) => (.channel .driver obs, s.setChannel c (if c.phase = .idle then none else s.lock))
    else none
  | .device (.call _) | .device .driver => none
  | .device turn => (s.channel.step turn).map fun (obs, c) => (.channel turn obs, s.setChannel c s.lock)
  | .thread i =>
    match s.threads i with
    | .start => some (if s.lock.isSome then (.quiet, s) else s.enter i (.readMessage requestBuffer) .reading)
    | .reading | .writing => s.access i
    | .parsed req => some (s.respond i req)
    | .ready data => some (if s.lock.isSome then (.quiet, s) else s.enter i (.writeMessage data) .writing)

/-- The runs of the service: any turns in any order. -/
abbrev Run (start : Service ι) : List (Trace.Event (Service ι) (ServiceTurn ι) Seen) → Service ι → Prop :=
  Trace.Run step (fun _ _ => True) start

end

end Service

end Ipc

end Sentinel

end GolemKernel
