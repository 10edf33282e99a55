import GolemKernel.Lib.Bytes
import GolemKernel.Text

/-!
# The audit trail

`src/sentinel/audit.rs`: the embedded SHA-256 and the append-only chain of entries, each of which carries the hash of the one
before.
-/

namespace GolemKernel

namespace Sentinel

open Text

/-! ## SHA-256 -/

def K : List UInt32 := [
  0x428a2f98, 0x71374491, 0xb5c0fbcf, 0xe9b5dba5,
  0x3956c25b, 0x59f111f1, 0x923f82a4, 0xab1c5ed5,
  0xd807aa98, 0x12835b01, 0x243185be, 0x550c7dc3,
  0x72be5d74, 0x80deb1fe, 0x9bdc06a7, 0xc19bf174,
  0xe49b69c1, 0xefbe4786, 0x0fc19dc6, 0x240ca1cc,
  0x2de92c6f, 0x4a7484aa, 0x5cb0a9dc, 0x76f988da,
  0x983e5152, 0xa831c66d, 0xb00327c8, 0xbf597fc7,
  0xc6e00bf3, 0xd5a79147, 0x06ca6351, 0x14292967,
  0x27b70a85, 0x2e1b2138, 0x4d2c6dfc, 0x53380d13,
  0x650a7354, 0x766a0abb, 0x81c2c92e, 0x92722c85,
  0xa2bfe8a1, 0xa81a664b, 0xc24b8b70, 0xc76c51a3,
  0xd192e819, 0xd6990624, 0xf40e3585, 0x106aa070,
  0x19a4c116, 0x1e376c08, 0x2748774c, 0x34b0bcb5,
  0x391c0cb3, 0x4ed8aa4a, 0x5b9cca4f, 0x682e6ff3,
  0x748f82ee, 0x78a5636f, 0x84c87814, 0x8cc70208,
  0x90befffa, 0xa4506ceb, 0xbef9a3f7, 0xc67178f2]

/-- The eight words of the hash, and of the working variables. -/
structure Registers where
  a : UInt32
  b : UInt32
  c : UInt32
  d : UInt32
  e : UInt32
  f : UInt32
  g : UInt32
  h : UInt32
  deriving DecidableEq, Repr

/-- `H_INIT`. -/
def hInit : Registers :=
  ⟨0x6a09e667, 0xbb67ae85, 0x3c6ef372, 0xa54ff53a, 0x510e527f, 0x9b05688c, 0x1f83d9ab, 0x5be0cd19⟩

/-- `u32::rotate_right`. -/
def rotateRight (x : UInt32) (n : Nat) : UInt32 := ⟨x.toBitVec.rotateRight n⟩

def ch (x y z : UInt32) : UInt32 := (x &&& y) ^^^ (~~~x &&& z)

def maj (x y z : UInt32) : UInt32 := (x &&& y) ^^^ (x &&& z) ^^^ (y &&& z)

def bigSigma0 (x : UInt32) : UInt32 := rotateRight x 2 ^^^ rotateRight x 13 ^^^ rotateRight x 22

def bigSigma1 (x : UInt32) : UInt32 := rotateRight x 6 ^^^ rotateRight x 11 ^^^ rotateRight x 25

def smallSigma0 (x : UInt32) : UInt32 := rotateRight x 7 ^^^ rotateRight x 18 ^^^ (x >>> 3)

def smallSigma1 (x : UInt32) : UInt32 := rotateRight x 17 ^^^ rotateRight x 19 ^^^ (x >>> 10)

/-- The array `w` of a block: its 16 words, and the 48 that the second loop sets. -/
def schedule (block : List UInt8) : Array UInt32 :=
  let w := Array.ofFn fun i : Fin 64 => if i.val < 16 then UInt32.ofNat (Bytes.ofBe ((block.drop (i * 4)).take 4)) else 0
  (List.range' 16 48).foldl (fun w i => w.setIfInBounds i
    (smallSigma1 (w.getD (i - 2) 0) + w.getD (i - 7) 0 + smallSigma0 (w.getD (i - 15) 0) + w.getD (i - 16) 0)) w

/-- One turn of the loop over the working variables. -/
def turn (w : Array UInt32) (r : Registers) (i : Nat) : Registers :=
  let t1 := r.h + bigSigma1 r.e + ch r.e r.f r.g + K.getD i 0 + w.getD i 0
  let t2 := bigSigma0 r.a + maj r.a r.b r.c
  ⟨t1 + t2, r.a, r.b, r.c, r.d + t1, r.e, r.f, r.g⟩

/-- One block. -/
def compress (h : Registers) (block : List UInt8) : Registers :=
  let r := (List.range 64).foldl (turn (schedule block)) h
  ⟨h.a + r.a, h.b + r.b, h.c + r.c, h.d + r.d, h.e + r.e, h.f + r.f, h.g + r.g, h.h + r.h⟩

/-- The loop over `chunks_exact(64)`. -/
def compressBlocks (h : Registers) (msg : List UInt8) : Registers :=
  if 64 ≤ msg.length then compressBlocks (compress h (msg.take 64)) (msg.drop 64) else h
termination_by msg.length
decreasing_by
  rw [List.length_drop]
  omega

/-- The loop that pushes zeros until eight bytes are missing to a whole number of blocks. -/
def pushZeros (msg : List UInt8) : List UInt8 :=
  if msg.length % 64 = 56 then msg else pushZeros (msg ++ [0])
termination_by (120 - msg.length % 64) % 64
decreasing_by
  rw [List.length_append, List.length_singleton]
  omega

/-- `sha256_hex`. -/
def sha256Hex (data : List UInt8) : Text :=
  let msg := pushZeros (data ++ [0x80]) ++ Bytes.be 8 (data.length * 8)
  let h := compressBlocks hInit msg
  [h.a, h.b, h.c, h.d, h.e, h.f, h.g, h.h].flatMap fun v => hexPadded 8 v.toNat

/-! ## The trail -/

structure AuditEntry where
  sequence : UInt64
  timestamp : UInt64
  actor : Text
  action : Text
  target : Text
  hash : Text
  prevHash : Text
  deriving DecidableEq, Repr

structure AuditTrail where
  entries : List AuditEntry
  lastHash : Text
  sequence : UInt64
  deriving DecidableEq, Repr

namespace AuditTrail

def new : AuditTrail := ⟨[], [], 0⟩

/-- `record`: the hash of the new entry, and the trail with it. -/
def record (t : AuditTrail) (timestamp : UInt64) (actor action target : Text) : Text × AuditTrail :=
  let seq := t.sequence + 1
  let prev := if t.lastHash.isEmpty then List.replicate 64 '0' else t.lastHash
  let payload := decimal seq.toNat ++ "|" ++ decimal timestamp.toNat ++ "|" ++ actor ++ "|" ++ action ++ "|" ++ target ++ "|" ++
    prev
  let hash := sha256Hex payload.asBytes
  let entry := { sequence := seq, timestamp, actor, action, target, hash, prevHash := prev : AuditEntry }
  (hash, { entries := t.entries ++ [entry], lastHash := hash, sequence := seq })

end AuditTrail

/-- The text that `verify` hashes for an entry. -/
def AuditEntry.payload (e : AuditEntry) : Text :=
  decimal e.sequence.toNat ++ "|" ++ decimal e.timestamp.toNat ++ "|" ++ e.actor ++ "|" ++ e.action ++ "|" ++ e.target ++ "|" ++
    e.prevHash

namespace AuditTrail

/-- The loop of `verify` over the entries that are left: the error it returns with, if it does. -/
def verifyFrom (expectedPrev : Text) : List AuditEntry → Except Text Unit
  | [] => .ok ()
  | entry :: entries =>
    if entry.prevHash ≠ expectedPrev then
      .error ("chain broken at sequence " ++ decimal entry.sequence.toNat ++ ": expected prev_hash " ++ expectedPrev ++ ", got " ++
        entry.prevHash)
    else
      let computed := sha256Hex entry.payload.asBytes
      if computed ≠ entry.hash then
        .error ("hash mismatch at sequence " ++ decimal entry.sequence.toNat ++ ": computed " ++ computed ++ ", stored " ++
          entry.hash)
      else verifyFrom entry.hash entries

/-- `verify`. -/
def verify (t : AuditTrail) : Except Text Nat := do
  verifyFrom (List.replicate 64 '0') t.entries
  return t.entries.length

/-- `snapshot`. -/
def snapshot (t : AuditTrail) : List AuditEntry := t.entries

end AuditTrail

end Sentinel

end GolemKernel
