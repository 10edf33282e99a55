import GolemKernel.Lib.Bytes
import GolemKernel.Lib.F32
import GolemKernel.Text

/-!
# The terminal of the Safe Mode kernel

`src/safemode/mod.rs`: the working configuration, the block that a commit publishes it to, and the commands. The block is the
static `SENTINEL_MIGRATION_BLOCK` of the image, in memory at an address that the link and the bootloader give it; it is a
parameter. What a command prints is the bytes that reach the serial port.
-/

namespace GolemKernel

namespace SafeMode

namespace Terminal

open Text

/-- A byte string literal. -/
def ascii (s : String) : List UInt8 := s.toList.map fun c => UInt8.ofNat c.toNat

/-! ## Console output -/

/-- `print`: a line feed is preceded by a carriage return. -/
def print (s : Text) : List UInt8 := (asBytes s).flatMap fun b => if b = 10 then [13, b] else [b]

/-- `print_u32`. -/
def printU32 (value : UInt32) : List UInt8 := asBytes (decimal value.toNat)

/-- `print_hex64`. -/
def printHex64 (value : Nat) : List UInt8 := asBytes ("0x" ++ hexPadded 16 value)

/-- `print_f32`. -/
def printF32 (value : F32) : List UInt8 :=
  let negative := value.lt .zero
  let v := if negative then value.neg else value
  let scaled := ((v.mul (.ofNat 1000)).add ⟨0x3F000000⟩).toU32
  let int := scaled / 1000
  let frac := scaled % 1000
  let digit (n : UInt32) : UInt8 := 48 + n.toUInt8
  (if negative then ascii "-" else []) ++ printU32 int ++ ascii "." ++ [digit (frac / 100), digit (frac / 10 % 10), digit (frac % 10)]

/-! ## The configuration -/

structure SentinelConfig where
  repetition : F32
  selfReferential : F32
  tokenVelocity : F32
  toolRetry : F32
  soft : F32
  medium : F32
  hard : F32
  window : UInt32
  deriving DecidableEq, Repr

namespace SentinelConfig

/-- `SentinelConfig::DEFAULT`: 0.6, 0.5, 0.5, 0.4, the tiers 0.4, 0.7, 0.9, and a window of 16. -/
def default : SentinelConfig where
  repetition := ⟨0x3F19999A⟩
  selfReferential := ⟨0x3F000000⟩
  tokenVelocity := ⟨0x3F000000⟩
  toolRetry := ⟨0x3ECCCCCD⟩
  soft := ⟨0x3ECCCCCD⟩
  medium := ⟨0x3F333333⟩
  hard := ⟨0x3F666666⟩
  window := 16

/-- The bytes of the fields, in the declared order. -/
def toBytes (c : SentinelConfig) : List UInt8 :=
  Bytes.u32 c.repetition.bits ++ (Bytes.u32 c.selfReferential.bits ++ (Bytes.u32 c.tokenVelocity.bits ++
    (Bytes.u32 c.toolRetry.bits ++ (Bytes.u32 c.soft.bits ++ (Bytes.u32 c.medium.bits ++ (Bytes.u32 c.hard.bits ++
    Bytes.u32 c.window))))))

/-- `checksum`: the sum of the bytes of every field. -/
def checksum (c : SentinelConfig) : UInt32 := c.toBytes.foldl (fun sum b => sum + b.toUInt32) 0

end SentinelConfig

/-! ## The block -/

/-- `MIGRATION_MAGIC` of the block. -/
def migrationMagic : UInt64 := UInt64.ofNat (Bytes.ofLe (ascii "GLMSAFE0"))

/-- `MIGRATION_VERSION` of the block. -/
def migrationVersion : UInt32 := 1

structure MigrationBlock where
  magic : UInt64
  version : UInt32
  sequence : UInt32
  config : SentinelConfig
  checksum : UInt32
  committed : UInt32
  deriving DecidableEq, Repr

namespace MigrationBlock

/-- `MigrationBlock::EMPTY`, with which the image comes. -/
def empty : MigrationBlock := ⟨0, migrationVersion, 0, .default, 0, 0⟩

/-- The bytes of the record: its fields in the declared order, without padding. -/
def toBytes (b : MigrationBlock) : List UInt8 :=
  Bytes.u64 b.magic ++ (Bytes.u32 b.version ++ (Bytes.u32 b.sequence ++ (Bytes.u32 b.config.repetition.bits ++
    (Bytes.u32 b.config.selfReferential.bits ++ (Bytes.u32 b.config.tokenVelocity.bits ++ (Bytes.u32 b.config.toolRetry.bits ++
    (Bytes.u32 b.config.soft.bits ++ (Bytes.u32 b.config.medium.bits ++ (Bytes.u32 b.config.hard.bits ++
    (Bytes.u32 b.config.window ++ (Bytes.u32 b.checksum ++ (Bytes.u32 b.committed ++ []))))))))))))

def reader : Bytes.Reader MigrationBlock := do
  let magic ← Bytes.getU64
  let version ← Bytes.getU32
  let sequence ← Bytes.getU32
  let repetition ← Bytes.getU32
  let selfReferential ← Bytes.getU32
  let tokenVelocity ← Bytes.getU32
  let toolRetry ← Bytes.getU32
  let soft ← Bytes.getU32
  let medium ← Bytes.getU32
  let hard ← Bytes.getU32
  let window ← Bytes.getU32
  let checksum ← Bytes.getU32
  let committed ← Bytes.getU32
  return { magic, version, sequence, checksum, committed,
           config := { repetition := ⟨repetition⟩, selfReferential := ⟨selfReferential⟩, tokenVelocity := ⟨tokenVelocity⟩,
                       toolRetry := ⟨toolRetry⟩, soft := ⟨soft⟩, medium := ⟨medium⟩, hard := ⟨hard⟩, window } }

end MigrationBlock

/-- The block in memory. -/
def readBlock (blockAddr : Nat) (mem : Bytes.Memory) : MigrationBlock := (MigrationBlock.reader.run (mem.read blockAddr 56)).1

/-- `commit`: the sequence number of the new block, and memory with it. -/
def commit (blockAddr : Nat) (config : SentinelConfig) (mem : Bytes.Memory) : UInt32 × Bytes.Memory :=
  let prev := readBlock blockAddr mem
  let nextSeq := if prev.magic = migrationMagic then prev.sequence + 1 else 1
  let block : MigrationBlock :=
    { magic := migrationMagic, version := migrationVersion, sequence := nextSeq, config, checksum := config.checksum, committed := 1 }
  (nextSeq, mem.write blockAddr block.toBytes)

/-! ## Byte strings -/

/-- `split_first_token`. -/
def splitFirstToken (input : List UInt8) : List UInt8 × List UInt8 :=
  let input := input.dropWhile (· == 32)
  (input.takeWhile (· != 32), (input.dropWhile (· != 32)).dropWhile (· == 32))

/-- `u8::is_ascii_digit`. -/
def isAsciiDigit (b : UInt8) : Bool := 48 ≤ b && b ≤ 57

/-- The result of a checked operation on `u32`. -/
def checkedU32 (n : Nat) : Option UInt32 := if n < 2 ^ 32 then some (UInt32.ofNat n) else none

/-- One turn of the loop of `parse_u32`. -/
def pushU32 (value : UInt32) (b : UInt8) : Option UInt32 := do
  if !isAsciiDigit b then none
  let value ← checkedU32 (value.toNat * 10)
  checkedU32 (value.toNat + (b - 48).toNat)

/-- `parse_u32`. -/
def parseU32 (bytes : List UInt8) : Option UInt32 := if bytes.isEmpty then none else bytes.foldlM pushU32 0

/-- One more decimal digit at the end of a number. -/
def pushDigit (value : F32) (b : UInt8) : F32 := (value.mul (.ofNat 10)).add (.ofNat (b - 48).toNat)

/-- The loop over the digits before the point: the number, whether there was a digit, and the rest. -/
def intLoop (value : F32) (sawDigit : Bool) : List UInt8 → F32 × Bool × List UInt8
  | [] => (value, sawDigit, [])
  | b :: bs => if isAsciiDigit b then intLoop (pushDigit value b) true bs else (value, sawDigit, b :: bs)

/-- The loop over the digits after the point: the number, its scale, whether there was a digit, and the rest. -/
def fracLoop (frac scale : F32) (sawDigit : Bool) : List UInt8 → F32 × F32 × Bool × List UInt8
  | [] => (frac, scale, sawDigit, [])
  | b :: bs =>
    if isAsciiDigit b then fracLoop (pushDigit frac b) (scale.mul (.ofNat 10)) true bs else (frac, scale, sawDigit, b :: bs)

/-- `parse_f32`. -/
def parseF32 (bytes : List UInt8) : Option F32 :=
  if bytes.isEmpty then none
  else
    let negative := bytes.head? == some 45
    let unsigned := if bytes.head? == some 45 || bytes.head? == some 43 then bytes.tail else bytes
    let (intPart, sawDigit, rest) := intLoop .zero false unsigned
    let (frac, scale, sawDigit, rest) :=
      if rest.head? == some 46 then fracLoop .zero .one sawDigit rest.tail else (.zero, .one, sawDigit, rest)
    if !rest.isEmpty || !sawDigit then none
    else
      let value := intPart.add (frac.div scale)
      some (if negative then value.neg else value)

example : parseF32 (ascii "0.65") = some ⟨0x3F266666⟩ := by decide +kernel

/-! ## Commands -/

/-- The working copy, and memory. -/
structure State where
  config : SentinelConfig
  mem : Bytes.Memory

/-- `cmd_help`. -/
def cmdHelp : List UInt8 :=
  print ("commands:\n" ++
    "  help                 show this help\n" ++
    "  show                 show the current working configuration\n" ++
    "  set <field> <value>  set a threshold (see fields below)\n" ++
    "  reset                restore architecture-default thresholds\n" ++
    "  commit               write the working config to the\n" ++
    "                       migration block for the standard OS\n" ++
    "\n" ++
    "fields (thresholds 0.000..=1.000, window a positive integer):\n" ++
    "  repetition        RepetitionScore signal threshold\n" ++
    "  self_referential  SelfReferentialLoop signal threshold\n" ++
    "  token_velocity    TokenVelocityStall signal threshold\n" ++
    "  tool_retry        ToolRetryAnomaly signal threshold\n" ++
    "  soft              Soft response-tier threshold\n" ++
    "  medium            Medium response-tier threshold\n" ++
    "  hard              Hard response-tier threshold\n" ++
    "  window            sliding output window width (observations)\n")

/-- `cmd_show`. -/
def cmdShow (config : SentinelConfig) : List UInt8 :=
  print "Sentinel configuration (working copy):\n" ++ print "  signals:\n" ++
    print "    repetition        = " ++ printF32 config.repetition ++
    print "\n    self_referential  = " ++ printF32 config.selfReferential ++
    print "\n    token_velocity    = " ++ printF32 config.tokenVelocity ++
    print "\n    tool_retry        = " ++ printF32 config.toolRetry ++
    print "\n  tiers:\n" ++
    print "    soft              = " ++ printF32 config.soft ++
    print "\n    medium            = " ++ printF32 config.medium ++
    print "\n    hard              = " ++ printF32 config.hard ++
    print "\n  window              = " ++ printU32 config.window ++ print "\n"

/-- The field that `set` stores to, for the fields other than `window`. -/
def fieldStore (field : List UInt8) : Option (F32 → SentinelConfig → SentinelConfig) :=
  if field = ascii "repetition" then some fun v c => { c with repetition := v }
  else if field = ascii "self_referential" then some fun v c => { c with selfReferential := v }
  else if field = ascii "token_velocity" then some fun v c => { c with tokenVelocity := v }
  else if field = ascii "tool_retry" then some fun v c => { c with toolRetry := v }
  else if field = ascii "soft" then some fun v c => { c with soft := v }
  else if field = ascii "medium" then some fun v c => { c with medium := v }
  else if field = ascii "hard" then some fun v c => { c with hard := v }
  else none

/-- `cmd_set`: what is printed, and the working copy. -/
def cmdSet (rest : List UInt8) (config : SentinelConfig) : List UInt8 × SentinelConfig :=
  let (field, valueTok) := splitFirstToken rest
  if field.isEmpty || valueTok.isEmpty then (print "usage: set <field> <value>\n", config)
  else if field = ascii "window" then
    match parseU32 valueTok with
    | some v =>
      if 0 < v then (print "set " ++ field ++ print " = " ++ printU32 v ++ print "\n", { config with window := v })
      else (print "error: window must be a positive integer\n", config)
    | none => (print "error: window must be a positive integer\n", config)
  else
    match parseF32 valueTok with
    | none => (print "error: value must be a decimal number, e.g. 0.65\n", config)
    | some value =>
      if !(F32.zero.le value && value.le .one) then (print "error: threshold must be in 0.000..=1.000\n", config)
      else
        match fieldStore field with
        | none => (print "error: unknown field '" ++ field ++ print "'  (type 'help')\n", config)
        | some store =>
          let config := store value config
          let warning := if config.soft.le config.medium && config.medium.le config.hard then []
            else print "  warning: tiers are not ordered soft <= medium <= hard\n"
          (print "set " ++ field ++ print " = " ++ printF32 value ++ print "\n" ++ warning, config)

/-- `cmd_commit`: what is printed, and memory. -/
def cmdCommit (blockAddr : Nat) (config : SentinelConfig) (mem : Bytes.Memory) : List UInt8 × Bytes.Memory :=
  let (seq, mem) := commit blockAddr config mem
  (print "committed Sentinel config to migration block\n" ++ print "  symbol   : SENTINEL_MIGRATION_BLOCK\n" ++
    print "  address  : " ++ printHex64 blockAddr ++ print "\n  sequence : " ++ printU32 seq ++
    print "\n  checksum : " ++ printU32 config.checksum ++ print "\n" ++
    print "The standard OS will detect and migrate this on next boot.\n", mem)

/-- `dispatch`: what is printed, and the state after the command. -/
def dispatch (blockAddr : Nat) (input : List UInt8) (s : State) : List UInt8 × State :=
  let (cmd, rest) := splitFirstToken input
  if cmd.isEmpty then ([], s)
  else if cmd = ascii "help" ∨ cmd = ascii "?" then (cmdHelp, s)
  else if cmd = ascii "show" ∨ cmd = ascii "print" then (cmdShow s.config, s)
  else if cmd = ascii "set" then
    let (out, config) := cmdSet rest s.config
    (out, { s with config })
  else if cmd = ascii "reset" then
    (print "config reset to defaults (working copy; 'commit' to publish)\n", { s with config := .default })
  else if cmd = ascii "commit" ∨ cmd = ascii "save" then
    let (out, mem) := cmdCommit blockAddr s.config s.mem
    (out, { s with mem })
  else if cmd = ascii "register" ∨ cmd = ascii "agent" ∨ cmd = ascii "llm" ∨ cmd = ascii "spawn" then
    (print "refused: Safe Mode registers no agents or LLM processes. No exceptions.\n", s)
  else (print "unknown command: '" ++ cmd ++ print "'  (type 'help')\n", s)

/-- The loop of `run`, over the lines it reads. -/
def runLines (blockAddr : Nat) (s : State) (lines : List (List UInt8)) : State :=
  lines.foldl (fun s line => (dispatch blockAddr line s).2) s

/-- The state in which `run` starts its loop. -/
def start (mem : Bytes.Memory) : State := ⟨.default, mem⟩

end Terminal

end SafeMode

end GolemKernel
