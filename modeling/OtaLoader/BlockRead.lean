import OtaLoader.Mem
import OtaLoader.Machine
/-!
# BlockRead — reading the update file block by block over BLE or HID (`update_main.c`)

`ble_updata_read` sends a request and waits in `ble_updata_handler`; the peer answers each request once, in order, and
`dev_read_update_block_handle` takes an answer by its length alone.  With `UPDATE_PRE_READ_EN` five reads of 512 bytes
that go down through the file switch on prefetching: one request runs ahead, and the answers are kept in two blocks
under the addresses that the code predicts for them.  An event is one thing that happens between two sends.
-/
namespace OtaLoader
namespace Block

def onceUpdateReadLen : Nat := 512

theorem onceUpdateReadLen_eq : onceUpdateReadLen = 512 := rfl

def continueReadTimes : Nat := 5

inductive PreReadFlag where
  | disable | toggleToDis | toggleToEn | enable
  deriving DecidableEq

/-- The values of `btupdata_sw` that a read meets. -/
inductive Sw where
  | stop | read | acceptOk
  deriving DecidableEq

/-- `ble_control_info`; `accept` is the bit `LMP_STA_UPDATA_ACCEPT` of the state. -/
structure Control where
  readBuf    : Option Nat
  btupdataSw : Sw
  accept     : Bool
  dateLen    : Nat
  needRxLen  : Nat

/-- `update_pre_read`, with the two bits of `buf_busy_flag`. -/
structure PreRead where
  preReadCnt     : Nat
  preReadFlag    : PreReadFlag
  busy0          : Bool
  busy1          : Bool
  currFileOffset : Nat
  lastAddr       : Nat
  buf0Addr       : Nat
  buf1Addr       : Nat

structure Dev where
  ctl : Control
  pre : PreRead
  mem : Mem

/-- The build, where `update_temp_buf` lies, and the file that the peer serves. -/
structure Env where
  preReadEn : Bool
  temp      : Nat
  file      : Mem

/-- The arguments of `ble_updata_read`. -/
structure Args where
  buf  : Nat
  btr  : Nat
  seek : Nat

/-- `addr - ONCE_UPDATE_READ_LEN` for an `addr` of 32 bits. -/
def below (addr : Nat) : Nat :=
  if onceUpdateReadLen ≤ addr then addr - onceUpdateReadLen else addr + 4294967296 - onceUpdateReadLen

def memcpy (m : Mem) (dst : Option Nat) (bs : List UInt8) : Mem :=
  match dst with
  | some p => m.write p bs
  | none   => m

/-! ## The functions -/

def getUpdatePreReadFlag (p : PreRead) (addr len : Nat) : PreRead :=
  if addr = below p.lastAddr ∧ len = onceUpdateReadLen then
    match p.preReadFlag with
    | .disable    =>
      let cnt := (p.preReadCnt + 1) % 256
      { p with preReadCnt := cnt, preReadFlag := if cnt ≥ continueReadTimes then .toggleToEn else .disable,
               lastAddr := addr }
    | .toggleToEn => { p with preReadFlag := .enable, lastAddr := addr }
    | _           => { p with lastAddr := addr }
  else
    match p.preReadFlag with
    | .enable => { p with preReadCnt := 0, preReadFlag := .toggleToDis, lastAddr := addr }
    | _       => { p with preReadCnt := 0, preReadFlag := .disable, lastAddr := addr }

/-- Copies the kept block of `addr`, when there is one, to where the read in progress wants it. -/
def getUpdatePreReadBuf (b : Env) (d : Dev) (addr len : Nat) : Option Dev :=
  if d.pre.busy0 = true ∧ d.pre.buf0Addr = addr then
    some { d with pre := { d.pre with busy0 := false }, mem := memcpy d.mem d.ctl.readBuf (d.mem.read b.temp len) }
  else if d.pre.busy1 = true ∧ d.pre.buf1Addr = addr then
    some { d with pre := { d.pre with busy1 := false },
                  mem := memcpy d.mem d.ctl.readBuf (d.mem.read (b.temp + onceUpdateReadLen) len) }
  else none

/-- Whether the answer is taken, and not dropped for its length or because none is awaited. -/
def Dev.takes (d : Dev) (bufferSize : Nat) : Prop := d.ctl.btupdataSw = .read ∧ d.ctl.needRxLen = bufferSize

instance (d : Dev) (n : Nat) : Decidable (d.takes n) := instDecidableAnd

/-- Prefetching is on, whatever its direction. -/
def Dev.ahead (b : Env) (d : Dev) : Prop := b.preReadEn = true ∧ d.pre.preReadFlag ≠ .disable

instance (b : Env) (d : Dev) : Decidable (d.ahead b) := instDecidableAnd

/-- Keeps an answer in a block that is free. -/
def keep (b : Env) (d : Dev) (bs : List UInt8) : Dev :=
  let next := below d.pre.currFileOffset
  if d.pre.busy0 = false then
    { d with pre := { d.pre with busy0 := true, buf0Addr := d.pre.currFileOffset, currFileOffset := next },
             mem := d.mem.write b.temp bs }
  else if d.pre.busy1 = false then
    { d with pre := { d.pre with busy1 := true, buf1Addr := d.pre.currFileOffset, currFileOffset := next },
             mem := d.mem.write (b.temp + onceUpdateReadLen) bs }
  else { d with pre := { d.pre with currFileOffset := next } }

def devReadUpdateBlockHandle (b : Env) (d : Dev) (buffer : List UInt8) (bufferSize : Nat) : Dev :=
  if d.takes bufferSize then
    let d := { d with ctl := { d.ctl with dateLen := bufferSize } }
    if d.ahead b then keep b d (buffer.take bufferSize)
    else { d with ctl := { d.ctl with btupdataSw := .acceptOk, accept := true },
                  mem := memcpy d.mem d.ctl.readBuf (buffer.take bufferSize) }
  else d

/-- One round of `ble_updata_handler(UPDATA_READ, addr, len)`: the value it returns with, if it does. -/
def bleUpdataHandler (b : Env) (d : Dev) (addr len : Nat) : Option (Dev × Nat) :=
  match if b.preReadEn then getUpdatePreReadBuf b d addr (len % 65536) else none with
  | some d => some (d, len)
  | none   =>
    if d.ctl.accept = true ∧ d.ctl.btupdataSw = .acceptOk then
      some ({ d with ctl := { d.ctl with readBuf := none } }, d.ctl.dateLen)
    else none

/-- What `ble_updata_read` sets before it sends its request. -/
def Dev.arm (d : Dev) (c : Args) : Dev :=
  { d with ctl := { readBuf := some c.buf, btupdataSw := .read, accept := false, dateLen := 0, needRxLen := c.btr } }

/-! ## The system -/

/-- A request in flight.  `left` marks those that were in flight when a later read began that was not the next one of a
prefetch: nobody waits for their answers. -/
structure Request where
  offset : Nat
  len    : Nat
  left   : Bool
  deriving DecidableEq

def Request.leave (r : Request) : Request := { r with left := true }

/-- Where `ble_updata_read` stands. -/
inductive Phase where
  | idle
  /-- It waits for the last block that was prefetched, before its own request. -/
  | waitLast (c : Args) (last : Nat)
  /-- It has sent the first of the two requests by which prefetching starts. -/
  | sent (c : Args)
  | wait (c : Args)

/-- `taken` is the request whose answer the read in progress has taken. -/
structure State where
  dev   : Dev
  phase : Phase
  queue : List Request
  taken : Option Request

def State.init (m : Mem) : State where
  dev :=
    { ctl := { readBuf := none, btupdataSw := .stop, accept := false, dateLen := 0, needRxLen := 0 }
      pre := { preReadCnt := 0, preReadFlag := .disable, busy0 := false, busy1 := false, currFileOffset := 0,
               lastAddr := 0, buf0Addr := 0, buf1Addr := 0 }
      mem := m }
  phase := .idle
  queue := []
  taken := none

/-- The request of `c` itself; one that runs ahead asks for the block below. -/
def send (s : State) (c : Args) (flag : PreReadFlag) : State :=
  { dev   := s.dev.arm c
    phase := if flag = .toggleToEn then .sent c else .wait c
    queue := if flag = .enable then s.queue ++ [⟨below c.seek, c.btr, false⟩]
             else s.queue.map Request.leave ++ [⟨c.seek, c.btr, false⟩]
    taken := none }

/-- The waiting for the last block is over. -/
def waited (s : State) (d : Dev) (c : Args) : State :=
  send { s with dev := { d with pre := { d.pre with preReadFlag := .disable } } } c .toggleToDis

inductive Event where
  | start (c : Args)
  /-- The second request of a read that switches prefetching on. -/
  | second
  /-- A round of the handler's loop. -/
  | poll
  | timeout
  /-- The answer to the oldest request arrives. -/
  | reply

/-- Whether an answer was copied to where the last read wanted it, and what a read returned. -/
structure Out where
  copied   : Bool
  returned : Option (Args × Nat)

def Out.quiet : Out := ⟨false, none⟩

def start (b : Env) (s : State) (c : Args) : State :=
  if b.preReadEn then
    let last := s.dev.pre.lastAddr
    let pre := getUpdatePreReadFlag s.dev.pre c.seek (c.btr % 65536)
    let s := { s with dev := { s.dev with pre := pre } }
    if pre.preReadFlag = .toggleToDis then { s with phase := .waitLast c last } else send s c pre.preReadFlag
  else send s c .disable

def reply (b : Env) (s : State) (r : Request) (rs : List Request) : State × Out :=
  let size := r.len % 65536
  let copied := decide (s.dev.takes size ∧ ¬ s.dev.ahead b)
  ({ s with dev := devReadUpdateBlockHandle b s.dev (b.file.read r.offset r.len) size, queue := rs,
            taken := if copied then some r else s.taken }, ⟨copied, none⟩)

/-- The caller's buffer lies apart from `update_temp_buf`. -/
def Apart (b : Env) (p len : Nat) : Prop := p + len ≤ b.temp ∨ b.temp + 2 * onceUpdateReadLen ≤ p

instance (b : Env) (p len : Nat) : Decidable (Apart b p len) := instDecidableOr

def machine (b : Env) : Machine State Event Out where
  step s e :=
    match e, s.phase with
    | .start c, .idle          => if Apart b c.buf c.btr then some (start b s c, .quiet) else none
    | .second, .sent c         =>
      some ({ s with dev := { s.dev with pre := { s.dev.pre with currFileOffset := c.seek } }, phase := .wait c,
                     queue := s.queue ++ [⟨below c.seek, c.btr, false⟩] }, .quiet)
    | .poll, .waitLast c last  =>
      match bleUpdataHandler b s.dev (below last) c.btr with
      | some (d, _) => some (waited s d c, .quiet)
      | none        => some (s, .quiet)
    | .poll, .wait c           =>
      match bleUpdataHandler b s.dev c.seek c.btr with
      | some (d, n) => some ({ s with dev := d, phase := .idle }, ⟨false, some (c, n)⟩)
      | none        => some (s, .quiet)
    | .timeout, .waitLast c _  => some (waited s s.dev c, .quiet)
    | .timeout, .wait c        => some ({ s with phase := .idle }, ⟨false, some (c, 0)⟩)
    | .reply, _                =>
      match s.queue with
      | r :: rs => some (reply b s r rs)
      | []      => none
    | _, _                     => none

end Block
end OtaLoader
