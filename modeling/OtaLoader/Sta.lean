import OtaLoader.CString
import OtaLoader.Machine
/-!
# Sta — the OTA transfer of the station build (net_update.c, HTTP_UPDATE_ENABLE)

The device fetches windows of a file from an HTTP server, one connection and one `Range` request a window.  `http_get`
opens the connection and sends the request, `msgrecv` collects the response in `http_ota->buf` and hands the bytes asked
for to the caller, `http_read` and `net_f_read` retry.  One step is a piece of a call between two points where the task
may wait, or one callback of lwIP.

`buf` holds the bytes from `http_ota->buf` on: the `bufSize` bytes of the buffer, then `beyond` more bytes of memory,
where a text without a zero byte goes on.  `tcp.lock` is left out: nothing but `http_get` waits on it, and it is clear
whenever `http_get` starts.
-/
namespace OtaLoader
namespace Sta

def httpUpdatePort : Int := 80
def httpRecvBuf : Nat := 4096 * 10
def sizeofHttpRangeOta : Nat := 52
def bufSize : Nat := httpRecvBuf - sizeofHttpRangeOta

/-! ## State -/

/-- A request as it was sent: its text and the range it asks for, `stop` excluded. -/
structure Request where
  text  : List UInt8
  first : Nat
  stop  : Nat

/-- A `tcp_pcb`: whether its argument is `http_ota` and its receive callback `msgrecv`. -/
structure Pcb where
  addr    : Nat
  port    : Int
  arg     : Bool
  recv    : Bool
  request : Option Request

/-- `struct http_range_ota` with its buffer.  `pcb`, `host`, `file` and `sendBuf` are a place each, if not `NULL`. -/
structure HttpOta where
  ipAddr        : Nat
  pcb           : Option Nat
  conneted      : Bool
  fileSize      : Nat
  contentLength : Nat
  rangeStart    : Nat
  rangeEnd      : Nat
  recvOffset    : Nat
  host          : Option Nat
  file          : Option Nat
  sendBuf       : Option Nat
  buf           : Mem

/-- `struct net_local`. -/
structure NetLocal where
  seekAddr        : Nat
  readSize        : Nat
  allSize         : Nat
  downloadPercent : Nat
  buf             : Nat
deriving DecidableEq

/-- A call in progress: `net_f_open`, or `net_f_read` with its arguments; `tries` is the `cnt` of `net_f_read` and `cnt`
that of `http_read`. -/
structure Call where
  opening : Bool
  buf     : Nat
  len     : Nat
  tries   : Nat
  cnt     : Nat
deriving DecidableEq

/-- Where the calling task stands: before `http_read`, before `http_get`, in `gethostbyname`, before `tcp_new`, in the
wait for the connection, in `os_sem_pend`. -/
inductive Task where
  | idle
  | reading (c : Call)
  | getting (c : Call)
  | resolving (c : Call) (port : Int)
  | creating (c : Call) (port : Int)
  | connecting (c : Call) (pcb : Nat)
  | pending (c : Call)
deriving DecidableEq

/-- `opened` is whether `http_ota` and `net_local_addr` are there.  `fault` is set where the behaviour of the code is no
longer defined.  `inetAddr` is lwIP's `inet_addr`. -/
structure Dev where
  url         : List UInt8
  inetAddr    : List UInt8 → Nat
  beyond      : Nat
  http        : HttpOta
  pcbs        : List Pcb
  caller      : Mem
  opened      : Bool
  netLocal    : NetLocal
  netOtaStop  : Bool
  netRecvErr  : Nat
  otaAllSize  : Nat
  otaReadSize : Nat
  readSem     : Nat
  task        : Task
  fault       : Bool

/-- What a step shows: the value a call returns when it ends, and the copies `msgrecv` makes to a caller: source offset,
length, destination. -/
structure Out where
  ret    : Option Int := none
  copies : List (Nat × Nat × Nat) := []
deriving DecidableEq

/-- The text at a place of the buffer. -/
def HttpOta.text (h : HttpOta) (beyond p : Nat) : List UInt8 := h.buf.cstr (bufSize + beyond) p

/-! ## http_get -/

/-- The host and the path put in the buffer, with room for the request behind them. -/
def place (s : Dev) (p : List UInt8) (len : Nat) (e : List UInt8) : Dev :=
  let h := { s.http with
    host := some 0, buf := s.http.buf.write 0 (p.take len ++ [0]), sendBuf := some (len + 1), file := none
    recvOffset := 0 }
  if e.length + len + 2 < bufSize then
    { s with http := { h with
      file := some (len + 1), buf := h.buf.write (len + 1) (e ++ [0]), sendBuf := some (len + 1 + e.length + 1) } }
  else { s with http := h }

/-- The URL taken apart; the port if `http_get` goes on. -/
def parseUrl (s : Dev) : Dev × Option Int :=
  match find (ascii "http://") s.url with
  | none   => (s, none)
  | some i =>
    let p := s.url.drop (i + 7)
    match find (ascii ":") p, find (ascii "/") p with
    | some c, some e =>
      if c ≥ bufSize then (s, none) else (place s p c (p.drop e), some (atoi (p.drop (c + 1))))
    | some c, none   => if c ≥ bufSize then (s, none) else ({ s with fault := true }, none)
    | none, some e   => if e ≥ bufSize then (s, none) else (place s p e (p.drop e), some 0)
    | none, none     =>
      ({ s with http := { s.http with host := none, file := none, sendBuf := none, recvOffset := 0, fileSize := 0 } },
        none)

def decimal (n : Nat) : List UInt8 := (Nat.toDigits 10 n).map (fun c => UInt8.ofNat c.toNat)

/-- `%d` of an `unsigned int`. -/
def showInt (v : Nat) : List UInt8 := if v < 2147483648 then decimal v else 45 :: decimal (4294967296 - v)

/-- `HTTP_GET_HEAD`. -/
def httpGetHead (file host : List UInt8) (first last : Nat) : List UInt8 :=
  ascii "GET " ++ file ++ ascii " HTTP/1.1\r\nHost: " ++ host ++
    ascii "\r\nUser-Agent: User\r\nAccept: */*\r\nConnection: Close\r\nRange: bytes=" ++ showInt first ++ ascii "-" ++
    showInt last ++ ascii "\r\n\r\n"

/-- The size asked for: the buffer's, or what is left of a file whose size is known. -/
def rangeSize (h : HttpOta) : Nat :=
  if h.fileSize ≠ 0 ∧ u32 (h.rangeStart + bufSize) > h.fileSize then u32 (h.fileSize + 4294967296 - h.rangeStart)
  else bufSize

/-- The request written at `send_buf`, if there is a place for it. -/
def writeRequest (s : Dev) : Dev × Option Request :=
  let h := { s.http with rangeEnd := u32 (s.http.rangeStart + rangeSize s.http) }
  match h.sendBuf with
  | none   => ({ s with http := h }, none)
  | some p =>
    let file := match h.file with
      | some q => h.text s.beyond q
      | none   => ascii "/"
    let host := match h.host with
      | some q => h.text s.beyond q
      | none   => []
    let text := httpGetHead file host h.rangeStart (u32 (h.rangeEnd + 4294967295))
    ({ s with http := { h with buf := h.buf.write p (text ++ [0]) } }, some ⟨text, h.rangeStart, h.rangeEnd⟩)

/-! ## The ends of a read -/

/-- `http_read` returned `n`. -/
def finish (s : Dev) (c : Call) (n : Nat) : Dev × Out :=
  if c.opening then ({ s with task := .idle }, { ret := some (if n = 0 then 0 else 1) })
  else if n = 0 then
    if c.tries ≠ 0 then ({ s with task := .reading c }, {}) else ({ s with task := .idle }, { ret := some 0 })
  else
    ({ s with
        task := .idle
        otaReadSize := if s.otaAllSize = 0 then s.otaReadSize else u32 (s.otaReadSize + s.netLocal.readSize) },
      { ret := some s.netLocal.readSize })

/-- The source offset of a copy out of the buffer. -/
def windowOffset (h : HttpOta) (l : NetLocal) : Nat := u32 (l.seekAddr + 4294967296 - h.rangeStart)

/-- With nothing held at the start of the file, the window starts at the address asked for. -/
def primed (h : HttpOta) (l : NetLocal) : HttpOta :=
  if h.rangeStart = 0 ∧ h.recvOffset = 0 then { h with rangeStart := l.seekAddr } else h

/-- The bytes asked for have been received. -/
def hit (h : HttpOta) (l : NetLocal) : Bool :=
  !(h.recvOffset == 0 || decide (l.seekAddr < h.rangeStart) ||
    decide (u32 (h.rangeStart + h.recvOffset) < u32 (l.seekAddr + l.readSize)))

/-- `NET_OTA_FILE_RESV`: the start of the new window. -/
def resv (l : NetLocal) : Nat :=
  if l.seekAddr > u32 (bufSize + 4294967296 - l.readSize) then
    u32 (l.seekAddr + 4294967296 - u32 (bufSize + 4294967296 - l.readSize))
  else l.seekAddr

/-- `http_read` up to its first `http_get`. -/
def httpRead (s : Dev) (c : Call) : Dev × Out :=
  let l := s.netLocal
  let h := primed s.http l
  if hit h l then
    finish { s with http := h, caller := s.caller.write l.buf (h.buf.read (windowOffset h l) l.readSize) } c l.readSize
  else ({ s with http := { h with recvOffset := 0, rangeStart := resv l }, task := .getting { c with cnt := 3 } }, {})

/-! ## Receiving -/

/-- The blank line that ends a header starts at `c`. -/
def blankAt (m : Mem) (c : Nat) : Bool := m c == 13 && m (c + 1) == 10 && m (c + 2) == 13 && m (c + 3) == 10

def crlfAt (m : Mem) (c : Nat) : Bool := m c == 13 && m (c + 1) == 10

/-- The number `atoi` reads at a place, as the `unsigned int` it is kept in. -/
def numberAt (m : Mem) (top p : Nat) : Nat := u32 (atoi (m.cstr top p) % 4294967296).toNat

/-- The loop over the line of `Content-Range`, in at most `n` rounds: whether the header ended with it, where it stopped
and the file size it read. -/
def rangeLoop (m : Mem) (top tot : Nat) : Nat → Nat → Nat → Bool × Nat × Nat
  | 0, c, size     => (false, c, size)
  | n + 1, c, size =>
    if tot ≤ c then (false, c, size)
    else if blankAt m c then (true, c + 4, size)
    else if crlfAt m c then (false, c + 2, size)
    else if m c == 47 then rangeLoop m top tot n (c + 2) (numberAt m top (c + 1))
    else rangeLoop m top tot n (c + 1) size

/-- The loop that looks for the end of the header. -/
def blankLoop (m : Mem) (tot : Nat) : Nat → Nat → Option Nat
  | 0, _     => none
  | n + 1, c => if tot ≤ c then none else if blankAt m c then some (c + 4) else blankLoop m tot n (c + 1)

/-- The place of a header's text behind its name, in either of two spellings. -/
def fieldAt (t : List UInt8) (f : Nat) (upper lower : String) : Option Nat :=
  match find (ascii upper) (t.drop f) with
  | some i => some (f + i + (ascii upper).length)
  | none   => (find (ascii lower) (t.drop f)).map (fun i => f + i + (ascii upper).length)

/-- The file size and the end of the header, from the text behind `Content-Range:`. -/
def rangeField (m : Mem) (top tot c size : Nat) : Nat × Option Nat :=
  let r := rangeLoop m top tot tot c size
  if r.1 then (r.2.2, some r.2.1)
  else
    let size := match find (ascii "/") (m.cstr top c) with
      | some i => if c + i < r.2.1 ∧ r.2.2 = 0 then numberAt m top (c + i + 1) else r.2.2
      | none   => r.2.2
    (size, blankLoop m tot tot r.2.1)

/-- A first segment of `tot` bytes, at the start of the buffer: the structure with the sizes its header gives, and where
its body starts if the header is whole; `none` without the status 206. -/
def parseHead (h : HttpOta) (beyond tot : Nat) : Option (HttpOta × Option Nat) :=
  let top := bufSize + beyond
  let t := h.buf.cstr top 0
  match find (ascii "HTTP/1.1 206") t with
  | none   => none
  | some f =>
    let length := match fieldAt t f "Content-Length:" "content-length:" with
      | some c => numberAt h.buf top c
      | none   => h.contentLength
    match fieldAt t f "Content-Range:" "content-range:" with
    | some c =>
      let r := rangeField h.buf top tot (c + 1) h.fileSize
      some ({ h with contentLength := length, fileSize := r.1 }, r.2)
    | none   => some ({ h with contentLength := length }, blankLoop h.buf tot tot f)

/-- The label `err`. -/
def recvErr (s : Dev) : Dev :=
  let e := s.netRecvErr + 1
  if e ≥ 3 then
    { s with netRecvErr := 0, netOtaStop := true, http := { s.http with recvOffset := 0 }, readSem := s.readSem + 1 }
  else { s with netRecvErr := e, readSem := s.readSem + 1 }

/-- The body moved to the start of the buffer. -/
def takeBody (s : Dev) (h : HttpOta) (c tot : Nat) : Dev :=
  if tot < c then { s with http := h, netRecvErr := 0, fault := true }
  else
    let len := tot - c
    { s with
      http := { h with
        buf := (h.buf.write 0 (h.buf.read c len)).write len [0], recvOffset := h.recvOffset + len }
      netRecvErr := 0 }

/-- A segment that the buffer has room for. -/
def collect (s : Dev) (p : List UInt8) : Dev :=
  let h := { s.http with buf := s.http.buf.write s.http.recvOffset p }
  if h.recvOffset = 0 then
    match parseHead h s.beyond p.length with
    | none             => recvErr { s with http := h }
    | some (h, some c) => takeBody s h c p.length
    | some (h, none)   => recvErr { s with http := h, netRecvErr := 0 }
  else { s with http := { h with recvOffset := h.recvOffset + p.length } }

/-- A segment that finds no room is dropped. -/
def collected (s : Dev) (p : List UInt8) : Dev := if s.http.recvOffset + p.length ≤ bufSize then collect s p else s

/-- The request, or the file, has been received. -/
def complete (h : HttpOta) : Bool :=
  h.recvOffset != 0 && (decide (h.recvOffset ≥ u32 (h.rangeEnd + 4294967296 - h.rangeStart)) ||
    decide (h.recvOffset ≥ h.fileSize) && h.fileSize != 0)

/-- `msgrecv` with data, on a connection whose argument is `http_ota`. -/
def msgrecv (s : Dev) (p : List UInt8) : Dev × Out :=
  let s := collected s p
  if s.fault then (s, {})
  else if complete s.http then
    let l := s.netLocal
    if l.buf ≠ 0 ∧ l.readSize ≠ 0 then
      ({ s with
          caller := s.caller.write l.buf (s.http.buf.read (windowOffset s.http l) l.readSize)
          readSem := s.readSem + 1 },
        { copies := [(windowOffset s.http l, l.readSize, l.buf)] })
    else ({ s with readSem := s.readSem + 1 }, {})
  else (s, {})

/-! ## Connections -/

def setPcb (s : Dev) (i : Nat) (f : Pcb → Pcb) : Dev := { s with pcbs := s.pcbs.modify i f }

/-- Callbacks and argument taken off. -/
def Pcb.detach (p : Pcb) : Pcb := { p with arg := false, recv := false }

/-- `msgclose`, on a connection the server closed. -/
def msgclose (s : Dev) (i : Nat) : Dev :=
  let s := setPcb s i Pcb.detach
  if s.http.pcb = some i then { s with http := { s.http with pcb := none, conneted := false } } else s

/-! ## The calls -/

def seekSet : Nat := 1

def netFSeek (s : Dev) (type offset : Nat) : Dev × Int :=
  if s.opened then
    if type = seekSet then ({ s with netLocal := { s.netLocal with seekAddr := offset } }, 0)
    else ({ s with netLocal := { s.netLocal with seekAddr := u32 (s.netLocal.seekAddr + offset) } }, 0)
  else (s, -1)

def netFSendUpdateLen (s : Dev) (len : Nat) : Dev × Int :=
  if s.opened = false ∨ s.netOtaStop = true ∨ len = 0 then (s, -1)
  else ({ s with netLocal := { s.netLocal with allSize := len }, otaAllSize := len, otaReadSize := 0 }, 0)

/-- The progress a read reports. -/
def percent (s : Dev) : Nat :=
  if s.otaAllSize = 0 then s.netLocal.downloadPercent
  else
    let p := max (s.otaReadSize * 100 / s.otaAllSize % 256) s.netLocal.downloadPercent
    if p < 100 then p else 99

def netFOpen (s : Dev) : Dev × Out :=
  let h : HttpOta := ⟨0, none, false, 0, 0, 0, 0, 0, none, none, none, s.http.buf.fill 0 bufSize 0⟩
  httpRead { s with http := h, opened := true, netLocal := ⟨0, 0, 0, 1, 0⟩, netOtaStop := false } ⟨true, 0, 0, 0, 0⟩

def netFRead (s : Dev) (buf len : Nat) : Dev × Out :=
  if s.opened = false ∨ s.netOtaStop = true then (s, { ret := some 0 })
  else
    ({ s with
        netLocal := { s.netLocal with downloadPercent := percent s, readSize := len, buf := buf }
        task := .reading ⟨false, buf, len, 3, 0⟩ }, {})

/-! ## The device as a machine -/

/-- `run` is the task going on where it does not wait; `resolved` the end of `gethostbyname`, `create` what `tcp_new` and
the first `tcp_connect` return, `go` the request sent once connected, `giveUp` the end of the wait for the connection;
`resume` and `timeout` end the wait for the semaphore.  The others are lwIP's callbacks on a connection. -/
inductive Ev where
  | fOpen
  | seek (type offset : Nat)
  | read (buf len : Nat)
  | announce (len : Nat)
  | run
  | resolved (addr : Option Nat)
  | create (ok refused : Bool)
  | go (sent : Bool)
  | giveUp
  | resume
  | timeout
  | connect (i : Nat)
  | segment (i : Nat) (p : List UInt8)
  | close (i : Nat)

/-- The address of the host is known, or found without asking for it. -/
def resolve (s : Dev) (c : Call) (port : Int) : Dev :=
  if s.http.ipAddr = 0 ∨ c.opening = true then
    let host := s.http.text s.beyond 0
    if atoi host = 0 then { s with task := .resolving c port }
    else { s with http := { s.http with ipAddr := s.inetAddr host, fileSize := 0 }, task := .creating c port }
  else { s with task := .creating c port }

/-- `http_get` up to the wait for the host's address. -/
def startGet (s : Dev) (c : Call) : Dev × Out :=
  match parseUrl { s with readSem := 0 } with
  | (s, some port) => (resolve s c port, {})
  | (s, none)      => if s.fault then (s, {}) else finish s c 0

/-- `tcp_new` and `tcp_connect`. -/
def createPcb (s : Dev) (c : Call) (port : Int) (refused : Bool) : Dev :=
  let port := if refused then 8080 else if port = 0 then httpUpdatePort else port % 65536
  { s with
    pcbs := s.pcbs ++ [⟨s.http.ipAddr, port, true, false, none⟩]
    http := { s.http with pcb := some s.pcbs.length }
    task := .connecting c s.pcbs.length }

/-- The connection is given up. -/
def abandon (s : Dev) (c : Call) (i : Nat) : Dev × Out :=
  let s := setPcb s i Pcb.detach
  finish { s with http := { s.http with pcb := none, ipAddr := 0 } } c 0

/-- The request goes out, if it finds room. -/
def sendGet (s : Dev) (c : Call) (i : Nat) (sent : Bool) : Dev × Out :=
  if s.netOtaStop then abandon s c i
  else
    match writeRequest s with
    | (s, none)   => ({ s with task := .pending c }, {})
    | (s, some q) =>
      if sent then ({ setPcb s i (fun p => { p with request := some q }) with task := .pending c }, {})
      else finish s c 0

/-- `http_read` after the semaphore is taken. -/
def resumed (s : Dev) (c : Call) : Dev × Out :=
  if s.netRecvErr ≠ 0 ∧ c.cnt - 1 ≠ 0 ∧ s.netOtaStop = false then
    ({ s with task := .getting { c with cnt := c.cnt - 1 } }, {})
  else
    finish s { c with cnt := if s.netRecvErr ≠ 0 then c.cnt - 1 else c.cnt }
      (if s.netLocal.readSize ≠ 0 then s.netLocal.readSize else bufSize)

def step (s : Dev) (e : Ev) : Option (Dev × Out) :=
  if s.fault then none
  else
    match e, s.task with
    | .fOpen, .idle => some (netFOpen s)
    | .seek type offset, .idle => some ((netFSeek s type offset).1, { ret := some (netFSeek s type offset).2 })
    | .announce len, .idle => some ((netFSendUpdateLen s len).1, { ret := some (netFSendUpdateLen s len).2 })
    | .read buf len, .idle => some (netFRead s buf len)
    | .run, .reading c => some (httpRead s { c with tries := c.tries - 1 })
    | .run, .getting c => some (startGet s c)
    | .resolved none, .resolving c _ => some (finish s c 0)
    | .resolved (some addr), .resolving c port =>
      some ({ s with http := { s.http with ipAddr := addr, fileSize := 0 }, task := .creating c port }, {})
    | .create ok refused, .creating c port =>
      if ok then some (createPcb s c port refused, {}) else some (finish s c 0)
    | .go sent, .connecting c i => if s.http.conneted then some (sendGet s c i sent) else none
    | .giveUp, .connecting c i => if s.http.conneted then none else some (abandon s c i)
    | .resume, .pending c => if 0 < s.readSem then some (resumed { s with readSem := s.readSem - 1 } c) else none
    | .timeout, .pending c => if s.readSem = 0 then some (finish s c 0) else none
    | .connect i, _ =>
      match s.pcbs[i]? with
      | some p =>
        if p.arg = true ∧ p.recv = false then
          let s := setPcb s i (fun p => { p with recv := true })
          some ({ s with http := { s.http with conneted := true } }, {})
        else none
      | none => none
    | .segment i p, _ =>
      match s.pcbs[i]? with
      | some q => if q.arg = true ∧ q.recv = true then some (msgrecv s p) else none
      | none   => none
    | .close i, _ =>
      match s.pcbs[i]? with
      | some q => if q.arg = true ∧ q.recv = true then some (msgclose s i, {}) else none
      | none   => none
    | _, _ => none

/-- What a step is, event by event. -/
def Took (s : Dev) (r : Dev × Out) : Ev → Prop
  | .fOpen              => s.task = .idle ∧ r = netFOpen s
  | .seek type offset   => s.task = .idle ∧ r = ((netFSeek s type offset).1, { ret := some (netFSeek s type offset).2 })
  | .announce len       => s.task = .idle ∧ r = ((netFSendUpdateLen s len).1, { ret := some (netFSendUpdateLen s len).2 })
  | .read buf len       => s.task = .idle ∧ r = netFRead s buf len
  | .run                => (∃ c, s.task = .reading c ∧ r = httpRead s { c with tries := c.tries - 1 }) ∨
      ∃ c, s.task = .getting c ∧ r = startGet s c
  | .resolved none      => ∃ c port, s.task = .resolving c port ∧ r = finish s c 0
  | .resolved (some a)  => ∃ c port, s.task = .resolving c port ∧
      r = ({ s with http := { s.http with ipAddr := a, fileSize := 0 }, task := .creating c port }, {})
  | .create ok refused  => ∃ c port, s.task = .creating c port ∧
      r = if ok then (createPcb s c port refused, {}) else finish s c 0
  | .go sent            => ∃ c i, s.task = .connecting c i ∧ s.http.conneted = true ∧ r = sendGet s c i sent
  | .giveUp             => ∃ c i, s.task = .connecting c i ∧ r = abandon s c i
  | .resume             => ∃ c, s.task = .pending c ∧ 0 < s.readSem ∧ r = resumed { s with readSem := s.readSem - 1 } c
  | .timeout            => ∃ c, s.task = .pending c ∧ s.readSem = 0 ∧ r = finish s c 0
  | .connect i          =>
      r = ({ setPcb s i (fun p => { p with recv := true }) with http := { s.http with conneted := true } }, {})
  | .segment _ p        => r = msgrecv s p
  | .close i            => r = (msgclose s i, {})

theorem step_took {s : Dev} {e : Ev} {r : Dev × Out} (h : step s e = some r) : s.fault = false ∧ Took s r e := by
  unfold step at h
  split at h
  · cases h
  rename_i hf
  refine ⟨by simpa using hf, ?_⟩
  split at h
  · exact ⟨‹_›, (Option.some.inj h).symm⟩
  · exact ⟨‹_›, (Option.some.inj h).symm⟩
  · exact ⟨‹_›, (Option.some.inj h).symm⟩
  · exact ⟨‹_›, (Option.some.inj h).symm⟩
  · exact Or.inl ⟨_, ‹_›, (Option.some.inj h).symm⟩
  · exact Or.inr ⟨_, ‹_›, (Option.some.inj h).symm⟩
  · exact ⟨_, _, ‹_›, (Option.some.inj h).symm⟩
  · exact ⟨_, _, ‹_›, (Option.some.inj h).symm⟩
  · refine ⟨_, _, ‹_›, ?_⟩
    split at h
    · rw [if_pos ‹_›]
      exact (Option.some.inj h).symm
    · rw [if_neg ‹_›]
      exact (Option.some.inj h).symm
  · split at h
    · exact ⟨_, _, ‹_›, ‹_›, (Option.some.inj h).symm⟩
    · cases h
  · split at h
    · cases h
    · exact ⟨_, _, ‹_›, (Option.some.inj h).symm⟩
  · split at h
    · exact ⟨_, ‹_›, ‹_›, (Option.some.inj h).symm⟩
    · cases h
  · split at h
    · exact ⟨_, ‹_›, ‹_›, (Option.some.inj h).symm⟩
    · cases h
  · split at h
    · split at h
      · exact (Option.some.inj h).symm
      · cases h
    · cases h
  · split at h
    · split at h
      · exact (Option.some.inj h).symm
      · cases h
    · cases h
  · split at h
    · split at h
      · exact (Option.some.inj h).symm
      · cases h
    · cases h
  · cases h
def machine : Machine Dev Ev Out := ⟨step⟩

/-- The state before `net_f_open`. -/
def fresh (url : List UInt8) (inetAddr : List UInt8 → Nat) (beyond : Nat) (ram caller : Mem) : Dev where
  url := url
  inetAddr := inetAddr
  beyond := beyond
  http := ⟨0, none, false, 0, 0, 0, 0, 0, none, none, none, ram⟩
  pcbs := []
  caller := caller
  opened := false
  netLocal := ⟨0, 0, 0, 0, 0⟩
  netOtaStop := false
  netRecvErr := 0
  otaAllSize := 0
  otaReadSize := 0
  readSem := 0
  task := .idle
  fault := false

end Sta
end OtaLoader
