import OtaLoader.Mem
import OtaLoader.Machine
/-!
# Ap — the OTA transfer of the access-point build (net_update.c, CONFIG_WL_AP_ENABLE)

The device serves an app over TCP port 3335.  `msgsenddata` sends the 20-byte header `struct net_ota` as a request and
waits on `read_sem`; `msgrecv` collects the reply in the same buffer, over that header, and `msgrecvmemcpy` hands the
requested bytes to the caller.  One step of the device is a call up to the point where it blocks, the end of a wait, or
one callback.

`ota` holds the bytes from `NET_TCP_OTA` on, at addresses relative to it that go around at 2^32; the last 24 of them are
those of `struct net_local`, which `msgrecv` overwrites when its offset is that large (`lay`).  `caller` is the memory of
the callers' buffers.
-/
namespace OtaLoader
namespace Ap

/-! ## Layout -/

def bufMaxSize : Nat := 40 * 1024
def sizeofNetLocal : Nat := 24
def sizeofNetOta : Nat := 20
def recvBufMaxSize : Nat := bufMaxSize - sizeofNetLocal - sizeofNetOta
def netMaxSize : Nat := recvBufMaxSize

def statusNone : Nat := 0
def statusOk : Nat := 1
def statusErr : Nat := 2
def statusRead : Nat := 4
def statusStop : Nat := 8

/-- The fields of `struct net_ota`, at their offsets. -/
def sumCheck (m : Mem) : Nat := m.get32 0
def seekAddr (m : Mem) : Nat := m.get32 4
def readSize (m : Mem) : Nat := m.get32 8
def allSize (m : Mem) : Nat := m.get32 12
def status (m : Mem) : Nat := (m 16).toNat

def setSumCheck (m : Mem) (v : Nat) : Mem := m.set32 0 v
def setSeekAddr (m : Mem) (v : Nat) : Mem := m.set32 4 v
def setReadSize (m : Mem) (v : Nat) : Mem := m.set32 8 v
def setAllSize (m : Mem) (v : Nat) : Mem := m.set32 12 v
def setStatus (m : Mem) (v : Nat) : Mem := m.write 16 [UInt8.ofNat v]
def setDownloadPercent (m : Mem) (v : Nat) : Mem := m.write 17 [UInt8.ofNat v]

/-- `struct net_local`. -/
structure NetLocal where
  seekAddr        : Nat
  readSize        : Nat
  allSize         : Nat
  status          : Nat
  downloadPercent : Nat
  buf             : Nat
deriving DecidableEq

/-- What the calling task is doing.  A call that blocks keeps what `send_msg` returned; `reading` keeps the arguments
of its `net_f_read`. -/
inductive Task where
  | idle
  | reading (buf len err : Nat)
  | announcing (err : Nat)
  | stopping (err : Nat)
  | lastPacket
  | closed
deriving DecidableEq

structure Dev where
  ota          : Mem
  caller       : Mem
  netLocal     : NetLocal
  clientPcb    : Bool
  netOtaStop   : Bool
  otaAllSize   : Nat
  otaReadSize  : Nat
  readSem      : Nat
  task         : Task

/-- The memory a callback touches: bytes `msgrecv` writes, bytes `sumcheck` reads, and the copy of `msgrecvmemcpy`. -/
inductive Access where
  | recv (off len : Nat)
  | sum (off len : Nat)
  | copy (src len dst : Nat)
deriving DecidableEq

/-- What a step shows: the value a call returns when it ends, the header sent as a request, the memory touched. -/
structure Out where
  ret      : Option Int := none
  request  : Option (Nat × Nat × Nat) := none
  accesses : List Access := []
deriving DecidableEq

section Fields

variable (m : Mem) (v : Nat)

@[simp] theorem allSize_setAllSize : allSize (setAllSize m v) = u32 v := m.get32_set32 12 v
@[simp] theorem readSize_setAllSize : readSize (setAllSize m v) = readSize m := Mem.get32_set32_outside (by decide)
@[simp] theorem seekAddr_setAllSize : seekAddr (setAllSize m v) = seekAddr m := Mem.get32_set32_outside (by decide)
@[simp] theorem sumCheck_setAllSize : sumCheck (setAllSize m v) = sumCheck m := Mem.get32_set32_outside (by decide)
@[simp] theorem status_setAllSize : status (setAllSize m v) = status m := by
  unfold status setAllSize
  rw [Mem.set32_outside (by decide)]

@[simp] theorem readSize_setReadSize : readSize (setReadSize m v) = u32 v := m.get32_set32 8 v
@[simp] theorem allSize_setReadSize : allSize (setReadSize m v) = allSize m := Mem.get32_set32_outside (by decide)
@[simp] theorem seekAddr_setReadSize : seekAddr (setReadSize m v) = seekAddr m := Mem.get32_set32_outside (by decide)

@[simp] theorem seekAddr_setSeekAddr : seekAddr (setSeekAddr m v) = u32 v := m.get32_set32 4 v
@[simp] theorem allSize_setSeekAddr : allSize (setSeekAddr m v) = allSize m := Mem.get32_set32_outside (by decide)
@[simp] theorem readSize_setSeekAddr : readSize (setSeekAddr m v) = readSize m := Mem.get32_set32_outside (by decide)

@[simp] theorem allSize_setSumCheck : allSize (setSumCheck m v) = allSize m := Mem.get32_set32_outside (by decide)
@[simp] theorem readSize_setSumCheck : readSize (setSumCheck m v) = readSize m := Mem.get32_set32_outside (by decide)
@[simp] theorem seekAddr_setSumCheck : seekAddr (setSumCheck m v) = seekAddr m := Mem.get32_set32_outside (by decide)

@[simp] theorem allSize_setStatus : allSize (setStatus m v) = allSize m := Mem.get32_write_outside (by simp)
@[simp] theorem readSize_setStatus : readSize (setStatus m v) = readSize m := Mem.get32_write_outside (by simp)
@[simp] theorem seekAddr_setStatus : seekAddr (setStatus m v) = seekAddr m := Mem.get32_write_outside (by simp)

@[simp] theorem allSize_setDownloadPercent : allSize (setDownloadPercent m v) = allSize m :=
  Mem.get32_write_outside (by simp)
@[simp] theorem readSize_setDownloadPercent : readSize (setDownloadPercent m v) = readSize m :=
  Mem.get32_write_outside (by simp)
@[simp] theorem seekAddr_setDownloadPercent : seekAddr (setDownloadPercent m v) = seekAddr m :=
  Mem.get32_write_outside (by simp)

end Fields

/-! ## Checksums -/

/-- The number of rounds of `for (int i = 0; i < len; i++)` for a 32-bit pattern `len`. -/
def rounds (len : Nat) : Nat := if len < 2147483648 then len else 0

/-- The loop of `sumget` and `sumcheck`. -/
def sumFrom (m : Mem) (buf : Nat) : Nat → Nat
  | 0     => 0
  | n + 1 => u32 (sumFrom m buf n + (m (buf + n)).toNat)

def sumget (m : Mem) (buf len : Nat) : Nat := sumFrom m buf (rounds len)

/-- `sumcheck` returns 0. -/
def sumcheck (m : Mem) (buf len sum : Nat) : Bool := sumFrom m buf (rounds len) == sum

/-! ## Sending -/

inductive SendResult where
  | ret (n : Nat)
  | wait (err : Nat)
deriving DecidableEq

/-- The cached window in `net_ota` holds the bytes asked for. -/
def hit (m : Mem) (l : NetLocal) : Bool :=
  !(readSize m == 0 || decide (l.seekAddr < seekAddr m) ||
    decide (u32 (seekAddr m + readSize m) < u32 (l.seekAddr + l.readSize)))

/-- With no window held, the header takes the address asked for. -/
def primed (m : Mem) (l : NetLocal) : Mem :=
  if seekAddr m = 0 ∧ readSize m = 0 then setSeekAddr m l.seekAddr else m

/-- `NET_OTA_FILE_RESV`: the new window, moved back so that it ends with the bytes asked for. -/
def resv (seek len : Nat) : Nat :=
  if recvBufMaxSize - len < seek then seek - (recvBufMaxSize - len) else seek

/-- The header that asks for a new window. -/
def newWindow (m : Mem) (l : NetLocal) : Mem :=
  setSeekAddr (setReadSize (setAllSize m 0) recvBufMaxSize) (resv l.seekAddr l.readSize)

theorem readSize_newWindow (m : Mem) (l : NetLocal) : readSize (newWindow m l) = recvBufMaxSize := by
  rw [newWindow, readSize_setSeekAddr, readSize_setReadSize]
  rfl

theorem allSize_newWindow (m : Mem) (l : NetLocal) : allSize (newWindow m l) = 0 := by
  rw [newWindow, allSize_setSeekAddr, allSize_setReadSize, allSize_setAllSize]
  rfl

/-- Where `struct net_local` lies, in addresses relative to `NET_TCP_OTA`. -/
def netLocalAt : Nat := 4294967296 - sizeofNetLocal

/-- A memory with `net_local` in its place. -/
def NetLocal.store (l : NetLocal) (m : Mem) : Mem :=
  let m := ((m.set32 (netLocalAt + 4) l.seekAddr).set32 (netLocalAt + 8) l.readSize).set32 (netLocalAt + 12) l.allSize
  let m := m.write (netLocalAt + 16) [UInt8.ofNat l.status, UInt8.ofNat l.downloadPercent]
  m.set32 (netLocalAt + 20) l.buf

/-- `net_local` as it stands in a memory. -/
def NetLocal.load (m : Mem) : NetLocal where
  seekAddr := m.get32 (netLocalAt + 4)
  readSize := m.get32 (netLocalAt + 8)
  allSize := m.get32 (netLocalAt + 12)
  status := (m (netLocalAt + 16)).toNat
  downloadPercent := (m (netLocalAt + 17)).toNat
  buf := m.get32 (netLocalAt + 20)

/-- The source offset of a copy out of the window. -/
def windowOffset (m : Mem) (l : NetLocal) : Nat := u32 (20 + (l.seekAddr + 4294967296 - seekAddr m))

/-- The bytes of such a copy. -/
def windowBytes (m : Mem) (l : NetLocal) : List UInt8 :=
  if windowOffset m l + l.readSize ≤ netLocalAt then m.read (windowOffset m l) l.readSize
  else (l.store m).readAround (windowOffset m l) l.readSize

theorem windowBytes_read {m : Mem} {l : NetLocal} (h : windowOffset m l + l.readSize ≤ netLocalAt) :
    windowBytes m l = m.read (windowOffset m l) l.readSize := if_pos h

/-- `msgsenddata` after the header is prepared: `read_size` is what is put back in it once it is sent. -/
def sendHeader (s : Dev) (ota : Mem) (back : Nat) (noWait sent : Bool) :
    Dev × SendResult × Option (Nat × Nat × Nat) :=
  let m := setStatus (setDownloadPercent ota s.netLocal.downloadPercent) s.netLocal.status
  let m := setSumCheck m (sumget m 4 16)
  let err := if sent then sizeofNetOta else 0
  let request := if sent then some (seekAddr m, readSize m, allSize m) else none
  let m := if back = 0 then m else setReadSize m back
  ({ s with ota := m, readSem := 0 }, if noWait then .ret err else .wait err, request)

/-- `msgsenddata` on `net_local_addr` with the header's length.  `sent` is whether `send_msg` finds room. -/
def msgsenddata (s : Dev) (noWait sent : Bool) : Dev × SendResult × Option (Nat × Nat × Nat) :=
  let l := s.netLocal
  if s.clientPcb then
    if l.status = statusRead then
      if l.allSize = 0 then
        let m := primed s.ota l
        if hit m l then
          ({ s with ota := m, caller := s.caller.write l.buf (windowBytes m l) }, .ret l.readSize, none)
        else
          sendHeader s (newWindow m l) 0 noWait sent
      else sendHeader s (setAllSize s.ota l.allSize) 0 noWait sent
    else
      let back := readSize s.ota
      let m := setReadSize s.ota 0
      sendHeader s (if l.allSize = 0 then m else setAllSize m l.allSize) back noWait sent
  else (s, .ret 0, none)

/-- A hit is served from the header as it stands. -/
theorem primed_of_hit {m : Mem} {l : NetLocal} (h : hit (primed m l) l = true) : primed m l = m := by
  unfold primed at h ⊢
  split at h
  · rename_i h0
    rw [hit, readSize_setSeekAddr, h0.2] at h
    cases h
  · rename_i h0
    exact if_neg h0

theorem msgsenddata_closed {s : Dev} {noWait sent : Bool} (hc : s.clientPcb = false) :
    msgsenddata s noWait sent = (s, .ret 0, none) := if_neg (by rw [hc]; decide)

theorem msgsenddata_hit {s : Dev} {noWait sent : Bool} (hc : s.clientPcb = true) (hst : s.netLocal.status = statusRead)
    (h0 : s.netLocal.allSize = 0) (hh : hit (primed s.ota s.netLocal) s.netLocal = true) :
    msgsenddata s noWait sent =
      ({ s with
          ota := primed s.ota s.netLocal
          caller := s.caller.write s.netLocal.buf (windowBytes (primed s.ota s.netLocal) s.netLocal) },
        .ret s.netLocal.readSize, none) :=
  (if_pos hc).trans ((if_pos hst).trans ((if_pos h0).trans (if_pos hh)))

theorem msgsenddata_miss {s : Dev} {noWait sent : Bool} (hc : s.clientPcb = true) (hst : s.netLocal.status = statusRead)
    (h0 : s.netLocal.allSize = 0) (hh : ¬ hit (primed s.ota s.netLocal) s.netLocal = true) :
    msgsenddata s noWait sent = sendHeader s (newWindow (primed s.ota s.netLocal) s.netLocal) 0 noWait sent :=
  (if_pos hc).trans ((if_pos hst).trans ((if_pos h0).trans (if_neg hh)))

theorem msgsenddata_notice {s : Dev} {noWait sent : Bool} (hc : s.clientPcb = true)
    (hst : s.netLocal.status ≠ statusRead) :
    msgsenddata s noWait sent =
      sendHeader s (if s.netLocal.allSize = 0 then setReadSize s.ota 0 else setAllSize (setReadSize s.ota 0)
        s.netLocal.allSize) (readSize s.ota) noWait sent :=
  (if_pos hc).trans (if_neg hst)

section Sent

variable (s : Dev) (m : Mem) (back : Nat) (noWait sent : Bool)

@[simp] theorem sendHeader_allSize : allSize (sendHeader s m back noWait sent).1.ota = allSize m := by
  simp only [sendHeader]
  split <;> simp

@[simp] theorem sendHeader_seekAddr : seekAddr (sendHeader s m back noWait sent).1.ota = seekAddr m := by
  simp only [sendHeader]
  split <;> simp

theorem sendHeader_readSize :
    readSize (sendHeader s m back noWait sent).1.ota = if back = 0 then readSize m else u32 back := by
  simp only [sendHeader]
  split <;> simp

theorem sendHeader_request :
    (sendHeader s m back noWait true).2.2 = some (seekAddr m, readSize m, allSize m) := by
  simp [sendHeader]

/-- What a sent request asks for, and the header it leaves. -/
theorem sendHeader_sent {s s' : Dev} {m : Mem} {back : Nat} {noWait : Bool} {res : SendResult} {x n a : Nat}
    (h : sendHeader s m back noWait true = (s', res, some (x, n, a))) :
    (x = seekAddr m ∧ n = readSize m ∧ a = allSize m) ∧ seekAddr s'.ota = x ∧ allSize s'.ota = a ∧
      readSize s'.ota = if back = 0 then n else u32 back := by
  have hs : (sendHeader s m back noWait true).1 = s' := by rw [h]
  have hq : some (seekAddr m, readSize m, allSize m) = some (x, n, a) := by
    rw [← sendHeader_request s m back noWait, h]
  simp only [Option.some.injEq, Prod.mk.injEq] at hq
  obtain ⟨rfl, rfl, rfl⟩ := hq
  rw [← hs]
  exact ⟨⟨rfl, rfl, rfl⟩, sendHeader_seekAddr .., sendHeader_allSize .., sendHeader_readSize ..⟩

end Sent

/-! ## Receiving -/

/-- `msgrecvmemcpy`. -/
def msgrecvmemcpy (s : Dev) : Dev × List Access :=
  if status s.ota = statusStop then
    ({ s with netLocal := { s.netLocal with status := status s.ota }, netOtaStop := true, readSem := s.readSem + 1 }, [])
  else if s.netLocal.readSize = 0 then ({ s with readSem := s.readSem + 1 }, [])
  else
    ({ s with caller := s.caller.write s.netLocal.buf (windowBytes s.ota s.netLocal), readSem := s.readSem + 1 },
      [.copy (windowOffset s.ota s.netLocal) s.netLocal.readSize s.netLocal.buf])

theorem msgrecvmemcpy_stop {s : Dev} (h : status s.ota = statusStop) : msgrecvmemcpy s =
    ({ s with netLocal := { s.netLocal with status := status s.ota }, netOtaStop := true, readSem := s.readSem + 1 },
      []) := if_pos h

theorem msgrecvmemcpy_skip {s : Dev} (h : status s.ota ≠ statusStop) (h0 : s.netLocal.readSize = 0) :
    msgrecvmemcpy s = ({ s with readSem := s.readSem + 1 }, []) := (if_neg h).trans (if_pos h0)

theorem msgrecvmemcpy_copy {s : Dev} (h : status s.ota ≠ statusStop) (h0 : s.netLocal.readSize ≠ 0) :
    msgrecvmemcpy s =
      ({ s with
          caller := s.caller.write s.netLocal.buf (windowBytes s.ota s.netLocal)
          readSem := s.readSem + 1 },
        [.copy (windowOffset s.ota s.netLocal) s.netLocal.readSize s.netLocal.buf]) :=
  (if_neg h).trans (if_neg h0)

theorem msgrecvmemcpy_ota (s : Dev) : (msgrecvmemcpy s).1.ota = s.ota := by
  unfold msgrecvmemcpy
  split
  · rfl
  · split <;> rfl

/-- Bytes laid at an offset from `NET_TCP_OTA`; those that reach `net_local` change it. -/
def lay (s : Dev) (pt : Nat) (p : List UInt8) : Dev :=
  if pt + p.length ≤ netLocalAt then { s with ota := s.ota.write pt p }
  else
    let m := (s.netLocal.store s.ota).writeAround pt p
    { s with ota := m, netLocal := .load m }

/-- `msgrecv` with a segment of the OTA client. -/
def msgrecv (s : Dev) (p : List UInt8) : Dev × List Access :=
  if p.length > recvBufMaxSize then (s, [])
  else
    let pt := allSize s.ota
    let s := lay s pt p
    let m := setAllSize s.ota (u32 (allSize s.ota + p.length))
    if allSize m ≥ u32 (readSize m + sizeofNetOta) then
      let m := setAllSize m 0
      let len := u32 (readSize m + sizeofNetOta - 4)
      if sumcheck m 4 len (sumCheck m) then
        let r := msgrecvmemcpy { s with ota := m }
        (r.1, .recv pt p.length :: .sum 4 (rounds len) :: r.2)
      else ({ s with ota := m }, [.recv pt p.length, .sum 4 (rounds len)])
    else ({ s with ota := m }, [.recv pt p.length])

/-! ### What a segment does -/

/-- The device after a segment is laid behind what has been received. -/
def laid (s : Dev) (p : List UInt8) : Dev := lay s (allSize s.ota) p

/-- The header after that, with the receive count as `msgrecv` advances it. -/
def laidOver (s : Dev) (p : List UInt8) : Mem :=
  setAllSize (laid s p).ota (u32 (allSize (laid s p).ota + p.length))

/-- The segment ends below `net_local`. -/
def Below (s : Dev) (p : List UInt8) : Prop := allSize s.ota + p.length ≤ netLocalAt

instance (s : Dev) (p : List UInt8) : Decidable (Below s p) := by unfold Below; infer_instance

theorem laid_below {s : Dev} {p : List UInt8} (h : Below s p) :
    laid s p = { s with ota := s.ota.write (allSize s.ota) p } := if_pos h

theorem laidOver_below {s : Dev} {p : List UInt8} (h : Below s p) :
    laidOver s p = setAllSize (s.ota.write (allSize s.ota) p)
      (u32 (allSize (s.ota.write (allSize s.ota) p) + p.length)) := by
  unfold laidOver
  rw [laid_below h]

/-- A segment that ends below `net_local` changes the OTA memory alone. -/
theorem laid_with {s : Dev} {p : List UInt8} (h : Below s p) (m : Mem) :
    { laid s p with ota := m } = { s with ota := m } := by
  rw [laid_below h]

/-- The segment completes a reply: as many bytes are counted as the header announces. -/
def Completes (s : Dev) (p : List UInt8) : Prop :=
  p.length ≤ recvBufMaxSize ∧ u32 (readSize (laidOver s p) + sizeofNetOta) ≤ allSize (laidOver s p)

/-- The completed reply passes the checksum. -/
def SumOk (s : Dev) (p : List UInt8) : Prop :=
  sumcheck (setAllSize (laidOver s p) 0) 4 (u32 (readSize (laidOver s p) + 16)) (sumCheck (laidOver s p)) = true

instance (s : Dev) (p : List UInt8) : Decidable (Completes s p) := by unfold Completes; infer_instance
instance (s : Dev) (p : List UInt8) : Decidable (SumOk s p) := by unfold SumOk; infer_instance

theorem msgrecv_long {s : Dev} {p : List UInt8} (h : recvBufMaxSize < p.length) : msgrecv s p = (s, []) := if_pos h

theorem msgrecv_growing {s : Dev} {p : List UInt8} (h : p.length ≤ recvBufMaxSize) (hc : ¬ Completes s p) :
    msgrecv s p = ({ laid s p with ota := laidOver s p }, [.recv (allSize s.ota) p.length]) := by
  have hc' : ¬ u32 (readSize (laidOver s p) + sizeofNetOta) ≤ allSize (laidOver s p) := fun h' => hc ⟨h, h'⟩
  unfold msgrecv
  rw [if_neg (Nat.not_lt.2 h)]
  exact if_neg hc'

theorem msgrecv_bad {s : Dev} {p : List UInt8} (hc : Completes s p) (hs : ¬ SumOk s p) :
    msgrecv s p = ({ laid s p with ota := setAllSize (laidOver s p) 0 },
      [.recv (allSize s.ota) p.length, .sum 4 (rounds (u32 (readSize (laidOver s p) + 16)))]) := by
  unfold msgrecv
  rw [if_neg (Nat.not_lt.2 hc.1)]
  simp only [readSize_setAllSize, sumCheck_setAllSize]
  exact (if_pos hc.2).trans (if_neg hs)

theorem msgrecv_accept {s : Dev} {p : List UInt8} (hc : Completes s p) (hs : SumOk s p) :
    msgrecv s p = ((msgrecvmemcpy { laid s p with ota := setAllSize (laidOver s p) 0 }).1,
      .recv (allSize s.ota) p.length :: .sum 4 (rounds (u32 (readSize (laidOver s p) + 16))) ::
        (msgrecvmemcpy { laid s p with ota := setAllSize (laidOver s p) 0 }).2) := by
  unfold msgrecv
  rw [if_neg (Nat.not_lt.2 hc.1)]
  simp only [readSize_setAllSize, sumCheck_setAllSize]
  exact (if_pos hc.2).trans (if_pos hs)

/-- The caller's side is left alone by a segment, but for the stop the client may send. -/
structure SameCall (s s' : Dev) : Prop where
  clientPcb : s'.clientPcb = s.clientPcb
  task      : s'.task = s.task
  buf       : s'.netLocal.buf = s.netLocal.buf
  seekAddr  : s'.netLocal.seekAddr = s.netLocal.seekAddr
  readSize  : s'.netLocal.readSize = s.netLocal.readSize
  allSize   : s'.netLocal.allSize = s.netLocal.allSize

theorem msgrecvmemcpy_sameCall (s : Dev) : SameCall s (msgrecvmemcpy s).1 := by
  unfold msgrecvmemcpy
  split
  · exact ⟨rfl, rfl, rfl, rfl, rfl, rfl⟩
  · split <;> exact ⟨rfl, rfl, rfl, rfl, rfl, rfl⟩

theorem SameCall.trans {s s' s'' : Dev} (h : SameCall s s') (h' : SameCall s' s'') : SameCall s s'' where
  clientPcb := h'.clientPcb.trans h.clientPcb
  task := h'.task.trans h.task
  buf := h'.buf.trans h.buf
  seekAddr := h'.seekAddr.trans h.seekAddr
  readSize := h'.readSize.trans h.readSize
  allSize := h'.allSize.trans h.allSize

/-- `msgrecv` does to the caller's side what laying the segment does. -/
theorem msgrecv_laid {s : Dev} {p : List UInt8} (hlen : p.length ≤ recvBufMaxSize) :
    SameCall (laid s p) (msgrecv s p).1 := by
  by_cases hc : Completes s p
  · by_cases hs : SumOk s p
    · rw [msgrecv_accept hc hs]
      obtain ⟨h1, h2, h3, h4, h5, h6⟩ := msgrecvmemcpy_sameCall { laid s p with ota := setAllSize (laidOver s p) 0 }
      exact ⟨h1, h2, h3, h4, h5, h6⟩
    · rw [msgrecv_bad hc hs]
      exact ⟨rfl, rfl, rfl, rfl, rfl, rfl⟩
  · rw [msgrecv_growing hlen hc]
    exact ⟨rfl, rfl, rfl, rfl, rfl, rfl⟩

theorem laid_sameCall {s : Dev} {p : List UInt8} (h : Below s p) : SameCall s (laid s p) := by
  rw [laid_below h]
  exact ⟨rfl, rfl, rfl, rfl, rfl, rfl⟩

theorem laid_task (s : Dev) (p : List UInt8) : (laid s p).task = s.task ∧ (laid s p).clientPcb = s.clientPcb := by
  unfold laid lay
  split
  · exact ⟨rfl, rfl⟩
  · exact ⟨rfl, rfl⟩

theorem msgrecv_sameCall {s : Dev} {p : List UInt8} (h : Below s p) : SameCall s (msgrecv s p).1 := by
  by_cases hlen : p.length ≤ recvBufMaxSize
  · exact (laid_sameCall h).trans (msgrecv_laid hlen)
  · rw [msgrecv_long (Nat.lt_of_not_le hlen)]
    exact ⟨rfl, rfl, rfl, rfl, rfl, rfl⟩

/-- Whatever a segment overwrites, the call goes on and the connection stays. -/
theorem msgrecv_task (s : Dev) (p : List UInt8) :
    (msgrecv s p).1.task = s.task ∧ (msgrecv s p).1.clientPcb = s.clientPcb := by
  by_cases hlen : p.length ≤ recvBufMaxSize
  · have hlaid := laid_task s p
    have hsame := @msgrecv_laid s p hlen
    exact ⟨hsame.task.trans hlaid.1, hsame.clientPcb.trans hlaid.2⟩
  · rw [msgrecv_long (Nat.lt_of_not_le hlen)]
    exact ⟨rfl, rfl⟩

/-! ## The calls -/

def seekSet : Nat := 1

def netFSeek (s : Dev) (type offset : Nat) : Dev × Int :=
  if s.netLocal.status = statusStop ∨ s.netOtaStop = true then (s, -1)
  else if type = seekSet then ({ s with netLocal := { s.netLocal with seekAddr := offset } }, 0)
  else ({ s with netLocal := { s.netLocal with seekAddr := u32 (s.netLocal.seekAddr + offset) } }, 0)

theorem netFSeek_fst (s : Dev) (type offset : Nat) : ∃ l, (netFSeek s type offset).1 = { s with netLocal := l } := by
  unfold netFSeek
  split
  · exact ⟨_, rfl⟩
  · split
    · exact ⟨_, rfl⟩
    · exact ⟨_, rfl⟩

/-- The progress a read reports: the percentage so far, never falling and below 100. -/
def percent (s : Dev) : Nat :=
  if s.otaAllSize = 0 then s.netLocal.downloadPercent
  else
    let p := max (s.otaReadSize * 100 / s.otaAllSize % 256) s.netLocal.downloadPercent
    if p < 100 then p else 99

/-- The end of `net_f_read`, after `msgsenddata` returned `n`. -/
def readDone (s : Dev) (n : Nat) : Dev × Int :=
  let s := { s with task := .idle }
  if n = 0 then (s, -1)
  else if s.netLocal.status = statusStop ∨ s.netOtaStop = true then (s, -1)
  else
    ({ s with otaReadSize := if s.otaAllSize = 0 then s.otaReadSize else u32 (s.otaReadSize + s.netLocal.readSize) },
      s.netLocal.readSize)

/-- The end of a read changes nothing but the bookkeeping of the progress. -/
theorem readDone_fst (s : Dev) (n : Nat) : ∃ k, (readDone s n).1 = { s with task := .idle, otaReadSize := k } := by
  unfold readDone
  dsimp only
  split
  · exact ⟨_, rfl⟩
  · split
    · exact ⟨_, rfl⟩
    · exact ⟨_, rfl⟩

/-- A read returns a length only if `msgsenddata` returned a count and the update is not stopped. -/
theorem readDone_ret {s : Dev} {n len : Nat} (h : (readDone s n).2 = (len : Int)) :
    n ≠ 0 ∧ s.netOtaStop = false := by
  unfold readDone at h
  dsimp only at h
  split at h
  · omega
  · split at h
    · omega
    · rename_i h0 hst
      exact ⟨h0, by simpa using fun h1 => hst (Or.inr h1)⟩

/-- `net_local` as a read sets it. -/
def asking (s : Dev) (buf len : Nat) : Dev :=
  { s with netLocal := { s.netLocal with
      readSize := len, status := statusRead, buf := buf, allSize := 0, downloadPercent := percent s } }

def netFRead (s : Dev) (buf len : Nat) (sent : Bool) : Dev × Out :=
  if len > netMaxSize then (s, { ret := some (-1) })
  else
    let s := asking s buf len
    if s.netLocal.status = statusStop ∨ s.netOtaStop = true then (s, { ret := some (-1) })
    else
      match msgsenddata s false sent with
      | (s, .ret n, request)    => ((readDone s n).1, { ret := some (readDone s n).2, request := request })
      | (s, .wait err, request) => ({ s with task := .reading buf len err }, { request := request })

theorem netFRead_long {s : Dev} {buf len : Nat} {sent : Bool} (h : netMaxSize < len) :
    netFRead s buf len sent = (s, { ret := some (-1) }) := if_pos h

theorem netFRead_stopped {s : Dev} {buf len : Nat} {sent : Bool} (h : len ≤ netMaxSize) (hs : s.netOtaStop = true) :
    netFRead s buf len sent = (asking s buf len, { ret := some (-1) }) :=
  (if_neg (Nat.not_lt.2 h)).trans (if_pos (Or.inr hs))

theorem netFRead_open {s : Dev} {buf len : Nat} {sent : Bool} (h : len ≤ netMaxSize) (hs : s.netOtaStop = false) :
    netFRead s buf len sent =
      match msgsenddata (asking s buf len) false sent with
      | (s, .ret n, request)    => ((readDone s n).1, { ret := some (readDone s n).2, request := request })
      | (s, .wait err, request) => ({ s with task := .reading buf len err }, { request := request }) := by
  refine (if_neg (Nat.not_lt.2 h)).trans (if_neg ?_)
  rintro (hst | hst)
  · cases hst
  · exact absurd (hs.symm.trans hst) (by decide)

/-- A read that finds its bytes in the window. -/
theorem netFRead_hit {s : Dev} {buf len : Nat} {sent : Bool} (h : len ≤ netMaxSize) (hs : s.netOtaStop = false)
    (hc : s.clientPcb = true)
    (hh : hit (primed s.ota (asking s buf len).netLocal) (asking s buf len).netLocal = true) :
    ∃ s', netFRead s buf len sent = ((readDone s' len).1, { ret := some (readDone s' len).2 }) ∧
      s' = { asking s buf len with
        ota := primed s.ota (asking s buf len).netLocal
        caller := s.caller.write buf
          (windowBytes (primed s.ota (asking s buf len).netLocal) (asking s buf len).netLocal) } := by
  rw [netFRead_open h hs, msgsenddata_hit (s := asking s buf len) hc rfl rfl hh]
  exact ⟨_, rfl, rfl⟩

/-- A read that does not sends the request for a new window and waits. -/
theorem netFRead_miss {s : Dev} {buf len : Nat} {sent : Bool} (h : len ≤ netMaxSize) (hs : s.netOtaStop = false)
    (hc : s.clientPcb = true)
    (hh : ¬ hit (primed s.ota (asking s buf len).netLocal) (asking s buf len).netLocal = true) :
    netFRead s buf len sent =
      ({ (sendHeader (asking s buf len) (newWindow (primed s.ota (asking s buf len).netLocal)
          (asking s buf len).netLocal) 0 false sent).1 with
        task := .reading buf len (if sent then sizeofNetOta else 0) },
      { request := (sendHeader (asking s buf len) (newWindow (primed s.ota (asking s buf len).netLocal)
          (asking s buf len).netLocal) 0 false sent).2.2 }) := by
  rw [netFRead_open h hs, msgsenddata_miss (s := asking s buf len) hc rfl rfl hh]
  rfl

def netFSendUpdateLen (s : Dev) (len : Nat) (sent : Bool) : Dev × Out :=
  if s.netLocal.status = statusStop ∨ s.netOtaStop = true ∨ len = 0 then (s, { ret := some (-1) })
  else
    let s := { s with
      netLocal := { s.netLocal with seekAddr := 0, readSize := 0, allSize := len, status := statusNone }
      otaAllSize := len, otaReadSize := 0 }
    match msgsenddata s false sent with
    | (s, .ret _, request)    => (s, { ret := some 0, request := request })
    | (s, .wait err, request) => ({ s with task := .announcing err }, { request := request })

/-- The last packet of `net_f_stop`, which does not wait for a reply. -/
def sendLastPacket (s : Dev) (failed sent : Bool) : Dev × Out :=
  let s := { s with netLocal := { s.netLocal with status := if failed then statusErr else statusOk } }
  let r := msgsenddata s true sent
  ({ r.1 with task := .lastPacket }, { request := r.2.2 })

/-- The end of `net_f_stop`. -/
def stopDone (s : Dev) : Dev × Out :=
  ({ s with
      ota := s.ota.fill 0 sizeofNetOta 0, clientPcb := false, netOtaStop := false, otaAllSize := 0, otaReadSize := 0
      task := .closed },
    { ret := some 0 })

/-- `net_f_stop`; `failed` is `p != NULL`. -/
def netFStop (s : Dev) (failed sent : Bool) : Dev × Out :=
  let s := { s with netLocal := ⟨0, 0, 0, 0, 0, 0⟩ }
  if s.clientPcb then
    if failed then sendLastPacket s true sent
    else
      let s := { s with netLocal := { s.netLocal with downloadPercent := if s.otaAllSize = 0 then 0 else 100 } }
      match msgsenddata s false sent with
      | (s, .ret n, request)    => ({ s with task := .stopping n }, { request := request })
      | (s, .wait err, request) => ({ s with task := .stopping err }, { request := request })
  else stopDone s

/-! ## The device as a machine -/

/-- `resume` and `timeout` end the wait of the blocked call; `sent` is whether the packet sent next finds room.
`close` is the client closing the connection. -/
inductive Ev where
  | seek (type offset : Nat)
  | read (buf len : Nat) (sent : Bool)
  | announce (len : Nat) (sent : Bool)
  | stop (failed sent : Bool)
  | resume (sent : Bool)
  | timeout (sent : Bool)
  | finish
  | segment (p : List UInt8)
  | close

/-- The blocked call goes on; `got` is whether `os_sem_pend` took the semaphore. -/
def wake (s : Dev) (got sent : Bool) : Option (Dev × Out) :=
  match s.task with
  | .reading _ _ err =>
    let r := readDone s (if got then err else 0)
    some (r.1, { ret := some r.2 })
  | .announcing _ => some ({ s with task := .idle }, { ret := some 0 })
  | .stopping _   => some (sendLastPacket s false sent)
  | _             => none

def step (s : Dev) : Ev → Option (Dev × Out)
  | .seek type offset =>
    if s.task = .idle then some ((netFSeek s type offset).1, { ret := some (netFSeek s type offset).2 }) else none
  | .read buf len sent => if s.task = .idle then some (netFRead s buf len sent) else none
  | .announce len sent => if s.task = .idle then some (netFSendUpdateLen s len sent) else none
  | .stop failed sent => if s.task = .idle then some (netFStop s failed sent) else none
  | .resume sent => if 0 < s.readSem then wake { s with readSem := s.readSem - 1 } true sent else none
  | .timeout sent => if s.readSem = 0 then wake s false sent else none
  | .finish => if s.task = .lastPacket then some (stopDone s) else none
  | .segment p =>
    if s.clientPcb = true then
      let r := msgrecv s p
      some (r.1, { accesses := r.2 })
    else none
  | .close => if s.clientPcb = true then some ({ s with clientPcb := false }, {}) else none

/-- What a step is, event by event. -/
def Took (s : Dev) (r : Dev × Out) : Ev → Prop
  | .seek type offset  => s.task = .idle ∧ r = ((netFSeek s type offset).1, { ret := some (netFSeek s type offset).2 })
  | .read buf len sent => s.task = .idle ∧ r = netFRead s buf len sent
  | .announce len sent => s.task = .idle ∧ r = netFSendUpdateLen s len sent
  | .stop failed sent  => s.task = .idle ∧ r = netFStop s failed sent
  | .resume sent       => 0 < s.readSem ∧ wake { s with readSem := s.readSem - 1 } true sent = some r
  | .timeout sent      => s.readSem = 0 ∧ wake s false sent = some r
  | .finish            => s.task = .lastPacket ∧ r = stopDone s
  | .segment p         => s.clientPcb = true ∧ r = ((msgrecv s p).1, { accesses := (msgrecv s p).2 })
  | .close             => s.clientPcb = true ∧ r = ({ s with clientPcb := false }, {})

theorem took_of_ite {c : Prop} [Decidable c] {r r' : Dev × Out} (h : (if c then some r' else none) = some r) :
    c ∧ r = r' := by
  split at h
  · exact ⟨‹_›, (Option.some.inj h).symm⟩
  · cases h

theorem step_took {s : Dev} {e : Ev} {r : Dev × Out} (h : step s e = some r) : Took s r e := by
  cases e with
  | resume sent =>
    simp only [step] at h
    split at h
    · exact ⟨‹_›, h⟩
    · cases h
  | timeout sent =>
    simp only [step] at h
    split at h
    · exact ⟨‹_›, h⟩
    · cases h
  | _ => exact took_of_ite h

def machine : Machine Dev Ev Out := ⟨step⟩

/-- The bytes from `NET_TCP_OTA` to the end of the OTA memory. -/
def room : Nat := bufMaxSize - sizeofNetLocal

/-- The state in which `net_f_open` returns: the OTA memory is zero but for the progress, and a client is connected.
`ram` is what lies beyond the OTA memory. -/
def opened (ram caller : Mem) : Dev where
  ota := ram.fill 0 room 0
  caller := caller
  netLocal := ⟨0, 0, 0, 0, 1, 0⟩
  clientPcb := true
  netOtaStop := false
  otaAllSize := 0
  otaReadSize := 0
  readSem := 0
  task := .idle

end Ap
end OtaLoader
