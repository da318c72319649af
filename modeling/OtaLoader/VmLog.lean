import Mathlib.Algebra.GroupWithZero.Nat
import OtaLoader.Loop
import OtaLoader.VmRecover
/-!
# VmLog — scanning the flash for the VM log (vm_wifi.c)

`vm_area_info_find` looks for the VM area (the one the bootloader names, else the last sector, else the other sectors
from the end of the flash down), replays its records over the table's buffers and publishes the area.  The area it
selects and what its log holds are stated first in terms of the flash alone (`select`, `recordsAt`); `returns_scan` is
that the loop computes them.

`spi0flash_read` is exact, `doe` with key 0 changes nothing, `CRC16` is a function of the bytes.  The capability of the
flash is a whole number of sectors and far below 2^32, so that no sum wraps and no subtraction of a sector underflows.
-/
namespace OtaLoader
namespace Vm

/-- `struct vm_find_index`; the buffer itself is found by the index. -/
structure VmFindIndex where
  index   : Nat
  bufSize : Nat
deriving DecidableEq

/-- `sizeof(struct wifi_store_info)`: packed, two enums, two passwords, two SSIDs and two bytes. -/
def wifiInfo : VmFindIndex := ⟨195, 4 + 2 * 64 + 2 * 33 + 4 + 1 + 1⟩

def httpUrl : VmFindIndex := ⟨245, 2048⟩

def vmFindIndexTable : List VmFindIndex := [wifiInfo, httpUrl]

def vmMagicUsing : Nat := 0x55AAAA55

def labelIndexLenCrcSize : Nat := 4

def flashSectorSize : Nat := 4096

/-! ## vm_area_info_index_find -/

abbrev Bufs := Nat → List UInt8

def zeros (n : Nat) : List UInt8 := List.replicate n 0

/-- `static` buffers. -/
def initBufs : Bufs := fun i =>
  match vmFindIndexTable.find? (·.index == i) with
  | some e => zeros e.bufSize
  | none   => []

def setBuf (bufs : Bufs) (i : Nat) (b : List UInt8) : Bufs := fun j => if j = i then b else bufs j

/-- `vm_area_info_index_find`: the buffers after it, and `find`.  A record that fails the check clears the whole
buffer. -/
def vmAreaInfoIndexFind (crc16 : List UInt8 → Nat) (flash : Mem) (index addr : Nat) (vmCrc : UInt8) (vmSize : Nat)
    (bufs : Bufs) : Bufs × Bool :=
  match vmFindIndexTable.find? (·.index == index) with
  | none => (bufs, false)
  | some e =>
    let size := min e.bufSize vmSize
    let buf := flash.read addr size ++ (bufs index).drop size
    if vmCrc ≠ UInt8.ofNat (crc16 (buf.take size)) then (setBuf bufs index (zeros e.bufSize), false)
    else (setBuf bufs index buf, true)

/-! ## vm_area_info_find -/

/-- The locals of `vm_area_info_find` that live across rounds, the published area and the buffers.  `setp` is added to
`addr` where the source sets it. -/
structure Scan where
  addr           : Nat
  endAddr        : Nat
  lastSecterAddr : Nat
  lastVmAddr     : Nat
  vmUsedSize     : Nat
  redoCnt        : Nat
  findVm         : Bool
  find           : Bool
  vmAddr         : Nat
  vmLen          : Nat
  bufs           : Bufs

def labelCrc (flash : Mem) (addr : Nat) : UInt8 := flash addr

def labelIndex (flash : Mem) (addr : Nat) : Nat := (flash (addr + 1)).toNat + 256 * ((flash (addr + 2)).toNat % 16)

def labelLen (flash : Mem) (addr : Nat) : Nat := 16 * (flash (addr + 3)).toNat + (flash (addr + 2)).toNat / 16

section Find

variable (flash : Mem) (crc16 : List UInt8 → Nat) (sectors : Nat) (powerOff : Bool)

def getFlashCapability : Nat := flashSectorSize * sectors

/-- The code at `next_sector:`. -/
def nextSector (s : Scan) : Scan ⊕ Scan :=
  let s := if s.findVm = true ∧ s.find = false ∧ s.redoCnt < 2 then
      { s with findVm := false, find := false, redoCnt := s.redoCnt + 1, lastSecterAddr := getFlashCapability sectors }
    else s
  if s.findVm = false then
    let below := s.lastSecterAddr - flashSectorSize
    let last := if s.lastVmAddr ≠ 0 ∧ s.lastVmAddr = below then below - flashSectorSize else below
    .inl { s with lastSecterAddr := last, addr := last, endAddr := last + flashSectorSize, vmAddr := last,
                  vmLen := s.vmUsedSize }
  else .inr s

/-- From `find_vm = TRUE` to the end of the loop body. -/
def readLabel (s : Scan) : Scan ⊕ Scan :=
  let s := { s with lastVmAddr := if s.lastVmAddr = 0 then s.vmAddr else s.lastVmAddr, findVm := true }
  let vmLen := labelLen flash s.addr
  if labelIndex flash s.addr > 1024 then nextSector sectors s
  else
    let r := vmAreaInfoIndexFind crc16 flash (labelIndex flash s.addr) (s.addr + labelIndexLenCrcSize)
      (labelCrc flash s.addr) vmLen s.bufs
    let used := s.vmUsedSize + (vmLen + labelIndexLenCrcSize)
    .inl { s with bufs := r.1, find := s.find || r.2, vmUsedSize := used,
                  vmLen := if powerOff = true then used else s.vmLen,
                  addr := s.addr + (vmLen + labelIndexLenCrcSize) }

/-- One round of the `for` loop, its condition first. -/
def scanBody (s : Scan) : Scan ⊕ Scan :=
  if s.addr ≠ 0 ∧ s.addr < s.endAddr then
    if s.findVm = false then
      let s' := { s with addr := s.addr + labelIndexLenCrcSize }
      if flash.get32 s.vmAddr ≠ vmMagicUsing then nextSector sectors s'
      else readLabel flash crc16 sectors powerOff s'
    else readLabel flash crc16 sectors powerOff s
  else .inr s

end Find

/-- `vm_addr_info` is not above the application's code: the last sector is taken instead. -/
def powerOff (appCodeAddr bootAddr : Nat) : Bool := decide (bootAddr ≤ appCodeAddr)

/-- The state before the loop; `(bootAddr, bootLen)` is what `vm_addr_info_save` kept. -/
def scanStart (sectors appCodeAddr bootAddr bootLen : Nat) : Scan :=
  let off := powerOff appCodeAddr bootAddr
  let vmAddr := if off = true then getFlashCapability sectors - flashSectorSize else bootAddr
  let vmLen := if off = true then flashSectorSize else bootLen
  { addr := vmAddr, endAddr := vmAddr + vmLen,
    lastSecterAddr := getFlashCapability sectors, lastVmAddr := 0, vmUsedSize := labelIndexLenCrcSize, redoCnt := 0,
    findVm := false, find := false, vmAddr := vmAddr, vmLen := vmLen, bufs := initBufs }

/-- `vm_area_info_find`: the state it leaves.  With `vm_addr` 0 it returns before the loop, as the loop's own condition
does. -/
def VmAreaInfoFind (flash : Mem) (crc16 : List UInt8 → Nat) (sectors appCodeAddr bootAddr bootLen : Nat) (r : Scan) :
    Prop :=
  Loop.Returns (scanBody flash crc16 sectors (powerOff appCodeAddr bootAddr))
    (scanStart sectors appCodeAddr bootAddr bootLen) r

/-! ## The log of an area, read off the flash -/

structure Record where
  crc   : UInt8
  index : Nat
  data  : List UInt8
  index_le  : index ≤ 1024
  length_lt : data.length < 4096

def Record.size (r : Record) : Nat := r.data.length + labelIndexLenCrcSize

def total (rs : List Record) : Nat := (rs.map Record.size).sum

theorem labelLen_lt (flash : Mem) (addr : Nat) : labelLen flash addr < 4096 := by
  have h2 := (flash (addr + 2)).toNat_lt
  have h3 := (flash (addr + 3)).toNat_lt
  unfold labelLen
  omega

def recordAt (flash : Mem) (addr : Nat) (h : ¬ labelIndex flash addr > 1024) : Record where
  crc   := labelCrc flash addr
  index := labelIndex flash addr
  data  := flash.read (addr + labelIndexLenCrcSize) (labelLen flash addr)
  index_le  := Nat.not_lt.1 h
  length_lt := by rw [Mem.length_read]; exact labelLen_lt flash addr

/-- The records from a label on, and whether a closing label ends them before the area does. -/
def parse (flash : Mem) (endAddr : Nat) : Nat → Nat → List Record × Bool
  | 0, _ => ([], false)
  | n + 1, addr =>
    if h : labelIndex flash addr > 1024 then ([], true)
    else
      let r := recordAt flash addr h
      if addr + r.size < endAddr then
        let p := parse flash endAddr n (addr + r.size)
        (r :: p.1, p.2)
      else ([r], false)

/-- The records of the area from `a` to `e`, behind its magic word. -/
def recordsAt (flash : Mem) (a e : Nat) : List Record :=
  (parse flash e (e - a + 1) (a + labelIndexLenCrcSize)).1

def closedAt (flash : Mem) (a e : Nat) : Bool := (parse flash e (e - a + 1) (a + labelIndexLenCrcSize)).2

section Replay

variable (crc16 : List UInt8 → Nat)

/-- The check of the code: over the bytes that fit the buffer. -/
def accepted (e : VmFindIndex) (r : Record) : Bool := decide (r.crc = UInt8.ofNat (crc16 (r.data.take e.bufSize)))

def hit (r : Record) : Bool :=
  match vmFindIndexTable.find? (·.index == r.index) with
  | none   => false
  | some e => accepted crc16 e r

def putRecord (bufs : Bufs) (r : Record) : Bufs :=
  match vmFindIndexTable.find? (·.index == r.index) with
  | none   => bufs
  | some e =>
    setBuf bufs r.index (if accepted crc16 e r = true then
      r.data.take e.bufSize ++ (bufs r.index).drop (min e.bufSize r.data.length) else zeros e.bufSize)

def replay (bufs : Bufs) (rs : List Record) : Bufs := rs.foldl (putRecord crc16) bufs

end Replay

/-! ## The area the scan selects -/

/-- The last sector below the `k`-th that starts with the magic word; neither sector 0 nor `skip`. -/
def findSector (flash : Mem) (skip : Nat) : Nat → Option Nat
  | 0     => none
  | k + 1 =>
    if k = 0 then none
    else if flashSectorSize * k ≠ skip ∧ flash.get32 (flashSectorSize * k) = vmMagicUsing then
      some (flashSectorSize * k)
    else findSector flash skip k

/-- An area the scan enters: found by scanning or not, and the space accounted for before its first record. -/
structure Area where
  vmAddr  : Nat
  endAddr : Nat
  scanned : Bool
  used    : Nat

namespace Area

def sector (a used : Nat) : Area := ⟨a, a + flashSectorSize, true, used⟩

variable (flash : Mem) (crc16 : List UInt8 → Nat) (A : Area)

def records : List Record := recordsAt flash A.vmAddr A.endAddr

/-- The scan stays with the area: its log is not closed, or a buffer was filled from it. -/
def settles : Bool := !closedAt flash A.vmAddr A.endAddr || (A.records flash).any (hit crc16)

/-- The space accounted for once the area's records are parsed. -/
def usedAfter : Nat := A.used + total (A.records flash)

end Area

section Select

variable (flash : Mem) (crc16 : List UInt8 → Nat) (sectors appCodeAddr bootAddr bootLen : Nat)

def startAddr : Nat :=
  if powerOff appCodeAddr bootAddr = true then getFlashCapability sectors - flashSectorSize else bootAddr

def startLen : Nat := if powerOff appCodeAddr bootAddr = true then flashSectorSize else bootLen

/-- The first area with the magic word: where the scan starts, else the first sector from the end of the flash down. -/
def firstArea : Option Area :=
  let a := startAddr sectors appCodeAddr bootAddr
  let len := startLen appCodeAddr bootAddr bootLen
  if a = 0 ∨ len = 0 then none
  else if flash.get32 a = vmMagicUsing then some ⟨a, a + len, false, labelIndexLenCrcSize⟩
  else (findSector flash 0 sectors).map (Area.sector · labelIndexLenCrcSize)

/-- The area after one that does not settle.  The third round finds the same sector again. -/
def nextArea (A : Area) : Option Area :=
  (findSector flash A.vmAddr sectors).map fun b =>
    let B := Area.sector b (A.usedAfter flash)
    if B.settles flash crc16 = true then B else Area.sector b (B.usedAfter flash)

def select : Option Area :=
  (firstArea flash sectors appCodeAddr bootAddr bootLen).bind fun A =>
    if A.settles flash crc16 = true then some A else nextArea flash crc16 sectors A

end Select

/-! ## One record, one area -/

@[simp] theorem length_zeros (n : Nat) : (zeros n).length = n := List.length_replicate

@[simp] theorem total_nil : total [] = 0 := rfl

@[simp] theorem total_cons (r : Record) (rs : List Record) : total (r :: rs) = r.size + total rs := rfl

section Loop

variable {flash : Mem} {crc16 : List UInt8 → Nat} {sectors : Nat} {off : Bool}

open OtaLoader.Loop (Reaches Returns)

/-- The table's buffers after a record are what `putRecord` says of the record read from the flash. -/
theorem vmAreaInfoIndexFind_eq (bufs : Bufs) {addr : Nat} (h : ¬ labelIndex flash addr > 1024) :
    vmAreaInfoIndexFind crc16 flash (labelIndex flash addr) (addr + labelIndexLenCrcSize) (labelCrc flash addr)
      (labelLen flash addr) bufs =
      (putRecord crc16 bufs (recordAt flash addr h), hit crc16 (recordAt flash addr h)) := by
  unfold vmAreaInfoIndexFind putRecord hit
  have hi : (recordAt flash addr h).index = labelIndex flash addr := rfl
  rw [hi]
  cases vmFindIndexTable.find? (·.index == labelIndex flash addr) with
  | none   => rfl
  | some e =>
    have hd : (recordAt flash addr h).data.take e.bufSize =
        flash.read (addr + labelIndexLenCrcSize) (min e.bufSize (labelLen flash addr)) := by
      simp [recordAt, Mem.read, ← List.map_take, List.take_range]
    have hl : (recordAt flash addr h).data.length = labelLen flash addr := by simp [recordAt]
    have ht : ∀ cs : List UInt8, (flash.read (addr + labelIndexLenCrcSize) (min e.bufSize (labelLen flash addr)) ++
        cs).take (min e.bufSize (labelLen flash addr)) =
          flash.read (addr + labelIndexLenCrcSize) (min e.bufSize (labelLen flash addr)) := by
      intro cs
      rw [List.take_append_of_le_length (by simp), List.take_of_length_le (by simp)]
    dsimp only
    rw [ht, accepted, hd, hl]
    by_cases hc : labelCrc flash addr = UInt8.ofNat (crc16 (flash.read (addr + labelIndexLenCrcSize)
        (min e.bufSize (labelLen flash addr))))
    · simp [hc, recordAt]
    · simp [hc, recordAt]

/-- The state after the records `rs` of an area that has been entered. -/
def took (crc16 : List UInt8 → Nat) (off : Bool) (s : Scan) (rs : List Record) : Scan :=
  { s with
    addr       := s.addr + total rs
    vmUsedSize := s.vmUsedSize + total rs
    find       := s.find || rs.any (hit crc16)
    bufs       := replay crc16 s.bufs rs
    vmLen      := if off = true ∧ rs ≠ [] then s.vmUsedSize + total rs else s.vmLen }

theorem took_nil (s : Scan) : took crc16 off s [] = s := by simp [took, replay]

theorem took_cons (s : Scan) (r : Record) (rs : List Record) :
    took crc16 off (took crc16 off s [r]) rs = took crc16 off s (r :: rs) := by
  by_cases hoff : off = true <;> cases rs <;> simp [took, replay, hoff, Nat.add_assoc, Bool.or_assoc]

/-- `find_vm = TRUE`, with `last_vm_addr` kept once it is set. -/
def entered (s : Scan) : Scan :=
  { s with lastVmAddr := if s.lastVmAddr = 0 then s.vmAddr else s.lastVmAddr, findVm := true }

theorem entered_self {s : Scan} (hf : s.findVm = true) (hl : s.lastVmAddr ≠ 0) : entered s = s := by
  cases s
  simp_all [entered]

theorem readLabel_stop {s : Scan} (h : labelIndex flash s.addr > 1024) :
    readLabel flash crc16 sectors off s = nextSector sectors (entered s) := by
  unfold readLabel entered
  simp only [if_pos h]

theorem readLabel_record {s : Scan} (h : ¬ labelIndex flash s.addr > 1024) :
    readLabel flash crc16 sectors off s = .inl (took crc16 off (entered s) [recordAt flash s.addr h]) := by
  have hs : (recordAt flash s.addr h).size = labelLen flash s.addr + labelIndexLenCrcSize := by
    simp [Record.size, recordAt]
  unfold readLabel
  simp only [if_neg h, vmAreaInfoIndexFind_eq _ h]
  simp [took, entered, hs, replay]

/-- How the loop goes on from a state: it comes to another one, or leaves. -/
def Goes (flash : Mem) (crc16 : List UInt8 → Nat) (sectors : Nat) (off : Bool) (s : Scan) : Scan ⊕ Scan → Prop
  | .inl s' => Reaches (scanBody flash crc16 sectors off) s s'
  | .inr r  => Returns (scanBody flash crc16 sectors off) s r

theorem goes_body {s : Scan} {x : Scan ⊕ Scan} (h : scanBody flash crc16 sectors off s = x) :
    Goes flash crc16 sectors off s x := by
  cases x with
  | inl s' => exact Reaches.one h
  | inr r  => exact Loop.returns_of_done h

theorem Goes.after {s s' : Scan} {x : Scan ⊕ Scan} (h : scanBody flash crc16 sectors off s = .inl s')
    (hx : Goes flash crc16 sectors off s' x) : Goes flash crc16 sectors off s x := by
  cases x with
  | inl t => exact (Reaches.one h).trans hx
  | inr r => exact (Loop.returns_step h).2 hx

/-- What follows the records of an area: the code at `next_sector`, or the end of the loop. -/
def atEnd (crc16 : List UInt8 → Nat) (sectors : Nat) (off : Bool) (s : Scan) (p : List Record × Bool) : Scan ⊕ Scan :=
  if p.2 = true then nextSector sectors (took crc16 off s p.1) else .inr (took crc16 off s p.1)

/-- **The loop goes through the records of an area** one by one, from a round that comes to read a label. -/
theorem goes_labels : ∀ (n : Nat) (s u : Scan), scanBody flash crc16 sectors off s = readLabel flash crc16 sectors off u →
    u.addr ≠ 0 → (entered u).lastVmAddr ≠ 0 → u.endAddr - u.addr ≤ n →
      Goes flash crc16 sectors off s
        (atEnd crc16 sectors off (entered u) (parse flash u.endAddr (n + 1) u.addr)) := by
  intro n
  induction n with
  | zero =>
    intro s u hbody ha hl hn
    by_cases hi : labelIndex flash u.addr > 1024
    · rw [readLabel_stop hi] at hbody
      simpa [parse, hi, atEnd, took_nil] using goes_body hbody
    · rw [readLabel_record hi] at hbody
      refine Goes.after hbody (goes_body ?_)
      have hin : ¬ u.addr + (recordAt flash u.addr hi).size < u.endAddr := by omega
      simp [scanBody, parse, hi, hin, atEnd, took, entered]
  | succ n ih =>
    intro s u hbody ha hl hn
    by_cases hi : labelIndex flash u.addr > 1024
    · rw [readLabel_stop hi] at hbody
      simpa [parse, hi, atEnd, took_nil] using goes_body hbody
    · rw [readLabel_record hi] at hbody
      refine Goes.after hbody ?_
      by_cases hin : u.addr + (recordAt flash u.addr hi).size < u.endAddr
      · have hpos : 0 < (recordAt flash u.addr hi).size := Nat.succ_pos _
        generalize ht : took crc16 off (entered u) [recordAt flash u.addr hi] = t
        have haddr : t.addr = u.addr + (recordAt flash u.addr hi).size := by simp [← ht, took, entered]
        have hend : t.endAddr = u.endAddr := by rw [← ht]; rfl
        have hf : t.findVm = true := by rw [← ht]; rfl
        have hlt : t.lastVmAddr ≠ 0 := by rw [← ht]; exact hl
        have hstep : scanBody flash crc16 sectors off t = readLabel flash crc16 sectors off t := by
          unfold scanBody
          rw [if_pos ⟨by omega, by omega⟩, if_neg (by simp [hf])]
        have hrest := ih t t hstep (by omega) (by rw [entered_self hf hlt]; exact hlt) (by omega)
        rw [entered_self hf hlt, haddr, hend] at hrest
        rw [parse, dif_neg hi, if_pos hin]
        unfold atEnd at hrest ⊢
        simpa only [← ht, took_cons] using hrest
      · refine goes_body ?_
        simp [scanBody, parse, hi, hin, atEnd, took, entered]

/-- **One area**: with its magic word in place, the loop reads the area's log to its end. -/
theorem goes_area {s : Scan} (hf : s.findVm = false) (ha : s.addr ≠ 0) (hv : s.vmAddr = s.addr)
    (hlt : s.addr < s.endAddr) (hm : flash.get32 s.vmAddr = vmMagicUsing) :
    Goes flash crc16 sectors off s (atEnd crc16 sectors off
      (entered { s with addr := s.addr + labelIndexLenCrcSize })
      (recordsAt flash s.vmAddr s.endAddr, closedAt flash s.vmAddr s.endAddr)) := by
  have hbody : scanBody flash crc16 sectors off s =
      readLabel flash crc16 sectors off { s with addr := s.addr + labelIndexLenCrcSize } := by
    unfold scanBody
    rw [if_pos ⟨ha, hlt⟩, if_pos hf]
    simp [hm]
  have hl : (entered { s with addr := s.addr + labelIndexLenCrcSize }).lastVmAddr ≠ 0 := by
    unfold entered
    dsimp only
    split <;> omega
  have hrec := goes_labels (s.endAddr - s.addr) s _ hbody (Nat.succ_ne_zero _) hl (Nat.sub_le_sub_left (Nat.le_add_right ..) _)
  have hp : parse flash s.endAddr (s.endAddr - s.addr + 1) (s.addr + labelIndexLenCrcSize) =
      (recordsAt flash s.vmAddr s.endAddr, closedAt flash s.vmAddr s.endAddr) := by
    simp only [recordsAt, closedAt, hv]
  rw [hp] at hrec
  exact hrec

/-! ## From sector to sector -/

/-- `next_sector` went on to the sector `c`. -/
def moved (s : Scan) (c : Nat) : Scan :=
  { s with lastSecterAddr := c, addr := c, endAddr := c + flashSectorSize, vmAddr := c, vmLen := s.vmUsedSize }

def below (skip c : Nat) : Nat :=
  if skip ≠ 0 ∧ skip = c - flashSectorSize then c - flashSectorSize - flashSectorSize else c - flashSectorSize

theorem nextSector_search {s : Scan} (hf : s.findVm = false) :
    nextSector sectors s = .inl (moved s (below s.lastVmAddr s.lastSecterAddr)) := by
  unfold nextSector moved below
  simp [hf]

/-- A round in an area without the magic word. -/
theorem round_search {s : Scan} (hf : s.findVm = false) (ha : s.addr ≠ 0 ∧ s.addr < s.endAddr)
    (hm : flash.get32 s.vmAddr ≠ vmMagicUsing) :
    scanBody flash crc16 sectors off s = .inl (moved s (below s.lastVmAddr s.lastSecterAddr)) := by
  unfold scanBody
  rw [if_pos ha, if_pos hf]
  dsimp only
  rw [if_pos hm]
  exact nextSector_search (s := { s with addr := s.addr + labelIndexLenCrcSize }) hf

/-- The scan starts again. -/
def again (sectors : Nat) (s : Scan) : Scan :=
  { s with findVm := false, find := false, redoCnt := s.redoCnt + 1, lastSecterAddr := getFlashCapability sectors }

theorem nextSector_redo {s : Scan} (h : s.findVm = true ∧ s.find = false ∧ s.redoCnt < 2) :
    nextSector sectors s = .inl (moved (again sectors s) (below s.lastVmAddr (getFlashCapability sectors))) := by
  rw [nextSector, if_pos h]
  exact @nextSector_search sectors (again sectors s) rfl

theorem nextSector_stop {s : Scan} (hf : s.findVm = true) (h : s.find = true ∨ ¬ s.redoCnt < 2) :
    nextSector sectors s = .inr s := by
  have hstay : ¬ (s.findVm = true ∧ s.find = false ∧ s.redoCnt < 2) := by
    rintro ⟨_, hfind, hr⟩
    rcases h with h | h
    · rw [h] at hfind
      cases hfind
    · exact h hr
  rw [nextSector, if_neg hstay]
  simp [hf]

theorem below_succ {skip k : Nat} (h : flashSectorSize * k ≠ skip) :
    below skip (flashSectorSize * (k + 1)) = flashSectorSize * k := by
  unfold below flashSectorSize at *
  rw [if_neg (by omega)]
  omega

/-- **The search for a sector** ends at the one `findSector` names, or at address 0. -/
theorem reaches_sector (s : Scan) (hf : s.findVm = false) : ∀ k,
    Reaches (scanBody flash crc16 sectors off) (moved s (below s.lastVmAddr (flashSectorSize * k)))
      (moved s ((findSector flash s.lastVmAddr k).getD 0)) := by
  intro k
  induction k with
  | zero =>
    have : below s.lastVmAddr (flashSectorSize * 0) = 0 := by unfold below flashSectorSize; split <;> omega
    rw [this]
    exact Reaches.refl _
  | succ k ih =>
    by_cases h0 : k = 0
    · have hb : below s.lastVmAddr (flashSectorSize * (k + 1)) = 0 := by
        unfold below flashSectorSize; split <;> omega
      rw [hb, findSector, if_pos h0]
      exact Reaches.refl _
    rw [findSector, if_neg h0]
    by_cases hs : flashSectorSize * k = s.lastVmAddr
    · -- the skipped sector: the search continues below it
      rw [if_neg (by simp [hs])]
      have hb : below s.lastVmAddr (flashSectorSize * (k + 1)) = below s.lastVmAddr (flashSectorSize * k) := by
        unfold below flashSectorSize at *
        rw [if_pos (by omega), if_neg (by omega)]
        omega
      rw [hb]
      exact ih
    · rw [below_succ hs]
      by_cases hm : flash.get32 (flashSectorSize * k) = vmMagicUsing
      · rw [if_pos ⟨hs, hm⟩]
        exact Reaches.refl _
      · rw [if_neg (by simp [hm])]
        have hpos : flashSectorSize * k ≠ 0 := by unfold flashSectorSize; omega
        have hround := @round_search flash crc16 sectors off (moved s (flashSectorSize * k)) hf
          ⟨hpos, Nat.lt_add_of_pos_right (by decide)⟩ hm
        exact (Reaches.one hround).trans ih

/-- The state in which the loop comes to an area, after `redo` areas that did not settle. -/
def atArea (A : Area) (lastSecterAddr lastVmAddr redo vmLen : Nat) : Scan :=
  { addr := A.vmAddr, endAddr := A.endAddr, lastSecterAddr := lastSecterAddr, lastVmAddr := lastVmAddr,
    vmUsedSize := A.used, redoCnt := redo, findVm := false, find := false, vmAddr := A.vmAddr, vmLen := vmLen,
    bufs := initBufs }

theorem putRecord_zeros {r : Record} (h : hit crc16 r = false) : putRecord crc16 initBufs r = initBufs := by
  unfold putRecord
  cases hf : vmFindIndexTable.find? (·.index == r.index) with
  | none   => rfl
  | some e =>
    simp only [hit, hf] at h
    funext j
    simp only [setBuf, h]
    split
    · rename_i hj
      rw [hj, initBufs, hf]
      rfl
    · rfl

/-- Records that fill no buffer leave the buffers as they were at the start. -/
theorem replay_zeros {rs : List Record} (h : rs.any (hit crc16) = false) : replay crc16 initBufs rs = initBufs := by
  induction rs with
  | nil => rfl
  | cons r rs ih =>
    rw [List.any_cons, Bool.or_eq_false_iff] at h
    rw [replay, List.foldl_cons, putRecord_zeros h.1]
    exact ih h.2

/-- The state once the records of the area are parsed. -/
def leaving (flash : Mem) (crc16 : List UInt8 → Nat) (off : Bool) (A : Area) (s : Scan) : Scan :=
  took crc16 off (entered { s with addr := s.addr + labelIndexLenCrcSize }) (A.records flash)

structure Area.Found (flash : Mem) (A : Area) : Prop where
  addr_ne : A.vmAddr ≠ 0
  addr_lt : A.vmAddr < A.endAddr
  magic   : flash.get32 A.vmAddr = vmMagicUsing

/-- An area that settles, or is the third, is where the scan ends. -/
theorem returns_settled {A : Area} {c skip redo len : Nat} (h : A.Found flash)
    (hs : A.settles flash crc16 = true ∨ redo = 2) :
    Returns (scanBody flash crc16 sectors off) (atArea A c skip redo len)
      (leaving flash crc16 off A (atArea A c skip redo len)) := by
  have hgo := @goes_area flash crc16 sectors off (atArea A c skip redo len) rfl h.addr_ne rfl h.addr_lt h.magic
  by_cases hc : closedAt flash A.vmAddr A.endAddr = true
  · have hstop : nextSector sectors (leaving flash crc16 off A (atArea A c skip redo len)) =
        .inr (leaving flash crc16 off A (atArea A c skip redo len)) := by
      refine nextSector_stop rfl ?_
      rcases hs with hs | hs
      · left
        have hh : (A.records flash).any (hit crc16) = true := by simpa [Area.settles, hc] using hs
        simp only [leaving, took, entered, atArea, hh, Bool.or_true]
      · right
        simp only [leaving, took, entered, atArea]
        omega
    rw [atEnd, if_pos (by exact hc)] at hgo
    change Goes flash crc16 sectors off _
      (nextSector sectors (leaving flash crc16 off A (atArea A c skip redo len))) at hgo
    rw [hstop] at hgo
    exact hgo
  · rw [atEnd, if_neg (by exact hc)] at hgo
    exact hgo

/-- An area that does not settle: the scan starts again from the end of the flash, without the first area found. -/
theorem reaches_redo {A B : Area} {c skip redo len : Nat} (h : A.Found flash) (hs : A.settles flash crc16 = false)
    (hr : redo < 2) (hB : B = Area.sector ((findSector flash (if skip = 0 then A.vmAddr else skip) sectors).getD 0)
      (A.usedAfter flash)) :
    Reaches (scanBody flash crc16 sectors off) (atArea A c skip redo len)
      (atArea B B.vmAddr (if skip = 0 then A.vmAddr else skip) (redo + 1) B.used) := by
  have hgo := @goes_area flash crc16 sectors off (atArea A c skip redo len) rfl h.addr_ne rfl h.addr_lt h.magic
  obtain ⟨hc, hh⟩ : closedAt flash A.vmAddr A.endAddr = true ∧ (A.records flash).any (hit crc16) = false := by
    simpa [Area.settles] using hs
  have hbufs : replay crc16 initBufs (A.records flash) = initBufs := replay_zeros hh
  rw [atEnd, if_pos (by exact hc)] at hgo
  change Goes flash crc16 sectors off _
    (nextSector sectors (leaving flash crc16 off A (atArea A c skip redo len))) at hgo
  rw [nextSector_redo ⟨rfl, by simp only [leaving, took, entered, atArea, hh, Bool.or_false], hr⟩] at hgo
  have hsearch := hgo.trans (@reaches_sector flash crc16 sectors off
    (again sectors (leaving flash crc16 off A (atArea A c skip redo len))) rfl sectors)
  have heq : moved (again sectors (leaving flash crc16 off A (atArea A c skip redo len)))
      ((findSector flash (if skip = 0 then A.vmAddr else skip) sectors).getD 0) =
        atArea B B.vmAddr (if skip = 0 then A.vmAddr else skip) (redo + 1) B.used := by
    rw [hB]
    simp only [atArea, Area.sector, Area.usedAfter, moved, again, leaving, took, entered, hbufs]
    rfl
  exact heq ▸ hsearch

/-! ## The scan as a whole -/

theorem findSector_some {skip : Nat} : ∀ {k b : Nat}, findSector flash skip k = some b →
    b ≠ 0 ∧ b ≠ skip ∧ flash.get32 b = vmMagicUsing ∧ ∃ j, j < k ∧ b = flashSectorSize * j
  | 0, _, h => by cases h
  | k + 1, b, h => by
    unfold findSector at h
    split at h
    · cases h
    · rename_i h0
      split at h
      · rename_i hk
        cases h
        exact ⟨by unfold flashSectorSize; omega, hk.1, hk.2, k, Nat.lt_succ_self k, rfl⟩
      · obtain ⟨hb, hs, hm, j, hj, rfl⟩ := findSector_some h
        exact ⟨hb, hs, hm, j, Nat.lt_succ_of_lt hj, rfl⟩

theorem found_sector {skip k b used : Nat} (h : findSector flash skip k = some b) : (Area.sector b used).Found flash := by
  obtain ⟨hb, _, hm, _⟩ := findSector_some h
  exact ⟨hb, Nat.lt_add_of_pos_right (by decide), hm⟩

/-- The length published for an area: the running total with `power_off`, else the boot value or what was accounted for
when the sector was chosen. -/
def Area.published (flash : Mem) (off : Bool) (len : Nat) (A : Area) : Nat :=
  if off = true ∧ A.records flash ≠ [] then A.usedAfter flash else if A.scanned = true then A.used else len

/-- What the scan leaves when it ends in the area. -/
structure Area.Published (flash : Mem) (crc16 : List UInt8 → Nat) (off : Bool) (len : Nat) (A : Area) (r : Scan) :
    Prop where
  findVm  : r.findVm = true
  vmAddr  : r.vmAddr = A.vmAddr
  endAddr : r.endAddr = A.endAddr
  vmLen   : r.vmLen = A.published flash off len
  bufs    : r.bufs = replay crc16 initBufs (A.records flash)

def Outcome (flash : Mem) (crc16 : List UInt8 → Nat) (off : Bool) (len : Nat) : Option Area → Scan → Prop
  | none, r   => r.findVm = false
  | some A, r => A.Found flash ∧ A.Published flash crc16 off len r

theorem leaving_published {A : Area} {c skip redo len len' : Nat} (hlen : len' = if A.scanned = true then A.used else len) :
    A.Published flash crc16 off len (leaving flash crc16 off A (atArea A c skip redo len')) where
  findVm  := rfl
  vmAddr  := rfl
  endAddr := rfl
  bufs    := rfl
  vmLen   := by simp only [leaving, took, entered, atArea, Area.published, Area.usedAfter, hlen]

/-- At address 0 the loop leaves. -/
theorem returns_at_zero {s : Scan} (h : s.addr = 0) : Returns (scanBody flash crc16 sectors off) s s :=
  Loop.returns_of_done (by unfold scanBody; rw [if_neg (by simp [h])])

/-- **The scan from the first area found**: it ends there, or in the sector it finds without it. -/
theorem outcome_of_area {A : Area} {c len len' : Nat} (h : A.Found flash)
    (hlen : len' = if A.scanned = true then A.used else len) :
    ∃ r, Returns (scanBody flash crc16 sectors off) (atArea A c 0 0 len') r ∧
      Outcome flash crc16 off len (if A.settles flash crc16 = true then some A else nextArea flash crc16 sectors A) r := by
  by_cases hs : A.settles flash crc16 = true
  · rw [if_pos hs]
    exact ⟨_, returns_settled h (Or.inl hs), h, leaving_published hlen⟩
  rw [if_neg hs, nextArea]
  have hredo := @reaches_redo flash crc16 sectors off A _ c 0 0 len' h (by simpa using hs) (by decide) rfl
  rw [if_pos rfl] at hredo
  cases hb : findSector flash A.vmAddr sectors with
  | none =>
    rw [hb] at hredo
    exact ⟨_, hredo.returns (returns_at_zero rfl), rfl⟩
  | some b =>
    rw [hb] at hredo
    have hB : (Area.sector b (A.usedAfter flash)).Found flash := found_sector hb
    by_cases hsB : (Area.sector b (A.usedAfter flash)).settles flash crc16 = true
    · simp only [Option.map_some, hsB, if_true]
      exact ⟨_, hredo.returns (returns_settled hB (Or.inl hsB)), hB, leaving_published rfl⟩
    · -- the third round: the same sector, accounted for once more
      simp only [Option.map_some, hsB]
      have hthird := @reaches_redo flash crc16 sectors off _ _ (Area.sector b (A.usedAfter flash)).vmAddr A.vmAddr 1
        (Area.sector b (A.usedAfter flash)).used hB (by simpa using hsB) (by decide) rfl
      rw [if_neg h.addr_ne, hb] at hthird
      have hB' : (Area.sector b ((Area.sector b (A.usedAfter flash)).usedAfter flash)).Found flash := found_sector hb
      exact ⟨_, (hredo.trans hthird).returns (returns_settled hB' (Or.inr rfl)), hB', leaving_published rfl⟩

end Loop

/-- **`vm_area_info_find` returns, and ends in the area that `select` names.** -/
theorem returns_scan (flash : Mem) (crc16 : List UInt8 → Nat) (sectors appCodeAddr bootAddr bootLen : Nat) :
    ∃ r, VmAreaInfoFind flash crc16 sectors appCodeAddr bootAddr bootLen r ∧
      Outcome flash crc16 (powerOff appCodeAddr bootAddr) (startLen appCodeAddr bootAddr bootLen)
        (select flash crc16 sectors appCodeAddr bootAddr bootLen) r := by
  unfold VmAreaInfoFind select firstArea
  have hstart : scanStart sectors appCodeAddr bootAddr bootLen =
      atArea ⟨startAddr sectors appCodeAddr bootAddr, startAddr sectors appCodeAddr bootAddr +
        startLen appCodeAddr bootAddr bootLen, false, labelIndexLenCrcSize⟩ (getFlashCapability sectors) 0 0
          (startLen appCodeAddr bootAddr bootLen) := rfl
  rw [hstart]
  generalize startAddr sectors appCodeAddr bootAddr = a
  generalize startLen appCodeAddr bootAddr bootLen = len
  generalize powerOff appCodeAddr bootAddr = off
  dsimp only
  by_cases h0 : a = 0 ∨ len = 0
  · rw [if_pos h0]
    generalize hs : atArea ⟨a, a + len, false, labelIndexLenCrcSize⟩ (getFlashCapability sectors) 0 0 len = s
    have hdone : scanBody flash crc16 sectors off s = .inr s := by
      unfold scanBody
      rw [if_neg (by rw [← hs]; simp only [atArea]; omega)]
    exact ⟨s, Loop.returns_of_done hdone, by rw [← hs]; rfl⟩
  rw [if_neg h0]
  have ha : a ≠ 0 := fun h => h0 (Or.inl h)
  have hl : a < a + len := by omega
  by_cases hm : flash.get32 a = vmMagicUsing
  · rw [if_pos hm]
    exact outcome_of_area ⟨ha, hl, hm⟩ rfl
  · rw [if_neg hm]
    generalize hs : atArea ⟨a, a + len, false, labelIndexLenCrcSize⟩ (getFlashCapability sectors) 0 0 len = s
    have hf : s.findVm = false := by rw [← hs]; rfl
    have hlast : s.lastVmAddr = 0 := by rw [← hs]; rfl
    have hsec : s.lastSecterAddr = flashSectorSize * sectors := by rw [← hs]; rfl
    have hround := @round_search flash crc16 sectors off s hf
      (by rw [← hs]; exact ⟨ha, hl⟩) (by rw [← hs]; exact hm)
    rw [hsec] at hround
    have hsearch := (Loop.Reaches.one hround).trans (@reaches_sector flash crc16 sectors off s hf
      sectors)
    rw [hlast] at hsearch
    cases hb : findSector flash 0 sectors with
    | none =>
      rw [hb] at hsearch
      exact ⟨_, hsearch.returns (returns_at_zero rfl), hf⟩
    | some b =>
      rw [hb] at hsearch
      have hA : (Area.sector b labelIndexLenCrcSize).Found flash := found_sector hb
      obtain ⟨r, hr, ho⟩ := @outcome_of_area flash crc16 sectors off (Area.sector b labelIndexLenCrcSize) b len
        labelIndexLenCrcSize hA rfl
      refine ⟨r, hsearch.returns ?_, ho⟩
      have heq : moved s ((some b).getD 0) = atArea (Area.sector b labelIndexLenCrcSize) b 0 0 labelIndexLenCrcSize := by
        rw [← hs]
        rfl
      rw [heq]
      exact hr

end Vm
end OtaLoader
