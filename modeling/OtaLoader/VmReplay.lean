import OtaLoader.VmLog
import Mathlib.Data.List.GetD
import Mathlib.Data.List.Induction
/-!
# VmReplay — what the table's buffers hold after the scan (vm_wifi.c)

A well-formed log is read back record by record (`parse_of_log`), and the buffer of an index holds, byte by byte, what
the latest records of that index left there (`replay_bytes`).  `finds_last_iff` says for which logs this is the data of
the last valid record: every other one has been cleared by a later corrupt record, keeps the end of a longer record
behind a shorter one, or passed or failed the check on the part of a record that fits the buffer.
-/
namespace OtaLoader
namespace Vm

/-! ## Well-formed logs -/

namespace Record

/-- The four bytes before the data. -/
def label (r : Record) : List UInt8 :=
  [r.crc, UInt8.ofNat (r.index % 256), UInt8.ofNat (r.index / 256 + 16 * (r.data.length % 16)),
    UInt8.ofNat (r.data.length / 16)]

theorem eq_of {r r' : Record} (hc : r.crc = r'.crc) (hi : r.index = r'.index) (hd : r.data = r'.data) : r = r' := by
  cases r
  cases r'
  simp_all

end Record

/-- From the label at `a` on: the records back to back, then a label whose index closes the log, all before `e`. -/
def LogAt (flash : Mem) (e : Nat) : Nat → List Record → Prop
  | a, []      => a < e ∧ labelIndex flash a > 1024
  | a, r :: rs =>
    flash.read a labelIndexLenCrcSize = r.label ∧
      flash.read (a + labelIndexLenCrcSize) r.data.length = r.data ∧ LogAt flash e (a + r.size) rs

/-- A well-formed log in the area from `a` to `e`. -/
structure WellFormedLog (flash : Mem) (a e : Nat) (rs : List Record) : Prop where
  magic : flash.get32 a = vmMagicUsing
  log   : LogAt flash e (a + labelIndexLenCrcSize) rs

theorem LogAt.lt {flash : Mem} {e : Nat} : ∀ {rs : List Record} {a : Nat}, LogAt flash e a rs → a < e
  | [], _, h     => h.1
  | _ :: _, _, h => Nat.lt_of_le_of_lt (Nat.le_add_right ..) (LogAt.lt h.2.2)

/-- A label is read back as it was written. -/
theorem labels_of_read {flash : Mem} {a : Nat} {r : Record} (h : flash.read a labelIndexLenCrcSize = r.label) :
    labelCrc flash a = r.crc ∧ labelIndex flash a = r.index ∧ labelLen flash a = r.data.length := by
  have hi := r.index_le
  have hl := r.length_lt
  simp only [Mem.read, labelIndexLenCrcSize, Record.label, List.range_succ, List.range_zero, List.nil_append,
    List.cons_append, List.map_cons, List.map_nil, List.cons.injEq, and_true, Nat.add_zero] at h
  obtain ⟨h0, h1, h2, h3⟩ := h
  refine ⟨h0, ?_, ?_⟩
  · unfold labelIndex
    rw [h1, h2, UInt8.toNat_ofNat', UInt8.toNat_ofNat']
    omega
  · unfold labelLen
    rw [h2, h3, UInt8.toNat_ofNat', UInt8.toNat_ofNat']
    omega

/-- **The scan reads a well-formed log back**, record by record. -/
theorem parse_of_log {flash : Mem} {e : Nat} : ∀ (rs : List Record) (n a : Nat), e - a ≤ n → LogAt flash e a rs →
    parse flash e (n + 1) a = (rs, true)
  | [], n, a, _, h => by
    have hi : labelIndex flash a > 1024 := h.2
    simp [parse, hi]
  | r :: rs, n, a, hn, h => by
    obtain ⟨hlab, hdat, hrest⟩ := h
    obtain ⟨hc, hi, hl⟩ := labels_of_read hlab
    have hle : ¬ labelIndex flash a > 1024 := by rw [hi]; exact Nat.not_lt.2 r.index_le
    have hr : recordAt flash a hle = r := Record.eq_of hc hi (by rw [← hdat, ← hl]; rfl)
    have hlt := hrest.lt
    have hpos : 0 < r.size := Nat.succ_pos _
    obtain ⟨m, rfl⟩ : ∃ m, n = m + 1 := ⟨n - 1, by omega⟩
    rw [parse, dif_neg hle]
    dsimp only
    rw [hr, if_pos hlt, parse_of_log rs m (a + r.size) (by omega) hrest]

theorem recordsAt_of_log {flash : Mem} {a e : Nat} {rs : List Record} (h : WellFormedLog flash a e rs) :
    recordsAt flash a e = rs := by
  unfold recordsAt
  rw [parse_of_log rs (e - a) _ (by omega) h.log]

/-! ## The buffer of an index, byte by byte -/

section Bytes

variable (crc16 : List UInt8 → Nat) (e : VmFindIndex)

/-- The records of the index, the newest first. -/
def newest (rs : List Record) : List Record := (rs.filter (fun r => r.index == e.index)).reverse

/-- What a buffer holds at byte `i`: the byte of the newest record that reaches it, if no record failed the check since. -/
def residue (i : Nat) : List Record → UInt8
  | []      => 0
  | r :: rs =>
    if accepted crc16 e r = true then if i < r.data.length then r.data.getD i 0 else residue i rs else 0

def bytesOf (f : Nat → UInt8) (n : Nat) : List UInt8 := (List.range n).map f

variable {crc16 e}

theorem find?_of_mem (he : e ∈ vmFindIndexTable) : vmFindIndexTable.find? (·.index == e.index) = some e := by
  simp only [vmFindIndexTable, List.mem_cons, List.not_mem_nil, or_false] at he
  rcases he with rfl | rfl <;> rfl

theorem putRecord_other {bufs : Bufs} {r : Record} (h : r.index ≠ e.index) :
    putRecord crc16 bufs r e.index = bufs e.index := by
  unfold putRecord
  cases vmFindIndexTable.find? (·.index == r.index) with
  | none   => rfl
  | some _ => exact if_neg h.symm

theorem putRecord_own (he : e ∈ vmFindIndexTable) {bufs : Bufs} {r : Record} (h : r.index = e.index) :
    putRecord crc16 bufs r e.index = if accepted crc16 e r = true then
      r.data.take e.bufSize ++ (bufs e.index).drop (min e.bufSize r.data.length) else zeros e.bufSize := by
  unfold putRecord
  rw [h, find?_of_mem he]
  exact if_pos rfl

@[simp] theorem length_bytesOf (f : Nat → UInt8) (n : Nat) : (bytesOf f n).length = n := by simp [bytesOf]

theorem bytesOf_congr {f g : Nat → UInt8} {n : Nat} (h : ∀ i, i < n → f i = g i) : bytesOf f n = bytesOf g n :=
  List.map_congr_left (fun i hi => h i (List.mem_range.1 hi))

theorem bytesOf_inj {f g : Nat → UInt8} {n : Nat} : bytesOf f n = bytesOf g n ↔ ∀ i, i < n → f i = g i := by
  constructor
  · intro h i hi
    have := congrArg (fun l => l[i]?) h
    simpa [bytesOf, hi] using this
  · exact bytesOf_congr

theorem zeros_eq (n : Nat) : zeros n = bytesOf (fun _ => 0) n := by
  apply List.ext_getElem <;> simp [zeros, bytesOf]

/-- A record written over a buffer. -/
theorem take_append_drop_bytesOf (d : List UInt8) (f : Nat → UInt8) (n : Nat) :
    d.take n ++ (bytesOf f n).drop (min n d.length) =
      bytesOf (fun i => if i < d.length then d.getD i 0 else f i) n := by
  apply List.ext_getElem
  · simp only [List.length_append, List.length_take, List.length_drop, length_bytesOf]
    omega
  · intro i h1 h2
    rw [length_bytesOf] at h2
    by_cases hi : i < d.length
    · rw [List.getElem_append_left (by simp; omega)]
      simp [bytesOf, hi]
    · rw [List.getElem_append_right (by simp; omega)]
      have : min n d.length + (i - min n d.length) = i := by omega
      simp [bytesOf, hi, this]

/-- **A table buffer after a log**: byte by byte what the newest records of its index left. -/
theorem replay_bytes (he : e ∈ vmFindIndexTable) (rs : List Record) :
    replay crc16 initBufs rs e.index = bytesOf (fun i => residue crc16 e i (newest e rs)) e.bufSize := by
  induction rs using List.reverseRecOn with
  | nil =>
    have h0 : replay crc16 initBufs [] e.index = zeros e.bufSize := by
      simp only [replay, List.foldl_nil, initBufs, find?_of_mem he]
    rw [h0, zeros_eq]
    rfl
  | append_singleton rs r ih =>
    have hlast : replay crc16 initBufs (rs ++ [r]) = putRecord crc16 (replay crc16 initBufs rs) r := by
      simp [replay, List.foldl_append]
    rw [hlast]
    by_cases hi : r.index = e.index
    · have hn : newest e (rs ++ [r]) = r :: newest e rs := by simp [newest, hi]
      rw [putRecord_own he hi, hn, ih]
      by_cases ha : accepted crc16 e r = true
      · rw [if_pos ha, take_append_drop_bytesOf]
        exact bytesOf_congr (fun i _ => by simp only [residue, ha, if_true])
      · rw [if_neg ha, zeros_eq]
        exact bytesOf_congr (fun i _ => by simp only [residue, ha, Bool.false_eq_true, if_false])
    · have hn : newest e (rs ++ [r]) = newest e rs := by simp [newest, hi]
      rw [putRecord_other hi, hn, ih]

end Bytes

/-! ## The last valid record -/

section LastValid

variable (crc16 : List UInt8 → Nat) (e : VmFindIndex)

/-- The CRC of a record, over all its data. -/
def valid (r : Record) : Bool := decide (r.crc = UInt8.ofNat (crc16 r.data))

def lastValid (rs : List Record) : Option Record := rs.find? (valid crc16)

/-- The data cut to the buffer's size or filled up with zeros. -/
def fitted (n : Nat) (data : List UInt8) : List UInt8 := data.take n ++ zeros (n - data.length)

/-- The data of the last valid record, zeros without one; the records are given the newest first. -/
def lastData (rs : List Record) : List UInt8 :=
  match lastValid crc16 rs with
  | some r => fitted e.bufSize r.data
  | none   => zeros e.bufSize

/-- The buffer shows the last valid record, by the newest record of its index.
- It passes the check and is valid: the bytes that longer records left behind it are zero.
- It passes the check on its first bytes only: these are those of the last valid record.
- It fails the check: the last valid record has only zeros that fit the buffer. -/
def ShowsLast : List Record → Prop
  | []      => True
  | r :: rs =>
    if accepted crc16 e r = true then
      if valid crc16 r = true then ∀ i, r.data.length ≤ i → i < e.bufSize → residue crc16 e i rs = 0
      else lastData crc16 e rs = r.data.take e.bufSize
    else ∀ v, lastValid crc16 (r :: rs) = some v → ∀ b ∈ v.data.take e.bufSize, b = 0

variable {crc16 e}

theorem fitted_eq (n : Nat) (d : List UInt8) : fitted n d = bytesOf (fun i => d.getD i 0) n := by
  have h := take_append_drop_bytesOf d (fun _ => 0) n
  rw [← zeros_eq, zeros, List.drop_replicate] at h
  have hn : n - min n d.length = n - d.length := by omega
  rw [hn] at h
  rw [fitted, zeros, h]
  refine bytesOf_congr (fun i _ => ?_)
  by_cases hi : i < d.length
  · rw [if_pos hi]
  · rw [if_neg hi, List.getD_eq_default _ _ (Nat.le_of_not_lt hi)]

theorem zeros_eq_fitted_iff (n : Nat) (d : List UInt8) : zeros n = fitted n d ↔ ∀ b ∈ d.take n, b = 0 := by
  rw [fitted_eq, zeros_eq, bytesOf_inj]
  constructor
  · intro h b hb
    obtain ⟨i, hi, rfl⟩ := List.getElem_of_mem hb
    rw [List.length_take] at hi
    rw [List.getElem_take, ← List.getD_eq_getElem _ 0, ← h i (by omega)]
  · intro h i hi
    by_cases hd : i < d.length
    · rw [List.getD_eq_getElem _ _ hd]
      exact (h _ (List.mem_take_iff_getElem.2 ⟨i, by omega, rfl⟩)).symm
    · rw [List.getD_eq_default _ _ (Nat.le_of_not_lt hd)]

/-- A record that passes the code's check without being valid is longer than the buffer. -/
theorem longer_of_accepted {r : Record} (ha : accepted crc16 e r = true) (hv : ¬ valid crc16 r = true) :
    e.bufSize < r.data.length := by
  by_contra hle
  apply hv
  rwa [accepted, List.take_of_length_le (by omega)] at ha

/-- **When a buffer shows the last valid record.** -/
theorem residue_lastData_iff (rs : List Record) :
    bytesOf (fun i => residue crc16 e i rs) e.bufSize = lastData crc16 e rs ↔ ShowsLast crc16 e rs := by
  cases rs with
  | nil =>
    simp only [ShowsLast, iff_true]
    exact (zeros_eq _).symm
  | cons r rs =>
    simp only [ShowsLast]
    by_cases ha : accepted crc16 e r = true
    · rw [if_pos ha]
      by_cases hv : valid crc16 r = true
      · have hlast : lastData crc16 e (r :: rs) = fitted e.bufSize r.data := by simp [lastData, lastValid, hv]
        rw [if_pos hv, hlast, fitted_eq, bytesOf_inj]
        constructor
        · intro h i hl hi
          have := h i hi
          rwa [residue, if_pos ha, if_neg (by omega), List.getD_eq_default _ _ hl] at this
        · intro h i hi
          rw [residue, if_pos ha]
          by_cases hd : i < r.data.length
          · rw [if_pos hd]
          · rw [if_neg hd, List.getD_eq_default _ _ (by omega)]
            exact h i (by omega) hi
      · -- the record is longer than the buffer and fills it
        have hlong := longer_of_accepted ha hv
        have hlast : lastData crc16 e (r :: rs) = lastData crc16 e rs := by simp [lastData, lastValid, hv]
        have hbuf : bytesOf (fun i => residue crc16 e i (r :: rs)) e.bufSize = r.data.take e.bufSize := by
          have hfit := fitted_eq e.bufSize r.data
          have hz : e.bufSize - r.data.length = 0 := by omega
          rw [fitted, hz, zeros, List.replicate_zero, List.append_nil] at hfit
          rw [hfit]
          exact bytesOf_congr (fun i hi => by rw [residue, if_pos ha, if_pos (by omega)])
        rw [if_neg hv, hlast, hbuf, eq_comm]
    · rw [if_neg ha]
      have hbuf : bytesOf (fun i => residue crc16 e i (r :: rs)) e.bufSize = zeros e.bufSize := by
        rw [zeros_eq]
        exact bytesOf_congr (fun i _ => by rw [residue, if_neg ha])
      rw [hbuf, lastData]
      cases lastValid crc16 (r :: rs) with
      | none   => simp
      | some v =>
        rw [zeros_eq_fitted_iff]
        simp

end LastValid

/-- **When the scan finds the last valid record of an index**: it returns on any flash, and whichever area it selects,
for every well-formed log there and every index of the table. -/
theorem finds_last_iff (flash : Mem) (crc16 : List UInt8 → Nat) (sectors appCodeAddr bootAddr bootLen : Nat) :
    (∃ r, VmAreaInfoFind flash crc16 sectors appCodeAddr bootAddr bootLen r) ∧
    ∀ r, VmAreaInfoFind flash crc16 sectors appCodeAddr bootAddr bootLen r → r.findVm = true →
      ∀ log, WellFormedLog flash r.vmAddr r.endAddr log → ∀ e ∈ vmFindIndexTable,
        (r.bufs e.index = lastData crc16 e (newest e log) ↔ ShowsLast crc16 e (newest e log)) := by
  obtain ⟨r, hr, ho⟩ := returns_scan flash crc16 sectors appCodeAddr bootAddr bootLen
  refine ⟨⟨r, hr⟩, fun r' hr' hf log hlog e he => ?_⟩
  obtain rfl : r = r' := Loop.Returns.unique hr hr'
  cases hs : select flash crc16 sectors appCodeAddr bootAddr bootLen with
  | none =>
    rw [hs] at ho
    exact absurd (ho.symm.trans hf) (by simp)
  | some A =>
    rw [hs] at ho
    obtain ⟨_, hp⟩ := ho
    rw [hp.vmAddr, hp.endAddr] at hlog
    rw [hp.bufs, Area.records, recordsAt_of_log hlog, replay_bytes he]
    exact residue_lastData_iff _

/-! ## Two flashes -/

/-- CRC-16 with the polynomial x^16 + x^12 + x^5 + 1. -/
def crcCcitt (bs : List UInt8) : Nat :=
  bs.foldl (fun c b => (List.range 8).foldl (fun c _ => if c < 32768 then 2 * c else (2 * c % 65536) ^^^ 0x1021)
    (c ^^^ 256 * b.toNat)) 0

/-- An erased flash of two sectors with these bytes behind the magic word of the last one. -/
def logFlash (bs : List UInt8) : Mem := Mem.write (fun _ => 0xFF) 4096 ([0x55, 0xAA, 0xAA, 0x55] ++ bs)

/-- A one-byte record of the WiFi settings. -/
def oneByte (crc b : UInt8) : Record := ⟨crc, 195, [b], by decide, by simp⟩

def oneByteLog (rs : List Record) : Mem := logFlash (rs.flatMap (fun r => r.label ++ r.data))

theorem scan_oneByteLog (rs : List Record) (n : Nat) (d : List UInt8)
    (h : (Loop.run (scanBody (oneByteLog rs) crcCcitt 2 (powerOff 0 0)) n (scanStart 2 0 0 0)).map
      (fun r => (r.findVm, r.vmAddr, r.endAddr, r.bufs 195)) = some (true, 4096, 8192, d)) :
    ∃ r, VmAreaInfoFind (oneByteLog rs) crcCcitt 2 0 0 0 r ∧ r.findVm = true ∧ r.vmAddr = 4096 ∧ r.endAddr = 8192 ∧
      r.bufs 195 = d := by
  obtain ⟨r, hr, he⟩ := Option.map_eq_some_iff.1 h
  simp only [Prod.mk.injEq] at he
  exact ⟨r, ⟨n, hr⟩, he⟩

/-- Two valid records: the second one is the newest. -/
theorem finds_second_record : ∃ r, VmAreaInfoFind (oneByteLog [oneByte 0xE7 7, oneByte 0x29 9]) crcCcitt 2 0 0 0 r ∧
    r.bufs 195 = 9 :: zeros 203 ∧
    (r.bufs 195 = lastData crcCcitt wifiInfo (newest wifiInfo [oneByte 0xE7 7, oneByte 0x29 9]) ↔
      ShowsLast crcCcitt wifiInfo (newest wifiInfo [oneByte 0xE7 7, oneByte 0x29 9])) := by
  obtain ⟨r, hr, hf, hv, he, hb⟩ :=
    scan_oneByteLog [oneByte 0xE7 7, oneByte 0x29 9] 5 (9 :: zeros 203) (by decide +kernel)
  refine ⟨r, hr, hb, (finds_last_iff (oneByteLog [oneByte 0xE7 7, oneByte 0x29 9]) crcCcitt 2 0 0 0).2 r hr hf
    [oneByte 0xE7 7, oneByte 0x29 9] ?_ wifiInfo (by decide)⟩
  rw [hv, he]
  exact ⟨by decide +kernel, by decide +kernel, by decide +kernel, by decide +kernel, by decide +kernel,
    by decide +kernel, by decide +kernel⟩

/-- A corrupt record behind a valid one: the buffer is cleared, and the valid record is lost. -/
theorem loses_behind_corrupt : ∃ r, VmAreaInfoFind (oneByteLog [oneByte 0xE7 7, oneByte 0 9]) crcCcitt 2 0 0 0 r ∧
    r.findVm = true ∧ WellFormedLog (oneByteLog [oneByte 0xE7 7, oneByte 0 9]) r.vmAddr r.endAddr
      [oneByte 0xE7 7, oneByte 0 9] ∧
    r.bufs 195 ≠ lastData crcCcitt wifiInfo (newest wifiInfo [oneByte 0xE7 7, oneByte 0 9]) := by
  obtain ⟨r, hr, hf, hv, he, hb⟩ := scan_oneByteLog [oneByte 0xE7 7, oneByte 0 9] 5 (zeros 204) (by decide +kernel)
  refine ⟨r, hr, hf, ?_, ?_⟩
  · rw [hv, he]
    exact ⟨by decide +kernel, by decide +kernel, by decide +kernel, by decide +kernel, by decide +kernel,
      by decide +kernel, by decide +kernel⟩
  · rw [hb]
    decide +kernel

end Vm
end OtaLoader
