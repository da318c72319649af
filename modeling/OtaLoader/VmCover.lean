import OtaLoader.VmReplay
/-!
# VmCover — the area published for the backup (vm_wifi.c)

The range that `vm_area_info_find` publishes is what `vm_data_read` copies.  Its length is the boot value, or the
running total of the records' sizes, which is never reset between sectors and only published with `power_off` or when
the scan moves on.  `covers_iff` says when the range holds the log of the area it was published for, and no more than
that sector.
-/
namespace OtaLoader
namespace Vm

theorem take_read (m : Mem) (a n k : Nat) : (m.read a n).take k = m.read a (min k n) := by
  simp [Mem.read, ← List.map_take, List.take_range]

section Cover

variable (flash : Mem) (sectors appCodeAddr bootAddr bootLen : Nat)

/-- The magic word and the records of the area. -/
def logSize (a e : Nat) : Nat := labelIndexLenCrcSize + total (recordsAt flash a e)

/-- **The published range is a backup of the log**: it contains the magic word and every record, no byte of another
sector when the area was found by scanning, and lies in the flash; and the copy that `vm_data_read` makes of it starts
with the log's bytes. -/
structure Covers (r : Scan) : Prop where
  log     : logSize flash r.vmAddr r.endAddr ≤ r.vmLen
  sector  : r.vmAddr ≠ startAddr sectors appCodeAddr bootAddr → r.vmLen ≤ flashSectorSize
  inside  : r.vmAddr + r.vmLen ≤ getFlashCapability sectors
  copied  : ∃ d, (vmDataRead (fun a n => some (flash.read a n)) true ⟨r.vmAddr, r.vmLen, none⟩).1.vmData = some d ∧
    d.take (logSize flash r.vmAddr r.endAddr) = flash.read r.vmAddr (logSize flash r.vmAddr r.endAddr)

/-- The room an area's log has in what is published for it.  `used` is 4 and the sizes of all records of the areas that
were given up before. -/
def Area.Fits (A : Area) : Prop :=
  if A.scanned = true then
    if powerOff appCodeAddr bootAddr = true then A.used + total (A.records flash) ≤ flashSectorSize
    else labelIndexLenCrcSize + total (A.records flash) ≤ A.used ∧ A.used ≤ flashSectorSize
  else labelIndexLenCrcSize + total (A.records flash) ≤ startLen appCodeAddr bootAddr bootLen

instance (A : Area) : Decidable (A.Fits flash appCodeAddr bootAddr bootLen) := by unfold Area.Fits; infer_instance

/-- Where a selected area can lie, and what was accounted for before it. -/
structure Area.Chosen (A : Area) : Prop where
  used_ge : labelIndexLenCrcSize ≤ A.used
  start   : A.scanned = false → A.vmAddr = startAddr sectors appCodeAddr bootAddr ∧ A.used = labelIndexLenCrcSize
  scanned : A.scanned = true → A.vmAddr ≠ startAddr sectors appCodeAddr bootAddr ∧
    ∃ j, j < sectors ∧ A.vmAddr = flashSectorSize * j

variable {flash sectors appCodeAddr bootAddr bootLen}

theorem firstArea_chosen {A : Area} (h : firstArea flash sectors appCodeAddr bootAddr bootLen = some A) :
    A.Chosen sectors appCodeAddr bootAddr ∧ startAddr sectors appCodeAddr bootAddr ≠ 0 ∧
      (A.scanned = true → flash.get32 (startAddr sectors appCodeAddr bootAddr) ≠ vmMagicUsing) := by
  unfold firstArea at h
  dsimp only at h
  split at h
  · cases h
  · rename_i h0
    have ha : startAddr sectors appCodeAddr bootAddr ≠ 0 := fun hz => h0 (Or.inl hz)
    split at h
    · cases h
      exact ⟨⟨Nat.le_refl _, fun _ => ⟨rfl, rfl⟩, (fun hs => nomatch hs)⟩, ha, (fun hs => nomatch hs)⟩
    · rename_i hm
      obtain ⟨b, hb, rfl⟩ := Option.map_eq_some_iff.1 h
      obtain ⟨_, _, hmb, hj⟩ := findSector_some hb
      have hne : b ≠ startAddr sectors appCodeAddr bootAddr := by
        rintro rfl
        exact hm hmb
      exact ⟨⟨Nat.le_refl _, (fun hs => nomatch hs), fun _ => ⟨hne, hj⟩⟩, ha, fun _ => hm⟩

theorem nextArea_chosen {crc16 : List UInt8 → Nat} {A B : Area} (hA : A.Chosen sectors appCodeAddr bootAddr)
    (hm : A.scanned = true → flash.get32 (startAddr sectors appCodeAddr bootAddr) ≠ vmMagicUsing)
    (h : nextArea flash crc16 sectors A = some B) : B.Chosen sectors appCodeAddr bootAddr := by
  obtain ⟨b, hb, hB⟩ := Option.map_eq_some_iff.1 h
  obtain ⟨_, hskip, hmb, hj⟩ := findSector_some hb
  have hne : b ≠ startAddr sectors appCodeAddr bootAddr := by
    rintro rfl
    cases hs : A.scanned with
    | false => exact hskip (hA.start hs).1.symm
    | true  => exact hm hs hmb
  have hu := hA.used_ge
  dsimp only at hB
  split at hB
  · cases hB
    exact ⟨Nat.le_add_right_of_le hu, (fun hs => nomatch hs), fun _ => ⟨hne, hj⟩⟩
  · cases hB
    exact ⟨Nat.le_add_right_of_le (Nat.le_add_right_of_le hu), (fun hs => nomatch hs), fun _ => ⟨hne, hj⟩⟩

theorem select_chosen {crc16 : List UInt8 → Nat} {A : Area}
    (h : select flash crc16 sectors appCodeAddr bootAddr bootLen = some A) : A.Chosen sectors appCodeAddr bootAddr := by
  obtain ⟨F, hF, hA⟩ := Option.bind_eq_some_iff.1 h
  obtain ⟨hc, _, hm⟩ := firstArea_chosen hF
  split at hA
  · cases hA
    exact hc
  · exact nextArea_chosen hc hm hA

/-- The copy of a range that contains the log starts with it. -/
theorem copied_of_log {a n k : Nat} (ha : a ≠ 0) (hk : 0 < k) (h : k ≤ n) :
    ∃ d, (vmDataRead (fun a n => some (flash.read a n)) true ⟨a, n, none⟩).1.vmData = some d ∧
      d.take k = flash.read a k := by
  rw [vmDataRead_exact flash ⟨a, n, none⟩ ha (by dsimp only; omega)]
  exact ⟨_, rfl, by rw [take_read, Nat.min_eq_left h]⟩

/-- The range published for a chosen area, on the lengths alone. -/
theorem published_iff {A : Area} (hboot : appCodeAddr < bootAddr → bootAddr + bootLen ≤ getFlashCapability sectors)
    (hc : A.Chosen sectors appCodeAddr bootAddr) (ha : A.vmAddr ≠ 0) (hne : A.records flash ≠ []) :
    let len := A.published flash (powerOff appCodeAddr bootAddr) (startLen appCodeAddr bootAddr bootLen)
    (labelIndexLenCrcSize + total (A.records flash) ≤ len ∧
        (A.vmAddr ≠ startAddr sectors appCodeAddr bootAddr → len ≤ flashSectorSize) ∧
          A.vmAddr + len ≤ getFlashCapability sectors) ↔
      A.Fits flash appCodeAddr bootAddr bootLen := by
  have hu := hc.used_ge
  unfold Area.published Area.Fits Area.usedAfter
  generalize total (A.records flash) = size
  cases hs : A.scanned with
  | true =>
    obtain ⟨hns, j, hj, hjA⟩ := hc.scanned hs
    -- a sector below the end of the flash ends in it
    have hin : A.vmAddr + flashSectorSize ≤ getFlashCapability sectors := by
      rw [hjA, getFlashCapability, ← Nat.mul_succ]
      exact Nat.mul_le_mul_left _ hj
    by_cases hoff : powerOff appCodeAddr bootAddr = true
    · simp only [hoff, hne, ne_eq, not_false_eq_true, and_self, if_true, hns, forall_const]
      omega
    · simp only [hoff, Bool.false_eq_true, false_and, if_false, if_true, hns, ne_eq, not_false_eq_true, forall_const]
      omega
  | false =>
    obtain ⟨hstart, hused⟩ := hc.start hs
    have hnot : ¬ A.vmAddr ≠ startAddr sectors appCodeAddr bootAddr := fun h => h hstart
    by_cases hoff : powerOff appCodeAddr bootAddr = true
    · have hlast : A.vmAddr = getFlashCapability sectors - flashSectorSize := by rw [hstart, startAddr, if_pos hoff]
      simp only [hoff, hne, ne_eq, not_false_eq_true, and_self, if_true, hnot, false_implies, true_and, startLen,
        Bool.false_eq_true, if_false]
      omega
    · have hb := hboot (by simpa [powerOff] using hoff)
      have hlast : A.vmAddr = bootAddr := by rw [hstart, startAddr, if_neg hoff]
      simp only [hoff, Bool.false_eq_true, false_and, if_false, hnot, false_implies, true_and, startLen]
      omega

/-- **When what is published backs the log up**: on any flash, for any area of the boot information inside it, whenever
a record was parsed in the area the scan ends in. -/
theorem covers_iff (flash : Mem) (crc16 : List UInt8 → Nat) (sectors appCodeAddr bootAddr bootLen : Nat)
    (hboot : appCodeAddr < bootAddr → bootAddr + bootLen ≤ getFlashCapability sectors) :
    (∃ r, VmAreaInfoFind flash crc16 sectors appCodeAddr bootAddr bootLen r) ∧
    ∀ r, VmAreaInfoFind flash crc16 sectors appCodeAddr bootAddr bootLen r → r.findVm = true →
      recordsAt flash r.vmAddr r.endAddr ≠ [] →
        (Covers flash sectors appCodeAddr bootAddr r ↔
          ∃ A, select flash crc16 sectors appCodeAddr bootAddr bootLen = some A ∧
            A.Fits flash appCodeAddr bootAddr bootLen) := by
  obtain ⟨r, hr, ho⟩ := returns_scan flash crc16 sectors appCodeAddr bootAddr bootLen
  refine ⟨⟨r, hr⟩, fun r' hr' hf hne => ?_⟩
  obtain rfl : r = r' := Loop.Returns.unique hr hr'
  cases hs : select flash crc16 sectors appCodeAddr bootAddr bootLen with
  | none =>
    rw [hs] at ho
    exact absurd (ho.symm.trans hf) (by simp)
  | some A =>
    rw [hs] at ho
    obtain ⟨hfound, hp⟩ := ho
    have hiff := published_iff hboot (select_chosen hs) hfound.addr_ne (by rwa [hp.vmAddr, hp.endAddr] at hne)
    rw [← hp.vmLen, ← hp.vmAddr] at hiff
    have hsize : logSize flash r.vmAddr r.endAddr = labelIndexLenCrcSize + total (A.records flash) := by
      rw [logSize, hp.vmAddr, hp.endAddr, Area.records]
    constructor
    · rintro ⟨hlog, hsec, hin, _⟩
      exact ⟨A, rfl, hiff.1 ⟨hsize ▸ hlog, hsec, hin⟩⟩
    · rintro ⟨A', hA', hfit⟩
      cases hA'
      obtain ⟨hlog, hsec, hin⟩ := hiff.2 hfit
      exact ⟨hsize ▸ hlog, hsec, hin,
        copied_of_log (by rw [hp.vmAddr]; exact hfound.addr_ne) (Nat.lt_of_lt_of_le (by decide) (Nat.le_add_right 4 _))
          (hsize ▸ hlog)⟩

end Cover

/-! ## Two scans -/

theorem scan_published (rs : List Record) (bootAddr bootLen n endAddr len : Nat)
    (h : (Loop.run (scanBody (oneByteLog rs) crcCcitt 2 (powerOff 0 bootAddr)) n
      (scanStart 2 0 bootAddr bootLen)).map (fun r => (r.findVm, r.vmAddr, r.endAddr, r.vmLen)) =
        some (true, 4096, endAddr, len)) :
    ∃ r, VmAreaInfoFind (oneByteLog rs) crcCcitt 2 0 bootAddr bootLen r ∧ r.findVm = true ∧
      r.vmAddr = 4096 ∧ r.endAddr = endAddr ∧ r.vmLen = len := by
  obtain ⟨r, hr, he⟩ := Option.map_eq_some_iff.1 h
  simp only [Prod.mk.injEq] at he
  exact ⟨r, ⟨n, hr⟩, he⟩

theorem oneByteLog_size (rs : List Record) (endAddr : Nat) (sizes : List Nat)
    (h : (recordsAt (oneByteLog rs) 4096 endAddr).map Record.size = sizes) (hne : sizes ≠ []) :
    recordsAt (oneByteLog rs) 4096 endAddr ≠ [] ∧ logSize (oneByteLog rs) 4096 endAddr = 4 + sizes.sum := by
  refine ⟨fun h0 => ?_, by rw [logSize, total, h]; rfl⟩
  rw [h0] at h
  exact hne h.symm

/-- A boot area in the last sector, with two records: all of it is published, and the log of fourteen bytes is covered. -/
theorem covers_bootArea : (0 < 4096 → 4096 + 64 ≤ getFlashCapability 2) ∧
    ∃ r, VmAreaInfoFind (oneByteLog [oneByte 0xE7 7, oneByte 0x29 9]) crcCcitt 2 0 4096 64 r ∧ r.vmLen = 64 ∧
      logSize (oneByteLog [oneByte 0xE7 7, oneByte 0x29 9]) r.vmAddr r.endAddr = 14 ∧
      (Covers (oneByteLog [oneByte 0xE7 7, oneByte 0x29 9]) 2 0 4096 r ↔
        ∃ A, select (oneByteLog [oneByte 0xE7 7, oneByte 0x29 9]) crcCcitt 2 0 4096 64 = some A ∧
          A.Fits (oneByteLog [oneByte 0xE7 7, oneByte 0x29 9]) 0 4096 64) := by
  obtain ⟨r, hr, hf, hv, he, hl⟩ :=
    scan_published [oneByte 0xE7 7, oneByte 0x29 9] 4096 64 5 4160 64 (by decide +kernel)
  have hsize := oneByteLog_size [oneByte 0xE7 7, oneByte 0x29 9] 4160 [5, 5] (by decide +kernel) (by decide)
  refine ⟨by decide, r, hr, hl, by rw [hv, he]; exact hsize.2,
    (covers_iff _ crcCcitt 2 0 4096 64 (by decide)).2 r hr hf ?_⟩
  rw [hv, he]
  exact hsize.1

/-- A boot area without the magic word: the log is found in the last sector, and four bytes of it are published. -/
theorem publishes_four_bytes : 100 + 16 ≤ getFlashCapability 2 ∧
    ∃ r, VmAreaInfoFind (oneByteLog [oneByte 0xE7 7]) crcCcitt 2 0 100 16 r ∧ r.findVm = true ∧
      recordsAt (oneByteLog [oneByte 0xE7 7]) r.vmAddr r.endAddr ≠ [] ∧
        ¬ Covers (oneByteLog [oneByte 0xE7 7]) 2 0 100 r := by
  obtain ⟨r, hr, hf, hv, he, hl⟩ := scan_published [oneByte 0xE7 7] 100 16 5 8192 4 (by decide +kernel)
  have hsize := oneByteLog_size [oneByte 0xE7 7] 8192 [5] (by decide +kernel) (by decide)
  refine ⟨by decide, r, hr, hf, by rw [hv, he]; exact hsize.1, fun hc => ?_⟩
  have hlog := hc.log
  rw [hv, he, hl, hsize.2] at hlog
  exact absurd hlog (by decide)

end Vm
end OtaLoader
