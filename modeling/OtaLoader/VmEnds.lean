import OtaLoader.VmReplay
/-!
# VmEnds — the scan for the VM log ends (vm_wifi.c)

The loop of `vm_area_info_find` in the 32-bit arithmetic of the source.  In a flash of whole sectors it wraps nowhere, so
it is the loop of `scanBody`; and its rounds lower a measure of three parts: the redo rounds left, the sectors left below
`last_secter_addr`, what is left of the area.
-/
namespace OtaLoader
namespace Vm

/-! ## The loop on 32-bit words -/

def sub32 (a b : Nat) : Nat := u32 (a + 4294967296 - b)

/-- `last_secter_addr` less a sector, or less two where the sector below is to be skipped. -/
def below32 (skip c : Nat) : Nat :=
  if skip ≠ 0 ∧ skip = sub32 c flashSectorSize then sub32 (sub32 c flashSectorSize) flashSectorSize
  else sub32 c flashSectorSize

section Find32

variable (flash : Mem) (crc16 : List UInt8 → Nat) (sectors : Nat) (powerOff : Bool)

/-- `nextSector`, on 32-bit words. -/
def nextSector32 (s : Scan) : Scan ⊕ Scan :=
  let s := if s.findVm = true ∧ s.find = false ∧ s.redoCnt < 2 then
      { s with findVm := false, find := false, redoCnt := s.redoCnt + 1, lastSecterAddr := getFlashCapability sectors }
    else s
  if s.findVm = false then
    let last := below32 s.lastVmAddr s.lastSecterAddr
    .inl { s with lastSecterAddr := last, addr := last, endAddr := u32 (last + flashSectorSize), vmAddr := last,
                  vmLen := s.vmUsedSize }
  else .inr s

/-- `readLabel`, on 32-bit words. -/
def readLabel32 (s : Scan) : Scan ⊕ Scan :=
  let s := { s with lastVmAddr := if s.lastVmAddr = 0 then s.vmAddr else s.lastVmAddr, findVm := true }
  let vmLen := labelLen flash s.addr
  if labelIndex flash s.addr > 1024 then nextSector32 sectors s
  else
    let r := vmAreaInfoIndexFind crc16 flash (labelIndex flash s.addr) (s.addr + labelIndexLenCrcSize)
      (labelCrc flash s.addr) vmLen s.bufs
    let used := s.vmUsedSize + (vmLen + labelIndexLenCrcSize)
    .inl { s with bufs := r.1, find := s.find || r.2, vmUsedSize := used,
                  vmLen := if powerOff = true then used else s.vmLen,
                  addr := u32 (s.addr + (vmLen + labelIndexLenCrcSize)) }

/-- `scanBody`, on 32-bit words. -/
def scanBody32 (s : Scan) : Scan ⊕ Scan :=
  if s.addr ≠ 0 ∧ s.addr < s.endAddr then
    if s.findVm = false then
      let s' := { s with addr := u32 (s.addr + labelIndexLenCrcSize) }
      if flash.get32 s.vmAddr ≠ vmMagicUsing then nextSector32 sectors s'
      else readLabel32 flash crc16 sectors powerOff s'
    else readLabel32 flash crc16 sectors powerOff s
  else .inr s

end Find32

def scanStart32 (sectors appCodeAddr bootAddr bootLen : Nat) : Scan :=
  let off := powerOff appCodeAddr bootAddr
  let vmAddr := if off = true then sub32 (getFlashCapability sectors) flashSectorSize else bootAddr
  let vmLen := if off = true then flashSectorSize else bootLen
  { addr := vmAddr, endAddr := u32 (vmAddr + vmLen),
    lastSecterAddr := getFlashCapability sectors, lastVmAddr := 0, vmUsedSize := labelIndexLenCrcSize, redoCnt := 0,
    findVm := false, find := false, vmAddr := vmAddr, vmLen := vmLen, bufs := initBufs }

/-! ## What holds at the head of the loop -/

/-- The area lies in the flash, and `last_secter_addr` is a sector's, not 0 while one is searched. -/
structure Bounds (sectors : Nat) (s : Scan) : Prop where
  area    : s.endAddr ≤ getFlashCapability sectors
  sector  : s.lastSecterAddr % flashSectorSize = 0 ∧ s.lastSecterAddr ≤ getFlashCapability sectors
  nonzero : s.findVm = false → s.addr ≠ 0 → s.lastSecterAddr ≠ 0
  redo    : s.redoCnt ≤ 2

section Steps

variable {flash : Mem} {crc16 : List UInt8 → Nat} {sectors : Nat} {off : Bool} {s s' : Scan}

theorem sub32_eq {a b : Nat} (h : b ≤ a) (ha : a < 4294967296) : sub32 a b = a - b := by
  unfold sub32 u32
  omega

/-- The sector to go on with: one or two below, within the flash. -/
theorem below_bounds {skip c : Nat} (hc : c % flashSectorSize = 0) (h0 : c ≠ 0) :
    below skip c % flashSectorSize = 0 ∧ below skip c + flashSectorSize ≤ c := by
  have hsize : flashSectorSize = 4096 := rfl
  rw [hsize] at hc ⊢
  unfold below
  rw [hsize]
  split
  · omega
  · omega

theorem below32_eq {skip c : Nat} (hc : c % flashSectorSize = 0) (h0 : c ≠ 0) (hlt : c < 2147483648) :
    below32 skip c = below skip c ∧ u32 (below skip c + flashSectorSize) = below skip c + flashSectorSize := by
  have hsize : flashSectorSize = 4096 := rfl
  obtain ⟨-, hb⟩ := @below_bounds skip c hc h0
  rw [hsize] at hc
  have hsub : sub32 c flashSectorSize = c - flashSectorSize := sub32_eq (by omega) (by omega)
  refine ⟨?_, u32_of_lt (by omega)⟩
  unfold below32 below
  rw [hsub]
  split
  · exact sub32_eq (by omega) (by omega)
  · rfl

theorem capability_sector (hsec : 0 < sectors) :
    getFlashCapability sectors % flashSectorSize = 0 ∧ getFlashCapability sectors ≠ 0 := by
  unfold getFlashCapability flashSectorSize
  omega

theorem nextSector32_search (hf : s.findVm = false) (hc : s.lastSecterAddr % flashSectorSize = 0)
    (h0 : s.lastSecterAddr ≠ 0) (hlt : s.lastSecterAddr < 2147483648) :
    nextSector32 sectors s = .inl (moved s (below s.lastVmAddr s.lastSecterAddr)) := by
  obtain ⟨hb, he⟩ := @below32_eq s.lastVmAddr _ hc h0 hlt
  have hno : ¬ (s.findVm = true ∧ s.find = false ∧ s.redoCnt < 2) := by simp [hf]
  unfold nextSector32 moved
  rw [if_neg hno]
  dsimp only
  rw [if_pos hf, hb, he]

/-- **The code at `next_sector`** is that on whole numbers. -/
theorem nextSector32_eq (hsec : 0 < sectors) (hcap : getFlashCapability sectors < 2147483648)
    (hc : s.lastSecterAddr % flashSectorSize = 0 ∧ s.lastSecterAddr ≤ getFlashCapability sectors)
    (h0 : s.findVm = false → s.lastSecterAddr ≠ 0) : nextSector32 sectors s = nextSector sectors s := by
  by_cases hf : s.findVm = false
  · rw [nextSector32_search hf hc.1 (h0 hf) (by omega), nextSector_search hf]
  · by_cases hr : s.findVm = true ∧ s.find = false ∧ s.redoCnt < 2
    · obtain ⟨hfull, hne⟩ := capability_sector hsec
      rw [nextSector_redo hr]
      unfold nextSector32
      rw [if_pos hr]
      obtain ⟨hb, he⟩ := @below32_eq s.lastVmAddr _ hfull hne hcap
      dsimp only
      rw [if_pos rfl, hb, he]
      rfl
    · unfold nextSector32 nextSector
      rw [if_neg hr]
      dsimp only
      rw [if_neg hf, if_neg hf]

/-- **A round of the loop** is that on whole numbers. -/
theorem scanBody32_eq (hsec : 0 < sectors) (hcap : getFlashCapability sectors < 2147483648) (h : Bounds sectors s) :
    scanBody32 flash crc16 sectors off s = scanBody flash crc16 sectors off s := by
  have hlabel : labelIndexLenCrcSize = 4 := rfl
  have harea := h.area
  unfold scanBody32 scanBody
  by_cases hin : s.addr ≠ 0 ∧ s.addr < s.endAddr
  · have hread : ∀ u : Scan, u.addr ≤ s.addr + 4 → u.lastSecterAddr = s.lastSecterAddr →
        readLabel32 flash crc16 sectors off u = readLabel flash crc16 sectors off u := fun u hu hl => by
      have hlen := labelLen_lt flash u.addr
      unfold readLabel32 readLabel
      dsimp only
      rw [u32_of_lt (by omega), nextSector32_eq hsec hcap (by dsimp only; rw [hl]; exact h.sector) (fun hf => by cases hf)]
    rw [if_pos hin, if_pos hin]
    by_cases hf : s.findVm = false
    · rw [if_pos hf, if_pos hf]
      dsimp only
      rw [u32_of_lt (by omega), hread { s with addr := s.addr + labelIndexLenCrcSize } (Nat.le_refl _) rfl,
        nextSector32_eq (s := { s with addr := s.addr + labelIndexLenCrcSize }) hsec hcap h.sector
          (fun _ => h.nonzero hf hin.1)]
    · rw [if_neg hf, if_neg hf, hread s (Nat.le_add_right ..) rfl]
  · rw [if_neg hin, if_neg hin]

/-! ## What a round does -/

/-- A round reads a label, goes on to a sector below, or starts again from the top of the flash. -/
inductive Round (sectors : Nat) (s s' : Scan) : Prop
  | label (hf : s'.findVm = true) (ha : s.addr + labelIndexLenCrcSize ≤ s'.addr) (he : s'.endAddr = s.endAddr)
      (hl : s'.lastSecterAddr = s.lastSecterAddr) (hr : s'.redoCnt = s.redoCnt)
  | sector (hs : s.findVm = false) (hf : s'.findVm = false) (ha : s'.addr = s'.lastSecterAddr)
      (he : s'.endAddr = s'.addr + flashSectorSize) (hm : s'.addr % flashSectorSize = 0)
      (hl : s'.lastSecterAddr + flashSectorSize ≤ s.lastSecterAddr) (hr : s'.redoCnt = s.redoCnt)
  | redo (hf : s'.findVm = false) (ha : s'.addr = s'.lastSecterAddr) (he : s'.endAddr = s'.addr + flashSectorSize)
      (hm : s'.addr % flashSectorSize = 0) (hl : s'.lastSecterAddr + flashSectorSize ≤ getFlashCapability sectors)
      (hr : s'.redoCnt = s.redoCnt + 1) (h2 : s'.redoCnt ≤ 2)

/-- The round that reads a label, from where it reads it. -/
theorem readLabel_round {u : Scan} (hsec : 0 < sectors) (hr : u.redoCnt = s.redoCnt) (hl : u.lastSecterAddr = s.lastSecterAddr)
    (he : u.endAddr = s.endAddr) (ha : s.addr ≤ u.addr) (h : readLabel flash crc16 sectors off u = .inl s') :
    Round sectors s s' := by
  by_cases hi : labelIndex flash u.addr > 1024
  · rw [readLabel_stop hi] at h
    by_cases hredo : (entered u).findVm = true ∧ (entered u).find = false ∧ (entered u).redoCnt < 2
    · obtain ⟨hfull, hne⟩ := capability_sector hsec
      obtain ⟨hm, hle⟩ := @below_bounds (entered u).lastVmAddr _ hfull hne
      rw [nextSector_redo hredo] at h
      cases h
      refine .redo rfl rfl rfl hm hle ?_ ?_
      · exact congrArg (· + 1) hr
      · exact hredo.2.2
    · rw [nextSector_stop rfl (by
        by_cases hfind : (entered u).find = true
        · exact .inl hfind
        · exact .inr (fun hlt => hredo ⟨rfl, by simpa using hfind, hlt⟩))] at h
      cases h
  · rw [readLabel_record hi] at h
    cases h
    refine .label rfl ?_ he hl hr
    have hpos : labelIndexLenCrcSize ≤ total [recordAt flash u.addr hi] := Nat.le_add_left ..
    exact Nat.add_le_add ha hpos

/-- **Each round** does one of the three. -/
theorem round_of_body (hsec : 0 < sectors) (h : Bounds sectors s) (hb : scanBody flash crc16 sectors off s = .inl s') :
    s.addr < s.endAddr ∧ Round sectors s s' := by
  unfold scanBody at hb
  split at hb
  swap
  · cases hb
  rename_i hin
  refine ⟨hin.2, ?_⟩
  split at hb
  · rename_i hf
    dsimp only at hb
    split at hb
    · rw [nextSector_search (s := { s with addr := s.addr + labelIndexLenCrcSize }) hf] at hb
      cases hb
      obtain ⟨hm, hle⟩ := @below_bounds s.lastVmAddr _ h.sector.1 (h.nonzero hf hin.1)
      exact .sector hf hf rfl rfl hm hle rfl
    · exact readLabel_round (s := s) (u := { s with addr := s.addr + labelIndexLenCrcSize }) hsec rfl rfl rfl
        (Nat.le_add_right ..) hb
  · exact readLabel_round (s := s) hsec rfl rfl rfl (Nat.le_refl _) hb

theorem Round.bounds (h : Bounds sectors s) (hr : Round sectors s s') : Bounds sectors s' := by
  have hsize : flashSectorSize = 4096 := rfl
  cases hr with
  | label hf ha he hl hr =>
    refine ⟨he ▸ h.area, hl ▸ h.sector, fun hn => ?_, hr ▸ h.redo⟩
    rw [hf] at hn
    cases hn
  | sector hs hf ha he hm hl hr =>
    have hsec := h.sector
    exact ⟨by omega, ⟨ha ▸ hm, by omega⟩, fun _ h0 => ha ▸ h0, hr ▸ h.redo⟩
  | redo hf ha he hm hl hr h2 => exact ⟨by omega, ⟨ha ▸ hm, by omega⟩, fun _ h0 => ha ▸ h0, h2⟩

/-- The rounds left: of the redo rounds, of the sectors below, of the area. -/
def roundsLeft (sectors : Nat) (s : Scan) : Nat :=
  (2 - s.redoCnt) * (sectors + 1025) +
    if s.findVm = true then (s.endAddr - s.addr + 3) / labelIndexLenCrcSize
    else s.lastSecterAddr / flashSectorSize + max ((s.endAddr - s.addr) / labelIndexLenCrcSize) 1024 + 1

theorem Round.lowers (hin : s.addr < s.endAddr) (hr : Round sectors s s') :
    roundsLeft sectors s' < roundsLeft sectors s := by
  have hsize : flashSectorSize = 4096 := rfl
  have hlabel : labelIndexLenCrcSize = 4 := rfl
  unfold roundsLeft
  rw [hsize, hlabel]
  cases hr with
  | label hf ha he hl hr =>
    rw [if_pos hf, he, hr]
    split
    · omega
    · omega
  | sector hs hf ha he hm hl hr =>
    rw [if_neg (by simp [hf]), if_neg (by simp [hs]), hr]
    omega
  | redo hf ha he hm hl hr h2 =>
    have hcap : getFlashCapability sectors = 4096 * sectors := rfl
    have hparts : (2 - s.redoCnt) * (sectors + 1025) = (2 - s'.redoCnt) * (sectors + 1025) + (sectors + 1025) := by
      rw [← Nat.succ_mul]
      congr 1
      omega
    rw [if_neg (by simp [hf]), hparts]
    omega

/-- At the head of a loop that has gone round: a sector is searched from its start on. -/
def Searched (sectors : Nat) (s : Scan) : Prop :=
  Bounds sectors s ∧ (s.findVm = false → s.addr = s.lastSecterAddr ∧ s.addr % flashSectorSize = 0 ∧
    s.addr + flashSectorSize ≤ getFlashCapability sectors)

theorem Round.searched (h : Bounds sectors s) (hr : Round sectors s s') : Searched sectors s' := by
  refine ⟨hr.bounds h, fun hn => ?_⟩
  cases hr with
  | label hf            =>
    rw [hf] at hn
    cases hn
  | sector _ _ ha _ hm hl =>
    have := h.sector.2
    exact ⟨ha, hm, by omega⟩
  | redo _ ha _ hm hl   => exact ⟨ha, hm, by omega⟩

/-- `t` comes after `s`: in a later redo round, or at no higher a sector, and a lower one if it is just entered. -/
def After (s t : Scan) : Prop :=
  s.redoCnt < t.redoCnt ∨ (s.redoCnt = t.redoCnt ∧ t.lastSecterAddr ≤ s.lastSecterAddr ∧
    (t.findVm = false → t.lastSecterAddr < s.lastSecterAddr))

theorem After.trans {s t u : Scan} (h : After s t) (h' : After t u) : After s u := by
  unfold After at *
  rcases h with h | ⟨h₁, h₂, h₃⟩
  · rcases h' with h' | ⟨h₁', -, -⟩ <;> exact .inl (by omega)
  · rcases h' with h' | ⟨h₁', h₂', h₃'⟩
    · exact .inl (by omega)
    · exact .inr ⟨by omega, by omega, fun hf => Nat.lt_of_lt_of_le (h₃' hf) h₂⟩

instance : Trans After After After := ⟨After.trans⟩

theorem Round.after (hr : Round sectors s s') : After s s' := by
  have hsize : flashSectorSize = 4096 := rfl
  cases hr with
  | label hf _ _ hl hr     =>
    refine .inr ⟨hr.symm, Nat.le_of_eq hl, fun hn => ?_⟩
    rw [hf] at hn
    cases hn
  | sector _ _ _ _ _ hl hr => exact .inr ⟨hr.symm, by omega, fun _ => by omega⟩
  | redo _ _ _ _ _ hr      => exact .inl (by omega)

/-- **What the rounds come to**: at most two redo rounds; in each, every sector at most once, from the top of the flash
down; and labels of an area at least four bytes apart. -/
structure Rounds (sectors : Nat) (l : List Scan) : Prop where
  redo   : ∀ s ∈ l, s.redoCnt ≤ 2
  sector : ∀ s ∈ l.tail, s.findVm = false → s.addr % flashSectorSize = 0 ∧ s.addr < getFlashCapability sectors
  once   : l.tail.Pairwise
    (fun s t => s.findVm = false → t.findVm = false → s.redoCnt = t.redoCnt → t.addr < s.addr)
  labels : l.IsChain
    (fun s t => t.findVm = true → s.addr + labelIndexLenCrcSize ≤ t.addr ∧ t.endAddr = s.endAddr)

/-- The rounds from a state on. -/
theorem rounds_trace (hsec : 0 < sectors) (h : Bounds sectors s) (n : Nat) :
    Rounds sectors (Loop.trace (scanBody flash crc16 sectors off) n s) := by
  have hstep : ∀ s s', Bounds sectors s → scanBody flash crc16 sectors off s = .inl s' →
      Bounds sectors s' ∧ Round sectors s s' := fun s s' h hb => by
    obtain ⟨-, hr⟩ := round_of_body hsec h hb
    exact ⟨hr.bounds h, hr⟩
  have htail : ∀ t ∈ (Loop.trace (scanBody flash crc16 sectors off) n s).tail, Searched sectors t := by
    cases n with
    | zero   => exact fun t ht => by cases ht
    | succ n =>
      unfold Loop.trace
      cases hb : scanBody flash crc16 sectors off s with
      | inr r  => exact fun t ht => by cases ht
      | inl s' =>
        refine Loop.trace_forall (Searched sectors) (fun t t' ht hb' => ?_) n s' ((hstep s s' h hb).2.searched h)
        exact (hstep t t' ht.1 hb').2.searched ht.1
  have hchain := Loop.trace_chain (Bounds sectors) hstep n s h
  have hafter : (Loop.trace (scanBody flash crc16 sectors off) n s).Pairwise After :=
    List.isChain_iff_pairwise.1 (hchain.imp (fun _ _ hr => hr.after))
  refine ⟨fun t ht => ?_, fun t ht hf => ?_, ?_, ?_⟩
  · exact (Loop.trace_forall (Bounds sectors) (fun s s' h hb => (hstep s s' h hb).1) n s h t ht).redo
  · have hsize : flashSectorSize = 4096 := rfl
    obtain ⟨-, hm, hle⟩ := (htail t ht).2 hf
    exact ⟨hm, by omega⟩
  · refine (hafter.sublist (List.tail_sublist _)).imp_of_mem (fun {t u} ht hu hta hf hf' hr => ?_)
    rw [((htail t ht).2 hf).1, ((htail u hu).2 hf').1]
    rcases hta with hta | ⟨-, -, hta⟩
    · omega
    · exact hta hf'
  · refine hchain.imp (fun t u hr hf => ?_)
    cases hr with
    | label _ ha he       => exact ⟨ha, he⟩
    | sector _ hf'        =>
      rw [hf] at hf'
      cases hf'
    | redo hf'            =>
      rw [hf] at hf'
      cases hf'

/-! ## The scan as a whole -/

theorem scanStart32_eq {appCodeAddr bootAddr bootLen : Nat} (hsec : 0 < sectors)
    (hcap : getFlashCapability sectors < 2147483648)
    (hboot : appCodeAddr < bootAddr → bootAddr + bootLen ≤ getFlashCapability sectors) :
    scanStart32 sectors appCodeAddr bootAddr bootLen = scanStart sectors appCodeAddr bootAddr bootLen ∧
      Bounds sectors (scanStart sectors appCodeAddr bootAddr bootLen) := by
  have hsize : flashSectorSize = 4096 := rfl
  obtain ⟨hfull, hne⟩ := capability_sector hsec
  rw [hsize] at hfull
  have hsub : sub32 (getFlashCapability sectors) flashSectorSize = getFlashCapability sectors - flashSectorSize :=
    sub32_eq (by omega) (by omega)
  have hbounds : (scanStart sectors appCodeAddr bootAddr bootLen).endAddr ≤ getFlashCapability sectors := by
    unfold scanStart powerOff
    dsimp only
    split
    · omega
    · rename_i hoff
      exact hboot (by simpa using hoff)
  refine ⟨?_, hbounds, ⟨hsize ▸ hfull, Nat.le_refl _⟩, fun _ _ => hne, Nat.zero_le _⟩
  unfold scanStart at hbounds
  unfold scanStart32 scanStart
  dsimp only at hbounds ⊢
  rw [hsub, u32_of_lt (by omega)]

end Steps

/-- **The scan ends**: in a flash of that many sectors, whatever it holds, the loop of `vm_area_info_find` leaves after
at most `1027 * sectors + 2052` rounds. -/
theorem scan_ends (flash : Mem) (crc16 : List UInt8 → Nat) (sectors appCodeAddr bootAddr bootLen : Nat)
    (hsec : 0 < sectors) (hcap : getFlashCapability sectors < 2147483648)
    (hboot : appCodeAddr < bootAddr → bootAddr + bootLen ≤ getFlashCapability sectors) :
    ∃ r, Loop.run (scanBody32 flash crc16 sectors (powerOff appCodeAddr bootAddr)) (1027 * sectors + 2052)
        (scanStart32 sectors appCodeAddr bootAddr bootLen) = some r ∧
      VmAreaInfoFind flash crc16 sectors appCodeAddr bootAddr bootLen r ∧
      Rounds sectors (Loop.trace (scanBody32 flash crc16 sectors (powerOff appCodeAddr bootAddr))
        (1027 * sectors + 2052) (scanStart32 sectors appCodeAddr bootAddr bootLen)) := by
  obtain ⟨hstart, hb⟩ := scanStart32_eq hsec hcap hboot
  obtain ⟨off, hoff⟩ : ∃ off, powerOff appCodeAddr bootAddr = off := ⟨_, rfl⟩
  unfold VmAreaInfoFind
  rw [hoff]
  have hkeep : ∀ s s', Bounds sectors s → scanBody flash crc16 sectors off s = .inl s' → Bounds sectors s' :=
    fun s s' h hs => (round_of_body hsec h hs).2.bounds h
  have hlow : ∀ s s', Bounds sectors s → scanBody flash crc16 sectors off s = .inl s' →
      Bounds sectors s' ∧ roundsLeft sectors s' < roundsLeft sectors s := fun s s' h hs => by
    obtain ⟨hin, hr⟩ := round_of_body hsec h hs
    exact ⟨hr.bounds h, hr.lowers hin⟩
  have heq : ∀ s, Bounds sectors s → scanBody flash crc16 sectors off s = scanBody32 flash crc16 sectors off s :=
    fun s h => (scanBody32_eq hsec hcap h).symm
  rw [hstart, ← Loop.run_congr (Bounds sectors) heq hkeep _ _ hb, ← Loop.trace_congr (Bounds sectors) heq hkeep _ _ hb]
  have hleft : roundsLeft sectors (scanStart sectors appCodeAddr bootAddr bootLen) < 1027 * sectors + 2052 := by
    have harea := hb.area
    have hlast : (scanStart sectors appCodeAddr bootAddr bootLen).lastSecterAddr = flashSectorSize * sectors := rfl
    unfold roundsLeft
    rw [if_neg (by simp [scanStart]), hlast, Nat.mul_div_cancel_left sectors (by decide)]
    have hcap : getFlashCapability sectors = 4096 * sectors := rfl
    have hredo : (scanStart sectors appCodeAddr bootAddr bootLen).redoCnt = 0 := rfl
    have hlabel : labelIndexLenCrcSize = 4 := rfl
    rw [hredo, hlabel]
    omega
  obtain ⟨r, hr⟩ := Loop.run_of_measure (Bounds sectors) (roundsLeft sectors) hlow _ _ hb hleft
  exact ⟨r, hr, ⟨_, hr⟩, rounds_trace hsec hb _⟩

/-- The scan of two sectors with a log of two records in the last one, behind a boot area without the magic word: its
rounds include a jump to the last sector and a round for every record. -/
theorem scan_ends_twoRecords :
    ∃ r, Loop.run (scanBody32 (oneByteLog [oneByte 0xE7 7, oneByte 0x29 9]) crcCcitt 2 (powerOff 0 100)) 4106
        (scanStart32 2 0 100 16) = some r ∧
      VmAreaInfoFind (oneByteLog [oneByte 0xE7 7, oneByte 0x29 9]) crcCcitt 2 0 100 16 r ∧
      Rounds 2 (Loop.trace (scanBody32 (oneByteLog [oneByte 0xE7 7, oneByte 0x29 9]) crcCcitt 2 (powerOff 0 100)) 4106
        (scanStart32 2 0 100 16)) :=
  scan_ends (oneByteLog [oneByte 0xE7 7, oneByte 0x29 9]) crcCcitt 2 0 100 16 (by decide) (by decide) (by decide)

end Vm
end OtaLoader
