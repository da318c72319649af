import OtaLoader.VmCover
/-!
# VmRestart — the VM data over updates that are cut off (vm_wifi.c)

A start of the loader looks for the VM log (`vm_find`), writes the update and restores the copy (`vm_data_recover`); the
power may go at any flash operation, and the loader starts again.  Every start reads its copy from the flash that the
last one has left.
-/
namespace OtaLoader
namespace Vm

/-- One start: whether the buffer of the copy can be had, the flash when the update is through, the new area that
`flash_get_vm_area_info` names, and after how many operations of `vm_data_recover` the power goes. -/
structure Start where
  malloc  : Bool
  updated : Mem
  vmAddr  : Nat
  vmSize  : Nat
  done    : Nat

section Starts

variable (crc16 : List UInt8 → Nat) (sectors app bootAddr bootLen : Nat)

/-- The copy that `vm_find` makes of the area it ends in. -/
def vmFind (f : Mem) (malloc : Bool) (r : Scan) : VmInfoType :=
  (vmDataRead (fun a n => some (f.read a n)) malloc ⟨r.vmAddr, r.vmLen, none⟩).1

/-- The flash that a start leaves. -/
def Start.leaves (s : Start) (info : VmInfoType) : Mem :=
  runOps ((vmDataRecover app s.vmAddr s.vmSize info).1.take s.done) s.updated

/-- Starts one after the other from a flash to a flash, with what each scan has come to. -/
inductive Starts : Mem → List Start → List Scan → Mem → Prop
  | nil (f : Mem) : Starts f [] [] f
  | cons {f g : Mem} {s : Start} {ss : List Start} {r : Scan} {rs : List Scan}
      (find : VmAreaInfoFind f crc16 sectors app bootAddr bootLen r)
      (rest : Starts (s.leaves app (vmFind f s.malloc r)) ss rs g) : Starts f (s :: ss) (r :: rs) g

/-- A log that is in the area with its closing label, and a record that fills a buffer. -/
structure BackedUp (f : Mem) (B n : Nat) (rs : List Record) : Prop where
  log  : WellFormedLog f B (B + n) rs
  room : labelIndexLenCrcSize + total rs + labelIndexLenCrcSize ≤ n
  hit  : rs.any (hit crc16) = true

end Starts

/-! ## The scan of a backup -/

section Backup

variable {crc16 : List UInt8 → Nat} {sectors app B n : Nat} {f g : Mem} {rs : List Record}

theorem labelIndex_move {a b : Nat} (h : ∀ i, i < labelIndexLenCrcSize → f (a + i) = g (b + i)) :
    labelIndex f a = labelIndex g b := by
  unfold labelIndex
  rw [h 1 (by decide), h 2 (by decide)]

theorem LogAt.move {e e' : Nat} : ∀ {rs : List Record} {a b : Nat},
    (∀ i, i < total rs + labelIndexLenCrcSize → f (a + i) = g (b + i)) → b + total rs < e' → LogAt f e a rs →
      LogAt g e' b rs
  | [], a, b, heq, he, h => by
    rw [total_nil] at heq he
    refine ⟨he, ?_⟩
    rw [← labelIndex_move fun i hi => heq i (by omega)]
    exact h.2
  | r :: rs, a, b, heq, he, h => by
    obtain ⟨hlab, hdat, hrest⟩ := h
    rw [total_cons] at heq he
    have hsize : r.size = r.data.length + labelIndexLenCrcSize := rfl
    refine ⟨?_, ?_, LogAt.move (fun i hi => ?_) (by omega) hrest⟩
    · rw [← hlab]
      refine List.map_congr_left fun i hi => ?_
      rw [List.mem_range] at hi
      exact (heq i (by omega)).symm
    · refine Eq.trans ?_ hdat
      refine List.map_congr_left fun i hi => ?_
      rw [List.mem_range] at hi
      rw [Nat.add_assoc, Nat.add_assoc]
      exact (heq (labelIndexLenCrcSize + i) (by omega)).symm
    · rw [Nat.add_assoc, Nat.add_assoc]
      exact heq (r.size + i) (by omega)

theorem read_eq_read {a b n : Nat} (h : g.read b n = f.read a n) {i : Nat} (hi : i < n) : f (a + i) = g (b + i) := by
  have hx := (@Mem.read_eq_iff f a (g.read b n)).1 (by rw [Mem.length_read, h]) i
    (by rwa [Mem.length_read])
  rwa [Mem.getElem_read] at hx

/-- The bytes of the area decide, wherever it is. -/
theorem BackedUp.move {A m : Nat} (heq : g.read A n = f.read B n) (hm : n ≤ m) (h : BackedUp crc16 f B n rs) :
    BackedUp crc16 g A m rs := by
  have hroom := h.room
  simp only [labelIndexLenCrcSize] at hroom
  refine ⟨⟨?_, LogAt.move (fun i hi => ?_) ?_ h.log.log⟩, Nat.le_trans h.room hm, h.hit⟩
  · have hbyte : ∀ i, i < 4 → f (B + i) = g (A + i) := fun i hi => read_eq_read heq (by omega)
    have h0 := hbyte 0 (by decide)
    rw [Nat.add_zero, Nat.add_zero] at h0
    rw [← h.log.magic, Mem.get32, Mem.get32, h0, hbyte 1 (by decide), hbyte 2 (by decide), hbyte 3 (by decide)]
  · rw [Nat.add_assoc, Nat.add_assoc]
    exact read_eq_read heq (by simp only [labelIndexLenCrcSize] at hi ⊢; omega)
  · simp only [labelIndexLenCrcSize]
    omega

/-- The first record has a label. -/
theorem BackedUp.labelIndex_le (h : BackedUp crc16 f B n rs) : labelIndex f (B + labelIndexLenCrcSize) ≤ 1024 := by
  have hlog := h.log.log
  cases rs with
  | nil       => exact nomatch h.hit
  | cons r rs =>
    rw [(labels_of_read hlog.1).2.1]
    exact r.index_le

/-- **The scan publishes the backup** and nothing else, and fills the buffers from its log. -/
theorem BackedUp.scan (hB : app < B) (h : BackedUp crc16 f B n rs) {r : Scan}
    (hr : VmAreaInfoFind f crc16 sectors app B n r) : r.vmAddr = B ∧ r.vmLen = n ∧ r.bufs = replay crc16 initBufs rs := by
  obtain ⟨r', hr', hout⟩ := returns_scan f crc16 sectors app B n
  obtain rfl : r' = r := Loop.Returns.unique hr' hr
  have hroom := h.room
  have hoff : powerOff app B = false := decide_eq_false (by omega)
  have hrec : Area.records f ⟨B, B + n, false, labelIndexLenCrcSize⟩ = rs := recordsAt_of_log h.log
  have hsel : select f crc16 sectors app B n = some ⟨B, B + n, false, labelIndexLenCrcSize⟩ := by
    have hset : Area.settles f crc16 ⟨B, B + n, false, labelIndexLenCrcSize⟩ = true := by
      rw [Area.settles, hrec, h.hit, Bool.or_true]
    unfold select firstArea startAddr startLen
    simp only [hoff, Bool.false_eq_true, if_false]
    rw [if_neg (by simp only [labelIndexLenCrcSize] at hroom; omega), if_pos h.log.magic, Option.bind_some, if_pos hset]
  rw [hsel, hoff] at hout
  obtain ⟨_, hp⟩ := hout
  refine ⟨hp.vmAddr, ?_, ?_⟩
  · rw [hp.vmLen]
    unfold Area.published startLen
    simp [hoff]
  · rw [hp.bufs, hrec]

/-- The copy of a backup. -/
theorem vmFind_backup (hB : B ≠ 0) (hn : n ≠ 0) {r : Scan} (ha : r.vmAddr = B) (hl : r.vmLen = n) (malloc : Bool) :
    vmFind f malloc r = ⟨B, n, if malloc = true then some (f.read B n) else none⟩ := by
  unfold vmFind
  rw [ha, hl]
  cases malloc with
  | true  => rw [vmDataRead_exact f ⟨B, n, none⟩ hB hn, if_pos rfl]
  | false => simp [vmDataRead]

end Backup

/-! ## One start -/

/-- The areas, and the sectors erased for either, stay off each other. -/
structure Clear (A B n : Nat) : Prop where
  areas  : Apart A n B n
  new    : A % 4096 = 0 → Apart A (4096 * ((n + 4095) / 4096)) B n
  backup : B % 4096 = 0 → Apart B (4096 * ((n + 4095) / 4096)) A n

/-- The flash operations before the backup is erased. -/
def untilErase (A n : Nat) : Nat := eraseCount A n + (n + 255) / 256

/-- The update leaves the backup alone, and a restore is cut off before it erases the backup. -/
structure Start.Early (app B n : Nat) (data : List UInt8) (s : Start) : Prop where
  updated : s.updated.read B n = data
  restore : s.malloc = true → app < s.vmAddr → n ≤ s.vmSize → Clear s.vmAddr B n ∧ s.done ≤ untilErase s.vmAddr n

/-- The update leaves the backup alone, and the restore gets as far as the erase of the backup, or into it. -/
structure Start.Finishes (app B n : Nat) (data : List UInt8) (s : Start) : Prop where
  updated : s.updated.read B n = data
  malloc  : s.malloc = true
  above   : app < s.vmAddr
  fits    : n ≤ s.vmSize
  clear   : Clear s.vmAddr B n
  done    : untilErase s.vmAddr n ≤ s.done

section Start

variable {app B n : Nat} {s : Start} {data : List UInt8}

theorem Clear.noClash {A : Nat} (h : Clear A B n) : NoClash A B n := by
  refine ⟨h.new, h.backup, fun _ _ => .inr (.inr ?_)⟩
  have := h.areas
  unfold Apart at this ⊢
  omega

/-- Until the erase of the backup, the backup is untouched. -/
theorem stage_untilErase {A : Nat} {f : Mem} (hc : Clear A B n) {k₁ k₂ : Nat} (h : k₁ ≤ eraseCount A n) :
    (stage f A B (f.read B n) k₁ k₂ 0).read B n = f.read B n := by
  refine Mem.read_congr fun i hi => ?_
  have hareas := hc.areas
  have hlen : ((f.read B n).take (256 * k₂)).length ≤ n := by simp
  unfold Apart at hareas
  unfold stage
  rw [Mem.fill_outside (by omega), Mem.write_outside (by omega)]
  unfold eraseCount at h
  by_cases hA : A % 4096 = 0
  · have hnew := hc.new hA
    unfold Apart at hnew
    rw [if_pos hA] at h
    exact Mem.fill_outside (by omega)
  · rw [if_neg hA] at h
    exact Mem.fill_outside (by omega)

theorem vmDataRecover_refused {A size : Nat} {copy : Option (List UInt8)} (h : ¬ (copy.isSome ∧ app < A ∧ n ≤ size)) :
    (vmDataRecover app A size ⟨B, n, copy⟩).1 = [] := by
  unfold vmDataRecover
  cases copy with
  | none   => rfl
  | some d =>
    dsimp only
    split
    · rw [if_neg (fun hc => h ⟨rfl, hc.1, hc.2⟩)]
    · rfl

/-- **An early start leaves the backup as it was.** -/
theorem Start.Early.leaves (h : s.Early app B n data) (hn : data.length = n) :
    (s.leaves app ⟨B, n, if s.malloc = true then some data else none⟩).read B n = data := by
  unfold Start.leaves
  by_cases hacc : s.malloc = true ∧ app < s.vmAddr ∧ n ≤ s.vmSize
  · obtain ⟨hm, hA, hs⟩ := hacc
    obtain ⟨hclear, hdone⟩ := h.restore hm hA hs
    rw [if_pos hm, vmDataRecover_accepted hA hs hn, runOps_recoverOps _ _ hn,
      show min (s.done - (eraseCount s.vmAddr n + (n + 255) / 256)) (eraseCount B n) = 0 by
        unfold untilErase at hdone; omega]
    rw [← h.updated]
    exact stage_untilErase hclear (Nat.min_le_right ..)
  · rw [vmDataRecover_refused, List.take_nil]
    · exact h.updated
    · rintro ⟨hsome, hA, hs⟩
      refine hacc ⟨?_, hA, hs⟩
      cases hm : s.malloc with
      | true  => rfl
      | false => simp [hm] at hsome

/-- **A start that finishes restores the data**, wherever its last erase is cut off. -/
theorem Start.Finishes.leaves (h : s.Finishes app B n data) (hn : data.length = n) :
    (s.leaves app ⟨B, n, if s.malloc = true then some data else none⟩).read s.vmAddr n = data := by
  have hdone := h.done
  unfold untilErase at hdone
  unfold Start.leaves
  rw [if_pos h.malloc, vmDataRecover_accepted h.above h.fits hn, runOps_recoverOps _ _ hn]
  have hnew : ∀ k₁ k₂ k₃, (n + 255) / 256 ≤ k₂ → k₃ ≤ eraseCount B n →
      (stage s.updated s.vmAddr B data k₁ k₂ k₃).read s.vmAddr n = data := by
    intro k₁ k₂ k₃ h2 h3
    have hintact : Intact (stage s.updated s.vmAddr B (s.updated.read B n) k₁ k₂ k₃) s.vmAddr (s.updated.read B n) :=
      stage_new h.clear.noClash h2 h3
    rwa [Intact, h.updated, hn] at hintact
  exact hnew _ _ _ (by omega) (Nat.min_le_right ..)

end Start

/-! ## Any number of starts -/

section Runs

variable {crc16 : List UInt8 → Nat} {sectors app B n : Nat} {rs : List Record}

theorem starts_total (ss : List Start) : ∀ f : Mem, ∃ scans g, Starts crc16 sectors app B n f ss scans g := by
  induction ss with
  | nil => exact fun f => ⟨[], f, .nil f⟩
  | cons s ss ih =>
    intro f
    obtain ⟨r, hr, _⟩ := returns_scan f crc16 sectors app B n
    obtain ⟨scans, g, hg⟩ := ih (s.leaves app (vmFind f s.malloc r))
    exact ⟨r :: scans, g, .cons hr hg⟩

/-- **The VM data survive every update that is cut off early**: a start finds the backup and the same settings after any
number of starts whose restores were cut off before the erase of the backup, and the first that goes further leaves the
data in the new area. -/
theorem vmData_survive (f : Mem) (ss : List Start) (last : Start) (hB : app < B) (h : BackedUp crc16 f B n rs)
    (hss : ∀ s ∈ ss, s.Early app B n (f.read B n)) (hlast : last.Finishes app B n (f.read B n)) :
    (∃ scans g, Starts crc16 sectors app B n f (ss ++ [last]) scans g) ∧
      ∀ scans g, Starts crc16 sectors app B n f (ss ++ [last]) scans g →
        g.read last.vmAddr n = f.read B n ∧ ∀ r ∈ scans, r.vmAddr = B ∧ r.vmLen = n ∧ r.bufs = replay crc16 initBufs rs := by
  refine ⟨starts_total _ f, ?_⟩
  have hn : n ≠ 0 := by
    have hroom := h.room
    simp only [labelIndexLenCrcSize] at hroom
    omega
  have hlen : (f.read B n).length = n := f.length_read B n
  generalize hdata : f.read B n = data at hss hlast hlen ⊢
  induction ss generalizing f with
  | nil =>
    intro scans g hg
    cases hg with
    | cons hfind hrest =>
      obtain ⟨ha, hl, hbufs⟩ := h.scan hB hfind
      cases hrest
      rw [vmFind_backup (Nat.ne_of_gt (Nat.zero_lt_of_lt hB)) hn ha hl, hdata]
      exact ⟨hlast.leaves hlen, List.forall_mem_singleton.2 ⟨ha, hl, hbufs⟩⟩
  | cons s ss ih =>
    intro scans g hg
    cases hg with
    | cons hfind hrest =>
      obtain ⟨ha, hl, hbufs⟩ := h.scan hB hfind
      rw [vmFind_backup (Nat.ne_of_gt (Nat.zero_lt_of_lt hB)) hn ha hl, hdata] at hrest
      have hkept := (hss s (List.mem_cons_self ..)).leaves hlen
      obtain ⟨hg, hscans⟩ := ih _ (h.move (hkept.trans hdata.symm) (Nat.le_refl n)) hkept
        (fun t ht => hss t (List.mem_cons_of_mem _ ht)) _ g hrest
      exact ⟨hg, List.forall_mem_cons.2 ⟨⟨ha, hl, hbufs⟩, hscans⟩⟩

/-! ## A start too many -/

theorem get32_erased {m : Mem} {a : Nat} (h : ∀ i, i < 4 → m (a + i) = 0xFF) : m.get32 a ≠ vmMagicUsing := by
  have h0 := h 0 (by decide)
  rw [Nat.add_zero] at h0
  rw [Mem.get32, h0, h 1 (by decide), h 2 (by decide), h 3 (by decide)]
  decide

/-- The search from the end of the flash comes to the first sector with the magic word. -/
theorem findSector_top {f : Mem} {j : Nat} (h0 : 0 < j) (hj : f.get32 (flashSectorSize * j) = vmMagicUsing) : ∀ k, j < k →
    (∀ i, j < i → i < k → f.get32 (flashSectorSize * i) ≠ vmMagicUsing) →
      findSector f 0 k = some (flashSectorSize * j)
  | k + 1, hlt, hno => by
    have hpos : flashSectorSize * j ≠ 0 := Nat.mul_ne_zero (by decide) (Nat.ne_of_gt h0)
    unfold findSector
    rcases Nat.lt_or_eq_of_le (Nat.le_of_lt_succ hlt) with hjk | rfl
    · rw [if_neg (by omega), if_neg (fun hk => hno k hjk (Nat.lt_succ_self k) hk.2)]
      exact findSector_top h0 hj k hjk (fun i h1 h2 => hno i h1 (Nat.lt_succ_of_lt h2))
    · rw [if_neg (by omega), if_pos ⟨hpos, hj⟩]

/-- **Without the backup, the scan takes the restored log for one**, and publishes four bytes of it. -/
theorem scan_restored {g : Mem} {j : Nat} (hB : app < B) (hn : n ≠ 0) (hgone : g.get32 B ≠ vmMagicUsing)
    (h0 : 0 < j) (hj : j < sectors) (h : BackedUp crc16 g (flashSectorSize * j) flashSectorSize rs)
    (hno : ∀ i, j < i → i < sectors → g.get32 (flashSectorSize * i) ≠ vmMagicUsing) {r : Scan}
    (hr : VmAreaInfoFind g crc16 sectors app B n r) :
    r.vmAddr = flashSectorSize * j ∧ r.vmLen = labelIndexLenCrcSize := by
  obtain ⟨r', hr', hout⟩ := returns_scan g crc16 sectors app B n
  obtain rfl : r' = r := Loop.Returns.unique hr' hr
  have hoff : powerOff app B = false := decide_eq_false (by omega)
  have hset : (Area.sector (flashSectorSize * j) labelIndexLenCrcSize).settles g crc16 = true := by
    rw [Area.settles, show (Area.sector (flashSectorSize * j) labelIndexLenCrcSize).records g = rs from
      recordsAt_of_log h.log, h.hit, Bool.or_true]
  have hsel : select g crc16 sectors app B n = some (Area.sector (flashSectorSize * j) labelIndexLenCrcSize) := by
    unfold select firstArea startAddr startLen
    simp only [hoff, Bool.false_eq_true, if_false]
    rw [if_neg (by omega), if_neg hgone, findSector_top h0 h.log.magic sectors hj hno, Option.map_some, Option.bind_some,
      if_pos hset]
  rw [hsel, hoff] at hout
  obtain ⟨_, hp⟩ := hout
  refine ⟨hp.vmAddr, ?_⟩
  rw [hp.vmLen]
  simp [Area.published, Area.sector]

/-- The flash once a backup of one sector is restored to a sector and erased. -/
theorem Start.Finishes.restored {s : Start} {data : List UInt8} (h : s.Finishes app B n data) (hn : data.length = n)
    (hn0 : n ≠ 0) (hsec : n ≤ flashSectorSize) (hA : s.vmAddr % 4096 = 0) (hB : B % 4096 = 0)
    (hdone : untilErase s.vmAddr n < s.done) (x : Nat) :
    let g := s.leaves app ⟨B, n, some data⟩
    (B ≤ x → x < B + flashSectorSize → g x = 0xFF) ∧
      (¬ (B ≤ x ∧ x < B + flashSectorSize) → ¬ (s.vmAddr ≤ x ∧ x < s.vmAddr + flashSectorSize) → g x = s.updated x) := by
  have hcount : ∀ a, a % 4096 = 0 → eraseCount a n = 1 := by
    intro a ha
    unfold eraseCount
    unfold flashSectorSize at hsec
    rw [if_pos ha]
    omega
  have hk : min (s.done - (eraseCount s.vmAddr n + (n + 255) / 256)) (eraseCount B n) = 1 := by
    unfold untilErase at hdone
    rw [hcount B hB]
    omega
  have h1 : min s.done (eraseCount s.vmAddr n) = 1 := by
    unfold untilErase at hdone
    rw [hcount _ hA] at hdone ⊢
    omega
  dsimp only
  unfold Start.leaves
  rw [vmDataRecover_accepted h.above h.fits hn, runOps_recoverOps _ _ hn, hk, h1]
  generalize min (s.done - eraseCount s.vmAddr n) ((n + 255) / 256) = k₂
  unfold stage
  rw [Nat.mul_one]
  refine ⟨fun h1 h2 => Mem.fill_inside h1 h2, fun hb ha => ?_⟩
  have hlen : (data.take (256 * k₂)).length ≤ flashSectorSize := by
    rw [List.length_take]
    omega
  unfold flashSectorSize at hb ha hlen
  rw [Mem.fill_outside (by omega), Mem.write_outside (by omega), Mem.fill_outside (by omega)]

/-- A restore of the four bytes at the start of a sector over themselves: behind them, the sector is erased. -/
theorem Start.leaves_magic {t : Start} {data : List UInt8} (hm : t.malloc = true) (happ : app < t.vmAddr)
    (hsize : labelIndexLenCrcSize ≤ t.vmSize) (hdone : 0 < t.done) (hA : t.vmAddr % 4096 = 0)
    (hd : data.length = labelIndexLenCrcSize) (x : Nat) :
    let g := t.leaves app ⟨t.vmAddr, labelIndexLenCrcSize, if t.malloc = true then some data else none⟩
    (t.vmAddr + labelIndexLenCrcSize ≤ x → x < t.vmAddr + flashSectorSize → g x = 0xFF) ∧
      (¬ (t.vmAddr ≤ x ∧ x < t.vmAddr + flashSectorSize) → g x = t.updated x) := by
  have hcount : eraseCount t.vmAddr labelIndexLenCrcSize = 1 := by
    unfold eraseCount
    rw [if_pos hA]
    rfl
  obtain ⟨k₂, k₃, hstage⟩ : ∃ k₂ k₃, t.leaves app ⟨t.vmAddr, labelIndexLenCrcSize,
      if t.malloc = true then some data else none⟩ = stage t.updated t.vmAddr t.vmAddr data 1 k₂ (min k₃ 1) := by
    unfold Start.leaves
    rw [if_pos hm, vmDataRecover_accepted happ hsize hd, runOps_recoverOps _ _ hd, hcount, Nat.min_eq_right hdone]
    exact ⟨_, _, rfl⟩
  dsimp only
  rw [hstage]
  have hlen : (data.take (256 * k₂)).length ≤ labelIndexLenCrcSize := by
    rw [List.length_take]
    omega
  unfold labelIndexLenCrcSize at hlen
  unfold stage flashSectorSize labelIndexLenCrcSize
  constructor
  · intro h1 h2
    by_cases hk : x < t.vmAddr + 4096 * min k₃ 1
    · exact Mem.fill_inside (by omega) hk
    · rw [Mem.fill_outside (by omega), Mem.write_outside (by omega), Mem.fill_inside (by omega) (by omega)]
  · intro hx
    rw [Mem.fill_outside (by omega), Mem.write_outside (by omega), Mem.fill_outside (by omega)]

/-- **A start too many loses the data**: once a backup of one sector has been restored to a sector of its own and
erased, the next scan takes the restored log for a backup of four bytes, unless a sector above has the magic word; and
the restore of these begins with an erase. -/
theorem vmData_lost (f : Mem) (s t : Start) (hB : app < B) (hBsec : B % 4096 = 0) (h : BackedUp crc16 f B n rs)
    (hsec : n ≤ flashSectorSize) (hs : s.Finishes app B n (f.read B n)) (hsdone : untilErase s.vmAddr n < s.done)
    {j : Nat} (hj : j < sectors) (hsA : s.vmAddr = flashSectorSize * j)
    (hno : ∀ i, j < i → i < sectors → flashSectorSize * i ≠ B → s.updated.get32 (flashSectorSize * i) ≠ vmMagicUsing)
    (htA : t.vmAddr = s.vmAddr) (ht : t.malloc = true) (hsize : labelIndexLenCrcSize ≤ t.vmSize) (hdone : 0 < t.done)
    (hupd : t.updated.read B n = List.replicate n 0xFF) :
    (∃ scans g, Starts crc16 sectors app B n f [s, t] scans g) ∧
      ∀ scans g, Starts crc16 sectors app B n f [s, t] scans g →
        (∃ r₁ r₂, scans = [r₁, r₂] ∧ r₂.vmAddr = s.vmAddr ∧ r₂.vmLen = labelIndexLenCrcSize) ∧
          g.read s.vmAddr n ≠ f.read B n ∧ g.read B n ≠ f.read B n := by
  refine ⟨starts_total _ f, ?_⟩
  have hroom := h.room
  have hn0 : n ≠ 0 := by
    simp only [labelIndexLenCrcSize] at hroom
    omega
  have hlen : (f.read B n).length = n := f.length_read B n
  have hAsec : s.vmAddr % 4096 = 0 := by
    rw [hsA, flashSectorSize, Nat.mul_mod_right]
  have hj0 : 0 < j := by
    have := hs.above
    refine Nat.pos_of_ne_zero fun hz => ?_
    rw [hsA, hz] at this
    exact Nat.not_lt_zero _ this
  intro scans g hg
  cases hg with
  | cons hfind hrest =>
    obtain ⟨ha, hl, _⟩ := h.scan hB hfind
    rw [vmFind_backup (Nat.ne_of_gt (Nat.zero_lt_of_lt hB)) hn0 ha hl, if_pos hs.malloc] at hrest
    have hread := hs.leaves hlen
    rw [if_pos hs.malloc] at hread
    have hres := hs.restored hlen hn0 hsec hAsec hBsec hsdone
    generalize s.leaves app ⟨B, n, some (f.read B n)⟩ = g₁ at hrest hread hres
    dsimp only at hres
    have hback : BackedUp crc16 g₁ (flashSectorSize * j) flashSectorSize rs := hsA ▸ h.move hread hsec
    have hgone : g₁.get32 B ≠ vmMagicUsing :=
      get32_erased fun i hi => (hres (B + i)).1 (Nat.le_add_right ..) (by unfold flashSectorSize; omega)
    have hno₁ : ∀ i, j < i → i < sectors → g₁.get32 (flashSectorSize * i) ≠ vmMagicUsing := by
      intro i h1 h2
      by_cases hi : flashSectorSize * i = B
      · rwa [hi]
      · rw [Mem.get32_congr fun k hk => (hres (flashSectorSize * i + k)).2 ?_ ?_]
        · exact hno i h1 h2 hi
        · unfold flashSectorSize at hi ⊢
          omega
        · rw [hsA]
          unfold flashSectorSize
          omega
    cases hrest with
    | cons hfind' hrest' =>
      cases hrest'
      obtain ⟨ha', hl'⟩ := scan_restored hB hn0 hgone hj0 hj hback hno₁ hfind'
      rw [vmFind_backup (hsA ▸ Nat.ne_of_gt (Nat.zero_lt_of_lt hs.above)) (by decide) ha' hl', ← hsA, ← htA]
      have herased := Start.leaves_magic ht (htA ▸ hs.above) hsize hdone (htA ▸ hAsec)
        (g₁.length_read t.vmAddr labelIndexLenCrcSize)
      generalize t.leaves app _ = g at herased
      dsimp only at herased
      rw [htA] at herased ⊢
      refine ⟨⟨_, _, rfl, ha'.trans hsA.symm, hl'⟩, ?_, ?_⟩
      · -- the label of the first record is erased
        intro hA
        have hlab : labelIndex g₁ (s.vmAddr + labelIndexLenCrcSize) = labelIndex g (s.vmAddr + labelIndexLenCrcSize) :=
          labelIndex_move fun i hi => by
            rw [Nat.add_assoc]
            exact read_eq_read (hA.trans hread.symm) (by omega)
        have hle : labelIndex g₁ (s.vmAddr + labelIndexLenCrcSize) ≤ 1024 := hsA ▸ hback.labelIndex_le
        have herased' : ∀ i, i < labelIndexLenCrcSize → g (s.vmAddr + labelIndexLenCrcSize + i) = 0xFF := fun i hi =>
          (herased _).1 (Nat.le_add_right ..) (by unfold labelIndexLenCrcSize flashSectorSize at *; omega)
        rw [hlab, labelIndex, herased' 1 (by decide), herased' 2 (by decide)] at hle
        exact absurd hle (by decide)
      · -- the backup is as the last start has left it
        intro hBk
        refine get32_erased (fun i hi => ?_) h.log.magic
        have hin : i < n := by
          unfold labelIndexLenCrcSize at hroom
          omega
        have happart := hs.clear.areas
        have hg : g (B + i) = t.updated (B + i) := (herased _).2 (by
          unfold Apart at happart
          unfold flashSectorSize at *
          omega)
        rw [read_eq_read hBk hin, hg]
        have hff := (@Mem.read_eq_iff t.updated B (List.replicate n 0xFF)).1 (by rwa [List.length_replicate]) i
          (by rwa [List.length_replicate])
        rwa [List.getElem_replicate] at hff

end Runs

/-! ## A backup of 16 bytes -/

theorem backedUp_oneByte : BackedUp crcCcitt (oneByteLog [oneByte 0xE7 7]) 4096 16 [oneByte 0xE7 7] where
  log  := ⟨by decide +kernel, by decide +kernel, by decide +kernel, by decide +kernel, by decide +kernel⟩
  room := by decide
  hit  := by decide +kernel

/-- A restore to the third sector, cut off after so many operations. -/
def toThird (updated : Mem) (done : Nat) : Start := ⟨true, updated, 8192, 4096, done⟩

theorem clear_third : Clear 8192 4096 16 := ⟨by decide, by decide, by decide⟩

/-- The first restore is cut off with the new area erased, the second when it has erased the backup. -/
theorem vmData_survive_second :
    let f := oneByteLog [oneByte 0xE7 7]
    (∃ scans g, Starts crcCcitt 3 0 4096 16 f [toThird f 1, toThird f 3] scans g) ∧
      ∀ scans g, Starts crcCcitt 3 0 4096 16 f [toThird f 1, toThird f 3] scans g →
        g.read 8192 16 = f.read 4096 16 ∧
          ∀ r ∈ scans, r.vmAddr = 4096 ∧ r.vmLen = 16 ∧ r.bufs = replay crcCcitt initBufs [oneByte 0xE7 7] :=
  vmData_survive (oneByteLog [oneByte 0xE7 7]) [toThird _ 1] (toThird _ 3) (by decide) backedUp_oneByte
    (List.forall_mem_singleton.2 ⟨rfl, fun _ _ _ => ⟨clear_third, by decide⟩⟩)
    ⟨rfl, rfl, by decide, by decide, clear_third, by decide⟩

/-- The restore is complete, and the loader starts once more. -/
theorem vmData_lost_third :
    let f := oneByteLog [oneByte 0xE7 7]
    let erased : Mem := fun _ => 0xFF
    (∃ scans g, Starts crcCcitt 3 0 4096 16 f [toThird f 3, toThird erased 1] scans g) ∧
      ∀ scans g, Starts crcCcitt 3 0 4096 16 f [toThird f 3, toThird erased 1] scans g →
        (∃ r₁ r₂, scans = [r₁, r₂] ∧ r₂.vmAddr = 8192 ∧ r₂.vmLen = 4) ∧ g.read 8192 16 ≠ f.read 4096 16 ∧ g.read 4096 16 ≠ f.read 4096 16 :=
  vmData_lost (oneByteLog [oneByte 0xE7 7]) (toThird _ 3) (toThird (fun _ => 0xFF) 1) (by decide) (by decide)
    backedUp_oneByte (by decide) ⟨rfl, rfl, by decide, by decide, clear_third, by decide⟩ (by decide)
    (j := 2) (by decide) rfl (fun i h1 h2 _ => absurd h1 (by omega)) rfl rfl (by decide) (by decide) (by decide)

end Vm
end OtaLoader
