import OtaLoader.Mem
/-!
# VmRecover — reading the VM backup and restoring it (vm_wifi.c)

`vm_data_read` copies the backup area to memory; `vm_data_recover` erases the new VM area, writes the copy there and
erases the backup.  The flash operations are kept as a list, so that a reset may fall between any two of them.
`vmDataRecover_keeps_iff` says for which pairs of areas a copy survives every such reset.

Addresses are below 2^31 (`vm_data_recover` keeps them in an `int`), so no sum below wraps.
-/
namespace OtaLoader
namespace Vm

/-- `struct vm_info_type`: the area's address and length, and the copy of it in memory. -/
structure VmInfoType where
  vmAddr : Nat
  vmLen  : Nat
  vmData : Option (List UInt8)

def flashSectorEraserSize : Nat := 4096

/-- `sizeof(buf)` in both functions. -/
def bufSize : Nat := 256

/-! ## vm_data_read -/

/-- The `while (remain)` loop.  `spi0flash_read` is `none` when it returns another size than asked for; the loop then
gives the copy up. -/
def readLoop (spi0flashRead : Nat → Nat → Option (List UInt8)) (vmAddr : Nat) :
    Nat → Nat → Nat → List UInt8 → Option (List UInt8)
  | 0, _, _, vmData => some vmData
  | fuel + 1, readSize, remain, vmData =>
    if remain = 0 then some vmData
    else
      let size := min remain bufSize
      match spi0flashRead (vmAddr + readSize) size with
      | none     => none
      | some buf => readLoop spi0flashRead vmAddr fuel (readSize + size) (remain - size) (vmData ++ buf)

/-- `vm_data_read`: the published area with its copy, and the number of bytes read.  `malloc` is whether the copy's
buffer can be had. -/
def vmDataRead (spi0flashRead : Nat → Nat → Option (List UInt8)) (malloc : Bool) (info : VmInfoType) : VmInfoType × Nat :=
  if info.vmAddr ≠ 0 ∧ info.vmLen ≠ 0 then
    if info.vmData.isSome ∨ malloc = true then
      match readLoop spi0flashRead info.vmAddr info.vmLen 0 info.vmLen [] with
      | some data => ({ info with vmData := some data }, info.vmLen)
      | none      => ({ info with vmData := none }, 0)
    else (info, 0)
  else (info, 0)

/-! ## vm_data_recover -/

/-- One flash operation.  An erase sets the 4096-byte sector that holds its address to 0xFF; a write makes exactly its
range equal to its bytes. -/
inductive FlashOp where
  | erase (address : Nat)
  | write (addr : Nat) (buf : List UInt8)

def sectorOf (address : Nat) : Nat := address - address % flashSectorEraserSize

def FlashOp.apply (f : Mem) : FlashOp → Mem
  | .erase a   => f.fill (sectorOf a) flashSectorEraserSize 0xFF
  | .write a b => f.write a b

/-- The flash after a sequence of operations. -/
def runOps (ops : List FlashOp) (f : Mem) : Mem := ops.foldl FlashOp.apply f

/-- `while (erase_addr < end) { spi0flash_eraser(...); erase_addr += 4096; }` -/
def eraseLoop : Nat → Nat → Nat → List FlashOp
  | 0, _, _ => []
  | fuel + 1, eraseAddr, last =>
    if eraseAddr < last then .erase eraseAddr :: eraseLoop fuel (eraseAddr + flashSectorEraserSize) last else []

/-- The erase of an area, made only when its address is a multiple of the sector size. -/
def eraseArea (addr len : Nat) : List FlashOp :=
  if addr % flashSectorEraserSize = 0 then eraseLoop len addr (addr + len) else []

/-- `while (remain) { ... spi0flash_any_write(buf, vm_addr + read_size, size); ... }` -/
def writeLoop (vmAddr : Nat) (vmData : List UInt8) : Nat → Nat → Nat → List FlashOp
  | 0, _, _ => []
  | fuel + 1, readSize, remain =>
    if remain = 0 then []
    else
      let size := min remain bufSize
      .write (vmAddr + readSize) ((vmData.drop readSize).take size) ::
        writeLoop vmAddr vmData fuel (readSize + size) (remain - size)

/-- `vm_data_recover`: its flash operations in order, and what it returns.  `app_code_addr` is `JL_SFC->BASE_ADR`;
`(vm_addr, vm_size)` is what `flash_get_vm_area_info` stores. -/
def vmDataRecover (appCodeAddr vmAddr vmSize : Nat) (info : VmInfoType) : List FlashOp × Nat :=
  match info.vmData with
  | none => ([], 0)
  | some data =>
    if info.vmLen ≠ 0 then
      if vmAddr > appCodeAddr ∧ vmSize ≥ info.vmLen then
        (eraseArea vmAddr info.vmLen ++ writeLoop vmAddr data info.vmLen 0 info.vmLen ++
          eraseArea info.vmAddr info.vmLen, info.vmLen)
      else ([], 0)
    else ([], 0)

/-! ## The copy read is the backup -/

theorem readLoop_exact (f : Mem) (vmAddr : Nat) : ∀ (fuel readSize remain : Nat) (vmData : List UInt8),
    remain ≤ fuel → vmData = f.read vmAddr readSize →
      readLoop (fun a n => some (f.read a n)) vmAddr fuel readSize remain vmData =
        some (f.read vmAddr (readSize + remain))
  | 0, readSize, remain, vmData, hf, hd => by
    have : remain = 0 := by omega
    simp [readLoop, hd, this]
  | fuel + 1, readSize, remain, vmData, hf, hd => by
    unfold readLoop
    split
    · rename_i h0
      rw [hd, h0, Nat.add_zero]
    · rename_i h0
      have hpos : 0 < min remain bufSize := by unfold bufSize; omega
      have hle : min remain bufSize ≤ remain := Nat.min_le_left _ _
      dsimp only
      rw [readLoop_exact f vmAddr fuel _ _ _ (by omega) (by rw [hd, Mem.read_add]),
        show readSize + min remain bufSize + (remain - min remain bufSize) = readSize + remain by omega]

/-- **With an exact flash read, `vm_data_read` publishes a copy of the area's contents.** -/
theorem vmDataRead_exact (f : Mem) (info : VmInfoType) (ha : info.vmAddr ≠ 0) (hl : info.vmLen ≠ 0) :
    vmDataRead (fun a n => some (f.read a n)) true info =
      ({ info with vmData := some (f.read info.vmAddr info.vmLen) }, info.vmLen) := by
  unfold vmDataRead
  rw [if_pos ⟨ha, hl⟩, if_pos (Or.inr rfl),
    readLoop_exact f info.vmAddr info.vmLen 0 info.vmLen [] (Nat.le_refl _) (by simp [Mem.read]), Nat.zero_add]

/-! ## The loops as ranges of operations -/

theorem runOps_append (xs ys : List FlashOp) (f : Mem) : runOps (xs ++ ys) f = runOps ys (runOps xs f) :=
  List.foldl_append

theorem eraseLoop_eq : ∀ (fuel a last : Nat), last ≤ a + fuel →
    eraseLoop fuel a last = (List.range ((last - a + 4095) / 4096)).map (fun j => .erase (a + 4096 * j))
  | 0, a, last, h => by
    have : (last - a + 4095) / 4096 = 0 := by omega
    simp [eraseLoop, this]
  | fuel + 1, a, last, h => by
    unfold eraseLoop flashSectorEraserSize
    split
    · rename_i hlt
      have hc : (last - a + 4095) / 4096 = (last - (a + 4096) + 4095) / 4096 + 1 := by omega
      rw [eraseLoop_eq fuel (a + 4096) last (by omega), hc, List.range_succ_eq_map, List.map_cons, List.map_map]
      congr 1
      exact List.map_congr_left (fun j _ => by simp only [Function.comp_apply]; congr 1; omega)
    · rename_i hge
      have : (last - a + 4095) / 4096 = 0 := by omega
      simp [this]

theorem writeLoop_eq (A : Nat) (data : List UInt8) : ∀ (fuel rs remain : Nat), remain ≤ fuel →
    writeLoop A data fuel rs remain = (List.range ((remain + 255) / 256)).map
      (fun j => .write (A + (rs + 256 * j)) ((data.drop (rs + 256 * j)).take (min (remain - 256 * j) 256)))
  | 0, rs, remain, h => by
    have : (remain + 255) / 256 = 0 := by omega
    simp [writeLoop, this]
  | fuel + 1, rs, remain, h => by
    unfold writeLoop bufSize
    split
    · rename_i h0
      simp [h0]
    · rename_i h0
      have hc : (remain + 255) / 256 = (remain - min remain 256 + 255) / 256 + 1 := by omega
      dsimp only
      rw [writeLoop_eq A data fuel (rs + min remain 256) (remain - min remain 256) (by omega), hc,
        List.range_succ_eq_map, List.map_cons, List.map_map]
      congr 1
      refine List.map_congr_left (fun j hj => ?_)
      have hj := List.mem_range.1 hj
      have e1 : rs + min remain 256 + 256 * j = rs + 256 * (j + 1) := by omega
      have e2 : min (remain - min remain 256 - 256 * j) 256 = min (remain - 256 * (j + 1)) 256 := by omega
      simp only [Function.comp_apply, e1, e2, Nat.succ_eq_add_one]

theorem runOps_erases (a : Nat) (ha : a % 4096 = 0) (f : Mem) : ∀ k,
    runOps ((List.range k).map (fun j => .erase (a + 4096 * j))) f = f.fill a (4096 * k) 0xFF
  | 0 => by
    funext x
    rw [Nat.mul_zero, Mem.fill_outside (by omega)]
    rfl
  | k + 1 => by
    rw [List.range_succ, List.map_append, runOps_append, runOps_erases a ha f k]
    have hs : sectorOf (a + 4096 * k) = a + 4096 * k := by unfold sectorOf flashSectorEraserSize; omega
    funext x
    simp only [runOps, List.map_cons, List.map_nil, List.foldl_cons, List.foldl_nil, FlashOp.apply, hs, flashSectorEraserSize]
    by_cases hx : a + 4096 * k ≤ x ∧ x < a + 4096 * k + 4096
    · rw [Mem.fill_inside hx.1 hx.2, Mem.fill_inside (by omega) (by omega)]
    · rw [Mem.fill_outside (by omega)]
      by_cases hx' : a ≤ x ∧ x < a + 4096 * k
      · rw [Mem.fill_inside hx'.1 hx'.2, Mem.fill_inside hx'.1 (by omega)]
      · rw [Mem.fill_outside (by omega), Mem.fill_outside (by omega)]

theorem runOps_writes (A : Nat) (data : List UInt8) (f : Mem) : ∀ k,
    runOps ((List.range k).map (fun j =>
      .write (A + (0 + 256 * j)) ((data.drop (0 + 256 * j)).take (min (data.length - 256 * j) 256)))) f =
        f.write A (data.take (256 * k))
  | 0 => by simp [runOps]
  | k + 1 => by
    rw [List.range_succ, List.map_append, runOps_append, runOps_writes A data f k]
    have htake : data.take (256 * (k + 1)) = data.take (256 * k) ++ (data.drop (256 * k)).take 256 := by
      rw [show 256 * (k + 1) = 256 * k + 256 by omega, List.take_add]
    have hmin : (data.drop (256 * k)).take (min (data.length - 256 * k) 256) = (data.drop (256 * k)).take 256 := by
      rw [Nat.min_comm, ← List.take_take, List.take_of_length_le (l := data.drop (256 * k)) (by simp)]
    rw [htake, Mem.write_append]
    simp only [runOps, List.map_cons, List.map_nil, List.foldl_cons, List.foldl_nil, FlashOp.apply, Nat.zero_add, hmin]
    by_cases hl : 256 * k ≤ data.length
    · rw [List.length_take, Nat.min_eq_left hl]
    · rw [List.drop_of_length_le (by omega)]
      simp

/-! ## The flash after any prefix of the operations -/

def eraseCount (addr len : Nat) : Nat := if addr % 4096 = 0 then (len + 4095) / 4096 else 0

/-- The flash after `k₁` sectors of the new area are erased, `k₂` chunks are written and `k₃` sectors of the backup are
erased. -/
def stage (f : Mem) (A B : Nat) (data : List UInt8) (k₁ k₂ k₃ : Nat) : Mem :=
  ((f.fill A (4096 * k₁) 0xFF).write A (data.take (256 * k₂))).fill B (4096 * k₃) 0xFF

theorem runOps_eraseArea (a len k : Nat) (f : Mem) :
    runOps ((eraseArea a len).take k) f = f.fill a (4096 * min k (eraseCount a len)) 0xFF := by
  unfold eraseArea eraseCount flashSectorEraserSize
  split
  · rename_i ha
    rw [eraseLoop_eq len a (a + len) (by omega), ← List.map_take, List.take_range, runOps_erases a ha,
      show a + len - a = len by omega]
  · have : min k 0 = 0 := Nat.min_eq_right (Nat.zero_le k)
    funext x
    rw [this, List.take_nil, Mem.fill_outside (by omega)]
    rfl

theorem length_eraseArea (a len : Nat) : (eraseArea a len).length = eraseCount a len := by
  unfold eraseArea eraseCount flashSectorEraserSize
  split
  · rw [eraseLoop_eq len a (a + len) (by omega), List.length_map, List.length_range,
      show a + len - a = len by omega]
  · rfl

theorem runOps_writeLoop (A : Nat) (data : List UInt8) (k : Nat) (f : Mem) :
    runOps ((writeLoop A data data.length 0 data.length).take k) f =
      f.write A (data.take (256 * min k ((data.length + 255) / 256))) := by
  rw [writeLoop_eq A data data.length 0 data.length (Nat.le_refl _), ← List.map_take, List.take_range,
    runOps_writes A data f]

theorem length_writeLoop (A : Nat) (data : List UInt8) :
    (writeLoop A data data.length 0 data.length).length = (data.length + 255) / 256 := by
  rw [writeLoop_eq A data data.length 0 data.length (Nat.le_refl _), List.length_map, List.length_range]

section Accepted

variable {app A size B n : Nat} {data : List UInt8}

/-- The operations of a call whose new area is accepted. -/
def recoverOps (A B n : Nat) (data : List UInt8) : List FlashOp :=
  eraseArea A n ++ writeLoop A data n 0 n ++ eraseArea B n

theorem vmDataRecover_accepted (hA : app < A) (hs : n ≤ size) (hd : data.length = n) :
    vmDataRecover app A size ⟨B, n, some data⟩ = (recoverOps A B n data, n) := by
  unfold vmDataRecover
  by_cases h0 : n = 0
  · subst h0
    simp [recoverOps, eraseArea, eraseLoop, writeLoop]
  · simp only [ne_eq, h0, not_false_eq_true, if_true, gt_iff_lt, hA, ge_iff_le, hs, and_self]
    rfl

theorem length_recoverOps (A B : Nat) (hd : data.length = n) :
    (recoverOps A B n data).length = eraseCount A n + (n + 255) / 256 + eraseCount B n := by
  subst hd
  unfold recoverOps
  rw [List.length_append, List.length_append, length_eraseArea, length_writeLoop, length_eraseArea]

/-- **The flash after any prefix of the operations** is one of the stages. -/
theorem runOps_recoverOps (A B : Nat) (hd : data.length = n) (f : Mem) (k : Nat) :
    runOps ((recoverOps A B n data).take k) f =
      stage f A B data (min k (eraseCount A n)) (min (k - eraseCount A n) ((n + 255) / 256))
        (min (k - (eraseCount A n + (n + 255) / 256)) (eraseCount B n)) := by
  subst hd
  unfold recoverOps stage
  rw [List.take_append, List.take_append, runOps_append, runOps_append, runOps_eraseArea, length_eraseArea,
    runOps_writeLoop, List.length_append, length_eraseArea, length_writeLoop, runOps_eraseArea]

theorem runOps_recoverOps_all (A B : Nat) (hd : data.length = n) (f : Mem) :
    runOps (recoverOps A B n data) f = stage f A B data (eraseCount A n) ((n + 255) / 256) (eraseCount B n) := by
  have h := runOps_recoverOps A B hd f (recoverOps A B n data).length
  rw [List.take_length, length_recoverOps A B hd] at h
  rw [h]
  congr 1 <;> omega

end Accepted

/-! ## When a copy survives -/

/-- The area at `addr` holds `data`. -/
def Intact (f : Mem) (addr : Nat) (data : List UInt8) : Prop := f.read addr data.length = data

instance (f : Mem) (addr : Nat) (data : List UInt8) : Decidable (Intact f addr data) := by
  unfold Intact; infer_instance

/-- **A reset at any point leaves a copy**: with the `n` bytes of the backup area in memory, after every prefix of the
operations the backup or the new area holds them, and at the end the new area does. -/
def KeepsData (app A size B n : Nat) (f : Mem) : Prop :=
  let data := f.read B n
  let r := vmDataRecover app A size ⟨B, n, some data⟩
  (∀ k, k ≤ r.1.length → Intact (runOps (r.1.take k) f) B data ∨ Intact (runOps (r.1.take k) f) A data) ∧
    (r.2 = n → Intact (runOps r.1 f) A data)

def Apart (a la b lb : Nat) : Prop := a + la ≤ b ∨ b + lb ≤ a

instance (a la b lb : Nat) : Decidable (Apart a la b lb) := by unfold Apart; infer_instance

/-- The sectors erased for either area stay off the other one; and where neither is erased, the areas coincide or every
chunk written before the last one lies outside the backup. -/
def NoClash (A B n : Nat) : Prop :=
  (A % 4096 = 0 → Apart A (4096 * ((n + 4095) / 4096)) B n) ∧
  (B % 4096 = 0 → Apart B (4096 * ((n + 4095) / 4096)) A n) ∧
  (A % 4096 ≠ 0 → B % 4096 ≠ 0 → A = B ∨ n ≤ 256 ∨ Apart A (256 * ((n - 1) / 256)) B n)

instance (A B n : Nat) : Decidable (NoClash A B n) := by unfold NoClash; infer_instance

theorem intact_iff {f : Mem} {addr : Nat} {data : List UInt8} :
    Intact f addr data ↔ ∀ (i : Nat) (h : i < data.length), f (addr + i) = data[i] := Mem.read_eq_iff

/-- Before the last chunk is written the backup is untouched, or rewritten with its own bytes. -/
theorem stage_backup {A B n k₁ k₂ : Nat} {f : Mem} (hc : NoClash A B n) (h1 : k₁ ≤ eraseCount A n)
    (h2 : k₂ < (n + 255) / 256) : Intact (stage f A B (f.read B n) k₁ k₂ 0) B (f.read B n) := by
  obtain ⟨hcA, hcB, hcN⟩ := hc
  rw [intact_iff]
  intro i hi
  rw [Mem.length_read] at hi
  rw [Mem.getElem_read]
  unfold stage
  rw [Mem.fill_outside (by omega)]
  have hlen : ((f.read B n).take (256 * k₂)).length = min (256 * k₂) n := by simp
  unfold eraseCount at h1
  by_cases hA : A % 4096 = 0
  · rw [if_pos hA] at h1
    have := hcA hA
    unfold Apart at this
    rw [Mem.write_outside (by rw [hlen]; omega), Mem.fill_outside (by omega)]
  · rw [if_neg hA] at h1
    have hfill : f.fill A (4096 * k₁) 0xFF = f := by
      funext x
      exact Mem.fill_outside (by omega)
    rw [hfill]
    by_cases hB : B % 4096 = 0
    · have := hcB hB
      unfold Apart at this
      rw [Mem.write_outside (by rw [hlen]; omega)]
    · rcases hcN hA hB with rfl | hn | hap
      · by_cases hw : i < 256 * k₂
        · rw [Mem.write_inside (by rw [hlen]; omega)]
          simp
        · rw [Mem.write_outside (by rw [hlen]; omega)]
      · rw [Mem.write_outside (by rw [hlen]; omega)]
      · unfold Apart at hap
        rw [Mem.write_outside (by rw [hlen]; omega)]

/-- Once the last chunk is written the new area holds the copy, whatever is erased of the backup. -/
theorem stage_new {A B n k₁ k₂ k₃ : Nat} {f : Mem} (hc : NoClash A B n) (h2 : (n + 255) / 256 ≤ k₂)
    (h3 : k₃ ≤ eraseCount B n) : Intact (stage f A B (f.read B n) k₁ k₂ k₃) A (f.read B n) := by
  rw [intact_iff]
  intro i hi
  rw [Mem.length_read] at hi
  have hlen : ((f.read B n).take (256 * k₂)).length = min (256 * k₂) n := by simp
  unfold stage
  have hout : A + i < B ∨ B + 4096 * k₃ ≤ A + i := by
    unfold eraseCount at h3
    by_cases hB : B % 4096 = 0
    · rw [if_pos hB] at h3
      have := hc.2.1 hB
      unfold Apart at this
      omega
    · rw [if_neg hB] at h3
      omega
  rw [Mem.fill_outside hout, Mem.write_inside (by rw [hlen]; omega)]
  simp

/-- `KeepsData` on the stages. -/
theorem keepsData_iff {app A size B n : Nat} (hA : app < A) (hs : n ≤ size) (f : Mem) :
    KeepsData app A size B n f ↔
      (∀ k, k ≤ eraseCount A n + (n + 255) / 256 + eraseCount B n →
        let g := stage f A B (f.read B n) (min k (eraseCount A n)) (min (k - eraseCount A n) ((n + 255) / 256))
          (min (k - (eraseCount A n + (n + 255) / 256)) (eraseCount B n))
        Intact g B (f.read B n) ∨ Intact g A (f.read B n)) ∧
      Intact (stage f A B (f.read B n) (eraseCount A n) ((n + 255) / 256) (eraseCount B n)) A (f.read B n) := by
  unfold KeepsData
  simp only [vmDataRecover_accepted (B := B) hA hs (f.length_read B n), length_recoverOps A B (f.length_read B n),
    runOps_recoverOps A B (f.length_read B n), runOps_recoverOps_all A B (f.length_read B n), forall_const]

theorem keepsData_of_noClash {app A size B n : Nat} (hA : app < A) (hs : n ≤ size) (hc : NoClash A B n) (f : Mem) :
    KeepsData app A size B n f := by
  rw [keepsData_iff hA hs]
  refine ⟨fun k _ => ?_, stage_new hc (Nat.le_refl _) (Nat.le_refl _)⟩
  by_cases hk : k - eraseCount A n < (n + 255) / 256
  · left
    have h0 : min (k - (eraseCount A n + (n + 255) / 256)) (eraseCount B n) = 0 := by omega
    simp only [h0]
    exact stage_backup hc (Nat.min_le_right _ _) (by omega)
  · right
    exact stage_new hc (by omega) (Nat.min_le_right _ _)

/-! ## When a copy is lost: the flash contents that show it -/

theorem not_intact_read {f g : Mem} {addr B n i : Nat} (hi : i < n) (hne : f (addr + i) ≠ g (B + i)) :
    ¬ Intact f addr (g.read B n) := by
  intro h
  rw [intact_iff] at h
  exact hne (by rw [h i (by simpa using hi), Mem.getElem_read])

/-- The erase of the new area reaches the backup: on a flash of zeros both copies are gone once it is done. -/
theorem erase_new_loses {app A size B n : Nat} (hA : app < A) (hs : n ≤ size) (hal : A % 4096 = 0)
    (hov : ¬ Apart A (4096 * ((n + 4095) / 4096)) B n) : ¬ KeepsData app A size B n (fun _ => 0) := by
  rw [keepsData_iff hA hs]
  intro ⟨hall, _⟩
  unfold Apart at hov
  have hcA : eraseCount A n = (n + 4095) / 4096 := if_pos hal
  have hk := hall (eraseCount A n) (by omega)
  simp only [Nat.min_self, Nat.sub_self, Nat.zero_min, Nat.sub_self_add, hcA] at hk
  have hval : ∀ x, A ≤ x → x < A + 4096 * ((n + 4095) / 4096) →
      stage (fun _ => 0) A B (Mem.read (fun _ => 0) B n) ((n + 4095) / 4096) 0 0 x = 0xFF := by
    intro x h1 h2
    unfold stage
    rw [Mem.fill_outside (by omega), Nat.mul_zero, List.take_zero, Mem.write_nil, Mem.fill_inside h1 h2]
  -- the byte at the later of the two area starts is erased and belongs to the backup
  rcases hk with hB | hN
  · refine not_intact_read (i := max A B - B) (by omega) ?_ hB
    rw [hval _ (by omega) (by omega)]
    decide
  · refine not_intact_read (i := 0) (by omega) ?_ hN
    rw [hval _ (by omega) (by omega)]
    decide

/-- The erase of the backup reaches the new area: on a flash of zeros the restored copy is damaged at the end. -/
theorem erase_backup_loses {app A size B n : Nat} (hA : app < A) (hs : n ≤ size) (hal : B % 4096 = 0)
    (hov : ¬ Apart B (4096 * ((n + 4095) / 4096)) A n) : ¬ KeepsData app A size B n (fun _ => 0) := by
  rw [keepsData_iff hA hs]
  intro ⟨_, hlast⟩
  unfold Apart at hov
  have hcB : eraseCount B n = (n + 4095) / 4096 := if_pos hal
  refine not_intact_read (i := max A B - A) (by omega) ?_ hlast
  unfold stage
  rw [hcB, Mem.fill_inside (by omega) (by omega)]
  decide

/-- Bytes that change from one block of `d` to the next. -/
def striped (s d : Nat) : Mem := fun x => if (x - s) / d % 2 = 0 then 0 else 1

theorem striped_shift {s d x : Nat} (hd : 0 < d) (hx : s ≤ x) : striped s d (x + d) ≠ striped s d x := by
  unfold striped
  have h : (x + d - s) / d = (x - s) / d + 1 := by
    rw [show x + d - s = x - s + d by omega, Nat.add_div_right _ hd]
  rw [h]
  by_cases hp : (x - s) / d % 2 = 0
  · have : ¬ ((x - s) / d + 1) % 2 = 0 := by omega
    simp [hp, this]
  · have : ((x - s) / d + 1) % 2 = 0 := by omega
    simp [hp, this]

/-- Overlapping areas of which neither is erased: once every chunk but the last is written, a striped flash shows that
the backup is damaged and the new area not complete. -/
theorem chunk_loses {app A size B n : Nat} (hA : app < A) (hs : n ≤ size) (hnA : A % 4096 ≠ 0) (hnB : B % 4096 ≠ 0)
    (hne : A ≠ B) (hn : 256 < n) (hov : ¬ Apart A (256 * ((n - 1) / 256)) B n) :
    ¬ KeepsData app A size B n (striped (min A B) (max A B - min A B)) := by
  generalize hf : striped (min A B) (max A B - min A B) = f
  have hshift : ∀ x, min A B ≤ x → f (x + (max A B - min A B)) ≠ f x := by
    intro x hx
    rw [← hf]
    exact striped_shift (by omega) hx
  rw [keepsData_iff hA hs]
  intro ⟨hall, _⟩
  unfold Apart at hov
  have hcA : eraseCount A n = 0 := if_neg hnA
  have hcB : eraseCount B n = 0 := if_neg hnB
  have hk := hall ((n - 1) / 256) (by omega)
  simp only [hcA, hcB, Nat.min_zero, Nat.sub_zero, show min ((n - 1) / 256) ((n + 255) / 256) = (n - 1) / 256 by omega]
    at hk
  have hlen : ((f.read B n).take (256 * ((n - 1) / 256))).length = 256 * ((n - 1) / 256) := by
    rw [List.length_take, Mem.length_read]; omega
  have hval : ∀ x, stage f A B (f.read B n) 0 ((n - 1) / 256) 0 x =
      (f.write A ((f.read B n).take (256 * ((n - 1) / 256)))) x := by
    intro x
    unfold stage
    have hfill : f.fill A (4096 * 0) 0xFF = f := by
      funext y
      exact Mem.fill_outside (by omega)
    rw [Mem.fill_outside (by omega), hfill]
  have hin : ∀ i, i < 256 * ((n - 1) / 256) →
      (f.write A ((f.read B n).take (256 * ((n - 1) / 256)))) (A + i) = f (B + i) := by
    intro i hi
    rw [Mem.write_inside (by rw [hlen]; exact hi)]
    simp
  rcases hk with hB | hN
  · -- the later of the two starts is in the backup and already holds the byte of another offset
    refine not_intact_read (i := max A B - B) (by omega) ?_ hB
    rw [hval, show B + (max A B - B) = A + (max A B - A) by omega, hin _ (by omega)]
    by_cases hlt : A < B
    · have := hshift B (by omega)
      rwa [show B + (max A B - min A B) = B + (max A B - A) by omega,
        show f B = f (A + (max A B - A)) by congr 1; omega] at this
    · have := hshift B (by omega)
      rw [show B + (max A B - min A B) = A + (max A B - A) by omega] at this
      rw [show B + (max A B - A) = B by omega]
      exact this.symm
  · -- the last byte of the new area is still the old one
    refine not_intact_read (i := n - 1) (by omega) ?_ hN
    rw [hval, Mem.write_outside (by rw [hlen]; omega)]
    by_cases hlt : A < B
    · have := hshift (A + (n - 1)) (by omega)
      rw [show A + (n - 1) + (max A B - min A B) = B + (n - 1) by omega] at this
      exact this.symm
    · have := hshift (B + (n - 1)) (by omega)
      rwa [show B + (n - 1) + (max A B - min A B) = A + (n - 1) by omega] at this

/-- **When the VM data survives every reset**: whatever the flash holds, exactly when the erases and the writes of the
one area stay off the other. -/
theorem vmDataRecover_keeps_iff (app A size B n : Nat) (hA : app < A) (hs : n ≤ size) :
    (∀ f, KeepsData app A size B n f) ↔ NoClash A B n := by
  constructor
  · intro h
    refine ⟨fun hal => ?_, fun hal => ?_, fun hnA hnB => ?_⟩
    · exact Classical.byContradiction (fun hov => erase_new_loses hA hs hal hov (h _))
    · exact Classical.byContradiction (fun hov => erase_backup_loses hA hs hal hov (h _))
    · by_cases hne : A = B
      · exact Or.inl hne
      by_cases hn : n ≤ 256
      · exact Or.inr (Or.inl hn)
      exact Or.inr (Or.inr (Classical.byContradiction
        (fun hov => chunk_loses hA hs hnA hnB hne (by omega) hov (h _))))
  · intro hc f
    exact keepsData_of_noClash hA hs hc f

/-- **Reading the backup at boot and restoring it later loses nothing** between the two, for areas that do not clash. -/
theorem vmDataRead_recover_keeps (app A size B n : Nat) (f : Mem) (hA : app < A) (hs : n ≤ size) (hB : B ≠ 0)
    (hn : n ≠ 0) (hc : NoClash A B n) :
    let info := (vmDataRead (fun a n => some (f.read a n)) true ⟨B, n, none⟩).1
    ∀ k, Intact (runOps ((vmDataRecover app A size info).1.take k) f) B (f.read B n) ∨
      Intact (runOps ((vmDataRecover app A size info).1.take k) f) A (f.read B n) := by
  simp only [vmDataRead_exact f ⟨B, n, none⟩ hB hn]
  intro k
  obtain ⟨hall, hlast⟩ := keepsData_of_noClash hA hs hc f
  rcases Nat.le_total k (vmDataRecover app A size ⟨B, n, some (f.read B n)⟩).1.length with hk | hk
  · exact hall k hk
  · rw [List.take_of_length_le hk]
    exact Or.inr (hlast (by rw [vmDataRecover_accepted hA hs (f.length_read B n)]))

/-- A 16-byte backup in the last sector of a 512 KiB flash and a new area in the sector before it. -/
theorem vmDataRecover_keeps_apart : 0x1000 < 0x7E000 ∧ 16 ≤ 8192 ∧
    ∀ f, KeepsData 0x1000 0x7E000 8192 0x7F000 16 f :=
  ⟨by decide, by decide, (vmDataRecover_keeps_iff 0x1000 0x7E000 8192 0x7F000 16 (by decide) (by decide)).2 (by decide)⟩

/-- The new area is the backup's own sector: the erase made before anything is written destroys the only copy, and the
last erase destroys the restored one. -/
theorem vmDataRecover_loses_same_sector : 0x1000 < 0x7F000 ∧ 16 ≤ 4096 ∧
    ¬ KeepsData 0x1000 0x7F000 4096 0x7F000 16 (fun _ => 0x55) := by
  refine ⟨by decide, by decide, ?_⟩
  rw [keepsData_iff (by decide) (by decide)]
  intro ⟨_, hlast⟩
  refine not_intact_read (i := 0) (by decide) ?_ hlast
  decide

end Vm
end OtaLoader
