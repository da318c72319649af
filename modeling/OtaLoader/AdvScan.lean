import OtaLoader.CustomCfg
import OtaLoader.Loop
/-!
# AdvScan — which packet carries the manufacturer data (`ble_rcsp_server.c`)

With `TCFG_BLE_RSP_ADV_SWITCH`, `adv_rsp_data_switch_handle` looks for manufacturer data among the structures of the scan
response and has the two packets change places when there is some.  Its cursor is one byte wide and goes on by a length
from flash: a length that is long enough takes it back.
-/
namespace OtaLoader
namespace AdvScan

open CustomCfg Relation

/-! ## The code -/

def sizeofAdvRspBuf : Nat := 31

/-- A round of the loop: the indices of `adv_rsp_buf` that it reads, and the next cursor or whether the flag is set. -/
def scanRound (buf : Mem) (i : UInt8) : List Nat × (UInt8 ⊕ Bool) :=
  if i.toNat < sizeofAdvRspBuf then
    if 0 = buf i.toNat then ([i.toNat], .inr false)
    else if 0xFF = buf (i.toNat + 1) then ([i.toNat, i.toNat + 1], .inr true)
    else ([i.toNat, i.toNat + 1, i.toNat], .inl (i + (buf i.toNat + 1)))
  else ([], .inr false)

def scanBody (buf : Mem) (i : UInt8) : UInt8 ⊕ Bool := (scanRound buf i).2

/-- `g_adv_rsp_content_switch_flag`, `adv_data`, `scan_rsp_data` and `temp_buf`. -/
structure Dev where
  switchFlag  : Bool
  advData     : Mem
  scanRspData : Mem
  tempBuf     : Mem

section Code

variable (crc16 : List UInt8 → UInt16) (exifAddr : Nat) (flash : Mem)

/-- The scan response as it is read into `adv_rsp_buf`, an array on the stack. -/
def scanRsp (stack tempBuf : Mem) : Answer :=
  exCfgGetContentApi crc16 exifAddr flash .scanRsp (stack.fill 0 sizeofAdvRspBuf 0) sizeofAdvRspBuf tempBuf

/-- The second half of `adv_rsp_data_switch_handle`: with the flag set, the packets change places. -/
def switchPackets (rsp : Answer) (d : Dev) : Nat × Dev :=
  if d.switchFlag then
    let adv := exCfgGetContentApi crc16 exifAddr flash .advInd d.scanRspData 31 d.tempBuf
    let d := { d with scanRspData := adv.data, tempBuf := adv.ram }
    if adv.err = .none then (31, { d with advData := d.advData.write 0 (rsp.data.read 0 31) })
    else (0, { d with switchFlag := false })
  else (0, d)

/-- `none` while the loop has not left after `fuel` rounds. -/
def advRspDataSwitchHandle (stack : Mem) (fuel : Nat) (d : Dev) : Option (Nat × Dev) :=
  let rsp := scanRsp crc16 exifAddr flash stack d.tempBuf
  let d := { d with tempBuf := rsp.ram }
  if rsp.err = .none then
    (Loop.run (scanBody rsp.data) fuel 0).map fun found =>
      switchPackets crc16 exifAddr flash rsp { d with switchFlag := d.switchFlag || found }
  else some (switchPackets crc16 exifAddr flash rsp d)

end Code

/-! ## Structures -/

/-- The length and the type of each structure behind the next bytes, up to the first length of zero.  What begins at the
last byte has no type. -/
def structuresFrom : Nat → List UInt8 → List (UInt8 × UInt8)
  | _, []            => []
  | k + 1, _ :: rest => structuresFrom k rest
  | 0, l :: rest     =>
    match rest.head? with
    | some t => if l = 0 then [] else (l, t) :: structuresFrom l.toNat rest
    | none   => []

def structures (content : List UInt8) : List (UInt8 × UInt8) := structuresFrom 0 content

/-- The loop leaves, reads `adv_rsp_buf` only, and sets the flag exactly for manufacturer data in the scan response. -/
def Scans (buf : Mem) : Prop :=
  ∃ n found, Loop.run (scanBody buf) n 0 = some found ∧
    (∀ i ∈ Loop.trace (scanBody buf) n 0, ∀ a ∈ (scanRound buf i).1, a < sizeofAdvRspBuf) ∧
    (found = true ↔ ∃ s ∈ structures (buf.read 0 sizeofAdvRspBuf), s.2 = 0xFF)

/-! ## The way through the content -/

/-- A structure at `i` that is not of manufacturer data has the next one at `j`, as far as one byte can tell. -/
def Follows (buf : Mem) (i j : UInt8) : Prop :=
  i.toNat + 1 < sizeofAdvRspBuf ∧ buf i.toNat ≠ 0 ∧ buf (i.toNat + 1) ≠ 0xFF ∧
    j.toNat = (i.toNat + (buf i.toNat).toNat + 1) % 256

def OnTheWay (buf : Mem) (i : UInt8) : Prop := ReflTransGen (Follows buf) 0 i

/-- No structure begins at the last byte, the way comes to no place twice, and if it ever goes back it meets no
manufacturer data. -/
structure Regular (buf : Mem) : Prop where
  last  : OnTheWay buf 30 → buf 30 = 0
  once  : ∀ i, OnTheWay buf i → ¬ TransGen (Follows buf) i i
  ahead : ∀ i j, OnTheWay buf i → Follows buf i j → j ≤ i → ∀ k, OnTheWay buf k → k.toNat + 1 < sizeofAdvRspBuf →
    buf k.toNat ≠ 0 → buf (k.toNat + 1) ≠ 0xFF

instance finiteUInt8 : Finite UInt8 := Finite.of_injective UInt8.toFin (fun _ _ h => UInt8.toFin_inj.1 h)

/-! ## What is found from a place on -/

theorem structuresFrom_eq : ∀ (k : Nat) (bs : List UInt8), structuresFrom k bs = structures (bs.drop k)
  | 0, _           => rfl
  | _ + 1, []      => rfl
  | k + 1, _ :: bs => structuresFrom_eq k bs

section Found

variable {buf : Mem} {p : Nat}

/-- Manufacturer data from the place `p` on. -/
def Found (buf : Mem) (p : Nat) : Prop := ∃ s ∈ structures ((buf.read 0 sizeofAdvRspBuf).drop p), s.2 = 0xFF

theorem drop_content (h : p < sizeofAdvRspBuf) :
    (buf.read 0 sizeofAdvRspBuf).drop p = buf p :: (buf.read 0 sizeofAdvRspBuf).drop (p + 1) := by
  rw [List.drop_eq_getElem_cons (by rw [Mem.length_read]; exact h), Mem.getElem_read, Nat.zero_add]

theorem drop_past (h : sizeofAdvRspBuf ≤ p) : (buf.read 0 sizeofAdvRspBuf).drop p = [] :=
  List.drop_of_length_le (by rw [Mem.length_read]; exact h)

theorem not_found_past (h : sizeofAdvRspBuf ≤ p) : ¬ Found buf p := by
  rintro ⟨s, hs, -⟩
  rw [drop_past h] at hs
  cases hs

/-- The structure at `p`, and what is behind it. -/
theorem found_iff (h : p + 1 < sizeofAdvRspBuf) (hl : buf p ≠ 0) :
    Found buf p ↔ buf (p + 1) = 0xFF ∨ Found buf (p + (buf p).toNat + 1) := by
  have hcons : structures ((buf.read 0 sizeofAdvRspBuf).drop p) =
      (buf p, buf (p + 1)) :: structures ((buf.read 0 sizeofAdvRspBuf).drop (p + (buf p).toNat + 1)) := by
    rw [drop_content (by omega), drop_content h, structures, structuresFrom]
    simp only [List.head?_cons, if_neg hl]
    rw [← drop_content h, structuresFrom_eq, List.drop_drop]
    congr 3
    omega
  unfold Found
  rw [hcons]
  simp

/-- A length of zero, and a structure without a type. -/
theorem not_found_end (h : buf p = 0 ∨ p = 30) : ¬ Found buf p := by
  intro hf
  by_cases hp : p < sizeofAdvRspBuf
  · obtain ⟨s, hs, -⟩ := hf
    rw [drop_content hp, structures, structuresFrom] at hs
    split at hs
    · rename_i t ht
      rcases h with h | rfl
      · rw [if_pos h] at hs
        cases hs
      · rw [drop_past (by decide)] at ht
        cases ht
    · cases hs
  · exact not_found_past (Nat.not_lt.1 hp) hf

end Found

/-! ## What a round does -/

section Round

variable {buf : Mem} {i j k : UInt8}

theorem goes_iff : scanBody buf i = .inl j ↔ i.toNat < sizeofAdvRspBuf ∧ buf i.toNat ≠ 0 ∧
    buf (i.toNat + 1) ≠ 0xFF ∧ j.toNat = (i.toNat + (buf i.toNat).toNat + 1) % 256 := by
  have hnext : (i + (buf i.toNat + 1)).toNat = (i.toNat + (buf i.toNat).toNat + 1) % 256 := by
    rw [UInt8.toNat_add, UInt8.toNat_add]
    have hone : (1 : UInt8).toNat = 1 := rfl
    rw [hone]
    omega
  unfold scanBody scanRound
  by_cases hi : i.toNat < sizeofAdvRspBuf
  · by_cases hl : 0 = buf i.toNat
    · rw [if_pos hi, if_pos hl]
      exact ⟨nofun, fun h => absurd hl.symm h.2.1⟩
    · by_cases ht : 0xFF = buf (i.toNat + 1)
      · rw [if_pos hi, if_neg hl, if_pos ht]
        exact ⟨nofun, fun h => absurd ht.symm h.2.2.1⟩
      · rw [if_pos hi, if_neg hl, if_neg ht, Sum.inl.injEq, ← UInt8.toNat_inj, hnext]
        exact ⟨fun h => ⟨hi, Ne.symm hl, Ne.symm ht, h.symm⟩, fun h => h.2.2.2.symm⟩
  · rw [if_neg hi]
    exact ⟨nofun, fun h => absurd h.1 hi⟩

/-- **How the loop leaves.** -/
theorem leaves_iff {found : Bool} : scanBody buf i = .inr found ↔
    (found = false ∧ (sizeofAdvRspBuf ≤ i.toNat ∨ i.toNat < sizeofAdvRspBuf ∧ buf i.toNat = 0)) ∨
      (found = true ∧ i.toNat < sizeofAdvRspBuf ∧ buf i.toNat ≠ 0 ∧ buf (i.toNat + 1) = 0xFF) := by
  unfold scanBody scanRound
  by_cases hi : i.toNat < sizeofAdvRspBuf
  · by_cases hl : 0 = buf i.toNat
    · rw [if_pos hi, if_pos hl]
      simp [hi, ← hl, Nat.not_le.2 hi, eq_comm]
    · have hl' : buf i.toNat ≠ 0 := Ne.symm hl
      by_cases ht : 0xFF = buf (i.toNat + 1)
      · rw [if_pos hi, if_neg hl, if_pos ht]
        simp [hi, hl', ← ht, Nat.not_le.2 hi, eq_comm]
      · rw [if_pos hi, if_neg hl, if_neg ht]
        simp [hl', Ne.symm ht, Nat.not_le.2 hi]
  · rw [if_neg hi]
    simp [hi, Nat.not_lt.1 hi, eq_comm]

theorem Follows.goes (h : Follows buf i j) : scanBody buf i = .inl j :=
  goes_iff.2 ⟨Nat.lt_of_succ_lt h.1, h.2⟩

theorem follows_of_goes (h : scanBody buf i = .inl j) (hi : i ≠ 30) : Follows buf i j := by
  obtain ⟨hlt, hrest⟩ := goes_iff.1 h
  have hne : i.toNat ≠ 30 := fun heq => hi (UInt8.toNat_inj.1 heq)
  refine ⟨?_, hrest⟩
  unfold sizeofAdvRspBuf at *
  omega

theorem OnTheWay.reaches (h : OnTheWay buf i) : Loop.Reaches (scanBody buf) 0 i :=
  ReflTransGen.mono (fun _ _ => Follows.goes) _ _ h

/-- Manufacturer data lies ahead: the round keeps it, and goes on. -/
theorem found_goes (h : scanBody buf i = .inl j) (hf : Found buf i.toNat) : Found buf j.toNat ∧ i < j := by
  have hi : i ≠ 30 := by
    rintro rfl
    exact not_found_end (.inr rfl) hf
  obtain ⟨hlt, hl, ht, hj⟩ := follows_of_goes h hi
  have hnext : Found buf (i.toNat + (buf i.toNat).toNat + 1) := ((found_iff hlt hl).1 hf).resolve_left ht
  have hin : i.toNat + (buf i.toNat).toNat + 1 < sizeofAdvRspBuf := by
    by_contra hge
    exact not_found_past (Nat.not_lt.1 hge) hnext
  unfold sizeofAdvRspBuf at hin
  have hj' : j.toNat = i.toNat + (buf i.toNat).toNat + 1 := by omega
  exact ⟨hj' ▸ hnext, UInt8.lt_iff_toNat_lt.2 (by omega)⟩

theorem found_reaches (h : Loop.Reaches (scanBody buf) i j) (hf : Found buf i.toNat) : Found buf j.toNat := by
  induction h with
  | refl         => exact hf
  | tail _ hb ih => exact (found_goes hb ih).1

/-- A round that goes on has found what is found behind it. -/
theorem Follows.found (h : Follows buf i j) (hlt : i < j) (hf : Found buf j.toNat) : Found buf i.toNat := by
  obtain ⟨hin, hl, -, hj⟩ := h
  have hlt' := UInt8.lt_iff_toNat_lt.1 hlt
  have hi := i.toNat_lt
  have hb := (buf i.toNat).toNat_lt
  have hj' : j.toNat = i.toNat + (buf i.toNat).toNat + 1 := by omega
  exact (found_iff hin hl).2 (.inr (hj' ▸ hf))

theorem reads_last (h : buf 30 ≠ 0) : 31 ∈ (scanRound buf 30).1 := by
  have hi : (30 : UInt8).toNat < sizeofAdvRspBuf := by decide
  have hl : ¬ 0 = buf (30 : UInt8).toNat := Ne.symm h
  unfold scanRound
  rw [if_pos hi, if_neg hl]
  split <;> simp

/-- What is read from a place that has a type behind it. -/
theorem reads_inside (h : i.toNat < sizeofAdvRspBuf → buf i.toNat ≠ 0 → i.toNat + 1 < sizeofAdvRspBuf) :
    ∀ a ∈ (scanRound buf i).1, a < sizeofAdvRspBuf := by
  intro a ha
  unfold scanRound at ha
  split at ha
  · rename_i hi
    split at ha
    · cases List.mem_singleton.1 ha
      exact hi
    · rename_i hl
      have hnext := h hi (Ne.symm hl)
      split at ha <;> simp only [List.mem_cons, List.not_mem_nil, or_false] at ha <;> omega
  · cases ha

end Round

/-! ## When the scan is right -/

section Regular

variable {buf : Mem} {i j k : UInt8}

theorem Regular.follows (h : Regular buf) (hi : OnTheWay buf i) (hb : scanBody buf i = .inl j) : Follows buf i j := by
  refine follows_of_goes hb ?_
  rintro rfl
  exact (goes_iff.1 hb).2.1 (h.last hi)

theorem Regular.onTheWay (h : Regular buf) (hr : Loop.Reaches (scanBody buf) 0 i) : OnTheWay buf i := by
  induction hr with
  | refl         => exact .refl
  | tail _ hb ih => exact ih.tail (h.follows ih hb)

theorem Regular.no_cycle (h : Regular buf) (hi : OnTheWay buf i) :
    ¬ TransGen (fun i j => scanBody buf i = .inl j) i i := by
  have hway : ∀ {j : UInt8}, TransGen (fun i j => scanBody buf i = .inl j) i j → TransGen (Follows buf) i j := by
    intro j hj
    induction hj with
    | single hb    => exact .single (h.follows hi hb)
    | tail _ hb ih => exact ih.tail (h.follows (hi.trans ih.to_reflTransGen) hb)
  exact fun hc => h.once i hi (hway hc)

/-- Every place with a length has a type in the content. -/
theorem Regular.inside (h : Regular buf) (hi : OnTheWay buf i) (hlt : i.toNat < sizeofAdvRspBuf)
    (hl : buf i.toNat ≠ 0) : i.toNat + 1 < sizeofAdvRspBuf := by
  have hne : i.toNat ≠ 30 := fun heq => by
    have h30 : i = 30 := UInt8.toNat_inj.1 heq
    subst h30
    exact hl (h.last hi)
  unfold sizeofAdvRspBuf at *
  omega

/-- Where manufacturer data is met, it is among the structures. -/
theorem Regular.found (h : Regular buf) (hk : OnTheWay buf k) (hin : k.toNat + 1 < sizeofAdvRspBuf)
    (hl : buf k.toNat ≠ 0) (ht : buf (k.toNat + 1) = 0xFF) : Found buf 0 := by
  have hback : ∀ {j : UInt8}, OnTheWay buf j → Found buf j.toNat → Found buf 0 := by
    intro j hj
    induction hj with
    | refl => exact id
    | tail hi hf ih =>
      refine fun hfound => ih (hf.found ?_ hfound)
      by_contra hle
      exact h.ahead _ _ hi hf (UInt8.not_lt.1 hle) k hk hin hl ht
  exact hback hk ((found_iff hin hl).2 (.inl ht))

/-- What the loop has found when it leaves a regular content. -/
theorem Regular.leaves (h : Regular buf) : ∃ n found, Loop.run (scanBody buf) n 0 = some found ∧
    (found = true ↔ ∃ s ∈ structures (buf.read 0 sizeofAdvRspBuf), s.2 = 0xFF) := by
  obtain ⟨found, n, hrun⟩ := Loop.returns_iff_no_cycle.2 (fun i hi => h.no_cycle (h.onTheWay hi))
  obtain ⟨k, hk, hleave⟩ := Loop.returns_iff.1 ⟨n, hrun⟩
  refine ⟨n, found, hrun, fun htrue => ?_, fun hzero => ?_⟩
  · obtain ⟨-, hin, hl, ht⟩ := (leaves_iff.1 hleave).resolve_left (fun hend => absurd (hend.1.symm.trans htrue) nofun)
    exact h.found (h.onTheWay hk) (h.inside (h.onTheWay hk) hin hl) hl ht
  · refine ((leaves_iff.1 hleave).resolve_left fun hend => absurd (found_reaches hk hzero) ?_).1
    exact hend.2.elim not_found_past (fun hz => not_found_end (.inl hz.2))

/-- **The scan is right exactly for a regular content**, whatever lies behind it on the stack. -/
theorem scans_iff (buf : Mem) : Scans buf ↔ Regular buf := by
  constructor
  · rintro ⟨n, found, hrun, hreads, hfound⟩
    refine ⟨fun hi => ?_, fun i hi hc => ?_, fun i j hi hf hle k hk hin hl ht => ?_⟩
    · by_contra hl
      exact absurd (hreads 30 (Loop.mem_trace_of_reaches hi.reaches hrun) 31 (reads_last hl)) (by decide)
    · exact Loop.returns_iff_no_cycle.1 ⟨found, n, hrun⟩ i hi.reaches
        (TransGen.mono (fun _ _ => Follows.goes) _ _ hc)
    · have hleft : Loop.Returns (scanBody buf) 0 true := Loop.returns_iff.2
        ⟨k, hk.reaches, leaves_iff.2 (.inr ⟨rfl, Nat.lt_of_succ_lt hin, hl, ht⟩)⟩
      have hzero : Found buf 0 := hfound.1 (Loop.Returns.unique ⟨n, hrun⟩ hleft)
      exact absurd (found_goes hf.goes (found_reaches hi.reaches hzero)).2 (UInt8.not_lt.2 hle)
  · intro h
    obtain ⟨found, n, hrun⟩ := Loop.returns_iff_no_cycle.2 (fun i hi => h.no_cycle (h.onTheWay hi))
    refine ⟨n, found, hrun, fun i hi => reads_inside (h.inside (h.onTheWay (Loop.reaches_of_mem_trace hi))), ?_⟩
    obtain ⟨k, hk, hleave⟩ := Loop.returns_iff.1 ⟨n, hrun⟩
    rcases leaves_iff.1 hleave with ⟨rfl, hend⟩ | ⟨rfl, hin, hl, ht⟩
    · refine ⟨nofun, fun hzero => absurd (found_reaches hk hzero) ?_⟩
      rcases hend with hpast | ⟨-, hl⟩
      · exact not_found_past hpast
      · exact not_found_end (.inl hl)
    · exact ⟨fun _ => h.found (h.onTheWay hk) (h.inside (h.onTheWay hk) hin hl) hl ht, fun _ => rfl⟩

end Regular

/-! ## The whole call -/

section Call

variable {crc16 : List UInt8 → UInt16} {exifAddr : Nat} {flash : Mem}

/-- The scan response has manufacturer data, and both records are read. -/
def Switches (rsp adv : Answer) : Prop :=
  rsp.err = .none ∧ (∃ s ∈ structures (rsp.data.read 0 sizeofAdvRspBuf), s.2 = 0xFF) ∧ adv.err = .none

/-- **The packets change places exactly if the scan response has manufacturer data**, for a regular one: its content
goes into `adv_data`, that of the advertisement into `scan_rsp_data`.  Else `adv_data` and the flag are left alone. -/
theorem handle_switches (stack : Mem) (d : Dev) (hd : d.switchFlag = false)
    (hreg : (scanRsp crc16 exifAddr flash stack d.tempBuf).err = .none →
      Regular (scanRsp crc16 exifAddr flash stack d.tempBuf).data) :
    let rsp := scanRsp crc16 exifAddr flash stack d.tempBuf
    let adv := exCfgGetContentApi crc16 exifAddr flash .advInd d.scanRspData 31 rsp.ram
    ∃ n, (Switches rsp adv → advRspDataSwitchHandle crc16 exifAddr flash stack n d =
        some (31, ⟨true, d.advData.write 0 (rsp.data.read 0 31), adv.data, adv.ram⟩)) ∧
      (¬ Switches rsp adv → ∃ d', advRspDataSwitchHandle crc16 exifAddr flash stack n d = some (0, d') ∧
        d'.switchFlag = false ∧ d'.advData = d.advData) := by
  unfold advRspDataSwitchHandle Switches
  generalize scanRsp crc16 exifAddr flash stack d.tempBuf = rsp at hreg ⊢
  dsimp only
  by_cases hrsp : rsp.err = .none
  · obtain ⟨n, found, hrun, hfound⟩ := (hreg hrsp).leaves
    refine ⟨n, ?_⟩
    rw [if_pos hrsp, hrun, ← hfound, Option.map_some, hd, Bool.false_or]
    cases found with
    | false => exact ⟨fun h => absurd h.2.1 (by decide), fun _ => ⟨_, rfl, rfl, rfl⟩⟩
    | true  =>
      unfold switchPackets
      rw [if_pos rfl]
      dsimp only
      by_cases hadv : (exCfgGetContentApi crc16 exifAddr flash .advInd d.scanRspData 31 rsp.ram).err = .none
      · rw [if_pos hadv]
        exact ⟨fun _ => rfl, fun h => absurd ⟨hrsp, rfl, hadv⟩ h⟩
      · rw [if_neg hadv]
        exact ⟨fun h => absurd h.2.2 hadv, fun _ => ⟨_, rfl, rfl, rfl⟩⟩
  · refine ⟨0, fun h => absurd h.1 hrsp, fun _ => ?_⟩
    rw [if_neg hrsp, hd]
    exact ⟨_, rfl, rfl, rfl⟩

end Call

/-! ## A length that brings the cursor back -/

/-- A record that is read fills the array. -/
theorem scanRsp_stored {crc16 : List UInt8 → UInt16} {exifAddr : Nat} {flash : Mem} {p : List UInt8}
    (hs : Stored crc16 exifAddr flash .scanRspCfg p) (hp : p.length ≤ 31) (h0 : crc16 p ≠ 0) (hf : crc16 p ≠ 0xffff)
    (stack tempBuf : Mem) : (scanRsp crc16 exifAddr flash stack tempBuf).err = .none ∧
      (scanRsp crc16 exifAddr flash stack tempBuf).data =
        (stack.fill 0 sizeofAdvRspBuf 0).write 0 (fit p sizeofAdvRspBuf) := by
  obtain ⟨ram', hread⟩ := getExCfgInfo_stored hs (by decide) hp (Nat.le_refl sizeofAdvRspBuf)
    (stack.fill 0 sizeofAdvRspBuf 0) tempBuf
  rw [if_neg (not_or.2 ⟨h0, hf⟩)] at hread
  have hrsp : scanRsp crc16 exifAddr flash stack tempBuf = _ := hread
  rw [hrsp]
  exact ⟨rfl, rfl⟩

/-- A content whose first structure is manufacturer data. -/
theorem regular_of_first {buf : Mem} (h : buf 1 = 0xFF) : Regular buf := by
  have hstop : ∀ j, ¬ Follows buf 0 j := fun j hf => hf.2.2.1 h
  have hzero : ∀ i, OnTheWay buf i → i = 0 := fun i hi => by
    rcases ReflTransGen.cases_head hi with h0 | ⟨j, hj, -⟩
    · exact h0.symm
    · exact absurd hj (hstop j)
  refine ⟨fun hi => absurd (hzero 30 hi) (by decide), fun i hi hc => ?_, fun i j hi hf => ?_⟩
  · rw [hzero i hi] at hc
    rcases TransGen.head'_iff.1 hc with ⟨j, hj, -⟩
    exact hstop j hj
  · rw [hzero i hi] at hf
    exact absurd hf (hstop j)

/-- Manufacturer data in the scan response, and flags in the advertisement. -/
def twoRecords : Mem :=
  Mem.write (flashWith .scanRspCfg [2, 0xFF, 7]) Member.advDataCfg.offset (le16 (crcCcitt [2, 1, 6]) ++ le16 3 ++ [2, 1, 6])

theorem handle_switches_first :
    let d : Dev := ⟨false, fun _ => 0, fun _ => 0, fun _ => 0⟩
    let rsp := scanRsp crcCcitt 0 twoRecords (fun _ => 0) d.tempBuf
    let adv := exCfgGetContentApi crcCcitt 0 twoRecords .advInd d.scanRspData 31 rsp.ram
    ∃ n, (Switches rsp adv → advRspDataSwitchHandle crcCcitt 0 twoRecords (fun _ => 0) n d =
        some (31, ⟨true, d.advData.write 0 (rsp.data.read 0 31), adv.data, adv.ram⟩)) ∧
      (¬ Switches rsp adv → ∃ d', advRspDataSwitchHandle crcCcitt 0 twoRecords (fun _ => 0) n d = some (0, d') ∧
        d'.switchFlag = false ∧ d'.advData = d.advData) := by
  have hstored : Stored crcCcitt 0 twoRecords .scanRspCfg [2, 0xFF, 7] :=
    ⟨by decide +kernel, by decide +kernel, by decide +kernel⟩
  refine handle_switches (fun _ => 0) ⟨false, fun _ => 0, fun _ => 0, fun _ => 0⟩ rfl fun _ => regular_of_first ?_
  rw [(scanRsp_stored hstored (by decide) (by decide +kernel) (by decide +kernel) _ _).2]
  decide +kernel

/-- A structure of 255 bytes. -/
def longest : List UInt8 := 255 :: List.replicate 30 0

/-- **A length of 255**: the cursor comes back to the structure it is at, and the loop does not leave. -/
theorem not_scans : ¬ ∀ (crc16 : List UInt8 → UInt16) (exifAddr : Nat) (flash stack tempBuf : Mem),
    (scanRsp crc16 exifAddr flash stack tempBuf).err = .none → Scans (scanRsp crc16 exifAddr flash stack tempBuf).data := by
  intro h
  have hcrc : crcCcitt longest ≠ 0 ∧ crcCcitt longest ≠ 0xffff := by decide +kernel
  obtain ⟨herr, hdata⟩ := scanRsp_stored (stored_flashWith .scanRspCfg longest) (by decide) hcrc.1 hcrc.2 (fun _ => 0)
    (fun _ => 0)
  obtain ⟨n, found, hrun, -⟩ := h crcCcitt 0 (flashWith .scanRspCfg longest) (fun _ => 0) (fun _ => 0) herr
  rw [hdata] at hrun
  refine Loop.not_returns_of_cycle (.single (goes_iff.2 ?_)) ⟨n, hrun⟩
  decide

end AdvScan
end OtaLoader
