import Mathlib.Algebra.GroupWithZero.Nat
import OtaLoader.Mem
/-!
# CustomCfg — configuration records in flash (`custom_cfg.c`)

`ex_cfg_t` is a row of records, each a CRC, a length and data of a fixed capacity.  `ex_cfg_get_content_api` reads the
record of an item into the one staging buffer `temp_buf`, checks it, and hands out its data.
-/
namespace OtaLoader
namespace CustomCfg

/-! ## The layout of `ex_cfg_t` -/

/-- The members of `ex_cfg_t`. -/
inductive Member where
  | advDataCfg
  | scanRspCfg
  | bleNameCfg
  | btNameCfg
  | pinCodeCfg
  | localVerCfg
  | lowPowerVolCfg
  | edrAddrCfg
  | bleAddrCfg
  | gattProfileCfg
  | localResetIoCfg
  | localPolitLampIoCfg
  | localLinkKeyCfg
  | powerIoOnOffCfg
  | lastDeviceConnectLinkkeyCfg
  | bleResetIoInfoCfg
  | verInfoAuthkeyCfg
  | verInfoProcodeCfg
  | pidVidCfg
  | md5Cfg
  | sdkTypeCfg
  | hidParamCfg
deriving DecidableEq

open Member in
/-- The members in the order of the structure. -/
def exCfgT : List Member :=
  [advDataCfg, scanRspCfg, bleNameCfg, btNameCfg, pinCodeCfg, localVerCfg, lowPowerVolCfg, edrAddrCfg, bleAddrCfg,
    gattProfileCfg, localResetIoCfg, localPolitLampIoCfg, localLinkKeyCfg, powerIoOnOffCfg,
    lastDeviceConnectLinkkeyCfg, bleResetIoInfoCfg, verInfoAuthkeyCfg, verInfoProcodeCfg, pidVidCfg, md5Cfg, sdkTypeCfg,
    hidParamCfg]

/-- The size of `data`. -/
def Member.capacity : Member → Nat
  | advDataCfg                  => 31
  | scanRspCfg                  => 31
  | bleNameCfg                  => 29
  | btNameCfg                   => 31
  | pinCodeCfg                  => 4
  | localVerCfg                 => 16
  | lowPowerVolCfg              => 2
  | edrAddrCfg                  => 6
  | bleAddrCfg                  => 6
  | gattProfileCfg              => 768
  | localResetIoCfg             => 1
  | localPolitLampIoCfg         => 4
  | localLinkKeyCfg             => 16
  | powerIoOnOffCfg             => 6
  | lastDeviceConnectLinkkeyCfg => 16
  | bleResetIoInfoCfg           => 4
  | verInfoAuthkeyCfg           => 24
  | verInfoProcodeCfg           => 24
  | pidVidCfg                   => 4
  | md5Cfg                      => 32
  | sdkTypeCfg                  => 1
  | hidParamCfg                 => 64

/-- The size of a record: `crc`, `len` and `data`, rounded up to the alignment of `u16`. -/
def Member.sizeof (m : Member) : Nat := (4 + m.capacity + 1) / 2 * 2

/-- `MEMBER_OFFSET_OF_STRUCT(ex_cfg_t, m)`. -/
def Member.offset (m : Member) : Nat := ((exCfgT.takeWhile (· ≠ m)).map Member.sizeof).sum

/-! ## The code -/

/-- `CFG_ITEM_*`. -/
inductive CfgItem where
  | advInd
  | scanRsp
  | bleName
  | btAddr
  | btName
  | pinCode
  | verInfo
  | lowpowerVoltage
  | edrAddr
  | bleAddr
  | gattProfile
  | resetIoInfo
  | pilotLampIoInfo
  | linkKeyInfo
  | powerIoOff
  | lastDeviceConnectLinkkeyInfo
  | bleReadWriteUuidInfo
  | verInfoAuthkey
  | verInfoProcode
  | pvid
  | md5
  | sdkType
  | hidParam
deriving DecidableEq

inductive ExCfgErr where
  | none
  | indexErr
  | lenOverTempBufLenErr
  | crcErr
  | tmpBufErr
deriving DecidableEq

def sizeofTempBuf : Nat := 0x200

def get16 (m : Mem) (a : Nat) : UInt16 := UInt16.ofNat ((m a).toNat + 256 * (m (a + 1)).toNat)

def le16 (v : UInt16) : List UInt8 := [UInt8.ofNat v.toNat, UInt8.ofNat (v.toNat / 256)]

/-- The error, the caller's buffer and the memory that begins with `temp_buf`. -/
structure Answer where
  err  : ExCfgErr
  data : Mem
  ram  : Mem

section Code

variable (crc16 : List UInt8 → UInt16) (exifAddr : Nat) (flash : Mem)

def getExCfgInfo (offsetAddr tempDataLen : Nat) (data : Mem) (dataLen : Nat) (ram : Mem) : Answer :=
  if dataLen + 4 > sizeofTempBuf then ⟨.lenOverTempBufLenErr, data, ram⟩
  else if sizeofTempBuf < tempDataLen then ⟨.tmpBufErr, data, ram⟩
  else
    let ram := ram.fill 0 sizeofTempBuf 0
    let ram := ram.write 0 (flash.read (u32 (exifAddr + offsetAddr)) tempDataLen)
    let crc := get16 ram 0
    let len := (get16 ram 2).toNat
    if 0xffff = crc ∨ 0 = crc ∨ crc ≠ crc16 (ram.read 4 len) then ⟨.crcErr, data, ram⟩
    else
      let data := data.fill 0 dataLen 0
      ⟨.none, data.write 0 (ram.read 4 (if dataLen > len then len else dataLen)), ram⟩

/-- The record that the switch of `ex_cfg_get_content_api` reads for an item. -/
def CfgItem.member : CfgItem → Option Member
  | advInd               => some .advDataCfg
  | scanRsp              => some .scanRspCfg
  | bleName              => some .bleNameCfg
  | pinCode              => some .pinCodeCfg
  | verInfo              => some .localVerCfg
  | lowpowerVoltage      => some .lowPowerVolCfg
  | edrAddr              => some .edrAddrCfg
  | bleAddr              => some .bleAddrCfg
  | resetIoInfo          => some .localResetIoCfg
  | pilotLampIoInfo      => some .localPolitLampIoCfg
  | linkKeyInfo          => some .localLinkKeyCfg
  | gattProfile          => some .gattProfileCfg
  | powerIoOff           => some .powerIoOnOffCfg
  | verInfoAuthkey       => some .verInfoAuthkeyCfg
  | verInfoProcode       => some .verInfoProcodeCfg
  | bleReadWriteUuidInfo => some .bleResetIoInfoCfg
  | pvid                 => some .pidVidCfg
  | md5                  => some .md5Cfg
  | sdkType              => some .sdkTypeCfg
  | hidParam             => some .hidParamCfg
  | btAddr               => none
  | btName               => none
  | lastDeviceConnectLinkkeyInfo => none

def exCfgGetContentApi (cfgIndex : CfgItem) (data : Mem) (len : Nat) (ram : Mem) : Answer :=
  match cfgIndex.member with
  | some m => getExCfgInfo crc16 exifAddr flash m.offset m.sizeof data len ram
  | none   => ⟨.indexErr, data, ram⟩

/-! ## Stored records -/

/-- The record of `m` holds the payload `p`, whatever lies behind it and in the other records. -/
structure Stored (m : Member) (p : List UInt8) : Prop where
  crc  : flash.read (u32 (exifAddr + m.offset)) 2 = le16 (crc16 p)
  len  : flash.read (u32 (exifAddr + m.offset) + 2) 2 = le16 (UInt16.ofNat p.length)
  data : flash.read (u32 (exifAddr + m.offset) + 4) p.length = p

/-- A payload cut off or filled up with zeros. -/
def fit (p : List UInt8) (len : Nat) : List UInt8 := p.take len ++ List.replicate (len - p.length) 0

/-- What is asked of one read of a stored payload. -/
def RoundTrips (cfgIndex : CfgItem) (p : List UInt8) (len : Nat) (data ram : Mem) : Prop :=
  ∀ m, cfgIndex.member = some m → p.length ≤ m.capacity → len ≤ m.capacity → Stored crc16 exifAddr flash m p →
    (exCfgGetContentApi crc16 exifAddr flash cfgIndex data len ram).err = .none ∧
      (exCfgGetContentApi crc16 exifAddr flash cfgIndex data len ram).data.read 0 len = fit p len

end Code

/-! ## What a read of a stored payload answers -/

theorem Member.capacity_le {m : Member} (h : m ≠ .gattProfileCfg) : m.capacity ≤ 64 := by
  cases m <;> first | decide | exact absurd rfl h

theorem CfgItem.member_gatt {i : CfgItem} {m : Member} (hm : i.member = some m) (h : i ≠ .gattProfile) :
    m ≠ .gattProfileCfg := by
  rintro rfl
  cases i <;> first | exact h rfl | cases hm

theorem Member.le_sizeof (m : Member) : 4 + m.capacity ≤ m.sizeof ∧ m.sizeof ≤ m.capacity + 5 := by
  unfold Member.sizeof
  omega

theorem get16_of_read {m : Mem} {a : Nat} {v : UInt16} (h : m.read a 2 = le16 v) : get16 m a = v := by
  have h0 : m a = UInt8.ofNat v.toNat := (List.cons.inj h).1
  have h1 : m (a + 1) = UInt8.ofNat (v.toNat / 256) := (List.cons.inj (List.cons.inj h).2).1
  have hlt := v.toNat_lt
  have hbytes : v.toNat % 256 + 256 * (v.toNat / 256 % 256) = v.toNat := by omega
  unfold get16
  rw [h0, h1, UInt8.toNat_ofNat', UInt8.toNat_ofNat', hbytes, UInt16.ofNat_toNat]

/-- The staging buffer has the bytes of the record. -/
theorem read_staged {ram flash : Mem} {addr size a n : Nat} (h : a + n ≤ size) :
    (ram.write 0 (flash.read addr size)).read a n = flash.read (addr + a) n := by
  apply List.ext_getElem
  · rw [Mem.length_read, Mem.length_read]
  · intro i hi _
    rw [Mem.length_read] at hi
    rw [Mem.getElem_read, Mem.getElem_read,
      Mem.write_inside' (Nat.zero_le _) (by rw [Mem.length_read]; omega), Mem.getElem_read]
    congr 1
    omega

theorem take_read (m : Mem) (a n k : Nat) : (m.read a n).take k = m.read a (if k > n then n else k) := by
  rw [Mem.read, ← List.map_take, List.take_range, Mem.read]
  congr 2
  split <;> omega

theorem length_fit (p : List UInt8) (len : Nat) : (fit p len).length = len := by
  rw [fit, List.length_append, List.length_take, List.length_replicate]
  omega

/-- Zeros, then the payload over them. -/
theorem fill_write_take (data : Mem) (p : List UInt8) (len : Nat) :
    (data.fill 0 len 0).write 0 (p.take len) = data.write 0 (fit p len) := by
  funext x
  by_cases hx : x < len
  · rw [@Mem.write_inside' _ _ _ (fit p len) (Nat.zero_le x) (by rw [length_fit]; omega)]
    by_cases hp : x < p.length
    · have htake : x < (p.take len).length := by rw [List.length_take]; omega
      rw [Mem.write_inside' (Nat.zero_le x) htake]
      exact (List.getElem_append_left htake).symm
    · have htake : (p.take len).length ≤ x := by rw [List.length_take]; omega
      rw [Mem.write_above _ (by omega), Mem.fill_inside (Nat.zero_le x) (by omega)]
      simp [fit, List.getElem_append_right htake]
  · rw [Mem.write_above _ (by rw [List.length_take]; omega), Mem.fill_outside (by omega),
      Mem.write_above _ (by rw [length_fit]; omega)]

section Stored

variable {crc16 : List UInt8 → UInt16} {exifAddr : Nat} {flash : Mem} {m : Member} {p : List UInt8}

/-- One read of a stored record that the staging buffer can hold. -/
theorem getExCfgInfo_stored (hs : Stored crc16 exifAddr flash m p) (hm : m ≠ .gattProfileCfg)
    (hp : p.length ≤ m.capacity) {len : Nat} (hlen : len ≤ m.capacity) (data ram : Mem) :
    ∃ ram', getExCfgInfo crc16 exifAddr flash m.offset m.sizeof data len ram =
      if crc16 p = 0 ∨ crc16 p = 0xffff then ⟨.crcErr, data, ram'⟩ else ⟨.none, data.write 0 (fit p len), ram'⟩ := by
  have hcap := m.capacity_le hm
  have hsize := m.le_sizeof
  unfold getExCfgInfo
  rw [if_neg (by rw [sizeofTempBuf]; omega), if_neg (by rw [sizeofTempBuf]; omega)]
  dsimp only
  generalize ram.fill 0 sizeofTempBuf 0 = ram₀
  have hcrc : get16 (ram₀.write 0 (flash.read (u32 (exifAddr + m.offset)) m.sizeof)) 0 = crc16 p :=
    get16_of_read ((read_staged (by omega)).trans hs.crc)
  have hlen16 : (get16 (ram₀.write 0 (flash.read (u32 (exifAddr + m.offset)) m.sizeof)) 2).toNat = p.length := by
    rw [get16_of_read ((read_staged (by omega)).trans hs.len)]
    exact UInt16.toNat_ofNat_of_lt (Nat.lt_of_le_of_lt (Nat.le_trans hp hcap) (by decide))
  have hdata : (ram₀.write 0 (flash.read (u32 (exifAddr + m.offset)) m.sizeof)).read 4 p.length = p :=
    (read_staged (by omega)).trans hs.data
  rw [hcrc, hlen16, hdata, ← take_read, hdata, fill_write_take]
  refine ⟨ram₀.write 0 (flash.read (u32 (exifAddr + m.offset)) m.sizeof), ?_⟩
  by_cases hc : crc16 p = 0 ∨ crc16 p = 0xffff
  · rw [if_pos hc, if_pos (hc.elim (fun h => .inr (.inl h.symm)) (fun h => .inl h.symm))]
  · rw [if_neg hc, if_neg]
    rintro (h | h | h)
    · exact hc (.inr h.symm)
    · exact hc (.inl h.symm)
    · exact h rfl

/-- **A stored payload is read back**, cut off or filled up to the length asked for, when its CRC is not one of the two
values that mark an empty record; else the buffer is left alone.  The record of the GATT profile is not spoken of. -/
theorem content_stored (crc16 : List UInt8 → UInt16) (exifAddr : Nat) (flash data ram : Mem) (cfgIndex : CfgItem)
    (m : Member) (hm : cfgIndex.member = some m) (hgatt : cfgIndex ≠ .gattProfile) (p : List UInt8)
    (hp : p.length ≤ m.capacity) (hs : Stored crc16 exifAddr flash m p) (len : Nat) (hlen : len ≤ m.capacity) :
    (crc16 p ≠ 0 → crc16 p ≠ 0xffff →
      (exCfgGetContentApi crc16 exifAddr flash cfgIndex data len ram).err = .none ∧
        (exCfgGetContentApi crc16 exifAddr flash cfgIndex data len ram).data.read 0 len = fit p len ∧
        ∀ x, len ≤ x → (exCfgGetContentApi crc16 exifAddr flash cfgIndex data len ram).data x = data x) ∧
    (crc16 p = 0 ∨ crc16 p = 0xffff →
      (exCfgGetContentApi crc16 exifAddr flash cfgIndex data len ram).err = .crcErr ∧
        (exCfgGetContentApi crc16 exifAddr flash cfgIndex data len ram).data = data) := by
  obtain ⟨ram', hread⟩ := getExCfgInfo_stored hs (CfgItem.member_gatt hm hgatt) hp hlen data ram
  have hapi : exCfgGetContentApi crc16 exifAddr flash cfgIndex data len ram =
      getExCfgInfo crc16 exifAddr flash m.offset m.sizeof data len ram := by
    rw [exCfgGetContentApi, hm]
  rw [hapi, hread]
  constructor
  · intro h0 hf
    rw [if_neg (not_or.2 ⟨h0, hf⟩)]
    have hout : ∀ x, len ≤ x → data.write 0 (fit p len) x = data x := fun x hx =>
      Mem.write_above _ (by rw [length_fit]; omega)
    refine ⟨rfl, ?_, hout⟩
    have hself := Mem.read_write_self data 0 (fit p len)
    rwa [length_fit] at hself
  · intro h
    rw [if_pos h]
    exact ⟨rfl, rfl⟩

end Stored

/-- The CRC of polynomial 0x1021 that starts at 0. -/
def crcCcitt (bs : List UInt8) : UInt16 :=
  let shift (crc : UInt16) (_ : Nat) := if crc &&& 0x8000 = 0 then crc <<< 1 else crc <<< 1 ^^^ 0x1021
  bs.foldl (fun crc b => (List.range 8).foldl shift (crc ^^^ b.toUInt16 <<< (8 : UInt16))) 0

/-- A record at the start of an empty flash. -/
def flashWith (m : Member) (p : List UInt8) : Mem :=
  Mem.write (fun _ => 0xff) m.offset (le16 (crcCcitt p) ++ le16 (UInt16.ofNat p.length) ++ p)

theorem stored_flashWith (m : Member) (p : List UInt8) : Stored crcCcitt 0 (flashWith m p) m p := by
  have hoff : u32 (0 + m.offset) = m.offset := by
    rw [Nat.zero_add]
    exact u32_of_lt (by cases m <;> decide)
  have hread := Mem.read_write_self (fun _ => 0xff) m.offset (le16 (crcCcitt p) ++ le16 (UInt16.ofNat p.length) ++ p)
  rw [← flashWith, List.append_assoc, Mem.read_append_iff, Mem.read_append_iff] at hread
  obtain ⟨hcrc, hlen, hdata⟩ := hread
  exact ⟨by rw [hoff]; exact hcrc, by rw [hoff]; exact hlen, by rw [hoff]; exact hdata⟩

theorem content_stored_pin :
    (exCfgGetContentApi crcCcitt 0 (flashWith .pinCodeCfg [49, 50]) .pinCode (fun _ => 7) 3 (fun _ => 7)).data.read 0 3 =
      [49, 50, 0] := by
  have hcrc : crcCcitt [49, 50] ≠ 0 ∧ crcCcitt [49, 50] ≠ 0xffff := by decide +kernel
  have h := content_stored crcCcitt 0 (flashWith .pinCodeCfg [49, 50]) (fun _ => 7) (fun _ => 7) .pinCode .pinCodeCfg
    rfl (by decide) [49, 50] (by decide) (stored_flashWith _ _) 3 (by decide)
  exact (h.1 hcrc.1 hcrc.2).2.1

/-- **A payload whose CRC is 0** is refused, and no payload is read from the record of the GATT profile, which the
staging buffer cannot hold. -/
theorem not_roundTrips :
    (¬ ∀ data ram, RoundTrips crcCcitt 0 (flashWith .pinCodeCfg [0]) .pinCode [0] 1 data ram) ∧
      ¬ ∀ data ram, RoundTrips crcCcitt 0 (flashWith .gattProfileCfg [1]) .gattProfile [1] 1 data ram := by
  constructor
  · intro h
    have herr := (h (fun _ => 0) (fun _ => 0) _ rfl (by decide) (by decide) (stored_flashWith _ _)).1
    have hlen : 1 ≤ Member.pinCodeCfg.capacity := by decide
    obtain ⟨ram', hread⟩ := getExCfgInfo_stored (stored_flashWith .pinCodeCfg [0]) (by decide) (by decide) hlen
      (fun _ => 0) (fun _ => 0)
    rw [if_pos (by decide)] at hread
    rw [exCfgGetContentApi, CfgItem.member] at herr
    dsimp only at herr
    rw [hread] at herr
    cases herr
  · intro h
    have herr := (h (fun _ => 0) (fun _ => 0) _ rfl (by decide) (by decide) (stored_flashWith _ _)).1
    cases herr

end CustomCfg
end OtaLoader
