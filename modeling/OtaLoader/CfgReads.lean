import OtaLoader.CustomCfg
/-!
# CfgReads — what a configuration read touches (`custom_cfg.c`)

The same read as in `CustomCfg`, with a log of the bytes of `temp_buf` that it reads and of the bytes of the caller's
buffer that it writes.  The length that the CRC is taken over comes from flash and is checked against nothing, so the
reads stay in the record exactly when the stored length does (`content_safe_iff`).
-/
namespace OtaLoader
namespace CustomCfg

structure Span where
  start : Nat
  len   : Nat

/-- All bytes of the span are among the first `n`. -/
def Span.Within (n : Nat) (s : Span) : Prop := s.start + s.len ≤ n

/-- The two buffers and what was done with them: `filled` bytes of `temp_buf` are from the record's slot. -/
structure Buffers where
  data   : Mem
  ram    : Mem
  filled : Nat
  reads  : List Span
  writes : List Span

def Buffers.start (data ram : Mem) : Buffers := { data := data, ram := ram, filled := 0, reads := [], writes := [] }

/-! ## The operations and what they log -/

def tempMemset (n : Nat) (c : UInt8) : StateM Buffers Unit := modify fun b => { b with ram := b.ram.fill 0 n c }

def norflashReadDec (flash : Mem) (addr len : Nat) : StateM Buffers Unit := modify fun b =>
  { b with ram := b.ram.write 0 (flash.read addr len), filled := len }

def tempRead (a n : Nat) : StateM Buffers (List UInt8) := modifyGet fun b =>
  (b.ram.read a n, { b with reads := b.reads ++ [⟨a, n⟩] })

def tempRead16 (a : Nat) : StateM Buffers UInt16 := modifyGet fun b =>
  (get16 b.ram a, { b with reads := b.reads ++ [⟨a, 2⟩] })

def dataMemset (c : UInt8) (n : Nat) : StateM Buffers Unit := modify fun b =>
  { b with data := b.data.fill 0 n c, writes := b.writes ++ [⟨0, n⟩] }

def dataMemcpy (bs : List UInt8) : StateM Buffers Unit := modify fun b =>
  { b with data := b.data.write 0 bs, writes := b.writes ++ [⟨0, bs.length⟩] }

section Code

variable (crc16 : List UInt8 → UInt16) (exifAddr : Nat) (flash : Mem)

/-- `get_ex_cfg_info`, operation by operation. -/
def getExCfgInfoLogged (offsetAddr tempDataLen dataLen : Nat) : StateM Buffers ExCfgErr :=
  if dataLen + 4 > sizeofTempBuf then return .lenOverTempBufLenErr
  else if sizeofTempBuf < tempDataLen then return .tmpBufErr
  else do
    tempMemset sizeofTempBuf 0
    norflashReadDec flash (u32 (exifAddr + offsetAddr)) tempDataLen
    let crc ← tempRead16 0
    let len ← tempRead16 2
    -- the CRC is not taken when the record is empty
    if 0xffff = crc ∨ 0 = crc then return .crcErr
    else
      let cfgData ← tempRead 4 len.toNat
      if crc ≠ crc16 cfgData then return .crcErr
      else
        dataMemset 0 dataLen
        let copied ← tempRead 4 (if dataLen > len.toNat then len.toNat else dataLen)
        dataMemcpy copied
        return .none

def exCfgGetContentLogged (cfgIndex : CfgItem) (len : Nat) : StateM Buffers ExCfgErr :=
  match cfgIndex.member with
  | some m => getExCfgInfoLogged crc16 exifAddr flash m.offset m.sizeof len
  | none   => return .indexErr

/-! ## Safe reads -/

/-- Every read is of bytes from the record's slot, at most `len` bytes of the caller's buffer are written, and none
when there is an error. -/
structure Safe (len : Nat) (data : Mem) (r : ExCfgErr × Buffers) : Prop where
  reads  : ∀ s ∈ r.2.reads, s.Within r.2.filled
  writes : ∀ s ∈ r.2.writes, s.Within len
  kept   : r.1 ≠ .none → r.2.writes = [] ∧ r.2.data = data

/-- The CRC that the record holds. -/
def Member.crc (m : Member) : UInt16 := get16 flash (u32 (exifAddr + m.offset))

/-- The length that the record holds. -/
def Member.len (m : Member) : Nat := (get16 flash (u32 (exifAddr + m.offset) + 2)).toNat

/-- A record that is read and not empty has a length that its slot can hold. -/
def Bounded (cfgIndex : CfgItem) (len : Nat) : Prop :=
  ∀ m, cfgIndex.member = some m → len + 4 ≤ sizeofTempBuf → m.sizeof ≤ sizeofTempBuf →
    m.crc exifAddr flash ≠ 0 → m.crc exifAddr flash ≠ 0xffff → 4 + m.len exifAddr flash ≤ m.sizeof

end Code

/-! ## What a read logs -/

section Ops

variable (b : Buffers)

theorem run_tempMemset (n : Nat) (c : UInt8) :
    (tempMemset n c).run b = pure ((), { b with ram := b.ram.fill 0 n c }) := rfl

theorem run_norflashReadDec (flash : Mem) (addr len : Nat) : (norflashReadDec flash addr len).run b =
    pure ((), { b with ram := b.ram.write 0 (flash.read addr len), filled := len }) := rfl

theorem run_tempRead (a n : Nat) :
    (tempRead a n).run b = pure (b.ram.read a n, { b with reads := b.reads ++ [⟨a, n⟩] }) := rfl

theorem run_tempRead16 (a : Nat) :
    (tempRead16 a).run b = pure (get16 b.ram a, { b with reads := b.reads ++ [⟨a, 2⟩] }) := rfl

end Ops

section Cases

variable {crc16 : List UInt8 → UInt16} {exifAddr : Nat} {flash : Mem} {offsetAddr size len : Nat} {data ram : Mem}

theorem get16_congr {m m' : Mem} {a a' : Nat} (h : m.read a 2 = m'.read a' 2) : get16 m a = get16 m' a' := by
  have h0 : m a = m' a' := (List.cons.inj h).1
  have h1 : m (a + 1) = m' (a' + 1) := (List.cons.inj (List.cons.inj h).2).1
  rw [get16, get16, h0, h1]

/-- `temp_buf` with the slot in it. -/
def staged (ram flash : Mem) (addr size : Nat) : Mem := (ram.fill 0 sizeofTempBuf 0).write 0 (flash.read addr size)

/-- The state when the two fields of the record are read. -/
def fieldsRead (flash : Mem) (addr size : Nat) (data ram : Mem) : Buffers where
  data   := data
  ram    := staged ram flash addr size
  filled := size
  reads  := [⟨0, 2⟩, ⟨2, 2⟩]
  writes := []

theorem logged_refused (h : len + 4 > sizeofTempBuf ∨ sizeofTempBuf < size) :
    ∃ err, err ≠ .none ∧
      (getExCfgInfoLogged crc16 exifAddr flash offsetAddr size len).run (.start data ram) = (err, .start data ram) := by
  unfold getExCfgInfoLogged
  by_cases h₁ : len + 4 > sizeofTempBuf
  · exact ⟨.lenOverTempBufLenErr, by decide, by rw [if_pos h₁]; rfl⟩
  · exact ⟨.tmpBufErr, by decide, by rw [if_neg h₁, if_pos (h.resolve_left h₁)]; rfl⟩

/-- **A read that is not refused**: an empty record, one whose CRC is wrong, and one that is copied. -/
theorem logged_read (h₁ : ¬ len + 4 > sizeofTempBuf) (h₂ : ¬ sizeofTempBuf < size) (hsize : 4 ≤ size) :
    let addr := u32 (exifAddr + offsetAddr)
    let b := fieldsRead flash addr size data ram
    let crc := get16 flash addr
    let n := (get16 flash (addr + 2)).toNat
    let copied := b.ram.read 4 (if len > n then n else len)
    (getExCfgInfoLogged crc16 exifAddr flash offsetAddr size len).run (.start data ram) =
      if 0xffff = crc ∨ 0 = crc then (.crcErr, b)
      else if crc ≠ crc16 (b.ram.read 4 n) then (.crcErr, { b with reads := b.reads ++ [⟨4, n⟩] })
      else (.none, { b with
        data   := (data.fill 0 len 0).write 0 copied
        reads  := b.reads ++ [⟨4, n⟩] ++ [⟨4, if len > n then n else len⟩]
        writes := [⟨0, len⟩, ⟨0, copied.length⟩] }) := by
  intro addr b crc n copied
  have hstaged : (ram.fill 0 sizeofTempBuf 0).write 0 (flash.read (u32 (exifAddr + offsetAddr)) size) =
    staged ram flash addr size := rfl
  have hcrc : get16 (staged ram flash addr size) 0 = crc := get16_congr (read_staged (by omega))
  have hlen : get16 (staged ram flash addr size) 2 = get16 flash (addr + 2) := get16_congr (read_staged (by omega))
  rw [getExCfgInfoLogged, if_neg h₁, if_neg h₂]
  simp only [StateT.run_bind, run_tempMemset, run_norflashReadDec, run_tempRead16, pure_bind, Buffers.start, hstaged,
    hcrc, hlen]
  by_cases hempty : 0xffff = crc ∨ 0 = crc
  · rw [if_pos hempty, if_pos hempty]
    rfl
  · rw [if_neg hempty, if_neg hempty, StateT.run_bind, run_tempRead, pure_bind]
    by_cases hbad : crc ≠ crc16 (b.ram.read 4 n)
    · rw [if_pos hbad]
      exact congrFun (if_pos hbad) _
    · rw [if_neg hbad]
      exact congrFun (if_neg hbad) _

/-- **The log is of the code**: what is left in the buffers is what the code leaves there. -/
theorem logged_answer (hsize : 4 ≤ size) :
    let r := (getExCfgInfoLogged crc16 exifAddr flash offsetAddr size len).run (.start data ram)
    ⟨r.1, r.2.data, r.2.ram⟩ = getExCfgInfo crc16 exifAddr flash offsetAddr size data len ram := by
  unfold getExCfgInfo
  by_cases h₁ : len + 4 > sizeofTempBuf
  · rw [if_pos h₁, getExCfgInfoLogged, if_pos h₁]
    rfl
  by_cases h₂ : sizeofTempBuf < size
  · rw [if_neg h₁, if_pos h₂, getExCfgInfoLogged, if_neg h₁, if_pos h₂]
    rfl
  have hcrc : get16 (staged ram flash (u32 (exifAddr + offsetAddr)) size) 0 = get16 flash (u32 (exifAddr + offsetAddr)) :=
    get16_congr (read_staged (by omega))
  have hlen : get16 (staged ram flash (u32 (exifAddr + offsetAddr)) size) 2 =
      get16 flash (u32 (exifAddr + offsetAddr) + 2) := get16_congr (read_staged (by omega))
  rw [if_neg h₁, if_neg h₂, logged_read h₁ h₂ hsize]
  dsimp only
  rw [← staged, hcrc, hlen]
  generalize u32 (exifAddr + offsetAddr) = addr
  by_cases hempty : 0xffff = get16 flash addr ∨ 0 = get16 flash addr
  · rw [if_pos hempty, if_pos (or_assoc.1 (.inl hempty))]
    rfl
  · rw [if_neg hempty]
    by_cases hbad : get16 flash addr ≠ crc16 ((staged ram flash addr size).read 4 (get16 flash (addr + 2)).toNat)
    · rw [if_pos (or_assoc.1 (.inr hbad)), fieldsRead, if_pos hbad]
    · rw [if_neg (fun h => (or_assoc.2 h).elim hempty hbad), fieldsRead, if_neg hbad]

theorem safe_start {err : ExCfgErr} : Safe len data (err, .start data ram) where
  reads  := fun _ h => by cases h
  writes := fun _ h => by cases h
  kept   := fun _ => ⟨rfl, rfl⟩

/-- **What is safe**: a record that is not empty has to keep its length in its slot. -/
theorem safe_read (h₁ : ¬ len + 4 > sizeofTempBuf) (h₂ : ¬ sizeofTempBuf < size) (hsize : 4 ≤ size) :
    Safe len data ((getExCfgInfoLogged crc16 exifAddr flash offsetAddr size len).run (.start data ram)) ↔
      (get16 flash (u32 (exifAddr + offsetAddr)) ≠ 0 → get16 flash (u32 (exifAddr + offsetAddr)) ≠ 0xffff →
        4 + (get16 flash (u32 (exifAddr + offsetAddr) + 2)).toNat ≤ size) := by
  rw [logged_read h₁ h₂ hsize]
  generalize u32 (exifAddr + offsetAddr) = addr
  generalize (get16 flash (addr + 2)).toNat = n
  have hfields : ∀ s ∈ (fieldsRead flash addr size data ram).reads, s.Within size := by
    intro s hs
    simp only [fieldsRead, List.mem_cons, List.not_mem_nil, or_false] at hs
    rcases hs with rfl | rfl <;> unfold Span.Within <;> dsimp only <;> omega
  by_cases hempty : 0xffff = get16 flash addr ∨ 0 = get16 flash addr
  · rw [if_pos hempty]
    refine ⟨fun _ h0 hf => (hempty.elim (fun h => hf h.symm) (fun h => h0 h.symm)).elim, fun _ => ?_⟩
    exact ⟨hfields, fun _ h => (by cases h), fun _ => ⟨rfl, rfl⟩⟩
  · rw [if_neg hempty]
    obtain ⟨hf, h0⟩ := not_or.1 hempty
    by_cases hbad : get16 flash addr ≠ crc16 ((fieldsRead flash addr size data ram).ram.read 4 n)
    · rw [if_pos hbad]
      refine ⟨fun h _ _ => h.reads ⟨4, n⟩ (by simp), fun h => ?_⟩
      have hn : 4 + n ≤ size := h (Ne.symm h0) (Ne.symm hf)
      refine ⟨fun s hs => ?_, fun _ h => (by cases h), fun _ => ⟨rfl, rfl⟩⟩
      rcases List.mem_append.1 hs with hs | hs
      · exact hfields s hs
      · cases List.mem_singleton.1 hs
        exact hn
    · rw [if_neg hbad]
      refine ⟨fun h _ _ => h.reads ⟨4, n⟩ (by simp), fun h => ?_⟩
      have hn : 4 + n ≤ size := h (Ne.symm h0) (Ne.symm hf)
      refine ⟨fun s hs => ?_, fun s hs => ?_, fun h => absurd rfl h⟩
      · simp only [List.mem_append, List.mem_singleton] at hs
        rcases hs with (hs | rfl) | rfl
        · exact hfields s hs
        · exact hn
        · unfold Span.Within
          dsimp only [fieldsRead]
          split <;> omega
      · simp only [List.mem_cons, List.not_mem_nil, or_false, Mem.length_read] at hs
        rcases hs with rfl | rfl
        · simp [Span.Within]
        · unfold Span.Within
          dsimp only
          split <;> omega

end Cases

theorem Member.four_le_sizeof (m : Member) : 4 ≤ m.sizeof :=
  Nat.le_trans (Nat.le_add_right 4 m.capacity) m.le_sizeof.1

theorem logged_api (crc16 : List UInt8 → UInt16) (exifAddr : Nat) (flash : Mem) (cfgIndex : CfgItem) (len : Nat)
    (data ram : Mem) :
    let r := (exCfgGetContentLogged crc16 exifAddr flash cfgIndex len).run (.start data ram)
    ⟨r.1, r.2.data, r.2.ram⟩ = exCfgGetContentApi crc16 exifAddr flash cfgIndex data len ram := by
  unfold exCfgGetContentLogged exCfgGetContentApi
  cases cfgIndex.member with
  | none   => rfl
  | some m => exact logged_answer m.four_le_sizeof

/-- Whatever the flash holds, the bytes behind the caller's buffer are left alone. -/
theorem content_frame (crc16 : List UInt8 → UInt16) (exifAddr : Nat) (flash : Mem) (cfgIndex : CfgItem) (len : Nat)
    (data ram : Mem) {x : Nat} (hx : len ≤ x) :
    (exCfgGetContentApi crc16 exifAddr flash cfgIndex data len ram).data x = data x := by
  unfold exCfgGetContentApi
  cases cfgIndex.member with
  | none   => rfl
  | some m =>
    dsimp only
    unfold getExCfgInfo
    split
    · rfl
    · split
      · rfl
      · dsimp only
        split
        · rfl
        · dsimp only
          rw [Mem.write_above _ (by rw [Mem.length_read]; split <;> omega), Mem.fill_outside (by omega)]

/-- **A configuration read is safe exactly when the stored length is.** -/
theorem content_safe_iff (crc16 : List UInt8 → UInt16) (exifAddr : Nat) (flash : Mem) (cfgIndex : CfgItem) (len : Nat)
    (data ram : Mem) :
    Safe len data ((exCfgGetContentLogged crc16 exifAddr flash cfgIndex len).run (.start data ram)) ↔
      Bounded exifAddr flash cfgIndex len := by
  unfold exCfgGetContentLogged Bounded
  cases hm : cfgIndex.member with
  | none   => exact ⟨fun _ m h => (by cases h), fun _ => safe_start⟩
  | some m =>
    by_cases hrefused : len + 4 > sizeofTempBuf ∨ sizeofTempBuf < m.sizeof
    · obtain ⟨err, -, hrun⟩ := @logged_refused crc16 exifAddr flash m.offset m.sizeof len data ram hrefused
      refine ⟨fun _ m' h hl hs => ?_, fun _ => hrun ▸ safe_start⟩
      cases h
      exact absurd hrefused (not_or.2 ⟨Nat.not_lt.2 hl, Nat.not_lt.2 hs⟩)
    · obtain ⟨h₁, h₂⟩ := not_or.1 hrefused
      refine (safe_read h₁ h₂ m.four_le_sizeof).trans ⟨fun h m' hm' _ _ => ?_, fun h => ?_⟩
      · cases hm'
        exact h
      · exact h m rfl (Nat.not_lt.1 h₁) (Nat.not_lt.1 h₂)

/-- A pin code record that says that it is 600 bytes long. -/
def crafted : Mem := Mem.write (fun _ => 0) Member.pinCodeCfg.offset (le16 1 ++ le16 600)

/-- **A stored length of 600**: the CRC of the 8-byte record is taken over 600 bytes, past the end of `temp_buf`. -/
theorem not_content_safe : ¬ ∀ (crc16 : List UInt8 → UInt16) (exifAddr : Nat) (flash : Mem) (cfgIndex : CfgItem)
    (len : Nat) (data ram : Mem),
      Safe len data ((exCfgGetContentLogged crc16 exifAddr flash cfgIndex len).run (.start data ram)) := by
  intro h
  have hcrc : get16 crafted (u32 (0 + Member.pinCodeCfg.offset)) = 1 ∧
      (get16 crafted (u32 (0 + Member.pinCodeCfg.offset) + 2)).toNat = 600 := by decide
  have hsafe := (@safe_read crcCcitt 0 crafted Member.pinCodeCfg.offset Member.pinCodeCfg.sizeof 4 (fun _ => 0)
    (fun _ => 0) (by decide) (by decide) (by decide)).1 (h crcCcitt 0 crafted .pinCode 4 (fun _ => 0) (fun _ => 0))
  rw [hcrc.1, hcrc.2] at hsafe
  have hle := hsafe (by decide) (by decide)
  revert hle
  decide

end CustomCfg
end OtaLoader
