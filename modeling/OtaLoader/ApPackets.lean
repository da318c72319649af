import OtaLoader.ApRecv
/-!
# ApPackets — the packets that a client sends

`msgrecv` counts what it has of a packet in `net_ota->all_size`, in the header that the packet overwrites.  What it has is
computed here from the segments and the calls alone (`Feed`): the bytes of the packet so far, or the number that the
announcement of a length left in `all_size`.  For a client that keeps to the form of packets (`Framed`), the header in the
buffer is the packet's (`fed_step`): the count is the packet's length so far, and a packet ends, passes its checksum and is
handed out as its own bytes say.
-/
namespace OtaLoader
namespace Ap

/-! ## Packets -/

/-- The bytes of a packet at the start of an empty memory. -/
def packet (bs : List UInt8) : Mem := Mem.write (fun _ => 0) 0 bs

/-- The bytes that the header announces are there. -/
def Ends (bs : List UInt8) : Prop := readSize (packet bs) + sizeofNetOta ≤ bs.length

/-- The checksum of the header is that of the packet. -/
def Sound (bs : List UInt8) : Prop :=
  sumcheck (packet bs) 4 (readSize (packet bs) + 16) (sumCheck (packet bs)) = true

/-- A packet that is handed out to a read. -/
def Answers (bs : List UInt8) : Prop := Ends bs ∧ Sound bs ∧ status (packet bs) ≠ statusStop

instance (bs : List UInt8) : Decidable (Ends bs) := by unfold Ends; infer_instance
instance (bs : List UInt8) : Decidable (Sound bs) := by unfold Sound; infer_instance
instance (bs : List UInt8) : Decidable (Answers bs) := by unfold Answers; infer_instance

/-- What has come of a packet: its bytes, or, behind an announcement, as many as `all_size` says. -/
inductive Feed where
  | bytes (got : List UInt8)
  | behind (n : Nat)

/-- A packet ends with the segment that brings its last byte. -/
def Feed.segment : Feed → Dev → List UInt8 → Feed
  | .bytes got, _, p => if Ends (got ++ p) then .bytes [] else .bytes (got ++ p)
  | .behind n, s, p  => if u32 (readSize s.ota + sizeofNetOta) ≤ n + p.length then .bytes [] else .behind (n + p.length)

/-- A read that waits has asked for a new packet, and an announcement that waits has left its length in `all_size`. -/
def Feed.next (f : Feed) (s : Dev) : Ev → Feed
  | .segment p         => if p.length ≤ recvBufMaxSize then f.segment s p else f
  | .read buf len sent => if (netFRead s buf len sent).1.task = .idle then f else .bytes []
  | .announce len sent => if (netFSendUpdateLen s len sent).1.task = .idle then f else .behind (u32 len)
  | _                  => f

/-- The form of packets.  `all_size` is 0 in a header and comes with its first segment, sizes and addresses do not go
around.  Behind an announced length, no shorter than a header, a packet comes before the next read. -/
def Feed.Form : Feed → Dev → List UInt8 → Prop
  | .bytes got, s, p =>
    p ≠ [] ∧ (got = [] → 13 ≤ p.length) ∧ (∀ i, i < 4 → (got ++ p).getD (12 + i) 0 = 0) ∧
      readSize (packet (got ++ p)) + sizeofNetOta < 4294967296 ∧
      seekAddr (packet (got ++ p)) + recvBufMaxSize ≤ 4294967296 ∧
      (s.netLocal.readSize ≠ 0 → s.netLocal.seekAddr + s.netLocal.readSize + sizeofNetOta ≤ 4294967296)
  | .behind n, s, p  => p ≠ [] ∧ sizeofNetOta ≤ n ∧ s.netLocal.readSize = 0

/-- The buffer has room for the packet. -/
def Feed.Room : Feed → List UInt8 → Prop
  | .bytes got, p => (got ++ p).length ≤ room
  | .behind n, p  => n + p.length ≤ room

instance (f : Feed) (s : Dev) (p : List UInt8) : Decidable (f.Form s p) := by
  cases f <;> (unfold Feed.Form; infer_instance)
instance (f : Feed) (p : List UInt8) : Decidable (f.Room p) := by cases f <;> (unfold Feed.Room; infer_instance)

/-- A segment that is not dropped has the form of packets. -/
def Framed (f : Feed) (s : Dev) : Ev → Prop
  | .segment p => p.length ≤ recvBufMaxSize → f.Form s p
  | _          => True

/-- A segment that is not dropped finds room. -/
def Fits (f : Feed) : Ev → Prop
  | .segment p => p.length ≤ recvBufMaxSize → f.Room p
  | _          => True

instance (f : Feed) (s : Dev) (e : Ev) : Decidable (Framed f s e) := by cases e <;> (unfold Framed; infer_instance)
instance (f : Feed) (e : Ev) : Decidable (Fits f e) := by cases e <;> (unfold Fits; infer_instance)

/-! ## The header in the buffer -/

/-- The transfer has ended, or is being ended. -/
def Task.ended : Task → Bool
  | .stopping _ => true
  | .lastPacket => true
  | .closed     => true
  | _           => false

/-- The buffer starts with the bytes, but for the count in their place. -/
def Agrees (m : Mem) (bs : List UInt8) : Prop := ∀ x, x < bs.length → x < 12 ∨ 16 ≤ x → m x = packet bs x

/-- The bytes of a packet are in the buffer.  The notices of `net_f_stop` write their own checksum and status over it. -/
structure Coming (got : List UInt8) (s : Dev) : Prop where
  count  : allSize s.ota = got.length
  first  : got = [] ∨ 13 ≤ got.length
  zeros  : ∀ i, i < 4 → got.getD (12 + i) 0 = 0
  size   : got ≠ [] → readSize s.ota = readSize (packet got)
  agrees : s.task.ended = false → Agrees s.ota got

def Feed.Stands : Feed → Dev → Prop
  | .bytes got, s => Coming got s
  | .behind n, s  => allSize s.ota = n

/-- What the steps of a run keep. -/
structure Fed (f : Feed) (s : Dev) : Prop where
  ended : s.task.ended = true → s.netLocal.readSize = 0 ∧ s.netLocal.allSize = 0
  feed  : s.clientPcb = true → f.Stands s

section Packets

variable {f : Feed} {s d s' : Dev} {e : Ev} {o : Out} {got p bs cs : List UInt8}

theorem packet_apply {x : Nat} (h : x < bs.length) : packet bs x = bs[x] :=
  Mem.write_inside' (Nat.zero_le x) h

theorem getD_of_lt {x : Nat} (h : x < bs.length) : bs.getD x 0 = bs[x] := by
  rw [List.getD_eq_getElem?_getD, List.getElem?_eq_getElem h, Option.getD_some]

theorem packet_append {x : Nat} (h : x < bs.length) : packet (bs ++ cs) x = packet bs x := by
  rw [packet_apply h, packet_apply (by rw [List.length_append]; omega), List.getElem_append_left h]

/-- The buffer with the segment behind the bytes that were there. -/
theorem Agrees.append {m : Mem} (h : Agrees m got) : Agrees (m.write got.length p) (got ++ p) := by
  intro x hx hout
  rw [List.length_append] at hx
  by_cases hin : x < got.length
  · rw [Mem.write_below _ hin, packet_append hin]
    exact h x hin hout
  · rw [Mem.write_inside' (by omega) (by omega), packet_apply (by rw [List.length_append]; omega),
      List.getElem_append_right (by omega)]

/-- A number of the header outside `all_size`. -/
theorem Agrees.get32 {m : Mem} (h : Agrees m bs) {a : Nat} (ha : a + 4 ≤ bs.length) (hout : a + 4 ≤ 12 ∨ 16 ≤ a) :
    m.get32 a = (packet bs).get32 a :=
  Mem.get32_congr (fun i hi => h (a + i) (by omega) (by omega))

theorem Agrees.congr {m m' : Mem} (h : Agrees m bs) (hm : ∀ x, x < 12 ∨ 16 ≤ x → m' x = m x) : Agrees m' bs :=
  fun x hx hout => (hm x hout).trans (h x hx hout)

/-- With the count cleared, all of the packet is there. -/
theorem Agrees.cleared {m : Mem} (h : Agrees m bs) (hz : ∀ i, i < 4 → bs.getD (12 + i) 0 = 0) {x : Nat}
    (hx : x < bs.length) : setAllSize m 0 x = packet bs x := by
  by_cases hout : x < 12 ∨ 16 ≤ x
  · exact (Mem.set32_outside hout).trans (h x hx hout)
  · have hzero : ∀ j (hj : j < 4), getElem (Mem.le32 0) j (by simpa using hj) = 0 := by decide
    have hbyte : setAllSize m 0 (12 + (x - 12)) = 0 :=
      (Mem.set32_byte m 12 0 (i := x - 12) (by omega)).trans (hzero _ (by omega))
    have hlist := hz (x - 12) (by omega)
    rw [show 12 + (x - 12) = x by omega] at hbyte hlist
    rw [hbyte, packet_apply hx, ← hlist, getD_of_lt hx]

theorem sumFrom_congr {m m' : Mem} {buf : Nat} : ∀ {n : Nat}, (∀ x, buf ≤ x → x < buf + n → m x = m' x) →
    sumFrom m buf n = sumFrom m' buf n
  | 0, _     => rfl
  | n + 1, h => by
    rw [sumFrom, sumFrom, sumFrom_congr (fun x h₁ h₂ => h x h₁ (by omega)), h (buf + n) (by omega) (by omega)]

theorem rounds_of_le {n : Nat} (h : n ≤ room) : rounds n = n := by
  simp only [room, bufMaxSize, sizeofNetLocal] at h
  exact if_pos (by omega)

/-! ## One segment -/

/-- A segment that fits is laid behind the bytes of the packet. -/
theorem Coming.laidOver (h : Coming got s) (hp : (Feed.bytes got).Form s p) (hroom : (Feed.bytes got).Room p) :
    Below s p ∧ laidOver s p = setAllSize (s.ota.write got.length p) (got ++ p).length ∧
      readSize (laidOver s p) = readSize (packet (got ++ p)) := by
  obtain ⟨-, hfirst, hzeros, -, -, -⟩ := hp
  simp only [Feed.Room, List.length_append, room, bufMaxSize, sizeofNetLocal] at hroom
  have hcount := h.count
  have hbelow : Below s p := by
    unfold Below
    rw [hcount]
    simp only [netLocalAt, sizeofNetLocal]
    omega
  have hwhole : Whole got.length p.length := by
    unfold Whole
    rcases h.first with rfl | h13
    · exact .inl ⟨rfl, hfirst rfl⟩
    · exact .inr (.inr h13)
  have hall : allSize (s.ota.write got.length p) = got.length := by
    refine allSize_write hcount hwhole (fun i hi h12 h16 => ?_)
    have hz := hzeros (got.length + i - 12) (by omega)
    rw [show 12 + (got.length + i - 12) = got.length + i by omega,
      getD_of_lt (by rw [List.length_append]; omega), List.getElem_append_right (by omega)] at hz
    simpa using hz
  have hlaid : Ap.laidOver s p = setAllSize (s.ota.write got.length p) (got ++ p).length := by
    rw [laidOver_below hbelow, hcount, hall, ← List.length_append, u32_of_lt (by rw [List.length_append]; omega)]
  refine ⟨hbelow, hlaid, ?_⟩
  rw [hlaid, readSize_setAllSize]
  rcases h.first with rfl | h13
  · have h13 := hfirst rfl
    refine Mem.get32_congr (fun i hi => ?_)
    rw [List.nil_append, List.length_nil, Mem.write_inside' (Nat.zero_le _) (by omega), packet_apply (by omega)]
    rfl
  · have hne : got ≠ [] := fun hn => by
      rw [hn, List.length_nil] at h13
      omega
    refine (Mem.get32_write_outside (.inl (by omega))).trans ((h.size hne).trans ?_)
    exact Mem.get32_congr (fun i hi => (packet_append (by omega)).symm)

/-- **A packet ends where its header says.** -/
theorem Coming.completes_iff (h : Coming got s) (hp : (Feed.bytes got).Form s p) (hroom : (Feed.bytes got).Room p)
    (hlen : p.length ≤ recvBufMaxSize) : Completes s p ↔ Ends (got ++ p) := by
  obtain ⟨-, hlaid, hsize⟩ := h.laidOver hp hroom
  obtain ⟨-, -, -, hwrap, -, -⟩ := hp
  simp only [Feed.Room, room, bufMaxSize, sizeofNetLocal] at hroom
  unfold Completes Ends
  rw [hsize, u32_of_lt hwrap, hlaid, allSize_setAllSize, u32_of_lt (by omega)]
  exact ⟨fun hc => hc.2, fun hc => ⟨hlen, hc⟩⟩

/-- **A packet that ends is handed out as its bytes say**, from the place its header gives. -/
theorem Coming.answers_iff (h : Coming got s) (hlive : s.task.ended = false) (hp : (Feed.bytes got).Form s p)
    (hroom : (Feed.bytes got).Room p) (hends : Ends (got ++ p)) :
    (SumOk s p ↔ Sound (got ++ p)) ∧ status (Ap.laidOver s p) = status (packet (got ++ p)) ∧
      seekAddr (Ap.laidOver s p) = seekAddr (packet (got ++ p)) := by
  obtain ⟨-, hlaid, hsize⟩ := h.laidOver hp hroom
  obtain ⟨-, -, hzeros, -, -, -⟩ := hp
  have hag : Agrees (Ap.laidOver s p) (got ++ p) := by
    rw [hlaid]
    exact (h.agrees hlive).append.congr (fun x hout => Mem.set32_outside hout)
  unfold Ends at hends
  simp only [sizeofNetOta] at hends
  have hr : readSize (packet (got ++ p)) + 16 ≤ room := by
    unfold Feed.Room at hroom
    omega
  refine ⟨?_, ?_, hag.get32 (by omega) (.inl (by decide))⟩
  · have hword : u32 (readSize (packet (got ++ p)) + 16) = readSize (packet (got ++ p)) + 16 := by
      simp only [room, bufMaxSize, sizeofNetLocal] at hr
      exact u32_of_lt (by omega)
    have hsum : sumCheck (Ap.laidOver s p) = sumCheck (packet (got ++ p)) := hag.get32 (by omega) (.inl (by decide))
    have hbytes : ∀ x, 4 ≤ x → x < 4 + (readSize (packet (got ++ p)) + 16) →
        setAllSize (Ap.laidOver s p) 0 x = packet (got ++ p) x := fun x _ hx => hag.cleared hzeros (by omega)
    unfold SumOk Sound sumcheck
    rw [hsize, hword, hsum, rounds_of_le hr, sumFrom_congr hbytes]
  · exact congrArg UInt8.toNat (hag 16 (by omega) (.inr (by decide)))

/-- Behind an announced length the header stays as it is. -/
theorem laidOver_behind {n : Nat} (h : allSize s.ota = n) (hn : sizeofNetOta ≤ n) (hroom : (Feed.behind n).Room p) :
    Below s p ∧ allSize (laidOver s p) = n + p.length ∧ readSize (laidOver s p) = readSize s.ota := by
  simp only [Feed.Room, room, bufMaxSize, sizeofNetLocal] at hroom
  simp only [sizeofNetOta] at hn
  have hbelow : Below s p := by
    unfold Below
    rw [h]
    simp only [netLocalAt, sizeofNetLocal]
    omega
  have hall : allSize (s.ota.write n p) = n := (Mem.get32_write_outside (.inl (by omega))).trans h
  rw [laidOver_below hbelow, h, hall, allSize_setAllSize, readSize_setAllSize, u32_of_lt (u32_lt _),
    u32_of_lt (by omega)]
  exact ⟨hbelow, rfl, Mem.get32_write_outside (.inl (by omega))⟩

theorem completes_behind {n : Nat} (h : allSize s.ota = n) (hn : sizeofNetOta ≤ n) (hroom : (Feed.behind n).Room p)
    (hlen : p.length ≤ recvBufMaxSize) : Completes s p ↔ u32 (readSize s.ota + sizeofNetOta) ≤ n + p.length := by
  obtain ⟨-, hall, hsize⟩ := laidOver_behind h hn hroom
  unfold Completes
  rw [hall, hsize]
  exact ⟨fun hc => hc.2, fun hc => ⟨hlen, hc⟩⟩

theorem coming_nil (h : allSize s.ota = 0) : Coming [] s where
  count  := h
  first  := .inl rfl
  zeros  := fun _ _ => rfl
  size   := fun h => absurd rfl h
  agrees := fun _ _ hx => nomatch hx

/-- **A segment adds its bytes to the packet**, or ends it. -/
theorem stands_segment (h : f.Stands s) (hp : f.Form s p) (hroom : f.Room p) (hlen : p.length ≤ recvBufMaxSize) :
    Below s p ∧ (f.segment s p).Stands (msgrecv s p).1 := by
  have hzero : Completes s p → allSize (msgrecv s p).1.ota = 0 := fun hc => by
    rcases msgrecv_ota s p with ⟨hlong, -⟩ | ⟨hn, -⟩ | ⟨-, ho⟩
    · omega
    · exact absurd hc hn
    · rw [ho, allSize_setAllSize]
      rfl
  cases f with
  | bytes got =>
    obtain ⟨hbelow, hlaid, hsize⟩ := Coming.laidOver h hp hroom
    have hiff := Coming.completes_iff h hp hroom hlen
    refine ⟨hbelow, ?_⟩
    unfold Feed.segment
    dsimp only
    by_cases hends : Ends (got ++ p)
    · rw [if_pos hends]
      exact coming_nil (hzero (hiff.2 hends))
    · obtain ⟨hne, hfirst, hzeros, -, -, -⟩ := hp
      rw [if_neg hends, msgrecv_growing hlen (fun hc => hends (hiff.1 hc)), laid_with hbelow]
      refine ⟨?_, .inr ?_, hzeros, fun _ => hsize, fun hlive => ?_⟩
      · unfold Feed.Room room bufMaxSize sizeofNetLocal at hroom
        dsimp only
        rw [hlaid, allSize_setAllSize, u32_of_lt (by omega)]
      · rw [List.length_append]
        rcases h.first with rfl | h13
        · have := hfirst rfl
          omega
        · omega
      · dsimp only
        rw [hlaid]
        exact (h.agrees hlive).append.congr (fun x hout => Mem.set32_outside hout)
  | behind n  =>
    obtain ⟨-, hn, -⟩ := hp
    obtain ⟨hbelow, hall, -⟩ := laidOver_behind h hn hroom
    have hiff := completes_behind h hn hroom hlen
    refine ⟨hbelow, ?_⟩
    unfold Feed.segment
    dsimp only
    split
    · rename_i hc
      exact coming_nil (hzero (hiff.2 hc))
    · rename_i hc
      rw [msgrecv_growing hlen (fun h' => hc (hiff.1 h')), laid_with hbelow]
      exact hall

/-! ## The calls -/

theorem Feed.Stands.of_ota (h : f.Stands s) (hd : d.ota = s.ota) (ht : s.task.ended = true → d.task.ended = true) :
    f.Stands d := by
  cases f with
  | bytes got =>
    refine ⟨hd ▸ h.count, h.first, h.zeros, fun hne => hd ▸ h.size hne, fun hlive => ?_⟩
    rw [hd]
    refine h.agrees (Bool.eq_false_iff.2 (fun he => ?_))
    rw [ht he] at hlive
    cases hlive
  | behind n  =>
    show allSize d.ota = n
    rw [hd]
    exact h

/-- A notice keeps the count and the size of the packet. -/
theorem Feed.Stands.notice (h : f.Stands s) (ha : allSize d.ota = allSize s.ota) (hr : readSize d.ota = readSize s.ota)
    (ht : d.task.ended = true) : f.Stands d := by
  cases f with
  | bytes got =>
    refine ⟨ha.trans h.count, h.first, h.zeros, fun hne => hr.trans (h.size hne), fun hlive => ?_⟩
    rw [ht] at hlive
    cases hlive
  | behind n  => exact ha.trans h

theorem msgsenddata_keeps (s : Dev) (noWait sent : Bool) : (msgsenddata s noWait sent).1.netLocal = s.netLocal ∧
    (msgsenddata s noWait sent).1.task = s.task ∧ (msgsenddata s noWait sent).1.clientPcb = s.clientPcb := by
  unfold msgsenddata
  dsimp only
  split
  · split
    · split
      · split
        · exact ⟨rfl, rfl, rfl⟩
        · exact ⟨rfl, rfl, rfl⟩
      · exact ⟨rfl, rfl, rfl⟩
    · exact ⟨rfl, rfl, rfl⟩
  · exact ⟨rfl, rfl, rfl⟩

/-- What the notices of `net_f_stop` leave of the header. -/
theorem notice_keeps (hst : s.netLocal.status ≠ statusRead) (h0 : s.netLocal.allSize = 0) (noWait sent : Bool) :
    allSize (msgsenddata s noWait sent).1.ota = allSize s.ota ∧
      readSize (msgsenddata s noWait sent).1.ota = readSize s.ota := by
  cases hc : s.clientPcb with
  | false =>
    rw [msgsenddata_closed hc]
    exact ⟨rfl, rfl⟩
  | true  =>
    rw [msgsenddata_notice hc hst, if_pos h0]
    refine ⟨(sendHeader_allSize ..).trans (allSize_setReadSize ..), ?_⟩
    rw [sendHeader_readSize, readSize_setReadSize]
    split
    · rename_i hb
      exact hb.symm
    · exact u32_of_lt (s.ota.get32_lt 8)

theorem Fed.of_same (h : Fed f s) (hd : d.ota = s.ota) (hn : d.netLocal = s.netLocal) (hc : d.clientPcb = s.clientPcb)
    (ht : d.task = s.task) : Fed f d where
  ended := fun he => by
    rw [hn]
    exact h.ended (ht ▸ he)
  feed  := fun hcl => (h.feed (hc ▸ hcl)).of_ota hd (fun he => ht.symm ▸ he)

/-- A step after which the transfer goes on. -/
theorem fed_goes_on (h : Fed f s) (hd : d.ota = s.ota) (hc : d.clientPcb = s.clientPcb) (hs : s.task.ended = false)
    (ht : d.task.ended = false) : Fed f d where
  ended := fun he => by
    rw [ht] at he
    cases he
  feed  := fun hcl => (h.feed (hc ▸ hcl)).of_ota hd (fun he => by
    rw [hs] at he
    cases he)

/-- A notice ends the transfer. -/
theorem fed_notice {t : Task} (h : s.clientPcb = true → f.Stands s) (hr : s.netLocal.readSize = 0)
    (h0 : s.netLocal.allSize = 0) (hst : s.netLocal.status ≠ statusRead) (noWait sent : Bool) (ht : t.ended = true) :
    Fed f { (msgsenddata s noWait sent).1 with task := t } := by
  obtain ⟨hn, -, hc⟩ := msgsenddata_keeps s noWait sent
  obtain ⟨ha, hs⟩ := notice_keeps hst h0 noWait sent
  refine ⟨fun _ => ?_, fun hcl => (h (hc ▸ hcl)).notice ha hs ht⟩
  dsimp only
  rw [hn]
  exact ⟨hr, h0⟩

theorem fed_sendLastPacket (h : s.clientPcb = true → f.Stands s) (hr : s.netLocal.readSize = 0)
    (h0 : s.netLocal.allSize = 0) (failed sent : Bool) : Fed f (sendLastPacket s failed sent).1 := by
  have hst : (if failed then statusErr else statusOk) ≠ statusRead := by cases failed <;> decide
  exact fed_notice (s := { s with netLocal := { s.netLocal with status := if failed then statusErr else statusOk } })
    (fun hc => (h hc).of_ota rfl id) hr h0 hst true sent rfl

theorem fed_stop (h : Fed f s) (failed sent : Bool) : Fed f (netFStop s failed sent).1 := by
  have hsame : ∀ l : NetLocal, s.clientPcb = true → f.Stands { s with netLocal := l } :=
    fun l hc => (h.feed hc).of_ota rfl id
  unfold netFStop
  dsimp only
  split
  · split
    · exact fed_sendLastPacket (s := { s with netLocal := ⟨0, 0, 0, 0, 0, 0⟩ }) (hsame _) rfl rfl true sent
    · have hfed := fun n => fed_notice (f := f) (t := .stopping n) (s := { s with
        netLocal := ⟨0, 0, 0, 0, if s.otaAllSize = 0 then 0 else 100, 0⟩ }) (hsame _) rfl rfl nofun false sent rfl
      split
      · rename_i heq
        rw [heq] at hfed
        exact hfed _
      · rename_i heq
        rw [heq] at hfed
        exact hfed _
  · exact ⟨fun _ => ⟨rfl, rfl⟩, nofun⟩

/-- The end of a wait. -/
theorem fed_wake {got sent : Bool} (h : Fed f s) (hw : wake s got sent = some (s', o)) : Fed f s' := by
  unfold wake at hw
  split at hw
  · rename_i buf len err ht
    obtain ⟨k, hk⟩ := readDone_fst s (if got then err else 0)
    obtain rfl : (readDone s (if got then err else 0)).1 = s' := congrArg Prod.fst (Option.some.inj hw)
    rw [hk]
    exact fed_goes_on h rfl rfl (ht ▸ rfl) rfl
  · rename_i err ht
    cases hw
    exact fed_goes_on h rfl rfl (ht ▸ rfl) rfl
  · rename_i err ht
    obtain ⟨hr, h0⟩ := h.ended (ht ▸ rfl)
    obtain rfl : (sendLastPacket s false sent).1 = s' := congrArg Prod.fst (Option.some.inj hw)
    exact fed_sendLastPacket h.feed hr h0 false sent
  · cases hw

/-- **A read** that waits has asked for a new packet. -/
theorem fed_read (h : Fed f s) (hs : s.task = .idle) (buf len : Nat) (sent : Bool) :
    Fed (f.next s (.read buf len sent)) (netFRead s buf len sent).1 := by
  unfold Feed.next
  dsimp only
  by_cases hlen : netMaxSize < len
  · rw [netFRead_long hlen, if_pos hs]
    exact h
  have hlen := Nat.le_of_not_lt hlen
  cases hstop : s.netOtaStop with
  | true  =>
    rw [netFRead_stopped hlen hstop]
    dsimp only
    rw [if_pos (show (asking s buf len).task = .idle from hs)]
    exact fed_goes_on h rfl rfl (hs ▸ rfl) (hs ▸ rfl)
  | false =>
    cases hc : s.clientPcb with
    | false =>
      rw [netFRead_open hlen hstop, msgsenddata_closed (s := asking s buf len) hc]
      dsimp only
      obtain ⟨k, hk⟩ := readDone_fst (asking s buf len) 0
      rw [hk, if_pos rfl]
      exact fed_goes_on h rfl rfl (hs ▸ rfl) rfl
    | true  =>
      by_cases hh : hit (primed s.ota (asking s buf len).netLocal) (asking s buf len).netLocal = true
      · obtain ⟨d, hr, hd⟩ := @netFRead_hit s buf len sent hlen hstop hc hh
        obtain ⟨k, hk⟩ := readDone_fst d len
        rw [hr, hk, if_pos rfl]
        refine fed_goes_on h ?_ ?_ (hs ▸ rfl) rfl
        · rw [hd]
          exact primed_of_hit hh
        · rw [hd]
          rfl
      · rw [netFRead_miss hlen hstop hc hh, if_neg nofun]
        refine ⟨nofun, fun _ => coming_nil ?_⟩
        exact (sendHeader_allSize _ _ 0 false sent).trans (allSize_newWindow ..)

/-- `net_local` as an announcement sets it. -/
def announcing (s : Dev) (len : Nat) : Dev :=
  { s with
    netLocal := { s.netLocal with seekAddr := 0, readSize := 0, allSize := len, status := statusNone }
    otaAllSize := len, otaReadSize := 0 }

theorem netFSendUpdateLen_refused {len : Nat} {sent : Bool}
    (h : s.netLocal.status = statusStop ∨ s.netOtaStop = true ∨ len = 0) :
    netFSendUpdateLen s len sent = (s, { ret := some (-1) }) := if_pos h

theorem netFSendUpdateLen_open {len : Nat} {sent : Bool}
    (h : ¬ (s.netLocal.status = statusStop ∨ s.netOtaStop = true ∨ len = 0)) : netFSendUpdateLen s len sent =
      match msgsenddata (announcing s len) false sent with
      | (s, .ret _, request)    => (s, { ret := some 0, request := request })
      | (s, .wait err, request) => ({ s with task := .announcing err }, { request := request }) := if_neg h

/-- An announcement that is sent, or finds no room to be sent, waits. -/
theorem netFSendUpdateLen_waits {len : Nat} (sent : Bool) (hc : s.clientPcb = true)
    (h : ¬ (s.netLocal.status = statusStop ∨ s.netOtaStop = true ∨ len = 0)) :
    ∃ err, (netFSendUpdateLen s len sent).1 =
      { (sendHeader (announcing s len) (setAllSize (setReadSize s.ota 0) len) (readSize s.ota) false sent).1 with
        task := .announcing err } := by
  rw [netFSendUpdateLen_open h, msgsenddata_notice (s := announcing s len) hc nofun,
    if_neg (fun h0 : (announcing s len).netLocal.allSize = 0 => h (.inr (.inr h0)))]
  exact ⟨_, rfl⟩

/-- **An announcement** that waits has left its length in `all_size`. -/
theorem fed_announce (h : Fed f s) (hs : s.task = .idle) (len : Nat) (sent : Bool) :
    Fed (f.next s (.announce len sent)) (netFSendUpdateLen s len sent).1 := by
  unfold Feed.next
  dsimp only
  by_cases hno : s.netLocal.status = statusStop ∨ s.netOtaStop = true ∨ len = 0
  · rw [netFSendUpdateLen_refused hno, if_pos hs]
    exact h
  · cases hc : s.clientPcb with
    | false =>
      rw [netFSendUpdateLen_open hno, msgsenddata_closed (s := announcing s len) hc]
      dsimp only
      rw [if_pos (show (announcing s len).task = .idle from hs)]
      exact fed_goes_on h rfl rfl (hs ▸ rfl) (show (announcing s len).task.ended = false from hs ▸ rfl)
    | true  =>
      obtain ⟨err, hw⟩ := netFSendUpdateLen_waits sent hc hno
      rw [hw, if_neg nofun]
      exact ⟨nofun, fun _ => (sendHeader_allSize _ _ (readSize s.ota) false sent).trans (allSize_setAllSize ..)⟩

/-- **One step of a run** in which the segments have the form of packets and find room. -/
theorem fed_step (h : Fed f s) (hs : machine.step s e = some (s', o)) (hform : Framed f s e) (hfits : Fits f e) :
    Fed (f.next s e) s' := by
  have ht := step_took hs
  cases e with
  | seek type offset =>
    obtain ⟨l, hl⟩ := netFSeek_fst s type offset
    obtain ⟨hidle, hr⟩ := ht
    obtain rfl : s' = (netFSeek s type offset).1 := congrArg Prod.fst hr
    rw [hl]
    exact fed_goes_on h rfl rfl (hidle ▸ rfl) (hidle ▸ rfl)
  | read buf len sent =>
    obtain ⟨hidle, hr⟩ := ht
    obtain rfl : s' = (netFRead s buf len sent).1 := congrArg Prod.fst hr
    exact fed_read h hidle buf len sent
  | announce len sent =>
    obtain ⟨hidle, hr⟩ := ht
    obtain rfl : s' = (netFSendUpdateLen s len sent).1 := congrArg Prod.fst hr
    exact fed_announce h hidle len sent
  | stop failed sent =>
    obtain ⟨-, hr⟩ := ht
    obtain rfl : s' = (netFStop s failed sent).1 := congrArg Prod.fst hr
    exact fed_stop h failed sent
  | resume sent => exact fed_wake (s := { s with readSem := s.readSem - 1 }) (h.of_same rfl rfl rfl rfl) ht.2
  | timeout sent => exact fed_wake h ht.2
  | finish =>
    obtain ⟨hlast, hr⟩ := ht
    obtain rfl : s' = (stopDone s).1 := congrArg Prod.fst hr
    exact ⟨fun _ => h.ended (hlast ▸ rfl), nofun⟩
  | segment p =>
    obtain ⟨hc, hr⟩ := ht
    obtain rfl : s' = (msgrecv s p).1 := congrArg Prod.fst hr
    unfold Feed.next
    dsimp only
    split
    · rename_i hlen
      obtain ⟨hbelow, hstands⟩ := stands_segment (h.feed hc) (hform hlen) (hfits hlen) hlen
      have hsame := msgrecv_sameCall hbelow
      refine ⟨fun he => ?_, fun _ => hstands⟩
      obtain ⟨hr, h0⟩ := h.ended (hsame.task ▸ he)
      exact ⟨hsame.readSize.trans hr, hsame.allSize.trans h0⟩
    · rename_i hlen
      rw [msgrecv_long (Nat.lt_of_not_le hlen)]
      exact h
  | close =>
    obtain ⟨-, hr⟩ := ht
    cases hr
    exact ⟨h.ended, nofun⟩

theorem fed_opened (ram caller : Mem) : Fed (.bytes []) (opened ram caller) where
  ended := nofun
  feed  := fun _ => by
    have hz : ∀ i, i < 4 → (opened ram caller).ota (12 + i) = 0 := fun i hi =>
      Mem.fill_inside (Nat.zero_le _) (by simp only [room, bufMaxSize, sizeofNetLocal]; omega)
    have h0 : allSize (opened ram caller).ota = allSize (fun _ => 0) := Mem.get32_congr hz
    exact coming_nil (h0.trans rfl)

end Packets

end Ap
end OtaLoader
