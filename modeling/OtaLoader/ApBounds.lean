import OtaLoader.ApPackets
/-!
# ApBounds — which packets keep the receive path inside the OTA buffer

`msgrecv` takes the write offset from `net_ota->all_size`, the checksum's length from `read_size` and the copy's offset
from `seek_addr`, all three fields of the header it is receiving, and checks none of them.  `msgrecv_inside_iff` is the
check that is missing on a segment, one condition per field.  Over a run the three fields are those of the packet that
comes in (`ApPackets`): for a client that keeps to the form of packets, the receive path stays inside the buffer exactly
when each packet finds room and each answer reaches the bytes asked for (`inside_iff_reaches`).
-/
namespace OtaLoader
namespace Ap

/-- The touched bytes lie in `[NET_TCP_OTA, ota_ram_addr + BUF_MAX_SIZE)`. -/
def Access.Inside : Access → Prop
  | .recv off len   => len = 0 ∨ off + len ≤ room
  | .sum off len    => len = 0 ∨ off + len ≤ room
  | .copy src len _ => len = 0 ∨ src + len ≤ room

/-- **The missing check on a segment**: the receive count leaves room for it; if it completes a reply, the announced
size fits the buffer or is so large that `sumcheck` reads nothing past the header; if that reply is handed out, the
requested bytes lie in the buffer. -/
def SegmentOk (s : Dev) (p : List UInt8) : Prop :=
  p.length ≤ recvBufMaxSize →
    (p = [] ∨ allSize s.ota + p.length ≤ room) ∧
    (Completes s p →
      (readSize (laidOver s p) ≤ recvBufMaxSize ∨ 2147483648 ≤ readSize (laidOver s p) + 16) ∧
      (SumOk s p → status (laidOver s p) ≠ statusStop → (laid s p).netLocal.readSize ≠ 0 →
        windowOffset (laidOver s p) (laid s p).netLocal + (laid s p).netLocal.readSize ≤ room))

instance (s : Dev) (p : List UInt8) : Decidable (SegmentOk s p) := by unfold SegmentOk; infer_instance

theorem recv_inside (s : Dev) (p : List UInt8) :
    (Access.recv (allSize s.ota) p.length).Inside ↔ p = [] ∨ allSize s.ota + p.length ≤ room := by
  unfold Access.Inside
  simp only [List.length_eq_zero_iff]

/-- The checksum reads inside the buffer exactly when the announced size fits it, or makes the loop's bound negative or
wrap below the header's end. -/
theorem sum_inside (m : Mem) : (Access.sum 4 (rounds (u32 (readSize m + 16)))).Inside ↔
    readSize m ≤ recvBufMaxSize ∨ 2147483648 ≤ readSize m + 16 := by
  have hlt : readSize m < 4294967296 := m.get32_lt 8
  simp only [Access.Inside, rounds, u32, room, recvBufMaxSize, bufMaxSize, sizeofNetLocal, sizeofNetOta]
  by_cases h : (readSize m + 16) % 4294967296 < 2147483648
  · simp only [h, if_true]; omega
  · simp only [h, if_false]; omega

theorem windowOffset_setAllSize (m : Mem) (v : Nat) (l : NetLocal) :
    windowOffset (setAllSize m v) l = windowOffset m l := by
  unfold windowOffset
  rw [seekAddr_setAllSize]

theorem msgrecvmemcpy_inside (s : Dev) : (∀ a ∈ (msgrecvmemcpy s).2, a.Inside) ↔
    (status s.ota ≠ statusStop → s.netLocal.readSize ≠ 0 →
      windowOffset s.ota s.netLocal + s.netLocal.readSize ≤ room) := by
  by_cases hst : status s.ota = statusStop
  · simp only [msgrecvmemcpy_stop hst, hst, List.not_mem_nil, false_implies, implies_true, ne_eq, not_true_eq_false]
  · by_cases h0 : s.netLocal.readSize = 0
    · simp only [msgrecvmemcpy_skip hst h0, h0, List.not_mem_nil, false_implies, implies_true, ne_eq,
        not_true_eq_false]
    · rw [msgrecvmemcpy_copy hst h0]
      simp only [List.mem_singleton, forall_eq, Access.Inside, ne_eq, hst, h0, not_false_eq_true, true_implies,
        false_or]

/-- **A segment keeps `msgrecv` inside the buffer exactly when it passes the missing check.** -/
theorem msgrecv_inside_iff (s : Dev) (p : List UInt8) :
    (∀ a ∈ (msgrecv s p).2, a.Inside) ↔ SegmentOk s p := by
  unfold SegmentOk
  by_cases hlen : p.length ≤ recvBufMaxSize
  · by_cases hc : Completes s p
    · by_cases hs : SumOk s p
      · rw [msgrecv_accept hc hs]
        simp only [List.forall_mem_cons, recv_inside, sum_inside, msgrecvmemcpy_inside, status_setAllSize,
          windowOffset_setAllSize, hlen, hc, hs, true_implies]
      · rw [msgrecv_bad hc hs]
        simp only [List.forall_mem_cons, recv_inside, sum_inside, hlen, hc, hs, true_implies, false_implies, and_true,
          List.not_mem_nil, implies_true]
    · rw [msgrecv_growing hlen hc]
      simp only [List.forall_mem_cons, recv_inside, hlen, hc, true_implies, false_implies, and_true, List.not_mem_nil,
        implies_true]
  · rw [msgrecv_long (Nat.lt_of_not_le hlen)]
    simp [hlen]

theorem netFRead_accesses (s : Dev) (buf len : Nat) (sent : Bool) : (netFRead s buf len sent).2.accesses = [] := by
  unfold netFRead
  split
  · rfl
  · dsimp only
    split
    · rfl
    · split <;> rfl

theorem netFSendUpdateLen_accesses (s : Dev) (len : Nat) (sent : Bool) :
    (netFSendUpdateLen s len sent).2.accesses = [] := by
  unfold netFSendUpdateLen
  split
  · rfl
  · dsimp only
    split <;> rfl

theorem netFStop_accesses (s : Dev) (failed sent : Bool) : (netFStop s failed sent).2.accesses = [] := by
  unfold netFStop
  dsimp only
  split
  · split
    · rfl
    · split <;> rfl
  · rfl

theorem wake_accesses {s s' : Dev} {got sent : Bool} {o : Out} (h : wake s got sent = some (s', o)) :
    o.accesses = [] := by
  unfold wake at h
  split at h
  · rw [← (Prod.mk.inj (Option.some.inj h)).2]
  · rw [← (Prod.mk.inj (Option.some.inj h)).2]
  · rw [← (Prod.mk.inj (Option.some.inj h)).2]
  · cases h

/-- Only a segment makes a callback touch memory. -/
theorem step_accesses {s s' : Dev} {e : Ev} {o : Out} (h : step s e = some (s', o)) :
    (∃ p, e = .segment p ∧ s.clientPcb = true ∧ s' = (msgrecv s p).1 ∧ o.accesses = (msgrecv s p).2) ∨
      ((∀ p, e ≠ .segment p) ∧ o.accesses = []) := by
  cases e with
  | segment p =>
    simp only [step, Option.ite_none_right_eq_some, Option.some.injEq, Prod.mk.injEq] at h
    obtain ⟨hc, h1, h2⟩ := h
    exact Or.inl ⟨p, rfl, hc, h1.symm, by rw [← h2]⟩
  | seek type offset =>
    simp only [step, Option.ite_none_right_eq_some, Option.some.injEq, Prod.mk.injEq] at h
    exact Or.inr ⟨fun p hp => (by cases hp), by rw [← h.2.2]⟩
  | read buf len sent =>
    simp only [step, Option.ite_none_right_eq_some, Option.some.injEq] at h
    exact Or.inr ⟨fun p hp => (by cases hp), by rw [← netFRead_accesses s buf len sent, h.2]⟩
  | announce len sent =>
    simp only [step, Option.ite_none_right_eq_some, Option.some.injEq] at h
    exact Or.inr ⟨fun p hp => (by cases hp), by rw [← netFSendUpdateLen_accesses s len sent, h.2]⟩
  | stop failed sent =>
    simp only [step, Option.ite_none_right_eq_some, Option.some.injEq] at h
    exact Or.inr ⟨fun p hp => (by cases hp), by rw [← netFStop_accesses s failed sent, h.2]⟩
  | resume sent =>
    simp only [step, Option.ite_none_right_eq_some] at h
    exact Or.inr ⟨fun p hp => (by cases hp), wake_accesses h.2⟩
  | timeout sent =>
    simp only [step, Option.ite_none_right_eq_some] at h
    exact Or.inr ⟨fun p hp => (by cases hp), wake_accesses h.2⟩
  | finish =>
    simp only [step, stopDone, Option.ite_none_right_eq_some, Option.some.injEq, Prod.mk.injEq] at h
    exact Or.inr ⟨fun p hp => (by cases hp), by rw [← h.2.2]⟩
  | close =>
    simp only [step, Option.ite_none_right_eq_some, Option.some.injEq, Prod.mk.injEq] at h
    exact Or.inr ⟨fun p hp => (by cases hp), by rw [← h.2.2]⟩

/-! ## Over runs -/

/-- Every byte a callback touched in the step lies in the buffer. -/
def Inside (_ : Dev) (_ : Ev) (_ : Dev) (o : Out) : Prop := ∀ a ∈ o.accesses, a.Inside

/-- The bytes asked for lie in the buffer, counted from the address of the packet: behind its header, or as far before
as the header is long. -/
def Reaches (bs : List UInt8) (l : NetLocal) : Prop :=
  seekAddr (packet bs) ≤ l.seekAddr + sizeofNetOta ∧ l.seekAddr + l.readSize ≤ seekAddr (packet bs) + recvBufMaxSize

/-- An answer to a read reaches the bytes asked for. -/
def Feed.Reaches : Feed → Dev → List UInt8 → Prop
  | .bytes got, s, p => Answers (got ++ p) → s.netLocal.readSize ≠ 0 → Ap.Reaches (got ++ p) s.netLocal
  | .behind _, _, _  => True

instance decidableReaches (bs : List UInt8) (l : NetLocal) : Decidable (Reaches bs l) := by unfold Reaches; infer_instance
instance decidableFeedReaches (s : Dev) (p : List UInt8) : (f : Feed) → Decidable (f.Reaches s p)
  | .bytes got => inferInstanceAs (Decidable (Answers (got ++ p) → s.netLocal.readSize ≠ 0 → Reaches (got ++ p) s.netLocal))
  | .behind _  => .isTrue trivial

/-- A segment that is not dropped finds room, and reaches the bytes asked for when it ends an answer. -/
def Contained (f : Feed) (s : Dev) : Ev → Prop
  | .segment p => p.length ≤ recvBufMaxSize → f.Room p ∧ f.Reaches s p
  | _          => True

instance decidableContained (f : Feed) (s : Dev) : (e : Ev) → Decidable (Contained f s e)
  | .segment p => inferInstanceAs (Decidable (p.length ≤ recvBufMaxSize → f.Room p ∧ f.Reaches s p))
  | .seek .. | .read .. | .announce .. | .stop .. | .resume .. | .timeout .. | .finish | .close => .isTrue trivial

theorem Contained.fits {f : Feed} {s : Dev} {e : Ev} (h : Contained f s e) : Fits f e := by
  cases e with
  | segment p => exact fun hlen => (h hlen).1
  | _         => trivial

/-- The offset of the copy, without wrap-around. -/
theorem window_reaches {m : Mem} {l : NetLocal} (hm : seekAddr m + recvBufMaxSize ≤ 4294967296)
    (hl : l.seekAddr + l.readSize + sizeofNetOta ≤ 4294967296) (h0 : l.readSize ≠ 0) :
    windowOffset m l + l.readSize ≤ room ↔
      seekAddr m ≤ l.seekAddr + sizeofNetOta ∧ l.seekAddr + l.readSize ≤ seekAddr m + recvBufMaxSize := by
  simp only [windowOffset, u32, room, recvBufMaxSize, bufMaxSize, sizeofNetLocal, sizeofNetOta] at *
  omega

/-- What a checksum reads in a packet that fits. -/
theorem size_inside {m : Mem} {n : Nat} (h : u32 (readSize m + sizeofNetOta) ≤ n) (hn : n ≤ room) :
    readSize m ≤ recvBufMaxSize ∨ 2147483648 ≤ readSize m + 16 := by
  have hlt : readSize m < 4294967296 := m.get32_lt 8
  simp only [u32, room, recvBufMaxSize, bufMaxSize, sizeofNetLocal, sizeofNetOta] at *
  omega

/-- **A segment of a packet stays inside the buffer** exactly when it finds room and reaches the bytes asked for. -/
theorem segment_inside_iff {f : Feed} {s : Dev} {p : List UInt8} (h : f.Stands s)
    (hended : s.task.ended = true → s.netLocal.readSize = 0) (hform : f.Form s p) (hlen : p.length ≤ recvBufMaxSize) :
    (∀ a ∈ (msgrecv s p).2, a.Inside) ↔ f.Room p ∧ f.Reaches s p := by
  rw [msgrecv_inside_iff]
  have hne : p ≠ [] := by cases f <;> exact hform.1
  cases f with
  | bytes got =>
    have hcount := Coming.count h
    have hlive : s.netLocal.readSize ≠ 0 → s.task.ended = false := fun h0 =>
      Bool.eq_false_iff.2 (fun he => h0 (hended he))
    have hroom : allSize s.ota + p.length ≤ room ↔ (Feed.bytes got).Room p := by
      rw [hcount, ← List.length_append]
      exact Iff.rfl
    constructor
    · intro hok
      obtain ⟨hrecv, hrest⟩ := hok hlen
      have hfit := hroom.1 (hrecv.resolve_left hne)
      obtain ⟨hbelow, -, -⟩ := Coming.laidOver h hform hfit
      refine ⟨hfit, fun hans h0 => ?_⟩
      obtain ⟨hends, hsound, hst⟩ := hans
      obtain ⟨hsum, hstatus, hseek⟩ := Coming.answers_iff h (hlive h0) hform hfit hends
      obtain ⟨-, hcopy⟩ := hrest ((Coming.completes_iff h hform hfit hlen).2 hends)
      rw [laid_below hbelow] at hcopy
      have hwin := hcopy (hsum.2 hsound) (hstatus ▸ hst) h0
      obtain ⟨-, -, -, -, haddr, hasked⟩ := hform
      rw [← hseek] at haddr
      unfold Ap.Reaches
      rw [← hseek]
      exact (window_reaches haddr (hasked h0) h0).1 hwin
    · rintro ⟨hfit, hreach⟩ -
      obtain ⟨hbelow, hlaid, hsize⟩ := Coming.laidOver h hform hfit
      refine ⟨.inr (hroom.2 hfit), fun hc => ⟨size_inside hc.2 ?_, fun hsum hst h0 => ?_⟩⟩
      · rw [hlaid, allSize_setAllSize]
        exact Nat.le_trans (Nat.mod_le _ _) hfit
      · rw [laid_below hbelow] at h0 ⊢
        have hends := (Coming.completes_iff h hform hfit hlen).1 hc
        obtain ⟨hiff, hstatus, hseek⟩ := Coming.answers_iff h (hlive h0) hform hfit hends
        have hr := hreach ⟨hends, hiff.1 hsum, hstatus ▸ hst⟩ h0
        obtain ⟨-, -, -, -, haddr, hasked⟩ := hform
        rw [← hseek] at haddr
        unfold Ap.Reaches at hr
        rw [← hseek] at hr
        exact (window_reaches haddr (hasked h0) h0).2 hr
  | behind n  =>
    obtain ⟨-, hn, hread⟩ := hform
    have hcount : allSize s.ota = n := h
    constructor
    · intro hok
      have hrecv := (hok hlen).1.resolve_left hne
      rw [hcount] at hrecv
      exact ⟨hrecv, trivial⟩
    · rintro ⟨hfit, -⟩ -
      obtain ⟨hbelow, hall, -⟩ := laidOver_behind hcount hn hfit
      refine ⟨.inr (by rw [hcount]; exact hfit), fun hc => ⟨size_inside hc.2 (by rw [hall]; exact hfit), fun _ _ h0 => ?_⟩⟩
      rw [laid_below hbelow] at h0
      exact absurd hread h0

/-- **For a client that keeps to the form of packets**, the receive path stays inside the OTA buffer in exactly the runs in
which each packet finds room and each answer reaches the bytes asked for. -/
theorem inside_iff_reaches (ram caller : Mem) (es : List Ev)
    (hform : machine.AlongWith Feed.next (fun f s e _ _ => Framed f s e) (.bytes []) (opened ram caller) es) :
    machine.Along Inside (opened ram caller) es ↔
      machine.AlongWith Feed.next (fun f s e _ _ => Contained f s e) (.bytes []) (opened ram caller) es := by
  refine Machine.along_iff_given Fed (fun f s e s' o hI hs hf => ⟨?_, fun hc => fed_step hI hs hf hc.fits⟩) es _ _
    (fed_opened ram caller) hform
  unfold Inside
  rcases step_accesses hs with ⟨p, rfl, hc, -, ho⟩ | ⟨hne, ho⟩
  · rw [ho]
    by_cases hlen : p.length ≤ recvBufMaxSize
    · rw [segment_inside_iff (hI.feed hc) (fun he => (hI.ended he).1) (hf hlen) hlen]
      exact ⟨fun hq _ => hq, fun hq => hq hlen⟩
    · rw [msgrecv_long (Nat.lt_of_not_le hlen)]
      exact ⟨fun _ hl => absurd hl hlen, fun _ a ha => by cases ha⟩
  · rw [ho]
    refine ⟨fun _ => ?_, fun _ a ha => by cases ha⟩
    cases e with
    | segment p => exact absurd rfl (hne p)
    | _         => trivial

/-- A packet of 20 bytes for address 16, cut in its header's last word. -/
def packetStart : List UInt8 := [40, 0, 0, 0, 16, 0, 0, 0, 20, 0, 0, 0, 0, 0, 0, 0, 4]
def packetEnd : List UInt8 := List.replicate 23 0

/-- An announcement that is answered, and a read that is answered in two segments. -/
theorem inside_iff_reaches_twoSegments : machine.Along Inside (opened (fun _ => 0) (fun _ => 0))
    [.announce 100 true, .segment packetEnd, .timeout true, .seek 1 16, .read 8 10 true, .segment packetStart,
      .segment packetEnd, .resume true] :=
  (inside_iff_reaches (fun _ => 0) (fun _ => 0) _ (by decide +kernel)).2 (by decide +kernel)

/-- After the update length 100000 is announced, the first byte of any reply is written 100000 bytes past the header. -/
theorem announce_then_reply_outside :
    ¬ machine.Along Inside (opened (fun _ => 0) (fun _ => 0)) [.announce 100000 true, .segment [0]] := by
  intro h
  obtain ⟨-, h1⟩ := h _ _ rfl
  obtain ⟨h2, -⟩ := h1 _ _ rfl
  have hok := (msgrecv_inside_iff _ [0]).1 h2
  obtain ⟨hroom, -⟩ := hok (by decide)
  have hall : allSize (netFSendUpdateLen (opened (fun _ => 0) (fun _ => 0)) 100000 true).1.ota = 100000 := by decide
  rcases hroom with hnil | hroom
  · cases hnil
  · exact absurd (hall ▸ hroom) (by decide)

end Ap
end OtaLoader
