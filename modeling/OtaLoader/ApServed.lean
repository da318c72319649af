import OtaLoader.ApRead
/-!
# ApServed — reads from an app that goes on with the update

When every request finds room in the socket and is answered with the file's bytes, the answer comes in segments of which
the first brings byte 12 of the header, and no wait times out, then no read fails: it is served from the window at once
or asks for one that has its bytes, and when the answer is there the read returns them (`reads_served`).  That reads
come one after another keeps a second request or a second reply from being under way.
-/
namespace OtaLoader
namespace Ap

/-! ## Undisturbed transfers -/

/-- The app tells the device to stop. -/
def Reply.Stops (r : Reply) : Prop := r.flags.head? = some (UInt8.ofNat statusStop)

instance (r : Reply) : Decidable r.Stops := by unfold Reply.Stops; infer_instance

/-- The reader asks for bytes below 4 GiB, as many as a window takes, and the socket has room; the app answers, and does
not stop the update; the segments are cut so that the receive count survives. -/
def Served (s : Net) (e : NetEv) (_ : Net) (_ : Out) : Prop :=
  match e with
  | .call (.read _ len sent) =>
    0 < len ∧ len ≤ netMaxSize ∧ s.dev.netLocal.seekAddr + len < 4294967296 ∧ sent = true
  | .call (.timeout _) => False
  | .call _    => True
  | .answer r  => ¬ r.Stops
  | .corrupt _ => False
  | .lose      => False
  | .deliver n => n ≤ recvBufMaxSize ∧ (s.got = 0 → 13 ≤ n)

/-- A read returns its length at once or sends a request for a window with its bytes.  While it waits, its request is
with the app, or the reply is on its way, or it has been signalled; then it returns its length.  A length returned
stands for the file's bytes. -/
structure Serves (file : List UInt8) (s : Net) (e : NetEv) (s' : Net) (o : Out) : Prop where
  read   : ∀ buf len sent, e = .call (.read buf len sent) → o.ret = some (len : Int) ∨
    ∃ x, o.request = some (x, recvBufMaxSize, 0) ∧ x ≤ s.dev.netLocal.seekAddr ∧
      s.dev.netLocal.seekAddr + len ≤ x + recvBufMaxSize
  resume : ∀ buf len err sent, e = .call (.resume sent) → s.dev.task = .reading buf len err →
    o.ret = some (len : Int)
  waits  : s'.dev.task ≠ .idle → s'.asked.length + s'.line.length = 1 ∨
    s'.asked = [] ∧ s'.line = [] ∧ 0 < s'.dev.readSem
  idle   : s'.dev.task = .idle → s'.asked = [] ∧ s'.line = []
  reads  : ReadsFile file s e s' o

/-! ## The window asked for -/

theorem resv_le (seek len : Nat) : resv seek len ≤ seek := by
  unfold resv
  split <;> omega

/-- The window asked for ends with the bytes asked for, or begins with them. -/
theorem resv_covers (seek : Nat) {len : Nat} (h : len ≤ recvBufMaxSize) :
    resv seek len ≤ seek ∧ seek + len ≤ resv seek len + recvBufMaxSize := by
  refine ⟨resv_le seek len, ?_⟩
  unfold resv
  split <;> omega

theorem seekAddr_newWindow {m : Mem} {l : NetLocal} (h : l.seekAddr < 4294967296) :
    seekAddr (newWindow m l) = resv l.seekAddr l.readSize := by
  rw [newWindow, seekAddr_setSeekAddr, u32_of_lt (Nat.lt_of_le_of_lt (resv_le ..) h)]

/-- Below 4 GiB the cache test is exact. -/
theorem covers_of_hit {m : Mem} {l : NetLocal} {r : Reply} (hh : hit m l = true) (hseek : seekAddr m = r.seekAddr)
    (hsize : readSize m = r.readSize) (hl : l.seekAddr + l.readSize < 4294967296) : r.Covers l := by
  unfold hit at hh
  rw [hseek, hsize, u32_of_lt hl] at hh
  simp only [Bool.not_eq_true', Bool.or_eq_false_iff, beq_eq_false_iff_ne, decide_eq_false_iff_not, Nat.not_lt] at hh
  obtain ⟨⟨-, hlo⟩, hhi⟩ := hh
  exact Or.inr ⟨hlo, Nat.le_trans hhi (Nat.mod_le _ _)⟩

theorem status_whole (m : Mem) (r : Reply) : status (m.write 0 r.bytes) = statusStop ↔ r.Stops := by
  have hpre : r.bytes = (Mem.le32 r.sum ++ Mem.le32 r.seekAddr ++ Mem.le32 r.readSize ++ Mem.le32 0) ++
      (r.flags ++ r.body) := by
    simp only [Reply.bytes, Reply.summed, List.append_assoc]
  have hflags := r.flags_len
  unfold status Reply.Stops
  cases hf : r.flags with
  | nil => rw [hf] at hflags; cases hflags
  | cons b bs =>
    rw [hpre, hf, Mem.write_append]
    have : (m.write 0 (Mem.le32 r.sum ++ Mem.le32 r.seekAddr ++ Mem.le32 r.readSize ++ Mem.le32 0)).write 16
        (b :: bs ++ r.body) (16 + 0) = b := Mem.write_inside (Nat.succ_pos _)
    have h16 : 0 + (Mem.le32 r.sum ++ Mem.le32 r.seekAddr ++ Mem.le32 r.readSize ++ Mem.le32 0).length = 16 := by
      simp
    rw [h16, this, List.head?_cons, Option.some.injEq]
    constructor
    · intro h
      rw [← h, UInt8.ofNat_toNat]
    · rintro rfl
      rfl

/-- The end of a read that was signalled, or served from the window. -/
theorem readDone_running {s : Dev} {n : Nat} (h0 : n ≠ 0) (hrun : s.netOtaStop = false)
    (hst : s.netLocal.status ≠ statusStop) : (readDone s n).2 = (s.netLocal.readSize : Int) := by
  unfold readDone
  rw [if_neg h0, if_neg]
  rintro (h | h)
  · exact hst h
  · exact absurd (h.symm.trans hrun) (by decide)

/-! ## Where an undisturbed transfer stands -/

/-- The reader waits for `netLocal`'s bytes, and its request was sent. -/
def Dev.Waits (s : Dev) : Prop :=
  ∃ buf err, s.task = .reading buf s.netLocal.readSize err ∧ err ≠ 0

inductive Stage (s : Net) : Prop
  | idle (ht : s.dev.task = .idle) (ha : s.asked = []) (hl : s.line = [])
      (hw : readSize s.dev.ota = 0 ∨ readSize s.dev.ota = recvBufMaxSize ∧ ∃ r, s.held = some r)
  | asked (x : Nat) (ht : s.dev.Waits) (hsem : s.dev.readSem = 0) (ha : s.asked = [(x, recvBufMaxSize)])
      (hl : s.line = []) (hlo : x ≤ s.dev.netLocal.seekAddr)
      (hhi : s.dev.netLocal.seekAddr + s.dev.netLocal.readSize ≤ x + recvBufMaxSize)
  | coming (r : Reply) (ht : s.dev.Waits) (hsem : s.dev.readSem = 0) (ha : s.asked = []) (hl : s.line = [.reply r])
      (hr : ¬ r.Stops) (hc : r.Covers s.dev.netLocal)
  | here (ht : s.dev.Waits) (hsem : 0 < s.dev.readSem) (ha : s.asked = []) (hl : s.line = [])
      (hw : readSize s.dev.ota = recvBufMaxSize) (hh : ∃ r, s.held = some r)

structure Undisturbed (file : List UInt8) (s : Net) : Prop extends Coherent file s where
  running : s.dev.netOtaStop = false
  status  : s.dev.netLocal.status ≠ statusStop
  stage   : Stage s

theorem Stage.waits {s : Net} (h : Stage s) (ht : s.dev.task ≠ .idle) :
    s.asked.length + s.line.length = 1 ∨ s.asked = [] ∧ s.line = [] ∧ 0 < s.dev.readSem := by
  cases h with
  | idle hi _ _ _ => exact absurd hi ht
  | asked x _ _ ha hl _ _ => exact Or.inl (by rw [ha, hl]; rfl)
  | coming r _ _ ha hl _ _ => exact Or.inl (by rw [ha, hl]; rfl)
  | here _ hsem ha hl _ _ => exact Or.inr ⟨ha, hl, hsem⟩

theorem Dev.Waits.not_idle {s : Dev} (h : s.Waits) : s.task ≠ .idle := by
  obtain ⟨buf, err, ht, -⟩ := h
  rw [ht]
  exact Task.noConfusion

theorem Stage.of_idle {s : Net} (h : Stage s) (ht : s.dev.task = .idle) : s.asked = [] ∧ s.line = [] ∧
    (readSize s.dev.ota = 0 ∨ readSize s.dev.ota = recvBufMaxSize ∧ ∃ r, s.held = some r) := by
  cases h with
  | idle _ ha hl hw => exact ⟨ha, hl, hw⟩
  | asked x hw _ _ _ _ _ => exact absurd ht hw.not_idle
  | coming r hw _ _ _ _ _ => exact absurd ht hw.not_idle
  | here hw _ _ _ _ _ => exact absurd ht hw.not_idle

/-- With nothing on its way nothing has arrived of a packet. -/
theorem Coherent.got_eq_zero {file : List UInt8} {s : Net} (h : Coherent file s) (hl : s.line = []) : s.got = 0 := by
  rcases h.inStep with ⟨hg, -⟩ | ⟨-, m, p, ps, r, hl', -⟩
  · exact hg
  · rw [hl] at hl'
    cases hl'

/-- What a step has to show once the state it leaves is an undisturbed one. -/
theorem Undisturbed.serves {file : List UInt8} {s s' : Net} {e : NetEv} {o : Out} (h : Undisturbed file s')
    (hread : ∀ buf len sent, e = .call (.read buf len sent) → o.ret = some (len : Int) ∨
      ∃ x, o.request = some (x, recvBufMaxSize, 0) ∧ x ≤ s.dev.netLocal.seekAddr ∧
        s.dev.netLocal.seekAddr + len ≤ x + recvBufMaxSize)
    (hresume : ∀ buf len err sent, e = .call (.resume sent) → s.dev.task = .reading buf len err →
      o.ret = some (len : Int)) (hreads : ReadsFile file s e s' o) : Serves file s e s' o where
  read := hread
  resume := hresume
  waits := h.stage.waits
  idle := fun ht => ⟨(h.stage.of_idle ht).1, (h.stage.of_idle ht).2.1⟩
  reads := hreads

/-! ## The steps -/

variable {file : List UInt8}

theorem seek_undisturbed {s s' : Net} {type offset : Nat} {o : Out} (h : Undisturbed file s)
    (hs : netStep file s (.call (.seek type offset)) = some (s', o)) :
    Undisturbed file s' ∧ Serves file s (.call (.seek type offset)) s' o := by
  have hcoh := clean_step s _ s' o h.toCoherent hs trivial
  simp only [netStep, Ev.isRead, if_true, Option.map_eq_some_iff] at hs
  obtain ⟨⟨d, o'⟩, hd, heq⟩ := hs
  obtain ⟨ht, hd⟩ := step_took hd
  cases hd
  cases heq
  have hl : ∃ l, (netFSeek s.dev type offset).1 = { s.dev with netLocal := l } ∧ l.status = s.dev.netLocal.status := by
    unfold netFSeek
    split
    · exact ⟨_, rfl, rfl⟩
    · split <;> exact ⟨_, rfl, rfl⟩
  obtain ⟨l, hl, hst⟩ := hl
  obtain ⟨ha, hline, hw⟩ := h.stage.of_idle ht
  have hstage : Undisturbed file { s with
      dev := (netFSeek s.dev type offset).1
      asked := s.asked ++ []
      held := if (netFSeek s.dev type offset).1.task = .idle then s.held else none } := by
    refine ⟨hcoh.1, ?_, ?_, ?_⟩
    · rw [hl]
      exact h.running
    · rw [hl]
      exact fun h' => h.status (hst.symm.trans h')
    · rw [hl]
      refine .idle ht (by rw [ha]; rfl) hline ?_
      simpa [ht] using hw
  exact ⟨hstage, hstage.serves (fun _ _ _ h' => by cases h') (fun _ _ _ _ h' => by cases h') hcoh.2⟩

/-- **A read** is served from the window, or its request asks for a window with its bytes. -/
theorem read_undisturbed {s s' : Net} {buf len : Nat} {sent : Bool} {o : Out} (h : Undisturbed file s)
    (hs : netStep file s (.call (.read buf len sent)) = some (s', o))
    (hv : Served s (.call (.read buf len sent)) s' o) :
    Undisturbed file s' ∧ Serves file s (.call (.read buf len sent)) s' o := by
  obtain ⟨h0, hlen, hend, rfl⟩ := hv
  have hs' := hs
  simp only [netStep, Ev.isRead, if_true, Option.map_eq_some_iff] at hs'
  obtain ⟨⟨d, o'⟩, hd, heq⟩ := hs'
  obtain ⟨ht, hd⟩ := step_took hd
  obtain ⟨ha, hline, hw⟩ := h.stage.of_idle ht
  have hgot := h.got_eq_zero hline
  by_cases hh : hit (primed s.dev.ota (asking s.dev buf len).netLocal) (asking s.dev buf len).netLocal = true
  · -- the window is held
    have hprimed := primed_of_hit hh
    rw [hprimed] at hh
    have hread : readSize s.dev.ota = recvBufMaxSize ∧ ∃ r, s.held = some r := by
      refine hw.resolve_left (fun hz => ?_)
      rw [hit, hz] at hh
      cases hh
    obtain ⟨hR, r, hr⟩ := hread
    have hholds := (h.held r hr).2
    have hcov := covers_of_hit hh hholds.seek (hR.trans hholds.size.symm) hend
    have hclean : Clean s (.call (.read buf len true)) s' o := by
      intro _
      rw [hprimed, if_pos hh]
      exact Or.inr ⟨r, hr, hcov⟩
    have hcoh := clean_step s _ s' o h.toCoherent hs hclean
    obtain ⟨c, hc, hc'⟩ := @netFRead_hit s.dev buf len true hlen h.running h.client (by rw [hprimed]; exact hh)
    have hret : (readDone c len).2 = (len : Int) := by
      rw [readDone_running (Nat.ne_of_gt h0) (by rw [hc']; exact h.running)
        (by rw [hc']; exact (by decide : statusRead ≠ statusStop)), hc']
      rfl
    obtain ⟨k, hk⟩ := readDone_fst c len
    rw [hc, hret, hk, hc', hprimed] at hd
    cases hd
    cases heq
    have hund : Undisturbed file _ := ⟨hcoh.1, h.running, by show statusRead ≠ statusStop; decide,
      .idle rfl (by rw [ha]; rfl) hline (Or.inr ⟨hR, r, by rw [if_pos rfl]; exact hr⟩)⟩
    exact ⟨hund, hund.serves (fun _ _ _ h' => by cases h'; exact Or.inl rfl) (fun _ _ _ _ h' => by cases h') hcoh.2⟩
  · -- another window is asked for
    have hclean : Clean s (.call (.read buf len true)) s' o := by
      intro _
      rw [if_neg hh]
      exact hgot
    have hcoh := clean_step s _ s' o h.toCoherent hs hclean
    rw [netFRead_miss hlen h.running h.client hh] at hd
    have hseek := seekAddr_newWindow (m := primed s.dev.ota (asking s.dev buf len).netLocal)
      (l := (asking s.dev buf len).netLocal) (by show s.dev.netLocal.seekAddr < _; omega)
    rw [sendHeader_request, hseek, readSize_newWindow, allSize_newWindow] at hd
    cases hd
    cases heq
    obtain ⟨hlo, hhi⟩ := resv_covers s.dev.netLocal.seekAddr hlen
    have hund : Undisturbed file _ := ⟨hcoh.1, h.running, by show statusRead ≠ statusStop; decide,
      .asked _ ⟨buf, sizeofNetOta, rfl, by decide⟩ rfl (by rw [ha]; rfl) hline hlo hhi⟩
    exact ⟨hund, hund.serves (fun _ _ _ h' => by cases h'; exact Or.inr ⟨_, rfl, hlo, hhi⟩)
      (fun _ _ _ _ h' => by cases h') hcoh.2⟩

/-- **The answer** is the one packet on its way, and covers the bytes the reader waits for. -/
theorem answer_undisturbed {s s' : Net} {r : Reply} {o : Out} (h : Undisturbed file s)
    (hs : netStep file s (.answer r) = some (s', o)) (hr : ¬ r.Stops) :
    Undisturbed file s' ∧ Serves file s (.answer r) s' o := by
  have hcoh := clean_step s _ s' o h.toCoherent hs trivial
  have hs' := hs
  unfold netStep at hs'
  cases h.stage with
  | idle ht ha hl hw => rw [ha] at hs'; cases hs'
  | coming r' ht hsem ha hl hr' hc => rw [ha] at hs'; cases hs'
  | here ht hsem ha hl hw hh => rw [ha] at hs'; cases hs'
  | asked x ht hsem ha hl hlo hhi =>
    rw [ha] at hs'
    simp only [Option.ite_none_right_eq_some, Option.some.injEq, Prod.mk.injEq] at hs'
    obtain ⟨⟨-, hx, hn, -⟩, rfl, rfl⟩ := hs'
    have hund : Undisturbed file { s with asked := [], line := s.line ++ [.reply r] } :=
      ⟨hcoh.1, h.running, h.status, .coming r ht hsem rfl (by rw [hl]; rfl) hr
        (Or.inr ⟨by rw [hx]; exact hlo, by rw [hx, hn]; exact hhi⟩)⟩
    exact ⟨hund, hund.serves (fun _ _ _ h' => by cases h') (fun _ _ _ _ h' => by cases h') hcoh.2⟩

/-- A reply handed out leaves the reader signalled. -/
theorem accepted_eq {s : Dev} {r : Reply} (hr : ¬ r.Stops) : ∃ c, accepted s r =
    { s with ota := s.ota.write 0 r.bytes, caller := c, readSem := s.readSem + 1 } := by
  have hst : status (s.ota.write 0 r.bytes) ≠ statusStop := (status_whole s.ota r).not.2 hr
  unfold accepted
  by_cases h0 : s.netLocal.readSize = 0
  · rw [msgrecvmemcpy_skip (s := { s with ota := s.ota.write 0 r.bytes }) hst h0]
    exact ⟨_, rfl⟩
  · rw [msgrecvmemcpy_copy (s := { s with ota := s.ota.write 0 r.bytes }) hst h0]
    exact ⟨_, rfl⟩

/-- What a segment of the reply does to the device. -/
theorem segment_dev {s : Net} {r : Reply} {n : Nat} (h : Coherent file s) (hl : s.line = [.reply r]) (hr : ¬ r.Stops)
    (hmax : n ≤ recvBufMaxSize) (h13 : s.got = 0 → 13 ≤ n) :
    (s.got + n < 20 + r.readSize → ∃ m, (msgrecv s.dev (r.piece s.got n)).1 = { s.dev with ota := m }) ∧
      (s.got + n = 20 + r.readSize → ∃ m c, (msgrecv s.dev (r.piece s.got n)).1 =
        { s.dev with ota := m, caller := c, readSem := s.dev.readSem + 1 } ∧ readSize m = recvBufMaxSize) := by
  obtain ⟨m, r', hp, hR, hready, ho, hlt, hk⟩ := h.place hl
  obtain ⟨rfl, hvalid, -⟩ := hp
  have hw : Whole s.got n := hk.elim (fun h0 => Or.inl ⟨h0, h13 h0⟩) (fun hge => Or.inr (Or.inr hge))
  have hdev : s.dev = atOffset { s.dev with ota := m } r s.got := by
    unfold atOffset
    rw [← ho]
  refine ⟨fun hlt' => ?_, fun heq => ?_⟩
  · have hmid := msgrecv_piece (s := { s.dev with ota := m }) hready hlt' hw hmax
    rw [← hdev] at hmid
    exact ⟨_, hmid⟩
  · have hlast := msgrecv_last (s := { s.dev with ota := m }) hready hvalid heq hw hmax
    rw [← hdev] at hlast
    obtain ⟨c, hacc⟩ := accepted_eq (s := { s.dev with ota := m }) hr
    refine ⟨_, c, hlast.trans hacc, ?_⟩
    rw [← r.upTo_full, ← hR]
    exact readSize_upTo { s.dev with ota := m } r (by omega) (Nat.le_refl _)

/-- Only an answer that was sent has bytes to bring. -/
theorem Stage.coming_of_line {s : Net} (h : Stage s) (hline : s.line ≠ []) : ∃ r, s.dev.Waits ∧ s.dev.readSem = 0 ∧
    s.asked = [] ∧ s.line = [.reply r] ∧ ¬ r.Stops ∧ r.Covers s.dev.netLocal := by
  cases h with
  | idle _ _ hl _ => exact absurd hl hline
  | asked _ _ _ _ hl _ _ => exact absurd hl hline
  | here _ _ _ hl _ _ => exact absurd hl hline
  | coming r ht hsem ha hl hr hc => exact ⟨r, ht, hsem, ha, hl, hr, hc⟩

/-- **A segment of the reply**: the last one signals the reader, no other does. -/
theorem deliver_undisturbed {s s' : Net} {n : Nat} {o : Out} (h : Undisturbed file s)
    (hs : netStep file s (.deliver n) = some (s', o)) (hv : Served s (.deliver n) s' o) :
    Undisturbed file s' ∧ Serves file s (.deliver n) s' o := by
  obtain ⟨hmax, h13⟩ := hv
  obtain ⟨⟨hn0, hnle⟩, -⟩ := Option.ite_none_right_eq_some.1 hs
  have hline : s.line ≠ [] := by
    intro hl
    rw [hl] at hnle
    simp only [List.flatMap_nil, List.drop_nil, List.length_nil] at hnle
    omega
  obtain ⟨r, ht, hsem, ha, hl, hr, hc⟩ := h.stage.coming_of_line hline
  obtain ⟨p, hp, -⟩ := h.line (.reply r) (by rw [hl]; exact List.mem_cons_self ..)
  obtain ⟨rfl, hvalid, hcar⟩ := hp
  have hlen : r.bytes.length = 20 + r.readSize := r.length_bytes
  have hkn : s.got + n ≤ 20 + r.readSize := by
    rw [hl, List.flatMap_cons, List.flatMap_nil, List.append_nil, List.length_drop] at hnle
    have hle : n ≤ r.bytes.length - s.got := hnle
    omega
  have hclean : Clean s (.deliver n) s' o := by
    refine ⟨hmax, h13, fun p ps hp => ?_, fun r' hr' _ => ?_⟩
    · rw [hl] at hp
      cases hp
      exact le_of_le_of_eq hkn hlen.symm
    · rw [hl, whole] at hr'
      split at hr'
      · cases hr'
        exact hc
      · cases hr'
  have hcoh := clean_step s _ s' o h.toCoherent hs hclean
  rw [netStep_deliver file h.client hn0 hnle, hl,
    @segment_piece file (.reply r) [] r ⟨rfl, hvalid, hcar⟩ s.got n hkn] at hs
  simp only [Option.some.injEq, Prod.mk.injEq] at hs
  obtain ⟨hs, -⟩ := hs
  obtain ⟨hmid, hlast⟩ := segment_dev h.toCoherent hl hr hmax h13
  have hund : Undisturbed file s' := by
    rcases Nat.lt_or_eq_of_le hkn with hlt | heq
    · -- the reply goes on
      obtain ⟨m, hdev⟩ := hmid hlt
      have hset : settle [.reply r] (s.got + n) = ([.reply r], s.got + n) :=
        settle_within (Nat.lt_of_lt_of_eq hlt hlen.symm)
      rw [hdev, hset] at hs
      subst hs
      exact ⟨hcoh.1, h.running, h.status, .coming r ht hsem ha rfl hr hc⟩
    · -- the reply is whole
      obtain ⟨m, c, hdev, hsize⟩ := hlast heq
      have hset : settle [.reply r] (s.got + n) = ([], 0) := by
        rw [heq, ← hlen]
        exact settle_whole (p := .reply r) (fun q hq => by cases hq)
      have hwhole : whole [.reply r] (s.got + n) = some r := if_pos (by rw [heq, hlen])
      rw [hdev, hset, hwhole] at hs
      subst hs
      exact ⟨hcoh.1, h.running, h.status, .here ht (Nat.succ_pos _) ha rfl hsize ⟨r, rfl⟩⟩
  exact ⟨hund, hund.serves (fun _ _ _ h' => by cases h') (fun _ _ _ _ h' => by cases h') hcoh.2⟩

/-- **A signalled read returns its length.** -/
theorem resume_undisturbed {s s' : Net} {sent : Bool} {o : Out} (h : Undisturbed file s)
    (hs : netStep file s (.call (.resume sent)) = some (s', o)) :
    Undisturbed file s' ∧ Serves file s (.call (.resume sent)) s' o := by
  have hcoh := clean_step s _ s' o h.toCoherent hs trivial
  have hs' := hs
  simp only [netStep, Ev.isRead, if_true, Option.map_eq_some_iff] at hs'
  obtain ⟨⟨d, o'⟩, hd, heq⟩ := hs'
  obtain ⟨hsem, hd⟩ := step_took hd
  cases h.stage with
  | idle ht _ _ _ => rw [wake, ht] at hd; cases hd
  | asked _ _ hz _ _ _ _ => omega
  | coming _ _ hz _ _ _ _ => omega
  | here ht _ ha hl hw hh =>
    obtain ⟨buf, err, ht, herr⟩ := ht
    rw [wake, ht] at hd
    simp only [Option.some.injEq, Prod.mk.injEq] at hd
    obtain ⟨rfl, rfl⟩ := hd
    obtain ⟨k, hk⟩ := readDone_fst { s.dev with readSem := s.dev.readSem - 1 } err
    have hret := readDone_running (s := { s.dev with readSem := s.dev.readSem - 1 }) herr h.running h.status
    rw [← ht, if_pos trivial, hk, hret] at heq
    cases heq
    have hund : Undisturbed file _ := ⟨hcoh.1, h.running, h.status,
      .idle rfl (by rw [ha]; rfl) hl (Or.inr ⟨hw, by rw [if_pos rfl]; exact hh⟩)⟩
    refine ⟨hund, hund.serves (fun _ _ _ h' => by cases h') (fun buf' len' err' _ _ ht' => ?_) hcoh.2⟩
    rw [ht] at ht'
    cases ht'
    rfl

/-- **A step of an undisturbed transfer leaves one, and serves.** -/
theorem served_step (s : Net) (e : NetEv) (s' : Net) (o : Out) (h : Undisturbed file s)
    (hs : netStep file s e = some (s', o)) (hv : Served s e s' o) : Undisturbed file s' ∧ Serves file s e s' o := by
  cases e with
  | answer r   => exact answer_undisturbed h hs hv
  | deliver n  => exact deliver_undisturbed h hs hv
  | corrupt bs => exact absurd hv (fun h => h)
  | lose       => exact absurd hv (fun h => h)
  | call e =>
    cases e with
    | seek type offset  => exact seek_undisturbed h hs
    | read buf len sent => exact read_undisturbed h hs hv
    | resume sent       => exact resume_undisturbed h hs
    | timeout sent      => exact absurd hv (fun h => h)
    | announce len sent => cases hs
    | stop failed sent  => cases hs
    | finish            => cases hs
    | segment p         => cases hs
    | close             => cases hs

theorem undisturbed_connected (file : List UInt8) (ram caller : Mem) : Undisturbed file (connected ram caller) where
  toCoherent := coherent_connected file ram caller
  running := rfl
  status := by show (0 : Nat) ≠ statusStop; decide
  stage := by
    refine .idle rfl rfl rfl (Or.inl ?_)
    have hz : ∀ i, i < 4 → (ram.fill 0 room 0) (8 + i) = 0 := fun i hi =>
      Mem.fill_inside (Nat.zero_le _) (by simp only [room, bufMaxSize, sizeofNetLocal]; omega)
    exact (Mem.get32_congr hz : readSize (ram.fill 0 room 0) = readSize (fun _ => 0))

/-- **Undisturbed transfers serve every read**: whatever the reader reads, in whatever segments the answers come, no
read fails, none waits for nothing, and each returns the file's bytes. -/
theorem reads_served (file : List UInt8) (ram caller : Mem) (es : List NetEv)
    (hserved : (netMachine file).Along Served (connected ram caller) es) :
    (netMachine file).Along (Serves file) (connected ram caller) es :=
  Machine.along_of_inv (Undisturbed file) (fun s e s' o h hs hv => served_step s e s' o h hs hv) es _
    (undisturbed_connected file ram caller) hserved

theorem firstBytes_goes_on (file : List UInt8) {R : Nat} (hR : R ≤ recvBufMaxSize) : ¬ (firstBytes file R hR).Stops :=
  show ¬ some (0 : UInt8) = some (UInt8.ofNat statusStop) by decide

theorem reads_served_oneRead :
    (netMachine tenBytes).Along (Serves tenBytes) (connected (fun _ => 0) (fun _ => 0)) oneRead :=
  reads_served tenBytes _ _ oneRead fun _ _ _ => ⟨⟨by decide, by decide, by decide, rfl⟩, fun _ _ _ =>
    ⟨firstBytes_goes_on _ _, fun _ _ _ => ⟨⟨by decide, fun _ => by decide⟩, fun _ _ _ =>
      ⟨⟨by decide, fun _ => by decide⟩, fun _ _ _ => ⟨trivial, trivial⟩⟩⟩⟩⟩

end Ap
end OtaLoader
