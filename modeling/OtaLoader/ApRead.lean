import OtaLoader.ApRecv
/-!
# ApRead — reading a file from an app that answers every request

The app answers requests in their order, with the file's bytes, or not at all, or with a packet that fails its
checksum; its packets reach the device as one stream of bytes, cut into segments anywhere and at any time.  A read can
return bytes that are not the file's: `msgsenddata` records the window it asks for before the window's bytes exist, and
`msgrecv` takes whatever reply comes next.  `reads_of_clean` says which steps have to be excluded.
-/
namespace OtaLoader
namespace Ap

/-! ## The app and the stream -/

inductive Packet where
  | reply (r : Reply)
  | bad (bs : List UInt8)

def Packet.bytes : Packet → List UInt8
  | .reply r => r.bytes
  | .bad bs  => bs

/-- The body agrees with the file wherever the file has a byte. -/
def Reply.Carries (r : Reply) (file : List UInt8) : Prop :=
  ∀ (i : Nat) (hi : i < r.body.length) (hf : r.seekAddr + i < file.length), r.body[i] = file[r.seekAddr + i]

/-- The four bytes of the sum do not match the bytes they cover. -/
def FailsSum (bs : List UInt8) : Prop :=
  u32 (byteSum (bs.drop 4)) ≠ Mem.get32 (Mem.write (fun _ => 0) 0 bs) 0

instance (r : Reply) : Decidable r.Valid := by unfold Reply.Valid; infer_instance
instance (r : Reply) (file : List UInt8) : Decidable (r.Carries file) :=
  decidable_of_iff (∀ i ∈ List.range r.body.length, r.seekAddr + i < file.length →
      r.body[i]? = file[r.seekAddr + i]?) (by
    unfold Reply.Carries
    constructor
    · intro h i hi hf
      have := h i (List.mem_range.2 hi) hf
      rw [List.getElem?_eq_getElem hi, List.getElem?_eq_getElem hf] at this
      exact Option.some.inj this
    · intro h i hi hf
      have hi' := List.mem_range.1 hi
      rw [List.getElem?_eq_getElem hi', List.getElem?_eq_getElem hf, h i hi' hf])
instance (bs : List UInt8) : Decidable (FailsSum bs) := by unfold FailsSum; infer_instance

/-- The device and what it is connected to: the requests not yet dealt with, the packets on their way, how many bytes of
the first one have arrived, and the reply the buffer holds whole: the last packet, with no request made since. -/
structure Net where
  dev   : Dev
  asked : List (Nat × Nat)
  line  : List Packet
  got   : Nat
  held  : Option Reply

inductive NetEv where
  | call (e : Ev)
  | answer (r : Reply)
  | corrupt (bs : List UInt8)
  | lose
  | deliver (n : Nat)

/-- The calls of a reader, and the ends of their waits. -/
def Ev.isRead : Ev → Bool
  | .seek .. | .read .. | .resume .. | .timeout .. => true
  | _ => false

/-- The packets left, and the bytes of the first of them that have arrived, when `k` bytes of the stream have. -/
def settle : List Packet → Nat → List Packet × Nat
  | [], _      => ([], 0)
  | p :: ps, k => if p.bytes.length ≤ k then settle ps (k - p.bytes.length) else (p :: ps, k)

/-- The reply that is whole when `k` bytes of the stream have arrived. -/
def whole : List Packet → Nat → Option Reply
  | .reply r :: _, k => if k = r.bytes.length then some r else none
  | _, _             => none

def netStep (file : List UInt8) (s : Net) : NetEv → Option (Net × Out)
  | .call e =>
    if e.isRead then
      (step s.dev e).map (fun r => ({ s with
        dev := r.1
        asked := s.asked ++ (r.2.request.map (fun q => (q.1, q.2.1))).toList
        held := if r.1.task = .idle then s.held else none }, r.2))
    else none
  | .answer r =>
    match s.asked with
    | (x, n) :: rest =>
      if r.Valid ∧ r.seekAddr = x ∧ r.readSize = n ∧ r.Carries file then
        some ({ s with asked := rest, line := s.line ++ [.reply r] }, {})
      else none
    | [] => none
  | .corrupt bs =>
    match s.asked with
    | (_, n) :: rest =>
      if bs.length = sizeofNetOta + n ∧ FailsSum bs then
        some ({ s with asked := rest, line := s.line ++ [.bad bs] }, {})
      else none
    | [] => none
  | .lose =>
    match s.asked with
    | _ :: rest => some ({ s with asked := rest }, {})
    | []        => none
  | .deliver n =>
    let todo := (s.line.flatMap Packet.bytes).drop s.got
    if 0 < n ∧ n ≤ todo.length then
      (step s.dev (.segment (todo.take n))).map (fun r => ({ s with
        dev := r.1
        line := (settle s.line (s.got + n)).1
        got := (settle s.line (s.got + n)).2
        held := whole s.line (s.got + n) }, r.2))
    else none

theorem netStep_deliver (file : List UInt8) {s : Net} {n : Nat} (hc : s.dev.clientPcb = true) (h0 : 0 < n)
    (hn : n ≤ ((s.line.flatMap Packet.bytes).drop s.got).length) :
    netStep file s (.deliver n) =
      some ({ s with
        dev := (msgrecv s.dev (((s.line.flatMap Packet.bytes).drop s.got).take n)).1
        line := (settle s.line (s.got + n)).1
        got := (settle s.line (s.got + n)).2
        held := whole s.line (s.got + n) },
        { accesses := (msgrecv s.dev (((s.line.flatMap Packet.bytes).drop s.got).take n)).2 }) :=
  (if_pos ⟨h0, hn⟩).trans (congrArg _ (if_pos hc))

theorem netStep_answer {file : List UInt8} {s : Net} {r : Reply} {x n : Nat} {rest : List (Nat × Nat)}
    (ha : s.asked = (x, n) :: rest) (hv : r.Valid) (hx : r.seekAddr = x) (hn : r.readSize = n) (hc : r.Carries file) :
    netStep file s (.answer r) = some ({ s with asked := rest, line := s.line ++ [.reply r] }, {}) := by
  unfold netStep
  rw [ha]
  exact if_pos ⟨hv, hx, hn, hc⟩

def netMachine (file : List UInt8) : Machine Net NetEv Out := ⟨netStep file⟩

/-- A client is connected and nothing is on its way. -/
def connected (ram caller : Mem) : Net := ⟨opened ram caller, [], [], 0, none⟩

/-! ## What a read promises, and when it keeps it -/

/-- The caller's buffer has the file's bytes. -/
def Delivered (file : List UInt8) (caller : Mem) (buf seek len : Nat) : Prop :=
  ∀ (i : Nat), i < len → ∀ hf : seek + i < file.length, caller (buf + i) = file[seek + i]

/-- A read that returns its length has delivered. -/
def ReadsFile (file : List UInt8) (s : Net) (e : NetEv) (s' : Net) (o : Out) : Prop :=
  match e with
  | .call (.read buf len _) =>
    o.ret = some (len : Int) → Delivered file s'.dev.caller buf s.dev.netLocal.seekAddr len
  | .call (.resume _) => ∀ buf len err, s.dev.task = .reading buf len err →
    o.ret = some (len : Int) → Delivered file s'.dev.caller buf s.dev.netLocal.seekAddr len
  | _ => True

/-- The reply's window holds the bytes asked for. -/
def Reply.Covers (r : Reply) (l : NetLocal) : Prop :=
  l.readSize = 0 ∨ r.seekAddr ≤ l.seekAddr ∧ l.seekAddr + l.readSize ≤ r.seekAddr + r.readSize

/-- A packet with nothing wrong in the two fields `msgrecv` counts by. -/
def Countable (bs : List UInt8) : Prop := ∃ r : Reply, r.bytes = bs ∧ r.readSize = recvBufMaxSize

/-- A read goes to the cache test. -/
def Admitted (s : Dev) (len : Nat) : Prop := len ≤ netMaxSize ∧ s.netOtaStop = false

/-- **The steps after which reads go on returning the file's bytes.**
A read is served from the window only while the buffer holds that window, and asks for another one only when no packet
is arriving.  A segment brings bytes of one packet, the first one of a packet its byte 12; while a read waits, the
packet it completes is for the bytes asked for.  What spoils a packet spares the two fields it is counted by. -/
def Clean (s : Net) (e : NetEv) (_ : Net) (_ : Out) : Prop :=
  match e with
  | .call (.read buf len _) => Admitted s.dev len →
    if hit (primed s.dev.ota (asking s.dev buf len).netLocal) (asking s.dev buf len).netLocal then
      len = 0 ∨ ∃ r, s.held = some r ∧ r.Covers (asking s.dev buf len).netLocal
    else s.got = 0
  | .corrupt bs => Countable bs
  | .deliver n =>
    n ≤ recvBufMaxSize ∧ (s.got = 0 → 13 ≤ n) ∧
      (∀ p ps, s.line = p :: ps → s.got + n ≤ p.bytes.length) ∧
      (∀ r, whole s.line (s.got + n) = some r → s.dev.task ≠ .idle → r.Covers s.dev.netLocal)
  | _ => True

/-! ## What the clean steps keep -/

def Packet.Is (file : List UInt8) : Packet → Reply → Prop
  | .reply r', r => r' = r ∧ r.Valid ∧ r.Carries file
  | .bad bs, r   => r.bytes = bs ∧ ¬ r.Valid

theorem Packet.Is.bytes {file : List UInt8} : ∀ {p : Packet} {r : Reply}, p.Is file r → p.bytes = r.bytes
  | .reply _, _, h => congrArg Reply.bytes h.1
  | .bad _, _, h   => h.1.symm

/-- The buffer holds the reply's window. -/
structure Holds (file : List UInt8) (m : Mem) (r : Reply) : Prop where
  size    : r.readSize = recvBufMaxSize
  carries : r.Carries file
  seek    : seekAddr m = r.seekAddr
  body    : ∀ (i : Nat) (hi : i < r.body.length), m (20 + i) = r.body[i]

/-- The bytes received of the first packet are counted without loss. -/
def InStep (file : List UInt8) (s : Net) : Prop :=
  s.got = 0 ∧ allSize s.dev.ota = 0 ∨
    13 ≤ s.got ∧ ∃ m p ps r, s.line = p :: ps ∧ p.Is file r ∧ r.readSize = recvBufMaxSize ∧ Ready m r 0 ∧
      s.dev.ota = otaAt m r s.got ∧ s.got < 20 + r.readSize

/-- A waiting read has its bytes once it is signalled, unless the client has stopped the update. -/
def Waiting (file : List UInt8) (s : Dev) : Prop :=
  s.task = .idle ∨ ∃ buf len err, s.task = .reading buf len err ∧ s.netLocal.buf = buf ∧ s.netLocal.readSize = len ∧
    (0 < s.readSem → s.netOtaStop = true ∨ Delivered file s.caller buf s.netLocal.seekAddr len)

structure Coherent (file : List UInt8) (s : Net) : Prop where
  client  : s.dev.clientPcb = true
  asked   : ∀ q ∈ s.asked, q.2 = recvBufMaxSize
  line    : ∀ p ∈ s.line, ∃ r, p.Is file r ∧ r.readSize = recvBufMaxSize
  sized   : s.asked = [] ∧ s.line = [] ∨ readSize s.dev.ota = recvBufMaxSize
  inStep  : InStep file s
  held    : ∀ r, s.held = some r → s.got = 0 ∧ Holds file s.dev.ota r
  waiting : Waiting file s.dev

/-- A copy out of a window that holds and covers the bytes delivers them. -/
theorem delivered_copy {file : List UInt8} {m : Mem} {r : Reply} (h : Holds file m r) {l : NetLocal} (hc : r.Covers l)
    (c : Mem) : Delivered file (c.write l.buf (windowBytes m l)) l.buf l.seekAddr l.readSize := by
  intro i hi hf
  obtain ⟨hlo, hhi⟩ := hc.resolve_left (by omega)
  have hR := h.size
  have hbody := r.body_len
  simp only [recvBufMaxSize, bufMaxSize, sizeofNetLocal, sizeofNetOta] at hR
  have hoff : windowOffset m l = 20 + (l.seekAddr - r.seekAddr) := by
    unfold windowOffset u32
    rw [h.seek]
    omega
  simp only [windowBytes_read (show windowOffset m l + l.readSize ≤ netLocalAt by
    rw [hoff]
    simp only [netLocalAt, sizeofNetLocal]
    omega)]
  rw [Mem.write_inside (by rw [Mem.length_read]; exact hi), Mem.getElem_read, hoff,
    Nat.add_assoc, h.body (l.seekAddr - r.seekAddr + i) (by omega),
    h.carries (l.seekAddr - r.seekAddr + i) (by omega) (by omega)]
  congr 1
  omega

theorem holds_whole {file : List UInt8} {r : Reply} (hR : r.readSize = recvBufMaxSize) (hc : r.Carries file) (m : Mem) :
    Holds file (m.write 0 r.bytes) r where
  size := hR
  carries := hc
  seek := by
    have : m.write 0 r.bytes = (setSeekAddr (setSumCheck m r.sum) r.seekAddr).write 8
        (Mem.le32 r.readSize ++ (Mem.le32 0 ++ (r.flags ++ r.body))) := by
      rw [Reply.bytes, Reply.summed, Mem.write_append, Mem.write_append]
      rfl
    rw [this]
    refine (Mem.get32_write_outside (by omega)).trans ?_
    exact (seekAddr_setSeekAddr _ _).trans (u32_of_lt r.seekAddr_lt)
  body := by
    intro i hi
    have hpre : r.bytes = (Mem.le32 r.sum ++ Mem.le32 r.seekAddr ++ Mem.le32 r.readSize ++ Mem.le32 0 ++ r.flags) ++
        r.body := by
      simp only [Reply.bytes, Reply.summed, List.append_assoc]
    have hlen : (Mem.le32 r.sum ++ Mem.le32 r.seekAddr ++ Mem.le32 r.readSize ++ Mem.le32 0 ++ r.flags).length = 20 := by
      simp only [List.length_append, Mem.length_le32, r.flags_len]
    rw [hpre, Mem.write_append, hlen, Nat.zero_add, Mem.write_inside hi]

theorem settle_within {p : Packet} {ps : List Packet} {k : Nat} (h : k < p.bytes.length) :
    settle (p :: ps) k = (p :: ps, k) := if_neg (Nat.not_le.2 h)

theorem settle_zero : ∀ {ps : List Packet}, (∀ p ∈ ps, 0 < p.bytes.length) → settle ps 0 = (ps, 0)
  | [], _     => rfl
  | _ :: _, h => settle_within (h _ (List.mem_cons_self ..))

theorem settle_whole {p : Packet} {ps : List Packet} (h : ∀ q ∈ ps, 0 < q.bytes.length) :
    settle (p :: ps) p.bytes.length = (ps, 0) := by
  rw [settle, if_pos (Nat.le_refl _), Nat.sub_self, settle_zero h]

theorem Packet.Is.length_pos {file : List UInt8} {p : Packet} {r : Reply} (h : p.Is file r) : 0 < p.bytes.length := by
  rw [h.bytes, r.length_bytes]
  omega

/-- Where the bytes of the first packet stand, whether some of them have arrived or none. -/
theorem Coherent.place {file : List UInt8} {s : Net} (h : Coherent file s) {p : Packet} {ps : List Packet}
    (hl : s.line = p :: ps) : ∃ m r, p.Is file r ∧ r.readSize = recvBufMaxSize ∧ Ready m r 0 ∧
      s.dev.ota = otaAt m r s.got ∧ s.got < 20 + r.readSize ∧ (s.got = 0 ∨ 13 ≤ s.got) := by
  rcases h.inStep with ⟨hg, hall⟩ | ⟨h13, m, q, qs, r, hl', hp, hR, hready, ho, hlt⟩
  · obtain ⟨r, hp, hR⟩ := h.line p (by rw [hl]; exact List.mem_cons_self ..)
    have hsize : readSize s.dev.ota = r.readSize := by
      rw [hR]
      exact h.sized.resolve_left (fun hnil => by rw [hl] at hnil; cases hnil.2)
    have hready : Ready s.dev.ota r 0 := ⟨Or.inl hsize, hall⟩
    refine ⟨s.dev.ota, r, hp, hR, hready, ?_, by omega, Or.inl hg⟩
    rw [hg]
    exact (congrArg Dev.ota (atOffset_zero hready)).symm
  · rw [hl] at hl'
    cases hl'
    exact ⟨m, r, hp, hR, hready, ho, hlt, Or.inr h13⟩

/-- A segment of the first packet is a piece of it. -/
theorem segment_piece {file : List UInt8} {p : Packet} {ps : List Packet} {r : Reply} (hp : p.Is file r) {k n : Nat}
    (hkn : k + n ≤ 20 + r.readSize) :
    (((p :: ps).flatMap Packet.bytes).drop k).take n = r.piece k n := by
  have hlen := r.length_bytes
  rw [List.flatMap_cons, hp.bytes, List.drop_append_of_le_length (by omega),
    List.take_append_of_le_length (by rw [List.length_drop]; omega), Reply.piece]

/-- Handing a window out to a read it covers keeps the promise to it. -/
theorem msgrecvmemcpy_waiting {file : List UInt8} {s : Dev} {r : Reply} (hh : Holds file s.ota r)
    (hw : Waiting file s) (hcov : s.task ≠ .idle → r.Covers s.netLocal) : Waiting file (msgrecvmemcpy s).1 := by
  rcases hw with hi | ⟨buf, len, err, htask, hbuf, hlen, -⟩
  · left
    exact (msgrecvmemcpy_sameCall s).task.trans hi
  right
  refine ⟨buf, len, err, (msgrecvmemcpy_sameCall s).task.trans htask, ?_⟩
  by_cases hst : status s.ota = statusStop
  · rw [msgrecvmemcpy_stop hst]
    exact ⟨hbuf, hlen, fun _ => Or.inl rfl⟩
  · by_cases h0 : s.netLocal.readSize = 0
    · rw [msgrecvmemcpy_skip hst h0]
      exact ⟨hbuf, hlen, fun _ => Or.inr (fun i hi => by omega)⟩
    · rw [msgrecvmemcpy_copy hst h0]
      refine ⟨hbuf, hlen, fun _ => Or.inr ?_⟩
      rw [← hbuf, ← hlen]
      exact delivered_copy hh (hcov (by rw [htask]; exact Task.noConfusion)) s.caller

/-- **A segment of a clean step.** -/
theorem deliver_coherent {file : List UInt8} {s s' : Net} {n : Nat} {o : Out} (h : Coherent file s)
    (hs : netStep file s (.deliver n) = some (s', o)) (hc : Clean s (.deliver n) s' o) : Coherent file s' := by
  obtain ⟨hmax, h13, hone, hcov⟩ := hc
  obtain ⟨⟨hn0, hnle⟩, -⟩ := Option.ite_none_right_eq_some.1 hs
  rw [netStep_deliver file h.client hn0 hnle] at hs
  simp only [Option.some.injEq, Prod.mk.injEq] at hs
  obtain ⟨hs, -⟩ := hs
  cases hl : s.line with
  | nil => rw [hl] at hnle; simp at hnle; omega
  | cons p ps =>
    obtain ⟨m, r, hp, hR, hready, ho, hlt, hk⟩ := h.place hl
    have hkn : s.got + n ≤ 20 + r.readSize := by
      have := hone p ps hl
      rwa [hp.bytes, r.length_bytes] at this
    have hw : Whole s.got n := by unfold Whole; omega
    have hdev : s.dev = atOffset { s.dev with ota := m } r s.got := by
      unfold atOffset
      rw [← ho]
    have hps : ∀ q ∈ ps, 0 < q.bytes.length := fun q hq => by
      obtain ⟨r', hq', -⟩ := h.line q (by rw [hl]; exact List.mem_cons_of_mem _ hq)
      exact hq'.length_pos
    rw [hl, segment_piece hp hkn] at hs
    subst hs
    rcases Nat.lt_or_eq_of_le hkn with hlt' | heq
    · -- the packet goes on
      have hmid := msgrecv_piece (s := { s.dev with ota := m }) hready hlt' hw hmax
      rw [← hdev] at hmid
      have hset : settle (p :: ps) (s.got + n) = (p :: ps, s.got + n) :=
        settle_within (by rw [hp.bytes, r.length_bytes]; exact hlt')
      have hwhole : whole (p :: ps) (s.got + n) = none := by
        cases p with
        | bad bs => rfl
        | reply r' => exact if_neg (by rw [hp.1, r.length_bytes]; omega)
      have hsize : readSize (otaAt m r (s.got + n)) = recvBufMaxSize := by
        obtain ⟨hlo, hhi⟩ := readSize_upTo_bounds (s := { s.dev with ota := m }) hready hkn
        rw [otaAt, readSize_setAllSize]
        exact Nat.le_antisymm hhi (hR ▸ hlo)
      rw [hmid, hset, hwhole]
      exact
        { client := h.client
          asked := h.asked
          line := by rw [← hl]; exact h.line
          sized := Or.inr hsize
          inStep := Or.inr ⟨by show 13 ≤ s.got + n; omega, m, p, ps, r, rfl, hp, hR, hready, rfl, hlt'⟩
          held := fun _ hheld => by cases hheld
          waiting := h.waiting }
    · -- the packet is whole
      have hset : settle (p :: ps) (s.got + n) = (ps, 0) := by
        rw [heq, ← r.length_bytes, ← hp.bytes, settle_whole hps]
      have hline : ∀ q ∈ ps, ∃ r, q.Is file r ∧ r.readSize = recvBufMaxSize :=
        fun q hq => h.line q (by rw [hl]; exact List.mem_cons_of_mem _ hq)
      have hsize : readSize (m.write 0 r.bytes) = recvBufMaxSize := by
        rw [← r.upTo_full, ← hR]
        exact readSize_upTo { s.dev with ota := m } r (by omega) (Nat.le_refl _)
      cases p with
      | reply r' =>
        obtain ⟨rfl, hv, hcar⟩ := hp
        have hlast := msgrecv_last (s := { s.dev with ota := m }) hready hv heq hw hmax
        rw [← hdev] at hlast
        have hwhole : whole (.reply r' :: ps) (s.got + n) = some r' := if_pos (by rw [heq, r'.length_bytes])
        have hota : (accepted { s.dev with ota := m } r').ota = m.write 0 r'.bytes := accepted_ota _ _
        rw [hlast, hset, hwhole]
        exact
          { client := (msgrecvmemcpy_sameCall _).clientPcb.trans h.client
            asked := h.asked
            line := hline
            sized := Or.inr (by rw [hota]; exact hsize)
            inStep := Or.inl ⟨rfl, by rw [hota]; exact allSize_whole m r'⟩
            held := fun r'' hheld => by
              cases hheld
              exact ⟨rfl, by rw [hota]; exact holds_whole hR hcar m⟩
            waiting := msgrecvmemcpy_waiting (holds_whole hR hcar m) h.waiting
              (hcov r' (by rw [hl]; exact hwhole)) }
      | bad bs =>
        have hlast := msgrecv_last_bad (s := { s.dev with ota := m }) hready hp.2 heq hw hmax
        rw [← hdev] at hlast
        rw [hlast, hset]
        exact
          { client := h.client
            asked := h.asked
            line := hline
            sized := Or.inr hsize
            inStep := Or.inl ⟨rfl, allSize_whole m r⟩
            held := fun _ hheld => by cases hheld
            waiting := h.waiting }

/-- A step that leaves the OTA memory and the network alone. -/
theorem Coherent.frame {file : List UInt8} {s s' : Net} (h : Coherent file s) (hl : s'.line = s.line)
    (hg : s'.got = s.got) (ha : s'.asked = s.asked) (hc : s'.dev.clientPcb = true) (ho : s'.dev.ota = s.dev.ota)
    (hh : ∀ r, s'.held = some r → s.held = some r) (hw : Waiting file s'.dev) : Coherent file s' where
  client := hc
  asked := ha ▸ h.asked
  line := hl ▸ h.line
  sized := by rw [ho, ha, hl]; exact h.sized
  inStep := by
    unfold InStep
    rw [ho, hl, hg]
    exact h.inStep
  held := fun r hr => by rw [ho, hg]; exact h.held r (hh r hr)
  waiting := hw

/-- **A read of a clean step**: served from the window it returns the file's bytes, else it asks for another. -/
theorem read_coherent {file : List UInt8} {s : Net} (h : Coherent file s) (ht : s.dev.task = .idle) (buf len : Nat)
    (sent : Bool) {s' : Net} {o : Out} (hs : netStep file s (.call (.read buf len sent)) = some (s', o))
    (hc : Clean s (.call (.read buf len sent)) s' o) :
    Coherent file s' ∧ ReadsFile file s (.call (.read buf len sent)) s' o := by
  have hr := hs
  simp only [netStep, Ev.isRead, if_true, step, ht, Option.map_some, Option.some.injEq, Prod.mk.injEq] at hs
  obtain ⟨rfl, rfl⟩ := hs
  by_cases hlen : len ≤ netMaxSize
  swap
  · rw [netFRead_long (Nat.lt_of_not_le hlen)]
    refine ⟨h.frame rfl rfl (List.append_nil _) h.client rfl (fun r hr => ?_) (Or.inl ht), fun hret => ?_⟩
    · rwa [if_pos ht] at hr
    · cases hret
  cases hstop : s.dev.netOtaStop with
  | true =>
    rw [netFRead_stopped hlen hstop]
    refine ⟨h.frame rfl rfl (List.append_nil _) h.client rfl (fun r hr => ?_) (Or.inl ht), fun hret => ?_⟩
    · rwa [if_pos (show (asking s.dev buf len).task = .idle from ht)] at hr
    · cases hret
  | false =>
    have hc := hc ⟨hlen, hstop⟩
    split at hc
    · -- a hit
      rename_i hh
      obtain ⟨d, hd, hd'⟩ := netFRead_hit hlen hstop h.client hh
      obtain ⟨k, hk⟩ := readDone_fst d len
      rw [primed_of_hit hh] at hd'
      rw [hd, hk, hd']
      refine ⟨h.frame rfl rfl (List.append_nil _) h.client rfl (fun r hr => by rwa [if_pos rfl] at hr) (Or.inl rfl),
        fun _ => ?_⟩
      rcases hc with rfl | ⟨r, hr, hcov⟩
      · exact fun i hi => absurd hi (Nat.not_lt_zero i)
      · exact delivered_copy (h.held r hr).2 hcov s.dev.caller
    · -- a miss
      rename_i hh
      rw [netFRead_miss hlen hstop h.client hh]
      refine ⟨?_, fun hret => by cases hret⟩
      exact
        { client := h.client
          asked := by
            intro q hq
            cases sent with
            | false => exact h.asked q (by simpa [sendHeader] using hq)
            | true =>
              rw [sendHeader_request, readSize_newWindow] at hq
              simp only [Option.map_some, Option.toList_some, List.mem_append, List.mem_singleton] at hq
              rcases hq with hq | rfl
              · exact h.asked q hq
              · rfl
          line := h.line
          sized := Or.inr (by rw [sendHeader_readSize, if_pos rfl, readSize_newWindow])
          inStep := Or.inl ⟨hc, by rw [sendHeader_allSize, allSize_newWindow]⟩
          held := fun r hr => by cases hr
          waiting := Or.inr ⟨buf, len, _, rfl, rfl, rfl, fun hsem => absurd hsem (Nat.lt_irrefl 0)⟩ }

/-- **The end of a wait**: a read that returns its length was signalled. -/
theorem wake_coherent {file : List UInt8} {s s' : Net} {got sent : Bool} {d : Dev} {o : Out} (h : Coherent file s)
    (hd : d.ota = s.dev.ota ∧ d.clientPcb = s.dev.clientPcb)
    (hwake : (wake d got sent).map (fun r => ({ s with
        dev := r.1
        asked := s.asked ++ (r.2.request.map (fun q => (q.1, q.2.1))).toList
        held := if r.1.task = .idle then s.held else none }, r.2)) = some (s', o))
    (hw : Waiting file d) : Coherent file s' ∧ ∀ buf len err, d.task = .reading buf len err →
      o.ret = some (len : Int) → got = true ∧ d.netOtaStop = false ∧ s'.dev.caller = d.caller := by
  obtain ⟨⟨d', o'⟩, hr, heq⟩ := Option.map_eq_some_iff.1 hwake
  simp only [Prod.mk.injEq] at heq
  obtain ⟨rfl, rfl⟩ := heq
  rcases hw with hi | ⟨buf, len, err, ht, -⟩
  · rw [wake, hi] at hr
    cases hr
  · rw [wake, ht] at hr
    simp only [Option.some.injEq, Prod.mk.injEq] at hr
    obtain ⟨rfl, rfl⟩ := hr
    obtain ⟨k, hk⟩ := readDone_fst d (if got then err else 0)
    refine ⟨?_, fun buf' len' err' ht' hret => ?_⟩
    · rw [hk]
      exact h.frame rfl rfl (List.append_nil _) (hd.2.trans h.client) hd.1 (fun r hr => by rwa [if_pos rfl] at hr)
        (Or.inl rfl)
    · obtain ⟨h0, hstop⟩ := readDone_ret (Option.some.inj hret)
      refine ⟨?_, hstop, by rw [hk]⟩
      cases got with
      | true  => rfl
      | false => exact absurd rfl h0

theorem Packet.Is.bad {file : List UInt8} {bs : List UInt8} {r : Reply} (hb : r.bytes = bs) (hf : FailsSum bs) :
    (Packet.bad bs).Is file r := by
  refine ⟨hb, fun hv => hf ?_⟩
  subst hb
  have hsum : Mem.get32 (Mem.write (fun _ => 0) 0 r.bytes) 0 = r.sum := by
    rw [Reply.bytes, Mem.write_append]
    refine (Mem.get32_write_outside (by simp)).trans ?_
    exact (Mem.get32_set32 _ 0 _).trans (u32_of_lt r.sum_lt)
  rw [hsum]
  exact hv

/-- A packet put on the line behind the others. -/
theorem Coherent.push {file : List UInt8} {s : Net} (h : Coherent file s) {q : Nat × Nat} {rest : List (Nat × Nat)}
    (ha : s.asked = q :: rest) {ps : List Packet}
    (hps : ∀ p ∈ ps, ∃ r, p.Is file r ∧ r.readSize = recvBufMaxSize) :
    Coherent file { s with asked := rest, line := s.line ++ ps } where
  client := h.client
  asked := fun x hx => h.asked x (by rw [ha]; exact List.mem_cons_of_mem _ hx)
  line := fun p hp => (List.mem_append.1 hp).elim (h.line p) (hps p)
  sized := Or.inr (h.sized.resolve_left (fun hnil => by rw [ha] at hnil; cases hnil.1))
  inStep := by
    rcases h.inStep with hin | ⟨h13, m, p, qs, r, hl, hrest⟩
    · exact Or.inl hin
    · exact Or.inr ⟨h13, m, p, qs ++ ps, r, by rw [hl]; rfl, hrest⟩
  held := h.held
  waiting := h.waiting

/-- **A clean step keeps the window and the stream in order, and a read that returns its length in it delivers.** -/
theorem clean_step {file : List UInt8} (s : Net) (e : NetEv) (s' : Net) (o : Out) (h : Coherent file s)
    (hs : netStep file s e = some (s', o)) (hc : Clean s e s' o) : Coherent file s' ∧ ReadsFile file s e s' o := by
  cases e with
  | deliver n => exact ⟨deliver_coherent h hs hc, trivial⟩
  | lose =>
    unfold netStep at hs
    cases ha : s.asked with
    | nil => rw [ha] at hs; cases hs
    | cons q rest =>
      rw [ha] at hs
      simp only [Option.some.injEq, Prod.mk.injEq] at hs
      obtain ⟨rfl, -⟩ := hs
      have := h.push ha (fun p (hp : p ∈ ([] : List Packet)) => by cases hp)
      rw [List.append_nil] at this
      exact ⟨this, trivial⟩
  | answer r =>
    unfold netStep at hs
    cases ha : s.asked with
    | nil => rw [ha] at hs; cases hs
    | cons q rest =>
      rw [ha] at hs
      simp only [Option.ite_none_right_eq_some, Option.some.injEq, Prod.mk.injEq] at hs
      obtain ⟨⟨hv, -, hR, hcar⟩, rfl, -⟩ := hs
      have hq := h.asked q (by rw [ha]; exact List.mem_cons_self ..)
      exact ⟨h.push ha (fun p hp => ⟨r, by rw [List.mem_singleton.1 hp]; exact ⟨rfl, hv, hcar⟩, hR.trans hq⟩), trivial⟩
  | corrupt bs =>
    unfold netStep at hs
    cases ha : s.asked with
    | nil => rw [ha] at hs; cases hs
    | cons q rest =>
      rw [ha] at hs
      simp only [Option.ite_none_right_eq_some, Option.some.injEq, Prod.mk.injEq] at hs
      obtain ⟨⟨-, hf⟩, rfl, -⟩ := hs
      obtain ⟨r, hb, hR⟩ := hc
      exact ⟨h.push ha (fun p hp => ⟨r, by rw [List.mem_singleton.1 hp]; exact .bad hb hf, hR⟩), trivial⟩
  | call e =>
    cases e with
    | read buf len sent =>
      by_cases ht : s.dev.task = .idle
      · exact read_coherent h ht buf len sent hs hc
      · simp only [netStep, Ev.isRead, if_true, step, if_neg ht, Option.map_none] at hs
        cases hs
    | seek type offset =>
      by_cases ht : s.dev.task = .idle
      · simp only [netStep, Ev.isRead, if_true, step, if_pos ht, Option.map_some, Option.some.injEq,
          Prod.mk.injEq] at hs
        obtain ⟨rfl, -⟩ := hs
        obtain ⟨l, hl⟩ := netFSeek_fst s.dev type offset
        rw [hl]
        exact ⟨h.frame rfl rfl (List.append_nil _) h.client rfl (fun r hr => by rwa [if_pos (by exact ht)] at hr)
          (Or.inl ht), trivial⟩
      · simp only [netStep, Ev.isRead, if_true, step, if_neg ht, Option.map_none] at hs
        cases hs
    | resume sent =>
      by_cases hsem : 0 < s.dev.readSem
      · simp only [netStep, Ev.isRead, if_true, step, if_pos hsem] at hs
        have hw : Waiting file { s.dev with readSem := s.dev.readSem - 1 } := by
          rcases h.waiting with hi | ⟨buf, len, err, ht, hb, hl, hd⟩
          · exact Or.inl hi
          · exact Or.inr ⟨buf, len, err, ht, hb, hl, fun _ => hd hsem⟩
        obtain ⟨h', hret⟩ := wake_coherent (d := { s.dev with readSem := s.dev.readSem - 1 }) h ⟨rfl, rfl⟩ hs hw
        refine ⟨h', fun buf len err ht hr => ?_⟩
        obtain ⟨-, hstop, hcaller⟩ := hret buf len err ht hr
        rcases h.waiting with hi | ⟨buf', len', err', ht', -, -, hd⟩
        · rw [ht] at hi; cases hi
        · rw [ht] at ht'
          cases ht'
          rw [hcaller]
          exact (hd hsem).resolve_left (fun hst => by rw [show s.dev.netOtaStop = false from hstop] at hst; cases hst)
      · simp only [netStep, Ev.isRead, if_true, step, if_neg hsem, Option.map_none] at hs
        cases hs
    | timeout sent =>
      by_cases hsem : s.dev.readSem = 0
      · simp only [netStep, Ev.isRead, if_true, step, if_pos hsem] at hs
        exact ⟨(wake_coherent h ⟨rfl, rfl⟩ hs h.waiting).1, trivial⟩
      · simp only [netStep, Ev.isRead, if_true, step, if_neg hsem, Option.map_none] at hs
        cases hs
    | announce len sent => cases hs
    | stop failed sent  => cases hs
    | finish            => cases hs
    | segment p         => cases hs
    | close             => cases hs

theorem coherent_connected (file : List UInt8) (ram caller : Mem) : Coherent file (connected ram caller) where
  client := rfl
  asked := fun q hq => by cases hq
  line := fun p hp => by cases hp
  sized := Or.inl ⟨rfl, rfl⟩
  inStep := by
    refine Or.inl ⟨rfl, ?_⟩
    have hz : ∀ i, i < 4 → (ram.fill 0 room 0) (12 + i) = 0 := fun i hi =>
      Mem.fill_inside (Nat.zero_le _) (by simp only [room, bufMaxSize, sizeofNetLocal]; omega)
    have : allSize (ram.fill 0 room 0) = allSize (fun _ => 0) := Mem.get32_congr hz
    exact this.trans rfl
  held := fun r hr => by cases hr
  waiting := Or.inl rfl

/-- **Clean runs read the file**: along every run of clean steps, a read that returns its length has delivered the
file's bytes. -/
theorem reads_of_clean (file : List UInt8) (ram caller : Mem) (es : List NetEv)
    (hclean : (netMachine file).Along Clean (connected ram caller) es) :
    (netMachine file).Along (ReadsFile file) (connected ram caller) es :=
  Machine.along_of_inv (Coherent file) (fun s e s' o h hs hc => clean_step s e s' o h hs hc) es _
    (coherent_connected file ram caller) hclean

/-- A reply that covers what is asked for may come in two segments. -/
theorem clean_two_segments {file : List UInt8} {s : Net} {r : Reply} (hc : s.dev.clientPcb = true)
    (hall : allSize s.dev.ota = 0) (hl : s.line = [.reply r]) (hg : s.got = 0) (hR : r.readSize = 40916)
    (hcov : r.Covers s.dev.netLocal) :
    (netMachine file).Along Clean s [.deliver 20468, .deliver 20468, .call (.resume true)] := by
  have hlen : r.bytes.length = 40936 := by rw [r.length_bytes, hR]
  have hflat : (s.line.flatMap Packet.bytes).length = 40936 := by rw [hl]; simpa [Packet.bytes] using hlen
  have hone : ∀ p ps, s.line = p :: ps → p.bytes.length = 40936 := fun p ps hp => by
    rw [hl] at hp
    cases hp
    exact hlen
  have hmax : 20468 ≤ recvBufMaxSize := by decide
  have hset : settle s.line (s.got + 20468) = (s.line, 20468) := by
    rw [hl, hg]
    exact settle_within (Nat.lt_of_lt_of_eq (by decide) hlen.symm)
  have hkeep := @msgrecv_sameCall s.dev (((s.line.flatMap Packet.bytes).drop s.got).take 20468) (by
    have hle := List.length_take_le 20468 ((s.line.flatMap Packet.bytes).drop s.got)
    unfold Below
    rw [hall]
    simp only [netLocalAt, sizeofNetLocal]
    omega)
  refine Machine.along_cons (netStep_deliver file hc (by omega) (by rw [List.length_drop]; omega))
    ⟨hmax, fun _ => by omega, fun p ps hp => ?_, fun r' hr => ?_⟩
    (Machine.along_cons (netStep_deliver file (hkeep.clientPcb.trans hc) (by omega) ?_)
      ⟨hmax, fun _ => by omega, fun p ps hp => ?_, fun r' hr _ => ?_⟩ ?_)
  · rw [hone p ps hp]
    omega
  · rw [hl, hg] at hr
    rw [whole, if_neg (by omega)] at hr
    cases hr
  · rw [hset, List.length_drop]
    show 20468 ≤ (s.line.flatMap Packet.bytes).length - 20468
    omega
  · rw [hset] at hp ⊢
    have hsize := hone p ps hp
    simp only [hsize]
    omega
  · rw [hset, hl] at hr
    unfold Reply.Covers
    rw [hkeep.readSize, hkeep.seekAddr]
    rw [whole] at hr
    split at hr
    · cases hr
      exact hcov
    · cases hr
  · exact fun s' o hs => ⟨trivial, trivial⟩

/-- So may the answer to the only request. -/
theorem clean_answered {file : List UInt8} {s : Net} {r : Reply} (hc : s.dev.clientPcb = true)
    (hall : allSize s.dev.ota = 0) (ha : s.asked = [(r.seekAddr, r.readSize)]) (hl : s.line = []) (hg : s.got = 0)
    (hR : r.readSize = 40916) (hv : r.Valid) (hcar : r.Carries file) (hcov : r.Covers s.dev.netLocal) :
    (netMachine file).Along Clean s [.answer r, .deliver 20468, .deliver 20468, .call (.resume true)] :=
  Machine.along_cons (netStep_answer ha hv rfl rfl hcar) trivial
    (clean_two_segments hc hall (by rw [hl]; rfl) hg hR hcov)

/-- The reply that brings the first `R` bytes of a file, with zeros behind the file's end. -/
def firstBytes (file : List UInt8) (R : Nat) (hR : R ≤ recvBufMaxSize) : Reply :=
  { blank R hR with
    sum := u32 (byteSum (Mem.le32 0 ++ (Mem.le32 R ++ (Mem.le32 0 ++ (List.replicate 4 0 ++
      Mem.read (fun a => file.getD a 0) 0 R)))))
    body := Mem.read (fun a => file.getD a 0) 0 R
    sum_lt := u32_lt _
    body_len := Mem.length_read _ _ _ }

theorem firstBytes_valid (file : List UInt8) {R : Nat} (hR : R ≤ recvBufMaxSize) : (firstBytes file R hR).Valid := rfl

theorem firstBytes_carries (file : List UInt8) {R : Nat} (hR : R ≤ recvBufMaxSize) :
    (firstBytes file R hR).Carries file := by
  intro i hi hf
  have hiR : i < (Mem.read (fun a => file.getD a 0) 0 R).length := hi
  have hfile : 0 + i < file.length := hf
  have hbyte : (firstBytes file R hR).body[i] = file.getD (0 + i) 0 := Mem.getElem_read _ 0 R i hiR
  refine hbyte.trans ?_
  rw [List.getD_eq_getElem?_getD, List.getElem?_eq_getElem hfile]
  rfl

/-- A file of ten bytes. -/
def tenBytes : List UInt8 := [3, 1, 4, 1, 5, 9, 2, 6, 5, 3]

/-- Its bytes, asked for once and answered in two segments. -/
def oneRead : List NetEv :=
  [.call (.read 0 10 true), .answer (firstBytes tenBytes 40916 (by decide)), .deliver 20468, .deliver 20468, .call (.resume true)]

theorem reads_oneRead :
    (netMachine tenBytes).Along (ReadsFile tenBytes) (connected (fun _ => 0) (fun _ => 0)) oneRead := by
  refine reads_of_clean tenBytes _ _ oneRead ?_
  refine Machine.along_cons rfl (fun _ => ?_) (clean_answered rfl ?_ ?_ rfl rfl rfl (firstBytes_valid tenBytes _)
    (firstBytes_carries tenBytes _) ?_)
  · rw [if_neg (by decide)]
    rfl
  · decide
  · decide
  · exact Or.inr ⟨Nat.le_refl 0, by decide⟩

/-- A read that times out, and a second one from the same window: it returns what the buffer held before. -/
def retry : List NetEv := [.call (.read 0 1 true), .lose, .call (.timeout true), .call (.read 0 1 true)]

theorem retry_reads_stale :
    ¬ (netMachine [1]).Along (ReadsFile [1]) (connected (fun _ => 0) (fun _ => 0)) retry := by
  intro h
  obtain ⟨-, h1⟩ := h _ _ rfl
  obtain ⟨-, h2⟩ := h1 _ _ rfl
  obtain ⟨-, h3⟩ := h2 _ _ rfl
  obtain ⟨h4, -⟩ := h3 _ _ rfl
  exact absurd (h4 rfl 0 (by decide) (by decide)) (by decide)

end Ap
end OtaLoader
