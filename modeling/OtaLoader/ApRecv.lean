import Mathlib.Algebra.GroupWithZero.Nat
import OtaLoader.Ap
/-!
# ApRecv — reassembling a reply from its segments

`msgrecv` keeps its receive count in `net_ota->all_size`, bytes 12 to 15 of the header it is receiving.  The state after
`k` bytes of a reply is computed from those bytes alone (`atOffset`); a segment extends it unless the segment that brings
byte 12 starts behind byte 0.  `msgrecv_reassembles_iff` says which ways of cutting a reply work for every reply.
-/
namespace OtaLoader
namespace Ap

/-! ## Replies -/

def byteSum (bs : List UInt8) : Nat := (bs.map UInt8.toNat).sum

/-- A packet of the client in the form of a reply to a request for `readSize` bytes: the header with `all_size = 0`,
then that many bytes. -/
structure Reply where
  sum         : Nat
  seekAddr    : Nat
  readSize    : Nat
  flags       : List UInt8
  body        : List UInt8
  sum_lt      : sum < 4294967296
  seekAddr_lt : seekAddr < 4294967296
  readSize_le : readSize ≤ recvBufMaxSize
  flags_len   : flags.length = 4
  body_len    : body.length = readSize

/-- The bytes the checksum covers. -/
def Reply.summed (r : Reply) : List UInt8 :=
  Mem.le32 r.seekAddr ++ (Mem.le32 r.readSize ++ (Mem.le32 0 ++ (r.flags ++ r.body)))

def Reply.bytes (r : Reply) : List UInt8 := Mem.le32 r.sum ++ r.summed

def Reply.Valid (r : Reply) : Prop := u32 (byteSum r.summed) = r.sum

theorem Reply.length_summed (r : Reply) : r.summed.length = 16 + r.readSize := by
  simp only [Reply.summed, List.length_append, Mem.length_le32, r.flags_len, r.body_len]; omega

theorem Reply.length_bytes (r : Reply) : r.bytes.length = 20 + r.readSize := by
  rw [Reply.bytes, List.length_append, Mem.length_le32, r.length_summed]; omega

/-- The reply laid at the start of a memory, up to its byte `k`. -/
def Reply.upTo (r : Reply) (m : Mem) (k : Nat) : Mem := m.write 0 (r.bytes.take k)

theorem Reply.upTo_apply (r : Reply) (m : Mem) {k x : Nat} (hk : k ≤ 20 + r.readSize) :
    r.upTo m k x = if h : x < k then getElem r.bytes x (by rw [r.length_bytes]; omega) else m x := by
  unfold Reply.upTo
  have hlen : (r.bytes.take k).length = k := by rw [List.length_take, r.length_bytes]; omega
  split
  · rename_i h
    rw [Mem.write_inside' (Nat.zero_le x) (by omega)]
    simp
  · exact Mem.write_above _ (by omega)

theorem Reply.bytes_readSize (r : Reply) {i : Nat} (hi : i < 4) :
    getElem r.bytes (8 + i) (by rw [r.length_bytes]; omega) = getElem (Mem.le32 r.readSize) i (by simpa using hi) := by
  simp only [Reply.bytes, Reply.summed]
  rw [List.getElem_append_right (by simp; omega), List.getElem_append_right (by simp; omega),
    List.getElem_append_left (by simp; omega)]
  congr 1
  simp only [Mem.length_le32]; omega

theorem Reply.bytes_allSize (r : Reply) {i : Nat} (hi : i < 4) :
    getElem r.bytes (12 + i) (by rw [r.length_bytes]; omega) = 0 := by
  simp only [Reply.bytes, Reply.summed]
  rw [List.getElem_append_right (by simp; omega), List.getElem_append_right (by simp; omega),
    List.getElem_append_right (by simp; omega), List.getElem_append_left (by simp; omega)]
  have : ∀ j (h : j < (Mem.le32 0).length), (Mem.le32 0)[j] = 0 := by decide
  exact this _ _

/-! ## A request outstanding -/

/-- The header in the buffer has the size of the coming reply, and `a` as `all_size`.  A request for no bytes leaves the
size of the window held there, as `msgsenddata` puts it back once the request is sent. -/
structure Ready (m : Mem) (r : Reply) (a : Nat) : Prop where
  readSize : Ap.readSize m = r.readSize ∨ r.readSize = 0 ∧ Ap.readSize m ≤ recvBufMaxSize
  allSize  : Ap.allSize m = a

/-- The device has sent the request that the reply answers, and received nothing since. -/
structure Sent (s : Dev) (r : Reply) (a : Nat) : Prop extends Ready s.ota r a where
  seekAddr : Ap.seekAddr s.ota = r.seekAddr

/-- The OTA memory after `k` bytes of the reply, counted without loss. -/
def otaAt (m : Mem) (r : Reply) (k : Nat) : Mem := setAllSize (r.upTo m k) k

def atOffset (s : Dev) (r : Reply) (k : Nat) : Dev := { s with ota := otaAt s.ota r k }

theorem atOffset_zero {s : Dev} {r : Reply} (h : Ready s.ota r 0) : atOffset s r 0 = s := by
  have : otaAt s.ota r 0 = s.ota := by
    unfold otaAt Reply.upTo
    rw [List.take_zero, Mem.write_nil, ← h.allSize]
    exact Mem.set32_get32_self s.ota 12
  unfold atOffset
  rw [this]

/-- While the reply comes in, the announced size is between the requested one and the largest. -/
theorem readSize_upTo_bounds {s : Dev} {r : Reply} {a : Nat} (h : Ready s.ota r a) {k : Nat} (hk : k ≤ 20 + r.readSize) :
    r.readSize ≤ readSize (r.upTo s.ota k) ∧ readSize (r.upTo s.ota k) ≤ recvBufMaxSize := by
  rcases h.readSize with heq | ⟨h0, hle⟩
  · have : readSize (r.upTo s.ota k) = r.readSize := by
      rw [← heq]
      refine Mem.get32_congr (fun i hi => ?_)
      rw [r.upTo_apply s.ota hk]
      split
      · rw [r.bytes_readSize hi, ← Mem.set32_byte s.ota 8 r.readSize hi, ← heq]
        exact congrFun (Mem.set32_get32_self s.ota 8) _
      · rfl
    rw [this]
    exact ⟨Nat.le_refl _, r.readSize_le⟩
  · refine ⟨by omega, Nat.le_trans (Mem.get32_mono (fun i hi => ?_)) hle⟩
    rw [r.upTo_apply s.ota hk]
    split
    · have hz : ∀ j (hj : j < 4), getElem (Mem.le32 0) j (by simpa using hj) = 0 := by decide
      rw [r.bytes_readSize hi]
      simp only [h0, hz i hi]
      exact Nat.zero_le _
    · exact Nat.le_refl _

/-- Once its bytes are in, the announced size is the requested one. -/
theorem readSize_upTo (s : Dev) (r : Reply) {k : Nat} (h12 : 12 ≤ k) (hk : k ≤ 20 + r.readSize) :
    readSize (r.upTo s.ota k) = r.readSize := by
  have hR := r.readSize_le
  have : readSize (r.upTo s.ota k) = readSize (setReadSize s.ota r.readSize) := by
    refine Mem.get32_congr (fun i hi => ?_)
    rw [r.upTo_apply s.ota hk, dif_pos (by omega), r.bytes_readSize hi]
    exact (Mem.set32_byte s.ota 8 r.readSize hi).symm
  rw [this, readSize_setReadSize]
  simp only [recvBufMaxSize, bufMaxSize, sizeofNetLocal, sizeofNetOta] at hR
  exact u32_of_lt (by omega)

theorem allSize_otaAt (m : Mem) (r : Reply) {k : Nat} (hk : k ≤ 20 + r.readSize) : allSize (otaAt m r k) = k := by
  unfold otaAt
  rw [allSize_setAllSize]
  have := r.readSize_le
  simp only [recvBufMaxSize, bufMaxSize, sizeofNetLocal, sizeofNetOta] at this
  exact u32_of_lt (by omega)

/-! ## One segment -/

/-- The segment that starts behind byte `k` and brings `n` bytes leaves the receive count alone: it brings all of the
bytes of `all_size` that are still to come, or none. -/
def Whole (k n : Nat) : Prop := (k = 0 ∧ 13 ≤ n) ∨ k + n ≤ 12 ∨ 13 ≤ k

/-- The `n` bytes of the reply behind byte `k`. -/
def Reply.piece (r : Reply) (k n : Nat) : List UInt8 := (r.bytes.drop k).take n

theorem Reply.length_piece (r : Reply) {k n : Nat} (h : k + n ≤ 20 + r.readSize) : (r.piece k n).length = n := by
  rw [Reply.piece, List.length_take, List.length_drop, r.length_bytes]; omega

theorem Reply.upTo_piece (r : Reply) (m : Mem) {k n : Nat} (h : k + n ≤ 20 + r.readSize) :
    (r.upTo m k).write k (r.piece k n) = r.upTo m (k + n) := by
  have hlen : (r.bytes.take k).length = k := by rw [List.length_take, r.length_bytes]; omega
  unfold Reply.upTo Reply.piece
  rw [List.take_add, Mem.write_append, hlen, Nat.zero_add]

/-- A segment laid behind byte `k` whose bytes at the place of `all_size` are 0 leaves a count of `k`. -/
theorem allSize_write {m : Mem} {k : Nat} {p : List UInt8} (h : allSize m = k) (hw : Whole k p.length)
    (hz : ∀ i (hi : i < p.length), 12 ≤ k + i → k + i < 16 → p[i] = 0) : allSize (m.write k p) = k := by
  have hm : m.set32 12 k = m := by
    rw [← h]
    exact Mem.set32_get32_self m 12
  have hsame : allSize (m.write k p) = allSize m := by
    refine Mem.get32_congr (fun i hi => ?_)
    by_cases hin : k ≤ 12 + i ∧ 12 + i < k + p.length
    · -- the segment's own byte, which is 0: so is the count's, which is below 16 when its low byte is not rewritten
      rw [Mem.write_inside' hin.1 (by omega), hz _ _ (by omega) (by omega)]
      have hk0 : ∀ k < 16, ∀ i (hi : i < 4), k = 0 ∨ 1 ≤ i → getElem (Mem.le32 k) i (by simpa using hi) = 0 := by decide
      have hk := Mem.set32_byte m 12 k hi
      rw [hm, hk0 k (by omega) i hi (by unfold Whole at hw; omega)] at hk
      exact hk.symm
    · rw [Mem.write_outside (by omega)]
  rw [hsame, h]

/-- A reply ends far below `net_local`. -/
theorem below_piece (s : Dev) (r : Reply) {k n : Nat} (hkn : k + n ≤ 20 + r.readSize) :
    Below (atOffset s r k) (r.piece k n) := by
  have hR := r.readSize_le
  simp only [recvBufMaxSize, bufMaxSize, sizeofNetLocal, sizeofNetOta] at hR
  unfold Below
  rw [r.length_piece hkn, atOffset, allSize_otaAt s.ota r (by omega)]
  simp only [netLocalAt, sizeofNetLocal]
  omega

theorem laidOver_piece (s : Dev) (r : Reply) {k n : Nat} (hkn : k + n ≤ 20 + r.readSize)
    (hw : Whole k n) : laidOver (atOffset s r k) (r.piece k n) = otaAt s.ota r (k + n) := by
  have hR := r.readSize_le
  simp only [recvBufMaxSize, bufMaxSize, sizeofNetLocal, sizeofNetOta] at hR
  have hcount : allSize ((otaAt s.ota r k).write k (r.piece k n)) = k := by
    refine allSize_write (allSize_otaAt s.ota r (by omega)) (by rwa [r.length_piece hkn]) (fun i hi h12 h16 => ?_)
    simp only [Reply.piece, List.getElem_take, List.getElem_drop]
    have hbyte := r.bytes_allSize (i := k + i - 12) (by omega)
    rw [← hbyte]
    congr 1
    omega
  rw [laidOver_below (below_piece s r hkn)]
  simp only [atOffset]
  rw [allSize_otaAt s.ota r (by omega), hcount, r.length_piece hkn, u32_of_lt (by omega)]
  unfold otaAt setAllSize
  rw [Mem.set32_write_set32, r.upTo_piece s.ota hkn]

theorem Reply.upTo_full (r : Reply) (m : Mem) : r.upTo m (20 + r.readSize) = m.write 0 r.bytes := by
  rw [Reply.upTo, List.take_of_length_le (Nat.le_of_eq r.length_bytes)]

theorem allSize_whole (m : Mem) (r : Reply) : allSize (m.write 0 r.bytes) = 0 := by
  have : allSize (m.write 0 r.bytes) = allSize (setAllSize m 0) := by
    refine Mem.get32_congr (fun i hi => ?_)
    rw [← r.upTo_full, r.upTo_apply m (Nat.le_refl _), dif_pos (by omega), r.bytes_allSize hi]
    have hz : ∀ j (hj : j < 4), getElem (Mem.le32 0) j (by simpa using hj) = 0 := by decide
    exact ((Mem.set32_byte m 12 0 hi).trans (hz i hi)).symm
  rw [this, allSize_setAllSize, u32_of_lt (by omega)]

/-- The whole reply in the buffer, with the count cleared as its own bytes clear it. -/
theorem setAllSize_otaAt (m : Mem) (r : Reply) :
    setAllSize (otaAt m r (20 + r.readSize)) 0 = m.write 0 r.bytes := by
  have hfull := r.upTo_full m
  have hover := Mem.set32_write_set32 (m.write 0 r.bytes) 12 (20 + r.readSize) 0 0 []
  rw [Mem.write_nil, Mem.write_nil] at hover
  unfold otaAt setAllSize
  rw [hfull, hover, ← allSize_whole m r]
  exact Mem.set32_get32_self _ 12

theorem sumFrom_eq (m : Mem) (buf : Nat) : ∀ n, sumFrom m buf n = u32 (byteSum (m.read buf n))
  | 0     => rfl
  | n + 1 => by
    have : m.read buf (n + 1) = m.read buf n ++ [m (buf + n)] := Mem.read_add m buf n 1
    rw [sumFrom, sumFrom_eq m buf n, this]
    simp only [byteSum, u32, List.map_append, List.sum_append, List.map_cons, List.map_nil, List.sum_cons, List.sum_nil]
    omega

/-- `sumcheck` on the whole reply compares its sum with that of its bytes. -/
theorem sumcheck_whole (m : Mem) (r : Reply) :
    sumcheck (m.write 0 r.bytes) 4 (u32 (r.readSize + 16)) (sumCheck (m.write 0 r.bytes)) = true ↔ r.Valid := by
  have hR := r.readSize_le
  simp only [recvBufMaxSize, bufMaxSize, sizeofNetLocal, sizeofNetOta] at hR
  have hsplit : m.write 0 r.bytes = (setSumCheck m r.sum).write 4 r.summed := by
    rw [Reply.bytes, Mem.write_append, Mem.length_le32]
    rfl
  have hread : (m.write 0 r.bytes).read 4 (16 + r.readSize) = r.summed := by
    rw [hsplit, ← r.length_summed]
    exact Mem.read_write_self _ 4 r.summed
  have hsum : sumCheck (m.write 0 r.bytes) = r.sum := by
    rw [hsplit]
    exact ((Mem.get32_write_outside (by simp)).trans (m.get32_set32 0 _)).trans (u32_of_lt r.sum_lt)
  have hrounds : rounds (u32 (r.readSize + 16)) = 16 + r.readSize := by
    rw [u32_of_lt (by omega), rounds, if_pos (by omega)]; omega
  rw [sumcheck, hrounds, sumFrom_eq, hread, hsum]
  exact beq_iff_eq

/-- The state once the reply is accepted: its bytes stand in the buffer and `msgrecvmemcpy` has run once. -/
def accepted (s : Dev) (r : Reply) : Dev := (msgrecvmemcpy { s with ota := s.ota.write 0 r.bytes }).1

theorem completes_piece {s : Dev} {r : Reply} {a : Nat} (h : Ready s.ota r a) {k n : Nat} (hkn : k + n ≤ 20 + r.readSize)
    (hw : Whole k n) (hn : n ≤ recvBufMaxSize) :
    Completes (atOffset s r k) (r.piece k n) ↔ k + n = 20 + r.readSize := by
  obtain ⟨hlo, hhi⟩ := readSize_upTo_bounds h hkn
  have hall := allSize_otaAt s.ota r hkn
  have hR := r.readSize_le
  have hrs : readSize (otaAt s.ota r (k + n)) = readSize (r.upTo s.ota (k + n)) := readSize_setAllSize _ _
  unfold Completes
  rw [laidOver_piece s r hkn hw, r.length_piece hkn, hall, hrs]
  simp only [recvBufMaxSize, bufMaxSize, sizeofNetLocal, sizeofNetOta] at *
  rw [u32_of_lt (by omega)]
  constructor
  · rintro ⟨-, hle⟩
    omega
  · intro heq
    rw [readSize_upTo s r (by omega) hkn]
    omega

/-- **A segment that leaves the count alone extends the reply by its bytes.** -/
theorem msgrecv_piece {s : Dev} {r : Reply} {a : Nat} (h : Ready s.ota r a) {k n : Nat} (hkn : k + n < 20 + r.readSize)
    (hw : Whole k n) (hn : n ≤ recvBufMaxSize) :
    (msgrecv (atOffset s r k) (r.piece k n)).1 = atOffset s r (k + n) := by
  have hnc := (completes_piece h (Nat.le_of_lt hkn) hw hn).not.2 (Nat.ne_of_lt hkn)
  rw [msgrecv_growing (by rw [r.length_piece (Nat.le_of_lt hkn)]; exact hn) hnc,
    laid_with (below_piece s r (Nat.le_of_lt hkn)), laidOver_piece s r (Nat.le_of_lt hkn) hw]
  rfl

/-- What the segment that brings the last byte completes. -/
theorem laidOver_last (s : Dev) (r : Reply) {k n : Nat} (hkn : k + n = 20 + r.readSize) (hw : Whole k n) :
    setAllSize (laidOver (atOffset s r k) (r.piece k n)) 0 = s.ota.write 0 r.bytes ∧
      (SumOk (atOffset s r k) (r.piece k n) ↔ r.Valid) := by
  have hlaid : setAllSize (laidOver (atOffset s r k) (r.piece k n)) 0 = s.ota.write 0 r.bytes := by
    rw [laidOver_piece s r (Nat.le_of_eq hkn) hw, hkn, setAllSize_otaAt]
  have hread : readSize (laidOver (atOffset s r k) (r.piece k n)) = r.readSize := by
    rw [laidOver_piece s r (Nat.le_of_eq hkn) hw, hkn, otaAt, readSize_setAllSize,
      readSize_upTo s r (by omega) (Nat.le_refl _)]
  have hcheck : sumCheck (laidOver (atOffset s r k) (r.piece k n)) = sumCheck (s.ota.write 0 r.bytes) := by
    rw [← hlaid, sumCheck_setAllSize]
  refine ⟨hlaid, ?_⟩
  unfold SumOk
  rw [hlaid, hread, hcheck, sumcheck_whole]

/-- **The segment that brings the last byte, and leaves the count alone, is the one that accepts the reply.** -/
theorem msgrecv_last {s : Dev} {r : Reply} {a : Nat} (h : Ready s.ota r a) (hv : r.Valid) {k n : Nat}
    (hkn : k + n = 20 + r.readSize) (hw : Whole k n) (hn : n ≤ recvBufMaxSize) :
    (msgrecv (atOffset s r k) (r.piece k n)).1 = accepted s r := by
  obtain ⟨hlaid, hs⟩ := laidOver_last s r hkn hw
  rw [msgrecv_accept ((completes_piece h (Nat.le_of_eq hkn) hw hn).2 hkn) (hs.2 hv),
    laid_with (below_piece s r (Nat.le_of_eq hkn))]
  simp only [hlaid]
  rfl

/-- A reply that fails its checksum is laid in the buffer all the same, and not handed out. -/
theorem msgrecv_last_bad {s : Dev} {r : Reply} {a : Nat} (h : Ready s.ota r a) (hv : ¬ r.Valid) {k n : Nat}
    (hkn : k + n = 20 + r.readSize) (hw : Whole k n) (hn : n ≤ recvBufMaxSize) :
    (msgrecv (atOffset s r k) (r.piece k n)).1 = { s with ota := s.ota.write 0 r.bytes } := by
  obtain ⟨hlaid, hs⟩ := laidOver_last s r hkn hw
  rw [msgrecv_bad ((completes_piece h (Nat.le_of_eq hkn) hw hn).2 hkn) (hs.not.2 hv),
    laid_with (below_piece s r (Nat.le_of_eq hkn))]
  simp only [hlaid]
  rfl

/-! ## All segments -/

def deliver (s : Dev) (segs : List (List UInt8)) : Dev := segs.foldl (fun s p => (msgrecv s p).1) s

/-- The segments are taken for the reply: nothing is signalled before the last one, which leaves what the whole reply
laid in the buffer and handed out once leaves. -/
structure ReassemblesFrom (s : Dev) (r : Reply) (now : Dev) (segs : List (List UInt8)) : Prop where
  early : ∀ j, j < segs.length → (deliver now (segs.take j)).readSem = s.readSem
  last  : deliver now segs = accepted s r

def Reassembles (s : Dev) (r : Reply) (segs : List (List UInt8)) : Prop := ReassemblesFrom s r s segs

/-- **The rest of a reply, from a place the count survives**: the last segment, and no other, accepts it. -/
theorem deliver_rest {s : Dev} {r : Reply} {a : Nat} (h : Ready s.ota r a) (hv : r.Valid) :
    ∀ (n : Nat) (ns : List Nat) (k : Nat), (∀ l ∈ n :: ns, 0 < l ∧ l ≤ recvBufMaxSize) → k + (n :: ns).sum = 20 + r.readSize →
      13 ≤ k ∨ (k = 0 ∧ 13 ≤ n) → ReassemblesFrom s r (atOffset s r k) (splitLens (n :: ns) (r.bytes.drop k))
  | n, [], k, hl, hsum, hk => by
    rw [List.sum_cons, List.sum_nil] at hsum
    refine ⟨fun j hj => ?_, msgrecv_last h hv (by omega) (by unfold Whole; omega) (hl n (List.mem_cons_self ..)).2⟩
    rw [show j = 0 by simpa [splitLens] using hj]
    rfl
  | n, n' :: ns, k, hl, hsum, hk => by
    rw [List.sum_cons, List.sum_cons] at hsum
    have hn' := (hl n' (by simp)).1
    have hstep := msgrecv_piece h (k := k) (n := n) (by omega) (by unfold Whole; omega) (hl n (by simp)).2
    obtain ⟨hearly, hlast⟩ := deliver_rest h hv n' ns (k + n) (fun l hm => hl l (List.mem_cons_of_mem _ hm))
      (by rw [List.sum_cons]; omega) (by omega)
    rw [← List.drop_drop, ← hstep] at hearly hlast
    refine ⟨fun j hj => ?_, hlast⟩
    cases j with
    | zero => rfl
    | succ j => exact hearly j (by simpa [splitLens] using hj)

/-! ## Losing count -/

/-- What a segment leaves in the buffer, whether it is dropped, part of a reply or the last of one. -/
theorem msgrecv_ota (s : Dev) (p : List UInt8) :
    (recvBufMaxSize < p.length ∧ (msgrecv s p).1.ota = s.ota) ∨
      (¬ Completes s p ∧ (msgrecv s p).1.ota = laidOver s p) ∨
      (Completes s p ∧ (msgrecv s p).1.ota = setAllSize (laidOver s p) 0) := by
  by_cases hlen : p.length ≤ recvBufMaxSize
  · by_cases hc : Completes s p
    · refine Or.inr (Or.inr ⟨hc, ?_⟩)
      by_cases hs : SumOk s p
      · rw [msgrecv_accept hc hs, msgrecvmemcpy_ota]
      · rw [msgrecv_bad hc hs]
    · exact Or.inr (Or.inl ⟨hc, by rw [msgrecv_growing hlen hc]⟩)
  · exact Or.inl ⟨Nat.lt_of_not_le hlen, by rw [msgrecv_long (Nat.lt_of_not_le hlen)]⟩

/-- `net_local` lies above everything else. -/
theorem NetLocal.store_below (l : NetLocal) (m : Mem) {x : Nat} (hx : x < netLocalAt) : l.store m x = m x := by
  unfold NetLocal.store
  rw [Mem.set32_outside (by omega), Mem.write_below _ (by omega), Mem.set32_outside (by omega),
    Mem.set32_outside (by omega), Mem.set32_outside (by omega)]

/-- Laying zeros lowers the bytes of the OTA memory. -/
theorem laid_zeros_le {s : Dev} {p : List UInt8} (hz : ∀ b ∈ p, b = 0) {x : Nat} (hx : x < netLocalAt) :
    ((laid s p).ota x).toNat ≤ (s.ota x).toNat := by
  unfold laid lay
  split
  · exact Mem.write_zeros_le hz
  · rw [← s.netLocal.store_below s.ota hx]
    exact Mem.writeAround_zeros_le hz

theorem allSize_laid_le {s : Dev} {p : List UInt8} (hz : ∀ b ∈ p, b = 0) : allSize (laid s p).ota ≤ allSize s.ota :=
  Mem.get32_mono (fun i hi => laid_zeros_le hz (by simp only [netLocalAt, sizeofNetLocal]; omega))

/-- A segment of zeros advances the count by at most its length. -/
theorem allSize_laidOver_le {s : Dev} {p : List UInt8} (hz : ∀ b ∈ p, b = 0) :
    allSize (laidOver s p) ≤ allSize s.ota + p.length := by
  have hle := allSize_laid_le (s := s) hz
  unfold laidOver
  rw [allSize_setAllSize]
  simp only [u32]
  omega

theorem laidOver_apply {s : Dev} {p : List UInt8} {x : Nat} (hx : x < 12 ∨ 16 ≤ x) :
    laidOver s p x = (laid s p).ota x := Mem.set32_outside hx

/-- Nothing in front of the place where a segment is laid changes, if it does not go around. -/
theorem laid_front {s : Dev} {p : List UInt8} (h : allSize s.ota + p.length ≤ 4294967296) {x : Nat}
    (hx : x < allSize s.ota) (hx' : x < netLocalAt) : (laid s p).ota x = s.ota x := by
  unfold laid lay
  split
  · exact Mem.write_below _ hx
  · rw [← s.netLocal.store_below s.ota hx']
    exact Mem.writeAround_below h hx

/-- Zeros do not raise the pointer to the caller's buffer. -/
theorem laid_buf_le {s : Dev} {p : List UInt8} (hz : ∀ b ∈ p, b = 0) : (laid s p).netLocal.buf ≤ s.netLocal.buf := by
  unfold laid lay
  split
  · exact Nat.le_refl _
  · refine Nat.le_trans (Mem.get32_mono (fun _ _ => Mem.writeAround_zeros_le hz)) ?_
    unfold NetLocal.store
    rw [Mem.get32_set32]
    exact Nat.mod_le _ _

/-- Zeros that go around take its highest byte. -/
theorem laid_buf_lt {s : Dev} {p : List UInt8} (hz : ∀ b ∈ p, b = 0) (h : 4294967296 < allSize s.ota + p.length)
    (h' : p.length < 4294967296) : (laid s p).netLocal.buf < 16777216 := by
  unfold laid lay
  rw [if_neg (by simp only [netLocalAt, sizeofNetLocal]; omega)]
  have hlast := @Mem.writeAround_last (s.netLocal.store s.ota) (allSize s.ota) p (s.ota.get32_lt 12) h h'
  rw [hz _ (List.getElem_mem _)] at hlast
  simp only [NetLocal.load, Mem.get32]
  generalize (s.netLocal.store s.ota).writeAround (allSize s.ota) p = m at hlast
  have h0 := (m (netLocalAt + 20)).toNat_lt
  have h1 := (m (netLocalAt + 20 + 1)).toNat_lt
  have h2 := (m (netLocalAt + 20 + 2)).toNat_lt
  have h3 : (m (netLocalAt + 20 + 3)).toNat = 0 := congrArg UInt8.toNat hlast
  omega

/-- A reply to a request at address 0 for bytes that are all 0. -/
def blank (R : Nat) (hR : R ≤ recvBufMaxSize) : Reply where
  sum := u32 (byteSum (Mem.le32 0 ++ (Mem.le32 R ++ (Mem.le32 0 ++ (List.replicate 4 0 ++ List.replicate R 0)))))
  seekAddr := 0
  readSize := R
  flags := List.replicate 4 0
  body := List.replicate R 0
  sum_lt := u32_lt _
  seekAddr_lt := by decide
  readSize_le := hR
  flags_len := rfl
  body_len := List.length_replicate

theorem blank_valid {R : Nat} (hR : R ≤ recvBufMaxSize) : (blank R hR).Valid := rfl

theorem blank_piece {R : Nat} (hR : R ≤ recvBufMaxSize) {k n : Nat} (hk : 12 ≤ k) : ∀ b ∈ (blank R hR).piece k n, b = 0 := by
  intro b hb
  have hdrop : (blank R hR).bytes.drop 12 = Mem.le32 0 ++ (List.replicate 4 0 ++ List.replicate R 0) := rfl
  have hmem : b ∈ (blank R hR).bytes.drop 12 := by
    have := List.mem_of_mem_take hb
    rw [show k = 12 + (k - 12) by omega, ← List.drop_drop] at this
    exact List.mem_of_mem_drop this
  have hzero : ∀ b ∈ Mem.le32 0, b = 0 := by decide
  rw [hdrop, List.mem_append, List.mem_append, List.mem_replicate, List.mem_replicate] at hmem
  rcases hmem with h | h | h
  · exact hzero b h
  · exact h.2
  · exact h.2

theorem blank_byte {R : Nat} (hR : R ≤ recvBufMaxSize) (m : Mem) {i : Nat} (h12 : 12 ≤ i) (hi : i < 20 + R) :
    m.write 0 (blank R hR).bytes i = 0 := by
  have hlen : i < (blank R hR).bytes.length := Nat.lt_of_lt_of_eq hi (blank R hR).length_bytes.symm
  rw [Mem.write_inside' (Nat.zero_le i) hlen]
  refine blank_piece hR (k := i) (n := 1) h12 _ ?_
  rw [Reply.piece, List.drop_eq_getElem_cons hlen, List.take_succ_cons]
  exact List.mem_cons_self ..

/-- Part of the reply was not counted, and nothing has yet been laid at the place of its last byte. -/
structure Behind (R c : Nat) (d : Dev) : Prop where
  past12 : 12 ≤ c
  count  : allSize d.ota + 1 ≤ c
  mark   : d.ota (19 + R) = 1

theorem behind_step {R : Nat} (hR : R ≤ recvBufMaxSize) {c n : Nat} {d : Dev} (h : Behind R c d)
    (hcn : c + n ≤ 20 + R) : Behind R (c + n) (msgrecv d ((blank R hR).piece c n)).1 := by
  have hz := blank_piece hR (n := n) h.past12
  have hlen : ((blank R hR).piece c n).length = n := (blank R hR).length_piece hcn
  have hle := allSize_laidOver_le (s := d) hz
  have hbelow : Below d ((blank R hR).piece c n) := by
    have := h.count
    unfold Below
    simp only [recvBufMaxSize, bufMaxSize, netLocalAt, sizeofNetLocal, sizeofNetOta] at hR ⊢
    omega
  have hmark : laidOver d ((blank R hR).piece c n) (19 + R) = 1 := by
    have := h.count
    rw [laidOver_apply (by omega), laid_below hbelow]
    exact (Mem.write_above _ (by omega)).trans h.mark
  have hp := h.past12
  have hc := h.count
  rcases msgrecv_ota d ((blank R hR).piece c n) with ⟨-, ho⟩ | ⟨-, ho⟩ | ⟨-, ho⟩
  · exact ⟨by omega, by rw [ho]; omega, by rw [ho, h.mark]⟩
  · exact ⟨by omega, by rw [ho]; omega, by rw [ho, hmark]⟩
  · refine ⟨by omega, ?_, ?_⟩
    · rw [ho, allSize_setAllSize, u32_of_lt (by omega)]; omega
    · rw [ho]
      exact (Mem.set32_outside (by omega)).trans hmark

theorem behind_rest {R : Nat} (hR : R ≤ recvBufMaxSize) : ∀ (lens : List Nat) (c : Nat) (d : Dev),
    Behind R c d → c + lens.sum = 20 + R →
      Behind R (20 + R) (deliver d (splitLens lens ((blank R hR).bytes.drop c)))
  | [], c, d, h, hsum => by
    rw [List.sum_nil, Nat.add_zero] at hsum
    rw [← hsum]
    exact h
  | n :: ns, c, d, h, hsum => by
    rw [List.sum_cons] at hsum
    have hrest := behind_rest hR ns (c + n) _ (behind_step hR h (n := n) (by omega)) (by omega)
    rw [← List.drop_drop] at hrest
    exact hrest

/-- The bytes before the last one leave its place alone. -/
theorem otaAt_mark {s : Dev} {r : Reply} (hm : s.ota (19 + r.readSize) = 1) {k v : Nat} (hk : k ≤ 19 + r.readSize) :
    setAllSize (r.upTo s.ota k) v (19 + r.readSize) = 1 := by
  refine (Mem.set32_outside (by omega)).trans ?_
  rw [r.upTo_apply s.ota (by omega), dif_neg (by omega), hm]

/-- The segment that brings byte 12 from behind byte 0 takes the count back to its own length. -/
theorem msgrecv_crossing (s : Dev) (r : Reply) {k n : Nat} (hkn : k + n ≤ 20 + r.readSize)
    (hk0 : 0 < k) (hk12 : k ≤ 12) (h13 : 13 ≤ k + n) (hn : n ≤ recvBufMaxSize) :
    (msgrecv (atOffset s r k) (r.piece k n)).1.ota = setAllSize (r.upTo s.ota (k + n)) n := by
  have hR := r.readSize_le
  have hcount : allSize ((otaAt s.ota r k).write k (r.piece k n)) = 0 := by
    have : allSize ((otaAt s.ota r k).write k (r.piece k n)) = allSize (setAllSize s.ota 0) := by
      refine Mem.get32_congr (fun i hi => ?_)
      have hz : ∀ j (hj : j < 4), getElem (Mem.le32 0) j (by simpa using hj) = 0 := by decide
      rw [show setAllSize s.ota 0 (12 + i) = 0 from (Mem.set32_byte s.ota 12 0 hi).trans (hz i hi)]
      by_cases hin : 12 + i < k + n
      · rw [Mem.write_inside' (by omega) (by rw [r.length_piece hkn]; omega), ← r.bytes_allSize hi]
        simp only [Reply.piece, List.getElem_take, List.getElem_drop]
        congr 1
        omega
      · have hk0 : ∀ k < 16, ∀ i (hi : i < 4), 1 ≤ i → getElem (Mem.le32 k) i (by simpa using hi) = 0 := by decide
        rw [Mem.write_outside (by rw [r.length_piece hkn]; omega)]
        exact (Mem.set32_byte _ 12 k hi).trans (hk0 k (by omega) i hi (by omega))
    rw [this, allSize_setAllSize, u32_of_lt (by omega)]
  have hlaid : laidOver (atOffset s r k) (r.piece k n) = setAllSize (r.upTo s.ota (k + n)) n := by
    simp only [recvBufMaxSize, bufMaxSize, sizeofNetLocal, sizeofNetOta] at hR
    rw [laidOver_below (below_piece s r hkn)]
    simp only [atOffset]
    rw [allSize_otaAt s.ota r (by omega), hcount, r.length_piece hkn, u32_of_lt (by omega), Nat.zero_add]
    unfold otaAt setAllSize
    rw [Mem.set32_write_set32, r.upTo_piece s.ota hkn]
  have hnc : ¬ Completes (atOffset s r k) (r.piece k n) := by
    rintro ⟨-, hle⟩
    rw [hlaid, readSize_setAllSize, allSize_setAllSize, readSize_upTo s r (by omega) hkn] at hle
    simp only [recvBufMaxSize, bufMaxSize, sizeofNetLocal, sizeofNetOta] at hR hn hle
    rw [u32_of_lt (by omega), u32_of_lt (by omega)] at hle
    omega
  rw [msgrecv_growing (by rw [r.length_piece hkn]; exact hn) hnc]
  exact hlaid

/-- **A split that drops a segment or cuts the count loses it**: the last byte is never laid in its place, or bytes are
still awaited after it. -/
theorem miss_rest {R : Nat} (hR : R ≤ recvBufMaxSize) {s : Dev} (h : Sent s (blank R hR) 0) (hm : s.ota (19 + R) = 1) :
    ∀ (n : Nat) (ns : List Nat) (k : Nat), (∀ l ∈ n :: ns, 0 < l) → k + (n :: ns).sum = 20 + R →
      ¬ ((13 ≤ k ∨ (k = 0 ∧ 13 ≤ n)) ∧ ∀ l ∈ n :: ns, l ≤ recvBufMaxSize) →
      ((deliver (atOffset s (blank R hR) k) (splitLens (n :: ns) ((blank R hR).bytes.drop k))).ota (19 + R) = 1 ∨
        allSize (deliver (atOffset s (blank R hR) k) (splitLens (n :: ns) ((blank R hR).bytes.drop k))).ota ≠ 0)
  | n, ns, k, hpos, hsum, hbad => by
    rw [List.sum_cons] at hsum
    have hn := hpos n (List.mem_cons_self ..)
    have hkn : k + n ≤ 20 + (blank R hR).readSize := by show k + n ≤ 20 + R; omega
    have hlen := (blank R hR).length_piece hkn
    have hbehind : Behind R (k + n) (msgrecv (atOffset s (blank R hR) k) ((blank R hR).piece k n)).1 →
        (deliver (atOffset s (blank R hR) k) (splitLens (n :: ns) ((blank R hR).bytes.drop k))).ota (19 + R) = 1 := by
      intro hb
      have hrest := behind_rest hR ns (k + n) _ hb (by omega)
      rw [← List.drop_drop] at hrest
      exact hrest.mark
    by_cases hmax : n ≤ recvBufMaxSize
    · by_cases hw : Whole k n
      · -- still counting: the fault is in a later segment
        cases ns with
        | nil =>
          refine absurd ⟨?_, fun l hl => ?_⟩ hbad
          · unfold Whole at hw
            rw [List.sum_nil] at hsum
            omega
          · rw [List.mem_singleton.1 hl]; exact hmax
        | cons n' ns =>
          have hn' := hpos n' (by simp)
          rw [List.sum_cons] at hsum
          have hstep := msgrecv_piece h.toReady (k := k) (n := n) (by show k + n < 20 + R; omega) hw hmax
          have hrest := miss_rest hR h hm n' ns (k + n) (fun l hl => hpos l (List.mem_cons_of_mem _ hl))
            (by rw [List.sum_cons]; omega) (fun hgood => hbad ⟨by unfold Whole at hw; omega, fun l hl => by
              rcases List.mem_cons.1 hl with rfl | hl
              · exact hmax
              · exact hgood.2 l hl⟩)
          rw [← List.drop_drop, ← hstep] at hrest
          exact hrest
      · -- the count is cut
        unfold Whole at hw
        have ho := msgrecv_crossing s (blank R hR) hkn (by omega) (by omega) (by omega) hmax
        have hall : allSize (setAllSize ((blank R hR).upTo s.ota (k + n)) n) = n := by
          rw [allSize_setAllSize]
          simp only [recvBufMaxSize, bufMaxSize, sizeofNetLocal, sizeofNetOta] at hmax
          exact u32_of_lt (by omega)
        cases ns with
        | nil =>
          right
          show allSize (msgrecv (atOffset s (blank R hR) k) ((blank R hR).piece k n)).1.ota ≠ 0
          rw [ho, hall]
          omega
        | cons n' ns =>
          have hn' := hpos n' (by simp)
          rw [List.sum_cons] at hsum
          refine Or.inl (hbehind ⟨by omega, by rw [ho, hall]; omega, ?_⟩)
          rw [ho]
          exact otaAt_mark (r := blank R hR) hm (by show k + n ≤ 19 + R; omega)
    · -- the segment is dropped
      have hdrop := msgrecv_long (s := atOffset s (blank R hR) k) (p := (blank R hR).piece k n) (by rw [hlen]; omega)
      simp only [recvBufMaxSize, bufMaxSize, sizeofNetLocal, sizeofNetOta] at hmax
      refine Or.inl (hbehind ⟨by omega, ?_, ?_⟩)
      · rw [hdrop]
        show allSize (otaAt s.ota (blank R hR) k) + 1 ≤ k + n
        rw [allSize_otaAt s.ota (blank R hR) (by omega)]
        omega
      · rw [hdrop]
        exact otaAt_mark (r := blank R hR) hm (by show k ≤ 19 + R; omega)

/-! ## A request that announces a length -/

/-- Byte 0 was never in reach, or the count has fallen behind after the length was taken for a whole reply. -/
def Lost (c : Nat) (m : Mem) : Prop :=
  (m 0 = 1 ∧ (1 ≤ allSize m ∨ allSize m + 1 ≤ c)) ∨ (1 ≤ allSize m ∧ allSize m + 1 ≤ c)

/-- After the announcement of a length, `c` bytes of the blank answer have been received: the answer is lost, or its
bytes went around and took the caller's buffer from `net_local`. -/
structure Astray (c : Nat) (d : Dev) : Prop where
  size : ∀ x, 0 < x → x < 12 → d.ota x = 0
  lost : d.netLocal.buf < 16777216 ∨ Lost c d.ota

theorem readSize_astray {m : Mem} (h : ∀ x, 0 < x → x < 12 → m x = 0) : readSize m = 0 := by
  have h8 := h 8 (by omega) (by omega)
  have h9 := h 9 (by omega) (by omega)
  have h10 := h 10 (by omega) (by omega)
  have h11 := h 11 (by omega) (by omega)
  simp only [readSize, Mem.get32, h8, h9, h10, h11]
  rfl

/-- **A segment of an answer that does not go around** leaves it lost. -/
theorem lost_step {c : Nat} {p : List UInt8} {d : Dev} (h : Lost c d.ota) (hz : ∀ b ∈ p, b = 0) (h0 : 0 < p.length)
    (hcn : c + p.length ≤ 20) (hround : allSize d.ota + p.length ≤ 4294967296)
    (hzero : ∀ x, 0 < x → x < 12 → laidOver d p x = 0) : Lost (c + p.length) (msgrecv d p).1.ota := by
  have hle := allSize_laidOver_le (s := d) hz
  have hmono := allSize_laid_le (s := d) hz
  have hpos : allSize d.ota + 1 ≤ c → 1 ≤ allSize (laidOver d p) := fun hA => by
    unfold laidOver
    rw [allSize_setAllSize, u32_of_lt (u32_lt _), u32_of_lt (by omega)]
    omega
  have hfar : 1 ≤ allSize d.ota → laidOver d p 0 = d.ota 0 := fun hA => by
    rw [laidOver_apply (by omega), laid_front hround hA (by decide)]
  rcases msgrecv_ota d p with ⟨hlong, -⟩ | ⟨-, ho⟩ | ⟨hc, ho⟩
  · exact absurd hlong (by simp only [recvBufMaxSize, bufMaxSize, sizeofNetLocal, sizeofNetOta]; omega)
  · rw [ho]
    rcases h with ⟨hb, hA | hA⟩ | ⟨-, hA⟩
    · exact Or.inl ⟨(hfar hA).trans hb, by omega⟩
    · exact Or.inr ⟨hpos hA, by omega⟩
    · exact Or.inr ⟨hpos hA, by omega⟩
  · -- a completed reply of 20 bytes: more were counted than received, so the count started at the announced length
    have h20 := hc.2
    rw [readSize_astray hzero] at h20
    change 20 ≤ allSize (laidOver d p) at h20
    unfold Lost
    rw [ho, allSize_setAllSize, show setAllSize (laidOver d p) 0 0 = laidOver d p 0 from Mem.set32_outside (by omega)]
    rcases h with ⟨hb, hA | hA⟩ | ⟨-, hA⟩
    · exact Or.inl ⟨(hfar hA).trans hb, by rw [u32_of_lt (by omega)]; omega⟩
    · omega
    · omega

theorem astray_step {c : Nat} {p : List UInt8} {d : Dev} (h : Astray c d) (hz : ∀ b ∈ p, b = 0) (h0 : 0 < p.length)
    (hcn : c + p.length ≤ 20) : Astray (c + p.length) (msgrecv d p).1 := by
  have hmax : p.length ≤ recvBufMaxSize := by
    simp only [recvBufMaxSize, bufMaxSize, sizeofNetLocal, sizeofNetOta]
    omega
  have hzero : ∀ x, 0 < x → x < 12 → laidOver d p x = 0 := fun x h1 h2 => by
    have hle := laid_zeros_le (s := d) hz (x := x) (by simp only [netLocalAt, sizeofNetLocal]; omega)
    rw [h.size x h1 h2] at hle
    rw [laidOver_apply (Or.inl h2)]
    exact UInt8.toNat_inj.1 (Nat.le_zero.1 hle)
  have hbuf := (msgrecv_laid (s := d) hmax).buf
  constructor
  · intro x h1 h2
    rcases msgrecv_ota d p with ⟨hlong, -⟩ | ⟨-, ho⟩ | ⟨-, ho⟩
    · exact absurd hmax (Nat.not_le.2 hlong)
    · rw [ho]
      exact hzero x h1 h2
    · rw [ho]
      exact (Mem.set32_outside (by omega)).trans (hzero x h1 h2)
  · rw [hbuf]
    rcases h.lost with hlt | hlost
    · exact Or.inl (Nat.lt_of_le_of_lt (laid_buf_le hz) hlt)
    · by_cases hround : allSize d.ota + p.length ≤ 4294967296
      · exact Or.inr (lost_step hlost hz h0 hcn hround hzero)
      · exact Or.inl (laid_buf_lt hz (Nat.lt_of_not_le hround) (by omega))

theorem astray_rest : ∀ (lens : List Nat) (bs : List UInt8) (c : Nat) (d : Dev), Astray c d → (∀ b ∈ bs, b = 0) →
    (∀ l ∈ lens, 0 < l) → lens.sum = bs.length → c + bs.length ≤ 20 →
      Astray (c + bs.length) (deliver d (splitLens lens bs))
  | [], bs, c, d, h, _, _, hsum, _ => by
    rw [← hsum]
    exact h
  | n :: ns, bs, c, d, h, hz, hpos, hsum, hc => by
    rw [List.sum_cons] at hsum
    have hlen : (bs.take n).length = n := by rw [List.length_take]; omega
    have hn := hpos n (List.mem_cons_self ..)
    have hstep := astray_step h (p := bs.take n) (fun b hb => hz b (List.mem_of_mem_take hb)) (by omega) (by omega)
    have hdrop : (bs.drop n).length = bs.length - n := List.length_drop
    have hrest := astray_rest ns (bs.drop n) (c + (bs.take n).length) _ hstep
      (fun b hb => hz b (List.mem_of_mem_drop hb)) (fun l hl => hpos l (List.mem_cons_of_mem _ hl)) (by omega) (by omega)
    rw [show c + (bs.take n).length + (bs.drop n).length = c + bs.length by omega] at hrest
    exact hrest

/-! ## Which splits work -/

/-- A device whose OTA memory is `m`, with nothing read yet. -/
def holding (m : Mem) : Dev := { opened (fun _ => 0) (fun _ => 0) with ota := m }

theorem accepted_ota (s : Dev) (r : Reply) : (accepted s r).ota = s.ota.write 0 r.bytes := msgrecvmemcpy_ota _

/-- A device waiting for `R` bytes at address 0, with 1 where the last byte of the reply belongs. -/
def awaiting (R : Nat) : Dev := holding ((setReadSize (fun _ => 0) R).write (19 + R) [1])

/-- A device that has announced the length `a` and read before, with 1 where the first byte of the reply belongs. -/
def announced (a : Nat) : Dev :=
  { holding (setAllSize (Mem.write (fun _ => 0) 0 [1]) a) with netLocal := ⟨0, 0, 0, 0, 1, 16777216⟩ }

theorem sent_awaiting {R : Nat} (hR : R ≤ recvBufMaxSize) : Sent (awaiting R) (blank R hR) 0 where
  seekAddr := (Mem.get32_write_outside (by omega)).trans (Mem.get32_set32_outside (by decide))
  readSize := by
    left
    refine ((Mem.get32_write_outside (by omega)).trans (readSize_setReadSize _ R)).trans (u32_of_lt ?_)
    simp only [recvBufMaxSize, bufMaxSize, sizeofNetLocal, sizeofNetOta] at hR
    omega
  allSize := (Mem.get32_write_outside (by omega)).trans (Mem.get32_set32_outside (by decide))

theorem sent_announced {a : Nat} (ha : a < 4294967296) : Sent (announced a) (blank 0 (Nat.zero_le _)) a where
  seekAddr := (seekAddr_setAllSize _ a).trans (Mem.get32_write_outside (by decide))
  readSize := Or.inl ((readSize_setAllSize _ a).trans (Mem.get32_write_outside (by decide)))
  allSize := (allSize_setAllSize _ a).trans (u32_of_lt ha)

theorem not_reassembles_awaiting {R : Nat} (hR : R ≤ recvBufMaxSize) {n : Nat} {ns : List Nat}
    (hpos : ∀ l ∈ n :: ns, 0 < l) (hsum : (n :: ns).sum = 20 + R)
    (hbad : ¬ (13 ≤ n ∧ ∀ l ∈ n :: ns, l ≤ recvBufMaxSize)) :
    ¬ Reassembles (awaiting R) (blank R hR) (splitLens (n :: ns) (blank R hR).bytes) := by
  intro hre
  have hs := sent_awaiting hR
  have hmark : (awaiting R).ota (19 + R) = 1 := by simp [awaiting, holding, Mem.write]
  have hmiss := miss_rest hR hs hmark n ns 0 hpos (by omega) (fun h => hbad ⟨by omega, h.2⟩)
  rw [atOffset_zero hs.toReady, List.drop_zero, hre.last, accepted_ota] at hmiss
  rcases hmiss with h1 | h1
  · rw [blank_byte hR _ (by omega) (by omega)] at h1
    cases h1
  · exact h1 (allSize_whole _ _)

theorem not_reassembles_announced {a : Nat} (ha : a < 4294967296) (h0 : a ≠ 0) {lens : List Nat}
    (hpos : ∀ l ∈ lens, 0 < l) (hsum : lens.sum = 20) :
    ¬ Reassembles (announced a) (blank 0 (Nat.zero_le _)) (splitLens lens (blank 0 (Nat.zero_le _)).bytes) := by
  intro hre
  have hs := sent_announced ha
  have hstart : Astray 0 (announced a) := by
    refine ⟨fun x h1 h2 => ?_, Or.inr (Or.inl ⟨?_, Or.inl ?_⟩)⟩
    · exact (Mem.set32_outside (Or.inl h2)).trans (Mem.write_above _ h1)
    · rfl
    · rw [hs.allSize]; omega
  have hend := astray_rest lens (blank 0 (Nat.zero_le _)).bytes 0 _ hstart (by decide) hpos hsum (by decide)
  rw [hre.last] at hend
  rcases hend.lost with h1 | ⟨h1, -⟩ | ⟨h1, -⟩
  · have hbuf : (accepted (announced a) (blank 0 (Nat.zero_le _))).netLocal.buf = 16777216 :=
      (msgrecvmemcpy_sameCall _).buf
    rw [hbuf] at h1
    exact absurd h1 (Nat.lt_irrefl _)
  · rw [accepted_ota, Mem.write_inside' (Nat.le_refl _) (by decide)] at h1
    exact absurd h1 (by decide)
  · rw [accepted_ota, allSize_whole] at h1
    omega

/-- **Which splits reassemble**: for a request for `R` bytes with `a` as its `all_size` (a request for bytes has 0
there, one that announces a length asks for none), a split works for every device and every reply exactly when `a` is 0,
the first segment brings byte 12 and no segment is too long to be taken. -/
theorem msgrecv_reassembles_iff (R a : Nat) (lens : List Nat) (hR : R ≤ recvBufMaxSize) (ha : a < 4294967296)
    (hreq : a = 0 ∨ R = 0) (hpos : ∀ l ∈ lens, 0 < l) (hsum : lens.sum = 20 + R) :
    (∀ (s : Dev) (r : Reply), r.Valid → r.readSize = R → Sent s r a → Reassembles s r (splitLens lens r.bytes)) ↔
      a = 0 ∧ 13 ≤ lens.headD 0 ∧ ∀ l ∈ lens, l ≤ recvBufMaxSize := by
  obtain ⟨n, ns, rfl⟩ : ∃ n ns, lens = n :: ns := by
    cases lens with
    | nil => rw [List.sum_nil] at hsum; omega
    | cons n ns => exact ⟨n, ns, rfl⟩
  constructor
  · intro hall
    by_cases ha0 : a = 0
    · subst ha0
      by_contra hbad
      exact not_reassembles_awaiting hR hpos hsum (fun h => hbad ⟨rfl, h⟩)
        (hall _ (blank R hR) (blank_valid hR) rfl (sent_awaiting hR))
    · have hR0 : R = 0 := hreq.resolve_left ha0
      subst hR0
      exact absurd (hall _ (blank 0 hR) (blank_valid hR) rfl (sent_announced ha)) (not_reassembles_announced ha ha0 hpos hsum)
  · rintro ⟨rfl, h13, hmax⟩ s r hv rfl hs
    have := deliver_rest hs.toReady hv n ns 0 (fun l hl => ⟨hpos l hl, hmax l hl⟩) (by omega) (Or.inr ⟨rfl, h13⟩)
    rw [atOffset_zero hs.toReady, List.drop_zero] at this
    exact this

theorem reassembles_two_halves :
    (∀ (s : Dev) (r : Reply), r.Valid → r.readSize = 40916 → Sent s r 0 →
      Reassembles s r (splitLens [20468, 20468] r.bytes)) ↔
      0 = 0 ∧ 13 ≤ [20468, 20468].headD 0 ∧ ∀ l ∈ [20468, 20468], l ≤ recvBufMaxSize :=
  msgrecv_reassembles_iff 40916 0 [20468, 20468] (by decide) (by decide) (Or.inl rfl) (by decide) (by decide)

/-- A reply whose first segment ends just before `all_size` is not reassembled. -/
theorem not_reassembles_behind_header :
    ¬ Reassembles (awaiting 40916) (blank 40916 (by decide))
      (splitLens [12, 20462, 20462] (blank 40916 (by decide)).bytes) :=
  not_reassembles_awaiting (by decide) (by decide) (by decide) (by decide)

/-- **Every request the device sends is of the kind above**: it is for a whole buffer and has 0 as `all_size`, or it
is for no bytes. -/
theorem msgsenddata_sent {s s' : Dev} {noWait : Bool} {res : SendResult} {x R a : Nat}
    (h : msgsenddata s noWait true = (s', res, some (x, R, a))) (hsize : readSize s.ota ≤ recvBufMaxSize)
    (hread : s.netLocal.status = statusRead → s.netLocal.allSize = 0) {r : Reply} (hx : r.seekAddr = x)
    (hR : r.readSize = R) : Sent s' r a ∧ (a = 0 ∧ R = recvBufMaxSize ∨ R = 0) := by
  cases hc : s.clientPcb with
  | false =>
    rw [msgsenddata_closed hc] at h
    cases h
  | true =>
    by_cases hst : s.netLocal.status = statusRead
    · by_cases hh : hit (primed s.ota s.netLocal) s.netLocal = true
      · rw [msgsenddata_hit hc hst (hread hst) hh] at h
        cases h
      · rw [msgsenddata_miss hc hst (hread hst) hh] at h
        obtain ⟨⟨-, hn, hz⟩, h1, h2, h3⟩ := sendHeader_sent h
        rw [if_pos rfl] at h3
        simp only [newWindow, readSize_setSeekAddr, readSize_setReadSize] at hn
        simp only [newWindow, allSize_setSeekAddr, allSize_setReadSize, allSize_setAllSize] at hz
        rw [u32_of_lt (by decide)] at hn hz
        exact ⟨⟨⟨Or.inl (h3.trans hR.symm), h2⟩, h1.trans hx.symm⟩, Or.inl ⟨hz, hn⟩⟩
    · rw [msgsenddata_notice hc hst] at h
      obtain ⟨⟨-, hn, -⟩, h1, h2, h3⟩ := sendHeader_sent h
      have hn0 : R = 0 := by
        rw [hn]
        split
        · exact readSize_setReadSize ..
        · exact (readSize_setAllSize ..).trans (readSize_setReadSize ..)
      refine ⟨⟨⟨?_, h2⟩, h1.trans hx.symm⟩, Or.inr hn0⟩
      rw [h3, hR, hn0]
      split
      · exact Or.inl rfl
      · refine Or.inr ⟨rfl, ?_⟩
        exact (u32_of_lt (s.ota.get32_lt 8)).symm ▸ hsize

end Ap
end OtaLoader
