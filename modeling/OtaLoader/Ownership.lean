import OtaLoader.ApBounds
import OtaLoader.StaRead
/-!
# Ownership — whose buffer the receive callback writes

`net_local` keeps the buffer, the address and the size of the last read after that read has returned, and the callback
copies to that buffer whenever it accepts a reply.  What it accepts is told from what the peer has sent: the packets of a
client (`ApPackets`), the responses of a server.  `owned_iff_onTime` says, for both builds, that every copy goes to a read
that is still in progress exactly when no answer ends after its read.
-/
namespace OtaLoader

/-! ## Access point -/

namespace Ap

/-- A copy of the callback goes to the buffer of the read in progress, all of it. -/
def Owned (s : Dev) (o : Out) : Prop :=
  ∀ src len dst, .copy src len dst ∈ o.accesses → ∃ err, s.task = .reading dst len err

/-- A read waits. -/
def Task.reads : Task → Bool
  | .reading _ _ _ => true
  | _              => false

/-- An answer ends while a read waits, or is for no read. -/
def Feed.OnTime : Feed → Dev → List UInt8 → Prop
  | .bytes got, s, p => Answers (got ++ p) → s.netLocal.readSize ≠ 0 → s.task.reads = true
  | .behind _, _, _  => True

def OnTime (f : Feed) (s : Dev) : Ev → Prop
  | .segment p => p.length ≤ recvBufMaxSize → f.OnTime s p
  | _          => True

instance decidableFeedOnTime (s : Dev) (p : List UInt8) : (f : Feed) → Decidable (f.OnTime s p)
  | .bytes got => inferInstanceAs (Decidable (Answers (got ++ p) → s.netLocal.readSize ≠ 0 → s.task.reads = true))
  | .behind _  => .isTrue trivial

instance decidableOnTime (f : Feed) (s : Dev) : (e : Ev) → Decidable (OnTime f s e)
  | .segment p => inferInstanceAs (Decidable (p.length ≤ recvBufMaxSize → f.OnTime s p))
  | .seek .. | .read .. | .announce .. | .stop .. | .resume .. | .timeout .. | .finish | .close => .isTrue trivial

/-- `net_local` has the arguments of the read in progress. -/
def Matches (s : Dev) : Prop :=
  ∀ buf len err, s.task = .reading buf len err → s.netLocal.buf = buf ∧ s.netLocal.readSize = len

theorem netFRead_matches (s : Dev) (buf len : Nat) (sent : Bool) (h : s.task = .idle) :
    Matches (netFRead s buf len sent).1 := by
  unfold netFRead
  split
  · exact fun b l e ht => by rw [h] at ht; cases ht
  · dsimp only
    split
    · exact fun b l e ht => by cases h.symm.trans ht
    · have hnet := (msgsenddata_keeps (asking s buf len) false sent).1
      split
      · rename_i d n request heq
        obtain ⟨k, hk⟩ := readDone_fst d n
        exact fun b l e ht => by rw [hk] at ht; cases ht
      · rename_i d err request heq
        rw [heq] at hnet
        intro b l e ht
        cases ht
        rw [show ({ d with task := .reading buf len err } : Dev).netLocal = d.netLocal from rfl, hnet]
        exact ⟨rfl, rfl⟩

/-- No read is in progress. -/
theorem Matches.of_task {d : Dev} (h : ∀ buf len err, d.task ≠ .reading buf len err) : Matches d :=
  fun b l e ht => absurd ht (h b l e)

theorem Matches.of_idle {d : Dev} (h : d.task = .idle) : Matches d :=
  .of_task (fun b l e ht => by rw [h] at ht; cases ht)

theorem netFSendUpdateLen_matches (s : Dev) (len : Nat) (sent : Bool) (h : s.task = .idle) :
    Matches (netFSendUpdateLen s len sent).1 := by
  unfold netFSendUpdateLen
  split
  · exact .of_idle h
  · dsimp only
    split
    · rename_i t n request heq
      have ht := (msgsenddata_keeps (announcing s len) false sent).2.1
      rw [show msgsenddata (announcing s len) false sent = (t, .ret n, request) from heq] at ht
      exact .of_idle (ht.trans h)
    · exact .of_task (fun b l e ht => by cases ht)

theorem netFStop_matches (s : Dev) (failed sent : Bool) : Matches (netFStop s failed sent).1 := by
  refine .of_task (fun b l e => ?_)
  unfold netFStop
  dsimp only
  split
  · split
    · exact fun ht => by cases ht
    · split
      · exact fun ht => by cases ht
      · exact fun ht => by cases ht
  · exact fun ht => by cases ht

/-- The end of a wait ends the read. -/
theorem wake_matches {s : Dev} {got sent : Bool} {r : Dev × Out} (h : wake s got sent = some r) : Matches r.1 := by
  unfold wake at h
  split at h
  · rename_i buf len err _
    obtain ⟨k, hk⟩ := readDone_fst s (if got then err else 0)
    cases h
    exact .of_idle (congrArg Dev.task hk)
  · cases h
    exact .of_idle rfl
  · cases h
    exact .of_task (fun b l e ht => by cases ht)
  · cases h

theorem step_matches {s d : Dev} {e : Ev} {o : Out} (hm : Matches s) (h : step s e = some (d, o))
    (hb : ∀ p, e = .segment p → SameCall s (msgrecv s p).1) : Matches d := by
  have ht := step_took h
  cases e with
  | seek type offset =>
    obtain ⟨l, hl⟩ := netFSeek_fst s type offset
    rw [show d = (netFSeek s type offset).1 from congrArg Prod.fst ht.2, hl]
    exact .of_idle ht.1
  | read buf len sent =>
    rw [show d = (netFRead s buf len sent).1 from congrArg Prod.fst ht.2]
    exact netFRead_matches s buf len sent ht.1
  | announce len sent =>
    rw [show d = (netFSendUpdateLen s len sent).1 from congrArg Prod.fst ht.2]
    exact netFSendUpdateLen_matches s len sent ht.1
  | stop failed sent =>
    rw [show d = (netFStop s failed sent).1 from congrArg Prod.fst ht.2]
    exact netFStop_matches s failed sent
  | resume sent => exact wake_matches ht.2
  | timeout sent => exact wake_matches ht.2
  | finish =>
    cases ht.2
    exact .of_task (fun b l e hd => by cases hd)
  | segment p =>
    cases ht.2
    obtain ⟨-, htask, hb, -, hr, -⟩ := hb p rfl
    intro b l e hd
    rw [hb, hr]
    exact hm b l e (htask.symm.trans hd)
  | close =>
    cases ht.2
    exact hm

/-- A segment that ends below `net_local` is copied from when it is handed out. -/
theorem msgrecv_copy {s : Dev} {p : List UInt8} (hbelow : Below s p) {src len dst : Nat} :
    .copy src len dst ∈ (msgrecv s p).2 ↔
      (Completes s p ∧ SumOk s p ∧ status (laidOver s p) ≠ statusStop ∧ s.netLocal.readSize ≠ 0) ∧
        src = windowOffset (laidOver s p) s.netLocal ∧ len = s.netLocal.readSize ∧ dst = s.netLocal.buf := by
  by_cases hlen : p.length ≤ recvBufMaxSize
  · by_cases hc : Completes s p
    · by_cases hs : SumOk s p
      · rw [msgrecv_accept hc hs, laid_with hbelow]
        by_cases hst : status (laidOver s p) = statusStop
        · rw [msgrecvmemcpy_stop (s := { s with ota := setAllSize (laidOver s p) 0 }) ((status_setAllSize ..).trans hst)]
          simp [hst]
        · have hst' : status (setAllSize (laidOver s p) 0) ≠ statusStop := by rwa [status_setAllSize]
          by_cases hr : s.netLocal.readSize = 0
          · rw [msgrecvmemcpy_skip (s := { s with ota := setAllSize (laidOver s p) 0 }) hst' hr]
            simp [hr]
          · rw [msgrecvmemcpy_copy (s := { s with ota := setAllSize (laidOver s p) 0 }) hst' hr]
            simp [hc, hs, hst, hr, windowOffset_setAllSize]
      · rw [msgrecv_bad hc hs]
        simp [hs]
    · rw [msgrecv_growing hlen hc]
      simp [hc]
  · rw [msgrecv_long (Nat.lt_of_not_le hlen)]
    have : ¬ Completes s p := fun hc => hlen hc.1
    simp [this]

/-- **A segment of a packet is copied from** exactly when it ends an answer and a size is asked for. -/
theorem segment_copies_iff {f : Feed} {s : Dev} {p : List UInt8} (h : f.Stands s)
    (hended : s.task.ended = true → s.netLocal.readSize = 0) (hform : f.Form s p) (hroom : f.Room p)
    (hlen : p.length ≤ recvBufMaxSize) :
    (∀ src len dst, .copy src len dst ∈ (msgrecv s p).2 → s.task.reads = true ∧ len = s.netLocal.readSize ∧
      dst = s.netLocal.buf) ↔ f.OnTime s p := by
  obtain ⟨hbelow, -⟩ := stands_segment h hform hroom hlen
  cases f with
  | bytes got =>
    have hlive : s.netLocal.readSize ≠ 0 → s.task.ended = false := fun h0 =>
      Bool.eq_false_iff.2 (fun he => h0 (hended he))
    have hiff := Coming.completes_iff h hform hroom hlen
    constructor
    · rintro hown ⟨hends, hsound, hst⟩ h0
      obtain ⟨hsum, hstatus, -⟩ := Coming.answers_iff h (hlive h0) hform hroom hends
      exact (hown _ _ _ ((msgrecv_copy hbelow).2 ⟨⟨hiff.2 hends, hsum.2 hsound, hstatus ▸ hst, h0⟩, rfl, rfl, rfl⟩)).1
    · intro honTime src len dst hmem
      obtain ⟨⟨hc, hs, hst, h0⟩, -, hl, hd⟩ := (msgrecv_copy hbelow).1 hmem
      have hends := hiff.1 hc
      obtain ⟨hsum, hstatus, -⟩ := Coming.answers_iff h (hlive h0) hform hroom hends
      exact ⟨honTime ⟨hends, hsum.1 hs, hstatus ▸ hst⟩ h0, hl, hd⟩
  | behind n  =>
    obtain ⟨-, -, hread⟩ := hform
    refine ⟨fun _ => trivial, fun _ src len dst hmem => ?_⟩
    obtain ⟨⟨-, -, -, h0⟩, -⟩ := (msgrecv_copy hbelow).1 hmem
    exact absurd hread h0

/-- **One step**: every copy goes to a read in progress exactly when no answer ends without one. -/
theorem step_owned_iff {f : Feed} {s d : Dev} {e : Ev} {o : Out} (hm : Matches s) (hfed : Fed f s)
    (h : step s e = some (d, o)) (hform : Framed f s e) (hfits : Fits f e) : Owned s o ↔ OnTime f s e := by
  rcases step_accesses h with ⟨p, rfl, hc, -, ho⟩ | ⟨hne, ho⟩
  · by_cases hlen : p.length ≤ recvBufMaxSize
    · have hiff := segment_copies_iff (hfed.feed hc) (fun he => (hfed.ended he).1) (hform hlen) (hfits hlen) hlen
      have hreads : ∀ len dst, (s.task.reads = true ∧ len = s.netLocal.readSize ∧ dst = s.netLocal.buf) ↔
          ∃ err, s.task = .reading dst len err := fun len dst => by
        constructor
        · rintro ⟨ht, rfl, rfl⟩
          cases htask : s.task with
          | reading b l err =>
            obtain ⟨h1, h2⟩ := hm b l err htask
            exact ⟨err, by rw [h1, h2]⟩
          | _ =>
            rw [htask] at ht
            cases ht
        · rintro ⟨err, htask⟩
          obtain ⟨h1, h2⟩ := hm dst len err htask
          exact ⟨by rw [htask]; rfl, h2.symm, h1.symm⟩
      constructor
      · intro hown _
        exact hiff.1 (fun src len dst hmem => (hreads len dst).2 (hown src len dst (ho ▸ hmem)))
      · intro honTime src len dst hmem
        exact (hreads len dst).1 (hiff.2 (honTime hlen) src len dst (ho ▸ hmem))
    · rw [msgrecv_long (Nat.lt_of_not_le hlen)] at ho
      refine ⟨fun _ hl => absurd hl hlen, fun _ src len dst hmem => ?_⟩
      rw [ho] at hmem
      cases hmem
  · constructor
    · intro _
      cases e with
      | segment p => exact absurd rfl (hne p)
      | _ => exact trivial
    · intro _ src len dst hmem
      rw [ho] at hmem
      cases hmem

/-- What a step of a run in which packets have their form keeps. -/
theorem step_keeps {f : Feed} {s d : Dev} {e : Ev} {o : Out} (hm : Matches s) (hfed : Fed f s)
    (h : step s e = some (d, o)) (hform : Framed f s e) (hfits : Fits f e) : Fed (f.next s e) d ∧ Matches d := by
  refine ⟨fed_step hfed h hform hfits, step_matches hm h (fun p he => ?_)⟩
  subst he
  by_cases hlen : p.length ≤ recvBufMaxSize
  · have hc := (step_took h).1
    exact msgrecv_sameCall (stands_segment (hfed.feed hc) (hform hlen) (hfits hlen) hlen).1
  · rw [msgrecv_long (Nat.lt_of_not_le hlen)]
    exact ⟨rfl, rfl, rfl, rfl, rfl, rfl⟩

end Ap

/-! ## Station -/

namespace Sta

def Owned (s : Dev) (o : Out) : Prop :=
  ∀ src len dst, (src, len, dst) ∈ o.copies → ∃ c, s.task.call = some c ∧ c.opening = false ∧ dst = c.buf ∧ len = c.len

/-- As many bytes as the request asks for, or as the file has. -/
def Enough (h : HttpOta) (size n : Nat) : Prop :=
  u32 (h.rangeEnd + 4294967296 - h.rangeStart) ≤ n ∨ size ≠ 0 ∧ size ≤ n

/-- The first segment of a response: its header, with `b` of its body. -/
def Heads (s : Dev) (p : List UInt8) (r : Response) (b : List UInt8) : Prop :=
  r.WellFormed ∧ p = r.head ++ b ∧ RangeFound r (laid s p) s.beyond

/-- With the segment the window has all that was asked for, or had it before. -/
def Fills (s : Dev) (p : List UInt8) : Prop :=
  (s.http.recvOffset ≠ 0 ∧ Enough s.http s.http.fileSize
    (if s.http.recvOffset + p.length ≤ bufSize then s.http.recvOffset + p.length else s.http.recvOffset)) ∨
  (s.http.recvOffset = 0 ∧ p.length ≤ bufSize ∧ ∃ r b, Heads s p r b ∧ b ≠ [] ∧ Enough s.http r.total b.length)

/-- A segment that finds the buffer empty begins a response with its header, or no response to a request of a range, or
has not all of a header. -/
def Framed (s : Dev) : Ev → Prop
  | .segment _ p => s.http.recvOffset = 0 → p.length ≤ bufSize →
      (∃ r b, Heads s p r b) ∨ find (ascii "HTTP/1.1 206") ((laid s p).whole s.beyond) = none ∨
        ∀ q, q < p.length → blankAt (laid s p).buf q = false
  | _            => True

/-- All that was asked for comes while a read is in progress, or for no read. -/
def OnTime (s : Dev) : Ev → Prop
  | .segment _ p => Fills s p → s.netLocal.buf ≠ 0 → s.netLocal.readSize ≠ 0 →
      ∃ c, s.task.call = some c ∧ c.opening = false
  | _            => True

def Matches (s : Dev) : Prop :=
  ∀ c, s.task.call = some c → c.opening = false → s.netLocal.readSize = c.len ∧ s.netLocal.buf = c.buf

theorem Matches.continues {s d : Dev} (hm : Matches s) (h : Continues s d) : Matches d := by
  intro c' hc' ho
  obtain ⟨c, hc, h1, h2, h3⟩ := h.call c' hc'
  rw [h.netLocal, h2, h3]
  exact hm c hc (h1 ▸ ho)

theorem startGet_continues {s : Dev} {c : Call} (hs : s.task = .getting c) : Continues s (startGet s c).1 := by
  have hcall : s.task.call = some c := by rw [hs]; rfl
  obtain ⟨-, -, -, h1, -, h2⟩ := parseUrl_keeps { s with readSem := 0 }
  unfold startGet
  cases hp : parseUrl { s with readSem := 0 } with
  | mk d port =>
    rw [hp] at h1 h2
    cases port with
    | none =>
      dsimp only
      split
      · exact .of_task h1 h2
      · exact .finish 0 h1 hcall ⟨rfl, rfl, rfl⟩
    | some port =>
      dsimp only
      unfold resolve
      dsimp only
      split
      · split
        · exact .of_call h1 hcall rfl ⟨rfl, rfl, rfl⟩
        · exact .of_call h1 hcall rfl ⟨rfl, rfl, rfl⟩
      · exact .of_call h1 hcall rfl ⟨rfl, rfl, rfl⟩

theorem sendGet_continues {s : Dev} {c : Call} {i : Nat} (sent : Bool) (hs : s.task = .connecting c i) :
    Continues s (sendGet s c i sent).1 := by
  have hcall : s.task.call = some c := by rw [hs]; rfl
  have hnet := writeRequest_netLocal s
  unfold sendGet
  split
  · exact .finish 0 rfl hcall ⟨rfl, rfl, rfl⟩
  · split
    · rename_i d hd
      rw [hd] at hnet
      exact .of_call hnet hcall rfl ⟨rfl, rfl, rfl⟩
    · rename_i d q hd
      rw [hd] at hnet
      split
      · exact .of_call hnet hcall rfl ⟨rfl, rfl, rfl⟩
      · exact .finish 0 hnet hcall ⟨rfl, rfl, rfl⟩

/-- **A call in progress keeps its arguments in `net_local`.** -/
theorem step_matches {s d : Dev} {e : Ev} {o : Out} (hm : Matches s) (hs : step s e = some (d, o)) : Matches d := by
  have hnone : ∀ t : Dev, t.task.call = none → Matches t := fun t h c hc => by rw [h] at hc; cases hc
  obtain ⟨-, ht⟩ := step_took hs
  cases e with
  | fOpen =>
    rw [show d = (netFOpen s).1 from congrArg Prod.fst ht.2]
    intro c hc ho
    rw [netFOpen_getting] at hc
    cases hc
    cases ho
  | seek type offset =>
    rw [show d = (netFSeek s type offset).1 from congrArg Prod.fst ht.2]
    refine hnone _ ?_
    unfold netFSeek
    split
    · split
      · exact congrArg Task.call ht.1
      · exact congrArg Task.call ht.1
    · exact congrArg Task.call ht.1
  | announce len =>
    rw [show d = (netFSendUpdateLen s len).1 from congrArg Prod.fst ht.2]
    refine hnone _ ?_
    unfold netFSendUpdateLen
    split
    · exact congrArg Task.call ht.1
    · exact congrArg Task.call ht.1
  | read buf len =>
    rw [show d = (netFRead s buf len).1 from congrArg Prod.fst ht.2]
    unfold netFRead
    split
    · exact hnone _ (congrArg Task.call ht.1)
    · intro c hc _
      cases hc
      exact ⟨rfl, rfl⟩
  | run =>
    rcases ht with ⟨c, hc, hr⟩ | ⟨c, hc, hr⟩
    · rw [show d = (httpRead s { c with tries := c.tries - 1 }).1 from congrArg Prod.fst hr]
      have hcall : s.task.call = some c := by rw [hc]; rfl
      by_cases hh : hit (primed s.http s.netLocal) s.netLocal = true
      · rw [httpRead_hit hh]
        exact hm.continues (.finish _ rfl hcall ⟨rfl, rfl, rfl⟩)
      · rw [httpRead_miss hh]
        exact hm.continues (.of_call rfl hcall rfl ⟨rfl, rfl, rfl⟩)
    · rw [show d = (startGet s c).1 from congrArg Prod.fst hr]
      exact hm.continues (startGet_continues hc)
  | resolved addr =>
    cases addr with
    | none =>
      obtain ⟨c, port, hc, hr⟩ := ht
      rw [show d = (finish s c 0).1 from congrArg Prod.fst hr]
      have hcall : s.task.call = some c := by rw [hc]; rfl
      exact hm.continues (.finish 0 rfl hcall ⟨rfl, rfl, rfl⟩)
    | some a =>
      obtain ⟨c, port, hc, hr⟩ := ht
      cases hr
      exact hm.continues (.of_call (c := c) rfl (by rw [hc]; rfl) rfl ⟨rfl, rfl, rfl⟩)
  | create ok refused =>
    obtain ⟨c, port, hc, hr⟩ := ht
    cases ok with
    | true =>
      cases hr
      exact hm.continues (.of_call (c := c) rfl (by rw [hc]; rfl) rfl ⟨rfl, rfl, rfl⟩)
    | false =>
      rw [show d = (finish s c 0).1 from congrArg Prod.fst hr]
      have hcall : s.task.call = some c := by rw [hc]; rfl
      exact hm.continues (.finish 0 rfl hcall ⟨rfl, rfl, rfl⟩)
  | go sent =>
    obtain ⟨c, i, hc, -, hr⟩ := ht
    rw [show d = (sendGet s c i sent).1 from congrArg Prod.fst hr]
    exact hm.continues (sendGet_continues sent hc)
  | giveUp =>
    obtain ⟨c, i, hc, hr⟩ := ht
    rw [show d = (abandon s c i).1 from congrArg Prod.fst hr]
    have hcall : s.task.call = some c := by rw [hc]; rfl
    exact hm.continues (.finish 0 rfl hcall ⟨rfl, rfl, rfl⟩)
  | resume =>
    obtain ⟨c, hc, -, hr⟩ := ht
    rw [show d = (resumed { s with readSem := s.readSem - 1 } c).1 from congrArg Prod.fst hr]
    have hcall : s.task.call = some c := by rw [hc]; rfl
    unfold resumed
    split
    · exact hm.continues (.of_call rfl hcall rfl ⟨rfl, rfl, rfl⟩)
    · exact hm.continues (.finish _ rfl hcall ⟨rfl, rfl, rfl⟩)
  | timeout =>
    obtain ⟨c, hc, -, hr⟩ := ht
    rw [show d = (finish s c 0).1 from congrArg Prod.fst hr]
    have hcall : s.task.call = some c := by rw [hc]; rfl
    exact hm.continues (.finish 0 rfl hcall ⟨rfl, rfl, rfl⟩)
  | connect i =>
    cases ht
    exact hm.continues (.of_task rfl rfl)
  | segment i p =>
    rw [show d = (msgrecv s p).1 from congrArg Prod.fst ht]
    have hd := msgrecv_handled s p
    obtain ⟨-, -, hnet, -, htask⟩ := collected_keeps s p
    exact hm.continues (.of_task (hd.netLocal.trans hnet) (hd.task.trans htask))
  | close i =>
    rw [show d = msgclose s i from congrArg Prod.fst ht]
    unfold msgclose
    dsimp only
    split
    · exact hm.continues (.of_task rfl rfl)
    · exact hm.continues (.of_task rfl rfl)

theorem complete_iff (h : HttpOta) : complete h = true ↔ h.recvOffset ≠ 0 ∧ Enough h h.fileSize h.recvOffset := by
  unfold complete Enough
  simp only [Bool.and_eq_true, Bool.or_eq_true, decide_eq_true_eq, bne_iff_ne]
  omega

theorem recvErr_incomplete {s : Dev} (h0 : s.http.recvOffset = 0) (hf : s.fault = false) :
    (recvErr s).fault = false ∧ ¬ complete (recvErr s).http = true := by
  obtain ⟨hle, -, -, -, -, -, hfault, -⟩ := recvErr_spec s
  exact ⟨hfault.trans hf, not_complete_of_empty (by omega)⟩

/-- A segment without a status 206 or without the end of a header brings nothing. -/
theorem collect_headless {s : Dev} {p : List UInt8} (h0 : s.http.recvOffset = 0) (hf : s.fault = false)
    (h : find (ascii "HTTP/1.1 206") ((laid s p).whole s.beyond) = none ∨
      ∀ q, q < p.length → blankAt (laid s p).buf q = false) :
    (collect s p).fault = false ∧ ¬ complete (collect s p).http = true := by
  rw [collect_start h0]
  split
  · exact recvErr_incomplete h0 hf
  · rename_i h' c hp
    rcases h with h | h
    · unfold parseHead at hp
      dsimp only at hp
      rw [show find (ascii "HTTP/1.1 206") ((laid s p).buf.cstr (bufSize + s.beyond) 0) = none from h] at hp
      cases hp
    · obtain ⟨q, -, hq, hb, -⟩ := parseHead_blank hp
      rw [h q hq] at hb
      cases hb
  · rename_i h' hp
    obtain ⟨k, n, rfl⟩ := parseHead_fst hp
    exact recvErr_incomplete h0 hf

/-- **A segment completes the window** exactly when it brings all that was asked for. -/
theorem complete_iff_fills {s : Dev} {i : Nat} {p : List UInt8} (hf : s.fault = false) (hform : Framed s (.segment i p)) :
    (collected s p).fault = false ∧ (complete (collected s p).http = true ↔ Fills s p) := by
  by_cases h0 : s.http.recvOffset = 0
  · by_cases hfit : p.length ≤ bufSize
    · have hcol : collected s p = collect s p := if_pos (by omega)
      rw [hcol]
      have hback : Fills s p → complete (collect s p).http = true := by
        rintro (⟨hne, -⟩ | ⟨-, -, r, b, ⟨hw, rfl, hfound⟩, hne, henough⟩)
        · exact absurd h0 hne
        · obtain ⟨k, m, hc, -⟩ := collect_first hw h0 hfit hfound
          rw [hc, complete_iff]
          exact ⟨Nat.pos_iff_ne_zero.1 (List.length_pos_iff.2 hne), henough⟩
      rcases hform h0 hfit with ⟨r, b, hw, rfl, hfound⟩ | hno
      · obtain ⟨k, m, hc, -⟩ := collect_first hw h0 hfit hfound
        refine ⟨?_, fun hcomp => ?_, hback⟩
        · rw [hc]
          exact hf
        · rw [hc, complete_iff] at hcomp
          obtain ⟨hne, henough⟩ := hcomp
          exact .inr ⟨h0, hfit, r, b, ⟨hw, rfl, hfound⟩, List.length_pos_iff.1 (Nat.pos_of_ne_zero hne), henough⟩
      · obtain ⟨hfault, hnc⟩ := collect_headless h0 hf hno
        exact ⟨hfault, fun hc => absurd hc hnc, hback⟩
    · have hcol : collected s p = s := if_neg (by omega)
      rw [hcol]
      refine ⟨hf, fun hc => absurd hc (not_complete_of_empty h0), ?_⟩
      rintro (⟨hne, -⟩ | ⟨-, hfit', -⟩)
      · exact absurd h0 hne
      · exact absurd hfit' hfit
  · have hfills : Fills s p ↔ Enough s.http s.http.fileSize
        (if s.http.recvOffset + p.length ≤ bufSize then s.http.recvOffset + p.length else s.http.recvOffset) :=
      ⟨fun h => h.elim (fun h => h.2) (fun h => absurd h.1 h0), fun h => .inl ⟨h0, h⟩⟩
    rw [hfills]
    unfold collected
    split
    · rw [collect_more h0, complete_iff]
      exact ⟨hf, fun h => h.2, fun h => ⟨by dsimp only; omega, h⟩⟩
    · rw [complete_iff]
      exact ⟨hf, fun h => h.2, fun h => ⟨h0, h⟩⟩

theorem msgrecv_copies {s : Dev} {p : List UInt8} {src len dst : Nat} :
    (src, len, dst) ∈ (msgrecv s p).2.copies ↔
      ((collected s p).fault = false ∧ complete (collected s p).http = true ∧ s.netLocal.buf ≠ 0 ∧
        s.netLocal.readSize ≠ 0) ∧
      src = windowOffset (collected s p).http s.netLocal ∧ len = s.netLocal.readSize ∧ dst = s.netLocal.buf := by
  obtain ⟨-, -, hnet, -, -⟩ := collected_keeps s p
  unfold msgrecv
  dsimp only
  rw [hnet]
  by_cases hf : (collected s p).fault = true
  · rw [if_pos hf]
    simp [hf]
  · rw [if_neg hf]
    by_cases hc : complete (collected s p).http = true
    · rw [if_pos hc]
      by_cases hb : s.netLocal.buf ≠ 0 ∧ s.netLocal.readSize ≠ 0
      · rw [if_pos hb]
        simp [hf, hc, hb]
      · rw [if_neg hb]
        exact ⟨fun h => (by cases h), fun h => absurd ⟨h.1.2.2.1, h.1.2.2.2⟩ hb⟩
    · rw [if_neg hc]
      simp [hc]

/-- The calls copy nothing through the callback. -/
theorem step_no_copies {s d : Dev} {e : Ev} {o : Out} (hs : step s e = some (d, o))
    (he : ∀ i p, e ≠ .segment i p) : o.copies = [] := by
  have hfin : ∀ (t : Dev) (c : Call) (n : Nat), (finish t c n).2.copies = [] := fun t c n => by
    unfold finish
    split
    · rfl
    · split
      · split
        · rfl
        · rfl
      · rfl
  have hread : ∀ (t : Dev) (c : Call), (httpRead t c).2.copies = [] := fun t c => by
    by_cases hh : hit (primed t.http t.netLocal) t.netLocal = true
    · rw [httpRead_hit hh]
      exact hfin ..
    · rw [httpRead_miss hh]
  obtain ⟨-, ht⟩ := step_took hs
  cases e with
  | fOpen =>
    rw [show o = (netFOpen s).2 from congrArg Prod.snd ht.2]
    exact hread ..
  | seek type offset => rw [show o = _ from congrArg Prod.snd ht.2]
  | announce len => rw [show o = _ from congrArg Prod.snd ht.2]
  | read buf len =>
    rw [show o = (netFRead s buf len).2 from congrArg Prod.snd ht.2]
    unfold netFRead
    split
    · rfl
    · rfl
  | run =>
    rcases ht with ⟨c, hc, hr⟩ | ⟨c, hc, hr⟩
    · rw [show o = (httpRead s { c with tries := c.tries - 1 }).2 from congrArg Prod.snd hr]
      exact hread ..
    · rw [show o = (startGet s c).2 from congrArg Prod.snd hr]
      unfold startGet
      split
      · rfl
      · split
        · rfl
        · exact hfin ..
  | resolved addr =>
    cases addr with
    | none =>
      obtain ⟨c, port, hc, hr⟩ := ht
      rw [show o = (finish s c 0).2 from congrArg Prod.snd hr]
      exact hfin ..
    | some a =>
      obtain ⟨c, port, hc, hr⟩ := ht
      cases hr
      rfl
  | create ok refused =>
    obtain ⟨c, port, hc, hr⟩ := ht
    cases ok with
    | true =>
      cases hr
      rfl
    | false =>
      rw [show o = (finish s c 0).2 from congrArg Prod.snd hr]
      exact hfin ..
  | go sent =>
    obtain ⟨c, i, hc, -, hr⟩ := ht
    rw [show o = (sendGet s c i sent).2 from congrArg Prod.snd hr]
    unfold sendGet
    split
    · exact hfin ..
    · split
      · rfl
      · split
        · rfl
        · exact hfin ..
  | giveUp =>
    obtain ⟨c, i, hc, hr⟩ := ht
    rw [show o = (abandon s c i).2 from congrArg Prod.snd hr]
    exact hfin ..
  | resume =>
    obtain ⟨c, hc, -, hr⟩ := ht
    rw [show o = (resumed { s with readSem := s.readSem - 1 } c).2 from congrArg Prod.snd hr]
    unfold resumed
    split
    · rfl
    · exact hfin ..
  | timeout =>
    obtain ⟨c, hc, -, hr⟩ := ht
    rw [show o = (finish s c 0).2 from congrArg Prod.snd hr]
    exact hfin ..
  | connect i =>
    cases ht
    rfl
  | segment i p => exact absurd rfl (he i p)
  | close i =>
    cases ht
    rfl

theorem step_owned_iff {s d : Dev} {e : Ev} {o : Out} (hm : Matches s) (hs : step s e = some (d, o))
    (hform : Framed s e) : Owned s o ↔ OnTime s e := by
  have hquiet : (∀ i p, e ≠ .segment i p) → Owned s o := fun he src len dst hmem => by
    rw [step_no_copies hs he] at hmem
    cases hmem
  cases e with
  | segment i p =>
    obtain ⟨hf, ht⟩ := step_took hs
    have ho : o = (msgrecv s p).2 := congrArg Prod.snd ht
    obtain ⟨hfault, hiff⟩ := complete_iff_fills hf hform
    constructor
    · intro hown hb hbuf hsize
      have hcopy := (msgrecv_copies (s := s) (p := p)).2 ⟨⟨hfault, hiff.2 hb, hbuf, hsize⟩, rfl, rfl, rfl⟩
      rw [← ho] at hcopy
      obtain ⟨c, hc, hopen, -, -⟩ := hown _ _ _ hcopy
      exact ⟨c, hc, hopen⟩
    · intro honTime src len dst hmem
      rw [ho] at hmem
      obtain ⟨⟨-, hc, hbuf, hsize⟩, -, rfl, rfl⟩ := msgrecv_copies.1 hmem
      obtain ⟨c, hc, hopen⟩ := honTime (hiff.1 hc) hbuf hsize
      obtain ⟨h1, h2⟩ := hm c hc hopen
      exact ⟨c, hc, hopen, h2, h1⟩
  | _ => exact ⟨fun _ => trivial, fun _ => hquiet (fun i p hep => by cases hep)⟩

end Sta

/-! ## Both builds -/

/-- **The callback writes only buffers of reads in progress, in exactly the runs in which no answer ends after its read**,
whatever a client sends in the form of packets that find room, and a server in that of responses. -/
theorem owned_iff_onTime (ram caller : Mem) :
    (∀ es, Ap.machine.AlongWith Ap.Feed.next (fun f s e _ _ => Ap.Framed f s e ∧ Ap.Fits f e) (.bytes [])
      (Ap.opened ram caller) es →
        (Ap.machine.Along (fun s _ _ o => Ap.Owned s o) (Ap.opened ram caller) es ↔
          Ap.machine.AlongWith Ap.Feed.next (fun f s e _ _ => Ap.OnTime f s e) (.bytes []) (Ap.opened ram caller) es)) ∧
    ∀ (url : List UInt8) (inetAddr : List UInt8 → Nat) (beyond : Nat) (es : List Sta.Ev),
      Sta.machine.Along (fun s e _ _ => Sta.Framed s e) (Sta.fresh url inetAddr beyond ram caller) es →
        (Sta.machine.Along (fun s _ _ o => Sta.Owned s o) (Sta.fresh url inetAddr beyond ram caller) es ↔
          Sta.machine.Along (fun s e _ _ => Sta.OnTime s e) (Sta.fresh url inetAddr beyond ram caller) es) := by
  refine ⟨fun es hform => ?_, fun url inetAddr beyond es hform => ?_⟩
  · exact Machine.along_iff_given (fun f s => Ap.Fed f s ∧ Ap.Matches s) (fun f s e d o hI hs hf =>
      ⟨Ap.step_owned_iff hI.2 hI.1 hs hf.1 hf.2, fun _ => Ap.step_keeps hI.2 hI.1 hs hf.1 hf.2⟩) es _ _
      ⟨Ap.fed_opened ram caller, .of_idle rfl⟩ hform
  · have hiff := Machine.along_iff (M := Sta.machine) (Q := fun s e _ o => Sta.Framed s e ∧ Sta.Owned s o)
      (C := fun s e _ _ => Sta.Framed s e ∧ Sta.OnTime s e) Sta.Matches (fun s e d o hm hs =>
        ⟨Sta.step_matches hm hs, and_congr_right (fun hf => Sta.step_owned_iff hm hs hf)⟩) es
      (Sta.fresh url inetAddr beyond ram caller) (fun c hc => by cases hc)
    exact ⟨fun h => (hiff.1 (Machine.along_and hform h)).mono (fun _ _ _ _ h => h.2),
      fun h => (hiff.2 (Machine.along_and hform h)).mono (fun _ _ _ _ h => h.2)⟩

/-- A reply of one byte. -/
def oneByteReply : List UInt8 := [6, 0, 0, 0, 0, 0, 0, 0, 1, 0, 0, 0, 0, 0, 0, 0, 0, 0, 0, 0, 5]

/-- `net_f_open` in the station build times out; a read of two bytes asks again. -/
def asksAgain : List Sta.Ev :=
  Sta.opens ++ [.timeout, .read 9 2, .run, .run, .create true false, .connect 1, .go true]

theorem asksAgain_dev : (Sta.machine.run Sta.ready asksAgain).map (fun r => (r.1.task, r.1.http.recvOffset)) =
    some (.pending ⟨false, 9, 2, 2, 3⟩, 0) := by decide +kernel

theorem owned_iff_onTime_answered :
    Ap.machine.Along (fun s _ _ o => Ap.Owned s o) (Ap.opened (fun _ => 0) (fun _ => 0))
      [.read 8 1 true, .segment oneByteReply, .resume true] ∧
    Sta.machine.Along (fun s _ _ o => Sta.Owned s o) Sta.ready (asksAgain ++ [.segment 1 Sta.twoBytes.bytes, .resume]) := by
  obtain ⟨hap, hsta⟩ := owned_iff_onTime (fun _ => 0) (fun _ => 0)
  refine ⟨(hap _ (by decide +kernel)).2 (by decide +kernel), (hsta (ascii "http://h/f") (fun _ => 0) 0 _ ?_).2 ?_⟩
  · refine Machine.along_of_forall (P := fun e => ∀ s, Sta.Framed s e) (fun s _ _ _ h => h s) _ _ ?_
    have hfirst : ∀ s, Sta.Framed s (.segment 1 Sta.twoBytes.bytes) := fun s _ _ => .inl
      ⟨Sta.twoBytes, Sta.twoBytes.body, Sta.twoBytes_wellFormed, rfl,
        Sta.rangeFound_upper _ Sta.twoBytes_wellFormed
          (Mem.read_append_iff.1 (Mem.read_write_self s.http.buf 0 Sta.twoBytes.bytes)).1 (by decide) (by decide)⟩
    refine List.forall_mem_append.2 ⟨?_, List.forall_mem_cons.2 ⟨hfirst, ?_⟩⟩
    · simp [asksAgain, Sta.opens, Sta.Framed]
    · simp [Sta.Framed]
  · refine Machine.along_append asksAgain _ ?_ (fun s os hr => ?_)
    · refine Machine.along_of_forall (P := fun e => ∀ s, Sta.OnTime s e) (fun s _ _ _ h => h s) _ _ ?_
      simp [asksAgain, Sta.opens, Sta.OnTime]
    · have hdev := asksAgain_dev
      rw [show Sta.machine.run Sta.ready asksAgain = some (s, os) from hr, Option.map_some, Option.some.injEq] at hdev
      simp only [Prod.mk.injEq] at hdev
      exact fun s' o _ => ⟨fun _ _ _ => ⟨⟨false, 9, 2, 2, 3⟩, by rw [hdev.1]; rfl, rfl⟩, fun _ _ _ => ⟨trivial, trivial⟩⟩

/-- **A reply that comes after its read has timed out** is copied to the buffer of that read. -/
theorem not_owned_late :
    ¬ Ap.machine.Along (fun s _ _ o => Ap.Owned s o) (Ap.opened (fun _ => 0) (fun _ => 0))
      ([.read 8 1 true, .timeout true] ++ [.segment oneByteReply]) := by
  intro h
  have hlate : (Ap.machine.run (Ap.opened (fun _ => 0) (fun _ => 0)) [.read 8 1 true, .timeout true]).bind (fun r =>
      (Ap.machine.step r.1 (.segment oneByteReply)).map (fun q => (r.1.task, q.2.accesses))) =
        some (.idle, [.recv 0 21, .sum 4 17, .copy 20 1 8]) := by decide +kernel
  obtain ⟨⟨s, os⟩, hr, hs⟩ := Option.bind_eq_some_iff.1 hlate
  obtain ⟨⟨d, o⟩, hs, heq⟩ := Option.map_eq_some_iff.1 hs
  simp only [Prod.mk.injEq] at heq
  obtain ⟨err, htask⟩ := Machine.along_last h hr hs 20 1 8 (by rw [heq.2]; decide)
  rw [heq.1] at htask
  cases htask

end OtaLoader
