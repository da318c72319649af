import OtaLoader.StaWindow
/-!
# StaRead — reads return the file's bytes

`net_f_read` returns the bytes the window holds, or fetches a new window and takes the next post of the semaphore for its
arrival.  `reads_deliver` is about clean runs in which that post finds the window complete: there every read that returns
a positive value has the file's bytes in the caller's buffer.
-/
namespace OtaLoader
namespace Sta

/-- The call in progress. -/
def Task.call : Task → Option Call
  | .idle           => none
  | .reading c      => some c
  | .getting c      => some c
  | .resolving c _  => some c
  | .creating c _   => some c
  | .connecting c _ => some c
  | .pending c      => some c

/-- `http_read` has begun a window. -/
def Task.waiting : Task → Bool
  | .idle      => false
  | .reading _ => false
  | _          => true

/-! ## The arithmetic of the window -/

/-- The window that `http_read` begins has the bytes asked for in its range. -/
theorem resv_covers {l : NetLocal} (h0 : 0 < l.readSize) (hsize : l.readSize ≤ bufSize) (hseek : l.seekAddr < 4294967296) :
    resv l ≤ l.seekAddr ∧ l.seekAddr + l.readSize ≤ resv l + bufSize := by
  have hbuf : bufSize = 40908 := rfl
  unfold resv u32
  split
  · omega
  · omega

theorem windowOffset_eq {h : HttpOta} {l : NetLocal} (hle : h.rangeStart ≤ l.seekAddr) (hseek : l.seekAddr < 4294967296) :
    windowOffset h l = l.seekAddr - h.rangeStart := by
  unfold windowOffset u32
  omega

theorem Coherent.end_le {file : List UInt8} {answer : Nat → Answer} {w : Web} (h : Coherent file answer w)
    (hne : w.dev.http.recvOffset ≠ 0) : w.dev.http.rangeStart + w.dev.http.recvOffset ≤ file.length := by
  have hlen := congrArg List.length h.window
  rw [Mem.length_read, List.length_take, List.length_drop] at hlen
  omega

/-- **Inside the window, the buffer has the file's bytes.** -/
theorem Coherent.bytes {file : List UInt8} {answer : Nat → Answer} {w : Web} (h : Coherent file answer w) {a n : Nat}
    (ha : w.dev.http.rangeStart ≤ a) (hn : a + n ≤ w.dev.http.rangeStart + w.dev.http.recvOffset) :
    w.dev.http.buf.read (a - w.dev.http.rangeStart) n = (file.drop a).take n := by
  have hwin := h.window
  obtain ⟨k, rfl⟩ := Nat.exists_eq_add_of_le ha
  obtain ⟨m, hm⟩ := Nat.exists_eq_add_of_le (show k + n ≤ w.dev.http.recvOffset by omega)
  rw [hm, Nat.add_assoc, Mem.read_add, Mem.read_add, List.take_add, List.take_add] at hwin
  have h1 := List.append_inj_right hwin (by
    have hlen := congrArg List.length h.window
    rw [Mem.length_read, List.length_take, List.length_drop] at hlen
    rw [Mem.length_read, List.length_take, List.length_drop]
    omega)
  have h2 := List.append_inj_left h1 (by
    have hlen := congrArg List.length h.window
    rw [Mem.length_read, List.length_take, List.length_drop] at hlen
    rw [Mem.length_read, List.length_take, List.length_drop, List.length_drop]
    omega)
  rw [Nat.add_sub_cancel_left]
  rw [Nat.zero_add, List.drop_drop] at h2
  exact h2

/-- A hit covers the bytes asked for. -/
theorem Coherent.hit {file : List UInt8} {answer : Nat → Answer} {w : Web} (h : Coherent file answer w)
    {l : NetLocal} (hh : Sta.hit w.dev.http l = true) (hseek : l.seekAddr + l.readSize < 4294967296) :
    w.dev.http.recvOffset ≠ 0 ∧ w.dev.http.rangeStart ≤ l.seekAddr ∧
      l.seekAddr + l.readSize ≤ w.dev.http.rangeStart + w.dev.http.recvOffset := by
  unfold Sta.hit at hh
  simp only [Bool.not_eq_true', Bool.or_eq_false_iff, beq_eq_false_iff_ne, decide_eq_false_iff_not, Nat.not_lt] at hh
  obtain ⟨⟨hne, hstart⟩, hend⟩ := hh
  have hsmall := h.small hne
  have hle := h.end_le hne
  unfold u32 at hend
  exact ⟨hne, hstart, by omega⟩

/-- **A complete window covers every read in its range and in the file.** -/
theorem Coherent.complete {file : List UInt8} {answer : Nat → Answer} {w : Web} (h : Coherent file answer w)
    (hc : Sta.complete w.dev.http = true) {a n : Nat} (hrange : a + n ≤ w.dev.http.rangeStart + bufSize)
    (hfile : a + n ≤ file.length) :
    w.dev.http.recvOffset ≠ 0 ∧ a + n ≤ w.dev.http.rangeStart + w.dev.http.recvOffset := by
  unfold Sta.complete at hc
  simp only [Bool.and_eq_true, Bool.or_eq_true, bne_iff_ne, decide_eq_true_eq] at hc
  obtain ⟨hne, hc⟩ := hc
  have hsmall := h.small hne
  have hle := h.end_le hne
  refine ⟨hne, ?_⟩
  rcases hc with hc | ⟨hc, hsize⟩
  · have hbuf : bufSize = 40908 := rfl
    unfold u32 at hc
    rcases h.ends hne with he | he
    · omega
    · omega
  · rcases h.size with hs | hs
    · exact absurd hs hsize
    · omega

/-! ## The call in progress -/

/-- What a read in progress has set: its arguments; the window it waits for; and, once that window is complete, the bytes
asked for in the caller's buffer. -/
structure Asks (s : Dev) : Prop where
  args  : ∀ c, s.task.call = some c → c.opening = false →
    s.netLocal.readSize = c.len ∧ s.netLocal.buf = c.buf ∧ 0 < c.len ∧ c.len ≤ bufSize ∧ c.buf ≠ 0
  start : ∀ c, s.task.call = some c → c.opening = false → s.task.waiting = true → s.http.rangeStart = resv s.netLocal
  got   : ∀ c, s.task = .pending c → c.opening = false → complete s.http = true →
    s.caller.read c.buf c.len = s.http.buf.read (windowOffset s.http s.netLocal) c.len

/-- A step that goes on with the call, or ends it, or leaves the calls alone. -/
structure Continues (s d : Dev) : Prop where
  netLocal : d.netLocal = s.netLocal
  call     : ∀ c', d.task.call = some c' →
    ∃ c, s.task.call = some c ∧ c'.opening = c.opening ∧ c'.buf = c.buf ∧ c'.len = c.len

theorem Continues.of_call {s d : Dev} {c c' : Call} (hn : d.netLocal = s.netLocal) (hs : s.task.call = some c)
    (hd : d.task.call = some c') (hcc : c'.opening = c.opening ∧ c'.buf = c.buf ∧ c'.len = c.len) : Continues s d where
  netLocal := hn
  call := fun x hx => by
    rw [hd] at hx
    cases hx
    exact ⟨c, hs, hcc⟩

theorem Continues.of_task {s d : Dev} (hn : d.netLocal = s.netLocal) (ht : d.task = s.task) : Continues s d where
  netLocal := hn
  call := fun c' hc' => ⟨c', ht ▸ hc', rfl, rfl, rfl⟩

theorem Continues.finish {s d : Dev} {c c₀ : Call} (n : Nat) (hn : d.netLocal = s.netLocal)
    (hc : s.task.call = some c₀) (hcc : c.opening = c₀.opening ∧ c.buf = c₀.buf ∧ c.len = c₀.len) :
    Continues s (finish d c n).1 := by
  obtain ⟨t, k, ht, hfin⟩ := finish_fst d c n
  rw [hfin]
  rcases ht with rfl | rfl
  · exact ⟨hn, fun c' hc' => by cases hc'⟩
  · exact .of_call hn hc rfl hcc

/-- A step of a read. -/
structure Keeps (s d : Dev) : Prop extends Continues s d where
  waiting : d.task.waiting = true → s.task.waiting = true ∧ d.http.rangeStart = s.http.rangeStart
  pending : ∀ c, d.task = .pending c → d.http.recvOffset = 0 ∨
    (s.task = .pending c ∧ d.caller = s.caller ∧ d.http.buf = s.http.buf ∧ complete d.http = complete s.http)

theorem not_complete_of_empty {h : HttpOta} (h0 : h.recvOffset = 0) : ¬ complete h = true := by
  unfold complete
  rw [h0]
  simp

theorem Asks.keeps {s d : Dev} (h : Asks s) (hk : Keeps s d) : Asks d where
  args := fun c' hc' ho => by
    obtain ⟨c, hc, h1, h2, h3⟩ := hk.call c' hc'
    rw [hk.netLocal, h2, h3]
    exact h.args c hc (h1 ▸ ho)
  start := fun c' hc' ho hw => by
    obtain ⟨c, hc, h1, -, -⟩ := hk.call c' hc'
    obtain ⟨hw', hstart⟩ := hk.waiting hw
    rw [hk.netLocal, hstart]
    exact h.start c hc (h1 ▸ ho) hw'
  got := fun c ht ho hc => by
    rcases hk.pending c ht with h0 | ⟨hs, h1, h2, h3⟩
    · exact absurd hc (not_complete_of_empty h0)
    · have hstart := (hk.waiting (by rw [ht]; rfl)).2
      rw [h1, h2, windowOffset, hk.netLocal, hstart]
      exact h.got c hs ho (h3 ▸ hc)

/-- A call of `http_read` ends. -/
theorem Keeps.finish {s d : Dev} {c c₀ : Call} (n : Nat) (hn : d.netLocal = s.netLocal) (hc : s.task.call = some c₀)
    (hcc : c.opening = c₀.opening ∧ c.buf = c₀.buf ∧ c.len = c₀.len) : Keeps s (finish d c n).1 := by
  refine ⟨.finish n hn hc hcc, fun hw => ?_, fun c' hp => ?_⟩
  · obtain ⟨t, k, rfl | rfl, hfin⟩ := finish_fst d c n
    · rw [hfin] at hw
      cases hw
    · rw [hfin] at hw
      cases hw
  · obtain ⟨t, k, rfl | rfl, hfin⟩ := finish_fst d c n
    · rw [hfin] at hp
      cases hp
    · rw [hfin] at hp
      cases hp

/-- The next piece of `http_get`. -/
theorem Keeps.goes {s d : Dev} {c : Call} (hn : d.netLocal = s.netLocal) (hc : s.task.call = some c)
    (hcd : d.task.call = some c) (hw : s.task.waiting = true) (hstart : d.http.rangeStart = s.http.rangeStart)
    (hp : ∀ c', d.task = .pending c' → d.http.recvOffset = 0) : Keeps s d :=
  ⟨.of_call hn hc hcd ⟨rfl, rfl, rfl⟩, fun _ => ⟨hw, hstart⟩, fun c' ht => Or.inl (hp c' ht)⟩

/-- A step beside the call. -/
theorem Keeps.beside {s d : Dev} (hn : d.netLocal = s.netLocal) (ht : d.task = s.task)
    (hstart : d.http.rangeStart = s.http.rangeStart) (hcaller : d.caller = s.caller) (hbuf : d.http.buf = s.http.buf)
    (hc : complete d.http = complete s.http) : Keeps s d :=
  ⟨.of_task hn ht, fun hw => ⟨ht ▸ hw, hstart⟩, fun _ hp => Or.inr ⟨ht ▸ hp, hcaller, hbuf, hc⟩⟩

/-- No call is in progress. -/
theorem Asks.of_idle {d : Dev} (h : d.task.call = none) : Asks d where
  args := fun c hc => by rw [h] at hc; cases hc
  start := fun c hc => by rw [h] at hc; cases hc
  got := fun c hc => by rw [hc] at h; cases h

/-- `net_f_open` reads for itself. -/
theorem Asks.of_opening {d : Dev} {c : Call} (h : d.task.call = some c) (ho : c.opening = true) : Asks d where
  args := fun c' hc hf => by
    rw [h] at hc
    cases hc
    rw [ho] at hf
    cases hf
  start := fun c' hc hf => by
    rw [h] at hc
    cases hc
    rw [ho] at hf
    cases hf
  got := fun c' hc hf => by
    rw [hc] at h
    cases h
    rw [ho] at hf
    cases hf

theorem netFOpen_getting (s : Dev) : (netFOpen s).1.task.call = some ⟨true, 0, 0, 0, 3⟩ := by
  unfold netFOpen
  dsimp only
  rw [httpRead_miss (fun h => by simp [hit, primed_recvOffset] at h)]
  rfl

/-- The claim's domain: reads into a buffer that is there, of no more than the window's size. -/
def Asked : Ev → Prop
  | .read buf len => buf ≠ 0 ∧ 0 < len ∧ len ≤ bufSize
  | _             => True

theorem httpRead_asks {s : Dev} {c c₀ : Call} (h : Asks s) (hs : s.task = .reading c₀)
    (hcc : c.opening = c₀.opening ∧ c.buf = c₀.buf ∧ c.len = c₀.len) : Asks (httpRead s c).1 := by
  have hcall : s.task.call = some c₀ := by rw [hs]; rfl
  by_cases hh : hit (primed s.http s.netLocal) s.netLocal = true
  · rw [httpRead_hit hh]
    exact h.keeps (.finish _ rfl hcall hcc)
  · rw [httpRead_miss hh]
    refine ⟨fun c' hc' ho => ?_, fun _ _ _ _ => rfl, fun c' hc' => by cases hc'⟩
    cases hc'
    have := h.args c₀ hcall (hcc.1 ▸ ho)
    rw [hcc.2.1, hcc.2.2]
    exact this

theorem startGet_keeps {s : Dev} {c : Call} (hs : s.task = .getting c) (h0 : s.http.recvOffset = 0) :
    Keeps s (startGet s c).1 := by
  obtain ⟨h1, -, h3, h4, -, h6⟩ := parseUrl_begins (s := { s with readSem := 0 }) h0
  have hcall : s.task.call = some c := by rw [hs]; rfl
  have hw : s.task.waiting = true := by rw [hs]; rfl
  unfold startGet
  cases hp : parseUrl { s with readSem := 0 } with
  | mk d port =>
    rw [hp] at h1 h3 h4 h6
    cases port with
    | none =>
      dsimp only
      split
      · exact .goes h4 hcall (by rw [h6]; exact hcall) hw h3 (fun _ _ => h1)
      · exact .finish 0 h4 hcall ⟨rfl, rfl, rfl⟩
    | some port =>
      dsimp only
      unfold resolve
      dsimp only
      split
      · split
        · exact .goes h4 hcall rfl hw h3 (fun _ hc => by cases hc)
        · exact .goes h4 hcall rfl hw h3 (fun _ hc => by cases hc)
      · exact .goes h4 hcall rfl hw h3 (fun _ hc => by cases hc)

theorem sendGet_keeps {s : Dev} {c : Call} {i : Nat} (sent : Bool) (hs : s.task = .connecting c i)
    (h0 : s.http.recvOffset = 0) : Keeps s (sendGet s c i sent).1 := by
  have hcall : s.task.call = some c := by rw [hs]; rfl
  have hw : s.task.waiting = true := by rw [hs]; rfl
  have hnet : (writeRequest s).1.netLocal = s.netLocal := by
    unfold writeRequest
    dsimp only
    split
    · rfl
    · rfl
  obtain ⟨h1, -, h3, -⟩ := writeRequest_keeps s
  unfold sendGet
  split
  · exact .finish 0 rfl hcall ⟨rfl, rfl, rfl⟩
  · split
    · rename_i d hd
      rw [hd] at h1 h3 hnet
      exact .goes hnet hcall rfl hw h3 (fun _ _ => h1.trans h0)
    · rename_i d q hd
      rw [hd] at h1 h3 hnet
      split
      · exact .goes hnet hcall rfl hw h3 (fun _ _ => h1.trans h0)
      · exact .finish 0 hnet hcall ⟨rfl, rfl, rfl⟩

/-- **Every step but a segment keeps what the read in progress has set.** -/
theorem step_asks {s d : Dev} {e : Ev} {o : Out} (h : Asks s) (hs : step s e = some (d, o)) (hask : Asked e)
    (hseg : ∀ i p, e ≠ .segment i p) (h0 : s.task.fetching = true → s.http.recvOffset = 0) : Asks d := by
  obtain ⟨-, ht⟩ := step_took hs
  cases e with
  | fOpen =>
    obtain ⟨-, hr⟩ := ht
    rw [show d = (netFOpen s).1 from congrArg Prod.fst hr]
    exact .of_opening (netFOpen_getting s) rfl
  | seek type offset =>
    obtain ⟨hi, hr⟩ := ht
    refine .of_idle ?_
    rw [show d = (netFSeek s type offset).1 from congrArg Prod.fst hr]
    unfold netFSeek
    split
    · split
      · exact congrArg Task.call hi
      · exact congrArg Task.call hi
    · exact congrArg Task.call hi
  | announce len =>
    obtain ⟨hi, hr⟩ := ht
    refine .of_idle ?_
    rw [show d = (netFSendUpdateLen s len).1 from congrArg Prod.fst hr]
    unfold netFSendUpdateLen
    split
    · exact congrArg Task.call hi
    · exact congrArg Task.call hi
  | read buf len =>
    obtain ⟨hi, hr⟩ := ht
    rw [show d = (netFRead s buf len).1 from congrArg Prod.fst hr]
    unfold netFRead
    split
    · exact .of_idle (congrArg Task.call hi)
    · refine ⟨fun c hc _ => ?_, fun c _ _ hw => (by cases hw), fun c hc => by cases hc⟩
      cases hc
      exact ⟨rfl, rfl, hask.2.1, hask.2.2, hask.1⟩
  | run =>
    rcases ht with ⟨c, hc, hr⟩ | ⟨c, hc, hr⟩
    · rw [show d = (httpRead s { c with tries := c.tries - 1 }).1 from congrArg Prod.fst hr]
      exact httpRead_asks h hc ⟨rfl, rfl, rfl⟩
    · rw [show d = (startGet s c).1 from congrArg Prod.fst hr]
      exact h.keeps (startGet_keeps hc (h0 (by rw [hc]; rfl)))
  | resolved addr =>
    cases addr with
    | none =>
      obtain ⟨c, port, hc, hr⟩ := ht
      rw [show d = (finish s c 0).1 from congrArg Prod.fst hr]
      have hcall : s.task.call = some c := by rw [hc]; rfl
      exact h.keeps (.finish 0 rfl hcall ⟨rfl, rfl, rfl⟩)
    | some a =>
      obtain ⟨c, port, hc, hr⟩ := ht
      cases hr
      exact h.keeps (.goes (c := c) rfl (by rw [hc]; rfl) rfl (by rw [hc]; rfl) rfl (fun _ hp => by cases hp))
  | create ok refused =>
    obtain ⟨c, port, hc, hr⟩ := ht
    cases ok with
    | true =>
      rw [show d = createPcb s c port refused from congrArg Prod.fst hr]
      exact h.keeps (.goes (c := c) rfl (by rw [hc]; rfl) rfl (by rw [hc]; rfl) rfl (fun _ hp => by cases hp))
    | false =>
      rw [show d = (finish s c 0).1 from congrArg Prod.fst hr]
      have hcall : s.task.call = some c := by rw [hc]; rfl
      exact h.keeps (.finish 0 rfl hcall ⟨rfl, rfl, rfl⟩)
  | go sent =>
    obtain ⟨c, i, hc, -, hr⟩ := ht
    rw [show d = (sendGet s c i sent).1 from congrArg Prod.fst hr]
    exact h.keeps (sendGet_keeps sent hc (h0 (by rw [hc]; rfl)))
  | giveUp =>
    obtain ⟨c, i, hc, hr⟩ := ht
    rw [show d = (abandon s c i).1 from congrArg Prod.fst hr]
    have hcall : s.task.call = some c := by rw [hc]; rfl
    exact h.keeps (.finish 0 rfl hcall ⟨rfl, rfl, rfl⟩)
  | resume =>
    obtain ⟨c, hc, -, hr⟩ := ht
    rw [show d = (resumed { s with readSem := s.readSem - 1 } c).1 from congrArg Prod.fst hr]
    have hcall : s.task.call = some c := by rw [hc]; rfl
    unfold resumed
    split
    · exact h.keeps ⟨.of_call rfl hcall rfl ⟨rfl, rfl, rfl⟩, fun _ => ⟨by rw [hc]; rfl, rfl⟩, fun _ hp => by cases hp⟩
    · exact h.keeps (.finish _ rfl hcall ⟨rfl, rfl, rfl⟩)
  | timeout =>
    obtain ⟨c, hc, -, hr⟩ := ht
    rw [show d = (finish s c 0).1 from congrArg Prod.fst hr]
    have hcall : s.task.call = some c := by rw [hc]; rfl
    exact h.keeps (.finish 0 rfl hcall ⟨rfl, rfl, rfl⟩)
  | connect i =>
    cases ht
    exact h.keeps (.beside rfl rfl rfl rfl rfl rfl)
  | segment i p => exact absurd rfl (hseg i p)
  | close i =>
    rw [show d = msgclose s i from congrArg Prod.fst ht]
    unfold msgclose
    dsimp only
    split
    · exact h.keeps (.beside rfl rfl rfl rfl rfl rfl)
    · exact h.keeps (.beside rfl rfl rfl rfl rfl rfl)

/-! ## What a call returns -/

theorem finish_ret {s : Dev} {c : Call} {n : Nat} {v : Int} (h : (finish s c n).2.ret = some v) (hv : 0 < v)
    (ho : c.opening = false) : n ≠ 0 ∧ v = s.netLocal.readSize := by
  unfold finish at h
  rw [ho, if_neg (by decide)] at h
  split at h
  · split at h
    · cases h
    · cases h
      exact absurd hv (by decide)
  · rename_i hn
    cases h
    exact ⟨hn, rfl⟩

theorem finish_caller (s : Dev) (c : Call) (n : Nat) : (finish s c n).1.caller = s.caller := by
  obtain ⟨t, k, -, hfin⟩ := finish_fst s c n
  rw [hfin]

/-- The wait ended with an error, and a try is left. -/
def Redoes (s : Dev) (c : Call) : Prop := s.netRecvErr ≠ 0 ∧ c.cnt - 1 ≠ 0 ∧ s.netOtaStop = false

/-- How a read comes to return a positive value: from the window, or after the wait for the semaphore. -/
inductive Returns (s : Dev) (e : Ev) (d : Dev) (c : Call) : Prop where
  | window (he : e = .run) (hs : s.task = .reading c) (hh : hit (primed s.http s.netLocal) s.netLocal = true)
      (hd : d.caller = s.caller.write s.netLocal.buf
        (s.http.buf.read (windowOffset s.http s.netLocal) s.netLocal.readSize))
  | woken (he : e = .resume) (hs : s.task = .pending c) (hr : ¬ Redoes s c) (hd : d.caller = s.caller)

theorem step_ret {s d : Dev} {e : Ev} {o : Out} {c : Call} {v : Int} (hs : step s e = some (d, o))
    (hc : s.task.call = some c) (ho : c.opening = false) (hret : o.ret = some v) (hv : 0 < v) :
    v = s.netLocal.readSize ∧ Returns s e d c := by
  obtain ⟨-, ht⟩ := step_took hs
  have hidle : ¬ s.task = .idle := fun h => by rw [h] at hc; cases hc
  have hfail : ∀ (t : Dev) (c' : Call), c'.opening = false → (d, o) = finish t c' 0 → False := fun t c' ho' hr => by
    have hr' : (finish t c' 0).2.ret = some v := by rw [← hr]; exact hret
    exact (finish_ret hr' hv ho').1 rfl
  cases e with
  | fOpen => exact absurd ht.1 hidle
  | seek type offset => exact absurd ht.1 hidle
  | announce len => exact absurd ht.1 hidle
  | read buf len => exact absurd ht.1 hidle
  | run =>
    rcases ht with ⟨c', hr', hr⟩ | ⟨c', hg, hr⟩
    · rw [hr'] at hc
      cases hc
      by_cases hh : hit (primed s.http s.netLocal) s.netLocal = true
      · rw [httpRead_hit hh] at hr
        have hr' : (finish (served s) { c with tries := c.tries - 1 } s.netLocal.readSize).2.ret = some v := by
          rw [← hr]
          exact hret
        refine ⟨(finish_ret hr' hv ho).2, .window rfl ‹_› hh ?_⟩
        rw [show d = (finish (served s) { c with tries := c.tries - 1 } s.netLocal.readSize).1 from congrArg Prod.fst hr,
          finish_caller]
        rfl
      · rw [httpRead_miss hh] at hr
        cases hr
        cases hret
    · rw [hg] at hc
      cases hc
      unfold startGet at hr
      split at hr
      · cases hr
        cases hret
      · split at hr
        · cases hr
          cases hret
        · exact absurd hr (hfail _ c ho)
  | resolved addr =>
    cases addr with
    | none =>
      obtain ⟨c', port, hg, hr⟩ := ht
      rw [hg] at hc
      cases hc
      exact absurd hr (hfail _ c ho)
    | some a =>
      obtain ⟨c', port, hg, hr⟩ := ht
      cases hr
      cases hret
  | create ok refused =>
    obtain ⟨c', port, hg, hr⟩ := ht
    rw [hg] at hc
    cases hc
    cases ok with
    | true =>
      cases hr
      cases hret
    | false => exact absurd hr (hfail _ c ho)
  | go sent =>
    obtain ⟨c', i, hg, -, hr⟩ := ht
    rw [hg] at hc
    cases hc
    unfold sendGet at hr
    split at hr
    · exact absurd hr (hfail _ c ho)
    · split at hr
      · cases hr
        cases hret
      · split at hr
        · cases hr
          cases hret
        · exact absurd hr (hfail _ c ho)
  | giveUp =>
    obtain ⟨c', i, hg, hr⟩ := ht
    rw [hg] at hc
    cases hc
    exact absurd hr (hfail _ c ho)
  | resume =>
    obtain ⟨c', hg, -, hr⟩ := ht
    have hgc := hg
    rw [hg] at hc
    cases hc
    unfold resumed at hr
    split at hr
    · cases hr
      cases hret
    · rename_i hredo
      have hret' := congrArg (fun r => r.2.ret) hr
      have hd := congrArg (fun r => r.1.caller) hr
      exact ⟨(finish_ret (hret'.symm.trans hret) hv ho).2, .woken rfl hgc hredo (hd.trans (finish_caller _ _ _))⟩
  | timeout =>
    obtain ⟨c', hg, -, hr⟩ := ht
    rw [hg] at hc
    cases hc
    exact absurd hr (hfail _ c ho)
  | connect i =>
    cases ht
    cases hret
  | segment i p =>
    have hr : o = (msgrecv s p).2 := congrArg Prod.snd ht
    have hnone : (msgrecv s p).2.ret = none := by
      unfold msgrecv
      dsimp only
      split
      · rfl
      · split
        · split
          · rfl
          · rfl
        · rfl
    rw [hr, hnone] at hret
    cases hret
  | close i =>
    cases ht
    cases hret

/-! ## Runs -/

theorem msgrecv_complete {s : Dev} {p : List UInt8} (hf : (collected s p).fault = false)
    (hc : complete (collected s p).http = true) (hb : (collected s p).netLocal.buf ≠ 0)
    (hr : (collected s p).netLocal.readSize ≠ 0) :
    (msgrecv s p).1.caller = (collected s p).caller.write (collected s p).netLocal.buf
      ((collected s p).http.buf.read (windowOffset (collected s p).http (collected s p).netLocal)
        (collected s p).netLocal.readSize) := by
  unfold msgrecv
  dsimp only
  rw [hf, if_neg (by decide), if_pos hc, if_pos ⟨hb, hr⟩]

/-- **A segment of a clean run keeps what the read in progress has set**: the one that completes the window copies the
bytes asked for. -/
theorem segment_asks {file : List UInt8} {answer : Nat → Answer} {w : Web} {i : Nat} {p : List UInt8} (hw : Asks w.dev)
    (hcoh : Coherent file answer w) (hf : w.dev.fault = false) (hh : Honest file answer w (.segment i p))
    (hc : Clean answer w (.segment i p)) : Asks (msgrecv w.dev p).1 := by
  obtain ⟨ht, -, hstart, -, hfault, hnet⟩ := (segment_brings hcoh hh hc).frame
  have hd := msgrecv_handled w.dev p
  have htask : (msgrecv w.dev p).1.task = w.dev.task := hd.task.trans ht
  have hlocal : (msgrecv w.dev p).1.netLocal = w.dev.netLocal := hd.netLocal.trans hnet
  refine ⟨fun c hcall ho => ?_, fun c hcall ho hwait => ?_, fun c hp ho hcomp => ?_⟩
  · rw [htask] at hcall
    rw [hlocal]
    exact hw.args c hcall ho
  · rw [htask] at hcall hwait
    rw [hlocal, hd.http, hstart]
    exact hw.start c hcall ho hwait
  · rw [htask] at hp
    obtain ⟨h1, h2, h3, -, h5⟩ := hw.args c (by rw [hp]; rfl) ho
    rw [hd.http] at hcomp
    rw [msgrecv_complete (hfault.trans hf) hcomp (by rw [hnet, h2]; exact h5) (by rw [hnet, h1]; omega), hd.http, hlocal,
      hnet, h1, h2]
    have hself := Mem.read_write_self (collected w.dev p).caller c.buf
      ((collected w.dev p).http.buf.read (windowOffset (collected w.dev p).http w.dev.netLocal) c.len)
    rw [Mem.length_read] at hself
    exact hself

/-- The reads of a run end well: one from the window asks for an address below 2^32 to its end, and one that waited finds
the window complete and lies in the file. -/
def Sound (file : List UInt8) (s : Dev) : Ev → Prop
  | .run    => ∀ c, s.task = .reading c → hit (primed s.http s.netLocal) s.netLocal = true →
      s.netLocal.seekAddr + s.netLocal.readSize < 4294967296
  | .resume => ∀ c, s.task = .pending c → c.opening = false → ¬ Redoes s c →
      complete s.http = true ∧ s.netLocal.seekAddr + s.netLocal.readSize ≤ file.length
  | _       => True

/-- A read that returns a positive value has read the file. -/
def Delivers (file : List UInt8) (s d : Dev) (o : Out) : Prop :=
  ∀ c v, s.task.call = some c → c.opening = false → o.ret = some v → 0 < v →
    v = c.len ∧ s.netLocal.seekAddr + c.len ≤ file.length ∧
      d.caller.read c.buf c.len = (file.drop s.netLocal.seekAddr).take c.len

/-- **What a sound step of a clean run returns is the file's.** -/
theorem step_delivers {file : List UInt8} {answer : Nat → Answer} {w : Web} {d : Dev} {e : Ev} {o : Out}
    (hcoh : Coherent file answer w) (hw : Asks w.dev) (hs : step w.dev e = some (d, o)) (hsound : Sound file w.dev e) :
    Delivers file w.dev d o := by
  intro c v hcall ho hret hv
  obtain ⟨rfl, hserve⟩ := step_ret hs hcall ho hret hv
  obtain ⟨h1, h2, h3, h4, -⟩ := hw.args c hcall ho
  cases hserve with
  | window he ht hh hd =>
    subst he
    have hseek := hsound c ht hh
    rw [primed_of_hit hh] at hh
    obtain ⟨hne, hle, hend⟩ := hcoh.hit hh hseek
    have hbytes := hcoh.bytes hle hend
    have hfile := hcoh.end_le hne
    have hself := Mem.read_write_self w.dev.caller w.dev.netLocal.buf
      (w.dev.http.buf.read (windowOffset w.dev.http w.dev.netLocal) w.dev.netLocal.readSize)
    rw [Mem.length_read, windowOffset_eq hle (by omega), hbytes] at hself
    rw [windowOffset_eq hle (by omega), hbytes] at hd
    rw [h1] at hself hend hd ⊢
    rw [hd, ← h2]
    exact ⟨rfl, by omega, hself⟩
  | woken he ht hr hd =>
    subst he
    obtain ⟨hcomp, hfile⟩ := hsound c ht ho hr
    have hgot := hw.got c ht ho hcomp
    have hstart := hw.start c hcall ho (by rw [ht]; rfl)
    have hne : w.dev.http.recvOffset ≠ 0 := fun h0 => not_complete_of_empty h0 hcomp
    have hsmall := hcoh.small hne
    obtain ⟨hle, hrange⟩ := resv_covers (l := w.dev.netLocal) (by omega) (by omega) (by omega)
    rw [← hstart] at hle hrange
    obtain ⟨-, hend⟩ := hcoh.complete hcomp hrange hfile
    rw [windowOffset_eq hle (by omega), ← h1, hcoh.bytes hle hend, h1] at hgot
    rw [h1] at hfile ⊢
    rw [hd]
    exact ⟨rfl, hfile, hgot⟩

/-- **Each step of such a run keeps what holds.** -/
theorem coherent_asks_step {file : List UInt8} {answer : Nat → Answer} {w w' : Web} {e : Ev} {o : Out}
    (h : Coherent file answer w ∧ Asks w.dev) (hs : web.step w e = some (w', o)) (hh : Honest file answer w e)
    (hc : Clean answer w e) (hask : Asked e) : Coherent file answer w' ∧ Asks w'.dev := by
  refine ⟨(coherent_step h.1 hs hh hc).1, ?_⟩
  obtain ⟨⟨d, o'⟩, hd, heq⟩ := Option.map_eq_some_iff.1 hs
  simp only [Prod.mk.injEq] at heq
  obtain ⟨rfl, rfl⟩ := heq
  have hquiet : (∀ i p, e ≠ .segment i p) → Asks d := fun he =>
    step_asks h.2 hd hask he (fun hf => (h.1.fetching hf).1)
  cases e with
  | segment i p =>
    obtain ⟨hf, ht⟩ := step_took hd
    have hr : d = (msgrecv w.dev p).1 := congrArg Prod.fst ht
    show Asks d
    rw [hr]
    exact segment_asks h.2 h.1 hf hh hc
  | _ => exact hquiet (fun i p hep => by cases hep)

/-- **Reads deliver the file in every clean and sound run.** -/
theorem reads_deliver (file : List UInt8) (answer : Nat → Answer) (url : List UInt8) (inetAddr : List UInt8 → Nat)
    (beyond : Nat) (ram caller : Mem) (es : List Ev)
    (h : web.Along (fun w e _ _ => Honest file answer w e ∧ Asked e ∧ Clean answer w e ∧ Sound file w.dev e)
      (.start (fresh url inetAddr beyond ram caller)) es) :
    web.Along (fun w _ w' o => Delivers file w.dev w'.dev o) (.start (fresh url inetAddr beyond ram caller)) es :=
  Machine.along_of_inv (fun w => Coherent file answer w ∧ Asks w.dev)
    (fun _ _ _ _ hI hs hC => by
      refine ⟨coherent_asks_step hI hs hC.1 hC.2.2.1 hC.2.1, ?_⟩
      obtain ⟨⟨d, o'⟩, hd, heq⟩ := Option.map_eq_some_iff.1 hs
      simp only [Prod.mk.injEq] at heq
      obtain ⟨rfl, rfl⟩ := heq
      exact step_delivers hI.1 hI.2 hd hC.2.2.2)
    es _ ⟨coherent_start .., .of_idle rfl⟩ h

/-! ## A read in the file, and one over its end -/

def opened : List Ev := opens ++ [.segment 0 twoBytes.bytes, .resume]

/-- Both bytes are read. -/
def readsBoth : List Ev := opened ++ [.read 9 2, .run]

/-- Three bytes are read of a file of two. -/
def readsOver : List Ev :=
  opened ++ [.read 9 3, .run, .run, .create true false, .connect 1, .go true, .segment 1 twoBytes.bytes]

theorem readsBoth_tasks :
    (web.run (.start ready) (readsBoth.take 1)).map (fun r => r.1.dev.task) = some (.getting ⟨true, 0, 0, 0, 3⟩) ∧
      (web.run (.start ready) (readsBoth.take 7)).map (fun r => r.1.dev.task) = some (.pending ⟨true, 0, 0, 0, 3⟩) ∧
      (web.run (.start ready) (readsBoth.take 9)).map (fun r => r.1.dev.netLocal) = some ⟨0, 2, 0, 1, 9⟩ := by
  refine ⟨?_, ?_, ?_⟩ <;> decide +kernel

theorem reads_deliver_both :
    web.Along (fun w _ w' o => Delivers [7, 8] w.dev w'.dev o) (.start ready) readsBoth := by
  refine reads_deliver [7, 8] (fun _ => .content twoBytes) _ _ _ _ _ _ (Machine.along_of_take _ _ ?_)
  intro n e he w os hr
  have hr : web.run (.start ready) (readsBoth.take n) = some (w, os) := hr
  obtain ⟨h1, h7, h9⟩ := readsBoth_tasks
  rcases n with _ | _ | _ | _ | _ | _ | _ | _ | _ | _ | n
  · cases he
    exact ⟨trivial, trivial, trivial, trivial⟩
  · cases he
    rw [hr, Option.map_some, Option.some.injEq] at h1
    exact ⟨trivial, trivial, trivial, fun c hc => by rw [h1] at hc; cases hc⟩
  · cases he
    exact ⟨trivial, trivial, trivial, trivial⟩
  · cases he
    exact ⟨trivial, trivial, trivial, trivial⟩
  · cases he
    exact ⟨trivial, trivial, trivial, trivial⟩
  · cases he
    exact ⟨trivial, trivial, trivial, trivial⟩
  · cases he
    have hw := opens_web
    rw [show web.run (.start ready) opens = some (w, os) from hr, Option.map_some, Option.some.injEq] at hw
    simp only [Prod.mk.injEq] at hw
    obtain ⟨⟨hcur, -, hgot⟩, hreq, h0⟩ := hw
    exact ⟨honest_twoBytes (Or.inl rfl) hgot hreq, trivial, clean_twoBytes hcur hgot h0, trivial⟩
  · cases he
    rw [hr, Option.map_some, Option.some.injEq] at h7
    exact ⟨trivial, trivial, trivial, fun c hc ho => by rw [h7] at hc; cases hc; cases ho⟩
  · cases he
    exact ⟨trivial, ⟨by decide, by decide, by decide⟩, trivial, trivial⟩
  · cases he
    rw [hr, Option.map_some, Option.some.injEq] at h9
    exact ⟨trivial, trivial, trivial, fun _ _ _ => by rw [h9]; decide⟩
  · cases he

/-- **A read over the end of the file succeeds.** -/
theorem not_reads_deliver :
    ¬ ∀ (file : List UInt8) (answer : Nat → Answer) (es : List Ev),
      web.Along (fun w e _ _ => Honest file answer w e ∧ Asked e) (.start ready) es →
        web.Along (fun w _ w' o => Delivers file w.dev w'.dev o) (.start ready) es := by
  intro h
  have hover : web.Along (fun w e _ _ => Honest [7, 8] (fun _ => .content twoBytes) w e ∧ Asked e) (.start ready)
      (readsOver ++ [.resume]) := by
    refine Machine.along_of_take _ _ (fun n e he w os hr => ?_)
    have h14 : (web.run (.start ready) (readsOver.take 14)).map (fun r =>
        (r.1.got 1, (r.1.dev.request 1).map (fun q => (q.first, q.stop)))) = some (0, some (0, 2)) := by decide +kernel
    rcases n with _ | _ | _ | _ | _ | _ | _ | _ | _ | _ | _ | _ | _ | _ | _ | _ | n
    all_goals try (cases he; exact ⟨trivial, trivial⟩)
    · cases he
      have hw := opens_web
      rw [show web.run (.start ready) opens = some (w, os) from hr, Option.map_some, Option.some.injEq] at hw
      simp only [Prod.mk.injEq] at hw
      exact ⟨honest_twoBytes (Or.inl rfl) hw.1.2.2 hw.2.1, trivial⟩
    · cases he
      exact ⟨trivial, by decide, by decide, by decide⟩
    · cases he
      rw [show web.run (.start ready) (readsOver.take 14) = some (w, os) from hr, Option.map_some,
        Option.some.injEq] at h14
      simp only [Prod.mk.injEq] at h14
      exact ⟨honest_twoBytes (Or.inr rfl) h14.1 h14.2, trivial⟩
    · cases he
  have hlast : (web.run (.start ready) readsOver).bind (fun r => (web.step r.1 .resume).map (fun q =>
      (r.1.dev.task, r.1.dev.netLocal.seekAddr, q.2.ret))) = some (.pending ⟨false, 9, 3, 2, 3⟩, 0, some 3) := by
    decide +kernel
  obtain ⟨⟨w, os⟩, hr, hw⟩ := Option.bind_eq_some_iff.1 hlast
  obtain ⟨⟨w', o⟩, hs, heq⟩ := Option.map_eq_some_iff.1 hw
  simp only [Prod.mk.injEq] at heq
  obtain ⟨htask, hseek, hret⟩ := heq
  have hdel := Machine.along_last (h _ _ _ hover) hr hs ⟨false, 9, 3, 2, 3⟩ 3 (by rw [htask]; rfl) rfl hret (by decide)
  rw [hseek] at hdel
  exact absurd hdel.2.1 (by decide)

end Sta
end OtaLoader
