import OtaLoader.BlockAhead
/-!
# BlockFinish — block reads that come to their end

The two blocks that prefetching keeps are a list of addresses (`kept`): a read takes its own out of the list, an answer
joins it where there is room.  While reads begin with no request unanswered, and prefetching that was just switched on
is gone on with, the blocks kept and the requests in flight are exactly those that reads still want (`Live`); so every
read ends (`reads_finish`).
-/
namespace OtaLoader
namespace Block

/-- The addresses of the blocks that are kept. -/
def PreRead.kept (p : PreRead) : List Nat :=
  (if p.busy0 then [p.buf0Addr] else []) ++ if p.busy1 then [p.buf1Addr] else []

variable {b : Env}

/-! ## The blocks as a list -/

theorem getUpdatePreReadBuf_mem {d : Dev} {addr : Nat} (h : addr ∈ d.pre.kept) (len : Nat) :
    ∃ d', getUpdatePreReadBuf b d addr len = some d' ∧ d'.pre.kept = d.pre.kept.erase addr := by
  unfold getUpdatePreReadBuf
  cases h0 : d.pre.busy0 <;> cases h1 : d.pre.busy1 <;> simp only [PreRead.kept, h0, h1] at h ⊢
  · simp at h
  · obtain rfl : addr = d.pre.buf1Addr := by simpa using h
    simp
  · obtain rfl : addr = d.pre.buf0Addr := by simpa using h
    simp
  · by_cases ha : d.pre.buf0Addr = addr
    · simp [ha]
    · obtain rfl : addr = d.pre.buf1Addr := by simpa [Ne.symm ha] using h
      simp [ha]

theorem getUpdatePreReadBuf_notMem {d : Dev} {addr : Nat} (h : addr ∉ d.pre.kept) (len : Nat) :
    getUpdatePreReadBuf b d addr len = none := by
  unfold getUpdatePreReadBuf
  unfold PreRead.kept at h
  rw [if_neg, if_neg]
  · rintro ⟨h1, rfl⟩
    simp [h1] at h
  · rintro ⟨h0, rfl⟩
    simp [h0] at h

/-- An answer joins the blocks. -/
theorem kept_keep {d : Dev} (h : d.pre.kept.length < 2) (bs : List UInt8) :
    (keep b d bs).pre.kept.Perm (d.pre.kept ++ [d.pre.currFileOffset]) := by
  unfold keep
  cases h0 : d.pre.busy0 <;> cases h1 : d.pre.busy1 <;> simp [PreRead.kept, h0, h1] at h ⊢
  exact List.Perm.swap ..

/-- Without room it is lost. -/
theorem kept_keep_full {d : Dev} (h : d.pre.kept.length = 2) (bs : List UInt8) :
    (keep b d bs).pre.kept = d.pre.kept := by
  unfold keep
  cases h0 : d.pre.busy0 <;> cases h1 : d.pre.busy1 <;> simp [PreRead.kept, h0, h1] at h ⊢

/-! ## Orderly runs -/

/-- A read of at most a block begins with no request unanswered, and goes on with prefetching that was just switched on;
no answer comes between the two requests that switch it on, and nothing times out. -/
def Orderly (s : State) (e : Event) : Prop :=
  match e with
  | .start c => s.queue = [] ∧ c.btr ≤ onceUpdateReadLen ∧
      (s.dev.pre.preReadFlag = .toggleToEn → c.seek = below s.dev.pre.lastAddr ∧ c.btr = onceUpdateReadLen)
  | .reply   => ∀ c, s.phase ≠ .sent c
  | .timeout => False
  | _        => True

instance (p : Phase) : Decidable (∀ c, p ≠ .sent c) :=
  match p with
  | .sent c      => isFalse (fun h => h c rfl)
  | .idle        => isTrue (fun _ h => nomatch h)
  | .wait _      => isTrue (fun _ h => nomatch h)
  | .waitLast .. => isTrue (fun _ h => nomatch h)

instance (s : State) (e : Event) : Decidable (Orderly s e) := by
  unfold Orderly
  split <;> infer_instance

/-- A read that returns has all its bytes of the file; it waits for two answers at most, and when they are there the next
round ends its waiting. -/
structure Finishes (file : Mem) (s : State) (e : Event) (s' : State) (o : Out) : Prop where
  serves : ∀ c n, o.returned = some (c, n) → n = c.btr ∧ s'.dev.mem.read c.buf c.btr = file.read c.seek c.btr
  few    : s'.queue.length ≤ 2
  ends   : e = .poll → s.queue = [] →
    (∃ c, s.phase = .wait c ∧ o.returned = some (c, c.btr)) ∨ ∃ c l, s.phase = .waitLast c l ∧ s'.phase = .wait c

/-- What prefetching and the reads still want: what is kept, and what is in flight. -/
structure Wanted (d : Dev) (queue : List Request) (next : Nat) (w : List Nat) : Prop where
  split : ∃ ks, d.pre.kept.Perm ks ∧ w = ks ++ queue.map Request.offset
  chain : Chain next d.pre.currFileOffset queue

/-- How a read stands. -/
inductive Live (b : Env) (s : State) : Prop
  | idle (hp : s.phase = .idle) (hf : s.dev.pre.preReadFlag = .disable) (hk : s.dev.pre.kept = []) (hq : s.queue = [])
  | wait (c : Args) (hp : s.phase = .wait c) (hf : s.dev.pre.preReadFlag = .disable) (hk : s.dev.pre.kept = [])
      (hbuf : s.dev.ctl.readBuf = some c.buf) (hneed : s.dev.ctl.needRxLen = c.btr) (hlen : c.btr ≤ onceUpdateReadLen)
      (h : (s.dev.ctl.btupdataSw = .read ∧ s.queue = [⟨c.seek, c.btr, false⟩]) ∨
        (s.dev.ctl.btupdataSw = .acceptOk ∧ s.dev.ctl.accept = true ∧ s.queue = [] ∧ s.dev.ctl.dateLen = c.btr ∧
          s.dev.mem.read c.buf c.btr = b.file.read c.seek c.btr))
  | between (hp : s.phase = .idle) (hf : s.dev.pre.preReadFlag = .toggleToEn ∨ s.dev.pre.preReadFlag = .enable)
      (hsw : s.dev.ctl.btupdataSw = .read) (hneed : s.dev.ctl.needRxLen = onceUpdateReadLen)
      (hw : Wanted s.dev s.queue (below (below s.dev.pre.lastAddr)) [below s.dev.pre.lastAddr])
  | ahead (c : Args) (hp : s.phase = .wait c)
      (hf : s.dev.pre.preReadFlag = .toggleToEn ∨ s.dev.pre.preReadFlag = .enable)
      (hlast : s.dev.pre.lastAddr = c.seek) (hbuf : s.dev.ctl.readBuf = some c.buf) (hbtr : c.btr = onceUpdateReadLen)
      (hsw : s.dev.ctl.btupdataSw = .read) (hneed : s.dev.ctl.needRxLen = onceUpdateReadLen)
      (hw : Wanted s.dev s.queue (below (below c.seek)) [c.seek, below c.seek])
  | starting (c : Args) (hp : s.phase = .sent c) (hf : s.dev.pre.preReadFlag = .toggleToEn)
      (hlast : s.dev.pre.lastAddr = c.seek) (hbuf : s.dev.ctl.readBuf = some c.buf) (hbtr : c.btr = onceUpdateReadLen)
      (hsw : s.dev.ctl.btupdataSw = .read) (hneed : s.dev.ctl.needRxLen = onceUpdateReadLen)
      (hk : s.dev.pre.kept = []) (hq : s.queue = [⟨c.seek, onceUpdateReadLen, false⟩])
  | last (c : Args) (l : Nat) (hp : s.phase = .waitLast c l) (hf : s.dev.pre.preReadFlag = .toggleToDis)
      (hneed : s.dev.ctl.needRxLen = onceUpdateReadLen) (hlen : c.btr ≤ onceUpdateReadLen)
      (hap : Apart b c.buf c.btr) (hk : s.dev.pre.kept = [below l]) (hq : s.queue = [])

structure InvLive (b : Env) (s : State) : Prop where
  kept  : Kept b s.dev.pre s.dev.mem
  apart : ∀ p, s.dev.ctl.readBuf = some p → Apart b p s.dev.ctl.needRxLen
  mode  : Live b s

theorem Live.length_queue {s : State} (h : Live b s) : s.queue.length ≤ 2 := by
  cases h with
  | idle _ _ _ hq => simp [hq]
  | wait c _ _ _ _ _ _ h => rcases h with ⟨-, hq⟩ | ⟨-, -, hq, -⟩ <;> simp [hq]
  | between _ _ _ _ hw =>
    obtain ⟨ks, -, heq⟩ := hw.split
    have := congrArg List.length heq
    simp at this
    omega
  | ahead c _ _ _ _ _ _ _ hw =>
    obtain ⟨ks, -, heq⟩ := hw.split
    have := congrArg List.length heq
    simp at this
    omega
  | starting c _ _ _ _ _ _ _ _ hq => simp [hq]
  | last c l _ _ _ _ _ _ hq => simp [hq]

/-! ## A read begins -/

theorem kept_flag (p : PreRead) (addr len : Nat) : (getUpdatePreReadFlag p addr len).kept = p.kept := by
  unfold getUpdatePreReadFlag
  split <;> split <;> rfl

/-- Prefetching is off after a read only if it was off before, or the read broke off what was just switched on. -/
theorem flag_disable {p : PreRead} {addr len : Nat} (h : (getUpdatePreReadFlag p addr len).preReadFlag = .disable) :
    p.preReadFlag = .disable ∨ p.preReadFlag = .toggleToDis ∨
      (p.preReadFlag = .toggleToEn ∧ ¬ (addr = below p.lastAddr ∧ len = onceUpdateReadLen)) := by
  unfold getUpdatePreReadFlag at h
  split at h
  · cases hf : p.preReadFlag <;> simp [hf] at h ⊢
  · rename_i hno
    cases hf : p.preReadFlag <;> simp [hf] at h ⊢
    exact fun h1 h2 => hno ⟨h1, h2⟩

theorem start_live {temp : Nat} {file : Mem} {s : State} {c : Args} (hI : InvLive (preReading temp file) s)
    (hp : s.phase = .idle) (hap : Apart (preReading temp file) c.buf c.btr) (ho : Orderly s (.start c)) :
    InvLive (preReading temp file) (start (preReading temp file) s c) := by
  obtain ⟨hq, hlen, hgo⟩ := ho
  have h512 := onceUpdateReadLen_eq
  have hmod : c.btr % 65536 = c.btr := by omega
  have hidle : (s.dev.pre.preReadFlag = .disable ∧ s.dev.pre.kept = []) ∨
      ((s.dev.pre.preReadFlag = .toggleToEn ∨ s.dev.pre.preReadFlag = .enable) ∧
        s.dev.ctl.needRxLen = onceUpdateReadLen ∧ s.dev.pre.kept = [below s.dev.pre.lastAddr] ∧
          s.dev.pre.currFileOffset = below (below s.dev.pre.lastAddr)) := by
    cases hI.mode with
    | idle _ hf hk => exact .inl ⟨hf, hk⟩
    | wait _ hp' => simp [hp] at hp'
    | between _ hf hsw hneed hw =>
      obtain ⟨ks, hperm, heq⟩ := hw.split
      have hc := hw.chain
      rw [hq] at heq hc
      rw [List.map_nil, List.append_nil] at heq
      rw [← heq, List.perm_singleton] at hperm
      exact .inr ⟨hf, hneed, hperm, hc⟩
    | ahead _ hp' => simp [hp] at hp'
    | starting _ hp' => simp [hp] at hp'
    | last _ _ hp' => simp [hp] at hp'
  have hflag : s.dev.pre.preReadFlag ≠ .toggleToDis := by
    rcases hidle with ⟨hf, -⟩ | ⟨hf | hf, -⟩ <;> simp [hf]
  have hkept := hI.kept.flag c.seek (c.btr % 65536)
  have hlist := kept_flag s.dev.pre c.seek (c.btr % 65536)
  obtain ⟨hlast, hcurr, hcases⟩ := flag_cases hflag c.seek (c.btr % 65536)
  unfold start
  rw [if_pos (by rfl)]
  dsimp only
  rcases hcases with hd | ⟨hd, he⟩ | ⟨hwhole, hd, he⟩ | ⟨hwhole, hd, haddr, he⟩
  · have hoff : s.dev.pre.kept = [] := by
      rcases flag_disable hd with hf | hf | ⟨hf, hno⟩
      · exact (hidle.resolve_right (fun h => by simp [hf] at h)).2
      · exact absurd hf hflag
      · obtain ⟨h1, h2⟩ := hgo hf
        exact absurd ⟨h1, hmod.trans h2⟩ hno
    rw [hd, if_neg (by simp)]
    refine ⟨hkept, ?_, .wait c (by simp [send]) hd (hlist.trans hoff) rfl rfl hlen (.inl ⟨rfl, by simp [send, hq]⟩)⟩
    rintro p ⟨⟩
    exact hap
  · rw [hd, if_pos rfl]
    obtain ⟨-, hneed, hone, -⟩ := hidle.resolve_left (fun h => by simp [he] at h)
    exact ⟨hkept, hI.apart, .last c _ rfl hd hneed hlen hap (hlist.trans hone) hq⟩
  · have hoff := (hidle.resolve_right (fun h => by simp [he] at h)).2
    have hbtr : c.btr = onceUpdateReadLen := hmod.symm.trans hwhole
    rw [hd, if_neg (by simp)]
    refine ⟨hkept, ?_, .starting c (by simp [send]) hd hlast rfl hbtr rfl hbtr (hlist.trans hoff) ?_⟩
    · rintro p ⟨⟩
      exact hap
    · simp [send, hq, hbtr]
  · obtain ⟨-, -, hone, hat⟩ := hidle.resolve_left (fun h => by rcases he with he | he <;> simp [he] at h)
    have hbtr : c.btr = onceUpdateReadLen := hmod.symm.trans hwhole
    rw [hd, if_neg (by simp)]
    refine ⟨hkept, ?_, .ahead c (by simp [send]) (.inr hd) hlast rfl hbtr rfl hbtr ⟨⟨[c.seek], ?_, ?_⟩, ?_⟩⟩
    · rintro p ⟨⟩
      exact hap
    · show (getUpdatePreReadFlag s.dev.pre c.seek (c.btr % 65536)).kept.Perm [c.seek]
      rw [hlist, hone, haddr]
    · simp [send, hq]
    · have hnext : below c.seek = (getUpdatePreReadFlag s.dev.pre c.seek (c.btr % 65536)).currFileOffset := by
        rw [hcurr, hat, ← haddr]
      simp only [send, if_pos, hq, List.nil_append]
      exact ⟨hnext, hbtr, congrArg below hnext.symm⟩

/-! ## A read goes on -/

theorem second_live {s : State} {c : Args} (hI : InvLive b s) (hp : s.phase = .sent c) :
    InvLive b { s with
      dev := { s.dev with pre := { s.dev.pre with currFileOffset := c.seek } }
      phase := .wait c
      queue := s.queue ++ [⟨below c.seek, c.btr, false⟩] } := by
  refine ⟨⟨hI.kept.block0, hI.kept.block1⟩, hI.apart, ?_⟩
  cases hI.mode with
  | idle hp' => simp [hp] at hp'
  | wait _ hp' => simp [hp] at hp'
  | between hp' => simp [hp] at hp'
  | ahead _ hp' => simp [hp] at hp'
  | last _ _ hp' => simp [hp] at hp'
  | starting c' hp' hf hlast hbuf hbtr hsw hneed hk hq =>
    rw [hp] at hp'
    cases hp'
    refine .ahead c rfl (.inl hf) hlast hbuf hbtr hsw hneed ⟨⟨[], ?_, ?_⟩, ?_⟩
    · have hsame : PreRead.kept { s.dev.pre with currFileOffset := c.seek } = s.dev.pre.kept := rfl
      rw [hsame, hk]
    · simp [hq]
    · rw [hq, hbtr]
      exact ⟨rfl, rfl, rfl, rfl, rfl⟩

/-- A round that finds the block of the address. -/
theorem handler_kept (temp : Nat) (file : Mem) {d : Dev} {addr : Nat} (h : addr ∈ d.pre.kept) (len : Nat) :
    ∃ d', getUpdatePreReadBuf (preReading temp file) d addr (len % 65536) = some d' ∧
      bleUpdataHandler (preReading temp file) d addr len = some (d', len) ∧ d'.pre.kept = d.pre.kept.erase addr := by
  obtain ⟨d', hd, hout⟩ := getUpdatePreReadBuf_mem (b := preReading temp file) h (len % 65536)
  refine ⟨d', hd, ?_, hout⟩
  unfold bleUpdataHandler
  rw [if_pos (by rfl), hd]

/-- A round that does not looks for the answer. -/
theorem handler_notKept (temp : Nat) (file : Mem) {d : Dev} {addr : Nat} (h : addr ∉ d.pre.kept) (len : Nat) :
    bleUpdataHandler (preReading temp file) d addr len =
      if d.ctl.accept = true ∧ d.ctl.btupdataSw = .acceptOk then
        some ({ d with ctl := { d.ctl with readBuf := none } }, d.ctl.dateLen)
      else none := by
  unfold bleUpdataHandler
  rw [if_pos (by rfl), getUpdatePreReadBuf_notMem h]

/-- The last block is taken out, and the read sends its own request. -/
theorem pollLast_live {temp : Nat} {file : Mem} {s s' : State} {c : Args} {l : Nat} {o : Out}
    (hI : InvLive (preReading temp file) s) (hp : s.phase = .waitLast c l)
    (h : (machine (preReading temp file)).step s .poll = some (s', o)) :
    InvLive (preReading temp file) s' ∧ o = .quiet ∧ s'.phase = .wait c := by
  cases hI.mode with
  | idle hp' => simp [hp] at hp'
  | wait _ hp' => simp [hp] at hp'
  | between hp' => simp [hp] at hp'
  | ahead _ hp' => simp [hp] at hp'
  | starting _ hp' => simp [hp] at hp'
  | last c' l' hp' hf hneed hlen hap hk hq =>
    rw [hp] at hp'
    cases hp'
    have h512 := onceUpdateReadLen_eq
    have hmod : c.btr % 65536 = c.btr := by omega
    have hmem : below l ∈ s.dev.pre.kept := by
      rw [hk]
      exact List.mem_singleton_self _
    obtain ⟨d, hd, hhandler, hout⟩ := handler_kept temp file hmem c.btr
    simp only [machine, hp, hhandler] at h
    cases h
    have hbuf : ∀ p, s.dev.ctl.readBuf = some p → Apart (preReading temp file) p (c.btr % 65536) := by
      intro p hb
      have := hI.apart p hb
      unfold Apart at this ⊢
      omega
    have hserved := (served hI.kept hbuf (by rw [hmod]; exact hlen) hd).1
    have hempty : d.pre.kept = [] := by simp [hout, hk]
    refine ⟨⟨⟨hserved.block0, hserved.block1⟩, ?_, .wait c rfl rfl hempty rfl rfl hlen (.inl ⟨rfl, ?_⟩)⟩, rfl, rfl⟩
    · rintro p ⟨⟩
      exact hap
    · simp [waited, send, hq]

/-- **A round of the handler.** -/
theorem pollWait_live {temp : Nat} {file : Mem} {s s' : State} {c : Args} {o : Out}
    (hI : InvLive (preReading temp file) s) (hp : s.phase = .wait c)
    (h : (machine (preReading temp file)).step s .poll = some (s', o)) :
    InvLive (preReading temp file) s' ∧
      (∀ c' n, o.returned = some (c', n) → n = c'.btr ∧ s'.dev.mem.read c'.buf c'.btr = file.read c'.seek c'.btr) ∧
        (s.queue = [] → o.returned = some (c, c.btr)) := by
  have hsame := hI.mode
  cases hI.mode with
  | idle hp' => simp [hp] at hp'
  | between hp' => simp [hp] at hp'
  | starting _ hp' => simp [hp] at hp'
  | last _ _ hp' => simp [hp] at hp'
  | wait c' hp' hf hk hbuf hneed hlen hcase =>
    rw [hp] at hp'
    cases hp'
    have hhandler := handler_notKept temp file (show c.seek ∉ s.dev.pre.kept by simp [hk]) c.btr
    rcases hcase with ⟨hsw, hq⟩ | ⟨hsw, hacc, hq, hdate, hmem⟩
    · rw [if_neg (by simp [hsw])] at hhandler
      simp only [machine, hp, hhandler] at h
      cases h
      exact ⟨⟨hI.kept, hI.apart, hsame⟩, (fun _ _ h => by cases h), fun h => by simp [hq] at h⟩
    · rw [if_pos ⟨hacc, hsw⟩] at hhandler
      simp only [machine, hp, hhandler] at h
      cases h
      refine ⟨⟨⟨hI.kept.block0, hI.kept.block1⟩, (fun p hb => by cases hb), .idle rfl hf hk hq⟩, ?_, fun _ => by
        rw [hdate]⟩
      rintro c' n hret
      cases hret
      exact ⟨hdate, hmem⟩
  | ahead c' hp' hf hlast hbuf hbtr hsw hneed hw =>
    rw [hp] at hp'
    cases hp'
    obtain ⟨⟨ks, hperm, heq⟩, hchain⟩ := hw
    cases ks with
    | nil =>
      have hk : s.dev.pre.kept = [] := hperm.eq_nil
      have hhandler := handler_notKept temp file (show c.seek ∉ s.dev.pre.kept by simp [hk]) c.btr
      rw [if_neg (by simp [hsw])] at hhandler
      simp only [machine, hp, hhandler] at h
      cases h
      refine ⟨⟨hI.kept, hI.apart, hsame⟩, (fun _ _ h => by cases h), fun h => ?_⟩
      rw [h] at heq
      cases heq
    | cons k ks =>
      obtain ⟨rfl, htail⟩ := List.cons.inj heq
      have hmem : c.seek ∈ s.dev.pre.kept := hperm.mem_iff.2 (List.mem_cons_self ..)
      obtain ⟨d, hd, hhandler, hout⟩ := handler_kept temp file hmem c.btr
      simp only [machine, hp, hhandler] at h
      cases h
      have h512 := onceUpdateReadLen_eq
      have hmod : c.btr % 65536 = c.btr := by omega
      rw [hmod] at hd
      obtain ⟨hkept, hctl, hflag, hlast', hcurr, hread⟩ :=
        served hI.kept (fun p hb => by rw [hbtr, ← hneed]; exact hI.apart p hb) (Nat.le_of_eq hbtr) hd
      have hrest : d.pre.kept.Perm ks := by
        have := hperm.erase c.seek
        rwa [List.erase_cons_head, ← hout] at this
      refine ⟨⟨hkept, (by rw [hctl]; exact hI.apart), .between rfl (by rw [hflag]; exact hf) (by rw [hctl]; exact hsw)
        (by rw [hctl]; exact hneed) ?_⟩, ?_, fun _ => rfl⟩
      · dsimp only
        rw [hlast', hlast]
        exact ⟨⟨ks, hrest, htail⟩, by rw [hcurr]; exact hchain⟩
      · rintro c' n hret
        cases hret
        exact ⟨rfl, hread c.buf hbuf⟩

/-! ## An answer arrives -/

/-- The device after an answer that came with prefetching on. -/
structure Joined (b : Env) (s : State) (r : Request) (d : Dev) : Prop where
  ctl    : d.ctl = { s.dev.ctl with dateLen := r.len % 65536 }
  flag   : d.pre.preReadFlag = s.dev.pre.preReadFlag
  last   : d.pre.lastAddr = s.dev.pre.lastAddr
  curr   : d.pre.currFileOffset = below s.dev.pre.currFileOffset
  joins  : s.dev.pre.kept.length < 2 → d.pre.kept.Perm (s.dev.pre.kept ++ [s.dev.pre.currFileOffset])
  lost   : s.dev.pre.kept.length = 2 → d.pre.kept = s.dev.pre.kept
  blocks : Kept b s.dev.pre s.dev.mem → r.offset = s.dev.pre.currFileOffset → r.len % 65536 = onceUpdateReadLen →
    Kept b d.pre d.mem

/-- **An answer that comes with prefetching on.** -/
theorem reply_joined (temp : Nat) (file : Mem) {s : State} {r : Request} (rs : List Request)
    (ht : s.dev.takes (r.len % 65536)) (hf : s.dev.pre.preReadFlag ≠ .disable) :
    ∃ d, reply (preReading temp file) s r rs = ({ s with dev := d, queue := rs }, .quiet) ∧
      Joined (preReading temp file) s r d := by
  obtain ⟨d, hd⟩ : ∃ d : Dev, d = { s.dev with ctl := { s.dev.ctl with dateLen := r.len % 65536 } } := ⟨_, rfl⟩
  have hpre : d.pre = s.dev.pre := by rw [hd]
  have hmem : d.mem = s.dev.mem := by rw [hd]
  obtain ⟨bs, hbs⟩ : ∃ bs, bs = file.read r.offset (r.len % 65536) := ⟨_, rfl⟩
  obtain ⟨hflag, hlast, hcurr⟩ := keep_pre (b := preReading temp file) d bs
  have hjoins := fun h => kept_keep (b := preReading temp file) (d := d) h bs
  have hlost := fun h => kept_keep_full (b := preReading temp file) (d := d) h bs
  rw [hpre] at hflag hlast hcurr hjoins hlost
  refine ⟨keep (preReading temp file) d bs, ?_, ?_, hflag, hlast, hcurr, hjoins, hlost, fun hk hoff hlen => ?_⟩
  · rw [reply_kept ht hf, ← hd, ← hbs]
  · rw [keep_ctl, hd]
  · refine keep_kept (by rw [hpre, hmem]; exact hk) ?_
    rw [hbs, hlen, hoff, hpre]
    rfl

/-- An answer that is kept takes its place among the blocks that are wanted. -/
theorem kept_wanted {temp : Nat} {file : Mem} {s : State} {r : Request} {rs : List Request} {next : Nat} {w : List Nat}
    (hI : InvLive (preReading temp file) s) (hw : Wanted s.dev (r :: rs) next w) (hlen : w.length ≤ 2)
    (hf : s.dev.pre.preReadFlag = .toggleToEn ∨ s.dev.pre.preReadFlag = .enable) (hsw : s.dev.ctl.btupdataSw = .read)
    (hneed : s.dev.ctl.needRxLen = onceUpdateReadLen) :
    ∃ d, reply (preReading temp file) s r rs = ({ s with dev := d, queue := rs }, .quiet) ∧
      Joined (preReading temp file) s r d ∧ Kept (preReading temp file) d.pre d.mem ∧ Wanted d rs next w := by
  obtain ⟨⟨ks, hperm, heq⟩, hchain⟩ := hw
  have h512 := onceUpdateReadLen_eq
  have hsize : r.len % 65536 = onceUpdateReadLen := by rw [hchain.2.1, h512]
  have hroom : s.dev.pre.kept.length < 2 := by
    have hcount := congrArg List.length heq
    rw [hperm.length_eq]
    simp at hcount
    omega
  obtain ⟨d, hd, hj⟩ := reply_joined temp file rs ⟨hsw, by rw [hneed, hsize]⟩
    (by rcases hf with hf | hf <;> simp [hf])
  refine ⟨d, hd, hj, hj.blocks hI.kept hchain.1 hsize, ⟨ks ++ [r.offset], ?_, by simp [heq]⟩, ?_⟩
  · rw [hchain.1]
    exact (hj.joins hroom).trans (hperm.append_right _)
  · rw [hj.curr]
    exact hchain.2.2

theorem reply_live {temp : Nat} {file : Mem} {s : State} {r : Request} {rs : List Request}
    (hI : InvLive (preReading temp file) s) (hq : s.queue = r :: rs) (ho : ∀ c, s.phase ≠ .sent c) :
    InvLive (preReading temp file) (reply (preReading temp file) s r rs).1 := by
  cases hI.mode with
  | idle _ _ _ hq' => simp [hq] at hq'
  | last _ _ _ _ _ _ _ _ hq' => simp [hq] at hq'
  | starting c hp => exact absurd hp (ho c)
  | wait c hp hf hk hbuf hneed hlen hcase =>
    obtain ⟨hsw, hq'⟩ := hcase.resolve_right (fun h => by simp [hq] at h)
    rw [hq] at hq'
    obtain ⟨rfl, rfl⟩ := List.cons.inj hq'
    have h512 := onceUpdateReadLen_eq
    have hmod : c.btr % 65536 = c.btr := by omega
    have htakes : s.dev.takes (c.btr % 65536) := ⟨hsw, by rw [hneed, hmod]⟩
    have hself := Mem.read_write_self s.dev.mem c.buf (file.read c.seek c.btr)
    rw [Mem.length_read] at hself
    have hkept : Kept (preReading temp file) s.dev.pre (memcpy s.dev.mem (some c.buf) (file.read c.seek c.btr)) := by
      refine hI.kept.memcpy ?_
      rintro p ⟨⟩
      rw [Mem.length_read, ← hneed]
      exact hI.apart c.buf hbuf
    rw [reply_copied htakes hf]
    dsimp only
    rw [hmod, hbuf]
    refine ⟨hkept, ?_, .wait c hp hf hk rfl hneed hlen (.inr ⟨rfl, rfl, rfl, rfl, hself⟩)⟩
    rintro p ⟨⟩
    exact hI.apart c.buf hbuf
  | between hp hf hsw hneed hw =>
    rw [hq] at hw
    obtain ⟨d, hd, hj, hkept, hw'⟩ := kept_wanted hI hw (by simp) hf hsw hneed
    rw [hd]
    refine ⟨hkept, (by rw [hj.ctl]; exact hI.apart), .between hp (by rw [hj.flag]; exact hf) (by rw [hj.ctl]; exact hsw)
      (by rw [hj.ctl]; exact hneed) ?_⟩
    dsimp only
    rw [hj.last]
    exact hw'
  | ahead c hp hf hlast hbuf hbtr hsw hneed hw =>
    rw [hq] at hw
    obtain ⟨d, hd, hj, hkept, hw'⟩ := kept_wanted hI hw (by simp) hf hsw hneed
    rw [hd]
    exact ⟨hkept, (by rw [hj.ctl]; exact hI.apart), .ahead c hp (by rw [hj.flag]; exact hf) (hj.last.trans hlast)
      (by rw [hj.ctl]; exact hbuf) hbtr (by rw [hj.ctl]; exact hsw) (by rw [hj.ctl]; exact hneed) hw'⟩

/-! ## Runs -/

/-- **One orderly step.** -/
theorem step_live {temp : Nat} {file : Mem} {s s' : State} {e : Event} {o : Out}
    (hI : InvLive (preReading temp file) s) (hs : (machine (preReading temp file)).step s e = some (s', o))
    (ho : Orderly s e) : InvLive (preReading temp file) s' ∧ Finishes file s e s' o := by
  cases e with
  | timeout => cases ho
  | start c =>
    cases hp : s.phase <;> simp only [machine, hp, reduceCtorEq] at hs
    split at hs
    · rename_i hap
      cases hs
      have hI' := start_live hI hp hap ho
      exact ⟨hI', (fun _ _ h => by cases h), hI'.mode.length_queue, fun h => by cases h⟩
    · cases hs
  | second =>
    cases hp : s.phase <;> simp only [machine, hp, reduceCtorEq] at hs
    cases hs
    have hI' := second_live hI hp
    exact ⟨hI', (fun _ _ h => by cases h), hI'.mode.length_queue, fun h => by cases h⟩
  | poll =>
    cases hp : s.phase with
    | idle => simp [machine, hp] at hs
    | sent c => simp [machine, hp] at hs
    | waitLast c l =>
      obtain ⟨hI', rfl, hp'⟩ := pollLast_live hI hp hs
      exact ⟨hI', (fun _ _ h => by cases h), hI'.mode.length_queue, fun _ _ => .inr ⟨c, l, hp, hp'⟩⟩
    | wait c =>
      obtain ⟨hI', hserves, hends⟩ := pollWait_live hI hp hs
      exact ⟨hI', hserves, hI'.mode.length_queue, fun _ hq => .inl ⟨c, hp, hends hq⟩⟩
  | reply =>
    simp only [machine] at hs
    split at hs
    · rename_i r rs hq
      have hs := Option.some.inj hs
      have hI' := reply_live hI hq ho
      obtain ⟨rfl, rfl⟩ : s' = (reply (preReading temp file) s r rs).1 ∧
          o = (reply (preReading temp file) s r rs).2 := by
        rw [hs]
        exact ⟨rfl, rfl⟩
      exact ⟨hI', (fun _ _ h => by cases h), hI'.mode.length_queue, fun h => by cases h⟩
    · cases hs

theorem live_init (m : Mem) : InvLive b (.init m) :=
  ⟨⟨(fun h => by cases h), (fun h => by cases h)⟩, (fun p h => by cases h), .idle rfl rfl rfl rfl⟩

/-- **Orderly reads finish**: when reads begin with no request unanswered and go on with prefetching that was just
switched on, every read that returns has its bytes, two answers at most are awaited, and when none is missing the next
round of the handler ends the waiting. -/
theorem reads_finish (temp : Nat) (file m : Mem) (es : List Event)
    (ho : (machine (preReading temp file)).Along (fun s e _ _ => Orderly s e) (.init m) es) :
    (machine (preReading temp file)).Along (Finishes file) (.init m) es :=
  Machine.along_of_inv (InvLive (preReading temp file)) (fun _ _ _ _ hI hs ho => step_live hI hs ho) es _ (live_init m)
    ho

theorem reads_finish_keptBlock :
    (machine (preReading 4096 numberedFile)).Along (Finishes numberedFile) (.init fun _ => 0) keptBlock :=
  reads_finish 4096 numberedFile _ keptBlock (by decide +kernel)

end Block
end OtaLoader
