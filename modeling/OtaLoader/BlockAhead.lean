import OtaLoader.BlockPlain
/-!
# BlockAhead — block reads with prefetching

While prefetching is on, the requests in flight go down through the file in steps of a block from `curr_file_offset`
(`Chain`), so each answer is kept under its own address.  What breaks this are answers that nobody waits for any more:
they are taken by their length.  As long as none is, every read returns its bytes of the file (`reads_serve`).
-/
namespace OtaLoader
namespace Block

/-- The build with `UPDATE_PRE_READ_EN`. -/
def preReading (temp : Nat) (file : Mem) : Env := ⟨true, temp, file⟩

/-- A read that returns the count it was asked for has its bytes of the file. -/
def Serves (file : Mem) (_ : State) (_ : Event) (s' : State) (o : Out) : Prop :=
  ∀ c, o.returned = some (c, c.btr) → s'.dev.mem.read c.buf c.btr = file.read c.seek c.btr

/-- No answer is taken that was left behind, or that comes before the second request which prefetching starts with; and
no more than a block is copied out of a kept block. -/
def NoStray (b : Env) (s : State) (e : Event) (_ : State) (_ : Out) : Prop :=
  match e, s.phase with
  | .reply, .sent _          => ∀ r rs, s.queue = r :: rs → ¬ s.dev.takes (r.len % 65536)
  | .reply, _                => ∀ r rs, s.queue = r :: rs → s.dev.takes (r.len % 65536) → r.left = false
  | .poll, .waitLast c last  =>
    getUpdatePreReadBuf b s.dev (below last) (c.btr % 65536) ≠ none → c.btr % 65536 ≤ onceUpdateReadLen
  | .poll, .wait c           =>
    getUpdatePreReadBuf b s.dev c.seek (c.btr % 65536) ≠ none → c.btr ≤ onceUpdateReadLen
  | _, _                     => True

/-- What holds of the oldest request can be decided. -/
instance decidableOldest {P : Request → Prop} [DecidablePred P] :
    ∀ q : List Request, Decidable (∀ r rs, q = r :: rs → P r)
  | []      => isTrue (fun _ _ h => nomatch h)
  | r :: rs => decidable_of_iff (P r) ⟨fun h _ _ hq => (List.cons.inj hq).1 ▸ h, fun h => h r rs rfl⟩

instance (x : Option Dev) (P : Prop) [Decidable P] : Decidable (x ≠ none → P) :=
  match x with
  | none   => isTrue (fun h => absurd rfl h)
  | some _ => decidable_of_iff P ⟨fun h _ => h, fun h => h (fun hn => nomatch hn)⟩

instance (b : Env) (s : State) (e : Event) (s' : State) (o : Out) : Decidable (NoStray b s e s' o) := by
  unfold NoStray
  split <;> infer_instance

/-! ## The blocks that are kept -/

/-- What the kept blocks hold. -/
structure Kept (b : Env) (p : PreRead) (m : Mem) : Prop where
  block0 : p.busy0 = true → m.read b.temp onceUpdateReadLen = b.file.read p.buf0Addr onceUpdateReadLen
  block1 : p.busy1 = true →
    m.read (b.temp + onceUpdateReadLen) onceUpdateReadLen = b.file.read p.buf1Addr onceUpdateReadLen

variable {b : Env}

/-- A copy apart from the blocks leaves them alone. -/
theorem read_memcpy {m : Mem} {dst : Option Nat} {bs : List UInt8} (h : ∀ p, dst = some p → Apart b p bs.length)
    {a : Nat} (ha : b.temp ≤ a) (ha' : a + onceUpdateReadLen ≤ b.temp + 2 * onceUpdateReadLen) :
    (memcpy m dst bs).read a onceUpdateReadLen = m.read a onceUpdateReadLen := by
  cases dst with
  | none => rfl
  | some p =>
    have hp := h p rfl
    unfold Apart at hp
    rw [Block.memcpy, Mem.read_write_outside (by omega)]

theorem Kept.memcpy {p : PreRead} {m : Mem} (hk : Kept b p m) {dst : Option Nat} {bs : List UInt8}
    (h : ∀ p, dst = some p → Apart b p bs.length) : Kept b p (memcpy m dst bs) := by
  refine ⟨fun hb => ?_, fun hb => ?_⟩
  · rw [read_memcpy h (Nat.le_refl _) (by omega)]
    exact hk.block0 hb
  · rw [read_memcpy h (Nat.le_add_right _ _) (by omega)]
    exact hk.block1 hb

/-- **Keeping an answer** to the request at `curr_file_offset`. -/
theorem keep_kept {d : Dev} (hk : Kept b d.pre d.mem) {bs : List UInt8}
    (hbs : bs = b.file.read d.pre.currFileOffset onceUpdateReadLen) : Kept b (keep b d bs).pre (keep b d bs).mem := by
  have hlen : bs.length = onceUpdateReadLen := by rw [hbs, Mem.length_read]
  have hself : ∀ a, (d.mem.write a bs).read a onceUpdateReadLen = bs := fun a => by
    have := Mem.read_write_self d.mem a bs
    rwa [hlen] at this
  have hother : ∀ a c, c + onceUpdateReadLen ≤ a ∨ a + onceUpdateReadLen ≤ c →
      (d.mem.write a bs).read c onceUpdateReadLen = d.mem.read c onceUpdateReadLen := fun a c h =>
    Mem.read_write_outside (hlen ▸ h)
  unfold keep
  dsimp only
  split
  · refine ⟨fun _ => ?_, fun h1 => ?_⟩ <;> dsimp only at *
    · rw [hself, hbs]
    · rw [hother _ _ (.inr (Nat.le_refl _))]
      exact hk.block1 h1
  · split
    · refine ⟨fun h0 => ?_, fun _ => ?_⟩ <;> dsimp only at *
      · rw [hother _ _ (.inl (Nat.le_refl _))]
        exact hk.block0 h0
      · rw [hself, hbs]
    · refine ⟨fun h0 => ?_, fun h1 => ?_⟩ <;> dsimp only at *
      · exact hk.block0 h0
      · exact hk.block1 h1

theorem keep_ctl (d : Dev) (bs : List UInt8) : (keep b d bs).ctl = d.ctl := by
  unfold keep
  dsimp only
  split
  · rfl
  · split <;> rfl

theorem keep_pre (d : Dev) (bs : List UInt8) :
    (keep b d bs).pre.preReadFlag = d.pre.preReadFlag ∧ (keep b d bs).pre.lastAddr = d.pre.lastAddr ∧
      (keep b d bs).pre.currFileOffset = below d.pre.currFileOffset := by
  unfold keep
  dsimp only
  split
  · exact ⟨rfl, rfl, rfl⟩
  · split <;> exact ⟨rfl, rfl, rfl⟩

/-- **Serving from a kept block**, up to its length. -/
theorem served {d d' : Dev} {addr len : Nat} (hk : Kept b d.pre d.mem)
    (hap : ∀ p, d.ctl.readBuf = some p → Apart b p len) (hlen : len ≤ onceUpdateReadLen)
    (h : getUpdatePreReadBuf b d addr len = some d') :
    Kept b d'.pre d'.mem ∧ d'.ctl = d.ctl ∧ d'.pre.preReadFlag = d.pre.preReadFlag ∧
      d'.pre.lastAddr = d.pre.lastAddr ∧ d'.pre.currFileOffset = d.pre.currFileOffset ∧
      ∀ p, d.ctl.readBuf = some p → d'.mem.read p len = b.file.read addr len := by
  have hcopy : ∀ a, (∀ p, d.ctl.readBuf = some p → Apart b p (d.mem.read a len).length) := fun a => by
    simpa only [Mem.length_read] using hap
  have hread : ∀ a, d.mem.read a onceUpdateReadLen = b.file.read addr onceUpdateReadLen →
      ∀ p, d.ctl.readBuf = some p →
        (memcpy d.mem d.ctl.readBuf (d.mem.read a len)).read p len = b.file.read addr len := by
    intro a ha p hp
    have hself := Mem.read_write_self d.mem p (d.mem.read a len)
    rw [Mem.length_read] at hself
    rw [hp, ← take_read b.file hlen, ← ha, take_read d.mem hlen]
    exact hself
  unfold getUpdatePreReadBuf at h
  split at h
  · rename_i h0
    cases h
    refine ⟨⟨(fun hf => by cases hf), (hk.memcpy (hcopy _)).block1⟩, rfl, rfl, rfl, rfl, hread _ ?_⟩
    rw [← h0.2]
    exact hk.block0 h0.1
  · split at h
    · rename_i h1
      cases h
      refine ⟨⟨(hk.memcpy (hcopy _)).block0, (fun hf => by cases hf)⟩, rfl, rfl, rfl, rfl, hread _ ?_⟩
      rw [← h1.2]
      exact hk.block1 h1.1
    · cases h

/-! ## The requests in flight -/

/-- Requests for whole blocks, each the one below the one before, from `curr` down to `next`. -/
def Chain (next : Nat) : Nat → List Request → Prop
  | curr, []      => curr = next
  | curr, r :: rs => r.offset = curr ∧ r.len = onceUpdateReadLen ∧ Chain next (below curr) rs

theorem Chain.snoc {next : Nat} : ∀ {curr : Nat} {rs : List Request}, Chain next curr rs →
    Chain (below next) curr (rs ++ [⟨next, onceUpdateReadLen, false⟩])
  | _, [], h      => by
    cases h
    exact ⟨rfl, rfl, rfl⟩
  | _, _ :: _, h => ⟨h.1, h.2.1, h.2.2.snoc⟩

/-- How a read stands, with the requests `rs` that were not left behind. -/
inductive Mode (b : Env) (s : State) (rs : List Request) : Prop
  | plainIdle (hp : s.phase = .idle) (hf : s.dev.pre.preReadFlag = .disable)
  | plainWait (c : Args) (hp : s.phase = .wait c) (hf : s.dev.pre.preReadFlag = .disable)
      (hbuf : s.dev.ctl.readBuf = some c.buf) (hneed : s.dev.ctl.needRxLen = c.btr)
      (h : (s.dev.ctl.btupdataSw = .read ∧ ∀ r ∈ rs, r.offset = c.seek ∧ r.len = c.btr) ∨
        (s.dev.ctl.btupdataSw = .acceptOk ∧ s.dev.ctl.dateLen = c.btr ∧
          s.dev.mem.read c.buf c.btr = b.file.read c.seek c.btr))
  | ahead (hp : s.phase = .idle ∨ ∃ c, s.phase = .wait c ∧ s.dev.ctl.readBuf = some c.buf ∧ c.btr = onceUpdateReadLen)
      (hf : s.dev.pre.preReadFlag = .toggleToEn ∨ s.dev.pre.preReadFlag = .enable)
      (hsw : s.dev.ctl.btupdataSw = .read) (hneed : s.dev.ctl.needRxLen = onceUpdateReadLen)
      (hc : Chain (below (below s.dev.pre.lastAddr)) s.dev.pre.currFileOffset rs)
  /-- The first of the two requests that prefetching starts with is sent. -/
  | starting (c : Args) (hp : s.phase = .sent c) (hf : s.dev.pre.preReadFlag = .toggleToEn)
      (hlast : s.dev.pre.lastAddr = c.seek) (hbuf : s.dev.ctl.readBuf = some c.buf)
      (hsw : s.dev.ctl.btupdataSw = .read) (hbtr : c.btr = onceUpdateReadLen)
      (hneed : s.dev.ctl.needRxLen = onceUpdateReadLen) (hrs : rs = [⟨c.seek, onceUpdateReadLen, false⟩])
  | last (c : Args) (l next : Nat) (hp : s.phase = .waitLast c l) (hf : s.dev.pre.preReadFlag = .toggleToDis)
      (hsw : s.dev.ctl.btupdataSw = .read) (hneed : s.dev.ctl.needRxLen = onceUpdateReadLen)
      (hc : Chain next s.dev.pre.currFileOffset rs)
  /-- A read of 512 bytes and a multiple of 65536: nothing has the length that it awaits. -/
  | stuck (c : Args) (hp : s.phase = .sent c ∨ s.phase = .wait c) (hf : s.dev.pre.preReadFlag ≠ .disable)
      (hsw : s.dev.ctl.btupdataSw = .read) (hneed : s.dev.ctl.needRxLen = c.btr) (hbtr : 65536 ≤ c.btr)

/-- Between two reads. -/
theorem Mode.idle {s : State} {rs : List Request} (h : Mode b s rs) (hp : s.phase = .idle) :
    s.dev.pre.preReadFlag = .disable ∨
      ((s.dev.pre.preReadFlag = .toggleToEn ∨ s.dev.pre.preReadFlag = .enable) ∧ s.dev.ctl.btupdataSw = .read ∧
        s.dev.ctl.needRxLen = onceUpdateReadLen ∧
        Chain (below (below s.dev.pre.lastAddr)) s.dev.pre.currFileOffset rs) := by
  cases h with
  | plainIdle _ hf => exact .inl hf
  | plainWait _ hp' => simp [hp] at hp'
  | ahead _ hf hsw hneed hc => exact .inr ⟨hf, hsw, hneed, hc⟩
  | starting _ hp' => simp [hp] at hp'
  | last _ _ _ hp' => simp [hp] at hp'
  | stuck _ hp' => simp [hp] at hp'

theorem Mode.waitLast {s : State} {rs : List Request} (h : Mode b s rs) {c : Args} {l : Nat}
    (hp : s.phase = .waitLast c l) :
    s.dev.pre.preReadFlag = .toggleToDis ∧ s.dev.ctl.btupdataSw = .read ∧
      s.dev.ctl.needRxLen = onceUpdateReadLen ∧ ∃ next, Chain next s.dev.pre.currFileOffset rs := by
  cases h with
  | plainIdle hp' => simp [hp] at hp'
  | plainWait _ hp' => simp [hp] at hp'
  | ahead hp' => simp [hp] at hp'
  | starting _ hp' => simp [hp] at hp'
  | last _ _ next _ hf hsw hneed hc => exact ⟨hf, hsw, hneed, next, hc⟩
  | stuck _ hp' => simp [hp] at hp'

structure InvAhead (b : Env) (s : State) : Prop where
  kept  : Kept b s.dev.pre s.dev.mem
  apart : ∀ p, s.dev.ctl.readBuf = some p → Apart b p s.dev.ctl.needRxLen
  room  : ∀ c l, s.phase = .waitLast c l → Apart b c.buf c.btr
  mode  : ∃ ls rs, s.queue = ls ++ rs ∧ (∀ r ∈ ls, r.left = true) ∧ Mode b s rs

/-! ## A read begins -/

theorem Kept.flag {p : PreRead} {m : Mem} (hk : Kept b p m) (addr len : Nat) :
    Kept b (getUpdatePreReadFlag p addr len) m := by
  unfold getUpdatePreReadFlag
  split <;> split <;> exact ⟨hk.block0, hk.block1⟩

/-- **What the pattern of the addresses does to the mode.** -/
theorem flag_cases {p : PreRead} (h : p.preReadFlag ≠ .toggleToDis) (addr len : Nat) :
    let p' := getUpdatePreReadFlag p addr len
    p'.lastAddr = addr ∧ p'.currFileOffset = p.currFileOffset ∧
      (p'.preReadFlag = .disable ∨ (p'.preReadFlag = .toggleToDis ∧ p.preReadFlag = .enable) ∨
        (len = onceUpdateReadLen ∧ p'.preReadFlag = .toggleToEn ∧ p.preReadFlag = .disable) ∨
        (len = onceUpdateReadLen ∧ p'.preReadFlag = .enable ∧ addr = below p.lastAddr ∧
          (p.preReadFlag = .toggleToEn ∨ p.preReadFlag = .enable))) := by
  unfold getUpdatePreReadFlag
  split
  · rename_i hm
    cases hf : p.preReadFlag with
    | disable =>
      dsimp only
      split
      · exact ⟨rfl, rfl, .inr (.inr (.inl ⟨hm.2, rfl, rfl⟩))⟩
      · exact ⟨rfl, rfl, .inl rfl⟩
    | toggleToDis => exact absurd hf h
    | toggleToEn => exact ⟨rfl, rfl, .inr (.inr (.inr ⟨hm.2, rfl, hm.1, .inl rfl⟩))⟩
    | enable => exact ⟨rfl, rfl, .inr (.inr (.inr ⟨hm.2, rfl, hm.1, .inr rfl⟩))⟩
  · cases hf : p.preReadFlag with
    | disable => exact ⟨rfl, rfl, .inl rfl⟩
    | toggleToDis => exact absurd hf h
    | toggleToEn => exact ⟨rfl, rfl, .inl rfl⟩
    | enable => exact ⟨rfl, rfl, .inr (.inl ⟨rfl, rfl⟩)⟩

theorem left_leave (rs : List Request) : ∀ r ∈ rs.map Request.leave, r.left = true := by
  intro r hr
  obtain ⟨r', -, rfl⟩ := List.mem_map.1 hr
  rfl

/-- A read whose length is 512 modulo 65536. -/
theorem whole_or_long {c : Args} (h : c.btr % 65536 = onceUpdateReadLen) :
    c.btr = onceUpdateReadLen ∨ 65536 ≤ c.btr := by
  have := onceUpdateReadLen_eq
  omega

/-- A request outside of prefetching leaves all others behind. -/
theorem send_plain {s : State} {c : Args} {f : PreReadFlag} (hk : Kept b s.dev.pre s.dev.mem)
    (hap : Apart b c.buf c.btr) (hf : f ≠ .enable ∧ f ≠ .toggleToEn) (hd : s.dev.pre.preReadFlag = .disable) :
    InvAhead b (send s c f) where
  kept := hk
  apart := by
    rintro p ⟨⟩
    exact hap
  room c' l h := by simp [send, hf.2] at h
  mode := by
    refine ⟨s.queue.map Request.leave, [⟨c.seek, c.btr, false⟩], by simp [send, hf.1], left_leave _, ?_⟩
    refine .plainWait c (by simp [send, hf.2]) hd rfl rfl (.inl ⟨rfl, fun r hr => ?_⟩)
    rw [List.mem_singleton.1 hr]
    exact ⟨rfl, rfl⟩

/-- The first request of prefetching. -/
theorem send_first {s : State} {c : Args} (hk : Kept b s.dev.pre s.dev.mem) (hap : Apart b c.buf c.btr)
    (hf : s.dev.pre.preReadFlag = .toggleToEn) (hlast : s.dev.pre.lastAddr = c.seek)
    (hlen : c.btr % 65536 = onceUpdateReadLen) : InvAhead b (send s c .toggleToEn) where
  kept := hk
  apart := by
    rintro p ⟨⟩
    exact hap
  room c' l h := by simp [send] at h
  mode := by
    refine ⟨s.queue.map Request.leave, [⟨c.seek, c.btr, false⟩], rfl, left_leave _, ?_⟩
    rcases whole_or_long hlen with hbtr | hbtr
    · exact .starting c rfl hf hlast rfl rfl hbtr hbtr (by rw [hbtr])
    · exact .stuck c (.inl rfl) (by simp [send, Dev.arm, hf]) rfl rfl hbtr

/-- A request that runs ahead goes on with the chain. -/
theorem send_next {s : State} {c : Args} {ls rs : List Request} (hk : Kept b s.dev.pre s.dev.mem)
    (hap : Apart b c.buf c.btr) (hf : s.dev.pre.preReadFlag = .enable) (hlast : s.dev.pre.lastAddr = c.seek)
    (hlen : c.btr % 65536 = onceUpdateReadLen) (hq : s.queue = ls ++ rs) (hleft : ∀ r ∈ ls, r.left = true)
    (hc : Chain (below c.seek) s.dev.pre.currFileOffset rs) : InvAhead b (send s c .enable) where
  kept := hk
  apart := by
    rintro p ⟨⟩
    exact hap
  room c' l h := by simp [send] at h
  mode := by
    refine ⟨ls, rs ++ [⟨below c.seek, c.btr, false⟩], by simp [send, hq], hleft, ?_⟩
    rcases whole_or_long hlen with hbtr | hbtr
    · refine .ahead (.inr ⟨c, rfl, rfl, hbtr⟩) (.inr hf) rfl hbtr ?_
      have hsnoc := hc.snoc
      rw [hbtr]
      rwa [← hlast] at hsnoc ⊢
    · exact .stuck c (.inr rfl) (by simp [send, Dev.arm, hf]) rfl rfl hbtr

theorem start_inv {temp : Nat} {file : Mem} {s : State} {c : Args} (hI : InvAhead (preReading temp file) s)
    (hp : s.phase = .idle) (hap : Apart (preReading temp file) c.buf c.btr) :
    InvAhead (preReading temp file) (start (preReading temp file) s c) := by
  obtain ⟨ls, rs, hq, hleft, hmode⟩ := hI.mode
  have hkept := hI.kept.flag c.seek (c.btr % 65536)
  have hidle := hmode.idle hp
  have hflag : s.dev.pre.preReadFlag ≠ .toggleToDis := by
    rcases hidle with hf | ⟨hf | hf, -⟩ <;> simp [hf]
  obtain ⟨hlast, hcurr, hcases⟩ := flag_cases hflag c.seek (c.btr % 65536)
  unfold start
  rw [if_pos (by rfl)]
  dsimp only
  rcases hcases with hd | ⟨hd, he⟩ | ⟨hlen, hd, -⟩ | ⟨hlen, hd, haddr, he⟩
  · rw [hd, if_neg (by simp)]
    exact send_plain hkept hap (by simp) hd
  · rw [hd, if_pos rfl]
    obtain ⟨-, hsw, hneed, hc⟩ := hidle.resolve_left (by simp [he])
    refine ⟨hkept, hI.apart, fun c' l h => ?_, ls, rs, hq, hleft, ?_⟩
    · cases h
      exact hap
    · exact .last c _ _ rfl hd hsw hneed (by rw [hcurr]; exact hc)
  · rw [hd, if_neg (by simp)]
    exact send_first hkept hap hd hlast hlen
  · rw [hd, if_neg (by simp)]
    obtain ⟨-, -, -, hc⟩ := hidle.resolve_left (by rcases he with he | he <;> simp [he])
    exact send_next hkept hap hd hlast hlen hq hleft (by rw [hcurr, haddr]; exact hc)

/-! ## A read goes on -/

theorem second_inv {s : State} {c : Args} (hI : InvAhead b s) (hp : s.phase = .sent c) :
    InvAhead b { s with
      dev := { s.dev with pre := { s.dev.pre with currFileOffset := c.seek } }
      phase := .wait c
      queue := s.queue ++ [⟨below c.seek, c.btr, false⟩] } := by
  obtain ⟨ls, rs, hq, hleft, hmode⟩ := hI.mode
  refine ⟨⟨hI.kept.block0, hI.kept.block1⟩, hI.apart, (fun c' l h => by cases h), ls,
    rs ++ [⟨below c.seek, c.btr, false⟩], by simp [hq], hleft, ?_⟩
  cases hmode with
  | plainIdle hp' => simp [hp] at hp'
  | plainWait _ hp' => simp [hp] at hp'
  | ahead hp' => simp [hp] at hp'
  | last _ _ _ hp' => simp [hp] at hp'
  | starting c' hp' hf hlast hbuf hsw hbtr hneed hrs =>
    rw [hp] at hp'
    cases hp'
    refine .ahead (.inr ⟨c, rfl, hbuf, hbtr⟩) (.inl hf) hsw hneed ?_
    rw [hrs, hbtr]
    refine ⟨rfl, rfl, rfl, rfl, ?_⟩
    simp [Chain, hlast]
  | stuck c' hp' hf hsw hneed hbtr =>
    rw [hp] at hp'
    rcases hp' with hp' | hp' <;> cases hp'
    exact .stuck c (.inr rfl) hf hsw hneed hbtr

/-- The last block has come: prefetching is off, and the read sends its own request. -/
theorem waited_inv {s : State} {d : Dev} {c : Args} (hk : Kept b d.pre d.mem) (hap : Apart b c.buf c.btr) :
    InvAhead b (waited s d c) :=
  send_plain ⟨hk.block0, hk.block1⟩ hap (by simp) rfl

/-- A round of the handler: it serves the kept block of the address, or returns what was taken, or goes round. -/
theorem handler_cases (temp : Nat) (file : Mem) (d : Dev) (addr len : Nat) :
    (∃ d', getUpdatePreReadBuf (preReading temp file) d addr (len % 65536) = some d' ∧
        bleUpdataHandler (preReading temp file) d addr len = some (d', len)) ∨
      (d.ctl.btupdataSw = .acceptOk ∧ bleUpdataHandler (preReading temp file) d addr len =
        some ({ d with ctl := { d.ctl with readBuf := none } }, d.ctl.dateLen)) ∨
      bleUpdataHandler (preReading temp file) d addr len = none := by
  unfold bleUpdataHandler
  rw [if_pos (by rfl)]
  split
  · rename_i d' hd
    exact .inl ⟨d', hd, rfl⟩
  · split
    · rename_i ha
      exact .inr (.inl ⟨ha.2, rfl⟩)
    · exact .inr (.inr rfl)

theorem pollLast_inv {temp : Nat} {file : Mem} {s s' : State} {c : Args} {l : Nat} {o : Out}
    (hI : InvAhead (preReading temp file) s) (hp : s.phase = .waitLast c l)
    (hno : NoStray (preReading temp file) s .poll s' o)
    (h : (machine (preReading temp file)).step s .poll = some (s', o)) :
    InvAhead (preReading temp file) s' ∧ o = .quiet := by
  have hap := hI.room c l hp
  simp only [machine, hp] at h
  rcases handler_cases temp file s.dev (below l) c.btr with ⟨d, hd, hh⟩ | ⟨-, hh⟩ | hh
  · rw [hh] at h
    cases h
    have hlen : c.btr % 65536 ≤ onceUpdateReadLen := by
      simp only [NoStray, hp] at hno
      exact hno (by simp [hd])
    obtain ⟨ls, rs, -, -, hmode⟩ := hI.mode
    obtain ⟨-, -, hneed, -⟩ := hmode.waitLast hp
    have hbuf : ∀ p, s.dev.ctl.readBuf = some p → Apart (preReading temp file) p (c.btr % 65536) := by
      intro p hb
      have := hI.apart p hb
      unfold Apart at this ⊢
      omega
    exact ⟨waited_inv (served hI.kept hbuf hlen hd).1 hap, rfl⟩
  · rw [hh] at h
    cases h
    exact ⟨waited_inv hI.kept hap, rfl⟩
  · rw [hh] at h
    cases h
    exact ⟨hI, rfl⟩

theorem pollWait_inv {temp : Nat} {file : Mem} {s s' : State} {c : Args} {o : Out}
    (hI : InvAhead (preReading temp file) s) (hp : s.phase = .wait c)
    (hno : NoStray (preReading temp file) s .poll s' o)
    (h : (machine (preReading temp file)).step s .poll = some (s', o)) :
    InvAhead (preReading temp file) s' ∧ Serves file s .poll s' o := by
  obtain ⟨ls, rs, hq, hleft, hmode⟩ := hI.mode
  simp only [machine, hp] at h
  rcases handler_cases temp file s.dev c.seek c.btr with ⟨d, hd, hh⟩ | ⟨hsw, hh⟩ | hh
  · -- served from a kept block
    rw [hh] at h
    cases h
    have hlen : c.btr ≤ onceUpdateReadLen := by
      simp only [NoStray, hp] at hno
      exact hno (by simp [hd])
    have hmod : c.btr % 65536 = c.btr := by
      have := onceUpdateReadLen_eq
      omega
    rw [hmod] at hd
    have hfacts : s.dev.ctl.readBuf = some c.buf ∧ s.dev.ctl.needRxLen = c.btr ∧
        (s.dev.pre.preReadFlag = .disable ∨
          ((s.dev.pre.preReadFlag = .toggleToEn ∨ s.dev.pre.preReadFlag = .enable) ∧ s.dev.ctl.btupdataSw = .read ∧
            s.dev.ctl.needRxLen = onceUpdateReadLen ∧
            Chain (below (below s.dev.pre.lastAddr)) s.dev.pre.currFileOffset rs)) := by
      cases hmode with
      | plainIdle hp' => simp [hp] at hp'
      | plainWait c' hp' hf hbuf hneed =>
        rw [hp] at hp'
        cases hp'
        exact ⟨hbuf, hneed, .inl hf⟩
      | ahead hp' hf hsw hneed hc =>
        rcases hp' with hp' | ⟨c', hp', hbuf, hbtr⟩
        · simp [hp] at hp'
        · rw [hp] at hp'
          cases hp'
          exact ⟨hbuf, hneed.trans hbtr.symm, .inr ⟨hf, hsw, hneed, hc⟩⟩
      | starting _ hp' => simp [hp] at hp'
      | last _ _ _ hp' => simp [hp] at hp'
      | stuck c' hp' hf hsw hneed hbtr =>
        rw [hp] at hp'
        rcases hp' with hp' | hp' <;> cases hp'
        have := onceUpdateReadLen_eq
        omega
    obtain ⟨hbuf, hneed, hrest⟩ := hfacts
    obtain ⟨hk, hctl, hflag, hlast, hcurr, hread⟩ := served hI.kept (fun p hb => hneed ▸ hI.apart p hb) hlen hd
    refine ⟨⟨hk, (by rw [hctl]; exact hI.apart), (fun c' l h => by cases h), ls, rs, hq, hleft, ?_⟩, ?_⟩
    · rcases hrest with hf | ⟨hf, hsw, hneed, hc⟩
      · exact .plainIdle rfl (hflag.trans hf)
      · refine .ahead (.inl rfl) (by rw [hflag]; exact hf) (by rw [hctl]; exact hsw) (by rw [hctl]; exact hneed) ?_
        dsimp only
        rw [hlast, hcurr]
        exact hc
    · rintro c' hret
      cases hret
      exact hread c.buf hbuf
  · -- returns the answer that was taken
    rw [hh] at h
    cases h
    cases hmode with
    | plainIdle hp' => simp [hp] at hp'
    | plainWait c' hp' hf hbuf hneed hcase =>
      rw [hp] at hp'
      cases hp'
      obtain ⟨-, hdate, hmem⟩ := hcase.resolve_left (fun hr => by simp [hsw] at hr)
      refine ⟨⟨⟨hI.kept.block0, hI.kept.block1⟩, (fun p hb => by cases hb), (fun c' l h => by cases h), ls, rs, hq,
        hleft, .plainIdle rfl hf⟩, ?_⟩
      rintro c' hret
      simp only [Option.some.injEq, Prod.mk.injEq] at hret
      obtain ⟨rfl, -⟩ := hret
      exact hmem
    | ahead _ _ hsw' => simp [hsw] at hsw'
    | starting _ hp' => simp [hp] at hp'
    | last _ _ _ hp' => simp [hp] at hp'
    | stuck _ _ _ hsw' => simp [hsw] at hsw'
  · rw [hh] at h
    cases h
    exact ⟨hI, fun c' hret => by cases hret⟩

/-! ## An answer arrives -/

/-- An answer that is dropped changes nothing. -/
theorem reply_dropped {s : State} {r : Request} {rs : List Request} (h : ¬ s.dev.takes (r.len % 65536)) :
    reply b s r rs = ({ s with queue := rs }, .quiet) := by
  simp [reply, devReadUpdateBlockHandle, h, Out.quiet]

/-- Without prefetching an answer goes where the last read wanted it. -/
theorem reply_copied {s : State} {r : Request} {rs : List Request} (h : s.dev.takes (r.len % 65536))
    (ha : s.dev.pre.preReadFlag = .disable) :
    reply b s r rs =
      ({ s with
          dev :=
            { s.dev with
              ctl := { s.dev.ctl with btupdataSw := .acceptOk, accept := true, dateLen := r.len % 65536 }
              mem := memcpy s.dev.mem s.dev.ctl.readBuf (b.file.read r.offset (r.len % 65536)) }
          queue := rs
          taken := some r }, ⟨true, none⟩) := by
  have hn : ∀ d : Dev, d.pre.preReadFlag = .disable → ¬ d.ahead b := fun d hd hah => hah.2 hd
  have hbytes : (b.file.read r.offset r.len).take (r.len % 65536) = b.file.read r.offset (r.len % 65536) :=
    take_read b.file (Nat.mod_le _ _)
  have h1 := hn s.dev ha
  have h2 := hn { s.dev with ctl := { s.dev.ctl with dateLen := r.len % 65536 } } ha
  simp [reply, devReadUpdateBlockHandle, h, h1, h2, hbytes]

/-- With prefetching an answer is kept. -/
theorem reply_kept {temp : Nat} {file : Mem} {s : State} {r : Request} {rs : List Request}
    (h : s.dev.takes (r.len % 65536)) (ha : s.dev.pre.preReadFlag ≠ .disable) :
    reply (preReading temp file) s r rs =
      ({ s with
          dev := keep (preReading temp file) { s.dev with ctl := { s.dev.ctl with dateLen := r.len % 65536 } }
            (file.read r.offset (r.len % 65536))
          queue := rs }, .quiet) := by
  have h1 : s.dev.ahead (preReading temp file) := ⟨rfl, ha⟩
  have h2 : Dev.ahead (preReading temp file) { s.dev with ctl := { s.dev.ctl with dateLen := r.len % 65536 } } :=
    ⟨rfl, ha⟩
  have hbytes : ((preReading temp file).file.read r.offset r.len).take (r.len % 65536)
      = file.read r.offset (r.len % 65536) := take_read file (Nat.mod_le _ _)
  simp [reply, devReadUpdateBlockHandle, h, h1, h2, hbytes, Out.quiet]

theorem chain_takes {s : State} {next curr : Nat} {r : Request} {rs : List Request} (hsw : s.dev.ctl.btupdataSw = .read)
    (hneed : s.dev.ctl.needRxLen = onceUpdateReadLen) (hc : Chain next curr (r :: rs)) :
    s.dev.takes (r.len % 65536) := by
  have := onceUpdateReadLen_eq
  refine ⟨hsw, ?_⟩
  rw [hneed, hc.2.1]
  omega

/-- What an answer that is dropped leaves. -/
theorem Mode.drop {s : State} {r : Request} {rs qs : List Request} (h : Mode b s (r :: rs))
    (ht : ¬ s.dev.takes (r.len % 65536)) : Mode b { s with queue := qs } rs := by
  cases h with
  | plainIdle hp hf => exact .plainIdle hp hf
  | plainWait c hp hf hbuf hneed h =>
    exact .plainWait c hp hf hbuf hneed (h.imp_left fun h => ⟨h.1, fun x hx => h.2 x (List.mem_cons_of_mem r hx)⟩)
  | ahead hp hf hsw hneed hc => exact absurd (chain_takes hsw hneed hc) ht
  | starting c hp hf hlast hbuf hsw hbtr hneed hrs =>
    cases hrs
    have hc : Chain (below c.seek) c.seek [⟨c.seek, onceUpdateReadLen, false⟩] := ⟨rfl, rfl, rfl⟩
    exact absurd (chain_takes hsw hneed hc) ht
  | last c l next hp hf hsw hneed hc => exact absurd (chain_takes hsw hneed hc) ht
  | stuck c hp hf hsw hneed hbtr => exact .stuck c hp hf hsw hneed hbtr

theorem Mode.queue {s : State} {rs qs : List Request} (h : Mode b s rs) : Mode b { s with queue := qs } rs := by
  cases h with
  | plainIdle hp hf => exact .plainIdle hp hf
  | plainWait c hp hf hbuf hneed h => exact .plainWait c hp hf hbuf hneed h
  | ahead hp hf hsw hneed hc => exact .ahead hp hf hsw hneed hc
  | starting c hp hf hlast hbuf hsw hbtr hneed hrs => exact .starting c hp hf hlast hbuf hsw hbtr hneed hrs
  | last c l next hp hf hsw hneed hc => exact .last c l next hp hf hsw hneed hc
  | stuck c hp hf hsw hneed hbtr => exact .stuck c hp hf hsw hneed hbtr

/-- An answer that is copied: its request is the own one of the read that waits. -/
theorem copied_inv {s : State} {r : Request} {rs : List Request} (hI : InvAhead b s)
    (ht : s.dev.takes (r.len % 65536)) (hf : s.dev.pre.preReadFlag = .disable) (hmode : Mode b s (r :: rs)) :
    InvAhead b (reply b s r rs).1 := by
  rw [reply_copied ht hf]
  have hlen : ∀ p, s.dev.ctl.readBuf = some p →
      Apart b p (b.file.read r.offset (r.len % 65536)).length := fun p hb => by
    rw [Mem.length_read, ← ht.2]
    exact hI.apart p hb
  refine ⟨hI.kept.memcpy hlen, hI.apart, hI.room, [], rs, rfl, (fun x hx => by cases hx), ?_⟩
  cases hmode with
  | plainIdle hp => exact .plainIdle hp hf
  | plainWait c hp _ hbuf hneed h =>
    obtain ⟨hoff, -⟩ := (h.resolve_right fun h => by simp [ht.1] at h).2 r (List.mem_cons_self ..)
    have hsize : r.len % 65536 = c.btr := ht.2.symm.trans hneed
    have hself := Mem.read_write_self s.dev.mem c.buf (b.file.read c.seek c.btr)
    rw [Mem.length_read] at hself
    exact .plainWait c hp hf hbuf hneed (.inr ⟨rfl, hsize, by simp only [hbuf, memcpy, hoff, hsize, hself]⟩)
  | ahead _ hf' => rcases hf' with hf' | hf' <;> simp [hf] at hf'
  | starting _ _ hf' => simp [hf] at hf'
  | last _ _ _ _ hf' => simp [hf] at hf'
  | stuck _ _ hf' => exact absurd hf hf'

/-- **An answer that is kept** has the address it is kept under. -/
theorem kept_inv {temp : Nat} {file : Mem} {s : State} {r : Request} {rs : List Request} {next : Nat}
    (hI : InvAhead (preReading temp file) s) (ht : s.dev.takes (r.len % 65536))
    (hf : s.dev.pre.preReadFlag ≠ .disable) (hneed : s.dev.ctl.needRxLen = onceUpdateReadLen)
    (hc : Chain next s.dev.pre.currFileOffset (r :: rs))
    (hmode : ∀ d : Dev, d.ctl.readBuf = s.dev.ctl.readBuf → d.ctl.btupdataSw = s.dev.ctl.btupdataSw →
      d.ctl.needRxLen = s.dev.ctl.needRxLen → d.pre.preReadFlag = s.dev.pre.preReadFlag →
      d.pre.lastAddr = s.dev.pre.lastAddr → Chain next d.pre.currFileOffset rs →
      Mode (preReading temp file) { s with dev := d, queue := rs } rs) :
    InvAhead (preReading temp file) (reply (preReading temp file) s r rs).1 := by
  have hsize : r.len % 65536 = onceUpdateReadLen := ht.2.symm.trans hneed
  obtain ⟨d, hd⟩ : ∃ d : Dev, d = { s.dev with ctl := { s.dev.ctl with dateLen := r.len % 65536 } } := ⟨_, rfl⟩
  have hpre : d.pre = s.dev.pre := by rw [hd]
  have hkept : Kept (preReading temp file) d.pre d.mem := by
    rw [hd]
    exact hI.kept
  have hbytes : file.read r.offset (r.len % 65536)
      = (preReading temp file).file.read d.pre.currFileOffset onceUpdateReadLen := by
    rw [hsize, hpre, hc.1]
    rfl
  rw [reply_kept ht hf, ← hd]
  generalize file.read r.offset (r.len % 65536) = bs at hbytes
  have hctl : (keep (preReading temp file) d bs).ctl = { s.dev.ctl with dateLen := r.len % 65536 } := by
    rw [keep_ctl, hd]
  obtain ⟨hflag, hlast, hcurr⟩ := keep_pre (b := preReading temp file) d bs
  rw [hpre] at hflag hlast hcurr
  refine ⟨keep_kept hkept hbytes, (by rw [hctl]; exact hI.apart), hI.room, [], rs, rfl, (fun x hx => by cases hx),
    hmode _ (by rw [hctl]) (by rw [hctl]) (by rw [hctl]) hflag hlast ?_⟩
  rw [hcurr]
  exact hc.2.2

theorem reply_inv {temp : Nat} {file : Mem} {s : State} {r : Request} {rs : List Request}
    (hI : InvAhead (preReading temp file) s) (hq : s.queue = r :: rs)
    (hno : s.dev.takes (r.len % 65536) → r.left = false ∧ ∀ c, s.phase ≠ .sent c) :
    InvAhead (preReading temp file) (reply (preReading temp file) s r rs).1 := by
  obtain ⟨ls, qs, hsplit, hleft, hmode⟩ := hI.mode
  rw [hq] at hsplit
  by_cases ht : s.dev.takes (r.len % 65536)
  · obtain ⟨hr, hsent⟩ := hno ht
    have hls : ls = [] := by
      cases ls with
      | nil => rfl
      | cons x ls =>
        have hx := hleft x (List.mem_cons_self ..)
        rw [← (List.cons.inj hsplit).1, hr] at hx
        cases hx
    subst hls
    obtain rfl : r :: rs = qs := hsplit
    have hmode' := hmode
    cases hmode with
    | plainIdle _ hf => exact copied_inv hI ht hf hmode'
    | plainWait _ _ hf => exact copied_inv hI ht hf hmode'
    | ahead hp hf hsw hneed hc =>
      refine kept_inv hI ht (by rcases hf with hf | hf <;> simp [hf]) hneed hc ?_
      intro d hbuf hsw' hneed' hf' hlast' hc'
      refine .ahead ?_ (by rw [hf']; exact hf) (hsw'.trans hsw) (hneed'.trans hneed) (by rw [hlast']; exact hc')
      exact hp.imp_right fun ⟨c, hp, hb, hbtr⟩ => ⟨c, hp, hbuf.trans hb, hbtr⟩
    | starting c hp => exact absurd hp (hsent c)
    | last c l next hp hf hsw hneed hc =>
      refine kept_inv hI ht (by simp [hf]) hneed hc ?_
      intro d _ hsw' hneed' hf' _ hc'
      exact .last c l next hp (hf'.trans hf) (hsw'.trans hsw) (hneed'.trans hneed) hc'
    | stuck c _ _ _ hneed hbtr =>
      have := ht.2
      have hlt : r.len % 65536 < 65536 := Nat.mod_lt _ (by decide)
      omega
  · rw [reply_dropped ht]
    cases ls with
    | nil =>
      obtain rfl : r :: rs = qs := hsplit
      exact ⟨hI.kept, hI.apart, hI.room, [], rs, rfl, (fun x hx => by cases hx), hmode.drop ht⟩
    | cons x ls =>
      obtain ⟨rfl, rfl⟩ := List.cons.inj hsplit
      exact ⟨hI.kept, hI.apart, hI.room, ls, qs, rfl, (fun x hx => hleft x (List.mem_cons_of_mem _ hx)), hmode.queue⟩

/-! ## Runs -/

theorem serves_quiet {file : Mem} {s s' : State} {e : Event} {k : Bool} : Serves file s e s' ⟨k, none⟩ :=
  fun _ h => by cases h

theorem step_ahead {temp : Nat} {file : Mem} {s s' : State} {e : Event} {o : Out}
    (hI : InvAhead (preReading temp file) s) (hs : (machine (preReading temp file)).step s e = some (s', o))
    (hno : NoStray (preReading temp file) s e s' o) (ht : e ≠ .timeout) :
    InvAhead (preReading temp file) s' ∧ Serves file s e s' o := by
  cases e with
  | timeout => exact absurd rfl ht
  | start c =>
    cases hp : s.phase <;> simp only [machine, hp, reduceCtorEq] at hs
    split at hs
    · rename_i hap
      cases hs
      exact ⟨start_inv hI hp hap, serves_quiet⟩
    · cases hs
  | second =>
    cases hp : s.phase <;> simp only [machine, hp, reduceCtorEq] at hs
    cases hs
    exact ⟨second_inv hI hp, serves_quiet⟩
  | poll =>
    cases hp : s.phase with
    | idle => simp [machine, hp] at hs
    | sent c => simp [machine, hp] at hs
    | waitLast c l =>
      obtain ⟨hI', rfl⟩ := pollLast_inv hI hp hno hs
      exact ⟨hI', serves_quiet⟩
    | wait c => exact pollWait_inv hI hp hno hs
  | reply =>
    have hhead : ∀ r rs, s.queue = r :: rs → s.dev.takes (r.len % 65536) → r.left = false ∧ ∀ c, s.phase ≠ .sent c := by
      intro r rs hq htk
      cases hp : s.phase <;> simp only [NoStray, hp] at hno
      · exact ⟨hno r rs hq htk, by simp⟩
      · exact ⟨hno r rs hq htk, by simp⟩
      · exact absurd htk (hno r rs hq)
      · exact ⟨hno r rs hq htk, by simp⟩
    simp only [machine] at hs
    split at hs
    · rename_i r rs hq
      cases hs
      exact ⟨reply_inv hI hq (hhead r rs hq), serves_quiet⟩
    · cases hs

theorem inv_init (m : Mem) : InvAhead b (.init m) where
  kept := ⟨(fun h => by cases h), (fun h => by cases h)⟩
  apart p h := by cases h
  room c l h := by cases h
  mode := ⟨[], [], rfl, (fun r hr => by cases hr), .plainIdle rfl rfl⟩

/-- **Prefetching serves the file**: in every run without a timeout in which no answer that was left behind is taken,
none comes before the second request of a prefetch, and no kept block is asked for more than its length, each read that
returns its count has its bytes of the file. -/
theorem reads_serve (temp : Nat) (file m : Mem) (es : List Event) (htime : ∀ e ∈ es, e ≠ .timeout)
    (hno : (machine (preReading temp file)).Along (NoStray (preReading temp file)) (.init m) es) :
    (machine (preReading temp file)).Along (Serves file) (.init m) es := by
  have hquiet : (machine (preReading temp file)).Along (fun _ e _ _ => e ≠ .timeout) (.init m) es :=
    Machine.along_of_forall (fun _ _ _ _ h => h) es _ htime
  exact Machine.along_of_inv (InvAhead (preReading temp file))
    (fun _ _ _ _ hI hs hc => step_ahead hI hs hc.1 hc.2) es _ (inv_init m) (Machine.along_and hno hquiet)

/-- Six reads of 512 bytes down through the file switch prefetching on; both requests of the sixth are answered, and the
seventh read is served with the block that was kept for it. -/
def keptBlock : List Event :=
  [5120, 4608, 4096, 3584, 3072].flatMap (fun seek => [.start ⟨0, 512, seek⟩, .reply, .poll]) ++
    [.start ⟨0, 512, 2560⟩, .second, .reply, .reply, .poll, .start ⟨0, 512, 2048⟩, .poll, .reply]

/-- A file whose blocks differ. -/
def numberedFile : Mem := fun a => UInt8.ofNat (a / 512)

theorem reads_serve_keptBlock :
    (machine (preReading 4096 numberedFile)).Along (Serves numberedFile) (.init fun _ => 0) keptBlock :=
  reads_serve 4096 numberedFile _ keptBlock (by simp [keptBlock]) (by decide +kernel)

/-- Six reads of 512 bytes down through the file switch prefetching on; the seventh reads elsewhere, and the block that
was asked for ahead arrives as its answer. -/
def leftBehind : List Event :=
  [5120, 4608, 4096, 3584, 3072].flatMap (fun seek => [.start ⟨0, 512, seek⟩, .reply, .poll]) ++
    [.start ⟨0, 512, 2560⟩, .second, .reply, .poll, .start ⟨0, 512, 0⟩, .reply]

/-- A file whose first block differs from the others. -/
def markedFile : Mem := fun a => if a < 512 then 1 else 0

/-- **The block that was left behind** is taken for the block at 0. -/
theorem not_reads_serve : ¬ ∀ (temp : Nat) (file m : Mem) (es : List Event), (∀ e ∈ es, e ≠ .timeout) →
    (machine (preReading temp file)).Along (Serves file) (.init m) es := by
  intro h
  have hA := h 4096 markedFile (fun _ => 0) (leftBehind ++ [.poll]) (by
    intro e he
    rintro rfl
    simp [leftBehind] at he)
  have hrun : ((machine (preReading 4096 markedFile)).run (.init fun _ => 0) leftBehind).bind (fun r =>
      ((machine (preReading 4096 markedFile)).step r.1 .poll).map (fun q =>
        (q.1.dev.mem 0, q.2.returned.map (fun p => (p.1.buf, p.1.btr, p.1.seek, p.2)))))
      = some (0, some (0, 512, 0, 512)) := by decide +kernel
  obtain ⟨⟨s, os⟩, hr, hs⟩ := Option.bind_eq_some_iff.1 hrun
  obtain ⟨⟨s', o⟩, hs, hq⟩ := Option.map_eq_some_iff.1 hs
  simp only [Prod.mk.injEq] at hq
  obtain ⟨hmem, hret⟩ := hq
  obtain ⟨⟨c, n⟩, hret, hc⟩ := Option.map_eq_some_iff.1 hret
  obtain ⟨buf, btr, seek⟩ := c
  simp only [Prod.mk.injEq] at hc
  obtain ⟨rfl, rfl, rfl, rfl⟩ := hc
  have hread := Machine.along_last hA hr hs ⟨0, 512, 0⟩ hret
  have hhead := congrArg (fun l => l[0]?) hread
  simp [Mem.read, markedFile, hmem] at hhead

end Block
end OtaLoader
