import OtaLoader.BlockAhead
/-!
# BlockFrame — the memory that a block read touches

The calls of `ble_updata_read` among any packets at any time, with the copies that each step makes.  In a call they go
to the prefetch blocks and to the call's own buffer, but for the one that waits for the last block: it copies with the
new call's length to where the call before wanted its bytes.  `reads_frame_iff` says when that does no harm.
-/
namespace OtaLoader
namespace Block

/-! ## Copies -/

/-- A copy of `len` bytes, from a place in memory or else from the packet that arrives, to where `dst` points. -/
structure Copy where
  src : Option Nat
  dst : Option Nat
  len : Nat

def Copy.Writes (k : Copy) (a : Nat) : Prop := ∃ p, k.dst = some p ∧ p ≤ a ∧ a < p + k.len

def Copy.apply (packet : List UInt8) (m : Mem) (k : Copy) : Mem :=
  memcpy m k.dst (match k.src with
    | some a => m.read a k.len
    | none   => packet.take k.len)

/-- The kept block of an address. -/
def blockOf (b : Env) (p : PreRead) (addr : Nat) : Option Nat :=
  if p.busy0 = true ∧ p.buf0Addr = addr then some b.temp
  else if p.busy1 = true ∧ p.buf1Addr = addr then some (b.temp + onceUpdateReadLen)
  else none

/-- What `get_update_pre_read_buf` copies. -/
def preReadCopies (b : Env) (d : Dev) (addr len : Nat) : List Copy :=
  ((blockOf b d.pre addr).map (fun a => ⟨some a, d.ctl.readBuf, len⟩)).toList

/-- What `dev_read_update_block_handle` copies. -/
def rxCopies (b : Env) (d : Dev) (n : Nat) : List Copy :=
  if d.takes n then
    if d.ahead b then
      if d.pre.busy0 = false then [⟨none, some b.temp, n⟩]
      else if d.pre.busy1 = false then [⟨none, some (b.temp + onceUpdateReadLen), n⟩]
      else []
    else [⟨none, d.ctl.readBuf, n⟩]
  else []

def copies (b : Env) (s : State) : Event → List Copy
  | .poll  =>
    match s.phase with
    | .waitLast c last => preReadCopies b s.dev (below last) (c.btr % 65536)
    | .wait c          => preReadCopies b s.dev c.seek (c.btr % 65536)
    | _                => []
  | .reply =>
    match s.queue with
    | r :: _ => rxCopies b s.dev (r.len % 65536)
    | []     => []
  | _      => []

/-- The system, with any other packet at any time. -/
def anyPeer (b : Env) : Machine State (Event ⊕ List UInt8) (List Copy) where
  step s e :=
    match e with
    | .inl e  => ((machine b).step s e).map (fun r => (r.1, copies b s e))
    | .inr bs =>
      some ({ s with dev := devReadUpdateBlockHandle b s.dev bs (bs.length % 65536) },
        rxCopies b s.dev (bs.length % 65536))

/-- Nothing has been read yet, and the prefetching is in any state. -/
def State.from (p : PreRead) (m : Mem) : State := { State.init m with dev := { (State.init m).dev with pre := p } }

variable {b : Env}

theorem apply_outside {packet : List UInt8} {m : Mem} {k : Copy} {a : Nat} (h : ¬ k.Writes a) :
    k.apply packet m a = m a := by
  unfold Copy.apply
  cases hd : k.dst with
  | none   => rfl
  | some p =>
    have hp : ¬ (p ≤ a ∧ a < p + k.len) := fun hp => h ⟨p, hd, hp⟩
    unfold Block.memcpy
    dsimp only
    apply Mem.write_outside
    cases k.src with
    | some q =>
      dsimp only
      rw [Mem.length_read]
      omega
    | none   =>
      dsimp only
      rw [List.length_take]
      omega

theorem getUpdatePreReadBuf_eq (d : Dev) (addr len : Nat) :
    (blockOf b d.pre addr = none ∧ getUpdatePreReadBuf b d addr len = none) ∨
      ∃ a p, blockOf b d.pre addr = some a ∧
        getUpdatePreReadBuf b d addr len =
          some { d with pre := p, mem := memcpy d.mem d.ctl.readBuf (d.mem.read a len) } ∧
        p.preReadFlag = d.pre.preReadFlag := by
  unfold getUpdatePreReadBuf blockOf
  split
  · exact .inr ⟨_, _, rfl, rfl, rfl⟩
  · split
    · exact .inr ⟨_, _, rfl, rfl, rfl⟩
    · exact .inl ⟨rfl, rfl⟩

/-- **The copies are all that a packet writes.** -/
theorem rxCopies_mem (d : Dev) (bs : List UInt8) (n : Nat) :
    (devReadUpdateBlockHandle b d bs n).mem = (rxCopies b d n).foldl (Copy.apply bs) d.mem := by
  have hahead : ∀ k : Nat, Dev.ahead b { d with ctl := { d.ctl with dateLen := k } } ↔ d.ahead b := fun k => Iff.rfl
  unfold devReadUpdateBlockHandle rxCopies
  split
  · dsimp only
    simp only [hahead]
    split
    · unfold keep
      dsimp only
      split
      · rfl
      · split <;> rfl
    · rfl
  · rfl

/-- A packet leaves the mode and where the read wants its bytes. -/
theorem rx_frame (d : Dev) (bs : List UInt8) (n : Nat) :
    (devReadUpdateBlockHandle b d bs n).ctl.readBuf = d.ctl.readBuf ∧
      (devReadUpdateBlockHandle b d bs n).ctl.needRxLen = d.ctl.needRxLen ∧
      (devReadUpdateBlockHandle b d bs n).pre.preReadFlag = d.pre.preReadFlag ∧
      ((devReadUpdateBlockHandle b d bs n).ctl.btupdataSw = d.ctl.btupdataSw ∨
        (d.ctl.btupdataSw = .read ∧ ¬ d.ahead b)) := by
  unfold devReadUpdateBlockHandle
  split
  · rename_i ht
    dsimp only
    split
    · refine ⟨by rw [keep_ctl], by rw [keep_ctl], (keep_pre ..).1, .inl (by rw [keep_ctl])⟩
    · rename_i ha
      exact ⟨rfl, rfl, rfl, .inr ⟨ht.1, ha⟩⟩
  · exact ⟨rfl, rfl, rfl, .inl rfl⟩

/-! ## What a call may touch -/

/-- The call in progress. -/
def Phase.call : Phase → Option Args
  | .idle         => none
  | .waitLast c _ => some c
  | .sent c       => some c
  | .wait c       => some c

def InBlocks (b : Env) (a : Nat) : Prop := b.temp ≤ a ∧ a < b.temp + 2 * onceUpdateReadLen

def Args.Owns (c : Args) (a : Nat) : Prop := c.buf ≤ a ∧ a < c.buf + c.btr

/-- A step in the call `c` writes the blocks and the call's own buffer alone, and reads no block over its end. -/
structure Frames (b : Env) (c : Args) (s s' : State) (o : List Copy) : Prop where
  aimed  : ∀ k ∈ o, k.dst = none → k.len = 0
  inside : ∀ k ∈ o, ∀ a, k.Writes a → InBlocks b a ∨ c.Owns a
  short  : ∀ k ∈ o, k.src ≠ none → k.len ≤ onceUpdateReadLen
  rest   : ∀ a, ¬ InBlocks b a → ¬ c.Owns a → s'.dev.mem a = s.dev.mem a

def InFrame (b : Env) (s : State) (e : Event ⊕ List UInt8) (s' : State) (o : List Copy) : Prop :=
  ∀ c, s.phase.call = some c ∨ e = .inl (.start c) → Frames b c s s' o

/-- A kept block is not asked for more than its length; and the block that a call waits for before its own request finds
the buffer of the call before in its own. -/
def OwnBuffer (b : Env) (s : State) (e : Event ⊕ List UInt8) (_ : State) (_ : List Copy) : Prop :=
  match e, s.phase with
  | .inl .poll, .waitLast c last => blockOf b s.dev.pre (below last) ≠ none → c.btr % 65536 ≤ onceUpdateReadLen ∧
      (c.btr % 65536 = 0 ∨ ∃ p, s.dev.ctl.readBuf = some p ∧ c.buf ≤ p ∧ p + c.btr % 65536 ≤ c.buf + c.btr)
  | .inl .poll, .wait c          => blockOf b s.dev.pre c.seek ≠ none → c.btr % 65536 ≤ onceUpdateReadLen
  | _, _                         => True

/-- While prefetching is on, what is awaited is a block. -/
structure Steady (b : Env) (s : State) : Prop where
  need  : s.dev.pre.preReadFlag ≠ .disable →
    (s.dev.ctl.readBuf = none ∧ s.dev.ctl.btupdataSw ≠ .read) ∨
      (s.dev.ctl.btupdataSw = .read ∧ s.dev.ctl.needRxLen % 65536 = onceUpdateReadLen)
  own   : ∀ c, s.phase = .sent c ∨ s.phase = .wait c →
    s.dev.ctl.readBuf = some c.buf ∧ s.dev.ctl.needRxLen = c.btr
  last  : ∀ c l, s.phase = .waitLast c l → s.dev.pre.preReadFlag = .toggleToDis
  apart : ∀ p, s.dev.ctl.readBuf = some p → Apart b p s.dev.ctl.needRxLen
  room  : ∀ c l, s.phase = .waitLast c l → Apart b c.buf c.btr

/-- A step without copies. -/
theorem Frames.nothing {c : Args} {s s' : State} (h : s'.dev.mem = s.dev.mem) : Frames b c s s' [] where
  aimed  := fun k hk => by cases hk
  inside := fun k hk => by cases hk
  short  := fun k hk => by cases hk
  rest   := fun a _ _ => by rw [h]

/-- A step with one copy. -/
theorem frames_one {c : Args} {s s' : State} {k : Copy} {bs : List UInt8} (h : s'.dev.mem = k.apply bs s.dev.mem) :
    Frames b c s s' [k] ↔ (k.dst = none → k.len = 0) ∧ (∀ a, k.Writes a → InBlocks b a ∨ c.Owns a) ∧
      (k.src ≠ none → k.len ≤ onceUpdateReadLen) := by
  constructor
  · intro hf
    exact ⟨hf.aimed k (List.mem_singleton_self k), hf.inside k (List.mem_singleton_self k),
      hf.short k (List.mem_singleton_self k)⟩
  · rintro ⟨h₁, h₂, h₃⟩
    refine ⟨fun k' hk => ?_, fun k' hk => ?_, fun k' hk => ?_, fun a hb ho => ?_⟩
    · rw [List.mem_singleton.1 hk]
      exact h₁
    · rw [List.mem_singleton.1 hk]
      exact h₂
    · rw [List.mem_singleton.1 hk]
      exact h₃
    · rw [h]
      apply apply_outside
      exact fun hw => (h₂ a hw).elim hb ho

/-! ## Steps -/

section Steps

variable {temp : Nat} {file : Mem} {s s' : State} {c : Args} {o : List Copy}

/-- A call begins without touching memory. -/
theorem start_mem (b : Env) (s : State) (c : Args) : (start b s c).dev.mem = s.dev.mem := by
  unfold start
  split
  · dsimp only
    split <;> rfl
  · rfl

/-- Between two calls. -/
theorem Steady.idle {d : Dev} {q : List Request} {t : Option Request}
    (hneed : d.pre.preReadFlag ≠ .disable → (d.ctl.readBuf = none ∧ d.ctl.btupdataSw ≠ .read) ∨
      (d.ctl.btupdataSw = .read ∧ d.ctl.needRxLen % 65536 = onceUpdateReadLen))
    (hap : ∀ p, d.ctl.readBuf = some p → Apart b p d.ctl.needRxLen) : Steady b ⟨d, .idle, q, t⟩ where
  need  := hneed
  own   := fun c hc => by rcases hc with hc | hc <;> cases hc
  last  := fun c l hc => by cases hc
  apart := hap
  room  := fun c l hc => by cases hc

/-- The request is armed. -/
theorem Steady.send {f : PreReadFlag} (hap : Apart b c.buf c.btr)
    (hf : s.dev.pre.preReadFlag ≠ .disable → c.btr % 65536 = onceUpdateReadLen) : Steady b (send s c f) := by
  refine ⟨fun hd => .inr ⟨rfl, hf hd⟩, fun c' hc => ?_, fun c' l hc => ?_, fun p hp => ?_, fun c' l hc => ?_⟩
  · unfold Block.send at hc
    dsimp only at hc
    split at hc
    · rcases hc with hc | hc <;> cases hc
      exact ⟨rfl, rfl⟩
    · rcases hc with hc | hc <;> cases hc
      exact ⟨rfl, rfl⟩
  · unfold Block.send at hc
    dsimp only at hc
    split at hc <;> cases hc
  · cases hp
    exact hap
  · unfold Block.send at hc
    dsimp only at hc
    split at hc <;> cases hc

theorem flag_length (p : PreRead) (addr len : Nat)
    (h : (getUpdatePreReadFlag p addr len).preReadFlag ≠ .disable)
    (h' : (getUpdatePreReadFlag p addr len).preReadFlag ≠ .toggleToDis) : len = onceUpdateReadLen := by
  unfold getUpdatePreReadFlag at h h'
  split at h
  · rename_i hm
    exact hm.2
  · rename_i hm
    rw [if_neg hm] at h'
    cases hf : p.preReadFlag with
    | enable => simp [hf] at h'
    | _      => simp [hf] at h

theorem flag_disabled {p : PreRead} {addr len : Nat} (hp : p.preReadFlag = .disable) :
    (getUpdatePreReadFlag p addr len).preReadFlag ≠ .toggleToDis := by
  unfold getUpdatePreReadFlag
  rw [hp]
  split
  · dsimp only
    split <;> simp
  · simp

theorem Steady.start (h : Steady (preReading temp file) s) (hap : Apart (preReading temp file) c.buf c.btr) :
    Steady (preReading temp file) (start (preReading temp file) s c) := by
  unfold Block.start
  rw [if_pos (by rfl)]
  dsimp only
  split
  · rename_i hd
    have hne : s.dev.pre.preReadFlag ≠ .disable := fun hp => flag_disabled hp hd
    refine ⟨fun _ => h.need hne, fun c' hc => ?_, fun c' l hc => hd, h.apart, fun c' l hc => ?_⟩
    · rcases hc with hc | hc <;> cases hc
    · cases hc
      exact hap
  · rename_i hd
    exact .send hap (fun hne => flag_length _ _ _ hne hd)

theorem Steady.waited {d : Dev} (hap : Apart b c.buf c.btr) : Steady b (waited s d c) :=
  .send hap (fun h => absurd rfl h)

/-- A packet arrives. -/
theorem Steady.rx {q : List Request} {t : Option Request} (h : Steady (preReading temp file) s) (bs : List UInt8)
    (n : Nat) : Steady (preReading temp file)
      { s with dev := devReadUpdateBlockHandle (preReading temp file) s.dev bs n, queue := q, taken := t } := by
  obtain ⟨h₁, h₂, h₃, h₄⟩ := rx_frame (b := preReading temp file) s.dev bs n
  refine ⟨fun hf => ?_, fun c hc => ?_, fun c l hc => ?_, fun p hp => ?_, h.room⟩
  · dsimp only at hf ⊢
    rw [h₃] at hf
    have hsw := h₄.resolve_right (fun h' => h'.2 ⟨rfl, hf⟩)
    rw [h₁, h₂, hsw]
    exact h.need hf
  · dsimp only
    rw [h₁, h₂]
    exact h.own c hc
  · dsimp only
    rw [h₃]
    exact h.last c l hc
  · dsimp only at hp ⊢
    rw [h₁] at hp
    rw [h₂]
    exact h.apart p hp

/-- **What arrives in a call goes to a block or to the call's buffer.** -/
theorem rx_frames {q : List Request} {t : Option Request} (h : Steady (preReading temp file) s)
    (hc : s.phase.call = some c) (bs : List UInt8) (n : Nat) :
    Frames (preReading temp file) c s
      { s with dev := devReadUpdateBlockHandle (preReading temp file) s.dev bs (n % 65536), queue := q, taken := t }
      (rxCopies (preReading temp file) s.dev (n % 65536)) := by
  have hlen := onceUpdateReadLen_eq
  have hmem := rxCopies_mem (b := preReading temp file) s.dev bs (n % 65536)
  generalize hb : preReading temp file = b at h hmem ⊢
  unfold rxCopies at hmem ⊢
  by_cases ht : s.dev.takes (n % 65536)
  · rw [if_pos ht] at hmem ⊢
    by_cases ha : s.dev.ahead b
    · rw [if_pos ha] at hmem ⊢
      have hsize : n % 65536 = onceUpdateReadLen := by
        rcases h.need ha.2 with hn | hn
        · exact absurd ht.1 hn.2
        · have := ht.2
          omega
      by_cases h0 : s.dev.pre.busy0 = false
      · rw [if_pos h0] at hmem ⊢
        refine (frames_one hmem).2 ⟨nofun, fun a ha' => .inl ?_, fun hne => absurd rfl hne⟩
        obtain ⟨p, hp, hlo, hhi⟩ := ha'
        cases hp
        dsimp only at hhi
        exact ⟨hlo, by omega⟩
      · rw [if_neg h0] at hmem ⊢
        by_cases h1 : s.dev.pre.busy1 = false
        · rw [if_pos h1] at hmem ⊢
          refine (frames_one hmem).2 ⟨nofun, fun a ha' => .inl ?_, fun hne => absurd rfl hne⟩
          obtain ⟨p, hp, hlo, hhi⟩ := ha'
          cases hp
          dsimp only at hhi
          exact ⟨by omega, by omega⟩
        · rw [if_neg h1] at hmem ⊢
          exact .nothing hmem
    · rw [if_neg ha] at hmem ⊢
      have hf : s.dev.pre.preReadFlag = .disable := by
        by_contra hf
        exact ha ⟨by rw [← hb]; rfl, hf⟩
      have hown : s.phase = .sent c ∨ s.phase = .wait c := by
        cases hp : s.phase with
        | idle         =>
          rw [hp] at hc
          cases hc
        | waitLast c l =>
          have := h.last c l hp
          rw [hf] at this
          cases this
        | sent c'      =>
          rw [hp] at hc
          cases hc
          exact .inl rfl
        | wait c'      =>
          rw [hp] at hc
          cases hc
          exact .inr rfl
      obtain ⟨hbuf, hneed⟩ := h.own c hown
      refine (frames_one hmem).2 ⟨fun hn => ?_, fun a ha' => .inr ?_, fun hne => absurd rfl hne⟩
      · rw [show s.dev.ctl.readBuf = none from hn] at hbuf
        cases hbuf
      · obtain ⟨p, hp, hlo, hhi⟩ := ha'
        rw [show s.dev.ctl.readBuf = some p from hp] at hbuf
        cases hbuf
        have hsize := ht.2
        dsimp only at hhi
        exact ⟨hlo, by omega⟩
  · rw [if_neg ht] at hmem ⊢
    exact .nothing hmem

/-- A round of the handler: it copies the kept block of the address, or leaves memory alone. -/
theorem handler_mem (d : Dev) (addr len : Nat) :
    (blockOf (preReading temp file) d.pre addr = none ∧
      (bleUpdataHandler (preReading temp file) d addr len = none ∨
        (d.ctl.btupdataSw = .acceptOk ∧ bleUpdataHandler (preReading temp file) d addr len =
          some ({ d with ctl := { d.ctl with readBuf := none } }, d.ctl.dateLen)))) ∨
      ∃ a p, blockOf (preReading temp file) d.pre addr = some a ∧ p.preReadFlag = d.pre.preReadFlag ∧
        bleUpdataHandler (preReading temp file) d addr len =
          some ({ d with pre := p, mem := memcpy d.mem d.ctl.readBuf (d.mem.read a (len % 65536)) }, len) := by
  unfold bleUpdataHandler
  rw [if_pos (by rfl)]
  rcases getUpdatePreReadBuf_eq (b := preReading temp file) d addr (len % 65536) with ⟨h, hg⟩ | ⟨a, p, h, hg, hf⟩
  · rw [hg]
    dsimp only
    split
    · rename_i ha
      exact .inl ⟨h, .inr ⟨ha.2, rfl⟩⟩
    · exact .inl ⟨h, .inl rfl⟩
  · rw [hg]
    exact .inr ⟨a, p, h, hf, rfl⟩

theorem preReadCopies_none {d : Dev} {addr len : Nat} (h : blockOf b d.pre addr = none) :
    preReadCopies b d addr len = [] := by
  unfold preReadCopies
  rw [h]
  rfl

theorem preReadCopies_some {d : Dev} {addr len a : Nat} (h : blockOf b d.pre addr = some a) :
    preReadCopies b d addr len = [⟨some a, d.ctl.readBuf, len⟩] := by
  unfold preReadCopies
  rw [h]
  rfl

/-- A kept block is copied to the call's own buffer: it must be no shorter than what is read. -/
theorem wait_frames (h : Steady (preReading temp file) s) (hp : s.phase = .wait c) {a : Nat}
    (hm : s'.dev.mem = memcpy s.dev.mem s.dev.ctl.readBuf (s.dev.mem.read a (c.btr % 65536))) :
    Frames (preReading temp file) c s s' [⟨some a, s.dev.ctl.readBuf, c.btr % 65536⟩] ↔
      c.btr % 65536 ≤ onceUpdateReadLen := by
  obtain ⟨hbuf, -⟩ := h.own c (.inr hp)
  have hmod := Nat.mod_le c.btr 65536
  rw [@frames_one _ _ _ _ _ [] hm]
  constructor
  · rintro ⟨-, -, hs⟩
    exact hs nofun
  · intro hs
    refine ⟨fun hn => ?_, fun x hx => .inr ?_, fun _ => hs⟩
    · rw [show s.dev.ctl.readBuf = none from hn] at hbuf
      cases hbuf
    · obtain ⟨p, hp, hlo, hhi⟩ := hx
      rw [show s.dev.ctl.readBuf = some p from hp] at hbuf
      cases hbuf
      dsimp only at hhi
      exact ⟨hlo, by omega⟩

/-- The last block is copied to where the call before wanted its bytes. -/
theorem drain_frames (h : Steady (preReading temp file) s) {l : Nat} (hp : s.phase = .waitLast c l) {a : Nat}
    (hm : s'.dev.mem = memcpy s.dev.mem s.dev.ctl.readBuf (s.dev.mem.read a (c.btr % 65536))) :
    Frames (preReading temp file) c s s' [⟨some a, s.dev.ctl.readBuf, c.btr % 65536⟩] ↔
      c.btr % 65536 ≤ onceUpdateReadLen ∧ (c.btr % 65536 = 0 ∨
        ∃ p, s.dev.ctl.readBuf = some p ∧ c.buf ≤ p ∧ p + c.btr % 65536 ≤ c.buf + c.btr) := by
  have hlen := onceUpdateReadLen_eq
  have hflag := h.last c l hp
  rw [@frames_one _ _ _ _ _ [] hm]
  constructor
  · rintro ⟨hn, hin, hs⟩
    have hs : c.btr % 65536 ≤ onceUpdateReadLen := hs nofun
    refine ⟨hs, ?_⟩
    by_cases h0 : c.btr % 65536 = 0
    · exact .inl h0
    cases hbuf : s.dev.ctl.readBuf with
    | none   => exact absurd (hn hbuf) h0
    | some q =>
      -- the buffer of the call before lies apart from the blocks, and so do its first and last byte
      have hneed : s.dev.ctl.needRxLen % 65536 = onceUpdateReadLen := by
        rcases h.need (by rw [hflag]; decide) with hn | hn
        · rw [hn.1] at hbuf
          cases hbuf
        · exact hn.2
      have hap := h.apart q hbuf
      unfold Apart at hap
      have hout : ∀ x, q ≤ x → x < q + c.btr % 65536 → c.Owns x := fun x hlo hhi => by
        rcases hin x ⟨q, hbuf, hlo, hhi⟩ with hx | hx
        · unfold InBlocks at hx
          omega
        · exact hx
      have hfirst := hout q (Nat.le_refl _) (by omega)
      have hlast := hout (q + c.btr % 65536 - 1) (by omega) (by omega)
      unfold Args.Owns at hfirst hlast
      exact .inr ⟨q, rfl, hfirst.1, by omega⟩
  · rintro ⟨hs, h0⟩
    refine ⟨fun hn => ?_, fun x hx => .inr ?_, fun _ => hs⟩
    · rcases h0 with h0 | ⟨q, hq, -⟩
      · exact h0
      · rw [show s.dev.ctl.readBuf = none from hn] at hq
        cases hq
    · obtain ⟨q, hq, hlo, hhi⟩ := hx
      dsimp only at hhi
      rcases h0 with h0 | ⟨q', hq', h₁, h₂⟩
      · omega
      · rw [show s.dev.ctl.readBuf = some q from hq] at hq'
        cases hq'
        exact ⟨by omega, by omega⟩

/-- **One step**: what holds of a read, and when the step keeps to its frame. -/
theorem step_frame {e : Event ⊕ List UInt8} (h : Steady (preReading temp file) s)
    (hs : (anyPeer (preReading temp file)).step s e = some (s', o)) :
    Steady (preReading temp file) s' ∧
      (InFrame (preReading temp file) s e s' o ↔ OwnBuffer (preReading temp file) s e s' o) := by
  cases e with
  | inr bs =>
    obtain ⟨rfl, rfl⟩ := Prod.mk.inj (Option.some.inj hs)
    refine ⟨h.rx bs _, fun _ => ?_, fun _ c hc => ?_⟩
    · cases hp : s.phase <;> simp [OwnBuffer]
    · exact rx_frames h (hc.resolve_right (fun h => by cases h)) bs bs.length
  | inl e =>
    obtain ⟨⟨s₁, o₁⟩, hm, heq⟩ := Option.map_eq_some_iff.1 hs
    obtain ⟨rfl, rfl⟩ := Prod.mk.inj heq
    have hquiet : (∀ c, e = .poll → s.phase ≠ .wait c ∧ ∀ l, s.phase ≠ .waitLast c l) →
        OwnBuffer (preReading temp file) s (.inl e) s₁ (copies (preReading temp file) s e) := fun hne => by
      unfold OwnBuffer
      split
      · rename_i c l he hp
        exact absurd hp ((hne c (Sum.inl.inj he)).2 l)
      · rename_i c he hp
        exact absurd hp (hne c (Sum.inl.inj he)).1
      · trivial
    cases e with
    | start c =>
      cases hp : s.phase <;> simp only [machine, hp, reduceCtorEq] at hm
      split at hm
      · rename_i hap
        obtain ⟨rfl, -⟩ := Prod.mk.inj (Option.some.inj hm)
        exact ⟨h.start hap, fun _ => hquiet (fun c he => by cases he), fun _ c _ => .nothing (start_mem ..)⟩
      · cases hm
    | second =>
      cases hp : s.phase <;> simp only [machine, hp, reduceCtorEq] at hm
      rename_i c
      obtain ⟨rfl, -⟩ := Prod.mk.inj (Option.some.inj hm)
      refine ⟨⟨h.need, fun c' hc => ?_, (fun c' l hc => by cases hc), h.apart, (fun c' l hc => by cases hc)⟩,
        fun _ => hquiet (fun c he => by cases he), fun _ c _ => .nothing rfl⟩
      rcases hc with hc | hc <;> cases hc
      exact h.own c (.inl hp)
    | timeout =>
      cases hp : s.phase <;> simp only [machine, hp, reduceCtorEq] at hm
      · rename_i c l
        obtain ⟨rfl, -⟩ := Prod.mk.inj (Option.some.inj hm)
        exact ⟨.waited (h.room c l hp), fun _ => hquiet (fun c he => by cases he), fun _ c _ => .nothing rfl⟩
      · obtain ⟨rfl, -⟩ := Prod.mk.inj (Option.some.inj hm)
        exact ⟨.idle h.need h.apart, fun _ => hquiet (fun c he => by cases he), fun _ c _ => .nothing rfl⟩
    | reply =>
      simp only [machine] at hm
      split at hm
      · rename_i r rs hq
        obtain ⟨rfl, -⟩ := Prod.mk.inj (Option.some.inj hm)
        refine ⟨h.rx _ _, fun _ => hquiet (fun c he => by cases he), fun _ c hc => ?_⟩
        have hcop : copies (preReading temp file) s .reply = rxCopies (preReading temp file) s.dev (r.len % 65536) := by
          unfold copies
          rw [hq]
        rw [hcop]
        exact rx_frames h (hc.resolve_right (fun h => by cases h)) _ r.len
      · cases hm
    | poll =>
      cases hp : s.phase with
      | idle         => simp [machine, hp] at hm
      | sent c       => simp [machine, hp] at hm
      | waitLast c l =>
        simp only [machine, hp] at hm
        have hcop : copies (preReading temp file) s .poll =
            preReadCopies (preReading temp file) s.dev (below l) (c.btr % 65536) := by
          unfold copies
          rw [hp]
        have hcall : s.phase.call = some c := by rw [hp]; rfl
        rw [hcop]
        rcases @handler_mem temp file s.dev (below l) c.btr with ⟨hb, hh⟩ | ⟨a, p, hb, -, hh⟩
        · rw [preReadCopies_none hb]
          have hown : OwnBuffer (preReading temp file) s (.inl .poll) s₁ [] := by
            unfold OwnBuffer
            rw [hp]
            exact fun hne => absurd hb hne
          rcases hh with hh | ⟨-, hh⟩
          · rw [hh] at hm
            obtain ⟨rfl, -⟩ := Prod.mk.inj (Option.some.inj hm)
            exact ⟨h, fun _ => hown, fun _ c _ => .nothing rfl⟩
          · rw [hh] at hm
            obtain ⟨rfl, -⟩ := Prod.mk.inj (Option.some.inj hm)
            exact ⟨.waited (h.room c l hp), fun _ => hown, fun _ c _ => .nothing rfl⟩
        · rw [hh] at hm
          obtain ⟨rfl, -⟩ := Prod.mk.inj (Option.some.inj hm)
          rw [preReadCopies_some hb]
          refine ⟨.waited (h.room c l hp), ?_⟩
          unfold OwnBuffer
          rw [hp]
          dsimp only
          rw [hb]
          refine ⟨fun hf _ => (drain_frames h hp rfl).1 (hf c (.inl hcall)), fun hown c' hc => ?_⟩
          rw [hcall] at hc
          obtain rfl := Option.some.inj (hc.resolve_right (fun h => by cases h))
          exact (drain_frames h hp rfl).2 (hown (fun hn => by cases hn))
      | wait c       =>
        simp only [machine, hp] at hm
        have hcop : copies (preReading temp file) s .poll =
            preReadCopies (preReading temp file) s.dev c.seek (c.btr % 65536) := by
          unfold copies
          rw [hp]
        have hcall : s.phase.call = some c := by rw [hp]; rfl
        rw [hcop]
        rcases @handler_mem temp file s.dev c.seek c.btr with ⟨hb, hh⟩ | ⟨a, p, hb, hf, hh⟩
        · rw [preReadCopies_none hb]
          have hown : OwnBuffer (preReading temp file) s (.inl .poll) s₁ [] := by
            unfold OwnBuffer
            rw [hp]
            exact fun hne => absurd hb hne
          rcases hh with hh | ⟨hsw, hh⟩
          · rw [hh] at hm
            obtain ⟨rfl, -⟩ := Prod.mk.inj (Option.some.inj hm)
            exact ⟨h, fun _ => hown, fun _ c _ => .nothing rfl⟩
          · rw [hh] at hm
            obtain ⟨rfl, -⟩ := Prod.mk.inj (Option.some.inj hm)
            refine ⟨.idle (fun _ => .inl ⟨rfl, ?_⟩) (fun q hq => by cases hq), fun _ => hown, fun _ c _ => .nothing rfl⟩
            dsimp only
            rw [hsw]
            decide
        · rw [hh] at hm
          obtain ⟨rfl, -⟩ := Prod.mk.inj (Option.some.inj hm)
          rw [preReadCopies_some hb]
          refine ⟨.idle (fun hd => h.need (hf ▸ hd)) h.apart, ?_⟩
          unfold OwnBuffer
          rw [hp]
          dsimp only
          rw [hb]
          refine ⟨fun hf _ => (wait_frames h hp rfl).1 (hf c (.inl hcall)), fun hown c' hc => ?_⟩
          rw [hcall] at hc
          obtain rfl := Option.some.inj (hc.resolve_right (fun h => by cases h))
          exact (wait_frames h hp rfl).2 (hown (fun hn => by cases hn))

end Steps

theorem steady_from (b : Env) (p : PreRead) (m : Mem) : Steady b (.from p m) :=
  .idle (fun _ => .inl ⟨rfl, nofun⟩) nofun

/-- **When reads keep to their frame**: from any state of the prefetching, among any packets, each step of a call writes
the blocks and the call's buffer alone and copies no more than a block out of one, exactly when no kept block is asked
for more than its length and each block that is waited for finds the buffer of the call before in the new call's. -/
theorem reads_frame_iff (temp : Nat) (file m : Mem) (p : PreRead) (es : List (Event ⊕ List UInt8)) :
    (anyPeer (preReading temp file)).Along (InFrame (preReading temp file)) (.from p m) es ↔
      (anyPeer (preReading temp file)).Along (OwnBuffer (preReading temp file)) (.from p m) es :=
  Machine.along_iff (Steady (preReading temp file)) (fun _ _ _ _ hI hs => step_frame hI hs) es _ (steady_from ..)

/-- The prefetching as `update_pre_read_ctl_init` leaves it. -/
def offPreRead : PreRead := (State.init fun _ => 0).dev.pre

/-- Seven reads of 512 bytes down through the file, to the buffer at 0; then four bytes of its start are read to 8192, and
the block that was asked for ahead arrives. -/
def leavesAhead : List Event :=
  [5120, 4608, 4096, 3584, 3072].flatMap (fun seek => [.start ⟨0, 512, seek⟩, .reply, .poll]) ++
    [.start ⟨0, 512, 2560⟩, .second, .reply, .poll, .start ⟨0, 512, 2048⟩, .reply, .poll, .start ⟨8192, 4, 0⟩, .reply]

/-- **The last block** is copied to the buffer of the read before. -/
theorem not_reads_frame : ¬ ∀ (temp : Nat) (file m : Mem) (p : PreRead) (es : List (Event ⊕ List UInt8)),
    (anyPeer (preReading temp file)).Along (InFrame (preReading temp file)) (.from p m) es := by
  intro h
  have hA := h 4096 (fun _ => 0) (fun _ => 0) offPreRead (leavesAhead.map .inl ++ [.inl .poll])
  have hrun : ((anyPeer (preReading 4096 fun _ => 0)).run (.from offPreRead fun _ => 0) (leavesAhead.map .inl)).bind
      (fun r => ((anyPeer (preReading 4096 fun _ => 0)).step r.1 (.inl .poll)).map (fun q =>
        (r.1.phase.call.map (fun c => (c.buf, c.btr, c.seek)), q.2.map (fun k => (k.src, k.dst, k.len)))))
      = some (some (8192, 4, 0), [(some 4096, some 0, 4)]) := by decide +kernel
  obtain ⟨⟨s, os⟩, hr, hs⟩ := Option.bind_eq_some_iff.1 hrun
  obtain ⟨⟨s', o⟩, hs, hq⟩ := Option.map_eq_some_iff.1 hs
  obtain ⟨hc, ho⟩ := Prod.mk.inj hq
  obtain ⟨⟨buf, btr, seek⟩, hcall, hc⟩ := Option.map_eq_some_iff.1 hc
  simp only [Prod.mk.injEq] at hc
  obtain ⟨rfl, rfl, rfl⟩ := hc
  obtain ⟨⟨src, dst, len⟩, hk, heq⟩ := List.mem_map.1 (ho ▸ List.mem_singleton_self (some 4096, some 0, 4))
  simp only [Prod.mk.injEq] at heq
  obtain ⟨rfl, rfl, rfl⟩ := heq
  have hin := (Machine.along_last hA hr hs ⟨8192, 4, 0⟩ (.inl hcall)).inside _ hk 0 ⟨0, rfl, by decide, by decide⟩
  rcases hin with hin | hin
  · exact absurd hin.1 (by decide)
  · exact absurd hin.1 (by decide)

end Block
end OtaLoader
