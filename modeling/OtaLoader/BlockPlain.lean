import OtaLoader.BlockRead
/-!
# BlockPlain — block reads without prefetching, over timeouts

A read that has timed out leaves `read_buf`, `need_rx_len` and `btupdata_sw` as it set them, so its answer is still
taken, into the buffer of a call that has returned or as the answer to a later request of the same length.  Which
answers are taken follows from the calls and the lengths alone (`Noted`), and with it the runs whose reads are right
(`reads_survive_iff`).
-/
namespace OtaLoader
namespace Block

/-- The build without `UPDATE_PRE_READ_EN`. -/
def plain (temp : Nat) (file : Mem) : Env := ⟨false, temp, file⟩

variable {temp : Nat} {file : Mem}

/-- An answer is copied only while a read is in progress, and a read that returns a count returns its own, with its
bytes of the file. -/
def Survives (file : Mem) (s : State) (_ : Event) (s' : State) (o : Out) : Prop :=
  (o.copied = true → ∃ c, s.phase = .wait c) ∧
    ∀ c n, o.returned = some (c, n) → 0 < n → n = c.btr ∧ s'.dev.mem.read c.buf c.btr = file.read c.seek c.btr

/-- What calls and lengths tell, without a look at the device: the last call, as long as no answer of its length has
come since it began, and the request that the first such answer was for. -/
structure Noted where
  unmet : Option Args
  first : Option Request

def Noted.next (w : Noted) (s : State) : Event → Noted
  | .start c => ⟨some c, none⟩
  | .reply   =>
    match s.queue, w.unmet with
    | r :: _, some c => if r.len % 65536 = c.btr then ⟨none, some r⟩ else w
    | _, _           => w
  | _        => w

/-- **Answers come in time**: none of the length of a call comes after that call has timed out without one, and the
first of its length that comes during a call is for the bytes the call asks for. -/
def InTime (file : Mem) (w : Noted) (s : State) (e : Event) (_ : State) (_ : Out) : Prop :=
  match e with
  | .reply => ∀ r rs c, s.queue = r :: rs → w.unmet = some c → r.len % 65536 = c.btr → s.phase = .wait c
  | .poll  => ∀ c r, s.phase = .wait c → w.first = some r → file.read r.offset c.btr = file.read c.seek c.btr
  | _      => True

/-- The device is armed for the last call until an answer of its length comes. -/
structure Armed (w : Noted) (d : Dev) : Prop where
  sw   : d.ctl.btupdataSw = .read ↔ w.unmet.isSome
  read : ∀ c, w.unmet = some c → d.ctl.readBuf = some c.buf ∧ d.ctl.needRxLen = c.btr

/-- The buffer of the call has the bytes of the request that its first answer was for. -/
structure Answered (file : Mem) (d : Dev) (c : Args) (r : Request) : Prop where
  sw     : d.ctl.btupdataSw = .acceptOk
  accept : d.ctl.accept = true
  len    : d.ctl.dateLen = c.btr
  bytes  : d.mem.read c.buf c.btr = file.read r.offset c.btr

structure InvPlain (file : Mem) (w : Noted) (s : State) : Prop where
  armed : Armed w s.dev
  phase : s.phase = .idle ∨ ∃ c, s.phase = .wait c ∧
    (w = ⟨some c, none⟩ ∨ ∃ r, w = ⟨none, some r⟩ ∧ Answered file s.dev c r)

theorem take_read (m : Mem) {a n k : Nat} (h : k ≤ n) : (m.read a n).take k = m.read a k := by
  obtain ⟨d, rfl⟩ := Nat.le.dest h
  rw [Mem.read_add, List.take_left' (Mem.length_read m a k)]

theorem not_ahead (d : Dev) : ¬ d.ahead (plain temp file) := fun h => Bool.noConfusion h.1

/-- What an answer does, in cases: it is dropped, or copied to where the last read wanted it. -/
theorem reply_plain (s : State) (r : Request) (rs : List Request) :
    (¬ s.dev.takes (r.len % 65536) ∧ reply (plain temp file) s r rs = ({ s with queue := rs }, .quiet)) ∨
      (s.dev.takes (r.len % 65536) ∧ reply (plain temp file) s r rs =
        ({ s with
            dev :=
              { s.dev with
                ctl := { s.dev.ctl with btupdataSw := .acceptOk, accept := true, dateLen := r.len % 65536 }
                mem := memcpy s.dev.mem s.dev.ctl.readBuf (file.read r.offset (r.len % 65536)) }
            queue := rs
            taken := some r }, ⟨true, none⟩)) := by
  by_cases ht : s.dev.takes (r.len % 65536)
  · refine .inr ⟨ht, ?_⟩
    have hn : ∀ d : Dev, ¬ d.ahead (plain temp file) := not_ahead
    have hbytes : ((plain temp file).file.read r.offset r.len).take (r.len % 65536)
        = file.read r.offset (r.len % 65536) := take_read file (Nat.mod_le _ _)
    simp [reply, devReadUpdateBlockHandle, ht, hn, hbytes]
  · refine .inl ⟨ht, ?_⟩
    simp [reply, devReadUpdateBlockHandle, ht, Out.quiet]

theorem handler_plain (d : Dev) (addr len : Nat) :
    bleUpdataHandler (plain temp file) d addr len =
      if d.ctl.accept = true ∧ d.ctl.btupdataSw = .acceptOk then
        some ({ d with ctl := { d.ctl with readBuf := none } }, d.ctl.dateLen)
      else none := rfl

/-- The device takes the answers that have the length of the call they were noted against. -/
theorem Armed.takes_iff {w : Noted} {d : Dev} (h : Armed w d) (n : Nat) :
    d.takes n ↔ ∃ c, w.unmet = some c ∧ n = c.btr := by
  unfold Dev.takes
  rw [h.sw]
  constructor
  · rintro ⟨hsome, rfl⟩
    obtain ⟨c, hc⟩ := Option.isSome_iff_exists.1 hsome
    exact ⟨c, hc, (h.read c hc).2⟩
  · rintro ⟨c, hc, rfl⟩
    exact ⟨by rw [hc]; rfl, (h.read c hc).2⟩

theorem Noted.next_drop {w : Noted} {s : State} {r : Request} {rs : List Request} (hq : s.queue = r :: rs)
    (h : ∀ c, w.unmet = some c → r.len % 65536 ≠ c.btr) : w.next s .reply = w := by
  simp only [Noted.next, hq]
  cases hw : w.unmet with
  | none   => rfl
  | some c => exact if_neg (h c hw)

theorem Noted.next_take {w : Noted} {s : State} {r : Request} {rs : List Request} {c : Args} (hq : s.queue = r :: rs)
    (hw : w.unmet = some c) (h : r.len % 65536 = c.btr) : w.next s .reply = ⟨none, some r⟩ := by
  simp only [Noted.next, hq, hw]
  exact if_pos h

/-- A call that has had no answer of its length is the one in progress. -/
theorem InvPlain.waiting {w : Noted} {s : State} {c c' : Args} (hI : InvPlain file w s) (hw : w.unmet = some c)
    (hp : s.phase = .wait c') : c' = c := by
  rcases hI.phase with hidle | ⟨c'', hp', hw' | ⟨r, hw', -⟩⟩
  · rw [hp] at hidle
    cases hidle
  · rw [hp] at hp'
    cases hp'
    rw [hw'] at hw
    cases hw
    rfl
  · rw [hw'] at hw
    cases hw

/-- **An answer.** -/
theorem reply_step {w : Noted} {s s' : State} {o : Out} {r : Request} {rs : List Request} (hI : InvPlain file w s)
    (hq : s.queue = r :: rs) (h : reply (plain temp file) s r rs = (s', o)) :
    InvPlain file (w.next s .reply) s' ∧ (Survives file s .reply s' o ↔ InTime file w s .reply s' o) := by
  rcases reply_plain s r rs with ⟨ht, hr⟩ | ⟨ht, hr⟩
  · -- it is dropped
    have hdrop : ∀ c, w.unmet = some c → r.len % 65536 ≠ c.btr := fun c hc heq =>
      ht ((hI.armed.takes_iff _).2 ⟨c, hc, heq⟩)
    rw [hr] at h
    cases h
    rw [Noted.next_drop hq hdrop]
    refine ⟨⟨hI.armed, hI.phase⟩, ?_⟩
    constructor
    · intro _ r' rs' c hq' hc heq
      rw [hq] at hq'
      cases hq'
      exact absurd heq (hdrop c hc)
    · exact fun _ => ⟨fun hcop => (by cases hcop), fun c n hret => by cases hret⟩
  · -- it is copied to where the last call wanted it
    obtain ⟨c, hc, hlen⟩ := (hI.armed.takes_iff _).1 ht
    obtain ⟨hbuf, -⟩ := hI.armed.read c hc
    rw [hr] at h
    cases h
    rw [Noted.next_take hq hc hlen]
    refine ⟨⟨⟨by simp, fun c hc => by cases hc⟩, ?_⟩, ?_⟩
    · rcases hI.phase with hidle | ⟨c', hp, -⟩
      · exact Or.inl hidle
      · cases hI.waiting hc hp
        refine Or.inr ⟨c, hp, Or.inr ⟨r, rfl, ⟨rfl, rfl, hlen, ?_⟩⟩⟩
        have hread := Mem.read_write_self s.dev.mem c.buf (file.read r.offset c.btr)
        rw [Mem.length_read] at hread
        simp only [hbuf, memcpy, hlen, hread]
    · constructor
      · intro hsurv r' rs' c' hq' hc' _
        obtain ⟨c'', hp⟩ := hsurv.1 rfl
        cases hI.waiting hc' hp
        exact hp
      · exact fun htime => ⟨fun _ => ⟨c, htime r rs c hq hc hlen⟩, fun c n hret => by cases hret⟩

/-- **A round of the handler's loop.** -/
theorem poll_step {w : Noted} {s s' : State} {o : Out} {c : Args} (hI : InvPlain file w s) (hp : s.phase = .wait c)
    (h : (machine (plain temp file)).step s .poll = some (s', o)) :
    InvPlain file w s' ∧ (Survives file s .poll s' o ↔ InTime file w s .poll s' o) := by
  simp only [machine, hp, handler_plain] at h
  rcases hI.phase with hidle | ⟨c', hp', hw⟩
  · rw [hp] at hidle
    cases hidle
  rw [hp] at hp'
  cases hp'
  rcases hw with hw | ⟨r, hw, hans⟩
  · -- no answer yet
    have hsw : s.dev.ctl.btupdataSw = .read := hI.armed.sw.2 (by rw [hw]; rfl)
    simp only [hsw, reduceCtorEq, and_false, if_false, Option.some.injEq, Prod.mk.injEq] at h
    obtain ⟨rfl, rfl⟩ := h
    refine ⟨hI, fun _ c r _ hr => ?_, fun _ => ⟨fun hcop => (by cases hcop), fun c n hret => by cases hret⟩⟩
    rw [hw] at hr
    cases hr
  · simp only [hans.sw, hans.accept, and_self, if_true, Option.some.injEq, Prod.mk.injEq, hans.len] at h
    obtain ⟨rfl, rfl⟩ := h
    refine ⟨⟨⟨?_, fun c hc => by rw [hw] at hc; cases hc⟩, Or.inl rfl⟩, ?_⟩
    · rw [hw]
      exact ⟨fun hsw => (by cases hsw), fun hsome => by cases hsome⟩
    constructor
    · rintro hsurv c' r' hp' hr'
      rw [hp] at hp'
      cases hp'
      rw [hw] at hr'
      cases hr'
      by_cases h0 : 0 < c.btr
      · rw [← hans.bytes]
        exact (hsurv.2 c c.btr rfl h0).2
      · rw [Nat.eq_zero_of_not_pos h0]
        rfl
    · refine fun htime => ⟨fun hcop => (by cases hcop), fun c' n hret _ => ?_⟩
      cases hret
      exact ⟨rfl, hans.bytes.trans (htime c r hp (by rw [hw]))⟩

/-- Where each step of a plain read leads. -/
theorem step_plain {w : Noted} {s s' : State} {e : Event} {o : Out} (hI : InvPlain file w s)
    (h : (machine (plain temp file)).step s e = some (s', o)) :
    InvPlain file (w.next s e) s' ∧ (Survives file s e s' o ↔ InTime file w s e s' o) := by
  cases e with
  | start c =>
    rcases hI.phase with hp | ⟨c', hp, -⟩
    · simp only [machine, hp] at h
      split at h
      · cases h
        refine ⟨⟨⟨by simp [Noted.next, start, send, plain, Dev.arm], fun c' hc' => ?_⟩, Or.inr ⟨c, rfl, Or.inl rfl⟩⟩,
          fun _ => trivial, fun _ => ⟨fun hcop => (by cases hcop), fun c n hret => by cases hret⟩⟩
        cases hc'
        exact ⟨rfl, rfl⟩
      · cases h
    · simp [machine, hp] at h
  | second =>
    rcases hI.phase with hp | ⟨c', hp, -⟩
    · simp [machine, hp] at h
    · simp [machine, hp] at h
  | poll =>
    rcases hI.phase with hp | ⟨c', hp, -⟩
    · simp [machine, hp] at h
    · exact poll_step hI hp h
  | timeout =>
    rcases hI.phase with hp | ⟨c', hp, -⟩
    · simp [machine, hp] at h
    · simp only [machine, hp] at h
      cases h
      refine ⟨⟨hI.armed, Or.inl rfl⟩, fun _ => trivial, fun _ => ⟨fun hcop => (by cases hcop), fun c n hret h0 => ?_⟩⟩
      cases hret
      exact absurd h0 (Nat.lt_irrefl 0)
  | reply =>
    simp only [machine] at h
    split at h
    · rename_i r rs hq
      exact reply_step hI hq (Option.some.inj h)
    · cases h

/-- **Plain reads over timeouts**: along a run every read that returns a count has its bytes of the file, and no answer
is copied into the buffer of a read that has returned, exactly when no answer of a call's length comes after that call
has timed out without one, and the first answer of its length that comes during a call is for the bytes it asks for. -/
theorem reads_survive_iff (temp : Nat) (file m : Mem) (es : List Event) :
    (machine (plain temp file)).Along (Survives file) (.init m) es ↔
      (machine (plain temp file)).AlongWith Noted.next (InTime file) ⟨none, none⟩ (.init m) es := by
  refine Machine.along_iff_alongWith (C := InTime file) (Q := Survives file) (InvPlain file)
    (fun w s e s' o hI hs => @step_plain temp file w s s' e o hI hs) es ⟨none, none⟩
    (.init m) ⟨⟨?_, fun c hc => by cases hc⟩, Or.inl rfl⟩
  exact ⟨fun hsw => (by cases hsw), fun hsome => by cases hsome⟩

/-- A read of one byte that times out, and its answer afterwards. -/
def timedOut : List Event := [.start ⟨0, 1, 0⟩, .timeout, .reply]

/-- **A late answer** goes to the buffer of the call that has returned. -/
theorem not_reads_survive : ¬ ∀ (temp : Nat) (file m : Mem) (es : List Event),
    (machine (plain temp file)).Along (Survives file) (.init m) es := by
  intro h
  have hA := h 4096 (fun _ => 0) (fun _ => 0) timedOut
  have h₁ := (hA _ _ rfl).2
  have h₂ := (h₁ _ _ rfl).2
  obtain ⟨c, hc⟩ := (h₂ _ _ rfl).1.1 rfl
  cases hc

end Block
end OtaLoader
