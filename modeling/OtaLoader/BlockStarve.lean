import OtaLoader.BlockFinish
/-!
# BlockStarve — block reads that never come to their end

A block that was asked for ahead is given up when the read after the one that switched prefetching on goes elsewhere: it
stays kept until someone reads its address.  With both blocks given up nothing can be kept any more, and the next read
that switches prefetching on waits for a block that is lost (`reads_starve`).
-/
namespace OtaLoader
namespace Block

/-! ## A read without its block -/

/-- A read that waits for a block while others hold both places. -/
structure Starved (c : Args) (s : State) : Prop where
  phase : s.phase = .sent c ∨ s.phase = .wait c
  flag  : s.dev.pre.preReadFlag ≠ .disable
  sw    : s.dev.ctl.btupdataSw = .read
  full  : s.dev.pre.kept.length = 2
  other : c.seek ∉ s.dev.pre.kept

theorem starved_step {temp : Nat} {file : Mem} {s s' : State} {e : Event} {o : Out} {c : Args} (hI : Starved c s)
    (hs : (machine (preReading temp file)).step s e = some (s', o)) (he : e ≠ .timeout) :
    Starved c s' ∧ s'.dev.pre.kept = s.dev.pre.kept ∧ o.returned = none := by
  cases e with
  | timeout => exact absurd rfl he
  | start d =>
    rcases hI.phase with hp | hp <;> simp [machine, hp] at hs
  | second =>
    rcases hI.phase with hp | hp <;> simp only [machine, hp, reduceCtorEq] at hs
    cases hs
    exact ⟨⟨.inr rfl, hI.flag, hI.sw, hI.full, hI.other⟩, rfl, rfl⟩
  | poll =>
    rcases hI.phase with hp | hp
    · simp [machine, hp] at hs
    · have hhandler := handler_notKept temp file hI.other c.btr
      rw [if_neg (by simp [hI.sw])] at hhandler
      simp only [machine, hp, hhandler] at hs
      cases hs
      exact ⟨hI, rfl, rfl⟩
  | reply =>
    simp only [machine] at hs
    split at hs
    · rename_i r rs hq
      have hs := Option.some.inj hs
      by_cases ht : s.dev.takes (r.len % 65536)
      · obtain ⟨d, hd, hj⟩ := reply_joined temp file rs ht hI.flag
        have hsame := hj.lost hI.full
        rw [hd] at hs
        cases hs
        exact ⟨⟨hI.phase, hj.flag ▸ hI.flag, by rw [hj.ctl]; exact hI.sw, hsame ▸ hI.full, hsame ▸ hI.other⟩, hsame,
          rfl⟩
      · rw [reply_dropped ht] at hs
        cases hs
        exact ⟨⟨hI.phase, hI.flag, hI.sw, hI.full, hI.other⟩, rfl, rfl⟩
    · cases hs

/-- **A read without its block never returns**, except by its timeout, and the blocks that are kept stay. -/
theorem starved_run {temp : Nat} {file : Mem} {s : State} {c : Args} (hI : Starved c s) (es : List Event)
    (htime : ∀ e ∈ es, e ≠ .timeout) :
    (machine (preReading temp file)).Along
      (fun _ _ s' o => s'.dev.pre.kept = s.dev.pre.kept ∧ o.returned = none) s es := by
  refine Machine.along_of_inv (C := fun _ e _ _ => e ≠ .timeout)
    (fun t => Starved c t ∧ t.dev.pre.kept = s.dev.pre.kept) (fun t e s' o ht hs he => ?_) es s ⟨hI, rfl⟩
    (Machine.along_of_forall (P := fun e => e ≠ .timeout) (fun _ _ _ _ h => h) es s htime)
  obtain ⟨hI', hsame, hret⟩ := starved_step ht.1 hs he
  exact ⟨⟨hI', hsame.trans ht.2⟩, hsame.trans ht.2, hret⟩

/-! ## Prefetching that is given up -/

/-- Between two reads, with the control of prefetching as it stands. -/
structure Rest (p : PreRead) (s : State) : Prop where
  phase : s.phase = .idle
  queue : s.queue = []
  pre   : s.dev.pre = p

section Reads

variable {temp : Nat} {file : Mem} {s : State} {p : PreRead} {c : Args}

theorem step_start (temp : Nat) (file : Mem) (hp : s.phase = .idle) (hap : Apart (preReading temp file) c.buf c.btr) :
    (machine (preReading temp file)).step s (.start c) = some (start (preReading temp file) s c, .quiet) := by
  simp only [machine, hp]
  exact if_pos hap

/-- The read sends its request, whatever prefetching does, unless it waits for a last block. -/
theorem start_send (hf : (getUpdatePreReadFlag s.dev.pre c.seek (c.btr % 65536)).preReadFlag ≠ .toggleToDis) :
    start (preReading temp file) s c =
      send { s with dev := { s.dev with pre := getUpdatePreReadFlag s.dev.pre c.seek (c.btr % 65536) } } c
        (getUpdatePreReadFlag s.dev.pre c.seek (c.btr % 65536)).preReadFlag := by
  unfold start
  rw [if_pos (by rfl)]
  dsimp only
  rw [if_neg hf]

/-- A read without prefetching, answered. -/
theorem run_read (h : Rest p s) (hap : Apart (preReading temp file) c.buf c.btr) (hlen : c.btr ≤ onceUpdateReadLen)
    (hf : (getUpdatePreReadFlag p c.seek c.btr).preReadFlag = .disable) (hk : c.seek ∉ p.kept) :
    ∃ s' os, (machine (preReading temp file)).run s [.start c, .reply, .poll] = some (s', os) ∧
      Rest (getUpdatePreReadFlag p c.seek c.btr) s' := by
  have h512 := onceUpdateReadLen_eq
  have hmod : c.btr % 65536 = c.btr := by omega
  obtain ⟨hp, hq, rfl⟩ := h
  have hstart := step_start temp file hp hap
  rw [start_send (by rw [hmod, hf]; simp), hmod, hf] at hstart
  have hsent : ∃ s₁, (machine (preReading temp file)).step s (.start c) = some (s₁, .quiet) ∧ s₁.phase = .wait c ∧
      s₁.queue = [⟨c.seek, c.btr, false⟩] ∧ s₁.dev.pre = getUpdatePreReadFlag s.dev.pre c.seek c.btr ∧
      s₁.dev.ctl.btupdataSw = .read ∧ s₁.dev.ctl.needRxLen = c.btr :=
    ⟨_, hstart, rfl, by simp [send, hq], rfl, rfl, rfl⟩
  obtain ⟨s₁, hstart, hp₁, hq₁, hpre₁, hsw₁, hneed₁⟩ := hsent
  have htakes : s₁.dev.takes (c.btr % 65536) := ⟨hsw₁, by rw [hneed₁, hmod]⟩
  have hoff : s₁.dev.pre.preReadFlag = .disable := by rw [hpre₁, hf]
  have hreply : ∃ s₂, (machine (preReading temp file)).step s₁ .reply = some (s₂, ⟨true, none⟩) ∧ s₂.phase = .wait c ∧
      s₂.queue = [] ∧ s₂.dev.pre = s₁.dev.pre ∧ s₂.dev.ctl.accept = true ∧ s₂.dev.ctl.btupdataSw = .acceptOk := by
    simp only [machine, hq₁]
    rw [reply_copied htakes hoff]
    exact ⟨_, rfl, hp₁, rfl, rfl, rfl, rfl⟩
  obtain ⟨s₂, hreply, hp₂, hq₂, hpre₂, hacc₂, hsw₂⟩ := hreply
  have hkept : c.seek ∉ s₂.dev.pre.kept := by
    rw [hpre₂, hpre₁, kept_flag]
    exact hk
  have hhandler := handler_notKept temp file hkept c.btr
  rw [if_pos ⟨hacc₂, hsw₂⟩] at hhandler
  have hpoll : ∃ s₃ o, (machine (preReading temp file)).step s₂ .poll = some (s₃, o) ∧ s₃.phase = .idle ∧
      s₃.queue = [] ∧ s₃.dev.pre = s₂.dev.pre := by
    simp only [machine, hp₂, hhandler]
    exact ⟨_, _, rfl, rfl, hq₂, rfl⟩
  obtain ⟨s₃, o, hpoll, hp₃, hq₃, hpre₃⟩ := hpoll
  exact ⟨s₃, _, Machine.run_step hstart (Machine.run_step hreply (Machine.run_step hpoll rfl)),
    hp₃, hq₃, by rw [hpre₃, hpre₂, hpre₁]⟩

end Reads

/-! ## Reads down through the file -/

/-- The first `n` reads of a block down from `a`, each answered. -/
def readsDown (buf a n : Nat) : List Event :=
  (List.range n).flatMap (fun i => [.start ⟨buf, onceUpdateReadLen, a - onceUpdateReadLen * i⟩, .reply, .poll])

/-- Six reads down from `a`: the last of them switches prefetching on, and the block asked for ahead is kept. -/
def sixReads (buf a : Nat) : List Event :=
  readsDown buf a 5 ++
    [.start ⟨buf, onceUpdateReadLen, a - onceUpdateReadLen * 5⟩, .second, .reply, .poll, .reply]

/-- The control after the first `n + 1` reads down from `a`. -/
def downTo (p : PreRead) (a n : Nat) : PreRead :=
  { p with preReadCnt := n, preReadFlag := .disable, lastAddr := a - onceUpdateReadLen * n }

theorem below_down {a n : Nat} (h : onceUpdateReadLen * (n + 1) ≤ a) :
    below (a - onceUpdateReadLen * n) = a - onceUpdateReadLen * (n + 1) := by
  have h512 := onceUpdateReadLen_eq
  rw [Nat.mul_succ] at h ⊢
  unfold below
  rw [if_pos (by omega)]
  omega

theorem flag_first {p : PreRead} {a : Nat} (hf : p.preReadFlag = .disable ∨ p.preReadFlag = .toggleToEn)
    (h : a ≠ below p.lastAddr) : getUpdatePreReadFlag p a onceUpdateReadLen = downTo p a 0 := by
  unfold getUpdatePreReadFlag
  rw [if_neg (fun hm => h hm.1)]
  rcases hf with hf | hf <;> simp [hf, downTo]

theorem flag_down {p : PreRead} {a n : Nat} (hn : n < 4) (h : onceUpdateReadLen * (n + 1) ≤ a) :
    getUpdatePreReadFlag (downTo p a n) (a - onceUpdateReadLen * (n + 1)) onceUpdateReadLen = downTo p a (n + 1) := by
  have hmod : (n + 1) % 256 = n + 1 := by omega
  have hfew : ¬ continueReadTimes ≤ n + 1 := by
    have : continueReadTimes = 5 := rfl
    omega
  unfold getUpdatePreReadFlag
  rw [if_pos ⟨(below_down h).symm, rfl⟩]
  simp [downTo, hmod, hfew]

theorem flag_on {p : PreRead} {a : Nat} (h : onceUpdateReadLen * 5 ≤ a) :
    getUpdatePreReadFlag (downTo p a 4) (a - onceUpdateReadLen * 5) onceUpdateReadLen =
      { p with preReadCnt := 5, preReadFlag := .toggleToEn, lastAddr := a - onceUpdateReadLen * 5 } := by
  unfold getUpdatePreReadFlag
  rw [if_pos ⟨(below_down h).symm, rfl⟩]
  simp [downTo, continueReadTimes]

section Down

variable {temp : Nat} {file : Mem} {s : State} {p : PreRead} {buf a : Nat}

theorem run_down (h : Rest p s) (hf : p.preReadFlag = .disable ∨ p.preReadFlag = .toggleToEn)
    (ha : a ≠ below p.lastAddr) (hap : Apart (preReading temp file) buf onceUpdateReadLen) :
    ∀ n ≤ 4, onceUpdateReadLen * n ≤ a → (∀ i ≤ n, a - onceUpdateReadLen * i ∉ p.kept) →
      ∃ s' os, (machine (preReading temp file)).run s (readsDown buf a (n + 1)) = some (s', os) ∧
        Rest (downTo p a n) s'
  | 0, _, _, hk => by
    have hflag := flag_first hf ha
    obtain ⟨s', os, hrun, hrest⟩ := run_read (c := ⟨buf, onceUpdateReadLen, a - onceUpdateReadLen * 0⟩) h hap
      (Nat.le_refl _) (by rw [Nat.mul_zero, Nat.sub_zero, hflag]; rfl) (hk 0 (Nat.le_refl _))
    rw [Nat.mul_zero, Nat.sub_zero, hflag] at hrest
    exact ⟨s', os, hrun, hrest⟩
  | n + 1, hn, hle, hk => by
    obtain ⟨s₁, os₁, hrun₁, hrest₁⟩ := run_down h hf ha hap n (by omega) (by rw [Nat.mul_add] at hle; omega)
      (fun i hi => hk i (by omega))
    have hflag := flag_down (p := p) (n := n) (by omega) hle
    obtain ⟨s₂, os₂, hrun₂, hrest₂⟩ := run_read (c := ⟨buf, onceUpdateReadLen, a - onceUpdateReadLen * (n + 1)⟩) hrest₁
      hap (Nat.le_refl _) (by rw [hflag]; rfl) (hk (n + 1) (Nat.le_refl _))
    rw [hflag] at hrest₂
    refine ⟨s₂, os₁ ++ os₂, ?_, hrest₂⟩
    unfold readsDown at hrun₁ ⊢
    rw [List.range_succ, List.flatMap_append, List.flatMap_singleton]
    exact Machine.run_append hrun₁ hrun₂

/-- An answer that finds room is kept. -/
theorem step_joined (temp : Nat) (file : Mem) {r : Request} {rs : List Request} (hq : s.queue = r :: rs)
    (ht : s.dev.takes (r.len % 65536)) (hf : s.dev.pre.preReadFlag ≠ .disable) :
    ∃ d, (machine (preReading temp file)).step s .reply = some ({ s with dev := d, queue := rs }, .quiet) ∧
      Joined (preReading temp file) s r d := by
  obtain ⟨d, hd, hj⟩ := reply_joined temp file rs ht hf
  refine ⟨d, ?_, hj⟩
  simp only [machine, hq]
  rw [hd]

/-- Taking a block out changes nothing else of the control. -/
theorem getUpdatePreReadBuf_same {b : Env} {d d' : Dev} {addr len : Nat}
    (h : getUpdatePreReadBuf b d addr len = some d') :
    d'.ctl = d.ctl ∧ d'.pre.preReadFlag = d.pre.preReadFlag ∧ d'.pre.lastAddr = d.pre.lastAddr ∧
      d'.pre.currFileOffset = d.pre.currFileOffset := by
  unfold getUpdatePreReadBuf at h
  split at h
  · cases h
    exact ⟨rfl, rfl, rfl, rfl⟩
  · split at h
    · cases h
      exact ⟨rfl, rfl, rfl, rfl⟩
    · cases h

/-- **The read that switches prefetching on**, with both its answers. -/
theorem run_on (h : Rest (downTo p a 4) s) (ha : onceUpdateReadLen * 5 ≤ a)
    (hap : Apart (preReading temp file) buf onceUpdateReadLen) (hk : a - onceUpdateReadLen * 5 ∉ p.kept)
    (hroom : p.kept.length < 2) :
    ∃ s' os, (machine (preReading temp file)).run s
        [.start ⟨buf, onceUpdateReadLen, a - onceUpdateReadLen * 5⟩, .second, .reply, .poll, .reply] = some (s', os) ∧
      Rest s'.dev.pre s' ∧ s'.dev.pre.preReadFlag = .toggleToEn ∧
      s'.dev.pre.lastAddr = a - onceUpdateReadLen * 5 ∧
      s'.dev.pre.kept.Perm (p.kept ++ [below (a - onceUpdateReadLen * 5)]) := by
  obtain ⟨hp, hq, hpre⟩ := h
  have hflag := flag_on (p := p) ha
  generalize a - onceUpdateReadLen * 5 = x at hflag hk ⊢
  have hmod : onceUpdateReadLen % 65536 = onceUpdateReadLen := by decide
  have hstart := step_start temp file (c := ⟨buf, onceUpdateReadLen, x⟩) hp hap
  rw [start_send (by rw [hpre, hmod, hflag]; simp), hpre, hmod, hflag] at hstart
  have hsent : ∃ s₁, (machine (preReading temp file)).step s (.start ⟨buf, onceUpdateReadLen, x⟩) = some (s₁, .quiet) ∧
      s₁.phase = .sent ⟨buf, onceUpdateReadLen, x⟩ ∧ s₁.queue = [⟨x, onceUpdateReadLen, false⟩] ∧
      s₁.dev.pre = { p with preReadCnt := 5, preReadFlag := .toggleToEn, lastAddr := x } ∧
      s₁.dev.ctl.btupdataSw = .read ∧ s₁.dev.ctl.needRxLen = onceUpdateReadLen :=
    ⟨_, hstart, rfl, by simp [send, hq], rfl, rfl, rfl⟩
  obtain ⟨s₁, hstart, hp₁, hq₁, hpre₁, hsw₁, hneed₁⟩ := hsent
  have hsecond : ∃ s₂, (machine (preReading temp file)).step s₁ .second = some (s₂, .quiet) ∧
      s₂.phase = .wait ⟨buf, onceUpdateReadLen, x⟩ ∧
      s₂.queue = [⟨x, onceUpdateReadLen, false⟩, ⟨below x, onceUpdateReadLen, false⟩] ∧
      s₂.dev.pre = { p with preReadCnt := 5, preReadFlag := .toggleToEn, lastAddr := x, currFileOffset := x } ∧
      s₂.dev.ctl.btupdataSw = .read ∧ s₂.dev.ctl.needRxLen = onceUpdateReadLen := by
    simp only [machine, hp₁]
    exact ⟨_, rfl, rfl, by simp [hq₁], by rw [hpre₁], hsw₁, hneed₁⟩
  obtain ⟨s₂, hsecond, hp₂, hq₂, hpre₂, hsw₂, hneed₂⟩ := hsecond
  have hlist₂ : s₂.dev.pre.kept = p.kept := by
    rw [hpre₂]
    rfl
  obtain ⟨d₃, hreply, hj₃⟩ := step_joined temp file hq₂ ⟨hsw₂, by rw [hneed₂, hmod]⟩
    (by rw [hpre₂]; simp)
  have hk₃ := hj₃.joins (by rw [hlist₂]; exact hroom)
  have hc₃ := hj₃.curr
  rw [hlist₂, hpre₂] at hk₃
  rw [hpre₂] at hc₃
  have hmem : x ∈ d₃.pre.kept := hk₃.mem_iff.2 (List.mem_append_right _ (List.mem_singleton_self x))
  obtain ⟨d₄, hd₄, hhandler, hout⟩ := handler_kept temp file hmem onceUpdateReadLen
  obtain ⟨hctl₄, hf₄, hl₄, hc₄⟩ := getUpdatePreReadBuf_same hd₄
  have hleft : d₄.pre.kept.Perm p.kept := by
    have := hk₃.erase x
    rwa [List.erase_append_right _ hk, List.erase_cons_head, List.append_nil, ← hout] at this
  have hpoll : ∃ s₄ o, (machine (preReading temp file)).step
        { s₂ with dev := d₃, queue := [⟨below x, onceUpdateReadLen, false⟩] } .poll = some (s₄, o) ∧
      s₄.phase = .idle ∧ s₄.queue = [⟨below x, onceUpdateReadLen, false⟩] ∧ s₄.dev = d₄ := by
    simp only [machine, hp₂, hhandler]
    exact ⟨_, _, rfl, rfl, rfl, rfl⟩
  obtain ⟨s₄, o, hpoll, hp₄, hq₄, rfl⟩ := hpoll
  have htakes : s₄.dev.takes (onceUpdateReadLen % 65536) :=
    ⟨by rw [hctl₄, hj₃.ctl]; exact hsw₂, by rw [hctl₄, hj₃.ctl, hmod]; exact hneed₂⟩
  have hf₅ : s₄.dev.pre.preReadFlag = .toggleToEn := by rw [hf₄, hj₃.flag, hpre₂]
  obtain ⟨d₅, hlast, hj₅⟩ := step_joined temp file hq₄ htakes (by rw [hf₅]; simp)
  refine ⟨_, _, Machine.run_step hstart (Machine.run_step hsecond (Machine.run_step hreply (Machine.run_step hpoll
    (Machine.run_step hlast rfl)))), ⟨hp₄, rfl, rfl⟩, hj₅.flag.trans hf₅, ?_, ?_⟩
  · rw [hj₅.last, hl₄, hj₃.last, hpre₂]
  · have hk₅ := hj₅.joins (by rw [hleft.length_eq]; exact hroom)
    rw [hc₄, hc₃] at hk₅
    exact hk₅.trans (hleft.append_right _)

/-- Six reads down through the file. -/
theorem run_six (temp : Nat) (file : Mem) (h : Rest p s)
    (hf : p.preReadFlag = .disable ∨ p.preReadFlag = .toggleToEn) (ha : a ≠ below p.lastAddr)
    (hle : onceUpdateReadLen * 6 ≤ a) (hap : Apart (preReading temp file) buf onceUpdateReadLen)
    (hk : ∀ i ≤ 5, a - onceUpdateReadLen * i ∉ p.kept) (hroom : p.kept.length < 2) :
    ∃ s' os, (machine (preReading temp file)).run s (sixReads buf a) = some (s', os) ∧ Rest s'.dev.pre s' ∧
      s'.dev.pre.preReadFlag = .toggleToEn ∧ s'.dev.pre.lastAddr = a - onceUpdateReadLen * 5 ∧
      s'.dev.pre.kept.Perm (p.kept ++ [a - onceUpdateReadLen * 6]) := by
  have h512 := onceUpdateReadLen_eq
  obtain ⟨s₁, os₁, hrun₁, hrest₁⟩ := run_down h hf ha hap 4 (Nat.le_refl _) (by omega) (fun i hi => hk i (by omega))
  obtain ⟨s₂, os₂, hrun₂, hrest₂, hf₂, hl₂, hk₂⟩ := run_on hrest₁ (by omega) hap (hk 5 (Nat.le_refl _)) hroom
  rw [below_down (n := 5) hle] at hk₂
  exact ⟨s₂, _, Machine.run_append hrun₁ hrun₂, hrest₂, hf₂, hl₂, hk₂⟩

/-- **The next read that would switch prefetching on**, with both blocks given up. -/
theorem run_starved (temp : Nat) (file : Mem) (h : Rest p s)
    (hf : p.preReadFlag = .disable ∨ p.preReadFlag = .toggleToEn) (ha : a ≠ below p.lastAddr) (hle : onceUpdateReadLen * 5 ≤ a)
    (hap : Apart (preReading temp file) buf onceUpdateReadLen) (hk : ∀ i ≤ 5, a - onceUpdateReadLen * i ∉ p.kept)
    (hfull : p.kept.length = 2) :
    ∃ s' os, (machine (preReading temp file)).run s
        (readsDown buf a 5 ++ [.start ⟨buf, onceUpdateReadLen, a - onceUpdateReadLen * 5⟩]) = some (s', os) ∧
      Starved ⟨buf, onceUpdateReadLen, a - onceUpdateReadLen * 5⟩ s' ∧ s'.dev.pre.kept = p.kept := by
  have h512 := onceUpdateReadLen_eq
  obtain ⟨s₁, os₁, hrun₁, hp₁, -, hpre₁⟩ :=
    run_down h hf ha hap 4 (Nat.le_refl _) (by omega) (fun i hi => hk i (by omega))
  have hflag := flag_on (p := p) hle
  have hmod : onceUpdateReadLen % 65536 = onceUpdateReadLen := by decide
  have hstart := step_start temp file (c := ⟨buf, onceUpdateReadLen, a - onceUpdateReadLen * 5⟩) hp₁ hap
  rw [start_send (by rw [hpre₁, hmod, hflag]; simp), hpre₁, hmod, hflag] at hstart
  exact ⟨_, _, Machine.run_append hrun₁ (Machine.run_step hstart rfl),
    ⟨.inl rfl, by simp [send, Dev.arm], rfl, hfull, hk 5 (Nat.le_refl _)⟩, rfl⟩

end Down

/-- **Two prefetches given up are enough**: after six reads down from `a₁` and six down from `a₂`, each time without the
read that would have gone on, the two blocks asked for ahead stay kept, and the sixth read down from `a₃` never returns,
whatever answers arrive: its block finds no room. -/
theorem reads_starve (temp : Nat) (file m : Mem) (buf a₁ a₂ a₃ : Nat) (hap : Apart (preReading temp file) buf 512)
    (hle₁ : 3072 ≤ a₁) (hle₂ : 3072 ≤ a₂) (hle₃ : 2560 ≤ a₃) (hfirst : a₁ ≠ below 0)
    (h₁₂ : ∀ i ≤ 5, a₂ - 512 * i ≠ a₁ - 3072) (h₁₃ : ∀ i ≤ 5, a₃ - 512 * i ≠ a₁ - 3072)
    (h₂₃ : ∀ i ≤ 5, a₃ - 512 * i ≠ a₂ - 3072) :
    ∃ s os, (machine (preReading temp file)).run (.init m)
        (sixReads buf a₁ ++ sixReads buf a₂ ++ (readsDown buf a₃ 5 ++ [.start ⟨buf, 512, a₃ - 2560⟩])) = some (s, os) ∧
      s.dev.pre.kept.Perm [a₁ - 3072, a₂ - 3072] ∧ ∀ es, (∀ e ∈ es, e ≠ .timeout) →
        (machine (preReading temp file)).Along
          (fun _ _ s' o => s'.dev.pre.kept = s.dev.pre.kept ∧ o.returned = none) s es := by
  have h512 := onceUpdateReadLen_eq
  have hstep : ∀ {a : Nat}, onceUpdateReadLen * 6 ≤ a → below (a - onceUpdateReadLen * 5) = a - onceUpdateReadLen * 6 :=
    fun h => below_down h
  have hinit : Rest (State.init m).dev.pre (.init m) := ⟨rfl, rfl, rfl⟩
  have hnone : (State.init m).dev.pre.kept = [] := rfl
  obtain ⟨s₁, os₁, hrun₁, hrest₁, hf₁, hl₁, hk₁⟩ := run_six temp file (a := a₁) hinit (.inl rfl) hfirst
    (by omega) hap (fun i _ => by simp [hnone]) (by simp [hnone])
  rw [hnone, List.nil_append, List.perm_singleton] at hk₁
  obtain ⟨s₂, os₂, hrun₂, hrest₂, hf₂, hl₂, hk₂⟩ := run_six temp file (a := a₂) hrest₁ (.inr hf₁)
    (by rw [hl₁, hstep (by omega)]; exact h₁₂ 0 (by omega)) (by omega) hap
    (fun i hi => by rw [hk₁, List.mem_singleton]; exact h₁₂ i hi) (by simp [hk₁])
  rw [hk₁] at hk₂
  have hkept : ∀ i ≤ 5, a₃ - onceUpdateReadLen * i ∉ s₂.dev.pre.kept := by
    intro i hi
    rw [hk₂.mem_iff]
    simp only [List.singleton_append, List.mem_cons, List.not_mem_nil, or_false, not_or]
    exact ⟨h₁₃ i hi, h₂₃ i hi⟩
  obtain ⟨s₃, os₃, hrun₃, hstarved, hk₃⟩ := run_starved temp file (a := a₃) hrest₂ (.inr hf₂)
    (by rw [hl₂, hstep (by omega)]; exact h₂₃ 0 (by omega)) (by omega) hap hkept (by rw [hk₂.length_eq]; rfl)
  exact ⟨s₃, _, Machine.run_append (Machine.run_append hrun₁ hrun₂) hrun₃, hk₃ ▸ hk₂, starved_run hstarved⟩

theorem reads_starve_thrice : ∃ s os, (machine (preReading 4096 fun _ => 0)).run (.init fun _ => 0)
    (sixReads 0 3072 ++ sixReads 0 8192 ++ (readsDown 0 16384 5 ++ [.start ⟨0, 512, 16384 - 2560⟩])) = some (s, os) ∧
      s.dev.pre.kept.Perm [3072 - 3072, 8192 - 3072] ∧ ∀ es, (∀ e ∈ es, e ≠ .timeout) →
        (machine (preReading 4096 fun _ => 0)).Along
          (fun _ _ s' o => s'.dev.pre.kept = s.dev.pre.kept ∧ o.returned = none) s es :=
  reads_starve 4096 _ _ 0 3072 8192 16384 (by decide) (by decide) (by decide) (by decide) (by decide)
    (fun i hi => by omega) (fun i hi => by omega) (fun i hi => by omega)

end Block
end OtaLoader
