import OtaLoader.Machine
/-!
# Watchdog — resetting a chip whose update reads nothing (`app_main.c`, `net_update.c`)

`app_core` asks `net_ota_update_read_size_check` once a second and counts the seconds in which the answer stays the same.
The answer is the number of bytes read, which is only counted once the length of the update is known; the count and the
last answer are those of `app_core` and outlive an attempt.
-/
namespace OtaLoader
namespace Watchdog

/-! ## The code -/

structure Dev where
  netOtaStart : Bool
  otaAllSize  : UInt32
  otaReadSize : UInt32
  -- locals of `app_core`
  checkLast   : UInt32
  checkErrCnt : Nat

def Dev.init : Dev := ⟨false, 0, 0, 0, 0⟩

/-- `net_f_read` at its end, with `readSize` bytes read. -/
def netFRead (d : Dev) (readSize : UInt32) : Dev :=
  if d.otaAllSize ≠ 0 then { d with otaReadSize := d.otaReadSize + readSize } else d

def netFSendUpdateLen (d : Dev) (len : UInt32) : Dev :=
  if len = 0 then d else { d with otaAllSize := len, otaReadSize := 0 }

/-- `net_update_loop` from `_LOOP_RET` on: the flag is cleared, then `net_f_stop` clears the sizes. -/
def loopRet (d : Dev) : Dev := { d with netOtaStart := false, otaAllSize := 0, otaReadSize := 0 }

def netOtaUpdateReadSizeCheck (d : Dev) : UInt32 :=
  if d.netOtaStart = false then 0 else if d.otaReadSize ≠ 0 then d.otaReadSize else 1

/-- One round of `app_core`, and whether it resets the chip. -/
def appCore (d : Dev) : Dev × Bool :=
  let check := netOtaUpdateReadSizeCheck d
  let d :=
    if check ≠ 0 then
      if d.checkLast = 0 then { d with checkLast := check, checkErrCnt := 0 }
      else if d.checkLast ≠ check then { d with checkLast := check, checkErrCnt := 0 }
      else { d with checkErrCnt := d.checkErrCnt + 1 }
    else d
  (d, decide (d.checkErrCnt ≠ 0 ∧ d.checkErrCnt % 60 = 0))

/-! ## Runs -/

/-- `quiet` counts the samples of the attempt in progress since it began or last read something. -/
structure State where
  dev   : Dev
  reset : Bool
  quiet : Nat

def State.init : State := ⟨.init, false, 0⟩

/-- What the update task does, and the second of `app_core`.  A read of no bytes returns what a failed one returns. -/
inductive Ev where
  | start
  | read (readSize : UInt32)
  | announce (len : UInt32)
  | finish
  | sample

/-- Nothing happens after a reset; attempts do not overlap.  A step shows whether it resets the chip. -/
def machine : Machine State Ev Bool where
  step s e :=
    if s.reset then none
    else match e with
      | .start         =>
        if s.dev.netOtaStart then none else some ({ s with dev := { s.dev with netOtaStart := true }, quiet := 0 }, false)
      | .read readSize =>
        if s.dev.netOtaStart ∧ readSize ≠ 0 then some ({ s with dev := netFRead s.dev readSize, quiet := 0 }, false)
        else none
      | .announce len  => if s.dev.netOtaStart then some ({ s with dev := netFSendUpdateLen s.dev len }, false) else none
      | .finish        => if s.dev.netOtaStart then some ({ s with dev := loopRet s.dev }, false) else none
      | .sample        => some (⟨(appCore s.dev).1, (appCore s.dev).2, s.quiet + 1⟩, (appCore s.dev).2)

/-- A reset comes in an attempt that has read nothing during the last 60 samples. -/
def Justified (_ : State) (_ : Ev) (s' : State) (o : Bool) : Prop :=
  o = true → s'.dev.netOtaStart = true ∧ 60 ≤ s'.quiet

/-- The first sample after an attempt has begun, or has read something, sees another number than the last one counted,
or no sample has been counted. -/
def Noticed (s : State) : Ev → Prop
  | .sample => s.dev.netOtaStart = true → s.quiet = 0 →
      netOtaUpdateReadSizeCheck s.dev ≠ s.dev.checkLast ∨ s.dev.checkErrCnt = 0
  | _       => True

/-- What counted samples are: fewer than 60, and quiet ones. -/
structure Counted (s : State) : Prop where
  alive : s.reset = false → s.dev.checkErrCnt < 60
  quiet : s.dev.netOtaStart = true → s.quiet ≠ 0 → s.dev.checkErrCnt ≤ s.quiet

theorem check_ne_zero {d : Dev} (h : d.netOtaStart = true) : netOtaUpdateReadSizeCheck d ≠ 0 := by
  unfold netOtaUpdateReadSizeCheck
  rw [h, if_neg (by decide)]
  split
  · assumption
  · decide

/-- Without an attempt a round changes nothing. -/
theorem appCore_idle {d : Dev} (h : d.netOtaStart = false) :
    appCore d = (d, decide (d.checkErrCnt ≠ 0 ∧ d.checkErrCnt % 60 = 0)) := by
  have h0 : netOtaUpdateReadSizeCheck d = 0 := if_pos h
  unfold appCore
  rw [h0]
  rfl

/-- In an attempt a round counts a number seen before, and else begins to count. -/
theorem appCore_attempt {d : Dev} (h : d.netOtaStart = true) :
    appCore d =
      if netOtaUpdateReadSizeCheck d = d.checkLast then
        ({ d with checkErrCnt := d.checkErrCnt + 1 }, decide ((d.checkErrCnt + 1) % 60 = 0))
      else ({ d with checkLast := netOtaUpdateReadSizeCheck d, checkErrCnt := 0 }, false) := by
  have h0 := check_ne_zero h
  unfold appCore
  dsimp only
  rw [if_pos h0]
  by_cases hl : netOtaUpdateReadSizeCheck d = d.checkLast
  · rw [if_pos hl, if_neg (hl ▸ h0), if_neg (not_not.2 hl.symm)]
    simp
  · rw [if_neg hl]
    by_cases hz : d.checkLast = 0
    · rw [if_pos hz]
      rfl
    · rw [if_neg hz, if_pos (Ne.symm hl)]
      rfl

/-- The events of the update task keep the count and start a new quiet time, or leave the quiet time alone. -/
theorem counted_update {s s' : State} {e : Ev} {o : Bool} (hI : Counted s) (h : machine.step s e = some (s', o))
    (he : e ≠ .sample) : Counted s' ∧ o = false := by
  simp only [machine] at h
  split at h
  · cases h
  · cases e with
    | sample => exact absurd rfl he
    | start =>
      dsimp only at h
      split at h
      · cases h
      · cases h
        exact ⟨⟨hI.alive, fun _ hq => absurd rfl hq⟩, rfl⟩
    | read readSize =>
      dsimp only at h
      split at h
      · cases h
        refine ⟨⟨fun hr => ?_, fun _ hq => absurd rfl hq⟩, rfl⟩
        have := hI.alive hr
        unfold netFRead
        split <;> exact this
      · cases h
    | announce len =>
      dsimp only at h
      split at h
      · cases h
        unfold netFSendUpdateLen
        split
        · exact ⟨hI, rfl⟩
        · exact ⟨⟨hI.alive, hI.quiet⟩, rfl⟩
      · cases h
    | finish =>
      dsimp only at h
      split at h
      · cases h
        exact ⟨⟨hI.alive, fun hs => by cases hs⟩, rfl⟩
      · cases h

/-- **A sample that notices** keeps the count to quiet samples, and resets the chip after 60 of them only. -/
theorem counted_sample {s s' : State} {o : Bool} (hI : Counted s) (h : machine.step s .sample = some (s', o))
    (hn : Noticed s .sample) : Counted s' ∧ Justified s .sample s' o := by
  simp only [machine] at h
  split at h
  · cases h
  · rename_i hr
    have hlt := hI.alive (Bool.eq_false_iff.2 hr)
    cases h
    cases hs : s.dev.netOtaStart with
    | false =>
      have hno : ¬ (s.dev.checkErrCnt ≠ 0 ∧ s.dev.checkErrCnt % 60 = 0) := by
        rintro ⟨h0, h60⟩
        rw [Nat.mod_eq_of_lt hlt] at h60
        exact h0 h60
      rw [appCore_idle hs, decide_eq_false hno]
      exact ⟨⟨fun _ => hlt, fun ht => by rw [hs] at ht; cases ht⟩, fun ht => by cases ht⟩
    | true =>
      have hle : netOtaUpdateReadSizeCheck s.dev = s.dev.checkLast → s.dev.checkErrCnt ≤ s.quiet := fun hl => by
        by_cases hq : s.quiet = 0
        · have h0 : s.dev.checkErrCnt = 0 := (hn hs hq).resolve_left (not_not.2 hl)
          omega
        · exact hI.quiet hs hq
      rw [appCore_attempt hs]
      split
      · rename_i hl
        have := hle hl
        refine ⟨⟨fun hr' => ?_, fun _ _ => ?_⟩, fun ht => ⟨hs, ?_⟩⟩
        · have hmod : ¬ (s.dev.checkErrCnt + 1) % 60 = 0 := of_decide_eq_false hr'
          dsimp only
          omega
        · dsimp only
          omega
        · have hmod : (s.dev.checkErrCnt + 1) % 60 = 0 := of_decide_eq_true ht
          dsimp only
          omega
      · exact ⟨⟨fun _ => Nat.succ_pos 59, fun _ _ => Nat.zero_le _⟩, fun ht => by cases ht⟩

theorem counted_step {s s' : State} {e : Ev} {o : Bool} (hI : Counted s) (h : machine.step s e = some (s', o))
    (hn : Noticed s e) : Counted s' ∧ Justified s e s' o := by
  by_cases he : e = .sample
  · subst he
    exact counted_sample hI h hn
  · obtain ⟨hI', rfl⟩ := counted_update hI h he
    exact ⟨hI', fun ht => by cases ht⟩

theorem counted_init : Counted .init := ⟨fun _ => Nat.succ_pos 59, fun h => by cases h⟩

/-! ## Samples that nothing interrupts -/

theorem step_sample {s : State} (hr : s.reset = false) :
    machine.step s .sample = some (⟨(appCore s.dev).1, (appCore s.dev).2, s.quiet + 1⟩, (appCore s.dev).2) := by
  simp only [machine, hr]
  rfl

/-- **Samples alone** go on counting: the reset after them is justified only if what was counted before was quiet. -/
theorem justified_samples : ∀ (n : Nat) (s : State), s.reset = false → s.dev.netOtaStart = true →
    netOtaUpdateReadSizeCheck s.dev = s.dev.checkLast → s.dev.checkErrCnt + (n + 1) = 60 →
      machine.Along Justified s (List.replicate (n + 1) .sample) → s.dev.checkErrCnt ≤ s.quiet
  | n, s, hr, hs, hl, hn, h => by
    have hcore := appCore_attempt hs
    rw [if_pos hl] at hcore
    obtain ⟨hj, hrest⟩ := h _ _ (step_sample hr)
    rw [hcore] at hj hrest
    cases n with
    | zero =>
      have h60 : (s.dev.checkErrCnt + 1) % 60 = 0 := by omega
      have hq : 60 ≤ s.quiet + 1 := (hj (decide_eq_true h60)).2
      omega
    | succ n =>
      have h60 : ¬ (s.dev.checkErrCnt + 1) % 60 = 0 := by omega
      have hn' : s.dev.checkErrCnt + 1 + (n + 1) = 60 := by omega
      have hle : s.dev.checkErrCnt + 1 ≤ s.quiet + 1 :=
        justified_samples n ⟨{ s.dev with checkErrCnt := s.dev.checkErrCnt + 1 }, _, s.quiet + 1⟩ (decide_eq_false h60)
          hs hl hn' hrest
      omega

theorem noticed_of_justified_samples : ∀ (n : Nat) (s : State), Counted s →
    (∀ n, machine.Along Justified s (List.replicate n .sample)) →
      machine.Along (fun s e _ _ => Noticed s e) s (List.replicate n .sample)
  | 0, _, _, _ => trivial
  | n + 1, s, hI, h => by
    intro s' o hstep
    have hr : s.reset = false := by
      cases hr : s.reset with
      | false => rfl
      | true  => simp [machine, hr] at hstep
    have hn : Noticed s .sample := by
      intro hs hq
      by_cases hl : netOtaUpdateReadSizeCheck s.dev = s.dev.checkLast
      · have hlt := hI.alive hr
        have hcount : s.dev.checkErrCnt + (59 - s.dev.checkErrCnt + 1) = 60 := by omega
        have hle := justified_samples _ s hr hs hl hcount (h _)
        rw [hq] at hle
        exact .inr (Nat.le_zero.1 hle)
      · exact .inl hl
    exact ⟨hn, noticed_of_justified_samples n s' (counted_step hI hstep hn).1 (fun k => (h (k + 1) s' o hstep).2)⟩

theorem noticed_of_justified : ∀ (es : List Ev) (s : State), Counted s →
    (∀ m n, machine.Along Justified s (es.take m ++ List.replicate n .sample)) →
      ∀ m n, machine.Along (fun s e _ _ => Noticed s e) s (es.take m ++ List.replicate n .sample)
  | es, s, hI, h, 0, n => noticed_of_justified_samples n s hI (h 0)
  | [], s, hI, h, _ + 1, n => noticed_of_justified_samples n s hI (h 0)
  | e :: es, s, hI, h, m + 1, n => by
    intro s' o hstep
    have hn : Noticed s e := by
      cases e with
      | sample => exact (noticed_of_justified_samples 1 s hI (h 0) s' o hstep).1
      | _      => exact trivial
    exact ⟨hn, noticed_of_justified es s' (counted_step hI hstep hn).1 (fun m n => (h (m + 1) n s' o hstep).2) m n⟩

/-- **A live update is not reset** in the runs in which every sample notices what was read and that an attempt began.
In every other run, some part of it followed by samples alone resets a live update. -/
theorem watchdog_iff (es : List Ev) :
    (machine.Along (fun s e _ _ => Noticed s e) .init es → machine.Along Justified .init es) ∧
      ((∀ m n, machine.Along Justified .init (es.take m ++ List.replicate n .sample)) ↔
        ∀ m n, machine.Along (fun s e _ _ => Noticed s e) .init (es.take m ++ List.replicate n .sample)) := by
  have hof : ∀ es, machine.Along (fun s e _ _ => Noticed s e) .init es → machine.Along Justified .init es := fun es =>
    Machine.along_of_inv Counted (fun _ _ _ _ hI hs hn => counted_step hI hs hn) es _ counted_init
  exact ⟨hof es, noticed_of_justified es _ counted_init, fun h m n => hof _ (h m n)⟩

/-- **Reads before the length is known** are not counted: sixty of them, one a second, end in a reset. -/
theorem not_watchdog_unannounced : ¬ ∀ es, machine.Along Justified .init es := by
  intro h
  have hall := noticed_of_justified [.start, .sample, .sample, .read 1] .init counted_init (fun _ _ => h _) 4 1
  have hn := ((((hall _ _ rfl).2 _ _ rfl).2 _ _ rfl).2 _ _ rfl).2 _ _ rfl
  rcases hn.1 rfl rfl with hne | h0
  · exact hne rfl
  · cases h0

end Watchdog
end OtaLoader
