import OtaLoader.Ap
/-!
# UpdateLoop — one update attempt and its verdict (net_update.c)

`net_update_loop` runs the update steps, leaves at the first one that fails, and passes its error code to
`net_update_result_handle`, which passes a result on to `net_f_stop` as a pointer.  The verdict leaves the device twice:
as the status of the last packet to the app, and as the value returned.  `verdicts_agree_iff` says when the two agree.
-/
namespace OtaLoader
namespace Update

def updateErrNone : UInt8 := 0
def updateErrKeyErr : UInt8 := 12
def updateErrUbootNotMatch : UInt8 := 13
def updateResultRemoteFileNotMatch : UInt8 := 14
def updatePartAllFlash : Nat := 0xffffffff

/-- What the functions called by one attempt answer.  `res` is the uninitialised local of
`net_update_result_handle`. -/
structure Steps where
  netFOpen                : Bool
  ufwHeadCheck            : UInt8
  updatePartFlag          : Nat
  flashBinHeadCheck       : UInt8
  flashPartsUpdateCheck   : UInt8
  updateTypeCheck         : UInt8
  updateLen               : Nat
  flashUpdateProcess      : UInt8
  flashAllDataVerify      : UInt8
  flashUpdateReserveArea  : UInt8
  fsUpdateResultTransition : UInt8 → UInt8
  fsUpdateJudgeErrToExit   : UInt8 → Bool
  res                     : UInt8

/-- The calls of an attempt whose effects lie outside it. -/
inductive Call where
  | netFSendUpdateLen (len : Nat)
  | flashUpdateProcess
  | vmDataRecover
  | netFStop (p : UInt8)
  | clrUpdateLoaderRecord
deriving DecidableEq

section Loop

variable (E : Steps)

/-- From `update_type_check` on, with `ALL_FLASH_INCLUDE_UBOOT_UPDATE_EN`: the value of `res` at `_LOOP_RET`. -/
def updateAllFlash : UInt8 × List Call :=
  let res := E.updateTypeCheck
  if res ≠ updateErrNone ∧ res ≠ updateErrUbootNotMatch then (res, [])
  else
    let sent := [Call.netFSendUpdateLen E.updateLen]
    if E.updateLen = 0 then (updateResultRemoteFileNotMatch, sent)
    else if E.flashUpdateProcess ≠ updateErrNone then (E.flashUpdateProcess, sent ++ [.flashUpdateProcess])
    -- both branches of `all_flash_update_flag` verify all data
    else if E.flashAllDataVerify ≠ updateErrNone then (E.flashAllDataVerify, sent ++ [.flashUpdateProcess])
    else (E.flashUpdateReserveArea, sent ++ [.flashUpdateProcess, .vmDataRecover])

/-- The attempt up to `_LOOP_RET`. -/
def updateSteps : UInt8 × List Call :=
  if E.ufwHeadCheck ≠ updateErrNone then (E.ufwHeadCheck, [])
  else if E.updatePartFlag = updatePartAllFlash then
    if E.flashBinHeadCheck ≠ updateErrNone then (E.flashBinHeadCheck, []) else updateAllFlash E
  else (E.flashPartsUpdateCheck, [])

/-- `net_update_result_handle`: the pointer it passes to `net_f_stop`. -/
def netUpdateResultHandle (err : UInt8) : UInt8 :=
  if err = updateErrNone then E.res
  else if err = updateErrKeyErr then E.res
  else E.fsUpdateResultTransition err

/-- `net_update_loop`: what it returns, and its calls in order. -/
def netUpdateLoop : Int × List Call :=
  if E.netFOpen = false then (255, [])
  else
    let r := updateSteps E
    let calls := r.2 ++ [.netFStop (netUpdateResultHandle E r.1)]
    if r.1 = updateErrNone then (0, calls)
    else if E.fsUpdateJudgeErrToExit r.1 = true then (-1, calls ++ [.clrUpdateLoaderRecord])
    else (-2, calls)

/-! ## The steps in order -/

/-- The error codes of the steps an attempt goes through, in order.  A bootloader that does not match is no error, an
update of length 0 is one. -/
def codes : List UInt8 :=
  E.ufwHeadCheck ::
    if E.updatePartFlag = updatePartAllFlash then
      [E.flashBinHeadCheck, if E.updateTypeCheck = updateErrUbootNotMatch then updateErrNone else E.updateTypeCheck,
        if E.updateLen = 0 then updateResultRemoteFileNotMatch else updateErrNone, E.flashUpdateProcess,
        E.flashAllDataVerify, E.flashUpdateReserveArea]
    else [E.flashPartsUpdateCheck]

end Loop

/-- The first error in a list of codes, 0 without one. -/
def firstError (cs : List UInt8) : UInt8 := (cs.find? (· ≠ updateErrNone)).getD updateErrNone

theorem firstError_cons (c : UInt8) (cs : List UInt8) :
    firstError (c :: cs) = if c ≠ updateErrNone then c else firstError cs := by
  unfold firstError
  rw [List.find?_cons]
  by_cases h : c = updateErrNone <;> simp [h]

theorem firstError_nil : firstError [] = updateErrNone := rfl

theorem firstError_single (c : UInt8) : firstError [c] = c := by
  rw [firstError_cons, firstError_nil]
  split
  · rfl
  · rename_i h
    exact (not_not.1 h).symm

theorem updateAllFlash_eq (E : Steps) :
    (updateAllFlash E).1 = firstError
      [if E.updateTypeCheck = updateErrUbootNotMatch then updateErrNone else E.updateTypeCheck,
        if E.updateLen = 0 then updateResultRemoteFileNotMatch else updateErrNone, E.flashUpdateProcess,
        E.flashAllDataVerify, E.flashUpdateReserveArea] := by
  unfold updateAllFlash
  rw [firstError_cons, firstError_cons, firstError_cons, firstError_cons, firstError_single]
  by_cases ht : E.updateTypeCheck ≠ updateErrNone ∧ E.updateTypeCheck ≠ updateErrUbootNotMatch
  · rw [if_pos ht, if_neg ht.2, if_pos ht.1]
  · have hok : (if E.updateTypeCheck = updateErrUbootNotMatch then updateErrNone else E.updateTypeCheck) =
        updateErrNone := by
      split
      · rfl
      · rename_i hu
        exact Classical.byContradiction (fun hn => ht ⟨hn, hu⟩)
    rw [if_neg ht, hok, if_neg (not_not.2 rfl)]
    by_cases hl : E.updateLen = 0
    · rw [if_pos hl, if_pos hl, if_pos (by decide)]
    · rw [if_neg hl, if_neg hl, if_neg (not_not.2 rfl)]
      split
      · rfl
      · split <;> rfl

/-- **The first step that fails decides** the code at `_LOOP_RET`. -/
theorem updateSteps_eq (E : Steps) : (updateSteps E).1 = firstError (codes E) := by
  unfold updateSteps codes
  rw [firstError_cons]
  by_cases hh : E.ufwHeadCheck ≠ updateErrNone
  · rw [if_pos hh, if_pos hh]
  rw [if_neg hh, if_neg hh]
  by_cases hp : E.updatePartFlag = updatePartAllFlash
  · rw [if_pos hp, if_pos hp, firstError_cons, ← updateAllFlash_eq]
    split <;> rfl
  · rw [if_neg hp, if_neg hp, firstError_single]

/-! ## The last packet -/

open Ap (Dev Ev Out)

/-- The step sends the last packet of `net_f_stop`, and its status is `st`. -/
def LastPacketShows (st : Nat) (s : Dev) (_ : Ev) (s' : Dev) (_ : Out) : Prop :=
  s.task ≠ .lastPacket → s'.task = .lastPacket → Ap.status s'.ota = st

/-- **One verdict on both channels**: in every run of `net_f_stop` with the client connected throughout, whatever it
sends meanwhile, the last packet says OK if the attempt returns 0 and ERR if it does not. -/
def VerdictsAgree (E : Steps) (s : Dev) : Prop :=
  ∀ p, Call.netFStop p ∈ (netUpdateLoop E).2 → ∀ sent es, (∀ e ∈ es, e ≠ Ev.close) →
    Ap.machine.Along (LastPacketShows (if (netUpdateLoop E).1 = 0 then Ap.statusOk else Ap.statusErr)) s
      (.stop (decide (p ≠ 0)) sent :: es)

section Status

variable (m : Mem) (v : Nat)

theorem status_setStatus : Ap.status (Ap.setStatus m v) = v % 256 := by
  unfold Ap.status Ap.setStatus
  rw [Mem.write_inside' (Nat.le_refl _) (by simp)]
  simp

theorem status_setSumCheck : Ap.status (Ap.setSumCheck m v) = Ap.status m := by
  unfold Ap.status Ap.setSumCheck
  rw [Mem.set32_outside (by decide)]

theorem status_setReadSize : Ap.status (Ap.setReadSize m v) = Ap.status m := by
  unfold Ap.status Ap.setReadSize
  rw [Mem.set32_outside (by decide)]

end Status

theorem status_sendHeader (s : Dev) (m : Mem) (back : Nat) (noWait sent : Bool) :
    Ap.status (Ap.sendHeader s m back noWait sent).1.ota = s.netLocal.status % 256 := by
  simp only [Ap.sendHeader]
  split
  · rw [status_setSumCheck, status_setStatus]
  · rw [status_setReadSize, status_setSumCheck, status_setStatus]

def verdictOf (failed : Bool) : Nat := if failed = true then Ap.statusErr else Ap.statusOk

theorem notice_sends {s : Dev} (noWait sent : Bool) (hc : s.clientPcb = true) (hst : s.netLocal.status ≠ Ap.statusRead) :
    ∃ m back, Ap.msgsenddata s noWait sent = Ap.sendHeader s m back noWait sent :=
  ⟨_, _, Ap.msgsenddata_notice hc hst⟩

/-- The last packet is a header sent with the verdict as its status. -/
theorem sendLastPacket_eq {s : Dev} (hc : s.clientPcb = true) (failed sent : Bool) :
    ∃ s₀ m back, s₀.clientPcb = true ∧ s₀.netLocal.status = verdictOf failed ∧
      (Ap.sendLastPacket s failed sent).1 = { (Ap.sendHeader s₀ m back true sent).1 with task := .lastPacket } := by
  obtain ⟨m, back, h⟩ := notice_sends (s := { s with netLocal := { s.netLocal with status := verdictOf failed } })
    true sent hc (by cases failed <;> exact fun hr => by cases hr)
  refine ⟨{ s with netLocal := { s.netLocal with status := verdictOf failed } }, m, back, hc, rfl, ?_⟩
  rw [← h]
  rfl

theorem status_sendLastPacket {s : Dev} (hc : s.clientPcb = true) (failed sent : Bool) :
    Ap.status (Ap.sendLastPacket s failed sent).1.ota = verdictOf failed := by
  obtain ⟨s₀, m, back, _, hst, heq⟩ := sendLastPacket_eq hc failed sent
  rw [heq, status_sendHeader, hst]
  cases failed <;> rfl

theorem sendLastPacket_clientPcb {s : Dev} (hc : s.clientPcb = true) (failed sent : Bool) :
    (Ap.sendLastPacket s failed sent).1.clientPcb = true := by
  obtain ⟨s₀, m, back, hc₀, _, heq⟩ := sendLastPacket_eq hc failed sent
  rw [heq]
  exact hc₀

/-- `net_f_stop` is under way, called with `failed`, or over. -/
def Ending (failed : Bool) (s : Dev) : Prop :=
  s.task = .closed ∨ s.clientPcb = true ∧ (s.task = .lastPacket ∨ failed = false ∧ ∃ n, s.task = .stopping n)

/-- The end of the wait before the last packet. -/
theorem wake_ending {failed got sent : Bool} {s s' : Dev} {o : Out} {e : Ev} (hI : Ending failed s)
    (h : Ap.wake s got sent = some (s', o)) :
    Ending failed s' ∧ LastPacketShows (verdictOf failed) s e s' o := by
  rcases hI with hcl | ⟨hc, hlast | ⟨hf, n, hn⟩⟩
  · rw [Ap.wake, hcl] at h
    cases h
  · rw [Ap.wake, hlast] at h
    cases h
  · rw [Ap.wake, hn] at h
    cases h
    subst hf
    exact ⟨Or.inr ⟨sendLastPacket_clientPcb hc false sent, Or.inl rfl⟩,
      fun _ _ => status_sendLastPacket hc false sent⟩

theorem step_ending {failed : Bool} {s s' : Dev} {e : Ev} {o : Out} (hI : Ending failed s) (he : e ≠ .close)
    (h : Ap.step s e = some (s', o)) : Ending failed s' ∧ LastPacketShows (verdictOf failed) s e s' o := by
  have hidle : s.task ≠ .idle := by
    rcases hI with hcl | ⟨_, hlast | ⟨_, n, hn⟩⟩
    · rw [hcl]; decide
    · rw [hlast]; decide
    · rw [hn]; exact fun h => by cases h
  have ht := Ap.step_took h
  cases e with
  | seek _ _     => exact absurd ht.1 hidle
  | read _ _ _   => exact absurd ht.1 hidle
  | announce _ _ => exact absurd ht.1 hidle
  | stop _ _     => exact absurd ht.1 hidle
  | resume sent  =>
    exact wake_ending (e := .resume sent) (s := { s with readSem := s.readSem - 1 }) hI ht.2
  | timeout sent => exact wake_ending hI ht.2
  | finish =>
    cases ht.2
    exact ⟨Or.inl rfl, fun _ h => by cases h⟩
  | segment p =>
    obtain ⟨hs, _⟩ := Prod.mk.inj ht.2
    have hsame := Ap.msgrecv_task s p
    rw [← hs] at hsame
    refine ⟨?_, fun hne hl => absurd (hsame.1 ▸ hl) hne⟩
    unfold Ending
    rw [hsame.1, hsame.2]
    exact hI
  | close => exact absurd rfl he

theorem netFStop_failed {s : Dev} (hc : s.clientPcb = true) (sent : Bool) :
    Ap.netFStop s true sent = Ap.sendLastPacket { s with netLocal := ⟨0, 0, 0, 0, 0, 0⟩ } true sent := by
  unfold Ap.netFStop
  rw [if_pos hc, if_pos rfl]

theorem netFStop_waits {s : Dev} (hc : s.clientPcb = true) (sent : Bool) :
    ∃ s₀ m back, s₀.clientPcb = true ∧ ∃ n, (Ap.netFStop s false sent).1 =
      { (Ap.sendHeader s₀ m back false sent).1 with task := .stopping n } := by
  unfold Ap.netFStop
  rw [if_pos hc, if_neg (by decide)]
  dsimp only
  obtain ⟨m, back, hm⟩ := notice_sends (s := { s with netLocal :=
    ⟨0, 0, 0, 0, if s.otaAllSize = 0 then 0 else 100, 0⟩ }) false sent hc (fun hr => by cases hr)
  rw [hm]
  exact ⟨{ s with netLocal := ⟨0, 0, 0, 0, if s.otaAllSize = 0 then 0 else 100, 0⟩ }, m, back, hc, _, rfl⟩

/-- `net_f_stop` up to its first wait. -/
theorem netFStop_ending {s s₁ : Dev} {o₁ : Out} {failed sent : Bool} (hc : s.clientPcb = true)
    (h : s₁ = (Ap.netFStop s failed sent).1) :
    Ending failed s₁ ∧ LastPacketShows (verdictOf failed) s (.stop failed sent) s₁ o₁ := by
  subst h
  cases failed with
  | true =>
    rw [netFStop_failed hc sent]
    exact ⟨Or.inr ⟨sendLastPacket_clientPcb (by exact hc) true sent, Or.inl rfl⟩,
      fun _ _ => status_sendLastPacket (by exact hc) true sent⟩
  | false =>
    obtain ⟨s₀, m, back, hc₀, n, heq⟩ := netFStop_waits hc sent
    rw [heq]
    exact ⟨Or.inr ⟨hc₀, Or.inr ⟨rfl, n, rfl⟩⟩, fun _ hl => by cases hl⟩

/-- **The last packet of `net_f_stop` carries its argument**, with the client connected throughout. -/
theorem netFStop_lastPacket {s : Dev} (hc : s.clientPcb = true) (failed sent : Bool)
    (es : List Ev) (hes : ∀ e ∈ es, e ≠ Ev.close) :
    Ap.machine.Along (LastPacketShows (verdictOf failed)) s (.stop failed sent :: es) := by
  intro s₁ o₁ h₁
  have ht : Ap.Took s (s₁, o₁) (.stop failed sent) := Ap.step_took h₁
  have hstart : Ending failed s₁ ∧ LastPacketShows (verdictOf failed) s (.stop failed sent) s₁ o₁ := by
    obtain ⟨heq, _⟩ := Prod.mk.inj ht.2
    exact netFStop_ending hc heq
  refine ⟨hstart.2, Machine.along_of_inv (C := fun _ e _ _ => e ≠ Ev.close) (Ending failed)
    (fun s e s' o hI h he => step_ending hI he h) es s₁ hstart.1
      (Machine.along_of_forall (P := (· ≠ Ev.close)) (fun _ _ _ _ h => h) es s₁ hes)⟩

/-- With the client connected, `net_f_stop` can send its last packet, and then shows its argument. -/
theorem exists_lastPacket {s : Dev} (hs : s.task = .idle) (hc : s.clientPcb = true) (failed : Bool) :
    ∃ es, (∀ e ∈ es, e ≠ Ev.close) ∧
      ∀ st, Ap.machine.Along (LastPacketShows st) s (.stop failed true :: es) → st = verdictOf failed := by
  have hstop : Ap.machine.step s (.stop failed true) =
      some ((Ap.netFStop s failed true).1, (Ap.netFStop s failed true).2) := if_pos hs
  have hne : s.task ≠ .lastPacket := by rw [hs]; decide
  cases failed with
  | true =>
    refine ⟨[], fun e he => (nomatch he), fun st h => ?_⟩
    have heq := netFStop_failed hc true
    obtain ⟨hshows, _⟩ := h _ _ hstop
    rw [← hshows hne (by rw [heq]; rfl), heq, status_sendLastPacket (by exact hc)]
  | false =>
    refine ⟨[.timeout true], fun e he => ?_, fun st h => ?_⟩
    · rw [List.mem_singleton.1 he]
      exact fun hcl => by cases hcl
    · obtain ⟨s₀, m, back, hc₀, n, heq⟩ := netFStop_waits hc true
      obtain ⟨_, hrest⟩ := h _ _ hstop
      rw [heq] at hrest
      obtain ⟨hshows, _⟩ := hrest _ _ rfl
      rw [← hshows (fun hl => by cases hl) rfl]
      exact status_sendLastPacket (s := { (Ap.sendHeader s₀ m back false true).1 with task := .stopping n }) hc₀ false true

/-! ## When the verdicts agree -/

theorem updateSteps_calls (E : Steps) (p : UInt8) : Call.netFStop p ∉ (updateSteps E).2 := by
  unfold updateSteps
  split
  · simp
  · split
    · split
      · simp
      · unfold updateAllFlash
        dsimp only
        split
        · simp
        · split
          · simp
          · split
            · simp
            · split <;> simp
    · simp

/-- The one call of `net_f_stop` in an attempt. -/
theorem netFStop_mem_iff {E : Steps} {p : UInt8} :
    Call.netFStop p ∈ (netUpdateLoop E).2 ↔ E.netFOpen = true ∧ p = netUpdateResultHandle E (updateSteps E).1 := by
  have hnot := updateSteps_calls E p
  unfold netUpdateLoop
  cases E.netFOpen with
  | false => simp
  | true =>
    rw [if_neg (by decide)]
    dsimp only
    split
    · simp [hnot]
    · split <;> simp [hnot]

theorem netUpdateLoop_ret {E : Steps} (ho : E.netFOpen = true) :
    (netUpdateLoop E).1 = 0 ↔ (updateSteps E).1 = updateErrNone := by
  unfold netUpdateLoop
  rw [ho, if_neg (by decide)]
  dsimp only
  split
  · simp [*]
  · split <;> simp [*]

/-- **When the app and the caller get the same verdict**: whatever the steps answer, exactly when the byte that
`net_update_result_handle` leaves uninitialised happens to be 0 after a success and not 0 after a key error. -/
theorem verdicts_agree_iff (E : Steps) (hT : ∀ e, e ≠ updateErrNone → E.fsUpdateResultTransition e ≠ 0) (s : Dev)
    (hs : s.task = .idle) (hc : s.clientPcb = true) :
    VerdictsAgree E s ↔ (E.netFOpen = true →
      (firstError (codes E) = updateErrNone → E.res = 0) ∧ (firstError (codes E) = updateErrKeyErr → E.res ≠ 0)) := by
  have hagree : VerdictsAgree E s ↔ (E.netFOpen = true →
      (if (netUpdateLoop E).1 = 0 then Ap.statusOk else Ap.statusErr) =
        verdictOf (decide (netUpdateResultHandle E (updateSteps E).1 ≠ 0))) := by
    constructor
    · intro h ho
      obtain ⟨es, hes, hlast⟩ := exists_lastPacket hs hc (decide (netUpdateResultHandle E (updateSteps E).1 ≠ 0))
      exact hlast _ (h _ (netFStop_mem_iff.2 ⟨ho, rfl⟩) true es hes)
    · intro h p hp sent es hes
      obtain ⟨ho, rfl⟩ := netFStop_mem_iff.1 hp
      rw [h ho]
      exact netFStop_lastPacket hc _ sent es hes
  rw [hagree, ← updateSteps_eq]
  refine forall_congr' (fun ho => ?_)
  have hret := netUpdateLoop_ret ho
  generalize (updateSteps E).1 = err at hret
  unfold netUpdateResultHandle verdictOf
  by_cases h0 : err = updateErrNone
  · rw [if_pos (hret.2 h0), if_pos h0]
    by_cases hr : E.res = 0 <;> simp [hr, h0, updateErrNone, updateErrKeyErr, Ap.statusOk, Ap.statusErr]
  · rw [if_neg (fun h => h0 (hret.1 h)), if_neg h0]
    by_cases hk : err = updateErrKeyErr
    · rw [if_pos hk]
      by_cases hr : E.res = 0 <;> simp [hr, hk, updateErrNone, updateErrKeyErr, Ap.statusOk, Ap.statusErr]
    · rw [if_neg hk]
      simp [hT err h0, h0, hk]

/-- An attempt in which every step succeeds. -/
def allWell (res : UInt8) : Steps where
  netFOpen := true
  ufwHeadCheck := 0
  updatePartFlag := updatePartAllFlash
  flashBinHeadCheck := 0
  flashPartsUpdateCheck := 0
  updateTypeCheck := 0
  updateLen := 4096
  flashUpdateProcess := 0
  flashAllDataVerify := 0
  flashUpdateReserveArea := 0
  fsUpdateResultTransition := fun e => e
  fsUpdateJudgeErrToExit := fun _ => false
  res := res

/-- An attempt that succeeds with a zero in the uninitialised byte. -/
theorem verdicts_agree_zero : VerdictsAgree (allWell 0) (Ap.opened (fun _ => 0) (fun _ => 0)) ↔
    ((allWell 0).netFOpen = true → (firstError (codes (allWell 0)) = updateErrNone → (allWell 0).res = 0) ∧
      (firstError (codes (allWell 0)) = updateErrKeyErr → (allWell 0).res ≠ 0)) :=
  verdicts_agree_iff (allWell 0) (fun _ h => h) (Ap.opened (fun _ => 0) (fun _ => 0)) rfl rfl

/-- An attempt that succeeds with another byte there returns 0 and tells the app that it failed. -/
theorem not_verdicts_agree : ¬ VerdictsAgree (allWell 1) (Ap.opened (fun _ => 0) (fun _ => 0)) := by
  intro h
  obtain ⟨es, hes, hlast⟩ := exists_lastPacket (s := Ap.opened (fun _ => 0) (fun _ => 0)) rfl rfl true
  have hst := hlast _ (h 1 (by decide) true es hes)
  exact absurd hst (by decide)

end Update
end OtaLoader
