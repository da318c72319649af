import OtaLoader.BleUpdate
import OtaLoader.UpdateLoop
/-!
# BleReport — what the peer of a Bluetooth update is told (`update_main.c`)

`ble_updata_loop` runs the steps of an update, has the peer ask for the status, and tells it the code of its result.
`ble_updata_process` allows the reboot after a success and waits for the command.  The requests of the peer and the
events of the connection come in at any time, and the waits end without them too.
-/
namespace OtaLoader
namespace Ble

open Update (updateErrNone updateErrKeyErr updateErrUbootNotMatch updatePartAllFlash firstError)

/-! ## The loop -/

def updateErrProductIdNotMatch : UInt8 := 25
def updateErrConnErr : UInt8 := 27

/-- What the functions called by `ble_updata_loop` answer. -/
structure Steps where
  ufwHeadCheck           : UInt8
  updatePartFlag         : Nat
  flashBinHeadCheck      : UInt8
  flashPartsUpdateCheck  : UInt8
  updateTypeCheck        : UInt8
  updateLen              : Nat
  /-- Whether `ble_notify_update_content_size` answers 0. -/
  notified               : Bool
  flashUpdateProcess     : UInt8
  flashAllDataVerify     : UInt8
  flashUpdateReserveArea : UInt8

inductive LoopCall where
  | notifyUpdateContentSize (len : Nat)
  | flashUpdateProcess
  | clrUpdateLoaderRecord
deriving DecidableEq

section Loop

variable (E : Steps)

/-- From `update_type_check` on, with `ALL_FLASH_INCLUDE_UBOOT_UPDATE_EN`. -/
def updateAllFlash : UInt8 × List LoopCall :=
  if E.updateTypeCheck ≠ updateErrNone ∧ E.updateTypeCheck ≠ updateErrUbootNotMatch then (E.updateTypeCheck, [])
  else
    let calls := [LoopCall.notifyUpdateContentSize E.updateLen]
    if E.notified = false then (updateErrConnErr, calls)
    else if E.flashUpdateProcess ≠ updateErrNone then (E.flashUpdateProcess, calls ++ [.flashUpdateProcess])
    -- both branches of `all_flash_update_flag` verify all data
    else if E.flashAllDataVerify ≠ updateErrNone then (E.flashAllDataVerify, calls ++ [.flashUpdateProcess])
    else (E.flashUpdateReserveArea, calls ++ [.flashUpdateProcess, .clrUpdateLoaderRecord])

/-- `ble_updata_loop` up to `_LOOP_RET1`: the value of `res`. -/
def loopSteps : UInt8 × List LoopCall :=
  if E.ufwHeadCheck ≠ updateErrNone then (E.ufwHeadCheck, [])
  else if E.updatePartFlag = updatePartAllFlash then
    if E.flashBinHeadCheck ≠ updateErrNone then (E.flashBinHeadCheck, []) else updateAllFlash E
  else (E.flashPartsUpdateCheck, [])

/-- What `ble_updata_loop` returns for a `res`. -/
def loopResult (res : UInt8) : Result :=
  if res = updateErrNone then .succ
  else if res = updateErrKeyErr ∨ res = updateErrUbootNotMatch ∨ res = updateErrProductIdNotMatch then .keyErr
  else .fail

def deviceUpdateStaSuccess : UInt8 := 0
def deviceUpdateStaVerifyErr : UInt8 := 1
def deviceUpdateStaFail : UInt8 := 2
def deviceUpdateStaKeyErr : UInt8 := 3
def deviceUpdateStaFileErr : UInt8 := 4
def deviceUpdateStaTypeErr : UInt8 := 5
def deviceUpdateStaMaxErr : UInt8 := 6

/-- The errors that `update_result_handle` makes `DEVICE_UPDATE_STA_FILE_ERR` of, in its order. -/
def fileErrs : List UInt8 := [1, 4, 10, 15, 19, 2, 3, 9, 18, 11, 5, 6, 7, 14, 20, 39, 25]

/-- `update_result_handle`: the code it passes to `ble_updata_stop`. -/
def updateResultHandle (err : UInt8) : UInt8 :=
  if err = updateErrNone then deviceUpdateStaSuccess
  else if err = updateErrKeyErr then deviceUpdateStaKeyErr
  else if err ∈ fileErrs then deviceUpdateStaFileErr
  else if err = 8 then deviceUpdateStaVerifyErr
  else if err = updateErrUbootNotMatch then deviceUpdateStaTypeErr
  else deviceUpdateStaFail

/-- The error codes of the steps in order.  A bootloader that does not match is no error here. -/
def codes : List UInt8 :=
  E.ufwHeadCheck ::
    if E.updatePartFlag = updatePartAllFlash then
      [E.flashBinHeadCheck, if E.updateTypeCheck = updateErrUbootNotMatch then updateErrNone else E.updateTypeCheck,
        if E.notified = false then updateErrConnErr else updateErrNone, E.flashUpdateProcess, E.flashAllDataVerify,
        E.flashUpdateReserveArea]
    else [E.flashPartsUpdateCheck]

end Loop

/-! ## The requests of the peer -/

/-- The commands of `update_main.h`. -/
inductive Sw where
  | stop
  | open
  | seek
  | read
  | readOffsize
  | stopKeyerr
  | acceptOk
  | waitReboot
deriving DecidableEq

/-- `btupdata_sw`, and the bit `LMP_STA_UPDATA_ACCEPT`. -/
structure Control where
  btupdataSw : Sw
  accept     : Bool
deriving DecidableEq

def Control.accepted : Control := ⟨.acceptOk, true⟩

/-- `jl_device_update_status`: nothing sets it. -/
def jlDeviceUpdateStatus : UInt8 := deviceUpdateStaFail

def devUpdateStatusReqHandle (c : Control) : Control × UInt8 :=
  (if c.btupdataSw = .stop ∨ c.btupdataSw = .stopKeyerr then .accepted else c, jlDeviceUpdateStatus)

def jlUpdateGetRebootSta (c : Control) (rebootStatus : RebootStatus) : Control × RebootStatus :=
  (if c.btupdataSw = .waitReboot then .accepted else c, rebootStatus)

/-- A round of `ble_updata_handler` for a command other than `UPDATA_READ`: whether it returns. -/
def handlerReturns (c : Control) (d : Dev) : Bool :=
  decide (c.accept = true ∧ c.btupdataSw = .acceptOk) ||
    decide (d.uBleStatus = .disconnectionCompleted ∨ d.uBleStatus = .readyUpdate)

/-! ## The system -/

/-- Where the task is. -/
inductive Task where
  | idle
  | updating
  /-- In `ble_updata_handler(UPDATA_STOP)`. -/
  | stopping (res : UInt8)
  /-- In `ble_updata_handler(UPDATA_WAIT_REBOOT)`. -/
  | waiting
  | disconnecting (result : Result)
  | returned (result : Result)
deriving DecidableEq

structure Session where
  dev  : Dev
  ctl  : Control
  task : Task

def Session.init : Session := ⟨.init, ⟨.stop, false⟩, .idle⟩

/-- What leaves the device. -/
inductive Tell where
  /-- `JL_controller_resp_udpate_status_request`. -/
  | status (code : UInt8)
  | statusReply (code : UInt8)
  | rebootReply (status : RebootStatus)
  | stop
  | disconnect
deriving DecidableEq

inductive SessionEv where
  | conn (e : ConnState)
  | statusReq
  | rebootReq
  /-- A read of the update arms the command, and an answer comes. -/
  | request
  | answer
  /-- `ble_updata_run` calls `ble_updata_process`. -/
  | process
  /-- The steps of the update have given these answers. -/
  | steps (E : Steps)
  | poll
  | timeout
  /-- The last packet is out. -/
  | drained

/-- `ble_updata_process` from where `ble_updata_loop` has returned. -/
def leaveLoop (s : Session) (res : UInt8) : Session :=
  if loopResult res = .succ then
    let d := { s.dev with rebootStatus := .ready }
    if d.uBleStatus = .bfuUpdateLoop ∨ d.uBleStatus = .disconnectionCompleted then
      ⟨{ d with uBleStatus := .waitForReboot }, ⟨.waitReboot, false⟩, .waiting⟩
    else ⟨d, s.ctl, .idle⟩
  else ⟨{ s.dev with uLedStatus := .ledFilcker, uBleStatus := .devSleep }, s.ctl, .idle⟩

/-- `ble_updata_rsp_complete` and `update_result_handle`, up to the wait in `ble_updata_stop`. -/
def report (s : Session) (res : UInt8) : Session × List Tell :=
  if s.dev.uBleStatus = .bfuUpdateLoop then
    let s := { s with ctl := ⟨.stop, false⟩ }
    if updateResultHandle res < deviceUpdateStaMaxErr then ({ s with task := .stopping res }, [.stop])
    else (leaveLoop s res, [.stop])
  else (leaveLoop s res, [])

/-- The wait for the status request is over. -/
def stopped (s : Session) (res : UInt8) : Session × List Tell :=
  (leaveLoop s res, [.status (updateResultHandle res)])

def session : Machine Session SessionEv (List Tell) where
  step s e :=
    match e, s.task with
    | .conn e, _                     => some ({ s with dev := devConnStateChangeHandle s.dev e }, [])
    | .statusReq, _                  =>
      let r := devUpdateStatusReqHandle s.ctl
      some ({ s with ctl := r.1 }, [.statusReply r.2])
    | .rebootReq, _                  =>
      let r := jlUpdateGetRebootSta s.ctl s.dev.rebootStatus
      some ({ s with ctl := r.1 }, [.rebootReply r.2])
    | .request, .updating            => some ({ s with ctl := ⟨.read, false⟩ }, [])
    | .answer, _                     =>
      some ({ s with ctl := if s.ctl.btupdataSw = .read then .accepted else s.ctl }, [])
    | .process, .idle                =>
      if s.dev.uBleStatus = .bfuUpdateLoop then
        some ({ s with dev := { s.dev with uLedStatus := .ledSign, rebootStatus := .notAllow }, task := .updating }, [])
      else some (s, [])
    | .steps E, .updating            => some (report s (loopSteps E).1)
    | .poll, .stopping res           => if handlerReturns s.ctl s.dev then some (stopped s res) else some (s, [])
    | .timeout, .stopping res        => some (stopped s res)
    | .poll, .waiting                =>
      if handlerReturns s.ctl s.dev then some ({ s with task := .disconnecting .succ }, []) else some (s, [])
    | .timeout, .waiting             => some ({ s with task := .disconnecting .succ }, [])
    | .drained, .disconnecting r     =>
      let d := { s.dev with uBleStatus := .disconnectionCompleted }
      if r = .keyErr ∨ r = .succ then some ({ s with dev := d, task := .returned r }, [.disconnect])
      else some ({ s with dev := { d with uLedStatus := .ledFilcker }, task := .idle }, [.disconnect])
    | _, _                           => none

/-! ## What the peer is told -/

theorem updateAllFlash_eq (E : Steps) :
    (updateAllFlash E).1 = firstError
      [if E.updateTypeCheck = updateErrUbootNotMatch then updateErrNone else E.updateTypeCheck,
        if E.notified = false then updateErrConnErr else updateErrNone, E.flashUpdateProcess, E.flashAllDataVerify,
        E.flashUpdateReserveArea] := by
  unfold updateAllFlash
  rw [Update.firstError_cons, Update.firstError_cons, Update.firstError_cons, Update.firstError_cons,
    Update.firstError_single]
  by_cases ht : E.updateTypeCheck ≠ updateErrNone ∧ E.updateTypeCheck ≠ updateErrUbootNotMatch
  · rw [if_pos ht, if_neg ht.2, if_pos ht.1]
  · have hok : (if E.updateTypeCheck = updateErrUbootNotMatch then updateErrNone else E.updateTypeCheck) =
        updateErrNone := by
      split
      · rfl
      · rename_i hu
        exact Classical.byContradiction (fun hn => ht ⟨hn, hu⟩)
    rw [if_neg ht, hok, if_neg (not_not.2 rfl)]
    by_cases hn : E.notified = false
    · rw [if_pos hn, if_pos hn, if_pos (by decide)]
    · rw [if_neg hn, if_neg hn, if_neg (not_not.2 rfl)]
      split
      · rfl
      · split <;> rfl

/-- **The first step that fails decides** the result. -/
theorem loopSteps_eq (E : Steps) : (loopSteps E).1 = firstError (codes E) := by
  unfold loopSteps codes
  rw [Update.firstError_cons]
  by_cases hh : E.ufwHeadCheck ≠ updateErrNone
  · rw [if_pos hh, if_pos hh]
  rw [if_neg hh, if_neg hh]
  by_cases hp : E.updatePartFlag = updatePartAllFlash
  · rw [if_pos hp, if_pos hp, Update.firstError_cons, ← updateAllFlash_eq]
    split <;> rfl
  · rw [if_neg hp, if_neg hp, Update.firstError_single]

/-- Every code can be told, and only a success is told as one. -/
theorem updateResultHandle_told (err : UInt8) : updateResultHandle err < deviceUpdateStaMaxErr ∧
    (updateResultHandle err = deviceUpdateStaSuccess ↔ err = updateErrNone) := by
  unfold updateResultHandle
  by_cases h0 : err = updateErrNone
  · rw [if_pos h0]
    exact ⟨by decide, iff_of_true rfl h0⟩
  · rw [if_neg h0]
    repeat' split
    all_goals exact ⟨by decide, iff_of_false (by decide) h0⟩

/-- The steps of the last update that has come to a result, and nothing while one is running. -/
def logAfter (s : Session) (log : Option Steps) : SessionEv → Option Steps
  | .process => if s.task = .idle ∧ s.dev.uBleStatus = .bfuUpdateLoop then none else log
  | .steps E => some E
  | _        => log

def logged : Machine (Session × Option Steps) SessionEv (List Tell) where
  step p e :=
    (session.step p.1 e).map fun r => ((r.1, logAfter p.1 p.2 e), r.2)

/-- The last update has come to a result, and none of its steps has failed. -/
def Passed (log : Option Steps) : Prop := ∃ E, log = some E ∧ firstError (codes E) = updateErrNone

/-- What may be told: the code of the first step that has failed, once for each update, and a reboot exactly after an
update in which none has. -/
def Tell.Holds (s : Session) (log : Option Steps) (s' : Session) : Tell → Prop
  | .status code        => ∃ E, log = some E ∧ code = updateResultHandle (firstError (codes E)) ∧
      (code = deviceUpdateStaSuccess ↔ Passed log) ∧ s.task = .stopping (firstError (codes E)) ∧
        ∀ res, s'.task ≠ .stopping res
  | .statusReply code   => code ≠ deviceUpdateStaSuccess
  | .rebootReply r      => r = .ready ↔ Passed log ∧ ∀ res, s.task ≠ .stopping res
  | .stop               => s.task = .updating
  | .disconnect         => Passed log ∧ s'.task = .returned .succ

def Told (p : Session × Option Steps) (_ : SessionEv) (p' : Session × Option Steps) (o : List Tell) : Prop :=
  ∀ t ∈ o, t.Holds p.1 p.2 p'.1

/-- What each place of the task says about the log. -/
structure Truthful (p : Session × Option Steps) : Prop where
  updating : p.1.task = .updating → p.2 = none
  stopping : ∀ res, p.1.task = .stopping res →
    (∃ E, p.2 = some E ∧ res = firstError (codes E)) ∧ p.1.dev.rebootStatus = .notAllow
  ready    : (∀ res, p.1.task ≠ .stopping res) → (p.1.dev.rebootStatus = .ready ↔ Passed p.2)
  leaving  : ∀ r, p.1.task = .disconnecting r → r = .succ
  passed   : p.1.task = .waiting ∨ (∃ r, p.1.task = .disconnecting r) → Passed p.2

theorem passed_some (E : Steps) : Passed (some E) ↔ firstError (codes E) = updateErrNone :=
  ⟨fun ⟨_, h, h0⟩ => Option.some.inj h ▸ h0, fun h0 => ⟨E, rfl, h0⟩⟩

theorem not_passed_none : ¬ Passed none := fun ⟨_, h, _⟩ => nomatch h

@[simp] theorem rebootStatus_handle (d : Dev) (e : ConnState) :
    (devConnStateChangeHandle d e).rebootStatus = d.rebootStatus := by
  cases e <;> rfl

/-- Events and requests leave the task and the reboot status alone. -/
theorem Truthful.of_same {p p' : Session × Option Steps} (h : Truthful p) (ht : p'.1.task = p.1.task)
    (hr : p'.1.dev.rebootStatus = p.1.dev.rebootStatus) (hl : p'.2 = p.2) : Truthful p' where
  updating := by rw [ht, hl]; exact h.updating
  stopping := by rw [ht, hr, hl]; exact h.stopping
  ready    := by rw [ht, hr, hl]; exact h.ready
  leaving  := by rw [ht]; exact h.leaving
  passed   := by rw [ht, hl]; exact h.passed

theorem loopResult_succ (res : UInt8) : loopResult res = .succ ↔ res = updateErrNone := by
  unfold loopResult
  constructor
  · intro h
    split at h
    · assumption
    · split at h <;> cases h
  · intro h
    rw [if_pos h]

/-- **Where `ble_updata_loop` returns to**: the reboot is allowed exactly after a success, and is waited for only then. -/
theorem leaveLoop_truthful (E : Steps) {s : Session} (hs : s.dev.rebootStatus = .notAllow) :
    Truthful (leaveLoop s (firstError (codes E)), some E) ∧
      ∀ res, (leaveLoop s (firstError (codes E))).task ≠ .stopping res := by
  have hsucc : loopResult (firstError (codes E)) = .succ ↔ Passed (some E) := by
    rw [passed_some, loopResult_succ]
  unfold leaveLoop
  by_cases h : loopResult (firstError (codes E)) = .succ
  · have hp := hsucc.1 h
    rw [if_pos h]
    dsimp only
    split
    · exact ⟨⟨nofun, nofun, fun _ => iff_of_true rfl hp, nofun, fun _ => hp⟩, nofun⟩
    · refine ⟨⟨nofun, nofun, fun _ => iff_of_true rfl hp, nofun, fun _ => hp⟩, nofun⟩
  · rw [if_neg h]
    refine ⟨⟨nofun, nofun, fun _ => iff_of_false ?_ (fun hp => h (hsucc.2 hp)), nofun, fun hw => ?_⟩, nofun⟩
    · dsimp only
      rw [hs]
      decide
    · rcases hw with hw | ⟨r, hw⟩ <;> cases hw

/-- The session goes on to the wait for the reboot exactly where `bleUpdataProcess` returns something. -/
theorem leaveLoop_ret {d : Dev} {s : Session} {during : List ConnState} (res : UInt8) (hd : d.uBleStatus = .bfuUpdateLoop)
    (hs : s.dev = during.foldl devConnStateChangeHandle { d with uLedStatus := .ledSign, rebootStatus := .notAllow }) :
    (bleUpdataProcess d (loopResult res) during).2.2 =
      if (leaveLoop s res).task = .waiting then some .succ else none := by
  unfold bleUpdataProcess leaveLoop finish
  rw [if_pos hd]
  dsimp only
  rw [← hs]
  by_cases h : loopResult res = .succ
  · simp only [h, if_true]
    split <;> rfl
  · simp only [h, if_false]
    rfl

/-- What a request about the reboot is answered. -/
theorem Truthful.reboot {s : Session} {log : Option Steps} (h : Truthful (s, log)) :
    s.dev.rebootStatus = .ready ↔ Passed log ∧ ∀ res, s.task ≠ .stopping res := by
  by_cases hst : ∃ res, s.task = .stopping res
  · obtain ⟨res, hst⟩ := hst
    refine iff_of_false (fun hr => ?_) (fun hp => hp.2 res hst)
    have hno : s.dev.rebootStatus = .notAllow := (h.stopping res hst).2
    rw [hno] at hr
    cases hr
  · have hst' : ∀ res, s.task ≠ .stopping res := fun res hr => hst ⟨res, hr⟩
    rw [and_iff_left hst']
    exact h.ready hst'

/-- The wait for the reboot command is over. -/
theorem Truthful.waited {s : Session} {log : Option Steps} (h : Truthful (s, log)) (ht : s.task = .waiting) :
    Truthful ({ s with task := .disconnecting .succ }, log) where
  updating := nofun
  stopping := nofun
  ready    := fun _ => h.ready (fun res hr => nomatch ht.symm.trans hr)
  leaving  := fun _ hr => by
    cases hr
    rfl
  passed   := fun _ => h.passed (.inl ht)

/-- The steps have come to a result, and the task has not waited yet. -/
theorem report_told {s : Session} {log : Option Steps} (h : Truthful (s, log)) (ht : s.task = .updating) (E : Steps) :
    Truthful ((report s (loopSteps E).1).1, some E) ∧
      ∀ t ∈ (report s (loopSteps E).1).2, t.Holds s log (report s (loopSteps E).1).1 := by
  have hno : s.dev.rebootStatus = .notAllow := by
    have hnone : log = none := h.updating ht
    have hready := h.ready (fun res hr => nomatch ht.symm.trans hr)
    dsimp only at hready
    rw [hnone, iff_false_right not_passed_none] at hready
    cases hr : s.dev.rebootStatus with
    | ready    => exact absurd hr hready
    | notAllow => rfl
  rw [loopSteps_eq]
  unfold report
  by_cases hb : s.dev.uBleStatus = .bfuUpdateLoop
  · rw [if_pos hb, if_pos (updateResultHandle_told _).1]
    refine ⟨⟨nofun, fun res hres => ⟨⟨E, rfl, ?_⟩, hno⟩, fun hres => absurd rfl (hres _), nofun, ?_⟩, fun t hmem => ?_⟩
    · cases hres
      rfl
    · rintro (hw | ⟨r, hw⟩) <;> cases hw
    · obtain rfl := List.mem_singleton.1 hmem
      exact ht
  · rw [if_neg hb]
    exact ⟨(leaveLoop_truthful E hno).1, nofun⟩

/-- The wait for the status request ends: the code is told, and the loop is left. -/
theorem stopped_told {s : Session} {log : Option Steps} {res : UInt8} (h : Truthful (s, log))
    (ht : s.task = .stopping res) : Truthful ((stopped s res).1, log) ∧
      ∀ t ∈ (stopped s res).2, t.Holds s log (stopped s res).1 := by
  obtain ⟨⟨E, hlog, rfl⟩, hno⟩ := h.stopping res ht
  dsimp only at hlog
  subst hlog
  have hleave := leaveLoop_truthful E hno
  refine ⟨hleave.1, fun t hmem => ?_⟩
  obtain rfl := List.mem_singleton.1 hmem
  refine ⟨E, rfl, rfl, ?_, ht, hleave.2⟩
  rw [passed_some]
  exact (updateResultHandle_told _).2

/-- **A step tells the truth**, whatever comes in. -/
theorem step_told {p p' : Session × Option Steps} {e : SessionEv} {o : List Tell} (h : Truthful p)
    (hs : logged.step p e = some (p', o)) : Truthful p' ∧ Told p e p' o := by
  obtain ⟨⟨s', o'⟩, hstep, heq⟩ := Option.map_eq_some_iff.1 hs
  cases heq
  obtain ⟨s, log⟩ := p
  unfold session at hstep
  dsimp only at hstep
  split at hstep
  case h_1 =>
    cases hstep
    exact ⟨h.of_same rfl (rebootStatus_handle ..) rfl, nofun⟩
  case h_2 =>
    cases hstep
    refine ⟨h.of_same rfl rfl rfl, fun t ht => ?_⟩
    obtain rfl := List.mem_singleton.1 ht
    exact nofun
  case h_3 =>
    cases hstep
    refine ⟨h.of_same rfl rfl rfl, fun t ht => ?_⟩
    obtain rfl := List.mem_singleton.1 ht
    exact h.reboot
  case h_4 =>
    cases hstep
    exact ⟨h.of_same rfl rfl rfl, nofun⟩
  case h_5 =>
    cases hstep
    exact ⟨h.of_same rfl rfl rfl, nofun⟩
  case h_6 ht =>
    dsimp only [logAfter]
    split at hstep
    case isTrue hb =>
      cases hstep
      rw [if_pos ⟨ht, hb⟩]
      refine ⟨⟨fun _ => rfl, nofun, fun _ => iff_of_false nofun not_passed_none, nofun, ?_⟩, nofun⟩
      rintro (hw | ⟨r, hw⟩) <;> cases hw
    case isFalse hb =>
      cases hstep
      rw [if_neg (fun hc => hb hc.2)]
      exact ⟨h, nofun⟩
  case h_7 E ht =>
    obtain ⟨rfl, rfl⟩ : s' = _ ∧ o' = _ := Prod.ext_iff.1 (Option.some.inj hstep).symm
    exact report_told h ht E
  case h_8 res ht =>
    split at hstep <;> cases hstep
    · exact stopped_told h ht
    · exact ⟨h, nofun⟩
  case h_9 res ht =>
    cases hstep
    exact stopped_told h ht
  case h_10 ht =>
    split at hstep <;> cases hstep
    · exact ⟨h.waited ht, nofun⟩
    · exact ⟨h, nofun⟩
  case h_11 ht =>
    cases hstep
    exact ⟨h.waited ht, nofun⟩
  case h_12 r ht =>
    obtain rfl : r = .succ := h.leaving r ht
    have hp : Passed log := h.passed (.inr ⟨_, ht⟩)
    have hready : s.dev.rebootStatus = .ready := (h.ready (fun res hr => nomatch ht.symm.trans hr)).2 hp
    rw [if_pos (.inr rfl)] at hstep
    cases hstep
    refine ⟨⟨nofun, nofun, fun _ => iff_of_true hready hp, nofun, ?_⟩, fun t hmem => ?_⟩
    · rintro (hw | ⟨r, hw⟩) <;> cases hw
    · obtain rfl := List.mem_singleton.1 hmem
      exact ⟨hp, rfl⟩
  case h_13 => cases hstep

theorem init_truthful : Truthful (.init, none) where
  updating := nofun
  stopping := nofun
  ready    := fun _ => iff_of_false nofun not_passed_none
  leaving  := nofun
  passed   := by rintro (hw | ⟨r, hw⟩) <;> cases hw

/-- **The peer is told the truth**, in every run: each status that the device sends is the code of the first step of
the last update that has failed, is a success exactly if none has, and ends the wait for it; a request for the reboot
is allowed exactly when the last update has come to a success that has been told; and the device leaves only then. -/
theorem peer_told (es : List SessionEv) : logged.Along Told (.init, none) es :=
  Machine.along_of_inv (C := fun _ _ _ _ => True) Truthful (fun _ _ _ _ h hs _ => step_told h hs) es _ init_truthful
    (Machine.along_of_forall (P := fun _ => True) (fun _ _ _ _ _ => trivial) es _ (fun _ _ => trivial))

end Ble
end OtaLoader
