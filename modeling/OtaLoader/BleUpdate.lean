import OtaLoader.Machine
/-!
# BleUpdate — how the result of an update reaches `ble_updata_run` (`update_main.c`)

`ble_updata_process` runs `ble_updata_loop` when an update has started, and passes its result on through a switch on
`u_ble_status`, which it has overwritten after a failure and which connection events may have changed meanwhile.
`ble_updata_run` calls it until it returns something.
-/
namespace OtaLoader
namespace Ble

/-! ## The code -/

/-- `_UPDATA_STATUS`. -/
inductive Status where
  | devSleep
  | devDisconnection
  | disconnectionCompleted
  | devConnection
  | readyUpdate
  | bfuUpdateLoop
  | waitForReboot
deriving DecidableEq

inductive LedStatus where
  | ledOpen
  | ledSign
  | ledFilcker
deriving DecidableEq

inductive RebootStatus where
  | ready
  | notAllow
deriving DecidableEq

/-- `UPDATA_RESULT`. -/
inductive Result where
  | succ
  | fail
  | noUpdataDev
  | powerBtUpdata
  | keyErr
deriving DecidableEq

/-- `DEV_CONN_STATE_*`. -/
inductive ConnState where
  | disconnected
  | connected
  | readyUpdate
  | startUpdate
deriving DecidableEq

inductive Call where
  | waitRebootCmd
  | waitDisconnect
deriving DecidableEq

structure Dev where
  uBleStatus   : Status
  uLedStatus   : LedStatus
  rebootStatus : RebootStatus
deriving DecidableEq

def Dev.init : Dev := ⟨.devSleep, .ledFilcker, .notAllow⟩

def devConnStateChangeHandle (d : Dev) : ConnState → Dev
  | .readyUpdate  => { d with uBleStatus := .readyUpdate }
  | .disconnected => { d with uBleStatus := .disconnectionCompleted, uLedStatus := .ledFilcker }
  | .connected    => { d with uBleStatus := .devConnection }
  | .startUpdate  => { d with uBleStatus := .bfuUpdateLoop }

/-- The switch of `ble_updata_process`, with its calls and what is returned (`none` for 0). -/
def finish (d : Dev) (result : Result) : Dev × List Call × Option Result :=
  if d.uBleStatus = .bfuUpdateLoop ∨ d.uBleStatus = .disconnectionCompleted then
    let calls := if result = .succ then [.waitRebootCmd, .waitDisconnect] else [.waitDisconnect]
    -- the status passes through UPDATA_STA_WAIT_FOR_REBOOT after a success
    let d := { d with uBleStatus := .disconnectionCompleted }
    if result = .keyErr ∨ result = .succ then (d, calls, some result)
    else ({ d with uLedStatus := .ledFilcker }, calls, none)
  else (d, [], none)

/-- `ble_updata_process`, when `ble_updata_loop` answers `result` and the events `during` come while it runs. -/
def bleUpdataProcess (d : Dev) (result : Result) (during : List ConnState) : Dev × List Call × Option Result :=
  if d.uBleStatus = .bfuUpdateLoop then
    let d := { d with uLedStatus := .ledSign, rebootStatus := .notAllow }
    let d := during.foldl devConnStateChangeHandle d
    if result = .succ then finish { d with rebootStatus := .ready } result
    else finish { d with uLedStatus := .ledFilcker, uBleStatus := .devSleep } result
  else (d, [], none)

/-! ## Runs of `ble_updata_run` -/

/-- A round of the endless loop: events before the call, and what happens in it. -/
structure Round where
  before : List ConnState
  result : Result
  during : List ConnState

/-- `res` is what `ble_updata_run` has returned. -/
structure State where
  dev : Dev
  res : Option Result

def called (s : State) (r : Round) : Dev := r.before.foldl devConnStateChangeHandle s.dev

/-- A step shows what `ble_updata_process` has returned.  Once it is not 0 the loop has been left. -/
def machine : Machine State Round (Option Result) where
  step s r :=
    if s.res = none then
      let p := bleUpdataProcess (called s r) r.result r.during
      some (⟨p.1, p.2.2⟩, p.2.2)
    else none

/-- `ble_updata_loop` runs in this round. -/
def Updates (s : State) (r : Round) : Prop := (called s r).uBleStatus = .bfuUpdateLoop

/-- A success or a key error is returned by `ble_updata_process`, and `ble_updata_run` ends with it. -/
def Propagates (s : State) (r : Round) (s' : State) (o : Option Result) : Prop :=
  Updates s r → r.result = .succ ∨ r.result = .keyErr → o = some r.result ∧ s'.res = some r.result

/-- No key error, and a success during which the last event, if any, was a start or a disconnection. -/
def Heard (s : State) (r : Round) : Prop :=
  Updates s r → r.result ≠ .keyErr ∧
    (r.result = .succ → ∀ e, r.during.getLast? = some e → e = .startUpdate ∨ e = .disconnected)

/-- The status an event sets. -/
def ConnState.status : ConnState → Status
  | .readyUpdate  => .readyUpdate
  | .disconnected => .disconnectionCompleted
  | .connected    => .devConnection
  | .startUpdate  => .bfuUpdateLoop

theorem uBleStatus_handle (d : Dev) (e : ConnState) : (devConnStateChangeHandle d e).uBleStatus = e.status := by
  cases e <;> rfl

/-- **The last event decides the status.** -/
theorem uBleStatus_foldl (es : List ConnState) (d : Dev) :
    (es.foldl devConnStateChangeHandle d).uBleStatus = (es.getLast?.map ConnState.status).getD d.uBleStatus := by
  rcases List.eq_nil_or_concat es with rfl | ⟨es, e, rfl⟩
  · rfl
  · rw [List.concat_eq_append, List.foldl_append, List.getLast?_concat]
    exact uBleStatus_handle _ e

theorem status_mem_iff (e : ConnState) :
    (e.status = .bfuUpdateLoop ∨ e.status = .disconnectionCompleted) ↔ (e = .startUpdate ∨ e = .disconnected) := by
  cases e <;> decide

theorem finish_ret {d : Dev} {result : Result} (hr : result = .succ ∨ result = .keyErr) :
    (finish d result).2.2 = some result ↔ d.uBleStatus = .bfuUpdateLoop ∨ d.uBleStatus = .disconnectionCompleted := by
  unfold finish
  constructor
  · intro h
    split at h
    · assumption
    · cases h
  · intro h
    rw [if_pos h]
    dsimp only
    rw [if_pos hr.symm]

/-- **A success is returned** exactly when the last event was a start or a disconnection, **a key error** never. -/
theorem bleUpdataProcess_ret {d : Dev} {result : Result} (during : List ConnState)
    (hd : d.uBleStatus = .bfuUpdateLoop) (hr : result = .succ ∨ result = .keyErr) :
    (bleUpdataProcess d result during).2.2 = some result ↔
      result ≠ .keyErr ∧ ∀ e, during.getLast? = some e → e = .startUpdate ∨ e = .disconnected := by
  unfold bleUpdataProcess
  rw [if_pos hd]
  dsimp only
  rcases hr with rfl | rfl
  · rw [if_pos rfl, finish_ret (.inl rfl), uBleStatus_foldl]
    cases during.getLast? with
    | none   => simp [hd]
    | some e => simpa using status_mem_iff e
  · rw [if_neg (by decide), finish_ret (.inr rfl)]
    simp

/-- **Which results are recorded**: every success and key error of `ble_updata_loop` ends the run with that value
exactly in the runs without a key error in which no success comes with a connection, or a ready peer, as the last
event. -/
theorem run_propagates_iff (d : Dev) (rs : List Round) :
    machine.Along Propagates ⟨d, none⟩ rs ↔ machine.Along (fun s r _ _ => Heard s r) ⟨d, none⟩ rs := by
  refine Machine.along_iff (fun _ => True) (fun s r s' o _ hs => ⟨trivial, ?_⟩) rs _ trivial
  have hstep : o = (bleUpdataProcess (called s r) r.result r.during).2.2 ∧ s'.res = o := by
    simp only [machine] at hs
    split at hs
    · cases hs
      exact ⟨rfl, rfl⟩
    · cases hs
  obtain ⟨ho, hres⟩ := hstep
  rw [Propagates, Heard, hres, and_self, ho]
  refine forall_congr' (fun hup => ?_)
  constructor
  · intro h
    refine ⟨fun hk => ?_, fun hsucc => ?_⟩
    · exact ((bleUpdataProcess_ret r.during hup (.inr hk)).1 (h (.inr hk))).1 hk
    · exact ((bleUpdataProcess_ret r.during hup (.inl hsucc)).1 (h (.inl hsucc))).2
  · rintro ⟨hk, hsucc⟩ hr
    have hs : r.result = .succ := hr.resolve_right hk
    exact (bleUpdataProcess_ret r.during hup hr).2 ⟨hk, hsucc hs⟩

/-- **A key error is lost**: the status is SLEEP when the switch looks for it, and the run goes on. -/
theorem not_run_propagates : ¬ ∀ rs, machine.Along Propagates ⟨.init, none⟩ rs := by
  intro h
  have hstep := (h [⟨[.startUpdate], .keyErr, []⟩] ⟨⟨.devSleep, .ledFilcker, .notAllow⟩, none⟩ none rfl).1
  cases (hstep rfl (.inr rfl)).1

end Ble
end OtaLoader
