import OtaLoader.Machine
/-!
# BleServer — the connection handle and the work state (`ble_rcsp_server.c`)

`cbk_packet_handler` and `att_write_callback` keep a handle and a work state, which `set_adv_enable` and
`ble_disconnect` test.  Whether the two agree is what makes the device discoverable again.
-/
namespace OtaLoader
namespace BleServer

/-! ## The code -/

/-- `ble_state_e`. -/
inductive BleState where
  | null
  | initOk
  | idle
  | adv
  | connect
  | sendDisconn
  | notifyIdicate
  | scan
  | searchComplete
deriving DecidableEq

inductive Ret where
  | noError
  | operationError
deriving DecidableEq

/-- The commands given to the stack. -/
inductive Cmd where
  | attSendInit (handle : UInt16) (buffer : Bool)
  | attMtuSize (mtu : Nat)
  | reqConnParamUpdate (handle : UInt16) (tableIndex : UInt8)
  | advSetup
  | advEnable (en : Bool)
  | disconnect (handle : UInt16)
deriving DecidableEq

structure Dev where
  conHandle           : UInt16
  bleWorkState        : BleState
  connectionUpdateCnt : UInt8

def connParamTableCnt : UInt8 := 3

def setAdvEnable (d : Dev) (en : Bool) : Dev × List Cmd × Ret :=
  if d.conHandle ≠ 0 then (d, [], .operationError)
  else
    let next := if en then BleState.adv else .idle
    match d.bleWorkState with
    | .adv | .idle | .initOk | .null =>
      if d.bleWorkState = next then (d, [], .noError)
      else ({ d with bleWorkState := next }, (if en then [.advSetup] else []) ++ [.advEnable en], .noError)
    | _ => (d, [], .operationError)

def bleDisconnect (d : Dev) : Dev × List Cmd × Ret :=
  if d.conHandle ≠ 0 then ({ d with bleWorkState := .sendDisconn }, [.disconnect d.conHandle], .noError)
  else (d, [], .operationError)

def checkConnetionUpdataDeal (d : Dev) : List Cmd :=
  if d.connectionUpdateCnt < connParamTableCnt ∧ d.conHandle ≠ 0 then
    [.reqConnParamUpdate d.conHandle d.connectionUpdateCnt]
  else []

/-- The events that `cbk_packet_handler` acts on, with the fields of their packets. -/
inductive Packet where
  | connectionComplete (status : UInt8) (handle : UInt16)
  | connectionUpdateComplete
  | disconnectionComplete (reason : UInt8)
  | canSendNow
  | mtuExchangeComplete (mtu : Nat)
  | parameterUpdateResponse (result : UInt16)
  | encryptionChange
  | remoteTest

def cbkPacketHandler (d : Dev) : Packet → Dev × List Cmd
  | .connectionComplete _ handle    =>
    -- the status is not looked at
    ({ d with conHandle := handle, bleWorkState := .connect }, [.attSendInit handle true])
  | .disconnectionComplete _        =>
    let r := setAdvEnable { d with conHandle := 0, bleWorkState := .idle } true
    ({ r.1 with connectionUpdateCnt := 0 }, .attSendInit 0 false :: r.2.1)
  | .mtuExchangeComplete mtu        => (d, [.attMtuSize (mtu - 3)])
  | .parameterUpdateResponse result =>
    if result ≠ 0 then
      let d := { d with connectionUpdateCnt := d.connectionUpdateCnt + 1 }
      (d, checkConnetionUpdataDeal d)
    else ({ d with connectionUpdateCnt := connParamTableCnt }, [])
  | _                               => (d, [])

/-- `att_write_callback` for a write of the client configuration. -/
def attWriteCallback (d : Dev) : Dev := { d with bleWorkState := .notifyIdicate }

/-- `bt_ble_init`. -/
def btBleInit : Dev := (setAdvEnable ⟨0, .initOk, 0⟩ true).1

/-! ## Runs -/

/-- The server and whether a link is up. -/
structure State where
  dev  : Dev
  link : Bool

def State.init : State := ⟨btBleInit, false⟩

inductive Ev where
  | packet (p : Packet)
  | writeCcc
  | setAdvEnable (en : Bool)
  | bleDisconnect

/-- A connection without an error brings a link up, a disconnection takes it down. -/
def linked (link : Bool) : Packet → Bool
  | .connectionComplete status _ => link || status == 0
  | .disconnectionComplete _     => false
  | _                            => link

def machine : Machine State Ev (List Cmd) where
  step s
    | .packet p        => some (⟨(cbkPacketHandler s.dev p).1, linked s.link p⟩, (cbkPacketHandler s.dev p).2)
    | .writeCcc        => if s.link then some (⟨attWriteCallback s.dev, s.link⟩, []) else none
    | .setAdvEnable en => some (⟨(setAdvEnable s.dev en).1, s.link⟩, (setAdvEnable s.dev en).2.1)
    | .bleDisconnect   => some (⟨(bleDisconnect s.dev).1, s.link⟩, (bleDisconnect s.dev).2.1)

def Busy (d : Dev) : Prop :=
  d.bleWorkState = .connect ∨ d.bleWorkState = .notifyIdicate ∨ d.bleWorkState = .sendDisconn

def Free (d : Dev) : Prop :=
  d.bleWorkState = .null ∨ d.bleWorkState = .initOk ∨ d.bleWorkState = .idle ∨ d.bleWorkState = .adv

/-- The handle and the work state agree, and without a link advertising can be enabled. -/
structure Consistent (s : State) : Prop where
  busy         : s.dev.conHandle ≠ 0 ↔ Busy s.dev
  free         : s.dev.conHandle = 0 ↔ Free s.dev
  discoverable : s.link = false → (setAdvEnable s.dev true).2.2 = .noError

/-- A connection has a handle other than 0, and, while no link is up, no error. -/
def Connects (s : State) : Ev → Prop
  | .packet (.connectionComplete status handle) => handle ≠ 0 ∧ (status = 0 ∨ s.link = true)
  | _                                           => True

/-- The handle is set while a link is up, and agrees with the work state. -/
structure Agrees (s : State) : Prop where
  linked : s.link = true ↔ s.dev.conHandle ≠ 0
  busy   : s.dev.conHandle ≠ 0 → Busy s.dev
  free   : s.dev.conHandle = 0 → Free s.dev

theorem Busy.not_free {d : Dev} (h : Busy d) : ¬ Free d := by
  rcases h with h | h | h <;> simp [Free, h]

theorem setAdvEnable_free {d : Dev} (h0 : d.conHandle = 0) (hf : Free d) (en : Bool) :
    (setAdvEnable d en).1.conHandle = 0 ∧ Free (setAdvEnable d en).1 ∧ (setAdvEnable d en).2.2 = .noError := by
  unfold setAdvEnable
  rw [if_neg (not_not.2 h0)]
  have hnext : (if en then BleState.adv else .idle) = .idle ∨ (if en then BleState.adv else .idle) = .adv := by
    cases en
    · exact .inl rfl
    · exact .inr rfl
  dsimp only
  rcases hf with h | h | h | h <;> rw [h] <;> dsimp only <;> split
  all_goals first
    | exact ⟨h0, .inr (.inr hnext), rfl⟩
    | (refine ⟨h0, ?_, rfl⟩; simp [Free, h])

theorem setAdvEnable_busy {d : Dev} (h : d.conHandle ≠ 0) (en : Bool) : setAdvEnable d en = (d, [], .operationError) :=
  if_pos h

theorem Agrees.consistent {s : State} (h : Agrees s) : Consistent s := by
  refine ⟨⟨h.busy, fun hb h0 => hb.not_free (h.free h0)⟩, ⟨h.free, fun hf => ?_⟩, fun hl => ?_⟩
  · exact Classical.byContradiction (fun h0 => (h.busy h0).not_free hf)
  · have h0 : s.dev.conHandle = 0 := Classical.byContradiction (fun hn => by
      rw [h.linked.2 hn] at hl
      cases hl)
    exact (setAdvEnable_free h0 (h.free h0) true).2.2

theorem agrees_init : Agrees .init := by
  obtain ⟨h0, hf, -⟩ := setAdvEnable_free (d := ⟨0, .initOk, 0⟩) rfl (.inr (.inl rfl)) true
  exact ⟨iff_of_false Bool.false_ne_true (not_not.2 h0), fun h => absurd h0 h, fun _ => hf⟩

/-- What a step leaves of handle and work state, a completed connection apart. -/
theorem agrees_step {s s' : State} {e : Ev} {o : List Cmd} (hs : Agrees s) (h : machine.step s e = some (s', o))
    (he : ∀ status handle, e ≠ .packet (.connectionComplete status handle)) : Agrees s' := by
  cases e with
  | packet p =>
    cases h
    cases p with
    | connectionComplete status handle => exact absurd rfl (he status handle)
    | disconnectionComplete reason =>
      obtain ⟨h0, hf, -⟩ := setAdvEnable_free (d := { s.dev with conHandle := 0, bleWorkState := .idle }) rfl
        (.inr (.inr (.inl rfl))) true
      exact ⟨iff_of_false Bool.false_ne_true (not_not.2 h0), fun h => absurd h0 h, fun _ => hf⟩
    | parameterUpdateResponse result =>
      simp only [cbkPacketHandler]
      split
      · exact ⟨hs.linked, hs.busy, hs.free⟩
      · exact ⟨hs.linked, hs.busy, hs.free⟩
    | _ => exact hs
  | writeCcc =>
    simp only [machine] at h
    split at h
    · rename_i hl
      cases h
      exact ⟨hs.linked, fun _ => .inr (.inl rfl), fun h0 => absurd h0 (hs.linked.1 hl)⟩
    · cases h
  | setAdvEnable en =>
    cases h
    by_cases h0 : s.dev.conHandle = 0
    · obtain ⟨h0', hf, -⟩ := setAdvEnable_free h0 (hs.free h0) en
      exact ⟨hs.linked.trans (by rw [h0, h0']), fun h => absurd h0' h, fun _ => hf⟩
    · rw [setAdvEnable_busy h0]
      exact hs
  | bleDisconnect =>
    cases h
    unfold bleDisconnect
    split
    · rename_i h0
      exact ⟨hs.linked, fun _ => .inr (.inr rfl), fun h => absurd h h0⟩
    · exact hs

/-- **A completed connection** keeps handle and work state consistent exactly when it is one. -/
theorem consistent_connectionComplete {s s' : State} {status : UInt8} {handle : UInt16} {o : List Cmd}
    (h : machine.step s (.packet (.connectionComplete status handle)) = some (s', o)) :
    (Consistent s' → handle ≠ 0 ∧ (status = 0 ∨ s.link = true)) ∧
      (handle ≠ 0 ∧ (status = 0 ∨ s.link = true) → Agrees s') := by
  cases h
  constructor
  · intro hc
    have h0 : handle ≠ 0 := hc.busy.2 (.inl rfl)
    refine ⟨h0, ?_⟩
    by_cases hst : status = 0
    · exact .inl hst
    · refine .inr (Classical.byContradiction (fun hl => ?_))
      have hdown : linked s.link (.connectionComplete status handle) = false := by
        simp [linked, hst, hl]
      have hadv := hc.discoverable hdown
      have hbusy := setAdvEnable_busy (d := (cbkPacketHandler s.dev (.connectionComplete status handle)).1) h0 true
      rw [hbusy] at hadv
      cases hadv
  · rintro ⟨h0, hup⟩
    have hlink : linked s.link (.connectionComplete status handle) = true := by
      rcases hup with rfl | hl
      · simp [linked]
      · simp [linked, hl]
    exact ⟨iff_of_true hlink h0, fun _ => .inl rfl, fun h => absurd h h0⟩

/-- **Handle and work state agree**, and without a link advertising can be enabled, in every state of exactly the runs
in which every connection that is completed has a handle other than 0 and fails only while a link is up. -/
theorem consistent_iff (es : List Ev) :
    Consistent .init ∧ (machine.Along (fun _ _ s _ => Consistent s) .init es ↔
      machine.Along (fun s e _ _ => Connects s e) .init es) := by
  refine ⟨agrees_init.consistent, Machine.along_iff_while Agrees (fun s e s' o hs h => ?_) es _ agrees_init⟩
  by_cases he : ∃ status handle, e = .packet (.connectionComplete status handle)
  · obtain ⟨status, handle, rfl⟩ := he
    obtain ⟨hto, hof⟩ := consistent_connectionComplete h
    exact ⟨⟨hto, fun hc => (hof hc).consistent⟩, hof⟩
  · have hs' := agrees_step hs h (fun status handle heq => he ⟨status, handle, heq⟩)
    have hc : Connects s e := by
      unfold Connects
      split
      · rename_i status handle
        exact absurd ⟨status, handle, rfl⟩ he
      · trivial
    exact ⟨iff_of_true hs'.consistent hc, fun _ => hs'⟩

/-- **A connection attempt that fails** leaves the work state at CONNECT with handle 0, and advertising cannot be enabled
again. -/
theorem not_consistent_failed : ¬ ∀ es, machine.Along (fun _ _ s _ => Consistent s) .init es := by
  intro h
  have hstep := (h [.packet (.connectionComplete 0x3e 0)] _ _ rfl).1
  have hret : Ret.operationError = .noError := hstep.discoverable rfl
  cases hret

end BleServer
end OtaLoader
