import OtaLoader.ApSession
/-!
# ApSem — the life of the read semaphore over all update attempts (net_update.c, CONFIG_WL_AP_ENABLE)

`net_ota_update` opens the control and the description server and then makes one attempt after another.  `read_sem` is
created by `net_f_open` for a port that is not listened on yet, and deleted by every `net_f_stop`; `msgsenddata` sets
and awaits it, `msgrecvmemcpy` posts it from the network callback.  `uses_valid_iff`: the first `net_f_stop` ends its
life for good.
-/
namespace OtaLoader
namespace Sem

open Session (Pcb netUpdatePort)

/-- What the task of `net_ota_update` is doing.  `closing` is `net_f_stop` between `os_sem_del` and its end; `stopping`
counts the packets it still sends. -/
inductive Phase where
  | ctpServer
  | httpServer (ctp : Bool)
  | attempt
  | otaWait
  | running
  | stopping (packets : Nat)
  | closing
  | reset
deriving DecidableEq

structure State where
  session      : Session.State
  netOtaListen : Bool
  /-- `os_sem_valid(&read_sem)` -/
  valid        : Bool
  phase        : Phase
  /-- some `net_f_stop` has gone past `os_sem_del` -/
  stopped      : Bool

def init : State := ⟨Session.init, false, false, .ctpServer, false⟩

/-- `ok` is whether the listening pcb can be had; `packet` is a call of `msgsenddata` that sends, `reply` a message that
`msgrecv` hands to `msgrecvmemcpy`, `httpMessage` one on port 8080; `client` is what happens to a connection. -/
inductive Event where
  | openCtp (ok : Bool)
  | openHttp (ok : Bool)
  | openOta (ok : Bool)
  | waitDone (timeout : Bool)
  | packet
  | stop (failed : Bool)
  | del
  | closed (success : Bool) (stale : Nat)
  | reply (pcb : Pcb)
  | httpMessage (pcb : Pcb)
  | client (e : Session.Event)

/-- `net_f_open` for a port that is not listened on: the semaphore is created if it is not valid. -/
def openPort (s : State) (ok : Bool) : State := if ok then { s with valid := true } else s

/-- The client events of the session machine; the OTA port takes connections once it is listened on. -/
def clientStep (s : State) (e : Session.Event) : Option State :=
  match e with
  | .accept pcb =>
    if pcb.localPort = netUpdatePort ∧ s.netOtaListen = false then none
    else (Session.step s.session e).map (fun r => { s with session := r.1 })
  | .close _ | .error _ => (Session.step s.session e).map (fun r => { s with session := r.1 })
  | .stop _ | .send     => none

def step (s : State) : Event → Option State
  | .openCtp ok => if s.phase = .ctpServer then some { openPort s ok with phase := .httpServer ok } else none
  | .openHttp ok =>
    match s.phase with
    | .httpServer ctp =>
      -- with neither server `net_ota_update` resets at once
      some { openPort s ok with phase := if ok = true ∨ ctp = true then .attempt else .reset }
    | _ => none
  | .openOta ok =>
    if s.phase = .attempt then
      if s.netOtaListen = true then some { s with phase := .otaWait }
      else if ok = true then some { openPort s true with netOtaListen := true, phase := .otaWait }
      else some s
    else none
  | .waitDone timeout =>
    if s.phase = .otaWait ∧ (timeout = true ∨ s.session.clientAccept ≠ 0) then
      if s.session.httpAccept = 0 ∨ timeout = true then some { s with phase := .attempt }
      else some { s with phase := .running }
    else none
  | .packet =>
    if s.session.clientPcb.isSome = true then
      match s.phase with
      | .running            => some s
      | .stopping (n + 1)   => some { s with phase := .stopping n }
      | _                   => none
    else none
  | .stop failed =>
    if s.phase = .running then
      some { s with phase := .stopping (if s.session.clientPcb = none then 0 else if failed = true then 1 else 2) }
    else none
  | .del =>
    match s.phase with
    | .stopping _ => some { s with valid := false, stopped := true, phase := .closing }
    | _           => none
  | .closed success stale =>
    if s.phase = .closing then
      some { s with session := Session.closeClient s.session stale, phase := if success = true then .reset else .attempt }
    else none
  | .reply pcb => if pcb ∈ s.session.live ∧ pcb.localPort = netUpdatePort then some s else none
  | .httpMessage pcb =>
    if pcb ∈ s.session.live ∧ pcb.localPort = Session.httpPort then
      some { s with session := { s.session with httpAccept := Session.charSucc s.session.httpAccept } }
    else none
  | .client e => clientStep s e

def machine : Machine State Event Unit := ⟨fun s e => (step s e).map (fun s' => (s', ()))⟩

/-- The events that use the semaphore: `os_sem_set` and `os_sem_pend` in `msgsenddata`, `os_sem_post` in
`msgrecvmemcpy`. -/
def Event.uses : Event → Bool
  | .packet  => true
  | .reply _ => true
  | _        => false

/-- **The semaphore is valid when it is used.** -/
def UsesValid (s : State) (e : Event) (_ : State) (_ : Unit) : Prop := e.uses = true → s.valid = true

/-- No `net_f_stop` has deleted it before. -/
def BeforeStop (s : State) (e : Event) (_ : State) (_ : Unit) : Prop := e.uses = true → s.stopped = false

/-- The phase says whether the OTA port is listened on; once it is, the semaphore is there until the first stop. -/
structure Inv (s : State) : Prop where
  fresh     : s.phase = .ctpServer ∨ (∃ ctp, s.phase = .httpServer ctp) → s.netOtaListen = false
  listen    : s.phase = .otaWait ∨ s.phase = .running ∨ (∃ n, s.phase = .stopping n) ∨ s.phase = .closing →
    s.netOtaListen = true
  unstopped : s.netOtaListen = false → s.stopped = false
  valid     : s.netOtaListen = true → s.valid = !s.stopped
  nobody    : s.netOtaListen = false → ∀ pcb ∈ s.session.live, pcb.localPort ≠ netUpdatePort

theorem inv_init : Inv init where
  fresh     := fun _ => rfl
  listen    := by simp [init]
  unstopped := fun _ => rfl
  valid     := fun h => by cases h
  nobody    := fun _ pcb h => by cases h

/-- A client event moves the session only, and connects nobody to a port that is not listened on. -/
theorem inv_client {s s' : State} {e : Session.Event} (hI : Inv s) (h : clientStep s e = some s') : Inv s' := by
  have hsession : ∃ t o, Session.step s.session e = some (t, o) ∧ s' = { s with session := t } ∧
      ∀ pcb, e = .accept pcb → s.netOtaListen = false → pcb.localPort ≠ netUpdatePort := by
    cases e with
    | accept pcb =>
      simp only [clientStep] at h
      split at h
      · cases h
      · rename_i hport
        obtain ⟨r, hr, rfl⟩ := Option.map_eq_some_iff.1 h
        refine ⟨r.1, r.2, hr, rfl, fun q hq hl hp => hport ?_⟩
        cases hq
        exact ⟨hp, hl⟩
    | close pcb =>
      obtain ⟨r, hr, rfl⟩ := Option.map_eq_some_iff.1 h
      exact ⟨r.1, r.2, hr, rfl, fun q hq => by cases hq⟩
    | error pcb =>
      obtain ⟨r, hr, rfl⟩ := Option.map_eq_some_iff.1 h
      exact ⟨r.1, r.2, hr, rfl, fun q hq => by cases hq⟩
    | stop _ => cases h
    | send   => cases h
  obtain ⟨t, o, ht, rfl, hacc⟩ := hsession
  refine ⟨hI.fresh, hI.listen, hI.unstopped, hI.valid, fun hl pcb hp => ?_⟩
  rcases Session.mem_live_of_step ht hp with hin | he
  · exact hI.nobody hl pcb hin
  · exact hacc pcb he hl

theorem step_inv {s s' : State} {e : Event} (hI : Inv s) (h : step s e = some s') : Inv s' := by
  cases e with
  | openCtp ok =>
    simp only [step] at h
    split at h
    · rename_i hph
      cases h
      have hl := hI.fresh (Or.inl hph)
      cases ok <;> exact ⟨fun _ => hl, by simp, hI.unstopped, fun h => absurd (hl.symm.trans h) (by decide), hI.nobody⟩
    · cases h
  | openHttp ok =>
    simp only [step] at h
    split at h
    · rename_i ctp hph
      cases h
      have hl := hI.fresh (Or.inr ⟨ctp, hph⟩)
      cases ok <;> exact ⟨fun _ => hl, by split <;> simp, hI.unstopped,
        fun h => absurd (hl.symm.trans h) (by decide), hI.nobody⟩
    · cases h
  | openOta ok =>
    simp only [step] at h
    split at h
    · split at h
      · rename_i hl
        cases h
        exact ⟨by simp, fun _ => hl, hI.unstopped, hI.valid, hI.nobody⟩
      · rename_i hl
        split at h
        · -- the first open of the port finds the semaphore or creates it, and nothing has deleted it yet
          cases h
          have hstop := hI.unstopped (by simpa using hl)
          exact ⟨by simp, fun _ => rfl, (fun h => by cases h), (fun _ => by simp [openPort, hstop]), (fun h => by cases h)⟩
        · cases h
          exact hI
    · cases h
  | waitDone timeout =>
    simp only [step] at h
    split at h
    · rename_i hph
      have hl := hI.listen (Or.inl hph.1)
      split at h
      · cases h
        exact ⟨by simp, by simp, hI.unstopped, hI.valid, hI.nobody⟩
      · cases h
        exact ⟨by simp, fun _ => hl, hI.unstopped, hI.valid, hI.nobody⟩
    · cases h
  | packet =>
    simp only [step] at h
    split at h
    · split at h
      · cases h
        exact hI
      · rename_i n hph
        cases h
        have hl := hI.listen (Or.inr (Or.inr (Or.inl ⟨_, hph⟩)))
        exact ⟨by simp, fun _ => hl, hI.unstopped, hI.valid, hI.nobody⟩
      · cases h
    · cases h
  | stop failed =>
    simp only [step] at h
    split at h
    · rename_i hph
      cases h
      have hl := hI.listen (Or.inr (Or.inl hph))
      exact ⟨by simp, fun _ => hl, hI.unstopped, hI.valid, hI.nobody⟩
    · cases h
  | del =>
    simp only [step] at h
    split at h
    · rename_i n hph
      cases h
      have hl := hI.listen (Or.inr (Or.inr (Or.inl ⟨n, hph⟩)))
      exact ⟨by simp, fun _ => hl, fun h => absurd (hl.symm.trans h) (by decide), fun _ => rfl, hI.nobody⟩
    · cases h
  | closed success stale =>
    simp only [step] at h
    split at h
    · cases h
      exact ⟨by split <;> simp, by split <;> simp, hI.unstopped, hI.valid,
        fun hl pcb hp => hI.nobody hl pcb (Session.mem_live_closeClient hp)⟩
    · cases h
  | reply pcb =>
    simp only [step] at h
    split at h
    · cases h
      exact hI
    · cases h
  | httpMessage pcb =>
    simp only [step] at h
    split at h
    · cases h
      exact ⟨hI.fresh, hI.listen, hI.unstopped, hI.valid, hI.nobody⟩
    · cases h
  | client e => exact inv_client hI h

/-- A semaphore in use belongs to a port that is listened on. -/
theorem listen_of_uses {s s' : State} {e : Event} (hI : Inv s) (h : step s e = some s') (hu : e.uses = true) :
    s.netOtaListen = true := by
  cases e with
  | packet =>
    simp only [step] at h
    split at h
    · split at h
      · rename_i hph
        exact hI.listen (Or.inr (Or.inl hph))
      · rename_i n hph
        exact hI.listen (Or.inr (Or.inr (Or.inl ⟨_, hph⟩)))
      · cases h
    · cases h
  | reply pcb =>
    simp only [step] at h
    split at h
    · rename_i hp
      by_contra hl
      exact hI.nobody (by simpa using hl) pcb hp.1 hp.2
    · cases h
  | _ => cases hu

/-- **When the semaphore is valid at every use**: over all attempts and all orders of client events, exactly when it is
used no more once a `net_f_stop` has deleted it.  No later `net_f_open` creates it again. -/
theorem uses_valid_iff (es : List Event) : machine.Along UsesValid init es ↔ machine.Along BeforeStop init es := by
  refine Machine.along_iff Inv (fun s e s' o hI h => ?_) es init inv_init
  obtain ⟨t, ht, heq⟩ := Option.map_eq_some_iff.1 h
  cases heq
  refine ⟨step_inv hI ht, ?_⟩
  unfold UsesValid BeforeStop
  refine imp_congr_right (fun hu => ?_)
  rw [hI.valid (listen_of_uses hI ht hu)]
  simp

/-- An attempt with its first packet, once the OTA client is connected. -/
def attempt : List Event := [.openOta true, .client (.accept ⟨3, netUpdatePort⟩), .waitDone false, .packet]

/-- The first attempt fails after its first packet, and a second one is made. -/
def twoAttempts : List Event :=
  [.openCtp true, .openHttp true, .client (.accept ⟨2, Session.httpPort⟩), .httpMessage ⟨2, Session.httpPort⟩] ++
    attempt ++ [.stop true, .packet, .del, .closed false 0] ++ attempt

/-- The second attempt sends its first packet with the deleted semaphore. -/
theorem not_uses_valid_second_attempt : ¬ machine.Along UsesValid init twoAttempts := by
  rw [show twoAttempts = twoAttempts.dropLast ++ [.packet] from rfl]
  intro h
  have hrun : (machine.run init twoAttempts.dropLast).map (fun r => (r.1.valid, (step r.1 .packet).isSome)) =
      some (false, true) := by decide +kernel
  obtain ⟨⟨s, os⟩, hr, hs⟩ := Option.map_eq_some_iff.1 hrun
  simp only [Prod.mk.injEq] at hs
  obtain ⟨t, ht⟩ := Option.isSome_iff_exists.1 hs.2
  have hstep : machine.step s .packet = some (t, ()) := by simp [machine, ht]
  have huse := Machine.along_last h hr hstep rfl
  rw [hs.1] at huse
  cases huse

end Sem
end OtaLoader
