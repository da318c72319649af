import OtaLoader.Machine
import Mathlib.Data.List.Nodup
/-!
# ApSession — connections and accept counters of the access-point build (net_update.c, CONFIG_WL_AP_ENABLE)

The device listens on three ports: 3335 for the OTA transfer, 8080 for the device description, 3333 for control.  The
accept callback, the close and the error of a connection keep a counter for each port and, for the OTA port, the
connection in use.  `session_kept_iff` says for which runs the counter, the pointer and the connections agree.

A connection is live from its accept until the device aborts it or lwIP frees it; its address may then be used again.
-/
namespace OtaLoader
namespace Session

def netUpdatePort : Nat := 3335
def ctpCtrlPort : Nat := 3333
def httpPort : Nat := 8080

/-- A `tcp_pcb`: its address and `local_port`. -/
structure Pcb where
  addr      : Nat
  localPort : Nat
deriving DecidableEq

structure State where
  clientAccept : Nat
  clientPcb    : Option Nat
  httpAccept   : Int
  ctpAccept    : Nat
  live         : List Pcb
deriving DecidableEq

def init : State := ⟨0, none, 0, 0, []⟩

/-- A `char` that is incremented. -/
def charSucc (n : Int) : Int := (n + 1 + 128) % 256 - 128

/-- `x > 0 ? --x : x` -/
def charPred (n : Int) : Int := if n > 0 then n - 1 else n

/-- Aborted by the device, or freed by lwIP. -/
def release (s : State) (addr : Nat) : State := { s with live := s.live.filter (·.addr ≠ addr) }

/-- `msgclose`: the counters, then `tcp_abort`. -/
def msgclose (s : State) (pcb : Pcb) : State :=
  let s := if pcb.localPort = netUpdatePort then
      { s with
        clientAccept := s.clientAccept - 1
        clientPcb := if s.clientAccept - 1 = 0 ∨ s.clientPcb = some pcb.addr then none else s.clientPcb }
    else s
  let s := if pcb.localPort = ctpCtrlPort then { s with ctpAccept := s.ctpAccept - 1 } else s
  release s pcb.addr

/-- `msgaccept`. -/
def msgaccept (s : State) (pcb : Pcb) : State :=
  let s := { s with live := pcb :: s.live }
  if pcb.localPort = netUpdatePort then
    let s := { s with clientAccept := s.clientAccept + 1 }
    if s.clientAccept > 1 then msgclose s pcb else { s with clientPcb := some pcb.addr }
  else s

/-- `msgerr_ota`, `msgerr_ctp` and `msgerr_http`, as `msgaccept` installs them by port. -/
def msgerr (s : State) (localPort : Nat) : State :=
  if localPort = netUpdatePort then { s with clientAccept := s.clientAccept - 1 }
  else if localPort = ctpCtrlPort then { s with ctpAccept := s.ctpAccept - 1 }
  else { s with httpAccept := charPred s.httpAccept }

/-- `if (client_pcb) msgclose(client_pcb)` in `net_f_stop`; `stale` is the port found in a pcb that is no longer one. -/
def closeClient (s : State) (stale : Nat) : State :=
  match s.clientPcb with
  | none   => s
  | some p => msgclose s ((s.live.find? (·.addr = p)).getD ⟨p, stale⟩)

/-- `error` is lwIP's error callback: the pcb is already freed.  `send` is a call of `msgsenddata`. -/
inductive Event where
  | accept (pcb : Pcb)
  | close (pcb : Pcb)
  | error (pcb : Pcb)
  | stop (stale : Nat)
  | send

/-- The events and, as what a step shows, the pcb the device hands to lwIP on its own account. -/
def step (s : State) : Event → Option (State × Option Nat)
  | .accept pcb => if pcb.addr ∈ s.live.map Pcb.addr then none else some (msgaccept s pcb, none)
  | .close pcb  => if pcb ∈ s.live then some (msgclose s pcb, none) else none
  | .error pcb  => if pcb ∈ s.live then some (msgerr (release s pcb.addr) pcb.localPort, none) else none
  | .stop stale => some (closeClient s stale, s.clientPcb)
  | .send       => some (s, s.clientPcb)

def machine : Machine State Event (Option Nat) := ⟨step⟩

/-- **The bookkeeping is right**: one client or none, and `client_pcb` is that client's live connection. -/
structure Kept (s : State) : Prop where
  accept_le : s.clientAccept ≤ 1
  pcb_iff   : s.clientPcb.isSome = true ↔ s.clientAccept = 1
  pcb_live  : ∀ p, s.clientPcb = some p → (⟨p, netUpdatePort⟩ : Pcb) ∈ s.live

/-- The step leaves the bookkeeping right, and the device uses no dead connection in it. -/
def KeptStep (s : State) (_ : Event) (s' : State) (o : Option Nat) : Prop :=
  Kept s' ∧ ∀ p, o = some p → p ∈ s.live.map Pcb.addr

/-- No error is reported on the client's connection. -/
def NoError (_ : State) (e : Event) (_ : State) (_ : Option Nat) : Prop :=
  ∀ pcb, e = .error pcb → pcb.localPort ≠ netUpdatePort

/-- `Kept`, and the client's is the only live connection on the OTA port. -/
structure Inv (s : State) : Prop extends Kept s where
  only  : ∀ pcb ∈ s.live, pcb.localPort = netUpdatePort → s.clientPcb = some pcb.addr
  nodup : (s.live.map Pcb.addr).Nodup

theorem inv_init : Inv init where
  accept_le := by decide
  pcb_iff   := by decide
  pcb_live  := fun p h => by cases h
  only      := fun pcb h => by cases h
  nodup     := List.nodup_nil

section Steps

variable {s : State}

theorem mem_release {pcb : Pcb} {a : Nat} : pcb ∈ (release s a).live ↔ pcb ∈ s.live ∧ pcb.addr ≠ a := by
  simp [release]

theorem nodup_release (h : (s.live.map Pcb.addr).Nodup) (a : Nat) : ((release s a).live.map Pcb.addr).Nodup :=
  h.sublist (List.Sublist.map _ List.filter_sublist)

/-- Live pcbs at one address are one. -/
theorem eq_of_addr (h : (s.live.map Pcb.addr).Nodup) {x y : Pcb} (hx : x ∈ s.live) (hy : y ∈ s.live)
    (he : x.addr = y.addr) : x = y := List.inj_on_of_nodup_map h hx hy he

/-- Releasing a connection on another port. -/
theorem inv_release_other {s s' : State} {pcb : Pcb} (hI : Inv s) (hp : pcb ∈ s.live)
    (hport : pcb.localPort ≠ netUpdatePort) (hlive : s'.live = (release s pcb.addr).live)
    (ha : s'.clientAccept = s.clientAccept) (hc : s'.clientPcb = s.clientPcb) : Inv s' where
  accept_le := ha ▸ hI.accept_le
  pcb_iff   := by rw [ha, hc]; exact hI.pcb_iff
  pcb_live  := by
    intro p hpc
    rw [hc] at hpc
    rw [hlive, mem_release]
    have hin := hI.pcb_live p hpc
    refine ⟨hin, fun he => hport ?_⟩
    have := eq_of_addr hI.nodup hin hp he
    rw [← this]
  only := by
    intro q hq hqp
    rw [hlive, mem_release] at hq
    rw [hc]
    exact hI.only q hq.1 hqp
  nodup := hlive ▸ nodup_release hI.nodup pcb.addr

/-- Closing the client's connection: nothing is left on the OTA port. -/
theorem inv_msgclose_client {pcb : Pcb} (hI : Inv s) (hp : pcb ∈ s.live) (hport : pcb.localPort = netUpdatePort) :
    Inv (msgclose s pcb) := by
  have hpcb := hI.only pcb hp hport
  have hacc : s.clientAccept = 1 := hI.pcb_iff.1 (by rw [hpcb]; rfl)
  have hctp : pcb.localPort ≠ ctpCtrlPort := by rw [hport]; decide
  have hs : msgclose s pcb = release { s with clientAccept := 0, clientPcb := none } pcb.addr := by
    unfold msgclose
    rw [if_pos hport]
    dsimp only
    rw [if_neg hctp, hacc]
    rfl
  rw [hs]
  constructor
  · constructor
    · exact Nat.zero_le 1
    · simp [release]
    · exact fun p h => by cases h
  · intro q hq hqp
    rw [mem_release] at hq
    have := hI.only q hq.1 hqp
    rw [hpcb] at this
    exact absurd (Option.some.inj this).symm hq.2
  · exact nodup_release (s := { s with clientAccept := 0, clientPcb := none }) hI.nodup pcb.addr

theorem inv_msgclose {pcb : Pcb} (hI : Inv s) (hp : pcb ∈ s.live) : Inv (msgclose s pcb) := by
  by_cases hport : pcb.localPort = netUpdatePort
  · exact inv_msgclose_client hI hp hport
  · refine inv_release_other hI hp hport ?_ ?_ ?_ <;> unfold msgclose <;> rw [if_neg hport] <;> split <;> rfl

theorem inv_msgaccept {pcb : Pcb} (hI : Inv s) (hnew : pcb.addr ∉ s.live.map Pcb.addr) : Inv (msgaccept s pcb) := by
  have hnd : ((pcb :: s.live).map Pcb.addr).Nodup := List.nodup_cons.2 ⟨hnew, hI.nodup⟩
  by_cases hport : pcb.localPort = netUpdatePort
  · by_cases hacc : s.clientAccept = 0
    · -- the first client
      have hnone : s.clientPcb = none := by
        cases hc : s.clientPcb with
        | none   => rfl
        | some p => exact absurd (hI.pcb_iff.1 (by rw [hc]; rfl)) (by omega)
      have hs : msgaccept s pcb = { s with live := pcb :: s.live, clientAccept := 1, clientPcb := some pcb.addr } := by
        unfold msgaccept
        rw [if_pos hport]
        dsimp only
        rw [hacc, if_neg (by decide)]
      have hpcb : pcb = ⟨pcb.addr, netUpdatePort⟩ := by rw [← hport]
      rw [hs]
      constructor
      · constructor
        · exact Nat.le_refl 1
        · simp
        · rintro p hp
          cases hp
          rw [← hpcb]
          exact List.mem_cons_self ..
      · intro q hq hqp
        rcases List.mem_cons.1 hq with rfl | hq
        · rfl
        · exact absurd (hI.only q hq hqp) (by rw [hnone]; exact fun h => by cases h)
      · exact hnd
    · -- a second client is refused and aborted
      have hone : s.clientAccept = 1 := by have := hI.accept_le; omega
      have hsome : s.clientPcb ≠ some pcb.addr := by
        intro hc
        exact hnew (List.mem_map.2 ⟨_, hI.pcb_live _ hc, rfl⟩)
      have hrel : ∀ t : State, t.live = pcb :: s.live → (release t pcb.addr).live = s.live := by
        intro t ht
        rw [release, ht, List.filter_cons_of_neg (by simp)]
        refine List.filter_eq_self.2 (fun q hq => decide_eq_true (fun he => hnew ?_))
        rw [← he]
        exact List.mem_map_of_mem hq
      have hctp : pcb.localPort ≠ ctpCtrlPort := by rw [hport]; decide
      have hs : msgaccept s pcb = s := by
        unfold msgaccept
        rw [if_pos hport]
        dsimp only
        rw [hone, if_pos (by decide), msgclose, if_pos hport]
        dsimp only
        rw [if_neg hctp, if_neg (by simp [hsome])]
        obtain ⟨a, c, ha, cc, l⟩ := s
        have := hrel ⟨1, c, ha, cc, pcb :: l⟩ rfl
        simp only [release] at this ⊢
        rw [this]
        dsimp only at hone
        rw [hone]
      rw [hs]
      exact hI
  · have hs : msgaccept s pcb = { s with live := pcb :: s.live } := by
      unfold msgaccept
      rw [if_neg hport]
    rw [hs]
    constructor
    · exact ⟨hI.accept_le, hI.pcb_iff, fun p hp => List.mem_cons_of_mem _ (hI.pcb_live p hp)⟩
    · intro q hq hqp
      rcases List.mem_cons.1 hq with rfl | hq
      · exact absurd hqp hport
      · exact hI.only q hq hqp
    · exact hnd

theorem inv_closeClient {stale : Nat} (hI : Inv s) : Inv (closeClient s stale) := by
  unfold closeClient
  split
  · exact hI
  · rename_i p hp
    have hin := hI.pcb_live p hp
    have hfind : s.live.find? (fun q => decide (q.addr = p)) = some ⟨p, netUpdatePort⟩ := by
      cases hf : s.live.find? (fun q => decide (q.addr = p)) with
      | none =>
        have := List.find?_eq_none.1 hf _ hin
        simp at this
      | some q =>
        have hq := List.mem_of_find?_eq_some hf
        have ha : q.addr = p := by simpa using List.find?_some hf
        rw [eq_of_addr hI.nodup hq hin ha]
    rw [hfind]
    exact inv_msgclose hI hin

/-- An error on another port. -/
theorem inv_msgerr_other {pcb : Pcb} (hI : Inv s) (hp : pcb ∈ s.live) (hport : pcb.localPort ≠ netUpdatePort) :
    Inv (msgerr (release s pcb.addr) pcb.localPort) := by
  refine inv_release_other hI hp hport ?_ ?_ ?_ <;> unfold msgerr <;> rw [if_neg hport] <;> split <;> rfl

/-- An error on the client's connection counts the client out and keeps the pointer. -/
theorem not_kept_msgerr_client {pcb : Pcb} (hI : Inv s) (hp : pcb ∈ s.live) (hport : pcb.localPort = netUpdatePort) :
    ¬ Kept (msgerr (release s pcb.addr) pcb.localPort) := by
  intro hk
  have hpcb := hI.only pcb hp hport
  have hacc : s.clientAccept = 1 := hI.pcb_iff.1 (by rw [hpcb]; rfl)
  have hs : (msgerr (release s pcb.addr) pcb.localPort).clientPcb = some pcb.addr ∧
      (msgerr (release s pcb.addr) pcb.localPort).clientAccept = 0 := by
    unfold msgerr
    rw [if_pos hport]
    exact ⟨hpcb, by simp [release, hacc]⟩
  have h1 := hk.pcb_iff.1 (by rw [hs.1]; rfl)
  omega

theorem live_msgclose (pcb : Pcb) : (msgclose s pcb).live = s.live.filter (·.addr ≠ pcb.addr) := by
  unfold msgclose release
  dsimp only
  split <;> split <;> rfl

theorem mem_live_closeClient {stale : Nat} {pcb : Pcb} (h : pcb ∈ (closeClient s stale).live) : pcb ∈ s.live := by
  unfold closeClient at h
  split at h
  · exact h
  · rw [live_msgclose] at h
    exact List.mem_of_mem_filter h

/-- Only an accept adds a connection. -/
theorem mem_live_of_step {s' : State} {e : Event} {o : Option Nat} (h : step s e = some (s', o)) {pcb : Pcb}
    (hp : pcb ∈ s'.live) : pcb ∈ s.live ∨ e = .accept pcb := by
  cases e with
  | accept q =>
    simp only [step] at h
    split at h
    · cases h
    · cases h
      have hin : pcb ∈ q :: s.live := by
        unfold msgaccept at hp
        dsimp only at hp
        split at hp
        · split at hp
          · rw [live_msgclose] at hp
            exact List.mem_of_mem_filter hp
          · exact hp
        · exact hp
      rcases List.mem_cons.1 hin with rfl | hin
      · exact Or.inr rfl
      · exact Or.inl hin
  | close q =>
    simp only [step] at h
    split at h
    · cases h
      rw [live_msgclose] at hp
      exact Or.inl (List.mem_of_mem_filter hp)
    · cases h
  | error q =>
    simp only [step] at h
    split at h
    · cases h
      have hin : pcb ∈ (release s q.addr).live := by
        unfold msgerr at hp
        split at hp
        · exact hp
        · split at hp <;> exact hp
      exact Or.inl (mem_release.1 hin).1
    · cases h
  | stop stale =>
    cases h
    exact Or.inl (mem_live_closeClient hp)
  | send =>
    cases h
    exact Or.inl hp

end Steps

/-- **One event**: from a right bookkeeping it goes wrong exactly on an error of the client's connection. -/
theorem step_kept {s s' : State} {e : Event} {o : Option Nat} (hI : Inv s) (h : step s e = some (s', o)) :
    (KeptStep s e s' o ↔ NoError s e s' o) ∧ (NoError s e s' o → Inv s') := by
  have hclient : ∀ p, s.clientPcb = some p → p ∈ s.live.map Pcb.addr :=
    fun p hp => List.mem_map.2 ⟨_, hI.pcb_live p hp, rfl⟩
  have hgood : Inv s' → (∀ p, o = some p → p ∈ s.live.map Pcb.addr) → NoError s e s' o →
      (KeptStep s e s' o ↔ NoError s e s' o) ∧ (NoError s e s' o → Inv s') :=
    fun hI' ho hn => ⟨iff_of_true ⟨hI'.toKept, ho⟩ hn, fun _ => hI'⟩
  cases e with
  | accept pcb =>
    simp only [step] at h
    split at h
    · cases h
    · rename_i hnew
      cases h
      exact hgood (inv_msgaccept hI hnew) (fun p hp => by cases hp) (fun q hq => by cases hq)
  | close pcb =>
    simp only [step] at h
    split at h
    · rename_i hp
      cases h
      exact hgood (inv_msgclose hI hp) (fun p hp => by cases hp) (fun q hq => by cases hq)
    · cases h
  | error pcb =>
    simp only [step] at h
    split at h
    · rename_i hp
      cases h
      by_cases hport : pcb.localPort = netUpdatePort
      · have hno : ¬ NoError s (.error pcb) (msgerr (release s pcb.addr) pcb.localPort) none :=
          fun hn => hn pcb rfl hport
        exact ⟨iff_of_false (fun hk => not_kept_msgerr_client hI hp hport hk.1) hno, fun hn => absurd hn hno⟩
      · refine hgood (inv_msgerr_other hI hp hport) (fun p hp => by cases hp) (fun q hq => ?_)
        cases hq
        exact hport
    · cases h
  | stop stale =>
    cases h
    exact hgood (inv_closeClient hI) hclient (fun q hq => by cases hq)
  | send =>
    cases h
    exact hgood hI hclient (fun q hq => by cases hq)

/-- **When the session bookkeeping holds**: over every sequence of accepts, closes, errors, sends and stops on the three
ports, exactly when lwIP reports no error on the OTA client's connection. -/
theorem session_kept_iff (es : List Event) : machine.Along KeptStep init es ↔ machine.Along NoError init es :=
  Machine.along_iff_while Inv (fun _ _ _ _ hI h => step_kept hI h) es init inv_init

/-- A client connects, its connection fails, and the pointer to the freed pcb stays. -/
theorem not_kept_after_error :
    ¬ machine.Along KeptStep init [.accept ⟨1, netUpdatePort⟩, .error ⟨1, netUpdatePort⟩] := by
  intro h
  obtain ⟨_, hrest⟩ := h _ _ rfl
  obtain ⟨⟨hk, _⟩, _⟩ := hrest _ _ rfl
  exact absurd (hk.pcb_live 1 rfl) (by decide)

end Session
end OtaLoader
