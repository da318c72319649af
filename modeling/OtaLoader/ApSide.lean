import OtaLoader.Ap
import OtaLoader.ApSession
import OtaLoader.CString
/-!
# ApSide — the description and control ports beside the OTA transfer (net_update.c, CONFIG_WL_AP_ENABLE)

All three ports share `msgrecv` and, as its argument, the OTA buffer.  A message on port 8080 is answered with a fixed
text.  The first message on port 3333 is answered too: `msgrecv` copies it into `net_ota->buf`, reads the app's version
from it and composes the answer over it.  `reads_same_of_quiet` says for which runs the OTA transfer does not see the
other two ports.
-/
namespace OtaLoader
namespace Side

open Session (Pcb netUpdatePort ctpCtrlPort httpPort)

def httpDevDesc : List UInt8 := ascii (
  "HTTP/1.1 200 OK\r\nContent-Type:text\r\nContent-Length:454\r\nAccept-Ranges:bytes\r\nConnection:close\r\n\r\n" ++
  "\x7b\"app_list\":\x7b\"match_android_ver\":[\"1.0\",\"2.0\"],\"match_ios_ver\":[\"1.0\",\"2.0\"]\x7d," ++
  "\"forward_support\":[\"0\"],\"behind_support\":[\"0\"],\"forward_record_support\":[\"0\"]," ++
  "\"behind_record_support\":[\"0\"],\"rtsp_forward_support\":[\"0\"],\"rtsp_behind_support\":[\"0\"]," ++
  "\"device_type\":\"1\",\"net_type\":\"1\",\"rts_type\":\"0\",\"product_type\":\"AC79x_wifi_camera\"," ++
  "\"support_projection\":\"0\",\"ota_type\":\"1\",\"ota_step\":\"1\",\"firmware_version\":\"1.0.1\"," ++
  "\"match_app_type\":\"DVRunning2\",\"uuid\":\"xxxxxx\"\x7d")

/-! ## The answer on the control port -/

/-- `net_ota->buf`. -/
def bufOffset : Nat := 20

/-- The memory from `NET_TCP_OTA` to the end of the OTA cache. -/
def cacheSize : Nat := 42 * 1024 - 24

def ctpPrefix : List UInt8 := ascii "CTP:"
def ctpAppAccess : List UInt8 := ascii "APP_ACCESS"
def ctpNotifyVer : Nat := 20906

def decimal (n : Int) : List UInt8 :=
  if n < 0 then 45 :: (Nat.toDigits 10 n.natAbs).map (fun c => UInt8.ofNat c.toNat)
  else (Nat.toDigits 10 n.natAbs).map (fun c => UInt8.ofNat c.toNat)

/-- `%d` of an `unsigned int`. -/
def signed32 (n : Nat) : Int := if n < 2147483648 then n else (n : Int) - 4294967296

/-- The `while` loop over the digits behind `ver":"`, 0 without one. -/
def appVersion (text : List UInt8) : Nat :=
  match find (ascii "ver\":\"") text with
  | none   => 0
  | some i => u32 (leadingDigits 0 (text.drop (i + 6)))

def notifyContent (vers : Nat) : List UInt8 :=
  ascii "\x7b\"op\":\"NOTIFY\",\"param\":\x7b\"type\":\"0\",\"ver\":\"" ++
    decimal (signed32 (if vers = 0 then ctpNotifyVer else vers)) ++ ascii "\"\x7d\x7d"

/-- The branch for port 3333: the memory after it, and the answer. -/
def ctpNotify (ota : Mem) (p : List UInt8) : Mem × List UInt8 :=
  let m := (ota.write bufOffset p).write (bufOffset + p.length + 1) [0]
  let content := notifyContent (appVersion (m.cstr cacheSize bufOffset))
  let head := ctpPrefix ++ [UInt8.ofNat ctpAppAccess.length, 0] ++ ctpAppAccess
  -- the length of the content is 0 until the content is there
  let m := m.write bufOffset (head ++ Mem.le32 0)
  let m := m.write (bufOffset + head.length + 4) (content ++ [0])
  let m := m.write (bufOffset + head.length) (Mem.le32 content.length)
  (m, m.read bufOffset (head.length + 4 + content.length))

/-! ## The three ports -/

structure Sys where
  dev     : Ap.Dev
  session : Session.State

/-- An event on port 8080 or 3333; `sent` is whether the answer finds room. -/
inductive SideEv where
  | accept (pcb : Pcb)
  | close (pcb : Pcb)
  | error (pcb : Pcb)
  | segment (pcb : Pcb) (p : List UInt8) (sent : Bool)

/-- `msgrecv` for the two ports, with what it sends. -/
def msgrecvSide (s : Sys) (pcb : Pcb) (p : List UInt8) (sent : Bool) : Sys × Option (List UInt8) :=
  if p.length > Ap.recvBufMaxSize then (s, none)
  else if pcb.localPort = httpPort then
    ({ s with session := { s.session with httpAccept := Session.charSucc s.session.httpAccept } },
      if sent then some httpDevDesc else none)
  else if s.session.ctpAccept ≠ 0 then (s, none)
  else
    let r := ctpNotify s.dev.ota p
    (⟨{ s.dev with ota := r.1 }, { s.session with ctpAccept := s.session.ctpAccept + 1 }⟩,
      if sent then some r.2 else none)

def isSide (pcb : Pcb) : Bool := pcb.localPort == ctpCtrlPort || pcb.localPort == httpPort

def sideStep (s : Sys) : SideEv → Option Sys
  | .accept pcb => if isSide pcb then (Session.step s.session (.accept pcb)).map (fun r => { s with session := r.1 }) else none
  | .close pcb  => if isSide pcb then (Session.step s.session (.close pcb)).map (fun r => { s with session := r.1 }) else none
  | .error pcb  => if isSide pcb then (Session.step s.session (.error pcb)).map (fun r => { s with session := r.1 }) else none
  | .segment pcb p sent =>
    if isSide pcb ∧ pcb ∈ s.session.live then some (msgrecvSide s pcb p sent).1 else none

/-- The OTA transfer, showing after each of its steps also the callers' memory. -/
def otaMachine : Machine Ap.Dev Ap.Ev (Ap.Out × Mem) where
  step d e := (Ap.step d e).map (fun r => (r.1, r.2, r.1.caller))

/-- The device: events of the OTA transfer, and of the other two ports. -/
def machine : Machine Sys (Ap.Ev ⊕ SideEv) (Option (Ap.Out × Mem)) where
  step s e :=
    match e with
    | .inl e => (Ap.step s.dev e).map (fun r => ({ s with dev := r.1 }, some (r.2, r.1.caller)))
    | .inr e => (sideStep s e).map (fun s' => (s', none))

/-- A message on the control port that `msgrecv` takes up finds `ctp_accept` set. -/
def Quiet (s : Sys) (e : Ap.Ev ⊕ SideEv) (_ : Sys) (_ : Option (Ap.Out × Mem)) : Prop :=
  ∀ pcb p sent, e = .inr (.segment pcb p sent) → pcb.localPort = ctpCtrlPort → p.length ≤ Ap.recvBufMaxSize →
    s.session.ctpAccept ≠ 0

/-! ## What the transfer sees -/

theorem msgrecvSide_dev {s : Sys} {pcb : Pcb} {p : List UInt8} {sent : Bool}
    (h : pcb.localPort = ctpCtrlPort → p.length ≤ Ap.recvBufMaxSize → s.session.ctpAccept ≠ 0)
    (hside : isSide pcb = true) : (msgrecvSide s pcb p sent).1.dev = s.dev := by
  unfold msgrecvSide
  by_cases hlen : p.length > Ap.recvBufMaxSize
  · rw [if_pos hlen]
  · rw [if_neg hlen]
    by_cases hp : pcb.localPort = httpPort
    · rw [if_pos hp]
    · have hctp : pcb.localPort = ctpCtrlPort := by simpa [isSide, hp] using hside
      rw [if_neg hp, if_pos (h hctp (Nat.le_of_not_lt hlen))]

/-- A quiet event on the other ports leaves the transfer alone. -/
theorem sideStep_dev {s s' : Sys} {e : SideEv} {o : Option (Ap.Out × Mem)} (h : sideStep s e = some s')
    (hq : Quiet s (.inr e) s' o) : s'.dev = s.dev := by
  cases e with
  | segment pcb p sent =>
    simp only [sideStep] at h
    split at h
    · rename_i hp
      cases h
      exact msgrecvSide_dev (hq pcb p sent rfl) hp.1
    · cases h
  | _ =>
    simp only [sideStep] at h
    split at h
    · obtain ⟨r, _, rfl⟩ := Option.map_eq_some_iff.1 h
      rfl
    · cases h

/-- **A quiet run is, for the transfer, the run of its own events.** -/
theorem run_ota {s s' : Sys} {es : List (Ap.Ev ⊕ SideEv)} {os : List (Option (Ap.Out × Mem))}
    (hq : machine.Along Quiet s es) (h : machine.run s es = some (s', os)) :
    otaMachine.run s.dev (es.filterMap Sum.getLeft?) = some (s'.dev, os.filterMap id) := by
  refine Machine.run_project Sys.dev (C := Quiet) ?_ ?_ es s s' os hq h
  · intro s e s' o hs
    obtain ⟨r, hr, heq⟩ := Option.map_eq_some_iff.1 hs
    cases heq
    exact ⟨_, rfl, by simp [otaMachine, hr]⟩
  · intro s e s' o hs hq
    obtain ⟨t, ht, heq⟩ := Option.map_eq_some_iff.1 hs
    cases heq
    exact ⟨sideStep_dev ht hq, rfl⟩

/-- **The side channels do not disturb the transfer**: two quiet runs with the same OTA events return the same from
every call, and have the same bytes in the callers' buffers, after each of these events. -/
theorem reads_same_of_quiet {s₁ s₂ t₁ t₂ : Sys} {es₁ es₂ : List (Ap.Ev ⊕ SideEv)}
    {os₁ os₂ : List (Option (Ap.Out × Mem))} (hdev : s₁.dev = s₂.dev)
    (hsame : es₁.filterMap Sum.getLeft? = es₂.filterMap Sum.getLeft?) (h₁ : machine.run s₁ es₁ = some (t₁, os₁))
    (h₂ : machine.run s₂ es₂ = some (t₂, os₂)) (hq₁ : machine.Along Quiet s₁ es₁) (hq₂ : machine.Along Quiet s₂ es₂) :
    os₁.filterMap id = os₂.filterMap id ∧ t₁.dev = t₂.dev := by
  have hr₁ := run_ota hq₁ h₁
  have hr₂ := run_ota hq₂ h₂
  rw [hdev, hsame, hr₂] at hr₁
  simp only [Option.some.injEq, Prod.mk.injEq] at hr₁
  exact ⟨hr₁.2.symm, hr₁.1.symm⟩

/-! ## Two runs -/

/-- A reply of one byte, with its sum. -/
def oneByteReply (b : UInt8) : List UInt8 :=
  Mem.le32 (1 + b.toNat) ++ Mem.le32 0 ++ Mem.le32 1 ++ Mem.le32 0 ++ [0, 0, 0, 0] ++ [b]

/-- An OTA session in which `ctpAccept` control messages have been taken up. -/
def opened (ctpAccept : Nat) : Sys := ⟨Ap.opened (fun _ => 0) (fun _ => 0), ⟨1, some 0, 1, ctpAccept, [⟨0, netUpdatePort⟩]⟩⟩

def readByte : Ap.Ev := .read 0 1 true

/-- The first byte of the file is read, and read again out of the window. -/
def readTwice (between : List (Ap.Ev ⊕ SideEv)) : List (Ap.Ev ⊕ SideEv) :=
  [.inl readByte, .inl (.segment (oneByteReply 7)), .inl (.resume true)] ++ between ++ [.inl readByte]

/-- The control port is connected and a message comes in on it. -/
def controlMessage : List (Ap.Ev ⊕ SideEv) :=
  [.inr (.accept ⟨1, ctpCtrlPort⟩), .inr (.segment ⟨1, ctpCtrlPort⟩ ctpPrefix true)]

/-- Behind the first control message the next one is not taken up. -/
theorem reads_same_second_message : ∃ t₁ t₂ os₁ os₂, machine.run (opened 1) [.inl readByte] = some (t₁, os₁) ∧
    machine.run (opened 1) (controlMessage ++ [.inl readByte]) = some (t₂, os₂) ∧
      os₁.filterMap id = os₂.filterMap id ∧ t₁.dev = t₂.dev := by
  obtain ⟨⟨t₁, os₁⟩, h₁⟩ : ∃ r, machine.run (opened 1) [.inl readByte] = some r := ⟨_, rfl⟩
  obtain ⟨⟨t₂, os₂⟩, h₂⟩ : ∃ r, machine.run (opened 1) (controlMessage ++ [.inl readByte]) = some r := ⟨_, rfl⟩
  refine ⟨t₁, t₂, os₁, os₂, h₁, h₂, reads_same_of_quiet (by rfl) (by rfl) h₁ h₂ ?_ ?_⟩
  · exact fun _ _ _ => ⟨(fun _ _ _ he => by cases he), trivial⟩
  · intro s' o h
    cases h
    refine ⟨(fun _ _ _ he => by cases he), fun s' o h => ?_⟩
    cases h
    exact ⟨fun _ _ _ _ _ _ => Nat.one_ne_zero, fun _ _ _ => ⟨(fun _ _ _ he => by cases he), trivial⟩⟩

/-- The first control message of a session overwrites the window, and the byte read again is another one. -/
theorem reads_differ_first_message : ∃ t₁ t₂ os₁ os₂,
    (readTwice []).filterMap Sum.getLeft? = (readTwice controlMessage).filterMap Sum.getLeft? ∧
    machine.run (opened 0) (readTwice []) = some (t₁, os₁) ∧
    machine.run (opened 0) (readTwice controlMessage) = some (t₂, os₂) ∧ os₁.filterMap id ≠ os₂.filterMap id := by
  have h₁ : (machine.run (opened 0) (readTwice [])).map (fun r => (r.2.filterMap id).map (fun o => (o.1.ret, o.2 0))) =
      some [(none, 0), (none, 7), (some 1, 7), (some 1, 7)] := by decide +kernel
  have h₂ : (machine.run (opened 0) (readTwice controlMessage)).map
      (fun r => (r.2.filterMap id).map (fun o => (o.1.ret, o.2 0))) =
        some [(none, 0), (none, 7), (some 1, 7), (some 1, 67)] := by decide +kernel
  obtain ⟨⟨t₁, os₁⟩, hr₁, ho₁⟩ := Option.map_eq_some_iff.1 h₁
  obtain ⟨⟨t₂, os₂⟩, hr₂, ho₂⟩ := Option.map_eq_some_iff.1 h₂
  refine ⟨t₁, t₂, os₁, os₂, rfl, hr₁, hr₂, fun he => ?_⟩
  dsimp only at ho₁ ho₂
  rw [he, ho₂] at ho₁
  exact absurd ho₁ (by decide)

end Side
end OtaLoader
