import OtaLoader.StaParse
/-!
# StaWindow — the window the receive buffer holds

The device among its connections, each with what the server sends on it.  `cur` is the connection of the last request
sent, until the next `http_get` starts.  `window_holds` is about runs in which segments come from that connection alone,
but for those that find no room or bring no status 206 at an empty buffer.
-/
namespace OtaLoader
namespace Sta

def Dev.request (s : Dev) (i : Nat) : Option Request := (s.pcbs[i]?).bind Pcb.request

/-- The task is in `http_get`. -/
def Task.fetching : Task → Bool
  | .getting _      => true
  | .resolving _ _  => true
  | .creating _ _   => true
  | .connecting _ _ => true
  | _               => false

/-! ## The server -/

inductive Answer where
  | content (r : Response)
  | other (bytes : List UInt8)

def Answer.bytes : Answer → List UInt8
  | .content r => r.bytes
  | .other bs  => bs

/-- The server answers a request with the bytes asked for, or with another status. -/
def Serves (file : List UInt8) (q : Request) : Answer → Prop
  | .content r => r.WellFormed ∧ r.first = q.first ∧ r.last + 1 = min q.stop file.length ∧ r.total = file.length ∧
      r.body = (file.drop r.first).take r.body.length
  | .other bs  => ¬ ascii "HTTP/1.1 206" <+: bs

/-- The device, the connection of its last request, those whose wait ended in a timeout, and how much each connection
has brought. -/
structure Web where
  dev  : Dev
  cur  : Option Nat
  gone : List Nat
  got  : Nat → Nat

def Web.next (w : Web) (e : Ev) (d : Dev) : Web where
  dev := d
  cur := if d.task.fetching then none else
    match e, w.dev.task with
    | .go _, .connecting _ i => (d.request i).map (fun _ => i)
    | _, _                   => w.cur
  gone := match e with
    | .timeout => w.cur.toList ++ w.gone
    | _        => w.gone
  got := match e with
    | .segment i p => Function.update w.got i (w.got i + p.length)
    | _            => w.got

def web : Machine Web Ev Out := ⟨fun w e => (step w.dev e).map (fun r => (w.next e r.1, r.2))⟩

/-- Every segment brings the next bytes of the answer to its connection's request. -/
def Honest (file : List UInt8) (answer : Nat → Answer) (w : Web) : Ev → Prop
  | .segment i p => p ≠ [] ∧ p <+: (answer i).bytes.drop (w.got i) ∧
      ∃ q, w.dev.request i = some q ∧ Serves file q (answer i)
  | _            => True

/-- A segment of another connection than `cur` finds no room, or an empty buffer and no status 206 in the text.  The
status 206 is found at an empty buffer in the first segment of a response only, with all of its header, and the range in
its own line. -/
def Clean (answer : Nat → Answer) (w : Web) : Ev → Prop
  | .segment i p => w.dev.http.recvOffset + p.length ≤ bufSize →
      (w.dev.http.recvOffset ≠ 0 → w.cur = some i) ∧
      (w.dev.http.recvOffset = 0 → find (ascii "HTTP/1.1 206") ((laid w.dev p).whole w.dev.beyond) ≠ none →
        w.cur = some i ∧ w.got i = 0 ∧
          ∃ r, answer i = .content r ∧ r.head.length ≤ p.length ∧ RangeFound r (laid w.dev p) w.dev.beyond)
  | _            => True

/-- Connections whose wait ended in a timeout bring nothing the buffer has room for. -/
def Timely (w : Web) : Ev → Prop
  | .segment i p => w.dev.http.recvOffset + p.length ≤ bufSize → i ∉ w.gone
  | _            => True

/-! ## What a step leaves of the window -/

structure SameWindow (s d : Dev) : Prop where
  recvOffset : d.http.recvOffset = s.http.recvOffset
  rangeStart : d.http.rangeStart = s.http.rangeStart
  rangeEnd   : d.http.rangeEnd = s.http.rangeEnd
  fileSize   : d.http.fileSize = s.http.fileSize
  buf        : d.http.buf = s.http.buf
  netRecvErr : d.netRecvErr = s.netRecvErr

theorem request_setPcb {s : Dev} {i : Nat} {f : Pcb → Pcb} (hf : ∀ p, (f p).request = p.request) (j : Nat) :
    (setPcb s i f).request j = s.request j := by
  unfold Dev.request setPcb
  rw [List.getElem?_modify]
  cases h : s.pcbs[j]? with
  | none   => rfl
  | some p =>
    rw [Option.map_eq_map, Option.map_some, Option.bind_some, Option.bind_some]
    split
    · exact hf p
    · rfl

theorem request_setPcb_self {s : Dev} {i : Nat} {p : Pcb} {q : Request} (h : s.pcbs[i]? = some p) (j : Nat) :
    (setPcb s i (fun p => { p with request := some q })).request j = if j = i then some q else s.request j := by
  unfold Dev.request setPcb
  rw [List.getElem?_modify]
  by_cases hj : i = j
  · subst hj
    rw [h, if_pos rfl]
    simp only [if_true]
    rfl
  · rw [if_neg (fun h => hj h.symm)]
    simp only [if_neg hj, Option.map_eq_map, Option.map_id']

theorem finish_fst (s : Dev) (c : Call) (n : Nat) :
    ∃ t k, (t = .idle ∨ t = .reading c) ∧ (finish s c n).1 = { s with task := t, otaReadSize := k } := by
  unfold finish
  split
  · exact ⟨_, _, Or.inl rfl, rfl⟩
  · split
    · split
      · exact ⟨_, _, Or.inr rfl, rfl⟩
      · exact ⟨_, _, Or.inl rfl, rfl⟩
    · exact ⟨_, _, Or.inl rfl, rfl⟩

theorem primed_of_hit {h : HttpOta} {l : NetLocal} (hh : hit (primed h l) l = true) : primed h l = h := by
  unfold primed at hh ⊢
  split at hh
  · rename_i h0
    exfalso
    unfold hit at hh
    simp only [h0.2] at hh
    simp at hh
  · rename_i h0
    rw [if_neg h0]

theorem primed_recvOffset (h : HttpOta) (l : NetLocal) : (primed h l).recvOffset = h.recvOffset := by
  unfold primed
  split
  · rfl
  · rfl

theorem primed_fileSize (h : HttpOta) (l : NetLocal) : (primed h l).fileSize = h.fileSize := by
  unfold primed
  split
  · rfl
  · rfl

/-- The bytes asked for, copied out of the buffer. -/
def served (s : Dev) : Dev :=
  let l := s.netLocal
  { s with caller := s.caller.write l.buf (s.http.buf.read (windowOffset s.http l) l.readSize) }

theorem httpRead_hit {s : Dev} {c : Call} (hh : hit (primed s.http s.netLocal) s.netLocal = true) :
    httpRead s c = finish (served s) c s.netLocal.readSize := by
  unfold httpRead
  dsimp only
  rw [if_pos hh, primed_of_hit hh]
  rfl

theorem httpRead_miss {s : Dev} {c : Call} (hh : ¬ hit (primed s.http s.netLocal) s.netLocal = true) :
    httpRead s c = ({ s with
      http := { primed s.http s.netLocal with recvOffset := 0, rangeStart := resv s.netLocal },
      task := .getting { c with cnt := 3 } }, {}) := by
  unfold httpRead
  dsimp only
  rw [if_neg hh]

/-- What `http_get` leaves as it is up to the request; it may forget the size of the file. -/
structure Begins (s d : Dev) : Prop where
  recvOffset : d.http.recvOffset = 0
  fileSize   : d.http.fileSize = s.http.fileSize ∨ d.http.fileSize = 0
  rangeStart : d.http.rangeStart = s.http.rangeStart
  netLocal   : d.netLocal = s.netLocal
  pcbs       : d.pcbs = s.pcbs
  task       : d.task = s.task

theorem place_begins (s : Dev) (p : List UInt8) (len : Nat) (e : List UInt8) : Begins s (place s p len e) := by
  unfold place
  dsimp only
  split
  · exact ⟨rfl, Or.inl rfl, rfl, rfl, rfl, rfl⟩
  · exact ⟨rfl, Or.inl rfl, rfl, rfl, rfl, rfl⟩

/-- Taking the URL apart leaves the start of the window. -/
theorem parseUrl_keeps (s : Dev) : (parseUrl s).1.http.recvOffset ≤ s.http.recvOffset ∧
    ((parseUrl s).1.http.fileSize = s.http.fileSize ∨ (parseUrl s).1.http.fileSize = 0) ∧
    (parseUrl s).1.http.rangeStart = s.http.rangeStart ∧ (parseUrl s).1.netLocal = s.netLocal ∧
    (parseUrl s).1.pcbs = s.pcbs ∧ (parseUrl s).1.task = s.task := by
  have hplace : ∀ p len e, (place s p len e).http.recvOffset ≤ s.http.recvOffset ∧
      ((place s p len e).http.fileSize = s.http.fileSize ∨ (place s p len e).http.fileSize = 0) ∧
      (place s p len e).http.rangeStart = s.http.rangeStart ∧ (place s p len e).netLocal = s.netLocal ∧
      (place s p len e).pcbs = s.pcbs ∧ (place s p len e).task = s.task := fun p len e => by
    obtain ⟨h₁, h₂, h₃, h₄, h₅, h₆⟩ := place_begins s p len e
    exact ⟨by omega, h₂, h₃, h₄, h₅, h₆⟩
  unfold parseUrl
  dsimp only
  split
  · exact ⟨Nat.le_refl _, .inl rfl, rfl, rfl, rfl, rfl⟩
  · split
    · split
      · exact ⟨Nat.le_refl _, .inl rfl, rfl, rfl, rfl, rfl⟩
      · exact hplace ..
    · split
      · exact ⟨Nat.le_refl _, .inl rfl, rfl, rfl, rfl, rfl⟩
      · exact ⟨Nat.le_refl _, .inl rfl, rfl, rfl, rfl, rfl⟩
    · split
      · exact ⟨Nat.le_refl _, .inl rfl, rfl, rfl, rfl, rfl⟩
      · exact hplace ..
    · exact ⟨Nat.zero_le _, .inr rfl, rfl, rfl, rfl, rfl⟩

/-- Taking the URL apart leaves an empty buffer empty. -/
theorem parseUrl_begins {s : Dev} (h0 : s.http.recvOffset = 0) : Begins s (parseUrl s).1 := by
  obtain ⟨h₁, h₂, h₃, h₄, h₅, h₆⟩ := parseUrl_keeps s
  exact ⟨Nat.le_zero.1 (h0 ▸ h₁), h₂, h₃, h₄, h₅, h₆⟩

/-- The range a request asks for fits the buffer, and ends with the buffer or the file. -/
def Fits (size : Nat) (q : Request) : Prop :=
  q.stop ≤ q.first + bufSize ∧
    (q.first < size → size < 2147483648 → q.stop = q.first + bufSize ∨ q.stop = size)

theorem writeRequest_some {s d : Dev} {q : Request} (h : writeRequest s = (d, some q)) :
    q.first = s.http.rangeStart ∧ q.stop = d.http.rangeEnd ∧
      ∀ size, s.http.fileSize = 0 ∨ s.http.fileSize = size → Fits size q := by
  unfold writeRequest at h
  dsimp only at h
  split at h
  · cases h
  · simp only [Prod.mk.injEq, Option.some.injEq] at h
    obtain ⟨rfl, rfl⟩ := h
    refine ⟨rfl, rfl, fun size hsize => ?_⟩
    have hbuf : bufSize = 40908 := rfl
    unfold Fits
    dsimp only
    unfold rangeSize
    split
    · rename_i hc
      unfold u32 at hc ⊢
      omega
    · unfold u32
      omega

theorem writeRequest_keeps (s : Dev) :
    (writeRequest s).1.http.recvOffset = s.http.recvOffset ∧ (writeRequest s).1.pcbs = s.pcbs ∧
      (writeRequest s).1.http.rangeStart = s.http.rangeStart ∧ (writeRequest s).1.http.fileSize = s.http.fileSize := by
  unfold writeRequest
  dsimp only
  split
  · exact ⟨rfl, rfl, rfl, rfl⟩
  · exact ⟨rfl, rfl, rfl, rfl⟩

theorem writeRequest_netLocal (s : Dev) : (writeRequest s).1.netLocal = s.netLocal := by
  unfold writeRequest
  dsimp only
  split
  · rfl
  · rfl

/-- The request of a connection that is opening has not been sent. -/
def Unsent (s : Dev) : Prop := ∀ c i, s.task = .connecting c i → s.request i = none ∧ i < s.pcbs.length

/-- What a step that is not a segment does: it leaves the window as it is, outside of `http_get`; or it is part of
`http_get` and leaves the buffer empty; or it sends the request. -/
inductive Moves (s : Dev) (e : Ev) (d : Dev) : Prop where
  | same (hwin : SameWindow s d) (hs : s.task.fetching = false) (hd : d.task.fetching = false)
      (hreq : ∀ j, d.request j = s.request j)
  | fetch (h0 : d.http.recvOffset = 0) (hf : s.task.fetching = true ∨ d.task.fetching = true)
      (hsize : d.http.fileSize = s.http.fileSize ∨ d.http.fileSize = 0) (hreq : ∀ j, d.request j = s.request j) (hu : Unsent d)
  | sent (c : Call) (i : Nat) (ok : Bool) (q : Request) (he : e = .go ok) (hs : s.task = .connecting c i)
      (hd : d.task = .pending c) (hreq : ∀ j, d.request j = if j = i then some q else s.request j)
      (h0 : d.http.recvOffset = 0) (hsize : d.http.fileSize = s.http.fileSize) (hfirst : q.first = d.http.rangeStart)
      (hstop : q.stop = d.http.rangeEnd) (hfits : ∀ size, s.http.fileSize = 0 ∨ s.http.fileSize = size → Fits size q)

theorem request_of_pcbs {s d : Dev} (h : d.pcbs = s.pcbs) (j : Nat) : d.request j = s.request j := by
  unfold Dev.request
  rw [h]

/-- A step that leaves the task and the window alone. -/
theorem Moves.of_same {s d : Dev} (e : Ev) (hwin : SameWindow s d) (ht : d.task = s.task)
    (hreq : ∀ j, d.request j = s.request j) (hlen : d.pcbs.length = s.pcbs.length)
    (h0 : s.task.fetching = true → s.http.recvOffset = 0) (hu : Unsent s) : Moves s e d := by
  cases hf : s.task.fetching with
  | false => exact .same hwin hf (by rw [ht, hf]) hreq
  | true =>
    refine .fetch (hwin.recvOffset.trans (h0 hf)) (Or.inl hf) (Or.inl hwin.fileSize) hreq (fun c i hc => ?_)
    rw [hreq, hlen]
    exact hu c i (ht.symm.trans hc)

/-- A call of `http_read` ends outside of `http_get`. -/
theorem Moves.finish {s d : Dev} (e : Ev) (c : Call) (n : Nat) (hwin : SameWindow s d) (hs : s.task.fetching = false)
    (hpcbs : d.pcbs = s.pcbs) : Moves s e (finish d c n).1 := by
  obtain ⟨t, k, ht, hfin⟩ := finish_fst d c n
  rw [hfin]
  refine .same ⟨hwin.1, hwin.2, hwin.3, hwin.4, hwin.5, hwin.6⟩ hs ?_ (request_of_pcbs hpcbs)
  rcases ht with rfl | rfl
  · rfl
  · rfl

/-- `http_get` fails. -/
theorem Moves.fail {s d : Dev} (e : Ev) (c : Call) (n : Nat) (hs : s.task.fetching = true)
    (h0 : d.http.recvOffset = 0) (hsize : d.http.fileSize = s.http.fileSize ∨ d.http.fileSize = 0)
    (hreq : ∀ j, d.request j = s.request j) : Moves s e (Sta.finish d c n).1 := by
  obtain ⟨t, k, ht, hfin⟩ := finish_fst d c n
  rw [hfin]
  refine .fetch h0 (Or.inl hs) hsize hreq (fun c' i hc => ?_)
  rcases ht with rfl | rfl
  · cases hc
  · cases hc

theorem Moves.httpRead {s d : Dev} (e : Ev) (c : Call) (hwin : SameWindow s d) (hs : s.task.fetching = false)
    (hpcbs : d.pcbs = s.pcbs) : Moves s e (httpRead d c).1 := by
  by_cases hh : hit (primed d.http d.netLocal) d.netLocal = true
  · rw [httpRead_hit hh]
    exact .finish e c _ ⟨hwin.1, hwin.2, hwin.3, hwin.4, hwin.5, hwin.6⟩ hs hpcbs
  · rw [httpRead_miss hh]
    refine .fetch rfl (Or.inr rfl) (Or.inl ?_) (request_of_pcbs hpcbs) (fun c' i hc => by cases hc)
    exact (primed_fileSize d.http d.netLocal).trans hwin.fileSize

theorem Moves.startGet {s : Dev} (e : Ev) (c : Call) (hs : s.task = .getting c) (h0 : s.http.recvOffset = 0) :
    Moves s e (startGet s c).1 := by
  have hf : s.task.fetching = true := by rw [hs]; rfl
  obtain ⟨h1, hsize, -, -, h2, h3⟩ := parseUrl_begins (s := { s with readSem := 0 }) h0
  unfold Sta.startGet
  cases hp : parseUrl { s with readSem := 0 } with
  | mk d port =>
    rw [hp] at h1 h2 h3 hsize
    cases port with
    | none =>
      dsimp only
      split
      · exact .fetch h1 (Or.inl hf) hsize (request_of_pcbs h2) (fun c' i hc => by cases (h3.trans hs).symm.trans hc)
      · exact .fail e c 0 hf h1 hsize (request_of_pcbs h2)
    | some port =>
      dsimp only
      unfold resolve
      dsimp only
      split
      · split
        · exact .fetch h1 (Or.inl hf) hsize (request_of_pcbs h2) (fun c' i hc => by cases hc)
        · exact .fetch h1 (Or.inl hf) (Or.inr rfl) (request_of_pcbs h2) (fun c' i hc => by cases hc)
      · exact .fetch h1 (Or.inl hf) hsize (request_of_pcbs h2) (fun c' i hc => by cases hc)

theorem request_createPcb (s : Dev) (c : Call) (port : Int) (refused : Bool) (j : Nat) :
    (createPcb s c port refused).request j = s.request j := by
  unfold Dev.request createPcb
  dsimp only
  rcases Nat.lt_trichotomy j s.pcbs.length with hj | hj | hj
  · rw [List.getElem?_append_left hj]
  · subst hj
    rw [List.getElem?_append_right (Nat.le_refl _), Nat.sub_self, List.getElem?_eq_none (Nat.le_refl _)]
    rfl
  · rw [List.getElem?_eq_none (by rw [List.length_append]; exact hj), List.getElem?_eq_none (Nat.le_of_lt hj)]

theorem Moves.createPcb {s : Dev} (e : Ev) (c : Call) (port : Int) (refused : Bool) (hs : s.task.fetching = true)
    (h0 : s.http.recvOffset = 0) : Moves s e (createPcb s c port refused) := by
  have hnew := request_createPcb s c port refused
  refine .fetch h0 (Or.inl hs) (Or.inl rfl) hnew (fun c' i hc => ?_)
  have hi : i = s.pcbs.length := by cases hc; rfl
  subst hi
  refine ⟨(hnew _).trans ?_, ?_⟩
  · unfold Dev.request
    rw [List.getElem?_eq_none (Nat.le_refl _)]
    rfl
  · show s.pcbs.length < (s.pcbs ++ [_]).length
    rw [List.length_append]
    exact Nat.lt_succ_self _

theorem Moves.abandon {s : Dev} (e : Ev) (c : Call) (i : Nat) (hs : s.task.fetching = true)
    (h0 : s.http.recvOffset = 0) : Moves s e (abandon s c i).1 :=
  .fail e c 0 hs h0 (Or.inl rfl) (fun j => request_setPcb (f := Pcb.detach) (fun _ => rfl) j)

theorem Moves.sendGet {s : Dev} (c : Call) (i : Nat) (ok : Bool) (hs : s.task = .connecting c i)
    (h0 : s.http.recvOffset = 0) (hu : Unsent s) : Moves s (.go ok) (sendGet s c i ok).1 := by
  have hf : s.task.fetching = true := by rw [hs]; rfl
  obtain ⟨h1, h2, h3, h4⟩ := writeRequest_keeps s
  unfold Sta.sendGet
  split
  · exact .abandon _ c i hf h0
  · split
    · rename_i d hw
      rw [hw] at h1 h2 h4
      exact .fetch (h1.trans h0) (Or.inl hf) (Or.inl h4) (request_of_pcbs h2) (fun c' i hc => by cases hc)
    · rename_i d q hw
      obtain ⟨hfirst, hstop, hfits⟩ := writeRequest_some hw
      rw [hw] at h1 h2 h3 h4
      split
      · have hi : i < d.pcbs.length := by rw [h2]; exact (hu c i hs).2
        refine .sent c i ok q rfl hs rfl (fun j => ?_) (h1.trans h0) h4 (hfirst.trans h3.symm) hstop hfits
        exact (request_setPcb_self (List.getElem?_eq_getElem hi) j).trans
          (by split; exact rfl; exact request_of_pcbs h2 j)
      · exact .fail _ c 0 hf (h1.trans h0) (Or.inl h4) (request_of_pcbs h2)

theorem SameWindow.refl (s : Dev) : SameWindow s s := ⟨rfl, rfl, rfl, rfl, rfl, rfl⟩

theorem Moves.resumed {s : Dev} (c : Call) (hs : s.task = .pending c) (hc : s.http.recvOffset ≠ 0 → s.netRecvErr = 0) :
    Moves s .resume (resumed { s with readSem := s.readSem - 1 } c).1 := by
  have hf : s.task.fetching = false := by rw [hs]; rfl
  unfold Sta.resumed
  split
  · rename_i herr
    refine .fetch ?_ (Or.inr rfl) (Or.inl rfl) (fun j => rfl) (fun c' i hc => by cases hc)
    by_contra hne
    exact herr.1 (hc hne)
  · exact .finish _ _ _ ⟨rfl, rfl, rfl, rfl, rfl, rfl⟩ hf rfl

theorem step_moves {s d : Dev} {e : Ev} {o : Out} (h : step s e = some (d, o)) (hseg : ∀ i p, e ≠ .segment i p)
    (h0 : s.task.fetching = true → s.http.recvOffset = 0) (hc : s.http.recvOffset ≠ 0 → s.netRecvErr = 0)
    (hu : Unsent s) : Moves s e d := by
  obtain ⟨-, ht⟩ := step_took h
  cases e with
  | fOpen =>
    obtain ⟨hs, hr⟩ := ht
    have hd : d = (netFOpen s).1 := congrArg Prod.fst hr
    have hmiss : ∀ (t : Dev) (c : Call), t.http.recvOffset = 0 → ¬ hit (primed t.http t.netLocal) t.netLocal = true :=
      fun t c h => by
        have := primed_recvOffset t.http t.netLocal
        simp [hit, this, h]
    rw [hd]
    unfold netFOpen
    dsimp only
    rw [httpRead_miss (hmiss _ ⟨true, 0, 0, 0, 0⟩ rfl)]
    exact .fetch rfl (Or.inr rfl) (Or.inr rfl) (fun j => rfl) (fun c' i hc => by cases hc)
  | seek type offset =>
    obtain ⟨hs, hr⟩ := ht
    have hd : d = (netFSeek s type offset).1 := congrArg Prod.fst hr
    rw [hd]
    unfold netFSeek
    split
    · split
      · exact .of_same _ ⟨rfl, rfl, rfl, rfl, rfl, rfl⟩ rfl (fun j => rfl) rfl h0 hu
      · exact .of_same _ ⟨rfl, rfl, rfl, rfl, rfl, rfl⟩ rfl (fun j => rfl) rfl h0 hu
    · exact .of_same _ (.refl s) rfl (fun j => rfl) rfl h0 hu
  | announce len =>
    obtain ⟨hs, hr⟩ := ht
    have hd : d = (netFSendUpdateLen s len).1 := congrArg Prod.fst hr
    rw [hd]
    unfold netFSendUpdateLen
    split
    · exact .of_same _ (.refl s) rfl (fun j => rfl) rfl h0 hu
    · exact .of_same _ ⟨rfl, rfl, rfl, rfl, rfl, rfl⟩ rfl (fun j => rfl) rfl h0 hu
  | read buf len =>
    obtain ⟨hs, hr⟩ := ht
    have hd : d = (netFRead s buf len).1 := congrArg Prod.fst hr
    have hf : s.task.fetching = false := by rw [hs]; rfl
    rw [hd]
    unfold netFRead
    split
    · exact .of_same _ (.refl s) rfl (fun j => rfl) rfl h0 hu
    · exact .same ⟨rfl, rfl, rfl, rfl, rfl, rfl⟩ hf rfl (fun j => rfl)
  | run =>
    rcases ht with ⟨c, hs, hr⟩ | ⟨c, hs, hr⟩
    · rw [show d = (httpRead s { c with tries := c.tries - 1 }).1 from congrArg Prod.fst hr]
      exact .httpRead _ _ (.refl s) (by rw [hs]; rfl) rfl
    · rw [show d = (startGet s c).1 from congrArg Prod.fst hr]
      exact .startGet _ c hs (h0 (by rw [hs]; rfl))
  | resolved addr =>
    cases addr with
    | none =>
      obtain ⟨c, port, hs, hr⟩ := ht
      have hf : s.task.fetching = true := by rw [hs]; rfl
      rw [show d = (finish s c 0).1 from congrArg Prod.fst hr]
      exact .fail _ c 0 hf (h0 hf) (Or.inl rfl) (fun j => rfl)
    | some a =>
      obtain ⟨c, port, hs, hr⟩ := ht
      have hf : s.task.fetching = true := by rw [hs]; rfl
      cases hr
      exact .fetch (h0 hf) (Or.inl hf) (Or.inr rfl) (fun j => rfl) (fun c' i hc => by cases hc)
  | create ok refused =>
    obtain ⟨c, port, hs, hr⟩ := ht
    have hf : s.task.fetching = true := by rw [hs]; rfl
    cases ok with
    | true =>
      rw [show d = createPcb s c port refused from congrArg Prod.fst hr]
      exact .createPcb _ c port refused hf (h0 hf)
    | false =>
      rw [show d = (finish s c 0).1 from congrArg Prod.fst hr]
      exact .fail _ c 0 hf (h0 hf) (Or.inl rfl) (fun j => rfl)
  | go sent =>
    obtain ⟨c, i, hs, -, hr⟩ := ht
    rw [show d = (sendGet s c i sent).1 from congrArg Prod.fst hr]
    exact .sendGet c i sent hs (h0 (by rw [hs]; rfl)) hu
  | giveUp =>
    obtain ⟨c, i, hs, hr⟩ := ht
    have hf : s.task.fetching = true := by rw [hs]; rfl
    rw [show d = (abandon s c i).1 from congrArg Prod.fst hr]
    exact .abandon _ c i hf (h0 hf)
  | resume =>
    obtain ⟨c, hs, -, hr⟩ := ht
    rw [show d = (resumed { s with readSem := s.readSem - 1 } c).1 from congrArg Prod.fst hr]
    exact .resumed c hs hc
  | timeout =>
    obtain ⟨c, hs, -, hr⟩ := ht
    rw [show d = (finish s c 0).1 from congrArg Prod.fst hr]
    exact .finish _ c 0 (.refl s) (by rw [hs]; rfl) rfl
  | connect i =>
    cases ht
    exact .of_same _ ⟨rfl, rfl, rfl, rfl, rfl, rfl⟩ rfl
      (fun j => request_setPcb (f := fun p => { p with recv := true }) (fun _ => rfl) j) (List.length_modify ..) h0 hu
  | segment i p => exact absurd rfl (hseg i p)
  | close i =>
    rw [show d = msgclose s i from congrArg Prod.fst ht]
    have hreq : ∀ j, (setPcb s i Pcb.detach).request j = s.request j :=
      fun j => request_setPcb (f := Pcb.detach) (fun _ => rfl) j
    unfold msgclose
    dsimp only
    split
    · exact .of_same _ ⟨rfl, rfl, rfl, rfl, rfl, rfl⟩ rfl hreq (List.length_modify ..) h0 hu
    · exact .of_same _ ⟨rfl, rfl, rfl, rfl, rfl, rfl⟩ rfl hreq (List.length_modify ..) h0 hu

/-! ## What holds between the buffer and the connections -/

structure Coherent (file : List UInt8) (answer : Nat → Answer) (w : Web) : Prop where
  window   : w.dev.http.buf.read 0 w.dev.http.recvOffset =
    (file.drop w.dev.http.rangeStart).take w.dev.http.recvOffset
  clear    : w.dev.http.recvOffset ≠ 0 → w.dev.netRecvErr = 0
  fetching : w.dev.task.fetching = true → w.dev.http.recvOffset = 0 ∧ w.cur = none
  unsent   : Unsent w.dev
  size     : w.dev.http.fileSize = 0 ∨ w.dev.http.fileSize = file.length
  small    : w.dev.http.recvOffset ≠ 0 → file.length < 2147483648
  ends     : w.dev.http.recvOffset ≠ 0 →
    w.dev.http.rangeEnd = w.dev.http.rangeStart + bufSize ∨ w.dev.http.rangeEnd = file.length
  asked    : ∀ i q, w.dev.request i = some q → Fits file.length q
  cur      : ∀ i, w.cur = some i →
    ∃ q, w.dev.request i = some q ∧ q.first = w.dev.http.rangeStart ∧ q.stop = w.dev.http.rangeEnd
  synced   : ∀ i, w.cur = some i → w.dev.http.recvOffset ≠ 0 →
    ∃ r, answer i = .content r ∧ w.got i = r.head.length + w.dev.http.recvOffset ∧ w.dev.http.fileSize = file.length

theorem next_got {w : Web} {e : Ev} {d : Dev} (he : ∀ i p, e ≠ .segment i p) : (w.next e d).got = w.got := by
  cases e with
  | segment i p => exact absurd rfl (he i p)
  | _ => rfl

theorem next_cur_same {w : Web} {e : Ev} {d : Dev} (hs : w.dev.task.fetching = false) (hd : d.task.fetching = false) :
    (w.next e d).cur = w.cur := by
  unfold Web.next
  dsimp only
  rw [hd, if_neg (by decide)]
  split
  · rename_i hc
    rw [hc] at hs
    cases hs
  · rfl

theorem next_cur_fetch {w : Web} {e : Ev} {d : Dev} (hf : w.dev.task.fetching = true ∨ d.task.fetching = true)
    (hcur : w.dev.task.fetching = true → w.cur = none) (hreq : ∀ j, d.request j = w.dev.request j)
    (hu : Unsent w.dev) : (w.next e d).cur = none := by
  unfold Web.next
  dsimp only
  by_cases hd : d.task.fetching = true
  · rw [if_pos hd]
  rw [if_neg hd]
  split
  · rename_i c i hc
    rw [hreq, (hu c i hc).1]
    rfl
  · exact hcur (hf.resolve_right hd)

/-- **A step that is not a segment keeps what holds.** -/
theorem Coherent.moves {file : List UInt8} {answer : Nat → Answer} {w : Web} {e : Ev} {d : Dev}
    (h : Coherent file answer w) (hm : Moves w.dev e d) (he : ∀ i p, e ≠ .segment i p) :
    Coherent file answer (w.next e d) := by
  have hgot := next_got (w := w) (d := d) he
  cases hm with
  | same hwin hs hd hreq =>
    obtain ⟨h1, h2, h3, h4, h5, h6⟩ := hwin
    have hcur : ∀ i, (w.next e d).cur = some i → w.cur = some i := fun i hi => by
      rw [← next_cur_same (e := e) hs hd, hi]
    refine ⟨?_, ?_, fun hf => ?_, fun c i hc => ?_, ?_, ?_, ?_, fun i q hi => h.asked i q ((hreq i).symm.trans hi), fun i hi => ?_,
      fun i hi hne => ?_⟩
    · show d.http.buf.read 0 d.http.recvOffset = (file.drop d.http.rangeStart).take d.http.recvOffset
      rw [h1, h2, h5]
      exact h.window
    · show d.http.recvOffset ≠ 0 → d.netRecvErr = 0
      rw [h1, h6]
      exact h.clear
    · exact absurd hf (by rw [show (w.next e d).dev = d from rfl, hd]; decide)
    · have hc' : d.task = .connecting c i := hc
      rw [hc'] at hd
      cases hd
    · show d.http.fileSize = 0 ∨ d.http.fileSize = file.length
      rw [h4]
      exact h.size
    · show d.http.recvOffset ≠ 0 → file.length < 2147483648
      rw [h1]
      exact h.small
    · show d.http.recvOffset ≠ 0 → d.http.rangeEnd = d.http.rangeStart + bufSize ∨ d.http.rangeEnd = file.length
      rw [h1, h2, h3]
      exact h.ends
    · obtain ⟨q, hq, hfirst, hstop⟩ := h.cur i (hcur i hi)
      exact ⟨q, (hreq i).trans hq, hfirst.trans h2.symm, hstop.trans h3.symm⟩
    · have hne' : w.dev.http.recvOffset ≠ 0 := fun h0 => hne (h1.trans h0)
      obtain ⟨r, hr, hg, hsize⟩ := h.synced i (hcur i hi) hne'
      refine ⟨r, hr, ?_, h4.trans hsize⟩
      rw [hgot, hg, show (w.next e d).dev = d from rfl, h1]
  | fetch h0 hf hsize hreq hu =>
    have hcur := next_cur_fetch (e := e) hf (fun hs => (h.fetching hs).2) hreq h.unsent
    have hzero : (w.next e d).dev.http.recvOffset = 0 := h0
    refine ⟨?_, fun hne => absurd hzero hne, fun _ => ⟨hzero, hcur⟩, hu, ?_, fun hne => absurd hzero hne,
      fun hne => absurd hzero hne,
      fun i q hi => h.asked i q ((hreq i).symm.trans hi), fun i hi => ?_, fun i hi => ?_⟩
    · rw [hzero]
      rfl
    · rcases hsize with hs | hs
      · show d.http.fileSize = 0 ∨ d.http.fileSize = file.length
        rw [hs]
        exact h.size
      · exact Or.inl hs
    · rw [hcur] at hi
      cases hi
    · rw [hcur] at hi
      cases hi
  | sent c i ok q he' hs hd hreq h0 hsize hfirst hstop hfits =>
    have hzero : (w.next e d).dev.http.recvOffset = 0 := h0
    have hf : d.task.fetching = false := by rw [hd]; rfl
    have hi : d.request i = some q := by rw [hreq, if_pos rfl]
    have hcur : (w.next e d).cur = some i := by
      subst he'
      unfold Web.next
      dsimp only
      rw [hf, if_neg (by decide), hs]
      dsimp only
      rw [hi]
      rfl
    refine ⟨?_, fun hne => absurd hzero hne, fun hf' => ?_, fun c' i' hc => ?_, ?_, fun hne => absurd hzero hne,
      fun hne => absurd hzero hne, fun j q' hj => ?_, fun j hj => ?_, fun j hj hne => absurd hzero hne⟩
    · rw [hzero]
      rfl
    · exact absurd hf' (by rw [show (w.next e d).dev = d from rfl, hf]; decide)
    · have hc' : d.task = .connecting c' i' := hc
      rw [hd] at hc'
      cases hc'
    · show d.http.fileSize = 0 ∨ d.http.fileSize = file.length
      rw [hsize]
      exact h.size
    · have hj' : d.request j = some q' := hj
      rw [hreq] at hj'
      split at hj'
      · cases hj'
        exact hfits file.length h.size
      · exact h.asked j q' hj'
    · rw [hcur] at hj
      cases hj
      exact ⟨q, hi, hfirst, hstop⟩

/-! ## Segments -/

/-- What a segment of a clean run does before `msgrecv` looks whether the window is complete. -/
inductive Brings (answer : Nat → Answer) (w : Web) (i : Nat) (p : List UInt8) (d : Dev) : Prop where
  | nothing (hd : d = w.dev) (hroom : bufSize < w.dev.http.recvOffset + p.length)
  | error (h0 : w.dev.http.recvOffset = 0) (hd : d = recvErr { w.dev with http := laid w.dev p })
  | first (r : Response) (b : List UInt8) (k : Nat) (m : Mem) (hcur : w.cur = some i) (ha : answer i = .content r)
      (hgot : w.got i = 0) (h0 : w.dev.http.recvOffset = 0) (hp : p = r.head ++ b) (hb : b = r.body.take b.length)
      (hm : m.read 0 b.length = b)
      (hd : d = { w.dev with
        http := { w.dev.http with contentLength := k, fileSize := r.total, buf := m, recvOffset := b.length },
        netRecvErr := 0 })
  | more (r : Response) (hcur : w.cur = some i) (ha : answer i = .content r) (hne : w.dev.http.recvOffset ≠ 0)
      (hgot : w.got i = r.head.length + w.dev.http.recvOffset)
      (hp : p = (r.body.drop w.dev.http.recvOffset).take p.length)
      (hd : d = { w.dev with http := { w.dev.http with
        buf := w.dev.http.buf.write w.dev.http.recvOffset p, recvOffset := w.dev.http.recvOffset + p.length } })

theorem prefix_take {α : Type} {p l : List α} (h : p <+: l) : p = l.take p.length :=
  List.prefix_iff_eq_take.1 h

/-- **What a segment of a clean run brings.** -/
theorem segment_brings {file : List UInt8} {answer : Nat → Answer} {w : Web} {i : Nat} {p : List UInt8}
    (h : Coherent file answer w) (hh : Honest file answer w (.segment i p)) (hc : Clean answer w (.segment i p)) :
    Brings answer w i p (collected w.dev p) := by
  obtain ⟨-, hpre, q, hq, hserves⟩ := hh
  unfold collected
  split
  swap
  · exact .nothing rfl (by omega)
  rename_i hroom
  obtain ⟨hmore, hfirst⟩ := hc hroom
  by_cases h0 : w.dev.http.recvOffset = 0
  · by_cases hfind : find (ascii "HTTP/1.1 206") ((laid w.dev p).whole w.dev.beyond) = none
    · refine .error h0 ?_
      rw [collect_start h0]
      unfold parseHead
      dsimp only
      rw [show (laid w.dev p).buf.cstr (bufSize + w.dev.beyond) 0 = (laid w.dev p).whole w.dev.beyond from rfl, hfind]
    · obtain ⟨hcur, hgot, r, ha, hlen, hfound⟩ := hfirst h0 hfind
      rw [ha] at hpre hserves
      rw [hgot, List.drop_zero] at hpre
      have hpre' := prefix_take hpre
      rw [Answer.bytes, (split_first hlen).1] at hpre'
      generalize hbody : r.body.take (p.length - r.head.length) = b at hpre'
      subst hpre'
      rw [List.length_append, Nat.add_sub_cancel_left] at hbody
      rw [h0, Nat.zero_add] at hroom
      obtain ⟨k, m, hcol, hm⟩ := collect_first hserves.1 h0 hroom hfound
      exact .first r b k m hcur ha hgot h0 rfl hbody.symm hm hcol
  · obtain ⟨r, ha, hgot, -⟩ := h.synced i (hmore h0) h0
    refine .more r (hmore h0) ha h0 hgot ?_ (collect_more h0)
    rw [ha, hgot, Answer.bytes, Response.bytes, List.drop_append, List.drop_eq_nil_of_le (Nat.le_add_right ..),
      List.nil_append, Nat.add_sub_cancel_left] at hpre
    exact prefix_take hpre

theorem recvErr_spec (s : Dev) :
    (recvErr s).http.recvOffset ≤ s.http.recvOffset ∧ (recvErr s).http.rangeStart = s.http.rangeStart ∧
      (recvErr s).http.rangeEnd = s.http.rangeEnd ∧ (recvErr s).http.fileSize = s.http.fileSize ∧
      (recvErr s).task = s.task ∧ (recvErr s).pcbs = s.pcbs ∧ (recvErr s).fault = s.fault ∧
      (recvErr s).netLocal = s.netLocal := by
  unfold recvErr
  dsimp only
  split
  · exact ⟨Nat.zero_le _, rfl, rfl, rfl, rfl, rfl, rfl, rfl⟩
  · exact ⟨Nat.le_refl _, rfl, rfl, rfl, rfl, rfl, rfl, rfl⟩

/-- A segment leaves the start of the window, the place of the request, the task and the connections. -/
theorem collected_keeps (s : Dev) (p : List UInt8) : (collected s p).http.rangeStart = s.http.rangeStart ∧
    (collected s p).http.sendBuf = s.http.sendBuf ∧ (collected s p).netLocal = s.netLocal ∧
    (collected s p).pcbs = s.pcbs ∧ (collected s p).task = s.task := by
  have herr : ∀ d : Dev, (recvErr d).http.rangeStart = d.http.rangeStart ∧
      (recvErr d).http.sendBuf = d.http.sendBuf ∧ (recvErr d).netLocal = d.netLocal ∧ (recvErr d).pcbs = d.pcbs ∧
      (recvErr d).task = d.task := fun d => by
    unfold recvErr
    dsimp only
    split
    · exact ⟨rfl, rfl, rfl, rfl, rfl⟩
    · exact ⟨rfl, rfl, rfl, rfl, rfl⟩
  unfold collected
  split
  swap
  · exact ⟨rfl, rfl, rfl, rfl, rfl⟩
  by_cases h0 : s.http.recvOffset = 0
  · rw [collect_start h0]
    split
    · exact herr _
    · rename_i h' c hp
      obtain ⟨k, n, rfl⟩ := parseHead_fst hp
      unfold takeBody
      split
      · exact ⟨rfl, rfl, rfl, rfl, rfl⟩
      · exact ⟨rfl, rfl, rfl, rfl, rfl⟩
    · rename_i h' hp
      obtain ⟨k, n, rfl⟩ := parseHead_fst hp
      exact herr _
  · rw [collect_more h0]
    exact ⟨rfl, rfl, rfl, rfl, rfl⟩

/-- The response continues the file where the window ends. -/
theorem serves_continues {file : List UInt8} {q : Request} {r : Response} (hs : Serves file q (.content r)) {n : Nat}
    {p : List UInt8} (hp : p = (r.body.drop n).take p.length) :
    p = (file.drop (q.first + n)).take p.length ∧ (p ≠ [] → n + p.length ≤ r.body.length) := by
  obtain ⟨-, hfirst, -, -, hbody⟩ := hs
  have hlen : p.length ≤ r.body.length - n := by
    have := congrArg List.length hp
    rw [List.length_take, List.length_drop] at this
    omega
  refine ⟨?_, fun hne => ?_⟩
  · rw [hbody, hfirst, List.drop_take, List.take_take, List.drop_drop, Nat.min_eq_left hlen] at hp
    exact hp
  · have := List.length_pos_iff.2 hne
    omega

/-- No response brings more than the buffer holds. -/
theorem Coherent.body_le {file : List UInt8} {answer : Nat → Answer} {w : Web} (h : Coherent file answer w) {i : Nat}
    {q : Request} {r : Response} (hq : w.dev.request i = some q) (hs : Serves file q (.content r)) :
    r.body.length ≤ bufSize := by
  obtain ⟨hw, hfirst, hlast, -, -⟩ := hs
  have h1 := hw.body
  have h2 := hw.range
  have h3 := (h.asked i q hq).1
  omega

theorem next_segment_cur {w : Web} {i : Nat} {p : List UInt8} {d : Dev} (ht : d.task = w.dev.task)
    (hf : w.dev.task.fetching = true → w.cur = none) : (w.next (.segment i p) d).cur = w.cur := by
  unfold Web.next
  dsimp only
  rw [ht]
  split
  · exact (hf ‹_›).symm
  · rfl

/-- A segment leaves the task and the connections as they are. -/
theorem Brings.frame {answer : Nat → Answer} {w : Web} {i : Nat} {p : List UInt8} {d : Dev}
    (h : Brings answer w i p d) : d.task = w.dev.task ∧ d.pcbs = w.dev.pcbs ∧
      d.http.rangeStart = w.dev.http.rangeStart ∧ d.http.rangeEnd = w.dev.http.rangeEnd ∧ d.fault = w.dev.fault ∧
      d.netLocal = w.dev.netLocal := by
  cases h with
  | nothing hd hroom =>
    subst hd
    exact ⟨rfl, rfl, rfl, rfl, rfl, rfl⟩
  | error h0 hd =>
    subst hd
    obtain ⟨-, h1, h2, -, h3, h4, h5, h6⟩ := recvErr_spec { w.dev with http := laid w.dev p }
    exact ⟨h3, h4, h1, h2, h5, h6⟩
  | first r b k m hcur ha hgot h0 hp hb hm hd =>
    subst hd
    exact ⟨rfl, rfl, rfl, rfl, rfl, rfl⟩
  | more r hcur ha hne hgot hp hd =>
    subst hd
    exact ⟨rfl, rfl, rfl, rfl, rfl, rfl⟩

/-- What the segment leaves in the buffer is the file from the window's start. -/
theorem Brings.window {file : List UInt8} {answer : Nat → Answer} {w : Web} {i : Nat} {p : List UInt8} {d : Dev}
    (h : Coherent file answer w) (hh : Honest file answer w (.segment i p)) (hb : Brings answer w i p d) :
    d.http.buf.read 0 d.http.recvOffset = (file.drop w.dev.http.rangeStart).take d.http.recvOffset := by
  obtain ⟨-, -, q, hq, hserves⟩ := hh
  cases hb with
  | nothing hd hroom =>
    subst hd
    exact h.window
  | error h0 hd =>
    have hle := (recvErr_spec { w.dev with http := laid w.dev p }).1
    have hzero : d.http.recvOffset = 0 := by
      rw [hd]
      exact Nat.le_zero.1 (Nat.le_trans hle (Nat.le_of_eq h0))
    rw [hzero]
    rfl
  | first r b k m hcur ha hgot h0 hp hb hm hd =>
    obtain ⟨q', hq', hfirst, -⟩ := h.cur i hcur
    rw [hq] at hq'
    cases hq'
    rw [ha] at hserves
    have hfile := (serves_continues hserves (n := 0) (by rw [List.drop_zero]; exact hb)).1
    rw [Nat.add_zero, hfirst] at hfile
    subst hd
    exact hm.trans hfile
  | more r hcur ha hne hgot hp hd =>
    obtain ⟨q', hq', hfirst, -⟩ := h.cur i hcur
    rw [hq] at hq'
    cases hq'
    rw [ha] at hserves
    have hfile := (serves_continues hserves hp).1
    rw [hfirst] at hfile
    subst hd
    have hold : (w.dev.http.buf.write w.dev.http.recvOffset p).read 0 w.dev.http.recvOffset =
        (file.drop w.dev.http.rangeStart).take w.dev.http.recvOffset := by
      rw [Mem.read_write_outside (Or.inl (by omega)), h.window]
    have hnew := Mem.read_write_self w.dev.http.buf w.dev.http.recvOffset p
    dsimp only
    rw [Mem.read_add, Nat.zero_add, hold, hnew, List.take_add, List.drop_drop, ← hfile]

theorem Brings.size {file : List UInt8} {answer : Nat → Answer} {w : Web} {i : Nat} {p : List UInt8} {d : Dev}
    (h : Coherent file answer w) (hh : Honest file answer w (.segment i p)) (hb : Brings answer w i p d) :
    d.http.fileSize = 0 ∨ d.http.fileSize = file.length := by
  obtain ⟨-, -, q, hq, hserves⟩ := hh
  cases hb with
  | nothing hd hroom =>
    rw [hd]
    exact h.size
  | error h0 hd =>
    rw [hd, (recvErr_spec { w.dev with http := laid w.dev p }).2.2.2.1]
    exact h.size
  | first r b k m _ ha _ _ _ _ _ hd =>
    rw [ha] at hserves
    rw [hd]
    exact Or.inr hserves.2.2.2.1
  | more r _ _ _ _ _ hd =>
    rw [hd]
    exact h.size

theorem Brings.small {file : List UInt8} {answer : Nat → Answer} {w : Web} {i : Nat} {p : List UInt8} {d : Dev}
    (h : Coherent file answer w) (hh : Honest file answer w (.segment i p)) (hb : Brings answer w i p d) :
    d.http.recvOffset ≠ 0 → file.length < 2147483648 := by
  obtain ⟨-, -, q, hq, hserves⟩ := hh
  cases hb with
  | nothing hd hroom =>
    rw [hd]
    exact h.small
  | error h0 hd =>
    have hle := (recvErr_spec { w.dev with http := laid w.dev p }).1
    rw [hd]
    exact fun hne => absurd (Nat.le_zero.1 (Nat.le_trans hle (Nat.le_of_eq h0))) hne
  | first r b k m _ ha _ _ _ _ _ hd =>
    rw [ha] at hserves
    obtain ⟨hw, -, -, htotal, -⟩ := hserves
    exact fun _ => htotal ▸ hw.range.2.2
  | more r _ _ hne _ _ hd => exact fun _ => h.small hne

theorem Brings.ends {file : List UInt8} {answer : Nat → Answer} {w : Web} {i : Nat} {p : List UInt8} {d : Dev}
    (h : Coherent file answer w) (hh : Honest file answer w (.segment i p)) (hb : Brings answer w i p d) :
    d.http.recvOffset ≠ 0 → w.dev.http.rangeEnd = w.dev.http.rangeStart + bufSize ∨ w.dev.http.rangeEnd = file.length := by
  obtain ⟨-, -, q, hq, hserves⟩ := hh
  cases hb with
  | nothing hd hroom =>
    rw [hd]
    exact h.ends
  | error h0 hd =>
    have hle := (recvErr_spec { w.dev with http := laid w.dev p }).1
    rw [hd]
    exact fun hne => absurd (Nat.le_zero.1 (Nat.le_trans hle (Nat.le_of_eq h0))) hne
  | first r b k m hcur ha _ _ _ _ _ hd =>
    rw [ha] at hserves
    obtain ⟨hw, hr, -, htotal, -⟩ := hserves
    obtain ⟨q', hq', hfirst, hstop⟩ := h.cur i hcur
    rw [hq] at hq'
    cases hq'
    obtain ⟨h1, h2, h3⟩ := hw.range
    have hfits := (h.asked i q hq).2
    rw [← hfirst, ← hstop]
    rw [htotal] at h2 h3
    exact fun _ => hfits (by omega) h3
  | more r _ _ hne _ _ hd => exact fun _ => h.ends hne

/-- **A segment of a clean run keeps what holds.** -/
theorem Coherent.segment {file : List UInt8} {answer : Nat → Answer} {w : Web} {i : Nat} {p : List UInt8} {d : Dev}
    (h : Coherent file answer w) (hh : Honest file answer w (.segment i p)) (hc : Clean answer w (.segment i p))
    (hd : Handled (collected w.dev p) d) : Coherent file answer (w.next (.segment i p) d) := by
  have hb := segment_brings h hh hc
  obtain ⟨ht, hpcbs, hstart, hend, -⟩ := hb.frame
  have hwin := hb.window h hh
  rw [← hd.http] at hstart hend hwin
  rw [← hd.task] at ht
  rw [← hd.pcbs] at hpcbs
  have hcur := next_segment_cur (i := i) (p := p) ht (fun hf => (h.fetching hf).2)
  have hreq : ∀ j, d.request j = w.dev.request j := request_of_pcbs hpcbs
  have hdev : (w.next (.segment i p) d).dev = d := rfl
  refine ⟨?_, ?_, fun hf => ?_, fun c j hj => ?_, ?_, ?_, ?_, fun j q hj => h.asked j q ((hreq j).symm.trans hj),
    fun j hj => ?_, ?_⟩
  · rw [hdev, hwin, hstart]
  · rw [hdev, hd.http, hd.netRecvErr]
    cases hb with
    | nothing hd' hroom =>
      rw [hd']
      exact h.clear
    | error h0 hd' =>
      have hle := (recvErr_spec { w.dev with http := laid w.dev p }).1
      rw [hd']
      exact fun hne => absurd (Nat.le_zero.1 (Nat.le_trans hle (Nat.le_of_eq h0))) hne
    | first r b k m _ _ _ _ _ _ _ hd' =>
      rw [hd']
      exact fun _ => rfl
    | more r _ _ hne _ _ hd' =>
      rw [hd']
      exact fun _ => h.clear hne
  · have hf' : w.dev.task.fetching = true := by rw [← ht]; exact hf
    obtain ⟨h0, hnone⟩ := h.fetching hf'
    refine ⟨?_, hcur.trans hnone⟩
    rw [hdev, hd.http]
    cases hb with
    | nothing hd' hroom => rw [hd', h0]
    | error _ hd' =>
      have hle := (recvErr_spec { w.dev with http := laid w.dev p }).1
      rw [hd']
      exact Nat.le_zero.1 (Nat.le_trans hle (Nat.le_of_eq h0))
    | first r b k m hi _ _ _ _ _ _ _ =>
      rw [hnone] at hi
      cases hi
    | more r hi _ _ _ _ _ =>
      rw [hnone] at hi
      cases hi
  · obtain ⟨h1, h2⟩ := h.unsent c j (ht.symm.trans hj)
    refine ⟨(hreq j).trans h1, ?_⟩
    rw [hdev, hpcbs]
    exact h2
  · rw [hdev, hd.http]
    exact hb.size h hh
  · rw [hdev, hd.http]
    exact hb.small h hh
  · rw [hdev, hstart, hend, hd.http]
    exact hb.ends h hh
  · rw [hcur] at hj
    obtain ⟨q, hq, hfirst, hstop⟩ := h.cur j hj
    exact ⟨q, (hreq j).trans hq, hfirst.trans hstart.symm, hstop.trans hend.symm⟩
  · intro j hj hne
    rw [hcur] at hj
    have hgot : (w.next (.segment i p) d).got = Function.update w.got i (w.got i + p.length) := rfl
    rw [hdev, hd.http] at hne ⊢
    rw [hgot]
    cases hb with
    | nothing hd' hroom =>
      -- a segment that continues the response always finds room
      rw [hd'] at hne ⊢
      obtain ⟨r, hr, hg, hsize⟩ := h.synced j hj hne
      by_cases hij : j = i
      · subst hij
        exfalso
        obtain ⟨hp, hpre, q, hq, hserves⟩ := hh
        rw [hr] at hpre hserves
        have hlen := List.length_pos_iff.2 hp
        have hle := hpre.length_le
        have hbody := h.body_le hq hserves
        rw [List.length_drop, Answer.bytes, Response.bytes, List.length_append, hg] at hle
        omega
      · exact ⟨r, hr, by rw [Function.update_of_ne hij, hg], hsize⟩
    | error h0 hd' =>
      have hle := (recvErr_spec { w.dev with http := laid w.dev p }).1
      rw [hd'] at hne
      exact absurd (Nat.le_zero.1 (Nat.le_trans hle (Nat.le_of_eq h0))) hne
    | first r b k m hi ha hgot0 _ hp _ _ hd' =>
      rw [hi] at hj
      cases hj
      obtain ⟨-, -, q, hq, hserves⟩ := hh
      rw [ha] at hserves
      rw [hd']
      refine ⟨r, ha, ?_, hserves.2.2.2.1⟩
      rw [Function.update_self, hgot0, hp, List.length_append, Nat.zero_add]
    | more r hi ha hne' hgot' hp hd' =>
      rw [hi] at hj
      cases hj
      obtain ⟨r', hr', -, hsize⟩ := h.synced i hi hne'
      rw [hd']
      refine ⟨r, ha, ?_, hsize⟩
      rw [Function.update_self, hgot', Nat.add_assoc]

/-! ## Runs -/

/-- The bytes the buffer holds are the file's, from the window's start. -/
def Holds (file : List UInt8) (s : Dev) : Prop :=
  ∀ i, i < s.http.recvOffset → file[s.http.rangeStart + i]? = some (s.http.buf i)

/-- A segment on a connection whose wait ended in a timeout changes neither the buffer nor the count. -/
def Unmoved (w : Web) : Ev → Dev → Prop
  | .segment i _, d => i ∈ w.gone → d.http.buf = w.dev.http.buf ∧ d.http.recvOffset = w.dev.http.recvOffset
  | _, _            => True

def Web.start (s : Dev) : Web := ⟨s, none, [], fun _ => 0⟩

theorem Coherent.holds {file : List UInt8} {answer : Nat → Answer} {w : Web} (h : Coherent file answer w) :
    Holds file w.dev := by
  intro i hi
  have hget := congrArg (·[i]?) h.window
  rw [List.getElem?_take_of_lt hi, List.getElem?_drop, List.getElem?_eq_getElem (by simpa using hi)] at hget
  rw [← hget]
  simp

theorem coherent_start (file : List UInt8) (answer : Nat → Answer) (url : List UInt8) (inetAddr : List UInt8 → Nat)
    (beyond : Nat) (ram caller : Mem) : Coherent file answer (.start (fresh url inetAddr beyond ram caller)) where
  window := rfl
  clear := fun h => absurd rfl h
  fetching := fun h => by cases h
  unsent := fun c i h => by cases h
  size := Or.inl rfl
  small := fun h => absurd rfl h
  ends := fun h => absurd rfl h
  asked := fun i q h => by cases h
  cur := fun i h => by cases h
  synced := fun i h => by cases h

/-- **Each step of a clean run among honest servers keeps what holds.** -/
theorem coherent_step {file : List UInt8} {answer : Nat → Answer} {w w' : Web} {e : Ev} {o : Out}
    (h : Coherent file answer w) (hs : web.step w e = some (w', o)) (hh : Honest file answer w e)
    (hc : Clean answer w e) : Coherent file answer w' ∧ (Timely w e → Unmoved w e w'.dev) := by
  obtain ⟨⟨d, o'⟩, hd, heq⟩ := Option.map_eq_some_iff.1 hs
  simp only [Prod.mk.injEq] at heq
  obtain ⟨rfl, rfl⟩ := heq
  have hmoves : (∀ i p, e ≠ .segment i p) → Coherent file answer (w.next e d) := fun he =>
    h.moves (step_moves hd he (fun hf => (h.fetching hf).1) h.clear h.unsent) he
  cases e with
  | segment i p =>
    have hr : d = (msgrecv w.dev p).1 := congrArg Prod.fst (step_took hd).2
    have hhand := msgrecv_handled w.dev p
    rw [← hr] at hhand
    refine ⟨h.segment hh hc hhand, fun htime hgone => ?_⟩
    have hroom : ¬ w.dev.http.recvOffset + p.length ≤ bufSize := fun hroom => htime hroom hgone
    show d.http.buf = w.dev.http.buf ∧ d.http.recvOffset = w.dev.http.recvOffset
    rw [hhand.http, collected, if_neg hroom]
    exact ⟨rfl, rfl⟩
  | _ => exact ⟨hmoves (fun i p hep => by cases hep), fun _ => trivial⟩

/-- **The buffer holds the file from the window's start in every state of a clean run**, and late segments leave it as
it is. -/
theorem window_holds (file : List UInt8) (answer : Nat → Answer) (url : List UInt8) (inetAddr : List UInt8 → Nat)
    (beyond : Nat) (ram caller : Mem) (es : List Ev)
    (h : web.Along (fun w e _ _ => Honest file answer w e ∧ Clean answer w e ∧ Timely w e)
      (.start (fresh url inetAddr beyond ram caller)) es) :
    web.Along (fun w e w' _ => Holds file w'.dev ∧ Unmoved w e w'.dev) (.start (fresh url inetAddr beyond ram caller)) es :=
  Machine.along_of_inv (Coherent file answer)
    (fun _ _ _ _ hI hs hC =>
      have hI' := coherent_step hI hs hC.1 hC.2.1
      ⟨hI'.1, hI'.1.holds, hI'.2 hC.2.2⟩)
    es _ (coherent_start ..) h

/-! ## A response, and the same response late -/

def ready : Dev := fresh (ascii "http://h/f") (fun _ => 0) 0 (fun _ => 0) (fun _ => 0)

/-- `net_f_open` up to the wait for the response. -/
def opens : List Ev := [.fOpen, .run, .resolved (some 1), .create true false, .connect 0, .go true]

/-- The wait ends in a timeout, and the byte at 1 is read on another connection. -/
def opensLate : List Ev := opens ++ [.timeout, .seek 1 1, .read 9 1, .run, .run, .create true false, .go true]

def Ev.isSegment : Ev → Bool
  | .segment _ _ => true
  | _            => false

theorem along_quiet {C : Web → Ev → Prop} (hC : ∀ w e, e.isSegment = false → C w e) (es : List Ev) (w : Web)
    (h : ∀ e ∈ es, e.isSegment = false) : web.Along (fun w e _ _ => C w e) w es :=
  Machine.along_of_forall (fun w e _ _ he => hC w e he) es w h

/-- The next segment of a run of events that are none. -/
theorem along_quiet_segment {C : Web → Ev → Prop} (hC : ∀ w e, e.isSegment = false → C w e) (es : List Ev) (w : Web)
    (h : ∀ e ∈ es, e.isSegment = false) (i : Nat) (p : List UInt8)
    (hseg : ∀ w' os, web.run w es = some (w', os) → C w' (.segment i p)) :
    web.Along (fun w e _ _ => C w e) w (es ++ [.segment i p]) :=
  Machine.along_append es w (along_quiet hC es w h)
    (fun w' os hr => fun _ _ _ => ⟨hseg w' os hr, trivial⟩)

/-- The first connection waits with its request, for the bytes from 0 on. -/
theorem opens_web : (web.run (.start ready) opens).map (fun r => ((r.1.cur, r.1.gone, r.1.got 0),
    (r.1.dev.request 0).map (fun q => (q.first, q.stop)), r.1.dev.http.recvOffset)) =
      some ((some 0, [], 0), some (0, bufSize), 0) := by decide +kernel

theorem opensLate_web : (web.run (.start ready) opensLate).map (fun r => (r.1.got 0,
    (r.1.dev.request 0).map (fun q => (q.first, q.stop)))) = some (0, some (0, bufSize)) := by decide +kernel

/-- The segment is the first of a response to the request. -/
theorem honest_twoBytes {w : Web} {i stop : Nat} (hstop : stop = bufSize ∨ stop = 2) (hg : w.got i = 0)
    (hq : (w.dev.request i).map (fun q => (q.first, q.stop)) = some (0, stop)) :
    Honest [7, 8] (fun _ => .content twoBytes) w (.segment i twoBytes.bytes) := by
  obtain ⟨q, hq, hqq⟩ := Option.map_eq_some_iff.1 hq
  simp only [Prod.mk.injEq] at hqq
  refine ⟨by decide, ?_, q, hq, twoBytes_wellFormed, hqq.1.symm, ?_, rfl, rfl⟩
  · rw [hg]
    exact List.prefix_rfl
  · rw [hqq.2]
    rcases hstop with rfl | rfl
    · decide
    · decide

theorem clean_twoBytes {w : Web} {i : Nat} (hcur : w.cur = some i) (hg : w.got i = 0) (h0 : w.dev.http.recvOffset = 0) :
    Clean (fun _ => .content twoBytes) w (.segment i twoBytes.bytes) := by
  refine fun _ => ⟨fun hne => absurd h0 hne, fun _ _ => ⟨hcur, hg, twoBytes, rfl, by decide, ?_⟩⟩
  refine rangeFound_upper _ twoBytes_wellFormed ?_ (by decide) (by decide)
  exact (Mem.read_append_iff.1 (Mem.read_write_self w.dev.http.buf 0 twoBytes.bytes)).1

/-- The first segment of a response has all of its header. -/
def HeadFirst (answer : Nat → Answer) (w : Web) : Ev → Prop
  | .segment i p => w.got i = 0 → ∀ r, answer i = .content r → r.head.length ≤ p.length
  | _            => True

theorem quiet_honest (file : List UInt8) (answer : Nat → Answer) (w : Web) (e : Ev) (h : e.isSegment = false) :
    Honest file answer w e ∧ (Clean answer w e ∧ Timely w e) ∧ HeadFirst answer w e := by
  cases e with
  | segment i p => cases h
  | _ => exact ⟨trivial, ⟨trivial, trivial⟩, trivial⟩

theorem window_holds_opened :
    web.Along (fun w e w' _ => Holds [7, 8] w'.dev ∧ Unmoved w e w'.dev) (.start ready)
      (opens ++ [.segment 0 twoBytes.bytes]) := by
  refine window_holds [7, 8] (fun _ => .content twoBytes) _ _ _ _ _ _ ?_
  refine along_quiet_segment (fun w e h => ⟨(quiet_honest [7, 8] _ w e h).1, (quiet_honest [7, 8] _ w e h).2.1⟩) opens _
    (by decide) 0 _ (fun w os hr => ?_)
  have hw := opens_web
  rw [show web.run (.start ready) opens = some (w, os) from hr, Option.map_some, Option.some.injEq] at hw
  simp only [Prod.mk.injEq] at hw
  obtain ⟨⟨hcur, hgone, hgot⟩, hreq, h0⟩ := hw
  exact ⟨honest_twoBytes (Or.inl rfl) hgot hreq, clean_twoBytes hcur hgot h0, fun _ => by
    rw [hgone]
    exact List.not_mem_nil⟩

/-- **The response to a request given up is taken for the next one's.** -/
theorem not_window_holds :
    ¬ ∀ (file : List UInt8) (answer : Nat → Answer) (es : List Ev),
      web.Along (fun w e _ _ => Honest file answer w e ∧ HeadFirst answer w e) (.start ready) es →
        web.Along (fun w e w' _ => Holds file w'.dev ∧ Unmoved w e w'.dev) (.start ready) es := by
  intro h
  have hrun : (web.run (.start ready) (opensLate ++ [.segment 0 twoBytes.bytes])).map (fun r =>
      (r.1.dev.http.recvOffset, r.1.dev.http.rangeStart, r.1.dev.http.buf 0)) = some (2, 1, 7) := by decide +kernel
  have hholds := h [7, 8] (fun _ => .content twoBytes) (opensLate ++ [.segment 0 twoBytes.bytes]) (by
    refine along_quiet_segment (fun w e h => ⟨(quiet_honest [7, 8] _ w e h).1, (quiet_honest [7, 8] _ w e h).2.2⟩)
      opensLate _ (by decide) 0 _ (fun w os hr => ?_)
    have hw := opensLate_web
    rw [hr, Option.map_some, Option.some.injEq] at hw
    simp only [Prod.mk.injEq] at hw
    exact ⟨honest_twoBytes (Or.inl rfl) hw.1 hw.2, fun _ r hr => by cases hr; decide⟩)
  obtain ⟨⟨w, os⟩, hr, hw⟩ := Option.map_eq_some_iff.1 hrun
  simp only [Prod.mk.injEq] at hw
  obtain ⟨hoff, hstart, hbuf⟩ := hw
  have hlast := Machine.along_reached (P := fun w => Holds [7, 8] w.dev) _ _ _ _ (hholds.mono (fun _ _ _ _ h => h.1))
    (fun i hi => absurd hi (Nat.not_lt_zero i)) hr 0 (by rw [hoff]; decide)
  rw [hstart, hbuf] at hlast
  exact absurd hlast (by decide)

end Sta
end OtaLoader
