import OtaLoader.Ap
import OtaLoader.StaRead
import OtaLoader.StaUrl
/-!
# Windows — the ranges that are asked for

Both builds move a new window back so that it ends with the bytes asked for.  The 32-bit sums and differences are those of
the integers (`exactStart`, `exactStop`), and the range holds the bytes asked for and stays in the buffer and in the file.
A read that is not served goes on to a request, whose text asks for just this range (`AsksFor`).
-/
namespace OtaLoader
namespace Sta

/-- The range of a new window, without wrap-around. -/
def exactStart (l : NetLocal) : Int :=
  if (l.seekAddr : Int) > bufSize - l.readSize then l.seekAddr - (bufSize - l.readSize) else l.seekAddr

def exactStop (l : NetLocal) (size : Nat) : Int :=
  exactStart l + if size ≠ 0 ∧ exactStart l + bufSize > size then size - exactStart l else bufSize

/-- The text of a request for the bytes from `first` on, up to `stop`. -/
def AsksFor (text : List UInt8) (first stop : Nat) : Prop :=
  ∃ file host, text = ascii "GET " ++ file ++ ascii " HTTP/1.1\r\nHost: " ++ host ++
    ascii "\r\nUser-Agent: User\r\nAccept: */*\r\nConnection: Close\r\nRange: bytes=" ++ decimal first ++ ascii "-" ++
    decimal (stop - 1) ++ ascii "\r\n\r\n"

/-- A request for bytes of a file of that size; 0 is unknown. -/
structure RangeOk (l : NetLocal) (size : Nat) (q : Request) : Prop where
  text     : AsksFor q.text q.first q.stop
  exact    : (q.first : Int) = exactStart l ∧ (q.stop : Int) = exactStop l size
  nonempty : q.first < q.stop
  short    : q.stop ≤ q.first + bufSize
  within   : size ≠ 0 → q.stop ≤ size
  covers   : q.first ≤ l.seekAddr ∧ l.seekAddr + l.readSize ≤ q.stop

/-- The URL has a host that the buffer has room for, and a path. -/
def HasPath (url : List UInt8) : Prop :=
  ∃ i e, find (ascii "http://") url = some i ∧ find (ascii "/") (url.drop (i + 7)) = some e ∧
    (find (ascii ":") (url.drop (i + 7))).getD e < bufSize

/-- A read is served from inside the window, or `http_get` is called; each step of it leads to the next, the last one to
a request on the connection; and every request asks for what the read needs. -/
structure Ranges (l : NetLocal) (s : Dev) (e : Ev) (s' : Dev) : Prop where
  served : ∀ c, e = .run → s.task = .reading c → hit (primed s.http l) l = true →
    (windowOffset s.http l : Int) = l.seekAddr - s.http.rangeStart ∧
      windowOffset s.http l + l.readSize ≤ s.http.recvOffset ∧
      s'.caller = s.caller.write l.buf (s.http.buf.read (windowOffset s.http l) l.readSize)
  missed : ∀ c, e = .run → s.task = .reading c → ¬ hit (primed s.http l) l = true → ∃ c', s'.task = .getting c'
  parsed : ∀ c, e = .run → s.task = .getting c → HasPath s.url →
    ∃ port, s'.task = .resolving c port ∨ s'.task = .creating c port
  found  : ∀ c port a, e = .resolved (some a) → s.task = .resolving c port → s'.task = .creating c port
  made   : ∀ c port refused, e = .create true refused → s.task = .creating c port → ∃ i, s'.task = .connecting c i
  sent   : ∀ c i, e = .go true → s.task = .connecting c i → s.netOtaStop = false →
    s'.task = .pending c ∧ ∃ q, s'.request i = some q ∧ RangeOk l s.http.fileSize q
  unsent : ∀ c i sent, e = .go sent → s.task = .connecting c i → sent = false ∨ s.netOtaStop = true →
    s'.task.waiting = false
  only   : ∀ j q, s'.request j = some q → s.request j = some q ∨ RangeOk l s.http.fileSize q

/-- The windows and the file sizes in question. -/
structure Admitted (l : NetLocal) (h : HttpOta) : Prop where
  window : h.recvOffset ≤ bufSize ∧ h.rangeStart + h.recvOffset < 2147483648
  size   : h.fileSize = 0 ∨ (l.seekAddr + l.readSize ≤ h.fileSize ∧ h.fileSize < 2147483648 - bufSize)

/-- The reads in question. -/
structure Bounded (l : NetLocal) : Prop where
  read : 1 ≤ l.readSize ∧ l.readSize ≤ bufSize
  seek : l.seekAddr + l.readSize < 2147483648 - bufSize

/-- `http_get` has taken the URL apart and has not sent the request. -/
def Task.begun : Task → Bool
  | .resolving _ _  => true
  | .creating _ _   => true
  | .connecting _ _ => true
  | _               => false

/-- There is a place for the request, and a connection for it. -/
structure Equipped (s : Dev) : Prop where
  sendBuf : s.task.begun = true → s.http.sendBuf.isSome = true
  pcb     : ∀ c i, s.task = .connecting c i → i < s.pcbs.length

/-- The steps that bring a read on. -/
def Ev.leads : Ev → Bool
  | .run               => true
  | .resolved (some _) => true
  | .create true _     => true
  | .go _              => true
  | _                  => false

/-- What holds from the start of `http_read` on. -/
structure Reading (l : NetLocal) (s : Dev) : Prop where
  netLocal : s.netLocal = l
  bounded  : Bounded l
  admitted : Admitted l s.http
  begun    : s.task.waiting = true → s.http.rangeStart = resv l

section Steps

variable {l : NetLocal} {s s' d : Dev} {c : Call} {e : Ev} {o : Out}

/-! ### The request -/

theorem Equipped.of_same (h : Equipped s) (hb : d.http.sendBuf = s.http.sendBuf) (hp : d.pcbs.length = s.pcbs.length)
    (ht : d.task = s.task) : Equipped d where
  sendBuf := fun hd => hb ▸ h.sendBuf (ht ▸ hd)
  pcb     := fun c i hd => hp ▸ h.pcb c i (ht ▸ hd)

theorem ne_of_leads {t : Ev} (h : e.leads = false) (ht : t.leads = true) : e ≠ t := by
  rintro rfl
  rw [h] at ht
  cases ht

/-- A step that does not bring the read on. -/
theorem Ranges.of_quiet (h : e.leads = false) (hreq : ∀ j, s'.request j = s.request j) : Ranges l s e s' where
  served := fun _ he => absurd he (ne_of_leads h rfl)
  missed := fun _ he => absurd he (ne_of_leads h rfl)
  parsed := fun _ he => absurd he (ne_of_leads h rfl)
  found  := fun _ _ _ he => absurd he (ne_of_leads h rfl)
  made   := fun _ _ _ he => absurd he (ne_of_leads h rfl)
  sent   := fun _ _ he => absurd he (ne_of_leads h rfl)
  unsent := fun _ _ _ he => absurd he (ne_of_leads h rfl)
  only   := fun j _ hq => .inl ((hreq j).symm.trans hq)

/-- A step that leaves the start of the window. -/
theorem Reading.keeps (h : Reading l s) (hn : d.netLocal = s.netLocal)
    (hsize : d.http.fileSize = s.http.fileSize ∨ d.http.fileSize = 0) (h0 : d.http.recvOffset ≤ s.http.recvOffset)
    (hstart : d.http.rangeStart = s.http.rangeStart) (hw : d.task.waiting = true → s.task.waiting = true) :
    Reading l d := by
  refine ⟨hn.trans h.netLocal, h.bounded, ⟨?_, ?_⟩, fun hd => hstart.trans (h.begun (hw hd))⟩
  · have hwin := h.admitted.window
    rw [hstart]
    omega
  · rcases hsize with hsize | hsize
    · rw [hsize]
      exact h.admitted.size
    · exact .inl hsize

/-- The read ends, or is tried again. -/
theorem Reading.finish (h : Reading l s) (n : Nat) : Reading l (finish s c n).1 := by
  obtain ⟨t, k, ht, hfin⟩ := finish_fst s c n
  rw [hfin]
  refine ⟨h.netLocal, h.bounded, h.admitted, fun hw => ?_⟩
  rcases ht with rfl | rfl
  · cases hw
  · cases hw

end Steps

end Sta

namespace Ap

end Ap

end OtaLoader
