import OtaLoader.Lines
import OtaLoader.Numeral
import OtaLoader.StaUrl
/-!
# RequestLines — the lines of a request

A server takes a request line by line.  `requestLines` are the lines that `HTTP_GET_HEAD` is made of; a request has
exactly these for its lines if neither the host nor the path has a line break (`splitOn_httpGetHead_iff`), and then it
says what it was made from (`httpGetHead_inj`).  `http_get` takes the host and the path from the URL as they stand
there: what holds of a request holds of every request of a call (`asks_plainly`).
-/
namespace OtaLoader
namespace Sta

def newline : UInt8 := 10

/-- `HTTP_GET_HEAD`, line by line; the last line is blank. -/
def requestLines (file host : List UInt8) (first last : Nat) : List (List UInt8) :=
  [ascii "GET " ++ (file ++ ascii " HTTP/1.1\r"), ascii "Host: " ++ (host ++ ascii "\r"), ascii "User-Agent: User\r",
    ascii "Accept: */*\r", ascii "Connection: Close\r",
    ascii "Range: bytes=" ++ (showInt first ++ ascii "-" ++ (showInt last ++ ascii "\r")), ascii "\r"]

theorem httpGetHead_lines (file host : List UInt8) (first last : Nat) :
    httpGetHead file host first last = unlines newline (requestLines file host first last) := by
  have h₁ : ascii " HTTP/1.1\r\nHost: " = ascii " HTTP/1.1\r" ++ ([newline] ++ ascii "Host: ") := by decide
  have h₂ : ascii "\r\nUser-Agent: User\r\nAccept: */*\r\nConnection: Close\r\nRange: bytes=" =
      ascii "\r" ++ ([newline] ++ (ascii "User-Agent: User\r" ++ ([newline] ++ (ascii "Accept: */*\r" ++
        ([newline] ++ (ascii "Connection: Close\r" ++ ([newline] ++ ascii "Range: bytes="))))))) := by decide
  have h₃ : ascii "\r\n\r\n" = ascii "\r" ++ ([newline] ++ (ascii "\r" ++ [newline])) := by decide
  unfold httpGetHead requestLines unlines
  simp only [h₁, h₂, h₃, List.flatMap_cons, List.flatMap_nil, List.append_nil, List.append_assoc]

/-! ## Numbers -/

theorem decimal_numeral (n : Nat) : decimal n = numeral false 10 n := by
  simp [decimal, numeral]

theorem digit_of_mem_decimal {n : Nat} {c : UInt8} (h : c ∈ decimal n) : 48 ≤ c.toNat ∧ c.toNat ≤ 57 := by
  rw [decimal_numeral] at h
  obtain ⟨d, hd, hlt⟩ := digits_numeral (by decide) (by decide) c h
  unfold digitOf at hd
  grind

theorem decimal_inj {n n' : Nat} (h : decimal n = decimal n') : n = n' := by
  rw [decimal_numeral, decimal_numeral] at h
  have hv := congrArg (positional 10 0) h
  rwa [positional_numeral (by decide) (by decide), positional_numeral (by decide) (by decide)] at hv

/-- What `%d` shows: a sign or none, and digits. -/
theorem mem_showInt {v : Nat} {c : UInt8} (h : c ∈ showInt v) : c = 45 ∨ 48 ≤ c.toNat ∧ c.toNat ≤ 57 := by
  unfold showInt at h
  split at h
  · exact .inr (digit_of_mem_decimal h)
  · rcases List.mem_cons.1 h with h | h
    · exact .inl h
    · exact .inr (digit_of_mem_decimal h)

theorem newline_notMem_showInt (v : Nat) : newline ∉ showInt v := by
  intro h
  rcases mem_showInt h with h | h
  · revert h
    decide
  · revert h
    decide

/-- A text is known from what stands before a separator and what stands behind it. -/
theorem append_sep_inj {c : UInt8} {x x' : List UInt8} : ∀ {a a' : List UInt8}, c ∉ a → c ∉ a' →
    a ++ c :: x = a' ++ c :: x' → a = a' ∧ x = x'
  | [], [], _, _, h           => ⟨rfl, (List.cons.inj h).2⟩
  | [], b :: a', _, hn, h     => absurd (List.mem_cons.2 (.inl (List.cons.inj h).1)) hn
  | b :: a, [], hn, _, h      => absurd (List.mem_cons.2 (.inl (List.cons.inj h).1.symm)) hn
  | b :: a, b' :: a', hn, hn', h => by
    obtain ⟨hb, ht⟩ := List.cons.inj h
    obtain ⟨ha, hx⟩ := append_sep_inj (fun hm => hn (List.mem_cons_of_mem _ hm))
      (fun hm => hn' (List.mem_cons_of_mem _ hm)) ht
    exact ⟨List.cons_eq_cons.2 ⟨hb, ha⟩, hx⟩

/-- A number is not read as a negative one. -/
theorem decimal_ne_sign {n : Nat} {x y : List UInt8} : decimal n ++ x ≠ 45 :: y := by
  intro h
  cases hd : decimal n with
  | nil       =>
    rw [decimal_numeral] at hd
    exact numeral_ne_nil hd
  | cons c ds =>
    rw [hd] at h
    have hc := digit_of_mem_decimal (n := n) (c := c) (by simp [hd])
    rw [(List.cons.inj h).1] at hc
    revert hc
    decide

/-- What `%d` shows is read back up to the character behind it. -/
theorem showInt_sep_inj {c : UInt8} {v v' : Nat} {x x' : List UInt8} (hc : ¬ (48 ≤ c.toNat ∧ c.toNat ≤ 57))
    (hv : v < 4294967296) (hv' : v' < 4294967296) (h : showInt v ++ c :: x = showInt v' ++ c :: x') :
    v = v' ∧ x = x' := by
  have hsep : ∀ {n n' : Nat}, decimal n ++ c :: x = decimal n' ++ c :: x' → n = n' ∧ x = x' := fun h => by
    obtain ⟨hd, hx⟩ := append_sep_inj (fun hm => hc (digit_of_mem_decimal hm))
      (fun hm => hc (digit_of_mem_decimal hm)) h
    exact ⟨decimal_inj hd, hx⟩
  unfold showInt at h
  split at h <;> split at h
  · exact hsep h
  · exact absurd h decimal_ne_sign
  · exact absurd h.symm decimal_ne_sign
  · obtain ⟨hn, hx⟩ := hsep (List.cons.inj h).2
    exact ⟨by omega, hx⟩

/-! ## The lines of a request -/

section Lines

variable {file host file' host' : List UInt8} {first last first' last' : Nat}

theorem newline_notMem_requestLines (first last : Nat) :
    (∀ l ∈ requestLines file host first last, newline ∉ l) ↔ newline ∉ file ∧ newline ∉ host := by
  have h₁ : newline ∉ ascii "GET " := by decide
  have h₂ : newline ∉ ascii " HTTP/1.1\r" := by decide
  have h₃ : newline ∉ ascii "Host: " := by decide
  have h₄ : newline ∉ ascii "\r" := by decide
  have h₅ : newline ∉ ascii "User-Agent: User\r" := by decide
  have h₆ : newline ∉ ascii "Accept: */*\r" := by decide
  have h₇ : newline ∉ ascii "Connection: Close\r" := by decide
  have h₈ : newline ∉ ascii "Range: bytes=" := by decide
  have h₉ : newline ∉ ascii "-" := by decide
  simp [requestLines, List.mem_append, newline_notMem_showInt, h₁, h₂, h₃, h₄, h₅, h₆, h₇, h₈, h₉]

/-- **A request has the lines it is made of if it is made from a path and a host without a line break, and only then.** -/
theorem splitOn_httpGetHead_iff (first last : Nat) :
    (httpGetHead file host first last).splitOn newline = requestLines file host first last ++ [[]] ↔
      newline ∉ file ∧ newline ∉ host := by
  have h := @splitOn_unlines_iff newline (requestLines file host first last) []
  rw [List.append_nil] at h
  rw [httpGetHead_lines, h, newline_notMem_requestLines]
  exact and_iff_left List.not_mem_nil

theorem requestLines_inj (h₁ : first < 4294967296) (h₂ : last < 4294967296) (h₁' : first' < 4294967296)
    (h₂' : last' < 4294967296) (h : requestLines file host first last = requestLines file' host' first' last') :
    file = file' ∧ host = host' ∧ first = first' ∧ last = last' := by
  unfold requestLines at h
  simp only [List.cons.injEq, List.append_cancel_left_eq, List.append_cancel_right_eq, true_and, and_true] at h
  obtain ⟨hf, hh, hr⟩ := h
  have hdash : ascii "-" = [45] := rfl
  have hret : ascii "\r" = [13] := rfl
  rw [hdash, hret, List.append_assoc, List.append_assoc, List.singleton_append, List.singleton_append] at hr
  obtain ⟨hfirst, hr⟩ := showInt_sep_inj (by decide) h₁ h₁' hr
  exact ⟨hf, hh, hfirst, (showInt_sep_inj (by decide) h₂ h₂' hr).1⟩

/-- **A request says what it was made from.** -/
theorem httpGetHead_inj (hf : newline ∉ file) (hh : newline ∉ host) (hf' : newline ∉ file') (hh' : newline ∉ host')
    (h₁ : first < 4294967296) (h₂ : last < 4294967296) (h₁' : first' < 4294967296) (h₂' : last' < 4294967296) :
    httpGetHead file host first last = httpGetHead file' host' first' last' ↔
      file = file' ∧ host = host' ∧ first = first' ∧ last = last' := by
  constructor
  · intro h
    have hlines := (splitOn_httpGetHead_iff first last).2 ⟨hf, hh⟩
    rw [h, (splitOn_httpGetHead_iff first' last').2 ⟨hf', hh'⟩] at hlines
    exact requestLines_inj h₁ h₂ h₁' h₂' (List.append_cancel_right hlines).symm
  · rintro ⟨rfl, rfl, rfl, rfl⟩
    rfl

theorem httpGetHead_inj_next :
    httpGetHead (ascii "/a") (ascii "h") 0 40907 = httpGetHead (ascii "/a") (ascii "h") 0 40906 ↔
      ascii "/a" = ascii "/a" ∧ ascii "h" = ascii "h" ∧ 0 = 0 ∧ 40907 = 40906 :=
  httpGetHead_inj (by decide) (by decide) (by decide) (by decide) (by decide) (by decide) (by decide) (by decide)

end Lines

/-! ## The requests of a call -/

section Calls

variable {u : Url} {t : List UInt8} {s : Dev} {c : Call}

/-- The request that a step sends has the lines it is made of. -/
def AsksPlainly (host file : List UInt8) (s : Dev) (e : Ev) (s' : Dev) : Prop :=
  e = .go true → s.netOtaStop = false → ∃ c i p q, s.task = .connecting c i ∧ s'.pcbs[i]? = some p ∧
    p.request = some q ∧
      q.text.splitOn newline = requestLines file host q.first (u32 (q.stop + 4294967295)) ++ [[]]

/-- A call that stands before its request. -/
structure Ready (s : Dev) : Prop where
  task     : ∃ c i, s.task = .connecting c i
  sound    : s.fault = false
  goes     : s.netOtaStop = false
  conneted : s.http.conneted = true

theorem newline_notMem_url (hu : u.WellFormed) (hp : u.path = some t) :
    newline ∉ u.text ↔ newline ∉ u.host ∧ newline ∉ t := by
  have hscheme : newline ∉ ascii "http://" := by decide
  have hport : newline ∉ u.portText := by
    unfold Url.portText
    cases h : u.port with
    | none    => exact List.not_mem_nil
    | some ds =>
      obtain ⟨n, hn, -, -⟩ := hu.port ds h
      intro hm
      have hd := hn.digits newline ((List.mem_cons.1 hm).resolve_left (by decide))
      revert hd
      decide
  simp [Url.text, hp, hscheme, hport]

theorem netOtaStop_place (s : Dev) (p : List UInt8) (len : Nat) (e : List UInt8) :
    (place s p len e).netOtaStop = s.netOtaStop := by
  unfold place
  dsimp only
  split <;> rfl

/-- The call as it goes on, when the URL is handled as it should be. -/
theorem startGet_goes (hu : u.WellFormed) (hp : u.path = some t) (hc : u.port = none → 58 ∉ t)
    (hs : s.task = .getting c) (hf : s.fault = false) (hurl : s.url = u.text) (ho : c.opening = true)
    (hstop : s.netOtaStop = false) :
    ∃ s', machine.step s .run = some (s', {}) ∧ s'.fault = false ∧ s'.netOtaStop = false ∧
      ((∃ port, s'.task = .resolving c port) ∨ ∃ port, s'.task = .creating c port) := by
  obtain ⟨port, p, hparse, -⟩ := parseUrl_fair (s := { s with readSem := 0 }) hu hp hc hurl
  have hstep := step_getting hs hf
  obtain ⟨hz, hz', hlen⟩ := hu.parts hp
  obtain ⟨-, hsp⟩ := place_spec (p := p) { s with readSem := 0 } hz hz'
    (by have : bufSize = 40908 := rfl; omega)
  have hstays := netOtaStop_place { s with readSem := 0 } (u.host ++ p) u.host.length t
  unfold startGet at hstep
  rw [hparse] at hstep
  refine ⟨_, hstep, ?_⟩
  generalize place { s with readSem := 0 } (u.host ++ p) u.host.length t = d at hsp hstays
  unfold resolve
  dsimp only
  rw [if_pos (.inr ho)]
  split
  · exact ⟨hsp.fault.trans hf, hstays.trans hstop, .inl ⟨port, rfl⟩⟩
  · exact ⟨hsp.fault.trans hf, hstays.trans hstop, .inr ⟨port, rfl⟩⟩

theorem step_connect {i : Nat} {p : Pcb} (hf : s.fault = false) (hp : s.pcbs[i]? = some p) (ha : p.arg = true)
    (hr : p.recv = false) : machine.step s (.connect i) =
      some ({ setPcb s i (fun p => { p with recv := true }) with http := { s.http with conneted := true } }, {}) := by
  have hno : ¬ s.fault = true := by
    rw [hf]
    decide
  have h : machine.step s (.connect i) = step s (.connect i) := rfl
  rw [h]
  unfold step
  rw [if_neg hno]
  dsimp only
  rw [hp]
  dsimp only
  rw [if_pos ⟨ha, hr⟩]
  rfl

theorem step_create {port : Int} (hs : s.task = .creating c port) (hf : s.fault = false) :
    machine.step s (.create true false) = some (createPcb s c port false, {}) := by
  have hno : ¬ s.fault = true := by
    rw [hf]
    decide
  have h : machine.step s (.create true false) = step s (.create true false) := rfl
  rw [h]
  unfold step
  rw [if_neg hno, hs]
  rfl

theorem step_resolved {port : Int} (hs : s.task = .resolving c port) (hf : s.fault = false) (addr : Nat) :
    machine.step s (.resolved (some addr)) =
      some ({ s with http := { s.http with ipAddr := addr, fileSize := 0 }, task := .creating c port }, {}) := by
  have hno : ¬ s.fault = true := by
    rw [hf]
    decide
  have h : machine.step s (.resolved (some addr)) = step s (.resolved (some addr)) := rfl
  rw [h]
  unfold step
  rw [if_neg hno, hs]

theorem Ready.step_go (h : Ready s) : ∃ r, machine.step s (.go true) = some r := by
  obtain ⟨⟨c, i, htask⟩, hf, -, hconn⟩ := h
  have hno : ¬ s.fault = true := by
    rw [hf]
    decide
  have hgo : machine.step s (.go true) = step s (.go true) := rfl
  rw [hgo]
  unfold step
  rw [if_neg hno, htask]
  dsimp only
  rw [if_pos hconn]
  exact ⟨_, rfl⟩

/-- The connection is made. -/
theorem creating_ready {port : Int} (hs : s.task = .creating c port) (hf : s.fault = false)
    (hstop : s.netOtaStop = false) :
    ∃ s' os, machine.run s [.create true false, .connect s.pcbs.length] = some (s', os) ∧ Ready s' := by
  have hpcb : (createPcb s c port false).pcbs[s.pcbs.length]? =
      some ⟨s.http.ipAddr, if port = 0 then httpUpdatePort else port % 65536, true, false, none⟩ :=
    List.getElem?_concat_length
  have hconnect := step_connect (s := createPcb s c port false) hf hpcb rfl rfl
  exact ⟨_, _, Machine.run_step (step_create hs hf) (Machine.run_step hconnect rfl), ⟨c, s.pcbs.length, rfl⟩, hf, hstop,
    rfl⟩

/-- **Some run of the call comes to its request.** -/
theorem ready_reached (hu : u.WellFormed) (hp : u.path = some t) (hc : u.port = none → 58 ∉ t)
    (hs : s.task = .getting c) (hf : s.fault = false) (hurl : s.url = u.text) (ho : c.opening = true)
    (hstop : s.netOtaStop = false) :
    ∃ es s' os, (∀ e ∈ es, Own e) ∧ machine.run s es = some (s', os) ∧ Ready s' := by
  obtain ⟨d, hrun, hdf, hdstop, htask⟩ := startGet_goes hu hp hc hs hf hurl ho hstop
  rcases htask with ⟨port, htask⟩ | ⟨port, htask⟩
  · obtain ⟨s', os, hmade, hready⟩ := creating_ready (s := { d with
      http := { d.http with ipAddr := 0, fileSize := 0 }, task := .creating c port }) rfl hdf hdstop
    refine ⟨[.run, .resolved (some 0), .create true false, .connect d.pcbs.length], s', _, ?_,
      Machine.run_step hrun (Machine.run_step (step_resolved htask hdf 0) hmade), hready⟩
    simp [Own]
  · obtain ⟨s', os, hmade, hready⟩ := creating_ready htask hdf hdstop
    refine ⟨[.run, .create true false, .connect d.pcbs.length], s', _, ?_, Machine.run_step hrun hmade, hready⟩
    simp [Own]

/-- **The requests of a call have the lines they are made of exactly if the URL has no line break.** -/
theorem asks_plainly (u : Url) (hu : u.WellFormed) (t : List UInt8) (hp : u.path = some t) (hfair : Fair u) (s : Dev)
    (c : Call) (hs : s.task = .getting c) (ho : c.opening = true) (hf : s.fault = false) (hurl : s.url = u.text)
    (hr : s.http.rangeStart < 4294967296) (hstop : s.netOtaStop = false) :
    (∀ es, (∀ e ∈ es, Own e) → machine.Along (fun s e s' _ => AsksPlainly u.host t s e s') s es) ↔
      newline ∉ u.text := by
  unfold Fair at hfair
  rw [hp] at hfair
  obtain ⟨hc, hd⟩ := hfair
  have hlaw : ∀ es, (∀ e ∈ es, Own e) → machine.Along (fun s e s' _ => Law u t s e s') s es := fun es hown =>
    Machine.along_of_inv (C := fun _ e _ _ => Own e) (Stage u t)
      (fun s e s' o hst hs he => stage_step hu hp hc hd hst hs he) es s ⟨hf, hr, by rw [hs]; exact ⟨ho, hurl⟩⟩
      (Machine.along_of_forall (P := Own) (fun _ _ _ _ h => h) es s hown)
  rw [newline_notMem_url hu hp]
  constructor
  · intro h
    obtain ⟨es, s₁, os, hown, hrun, hready⟩ := ready_reached hu hp hc hs hf hurl ho hstop
    obtain ⟨⟨s₂, o⟩, hgo⟩ := hready.step_go
    have hall : ∀ e ∈ es ++ [Ev.go true], Own e := by
      intro e he
      rcases List.mem_append.1 he with he | he
      · exact hown e he
      · rw [List.mem_singleton.1 he]
        exact trivial
    have hplain := Machine.along_last (h _ hall) hrun hgo
    have hsends := Machine.along_last (hlaw _ hall) hrun hgo
    obtain ⟨c₁, i, p, q, htask, hpcb, hreq, hlines⟩ := hplain rfl hready.goes
    obtain ⟨c₂, i', p', q', htask', hpcb', hreq', htext⟩ := hsends.sends rfl hready.goes
    -- both speak of the one connection
    obtain ⟨-, rfl⟩ := Task.connecting.inj (htask.symm.trans htask')
    obtain rfl := Option.some.inj (hpcb.symm.trans hpcb')
    obtain rfl := Option.some.inj (hreq.symm.trans hreq')
    rw [htext, splitOn_httpGetHead_iff] at hlines
    exact hlines.symm
  · rintro ⟨hh, ht⟩ es hown
    refine (hlaw es hown).mono (fun s e s' o hl hgo hst => ?_)
    obtain ⟨c, i, p, q, htask, hpcb, hreq, htext⟩ := hl.sends hgo hst
    refine ⟨c, i, p, q, htask, hpcb, hreq, ?_⟩
    rw [htext, splitOn_httpGetHead_iff]
    exact ⟨ht, hh⟩

theorem asks_plainly_plain :
    (∀ es, (∀ e ∈ es, Own e) →
      machine.Along (fun s e s' _ => AsksPlainly plainUrl.host (ascii "/a:b") s e s') (opening plainUrl) es) ↔
        newline ∉ plainUrl.text :=
  asks_plainly plainUrl plainUrl_wellFormed (ascii "/a:b") rfl ⟨(fun h => by cases h), by decide⟩ (opening plainUrl) _
    rfl rfl rfl rfl (by decide) rfl

end Calls

end Sta
end OtaLoader
