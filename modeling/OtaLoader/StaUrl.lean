import OtaLoader.Sta
/-!
# StaUrl — the URL of an update

`http_get` takes the URL apart with searches over the rest of the text.  `Handles` says what becomes of a URL along every
run of one call: the host and the path as they stand in it, the port, whether a name is asked for, and that nothing
outside the buffer is written.
-/
namespace OtaLoader
namespace Sta

/-- A URL in its parts; `port` are the digits behind the colon, `path` begins with its slash. -/
structure Url where
  host : List UInt8
  port : Option (List UInt8)
  path : Option (List UInt8)

namespace Url

def portText (u : Url) : List UInt8 :=
  match u.port with
  | some ds => 58 :: ds
  | none    => []

def text (u : Url) : List UInt8 := ascii "http://" ++ (u.host ++ (u.portText ++ u.path.getD []))

structure WellFormed (u : Url) : Prop where
  host  : u.host ≠ [] ∧ 58 ∉ u.host ∧ 47 ∉ u.host
  port  : ∀ ds, u.port = some ds → ∃ n, IsNumber ds n ∧ 1 ≤ n ∧ n ≤ 65535
  path  : ∀ t, u.path = some t → ∃ r, t = 47 :: r
  zero  : 0 ∉ u.text
  short : u.text.length ≤ 2047

def portNumber (u : Url) : Int :=
  match u.port with
  | some ds => leadingDigits 0 ds
  | none    => httpUpdatePort

end Url

/-- A dotted IPv4 address: four numbers up to 255. -/
def dotted (h : List UInt8) : Bool :=
  let ns := h.splitOn 46
  decide (ns.length = 4) &&
    ns.all (fun d => !d.isEmpty && d.all isDigit && decide (d.length ≤ 3) && decide (leadingDigits 0 d ≤ 255))

/-! ## Taking the URL apart -/

section Parse

variable {u : Url} {s : Dev} {t host : List UInt8}

theorem digits_ne {ds : List UInt8} {n : Nat} (h : IsNumber ds n) : 58 ∉ ds ∧ 47 ∉ ds := by
  constructor
  · exact fun hm => absurd (h.digits 58 hm) (by decide)
  · exact fun hm => absurd (h.digits 47 hm) (by decide)

theorem find_http (u : Url) : find (ascii "http://") u.text = some 0 :=
  find_prefix (List.prefix_append _ _) (List.append_ne_nil_of_left_ne_nil (by decide) _)

theorem drop_http (u : Url) : u.text.drop (0 + 7) = u.host ++ (u.portText ++ u.path.getD []) :=
  List.drop_left' (by decide)

theorem length_text (u : Url) : u.text.length = 7 + (u.host.length + (u.portText.length + (u.path.getD []).length)) := by
  unfold Url.text
  rw [List.length_append, List.length_append, List.length_append]
  rfl

/-- **A URL with a port**, or without a colon in its path. -/
theorem parseUrl_fair (hu : u.WellFormed) (hp : u.path = some t) (hc : u.port = none → 58 ∉ t) (hs : s.url = u.text) :
    ∃ port p, parseUrl s = (place s (u.host ++ p) u.host.length t, some port) ∧
      (if port = 0 then httpUpdatePort else port % 65536) = u.portNumber := by
  obtain ⟨r, rfl⟩ := hu.path t hp
  have hlen := length_text u
  have hshort := hu.short
  have hdrop := drop_http u
  have hsize : u.host.length < bufSize := by
    have : bufSize = 40908 := rfl
    omega
  unfold parseUrl
  rw [hs, find_http]
  dsimp only
  rw [hdrop, hp, Option.getD_some]
  unfold Url.portText Url.portNumber
  cases hport : u.port with
  | some ds =>
    obtain ⟨n, hn, hlo, hhi⟩ := hu.port ds hport
    have hslash : find (ascii "/") (u.host ++ (58 :: ds ++ 47 :: r)) = some (u.host ++ 58 :: ds).length := by
      rw [← List.append_assoc]
      refine find_byte (fun hm => ?_)
      rcases List.mem_append.1 hm with hm | hm
      · exact hu.host.2.2 hm
      · exact (digits_ne hn).2 ((List.mem_cons.1 hm).resolve_left (by decide))
    have hcolon : find (ascii ":") (u.host ++ (58 :: ds ++ 47 :: r)) = some u.host.length := find_byte hu.host.2.1
    dsimp only
    rw [hcolon, hslash]
    dsimp only
    rw [if_neg (by omega), ← List.append_assoc, List.drop_left]
    have hat : atoi ((u.host ++ 58 :: ds ++ 47 :: r).drop (u.host.length + 1)) = n := by
      rw [List.append_assoc, ← List.drop_drop, List.drop_left]
      exact atoi_number hn (fun b t hbt => by rw [← (List.cons.inj hbt).1]; decide)
    refine ⟨_, 58 :: ds ++ 47 :: r, by rw [hat, List.append_assoc], ?_⟩
    rw [hn.value]
    split <;> omega
  | none    =>
    have hslash : find (ascii "/") (u.host ++ ([] ++ 47 :: r)) = some u.host.length := find_byte hu.host.2.2
    have hcolon : find (ascii ":") (u.host ++ ([] ++ 47 :: r)) = none := find_byte_none (fun hm => by
      rcases List.mem_append.1 hm with hm | hm
      · exact hu.host.2.1 hm
      · exact hc hport hm)
    dsimp only
    rw [hcolon, hslash]
    dsimp only
    rw [if_neg (by omega), List.nil_append, List.drop_left]
    exact ⟨_, 47 :: r, rfl, rfl⟩

/-- **A colon in the path of a URL without a port**: what stands before it counts as the host. -/
theorem parseUrl_strayed (hu : u.WellFormed) (hp : u.path = some t) (hn : u.port = none) (hc : 58 ∈ t)
    (hs : s.url = u.text) : ∃ t₁ port p, t₁ ≠ [] ∧ t₁ <+: t ∧
      parseUrl s = (place s (u.host ++ t₁ ++ p) (u.host ++ t₁).length t, some port) := by
  obtain ⟨r, rfl⟩ := hu.path t hp
  obtain ⟨t₁, t₂, ht, hnot⟩ := List.eq_append_cons_of_mem hc
  have hne : t₁ ≠ [] := fun h0 => by
    rw [h0, List.nil_append] at ht
    exact absurd (List.cons.inj ht).1 (by decide)
  have hlen := length_text u
  have hshort := hu.short
  have hdrop := drop_http u
  have hsize : (u.host ++ t₁).length < bufSize := by
    have hle : (47 :: r).length = t₁.length + (58 :: t₂).length := (congrArg List.length ht).trans List.length_append
    have : bufSize = 40908 := rfl
    rw [hp, Option.getD_some] at hlen
    rw [List.length_append]
    omega
  have hslash : find (ascii "/") (u.host ++ 47 :: r) = some u.host.length := find_byte hu.host.2.2
  have hcolon : find (ascii ":") (u.host ++ 47 :: r) = some (u.host ++ t₁).length := by
    rw [ht, ← List.append_assoc]
    exact find_byte (fun hm => (List.mem_append.1 hm).elim hu.host.2.1 hnot)
  refine ⟨t₁, atoi ((u.host ++ 47 :: r).drop ((u.host ++ t₁).length + 1)), 58 :: t₂, hne, ⟨_, ht.symm⟩, ?_⟩
  unfold parseUrl
  rw [hs, find_http]
  dsimp only
  rw [hdrop, hp, Option.getD_some]
  unfold Url.portText
  rw [hn]
  dsimp only
  rw [List.nil_append, hcolon, hslash]
  dsimp only
  rw [if_neg (by omega), List.drop_left, List.append_assoc, ← ht]

/-- **A URL without a path.** -/
theorem parseUrl_pathless (hu : u.WellFormed) (hp : u.path = none) (hs : s.url = u.text) :
    (parseUrl s).2 = none ∧ ((parseUrl s).1.fault = if u.port = none then s.fault else true) := by
  have hlen := length_text u
  have hshort := hu.short
  have hdrop := drop_http u
  have hsize : u.host.length < bufSize := by
    have : bufSize = 40908 := rfl
    omega
  unfold parseUrl
  rw [hs, find_http]
  dsimp only
  rw [hdrop, hp, Option.getD_none, List.append_nil]
  unfold Url.portText
  cases hport : u.port with
  | some ds =>
    obtain ⟨n, hn, -, -⟩ := hu.port ds hport
    have hcolon : find (ascii ":") (u.host ++ 58 :: ds) = some u.host.length := find_byte hu.host.2.1
    have hslash : find (ascii "/") (u.host ++ 58 :: ds) = none := find_byte_none (fun hm => by
      rcases List.mem_append.1 hm with hm | hm
      · exact hu.host.2.2 hm
      · exact (digits_ne hn).2 ((List.mem_cons.1 hm).resolve_left (by decide)))
    dsimp only
    rw [hcolon, hslash]
    dsimp only
    rw [if_neg (by omega), if_neg (by simp)]
    exact ⟨rfl, rfl⟩
  | none    =>
    have hcolon : find (ascii ":") (u.host ++ []) = none := by
      rw [List.append_nil]
      exact find_byte_none hu.host.2.1
    have hslash : find (ascii "/") (u.host ++ []) = none := by
      rw [List.append_nil]
      exact find_byte_none hu.host.2.2
    dsimp only
    rw [hcolon, hslash, if_pos rfl]
    exact ⟨rfl, rfl⟩

/-! ## What is put in the buffer -/

/-- The host and the path, with their places. -/
structure Placed (h t : List UInt8) (s : Dev) : Prop where
  host     : s.http.host = some 0
  hostText : s.http.text s.beyond 0 = h
  file     : s.http.file = some (h.length + 1)
  fileText : s.http.text s.beyond (h.length + 1) = t
  sendBuf  : s.http.sendBuf = some (h.length + 1 + t.length + 1)

/-- What `place` leaves as it is. -/
structure Spared (s d : Dev) : Prop where
  beyond     : ∀ a, bufSize ≤ a → d.http.buf a = s.http.buf a
  fault      : d.fault = s.fault
  rangeStart : d.http.rangeStart = s.http.rangeStart

theorem place_spec {p : List UInt8} (s : Dev) (hh : 0 ∉ host) (ht : 0 ∉ t) (hlen : host.length + t.length + 2 < bufSize) :
    Placed host t (place s (host ++ p) host.length t) ∧ Spared s (place s (host ++ p) host.length t) := by
  have hroom : t.length + host.length + 2 < bufSize := by omega
  have hbuf : (place s (host ++ p) host.length t).http.buf =
      (s.http.buf.write 0 (host ++ [0])).write (host.length + 1) (t ++ [0]) := by
    unfold place
    dsimp only
    rw [if_pos hroom, List.take_left]
  have hl : (host ++ [0]).length = host.length + 1 := List.length_append
  have hl' : (t ++ [0]).length = t.length + 1 := List.length_append
  constructor
  · have hb : (place s (host ++ p) host.length t).beyond = s.beyond := by
      unfold place
      dsimp only
      rw [if_pos hroom]
    refine ⟨?_, ?_, ?_, ?_, ?_⟩
    · unfold place
      dsimp only
      rw [if_pos hroom]
    · unfold HttpOta.text
      rw [hbuf, hb]
      refine Mem.cstr_ended ?_ hh (by omega)
      rw [Mem.read_write_outside (.inl (by omega))]
      exact Mem.read_write_self ..
    · unfold place
      dsimp only
      rw [if_pos hroom]
    · unfold HttpOta.text
      rw [hbuf]
      exact Mem.cstr_ended (Mem.read_write_self ..) ht (by omega)
    · unfold place
      dsimp only
      rw [if_pos hroom]
  · refine ⟨fun a ha => ?_, ?_, ?_⟩
    · rw [hbuf, Mem.write_outside (by omega), Mem.write_outside (by omega)]
    all_goals
      unfold place
      dsimp only
      rw [if_pos hroom]

end Parse

/-! ## One call of `http_get` -/

/-- The events of one call.  No data arrives while it goes on. -/
def Own : Ev → Prop
  | .run        => True
  | .resolved _ => True
  | .create _ _ => True
  | .connect _  => True
  | .close _    => True
  | .go _       => True
  | .giveUp     => True
  | _           => False

/-- What a step of the call does for a URL with the path `t`. -/
structure Law (u : Url) (t : List UInt8) (s : Dev) (e : Ev) (s' : Dev) : Prop where
  sound    : s'.fault = false
  inside   : ∀ a, bufSize ≤ a → s'.http.buf a = s.http.buf a
  taken    : e = .run → Placed u.host t s'
  asks     : e = .run → ((∃ c port, s'.task = .resolving c port) ↔ dotted u.host = false)
  connects : ∀ refused, e = .create true refused →
    ∃ p, s'.pcbs = s.pcbs ++ [p] ∧ p.port = if refused then 8080 else u.portNumber
  sends    : e = .go true → s.netOtaStop = false → ∃ c i p q, s.task = .connecting c i ∧ s'.pcbs[i]? = some p ∧
    p.request = some q ∧ q.text = httpGetHead t u.host q.first (u32 (q.stop + 4294967295))

/-- With a path every step of the call is as it should be; without one `http_get` fails at once, and with it
`net_f_open`. -/
def Handles (u : Url) (s : Dev) : Prop :=
  match u.path with
  | some t => ∀ es, (∀ e ∈ es, Own e) → machine.Along (fun s e s' _ => Law u t s e s') s es
  | none   => ∀ s' o, machine.step s .run = some (s', o) → s'.fault = false ∧ o.ret = some 0

/-- There is a path, with no colon but behind a port, and the host begins with a number other than 0 exactly if it is an
address; or there is neither a path nor a port. -/
def Fair (u : Url) : Prop :=
  match u.path with
  | some t => (u.port = none → 58 ∉ t) ∧ (atoi u.host ≠ 0 ↔ dotted u.host = true)
  | none   => u.port = none

/-- What the call has done when it stands at a task. -/
def Reached (u : Url) (t : List UInt8) (s : Dev) : Task → Prop
  | .getting c        => c.opening = true ∧ s.url = u.text
  | .resolving c port => c.opening = true ∧ Placed u.host t s ∧
      (if port = 0 then httpUpdatePort else port % 65536) = u.portNumber
  | .creating c port  => c.opening = true ∧ Placed u.host t s ∧
      (if port = 0 then httpUpdatePort else port % 65536) = u.portNumber
  | .connecting c i   => c.opening = true ∧ Placed u.host t s ∧ i < s.pcbs.length
  | .reading _        => False
  | .idle             => True
  | .pending _        => True

structure Stage (u : Url) (t : List UInt8) (s : Dev) : Prop where
  sound   : s.fault = false
  start   : s.http.rangeStart < 4294967296
  reached : Reached u t s s.task

section Steps

variable {u : Url} {s s' d : Dev} {t h : List UInt8} {c : Call}

theorem Placed.of_same (hp : Placed h t s) (hbuf : d.http.buf = s.http.buf) (hb : d.beyond = s.beyond)
    (hh : d.http.host = s.http.host) (hf : d.http.file = s.http.file) (hsend : d.http.sendBuf = s.http.sendBuf) :
    Placed h t d := by
  obtain ⟨h₁, h₂, h₃, h₄, h₅⟩ := hp
  unfold HttpOta.text at h₂ h₄
  refine ⟨hh.trans h₁, ?_, hf.trans h₃, ?_, hsend.trans h₅⟩
  · unfold HttpOta.text
    rw [hbuf, hb]
    exact h₂
  · unfold HttpOta.text
    rw [hbuf, hb]
    exact h₄

theorem finish_opening {n : Nat} (ho : c.opening = true) : finish s c n =
    ({ s with task := .idle }, { ret := some (if n = 0 then 0 else 1) }) := if_pos ho

theorem Url.WellFormed.parts (hu : u.WellFormed) (hp : u.path = some t) : 0 ∉ u.host ∧ 0 ∉ t ∧
    u.host.length + t.length ≤ 2040 := by
  have hz := hu.zero
  have hshort := hu.short
  rw [length_text, hp, Option.getD_some] at hshort
  unfold Url.text at hz
  simp only [List.mem_append, not_or] at hz
  rw [hp, Option.getD_some] at hz
  exact ⟨hz.2.1, hz.2.2.2, by omega⟩

/-- The call up to the wait for the address, once the URL is taken apart. -/
theorem startGet_placed {p : List UInt8} {port : Int} (hparse : parseUrl { s with readSem := 0 } =
      (place { s with readSem := 0 } (h ++ p) h.length t, some port)) (ho : c.opening = true) (hh : 0 ∉ h) (ht : 0 ∉ t)
    (hlen : h.length + t.length + 2 < bufSize) :
    Placed h t (startGet s c).1 ∧ Spared s (startGet s c).1 ∧
      (startGet s c).1.task = if atoi h = 0 then .resolving c port else .creating c port := by
  obtain ⟨hpl, hsp⟩ := place_spec (p := p) { s with readSem := 0 } hh ht hlen
  unfold startGet
  rw [hparse]
  dsimp only
  generalize place { s with readSem := 0 } (h ++ p) h.length t = d at hpl hsp
  obtain ⟨h₁, h₂, h₃⟩ := hsp
  unfold resolve
  dsimp only
  rw [if_pos (.inr ho), hpl.hostText]
  split
  · exact ⟨hpl.of_same rfl rfl rfl rfl rfl, ⟨h₁, h₂, h₃⟩, rfl⟩
  · exact ⟨hpl.of_same rfl rfl rfl rfl rfl, ⟨h₁, h₂, h₃⟩, rfl⟩

/-- The call up to the wait for the address. -/
theorem startGet_fair (hu : u.WellFormed) (hp : u.path = some t) (hc : u.port = none → 58 ∉ t) (ho : c.opening = true)
    (hf : s.fault = false) (hs : s.url = u.text) (hr : s.http.rangeStart < 4294967296) :
    Stage u t (startGet s c).1 ∧ Placed u.host t (startGet s c).1 ∧
      (∀ a, bufSize ≤ a → (startGet s c).1.http.buf a = s.http.buf a) ∧
      ((∃ c' port, (startGet s c).1.task = .resolving c' port) ↔ atoi u.host = 0) := by
  obtain ⟨port, p, hparse, hport⟩ := parseUrl_fair (s := { s with readSem := 0 }) hu hp hc hs
  obtain ⟨hz, hz', hlen⟩ := hu.parts hp
  have hbuf : bufSize = 40908 := rfl
  obtain ⟨hpl, hsp, htask⟩ := startGet_placed hparse ho hz hz' (by omega)
  generalize (startGet s c).1 = d at hpl hsp htask
  refine ⟨⟨hsp.fault.trans hf, Nat.lt_of_le_of_lt (Nat.le_of_eq hsp.rangeStart) hr, ?_⟩, hpl, hsp.beyond, ?_⟩
  · rw [htask]
    split
    · exact ⟨ho, hpl, hport⟩
    · exact ⟨ho, hpl, hport⟩
  · rw [htask]
    split
    · rename_i h0
      exact ⟨fun _ => h0, fun _ => ⟨c, port, rfl⟩⟩
    · rename_i h0
      exact ⟨(fun ⟨_, _, h⟩ => by cases h), fun h => absurd h h0⟩

theorem length_showInt {v : Nat} (h : v < 4294967296) : (showInt v).length ≤ 11 := by
  have hdec : ∀ n, n < 10 ^ 10 → (decimal n).length ≤ 10 := fun n hn => by
    unfold decimal
    rw [List.length_map]
    exact (Nat.length_toDigits_le_iff (by decide) (by decide)).2 hn
  unfold showInt
  split
  · exact Nat.le_succ_of_le (hdec v (by omega))
  · exact Nat.succ_le_succ (hdec _ (by omega))

theorem length_httpGetHead {file host : List UInt8} {first last : Nat} (h₁ : first < 4294967296)
    (h₂ : last < 4294967296) : (httpGetHead file host first last).length ≤ file.length + host.length + 150 := by
  have l₁ := length_showInt h₁
  have l₂ := length_showInt h₂
  have a₁ : (ascii "GET ").length = 4 := rfl
  have a₂ : (ascii " HTTP/1.1\r\nHost: ").length = 17 := rfl
  have a₃ : (ascii "\r\nUser-Agent: User\r\nAccept: */*\r\nConnection: Close\r\nRange: bytes=").length = 65 := by
    decide
  have a₄ : (ascii "-").length = 1 := rfl
  have a₅ : (ascii "\r\n\r\n").length = 4 := rfl
  unfold httpGetHead
  simp only [List.length_append]
  omega

/-- The request written behind the host and the path. -/
theorem writeRequest_placed (hp : Placed h t s) (hlen : h.length + t.length ≤ 2040)
    (hr : s.http.rangeStart < 4294967296) : ∃ d q, writeRequest s = (d, some q) ∧
      q.text = httpGetHead t h q.first (u32 (q.stop + 4294967295)) ∧ d.fault = s.fault ∧ d.pcbs = s.pcbs ∧
      d.http.rangeStart = s.http.rangeStart ∧ ∀ a, bufSize ≤ a → d.http.buf a = s.http.buf a := by
  obtain ⟨h₁, h₂, h₃, h₄, h₅⟩ := hp
  have hbuf : bufSize = 40908 := rfl
  unfold HttpOta.text at h₂ h₄
  unfold writeRequest HttpOta.text
  dsimp only
  rw [h₅, h₁, h₃]
  dsimp only
  rw [h₂, h₄]
  refine ⟨_, _, rfl, rfl, rfl, rfl, rfl, fun a ha => Mem.write_outside (.inr ?_)⟩
  have := @length_httpGetHead t h _ (u32 (u32 (s.http.rangeStart + rangeSize s.http) + 4294967295)) hr (u32_lt _)
  rw [List.length_append, List.length_singleton]
  omega

/-- A change that no task depends on. -/
theorem Stage.of_same (hst : Stage u t s) (hplaced : ∀ h, Placed h t s → Placed h t d) (hf : d.fault = s.fault)
    (hurl : d.url = s.url) (hpcbs : s.pcbs.length ≤ d.pcbs.length) (hr : d.http.rangeStart = s.http.rangeStart)
    (ht : d.task = s.task) : Stage u t d := by
  obtain ⟨h₁, h₂, h₃⟩ := hst
  refine ⟨hf.trans h₁, hr ▸ h₂, ?_⟩
  rw [ht]
  cases hs : s.task with
  | idle               => trivial
  | reading c          =>
    rw [hs] at h₃
    exact h₃
  | getting c          =>
    rw [hs] at h₃
    exact ⟨h₃.1, hurl.trans h₃.2⟩
  | resolving c port   =>
    rw [hs] at h₃
    exact ⟨h₃.1, hplaced _ h₃.2.1, h₃.2.2⟩
  | creating c port    =>
    rw [hs] at h₃
    exact ⟨h₃.1, hplaced _ h₃.2.1, h₃.2.2⟩
  | connecting c i     =>
    rw [hs] at h₃
    exact ⟨h₃.1, hplaced _ h₃.2.1, Nat.lt_of_lt_of_le h₃.2.2 hpcbs⟩
  | pending c          => trivial

theorem length_setPcb (s : Dev) (i : Nat) (f : Pcb → Pcb) : (setPcb s i f).pcbs.length = s.pcbs.length :=
  List.length_modify ..

/-- A step that does not concern the law. -/
theorem Law.of_quiet {e : Ev} (hf : d.fault = false) (hb : d.http.buf = s.http.buf) (h₁ : e ≠ .run)
    (h₂ : ∀ refused, e ≠ .create true refused) (h₃ : e ≠ .go true ∨ s.netOtaStop = true) : Law u t s e d where
  sound    := hf
  inside   := fun a _ => congrFun hb a
  taken    := fun h => absurd h h₁
  asks     := fun h => absurd h h₁
  connects := fun refused h => absurd h (h₂ refused)
  sends    := fun h h' => by
    rcases h₃ with h₃ | h₃
    · exact absurd h h₃
    · rw [h₃] at h'
      cases h'

/-- **One step of the call.** -/
theorem stage_step {e : Ev} {o : Out} (hu : u.WellFormed) (hp : u.path = some t) (hc : u.port = none → 58 ∉ t)
    (hd : atoi u.host ≠ 0 ↔ dotted u.host = true) (hst : Stage u t s) (hs : machine.step s e = some (s', o))
    (he : Own e) : Stage u t s' ∧ Law u t s e s' := by
  obtain ⟨hf, ht⟩ := step_took hs
  obtain ⟨-, -, hlen⟩ := hu.parts hp
  obtain ⟨-, hr, hreach⟩ := hst
  cases e with
  | fOpen           => cases he
  | seek type off   => cases he
  | read buf len    => cases he
  | announce len    => cases he
  | resume          => cases he
  | timeout         => cases he
  | segment i p     => cases he
  | run             =>
    rcases ht with ⟨c, hc', -⟩ | ⟨c, hc', hr'⟩
    · rw [hc'] at hreach
      cases hreach
    · rw [hc'] at hreach
      obtain ⟨hstage, hpl, hin, hask⟩ := startGet_fair hu hp hc hreach.1 hf hreach.2 hr
      rw [← hr'] at hstage hpl hin hask
      refine ⟨hstage, hstage.sound, hin, fun _ => hpl, fun _ => hask.trans ?_, (fun _ h => by cases h),
        fun h => by cases h⟩
      rw [← Bool.not_eq_true, ← hd, not_not]
  | resolved r      =>
    cases r with
    | none   =>
      obtain ⟨c, port, hc', hr'⟩ := ht
      rw [hc'] at hreach
      rw [finish_opening hreach.1] at hr'
      cases hr'
      exact ⟨⟨hf, hr, trivial⟩, .of_quiet hf rfl (by simp) (by simp) (.inl (by simp))⟩
    | some a =>
      obtain ⟨c, port, hc', hr'⟩ := ht
      rw [hc'] at hreach
      cases hr'
      obtain ⟨ho, hpl, hport⟩ := hreach
      exact ⟨⟨hf, hr, ho, hpl.of_same rfl rfl rfl rfl rfl, hport⟩,
        .of_quiet hf rfl (by simp) (by simp) (.inl (by simp))⟩
  | create ok refused =>
    obtain ⟨c, port, hc', hr'⟩ := ht
    rw [hc'] at hreach
    obtain ⟨ho, hpl, hport⟩ := hreach
    cases ok with
    | false =>
      rw [if_neg (by decide), finish_opening ho] at hr'
      cases hr'
      exact ⟨⟨hf, hr, trivial⟩, .of_quiet hf rfl (by simp) (by simp) (.inl (by simp))⟩
    | true  =>
      rw [if_pos rfl] at hr'
      cases hr'
      unfold createPcb
      dsimp only
      refine ⟨⟨hf, hr, ho, hpl.of_same rfl rfl rfl rfl rfl, ?_⟩, hf, fun _ _ => rfl, (fun h => by cases h),
        (fun h => by cases h), fun r hre => ⟨_, rfl, ?_⟩, fun h => by cases h⟩
      · dsimp only
        rw [List.length_append, List.length_singleton]
        exact Nat.lt_succ_self _
      · cases hre
        rw [hport]
  | connect i       =>
    obtain rfl : s' = _ := congrArg Prod.fst ht
    exact ⟨Stage.of_same ⟨hf, hr, hreach⟩ (fun _ hpl => hpl.of_same rfl rfl rfl rfl rfl) rfl rfl
      (Nat.le_of_eq (length_setPcb ..).symm) rfl rfl, .of_quiet hf rfl (by simp) (by simp) (.inl (by simp))⟩
  | close i         =>
    obtain rfl : s' = msgclose s i := congrArg Prod.fst ht
    unfold msgclose
    dsimp only
    split
    · exact ⟨Stage.of_same ⟨hf, hr, hreach⟩ (fun _ hpl => hpl.of_same rfl rfl rfl rfl rfl) rfl rfl
        (Nat.le_of_eq (length_setPcb ..).symm) rfl rfl, .of_quiet hf rfl (by simp) (by simp) (.inl (by simp))⟩
    · exact ⟨Stage.of_same ⟨hf, hr, hreach⟩ (fun _ hpl => hpl.of_same rfl rfl rfl rfl rfl) rfl rfl
        (Nat.le_of_eq (length_setPcb ..).symm) rfl rfl, .of_quiet hf rfl (by simp) (by simp) (.inl (by simp))⟩
  | giveUp          =>
    obtain ⟨c, i, hc', hr'⟩ := ht
    rw [hc'] at hreach
    rw [abandon, finish_opening hreach.1] at hr'
    cases hr'
    exact ⟨⟨hf, hr, trivial⟩, .of_quiet hf rfl (by simp) (by simp) (.inl (by simp))⟩
  | go sent         =>
    obtain ⟨c, i, hc', -, hr'⟩ := ht
    rw [hc'] at hreach
    obtain ⟨ho, hpl, hi⟩ := hreach
    unfold sendGet at hr'
    split at hr'
    · rename_i hstop
      rw [abandon, finish_opening ho] at hr'
      cases hr'
      exact ⟨⟨hf, hr, trivial⟩, .of_quiet hf rfl (by simp) (by simp) (.inr hstop)⟩
    · obtain ⟨d, q, hw, htext, hfault, hpcbs, hstart, hin⟩ := writeRequest_placed hpl hlen hr
      rw [hw] at hr'
      dsimp only at hr'
      cases sent with
      | false =>
        rw [if_neg (by decide), finish_opening ho] at hr'
        cases hr'
        exact ⟨⟨hfault.trans hf, hstart ▸ hr, trivial⟩, hfault.trans hf, hin, (fun h => by cases h),
          (fun h => by cases h), (fun _ h => by cases h), fun h => by cases h⟩
      | true  =>
        rw [if_pos rfl] at hr'
        cases hr'
        refine ⟨⟨hfault.trans hf, hstart ▸ hr, trivial⟩, hfault.trans hf, hin, (fun h => by cases h),
          (fun h => by cases h), (fun _ h => by cases h), fun _ _ => ⟨c, i,
          { getElem s.pcbs i hi with request := some q }, q, hc', ?_, rfl, htext⟩⟩
        unfold setPcb
        dsimp only
        rw [hpcbs, List.getElem?_modify, List.getElem?_eq_getElem hi]
        exact congrArg some (if_pos rfl)

theorem step_getting (hs : s.task = .getting c) (hf : s.fault = false) : machine.step s .run = some (startGet s c) := by
  have h : machine.step s .run = step s .run := rfl
  have hno : ¬ s.fault = true := by
    rw [hf]
    decide
  rw [h]
  unfold step
  rw [if_neg hno, hs]

/-- A URL that is refused, or has no path. -/
theorem startGet_exit (h : (parseUrl { s with readSem := 0 }).2 = none) : startGet s c =
    if (parseUrl { s with readSem := 0 }).1.fault then ((parseUrl { s with readSem := 0 }).1, {})
    else finish (parseUrl { s with readSem := 0 }).1 c 0 := by
  unfold startGet
  generalize parseUrl { s with readSem := 0 } = r at h
  obtain ⟨d, port⟩ := r
  dsimp only at h
  rw [h]

/-- What a URL is like that is handled as it should be. -/
theorem Handles.fair (h : Handles u s) (hu : u.WellFormed) (hs : s.task = .getting c) (ho : c.opening = true)
    (hf : s.fault = false) (hurl : s.url = u.text) (hr : s.http.rangeStart < 4294967296) : Fair u := by
  have hrun := step_getting hs hf
  unfold Handles at h
  unfold Fair
  cases hp : u.path with
  | some t =>
    rw [hp] at h
    dsimp only at h ⊢
    obtain ⟨hz, hz', hlen⟩ := hu.parts hp
    have hlaw := (h [.run] (fun e he => by rw [List.mem_singleton.1 he]; exact trivial) _ _ hrun).1
    have hc : u.port = none → 58 ∉ t := fun hport hmem => by
      obtain ⟨t₁, port, p, hne, hpre, hparse⟩ := parseUrl_strayed (s := { s with readSem := 0 }) hu hp hport hmem hurl
      have hbuf : bufSize = 40908 := rfl
      have hle := hpre.length_le
      obtain ⟨hpl, -, -⟩ := startGet_placed hparse ho
        (fun h => (List.mem_append.1 h).elim hz (fun h => hz' (hpre.subset h))) hz'
        (by rw [List.length_append]; omega)
      -- what is taken for the host is longer
      have heq := hpl.hostText.symm.trans (hlaw.taken rfl).hostText
      exact hne (List.append_right_eq_self.1 heq)
    refine ⟨hc, ?_⟩
    obtain ⟨-, -, -, hask⟩ := startGet_fair hu hp hc ho hf hurl hr
    have := hask.symm.trans (hlaw.asks rfl)
    rw [ne_eq, this, Bool.not_eq_false]
  | none   =>
    rw [hp] at h
    dsimp only at h ⊢
    by_contra hport
    obtain ⟨hnone, hfault⟩ := parseUrl_pathless (s := { s with readSem := 0 }) hu hp hurl
    rw [if_neg hport] at hfault
    have := (h (startGet s c).1 (startGet s c).2 hrun).1
    rw [startGet_exit hnone, if_pos hfault, hfault] at this
    cases this

theorem Fair.handles (h : Fair u) (hu : u.WellFormed) (hs : s.task = .getting c) (ho : c.opening = true)
    (hf : s.fault = false) (hurl : s.url = u.text) (hr : s.http.rangeStart < 4294967296) : Handles u s := by
  unfold Fair at h
  unfold Handles
  cases hp : u.path with
  | some t =>
    rw [hp] at h
    obtain ⟨hc, hd⟩ := h
    intro es hown
    exact Machine.along_of_inv (C := fun _ e _ _ => Own e) (Stage u t)
      (fun s e s' o hst hs he => stage_step hu hp hc hd hst hs he) es s
      ⟨hf, hr, by rw [hs]; exact ⟨ho, hurl⟩⟩ (Machine.along_of_forall (P := Own) (fun _ _ _ _ h => h) es s hown)
  | none   =>
    rw [hp] at h
    intro s' o hstep
    obtain ⟨hnone, hfault⟩ := parseUrl_pathless (s := { s with readSem := 0 }) hu hp hurl
    rw [if_pos h] at hfault
    have hfault : (parseUrl { s with readSem := 0 }).1.fault = false := hfault.trans hf
    rw [step_getting hs hf, startGet_exit hnone, hfault, if_neg (by decide), finish_opening ho] at hstep
    obtain ⟨rfl, rfl⟩ := Prod.mk.inj (Option.some.inj hstep)
    exact ⟨hfault, rfl⟩

/-- **When a URL is handled as it should be.** -/
theorem handles_iff (u : Url) (hu : u.WellFormed) (s : Dev) (c : Call) (hs : s.task = .getting c)
    (ho : c.opening = true) (hf : s.fault = false) (hurl : s.url = u.text) (hr : s.http.rangeStart < 4294967296) :
    Handles u s ↔ Fair u :=
  ⟨fun h => h.fair hu hs ho hf hurl hr, fun h => h.handles hu hs ho hf hurl hr⟩

/-- An address, a port and a colon in the path. -/
def plainUrl : Url := ⟨ascii "10.1.2.3", some (ascii "8080"), some (ascii "/a:b")⟩

theorem plainUrl_wellFormed : plainUrl.WellFormed where
  host  := by decide
  port  := fun ds h => by
    obtain rfl := Option.some.inj h
    exact ⟨8080, ⟨by decide, by decide, by decide⟩, by decide, by decide⟩
  path  := fun t h => ⟨ascii "a:b", (Option.some.inj h).symm⟩
  zero  := by decide
  short := by decide

/-- The state in which `net_f_open` calls `http_get`. -/
def opening (u : Url) : Dev :=
  { fresh u.text (fun _ => 0) 0 (fun _ => 0) (fun _ => 0) with opened := true, task := .getting ⟨true, 0, 0, 0, 3⟩ }

theorem handles_plain : Handles plainUrl (opening plainUrl) :=
  (handles_iff plainUrl plainUrl_wellFormed (opening plainUrl) _ rfl rfl rfl rfl (by decide)).2 
    ⟨(fun h => by cases h), by decide⟩

/-- A colon in the path, without a port. -/
def strayUrl : Url := ⟨ascii "h", none, some (ascii "/a:b")⟩

theorem not_handles : ¬ ∀ (u : Url) (s : Dev) (c : Call), u.WellFormed → s.task = .getting c → c.opening = true →
    s.fault = false → s.url = u.text → s.http.rangeStart < 4294967296 → Handles u s := by
  intro hall
  have hu : strayUrl.WellFormed := {
    host := by decide
    port := fun ds h => by cases h
    path := fun t h => ⟨ascii "a:b", (Option.some.inj h).symm⟩
    zero := by decide
    short := by decide }
  have h := hall strayUrl (opening strayUrl) _ hu rfl rfl rfl rfl (by decide)
  obtain ⟨hc, -⟩ := h.fair hu rfl rfl rfl rfl (by decide)
  exact hc rfl (by decide)

end Steps

end Sta
end OtaLoader
