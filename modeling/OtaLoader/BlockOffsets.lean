import OtaLoader.BlockFrame
/-!
# BlockOffsets — the offsets that block reads ask for

A read that goes on with a run of blocks down through the file asks for the block below its own.  The mode is the length
of that run (`Paced`), so a request leaves the file exactly where a run of five steps comes to its first block
(`requests_inside_iff`).
-/
namespace OtaLoader
namespace Block

/-! ## Runs of blocks -/

/-- A read of a block, the one below the address read before. -/
def Args.Follows (c : Args) (last : Nat) : Prop := c.seek = below last ∧ c.btr % 65536 = onceUpdateReadLen

instance (c : Args) (last : Nat) : Decidable (c.Follows last) := instDecidableAnd

/-- The address of the last read; `last_addr` starts as 0. -/
def lastSeek : List Args → Nat
  | []     => 0
  | c :: _ => c.seek

/-- For how many steps the reads have gone down block by block, the last read first. -/
def streak : List Args → Nat
  | []      => 0
  | c :: cs => if c.Follows (lastSeek cs) then streak cs + 1 else 0

/-- The system with the reads that have begun, the last one first. -/
def logged (b : Env) : Machine (State × List Args) (Event ⊕ List UInt8) (List Copy) where
  step s e := ((anyPeer b).step s.1 e).map (fun r =>
    ((r.1, match e with
      | .inl (.start c) => c :: s.2
      | _               => s.2), r.2))

/-- The request that a step sends. -/
def Sends (s s' : State) (r : Request) : Prop := s'.queue.length = s.queue.length + 1 ∧ s'.queue.getLast? = some r

/-- What is asked for lies no higher than what is read, and is as long. -/
def Inside (s : State × List Args) (_ : Event ⊕ List UInt8) (s' : State × List Args) (_ : List Copy) : Prop :=
  ∀ c r, s'.1.phase.call = some c → Sends s.1 s'.1 r → r.len = c.btr ∧ r.offset ≤ c.seek

/-- No run goes on, or starts prefetching, at the first block of the file. -/
def StaysInside (s : State × List Args) (e : Event ⊕ List UInt8) (_ : State × List Args) (_ : List Copy) : Prop :=
  match e with
  | .inl (.start c) => c.seek < onceUpdateReadLen → streak (c :: s.2) ≤ continueReadTimes
  | .inl .second    => onceUpdateReadLen ≤ lastSeek s.2
  | _               => True

/-- The mode is the length of the run. -/
def Counts (p : PreRead) (k : Nat) : Prop :=
  match p.preReadFlag with
  | .disable     => p.preReadCnt = k ∧ k < continueReadTimes
  | .toggleToEn  => k = continueReadTimes
  | .enable      => continueReadTimes < k
  | .toggleToDis => p.preReadCnt = 0 ∧ k = 0

/-- What holds of the mode among the reads `cs`. -/
structure Paced (s : State) (cs : List Args) : Prop where
  last  : s.dev.pre.lastAddr = lastSeek cs
  mode  : Counts s.dev.pre (streak cs)
  drain : s.dev.pre.preReadFlag = .toggleToDis ↔ ∃ c l, s.phase = .waitLast c l
  sent  : ∀ c, s.phase = .sent c → lastSeek cs = c.seek

variable {b : Env} {s s' : State} {c : Args} {cs : List Args}

theorem below_le_iff {a : Nat} : below a ≤ a ↔ onceUpdateReadLen ≤ a := by
  have hlen := onceUpdateReadLen_eq
  unfold below
  split
  · omega
  · omega

/-- What the pattern of the addresses does to the mode is to count. -/
theorem Paced.flag (h : Paced s cs) (hne : s.dev.pre.preReadFlag ≠ .toggleToDis) (c : Args) :
    (getUpdatePreReadFlag s.dev.pre c.seek (c.btr % 65536)).lastAddr = c.seek ∧
      Counts (getUpdatePreReadFlag s.dev.pre c.seek (c.btr % 65536)) (streak (c :: cs)) := by
  have hcont : continueReadTimes = 5 := rfl
  have hmode := h.mode
  unfold Counts at hmode
  unfold getUpdatePreReadFlag streak
  rw [h.last]
  by_cases hf : c.Follows (lastSeek cs)
  · have hm : c.seek = below (lastSeek cs) ∧ c.btr % 65536 = onceUpdateReadLen := hf
    rw [if_pos hm, if_pos hf]
    cases hp : s.dev.pre.preReadFlag with
    | disable     =>
      rw [hp] at hmode
      obtain ⟨hcnt, hlt⟩ := hmode
      dsimp only
      by_cases h5 : (s.dev.pre.preReadCnt + 1) % 256 ≥ continueReadTimes
      · rw [if_pos h5]
        refine ⟨rfl, ?_⟩
        unfold Counts
        dsimp only
        omega
      · rw [if_neg h5]
        refine ⟨rfl, ?_⟩
        unfold Counts
        dsimp only
        omega
    | toggleToDis => exact absurd hp hne
    | toggleToEn  =>
      rw [hp] at hmode
      dsimp only at hmode
      refine ⟨rfl, ?_⟩
      unfold Counts
      dsimp only
      omega
    | enable      =>
      rw [hp] at hmode
      dsimp only at hmode
      refine ⟨rfl, ?_⟩
      unfold Counts
      dsimp only
      omega
  · have hm : ¬ (c.seek = below (lastSeek cs) ∧ c.btr % 65536 = onceUpdateReadLen) := hf
    rw [if_neg hm, if_neg hf]
    cases hp : s.dev.pre.preReadFlag with
    | enable      => exact ⟨rfl, rfl, rfl⟩
    | toggleToDis => exact absurd hp hne
    | _           => exact ⟨rfl, rfl, by rw [hcont]; decide⟩

/-- The request of a read. -/
theorem sends_send {f : PreReadFlag} {r : Request} (h : Sends s (send s c f) r) :
    r.len = c.btr ∧ r.offset = if f = .enable then below c.seek else c.seek := by
  have hlast := h.2
  unfold send at hlast
  dsimp only at hlast
  split at hlast
  · rename_i he
    rw [List.getLast?_concat] at hlast
    cases hlast
    exact ⟨rfl, (if_pos he).symm⟩
  · rename_i he
    rw [List.getLast?_concat] at hlast
    cases hlast
    exact ⟨rfl, (if_neg he).symm⟩

theorem send_sends (s : State) (c : Args) (f : PreReadFlag) :
    ∃ r, Sends s (send s c f) r ∧ (send s c f).phase.call = some c := by
  unfold send Sends
  dsimp only
  split
  · refine ⟨_, ⟨?_, List.getLast?_concat⟩, ?_⟩
    · rw [List.length_append]
      rfl
    · split <;> rfl
  · refine ⟨_, ⟨?_, List.getLast?_concat⟩, ?_⟩
    · rw [List.length_append, List.length_map]
      rfl
    · split <;> rfl

/-- The request of a read lies no higher than the read unless it runs ahead of the file's first block. -/
theorem send_inside {d : State} (hq : d.queue = s.queue) (c : Args) (f : PreReadFlag) (e : Event ⊕ List UInt8)
    (o : List Copy) (cs cs' : List Args) :
    Inside (s, cs) e (send d c f, cs') o ↔ (f = .enable → onceUpdateReadLen ≤ c.seek) := by
  have hsends : ∀ r, Sends s (send d c f) r ↔ Sends d (send d c f) r := fun r => by
    unfold Sends
    rw [hq]
  constructor
  · intro h hf
    obtain ⟨r, hr, hcall⟩ := send_sends d c f
    have hle := (h c r hcall ((hsends r).2 hr)).2
    rw [(sends_send hr).2, if_pos hf] at hle
    exact below_le_iff.1 hle
  · intro h c' r hcall hr
    obtain ⟨r', -, hc⟩ := send_sends d c f
    rw [hc] at hcall
    cases hcall
    obtain ⟨hlen, hoff⟩ := sends_send ((hsends r).1 hr)
    refine ⟨hlen, ?_⟩
    rw [hoff]
    split
    · rename_i hf
      exact below_le_iff.2 (h hf)
    · exact Nat.le_refl _

/-- A read that has waited for the last block asks for its own. -/
theorem waited_inside (s : State) (d : Dev) (c : Args) (e : Event ⊕ List UInt8) (o : List Copy) (cs cs' : List Args) :
    Inside (s, cs) e (waited s d c, cs') o := by
  have hq : State.queue { s with dev := { d with pre := { d.pre with preReadFlag := .disable } } } = s.queue := rfl
  exact (send_inside hq c .toggleToDis e o cs cs').2 nofun

/-! ## Steps -/

section Steps

variable {temp : Nat} {file : Mem}

/-- A step that sends nothing. -/
theorem inside_of_length {e : Event ⊕ List UInt8} {o : List Copy} {cs cs' : List Args}
    (h : s'.queue.length ≤ s.queue.length) : Inside (s, cs) e (s', cs') o := by
  intro c r _ hr
  have := hr.1
  dsimp only at this
  omega

/-- A packet leaves the mode and the address of the last read. -/
theorem rx_pace (d : Dev) (bs : List UInt8) (n : Nat) :
    (devReadUpdateBlockHandle b d bs n).pre.preReadFlag = d.pre.preReadFlag ∧
      (devReadUpdateBlockHandle b d bs n).pre.preReadCnt = d.pre.preReadCnt ∧
      (devReadUpdateBlockHandle b d bs n).pre.lastAddr = d.pre.lastAddr := by
  unfold devReadUpdateBlockHandle
  split
  · dsimp only
    split
    · unfold keep
      dsimp only
      split
      · exact ⟨rfl, rfl, rfl⟩
      · split <;> exact ⟨rfl, rfl, rfl⟩
    · exact ⟨rfl, rfl, rfl⟩
  · exact ⟨rfl, rfl, rfl⟩

/-- So does a round of the handler. -/
theorem handler_pace {d d' : Dev} {addr len n : Nat}
    (h : bleUpdataHandler (preReading temp file) d addr len = some (d', n)) :
    d'.pre.preReadFlag = d.pre.preReadFlag ∧ d'.pre.preReadCnt = d.pre.preReadCnt ∧ d'.pre.lastAddr = d.pre.lastAddr := by
  unfold bleUpdataHandler at h
  rw [if_pos (by rfl)] at h
  unfold getUpdatePreReadBuf at h
  split at h
  · rename_i d₁ hd
    obtain ⟨rfl, -⟩ := Prod.mk.inj (Option.some.inj h)
    split at hd
    · cases hd
      exact ⟨rfl, rfl, rfl⟩
    · split at hd
      · cases hd
        exact ⟨rfl, rfl, rfl⟩
      · cases hd
  · split at h
    · obtain ⟨rfl, -⟩ := Prod.mk.inj (Option.some.inj h)
      exact ⟨rfl, rfl, rfl⟩
    · cases h

/-- A step of the same call, or its end. -/
theorem Paced.keeps (h : Paced s cs) (hf : s'.dev.pre.preReadFlag = s.dev.pre.preReadFlag)
    (hc : s'.dev.pre.preReadCnt = s.dev.pre.preReadCnt) (hl : s'.dev.pre.lastAddr = s.dev.pre.lastAddr)
    (hp : s'.phase = s.phase ∨ ((∀ c, s'.phase ≠ .sent c) ∧ (∀ c l, s'.phase ≠ .waitLast c l) ∧
      ∀ c l, s.phase ≠ .waitLast c l)) : Paced s' cs := by
  refine ⟨hl.trans h.last, ?_, ?_, fun c hc => ?_⟩
  · have hmode := h.mode
    unfold Counts at hmode ⊢
    rwa [hf, hc]
  · rw [hf, h.drain]
    rcases hp with hp | ⟨-, h₁, h₂⟩
    · rw [hp]
    · exact ⟨fun ⟨c, l, hc⟩ => absurd hc (h₂ c l), fun ⟨c, l, hc⟩ => absurd hc (h₁ c l)⟩
  · rcases hp with hp | ⟨h₁, -, -⟩
    · exact h.sent c (hp ▸ hc)
    · exact absurd hc (h₁ c)

/-- The request of a read that does not wait first. -/
theorem Paced.send {f : PreReadFlag} (hl : s.dev.pre.lastAddr = c.seek) (hm : Counts s.dev.pre (streak (c :: cs)))
    (hne : s.dev.pre.preReadFlag ≠ .toggleToDis) : Paced (send s c f) (c :: cs) := by
  refine ⟨hl, hm, ⟨fun h => absurd h hne, fun ⟨c', l, h⟩ => ?_⟩, fun c' h => ?_⟩
  · unfold Block.send at h
    dsimp only at h
    split at h <;> cases h
  · unfold Block.send at h
    dsimp only at h
    split at h
    · cases h
      rfl
    · cases h

/-- The waiting for the last block is over, and prefetching with it. -/
theorem Paced.waited {d : Dev} {l : Nat} (h : Paced s cs) (hp : s.phase = .waitLast c l)
    (hc : d.pre.preReadCnt = s.dev.pre.preReadCnt) (hl : d.pre.lastAddr = s.dev.pre.lastAddr) :
    Paced (waited s d c) cs := by
  have hmode := h.mode
  unfold Counts at hmode
  rw [h.drain.2 ⟨c, l, hp⟩] at hmode
  obtain ⟨h₀, h₁⟩ := hmode
  refine ⟨hl.trans h.last, ⟨hc.trans (h₀.trans h₁.symm), ?_⟩, ⟨nofun, fun ⟨c', l, h⟩ => by cases h⟩, fun c' h => by cases h⟩
  rw [h₁]
  decide

/-- **One step**: the mode goes on counting, and a request leaves the file only at its first block. -/
theorem step_paced {s s' : State × List Args} {e : Event ⊕ List UInt8} {o : List Copy} (h : Paced s.1 s.2)
    (hs : (logged (preReading temp file)).step s e = some (s', o)) :
    Paced s'.1 s'.2 ∧ (Inside s e s' o ↔ StaysInside s e s' o) := by
  obtain ⟨s, cs⟩ := s
  obtain ⟨⟨s₁, o₁⟩, hany, heq⟩ := Option.map_eq_some_iff.1 hs
  obtain ⟨rfl, rfl⟩ := Prod.mk.inj heq
  dsimp only at h ⊢
  cases e with
  | inr bs =>
    obtain ⟨rfl, -⟩ := Prod.mk.inj (Option.some.inj hany)
    obtain ⟨h₁, h₂, h₃⟩ := rx_pace (b := preReading temp file) s.dev bs (bs.length % 65536)
    exact ⟨h.keeps h₁ h₂ h₃ (.inl rfl), fun _ => trivial, fun _ => inside_of_length (Nat.le_refl _)⟩
  | inl e =>
    obtain ⟨⟨s₂, o₂⟩, hm, heq⟩ := Option.map_eq_some_iff.1 hany
    obtain ⟨rfl, -⟩ := Prod.mk.inj heq
    dsimp only
    cases e with
    | start c =>
      cases hp : s.phase <;> simp only [machine, hp, reduceCtorEq] at hm
      split at hm
      swap
      · cases hm
      obtain ⟨rfl, -⟩ := Prod.mk.inj (Option.some.inj hm)
      have hne : s.dev.pre.preReadFlag ≠ .toggleToDis := fun hd => by
        obtain ⟨c', l, hc⟩ := h.drain.1 hd
        rw [hp] at hc
        cases hc
      obtain ⟨hlast, hcount⟩ := h.flag hne c
      unfold start
      rw [if_pos (by rfl)]
      dsimp only
      split
      · rename_i hd
        refine ⟨⟨hlast, hcount, ⟨fun _ => ⟨_, _, rfl⟩, fun _ => hd⟩, fun c' hc => by cases hc⟩, fun _ _ => ?_, fun _ =>
          inside_of_length (Nat.le_refl _)⟩
        unfold Counts at hcount
        rw [hd] at hcount
        rw [hcount.2]
        exact Nat.zero_le _
      · rename_i hd
        refine ⟨.send hlast hcount hd, ?_⟩
        have hq : State.queue { s with
          dev := { s.dev with pre := getUpdatePreReadFlag s.dev.pre c.seek (c.btr % 65536) } } = s.queue := rfl
        refine (send_inside hq c _ (.inl (.start c)) o₁ cs (c :: cs)).trans ?_
        unfold Counts at hcount
        unfold StaysInside
        dsimp only
        cases hf : (getUpdatePreReadFlag s.dev.pre c.seek (c.btr % 65536)).preReadFlag with
        | disable     =>
          rw [hf] at hcount
          exact ⟨fun _ _ => Nat.le_of_lt hcount.2, fun _ h => by cases h⟩
        | toggleToDis => exact absurd hf hd
        | toggleToEn  =>
          rw [hf] at hcount
          exact ⟨fun _ _ => Nat.le_of_eq hcount, fun _ h => by cases h⟩
        | enable      =>
          rw [hf] at hcount
          dsimp only at hcount
          exact ⟨fun hin hlt => absurd (hin rfl) (by omega), fun hin _ => by_contra fun hlt =>
            absurd (hin (by omega)) (by omega)⟩
    | second =>
      cases hp : s.phase <;> simp only [machine, hp, reduceCtorEq] at hm
      rename_i c
      obtain ⟨rfl, -⟩ := Prod.mk.inj (Option.some.inj hm)
      refine ⟨h.keeps rfl rfl rfl (.inr ⟨(fun c' hc => by cases hc), (fun c' l hc => by cases hc), fun c' l hc => ?_⟩), ?_⟩
      · rw [hp] at hc
        cases hc
      · unfold StaysInside
        dsimp only
        rw [h.sent c hp, ← below_le_iff]
        constructor
        · intro hin
          exact (hin c ⟨below c.seek, c.btr, false⟩ rfl ⟨by simp, List.getLast?_concat⟩).2
        · intro hle c' r hcall hr
          cases hcall
          have hlast := hr.2
          rw [List.getLast?_concat] at hlast
          cases hlast
          exact ⟨rfl, hle⟩
    | timeout =>
      cases hp : s.phase <;> simp only [machine, hp, reduceCtorEq] at hm
      · rename_i c l
        obtain ⟨rfl, -⟩ := Prod.mk.inj (Option.some.inj hm)
        exact ⟨h.waited hp rfl rfl, fun _ => trivial, fun _ => waited_inside s _ c _ o₁ cs _⟩
      · obtain ⟨rfl, -⟩ := Prod.mk.inj (Option.some.inj hm)
        refine ⟨h.keeps rfl rfl rfl (.inr ⟨(fun c' hc => by cases hc), (fun c' l hc => by cases hc), fun c' l hc => ?_⟩),
          fun _ => trivial, fun _ => inside_of_length (Nat.le_refl _)⟩
        rw [hp] at hc
        cases hc
    | reply =>
      simp only [machine] at hm
      split at hm
      · rename_i r rs hq
        obtain ⟨rfl, -⟩ := Prod.mk.inj (Option.some.inj hm)
        obtain ⟨h₁, h₂, h₃⟩ := rx_pace (b := preReading temp file) s.dev
          ((preReading temp file).file.read r.offset r.len) (r.len % 65536)
        refine ⟨h.keeps h₁ h₂ h₃ (.inl rfl), fun _ => trivial, fun _ => inside_of_length ?_⟩
        rw [hq]
        exact Nat.le_succ _
      · cases hm
    | poll =>
      cases hp : s.phase with
      | idle         => simp [machine, hp] at hm
      | sent c       => simp [machine, hp] at hm
      | waitLast c l =>
        simp only [machine, hp] at hm
        split at hm
        · rename_i d n hh
          obtain ⟨rfl, -⟩ := Prod.mk.inj (Option.some.inj hm)
          obtain ⟨-, h₂, h₃⟩ := handler_pace hh
          exact ⟨h.waited hp h₂ h₃, fun _ => trivial, fun _ => waited_inside s _ c _ o₁ cs _⟩
        · obtain ⟨rfl, -⟩ := Prod.mk.inj (Option.some.inj hm)
          exact ⟨h, fun _ => trivial, fun _ => inside_of_length (Nat.le_refl _)⟩
      | wait c       =>
        simp only [machine, hp] at hm
        split at hm
        · rename_i d n hh
          obtain ⟨rfl, -⟩ := Prod.mk.inj (Option.some.inj hm)
          obtain ⟨h₁, h₂, h₃⟩ := handler_pace hh
          refine ⟨h.keeps h₁ h₂ h₃ (.inr ⟨(fun c' hc => by cases hc), (fun c' l hc => by cases hc), fun c' l hc => ?_⟩),
            fun _ => trivial, fun _ => inside_of_length (Nat.le_refl _)⟩
          rw [hp] at hc
          cases hc
        · obtain ⟨rfl, -⟩ := Prod.mk.inj (Option.some.inj hm)
          exact ⟨h, fun _ => trivial, fun _ => inside_of_length (Nat.le_refl _)⟩

end Steps

theorem paced_init (m : Mem) : Paced (.init m) [] where
  last  := rfl
  mode  := ⟨rfl, by decide⟩
  drain := ⟨nofun, fun ⟨c, l, h⟩ => by cases h⟩
  sent  := fun c h => by cases h

/-- **When requests stay inside the file**: no request lies above what is read exactly when no run of reads, each the
block below the one before, goes on to the first block of the file from its fifth step on. -/
theorem requests_inside_iff (temp : Nat) (file m : Mem) (es : List (Event ⊕ List UInt8)) :
    (logged (preReading temp file)).Along Inside (.init m, []) es ↔
      (logged (preReading temp file)).Along StaysInside (.init m, []) es :=
  Machine.along_iff (fun s => Paced s.1 s.2) (fun _ _ _ _ hI hs => step_paced hI hs) es _ (paced_init m)

/-- Six blocks down to the first one of the file. -/
def toTheStart : List Event :=
  [2560, 2048, 1536, 1024, 512].flatMap (fun seek => [.start ⟨0, 512, seek⟩, .reply, .poll]) ++ [.start ⟨0, 512, 0⟩]

/-- **The block below the first** is asked for, at the top of the address space. -/
theorem not_requests_inside : ¬ ∀ (temp size : Nat) (file m : Mem) (es : List (Event ⊕ List UInt8)), size < 4294967296 →
    (∀ c, .inl (.start c) ∈ es → c.seek + c.btr ≤ size) →
      (logged (preReading temp file)).Along Inside (.init m, []) es := by
  intro h
  have hA := h 4096 3072 (fun _ => 0) (fun _ => 0) (toTheStart.map .inl ++ [.inl .second]) (by decide) (by
    intro c hc
    simp only [toTheStart, List.flatMap_cons, List.flatMap_nil, List.map_cons, List.map_nil,
      List.cons_append, List.nil_append, List.append_nil, List.mem_cons, Sum.inl.injEq, Event.start.injEq, reduceCtorEq,
      List.not_mem_nil, or_false, false_or] at hc
    rcases hc with rfl | rfl | rfl | rfl | rfl | rfl <;> decide)
  have hrun : ((logged (preReading 4096 fun _ => 0)).run (.init fun _ => 0, []) (toTheStart.map .inl)).bind (fun r =>
      ((logged (preReading 4096 fun _ => 0)).step r.1 (.inl .second)).map (fun q =>
        (q.1.1.phase.call.map (fun c => c.seek), r.1.1.queue.length + 1, q.1.1.queue.length, q.1.1.queue.getLast?)))
      = some (some 0, 2, 2, some ⟨4294966784, 512, false⟩) := by decide +kernel
  obtain ⟨⟨s, os⟩, hr, hs⟩ := Option.bind_eq_some_iff.1 hrun
  obtain ⟨⟨s', o⟩, hs, hq⟩ := Option.map_eq_some_iff.1 hs
  simp only [Prod.mk.injEq] at hq
  obtain ⟨hc, h₁, h₂, h₃⟩ := hq
  obtain ⟨c, hcall, hc⟩ := Option.map_eq_some_iff.1 hc
  have hle := (Machine.along_last hA hr hs c _ hcall ⟨h₂.trans h₁.symm, h₃⟩).2
  rw [hc] at hle
  exact absurd hle (by decide)

end Block
end OtaLoader
