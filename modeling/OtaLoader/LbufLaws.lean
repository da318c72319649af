import Mathlib.Algebra.GroupWithZero.Nat
import OtaLoader.LbufRun
/-!
# LbufLaws — the heap of a buffer along good runs

`HeapOk` is read from the memory, as the code reads it: the free list, the blocks of the pointers that the clients hold,
and the space that `lbuf_remain_space` counts.  Good runs keep it (`heap_ok`); a block pushed 257 times loses it.
-/
namespace OtaLoader
namespace Lbuf

open Links Gaps

/-! ## The heap -/

/-- The block of a pointer. -/
def blockOf (m : Mem) (p : Nat) : Block := (getEntry p, entryLen m (getEntry p))

/-- The blocks the clients hold. -/
def held (s : State) : List Block := s.live.map (blockOf s.mem)

def Within (b : Block) (a : Nat) : Prop := b.1 ≤ a ∧ a < b.1 + b.2

/-- The payload that belongs to a pointer. -/
def Payload (m : Mem) (p a : Nat) : Prop := p ≤ a ∧ Within (blockOf m p) a

structure HeapOk (base stop : Nat) (s : State) (F : List Block) : Prop where
  list      : freeList s.mem base = some F
  sorted    : F.Pairwise (fun b c => b.1 < c.1)
  coalesced : F.Pairwise (fun b c => b.1 + b.2 ≠ c.1)
  tiles     : ∃ T, T.Perm (F ++ held s) ∧ Tiling (base + sizeofHead) (stop - sizeofFree) T
  pointers  : ∀ p ∈ s.live, 4 ∣ p ∧ p = (blockOf s.mem p).1 + sizeofEntry ∧ sizeofEntry ≤ (blockOf s.mem p).2
  apart     : ∀ p ∈ s.live, ∀ a, Payload s.mem p a → ¬ Within (base, sizeofHead) a ∧
    (∀ b ∈ F, ¬ Within (b.1, sizeofFree) a) ∧ ∀ p' ∈ s.live, ¬ Within ((blockOf s.mem p').1, sizeofEntry) a ∧
      (p' ≠ p → ¬ Payload s.mem p' a)
  space     : ∃ k, lbufRemainSpace s.mem base = some k ∧
    k + ((held s).map Prod.snd).sum = stop - sizeofFree - (base + sizeofHead)

section Laws

variable {m : Mem} {base stop : Nat} {s s' : State} {e : Ev} {o : Out} {L : List Block} {q : List Nat}

theorem Holds.block_of (h : Holds base stop s L q) {p : Nat} (hp : p ∈ s.live) :
    blockOf s.mem p ∈ L ∧ p = (blockOf s.mem p).1 + sizeofEntry := by
  obtain ⟨L₁, x, n, L₂, rfl, rfl, hx⟩ := h.block hp
  have hb : blockOf s.mem (x + sizeofEntry) = (x, n) := by
    unfold blockOf
    rw [hx, (h.rep.used.words (x, n) (by simp)).2]
  rw [hb]
  exact ⟨by simp, rfl⟩

theorem Holds.perm_held (h : Holds base stop s L q) : (held s).Perm L := by
  have hmap : (L.map (fun b => b.1 + sizeofEntry)).map (blockOf s.mem) = L := by
    rw [List.map_map]
    refine (List.map_congr_left (fun b hb => ?_)).trans (List.map_id L)
    have := h.rep.bounds hb
    rw [Function.comp_apply, blockOf, getEntry_add (by omega), (h.rep.used.words b hb).2]
    rfl
  have := h.live.symm.map (blockOf s.mem)
  rwa [hmap] at this

theorem Rep.remainSpace {hi : Nat} (R : Rep m base hi L q) :
    lbufRemainSpace m base = some (((frees (base + 16) hi L).map Prod.snd).sum) := by
  have hsum := R.heap.sum
  have htop := R.top
  unfold lbufRemainSpace
  rw [R.free.ring.first, remainFrom_freeList ((@ring_append m _ [] _).1 R.free.ring).2.1 R.free.lens R.room.notMem
    (by simpa using R.room.length_lt) (by decide), Nat.zero_add, u32_of_lt (by omega)]

/-- **What a represented buffer looks like from its memory.** -/
theorem Holds.heapOk (h : Holds base stop s L q) : HeapOk base stop s (frees (base + 16) (stop - 12) L) where
  list      := h.rep.freeList
  sorted    := (h.rep.heap.frees_pairwise (by decide)).imp (fun h => by omega)
  coalesced := (h.rep.heap.frees_pairwise (by decide)).imp (fun h => by omega)
  tiles     := by
    obtain ⟨T, hT, ht⟩ := h.rep.heap.tiling
    exact ⟨T, hT.trans (List.Perm.append_left _ h.perm_held.symm), ht⟩
  pointers  := fun p hp => by
    obtain ⟨hb, hpb⟩ := h.block_of hp
    have h4 := h.rep.aligned _ (List.mem_append_right _ hb)
    refine ⟨?_, hpb, h.rep.heap.len_block hb⟩
    rw [hpb]
    exact Nat.dvd_add h4 (by decide)
  apart     := fun p hp a hpay => by
    obtain ⟨hpa, hlo, hhi⟩ := hpay
    obtain ⟨hb, hpb⟩ := h.block_of hp
    have hbb := h.rep.bounds hb
    unfold sizeofEntry at hpb
    refine ⟨fun hw => ?_, fun c hc hw => ?_, fun p' hp' => ?_⟩
    · unfold Within sizeofHead at hw
      omega
    · have h₁ := h.rep.heap.len_free (List.ne_nil_of_mem hb) hc
      unfold Within sizeofFree at hw
      rcases h.rep.heap.cross hc hb with h₂ | h₂ <;> omega
    · obtain ⟨hc, hpc⟩ := h.block_of hp'
      have hcc := h.rep.bounds hc
      unfold sizeofEntry at hpc
      rcases pairwise_cases h.rep.heap.blocks_pairwise hb hc with heq | hdis
      · rw [← heq] at hpc ⊢
        refine ⟨fun hw => ?_, fun hne => absurd (hpc.trans hpb.symm) hne⟩
        unfold Within sizeofEntry at hw
        omega
      · refine ⟨fun hw => ?_, fun _ hw => ?_⟩
        · unfold Within sizeofEntry at hw
          omega
        · obtain ⟨-, hw₁, hw₂⟩ := hw
          omega
  space     := by
    refine ⟨_, h.rep.remainSpace, ?_⟩
    rw [(h.perm_held.map Prod.snd).sum_nat]
    exact h.rep.heap.sum

/-- **The heap law**: along good runs the calls return and the free blocks and the blocks the clients hold tile the
region. -/
theorem heap_ok {buf bufLen : Nat} (m : Mem) (h0 : 0 < buf) (hlen : 31 ≤ bufLen) (htop : buf + bufLen ≤ 4294967296)
    (es : List Ev) (hgood : (machine (alignedHead buf) (buf + bufLen)).Along (fun s e _ _ => Counted (alignedHead buf) s e)
      (start m buf bufLen) es) :
    (∃ F, HeapOk (alignedHead buf) (buf + bufLen) (start m buf bufLen) F) ∧
      (machine (alignedHead buf) (buf + bufLen)).Along
        (fun _ _ s' o => o ≠ .hang ∧ ∃ F, HeapOk (alignedHead buf) (buf + bufLen) s' F) (start m buf bufLen) es := by
  have hstart := holds_start m h0 hlen htop
  refine ⟨⟨_, hstart.heapOk⟩, Machine.along_of_inv
    (fun s => ∃ L q, Holds (alignedHead buf) (buf + bufLen) s L q) (fun s e s' o hI hs hc => ?_) es _
    ⟨_, _, hstart⟩ hgood⟩
  obtain ⟨L, q, h⟩ := hI
  obtain ⟨ho, L', q', h'⟩ := holds_step h hs hc
  exact ⟨⟨L', q', h'⟩, ho, _, h'.heapOk⟩

/-! ### A block pushed 257 times -/

section Recount

/-- A buffer of 256 bytes. -/
def fresh : State := start (fun _ => 0) 4096 256

theorem holds_fresh : Holds 4096 4352 fresh [] [] :=
  @holds_start 4096 256 (fun _ => 0) (by decide) (by decide) (by decide)

theorem fresh_frees : frees (4096 + 16) (4352 - 12) [] = [(4112, 228)] := rfl

/-- The calls of the heap law. -/
def Plain : Ev → Prop
  | .alloc len => len ≤ 4294967272
  | .incRef _  => False
  | .write _ _ => False
  | _          => True

theorem step_alloc {len p k : Nat} (h : Holds base stop s L q) (hlen : len ≤ 4294967272)
    (hf : (frees (base + 16) (stop - 12) L).find? (fun b => decide (blockLen len ≤ b.2)) = some (p, k))
    (hk : blockLen len + 12 < k) :
    ∃ m' L₁ L₂, step base stop s (.alloc len) =
        some (⟨m', (p + sizeofEntry) :: s.live, s.pushed⟩, .ptr (some (p + sizeofEntry))) ∧
      L = L₁ ++ L₂ ∧ entryRef m' p = 0 ∧ Keeps s.mem m' L ∧
      Holds base stop ⟨m', (p + sizeofEntry) :: s.live, s.pushed⟩ (L₁ ++ (p, blockLen len) :: L₂) q := by
  obtain ⟨-, h20, h4⟩ := blockLen_bounds hlen
  obtain ⟨m', n, L₁, L₂, ha, rfl, -, hn, href, R, hkeep⟩ := lbufAlloc_rep h.rep ⟨h20, h4⟩ hf
  rw [hn hk] at R
  refine ⟨m', L₁, L₂, ?_, rfl, href, hkeep, h.takes R⟩
  rw [step, if_pos (by omega), returned_some _ ha]
  rfl

theorem fresh_alloc : ∃ m₁, step 4096 4352 fresh (.alloc 8) = some (⟨m₁, [4132], []⟩, .ptr (some 4132)) ∧
    entryRef m₁ 4112 = 0 ∧ Holds 4096 4352 ⟨m₁, [4132], []⟩ [(4112, 28)] [] := by
  have h28 : blockLen 8 = 28 := by decide
  obtain ⟨m₁, L₁, L₂, hs₁, hL, href, -, h₁⟩ :=
    step_alloc (p := 4112) (k := 228) holds_fresh (by decide : 8 ≤ 4294967272) (by rw [h28]; decide) (by decide)
  obtain ⟨rfl, rfl⟩ := List.append_eq_nil_iff.1 hL.symm
  rw [h28] at h₁
  exact ⟨m₁, hs₁, href, h₁⟩

/-- A message that is sent and taken. -/
def message : List Ev := [.alloc 8, .push 4132, .pop, .free 4132]

theorem counted_message : (machine 4096 4352).Along (fun s e _ _ => Counted 4096 s e) fresh message := by
  obtain ⟨m₁, hs₁, href, -⟩ := fresh_alloc
  have hentry : getEntry 4132 = 4112 := by decide
  have hcount : entryRef m₁ (getEntry 4132) = 0 ↔ 4132 ∉ ([] : List Nat) := by
    rw [hentry, href]
    exact ⟨fun _ => List.not_mem_nil, fun _ => rfl⟩
  refine Machine.along_cons hs₁ (.inl (by decide)) (fun _ _ _ => ⟨hcount, ?_⟩)
  exact fun _ _ _ => ⟨trivial, fun _ _ _ => ⟨trivial, trivial⟩⟩

theorem heap_ok_message : (machine 4096 4352).Along (fun _ _ s' o => o ≠ .hang ∧ ∃ F, HeapOk 4096 4352 s' F)
    fresh message :=
  (heap_ok (fun _ => 0) (by decide : 0 < 4096) (by decide : 31 ≤ 256) (by decide) message counted_message).2

/-- The state with two blocks, the first of them pushed `k` times. -/
structure Twice (k : Nat) (s : State) : Prop where
  holds  : Holds 4096 4352 s [(4112, 28), (4140, 28)] (if k = 0 then [] else [4112])
  live   : s.live = [4160, 4132]
  pushed : s.pushed = if k = 0 then [] else [4132]
  first  : entryRef s.mem 4112 = UInt8.ofNat k
  second : entryRef s.mem 4140 = 0

theorem twice_alloc : ∃ s₁ o₁ s₂ o₂, step 4096 4352 fresh (.alloc 8) = some (s₁, o₁) ∧
    step 4096 4352 s₁ (.alloc 8) = some (s₂, o₂) ∧ Twice 0 s₂ := by
  have h28 : blockLen 8 = 28 := by decide
  obtain ⟨m₁, hs₁, href₁, h₁⟩ := fresh_alloc
  obtain ⟨m₂, L₁, L₂, hs₂, hL, href₂, hkeep, h₂⟩ :=
    step_alloc (p := 4140) (k := 200) h₁ (by decide : 8 ≤ 4294967272) (by rw [h28]; decide) (by decide)
  rw [h28] at h₂
  have hlist : L₁ ++ (4140, 28) :: L₂ = [(4112, 28), (4140, 28)] := by
    cases L₁ with
    | nil =>
      -- the blocks are in the order of their addresses
      rw [List.nil_append] at hL
      rw [← hL] at h₂
      have := (List.pairwise_cons.1 h₂.rep.heap.blocks_pairwise).1 (4112, 28) List.mem_cons_self
      exact absurd this (by decide)
    | cons b L₁ =>
      obtain ⟨rfl, hnil⟩ := List.cons_eq_cons.1 hL
      obtain ⟨rfl, rfl⟩ := List.append_eq_nil_iff.1 hnil.symm
      rfl
  rw [hlist] at h₂
  have hfirst : entryRef m₂ 4112 = 0 :=
    (hkeep (4112, 28) List.mem_cons_self _ (by decide) (by decide)).trans href₁
  exact ⟨_, _, _, _, hs₁, hs₂, h₂, rfl, rfl, hfirst, href₂⟩

theorem twice_push {k : Nat} (h : Twice k s) (hk : k < 256) :
    ∃ s', step 4096 4352 s (.push 4132) = some (s', .done) ∧ Twice (k + 1) s' := by
  have hx : (4112, 28) ∈ [((4112 : Nat), (28 : Nat)), (4140, 28)] := List.mem_cons_self
  have hy : (4140, 28) ∈ [((4112 : Nat), (28 : Nat)), (4140, 28)] := by decide
  have hlive : 4132 ∈ s.live := by
    rw [h.live]
    decide
  have hentry : getEntry 4132 = 4112 := by decide
  have hcount : entryRef s.mem 4112 = 0 ↔ k = 0 := by
    rw [h.first, ← UInt8.toNat_inj, UInt8.toNat_ofNat', Nat.mod_eq_of_lt hk]
    rfl
  have hpushed : 4132 ∈ s.pushed ↔ k ≠ 0 := by
    rw [h.pushed]
    split <;> simp_all
  obtain ⟨m₂, hpush, R₂, href, hout⟩ := lbufPush_counts h.holds.rep hx
  obtain ⟨q', h'⟩ := h.holds.push hlive (by rw [hentry, hcount, hpushed, not_not])
  have hbyte : ∀ b ∈ [((4112 : Nat), (28 : Nat)), (4140, 28)], lbufPush s.mem 4132 (b.1 + 17) = m₂ (b.1 + 17) := by
    intro b hb
    have hlen := R₂.heap.len_block hb
    refine (congrFun hpush _).trans ?_
    split
    · rename_i h0
      rw [if_pos (hcount.1 h0)] at R₂
      exact (R₂.used.push R₂.seats hx List.not_mem_nil).2 _
        (notMem_entryBytes_inside R₂.heap hb (by omega) (by omega))
    · rfl
  have hlist : (if 4132 ∈ s.pushed then s.pushed else s.pushed ++ [4132]) = [4132] := by
    rw [h.pushed]
    split <;> split <;> simp_all
  rw [hlist] at h'
  have hq : q' = [4112] := by
    have hmap : ([4112] : List Nat).map (· + sizeofEntry) = q'.map (· + sizeofEntry) := h'.pushed
    exact (List.map_injective_iff.2 add_injective hmap).symm
  rw [hq] at h'
  refine ⟨_, if_pos hlive, ?_⟩
  rw [hlist]
  refine ⟨h', h.live, rfl, (hbyte _ hx).trans ?_, (hbyte _ hy).trans ?_⟩
  · refine href.trans ?_
    rw [h.first, ← UInt8.toNat_inj, UInt8.toNat_add, UInt8.toNat_ofNat', UInt8.toNat_ofNat']
    exact Nat.mod_add_mod ..
  · exact (hout _ (by decide)).trans h.second

/-- The 257th push: the block is linked with itself, and the head with the block. -/
theorem push_again {m : Mem} (R : Rep m 4096 4340 [(4112, 28), (4140, 28)] [4112]) (h₁ : entryRef m 4112 = 0)
    (h₂ : entryRef m 4140 = 0) : ∃ m', lbufPush m 4132 = m' ∧ (next m' 4112 = 4112 ∧ prev m' 4112 = 4112) ∧
      (next m' 4096 = 4112 ∧ prev m' 4096 = 4112) ∧ entryHead m' 4112 = 4096 ∧ entryLen m' 4112 = 28 ∧
      entryHead m' 4140 = 4096 ∧ entryRef m' 4140 = 0 ∧ FreeList m' 4104 [(4168, 172)] := by
  have hx : (4112, 28) ∈ [((4112 : Nat), (28 : Nat)), (4140, 28)] := List.mem_cons_self
  have hy : (4140, 28) ∈ [((4112 : Nat), (28 : Nat)), (4140, 28)] := by decide
  obtain ⟨m₂, hpush, R₂, -, hout⟩ := lbufPush_counts R hx
  have hlast : prev m₂ 4096 = 4112 := R₂.used.queue.last
  have hfirst : next m₂ 4096 = 4112 := R₂.used.queue.first
  have hfree : frees (4096 + 16) 4340 [(4112, 28), (4140, 28)] = [(4168, 172)] := rfl
  have f := R₂.free
  rw [hfree] at f
  rw [if_pos h₁, listAddTail, hlast] at hpush
  have houter : ∀ a, (a < 4100 ∨ (4104 ≤ a ∧ a < 4112) ∨ 4120 ≤ a) → listAdd m₂ 4112 4112 4096 a = m₂ a := fun a ha =>
    listAdd_outside (by omega) (by omega) (by omega)
  refine ⟨_, hpush, ⟨next_set32_self (by decide), ?_⟩, ⟨?_, ?_⟩, ?_, ?_, ?_, ?_, f.frame (fun a ha => houter a ?_)⟩
  · exact (prev_set32_next (.inl rfl)).trans (prev_set32_self (by decide))
  · exact (Mem.get32_congr (fun i hi => houter _ (by omega))).trans hfirst
  · unfold listAdd
    rw [prev_set32_next (.inr (.inl (by decide))), prev_set32_prev (.inl (by decide)),
      prev_set32_next (.inr (.inl (by decide))), prev_set32_self (by decide)]
  · exact (Mem.get32_congr (fun i hi => houter _ (by omega))).trans (R₂.used.words _ hx).1
  · exact (Mem.get32_congr (fun i hi => houter _ (by omega))).trans (R₂.used.words _ hx).2
  · exact (Mem.get32_congr (fun i hi => houter _ (by omega))).trans (R₂.used.words _ hy).1
  · exact (houter _ (by omega)).trans ((hout _ (by omega)).trans h₂)
  · rcases ha with ha | ⟨b, hb, ha⟩
    · unfold freeHead at ha
      omega
    · rw [List.mem_singleton.1 hb] at ha
      dsimp only at ha
      omega

/-- The block freed, with the head of the queue still at it. -/
theorem free_again {m : Mem} (hself : next m 4112 = 4112 ∧ prev m 4112 = 4112)
    (hqueue : next m 4096 = 4112 ∧ prev m 4096 = 4112) (hh : entryHead m 4112 = 4096) (hl : entryLen m 4112 = 28)
    (hh' : entryHead m 4140 = 4096) (href : entryRef m 4140 = 0) (f : FreeList m 4104 [(4168, 172)]) :
    ∃ m', lbufFree m 4132 = some m' ∧ (next m' 4096 = 4112 ∧ prev m' 4096 = 4112) ∧ next m' 4104 = 4112 ∧
      entryHead m' 4140 = 4096 ∧ entryRef m' 4140 = 0 := by
  have hentry : getEntry 4132 = 4112 := by decide
  have hbytes : ∀ {b : Block} {a : Nat}, freeBytes 4104 [b] a → (4104 ≤ a ∧ a < 4112) ∨ (b.1 ≤ a ∧ a < b.1 + 12) := by
    rintro b a (ha | ⟨c, hc, ha⟩)
    · exact .inl (by omega)
    · rw [List.mem_singleton.1 hc] at ha
      exact .inr ha
  generalize hm₁ : m.set32 (4112 + 8) 28 = m₁
  have hout : ∀ a, (a < 4120 ∨ 4124 ≤ a) → m₁ a = m a := fun a ha => by
    rw [← hm₁]
    exact Mem.set32_outside (by omega)
  have hlen : freeLen m₁ 4112 = 28 := by
    rw [← hm₁]
    exact Mem.get32_set32 m _ 28
  have f₁ : FreeList m₁ 4104 ([] ++ [(4168, 172)]) := f.frame (fun a ha => hout a (by
    have := hbytes ha
    dsimp only at this
    omega))
  have r : Room 4104 ([] ++ (4112, 28) :: [(4168, 172)]) := ⟨by decide, by decide, by decide⟩
  obtain ⟨m', hs, f', hout', -⟩ := f₁.put_back r hlen (fun b hb => by cases hb)
    (fun b hb => by rw [List.mem_singleton.1 hb]; decide)
  have hsame : ∀ a, (a < 4104 ∨ (4140 ≤ a ∧ a < 4168)) → m' a = m a := fun a ha =>
    (hout' a (fun hf => by
      rcases hf with hf | ⟨c, hc, hf⟩
      · omega
      · simp only [List.nil_append, List.mem_cons, List.not_mem_nil, or_false] at hc
        rcases hc with rfl | rfl <;> (dsimp only at hf; omega))).trans (hout a (by omega))
  refine ⟨m', ?_, ⟨?_, ?_⟩, f'.ring.first, ?_, (hsame _ (by omega)).trans href⟩
  · rw [lbufFree, if_neg (by decide), hentry]
    dsimp only
    rw [hh, listDelEntry_self hself.1 hself.2, hl, hm₁]
    exact hs
  · exact (Mem.get32_congr (fun i hi => hsame _ (by omega))).trans hqueue.1
  · exact (Mem.get32_congr (fun i hi => hsame _ (by omega))).trans hqueue.2
  · exact (Mem.get32_congr (fun i hi => hsame _ (by omega))).trans hh'

/-- The other block pushed: the free list runs into the queue. -/
theorem push_other {m : Mem} (hqueue : next m 4096 = 4112 ∧ prev m 4096 = 4112) (hfree : next m 4104 = 4112)
    (hh : entryHead m 4140 = 4096) (href : entryRef m 4140 = 0) : freeList (lbufPush m 4160) 4096 = none := by
  have hentry : getEntry 4160 = 4140 := by decide
  have href' : entryRef (setState m 4140 0) 4140 = 0 := by
    have hstate : setState m 4140 0 (4140 + 17) = m (4140 + 17) :=
      Mem.write_outside (by rw [List.length_singleton]; omega)
    exact hstate.trans href
  generalize hm₁ : setRef (setState m 4140 0) 4140 (0 + 1) = m₁
  have hout : ∀ a, (a < 4156 ∨ 4158 ≤ a) → m₁ a = m a := fun a ha => by
    rw [← hm₁]
    exact (Mem.write_outside (by rw [List.length_singleton]; omega)).trans
      (Mem.write_outside (by rw [List.length_singleton]; omega))
  have hhead : entryHead m₁ 4140 = 4096 := (Mem.get32_congr (fun i hi => hout _ (by omega))).trans hh
  have hlast : prev m₁ 4096 = 4112 := (Mem.get32_congr (fun i hi => hout _ (by omega))).trans hqueue.2
  have hpush : lbufPush m 4160 = listAdd m₁ 4140 4112 4096 := by
    unfold lbufPush
    rw [hentry]
    dsimp only
    rw [href', if_pos rfl, hm₁, hhead, listAddTail, hlast]
  have houter : ∀ a, (a < 4100 ∨ (4104 ≤ a ∧ a < 4112)) → listAdd m₁ 4140 4112 4096 a = m a := fun a ha =>
    (listAdd_outside (by omega) (by omega) (by omega)).trans (hout a (by omega))
  have h₁ : next (listAdd m₁ 4140 4112 4096) 4112 = 4140 := next_set32_self (by decide)
  have h₂ : next (listAdd m₁ 4140 4112 4096) 4140 = 4096 := next_listAdd_new (.inr (by decide)) (by decide)
  have h₃ : next (listAdd m₁ 4140 4112 4096) 4096 = 4112 :=
    (Mem.get32_congr (fun i hi => houter _ (by omega))).trans hqueue.1
  have h₄ : next (listAdd m₁ 4140 4112 4096) (freeHead 4096) = 4112 :=
    (Mem.get32_congr (fun i hi => houter _ (by unfold freeHead; omega))).trans hfree
  have hloop : nodes (listAdd m₁ 4140 4112 4096) (freeHead 4096) = none := by
    unfold nodes
    rw [h₄]
    refine nodesFrom_closed (S := [4112, 4140, 4096]) (by decide) (fun p hp => ?_) rounds 4112 List.mem_cons_self
    simp only [List.mem_cons, List.not_mem_nil, or_false] at hp
    rcases hp with rfl | rfl | rfl
    · rw [h₁]
      decide
    · rw [h₂]
      decide
    · rw [h₃]
      decide
  rw [hpush, freeList, hloop, Option.map_none]

theorem twice_pushes {Q : State → Ev → State → Out → Prop} {es : List Ev} : ∀ (n : Nat) {k : Nat} {s : State}, Twice k s →
    k + n ≤ 256 → (machine 4096 4352).Along Q s (List.replicate n (.push 4132) ++ es) →
      ∃ s', Twice (k + n) s' ∧ (machine 4096 4352).Along Q s' es
  | 0, _, s, h, _, hA      => ⟨s, h, hA⟩
  | n + 1, k, s, h, hk, hA => by
    obtain ⟨s', hs, h'⟩ := twice_push h (by omega)
    rw [List.replicate_succ, List.cons_append] at hA
    obtain ⟨s'', h'', hA'⟩ := twice_pushes n h' (by omega) (hA s' _ hs).2
    exact ⟨s'', by rwa [Nat.add_right_comm, Nat.add_assoc] at h'', hA'⟩

/-- Two blocks, the first pushed 257 times and freed, the second pushed. -/
def recount : List Ev :=
  .alloc 8 :: .alloc 8 :: (List.replicate 256 (.push 4132) ++ [.push 4132, .free 4132, .push 4160])

/-- The count of 8 bits comes round to 0, and a block that is queued is queued again. -/
theorem not_heap_ok : ¬ ∀ (m : Mem) (buf bufLen : Nat) (es : List Ev), 0 < buf → 31 ≤ bufLen →
    buf + bufLen ≤ 4294967296 → (∀ e ∈ es, Plain e) → (machine (alignedHead buf) (buf + bufLen)).Along
      (fun _ _ s' _ => ∃ F, HeapOk (alignedHead buf) (buf + bufLen) s' F) (start m buf bufLen) es := by
  intro h
  have hplain : ∀ e ∈ recount, Plain e := by
    intro e he
    simp only [recount, List.mem_cons, List.mem_append, List.mem_replicate, List.not_mem_nil, or_false] at he
    rcases he with rfl | rfl | ⟨-, rfl⟩ | rfl | rfl | rfl
    · exact (by decide : 8 ≤ 4294967272)
    · exact (by decide : 8 ≤ 4294967272)
    · trivial
    · trivial
    · trivial
    · trivial
  have hA := h (fun _ => 0) 4096 256 recount (by decide) (by decide) (by decide) hplain
  have hbase : alignedHead 4096 = 4096 := by decide
  rw [hbase] at hA
  obtain ⟨s₁, o₁, s₂, o₂, hs₁, hs₂, h₂⟩ := twice_alloc
  have hA := ((hA s₁ o₁ hs₁).2 s₂ o₂ hs₂).2
  obtain ⟨s₃, h₃, hA⟩ := twice_pushes 256 h₂ (by decide) hA
  obtain ⟨m₄, hpush, hself, hqueue, hh, hl, hh', href, f⟩ := push_again h₃.holds.rep h₃.first h₃.second
  have hlive : 4132 ∈ s₃.live := by
    rw [h₃.live]
    decide
  have hs₄ : step 4096 4352 s₃ (.push 4132) = some (⟨m₄, s₃.live, s₃.pushed⟩, .done) := by
    rw [step, if_pos hlive, hpush, if_pos (by rw [h₃.pushed]; decide)]
  obtain ⟨m₅, hfree, hqueue', hfirst, hh'', href'⟩ := free_again hself hqueue hh hl hh' href f
  have hs₅ : step 4096 4352 ⟨m₄, s₃.live, s₃.pushed⟩ (.free 4132) =
      some (⟨m₅, s₃.live.erase 4132, s₃.pushed.erase 4132⟩, .done) := by
    rw [step, if_pos hlive, returned_some _ hfree]
  have hlive' : 4160 ∈ s₃.live.erase 4132 := by
    rw [h₃.live]
    decide
  obtain ⟨F, hF⟩ := ((((hA _ _ hs₄).2 _ _ hs₅).2) _ _ (if_pos hlive')).1
  have hlost := push_other hqueue' hfirst hh'' href'
  cases hlost.symm.trans hF.list

end Recount

end Laws

end Lbuf
end OtaLoader
