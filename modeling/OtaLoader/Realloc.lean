import OtaLoader.LbufLaws
/-!
# Realloc — `realloc` of the STA build (`app_main.c`)

`realloc` frees the block and then asks for another; `malloc` and `free` are not its own, so they are parameters here,
with what is documented of them (`Correct`).  A buffer of `lbuf_new.c` is such an allocator (`lbuf_correct`), and there the
free list decides whether the contents are still in place.
-/
namespace OtaLoader
namespace Realloc

open Lbuf Gaps

/-- `malloc` and `free`, with the memory and the blocks that are allocated: their pointers and sizes.  0 is NULL. -/
structure Allocator (σ : Type) where
  malloc : σ → Nat → Option (Nat × σ)
  free   : σ → Nat → Option σ
  mem    : σ → Mem
  blocks : σ → List (Nat × Nat)

namespace Allocator

variable {σ : Type} (A : Allocator σ)

def realloc (s : σ) (pv size : Nat) : Option (Nat × σ) :=
  (if pv ≠ 0 then A.free s pv else some s).bind fun s => A.malloc s size

/-- The bytes of a block are the same in two states. -/
def Intact (s s' : σ) (b : Nat × Nat) : Prop := ∀ i, i < b.2 → A.mem s' (b.1 + i) = A.mem s (b.1 + i)

/-- What `malloc` and `free` promise in the states `Inv` and for the requests `Req`. -/
structure Correct (Inv : σ → Prop) (Req : σ → Nat → Prop) : Prop where
  null   : ∀ {s b}, Inv s → b ∈ A.blocks s → b.1 ≠ 0
  free   : ∀ {s p k}, Inv s → (p, k) ∈ A.blocks s → ∃ s', A.free s p = some s' ∧ Inv s' ∧
    (∀ b, b ∈ A.blocks s' ↔ b ∈ A.blocks s ∧ b.1 ≠ p) ∧ ∀ b ∈ A.blocks s', A.Intact s s' b
  malloc : ∀ {s n}, Inv s → Req s n → ∃ r s', A.malloc s n = some (r, s') ∧ Inv s' ∧
    (∀ b ∈ A.blocks s, b ∈ A.blocks s' ∧ A.Intact s s' b) ∧ (r = 0 → ∀ b ∈ A.blocks s', b ∈ A.blocks s) ∧
      (r ≠ 0 → ∃ l, n ≤ l ∧ (r, l) ∈ A.blocks s' ∧ ∀ b ∈ A.blocks s, b.1 ≠ r)

/-- The new block begins with the old contents, or the old block is still there. -/
def Safe (s : σ) (p k n : Nat) : Prop :=
  ∃ r s', A.realloc s p n = some (r, s') ∧
    ((r ≠ 0 ∧ (∃ l, n ≤ l ∧ (r, l) ∈ A.blocks s') ∧ (∀ i, i < min k n → A.mem s' (r + i) = A.mem s (p + i)) ∧
      ∀ b ∈ A.blocks s, b.1 ≠ p → b ∈ A.blocks s' ∧ A.Intact s s' b) ∨
    (r = 0 ∧ (p, k) ∈ A.blocks s' ∧ A.Intact s s' (p, k)))

/-- **With any correct allocator** other blocks are never harmed, and a request that fails has lost the block. -/
theorem Correct.safe_iff {A : Allocator σ} {Inv : σ → Prop} {Req : σ → Nat → Prop} (c : A.Correct Inv Req) {s s₁ : σ}
    {p k n : Nat} (hI : Inv s) (hp : (p, k) ∈ A.blocks s) (hf : A.free s p = some s₁) (hn : Req s₁ n) :
    A.Safe s p k n ↔ ∃ r s₂, A.malloc s₁ n = some (r, s₂) ∧ r ≠ 0 ∧
      ∀ i, i < min k n → A.mem s₂ (r + i) = A.mem s (p + i) := by
  obtain ⟨s', hf', hI₁, hgone, hkept⟩ := c.free hI hp
  obtain rfl := Option.some.inj (hf.symm.trans hf')
  obtain ⟨r, s₂, hm, -, hkept₂, hfail, hnew⟩ := c.malloc hI₁ hn
  have hre : A.realloc s p n = some (r, s₂) := by
    unfold realloc
    rw [if_pos (c.null hI hp), hf, Option.bind_some, hm]
  constructor
  · rintro ⟨r', s', hre', hcase⟩
    obtain ⟨rfl, rfl⟩ := Prod.mk.inj (Option.some.inj (hre.symm.trans hre'))
    rcases hcase with ⟨hr, -, hbytes, -⟩ | ⟨hr, hlive, -⟩
    · exact ⟨r, s₂, hm, hr, hbytes⟩
    · exact absurd rfl ((hgone _).1 (hfail hr _ hlive)).2
  · rintro ⟨r', s', hm', hr, hbytes⟩
    obtain ⟨rfl, rfl⟩ := Prod.mk.inj (Option.some.inj (hm.symm.trans hm'))
    obtain ⟨l, hl, hlr, -⟩ := hnew hr
    refine ⟨r, s₂, hre, .inl ⟨hr, ⟨l, hl, hlr⟩, hbytes, fun b hb hbp => ?_⟩⟩
    have hb₁ := (hgone b).2 ⟨hb, hbp⟩
    obtain ⟨hb₂, hsame⟩ := hkept₂ b hb₁
    exact ⟨hb₂, fun i hi => (hsame i hi).trans (hkept b hb₁ i hi)⟩

end Allocator

/-! ## The allocator of a buffer -/

/-- A pointer, and the length of its payload. -/
def sized (m : Mem) (p : Nat) : Nat × Nat := (p, entryLen m (getEntry p) - sizeofEntry)

def lbuf (base : Nat) : Allocator Lbuf.State where
  malloc s n := (lbufAlloc s.mem base n).map fun r => (r.1.getD 0, { s with mem := r.2, live := r.1.toList ++ s.live })
  free s p   := (lbufFree s.mem p).map fun m => ⟨m, s.live.erase p, s.pushed.erase p⟩
  mem        := Lbuf.State.mem
  blocks s   := s.live.map (sized s.mem)

/-- The states of good runs. -/
def Held (base stop : Nat) (s : Lbuf.State) : Prop := ∃ L q, Holds base stop s L q

/-- The free blocks when `b` is one of them again. -/
def putBack (F : List Block) (b : Block) : List Block :=
  coalesce (F.filter (fun c => c.1 < b.1) ++ b :: F.filter (fun c => b.1 < c.1))

/-- Memory with the words of a free block in place of the header of `b`. -/
def putBackMem (m : Mem) (base : Nat) (F : List Block) (b : Block) : Mem :=
  freed m b (((F.filter (fun c => c.1 < b.1)).map Prod.fst).getLast?.getD (freeHead base))
    (((F.filter (fun c => b.1 < c.1)).map Prod.fst).head?.getD (freeHead base))

/-- The first free block that is long enough has the old contents where its payload will be. -/
def Lands (m : Mem) (base : Nat) (F : List Block) (b : Block) (n : Nat) : Prop :=
  ∃ c, (putBack F b).find? (fun c => decide (blockLen n ≤ c.2)) = some c ∧ ∀ i, i < min (b.2 - sizeofEntry) n →
    putBackMem m base F b (c.1 + sizeofEntry + i) = m (b.1 + sizeofEntry + i)

section Lbuf

variable {m : Mem} {base stop : Nat} {s s' : Lbuf.State} {L L₁ L₂ : List Block} {q : List Nat} {x k n : Nat}

theorem sized_block (h : Holds base stop s L q) {b : Block} (hb : b ∈ L) :
    sized s.mem (b.1 + sizeofEntry) = (b.1 + sizeofEntry, b.2 - sizeofEntry) := by
  have := h.rep.bounds hb
  rw [sized, getEntry_add (by omega), (h.rep.used.words b hb).2]

theorem mem_blocks (h : Holds base stop s L q) {c : Nat × Nat} :
    c ∈ (lbuf base).blocks s ↔ ∃ b ∈ L, c = (b.1 + sizeofEntry, b.2 - sizeofEntry) := by
  constructor
  · intro hc
    obtain ⟨p, hp, rfl⟩ := List.mem_map.1 hc
    obtain ⟨b, hb, rfl⟩ := List.mem_map.1 (h.live.mem_iff.2 hp)
    exact ⟨b, hb, sized_block h hb⟩
  · rintro ⟨b, hb, rfl⟩
    rw [← sized_block h hb]
    exact List.mem_map_of_mem (h.live.mem_iff.1 (List.mem_map_of_mem (f := fun b : Block => b.1 + sizeofEntry) hb))

/-- Blocks that keep what lies behind their headers. -/
theorem intact_of_keeps (h : Holds base stop s L q) {M : List Block} (hk : Keeps s.mem s'.mem M) {b : Block}
    (hb : b ∈ L) (hM : b ∈ M) : (lbuf base).Intact s s' (b.1 + sizeofEntry, b.2 - sizeofEntry) := fun i hi => by
  have := h.rep.bounds hb
  unfold sizeofEntry at hi ⊢
  dsimp only at hi ⊢
  exact hk b hM _ (by omega) (by omega)

/-- The state that `free` leaves. -/
theorem free_eq {m' : Mem} (hf : lbufFree s.mem (x + sizeofEntry) = some m') :
    (lbuf base).free s (x + sizeofEntry) =
      some ⟨m', s.live.erase (x + sizeofEntry), s.pushed.erase (x + sizeofEntry)⟩ := by
  unfold lbuf
  dsimp only
  rw [hf, Option.map_some]

/-- The state that `malloc` leaves. -/
theorem malloc_eq {r : Option Nat} {m' : Mem} (ha : lbufAlloc s.mem base n = some (r, m')) :
    (lbuf base).malloc s n = some (r.getD 0, { s with mem := m', live := r.toList ++ s.live }) := by
  unfold lbuf
  dsimp only
  rw [ha, Option.map_some]

/-- **A buffer is a correct allocator**, for sizes that do not wrap. -/
theorem lbuf_correct : (lbuf base).Correct (Held base stop) (fun _ n => n ≤ 4294967272) where
  null   := fun ⟨L, q, h⟩ hb => by
    obtain ⟨c, -, rfl⟩ := (mem_blocks h).1 hb
    exact Nat.succ_ne_zero _
  free   := fun {s p k} ⟨L, q, h⟩ hp => by
    obtain ⟨⟨x, N⟩, hb, heq⟩ := (mem_blocks h).1 hp
    obtain ⟨hpx, -⟩ := Prod.mk.inj heq
    obtain ⟨L₁, L₂, rfl⟩ := List.append_of_mem hb
    obtain ⟨m', hf, R, hkeep⟩ := lbufFree_rep h.rep
    have h' := h.gives R
    have hsep : ∀ b ∈ L₁ ++ L₂, b.1 ≠ x := fun b hb hbx => by
      have := (h.rep.bounds (subset_middle hb)).2.1
      have hn := (h.rep.bounds (b := (x, N)) (by simp)).2.1
      rcases h.rep.around hb with hd | hd <;> (dsimp only at hd hn; omega)
    dsimp only at hpx
    rw [hpx]
    refine ⟨_, free_eq hf, ⟨_, _, h'⟩, fun c => ?_, fun c hc => ?_⟩
    · rw [mem_blocks h', mem_blocks h]
      constructor
      · rintro ⟨b, hb, rfl⟩
        exact ⟨⟨b, subset_middle hb, rfl⟩, fun he => hsep b hb (Nat.add_right_cancel he)⟩
      · rintro ⟨⟨b, hb, rfl⟩, hne⟩
        refine ⟨b, (mem_middle hb).resolve_left ?_, rfl⟩
        rintro rfl
        exact hne rfl
    · obtain ⟨b, hb, rfl⟩ := (mem_blocks h').1 hc
      exact intact_of_keeps h hkeep (subset_middle hb) (subset_middle hb)
  malloc := fun {s n} ⟨L, q, h⟩ hn => by
    obtain ⟨hlen, h20, h4⟩ := blockLen_bounds hn
    cases hf : (frees (base + 16) (stop - 12) L).find? (fun b => decide (blockLen n ≤ b.2)) with
    | none   =>
      have hnone := lbufAlloc_none h.rep (fun b hb => by simpa using List.find?_eq_none.1 hf b hb)
      exact ⟨0, s, malloc_eq hnone, ⟨L, q, h⟩, fun b hb => ⟨hb, fun _ _ => rfl⟩, fun _ b hb => hb, fun h => absurd rfl h⟩
    | some c =>
      obtain ⟨m', N, L₁, L₂, ha, rfl, hN, -, -, R, hkeep⟩ := lbufAlloc_rep h.rep ⟨h20, h4⟩ hf
      have h' := h.takes R
      refine ⟨c.1 + sizeofEntry, _, malloc_eq ha, ⟨_, _, h'⟩, fun d hd => ?_, fun hr => absurd hr (Nat.succ_ne_zero _),
        fun _ => ⟨N - sizeofEntry, by unfold sizeofEntry; omega, ?_, fun d hd => ?_⟩⟩
      · obtain ⟨b, hb, rfl⟩ := (mem_blocks h).1 hd
        exact ⟨(mem_blocks h').2 ⟨b, subset_middle hb, rfl⟩, intact_of_keeps h hkeep hb hb⟩
      · exact (mem_blocks h').2 ⟨(c.1, N), by simp, rfl⟩
      · obtain ⟨b, hb, rfl⟩ := (mem_blocks h).1 hd
        have := (R.bounds (subset_middle hb)).2.1
        have := (R.bounds (b := (c.1, N)) (by simp)).2.1
        intro he
        have he := Nat.add_right_cancel he
        rcases R.around hb with hd | hd <;> (dsimp only at hd; omega)

/-! ## Where the new block comes to lie -/

/-- A size that wraps: what is handed out is shorter. -/
theorem lbufAlloc_wraps {hi : Nat} (R : Rep m base hi L q) (hbase : base + 36 ≤ hi) (hn : 4294967272 < n)
    (hlt : n < 4294967296) : ∃ r m', lbufAlloc m base n = some (r, m') ∧
      ∀ p, r = some p → p ≠ 0 ∧ entryLen m' (getEntry p) < n := by
  have hlen : blockLen n ≤ 20 := by
    unfold blockLen roundUp sizeofEntry u32
    split <;> omega
  have htop := R.top
  unfold lbufAlloc
  dsimp only
  rw [R.free.find_len R.room]
  cases hf : (frees (base + 16) hi L).find? (fun b => decide (blockLen n ≤ b.2)) with
  | none   => exact ⟨none, m, rfl, (fun p hp => by cases hp)⟩
  | some b =>
    have hbm := List.mem_of_find?_eq_some hf
    have hb := R.heap.bounds (List.mem_append_left L hbm)
    have hroom : b.1 + 20 < 4294967296 := by
      by_cases hL : L = []
      · rw [frees, if_pos hL, List.mem_singleton] at hbm
        rw [hbm]
        dsimp only
        omega
      · have := R.heap.len_free hL hbm
        omega
    have hbl : freeLen m b.1 = b.2 := R.free.lens b (List.mem_of_find?_eq_some hf)
    rw [Option.map_some]
    dsimp only
    rw [hbl]
    split
    · refine ⟨_, _, rfl, fun p hp => ?_⟩
      rw [← Option.some.inj hp, getEntry_add hroom, (setEntry_words (by omega) (by omega)).2]
      exact ⟨Nat.succ_ne_zero _, by omega⟩
    · refine ⟨_, _, rfl, fun p hp => ?_⟩
      rw [← Option.some.inj hp, getEntry_add hroom, (setEntry_words (by omega) (by omega)).2]
      exact ⟨Nat.succ_ne_zero _, by omega⟩

/-- The free blocks on the two sides of a block. -/
theorem sides {N hi : Nat} (R : Rep m base hi (L₁ ++ (x, N) :: L₂) q) :
    (frees (base + 16) hi (L₁ ++ (x, N) :: L₂)).filter (fun c => c.1 < x) = gaps (base + 16) x L₁ ∧
    (frees (base + 16) hi (L₁ ++ (x, N) :: L₂)).filter (fun c => x < c.1) = gaps (x + N) hi L₂ := by
  have hne : L₁ ++ (x, N) :: L₂ ≠ [] := by simp
  obtain ⟨h₁, hN, h₂⟩ := laid_append.1 (R.heap.2 hne)
  dsimp only at h₁ h₂ hN
  have hlo : ∀ c ∈ gaps (base + 16) x L₁, c.1 < x := fun c hc => by
    have := h₁.mem_gaps hc
    omega
  have hhi : ∀ c ∈ gaps (x + N) hi L₂, x < c.1 := fun c hc => by
    have := h₂.mem_gaps hc
    omega
  rw [frees_eq_gaps (.inr hne), gaps_append, List.filter_append, List.filter_append]
  constructor
  · rw [List.filter_eq_self.2 (fun c hc => decide_eq_true (hlo c hc)),
      List.filter_eq_nil_iff.2 (fun c hc => by have := hhi c hc; simp; omega), List.append_nil]
  · rw [List.filter_eq_self.2 (fun c hc => decide_eq_true (hhi c hc)),
      List.filter_eq_nil_iff.2 (fun c hc => by have := hlo c hc; simp; omega), List.nil_append]

/-- **When `realloc` over a buffer is safe.** -/
theorem safe_iff {p : Nat} (h : Holds base stop s L q) (hp : p ∈ s.live) (hn : n < 4294967296) :
    ∃ F, freeList s.mem base = some F ∧ ((lbuf base).Safe s p (sized s.mem p).2 n ↔
      n ≤ 4294967272 ∧ Lands s.mem base F (blockOf s.mem p) n) := by
  obtain ⟨L₁, x, N, L₂, rfl, rfl, hx⟩ := h.block hp
  refine ⟨_, h.rep.freeList, ?_⟩
  have hxm : (x, N) ∈ L₁ ++ (x, N) :: L₂ := by simp
  have hb : blockOf s.mem (x + sizeofEntry) = (x, N) := by
    rw [blockOf, hx, (h.rep.used.words _ hxm).2]
  have hk : (sized s.mem (x + sizeofEntry)).2 = N - sizeofEntry := congrArg Prod.snd (sized_block h hxm)
  have hlive : (x + sizeofEntry, N - sizeofEntry) ∈ (lbuf base).blocks s := (mem_blocks h).2 ⟨_, hxm, rfl⟩
  obtain ⟨m₁, hf, R₁, hco, hin⟩ := lbufFree_inside h.rep
  have h₁ := h.gives R₁
  obtain ⟨hlo, hhi⟩ := sides h.rep
  rw [hb, hk]
  by_cases hbig : n ≤ 4294967272
  · rw [lbuf_correct.safe_iff ⟨_, _, h⟩ hlive (free_eq hf) hbig, and_iff_right hbig]
    unfold Lands putBack putBackMem
    dsimp only
    rw [hlo, hhi, ← hco]
    obtain ⟨hlen, h20, h4⟩ := blockLen_bounds hbig
    cases hfind : (frees (base + 16) (stop - 12) (L₁ ++ L₂)).find? (fun c => decide (blockLen n ≤ c.2)) with
    | none =>
      have hnone := lbufAlloc_none R₁ (fun b hb => by simpa using List.find?_eq_none.1 hfind b hb)
      constructor
      · rintro ⟨r, s₂, hm, hr, -⟩
        obtain ⟨hr', -⟩ := Prod.mk.inj (Option.some.inj ((malloc_eq hnone).symm.trans hm))
        exact absurd hr'.symm hr
      · rintro ⟨c, hc, -⟩
        cases hc
    | some c =>
      obtain ⟨m₂, M, K₁, K₂, A, B, ha, -, hM, -, -, -, R₂, hout⟩ := lbufAlloc_takes R₁ ⟨h20, h4⟩ hfind
      have hcm := List.mem_of_find?_eq_some hfind
      have hfit : blockLen n ≤ c.2 := by simpa using List.find?_some hfind
      -- the payload of the new block
      have hbytes : ∀ i, i < min (N - sizeofEntry) n → m₂ (c.1 + sizeofEntry + i) =
          freed s.mem (x, N) (((gaps (base + 16) x L₁).map Prod.fst).getLast?.getD (freeHead base))
            (((gaps (x + N) (stop - 12) L₂).map Prod.fst).head?.getD (freeHead base)) (c.1 + sizeofEntry + i) := by
        intro i hi
        unfold sizeofEntry at hi ⊢
        have hlong : blockLen n ≤ M := by
          rw [hM]
          split <;> omega
        rw [hout _ (notMem_freeBytes_inside R₂.heap (c := (c.1, M)) (by simp) (by dsimp only; omega)
          (by dsimp only; omega)) (by omega)]
        exact hin c hcm _ (by omega) (by omega) (by omega)
      constructor
      · rintro ⟨r, s₂, hm, -, hsame⟩
        obtain ⟨hr, hs⟩ := Prod.mk.inj (Option.some.inj ((malloc_eq ha).symm.trans hm))
        refine ⟨c, rfl, fun i hi => (hbytes i hi).symm.trans ?_⟩
        have := hsame i hi
        rw [← hr, ← hs] at this
        exact this
      · rintro ⟨c', hc', hsame⟩
        obtain rfl := Option.some.inj hc'
        exact ⟨_, _, malloc_eq ha, Nat.succ_ne_zero _, fun i hi => (hbytes i hi).trans (hsame i hi)⟩
  · refine iff_of_false (fun hsafe => ?_) (fun h => hbig h.1)
    have hxb := h.rep.bounds hxm
    obtain ⟨r, m₂, ha, hshort⟩ := lbufAlloc_wraps R₁ (by dsimp only at hxb; omega) (by omega : 4294967272 < n) hn
    obtain ⟨r', s', hre, hcase⟩ := hsafe
    unfold Allocator.realloc at hre
    rw [if_pos (show x + sizeofEntry ≠ 0 from Nat.succ_ne_zero _), free_eq hf, Option.bind_some, malloc_eq ha] at hre
    obtain ⟨rfl, hs'⟩ := Prod.mk.inj (Option.some.inj hre)
    rcases hcase with ⟨hr, ⟨l, hl, hmem⟩, -⟩ | ⟨hr, hmem, -⟩
    · -- the block is shorter than the request
      rw [← hs'] at hmem
      obtain ⟨p, -, heq⟩ := List.mem_map.1 hmem
      obtain ⟨hpr, hlen⟩ := Prod.mk.inj heq
      cases r with
      | none   => exact hr rfl
      | some y =>
        have := (hshort y rfl).2
        rw [hpr] at hlen
        have hlen : entryLen m₂ (getEntry y) - sizeofEntry = l := hlen
        omega
    · -- nothing is handed out, and the pointer is gone
      rw [← hs'] at hmem
      obtain ⟨p, hpm, heq⟩ := List.mem_map.1 hmem
      obtain ⟨rfl, -⟩ := Prod.mk.inj heq
      cases r with
      | none   => exact h.nodup.not_mem_erase hpm
      | some y => exact (hshort y rfl).1 hr

/-- **`realloc` over any allocator**, and over a buffer after any good run. -/
theorem realloc_safe_iff (n : Nat) :
    (∀ (σ : Type) (A : Allocator σ) (Inv : σ → Prop) (Req : σ → Nat → Prop), A.Correct Inv Req → ∀ s p k, Inv s →
      (p, k) ∈ A.blocks s → ∃ s₁, A.free s p = some s₁ ∧ (Req s₁ n → (A.Safe s p k n ↔
        ∃ r s₂, A.malloc s₁ n = some (r, s₂) ∧ r ≠ 0 ∧ ∀ i, i < min k n → A.mem s₂ (r + i) = A.mem s (p + i)))) ∧
    ∀ (m : Mem) (buf bufLen : Nat) (es : List Ev) (s : Lbuf.State) (os : List Out) (p : Nat), 0 < buf →
      31 ≤ bufLen → buf + bufLen ≤ 4294967296 → (machine (alignedHead buf) (buf + bufLen)).Along
        (fun s e _ _ => Counted (alignedHead buf) s e) (start m buf bufLen) es →
      (machine (alignedHead buf) (buf + bufLen)).run (start m buf bufLen) es = some (s, os) → p ∈ s.live →
      n < 4294967296 → ∃ F, freeList s.mem (alignedHead buf) = some F ∧
        ((lbuf (alignedHead buf)).Safe s p (sized s.mem p).2 n ↔
          n ≤ 4294967272 ∧ Lands s.mem (alignedHead buf) F (blockOf s.mem p) n) := by
  constructor
  · intro σ A Inv Req c s p k hI hp
    obtain ⟨s₁, hf, -⟩ := c.free hI hp
    exact ⟨s₁, hf, fun hn => c.safe_iff hI hp hf hn⟩
  · intro m buf bufLen es s os p h0 hlen htop hgood hrun hp hn
    obtain ⟨L, q, h⟩ := holds_run h0 hlen htop hgood hrun
    exact safe_iff h hp hn

theorem fresh_block {m₁ : Mem} (h : Holds 4096 4352 ⟨m₁, [4132], []⟩ [(4112, 28)] []) :
    freeList m₁ 4096 = some [(4140, 200)] ∧ blockOf m₁ 4132 = (4112, 28) ∧ sized m₁ 4132 = (4132, 8) := by
  have hentry : getEntry 4132 = 4112 := by decide
  have hlen : entryLen m₁ 4112 = 28 := (h.rep.used.words (4112, 28) List.mem_cons_self).2
  refine ⟨h.rep.freeList, ?_, ?_⟩
  · rw [blockOf, hentry, hlen]
  · rw [sized, hentry, hlen]
    rfl

/-- The block stays where it is when the size does. -/
theorem realloc_same : ∃ s os, (machine 4096 4352).run fresh [.alloc 8] = some (s, os) ∧ (lbuf 4096).Safe s 4132 8 8 ∧
    ∃ s₁ r s₂, (lbuf 4096).free s 4132 = some s₁ ∧ (lbuf 4096).malloc s₁ 8 = some (r, s₂) ∧ r ≠ 0 := by
  obtain ⟨m₁, hs₁, -, h⟩ := fresh_alloc
  have hrun : (machine 4096 4352).run fresh [.alloc 8] = some (⟨m₁, [4132], []⟩, [.ptr (some 4132)]) :=
    Machine.run_step hs₁ rfl
  obtain ⟨hF, hb, hsz⟩ := fresh_block h
  obtain ⟨F, hF', hiff⟩ := (realloc_safe_iff 8).2 (fun _ => 0) 4096 256 [.alloc 8] _ _ 4132 (by decide) (by decide)
    (by decide) (fun _ _ _ => ⟨.inl (by decide), trivial⟩) hrun List.mem_cons_self (by decide)
  obtain rfl := Option.some.inj (hF.symm.trans hF')
  have hsafe : (lbuf 4096).Safe ⟨m₁, [4132], []⟩ 4132 8 8 := by
    rw [hsz, hb] at hiff
    refine hiff.2 ⟨by decide, (4112, 228), by decide, fun i hi => ?_⟩
    exact freed_outside (.inr (by unfold sizeofEntry; dsimp only; omega))
  have hlive : (4132, 8) ∈ (lbuf 4096).blocks ⟨m₁, [4132], []⟩ := List.mem_singleton.2 hsz.symm
  obtain ⟨s₁, hf, hresp⟩ := (realloc_safe_iff 8).1 _ _ _ _ lbuf_correct _ 4132 8 ⟨_, _, h⟩ hlive
  obtain ⟨r, s₂, hm, hr, -⟩ := (hresp (by decide)).1 hsafe
  exact ⟨_, _, hrun, hsafe, s₁, r, s₂, hf, hm, hr⟩

/-- A block of 8 bytes that is to have 1000: there is no room, and the block is gone. -/
theorem not_realloc_safe : ¬ ∀ (σ : Type) (A : Allocator σ) (Inv : σ → Prop) (Req : σ → Nat → Prop), A.Correct Inv Req →
    ∀ s p k n, Inv s → (p, k) ∈ A.blocks s → (∀ s₁, A.free s p = some s₁ → Req s₁ n) → A.Safe s p k n := by
  intro hall
  obtain ⟨m₁, -, -, h⟩ := fresh_alloc
  obtain ⟨hF, hb, hsz⟩ := fresh_block h
  have hlive : (4132, 8) ∈ (lbuf 4096).blocks ⟨m₁, [4132], []⟩ := List.mem_singleton.2 hsz.symm
  have hsafe := hall _ (lbuf 4096) (Held 4096 4352) _ lbuf_correct _ 4132 8 1000 ⟨_, _, h⟩ hlive (fun _ _ => by decide)
  obtain ⟨F, hF', hiff⟩ := safe_iff h List.mem_cons_self (by decide : 1000 < 4294967296)
  obtain rfl := Option.some.inj (hF.symm.trans hF')
  rw [hsz, hb] at hiff
  obtain ⟨-, c, hc, -⟩ := hiff.1 hsafe
  exact absurd hc (by
    have hnone : (putBack [(4140, 200)] (4112, 28)).find? (fun c => decide (blockLen 1000 ≤ c.2)) = none := by decide
    rw [hnone]
    simp)

end Lbuf

end Realloc
end OtaLoader
