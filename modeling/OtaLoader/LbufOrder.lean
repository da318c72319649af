import OtaLoader.LbufLaws
/-!
# LbufOrder — requests of every size, and orders of calls

`AllocSpec` says what `lbuf_alloc` does for a request, with the length of its block taken without wrap-around.  The free
list is that of the blocks that are held (`Rep.freeList`), so it does not depend on the order in which others were freed.
A size that wraps breaks both.
-/
namespace OtaLoader
namespace Lbuf

open Links Gaps

section Order

variable {m : Mem} {base stop : Nat} {s s' : State} {L : List Block} {q : List Nat}

/-! ## Requests -/

/-- The length of the block for a request, without wrap-around. -/
def exactLen (len : Nat) : Nat := (len + sizeofEntry + 3) / 4 * 4

structure AllocSpec (m : Mem) (base stop len : Nat) (r : Option Nat) (m' : Mem) (F : List Block) : Prop where
  room    : ∀ p, r = some p → base + sizeofHead + sizeofEntry ≤ p ∧ p + len ≤ stop - sizeofFree ∧
    p + len ≤ (blockOf m' p).1 + (blockOf m' p).2
  fails   : r = none ↔ ∀ b ∈ F, b.2 < exactLen len
  same    : r = none → m' = m
  remains : lbufRemainLen m base len = some 1 ↔ r ≠ none

theorem Rep.remainLen {hi : Nat} (R : Rep m base hi L q) (len : Nat) : lbufRemainLen m base len =
    some (if (frees (base + 16) hi L).find? (fun b => decide (blockLen len ≤ b.2)) = none then 0 else 1) := by
  unfold lbufRemainLen
  rw [R.free.find_len R.room, Option.map_some]
  cases (frees (base + 16) hi L).find? (fun b => decide (blockLen len ≤ b.2)) <;> rfl

theorem lbufAlloc_isSome {hi len : Nat} {b : Block} (R : Rep m base hi L q)
    (hf : (frees (base + 16) hi L).find? (fun b => decide (blockLen len ≤ b.2)) = some b) :
    ∃ p m', lbufAlloc m base len = some (some p, m') := by
  unfold lbufAlloc
  dsimp only
  rw [R.free.find_len R.room, hf, Option.map_some]
  dsimp only
  split
  · exact ⟨_, _, rfl⟩
  · exact ⟨_, _, rfl⟩

/-- A request that is met. -/
theorem Holds.allocSpec_some {len : Nat} {b : Block} (h : Holds base stop s L q) (hlen : len ≤ 4294967272)
    (hf : (frees (base + 16) (stop - 12) L).find? (fun b => decide (blockLen len ≤ b.2)) = some b) :
    ∃ r m', lbufAlloc s.mem base len = some (r, m') ∧
      AllocSpec s.mem base stop len r m' (frees (base + 16) (stop - 12) L) := by
  obtain ⟨h₁, h20, h4⟩ := blockLen_bounds hlen
  have hexact : exactLen len = blockLen len := (blockLen_of_le hlen).symm
  obtain ⟨m', n, L₁, L₂, ha, hL, hn, -, -, R, -⟩ := lbufAlloc_rep h.rep ⟨h20, h4⟩ hf
  have hb := R.bounds (b := (b.1, n)) (by simp)
  have hw : entryLen m' b.1 = n := (R.used.words (b.1, n) (by simp)).2
  have hfit : blockLen len ≤ b.2 := by simpa using List.find?_some hf
  dsimp only at hb
  refine ⟨_, m', ha, ⟨fun p hp => ?_, ⟨(fun hr => by cases hr), fun hall => ?_⟩, (fun hr => by cases hr), ?_⟩⟩
  · cases hp
    unfold blockOf
    rw [getEntry_add (by omega), hw]
    unfold sizeofHead sizeofEntry sizeofFree
    omega
  · have := hall b (List.mem_of_find?_eq_some hf)
    omega
  · rw [h.rep.remainLen, hf]
    simp

/-- A request that fails. -/
theorem Holds.allocSpec_none {len : Nat} (h : Holds base stop s L q)
    (hf : ∀ b ∈ frees (base + 16) (stop - 12) L, b.2 < blockLen len)
    (hexact : ∀ b ∈ frees (base + 16) (stop - 12) L, b.2 < exactLen len) :
    ∃ r m', lbufAlloc s.mem base len = some (r, m') ∧
      AllocSpec s.mem base stop len r m' (frees (base + 16) (stop - 12) L) := by
  have hnone : (frees (base + 16) (stop - 12) L).find? (fun b => decide (blockLen len ≤ b.2)) = none :=
    List.find?_eq_none.2 (fun b hb => by simpa using hf b hb)
  refine ⟨none, s.mem, lbufAlloc_none h.rep hf, ⟨(fun p hp => by cases hp), ⟨fun _ => hexact, fun _ => rfl⟩,
    fun _ => rfl, ?_⟩⟩
  rw [h.rep.remainLen, hnone]
  simp

/-- **When a request does what it should.** -/
theorem Holds.allocSpec_iff {len : Nat} (h : Holds base stop s L q) (hlen : len < 4294967296) :
    ∃ r m' F, lbufAlloc s.mem base len = some (r, m') ∧ freeList s.mem base = some F ∧
      (AllocSpec s.mem base stop len r m' F ↔ len ≤ 4294967272 ∨ NoFit s.mem base len) := by
  have hlist := h.rep.freeList
  have hnofit : NoFit s.mem base len ↔ ∀ b ∈ frees (base + 16) (stop - 12) L, b.2 < blockLen len := by
    unfold NoFit
    rw [hlist]
    simp
  by_cases hsmall : len ≤ 4294967272
  · have hexact : blockLen len = exactLen len := blockLen_of_le hsmall
    cases hf : (frees (base + 16) (stop - 12) L).find? (fun b => decide (blockLen len ≤ b.2)) with
    | none =>
      have hno : ∀ b ∈ frees (base + 16) (stop - 12) L, b.2 < blockLen len := fun b hb => by
        simpa using List.find?_eq_none.1 hf b hb
      obtain ⟨r, m', ha, hspec⟩ := h.allocSpec_none hno (fun b hb => hexact ▸ hno b hb)
      exact ⟨r, m', _, ha, hlist, fun _ => .inl hsmall, fun _ => hspec⟩
    | some b =>
      obtain ⟨r, m', ha, hspec⟩ := h.allocSpec_some hsmall hf
      exact ⟨r, m', _, ha, hlist, fun _ => .inl hsmall, fun _ => hspec⟩
  · have hbig : ∀ b ∈ frees (base + 16) (stop - 12) L, b.2 < exactLen len := fun b hb => by
      have h₁ := h.rep.heap.bounds (List.mem_append_left L hb)
      have h₂ := h.stop
      unfold exactLen sizeofEntry
      omega
    by_cases hfit : NoFit s.mem base len
    · obtain ⟨r, m', ha, hspec⟩ := h.allocSpec_none (hnofit.1 hfit) hbig
      exact ⟨r, m', _, ha, hlist, fun _ => .inr hfit, fun _ => hspec⟩
    · cases hf : (frees (base + 16) (stop - 12) L).find? (fun b => decide (blockLen len ≤ b.2)) with
      | none   => exact absurd (hnofit.2 (fun b hb => by simpa using List.find?_eq_none.1 hf b hb)) hfit
      | some b =>
        obtain ⟨p, m', ha⟩ := lbufAlloc_isSome h.rep hf
        refine ⟨some p, m', _, ha, hlist, fun hspec => ?_, fun h => absurd h (not_or.2 ⟨hsmall, hfit⟩)⟩
        cases hspec.fails.2 hbig

/-- **Requests of every size.** -/
theorem alloc_spec_iff {buf bufLen len : Nat} (m : Mem) (h0 : 0 < buf) (hlen : 31 ≤ bufLen)
    (htop : buf + bufLen ≤ 4294967296) (es : List Ev) (os : List Out)
    (hgood : (machine (alignedHead buf) (buf + bufLen)).Along (fun s e _ _ => Counted (alignedHead buf) s e)
      (start m buf bufLen) es)
    (hrun : (machine (alignedHead buf) (buf + bufLen)).run (start m buf bufLen) es = some (s, os))
    (hl : len < 4294967296) :
    ∃ r m' F, lbufAlloc s.mem (alignedHead buf) len = some (r, m') ∧ freeList s.mem (alignedHead buf) = some F ∧
      (AllocSpec s.mem (alignedHead buf) (buf + bufLen) len r m' F ↔
        len ≤ 4294967272 ∨ NoFit s.mem (alignedHead buf) len) := by
  obtain ⟨L, q, h⟩ := holds_run h0 hlen htop hgood hrun
  exact h.allocSpec_iff hl

theorem alloc_spec_fresh : ∃ s os r m' F, (machine 4096 4352).run fresh [.alloc 8] = some (s, os) ∧
    lbufAlloc s.mem 4096 100 = some (r, m') ∧ freeList s.mem 4096 = some F ∧
      AllocSpec s.mem 4096 4352 100 r m' F := by
  obtain ⟨m₁, hs₁, -, -⟩ := fresh_alloc
  have hrun : (machine 4096 4352).run fresh [.alloc 8] = some (⟨m₁, [4132], []⟩, [.ptr (some 4132)]) :=
    Machine.run_step hs₁ rfl
  obtain ⟨r, m', F, ha, hF, hspec⟩ := alloc_spec_iff (fun _ => 0) (by decide : 0 < 4096) (by decide : 31 ≤ 256)
    (by decide) [.alloc 8] _ (fun _ _ _ => ⟨.inl (by decide), trivial⟩) hrun (by decide : 100 < 4294967296)
  exact ⟨_, _, r, m', F, hrun, ha, hF, hspec.2 (.inl (by decide))⟩

section Wrap

/-- The size of this request wraps to 0. -/
theorem fresh_fit : ¬ NoFit fresh.mem 4096 4294967276 := fun h =>
  absurd (h _ holds_fresh.rep.freeList (4112, 228) (by rw [fresh_frees]; exact List.mem_cons_self)) (by decide)

/-- A request for nearly 4 GiB is met by a buffer of 256 bytes. -/
theorem not_alloc_spec : ¬ ∀ (m : Mem) (buf bufLen len : Nat) (es : List Ev) (s : State) (os : List Out), 0 < buf →
    31 ≤ bufLen → buf + bufLen ≤ 4294967296 →
    (machine (alignedHead buf) (buf + bufLen)).run (start m buf bufLen) es = some (s, os) → len < 4294967296 →
      ∃ r m' F, lbufAlloc s.mem (alignedHead buf) len = some (r, m') ∧ freeList s.mem (alignedHead buf) = some F ∧
        AllocSpec s.mem (alignedHead buf) (buf + bufLen) len r m' F := by
  intro h
  obtain ⟨r, m', F, ha, hF, hspec⟩ :=
    h (fun _ => 0) 4096 256 4294967276 [] fresh [] (by decide) (by decide) (by decide) rfl (by decide)
  obtain ⟨r', m'', F', ha', hF', hiff⟩ := holds_fresh.allocSpec_iff (by decide : 4294967276 < 4294967296)
  obtain ⟨rfl, rfl⟩ := Prod.mk.inj (Option.some.inj (ha.symm.trans ha'))
  obtain rfl := Option.some.inj (hF.symm.trans hF')
  rcases hiff.1 hspec with h | h
  · exact absurd h (by decide)
  · exact fresh_fit h

end Wrap

/-! ## Orders of calls -/

/-- Blocks freed in two orders. -/
def Orders (base : Nat) (s : State) : Prop := ∀ ps ps' : List Nat, ps.Nodup → (∀ p ∈ ps, p ∈ s.live) → ps.Perm ps' →
  ∃ m₁ m₂ F, freeAll s.mem ps = some m₁ ∧ freeAll s.mem ps' = some m₂ ∧ freeList m₁ base = some F ∧
    freeList m₂ base = some F

/-- A block handed out and freed at once. -/
def Undone (base : Nat) (s : State) (len : Nat) : Prop := ∀ p m₁, lbufAlloc s.mem base len = some (some p, m₁) →
  ∃ m₂ F, lbufFree m₁ p = some m₂ ∧ freeList s.mem base = some F ∧ freeList m₂ base = some F

/-- Everything freed. -/
def AllBack (base stop : Nat) (s : State) : Prop := ∀ ps : List Nat, ps.Perm s.live →
  ∃ m', freeAll s.mem ps = some m' ∧
    freeList m' base = some [(base + sizeofHead, stop - sizeofFree - (base + sizeofHead))]

/-- **Blocks given back one after the other.** -/
theorem freeAll_rep {hi : Nat} : ∀ {xs : List Nat} {m : Mem} {L : List Block} {q : List Nat}, Rep m base hi L q →
    xs.Nodup → xs ⊆ L.map Prod.fst → ∃ m' q', freeAll m (xs.map (· + sizeofEntry)) = some m' ∧
      Rep m' base hi (L.filter (fun b => b.1 ∉ xs)) q'
  | [], m, L, q, R, _, _          => by
    have hall : L.filter (fun b => b.1 ∉ ([] : List Nat)) = L := List.filter_eq_self.2 (fun b _ => by simp)
    rw [hall]
    exact ⟨m, q, rfl, R⟩
  | x :: xs, m, L, q, R, hnd, hsub => by
    obtain ⟨hx, hnd'⟩ := List.nodup_cons.1 hnd
    obtain ⟨m₁, hf, R₁, -⟩ := lbufFree_mem R (hsub List.mem_cons_self)
    have hsub' : xs ⊆ (L.filter (fun b => b.1 ≠ x)).map Prod.fst := fun y hy => by
      obtain ⟨b, hb, rfl⟩ := List.mem_map.1 (hsub (List.mem_cons_of_mem x hy))
      refine List.mem_map_of_mem (List.mem_filter.2 ⟨hb, decide_eq_true ?_⟩)
      rintro rfl
      exact hx hy
    obtain ⟨m', q', hall, R'⟩ := freeAll_rep R₁ hnd' hsub'
    rw [filter_notMem_cons] at R'
    refine ⟨m', q', ?_, R'⟩
    rw [List.map_cons, freeAll, List.foldlM_cons, hf]
    exact hall

theorem Holds.freeAll (h : Holds base stop s L q) {ps : List Nat} (hnd : ps.Nodup) (hps : ∀ p ∈ ps, p ∈ s.live) :
    ∃ m', Lbuf.freeAll s.mem ps = some m' ∧
      freeList m' base = some (frees (base + 16) (stop - 12) (L.filter (fun b => b.1 + sizeofEntry ∉ ps))) := by
  have hget : ∀ p ∈ ps, ∃ b ∈ L, p = b.1 + sizeofEntry ∧ getEntry p = b.1 := fun p hp => by
    obtain ⟨L₁, x, n, L₂, rfl, hpx, hx⟩ := h.block (hps p hp)
    exact ⟨(x, n), by simp, hpx, hx⟩
  have hmap : (ps.map getEntry).map (· + sizeofEntry) = ps := by
    rw [List.map_map]
    refine (List.map_congr_left (fun p hp => ?_)).trans (List.map_id ps)
    obtain ⟨b, -, hpb, hx⟩ := hget p hp
    rw [Function.comp_apply, hx, hpb]
    rfl
  have hnd' : (ps.map getEntry).Nodup := by
    rw [← hmap] at hnd
    exact List.Nodup.of_map _ hnd
  have hsub : ps.map getEntry ⊆ L.map Prod.fst := fun x hx => by
    obtain ⟨p, hp, rfl⟩ := List.mem_map.1 hx
    obtain ⟨b, hb, -, hx⟩ := hget p hp
    rw [hx]
    exact List.mem_map_of_mem hb
  obtain ⟨m', q', hall, R⟩ := freeAll_rep h.rep hnd' hsub
  rw [hmap] at hall
  refine ⟨m', hall, R.freeList.trans ?_⟩
  refine congrArg (fun K => some (frees _ _ K)) (List.filter_congr (fun b hb => decide_eq_decide.2 (not_congr ?_)))
  rw [← List.mem_map_of_injective add_injective (a := b.1), hmap]

theorem Holds.orders (h : Holds base stop s L q) : Orders base s := fun ps ps' hnd hps hperm => by
  obtain ⟨m₁, h₁, hF₁⟩ := h.freeAll hnd hps
  obtain ⟨m₂, h₂, hF₂⟩ := h.freeAll (hperm.nodup hnd) (fun p hp => hps p (hperm.mem_iff.2 hp))
  refine ⟨m₁, m₂, _, h₁, h₂, hF₁, hF₂.trans (congrArg (fun K => some (frees _ _ K)) ?_)⟩
  exact List.filter_congr (fun b _ => decide_eq_decide.2 (not_congr hperm.mem_iff.symm))

theorem Holds.undone {len : Nat} (h : Holds base stop s L q) (hlen : len ≤ 4294967272 ∨ NoFit s.mem base len) :
    Undone base s len := fun p m₁ ha => by
  rcases hlen with hlen | hlen
  · obtain ⟨-, h20, h4⟩ := blockLen_bounds hlen
    cases hf : (frees (base + 16) (stop - 12) L).find? (fun b => decide (blockLen len ≤ b.2)) with
    | none =>
      rw [lbufAlloc_none h.rep (fun b hb => by simpa using List.find?_eq_none.1 hf b hb)] at ha
      cases ha
    | some b =>
      obtain ⟨m', n, L₁, L₂, ha', rfl, -, -, -, R, -⟩ := lbufAlloc_rep h.rep ⟨h20, h4⟩ hf
      rw [ha'] at ha
      cases ha
      obtain ⟨m₂, hfree, R₂, -⟩ := lbufFree_rep R
      exact ⟨m₂, _, hfree, h.rep.freeList, R₂.freeList⟩
  · rw [h.noFit hlen] at ha
    cases ha

theorem Holds.allBack (h : Holds base stop s L q) : AllBack base stop s := fun ps hperm => by
  obtain ⟨m', hall, hF⟩ := h.freeAll (hperm.symm.nodup h.nodup) (fun p hp => hperm.mem_iff.1 hp)
  have hnone : L.filter (fun b => b.1 + sizeofEntry ∉ ps) = [] := List.filter_eq_nil_iff.2 (fun b hb => by
    have : b.1 + sizeofEntry ∈ ps :=
      hperm.mem_iff.2 (h.live.mem_iff.1 (List.mem_map_of_mem (f := fun b : Block => b.1 + sizeofEntry) hb))
    simpa using this)
  rw [hnone, frees, if_pos rfl] at hF
  exact ⟨m', hall, hF⟩

/-- **The free list does not depend on the order of calls.** -/
theorem order_free {buf bufLen : Nat} (m : Mem) (h0 : 0 < buf) (hlen : 31 ≤ bufLen) (htop : buf + bufLen ≤ 4294967296)
    (es : List Ev) (os : List Out)
    (hgood : (machine (alignedHead buf) (buf + bufLen)).Along (fun s e _ _ => Counted (alignedHead buf) s e)
      (start m buf bufLen) es)
    (hrun : (machine (alignedHead buf) (buf + bufLen)).run (start m buf bufLen) es = some (s, os)) :
    Orders (alignedHead buf) s ∧
      (∀ len, len ≤ 4294967272 ∨ NoFit s.mem (alignedHead buf) len → Undone (alignedHead buf) s len) ∧
      AllBack (alignedHead buf) (buf + bufLen) s := by
  obtain ⟨L, q, h⟩ := holds_run h0 hlen htop hgood hrun
  exact ⟨h.orders, fun len hlen => h.undone hlen, h.allBack⟩

/-- Two blocks, freed in both orders. -/
theorem order_free_two : ∃ s os m₁ m₂, (machine 4096 4352).run fresh [.alloc 8, .alloc 8] = some (s, os) ∧
    freeAll s.mem [4132, 4160] = some m₁ ∧ freeAll s.mem [4160, 4132] = some m₂ ∧
    freeList m₁ 4096 = some [(4112, 228)] ∧ freeList m₁ 4096 = freeList m₂ 4096 ∧ Undone 4096 s 100 := by
  obtain ⟨s₁, o₁, s₂, o₂, hs₁, hs₂, h₂⟩ := twice_alloc
  have hrun : (machine 4096 4352).run fresh [.alloc 8, .alloc 8] = some (s₂, [o₁, o₂]) :=
    Machine.run_step hs₁ (Machine.run_step hs₂ rfl)
  obtain ⟨horders, hundone, hback⟩ := order_free (fun _ => 0) (by decide : 0 < 4096) (by decide : 31 ≤ 256) (by decide)
    [.alloc 8, .alloc 8] _ (fun _ _ _ => ⟨.inl (by decide), fun _ _ _ => ⟨.inl (by decide), trivial⟩⟩) hrun
  have hlive : ∀ p ∈ [4132, 4160], p ∈ s₂.live := by
    rw [h₂.live]
    decide
  obtain ⟨m₁, m₂, F, h₁, h₂', hF₁, hF₂⟩ := horders [4132, 4160] [4160, 4132] (by decide) hlive (by decide)
  obtain ⟨m', h', hF'⟩ := hback [4132, 4160] (by rw [h₂.live]; decide)
  obtain rfl : m' = m₁ := Option.some.inj (h'.symm.trans h₁)
  exact ⟨s₂, _, m', m₂, hrun, h₁, h₂', hF', hF₁.trans hF₂.symm, hundone 100 (.inl (by decide))⟩

section Wrap

/-- A free list whose only node is linked with itself. -/
theorem lbufFree_self {m : Mem} {x : Nat} (hx : base + 16 = x) (hlt : x + 20 < 4294967296) (hh : entryHead m x = base)
    (hl : entryLen m x = 0) (hlinks : next m x = x ∧ prev m x = x) (hlist : next m (freeHead base) = x) :
    lbufFree m (x + sizeofEntry) = none := by
  generalize hm' : m.set32 (x + 8) 0 = m'
  have hout : ∀ a, (a < x + 8 ∨ x + 12 ≤ a) → m' a = m a := fun a ha => by
    rw [← hm']
    exact Mem.set32_outside (by omega)
  have hlen : freeLen m' x = 0 := by
    rw [← hm']
    exact Mem.get32_set32 m _ 0
  have hnext : next m' x = x := (Mem.get32_congr (fun i hi => hout _ (by omega))).trans hlinks.1
  have hcov : (covers m' x x || decide (x < x)) = false := by
    unfold covers
    rw [hlen, Nat.add_zero, u32_of_lt (by omega)]
    simp
  have hloop : listFind m' (freeHead base) (fun p => covers m' x p || decide (x < p)) = none := by
    have hfirst : next m' (freeHead base) = x :=
      (Mem.get32_congr (fun i hi => hout _ (by unfold freeHead; omega))).trans hlist
    unfold listFind
    rw [hfirst]
    refine firstFrom_closed (S := [x]) ?_ (fun p hp => ?_) rounds x List.mem_cons_self
    · rw [List.mem_singleton]
      unfold freeHead
      omega
    · rw [List.mem_singleton.1 hp, hnext]
      exact ⟨List.mem_cons_self, hcov⟩
  rw [lbufFree, if_neg (by unfold sizeofEntry; omega), getEntry_add (by omega)]
  dsimp only
  rw [hh, listDelEntry_self hlinks.1 hlinks.2, hl, hm', hloop]

/-- The block that is handed out has length 0 and is still in the free list, linked with itself. -/
theorem wrapped_alloc {m : Mem} {hi : Nat} (R : Rep m base hi [] []) (hbig : base + 28 < hi) :
    ∃ m₁, lbufAlloc m base 4294967276 = some (some (base + 16 + sizeofEntry), m₁) ∧
      lbufFree m₁ (base + 16 + sizeofEntry) = none := by
  have hblock : blockLen 4294967276 = 0 := by decide
  have htop := R.top
  have hfree : frees (base + 16) hi [] = [(base + 16, hi - (base + 16))] := if_pos rfl
  have hlen : freeLen m (base + 16) = hi - (base + 16) := R.free.lens (base + 16, _) (by rw [hfree]; exact List.mem_cons_self)
  have hring : Ring m (freeHead base) ([] ++ (base + 16) :: []) := R.free.ring
  have hfind := R.free.find_len R.room 0
  rw [hfree, List.find?_cons_of_pos (by simp), Option.map_some] at hfind
  generalize hm₁ : m.set32 (u32 (base + 16 + 0) + 8) (hi - (base + 16) - 0) = m₁
  have hnew : u32 (base + 16 + 0) = base + 16 := u32_of_lt (by omega)
  have hprev : prev m₁ (base + 16) = freeHead base := by
    rw [← hm₁, hnew]
    exact (Mem.get32_set32_outside (by omega)).trans hring.links.1
  generalize hm₂ : listAdd m₁ (u32 (base + 16 + 0)) (prev m₁ (base + 16)) (next m₁ (base + 16)) = m₂
  have hnext : next m₂ (freeHead base) = base + 16 := by
    rw [← hm₂, hprev, hnew]
    exact next_set32_self (by omega)
  refine ⟨setEntry m₂ (base + 16) base 0, ?_, ?_⟩
  · unfold lbufAlloc
    rw [hblock]
    dsimp only
    rw [hfind]
    dsimp only
    rw [hlen, if_pos (by unfold u32 sizeofFree; omega), hm₁, hm₂]
  · obtain ⟨hh, hl⟩ := @setEntry_words m₂ (base + 16) base 0 (by omega) (by decide)
    refine lbufFree_self rfl (by omega) hh hl (initListHead_links (by omega)) ?_
    exact (Mem.get32_congr (fun i hi => setEntry_outside (by unfold freeHead; omega))).trans hnext

/-- The block handed out by a request whose size wraps is never taken back. -/
theorem not_order_free : ¬ ∀ (m : Mem) (buf bufLen : Nat) (es : List Ev) (s : State) (os : List Out), 0 < buf →
    31 ≤ bufLen → buf + bufLen ≤ 4294967296 →
    (machine (alignedHead buf) (buf + bufLen)).run (start m buf bufLen) es = some (s, os) →
      Orders (alignedHead buf) s ∧ (∀ len, len < 4294967296 → Undone (alignedHead buf) s len) ∧
        AllBack (alignedHead buf) (buf + bufLen) s := by
  intro h
  obtain ⟨-, hundo, -⟩ := h (fun _ => 0) 4096 256 [] fresh [] (by decide) (by decide) (by decide) rfl
  obtain ⟨m₁, ha, hf⟩ := wrapped_alloc holds_fresh.rep (by decide)
  obtain ⟨m₂, F, hf', -⟩ := hundo 4294967276 (by decide) 4132 m₁ ha
  have hf : lbufFree m₁ 4132 = none := hf
  rw [hf] at hf'
  cases hf'

end Wrap

end Order

end Lbuf
end OtaLoader
