import Mathlib.Data.List.Find
import Mathlib.Data.List.Nodup
import OtaLoader.Gaps
import OtaLoader.Lbuf
/-!
# LbufLists — the free list and the queue in memory

`FreeList` says which blocks the free list holds, `Entries` which blocks are handed out and which of them are queued.
Each reads bytes of its own (`freeBytes`, `entryBytes`), and an edit of the one changes no other bytes.
-/
namespace OtaLoader
namespace Lbuf

open Links Gaps

/-! ## The free list -/

structure FreeList (m : Mem) (h : Nat) (M : List Block) : Prop where
  ring : Ring m h (M.map Prod.fst)
  lens : ∀ b ∈ M, freeLen m b.1 = b.2

/-- The blocks are in order, with room for their headers. -/
structure Room (h : Nat) (M : List Block) : Prop where
  head   : 0 < h ∧ h < 4294967296
  bounds : ∀ b ∈ M, h + 8 ≤ b.1 ∧ b.1 + b.2 < 4294967296
  apart  : M.Pairwise (fun b c => b.1 + 12 ≤ c.1)

def freeBytes (h : Nat) (M : List Block) (a : Nat) : Prop := (h ≤ a ∧ a < h + 8) ∨ ∃ b ∈ M, b.1 ≤ a ∧ a < b.1 + 12

section Free

variable {m m' : Mem} {h : Nat} {M A B : List Block} {b : Block}

theorem Room.spread (r : Room h M) : Spread (h :: M.map Prod.fst) := by
  refine List.pairwise_cons.2 ⟨fun x hx => ?_, List.pairwise_map.2 (r.apart.imp (fun hbc => ?_))⟩
  · obtain ⟨b, hb, rfl⟩ := List.mem_map.1 hx
    exact .inl (r.bounds b hb).1
  · exact .inl (by omega)

theorem Room.addr (r : Room h M) {x : Nat} (hx : x ∈ h :: M.map Prod.fst) : 0 < x ∧ x < 4294967296 := by
  rcases List.mem_cons.1 hx with rfl | hx
  · exact r.head
  · obtain ⟨b, hb, rfl⟩ := List.mem_map.1 hx
    have := r.bounds b hb
    omega

theorem Room.sublist (r : Room h M) {M' : List Block} (hs : M'.Sublist M) : Room h M' :=
  ⟨r.head, fun b hb => r.bounds b (hs.subset hb), r.apart.sublist hs⟩

theorem Room.notMem (r : Room h M) : h ∉ M.map Prod.fst := (List.nodup_cons.1 r.spread.nodup).1

theorem Room.length_lt (r : Room h M) : (M.map Prod.fst).length < rounds :=
  length_lt_rounds r.spread.nodup (fun _ hx => (r.addr hx).2)

/-- The length word of a block and the links of another node. -/
theorem Room.len_apart (r : Room h M) {y : Nat} (hb : b ∈ M) (hy : y ∈ h :: M.map Prod.fst) :
    y ≤ b.1 ∨ b.1 + 12 ≤ y := by
  rcases List.mem_cons.1 hy with rfl | hy
  · have := r.bounds b hb
    omega
  · obtain ⟨c, hc, rfl⟩ := List.mem_map.1 hy
    rcases pairwise_cases r.apart hb hc with rfl | hbc | hcb
    · exact .inl (Nat.le_refl _)
    · exact .inr hbc
    · exact .inl (by omega)

theorem notMem_freeBytes {a y : Nat} (ha : ¬ freeBytes h M a) (hy : y ∈ h :: M.map Prod.fst) : a < y ∨ y + 8 ≤ a := by
  unfold freeBytes at ha
  rw [not_or, not_exists] at ha
  rcases List.mem_cons.1 hy with rfl | hy
  · omega
  · obtain ⟨b, hb, rfl⟩ := List.mem_map.1 hy
    have := ha.2 b
    simp only [hb, true_and] at this
    omega

theorem freeBytes_mono {M' : List Block} (hs : M.map Prod.fst ⊆ M'.map Prod.fst) {a : Nat} (ha : freeBytes h M a) :
    freeBytes h M' a := by
  refine ha.imp id (fun ⟨b, hb, hab⟩ => ?_)
  obtain ⟨c, hc, hcb⟩ := List.mem_map.1 (hs (List.mem_map_of_mem hb))
  exact ⟨c, hc, by omega⟩

theorem FreeList.frame (f : FreeList m h M) (hm : ∀ a, freeBytes h M a → m' a = m a) : FreeList m' h M := by
  refine ⟨f.ring.frame (fun x hx i hi => hm (x + i) ?_), fun b hb => ?_⟩
  · rcases List.mem_cons.1 hx with rfl | hx
    · exact .inl (by omega)
    · obtain ⟨b, hb, rfl⟩ := List.mem_map.1 hx
      exact .inr ⟨b, hb, by omega⟩
  · rw [← f.lens b hb]
    exact Mem.get32_congr (fun i hi => hm _ (.inr ⟨b, hb, by omega⟩))

theorem FreeList.find (f : FreeList m h M) (r : Room h M) (P : Nat → Bool) :
    listFind m h P = some ((M.map Prod.fst).find? P) := listFind_ring f.ring r.notMem r.length_lt

/-- The first block of some length. -/
theorem FreeList.find_len (f : FreeList m h M) (r : Room h M) (len : Nat) :
    listFind m h (fun p => decide (len ≤ freeLen m p)) = some ((M.find? (fun b => decide (len ≤ b.2))).map Prod.fst) := by
  rw [f.find r, List.find?_map]
  refine congrArg (fun o => some (Option.map Prod.fst o)) (List.find?_congr (fun b hb => ?_))
  rw [Function.comp_apply, f.lens b hb]

theorem mem_of_last {y : Nat} (hy : y = (A.map Prod.fst).getLast?.getD h) (hA : A ⊆ M) : y ∈ h :: M.map Prod.fst :=
  List.cons_subset_cons h (List.map_subset Prod.fst hA) (hy ▸ getLast_mem)

theorem mem_of_first {y : Nat} (hy : y = (B.map Prod.fst).head?.getD h) (hB : B ⊆ M) : y ∈ h :: M.map Prod.fst :=
  List.cons_subset_cons h (List.map_subset Prod.fst hB) (hy ▸ head_mem)

/-- **A block put between two parts of the list.** -/
theorem FreeList.add (hl : Linked m (h :: A.map Prod.fst)) (hr : Linked m (B.map Prod.fst ++ [h]))
    (hlens : ∀ c ∈ A ++ b :: B, freeLen m c.1 = c.2) (r : Room h (A ++ b :: B)) {p n : Nat}
    (hp : p = (A.map Prod.fst).getLast?.getD h) (hn : n = (B.map Prod.fst).head?.getD h) :
    FreeList (listAdd m b.1 p n) h (A ++ b :: B) ∧
      ∀ a, ¬ freeBytes h (A ++ b :: B) a → listAdd m b.1 p n a = m a := by
  have hpm := mem_of_last hp (List.subset_append_left A (b :: B))
  have hnm := mem_of_first hn (List.subset_append_of_subset_right A (List.subset_cons_self b B))
  have hbm : b.1 ∈ h :: (A ++ b :: B).map Prod.fst :=
    List.mem_cons_of_mem h (List.mem_map_of_mem (List.mem_append_right A List.mem_cons_self))
  have hperm : (h :: (A ++ b :: B).map Prod.fst).Perm (b.1 :: h :: (A.map Prod.fst ++ B.map Prod.fst)) := by
    rw [List.map_append, List.map_cons]
    exact (List.perm_middle.cons h).trans (List.Perm.swap _ _ _)
  have hs : Spread (b.1 :: h :: (A.map Prod.fst ++ B.map Prod.fst)) :=
    (hperm.pairwise_iff Apart.symm).1 r.spread
  refine ⟨⟨?_, fun c hc => ?_⟩, fun a ha => ?_⟩
  · rw [List.map_append, List.map_cons]
    exact ring_listAdd hl hr hs (fun x hx => (r.addr (hperm.mem_iff.2 hx)).2) hp hn
  · rw [← hlens c hc]
    refine Mem.get32_congr (fun i hi => listAdd_outside ?_ ?_ ?_)
    · have := r.len_apart hc hpm
      omega
    · have := r.len_apart hc hnm
      omega
    · have := r.len_apart hc hbm
      omega
  · refine listAdd_outside ?_ ?_ ?_
    · have := notMem_freeBytes ha hpm
      omega
    · have := notMem_freeBytes ha hnm
      omega
    · exact notMem_freeBytes ha hbm

/-- **What stands between two parts of the list taken out.** -/
theorem FreeList.remove (hl : Linked m (h :: A.map Prod.fst)) (hr : Linked m (B.map Prod.fst ++ [h]))
    (hlens : ∀ c ∈ A ++ B, freeLen m c.1 = c.2) (r : Room h (A ++ B)) {p n : Nat}
    (hp : p = (A.map Prod.fst).getLast?.getD h) (hn : n = (B.map Prod.fst).head?.getD h) :
    FreeList (listDel m p n) h (A ++ B) ∧ ∀ a, ¬ freeBytes h (A ++ B) a → listDel m p n a = m a := by
  have hpm := mem_of_last hp (List.subset_append_left A B)
  have hnm := mem_of_first hn (List.subset_append_right A B)
  have hs := r.spread
  have haddr := fun x (hx : x ∈ h :: (A ++ B).map Prod.fst) => r.addr hx
  refine ⟨⟨?_, fun c hc => ?_⟩, fun a ha => ?_⟩
  · rw [List.map_append] at hs haddr ⊢
    exact ring_listDel hl hr hs haddr hp hn
  · rw [← hlens c hc]
    refine Mem.get32_congr (fun i hi => listDel_outside ?_ ?_)
    · have := r.len_apart hc hpm
      omega
    · have := r.len_apart hc hnm
      omega
  · refine listDel_outside ?_ ?_
    · have := notMem_freeBytes ha hpm
      omega
    · have := notMem_freeBytes ha hnm
      omega

/-! ## The sweep -/

theorem coalesceFrom_room (r : Room h (A ++ b :: B)) {c : Block} {R : List Block} (hB : B = c :: R)
    (hbc : b.1 + b.2 = c.1) : Room h (A ++ (b.1, b.2 + c.2) :: R) := by
  subst hB
  refine ⟨r.head, fun d hd => ?_, ?_⟩
  · rcases List.mem_append.1 hd with hd | hd
    · exact r.bounds d (List.mem_append_left _ hd)
    · rcases List.mem_cons.1 hd with rfl | hd
      · have h₁ := r.bounds b (by simp)
        have h₂ := r.bounds c (by simp)
        exact ⟨h₁.1, by dsimp only; omega⟩
      · exact r.bounds d (by simp [hd])
  · obtain ⟨hA, hB, hAB⟩ := List.pairwise_append.1 r.apart
    obtain ⟨hb, hR⟩ := List.pairwise_cons.1 hB
    obtain ⟨hc, hR⟩ := List.pairwise_cons.1 hR
    refine List.pairwise_append.2 ⟨hA, List.pairwise_cons.2 ⟨fun d hd => ?_, hR⟩, fun a ha d hd => ?_⟩
    · exact hb d (List.mem_cons_of_mem c hd)
    · rcases List.mem_cons.1 hd with rfl | hd
      · exact hAB a ha b List.mem_cons_self
      · exact hAB a ha d (by simp [hd])

/-- One round: `c` begins where `b` ends and becomes part of it. -/
theorem FreeList.merge {c : Block} {R : List Block} (f : FreeList m h (A ++ b :: c :: R))
    (r : Room h (A ++ b :: c :: R)) (hbc : b.1 + b.2 = c.1) {m₁ : Mem}
    (hm : m₁ = m.set32 (b.1 + 8) (u32 (freeLen m b.1 + freeLen m c.1))) :
    FreeList (listDelEntry m₁ c.1) h (A ++ (b.1, b.2 + c.2) :: R) ∧
      next (listDelEntry m₁ c.1) c.1 = (R.map Prod.fst).head?.getD h ∧
      ∀ a, ¬ freeBytes h (A ++ b :: R) a → listDelEntry m₁ c.1 a = m a := by
  have hbm : b ∈ A ++ b :: c :: R := by simp
  have hcm : c ∈ A ++ b :: c :: R := by simp
  have hb := r.bounds b hbm
  have hc := r.bounds c hcm
  rw [f.lens b hbm, f.lens c hcm, u32_of_lt (by omega)] at hm
  have hm₁ : ∀ a, (a < b.1 + 8 ∨ b.1 + 12 ≤ a) → m₁ a = m a := fun a ha => by
    rw [hm]
    exact Mem.set32_outside (by omega)
  have r' : Room h (A ++ (b.1, b.2 + c.2) :: R) := coalesceFrom_room r rfl hbc
  rw [List.append_cons] at r' ⊢
  have hmap : (A ++ [(b.1, b.2 + c.2)]).map Prod.fst = (A ++ [b]).map Prod.fst := by simp
  -- the store of the length leaves every link
  have hring : Ring m₁ h ((A ++ [b]).map Prod.fst ++ c.1 :: R.map Prod.fst) := by
    have hr : Ring m₁ h ((A ++ b :: c :: R).map Prod.fst) :=
      f.ring.frame (fun x hx i hi => hm₁ _ (by have := r.len_apart hbm hx; omega))
    rwa [List.append_cons, List.map_append, List.map_cons] at hr
  obtain ⟨hp, hn⟩ := hring.links
  obtain ⟨hl, hr⟩ := Ring.parts (by rwa [List.append_cons] at hring)
  have hlens : ∀ d ∈ (A ++ [(b.1, b.2 + c.2)]) ++ R, freeLen m₁ d.1 = d.2 := fun d hd => by
    obtain ⟨-, hB, hAB⟩ := List.pairwise_append.1 r.apart
    rw [← List.append_cons] at hd
    rcases List.mem_append.1 hd with hd | hd
    · have := hAB d hd b List.mem_cons_self
      rw [← f.lens d (List.mem_append_left _ hd)]
      exact Mem.get32_congr (fun i hi => hm₁ _ (by omega))
    · rcases List.mem_cons.1 hd with rfl | hd
      · rw [hm]
        exact (Mem.get32_set32 m _ _).trans (u32_of_lt (by omega))
      · have := (List.pairwise_cons.1 hB).1 d (List.mem_cons_of_mem c hd)
        rw [← f.lens d (by simp [hd])]
        exact Mem.get32_congr (fun i hi => hm₁ _ (by omega))
  rw [← hmap] at hl hp
  obtain ⟨f', hout⟩ := FreeList.remove hl hr hlens r' hp hn
  -- the node that is taken out keeps its own links
  have hnm : next (listDelEntry m₁ c.1) c.1 = next m₁ c.1 := Mem.get32_congr (fun i hi => hout _ (fun hf => by
    obtain ⟨-, hB, hAB⟩ := List.pairwise_append.1 r.apart
    obtain ⟨hbR, hR⟩ := List.pairwise_cons.1 hB
    rcases hf with hf | ⟨d, hd, hda⟩
    · omega
    · have hbc' := hbR c List.mem_cons_self
      rw [← List.append_cons] at hd
      rcases List.mem_append.1 hd with hd | hd
      · have := hAB d hd b List.mem_cons_self
        omega
      · rcases List.mem_cons.1 hd with rfl | hd
        · omega
        · have := (List.pairwise_cons.1 hR).1 d hd
          omega))
  refine ⟨f', hnm.trans hn, fun a ha => (hout a (fun hf => ha (freeBytes_mono ?_ hf))).trans (hm₁ a ?_)⟩
  · rw [List.map_append, hmap, ← List.map_append, ← List.append_cons]
    exact List.Subset.refl _
  · by_contra hcon
    exact ha (.inr ⟨b, by simp, by omega⟩)

/-- A list without its first block that begins where the one before it ends: nothing is written to that block. -/
def dropTouching : List Block → List Block
  | []          => []
  | [b]         => [b]
  | b :: c :: R => if b.1 + b.2 = c.1 then b :: R else b :: dropTouching (c :: R)

theorem dropTouching_sublist : ∀ L : List Block, (dropTouching L).Sublist L
  | []          => List.Sublist.refl _
  | [b]         => List.Sublist.refl _
  | b :: c :: R => by
    rw [dropTouching]
    split
    · exact (List.sublist_cons_self c R).cons_cons b
    · exact (dropTouching_sublist (c :: R)).cons_cons b

theorem dropTouching_append {c x : Block} (hx : c.1 + c.2 = x.1) : ∀ {A : List Block},
    (A ++ [c]).Pairwise (fun b c => b.1 + b.2 < c.1) → dropTouching (A ++ c :: x :: B) = A ++ c :: B
  | [], _         => if_pos hx
  | b :: A, hpair => by
    obtain ⟨hb, hA⟩ := List.pairwise_cons.1 hpair
    have ih := dropTouching_append hx hA
    cases A with
    | nil      =>
      have := hb c List.mem_cons_self
      exact (if_neg (by omega)).trans (congrArg (b :: ·) ih)
    | cons d A =>
      have := hb d List.mem_cons_self
      exact (if_neg (by omega)).trans (congrArg (b :: ·) ih)

/-- **The sweep makes one of blocks that touch.** -/
theorem sweepFrom_freeList : ∀ {R D : List Block} {b : Block} {m : Mem} {n : Nat}, FreeList m h (D ++ b :: R) →
    Room h (D ++ b :: R) → R.length < n → ∃ m', sweepFrom h n m b.1 ((R.map Prod.fst).head?.getD h) = some m' ∧
      FreeList m' h (D ++ coalesceFrom b R) ∧ ∀ a, ¬ freeBytes h (D ++ dropTouching (b :: R)) a → m' a = m a
  | _, _, _, _, 0, _, _, hn          => absurd hn (Nat.not_lt_zero _)
  | [], _, _, m, n + 1, f, _, _      => ⟨m, if_pos rfl, f, fun _ _ => rfl⟩
  | c :: R, D, b, m, n + 1, f, r, hn => by
    have hb := r.bounds b (by simp)
    have hc := r.bounds c (by simp)
    have hch : c.1 ≠ h := by omega
    have hb0 : b.1 ≠ 0 := by omega
    have hend : u32 (b.1 + freeLen m b.1) = b.1 + b.2 := by rw [f.lens b (by simp), u32_of_lt hb.2]
    rw [List.map_cons, List.head?_cons, Option.getD_some, sweepFrom, if_neg hch, if_neg hb0, hend]
    split
    · rename_i hbc
      obtain ⟨f', hnext, hout⟩ := f.merge r hbc rfl
      obtain ⟨m', hs, f'', hout'⟩ :=
        sweepFrom_freeList f' (coalesceFrom_room r rfl hbc) (Nat.lt_of_succ_lt_succ hn)
      rw [dropTouching, if_pos hbc]
      refine ⟨m', ?_, ?_, fun a ha => (hout' a (fun hf => ha (freeBytes_mono ?_ hf))).trans (hout a ha)⟩
      · dsimp only
        rw [hnext]
        exact hs
      · rwa [coalesceFrom, if_pos hbc]
      · have hmap : (D ++ b :: R).map Prod.fst = (D ++ (b.1, b.2 + c.2) :: R).map Prod.fst := by simp
        rw [hmap]
        exact List.map_subset _ ((List.Sublist.refl D).append (dropTouching_sublist _)).subset
    · rename_i hbc
      have hnext : next m c.1 = (R.map Prod.fst).head?.getD h := by
        have := f.ring
        rw [List.append_cons, List.map_append, List.map_cons] at this
        exact this.links.2
      rw [dropTouching, if_neg hbc, List.append_cons D b (dropTouching _)]
      rw [List.append_cons] at f r
      obtain ⟨m', hs, f', hout⟩ := sweepFrom_freeList f r (Nat.lt_of_succ_lt_succ hn)
      refine ⟨m', ?_, ?_, hout⟩
      · rw [hnext]
        exact hs
      · rw [coalesceFrom, if_neg hbc, List.append_cons]
        exact f'

theorem FreeList.sweep (f : FreeList m h M) (r : Room h M) : ∃ m', sweep m h = some m' ∧
    FreeList m' h (coalesce M) ∧ ∀ a, ¬ freeBytes h (dropTouching M) a → m' a = m a := by
  have hlen := r.length_lt
  unfold Lbuf.sweep
  rw [f.ring.first]
  cases M with
  | nil      => exact ⟨m, if_pos rfl, f, fun _ _ => rfl⟩
  | cons b R =>
    rw [List.length_map, List.length_cons] at hlen
    have hb := r.bounds b List.mem_cons_self
    have hbh : b.1 ≠ h := by omega
    have hnext : next m b.1 = (R.map Prod.fst).head?.getD h := (@Ring.links m h b.1 [] _ f.ring).2
    obtain ⟨m', hs, f', hout⟩ := sweepFrom_freeList (D := []) f r (Nat.lt_of_succ_lt_succ hlen)
    refine ⟨m', ?_, f', hout⟩
    rw [List.map_cons, List.head?_cons, Option.getD_some, rounds, sweepFrom, if_neg hbh, if_pos rfl, hnext]
    exact hs

/-- The sum of the free lengths. -/
theorem remainFrom_freeList : ∀ {R : List Block} {n k : Nat}, Linked m (R.map Prod.fst ++ [h]) →
    (∀ b ∈ R, freeLen m b.1 = b.2) → h ∉ R.map Prod.fst → R.length < n → k < 4294967296 →
      remainFrom m h n k ((R.map Prod.fst).head?.getD h) = some (u32 (k + (R.map Prod.snd).sum))
  | _, 0, _, _, _, _, hn, _       => absurd hn (Nat.not_lt_zero _)
  | [], n + 1, k, _, _, _, _, hk  => (if_pos rfl).trans (congrArg some (u32_of_lt hk).symm)
  | b :: R, n + 1, k, hl, hlens, hh, hn, hk => by
    rw [List.map_cons, List.mem_cons, not_or] at hh
    obtain ⟨hb, hrest⟩ := List.isChain_cons.1 hl
    have hnext : next m b.1 = (R.map Prod.fst).head?.getD h := (hb _ (by cases R <;> rfl)).1
    rw [List.map_cons, List.head?_cons, Option.getD_some, remainFrom, if_neg (Ne.symm hh.1), hnext,
      hlens b List.mem_cons_self, remainFrom_freeList hrest (fun c hc => hlens c (List.mem_cons_of_mem b hc)) hh.2
        (Nat.lt_of_succ_lt_succ hn) (u32_lt _), List.map_cons, List.sum_cons]
    unfold u32
    rw [Nat.mod_add_mod, Nat.add_assoc]

end Free

/-! ## The blocks that are handed out -/

structure Entries (m : Mem) (base : Nat) (L : List Block) (q : List Nat) : Prop where
  words  : ∀ b ∈ L, entryHead m b.1 = base ∧ entryLen m b.1 = b.2
  queue  : Ring m base q
  nodup  : q.Nodup
  queued : q ⊆ L.map Prod.fst
  idle   : ∀ b ∈ L, b.1 ∉ q → next m b.1 = b.1 ∧ prev m b.1 = b.1

/-- The blocks are in order, with room for their headers. -/
structure Seats (base : Nat) (L : List Block) : Prop where
  head   : 0 < base ∧ base < 4294967296
  bounds : ∀ b ∈ L, base + 16 ≤ b.1 ∧ b.1 + 20 < 4294967296
  apart  : L.Pairwise (fun b c => b.1 + 20 ≤ c.1)

def entryBytes (base : Nat) (L : List Block) (a : Nat) : Prop :=
  (base ≤ a ∧ a < base + 8) ∨ ∃ b ∈ L, b.1 ≤ a ∧ a < b.1 + 16

section Used

variable {m m' : Mem} {base : Nat} {L L₁ L₂ : List Block} {q : List Nat} {b c : Block}

theorem Seats.sep (s : Seats base L) (hb : b ∈ L) (hc : c ∈ L) : b = c ∨ b.1 + 20 ≤ c.1 ∨ c.1 + 20 ≤ b.1 :=
  pairwise_cases s.apart hb hc

theorem Seats.addr (s : Seats base L) {x : Nat} (hx : x ∈ base :: L.map Prod.fst) : 0 < x ∧ x < 4294967296 := by
  rcases List.mem_cons.1 hx with rfl | hx
  · exact s.head
  · obtain ⟨b, hb, rfl⟩ := List.mem_map.1 hx
    have := s.bounds b hb
    omega

/-- Different nodes of the queue are apart. -/
theorem Seats.apart_nodes (s : Seats base L) {x y : Nat} (hx : x ∈ base :: L.map Prod.fst)
    (hy : y ∈ base :: L.map Prod.fst) (h : x ≠ y) : x + 16 ≤ y ∨ y + 16 ≤ x := by
  rcases List.mem_cons.1 hx with hx' | hx' <;> rcases List.mem_cons.1 hy with hy' | hy'
  · exact absurd (hx'.trans hy'.symm) h
  · obtain ⟨b, hb, rfl⟩ := List.mem_map.1 hy'
    exact .inl (hx' ▸ (s.bounds b hb).1)
  · obtain ⟨b, hb, rfl⟩ := List.mem_map.1 hx'
    exact .inr (hy' ▸ (s.bounds b hb).1)
  · obtain ⟨b, hb, rfl⟩ := List.mem_map.1 hx'
    obtain ⟨c, hc, rfl⟩ := List.mem_map.1 hy'
    rcases s.sep hb hc with rfl | h' | h'
    · exact absurd rfl h
    · exact .inl (by omega)
    · exact .inr (by omega)

theorem Seats.spread (s : Seats base L) (hq : q ⊆ L.map Prod.fst) (hnd : q.Nodup) : Spread (base :: q) := by
  have hb : base ∉ q := fun h => by
    obtain ⟨b, hb, heq⟩ := List.mem_map.1 (hq h)
    have := s.bounds b hb
    omega
  refine List.Nodup.pairwise_of_forall_ne (List.nodup_cons.2 ⟨hb, hnd⟩) (fun x hx y hy hne => ?_)
  rcases s.apart_nodes (List.cons_subset_cons base hq hx) (List.cons_subset_cons base hq hy) hne with h | h
  · exact .inl (by omega)
  · exact .inr (by omega)

theorem Seats.sublist (s : Seats base L) {L' : List Block} (hs : L'.Sublist L) : Seats base L' :=
  ⟨s.head, fun b hb => s.bounds b (hs.subset hb), s.apart.sublist hs⟩

theorem Entries.frame (e : Entries m base L q) (hm : ∀ a, entryBytes base L a → m' a = m a) : Entries m' base L q := by
  have hblock : ∀ b ∈ L, ∀ i, i < 16 → m' (b.1 + i) = m (b.1 + i) := fun b hb i hi =>
    hm _ (.inr ⟨b, hb, by omega⟩)
  refine ⟨fun b hb => ?_, e.queue.frame (fun x hx i hi => ?_), e.nodup, e.queued, fun b hb hq => ?_⟩
  · obtain ⟨h₁, h₂⟩ := e.words b hb
    refine ⟨h₁ ▸ Mem.get32_congr (fun i hi => ?_), h₂ ▸ Mem.get32_congr (fun i hi => ?_)⟩
    · rw [Nat.add_assoc]
      exact hblock b hb _ (by omega)
    · rw [Nat.add_assoc]
      exact hblock b hb _ (by omega)
  · rcases List.mem_cons.1 hx with rfl | hx
    · exact hm _ (.inl (by omega))
    · obtain ⟨b, hb, rfl⟩ := List.mem_map.1 (e.queued hx)
      exact hblock b hb i (by omega)
  · obtain ⟨h₁, h₂⟩ := e.idle b hb hq
    constructor
    · exact (Mem.get32_congr (fun i hi => hblock b hb i (by omega))).trans h₁
    · refine (Mem.get32_congr (fun i hi => ?_)).trans h₂
      rw [Nat.add_assoc]
      exact hblock b hb _ (by omega)

/-- An edit of the links of the queue. -/
theorem Entries.of_links (s : Seats base L) (hw : ∀ b ∈ L, entryHead m b.1 = base ∧ entryLen m b.1 = b.2)
    (hr : Ring m' base q) (hnd : q.Nodup) (hq : q ⊆ L.map Prod.fst)
    (hidle : ∀ b ∈ L, b.1 ∉ q → next m b.1 = b.1 ∧ prev m b.1 = b.1)
    (hm : ∀ a, (∀ y ∈ base :: q, a < y ∨ y + 8 ≤ a) → m' a = m a) :
    Entries m' base L q ∧ ∀ a, ¬ entryBytes base L a → m' a = m a := by
  have hsub := List.cons_subset_cons base hq
  have hkeep : ∀ b ∈ L, ∀ i, i < 16 → (8 ≤ i ∨ b.1 ∉ q) → m' (b.1 + i) = m (b.1 + i) := fun b hb i hi hi' =>
    hm _ (fun y hy => by
      have hbm : b.1 ∈ base :: L.map Prod.fst := List.mem_cons_of_mem base (List.mem_map_of_mem hb)
      by_cases heq : b.1 = y
      · rcases hi' with hi' | hi'
        · omega
        · rcases List.mem_cons.1 hy with rfl | hy
          · have := s.bounds b hb
            omega
          · exact absurd (heq ▸ hy) hi'
      · have := s.apart_nodes hbm (hsub hy) heq
        omega)
  refine ⟨⟨fun b hb => ?_, hr, hnd, hq, fun b hb hbq => ?_⟩, fun a ha => hm a (fun y hy => ?_)⟩
  · obtain ⟨h₁, h₂⟩ := hw b hb
    refine ⟨h₁ ▸ Mem.get32_congr (fun i hi => ?_), h₂ ▸ Mem.get32_congr (fun i hi => ?_)⟩
    · rw [Nat.add_assoc]
      exact hkeep b hb _ (by omega) (.inl (by omega))
    · rw [Nat.add_assoc]
      exact hkeep b hb _ (by omega) (.inl (by omega))
  · obtain ⟨h₁, h₂⟩ := hidle b hb hbq
    constructor
    · exact (Mem.get32_congr (fun i hi => hkeep b hb i (by omega) (.inr hbq))).trans h₁
    · refine (Mem.get32_congr (fun i hi => ?_)).trans h₂
      rw [Nat.add_assoc]
      exact hkeep b hb _ (by omega) (.inr hbq)
  · unfold entryBytes at ha
    rw [not_or, not_exists] at ha
    rcases List.mem_cons.1 (hsub hy) with rfl | hy
    · omega
    · obtain ⟨b, hb, rfl⟩ := List.mem_map.1 hy
      have := ha.2 b
      simp only [hb, true_and] at this
      omega

/-- **Unlinking a block from the queue**, whether it is queued or not. -/
theorem Entries.unlink (e : Entries m base (L₁ ++ b :: L₂) q) (s : Seats base (L₁ ++ b :: L₂)) :
    Entries (listDelEntry m b.1) base (L₁ ++ L₂) (q.erase b.1) ∧
      ∀ a, ¬ entryBytes base (L₁ ++ L₂) a → listDelEntry m b.1 a = m a := by
  have hsub : (L₁ ++ L₂).Sublist (L₁ ++ b :: L₂) := (List.Sublist.refl L₁).append (List.sublist_cons_self b L₂)
  have hb : b ∈ L₁ ++ b :: L₂ := by simp
  have hne : ∀ c ∈ L₁ ++ L₂, c.1 ≠ b.1 := fun c hc => by
    obtain ⟨-, h₂, h₁₂⟩ := List.pairwise_append.1 s.apart
    rcases List.mem_append.1 hc with hc | hc
    · have := h₁₂ c hc b List.mem_cons_self
      omega
    · have := (List.pairwise_cons.1 h₂).1 c hc
      omega
  have hq : q.erase b.1 ⊆ (L₁ ++ L₂).map Prod.fst := fun x hx => by
    obtain ⟨hxb, hxq⟩ := (List.Nodup.mem_erase_iff e.nodup).1 hx
    obtain ⟨c, hc, rfl⟩ := List.mem_map.1 (e.queued hxq)
    refine List.mem_map_of_mem ?_
    rcases List.mem_append.1 hc with hc | hc
    · exact List.mem_append_left _ hc
    · rcases List.mem_cons.1 hc with rfl | hc
      · exact absurd rfl hxb
      · exact List.mem_append_right _ hc
  have hidle : ∀ c ∈ L₁ ++ L₂, c.1 ∉ q.erase b.1 → next m c.1 = c.1 ∧ prev m c.1 = c.1 := fun c hc hcq =>
    e.idle c (hsub.subset hc) (fun h => hcq ((List.Nodup.mem_erase_iff e.nodup).2 ⟨hne c hc, h⟩))
  have hw := fun c (hc : c ∈ L₁ ++ L₂) => e.words c (hsub.subset hc)
  have s' := s.sublist hsub
  have hsp := s.spread e.queued e.nodup
  obtain ⟨hr, hm⟩ := ring_unlink e.queue (fun h => e.idle b hb h) hsp
    (fun y hy => s.addr (List.cons_subset_cons base e.queued hy))
  exact Entries.of_links s' hw hr (e.nodup.erase b.1) hq hidle hm

/-- **Queueing a block** that is not queued. -/
theorem Entries.push (e : Entries m base L q) (s : Seats base L) (hb : b ∈ L) (hbq : b.1 ∉ q) :
    Entries (listAddTail m b.1 base) base L (q ++ [b.1]) ∧
      ∀ a, ¬ entryBytes base L a → listAddTail m b.1 base a = m a := by
  have hnd : (q ++ [b.1]).Nodup :=
    List.nodup_append.2 ⟨e.nodup, List.nodup_singleton _, fun x hx y hy => by
      rw [List.mem_singleton.1 hy]
      rintro rfl
      exact hbq hx⟩
  have hq : q ++ [b.1] ⊆ L.map Prod.fst :=
    List.append_subset.2 ⟨e.queued, List.cons_subset.2 ⟨List.mem_map_of_mem hb, List.nil_subset _⟩⟩
  have hperm : (base :: (q ++ [b.1])).Perm (b.1 :: base :: (q ++ [])) := by
    rw [List.append_nil]
    exact ((List.perm_append_singleton b.1 q).cons base).trans (List.Perm.swap _ _ _)
  have hs := (hperm.pairwise_iff Apart.symm).1 (s.spread hq hnd)
  have hlt := fun x (hx : x ∈ b.1 :: base :: (q ++ [])) =>
    (s.addr (List.cons_subset_cons base hq (hperm.mem_iff.2 hx))).2
  have hlast := e.queue.last
  have hr : Ring (listAddTail m b.1 base) base (q ++ [b.1]) :=
    ring_listAdd ((@ring_append m base q []).1 (by rw [List.append_nil]; exact e.queue)).1 (.singleton base) hs hlt hlast rfl
  refine Entries.of_links s e.words hr hnd hq (fun c hc hcq => ?_) (fun a ha => ?_)
  · exact e.idle c hc (fun h => hcq (List.mem_append_left _ h))
  · have h₁ := ha base List.mem_cons_self
    have h₂ := ha b.1 (by simp)
    have h₃ := ha (prev m base) (by
      rw [hlast]
      exact List.cons_subset_cons base (List.subset_append_left q [b.1]) getLast_mem)
    exact listAdd_outside (by omega) (by omega) h₂

/-- **A block that is handed out** in bytes that belonged to none. -/
theorem Entries.add (e : Entries m base (L₁ ++ L₂) q) (s : Seats base (L₁ ++ b :: L₂))
    (hw : entryHead m' b.1 = base ∧ entryLen m' b.1 = b.2) (hself : next m' b.1 = b.1 ∧ prev m' b.1 = b.1)
    (hm : ∀ a, (a < b.1 ∨ b.1 + 20 ≤ a) → m' a = m a) : Entries m' base (L₁ ++ b :: L₂) q := by
  have hsub : L₁ ++ L₂ ⊆ L₁ ++ b :: L₂ :=
    ((List.Sublist.refl L₁).append (List.sublist_cons_self b L₂)).subset
  have hb : b ∈ L₁ ++ b :: L₂ := by simp
  have e' : Entries m' base (L₁ ++ L₂) q := e.frame (fun a ha => hm a (by
    rcases ha with ha | ⟨c, hc, ha⟩
    · have := s.bounds b hb
      omega
    · obtain ⟨-, h₂, h₁₂⟩ := List.pairwise_append.1 s.apart
      rcases List.mem_append.1 hc with hc | hc
      · have := h₁₂ c hc b List.mem_cons_self
        omega
      · have := (List.pairwise_cons.1 h₂).1 c hc
        omega))
  have hcases : ∀ c ∈ L₁ ++ b :: L₂, c = b ∨ c ∈ L₁ ++ L₂ := fun c hc => by
    rcases List.mem_append.1 hc with hc | hc
    · exact .inr (List.mem_append_left _ hc)
    · exact (List.mem_cons.1 hc).imp id (List.mem_append_right _)
  refine ⟨fun c hc => ?_, e'.queue, e'.nodup, fun x hx => List.map_subset Prod.fst hsub (e'.queued hx),
    fun c hc hcq => ?_⟩
  · rcases hcases c hc with rfl | hc
    · exact hw
    · exact e'.words c hc
  · rcases hcases c hc with rfl | hc
    · exact hself
    · exact e'.idle c hc hcq

/-- The length of a block. -/
theorem Entries.set_len {x n k : Nat} (e : Entries m base (L₁ ++ (x, n) :: L₂) q)
    (s : Seats base (L₁ ++ (x, n) :: L₂)) (hk : k < 4294967296) :
    Entries (m.set32 (x + 12) k) base (L₁ ++ (x, k) :: L₂) q ∧
      ∀ a, ¬ entryBytes base (L₁ ++ (x, n) :: L₂) a → m.set32 (x + 12) k a = m a := by
  have hx : (x, n) ∈ L₁ ++ (x, n) :: L₂ := by simp
  have hbx := s.bounds _ hx
  have hm : ∀ a, (a < x + 12 ∨ x + 16 ≤ a) → m.set32 (x + 12) k a = m a := fun a ha =>
    Mem.set32_outside (by omega)
  have hcases : ∀ c ∈ L₁ ++ (x, k) :: L₂, c = (x, k) ∨ c ∈ L₁ ++ (x, n) :: L₂ ∧ (c.1 + 20 ≤ x ∨ x + 20 ≤ c.1) := by
    intro c hc
    obtain ⟨-, h₂, h₁₂⟩ := List.pairwise_append.1 s.apart
    rcases List.mem_append.1 hc with hc | hc
    · exact .inr ⟨List.mem_append_left _ hc, .inl (h₁₂ c hc _ List.mem_cons_self)⟩
    · rcases List.mem_cons.1 hc with hc | hc
      · exact .inl hc
      · exact .inr ⟨by simp [hc], .inr ((List.pairwise_cons.1 h₂).1 c hc)⟩
  have hmap : (L₁ ++ (x, k) :: L₂).map Prod.fst = (L₁ ++ (x, n) :: L₂).map Prod.fst := by simp
  have hlinks : ∀ y ∈ base :: (L₁ ++ (x, n) :: L₂).map Prod.fst, ∀ i, i < 8 →
      m.set32 (x + 12) k (y + i) = m (y + i) := fun y hy i hi => hm _ (by
    by_cases heq : y = x
    · omega
    · have := s.apart_nodes hy (List.mem_cons_of_mem base (List.mem_map_of_mem hx)) heq
      dsimp only at this
      omega)
  refine ⟨⟨fun c hc => ?_, e.queue.frame (fun y hy => hlinks y (List.cons_subset_cons base e.queued hy)), e.nodup,
    hmap ▸ e.queued, fun c hc hcq => ?_⟩, fun a ha => hm a ?_⟩
  · rcases hcases c hc with rfl | ⟨hc, hap⟩
    · exact ⟨(Mem.get32_set32_outside (by dsimp only; omega)).trans (e.words _ hx).1,
        (Mem.get32_set32 m _ _).trans (u32_of_lt hk)⟩
    · obtain ⟨h₁, h₂⟩ := e.words c hc
      exact ⟨(Mem.get32_set32_outside (by omega)).trans h₁, (Mem.get32_set32_outside (by omega)).trans h₂⟩
  · have hcm : c.1 ∈ (L₁ ++ (x, n) :: L₂).map Prod.fst := hmap ▸ List.mem_map_of_mem hc
    obtain ⟨d, hd, hdc⟩ := List.mem_map.1 hcm
    obtain ⟨h₁, h₂⟩ := e.idle d hd (hdc ▸ hcq)
    rw [hdc] at h₁ h₂
    have hl := hlinks c.1 (List.mem_cons_of_mem base hcm)
    exact ⟨(Mem.get32_congr (fun i hi => hl i (by omega))).trans h₁,
      (Mem.get32_congr (fun i hi => by rw [Nat.add_assoc]; exact hl (4 + i) (by omega))).trans h₂⟩
  · by_contra hcon
    exact ha (.inr ⟨_, hx, by dsimp only; omega⟩)

end Used

end Lbuf
end OtaLoader
