import Mathlib.Algebra.GroupWithZero.Nat
import Mathlib.Data.List.Chain
/-!
# Gaps — the free space of a region between its blocks

A region from `lo` to `hi` holds blocks (an address and a length) in the order of their addresses.  What lies between
them are the gaps; blocks and gaps together tile the region.  Gaps never touch, so the list of gaps is determined by
the blocks alone: taking a block out and making the free pieces that touch one (`coalesce`) gives the gaps of the blocks
that stay (`coalesce_gaps`).
-/
namespace OtaLoader
namespace Gaps

abbrev Block := Nat × Nat

def gap (lo hi : Nat) : List Block := if lo < hi then [(lo, hi - lo)] else []

def gaps : Nat → Nat → List Block → List Block
  | lo, hi, []     => gap lo hi
  | lo, hi, b :: L => gap lo b.1 ++ gaps (b.1 + b.2) hi L

/-- Blocks and gaps in the order of their addresses. -/
def tiles : Nat → Nat → List Block → List Block
  | lo, hi, []     => gap lo hi
  | lo, hi, b :: L => gap lo b.1 ++ b :: tiles (b.1 + b.2) hi L

/-- Each block begins where the one before it ends. -/
def Tiling : Nat → Nat → List Block → Prop
  | lo, hi, []     => lo = hi
  | lo, hi, b :: L => b.1 = lo ∧ Tiling (lo + b.2) hi L

/-- Blocks of at least `e` bytes, in order and inside the region, with gaps of more than `f` bytes. -/
def Laid (e f : Nat) : Nat → Nat → List Block → Prop
  | lo, hi, []     => lo = hi ∨ lo + f < hi
  | lo, hi, b :: L => (lo = b.1 ∨ lo + f < b.1) ∧ e ≤ b.2 ∧ Laid e f (b.1 + b.2) hi L

section Basic

variable {e f lo hi : Nat} {b : Block} {L L₁ L₂ : List Block}

theorem Laid.le : ∀ {L : List Block} {lo : Nat}, Laid e f lo hi L → lo ≤ hi
  | [], _, h     => by
    rcases h with h | h <;> omega
  | _ :: _, _, h => by
    have := h.2.2.le
    rcases h.1 with h' | h' <;> omega

theorem laid_append : ∀ {L₁ : List Block} {lo : Nat},
    Laid e f lo hi (L₁ ++ b :: L₂) ↔ Laid e f lo b.1 L₁ ∧ e ≤ b.2 ∧ Laid e f (b.1 + b.2) hi L₂
  | [], _      => Iff.rfl
  | c :: L₁, _ => by
    rw [List.cons_append, Laid, Laid, laid_append, and_assoc, and_assoc]

theorem gaps_append : ∀ {L₁ : List Block} {lo : Nat},
    gaps lo hi (L₁ ++ b :: L₂) = gaps lo b.1 L₁ ++ gaps (b.1 + b.2) hi L₂
  | [], _      => rfl
  | c :: L₁, _ => by
    rw [List.cons_append, gaps, gaps, gaps_append, List.append_assoc]

theorem tiles_perm : ∀ (L : List Block) (lo : Nat), (tiles lo hi L).Perm (gaps lo hi L ++ L)
  | [], lo     => by rw [List.append_nil]; exact List.Perm.refl _
  | b :: L, lo => by
    rw [tiles, gaps, List.append_assoc]
    refine List.Perm.append_left _ ?_
    exact ((tiles_perm L (b.1 + b.2)).cons b).trans List.perm_middle.symm

theorem tiling_append : ∀ {L₁ : List Block} {lo : Nat},
    Tiling lo hi (L₁ ++ b :: L₂) ↔ Tiling lo b.1 L₁ ∧ Tiling (b.1 + b.2) hi L₂
  | [], lo      => by
    constructor
    · rintro ⟨rfl, h⟩
      exact ⟨rfl, h⟩
    · rintro ⟨rfl, h⟩
      exact ⟨rfl, h⟩
  | c :: L₁, lo => by
    rw [List.cons_append, Tiling, Tiling, tiling_append, and_assoc]

theorem tiling_gap {mid : Nat} (h : lo ≤ mid) : Tiling lo hi (gap lo mid ++ L) ↔ Tiling mid hi L := by
  unfold gap
  split
  · rw [List.singleton_append, Tiling, Nat.add_sub_cancel' h]
    exact and_iff_right rfl
  · rw [show lo = mid by omega]
    rfl

theorem Laid.tiling : ∀ {L : List Block} {lo : Nat}, Laid e f lo hi L → Tiling lo hi (tiles lo hi L)
  | [], lo, h     => by
    rw [tiles, ← List.append_nil (gap lo hi), tiling_gap h.le]
    rfl
  | b :: L, lo, h => by
    have hlo : lo ≤ b.1 := by rcases h.1 with h' | h' <;> omega
    rw [tiles, tiling_gap hlo]
    exact ⟨rfl, h.2.2.tiling⟩

theorem Tiling.le : ∀ {L : List Block} {lo : Nat}, Tiling lo hi L → lo ≤ hi
  | [], _, h     => Nat.le_of_eq h
  | _ :: _, _, h => Nat.le_trans (Nat.le_add_right _ _) h.2.le

theorem Tiling.bounds : ∀ {L : List Block} {lo : Nat}, Tiling lo hi L → b ∈ L → lo ≤ b.1 ∧ b.1 + b.2 ≤ hi
  | c :: L, lo, h, hb => by
    obtain ⟨hc, hL⟩ := h
    rcases List.mem_cons.1 hb with rfl | hb
    · rw [hc]
      exact ⟨Nat.le_refl _, hL.le⟩
    · exact ⟨Nat.le_trans (Nat.le_add_right _ _) (hL.bounds hb).1, (hL.bounds hb).2⟩

/-- Two blocks of a tiling do not overlap. -/
theorem Tiling.pairwise : ∀ {L : List Block} {lo : Nat}, Tiling lo hi L → L.Pairwise (fun b c => b.1 + b.2 ≤ c.1)
  | [], _, _      => .nil
  | b :: L, lo, h => List.pairwise_cons.2 ⟨fun c hc => by rw [h.1]; exact (h.2.bounds hc).1, h.2.pairwise⟩

theorem Tiling.sum : ∀ {L : List Block} {lo : Nat}, Tiling lo hi L → lo + (L.map Prod.snd).sum = hi
  | [], _, h     => h
  | b :: L, _, h => by
    rw [List.map_cons, List.sum_cons, ← Nat.add_assoc]
    exact h.2.sum

theorem Laid.mem_gaps : ∀ {L : List Block} {lo : Nat}, Laid e f lo hi L → b ∈ gaps lo hi L →
    lo ≤ b.1 ∧ b.1 + b.2 ≤ hi ∧ f < b.2
  | [], lo, h, hb     => by
    unfold gaps gap at hb
    split at hb
    · cases List.mem_singleton.1 hb
      dsimp only
      rcases h with h | h <;> omega
    · cases hb
  | c :: L, lo, h, hb => by
    rcases List.mem_append.1 hb with hb | hb
    · have hle := h.2.2.le
      unfold gap at hb
      split at hb
      · cases List.mem_singleton.1 hb
        dsimp only
        rcases h.1 with h' | h' <;> omega
      · cases hb
    · obtain ⟨h₁, h₂⟩ := h.2.2.mem_gaps hb
      rcases h.1 with h' | h' <;> exact ⟨by omega, h₂⟩

theorem sublist_tiles : ∀ (L : List Block) (lo : Nat), L.Sublist (tiles lo hi L)
  | [], _      => List.nil_sublist _
  | b :: L, lo => ((sublist_tiles L (b.1 + b.2)).cons_cons b).trans (List.sublist_append_right (gap lo b.1) _)

theorem Laid.widen {y : Nat} (h : Laid e f y hi L) (hy : lo + f < y) : Laid e f lo hi L := by
  cases L with
  | nil      => exact Or.inr (Nat.lt_of_lt_of_le hy h.le)
  | cons b L => exact ⟨Or.inr (by rcases h.1 with h' | h' <;> omega), h.2⟩

/-- The blocks that stay when one is taken out. -/
theorem Laid.remove (hfe : f < e) : ∀ {L₁ : List Block} {lo : Nat}, Laid e f lo hi (L₁ ++ b :: L₂) →
    Laid e f lo hi (L₁ ++ L₂)
  | [], lo, h      => h.2.2.widen (by
    have := h.2.1
    rcases h.1 with h' | h' <;> omega)
  | c :: L₁, lo, h => ⟨h.1, h.2.1, Laid.remove hfe h.2.2⟩

/-- Gaps do not touch. -/
theorem Laid.gaps_pairwise (he : 0 < e) : ∀ {L : List Block} {lo : Nat}, Laid e f lo hi L →
    (gaps lo hi L).Pairwise (fun b c => b.1 + b.2 < c.1)
  | [], lo, _     => by
    unfold gaps gap
    split
    · exact List.pairwise_singleton _ _
    · exact .nil
  | b :: L, lo, h => by
    refine List.pairwise_append.2 ⟨?_, h.2.2.gaps_pairwise he, fun c hc d hd => ?_⟩
    · unfold gap
      split
      · exact List.pairwise_singleton _ _
      · exact .nil
    · have hd' := (h.2.2.mem_gaps hd).1
      have := h.2.1
      unfold gap at hc
      split at hc
      · cases List.mem_singleton.1 hc
        dsimp only
        omega
      · cases hc

end Basic

/-! ## Making pieces that touch one -/

def coalesceFrom : Block → List Block → List Block
  | b, []     => [b]
  | b, c :: L => if b.1 + b.2 = c.1 then coalesceFrom (b.1, b.2 + c.2) L else b :: coalesceFrom c L

def coalesce : List Block → List Block
  | []     => []
  | b :: L => coalesceFrom b L

section Coalesce

variable {e f lo hi : Nat}

theorem coalesceFrom_fst {d : Block} : ∀ {L : List Block} {b : Block}, d ∈ coalesceFrom b L → ∃ c ∈ b :: L, c.1 = d.1
  | [], b, h     => ⟨b, List.mem_cons_self, by rw [List.mem_singleton.1 h]⟩
  | c :: L, b, h => by
    rw [coalesceFrom] at h
    split at h
    · obtain ⟨x, hx, heq⟩ := coalesceFrom_fst h
      rcases List.mem_cons.1 hx with rfl | hx
      · exact ⟨b, List.mem_cons_self, heq⟩
      · exact ⟨x, List.mem_cons_of_mem b (List.mem_cons_of_mem c hx), heq⟩
    · rcases List.mem_cons.1 h with rfl | h
      · exact ⟨d, List.mem_cons_self, rfl⟩
      · obtain ⟨x, hx, heq⟩ := coalesceFrom_fst h
        exact ⟨x, List.mem_cons_of_mem b hx, heq⟩

/-- A piece that is made begins where one of the pieces began. -/
theorem coalesce_fst {d : Block} {L : List Block} (h : d ∈ coalesce L) : ∃ c ∈ L, c.1 = d.1 := by
  cases L with
  | nil      => cases h
  | cons b L => exact coalesceFrom_fst h

theorem coalesceFrom_of_ne {b : Block} {L : List Block} (h : ∀ c ∈ L.head?, b.1 + b.2 ≠ c.1) :
    coalesceFrom b L = b :: coalesce L := by
  cases L with
  | nil      => rfl
  | cons c L => exact if_neg (h c rfl)

theorem coalesce_of_pairwise : ∀ {L : List Block}, L.Pairwise (fun b c => b.1 + b.2 < c.1) → coalesce L = L
  | [], _     => rfl
  | b :: L, h => by
    obtain ⟨hb, hL⟩ := List.pairwise_cons.1 h
    rw [coalesce, coalesceFrom_of_ne (fun c hc => Nat.ne_of_lt (hb c (List.mem_of_mem_head? hc))),
      coalesce_of_pairwise hL]

/-- A gap begins where the region does or where a block ends. -/
theorem start_of_mem_gaps {c : Block} : ∀ {L : List Block} {lo : Nat}, c ∈ gaps lo hi L →
    c.1 = lo ∨ ∃ b ∈ L, c.1 = b.1 + b.2
  | [], lo, h     => by
    rw [gaps, gap] at h
    split at h
    · exact .inl (by rw [List.mem_singleton.1 h])
    · cases h
  | b :: L, lo, h => by
    rw [gaps, gap] at h
    rcases List.mem_append.1 h with h | h
    · split at h
      · exact .inl (by rw [List.mem_singleton.1 h])
      · cases h
    · rcases start_of_mem_gaps h with h | ⟨d, hd, h⟩
      · exact .inr ⟨b, List.mem_cons_self, h⟩
      · exact .inr ⟨d, List.mem_cons_of_mem b hd, h⟩

/-- A region that no block ends with ends with a gap. -/
theorem gaps_end : ∀ {L : List Block} {lo : Nat}, Laid e f lo hi L → lo < hi → (∀ b ∈ L, b.1 + b.2 ≠ hi) →
    ∃ A c, gaps lo hi L = A ++ [c] ∧ c.1 + c.2 = hi
  | [], lo, _, hlt, _     => ⟨[], (lo, hi - lo), if_pos hlt, Nat.add_sub_cancel' (Nat.le_of_lt hlt)⟩
  | b :: L, lo, h, _, hne => by
    have hlt : b.1 + b.2 < hi := Nat.lt_of_le_of_ne h.2.2.le (hne b List.mem_cons_self)
    obtain ⟨A, c, hA, hc⟩ := gaps_end h.2.2 hlt (fun d hd => hne d (List.mem_cons_of_mem b hd))
    exact ⟨gap lo b.1 ++ A, c, by rw [gaps, hA, List.append_assoc], hc⟩

/-- A piece that reaches up to `y` takes in the gap that begins there. -/
theorem coalesceFrom_gaps (he : 0 < e) {y : Nat} {L : List Block} (hlo : lo < y) (h : Laid e f y hi L) :
    coalesceFrom (lo, y - lo) (gaps y hi L) = gaps lo hi L := by
  have hy : lo + (y - lo) = y := by omega
  cases L with
  | nil =>
    have hle := h.le
    unfold gaps gap
    rw [if_pos (by omega : lo < hi)]
    split
    · rw [coalesceFrom, if_pos hy, coalesceFrom]
      congr 2
      omega
    · rw [coalesceFrom, show y = hi by omega]
  | cons b L =>
    obtain ⟨hb, hlen, hL⟩ := h
    have hskip : ∀ c ∈ (gaps (b.1 + b.2) hi L).head?, b.1 < c.1 := fun c hc => by
      have := (hL.mem_gaps (List.mem_of_mem_head? hc)).1
      omega
    have hrest := coalesce_of_pairwise (hL.gaps_pairwise he)
    have hlb : lo < b.1 := by rcases hb with hb | hb <;> omega
    rw [gaps, gaps, gap, gap, if_pos hlb, List.singleton_append]
    split
    · rw [List.singleton_append, coalesceFrom, if_pos hy, show (lo, y - lo + (b.1 - y)) = (lo, b.1 - lo) by
        congr 1
        omega]
      rw [coalesceFrom_of_ne (fun c hc => ?_), hrest]
      have := hskip c hc
      dsimp only
      omega
    · rw [List.nil_append, coalesceFrom_of_ne (fun c hc => ?_), hrest, show y = b.1 by omega]
      have := hskip c hc
      dsimp only
      omega

/-- **Taking a block out**: its bytes and the gaps around it become one gap. -/
theorem coalesce_gaps (he : 0 < e) {x n : Nat} {L₂ : List Block} (hn : 0 < n) (h₂ : Laid e f (x + n) hi L₂) :
    ∀ {L₁ : List Block} {lo : Nat}, Laid e f lo x L₁ →
      coalesce (gaps lo x L₁ ++ (x, n) :: gaps (x + n) hi L₂) = gaps lo hi (L₁ ++ L₂)
  | [], lo, h₁      => by
    have hle := h₁.le
    have key : lo < x + n → coalesceFrom (lo, x + n - lo) (gaps (x + n) hi L₂) = gaps lo hi L₂ := fun hlo =>
      coalesceFrom_gaps he hlo h₂
    rw [gaps, gap, List.nil_append]
    split
    · rw [List.singleton_append, coalesce, coalesceFrom, if_pos (by dsimp only; omega)]
      rw [show (lo, x - lo + n) = (lo, x + n - lo) by congr 1; omega]
      exact key (by omega)
    · have hx : lo = x := by omega
      subst hx
      have := key (by omega)
      rwa [Nat.add_sub_cancel_left] at this
  | b :: L₁, lo, h₁ => by
    obtain ⟨-, hlen, hL⟩ := h₁
    have ih := coalesce_gaps he hn h₂ hL
    rw [List.cons_append, gaps, gaps, ← ih]
    unfold gap
    split
    · rw [List.singleton_append, List.singleton_append, List.cons_append, coalesce, coalesceFrom_of_ne (fun c hc => ?_)]
      have hle : b.1 + b.2 ≤ c.1 := by
        cases hg : gaps (b.1 + b.2) x L₁ with
        | nil =>
          rw [hg] at hc
          cases hc
          exact hL.le
        | cons d G =>
          rw [hg] at hc
          cases hc
          exact (hL.mem_gaps (by rw [hg]; exact List.mem_cons_self)).1
      dsimp only
      omega
    · rfl

end Coalesce

/-! ## A block in a gap -/

section Place

variable {e f hi : Nat}

/-- The blocks below a gap and above it. -/
theorem gaps_split {g : Block} {B : List Block} : ∀ {L A : List Block} {lo : Nat}, Laid e f lo hi L →
    gaps lo hi L = A ++ g :: B → ∃ L₁ L₂, L = L₁ ++ L₂ ∧ A = gaps lo g.1 L₁ ∧ B = gaps (g.1 + g.2) hi L₂ ∧
      Laid e f lo g.1 L₁ ∧ Laid e f (g.1 + g.2) hi L₂ ∧
      (∀ y, y < g.1 + g.2 → gaps y hi L₂ = (y, g.1 + g.2 - y) :: B) ∧
      ∀ y, y + f < g.1 + g.2 → Laid e f y hi L₂ := by
  intro L
  induction L with
  | nil =>
    intro A lo h hg
    have hle := h.le
    rw [gaps, gap] at hg
    split at hg
    · rename_i hlt
      obtain ⟨rfl, hg⟩ := List.append_eq_singleton_iff.1 hg.symm |>.resolve_right (fun h => by cases h.2)
      cases hg
      have hend : lo + (hi - lo) = hi := by omega
      refine ⟨[], [], rfl, ?_, ?_, Or.inl rfl, Or.inl hend, fun y hy => ?_, fun y hy => ?_⟩
      · rw [gaps, gap, if_neg (Nat.lt_irrefl lo)]
      · rw [gaps, gap, if_neg (by omega)]
      · dsimp only at hy ⊢
        rw [hend] at hy ⊢
        rw [gaps, gap, if_pos hy]
      · dsimp only at hy
        exact Or.inr (by omega)
    · exact absurd hg (by simp)
  | cons b L ih =>
    intro A lo h hg
    obtain ⟨hb, hlen, hL⟩ := h
    rw [gaps, gap] at hg
    split at hg
    · rename_i hlt
      cases A with
      | nil =>
        obtain ⟨rfl, rfl⟩ := List.cons_eq_cons.1 hg
        have hend : lo + (b.1 - lo) = b.1 := by omega
        refine ⟨[], b :: L, rfl, ?_, ?_, Or.inl rfl, ?_, fun y hy => ?_, fun y hy => ?_⟩
        · rw [gaps, gap, if_neg (Nat.lt_irrefl lo)]
        · rw [gaps, gap, if_neg (by dsimp only; omega)]
          rfl
        · exact ⟨Or.inl hend, hlen, hL⟩
        · dsimp only at hy ⊢
          rw [hend] at hy ⊢
          rw [gaps, gap, if_pos hy]
          rfl
        · dsimp only at hy
          exact ⟨Or.inr (by omega), hlen, hL⟩
      | cons c A =>
        rw [List.singleton_append, List.cons_append] at hg
        obtain ⟨rfl, hg'⟩ := List.cons_eq_cons.1 hg
        obtain ⟨L₁, L₂, rfl, rfl, hB, h₁, h₂⟩ := ih hL hg'
        exact ⟨b :: L₁, L₂, rfl, by rw [gaps, gap, if_pos hlt]; rfl, hB, ⟨hb, hlen, h₁⟩, h₂⟩
    · rename_i hlt
      obtain ⟨L₁, L₂, rfl, rfl, hB, h₁, h₂⟩ := ih hL hg
      exact ⟨b :: L₁, L₂, rfl, by rw [gaps, gap, if_neg hlt]; rfl, hB, ⟨hb, hlen, h₁⟩, h₂⟩

end Place

/-! ## A region that may be short -/

/-- A region without blocks is one gap, however short. -/
def frees (lo hi : Nat) (L : List Block) : List Block := if L = [] then [(lo, hi - lo)] else gaps lo hi L

def Heap (e f lo hi : Nat) (L : List Block) : Prop := lo ≤ hi ∧ (L ≠ [] → Laid e f lo hi L)

section Heap

variable {e f lo hi : Nat} {b c : Block} {L : List Block}

theorem frees_eq_gaps (h : lo < hi ∨ L ≠ []) : frees lo hi L = gaps lo hi L := by
  unfold frees
  split
  · rename_i hL
    rw [hL, gaps, gap, if_pos (h.resolve_right (not_not.2 hL))]
  · rfl

theorem Laid.heap (h : Laid e f lo hi L) : Heap e f lo hi L := ⟨h.le, fun _ => h⟩

/-- **Blocks and gaps tile the region.** -/
theorem Heap.tiling (h : Heap e f lo hi L) : ∃ T, T.Perm (frees lo hi L ++ L) ∧ Tiling lo hi T := by
  by_cases hL : L = []
  · subst hL
    exact ⟨[(lo, hi - lo)], List.Perm.refl _, rfl, Nat.add_sub_cancel' h.1⟩
  · rw [frees_eq_gaps (.inr hL)]
    exact ⟨tiles lo hi L, tiles_perm L lo, (h.2 hL).tiling⟩

theorem Heap.bounds (h : Heap e f lo hi L) (hb : b ∈ frees lo hi L ++ L) : lo ≤ b.1 ∧ b.1 + b.2 ≤ hi := by
  obtain ⟨T, hT, ht⟩ := h.tiling
  exact ht.bounds (hT.mem_iff.2 hb)

theorem Heap.pairwise (h : Heap e f lo hi L) :
    (frees lo hi L ++ L).Pairwise (fun b c => b.1 + b.2 ≤ c.1 ∨ c.1 + c.2 ≤ b.1) := by
  obtain ⟨T, hT, ht⟩ := h.tiling
  exact (hT.pairwise_iff Or.symm).1 (ht.pairwise.imp Or.inl)

/-- A gap and a block. -/
theorem Heap.cross (h : Heap e f lo hi L) (hb : b ∈ frees lo hi L) (hc : c ∈ L) :
    b.1 + b.2 ≤ c.1 ∨ c.1 + c.2 ≤ b.1 := (List.pairwise_append.1 h.pairwise).2.2 b hb c hc

theorem Heap.blocks_pairwise (h : Heap e f lo hi L) : L.Pairwise (fun b c => b.1 + b.2 ≤ c.1) := by
  by_cases hL : L = []
  · rw [hL]
    exact .nil
  · exact ((h.2 hL).tiling.pairwise).sublist (sublist_tiles L lo)

theorem Heap.len_block (h : Heap e f lo hi L) (hb : b ∈ L) : e ≤ b.2 := by
  obtain ⟨L₁, L₂, rfl⟩ := List.append_of_mem hb
  exact (laid_append.1 (h.2 (List.append_ne_nil_of_right_ne_nil L₁ (List.cons_ne_nil b L₂)))).2.1

theorem Heap.len_free (h : Heap e f lo hi L) (hL : L ≠ []) (hb : b ∈ frees lo hi L) : f < b.2 := by
  rw [frees_eq_gaps (.inr hL)] at hb
  exact ((h.2 hL).mem_gaps hb).2.2

theorem Heap.sum (h : Heap e f lo hi L) :
    ((frees lo hi L).map Prod.snd).sum + (L.map Prod.snd).sum = hi - lo := by
  obtain ⟨T, hT, ht⟩ := h.tiling
  have := (hT.map Prod.snd).sum_nat.symm.trans (Nat.eq_sub_of_add_eq' ht.sum)
  rwa [List.map_append, List.sum_append] at this

/-- No gap touches the one behind it. -/
theorem Heap.frees_pairwise (he : 0 < e) (h : Heap e f lo hi L) :
    (frees lo hi L).Pairwise (fun b c => b.1 + b.2 < c.1) := by
  by_cases hL : L = []
  · rw [frees, if_pos hL]
    exact List.pairwise_singleton _ _
  · rw [frees_eq_gaps (.inr hL)]
    exact (h.2 hL).gaps_pairwise he

end Heap

end Gaps
end OtaLoader
