import OtaLoader.LbufRep
/-!
# LbufChunks — how many blocks of one size a buffer holds

`lbuf_get_chunk_num` is the number that a user of a buffer counts on.  A fresh buffer hands blocks out from one free block,
so the number of calls that succeed is known exactly (`succeeds_iff`); the formula leaves the head of the buffer out.
-/
namespace OtaLoader
namespace Lbuf

open Links Gaps

/-- That many calls in a row succeed. -/
def Succeeds (base len : Nat) : Nat → Mem → Prop
  | 0, _     => True
  | k + 1, m => ∃ p m', lbufAlloc m base len = some (some p, m') ∧ Succeeds base len k m'

section Chunks

variable {m : Mem} {base hi len : Nat} {q : List Nat}

theorem succeeds_cons {k : Nat} {p : Nat} {m' : Mem} (h : lbufAlloc m base len = some (some p, m')) :
    Succeeds base len (k + 1) m ↔ Succeeds base len k m' := by
  constructor
  · rintro ⟨p₁, m₁, h₁, hs⟩
    obtain ⟨-, rfl⟩ := Prod.mk.inj (Option.some.inj (h.symm.trans h₁))
    exact hs
  · exact fun hs => ⟨p, m', h, hs⟩

theorem not_succeeds {k : Nat} (h : lbufAlloc m base len = some (none, m)) : ¬ Succeeds base len (k + 1) m := by
  rintro ⟨p, m', h', -⟩
  cases h.symm.trans h'

theorem succeeds_of_full {L : List Block} {k : Nat} (R : Rep m base hi L q) (hfull : frees (base + 16) hi L = []) :
    Succeeds base len k m ↔ k = 0 := by
  cases k with
  | zero   => exact ⟨fun _ => rfl, fun _ => trivial⟩
  | succ k =>
    have hnone : lbufAlloc m base len = some (none, m) :=
      lbufAlloc_none R (by rw [hfull]; exact fun b hb => absurd hb List.not_mem_nil)
    exact ⟨fun h => absurd h (not_succeeds hnone), fun h => absurd h (Nat.succ_ne_zero k)⟩

/-- **One free block serves as many calls as it has room for.** -/
theorem succeeds_iff (hlen : 20 ≤ blockLen len ∧ 4 ∣ blockLen len) : ∀ (k : Nat) {m : Mem} {L : List Block} {y r : Nat},
    Rep m base hi L q → frees (base + 16) hi L = [(y, r)] →
      (Succeeds base len k m ↔ k = 0 ∨ k * blockLen len ≤ r)
  | 0, _, _, _, _, _, _        => ⟨fun _ => .inl rfl, fun _ => trivial⟩
  | k + 1, m, L, y, r, R, hone => by
    rw [Nat.succ_mul]
    by_cases hfit : blockLen len ≤ r
    · have hfind : (frees (base + 16) hi L).find? (fun b => decide (blockLen len ≤ b.2)) = some (y, r) := by
        rw [hone]
        exact List.find?_cons_of_pos (p := fun b : Block => decide (blockLen len ≤ b.2)) (decide_eq_true hfit)
      obtain ⟨m', n, L₁, L₂, A, B, ha, -, -, hAB, hfrees, -, R', -⟩ := lbufAlloc_takes R hlen hfind
      rw [hone] at hAB
      obtain ⟨rfl, rfl⟩ : A = [] ∧ B = [] := by
        cases A with
        | nil       => exact ⟨rfl, (List.cons_eq_cons.1 hAB).2.symm⟩
        | cons a A => exact absurd (List.cons_eq_cons.1 hAB).2 (by simp)
      rw [succeeds_cons ha]
      split at hfrees
      · rename_i hsplit
        rw [succeeds_iff hlen k R' hfrees]
        constructor
        · rintro (rfl | hk)
          · exact .inr (by omega)
          · exact .inr (by omega)
        · rintro (h | hk)
          · omega
          · exact .inr (by omega)
      · -- the rest is too short for a header of its own, so it goes with the last block
        rename_i hwhole
        rw [succeeds_of_full R' hfrees]
        constructor
        · rintro rfl
          exact .inr (by omega)
        · rintro (h | hk)
          · omega
          · by_contra hne
            have := Nat.le_mul_of_pos_left (blockLen len) (Nat.pos_of_ne_zero hne)
            omega
    · have hnone : lbufAlloc m base len = some (none, m) := lbufAlloc_none R (by
        intro b hb
        rw [hone] at hb
        rw [List.mem_singleton.1 hb]
        omega)
      refine ⟨fun h => absurd h (not_succeeds hnone), ?_⟩
      rintro (h | h) <;> omega

/-- The bytes that are left over when `total` bytes, less a free header, are cut into chunks that may need three bytes
of rounding: the remainder of the division, and what each chunk does not need. -/
def leftOver (total chunk : Nat) : Nat :=
  (total - sizeofFree) % (chunk + 23) + (total - sizeofFree) / (chunk + 23) * ((chunk + 23) % 4)

theorem leftOver_eq (total chunk : Nat) :
    (total - sizeofFree) / (chunk + 23) * ((chunk + 23) / 4 * 4) + leftOver total chunk = total - sizeofFree := by
  have hchunk : (chunk + 23) / 4 * 4 + (chunk + 23) % 4 = chunk + 23 := by omega
  calc (total - sizeofFree) / (chunk + 23) * ((chunk + 23) / 4 * 4) + leftOver total chunk
      = (total - sizeofFree) / (chunk + 23) * ((chunk + 23) / 4 * 4 + (chunk + 23) % 4)
          + (total - sizeofFree) % (chunk + 23) := by
        rw [leftOver, Nat.mul_add]
        omega
    _ = total - sizeofFree := by rw [hchunk, Nat.div_add_mod']

theorem lbufGetChunkNum_eq {total chunk : Nat} (ht : sizeofFree ≤ total) (ht' : total < 4294967296)
    (hc : chunk + sizeofEntry + 3 < 4294967296) :
    lbufGetChunkNum total chunk = (total - sizeofFree) / (chunk + 23) := by
  have hnum : u32 (total + 4294967296 - sizeofFree) = total - sizeofFree := by
    unfold u32 sizeofFree at *
    omega
  rw [lbufGetChunkNum, hnum, u32_of_lt hc]
  rfl

/-- **The calls that `lbuf_get_chunk_num` promises** all succeed exactly if there are none or what is left over has room
for the head, which the promise forgets. -/
theorem chunks_iff {buf total chunk : Nat} (m : Mem) (h0 : 0 < buf) (h4 : 4 ∣ buf) (htop : buf + total ≤ 4294967296)
    (htotal : sizeofFree ≤ total) (hchunk : chunk + sizeofEntry + 3 < 4294967296) :
    Succeeds (lbufInit m buf total).2 chunk (lbufGetChunkNum total chunk) (lbufInit m buf total).1 ↔
      total - sizeofFree < chunk + 23 ∨ sizeofHead ≤ leftOver total chunk := by
  rw [lbufGetChunkNum_eq htotal (by omega) hchunk]
  have hover := leftOver_eq total chunk
  unfold sizeofFree sizeofHead sizeofEntry at *
  generalize leftOver total chunk = rest at hover ⊢
  by_cases hnone : total - 12 < chunk + 23
  · rw [Nat.div_eq_of_lt hnone]
    exact ⟨fun _ => .inl hnone, fun _ => trivial⟩
  · have hlen : 31 ≤ total := by omega
    have hpos : 0 < (total - 12) / (chunk + 23) := Nat.div_pos (Nat.not_lt.1 hnone) (by omega)
    obtain ⟨m', hi, R⟩ := lbufInit_rep (m := m) h0 hlen htop
    have hbase : alignedHead buf = buf := by
      unfold alignedHead
      rw [if_neg (by omega), Nat.add_zero]
    rw [hbase] at hi R
    have hone : frees (buf + 16) (buf + total - 12) [] = [(buf + 16, total - 28)] := by
      rw [frees, if_pos rfl]
      congr 2
      omega
    obtain ⟨-, hlen₁⟩ := @blockLen_bounds chunk (by omega)
    rw [hi, succeeds_iff hlen₁ _ R hone, blockLen_of_le (by omega)]
    omega

theorem chunks_succeed : Succeeds 4096 16 (lbufGetChunkNum 250 16) (lbufInit (fun _ => 0) 4096 250).1 :=
  (chunks_iff (fun _ => 0) (by decide : 0 < 4096) (by decide) (by decide : 4096 + 250 ≤ 4294967296) (by decide)
    (by decide : 16 + sizeofEntry + 3 < 4294967296)).2 (.inr (by decide))

/-- Ten blocks of 24 bytes are promised in a buffer of 256, where 228 are free. -/
theorem not_chunks_succeed : ¬ ∀ (m : Mem) (buf total chunk : Nat), 0 < buf → 4 ∣ buf → buf + total ≤ 4294967296 →
    sizeofFree ≤ total → chunk + sizeofEntry + 3 < 4294967296 →
      Succeeds (lbufInit m buf total).2 chunk (lbufGetChunkNum total chunk) (lbufInit m buf total).1 := by
  intro h
  have hs := h (fun _ => 0) 4096 256 1 (by decide) (by decide) (by decide) (by decide) (by decide)
  obtain ⟨m', hi, R⟩ := @lbufInit_rep (fun _ => 0) 4096 256 (by decide) (by decide) (by decide)
  rw [hi] at hs
  have hlen : 20 ≤ blockLen 1 ∧ 4 ∣ blockLen 1 := by decide
  rcases (succeeds_iff hlen 10 R rfl).1 hs with h | h
  · cases h
  · exact absurd h (by decide)

end Chunks

end Lbuf
end OtaLoader
