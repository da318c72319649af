import OtaLoader.LbufLists
/-!
# LbufRep — the buffer represents its blocks

`Rep` says that the bytes of a buffer are those of a region with these blocks handed out and these of them queued: the
free list holds the gaps between the blocks.  Each operation takes a represented buffer to another, returns, and leaves
what its clients own alone (`Keeps`).
-/
namespace OtaLoader
namespace Lbuf

open Links Gaps

structure Rep (m : Mem) (base hi : Nat) (L : List Block) (q : List Nat) : Prop where
  pos     : 0 < base
  top     : hi + 12 ≤ 4294967296
  heap    : Heap 20 12 (base + 16) hi L
  aligned : ∀ b ∈ frees (base + 16) hi L ++ L, 4 ∣ b.1
  free    : FreeList m (freeHead base) (frees (base + 16) hi L)
  used    : Entries m base L q

/-- Blocks keep their state, their reference count and their payload. -/
def Keeps (m m' : Mem) (L : List Block) : Prop := ∀ b ∈ L, ∀ a, b.1 + 16 ≤ a → a < b.1 + b.2 → m' a = m a

section Rep

variable {m m' : Mem} {base hi x n : Nat} {L L₁ L₂ : List Block} {q : List Nat} {b c : Block}

theorem getEntry_add (h : x + 20 < 4294967296) : getEntry (x + sizeofEntry) = x := by
  unfold getEntry sizeofEntry u32
  omega

theorem Rep.bounds (R : Rep m base hi L q) (hb : b ∈ L) :
    base + 16 ≤ b.1 ∧ 20 ≤ b.2 ∧ b.1 + b.2 ≤ hi ∧ hi + 12 ≤ 4294967296 := by
  have h := R.heap.bounds (List.mem_append_right (frees (base + 16) hi L) hb)
  exact ⟨h.1, R.heap.len_block hb, h.2, R.top⟩

theorem seats (pos : 0 < base) (top : hi + 12 ≤ 4294967296) (h : Heap 20 12 (base + 16) hi L) : Seats base L := by
  have hle := h.1
  refine ⟨⟨pos, by omega⟩, fun b hb => ?_, h.blocks_pairwise.imp_of_mem (fun hb _ hbc => ?_)⟩
  · have h₁ := h.bounds (List.mem_append_right (frees (base + 16) hi L) hb)
    have h₂ := h.len_block hb
    omega
  · have := h.len_block hb
    omega

theorem Rep.seats (R : Rep m base hi L q) : Seats base L := Lbuf.seats R.pos R.top R.heap

theorem room (pos : 0 < base) (top : hi + 12 ≤ 4294967296) (h : Heap 20 12 (base + 16) hi L) :
    Room (freeHead base) (frees (base + 16) hi L) := by
  have hle := h.1
  refine ⟨⟨by unfold freeHead; omega, by unfold freeHead; omega⟩, fun b hb => ?_, ?_⟩
  · have h₁ := h.bounds (List.mem_append_left L hb)
    unfold freeHead
    omega
  · by_cases hL : L = []
    · rw [frees, if_pos hL]
      exact List.pairwise_singleton _ _
    · refine (h.frees_pairwise (by decide)).imp_of_mem (fun hb _ hbc => ?_)
      have := h.len_free hL hb
      omega

theorem Rep.room (R : Rep m base hi L q) : Room (freeHead base) (frees (base + 16) hi L) :=
  Lbuf.room R.pos R.top R.heap

/-- The headers of free blocks are apart from the others. -/
theorem disjoint (h : Heap 20 12 (base + 16) hi L) {a : Nat} (ha : entryBytes base L a) :
    ¬ freeBytes (freeHead base) (frees (base + 16) hi L) a := by
  unfold freeBytes freeHead
  rintro (hf | ⟨d, hd, hda⟩)
  · rcases ha with ha | ⟨c, hc, ha⟩
    · omega
    · have := h.bounds (List.mem_append_right (frees (base + 16) hi L) hc)
      omega
  · have hdb := h.bounds (List.mem_append_left L hd)
    rcases ha with ha | ⟨c, hc, ha⟩
    · omega
    · have h₁ := h.len_free (List.ne_nil_of_mem hc) hd
      have h₂ := h.len_block hc
      rcases h.cross hd hc with h₃ | h₃ <;> omega

/-- What follows the first 16 bytes of a block is in no header. -/
theorem notMem_freeBytes_inside (h : Heap 20 12 (base + 16) hi L) (hc : c ∈ L) {a : Nat} (h₁ : c.1 + 16 ≤ a)
    (h₂ : a < c.1 + c.2) : ¬ freeBytes (freeHead base) (frees (base + 16) hi L) a := by
  have hcb := h.bounds (List.mem_append_right (frees (base + 16) hi L) hc)
  unfold freeBytes freeHead
  rintro (hf | ⟨d, hd, hda⟩)
  · omega
  · have h₃ := h.len_free (List.ne_nil_of_mem hc) hd
    rcases h.cross hd hc with h₄ | h₄ <;> omega

theorem notMem_entryBytes_inside (h : Heap 20 12 (base + 16) hi L) (hc : c ∈ L) {a : Nat} (h₁ : c.1 + 16 ≤ a)
    (h₂ : a < c.1 + c.2) : ¬ entryBytes base L a := by
  have hcb := h.bounds (List.mem_append_right (frees (base + 16) hi L) hc)
  rintro (hf | ⟨d, hd, hda⟩)
  · omega
  · have h₃ := h.len_block hd
    rcases pairwise_cases h.blocks_pairwise hc hd with rfl | h₄ | h₄ <;> omega

theorem Keeps.trans {m'' : Mem} (h : Keeps m m' L) (h' : Keeps m' m'' L) : Keeps m m'' L := fun b hb a h₁ h₂ =>
  (h' b hb a h₁ h₂).trans (h b hb a h₁ h₂)

/-! ## Taking a block back -/

/-- The list between the insertion and the sweep. -/
theorem room_mid (pos : 0 < base) (top : hi + 12 ≤ 4294967296) (h₁ : Laid 20 12 (base + 16) x L₁) (hn : 20 ≤ n)
    (h₂ : Laid 20 12 (x + n) hi L₂) :
    Room (freeHead base) (gaps (base + 16) x L₁ ++ (x, n) :: gaps (x + n) hi L₂) := by
  have hle₁ := h₁.le
  have hle₂ := h₂.le
  refine ⟨⟨by unfold freeHead; omega, by unfold freeHead; omega⟩, fun b hb => ?_, ?_⟩
  · unfold freeHead
    rcases List.mem_append.1 hb with hb | hb
    · have := h₁.mem_gaps hb
      omega
    · rcases List.mem_cons.1 hb with rfl | hb
      · dsimp only
        omega
      · have := h₂.mem_gaps hb
        omega
  · refine List.pairwise_append.2 ⟨?_, List.pairwise_cons.2 ⟨fun c hc => ?_, ?_⟩, fun b hb c hc => ?_⟩
    · refine (h₁.gaps_pairwise (by decide)).imp_of_mem (fun hb _ hbc => ?_)
      have := (h₁.mem_gaps hb).2.2
      omega
    · have := (h₂.mem_gaps hc).1
      dsimp only
      omega
    · refine (h₂.gaps_pairwise (by decide)).imp_of_mem (fun hb _ hbc => ?_)
      have := (h₂.mem_gaps hb).2.2
      omega
    · have hb' := h₁.mem_gaps hb
      rcases List.mem_cons.1 hc with rfl | hc
      · omega
      · have := (h₂.mem_gaps hc).1
        omega

theorem entryBytes_mono {L' : List Block} (h : L ⊆ L') {a : Nat} (ha : entryBytes base L a) : entryBytes base L' a :=
  ha.imp id (fun ⟨b, hb, hab⟩ => ⟨b, h hb, hab⟩)

theorem subset_middle : L₁ ++ L₂ ⊆ L₁ ++ b :: L₂ :=
  ((List.Sublist.refl L₁).append (List.sublist_cons_self b L₂)).subset

theorem mem_middle (h : c ∈ L₁ ++ b :: L₂) : c = b ∨ c ∈ L₁ ++ L₂ := by
  rcases List.mem_append.1 h with h | h
  · exact .inr (List.mem_append_left _ h)
  · exact (List.mem_cons.1 h).imp id (List.mem_append_right _)

/-- A block and the blocks around it. -/
theorem Rep.around (R : Rep m base hi (L₁ ++ b :: L₂) q) (hc : c ∈ L₁ ++ L₂) :
    c.1 + c.2 ≤ b.1 ∨ b.1 + b.2 ≤ c.1 := by
  obtain ⟨-, h₂, h₁₂⟩ := List.pairwise_append.1 R.heap.blocks_pairwise
  rcases List.mem_append.1 hc with hc | hc
  · exact .inl (h₁₂ c hc b List.mem_cons_self)
  · exact .inr ((List.pairwise_cons.1 h₂).1 c hc)

/-- Memory with the words of a free block where a header was. -/
def freed (m : Mem) (b : Block) (prev next : Nat) : Mem :=
  ((m.set32 (b.1 + 8) b.2).set32 b.1 next).set32 (b.1 + 4) prev

theorem freed_outside {prev next a : Nat} (ha : a < b.1 ∨ b.1 + 12 ≤ a) : freed m b prev next a = m a := by
  unfold freed
  rw [Mem.set32_outside (by omega), Mem.set32_outside (by omega), Mem.set32_outside (by omega)]

/-- The bytes of a block that was put into a list do not depend on what was there. -/
theorem listAdd_freed {p y a : Nat} (hp : p + 4 ≤ b.1) (hy : y + 8 ≤ b.1 ∨ b.1 + 12 ≤ y) (h₁ : b.1 ≤ a) (h₂ : a < b.1 + 12) :
    listAdd (m.set32 (b.1 + 8) b.2) b.1 p y a = freed m' b p y a := by
  unfold listAdd freed
  rw [Mem.set32_outside (by omega)]
  refine Mem.set32_congr (or_iff_not_imp_left.2 (fun h => ?_))
  refine Mem.set32_congr (or_iff_not_imp_left.2 (fun h' => ?_))
  rw [Mem.set32_outside (by omega)]
  exact Mem.set32_congr (.inl (by omega))

/-- The walk to the place of a block among the free ones, what is done there, and the sweep. -/
theorem FreeList.put_back {h : Nat} {A B : List Block} (f : FreeList m h (A ++ B)) (r : Room h (A ++ (x, n) :: B))
    (hlen : freeLen m x = n) (hA : ∀ b ∈ A, b.1 + b.2 ≤ x) (hB : ∀ b ∈ B, x < b.1) :
    ∃ m', (match listFind m h (fun p => covers m x p || decide (x < p)) with
      | none          => none
      | some (some p) => if covers m x p then some m else Lbuf.sweep (listAdd m x (prev m p) p) h
      | some none     => Lbuf.sweep (listAddTail m x h) h) = some m' ∧
      FreeList m' h (coalesce (A ++ (x, n) :: B)) ∧ (∀ a, ¬ freeBytes h (A ++ (x, n) :: B) a → m' a = m a) ∧
      -- a block that becomes part of the one before it keeps the links it was given
      ∀ A' c, A = A' ++ [c] → c.1 + c.2 = x → A.Pairwise (fun b c => b.1 + b.2 < c.1) → ∀ a, x ≤ a → a < x + 12 →
        m' a = listAdd m x c.1 ((B.map Prod.fst).head?.getD h) a := by
  have rAB : Room h (A ++ B) := r.sublist ((List.Sublist.refl A).append (List.sublist_cons_self _ B))
  have hcA : ∀ b ∈ A, covers m x b.1 = false ∧ ¬ x < b.1 := fun b hb => by
    have hbb := rAB.bounds b (List.mem_append_left B hb)
    have := hA b hb
    unfold covers
    rw [f.lens b (List.mem_append_left B hb), u32_of_lt hbb.2]
    exact ⟨decide_eq_false (by omega), by omega⟩
  have hcB : ∀ b ∈ B, covers m x b.1 = false := fun b hb => by
    have := hB b hb
    exact decide_eq_false (by omega)
  have hfind : listFind m h (fun p => covers m x p || decide (x < p)) = some (B.map Prod.fst).head? := by
    have hnone : (A.map Prod.fst).find? (fun p => covers m x p || decide (x < p)) = none :=
      List.find?_eq_none.2 (fun p hp => by
        obtain ⟨b, hb, rfl⟩ := List.mem_map.1 hp
        simp [hcA b hb])
    rw [f.find rAB, List.map_append, List.find?_append, hnone, Option.none_or]
    cases B with
    | nil      => rfl
    | cons c B => simp [hcB c List.mem_cons_self, hB c List.mem_cons_self]
  obtain ⟨hl, hr, -, hlast⟩ := ring_append.1 (List.map_append ▸ f.ring)
  have hlens : ∀ c ∈ A ++ (x, n) :: B, freeLen m c.1 = c.2 := fun c hc => by
    rcases List.mem_append.1 hc with hc | hc
    · exact f.lens c (List.mem_append_left B hc)
    · rcases List.mem_cons.1 hc with rfl | hc
      · exact hlen
      · exact f.lens c (List.mem_append_right A hc)
  obtain ⟨f', hout⟩ := FreeList.add hl hr hlens r hlast rfl
  obtain ⟨m', hs, f'', hout'⟩ := f'.sweep r
  refine ⟨m', ?_, f'', fun a ha => (hout' a (fun hf => ha (freeBytes_mono ?_ hf))).trans (hout a ha), ?_⟩
  · rw [hfind]
    cases B with
    | nil      => exact hs
    | cons c B =>
      have hno : ¬ covers m x c.1 = true := by
        rw [hcB c List.mem_cons_self]
        decide
      exact (if_neg hno).trans hs
  · exact List.map_subset _ (dropTouching_sublist _).subset
  · rintro A' c rfl hcx hpair a h₁ h₂
    have hlast' : prev m ((B.map Prod.fst).head?.getD h) = c.1 := by rw [hlast]; simp
    rw [← hlast']
    have hdrop : dropTouching (A' ++ [c] ++ (x, n) :: B) = A' ++ [c] ++ B := by
      rw [List.append_assoc, List.append_assoc]
      exact dropTouching_append hcx hpair
    refine hout' a ?_
    rw [hdrop]
    have hap := List.pairwise_append.1 r.apart
    rintro (hf | ⟨d, hd, hda⟩)
    · have := (r.bounds (x, n) (by simp)).1
      dsimp only at this
      omega
    · rcases List.mem_append.1 hd with hd | hd
      · have := hap.2.2 d hd (x, n) List.mem_cons_self
        dsimp only at this
        omega
      · have := (List.pairwise_cons.1 hap.2.1).1 d hd
        dsimp only at this
        omega

/-- **`lbuf_free` takes a block back**, and writes the headers of the other blocks and of the free ones only. -/
theorem lbufFree_takes (R : Rep m base hi (L₁ ++ (x, n) :: L₂) q) :
    ∃ m', lbufFree m (x + sizeofEntry) = some m' ∧ Rep m' base hi (L₁ ++ L₂) (q.erase x) ∧
      frees (base + 16) hi (L₁ ++ L₂) = coalesce (gaps (base + 16) x L₁ ++ (x, n) :: gaps (x + n) hi L₂) ∧
      (∀ a, ¬ entryBytes base (L₁ ++ L₂) a →
        ¬ freeBytes (freeHead base) ((x, n) :: frees (base + 16) hi (L₁ ++ (x, n) :: L₂)) a → m' a = m a) ∧
      ∀ A c, gaps (base + 16) x L₁ = A ++ [c] → c.1 + c.2 = x → ∀ a, x ≤ a → a < x + 12 →
        m' a = freed m (x, n) c.1 (((gaps (x + n) hi L₂).map Prod.fst).head?.getD (freeHead base)) a := by
  have hne : L₁ ++ (x, n) :: L₂ ≠ [] := by simp
  have hxm : (x, n) ∈ L₁ ++ (x, n) :: L₂ := by simp
  obtain ⟨hbx, hn, hxhi, htop⟩ := R.bounds hxm
  dsimp only at hbx hn hxhi
  have hlaid := R.heap.2 hne
  obtain ⟨h₁, -, h₂⟩ := laid_append.1 hlaid
  dsimp only at h₁ h₂
  have hlaid' : Laid 20 12 (base + 16) hi (L₁ ++ L₂) := hlaid.remove (by decide)
  have hfr : frees (base + 16) hi (L₁ ++ (x, n) :: L₂) = gaps (base + 16) x L₁ ++ gaps (x + n) hi L₂ :=
    (frees_eq_gaps (.inr hne)).trans gaps_append
  have hfr' : frees (base + 16) hi (L₁ ++ L₂) = gaps (base + 16) hi (L₁ ++ L₂) := frees_eq_gaps (.inl (by omega))
  have hco := coalesce_gaps (by decide) (by omega) h₂ h₁
  have hroom := room_mid R.pos R.top h₁ hn h₂
  have hmid : ∀ a, entryBytes base (L₁ ++ L₂) a →
      ¬ freeBytes (freeHead base) (gaps (base + 16) x L₁ ++ (x, n) :: gaps (x + n) hi L₂) a := by
    intro a ha hf
    have hdis := disjoint R.heap (entryBytes_mono subset_middle ha)
    rw [hfr] at hdis
    rcases hf with hf | ⟨d, hd, hda⟩
    · exact hdis (.inl hf)
    · rcases List.mem_append.1 hd with hd | hd
      · exact hdis (.inr ⟨d, List.mem_append_left _ hd, hda⟩)
      · rcases List.mem_cons.1 hd with rfl | hd
        · dsimp only at hda
          rcases ha with ha | ⟨c, hc, ha⟩
          · omega
          · have hcl := R.heap.len_block (subset_middle hc)
            rcases R.around hc with h | h <;> (dsimp only at h; omega)
        · exact hdis (.inr ⟨d, List.mem_append_right _ hd, hda⟩)
  obtain ⟨e₁, hout₁⟩ := R.used.unlink R.seats
  generalize hm₁ : listDelEntry m x = m₁ at e₁ hout₁
  -- the words of the block itself are in no other header
  have hown : ∀ a, x ≤ a → a < x + 20 → ¬ entryBytes base (L₁ ++ L₂) a := fun a ha₁ ha₂ ha => by
    rcases ha with ha | ⟨c, hc, ha⟩
    · omega
    · have hcl := R.heap.len_block (subset_middle hc)
      rcases R.around hc with h | h <;> (dsimp only at h; omega)
  have hlen₁ : entryLen m₁ x = n :=
    (Mem.get32_congr (fun i hi => hout₁ _ (hown _ (by omega) (by omega)))).trans (R.used.words _ hxm).2
  generalize hm₂ : m₁.set32 (x + 8) n = m₂
  have hout₂ : ∀ a, (a < x + 8 ∨ x + 12 ≤ a) → m₂ a = m₁ a := fun a ha => by
    rw [← hm₂]
    exact Mem.set32_outside (by omega)
  have hlen₂ : freeLen m₂ x = n := by
    rw [← hm₂]
    exact (Mem.get32_set32 m₁ _ _).trans (u32_of_lt (by omega))
  have hfar : ∀ a, freeBytes (freeHead base) (gaps (base + 16) x L₁ ++ gaps (x + n) hi L₂) a → a < x ∨ x + 20 ≤ a := by
    rintro a (ha | ⟨d, hd, ha⟩)
    · unfold freeHead at ha
      omega
    · rcases List.mem_append.1 hd with hd | hd
      · have := h₁.mem_gaps hd
        omega
      · have := h₂.mem_gaps hd
        omega
  have f₂ : FreeList m₂ (freeHead base) (gaps (base + 16) x L₁ ++ gaps (x + n) hi L₂) := by
    refine (hfr ▸ R.free).frame (fun a ha => ?_)
    have hx := hfar a ha
    rw [hout₂ a (by omega)]
    exact hout₁ a (fun he => disjoint R.heap (entryBytes_mono subset_middle he) (hfr ▸ ha))
  obtain ⟨m', hs, f', hout', htouch⟩ := f₂.put_back hroom hlen₂ (fun b hb => (h₁.mem_gaps hb).2.1)
    (fun b hb => by have := (h₂.mem_gaps hb).1; omega)
  rw [hco] at f'
  have e' : Entries m' base (L₁ ++ L₂) (q.erase x) := e₁.frame (fun a ha => by
    rw [hout' a (hmid a ha)]
    refine hout₂ a ?_
    by_contra hcon
    exact hown a (by omega) (by omega) ha)
  refine ⟨m', ?_, ⟨R.pos, R.top, hlaid'.heap, fun b hb => ?_, hfr' ▸ f', e'⟩, hfr'.trans hco.symm,
    fun a he hfree => ?_, fun A c hA hcx a ha₁ ha₂ => ?_⟩
  · have hlb : x + sizeofEntry ≠ 0 := by unfold sizeofEntry; omega
    have hhead : entryHead m x = base := (R.used.words _ hxm).1
    rw [lbufFree, if_neg hlb, getEntry_add (by omega)]
    dsimp only
    rw [hhead, hm₁, hlen₁, hm₂]
    exact hs
  · rcases List.mem_append.1 hb with hb | hb
    · rw [hfr', ← hco] at hb
      obtain ⟨d, hd, hdb⟩ := coalesce_fst hb
      rw [← hdb]
      rcases List.mem_append.1 hd with hd | hd
      · exact R.aligned d (List.mem_append_left _ (hfr ▸ List.mem_append_left _ hd))
      · rcases List.mem_cons.1 hd with rfl | hd
        · exact R.aligned _ (List.mem_append_right _ hxm)
        · exact R.aligned d (List.mem_append_left _ (hfr ▸ List.mem_append_right _ hd))
    · exact R.aligned b (List.mem_append_right _ (subset_middle hb))
  · rw [hfr] at hfree
    have hmid' : ¬ freeBytes (freeHead base) (gaps (base + 16) x L₁ ++ (x, n) :: gaps (x + n) hi L₂) a := by
      rintro (hf | ⟨d, hd, hda⟩)
      · exact hfree (.inl hf)
      · rcases mem_middle hd with rfl | hd
        · exact hfree (.inr ⟨_, List.mem_cons_self, hda⟩)
        · exact hfree (.inr ⟨d, List.mem_cons_of_mem _ hd, hda⟩)
    rw [hout' a hmid', hout₂ a ?_]
    · exact hout₁ a he
    · by_contra hcon
      exact hfree (.inr ⟨(x, n), List.mem_cons_self, by dsimp only; omega⟩)
  · rw [htouch A c hA hcx (h₁.gaps_pairwise (by decide)) a ha₁ ha₂, ← hm₂]
    have hc := h₁.mem_gaps (b := c) (by rw [hA]; simp)
    have hnext : ((gaps (x + n) hi L₂).map Prod.fst).head?.getD (freeHead base) ∈
        freeHead base :: (gaps (x + n) hi L₂).map Prod.fst := head_mem
    refine listAdd_freed (b := (x, n)) (by dsimp only; omega) ?_ ha₁ ha₂
    rcases List.mem_cons.1 hnext with h | h
    · rw [h]
      unfold freeHead
      dsimp only
      omega
    · obtain ⟨d, hd, hdx⟩ := List.mem_map.1 h
      have := h₂.mem_gaps hd
      rw [← hdx]
      dsimp only
      omega

/-- **What lies behind the header of a free block afterwards** is what was there, except for the header of the block that
was taken back. -/
theorem lbufFree_inside (R : Rep m base hi (L₁ ++ (x, n) :: L₂) q) :
    ∃ m', lbufFree m (x + sizeofEntry) = some m' ∧ Rep m' base hi (L₁ ++ L₂) (q.erase x) ∧
      frees (base + 16) hi (L₁ ++ L₂) = coalesce (gaps (base + 16) x L₁ ++ (x, n) :: gaps (x + n) hi L₂) ∧
      ∀ c ∈ frees (base + 16) hi (L₁ ++ L₂), ∀ a, c.1 + 20 ≤ a → a < c.1 + c.2 → a < c.1 + n →
        m' a = freed m (x, n) (((gaps (base + 16) x L₁).map Prod.fst).getLast?.getD (freeHead base))
          (((gaps (x + n) hi L₂).map Prod.fst).head?.getD (freeHead base)) a := by
  have hne : L₁ ++ (x, n) :: L₂ ≠ [] := by simp
  obtain ⟨hbx, hn, hxhi, -⟩ := R.bounds (b := (x, n)) (by simp)
  dsimp only at hbx hn hxhi
  have hlaid := R.heap.2 hne
  obtain ⟨h₁, -, h₂⟩ := laid_append.1 hlaid
  dsimp only at h₁ h₂
  obtain ⟨m', hf, R', hco, hout, htouch⟩ := lbufFree_takes R
  refine ⟨m', hf, R', hco, fun c hc a ha₁ ha₂ ha₃ => ?_⟩
  have hcb := R'.heap.bounds (List.mem_append_left _ hc)
  have hcross : ∀ b ∈ L₁ ++ L₂, c.1 + c.2 ≤ b.1 ∨ b.1 + b.2 ≤ c.1 := fun b hb => R'.heap.cross hc hb
  have hlong : ∀ b ∈ L₁ ++ L₂, 20 ≤ b.2 := fun b hb => R'.heap.len_block hb
  by_cases hx : x ≤ a ∧ a < x + 12
  · -- the gap before the block ends where the block begins
    obtain ⟨A, d, hA, hd⟩ := gaps_end h₁ (by omega) (fun b hb hbx => by
      have := hcross b (List.mem_append_left _ hb)
      have := hlong b (List.mem_append_left _ hb)
      omega)
    rw [htouch A d hA hd a hx.1 hx.2, hA]
    simp
  · rw [freed_outside (by dsimp only; omega)]
    refine hout a ?_ ?_
    · rintro (he | ⟨b, hb, he⟩)
      · omega
      · have := hcross b hb
        have := hlong b hb
        omega
    · rintro (he | ⟨d, hd, he⟩)
      · unfold freeHead at he
        omega
      · rcases List.mem_cons.1 hd with rfl | hd
        · exact hx he
        · rw [frees_eq_gaps (.inr hne), gaps_append] at hd
          rcases List.mem_append.1 hd with hd | hd
          · rcases start_of_mem_gaps hd with h | ⟨b, hb, h⟩
            · omega
            · have := hcross b (List.mem_append_left _ hb)
              omega
          · rcases start_of_mem_gaps hd with h | ⟨b, hb, h⟩
            · -- the gap behind the block
              have hlt : x + n ≤ c.1 ∨ c.1 ≤ x := by
                rw [frees_eq_gaps (.inl (by omega))] at hc
                rcases start_of_mem_gaps hc with hc' | ⟨b, hb, hc'⟩
                · omega
                · rcases List.mem_append.1 hb with hb | hb
                  · have := (h₁.tiling.bounds ((sublist_tiles _ _).subset hb)).2
                    omega
                  · have := (h₂.tiling.bounds ((sublist_tiles _ _).subset hb)).1
                    omega
              dsimp only at h
              omega
            · have := hcross b (List.mem_append_right _ hb)
              omega

/-- What lies behind the header in a block is written by none of these. -/
theorem inside_spared (h : Heap 20 12 (base + 16) hi (L₁ ++ (x, n) :: L₂)) (hc : c ∈ L₁ ++ (x, n) :: L₂) {a : Nat}
    (h₁ : c.1 + 16 ≤ a) (h₂ : a < c.1 + c.2) : ¬ entryBytes base (L₁ ++ L₂) a ∧
      ¬ freeBytes (freeHead base) ((x, n) :: frees (base + 16) hi (L₁ ++ (x, n) :: L₂)) a := by
  have hxm : (x, n) ∈ L₁ ++ (x, n) :: L₂ := by simp
  refine ⟨fun he => notMem_entryBytes_inside h hc h₁ h₂ (entryBytes_mono subset_middle he), ?_⟩
  rintro (hf | ⟨d, hd, hda⟩)
  · exact notMem_freeBytes_inside h hc h₁ h₂ (.inl hf)
  · rcases List.mem_cons.1 hd with rfl | hd
    · have hn := h.len_block hxm
      dsimp only at hda hn
      rcases pairwise_cases h.blocks_pairwise hc hxm with rfl | h₃ | h₃
      · dsimp only at h₁
        omega
      · dsimp only at h₃
        omega
      · dsimp only at h₃
        omega
    · exact notMem_freeBytes_inside h hc h₁ h₂ (.inr ⟨d, hd, hda⟩)

theorem lbufFree_rep (R : Rep m base hi (L₁ ++ (x, n) :: L₂) q) :
    ∃ m', lbufFree m (x + sizeofEntry) = some m' ∧ Rep m' base hi (L₁ ++ L₂) (q.erase x) ∧
      Keeps m m' (L₁ ++ (x, n) :: L₂) := by
  obtain ⟨m', hf, R', -, hout, -⟩ := lbufFree_takes R
  refine ⟨m', hf, R', fun c hc a h₁ h₂ => ?_⟩
  obtain ⟨he, hfree⟩ := inside_spared R.heap hc h₁ h₂
  exact hout a he hfree

/-! ## Handing a block out -/

theorem initListHead_outside {a p : Nat} (h : a < p ∨ p + 8 ≤ a) : initListHead m p a = m a := by
  unfold initListHead
  rw [Mem.set32_outside (by omega), Mem.set32_outside (by omega)]

theorem initListHead_links {p : Nat} (h : p < 4294967296) :
    next (initListHead m p) p = p ∧ prev (initListHead m p) p = p := by
  unfold initListHead
  exact ⟨(next_set32_prev (.inl rfl)).trans (next_set32_self h), prev_set32_self h⟩

theorem setEntry_outside {a p h len : Nat} (ha : a < p ∨ p + 20 ≤ a) : setEntry m p h len a = m a := by
  unfold setEntry setRef setState
  rw [initListHead_outside (by omega), Mem.write_outside (by rw [List.length_singleton]; omega),
    Mem.set32_outside (by omega), Mem.write_outside (by rw [List.length_singleton]; omega),
    Mem.set32_outside (by omega)]

theorem setEntry_words {p h len : Nat} (hh : h < 4294967296) (hl : len < 4294967296) :
    entryHead (setEntry m p h len) p = h ∧ entryLen (setEntry m p h len) p = len := by
  unfold setEntry setRef setState entryHead entryLen
  constructor
  · rw [Mem.get32_congr (fun i hi => initListHead_outside (by omega)),
      Mem.get32_write_outside (by rw [List.length_singleton]; omega), Mem.get32_set32_outside (by omega),
      Mem.get32_write_outside (by rw [List.length_singleton]; omega), Mem.get32_set32, u32_of_lt hh]
  · rw [Mem.get32_congr (fun i hi => initListHead_outside (by omega)),
      Mem.get32_write_outside (by rw [List.length_singleton]; omega), Mem.get32_set32, u32_of_lt hl]

theorem entryRef_setRef {p : Nat} {v : UInt8} : entryRef (setRef m p v) p = v := by
  simp [entryRef, setRef, Mem.write]

theorem setEntry_ref {p h len : Nat} : entryRef (setEntry m p h len) p = 0 := by
  unfold entryRef setEntry setRef
  rw [initListHead_outside (by omega)]
  exact entryRef_setRef

theorem blockLen_of_le {len : Nat} (h : len ≤ 4294967272) : blockLen len = (len + 23) / 4 * 4 := by
  unfold blockLen roundUp sizeofEntry u32
  split <;> omega

theorem blockLen_bounds {len : Nat} (h : len ≤ 4294967272) :
    len + 20 ≤ blockLen len ∧ 20 ≤ blockLen len ∧ 4 ∣ blockLen len := by
  rw [blockLen_of_le h]
  omega

/-- A header written where the free list has left room for it. -/
theorem setEntry_rep {p : Nat} (pos : 0 < base) (top : hi + 12 ≤ 4294967296)
    (heap : Heap 20 12 (base + 16) hi (L₁ ++ (p, n) :: L₂))
    (aligned : ∀ b ∈ frees (base + 16) hi (L₁ ++ (p, n) :: L₂) ++ (L₁ ++ (p, n) :: L₂), 4 ∣ b.1)
    (f : FreeList m (freeHead base) (frees (base + 16) hi (L₁ ++ (p, n) :: L₂))) (e : Entries m base (L₁ ++ L₂) q) :
    Rep (setEntry m p base n) base hi (L₁ ++ (p, n) :: L₂) q := by
  have hpm : (p, n) ∈ L₁ ++ (p, n) :: L₂ := by simp
  have hb := heap.bounds (List.mem_append_right (frees (base + 16) hi (L₁ ++ (p, n) :: L₂)) hpm)
  have hn := heap.len_block hpm
  dsimp only at hb hn
  have f' : FreeList (setEntry m p base n) (freeHead base) (frees (base + 16) hi (L₁ ++ (p, n) :: L₂)) := by
    refine f.frame (fun a ha => setEntry_outside ?_)
    rcases ha with ha | ⟨d, hd, ha⟩
    · unfold freeHead at ha
      omega
    · have hlen := heap.len_free (List.ne_nil_of_mem hpm) hd
      rcases heap.cross hd hpm with h | h <;> (dsimp only at h; omega)
  have e' : Entries (setEntry m p base n) base (L₁ ++ (p, n) :: L₂) q :=
    e.add (seats pos top heap) (setEntry_words (by omega) (by omega)) (initListHead_links (by omega))
      (fun a ha => setEntry_outside ha)
  exact ⟨pos, top, heap, aligned, f', e'⟩

theorem lbufAlloc_none {len : Nat} (R : Rep m base hi L q) (h : ∀ b ∈ frees (base + 16) hi L, b.2 < blockLen len) :
    lbufAlloc m base len = some (none, m) := by
  have hnone : (frees (base + 16) hi L).find? (fun b => decide (blockLen len ≤ b.2)) = none :=
    List.find?_eq_none.2 (fun b hb => by simpa using h b hb)
  unfold lbufAlloc
  dsimp only
  rw [R.free.find_len R.room, hnone]
  rfl

/-- **`lbuf_alloc` hands a block out**: the first free one that is long enough, or its first part.  It writes the header
of the block and those of the blocks that are free afterwards. -/
theorem lbufAlloc_takes {len p k : Nat} (R : Rep m base hi L q) (hlen : 20 ≤ blockLen len ∧ 4 ∣ blockLen len)
    (hfit : (frees (base + 16) hi L).find? (fun b => decide (blockLen len ≤ b.2)) = some (p, k)) :
    ∃ m' n L₁ L₂ A B, lbufAlloc m base len = some (some (p + sizeofEntry), m') ∧ L = L₁ ++ L₂ ∧
      n = (if blockLen len + 12 < k then blockLen len else k) ∧ frees (base + 16) hi L = A ++ (p, k) :: B ∧
      frees (base + 16) hi (L₁ ++ (p, n) :: L₂) =
        A ++ (if blockLen len + 12 < k then (p + blockLen len, k - blockLen len) :: B else B) ∧
      entryRef m' p = 0 ∧ Rep m' base hi (L₁ ++ (p, n) :: L₂) q ∧
      ∀ a, ¬ freeBytes (freeHead base) (frees (base + 16) hi (L₁ ++ (p, n) :: L₂)) a → (a < p ∨ p + 20 ≤ a) →
        m' a = m a := by
  have hpk : (p, k) ∈ frees (base + 16) hi L := List.mem_of_find?_eq_some hfit
  have hk : blockLen len ≤ k := by simpa using List.find?_some hfit
  have hpb := R.heap.bounds (List.mem_append_left L hpk)
  have htop := R.top
  dsimp only at hpb
  have hfr : frees (base + 16) hi L = gaps (base + 16) hi L := frees_eq_gaps (.inl (by omega))
  have hlaid : Laid 20 12 (base + 16) hi L := by
    by_cases hL : L = []
    · rw [hL]
      exact Or.inr (by omega)
    · exact R.heap.2 hL
  obtain ⟨A, B, hAB⟩ := List.append_of_mem hpk
  obtain ⟨L₁, L₂, rfl, rfl, rfl, h₁, h₂, hgap, hlow⟩ := gaps_split hlaid (hfr ▸ hAB)
  dsimp only at h₁ h₂ hgap hlow
  have hfind := R.free.find_len R.room (blockLen len)
  rw [hfit] at hfind
  have hpl : freeLen m p = k := R.free.lens _ hpk
  have hrow : Ring m (freeHead base) ((gaps (base + 16) p L₁).map Prod.fst ++ p :: (gaps (p + k) hi L₂).map Prod.fst) := by
    have := R.free.ring
    rwa [hAB, List.map_append, List.map_cons] at this
  obtain ⟨hprev, hnext⟩ := hrow.links
  unfold lbufAlloc
  dsimp only
  rw [hfind, Option.map_some]
  dsimp only
  rw [hpl]
  generalize hs : blockLen len = s at hlen hk ⊢
  obtain ⟨hs20, hs4⟩ := hlen
  rw [u32_of_lt (by unfold sizeofFree; omega)]
  unfold sizeofFree
  split
  · -- the rest of the block stays free
    rename_i hsplit
    have hlaid' : Laid 20 12 (base + 16) hi (L₁ ++ (p, s) :: L₂) := laid_append.2 ⟨h₁, hs20, hlow _ (by omega)⟩
    have hfr' : frees (base + 16) hi (L₁ ++ (p, s) :: L₂) =
        gaps (base + 16) p L₁ ++ (p + s, k - s) :: gaps (p + k) hi L₂ := by
      rw [frees_eq_gaps (.inl (by omega)), gaps_append, hgap _ (by dsimp only; omega)]
      congr 3
      omega
    rw [u32_of_lt (by omega)]
    generalize hm₁ : m.set32 (p + s + 8) (k - s) = m₁
    have hout₁ : ∀ a, (a < p + s + 8 ∨ p + s + 12 ≤ a) → m₁ a = m a := fun a ha => by
      rw [← hm₁]
      exact Mem.set32_outside (by omega)
    have hlen₁ : freeLen m₁ (p + s) = k - s := by
      rw [← hm₁]
      exact (Mem.get32_set32 m _ _).trans (u32_of_lt (by omega))
    -- the store of the new length is inside the block
    have f₁ : FreeList m₁ (freeHead base) (gaps (base + 16) p L₁ ++ (p, k) :: gaps (p + k) hi L₂) := by
      refine (hAB ▸ R.free).frame (fun a ha => hout₁ a ?_)
      rcases ha with ha | ⟨d, hd, ha⟩
      · unfold freeHead at ha
        omega
      · have hp := R.room.apart
        have hp' := R.heap.frees_pairwise (by decide)
        rw [hAB] at hp hp'
        rcases List.mem_append.1 hd with hd | hd
        · have := (List.pairwise_append.1 hp).2.2 d hd _ List.mem_cons_self
          dsimp only at this
          omega
        · rcases List.mem_cons.1 hd with rfl | hd
          · omega
          · have := (List.pairwise_cons.1 (List.pairwise_append.1 hp').2.1).1 d hd
            dsimp only at this
            omega
    have hrow₁ : Ring m₁ (freeHead base)
        ((gaps (base + 16) p L₁).map Prod.fst ++ p :: (gaps (p + k) hi L₂).map Prod.fst) := by
      have := f₁.ring
      rwa [List.map_append, List.map_cons] at this
    obtain ⟨hprev₁, hnext₁⟩ := hrow₁.links
    obtain ⟨hl, hr⟩ := Ring.parts (by rwa [List.append_cons] at hrow₁)
    have hroom := room R.pos R.top hlaid'.heap
    rw [hfr'] at hroom
    obtain ⟨f, hout⟩ := FreeList.add hl hr (fun c hc => by
      rcases mem_middle hc with rfl | hc
      · exact hlen₁
      · exact f₁.lens c (subset_middle hc)) hroom hprev₁ hnext₁
    rw [← hfr'] at f hout
    have e : Entries (listAdd m₁ (p + s) (prev m₁ p) (next m₁ p)) base (L₁ ++ L₂) q := R.used.frame (fun a ha => by
      refine (hout a (disjoint hlaid'.heap (entryBytes_mono subset_middle ha))).trans (hout₁ a ?_)
      rcases ha with ha | ⟨c, hc, ha⟩
      · omega
      · have := R.heap.len_block hc
        rcases R.heap.cross hpk hc with h | h <;> (dsimp only at h; omega))
    have haligned : ∀ b ∈ frees (base + 16) hi (L₁ ++ (p, s) :: L₂) ++ (L₁ ++ (p, s) :: L₂), 4 ∣ b.1 := by
      intro b hb
      rw [hfr'] at hb
      have hp4 : 4 ∣ p := R.aligned _ (List.mem_append_left _ hpk)
      rcases List.mem_append.1 hb with hb | hb
      · rcases mem_middle hb with rfl | hb
        · exact Nat.dvd_add hp4 hs4
        · exact R.aligned b (List.mem_append_left _ (hAB ▸ subset_middle hb))
      · rcases mem_middle hb with rfl | hb
        · exact hp4
        · exact R.aligned b (List.mem_append_right _ hb)
    have R' := setEntry_rep R.pos R.top hlaid'.heap haligned f e
    refine ⟨_, s, L₁, L₂, _, _, rfl, rfl, rfl, hAB, hfr', setEntry_ref, R', fun a ha hpa => ?_⟩
    refine (setEntry_outside hpa).trans ((hout a ha).trans (hout₁ a ?_))
    by_contra hcon
    rw [hfr'] at ha
    exact ha (.inr ⟨(p + s, k - s), by simp, by dsimp only; omega⟩)
  · -- what would stay is too short: the whole block is handed out
    rename_i hwhole
    have hlaid' : Laid 20 12 (base + 16) hi (L₁ ++ (p, k) :: L₂) := laid_append.2 ⟨h₁, by omega, h₂⟩
    have hfr' : frees (base + 16) hi (L₁ ++ (p, k) :: L₂) = gaps (base + 16) p L₁ ++ gaps (p + k) hi L₂ := by
      rw [frees_eq_gaps (.inl (by omega)), gaps_append]
    have hroom := room R.pos R.top hlaid'.heap
    rw [hfr'] at hroom
    obtain ⟨hl, hr⟩ := Ring.parts (by rwa [List.append_cons] at hrow)
    obtain ⟨f, hout⟩ := FreeList.remove hl hr (fun c hc => R.free.lens c (by
      rw [hAB]
      exact subset_middle hc)) hroom hprev hnext
    rw [← hfr'] at f hout
    have e : Entries (listDelEntry m p) base (L₁ ++ L₂) q := R.used.frame (fun a ha =>
      hout a (disjoint hlaid'.heap (entryBytes_mono subset_middle ha)))
    have haligned : ∀ b ∈ frees (base + 16) hi (L₁ ++ (p, k) :: L₂) ++ (L₁ ++ (p, k) :: L₂), 4 ∣ b.1 := by
      intro b hb
      rw [hfr'] at hb
      rcases List.mem_append.1 hb with hb | hb
      · exact R.aligned b (List.mem_append_left _ (hAB ▸ subset_middle hb))
      · rcases mem_middle hb with rfl | hb
        · exact R.aligned _ (List.mem_append_left _ hpk)
        · exact R.aligned b (List.mem_append_right _ hb)
    have R' := setEntry_rep R.pos R.top hlaid'.heap haligned f e
    refine ⟨_, k, L₁, L₂, _, _, rfl, rfl, rfl, hAB, hfr', setEntry_ref, R', fun a ha hpa => ?_⟩
    exact (setEntry_outside hpa).trans (hout a ha)

theorem lbufAlloc_rep {len p k : Nat} (R : Rep m base hi L q) (hlen : 20 ≤ blockLen len ∧ 4 ∣ blockLen len)
    (hfit : (frees (base + 16) hi L).find? (fun b => decide (blockLen len ≤ b.2)) = some (p, k)) :
    ∃ m' n L₁ L₂, lbufAlloc m base len = some (some (p + sizeofEntry), m') ∧ L = L₁ ++ L₂ ∧ blockLen len ≤ n ∧
      (blockLen len + 12 < k → n = blockLen len) ∧ entryRef m' p = 0 ∧ Rep m' base hi (L₁ ++ (p, n) :: L₂) q ∧
      Keeps m m' L := by
  have hpk : (p, k) ∈ frees (base + 16) hi L := List.mem_of_find?_eq_some hfit
  have hk : blockLen len ≤ k := by simpa using List.find?_some hfit
  obtain ⟨m', n, L₁, L₂, A, B, ha, rfl, hn, -, -, href, R', hout⟩ := lbufAlloc_takes R hlen hfit
  have hle : blockLen len ≤ n ∧ n ≤ k := by
    rw [hn]
    split <;> omega
  refine ⟨m', n, L₁, L₂, ha, rfl, hle.1, fun h => hn.trans (if_pos h), href, R', fun c hc a h₁ h₂ => hout a ?_ ?_⟩
  · exact notMem_freeBytes_inside R'.heap (subset_middle hc) h₁ h₂
  · rcases R.heap.cross hpk hc with h | h <;> (dsimp only at h; omega)

/-! ## Writes outside the headers -/

/-- The bytes that are read lie in the buffer. -/
theorem Rep.bytes (R : Rep m base hi L q) {a : Nat}
    (ha : freeBytes (freeHead base) (frees (base + 16) hi L) a ∨ entryBytes base L a) : base ≤ a ∧ a < hi + 12 := by
  have hle := R.heap.1
  rcases ha with (ha | ⟨b, hb, ha⟩) | (ha | ⟨b, hb, ha⟩)
  · unfold freeHead at ha
    omega
  · have := R.heap.bounds (List.mem_append_left L hb)
    omega
  · omega
  · have := R.bounds hb
    omega

/-- **Nothing outside the buffer is written.** -/
theorem lbufFree_outside (R : Rep m base hi (L₁ ++ (x, n) :: L₂) q) (hf : lbufFree m (x + sizeofEntry) = some m')
    {a : Nat} (ha : a < base ∨ hi + 12 ≤ a) : m' a = m a := by
  obtain ⟨m₁, hf₁, -, -, hout, -⟩ := lbufFree_takes R
  obtain rfl := Option.some.inj (hf.symm.trans hf₁)
  have hb := R.bounds (b := (x, n)) (by simp)
  dsimp only at hb
  refine hout a (fun he => ?_) ?_
  · have := R.bytes (.inr (entryBytes_mono subset_middle he))
    omega
  · rintro (hf | ⟨d, hd, hda⟩)
    · have := R.bytes (.inl (.inl hf))
      omega
    · rcases List.mem_cons.1 hd with rfl | hd
      · dsimp only at hda
        omega
      · have := R.bytes (.inl (.inr ⟨d, hd, hda⟩))
        omega

theorem lbufAlloc_outside {len p : Nat} (R : Rep m base hi L q) (hlen : 20 ≤ blockLen len ∧ 4 ∣ blockLen len)
    (hp : lbufAlloc m base len = some (some p, m')) {a : Nat} (ha : a < base ∨ hi + 12 ≤ a) : m' a = m a := by
  cases hf : (frees (base + 16) hi L).find? (fun b => decide (blockLen len ≤ b.2)) with
  | none =>
    rw [lbufAlloc_none R (fun b hb => by simpa using List.find?_eq_none.1 hf b hb)] at hp
    cases hp
  | some b =>
    obtain ⟨m₁, n, L₁, L₂, A, B, hp₁, -, -, -, -, -, R₁, hout⟩ := lbufAlloc_takes R hlen hf
    obtain ⟨-, rfl⟩ := Prod.mk.inj (Option.some.inj (hp.symm.trans hp₁))
    have hb := R₁.bounds (b := (b.1, n)) (by simp)
    dsimp only at hb
    refine hout a (fun hf => ?_) (by omega)
    have := R₁.bytes (.inl hf)
    omega

theorem Rep.frame (R : Rep m base hi L q) (hm : ∀ a, freeBytes (freeHead base) (frees (base + 16) hi L) a ∨
    entryBytes base L a → m' a = m a) : Rep m' base hi L q :=
  ⟨R.pos, R.top, R.heap, R.aligned, R.free.frame (fun a ha => hm a (.inl ha)),
    R.used.frame (fun a ha => hm a (.inr ha))⟩

theorem Rep.of_inside (R : Rep m base hi L q) (hb : b ∈ L) (hm : ∀ a, (a < b.1 + 16 ∨ b.1 + b.2 ≤ a) → m' a = m a) :
    Rep m' base hi L q := R.frame (fun a ha => hm a (by
  by_contra hcon
  have h₁ : b.1 + 16 ≤ a := by omega
  have h₂ : a < b.1 + b.2 := by omega
  exact ha.elim (notMem_freeBytes_inside R.heap hb h₁ h₂) (notMem_entryBytes_inside R.heap hb h₁ h₂)))

/-! ## The queue -/

theorem Rep.nodes (R : Rep m base hi L q) : Links.nodes m base = some q := by
  have hs := R.seats.spread R.used.queued R.used.nodup
  refine nodes_ring R.used.queue (List.nodup_cons.1 hs.nodup).1 (length_lt_rounds hs.nodup (fun x hx => ?_))
  exact (R.seats.addr (List.cons_subset_cons base R.used.queued hx)).2

theorem Rep.find (R : Rep m base hi L q) (P : Nat → Bool) : listFind m base P = some (q.find? P) :=
  firstFrom_nodes R.nodes

/-- The state and the count of a block that is pushed are written first. -/
theorem lbufPush_counts (R : Rep m base hi L q) (hx : (x, n) ∈ L) :
    ∃ m₂, lbufPush m (x + sizeofEntry) = (if entryRef m x = 0 then listAddTail m₂ x base else m₂) ∧
      Rep m₂ base hi L q ∧ entryRef m₂ x = entryRef m x + 1 ∧ ∀ a, (a < x + 16 ∨ x + 18 ≤ a) → m₂ a = m a := by
  have hb := R.bounds hx
  dsimp only at hb
  have hout₁ : ∀ a, a ≠ x + 16 → setState m x 0 a = m a := fun a ha =>
    Mem.write_outside (by rw [List.length_singleton]; omega)
  have href : entryRef (setState m x 0) x = entryRef m x := hout₁ _ (by omega)
  generalize hm₂ : setRef (setState m x 0) x (entryRef m x + 1) = m₂
  have hout₂ : ∀ a, (a < x + 16 ∨ x + 18 ≤ a) → m₂ a = m a := fun a ha => by
    rw [← hm₂]
    exact (Mem.write_outside (by rw [List.length_singleton]; omega)).trans (hout₁ a (by omega))
  have R₂ : Rep m₂ base hi L q := R.of_inside hx (fun a ha => hout₂ a (by dsimp only at ha; omega))
  have hhead : entryHead m₂ x = base := (R₂.used.words _ hx).1
  refine ⟨m₂, ?_, R₂, ?_, hout₂⟩
  · unfold lbufPush
    rw [getEntry_add (by omega)]
    dsimp only
    rw [href, hm₂, hhead]
  · rw [← hm₂]
    exact entryRef_setRef

/-- **`lbuf_push`** queues a block whose count is 0, and else only counts. -/
theorem lbufPush_rep (R : Rep m base hi L q) (hx : (x, n) ∈ L) :
    (entryRef m x = 0 → x ∉ q → Rep (lbufPush m (x + sizeofEntry)) base hi L (q ++ [x])) ∧
      (entryRef m x ≠ 0 → Rep (lbufPush m (x + sizeofEntry)) base hi L q) := by
  obtain ⟨m₂, hpush, R₂, -⟩ := lbufPush_counts R hx
  constructor
  · intro h0 hq
    obtain ⟨e, hout⟩ := R₂.used.push R.seats hx hq
    rw [hpush, if_pos h0]
    exact ⟨R.pos, R.top, R.heap, R.aligned, R₂.free.frame (fun a ha => hout a (fun he => disjoint R.heap he ha)), e⟩
  · intro h0
    rw [hpush, if_neg h0]
    exact R₂

/-- **`lbuf_pop`** gives the first message of the queue that is new. -/
theorem lbufPop_some {p : Nat} (R : Rep m base hi L q) (h : q.find? (fun p => entryState m p == 0) = some p) :
    lbufPop m base = some (some (p + sizeofEntry), setState m p 1) := by
  unfold lbufPop
  rw [R.find, h]
  rfl

theorem lbufPop_none (R : Rep m base hi L q) (h : q.find? (fun p => entryState m p == 0) = none) :
    lbufPop m base = some (none, m) := by
  unfold lbufPop
  rw [R.find, h]
  rfl

theorem setState_rep {v : UInt8} (R : Rep m base hi L q) (hx : x ∈ L.map Prod.fst) :
    Rep (setState m x v) base hi L q := by
  obtain ⟨b, hb, rfl⟩ := List.mem_map.1 hx
  have := R.bounds hb
  exact R.of_inside hb (fun a ha => Mem.write_outside (by rw [List.length_singleton]; omega))

theorem lbufIncRef_rep (R : Rep m base hi L q) (hx : (x, n) ∈ L) : Rep (lbufIncRef m (x + sizeofEntry)) base hi L q := by
  have hb := R.bounds hx
  dsimp only at hb
  unfold lbufIncRef
  rw [getEntry_add (by omega)]
  exact R.of_inside hx (fun a ha => Mem.write_outside (by rw [List.length_singleton]; dsimp only at ha; omega))

/-! ## Clearing -/

def freeAll (m : Mem) (lbufs : List Nat) : Option Mem := lbufs.foldlM lbufFree m

/-- **`lbuf_free`**, by the address of the block. -/
theorem lbufFree_mem (R : Rep m base hi L q) (hx : x ∈ L.map Prod.fst) :
    ∃ m', lbufFree m (x + sizeofEntry) = some m' ∧ Rep m' base hi (L.filter (fun b => b.1 ≠ x)) (q.erase x) ∧
      Keeps m m' L := by
  obtain ⟨⟨y, n⟩, hb, hbx⟩ := List.mem_map.1 hx
  dsimp only at hbx
  subst hbx
  obtain ⟨L₁, L₂, rfl⟩ := List.append_of_mem hb
  have hfilter : (L₁ ++ (y, n) :: L₂).filter (fun b => b.1 ≠ y) = L₁ ++ L₂ := by
    have hkeep : ∀ c ∈ L₁ ++ L₂, decide (c.1 ≠ y) = true := fun c hc => decide_eq_true (fun heq => by
      have h₁ := R.heap.len_block hb
      have h₂ := R.heap.len_block (subset_middle hc)
      rcases R.around hc with h | h <;> (dsimp only at h h₁; omega))
    rw [List.filter_append, List.filter_cons, if_neg (by simp), ← List.filter_append]
    exact List.filter_eq_self.2 hkeep
  rw [hfilter]
  exact lbufFree_rep R

theorem filter_notMem_cons {y : Nat} {ys : List Nat} :
    (L.filter (fun b => b.1 ≠ y)).filter (fun b => b.1 ∉ ys) = L.filter (fun b => b.1 ∉ y :: ys) := by
  rw [List.filter_filter]
  refine List.filter_congr (fun b _ => ?_)
  simp only [List.mem_cons, not_or, ← Bool.decide_and]
  exact decide_eq_decide.2 and_comm

/-- **`lbuf_clear`** frees the messages one after the other. -/
theorem clearFrom_rep : ∀ {q : List Nat} {L : List Block} {m : Mem} {k : Nat}, Rep m base hi L q → q.length < k →
    ∃ m', clearFrom base k m (q.head?.getD base) (next m (q.head?.getD base)) = some m' ∧
      freeAll m (q.map (· + sizeofEntry)) = some m' ∧ Rep m' base hi (L.filter (fun b => b.1 ∉ q)) [] ∧
      Keeps m m' (L.filter (fun b => b.1 ∉ q))
  | _, _, _, 0, _, hk             => absurd hk (Nat.not_lt_zero _)
  | [], L, m, k + 1, R, _         => by
    have hall : L.filter (fun b => b.1 ∉ ([] : List Nat)) = L := List.filter_eq_self.2 (fun b _ => by simp)
    rw [hall]
    exact ⟨m, if_pos rfl, rfl, R, fun _ _ _ _ _ => rfl⟩
  | y :: q, L, m, k + 1, R, hk => by
    have hsp := R.seats.spread R.used.queued R.used.nodup
    have hy : y ≠ base := fun h => (List.nodup_cons.1 hsp.nodup).1 (h ▸ List.mem_cons_self)
    obtain ⟨m₁, hf, R₁, hkeep₁⟩ := lbufFree_mem R (R.used.queued List.mem_cons_self)
    rw [List.erase_cons_head] at R₁
    obtain ⟨m', hc, hall, R', hkeep⟩ := clearFrom_rep R₁ (Nat.lt_of_succ_lt_succ hk)
    have hnext : next m y = q.head?.getD base := (@Ring.links m base y [] q R.used.queue).2
    rw [filter_notMem_cons] at R' hkeep
    refine ⟨m', ?_, ?_, R', Keeps.trans (fun b hb => hkeep₁ b ?_) hkeep⟩
    · rw [List.head?_cons, Option.getD_some, clearFrom, if_neg hy, hf, hnext]
      exact hc
    · rw [List.map_cons, freeAll, List.foldlM_cons, hf]
      exact hall
    · exact (List.mem_filter.1 hb).1

theorem lbufClear_rep (R : Rep m base hi L q) :
    ∃ m', lbufClear m base = some m' ∧ freeAll m (q.map (· + sizeofEntry)) = some m' ∧
      Rep m' base hi (L.filter (fun b => b.1 ∉ q)) [] ∧ Keeps m m' (L.filter (fun b => b.1 ∉ q)) := by
  have hsp := R.seats.spread R.used.queued R.used.nodup
  unfold lbufClear
  rw [R.used.queue.first]
  exact clearFrom_rep R (length_lt_rounds hsp.nodup (fun x hx =>
    (R.seats.addr (List.cons_subset_cons base R.used.queued hx)).2))

/-! ## Shrinking a block -/

theorem roundUp_dvd (k : Nat) : 4 ∣ roundUp k := by
  unfold roundUp u32
  split <;> omega

/-- The header of the block that is cut off. -/
def setRest (m : Mem) (new head len : Nat) : Mem :=
  initListHead (setRef ((m.set32 (new + 8) head).set32 (new + 12) len) new 0) new

theorem setRest_outside {a y h len : Nat} (ha : a < y ∨ y + 20 ≤ a) : setRest m y h len a = m a := by
  unfold setRest setRef
  rw [initListHead_outside (by omega), Mem.write_outside (by rw [List.length_singleton]; omega),
    Mem.set32_outside (by omega), Mem.set32_outside (by omega)]

theorem setRest_words {y h len : Nat} (hh : h < 4294967296) (hl : len < 4294967296) :
    entryHead (setRest m y h len) y = h ∧ entryLen (setRest m y h len) y = len := by
  unfold setRest setRef entryHead entryLen
  constructor
  · rw [Mem.get32_congr (fun i hi => initListHead_outside (by omega)),
      Mem.get32_write_outside (by rw [List.length_singleton]; omega), Mem.get32_set32_outside (by omega),
      Mem.get32_set32, u32_of_lt hh]
  · rw [Mem.get32_congr (fun i hi => initListHead_outside (by omega)),
      Mem.get32_write_outside (by rw [List.length_singleton]; omega), Mem.get32_set32, u32_of_lt hl]

/-- **A block cut in two**, and the second part given back. -/
theorem cut_rep {s : Nat} (R : Rep m base hi (L₁ ++ (x, n) :: L₂) q) (hs4 : 4 ∣ s) (hcut : s + 20 + 20 < n) :
    ∃ m', lbufFree ((setRest m (x + sizeofEntry + s) base (n - sizeofEntry - s)).set32 (x + 12) (sizeofEntry + s))
        (x + sizeofEntry + s + sizeofEntry) = some m' ∧
      Rep m' base hi (L₁ ++ (x, 20 + s) :: L₂) q ∧ Keeps m m' (L₁ ++ (x, 20 + s) :: L₂) := by
  have hxm : (x, n) ∈ L₁ ++ (x, n) :: L₂ := by simp
  obtain ⟨hbx, hn, hxhi, htop⟩ := R.bounds hxm
  dsimp only at hbx hn hxhi
  have hy : x + sizeofEntry + s = x + (20 + s) := by unfold sizeofEntry; omega
  have hk : n - sizeofEntry - s = n - (20 + s) := by unfold sizeofEntry; omega
  have hc : sizeofEntry + s = 20 + s := rfl
  rw [hy, hk, hc]
  generalize hcdef : 20 + s = c at *
  obtain ⟨h₁, -, h₂⟩ := laid_append.1 (R.heap.2 (List.ne_nil_of_mem hxm))
  have hend : x + c + (n - c) = x + n := by omega
  have hlaid : Laid 20 12 (base + 16) hi ((L₁ ++ [(x, c)]) ++ (x + c, n - c) :: L₂) := by
    rw [List.append_assoc]
    exact laid_append.2 ⟨h₁, by dsimp only; omega, Or.inl rfl, by dsimp only; omega, by dsimp only; rwa [hend]⟩
  have hfr : frees (base + 16) hi ((L₁ ++ [(x, c)]) ++ (x + c, n - c) :: L₂) =
      frees (base + 16) hi (L₁ ++ (x, n) :: L₂) := by
    rw [frees_eq_gaps (.inl (by omega)), frees_eq_gaps (.inl (by omega)), List.append_assoc, List.singleton_append,
      gaps_append, gaps_append, gaps, gap, if_neg (Nat.lt_irrefl _), hend]
    rfl
  generalize hm₃ : setRest m (x + c) base (n - c) = m₃
  have hout₃ : ∀ a, (a < x + c ∨ x + c + 20 ≤ a) → m₃ a = m a := fun a ha => by
    rw [← hm₃]
    exact setRest_outside ha
  obtain ⟨hw₁, hw₂⟩ : entryHead m₃ (x + c) = base ∧ entryLen m₃ (x + c) = n - c := by
    rw [← hm₃]
    exact setRest_words (by omega) (by omega)
  obtain ⟨hl₁, hl₂⟩ : next m₃ (x + c) = x + c ∧ prev m₃ (x + c) = x + c := by
    rw [← hm₃]
    exact initListHead_links (by omega)
  have e₃ : Entries m₃ base (L₁ ++ (x, n) :: L₂) q := R.used.frame (fun a ha => hout₃ a (by
    by_contra hcon
    exact notMem_entryBytes_inside R.heap hxm (by dsimp only; omega) (by dsimp only; omega) ha))
  obtain ⟨e₄, -⟩ := e₃.set_len (k := c) R.seats (by omega)
  generalize hm₄ : m₃.set32 (x + 12) c = m₄ at e₄ ⊢
  have hout₄ : ∀ a, (a < x + 12 ∨ x + 16 ≤ a) → m₄ a = m₃ a := fun a ha => by
    rw [← hm₄]
    exact Mem.set32_outside (by omega)
  have hword : ∀ i, i < 16 → m₄ (x + c + i) = m₃ (x + c + i) := fun i hi => hout₄ _ (by omega)
  have e₅ : Entries m₄ base ((L₁ ++ [(x, c)]) ++ (x + c, n - c) :: L₂) q := by
    refine Entries.add (m := m₄) ?_ (Lbuf.seats R.pos R.top hlaid.heap) ⟨?_, ?_⟩ ⟨?_, ?_⟩ (fun _ _ => rfl)
    · rwa [List.append_assoc]
    · exact (Mem.get32_congr (fun i hi => by rw [Nat.add_assoc]; exact hword _ (by omega))).trans hw₁
    · exact (Mem.get32_congr (fun i hi => by rw [Nat.add_assoc]; exact hword _ (by omega))).trans hw₂
    · exact (Mem.get32_congr (fun i hi => hword _ (by omega))).trans hl₁
    · exact (Mem.get32_congr (fun i hi => by rw [Nat.add_assoc]; exact hword _ (by omega))).trans hl₂
  have hsame : ∀ a, (a < x + 12 ∨ (x + 16 ≤ a ∧ a < x + c) ∨ x + n ≤ a) → m₄ a = m a := fun a ha =>
    (hout₄ a (by omega)).trans (hout₃ a (by omega))
  have f₄ : FreeList m₄ (freeHead base) (frees (base + 16) hi (L₁ ++ (x, n) :: L₂)) := by
    refine R.free.frame (fun a ha => hsame a ?_)
    rcases ha with ha | ⟨d, hd, ha⟩
    · unfold freeHead at ha
      omega
    · have := R.heap.len_free (List.ne_nil_of_mem hxm) hd
      rcases R.heap.cross hd hxm with h | h <;> (dsimp only at h; omega)
  have R₄ : Rep m₄ base hi ((L₁ ++ [(x, c)]) ++ (x + c, n - c) :: L₂) q := by
    refine ⟨R.pos, R.top, hlaid.heap, fun b hb => ?_, hfr ▸ f₄, e₅⟩
    have hx4 : 4 ∣ x := R.aligned _ (List.mem_append_right _ hxm)
    rw [hfr] at hb
    rcases List.mem_append.1 hb with hb | hb
    · exact R.aligned b (List.mem_append_left _ hb)
    · rcases mem_middle hb with rfl | hb
      · exact Nat.dvd_add hx4 (hcdef ▸ Nat.dvd_add (by decide) hs4)
      · rw [List.append_assoc] at hb
        rcases mem_middle hb with rfl | hb
        · exact hx4
        · exact R.aligned b (List.mem_append_right _ (subset_middle hb))
  obtain ⟨m', hf, R', hkeep⟩ := lbufFree_rep R₄
  have hnq : x + c ∉ q := fun hq => by
    obtain ⟨d, hd, hdx⟩ := List.mem_map.1 (R.used.queued hq)
    rcases mem_middle hd with rfl | hd
    · dsimp only at hdx
      omega
    · have := R.heap.len_block (subset_middle hd)
      rcases R.around hd with h | h <;> (dsimp only at h; omega)
  rw [List.erase_of_not_mem hnq, List.append_assoc] at R'
  refine ⟨m', hf, R', Keeps.trans (fun d hd a ha₁ ha₂ => hsame a ?_) (fun d hd => hkeep d (subset_middle ?_))⟩
  · rcases mem_middle hd with rfl | hd
    · dsimp only at ha₁ ha₂
      omega
    · rcases R.around hd with h | h <;> (dsimp only at h; omega)
  · rw [List.append_assoc]
    exact hd

/-- **`lbuf_realloc`** cuts a block and gives the rest back, or leaves it as it is. -/
theorem lbufRealloc_rep {size : Nat} (R : Rep m base hi (L₁ ++ (x, n) :: L₂) q) (hsize : roundUp size < n) :
    ∃ m' r k, lbufRealloc m (x + sizeofEntry) size = some (r, m') ∧ (r = none ∨ r = some (x + sizeofEntry)) ∧
      Rep m' base hi (L₁ ++ (x, k) :: L₂) q ∧ (r = none → m' = m ∧ k = n) ∧ (r ≠ none → roundUp size + 20 ≤ k) ∧
      k ≤ n ∧ Keeps m m' (L₁ ++ (x, k) :: L₂) := by
  have hxm : (x, n) ∈ L₁ ++ (x, n) :: L₂ := by simp
  obtain ⟨hbx, hn, hxhi, htop⟩ := R.bounds hxm
  dsimp only at hbx hn hxhi
  obtain ⟨hhead, hlen⟩ := R.used.words _ hxm
  dsimp only at hhead hlen
  have hs4 := roundUp_dvd size
  generalize hs : roundUp size = s at hsize hs4
  have hroom : u32 (n + (4294967296 - sizeofEntry)) = n - 20 := by
    unfold u32 sizeofEntry
    omega
  unfold lbufRealloc
  rw [getEntry_add (by omega)]
  dsimp only
  rw [hs, hlen, hroom]
  split
  · exact ⟨m, none, n, rfl, .inl rfl, R, fun _ => ⟨rfl, rfl⟩, fun h => absurd rfl h, Nat.le_refl n,
      fun _ _ _ _ _ => rfl⟩
  rename_i hfits
  rw [u32_of_lt (by unfold sizeofEntry; omega)]
  split
  · rename_i hcut
    unfold sizeofEntry at hcut
    obtain ⟨m', hf, R', hkeep⟩ := cut_rep R hs4 hcut
    rw [hhead]
    rw [u32_of_lt (by unfold sizeofEntry; omega)]
    refine ⟨m', some (x + sizeofEntry), 20 + s, ?_, .inr rfl, R', (fun h => by cases h), fun _ => by omega, by omega,
      hkeep⟩
    have hlen₁ : entryLen (m.set32 (x + sizeofEntry + s + 8) base) x = n :=
      (Mem.get32_set32_outside (by unfold sizeofEntry; omega)).trans hlen
    unfold setRest at hf
    rw [hlen₁, hf]
    rfl
  · exact ⟨m, some (x + sizeofEntry), n, rfl, .inr rfl, R, (fun h => by cases h), fun _ => by omega, Nat.le_refl n,
      fun _ _ _ _ _ => rfl⟩

/-! ## A fresh buffer -/

/-- The head of a buffer, behind the bytes that align it. -/
def alignedHead (buf : Nat) : Nat := buf + if buf % 4 ≠ 0 then 4 - buf % 4 else 0

theorem alignedHead_bounds (buf : Nat) : buf ≤ alignedHead buf ∧ alignedHead buf < buf + 4 ∧ 4 ∣ alignedHead buf := by
  unfold alignedHead
  split <;> omega

/-- **`lbuf_init`** leaves one free block. -/
theorem lbufInit_rep {buf bufLen : Nat} (h0 : 0 < buf) (hlen : 31 ≤ bufLen) (htop : buf + bufLen ≤ 4294967296) :
    ∃ m', lbufInit m buf bufLen = (m', alignedHead buf) ∧ Rep m' (alignedHead buf) (buf + bufLen - 12) [] [] := by
  obtain ⟨hle, hlt, h4⟩ := alignedHead_bounds buf
  have hlen' : u32 (u32 (bufLen + 4294967296 - (if buf % 4 ≠ 0 then 4 - buf % 4 else 0)) + 4294967296 - sizeofHead -
      sizeofFree) = buf + bufLen - 12 - (alignedHead buf + 16) := by
    unfold alignedHead u32 sizeofHead sizeofFree at *
    split <;> omega
  have hbase : buf + (if buf % 4 ≠ 0 then 4 - buf % 4 else 0) = alignedHead buf := rfl
  unfold lbufInit
  dsimp only
  rw [hlen', hbase]
  generalize alignedHead buf = base at *
  generalize hN : buf + bufLen - 12 - (base + 16) = N
  generalize hm₁ : m.set32 (base + sizeofHead + 8) N = m₁
  have hfr : frees (base + 16) (buf + bufLen - 12) [] = [(base + 16, N)] := by rw [frees, if_pos rfl, hN]
  have hheap : Heap 20 12 (base + 16) (buf + bufLen - 12) [] := ⟨by omega, fun h => absurd rfl h⟩
  have hroom := room (by omega) (by omega) hheap
  rw [hfr] at hroom
  generalize hm₃ : initListHead (initListHead m₁ base) (freeHead base) = m₃
  have hhead : next m₃ (freeHead base) = freeHead base ∧ prev m₃ (freeHead base) = freeHead base := by
    rw [← hm₃]
    exact initListHead_links (by unfold freeHead; omega)
  have hqueue : next m₃ base = base ∧ prev m₃ base = base := by
    obtain ⟨h₁, h₂⟩ : next (initListHead m₁ base) base = base ∧ prev (initListHead m₁ base) base = base :=
      initListHead_links (by omega)
    rw [← hm₃]
    unfold freeHead
    exact ⟨(Mem.get32_congr (fun i hi => initListHead_outside (by omega))).trans h₁,
      (Mem.get32_congr (fun i hi => initListHead_outside (by omega))).trans h₂⟩
  have hfree : freeLen m₃ (base + 16) = N := by
    have h₁ : freeLen m₁ (base + 16) = N := by
      rw [← hm₁]
      exact (Mem.get32_set32 m _ _).trans (u32_of_lt (by omega))
    rw [← h₁, ← hm₃]
    unfold freeHead
    exact Mem.get32_congr (fun i hi => (initListHead_outside (by omega)).trans (initListHead_outside (by omega)))
  obtain ⟨f, hout⟩ := FreeList.add (m := m₃) (h := freeHead base) (A := []) (B := []) (b := (base + 16, N))
    (.singleton _) (.singleton _) (fun c hc => by rw [List.mem_singleton.1 hc]; exact hfree) hroom hhead.2 rfl
  refine ⟨_, rfl, by omega, by omega, hheap, fun b hb => ?_, hfr ▸ f, ?_⟩
  · rw [hfr] at hb
    rw [List.mem_singleton.1 hb]
    exact Nat.dvd_add h4 (by decide)
  · refine ⟨(fun b hb => by cases hb), ring_nil.2 ?_, List.nodup_nil, List.nil_subset _, (fun b hb => by cases hb)⟩
    have hfar : ∀ i, i < 8 → listAddTail m₃ (base + sizeofHead) (freeHead base) (base + i) = m₃ (base + i) :=
      fun i hi => hout _ (by
        rintro (h | ⟨b, hb, h⟩)
        · unfold freeHead at h
          omega
        · rw [List.mem_singleton.1 hb] at h
          dsimp only at h
          omega)
    exact ⟨(Mem.get32_congr (fun i hi => hfar i (by omega))).trans hqueue.1,
      (Mem.get32_congr (fun i hi => by rw [Nat.add_assoc]; exact hfar (4 + i) (by omega))).trans hqueue.2⟩

theorem lbufInit_outside {buf bufLen a : Nat} (hlen : 31 ≤ bufLen) (htop : buf + bufLen ≤ 4294967296)
    (ha : a < buf ∨ buf + bufLen ≤ a) : (lbufInit m buf bufLen).1 a = m a := by
  obtain ⟨hle, hlt, -⟩ := alignedHead_bounds buf
  have hbase : buf + (if buf % 4 ≠ 0 then 4 - buf % 4 else 0) = alignedHead buf := rfl
  unfold lbufInit
  dsimp only
  rw [hbase]
  generalize alignedHead buf = base at *
  have hfar : a < base ∨ base + 31 ≤ a + 3 := by omega
  unfold listAddTail freeHead sizeofHead
  rw [(initListHead_links (by omega)).2, listAdd_outside, initListHead_outside, initListHead_outside,
    Mem.set32_outside] <;> omega

end Rep

end Lbuf
end OtaLoader
