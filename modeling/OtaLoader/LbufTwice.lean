import OtaLoader.LbufQueue
/-!
# LbufTwice — blocks freed once more

`lbuf_free` unlinks a block by the links of its header, copies its length and only then looks for a free block that
covers it, in the list of the head that the header names.  A free header has its length in that place, so the check is
reached in the list of the buffer only when the old header was written anew.
-/
namespace OtaLoader
namespace Lbuf

open Links Gaps

/-- The memory in which `lbuf_free` looks for a free block that covers this one. -/
def unlinked (m : Mem) (x : Nat) : Mem := (listDelEntry m x).set32 (x + 8) (entryLen (listDelEntry m x) x)

/-- The call leaves at the check for overlap: the free block `b` covers the block. -/
def Overlaps (m : Mem) (x b : Nat) : Prop :=
  listFind (unlinked m x) (freeHead (entryHead m x)) (fun p => covers (unlinked m x) x p || decide (x < p)) =
    some (some b) ∧ covers (unlinked m x) x b = true

structure Harmless (base : Nat) (s : State) (lbuf : Nat) : Prop where
  exit : ∃ b, Overlaps s.mem (getEntry lbuf) b
  same : ∃ m', lbufFree s.mem lbuf = some m' ∧ freeList m' base = freeList s.mem base ∧
    queueList m' base = queueList s.mem base ∧ ∀ p ∈ s.live, ∀ a, Within (blockOf s.mem p) a → m' a = s.mem a

/-- The bytes of the heads, of the headers of free blocks, and of the blocks that clients hold. -/
def Owned (base : Nat) (s : State) (F : List Block) (a : Nat) : Prop :=
  Within (base, sizeofHead) a ∨ (∃ b ∈ F, Within (b.1, sizeofFree) a) ∨ ∃ p ∈ s.live, Within (blockOf s.mem p) a

/-- A word stored at `a` changes none of these bytes. -/
def Spares (base : Nat) (s : State) (F : List Block) (a v : Nat) : Prop :=
  ∀ y, Owned base s F y → s.mem.set32 a v y = s.mem y

/-- The old header names the buffer, lies inside a free block, and neither its links nor the length that is copied reach
what belongs to others. -/
structure Intact (base : Nat) (s : State) (F : List Block) (x : Nat) : Prop where
  named  : entryHead s.mem x = base
  inside : ∃ b ∈ F, b.1 < x ∧ x < b.1 + b.2
  links  : prev s.mem x = 0 ∨ next s.mem x = 0 ∨
    (Spares base s F (next s.mem x + 4) (prev s.mem x) ∧ Spares base s F (prev s.mem x) (next s.mem x))
  length : ∀ i, i < 4 → ¬ Owned base s F (x + 8 + i)

section Twice

variable {m : Mem} {base stop x : Nat} {s : State} {F : List Block} {L : List Block} {q : List Nat}

theorem lbufFree_overlaps {lbuf b : Nat} (h0 : lbuf ≠ 0) (h : Overlaps m (getEntry lbuf) b) :
    lbufFree m lbuf = some (unlinked m (getEntry lbuf)) := by
  obtain ⟨hf, hc⟩ := h
  unfold unlinked at hf hc ⊢
  rw [lbufFree, if_neg h0]
  dsimp only
  rw [hf]
  exact if_pos hc

/-- The words of the links are stored one after the other. -/
theorem Spares.both {a a' v v' : Nat} (h : Spares base s F a v) (h' : Spares base s F a' v') {y : Nat}
    (hy : Owned base s F y) : (s.mem.set32 a v).set32 a' v' y = s.mem y := by
  by_cases hin : a' ≤ y ∧ y < a' + 4
  · obtain ⟨i, rfl⟩ := Nat.exists_eq_add_of_le hin.1
    have := h' _ hy
    rw [Mem.set32_byte _ _ _ (by omega)] at this ⊢
    exact this
  · rw [Mem.set32_outside (by omega)]
    exact h y hy

theorem Intact.kept (i : Intact base s F x) {y : Nat} (hy : Owned base s F y) : unlinked s.mem x y = s.mem y := by
  have hlen : y < x + 8 ∨ x + 8 + 4 ≤ y := by
    by_contra hcon
    refine i.length (y - (x + 8)) (by omega) ?_
    rwa [Nat.add_sub_cancel' (by omega)]
  unfold unlinked listDelEntry listDel
  rw [Mem.set32_outside hlen]
  split
  · rfl
  · rename_i h0
    obtain ⟨hp, hn⟩ := not_or.1 h0
    obtain ⟨h₁, h₂⟩ := (i.links.resolve_left hp).resolve_left hn
    exact h₁.both h₂ hy

/-- What is kept is what the buffer is read from. -/
theorem Holds.frame {m' : Mem} (h : Holds base stop s L q)
    (hm : ∀ a, Owned base s (frees (base + 16) (stop - 12) L) a → m' a = s.mem a) : Rep m' base (stop - 12) L q := by
  refine h.rep.frame (fun a ha => hm a ?_)
  rcases ha with (ha | ⟨b, hb, ha⟩) | (ha | ⟨b, hb, ha⟩)
  · unfold freeHead at ha
    exact .inl (by unfold Within sizeofHead; omega)
  · exact .inr (.inl ⟨b, hb, ha⟩)
  · exact .inl (by unfold Within sizeofHead; omega)
  · obtain ⟨p, hp, rfl⟩ := List.mem_map.1 (h.perm_held.mem_iff.2 hb)
    have := h.rep.heap.len_block hb
    exact .inr (.inr ⟨p, hp, by unfold Within; omega⟩)

/-- **A block whose old header is in order** is found to be free. -/
theorem Holds.harmless {lbuf : Nat} (h : Holds base stop s L q) (h0 : lbuf ≠ 0)
    (i : Intact base s (frees (base + 16) (stop - 12) L) (getEntry lbuf)) : Harmless base s lbuf := by
  generalize hx : getEntry lbuf = x at i
  have R := h.frame (fun a ha => i.kept ha)
  obtain ⟨b, hb, hlo, hhi⟩ := i.inside
  obtain ⟨A, B, hAB⟩ := List.append_of_mem hb
  have hcov : covers (unlinked s.mem x) x b.1 = true := by
    have := R.room.bounds b hb
    unfold covers
    rw [R.free.lens b hb, u32_of_lt this.2]
    exact decide_eq_true ⟨by omega, hhi⟩
  have hbefore : ∀ c ∈ A, (covers (unlinked s.mem x) x c.1 || decide (x < c.1)) = false := fun c hc => by
    have hcF : c ∈ frees (base + 16) (stop - 12) L := by
      rw [hAB]
      exact List.mem_append_left _ hc
    have hcb := h.rep.heap.frees_pairwise (by decide)
    rw [hAB] at hcb
    have hend := (List.pairwise_append.1 hcb).2.2 c hc b List.mem_cons_self
    have := R.room.bounds c hcF
    unfold covers
    rw [R.free.lens c hcF, u32_of_lt this.2, Bool.or_eq_false_iff]
    exact ⟨decide_eq_false (by omega), decide_eq_false (by omega)⟩
  have hfind : listFind (unlinked s.mem x) (freeHead base)
      (fun p => covers (unlinked s.mem x) x p || decide (x < p)) = some (some b.1) := by
    have hnone : (A.map Prod.fst).find? (fun p => covers (unlinked s.mem x) x p || decide (x < p)) = none :=
      List.find?_eq_none.2 (fun p hp => by
        obtain ⟨c, hc, rfl⟩ := List.mem_map.1 hp
        rw [hbefore c hc]
        decide)
    rw [R.free.find R.room, hAB, List.map_append, List.find?_append, hnone, Option.none_or, List.map_cons,
      List.find?_cons_of_pos (by rw [hcov]; rfl)]
  have hex : Overlaps s.mem (getEntry lbuf) b.1 := by
    rw [hx, Overlaps, i.named]
    exact ⟨hfind, hcov⟩
  refine ⟨⟨_, hex⟩, _, lbufFree_overlaps h0 hex, ?_, ?_, fun p hp a ha => ?_⟩
  · rw [hx, R.freeList, h.rep.freeList]
  · unfold queueList
    rw [hx, R.nodes, h.rep.nodes]
  · rw [hx]
    exact i.kept (.inr (.inr ⟨p, hp, ha⟩))

/-- **The start of a free block** is unlinked before the check. -/
theorem Holds.not_harmless {lbuf n : Nat} (h : Holds base stop s L q) (h0 : lbuf ≠ 0)
    (hx : (getEntry lbuf, n) ∈ frees (base + 16) (stop - 12) L) : ¬ Harmless base s lbuf := by
  rintro ⟨⟨b, hex⟩, m', hf, hlist, -⟩
  rw [lbufFree_overlaps h0 hex] at hf
  rw [h.rep.freeList, ← Option.some.inj hf] at hlist
  generalize getEntry lbuf = x at hx hlist
  obtain ⟨A, B, hAB⟩ := List.append_of_mem hx
  have f := h.rep.free
  have r := h.rep.room
  rw [hAB] at f r hlist
  have hsub : (A ++ B).Sublist (A ++ (x, n) :: B) := (List.Sublist.refl A).append (List.sublist_cons_self _ B)
  have hring : Ring s.mem (freeHead base) (A.map Prod.fst ++ x :: B.map Prod.fst) := by
    have := f.ring
    rwa [List.map_append, List.map_cons] at this
  obtain ⟨hl, hr⟩ := Ring.parts (by rwa [List.append_cons] at hring)
  obtain ⟨hp, hn⟩ := hring.links
  obtain ⟨f₁, -⟩ := FreeList.remove hl hr (fun c hc => f.lens c (hsub.subset hc)) (r.sublist hsub) hp hn
  have f₂ : FreeList (unlinked s.mem x) (freeHead base) (A ++ B) := f₁.frame (fun a ha => Mem.set32_outside (by
    rcases ha with ha | ⟨c, hc, ha⟩
    · have := r.bounds (x, n) (by simp)
      dsimp only at this
      omega
    · obtain ⟨-, hB, hA⟩ := List.pairwise_append.1 r.apart
      rcases List.mem_append.1 hc with hc | hc
      · have := hA c hc (x, n) List.mem_cons_self
        dsimp only at this
        omega
      · have := (List.pairwise_cons.1 hB).1 c hc
        dsimp only at this
        omega))
  have heq := congrArg List.length (Option.some.inj ((f₂.freeList (r.sublist hsub)).symm.trans hlist))
  rw [List.length_append, List.length_append, List.length_cons] at heq
  omega

/-- **Where the old header names the buffer**, the check finds what lies inside a free block, and nothing else. -/
theorem Holds.inside {lbuf : Nat} (h : Holds base stop s L q) (h0 : lbuf ≠ 0)
    (hn : entryHead s.mem (getEntry lbuf) = base) (hh : Harmless base s lbuf) :
    ∃ b ∈ frees (base + 16) (stop - 12) L, b.1 < getEntry lbuf ∧ getEntry lbuf < b.1 + b.2 := by
  have hstart := fun n => mt (h.not_harmless (n := n) h0) (not_not.2 hh)
  obtain ⟨⟨b, hex⟩, m', hf, hlist, -⟩ := hh
  rw [lbufFree_overlaps h0 hex] at hf
  rw [h.rep.freeList, ← Option.some.inj hf] at hlist
  obtain ⟨hfind, hcov⟩ := hex
  rw [hn] at hfind
  generalize getEntry lbuf = x at hstart hlist hfind hcov ⊢
  obtain ⟨xs, hxs, hF⟩ := Option.map_eq_some_iff.1 hlist
  have hb : b ∈ xs := List.mem_of_find?_eq_some (Option.some.inj ((firstFrom_nodes hxs).symm.trans hfind))
  have hbF : (b, freeLen (unlinked s.mem x) b) ∈ frees (base + 16) (stop - 12) L := hF ▸ List.mem_map_of_mem hb
  obtain ⟨hle, hlt⟩ := of_decide_eq_true hcov
  rw [u32_of_lt (h.rep.room.bounds _ hbF).2] at hlt
  refine ⟨_, hbF, lt_of_le_of_ne hle ?_, hlt⟩
  intro (heq : b = x)
  rw [heq] at hbF
  exact hstart _ hbF

theorem Holds.ne_zero {lbuf : Nat} (h : Holds base stop s L q) (hp : lbuf ∈ s.live) : lbuf ≠ 0 := by
  obtain ⟨L₁, x, n, L₂, -, hx, -⟩ := h.block hp
  unfold sizeofEntry at hx
  omega

/-- **A pointer that was held, freed once more**: the check catches it where the old header is in order, and where that
header names the buffer it catches only what lies inside a free block.  The start of a free block is lost from the
list. -/
theorem double_free {buf bufLen lbuf : Nat} {s₁ : State} (m : Mem) (h0 : 0 < buf) (hlen : 31 ≤ bufLen)
    (htop : buf + bufLen ≤ 4294967296) (es₁ es₂ : List Ev) (os₁ os₂ : List Out)
    (hgood₁ : (machine (alignedHead buf) (buf + bufLen)).Along (fun s e _ _ => Counted (alignedHead buf) s e)
      (start m buf bufLen) es₁)
    (hrun₁ : (machine (alignedHead buf) (buf + bufLen)).run (start m buf bufLen) es₁ = some (s₁, os₁))
    (hheld : lbuf ∈ s₁.live)
    (hgood₂ : (machine (alignedHead buf) (buf + bufLen)).Along (fun s e _ _ => Counted (alignedHead buf) s e) s₁ es₂)
    (hrun₂ : (machine (alignedHead buf) (buf + bufLen)).run s₁ es₂ = some (s, os₂)) :
    ∃ F, freeList s.mem (alignedHead buf) = some F ∧
      (Intact (alignedHead buf) s F (getEntry lbuf) → Harmless (alignedHead buf) s lbuf) ∧
      (entryHead s.mem (getEntry lbuf) = alignedHead buf → Harmless (alignedHead buf) s lbuf →
        ∃ b ∈ F, b.1 < getEntry lbuf ∧ getEntry lbuf < b.1 + b.2) ∧
      ∀ n, (getEntry lbuf, n) ∈ F → ¬ Harmless (alignedHead buf) s lbuf := by
  obtain ⟨L₁, q₁, h₁⟩ := holds_run h0 hlen htop hgood₁ hrun₁
  obtain ⟨L, q, h⟩ := h₁.run hgood₂ hrun₂
  have hne := h₁.ne_zero hheld
  exact ⟨_, h.rep.freeList, h.harmless hne, h.inside hne, fun n hx => h.not_harmless hne hx⟩

theorem step_free {m' : Mem} {lbuf : Nat} (hp : lbuf ∈ s.live) (hf : lbufFree s.mem lbuf = some m') :
    step base stop s (.free lbuf) = some (⟨m', s.live.erase lbuf, s.pushed.erase lbuf⟩, .done) := by
  rw [step, if_pos hp, returned_some _ hf]

/-- The old header of the second block comes to lie in a larger one, whose client writes a header there. -/
def overwritten : List Ev :=
  [.free 4160, .free 4132, .alloc 200, .write 4144 (Mem.le32 0), .write 4148 (Mem.le32 4096), .free 4132]

theorem overwritten_run {s : State} (h : Holds 4096 4352 s [(4112, 28), (4140, 28)] [])
    (hlive : s.live = [4160, 4132]) (hpushed : s.pushed = []) :
    ∃ m' os, (machine 4096 4352).run s overwritten = some (⟨m', [], []⟩, os) ∧ Rep m' 4096 4340 [] [] ∧
      entryHead m' 4140 = 4096 ∧ prev m' 4140 = 0 := by
  obtain ⟨m₁, hf₁, R₁, -⟩ := @lbufFree_rep _ _ _ 4140 28 [(4112, 28)] [] _ h.rep
  have hs₁ : step 4096 4352 s (.free 4160) = some (⟨m₁, [4132], []⟩, .done) := by
    have h4160 : 4160 ∈ s.live := by
      rw [hlive]
      decide
    have := @step_free 4096 4352 s m₁ 4160 h4160 hf₁
    rwa [hlive, hpushed] at this
  obtain ⟨m₂, hf₂, R₂, -⟩ := @lbufFree_rep _ _ _ 4112 28 [] [] _ R₁
  have hs₂ : step 4096 4352 ⟨m₁, [4132], []⟩ (.free 4132) = some (⟨m₂, [], []⟩, .done) :=
    step_free List.mem_cons_self hf₂
  have hlen : blockLen 200 = 220 := by decide
  obtain ⟨m₃, n, L₁, L₂, ha, hL, hn, -, -, R₃, -⟩ := lbufAlloc_rep (p := 4112) (k := 228) R₂
    (by rw [hlen]; decide : 20 ≤ blockLen 200 ∧ 4 ∣ blockLen 200) (by rw [hlen]; decide)
  obtain ⟨rfl, rfl⟩ := List.append_eq_nil_iff.1 hL.symm
  rw [hlen] at hn
  have hs₃ : step 4096 4352 ⟨m₂, [], []⟩ (.alloc 200) = some (⟨m₃, [4132], []⟩, .ptr (some 4132)) := by
    rw [step, if_pos (by decide), returned_some _ ha]
    rfl
  have hmem : (4112, n) ∈ [((4112 : Nat), n)] := List.mem_cons_self
  have hmine : ∀ {m : Mem} {a : Nat}, Rep m 4096 4340 [(4112, n)] [] → 4132 ≤ a → a < 4332 →
      Mine 4096 4352 ⟨m, [4132], []⟩ a := fun R h₁ h₂ => by
    refine .inr (.inr ⟨4132, List.mem_cons_self, h₁, ?_⟩)
    have hw := (R.used.words _ hmem).2
    have hentry : getEntry 4132 = 4112 := by decide
    dsimp only at hw ⊢
    rw [hentry, hw]
    omega
  have hwrite : ∀ {m : Mem} {a v : Nat}, Rep m 4096 4340 [(4112, n)] [] → 4132 ≤ a → a + 4 ≤ 4332 →
      step 4096 4352 ⟨m, [4132], []⟩ (.write a (Mem.le32 v)) = some (⟨m.set32 a v, [4132], []⟩, .done) ∧
        Rep (m.set32 a v) 4096 4340 [(4112, n)] [] := fun R h₁ h₂ => by
    refine ⟨if_pos (fun i hi => hmine R (by omega) ?_), R.of_inside hmem (fun y hy => Mem.set32_outside ?_)⟩
    · rw [Mem.length_le32] at hi
      omega
    · dsimp only at hy
      omega
  obtain ⟨hs₄, R₄⟩ := hwrite (v := 0) R₃ (by decide : 4132 ≤ 4144) (by decide)
  obtain ⟨hs₅, R₅⟩ := hwrite (v := 4096) R₄ (by decide : 4132 ≤ 4148) (by decide)
  obtain ⟨m₆, hf₆, R₆, hkeep⟩ := @lbufFree_rep _ _ _ 4112 n [] [] _ R₅
  have hs₆ : step 4096 4352 ⟨(m₃.set32 4144 0).set32 4148 4096, [4132], []⟩ (.free 4132) =
      some (⟨m₆, [], []⟩, .done) := step_free List.mem_cons_self hf₆
  have hword : ∀ a, 4128 ≤ a → a + 4 ≤ 4332 → m₆.get32 a = ((m₃.set32 4144 0).set32 4148 4096).get32 a :=
    fun a h₁ h₂ => Mem.get32_congr (fun i hi => hkeep _ hmem _ (by dsimp only; omega) (by dsimp only; omega))
  refine ⟨m₆, _, Machine.run_step hs₁ (Machine.run_step hs₂ (Machine.run_step hs₃ (Machine.run_step hs₄
    (Machine.run_step hs₅ (Machine.run_step hs₆ rfl))))), R₆, ?_, ?_⟩
  · exact (hword 4148 (by decide) (by decide)).trans (Mem.get32_set32 _ _ _)
  · refine (hword 4144 (by decide) (by decide)).trans ((Mem.get32_set32_outside (by decide)).trans ?_)
    exact Mem.get32_set32 _ _ _

theorem double_free_overwritten : ∃ s₁ s os₁ os₂, (machine 4096 4352).run fresh [.alloc 8, .alloc 8] = some (s₁, os₁) ∧
    4160 ∈ s₁.live ∧ (machine 4096 4352).run s₁ overwritten = some (s, os₂) ∧ 4160 ∉ s.live ∧
      Harmless 4096 s 4160 := by
  obtain ⟨s₁, o₁, s₂, o₂, hs₁, hs₂, h₂⟩ := twice_alloc
  have hrun₁ : (machine 4096 4352).run fresh [.alloc 8, .alloc 8] = some (s₂, [o₁, o₂]) :=
    Machine.run_step hs₁ (Machine.run_step hs₂ rfl)
  obtain ⟨m', os, hrun₂, R, hhead, hprev⟩ := overwritten_run h₂.holds h₂.live h₂.pushed
  have hheld : 4160 ∈ s₂.live := by
    rw [h₂.live]
    decide
  obtain ⟨F, hF, hintact, -⟩ := double_free (fun _ => 0) (by decide : 0 < 4096) (by decide : 31 ≤ 256) (by decide)
    [.alloc 8, .alloc 8] overwritten _ _ (fun _ _ _ => ⟨.inl (by decide), fun _ _ _ => ⟨.inl (by decide), trivial⟩⟩)
    hrun₁ hheld
    (fun _ _ _ => ⟨trivial, fun _ _ _ => ⟨trivial, fun _ _ _ => ⟨.inl (by decide), fun _ _ _ => ⟨trivial, fun _ _ _ =>
      ⟨trivial, fun _ _ _ => ⟨trivial, trivial⟩⟩⟩⟩⟩⟩) hrun₂
  obtain rfl : F = [(4112, 228)] := (Option.some.inj (R.freeList.symm.trans hF)).symm
  refine ⟨s₂, _, _, _, hrun₁, hheld, hrun₂, List.not_mem_nil, hintact ⟨hhead, ⟨_, List.mem_cons_self, ?_⟩, .inl hprev, ?_⟩⟩
  · decide
  · intro i hi hown
    have hentry : getEntry 4160 = 4140 := by decide
    have hbase : alignedHead 4096 = 4096 := by decide
    rw [hentry, hbase] at hown
    rcases hown with h | ⟨b, hb, h⟩ | ⟨p, hp, -⟩
    · unfold Within sizeofHead at h
      omega
    · rw [List.mem_singleton.1 hb] at h
      unfold Within sizeofFree at h
      omega
    · cases hp

/-- A block freed twice in a row. -/
theorem not_double_free : ¬ ∀ (m : Mem) (buf bufLen lbuf : Nat) (es₁ es₂ : List Ev) (s₁ s : State) (os₁ os₂ : List Out),
    0 < buf → 31 ≤ bufLen → buf + bufLen ≤ 4294967296 →
    (machine (alignedHead buf) (buf + bufLen)).run (start m buf bufLen) es₁ = some (s₁, os₁) → lbuf ∈ s₁.live →
    (machine (alignedHead buf) (buf + bufLen)).run s₁ es₂ = some (s, os₂) → lbuf ∉ s.live →
      Harmless (alignedHead buf) s lbuf := by
  intro h
  have hbase : alignedHead 4096 = 4096 := by decide
  have hentry : getEntry 4132 = 4112 := by decide
  obtain ⟨m₁, hs₁, -, h₁⟩ := fresh_alloc
  have hlive : 4132 ∈ [4132] := List.mem_cons_self
  obtain ⟨m₂, L', hf, h₂⟩ := h₁.free hlive
  have hs₂ : step 4096 4352 ⟨m₁, [4132], []⟩ (.free 4132) = some (⟨m₂, [], []⟩, .done) := step_free hlive hf
  have hnil : L' = [] := List.map_eq_nil_iff.1 h₂.live.eq_nil
  rw [hnil] at h₂
  refine h₂.not_harmless (by decide : 4132 ≠ 0) (n := 228) ?_ ?_
  · rw [hentry, fresh_frees]
    exact List.mem_cons_self
  · have := h (fun _ => 0) 4096 256 4132 [.alloc 8] [.free 4132] ⟨m₁, [4132], []⟩ ⟨m₂, [], []⟩ [.ptr (some 4132)] [.done]
      (by decide) (by decide) (by decide)
    rw [hbase] at this
    exact this (Machine.run_step hs₁ rfl) hlive (Machine.run_step hs₂ rfl) List.not_mem_nil

end Twice

end Lbuf
end OtaLoader
