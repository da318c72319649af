import OtaLoader.LbufOrder
/-!
# AppMem — the two arenas of the STA build (`app_main.c`)

`app_mem_malloc` takes memory from the cache arena and, when that has none, from the one where the loader lay;
`app_mem_free` tells them apart by the address.  Each arena is a buffer of `lbuf_new.c`, and what is done to one leaves the
bytes of the other alone, so the laws of a buffer hold of both along every run.
-/
namespace OtaLoader
namespace AppMem

open Lbuf Gaps

def appMemSize : Nat := 42 * 1024
def appMemAddrStart : Nat := 0x1C00000
def appMemAddrEnd : Nat := appMemAddrStart + appMemSize

/-- `cache_ram_config`: the address and the size of the cache arena.  `SDRAM_SIZE` is 0 where there is none. -/
def cacheRamConfig (sdramSize : Nat) : Nat × Nat :=
  if sdramSize ≠ 0 then (0x4000000, sdramSize)
  else
    let freeDcacheWay := 7
    let freeIcacheWay := 7
    (0x1f20000 + (8 - freeIcacheWay) * 4096, freeDcacheWay * 4096 + freeIcacheWay * 4096 - 512)

/-- `pcach_mem`, `cach_mem_addr`, `cach_mem_size` and `pmem_ptr`. -/
structure Globals where
  pcachMem    : Nat
  cachMemAddr : Nat
  cachMemSize : Nat
  pmemPtr     : Nat

def appMemInit (m : Mem) (sdramSize : Nat) : Mem × Globals :=
  let m := m.fill appMemAddrStart appMemSize 0
  let app := lbufInit m appMemAddrStart appMemSize
  let (addr, size) := cacheRamConfig sdramSize
  -- `cache_ram_init`
  if addr ≠ 0 then
    let cach := lbufInit app.1 addr size
    (cach.1, ⟨cach.2, addr, size, app.2⟩)
  else (app.1, ⟨0, addr, size, app.2⟩)

def cachMemMalloc (g : Globals) (m : Mem) (size : Nat) : Option (Option Nat × Mem) :=
  if g.pcachMem ≠ 0 ∧ g.cachMemAddr ≠ 0 then lbufAlloc m g.pcachMem size else some (none, m)

def cachMemFree (g : Globals) (m : Mem) (ptr : Nat) : Option (Nat × Mem) :=
  if (g.pcachMem ≠ 0 ∧ g.cachMemAddr ≠ 0) ∧ g.cachMemAddr ≤ ptr ∧ ptr < u32 (g.cachMemAddr + g.cachMemSize) then
    (lbufFree m ptr).map (fun m => (1, m))
  else some (0, m)

def appMemMalloc (g : Globals) (m : Mem) (size : Nat) : Option (Option Nat × Mem) :=
  (cachMemMalloc g m size).bind fun r =>
    match r.1 with
    | some p => some (some p, r.2)
    | none   => if g.pmemPtr ≠ 0 then lbufAlloc r.2 g.pmemPtr size else some (none, r.2)

def appMemFree (g : Globals) (m : Mem) (ptr : Nat) : Option (Nat × Mem) :=
  (cachMemFree g m ptr).bind fun r =>
    if r.1 ≠ 0 then some (1, r.2)
    else if g.pmemPtr ≠ 0 ∧ appMemAddrStart ≤ ptr ∧ ptr < appMemAddrEnd then (lbufFree r.2 ptr).map (fun m => (1, m))
    else some (0, r.2)

/-! ## The clients -/

/-- The memory, and the pointers that were obtained and not freed yet. -/
structure State where
  mem  : Mem
  live : List Nat

inductive Ev where
  | malloc (size : Nat)
  | free (ptr : Nat)
  | write (a : Nat) (bs : List UInt8)

inductive Out where
  | done
  | ptr (r : Option Nat)
  | freed (r : Nat)
  | hang
deriving DecidableEq

def returned {α : Type} (s : State) (r : Option α) (f : α → State × Out) : State × Out := (r.map f).getD (s, .hang)

/-- An address of one of the arenas. -/
def InCach (g : Globals) (a : Nat) : Prop := g.cachMemAddr ≤ a ∧ a < g.cachMemAddr + g.cachMemSize

def InApp (a : Nat) : Prop := appMemAddrStart ≤ a ∧ a < appMemAddrEnd

instance (g : Globals) (a : Nat) : Decidable (InCach g a) := by
  unfold InCach
  exact inferInstance

instance (a : Nat) : Decidable (InApp a) := by
  unfold InApp
  exact inferInstance

/-- What a client may write: the payload of a pointer it holds, and what is in neither arena. -/
def Mine (g : Globals) (s : State) (a : Nat) : Prop :=
  (¬ InCach g a ∧ ¬ InApp a) ∨ ∃ p ∈ s.live, p ≤ a ∧ a < getEntry p + entryLen s.mem (getEntry p)

instance (g : Globals) (s : State) (a : Nat) : Decidable (Mine g s a) := by
  unfold Mine
  exact inferInstance

def step (g : Globals) (s : State) : Ev → Option (State × Out)
  | .malloc size =>
    if size < 4294967296 then some (returned s (appMemMalloc g s.mem size) (fun r =>
      (⟨r.2, r.1.toList ++ s.live⟩, .ptr r.1)))
    else none
  | .free ptr    =>
    -- a pointer that was obtained, or a foreign one
    if ptr ∈ s.live ∨ (¬ InCach g ptr ∧ ¬ InApp ptr) then some (returned s (appMemFree g s.mem ptr) (fun r =>
      (⟨r.2, s.live.erase ptr⟩, .freed r.1)))
    else none
  | .write a bs  =>
    if ∀ i, i < bs.length → Mine g s (a + i) then some (⟨s.mem.write a bs, s.live⟩, .done) else none

def machine (g : Globals) : Machine State Ev Out := ⟨step g⟩

def start (m : Mem) (sdramSize : Nat) : State := ⟨(appMemInit m sdramSize).1, []⟩

/-! ## What good runs keep -/

/-- The first and the end address of the arenas. -/
def arenas (g : Globals) : List (Nat × Nat) :=
  [(g.cachMemAddr, g.cachMemAddr + g.cachMemSize), (appMemAddrStart, appMemAddrEnd)]

/-- An arena as a buffer of its own. -/
def arena (s : State) (A : Nat × Nat) : Lbuf.State := ⟨s.mem, s.live.filter (fun p => A.1 ≤ p ∧ p < A.2), []⟩

structure ArenasOk (g : Globals) (s : State) : Prop where
  heaps : ∀ A ∈ arenas g, ∃ F, HeapOk A.1 A.2 (arena s A) F
  owned : ∀ p ∈ s.live, InCach g p ∨ InApp p
  apart : ∀ p ∈ s.live, ∀ p' ∈ s.live, p' ≠ p → ∀ a, Payload s.mem p a → ¬ Payload s.mem p' a

structure Law (g : Globals) (s : State) (e : Ev) (s' : State) (o : Out) : Prop where
  returns : o ≠ .hang
  ok      : ArenasOk g s'
  free    : ∀ p, e = .free p → p ∈ s.live → o = .freed 1 ∧ lbufFree s.mem p = some s'.mem ∧ s'.live = s.live.erase p ∧
    (InCach g p → ∀ a, InApp a → s'.mem a = s.mem a) ∧ (InApp p → ∀ a, InCach g a → s'.mem a = s.mem a)
  foreign : ∀ p, e = .free p → p ∉ s.live → o = .freed 0 ∧ s' = s
  malloc  : ∀ size, e = .malloc size → o = .ptr none → s' = s ∧
    ∀ A ∈ arenas g, ∀ F, freeList s.mem A.1 = some F → ∀ b ∈ F, b.2 < exactLen size

/-- The size of a request does not wrap, or neither arena has a block for it. -/
def Fitting (g : Globals) (s : State) : Ev → Prop
  | .malloc size => size ≤ 4294967272 ∨ ∀ A ∈ arenas g, NoFit s.mem A.1 size
  | _            => True

structure Config (g : Globals) : Prop where
  pcach : g.pcachMem = g.cachMemAddr
  pmem  : g.pmemPtr = appMemAddrStart
  pos   : g.cachMemAddr ≠ 0
  top   : g.cachMemAddr + g.cachMemSize < 4294967296
  apart : ∀ a, InCach g a → ¬ InApp a

structure Good (g : Globals) (s : State) : Prop where
  heaps : ∀ A ∈ arenas g, ∃ L, Holds A.1 A.2 (arena s A) L []
  owned : ∀ p ∈ s.live, InCach g p ∨ InApp p

section Arenas

variable {g : Globals} {s s' : State} {e : Ev} {o : Out} {A B : Nat × Nat} {m' : Mem} {p a : Nat}

theorem cach_mem : (g.cachMemAddr, g.cachMemAddr + g.cachMemSize) ∈ arenas g := List.mem_cons_self

theorem app_mem : (appMemAddrStart, appMemAddrEnd) ∈ arenas g := List.mem_cons_of_mem _ List.mem_cons_self

/-- Arenas that share an address are the same. -/
theorem Config.same (c : Config g) (hA : A ∈ arenas g) (hB : B ∈ arenas g) (ha : A.1 ≤ a ∧ a < A.2)
    (hb : B.1 ≤ a ∧ a < B.2) : A = B := by
  simp only [arenas, List.mem_cons, List.not_mem_nil, or_false] at hA hB
  rcases hA with rfl | rfl <;> rcases hB with rfl | rfl
  · rfl
  · exact absurd hb (c.apart a ha)
  · exact absurd ha (c.apart a hb)
  · rfl

theorem Good.home (h : Good g s) (hp : p ∈ s.live) : ∃ A ∈ arenas g, A.1 ≤ p ∧ p < A.2 :=
  (h.owned p hp).elim (fun hc => ⟨_, cach_mem, hc⟩) (fun ha => ⟨_, app_mem, ha⟩)

theorem mem_arena : p ∈ (arena s A).live ↔ p ∈ s.live ∧ A.1 ≤ p ∧ p < A.2 := by
  unfold arena
  rw [List.mem_filter, decide_eq_true_iff]

theorem count_arena : (arena s A).live.count p = if A.1 ≤ p ∧ p < A.2 then s.live.count p else 0 := by
  split
  · rename_i hin
    exact List.count_filter (p := fun p => decide (A.1 ≤ p ∧ p < A.2)) (decide_eq_true hin)
  · rename_i hin
    exact List.count_eq_zero_of_not_mem (fun hm => hin (mem_arena.1 hm).2)

/-- A block lies in the arena of its pointer. -/
theorem Good.within (h : Good g s) (hA : A ∈ arenas g) (hp : p ∈ s.live) (hin : A.1 ≤ p ∧ p < A.2)
    (ha : Payload s.mem p a) : A.1 ≤ a ∧ a < A.2 := by
  obtain ⟨L, hL⟩ := h.heaps A hA
  obtain ⟨hb, -⟩ := hL.block_of (mem_arena.2 ⟨hp, hin⟩)
  have hbb := hL.rep.bounds hb
  obtain ⟨hle, -, hlt⟩ := ha
  have hlt : a < (blockOf (arena s A).mem p).1 + (blockOf (arena s A).mem p).2 := hlt
  omega

/-- **What both arenas look like.** -/
theorem Good.ok (c : Config g) (h : Good g s) : ArenasOk g s := by
  refine ⟨fun A hA => ?_, h.owned, fun p hp p' hp' hne a hpay hpay' => ?_⟩
  · obtain ⟨L, hL⟩ := h.heaps A hA
    exact ⟨_, hL.heapOk⟩
  · obtain ⟨A, hA, hin⟩ := h.home hp
    obtain ⟨B, hB, hin'⟩ := h.home hp'
    obtain rfl := c.same hA hB (h.within hA hp hin hpay) (h.within hB hp' hin' hpay')
    obtain ⟨L, hL⟩ := h.heaps A hA
    exact ((hL.heapOk.apart p (mem_arena.2 ⟨hp, hin⟩) a hpay).2.2 p' (mem_arena.2 ⟨hp', hin'⟩)).2 hne hpay'

/-- **One arena changes**, and the pointers with it. -/
theorem Good.change (c : Config g) (h : Good g s) (hA : A ∈ arenas g) {t : Lbuf.State} {L : List Block}
    (ht : Holds A.1 A.2 t L []) (hmem : t.mem = s'.mem) (hlive : t.live.Perm (arena s' A).live)
    (hout : ∀ a, (a < A.1 ∨ A.2 ≤ a) → s'.mem a = s.mem a)
    (hother : ∀ p, ¬ (A.1 ≤ p ∧ p < A.2) → s'.live.count p = s.live.count p) : Good g s' := by
  refine ⟨fun B hB => ?_, fun p hp => ?_⟩
  · by_cases hAB : A = B
    · rw [← hAB]
      exact ⟨L, ht.of_same (fun a _ _ => by rw [hmem]; rfl) hlive ht.pushed.symm⟩
    · obtain ⟨L', hL'⟩ := h.heaps B hB
      refine ⟨L', hL'.of_same (fun a h₁ h₂ => hout a ?_) (List.perm_iff_count.2 (fun p => ?_)) rfl⟩
      · by_contra hcon
        exact hAB (c.same (a := a) hA hB (by omega) ⟨h₁, h₂⟩)
      · rw [count_arena, count_arena]
        split
        · rename_i hin
          exact (hother p (fun hp => hAB (c.same hA hB hp hin))).symm
        · rfl
  · by_cases hin : A.1 ≤ p ∧ p < A.2
    · simp only [arenas, List.mem_cons, List.not_mem_nil, or_false] at hA
      rcases hA with rfl | rfl
      · exact .inl hin
      · exact .inr hin
    · refine h.owned p (List.count_pos_iff.1 ?_)
      rw [← hother p hin]
      exact List.count_pos_iff.2 hp

/-! ## Steps -/

/-- A request to one arena. -/
theorem Good.alloc {size : Nat} (c : Config g) (h : Good g s) (hA : A ∈ arenas g) (hlt : size < 4294967296)
    (hsize : size ≤ 4294967272 ∨ NoFit s.mem A.1 size) :
    ∃ r m', lbufAlloc s.mem A.1 size = some (r, m') ∧ Good g ⟨m', r.toList ++ s.live⟩ ∧
      (r = none → m' = s.mem ∧ ∀ F, freeList s.mem A.1 = some F → ∀ b ∈ F, b.2 < exactLen size) := by
  obtain ⟨L, hL⟩ := h.heaps A hA
  obtain ⟨r, m', L', ha, h'⟩ := hL.alloc hsize
  obtain ⟨r₁, m₁, F, ha₁, hF, hiff⟩ := hL.allocSpec_iff hlt
  obtain ⟨rfl, rfl⟩ := Prod.mk.inj (Option.some.inj (ha.symm.trans ha₁))
  have hspec := hiff.2 hsize
  refine ⟨r, m', ha, ?_, fun hr => ⟨hspec.same hr, fun F' hF' => ?_⟩⟩
  · cases r with
    | none   =>
      rw [hspec.same rfl]
      exact h
    | some p =>
      obtain ⟨hlo, hhi, -⟩ := hspec.room p rfl
      have hstop := hL.stop
      unfold sizeofHead sizeofEntry at hlo
      unfold sizeofFree at hhi
      have hin : A.1 ≤ p ∧ p < A.2 := by omega
      refine h.change c hA h' rfl (List.perm_iff_count.2 (fun y => ?_)) (fun a ha' => ?_) (fun y hy => ?_)
      · rw [count_arena, Option.toList_some, List.singleton_append, List.singleton_append, List.count_cons,
          List.count_cons, count_arena]
        by_cases hy : A.1 ≤ y ∧ y < A.2
        · rw [if_pos hy, if_pos hy]
        · have hne : ¬ (p == y) = true := fun heq => hy (eq_of_beq heq ▸ hin)
          rw [if_neg hy, if_neg hy, if_neg hne]
      · rcases hsize with hsize | hsize
        · exact lbufAlloc_outside hL.rep (blockLen_bounds hsize).2 ha (by omega)
        · cases ha.symm.trans (hL.noFit hsize)
      · have hne : ¬ (p == y) = true := fun heq => hy (eq_of_beq heq ▸ hin)
        rw [Option.toList_some, List.singleton_append, List.count_cons, if_neg hne, Nat.add_zero]
  · obtain rfl := Option.some.inj (hF.symm.trans hF')
    exact hspec.fails.1 hr

/-- A block given back to its arena. -/
theorem Good.free (c : Config g) (h : Good g s) (hA : A ∈ arenas g) (hp : p ∈ s.live) (hin : A.1 ≤ p ∧ p < A.2) :
    ∃ m', lbufFree s.mem p = some m' ∧ Good g ⟨m', s.live.erase p⟩ ∧ ∀ a, (a < A.1 ∨ A.2 ≤ a) → m' a = s.mem a := by
  obtain ⟨L, hL⟩ := h.heaps A hA
  have hpa := mem_arena.2 ⟨hp, hin⟩
  obtain ⟨m', L', hf, h'⟩ := hL.free hpa
  have hstop := hL.stop
  have hout : ∀ a, (a < A.1 ∨ A.2 ≤ a) → m' a = s.mem a := fun a ha => by
    obtain ⟨L₁, x, n, L₂, rfl, rfl, -⟩ := hL.block hpa
    exact lbufFree_outside hL.rep hf (by omega)
  refine ⟨m', hf, h.change c hA h' rfl (List.Perm.of_eq ?_) hout (fun y hy => ?_), hout⟩
  · unfold arena
    exact List.erase_filter
  · have hne : y ≠ p := fun heq => hy (heq ▸ hin)
    exact List.count_erase_of_ne hne

theorem Good.malloc {size : Nat} (c : Config g) (h : Good g s) (hlt : size < 4294967296)
    (hfit : Fitting g s (.malloc size)) :
    ∃ r m', appMemMalloc g s.mem size = some (r, m') ∧ Good g ⟨m', r.toList ++ s.live⟩ ∧
      (r = none → m' = s.mem ∧ ∀ A ∈ arenas g, ∀ F, freeList s.mem A.1 = some F → ∀ b ∈ F, b.2 < exactLen size) := by
  have hfit : ∀ A ∈ arenas g, size ≤ 4294967272 ∨ NoFit s.mem A.1 size := fun A hA => hfit.imp id (fun h => h A hA)
  obtain ⟨r, m', ha, hg, hnone⟩ := h.alloc c cach_mem hlt (hfit _ cach_mem)
  have hcach : cachMemMalloc g s.mem size = some (r, m') := by
    unfold cachMemMalloc
    rw [c.pcach, if_pos ⟨c.pos, c.pos⟩]
    exact ha
  unfold appMemMalloc
  rw [hcach, Option.bind_some]
  cases r with
  | some p => exact ⟨some p, m', rfl, hg, (fun h => by cases h)⟩
  | none   =>
    obtain ⟨rfl, hno⟩ := hnone rfl
    obtain ⟨r, m', ha', hg', hnone'⟩ := h.alloc c app_mem hlt (hfit _ app_mem)
    refine ⟨r, m', ?_, hg', fun hr => ⟨(hnone' hr).1, fun A hA => ?_⟩⟩
    · dsimp only
      rw [c.pmem, if_pos (by decide)]
      exact ha'
    · simp only [arenas, List.mem_cons, List.not_mem_nil, or_false] at hA
      rcases hA with rfl | rfl
      · exact hno
      · exact (hnone' hr).2

theorem cachMemFree_of_not (hp : ¬ InCach g p) (c : Config g) : cachMemFree g s.mem p = some (0, s.mem) := by
  unfold cachMemFree
  rw [u32_of_lt c.top]
  exact if_neg (fun h => hp h.2)

theorem Good.release (c : Config g) (h : Good g s) (hp : p ∈ s.live) :
    ∃ m', appMemFree g s.mem p = some (1, m') ∧ lbufFree s.mem p = some m' ∧ Good g ⟨m', s.live.erase p⟩ ∧
      (InCach g p → ∀ a, InApp a → m' a = s.mem a) ∧ (InApp p → ∀ a, InCach g a → m' a = s.mem a) := by
  by_cases hcach : InCach g p
  · obtain ⟨m', hf, hg, hout⟩ := h.free c cach_mem hp hcach
    refine ⟨m', ?_, hf, hg, fun _ a ha => hout a ?_, fun happ => absurd happ (c.apart p hcach)⟩
    · unfold appMemFree cachMemFree
      rw [c.pcach, u32_of_lt c.top, if_pos ⟨⟨c.pos, c.pos⟩, hcach⟩, hf]
      rfl
    · by_contra hcon
      exact c.apart a (by unfold InCach; omega) ha
  · have happ : InApp p := (h.owned p hp).resolve_left hcach
    obtain ⟨m', hf, hg, hout⟩ := h.free c app_mem hp happ
    refine ⟨m', ?_, hf, hg, fun hc => absurd hc hcach, fun _ a ha => hout a ?_⟩
    · unfold appMemFree
      rw [cachMemFree_of_not hcach c, Option.bind_some]
      dsimp only
      rw [if_neg (by decide), c.pmem, if_pos ⟨by decide, happ⟩, hf]
      rfl
    · by_contra hcon
      exact c.apart a ha (by unfold InApp; omega)

theorem appMemFree_foreign (c : Config g) (hp : ¬ InCach g p ∧ ¬ InApp p) :
    appMemFree g s.mem p = some (0, s.mem) := by
  unfold appMemFree
  rw [cachMemFree_of_not hp.1 c, Option.bind_some]
  dsimp only
  rw [if_neg (by decide)]
  exact if_neg (fun h => hp.2 h.2)

theorem Good.write {bs : List UInt8} (c : Config g) (h : Good g s) (ha : ∀ i, i < bs.length → Mine g s (a + i)) :
    Good g ⟨s.mem.write a bs, s.live⟩ := by
  refine ⟨fun A hA => ?_, h.owned⟩
  obtain ⟨L, hL⟩ := h.heaps A hA
  refine ⟨L, hL.write (fun i hi => ?_)⟩
  rcases ha i hi with hout | ⟨p, hp, h₁, h₂⟩
  · simp only [arenas, List.mem_cons, List.not_mem_nil, or_false] at hA
    unfold InCach InApp at hout
    rcases hA with rfl | rfl
    · by_cases hlo : a + i < g.cachMemAddr
      · exact .inl hlo
      · exact .inr (.inl (by dsimp only; omega))
    · by_cases hlo : a + i < appMemAddrStart
      · exact .inl hlo
      · exact .inr (.inl (by dsimp only; omega))
  · obtain ⟨B, hB, hin⟩ := h.home hp
    by_cases hAB : A = B
    · exact .inr (.inr ⟨p, mem_arena.2 ⟨hp, hAB ▸ hin⟩, h₁, h₂⟩)
    · have hpay : Payload s.mem p (a + i) := by
        obtain ⟨L', hL'⟩ := h.heaps B hB
        obtain ⟨-, hpb⟩ := hL'.block_of (mem_arena.2 ⟨hp, hin⟩)
        have hpb : p = getEntry p + sizeofEntry := hpb
        exact ⟨h₁, by unfold blockOf; dsimp only; omega, h₂⟩
      have hinB := h.within hB hp hin hpay
      by_contra hcon
      unfold Lbuf.Mine at hcon
      rw [not_or, not_or] at hcon
      exact hAB (c.same (a := a + i) hA hB (by omega) hinB)

theorem returned_some {α : Type} {r : Option α} {x : α} (f : α → State × Out) (h : r = some x) :
    returned s r f = f x := by rw [h]; rfl

/-- **A good step** has the law and leaves both arenas in order. -/
theorem good_step (c : Config g) (h : Good g s) (hs : step g s e = some (s', o)) (hfit : Fitting g s e) :
    Good g s' ∧ Law g s e s' o := by
  cases e with
  | malloc size =>
    obtain ⟨hlt, heq⟩ := Option.ite_none_right_eq_some.1 hs
    obtain ⟨r, m', ha, hg, hnone⟩ := h.malloc c hlt hfit
    rw [returned_some _ ha] at heq
    cases heq
    refine ⟨hg, ⟨(fun h => by cases h), hg.ok c, (fun p he => by cases he), (fun p he => by cases he), ?_⟩⟩
    intro size' he ho
    cases he
    have hr : r = none := Out.ptr.inj ho
    obtain ⟨hm, hno⟩ := hnone hr
    refine ⟨?_, hno⟩
    rw [hm, hr]
    rfl
  | free ptr =>
    obtain ⟨hp, heq⟩ := Option.ite_none_right_eq_some.1 hs
    by_cases hlive : ptr ∈ s.live
    · obtain ⟨m', hf, hl, hg, h₁, h₂⟩ := h.release c hlive
      rw [returned_some _ hf] at heq
      cases heq
      refine ⟨hg, ⟨(fun h => by cases h), hg.ok c, ?_, ?_, (fun size he => by cases he)⟩⟩
      · intro p he _
        cases he
        exact ⟨rfl, hl, rfl, h₁, h₂⟩
      · intro p he hno
        cases he
        exact absurd hlive hno
    · rw [returned_some _ (appMemFree_foreign c (hp.resolve_left hlive))] at heq
      cases heq
      have hsame : (⟨s.mem, s.live.erase ptr⟩ : State) = s := by rw [List.erase_of_not_mem hlive]
      rw [hsame]
      refine ⟨h, ⟨(fun h => by cases h), h.ok c, ?_, (fun p _ _ => ⟨rfl, rfl⟩), (fun size he => by cases he)⟩⟩
      intro p he hl
      cases he
      exact absurd hl hlive
  | write a bs =>
    obtain ⟨ha, heq⟩ := Option.ite_none_right_eq_some.1 hs
    cases heq
    have hg := h.write c ha
    exact ⟨hg, ⟨(fun h => by cases h), hg.ok c, (fun p he => by cases he), (fun p he => by cases he),
      (fun size he => by cases he)⟩⟩

end Arenas

/-! ## From the start -/

/-- The cache arena: the ways of the caches, or a memory that lies below 2^32. -/
def Ram (sdramSize : Nat) : Prop := (sdramSize = 0 ∨ 31 ≤ sdramSize) ∧ 0x4000000 + sdramSize < 4294967296

theorem Ram.bounds {sdramSize : Nat} (h : Ram sdramSize) : 4 ∣ (cacheRamConfig sdramSize).1 ∧
    appMemAddrEnd ≤ (cacheRamConfig sdramSize).1 ∧ 31 ≤ (cacheRamConfig sdramSize).2 ∧
      (cacheRamConfig sdramSize).1 + (cacheRamConfig sdramSize).2 < 4294967296 := by
  obtain ⟨h₁, h₂⟩ := h
  unfold cacheRamConfig
  split
  · dsimp only
    exact ⟨by decide, by decide, by omega, h₂⟩
  · exact ⟨by decide, by decide, by decide, by decide⟩

theorem alignedHead_of_dvd {buf : Nat} (h : 4 ∣ buf) : alignedHead buf = buf := by
  unfold alignedHead
  rw [if_neg (by omega), Nat.add_zero]

section Start

variable {sdramSize : Nat} (m : Mem)

/-- The memory with one arena. -/
def appInit : Mem := (lbufInit (m.fill appMemAddrStart appMemSize 0) appMemAddrStart appMemSize).1

theorem appMemInit_eq (h : Ram sdramSize) : appMemInit m sdramSize =
    ((lbufInit (appInit m) (cacheRamConfig sdramSize).1 (cacheRamConfig sdramSize).2).1,
      ⟨(cacheRamConfig sdramSize).1, (cacheRamConfig sdramSize).1, (cacheRamConfig sdramSize).2, appMemAddrStart⟩) := by
  obtain ⟨h4, hend, -⟩ := h.bounds
  have hne : (cacheRamConfig sdramSize).1 ≠ 0 := by
    have : 0 < appMemAddrEnd := by decide
    omega
  have hhead : ∀ m : Mem, (lbufInit m (cacheRamConfig sdramSize).1 (cacheRamConfig sdramSize).2).2 =
      (cacheRamConfig sdramSize).1 := fun m => alignedHead_of_dvd h4
  have happ : ∀ m : Mem, (lbufInit m appMemAddrStart appMemSize).2 = appMemAddrStart := fun m =>
    alignedHead_of_dvd (by decide)
  unfold appMemInit
  dsimp only
  rw [if_pos hne, hhead, happ]
  rfl

theorem config_init (h : Ram sdramSize) : Config (appMemInit m sdramSize).2 := by
  obtain ⟨-, hend, -, htop⟩ := h.bounds
  rw [appMemInit_eq m h]
  refine ⟨rfl, rfl, ?_, htop, fun a hc ha => ?_⟩
  · have : 0 < appMemAddrEnd := by decide
    dsimp only
    omega
  · unfold InCach at hc
    unfold InApp at ha
    dsimp only at hc
    omega

theorem good_start (h : Ram sdramSize) : Good (appMemInit m sdramSize).2 (start m sdramSize) := by
  obtain ⟨h4, hend, hlen, htop⟩ := h.bounds
  unfold start
  rw [appMemInit_eq m h]
  have hpos : 0 < appMemAddrStart := by decide
  have hle : appMemAddrStart + appMemSize ≤ appMemAddrEnd := by decide
  obtain ⟨m₁, hi₁, R₁⟩ := @lbufInit_rep (m.fill appMemAddrStart appMemSize 0) appMemAddrStart appMemSize hpos (by decide)
    (by decide)
  obtain ⟨m₂, hi₂, R₂⟩ := @lbufInit_rep (appInit m) _ _ (by omega) hlen (Nat.le_of_lt htop)
  rw [alignedHead_of_dvd (by decide)] at R₁
  rw [alignedHead_of_dvd h4] at R₂
  have hm₁ : appInit m = m₁ := congrArg Prod.fst hi₁
  have hm₂ : (lbufInit (appInit m) (cacheRamConfig sdramSize).1 (cacheRamConfig sdramSize).2).1 = m₂ :=
    congrArg Prod.fst hi₂
  rw [hm₂]
  refine ⟨fun A hA => ?_, fun p hp => by cases hp⟩
  simp only [arenas, List.mem_cons, List.not_mem_nil, or_false] at hA
  rcases hA with rfl | rfl
  · exact ⟨[], R₂, ⟨by dsimp only; omega, Nat.le_of_lt htop⟩, List.Perm.refl _, rfl⟩
  · refine ⟨[], R₁.frame (fun a ha => ?_), by decide, List.Perm.refl _, rfl⟩
    have hin := R₁.bytes ha
    rw [← hm₁, ← hm₂]
    exact lbufInit_outside hlen (Nat.le_of_lt htop) (.inl (by
      have : appMemAddrStart + appMemSize - 12 + 12 ≤ appMemAddrEnd := by decide
      omega))

/-- **The law of the two arenas**, along good runs. -/
theorem arenas_law (h : Ram sdramSize) (es : List Ev)
    (hgood : (machine (appMemInit m sdramSize).2).Along (fun s e _ _ => Fitting (appMemInit m sdramSize).2 s e)
      (start m sdramSize) es) :
    ArenasOk (appMemInit m sdramSize).2 (start m sdramSize) ∧
      (machine (appMemInit m sdramSize).2).Along (Law (appMemInit m sdramSize).2) (start m sdramSize) es := by
  have c := config_init m h
  exact ⟨(good_start m h).ok c, Machine.along_of_inv (Good (appMemInit m sdramSize).2)
    (fun s e s' o hI hs hfit => good_step c hI hs hfit) es _ (good_start m h) hgood⟩

end Start

theorem arenas_law_eight : (machine (appMemInit (fun _ => 0) 0).2).Along (Law (appMemInit (fun _ => 0) 0).2)
    (start (fun _ => 0) 0) [.malloc 8, .malloc 60000, .free 32641060] :=
  (arenas_law (fun _ => 0) (by unfold Ram; decide : Ram 0) [.malloc 8, .malloc 60000, .free 32641060]
    (fun _ _ _ => ⟨.inl (by decide), fun _ _ _ => ⟨.inl (by decide), fun _ _ _ => ⟨trivial, trivial⟩⟩⟩)).2

/-- A request of nearly 4 GiB is met, and what it got is never taken back. -/
theorem not_arenas_law : ¬ ∀ (m : Mem) (sdramSize : Nat) (es : List Ev), Ram sdramSize →
    (machine (appMemInit m sdramSize).2).Along (Law (appMemInit m sdramSize).2) (start m sdramSize) es := by
  intro h
  have hram : Ram 0 := by
    unfold Ram
    decide
  have c := config_init (fun _ => 0) hram
  obtain ⟨L, hL⟩ := (good_start (fun _ => 0) hram).heaps _ cach_mem
  have hA := h (fun _ => 0) 0 [.malloc 4294967276, .free 32641060] hram
  have hg : (appMemInit (fun _ => 0) 0).2 = ⟨32641024, 32641024, 56832, appMemAddrStart⟩ := by
    rw [appMemInit_eq _ hram]
    rfl
  rw [hg] at c hL hA
  have hnil : L = [] := List.map_eq_nil_iff.1 hL.live.eq_nil
  rw [hnil] at hL
  obtain ⟨m₁, ha, hf⟩ := wrapped_alloc hL.rep (by decide)
  have hmalloc : appMemMalloc ⟨32641024, 32641024, 56832, appMemAddrStart⟩ (start (fun _ => 0) 0).mem 4294967276 =
      some (some 32641060, m₁) := by
    unfold appMemMalloc cachMemMalloc
    rw [if_pos (by decide)]
    exact congrArg (fun r => Option.bind r _) ha
  have hfree : appMemFree ⟨32641024, 32641024, 56832, appMemAddrStart⟩ m₁ 32641060 = none := by
    unfold appMemFree cachMemFree
    rw [if_pos (by decide)]
    exact congrArg (fun r => Option.bind (Option.map _ r) _) hf
  have hs₁ : step ⟨32641024, 32641024, 56832, appMemAddrStart⟩ (start (fun _ => 0) 0) (.malloc 4294967276) =
      some (⟨m₁, [32641060]⟩, .ptr (some 32641060)) := by
    rw [step, if_pos (by decide), returned_some _ hmalloc]
    rfl
  have hs₂ : step ⟨32641024, 32641024, 56832, appMemAddrStart⟩ ⟨m₁, [32641060]⟩ (.free 32641060) =
      some (⟨m₁, [32641060]⟩, .hang) := by
    rw [step, if_pos (.inl List.mem_cons_self), returned, hfree]
    rfl
  exact ((hA _ _ hs₁).2 _ _ hs₂).1.returns rfl

end AppMem
end OtaLoader
