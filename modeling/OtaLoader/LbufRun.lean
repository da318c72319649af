import Mathlib.Data.List.Basic
import OtaLoader.LbufRep
import OtaLoader.Machine
/-!
# LbufRun — the clients of a buffer

Clients get blocks and give them back, queue them, take messages from the queue and write where they may.  A step is
good when a push finds the count of the block at 0 exactly if the block is not queued, and a size does not wrap.  Runs of
good steps keep the buffer represented (`holds_step`).
-/
namespace OtaLoader
namespace Lbuf

open Links Gaps

/-- The memory, the blocks the clients hold, and those they have pushed since they got them, in the order of the first
push. -/
structure State where
  mem    : Mem
  live   : List Nat
  pushed : List Nat

inductive Ev where
  | alloc (len : Nat)
  | free (lbuf : Nat)
  | realloc (lbuf size : Nat)
  | push (lbuf : Nat)
  | pop
  | clear
  | incRef (lbuf : Nat)
  | write (a : Nat) (bs : List UInt8)

inductive Out where
  | done
  | ptr (r : Option Nat)
  | hang
deriving DecidableEq

/-- A call that returns, or does not. -/
def returned {α : Type} (s : State) (r : Option α) (f : α → State × Out) : State × Out := (r.map f).getD (s, .hang)

/-- What a client may write: the payload of a block it holds, and what is not in the buffer. -/
def Mine (base stop : Nat) (s : State) (a : Nat) : Prop :=
  a < base ∨ stop ≤ a ∨ ∃ p ∈ s.live, p ≤ a ∧ a < getEntry p + entryLen s.mem (getEntry p)

instance (base stop : Nat) (s : State) (a : Nat) : Decidable (Mine base stop s a) := by
  unfold Mine
  exact inferInstance

def step (base stop : Nat) (s : State) : Ev → Option (State × Out)
  | .alloc len         =>
    if len < 4294967296 then some (returned s (lbufAlloc s.mem base len) (fun r =>
      ({ s with mem := r.2, live := r.1.toList ++ s.live }, .ptr r.1)))
    else none
  | .free lbuf         =>
    if lbuf ∈ s.live then some (returned s (lbufFree s.mem lbuf) (fun m =>
      (⟨m, s.live.erase lbuf, s.pushed.erase lbuf⟩, .done)))
    else none
  | .realloc lbuf size =>
    -- the assertion of the code
    if lbuf ∈ s.live ∧ roundUp size < entryLen s.mem (getEntry lbuf) then
      some (returned s (lbufRealloc s.mem lbuf size) (fun r => ({ s with mem := r.2 }, .ptr r.1)))
    else none
  | .push lbuf         =>
    if lbuf ∈ s.live then
      some (⟨lbufPush s.mem lbuf, s.live, if lbuf ∈ s.pushed then s.pushed else s.pushed ++ [lbuf]⟩, .done)
    else none
  | .pop               => some (returned s (lbufPop s.mem base) (fun r => ({ s with mem := r.2 }, .ptr r.1)))
  | .clear             => some (returned s (lbufClear s.mem base) (fun m =>
      (⟨m, s.live.filter (fun p => p ∉ s.pushed), []⟩, .done)))
  | .incRef lbuf       => if lbuf ∈ s.live then some ({ s with mem := lbufIncRef s.mem lbuf }, .done) else none
  | .write a bs        =>
    if ∀ i, i < bs.length → Mine base stop s (a + i) then some ({ s with mem := s.mem.write a bs }, .done) else none

def machine (base stop : Nat) : Machine State Ev Out := ⟨step base stop⟩

/-- The buffer as it is handed to the clients. -/
def start (m : Mem) (buf bufLen : Nat) : State := ⟨(lbufInit m buf bufLen).1, [], []⟩

/-- The free blocks, read from the memory. -/
def freeList (m : Mem) (base : Nat) : Option (List Block) :=
  (nodes m (freeHead base)).map (List.map fun p => (p, freeLen m p))

/-- No free block has the length that is computed for a request. -/
def NoFit (m : Mem) (base len : Nat) : Prop := ∀ F, freeList m base = some F → ∀ b ∈ F, b.2 < blockLen len

/-- The size of a request does not wrap, or nothing is found for it; a push finds the count at 0 exactly if the block is
not queued. -/
def Counted (base : Nat) (s : State) : Ev → Prop
  | .alloc len => len ≤ 4294967272 ∨ NoFit s.mem base len
  | .push lbuf => entryRef s.mem (getEntry lbuf) = 0 ↔ lbuf ∉ s.pushed
  | _          => True

/-! ## What good runs keep -/

structure Holds (base stop : Nat) (s : State) (L : List Block) (q : List Nat) : Prop where
  rep    : Rep s.mem base (stop - 12) L q
  stop   : base + 28 ≤ stop ∧ stop ≤ 4294967296
  live   : (L.map (fun b => b.1 + sizeofEntry)).Perm s.live
  pushed : s.pushed = q.map (· + sizeofEntry)

section Steps

variable {m : Mem} {base stop : Nat} {s s' : State} {o : Out} {L : List Block} {q : List Nat}

theorem FreeList.freeList {M : List Block} (f : FreeList m (freeHead base) M) (r : Room (freeHead base) M) :
    freeList m base = some M := by
  unfold Lbuf.freeList
  rw [nodes_ring f.ring r.notMem r.length_lt, Option.map_some, List.map_map]
  refine congrArg some ((List.map_congr_left (fun b hb => ?_)).trans (List.map_id _))
  rw [Function.comp_apply, f.lens b hb]
  rfl

theorem Rep.freeList {hi : Nat} (R : Rep m base hi L q) : freeList m base = some (frees (base + 16) hi L) :=
  R.free.freeList R.room

theorem Holds.block (h : Holds base stop s L q) {p : Nat} (hp : p ∈ s.live) :
    ∃ L₁ x n L₂, L = L₁ ++ (x, n) :: L₂ ∧ p = x + sizeofEntry ∧ getEntry p = x := by
  obtain ⟨b, hb, rfl⟩ := List.mem_map.1 (h.live.mem_iff.2 hp)
  obtain ⟨L₁, L₂, rfl⟩ := List.append_of_mem hb
  have := h.rep.bounds hb
  exact ⟨L₁, b.1, b.2, L₂, rfl, rfl, getEntry_add (by omega)⟩

theorem Holds.noFit {len : Nat} (h : Holds base stop s L q) (hn : NoFit s.mem base len) :
    lbufAlloc s.mem base len = some (none, s.mem) :=
  lbufAlloc_none h.rep (hn _ h.rep.freeList)

/-- A block more, and the pointer to it. -/
theorem Holds.takes {x n : Nat} {L₁ L₂ : List Block} {m' : Mem} (h : Holds base stop s (L₁ ++ L₂) q)
    (R : Rep m' base (stop - 12) (L₁ ++ (x, n) :: L₂) q) :
    Holds base stop { s with mem := m', live := (x + sizeofEntry) :: s.live } (L₁ ++ (x, n) :: L₂) q := by
  refine ⟨R, h.stop, ?_, h.pushed⟩
  rw [List.map_append, List.map_cons]
  refine List.perm_middle.trans (List.Perm.cons _ ?_)
  rw [← List.map_append]
  exact h.live

/-- A block handed out. -/
theorem Holds.alloc {len : Nat} (h : Holds base stop s L q) (hlen : len ≤ 4294967272 ∨ NoFit s.mem base len) :
    ∃ r m' L', lbufAlloc s.mem base len = some (r, m') ∧
      Holds base stop { s with mem := m', live := r.toList ++ s.live } L' q := by
  rcases hlen with hlen | hlen
  · obtain ⟨-, h20, h4⟩ := blockLen_bounds hlen
    cases hf : (frees (base + 16) (stop - 12) L).find? (fun b => decide (blockLen len ≤ b.2)) with
    | none =>
      have hnone := lbufAlloc_none h.rep (fun b hb => by simpa using List.find?_eq_none.1 hf b hb)
      exact ⟨none, s.mem, L, hnone, h.rep, h.stop, h.live, h.pushed⟩
    | some b =>
      obtain ⟨m', n, L₁, L₂, ha, rfl, -, -, -, R, -⟩ := lbufAlloc_rep h.rep ⟨h20, h4⟩ hf
      exact ⟨_, m', _, ha, h.takes R⟩
  · exact ⟨none, s.mem, L, h.noFit hlen, h.rep, h.stop, h.live, h.pushed⟩

theorem add_injective : Function.Injective (fun x : Nat => x + sizeofEntry) := fun _ _ h => Nat.add_right_cancel h

theorem Holds.nodup (h : Holds base stop s L q) : s.live.Nodup :=
  h.live.nodup (List.pairwise_map.2 (h.rep.seats.apart.imp (fun hbc heq => by
    have := Nat.add_right_cancel heq
    omega)))

/-- A block less, and the pointer to it. -/
theorem Holds.gives {x n : Nat} {L₁ L₂ : List Block} {m' : Mem} (h : Holds base stop s (L₁ ++ (x, n) :: L₂) q)
    (R : Rep m' base (stop - 12) (L₁ ++ L₂) (q.erase x)) :
    Holds base stop ⟨m', s.live.erase (x + sizeofEntry), s.pushed.erase (x + sizeofEntry)⟩ (L₁ ++ L₂) (q.erase x) := by
  have hp : x + sizeofEntry ∈ s.live :=
    h.live.mem_iff.1 (List.mem_map_of_mem (f := fun b : Block => b.1 + sizeofEntry) (a := (x, n)) (by simp))
  refine ⟨R, h.stop, ?_, ?_⟩
  · have hperm := h.live
    rw [List.map_append, List.map_cons] at hperm
    have hcons := (List.perm_middle.symm.trans hperm).trans (List.perm_cons_erase hp)
    rw [List.map_append]
    exact hcons.cons_inv
  · rw [h.pushed]
    exact (List.map_erase add_injective q).symm

/-- A block given back. -/
theorem Holds.free {p : Nat} (h : Holds base stop s L q) (hp : p ∈ s.live) :
    ∃ m' L', lbufFree s.mem p = some m' ∧
      Holds base stop ⟨m', s.live.erase p, s.pushed.erase p⟩ L' (q.erase (getEntry p)) := by
  obtain ⟨L₁, x, n, L₂, rfl, rfl, hx⟩ := h.block hp
  obtain ⟨m', hf, R, -⟩ := lbufFree_rep h.rep
  rw [hx]
  exact ⟨m', L₁ ++ L₂, hf, h.gives R⟩

/-- A block cut. -/
theorem Holds.realloc {p size : Nat} (h : Holds base stop s L q) (hp : p ∈ s.live)
    (hsize : roundUp size < entryLen s.mem (getEntry p)) :
    ∃ r m' L', lbufRealloc s.mem p size = some (r, m') ∧ Holds base stop { s with mem := m' } L' q := by
  obtain ⟨L₁, x, n, L₂, rfl, rfl, hx⟩ := h.block hp
  rw [hx, (h.rep.used.words (x, n) (by simp)).2] at hsize
  obtain ⟨m', r, k, hr, -, R, -⟩ := lbufRealloc_rep h.rep hsize
  refine ⟨r, m', _, hr, R, h.stop, ?_, h.pushed⟩
  have := h.live
  rw [List.map_append, List.map_cons] at this ⊢
  exact this

/-- A block queued, or counted. -/
theorem Holds.push {p : Nat} (h : Holds base stop s L q) (hp : p ∈ s.live)
    (hc : entryRef s.mem (getEntry p) = 0 ↔ p ∉ s.pushed) :
    ∃ q', Holds base stop ⟨lbufPush s.mem p, s.live, if p ∈ s.pushed then s.pushed else s.pushed ++ [p]⟩ L q' := by
  obtain ⟨L₁, x, n, L₂, rfl, rfl, hx⟩ := h.block hp
  obtain ⟨hnew, hold⟩ := lbufPush_rep h.rep (x := x) (n := n) (by simp)
  have hmem : x + sizeofEntry ∈ s.pushed ↔ x ∈ q := by
    rw [h.pushed]
    exact List.mem_map_of_injective add_injective
  rw [hx] at hc
  generalize lbufPush s.mem (x + sizeofEntry) = m' at hnew hold ⊢
  split
  · rename_i hpushed
    exact ⟨q, hold (fun h0 => hc.1 h0 hpushed), h.stop, h.live, h.pushed⟩
  · rename_i hpushed
    refine ⟨q ++ [x], hnew (hc.2 hpushed) (fun hq => hpushed (hmem.2 hq)), h.stop, h.live, ?_⟩
    rw [List.map_append, ← h.pushed]
    rfl

theorem Holds.pop (h : Holds base stop s L q) :
    ∃ r m', lbufPop s.mem base = some (r, m') ∧ Holds base stop { s with mem := m' } L q := by
  cases hf : q.find? (fun p => entryState s.mem p == 0) with
  | none   => exact ⟨none, s.mem, lbufPop_none h.rep hf, h⟩
  | some p =>
    have hp := h.rep.used.queued (List.mem_of_find?_eq_some hf)
    exact ⟨_, _, lbufPop_some h.rep hf, setState_rep h.rep hp, h.stop, h.live, h.pushed⟩

theorem Holds.clear (h : Holds base stop s L q) :
    ∃ m', lbufClear s.mem base = some m' ∧ freeAll s.mem s.pushed = some m' ∧
      Holds base stop ⟨m', s.live.filter (fun p => p ∉ s.pushed), []⟩ (L.filter (fun b => b.1 ∉ q)) [] := by
  obtain ⟨m', hc, hall, R, -⟩ := lbufClear_rep h.rep
  refine ⟨m', hc, h.pushed ▸ hall, R, h.stop, ?_, rfl⟩
  have hfilter : (L.filter (fun b => b.1 ∉ q)).map (fun b => b.1 + sizeofEntry) =
      (L.map (fun b => b.1 + sizeofEntry)).filter (fun p => p ∉ s.pushed) := by
    rw [List.filter_map]
    refine congrArg _ (List.filter_congr (fun b _ => decide_eq_decide.2 (not_congr ?_)))
    rw [h.pushed]
    exact (List.mem_map_of_injective add_injective).symm
  rw [hfilter]
  exact h.live.filter _

theorem Holds.incRef {p : Nat} (h : Holds base stop s L q) (hp : p ∈ s.live) :
    Holds base stop { s with mem := lbufIncRef s.mem p } L q := by
  obtain ⟨L₁, x, n, L₂, rfl, rfl, -⟩ := h.block hp
  exact ⟨lbufIncRef_rep h.rep (n := n) (by simp), h.stop, h.live, h.pushed⟩

/-- What is the clients' is in no header. -/
theorem Holds.write {a : Nat} {bs : List UInt8} (h : Holds base stop s L q)
    (ha : ∀ i, i < bs.length → Mine base stop s (a + i)) : Holds base stop { s with mem := s.mem.write a bs } L q := by
  refine ⟨h.rep.frame (fun y hy => Mem.write_outside ?_), h.stop, h.live, h.pushed⟩
  by_contra hcon
  have hmine := ha (y - a) (by omega)
  rw [Nat.add_sub_cancel' (by omega)] at hmine
  have hstop := h.stop
  have hin := h.rep.bytes hy
  rcases hmine with hlt | hge | ⟨p, hp, h₁, h₂⟩
  · omega
  · omega
  · obtain ⟨L₁, x, n, L₂, rfl, rfl, hx⟩ := h.block hp
    have hxm : (x, n) ∈ L₁ ++ (x, n) :: L₂ := by simp
    have hlen : entryLen s.mem x = n := (h.rep.used.words _ hxm).2
    rw [hx, hlen] at h₂
    unfold sizeofEntry at h₁
    rcases hy with hy | hy
    · exact notMem_freeBytes_inside h.rep.heap hxm (by dsimp only; omega) h₂ hy
    · exact notMem_entryBytes_inside h.rep.heap hxm (by dsimp only; omega) h₂ hy

/-- A buffer whose bytes are the same. -/
theorem Holds.of_same (h : Holds base stop s L q) (hm : ∀ a, base ≤ a → a < stop → s'.mem a = s.mem a)
    (hlive : s.live.Perm s'.live) (hpushed : s'.pushed = s.pushed) : Holds base stop s' L q := by
  have hstop := h.stop
  refine ⟨h.rep.frame (fun a ha => ?_), h.stop, h.live.trans hlive, hpushed.trans h.pushed⟩
  have := h.rep.bytes ha
  exact hm a this.1 (by omega)

theorem returned_some {α : Type} {r : Option α} {a : α} (f : α → State × Out) (h : r = some a) :
    returned s r f = f a := by rw [h]; rfl

/-- **A good step** returns and keeps the buffer represented. -/
theorem holds_step {e : Ev} (h : Holds base stop s L q) (hs : step base stop s e = some (s', o))
    (hc : Counted base s e) : o ≠ .hang ∧ ∃ L' q', Holds base stop s' L' q' := by
  cases e with
  | alloc len =>
    obtain ⟨-, heq⟩ := Option.ite_none_right_eq_some.1 hs
    obtain ⟨r, m', L', ha, h'⟩ := h.alloc hc
    rw [returned_some _ ha] at heq
    cases heq
    exact ⟨(fun h => by cases h), L', q, h'⟩
  | free lbuf =>
    obtain ⟨hp, heq⟩ := Option.ite_none_right_eq_some.1 hs
    obtain ⟨m', L', hf, h'⟩ := h.free hp
    rw [returned_some _ hf] at heq
    cases heq
    exact ⟨(fun h => by cases h), L', _, h'⟩
  | realloc lbuf size =>
    obtain ⟨⟨hp, hsize⟩, heq⟩ := Option.ite_none_right_eq_some.1 hs
    obtain ⟨r, m', L', hr, h'⟩ := h.realloc hp hsize
    rw [returned_some _ hr] at heq
    cases heq
    exact ⟨(fun h => by cases h), L', q, h'⟩
  | push lbuf =>
    obtain ⟨hp, heq⟩ := Option.ite_none_right_eq_some.1 hs
    obtain ⟨q', h'⟩ := h.push hp hc
    obtain ⟨hs', ho⟩ := Prod.mk.inj (Option.some.inj heq)
    rw [← hs', ← ho]
    exact ⟨(fun h => by cases h), L, q', h'⟩
  | pop =>
    obtain ⟨r, m', hr, h'⟩ := h.pop
    have heq := Option.some.inj hs
    rw [returned_some _ hr] at heq
    cases heq
    exact ⟨(fun h => by cases h), L, q, h'⟩
  | clear =>
    obtain ⟨m', hr, -, h'⟩ := h.clear
    have heq := Option.some.inj hs
    rw [returned_some _ hr] at heq
    cases heq
    exact ⟨(fun h => by cases h), _, [], h'⟩
  | incRef lbuf =>
    obtain ⟨hp, heq⟩ := Option.ite_none_right_eq_some.1 hs
    cases heq
    exact ⟨(fun h => by cases h), L, q, h.incRef hp⟩
  | write a bs =>
    obtain ⟨ha, heq⟩ := Option.ite_none_right_eq_some.1 hs
    cases heq
    exact ⟨(fun h => by cases h), L, q, h.write ha⟩

/-- **The states that good runs reach.** -/
theorem Holds.run (h : Holds base stop s L q) {es : List Ev} {os : List Out}
    (hgood : (machine base stop).Along (fun s e _ _ => Counted base s e) s es)
    (hrun : (machine base stop).run s es = some (s', os)) : ∃ L q, Holds base stop s' L q := by
  have hall := Machine.along_of_inv (M := machine base stop) (C := fun s e _ _ => Counted base s e)
    (Q := fun _ _ s' _ => ∃ L q, Holds base stop s' L q) (fun s => ∃ L q, Holds base stop s L q)
    (fun s e s' o hI hs hc => by
      obtain ⟨L, q, h⟩ := hI
      exact ⟨(holds_step h hs hc).2, (holds_step h hs hc).2⟩) es _ ⟨_, _, h⟩ hgood
  exact Machine.along_reached es s s' os hall ⟨_, _, h⟩ hrun

theorem holds_start {buf bufLen : Nat} (m : Mem) (h0 : 0 < buf) (hlen : 31 ≤ bufLen) (htop : buf + bufLen ≤ 4294967296) :
    Holds (alignedHead buf) (buf + bufLen) (start m buf bufLen) [] [] := by
  obtain ⟨m', hi, R⟩ := lbufInit_rep (m := m) h0 hlen htop
  have hb := alignedHead_bounds buf
  refine ⟨?_, by omega, List.Perm.refl _, rfl⟩
  unfold start
  rw [hi]
  exact R

theorem holds_run {buf bufLen : Nat} {m : Mem} (h0 : 0 < buf) (hlen : 31 ≤ bufLen) (htop : buf + bufLen ≤ 4294967296)
    {es : List Ev} (hgood : (machine (alignedHead buf) (buf + bufLen)).Along
      (fun s e _ _ => Counted (alignedHead buf) s e) (start m buf bufLen) es) {os : List Out}
    (hrun : (machine (alignedHead buf) (buf + bufLen)).run (start m buf bufLen) es = some (s, os)) :
    ∃ L q, Holds (alignedHead buf) (buf + bufLen) s L q := (holds_start m h0 hlen htop).run hgood hrun

end Steps

end Lbuf
end OtaLoader
