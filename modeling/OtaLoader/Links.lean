import Mathlib.Data.List.Chain
import Mathlib.Data.List.Perm.Subperm
import OtaLoader.Mem
/-!
# Links — circular doubly linked lists in memory (`list.h`)

A node is a pair of words, `next` and `prev`.  `Linked` says of a row of nodes that each names its neighbours; a `Ring`
is such a row that begins and ends at the head of the list.  `ring_listAdd` and `ring_listDel` are the two edits, and
`listFind_ring` says where a walk along the list stops.
-/
namespace OtaLoader
namespace Links

def next (m : Mem) (p : Nat) : Nat := m.get32 p
def prev (m : Mem) (p : Nat) : Nat := m.get32 (p + 4)

/-! ## The functions of `list.h` -/

def initListHead (m : Mem) (l : Nat) : Mem := (m.set32 l l).set32 (l + 4) l

/-- `__list_add`. -/
def listAdd (m : Mem) (new prev next : Nat) : Mem :=
  (((m.set32 (next + 4) new).set32 new next).set32 (new + 4) prev).set32 prev new

def listAddTail (m : Mem) (new head : Nat) : Mem := listAdd m new (prev m head) head

/-- `__list_del`. -/
def listDel (m : Mem) (prev next : Nat) : Mem :=
  if prev = 0 ∨ next = 0 then m else (m.set32 (next + 4) prev).set32 prev next

/-- `__list_del_entry`. -/
def listDelEntry (m : Mem) (entry : Nat) : Mem := listDel m (prev m entry) (next m entry)

/-- `list_for_each_entry` from `p` on, left with `break` at the first node that satisfies `P`; `none` when that many
rounds do not come back to the head. -/
def firstFrom (m : Mem) (head : Nat) (P : Nat → Bool) : Nat → Nat → Option (Option Nat)
  | 0, _     => none
  | n + 1, p => if p = head then some none else if P p then some (some p) else firstFrom m head P n (next m p)

/-- As many rounds as there are addresses: a walk that has not come back after them never does. -/
def rounds : Nat := 4294967296

def listFind (m : Mem) (head : Nat) (P : Nat → Bool) : Option (Option Nat) := firstFrom m head P rounds (next m head)

/-- The nodes of a list, in their order. -/
def nodesFrom (m : Mem) (head : Nat) : Nat → Nat → Option (List Nat)
  | 0, _     => none
  | n + 1, p => if p = head then some [] else (nodesFrom m head n (next m p)).map (p :: ·)

def nodes (m : Mem) (head : Nat) : Option (List Nat) := nodesFrom m head rounds (next m head)

/-! ## Separate nodes -/

/-- The words of two nodes do not overlap. -/
def Apart (x y : Nat) : Prop := x + 8 ≤ y ∨ y + 8 ≤ x

theorem Apart.symm {x y : Nat} (h : Apart x y) : Apart y x := Or.symm h

theorem Apart.ne {x y : Nat} (h : Apart x y) : x ≠ y := by
  rintro rfl
  rcases h with h | h <;> omega

/-- Nodes none of which overlap. -/
def Spread (S : List Nat) : Prop := S.Pairwise Apart

theorem Spread.nodup {S : List Nat} (h : Spread S) : S.Nodup := h.imp Apart.ne

/-- Two members of a list in which a relation holds in order. -/
theorem pairwise_cases {α : Type} {R : α → α → Prop} {l : List α} (h : l.Pairwise R) {a b : α} (ha : a ∈ l)
    (hb : b ∈ l) : a = b ∨ R a b ∨ R b a := by
  have hp : l.Pairwise fun a b => R a b ∨ R b a := h.imp Or.inl
  have : Std.Symm fun a b => R a b ∨ R b a := ⟨fun _ _ => Or.symm⟩
  by_cases he : a = b
  · exact .inl he
  · exact .inr (hp.forall ha hb he)

theorem Spread.sep {S : List Nat} (h : Spread S) {x y : Nat} (hx : x ∈ S) (hy : y ∈ S) : x = y ∨ Apart x y :=
  (pairwise_cases h hx hy).imp id (fun h => h.elim id Apart.symm)

section Words

variable {m : Mem} {p v x : Nat}

theorem next_set32_self (hv : v < 4294967296) : next (m.set32 p v) p = v := (Mem.get32_set32 m p v).trans (u32_of_lt hv)

theorem prev_set32_self (hv : v < 4294967296) : prev (m.set32 (p + 4) v) p = v :=
  (Mem.get32_set32 m (p + 4) v).trans (u32_of_lt hv)

theorem next_set32_next (h : Apart x p) : next (m.set32 p v) x = next m x :=
  Mem.get32_set32_outside (by unfold Apart at h; omega)

theorem next_set32_prev (h : x = p ∨ Apart x p) : next (m.set32 (p + 4) v) x = next m x :=
  Mem.get32_set32_outside (by unfold Apart at h; omega)

theorem prev_set32_prev (h : Apart x p) : prev (m.set32 (p + 4) v) x = prev m x :=
  Mem.get32_set32_outside (by unfold Apart at h; omega)

theorem prev_set32_next (h : x = p ∨ Apart x p) : prev (m.set32 p v) x = prev m x :=
  Mem.get32_set32_outside (by unfold Apart at h; omega)

end Words

/-! ## What an edit leaves of the links -/

section Edits

variable {m : Mem} {p n new x : Nat}

theorem next_listAdd (hp : x = p ∨ Apart x p) (hn : x = n ∨ Apart x n) (hnew : Apart x new) (hlt : new < 4294967296) :
    next (listAdd m new p n) x = if x = p then new else next m x := by
  unfold listAdd
  split
  · rename_i h
    rw [h, next_set32_self hlt]
  · rename_i h
    rw [next_set32_next (hp.resolve_left h), next_set32_prev (.inr hnew), next_set32_next hnew, next_set32_prev hn]

theorem prev_listAdd (hp : x = p ∨ Apart x p) (hn : x = n ∨ Apart x n) (hnew : Apart x new) (hlt : new < 4294967296) :
    prev (listAdd m new p n) x = if x = n then new else prev m x := by
  unfold listAdd
  rw [prev_set32_next hp, prev_set32_prev hnew, prev_set32_next (.inr hnew)]
  split
  · rename_i h
    rw [h, prev_set32_self hlt]
  · rename_i h
    rw [prev_set32_prev (hn.resolve_left h)]

theorem next_listAdd_new (hp : Apart new p) (hlt : n < 4294967296) : next (listAdd m new p n) new = n := by
  unfold listAdd
  rw [next_set32_next hp, next_set32_prev (.inl rfl), next_set32_self hlt]

theorem prev_listAdd_new (hp : Apart new p) (hlt : p < 4294967296) : prev (listAdd m new p n) new = p := by
  unfold listAdd
  rw [prev_set32_next (.inr hp), prev_set32_self hlt]

/-- Bytes outside the three nodes are kept. -/
theorem listAdd_outside {a : Nat} (hp : a < p ∨ p + 4 ≤ a) (hn : a < n + 4 ∨ n + 8 ≤ a) (hnew : a < new ∨ new + 8 ≤ a) :
    listAdd m new p n a = m a := by
  unfold listAdd
  rw [Mem.set32_outside hp, Mem.set32_outside (by omega), Mem.set32_outside (by omega), Mem.set32_outside (by omega)]

theorem listDel_outside {a : Nat} (hp : a < p ∨ p + 4 ≤ a) (hn : a < n + 4 ∨ n + 8 ≤ a) : listDel m p n a = m a := by
  unfold listDel
  split
  · rfl
  · rw [Mem.set32_outside hp, Mem.set32_outside (by omega)]

theorem next_listDel (h0 : p ≠ 0 ∧ n ≠ 0) (hp : x = p ∨ Apart x p) (hn : x = n ∨ Apart x n) (hlt : n < 4294967296) :
    next (listDel m p n) x = if x = p then n else next m x := by
  unfold listDel
  rw [if_neg (not_or.2 h0)]
  split
  · rename_i h
    rw [h, next_set32_self hlt]
  · rename_i h
    rw [next_set32_next (hp.resolve_left h), next_set32_prev hn]

theorem prev_listDel (h0 : p ≠ 0 ∧ n ≠ 0) (hp : x = p ∨ Apart x p) (hn : x = n ∨ Apart x n) (hlt : p < 4294967296) :
    prev (listDel m p n) x = if x = n then p else prev m x := by
  unfold listDel
  rw [if_neg (not_or.2 h0), prev_set32_next hp]
  split
  · rename_i h
    rw [h, prev_set32_self hlt]
  · rename_i h
    rw [prev_set32_prev (hn.resolve_left h)]

/-- A node linked with itself is left alone. -/
theorem listDelEntry_self (hn : next m x = x) (hp : prev m x = x) : listDelEntry m x = m := by
  unfold listDelEntry listDel
  split
  · rfl
  · have h1 : m.set32 (x + 4) x = m := by
      conv_lhs => rw [show m.set32 (x + 4) x = m.set32 (x + 4) (prev m x) by rw [hp]]
      exact Mem.set32_get32_self m (x + 4)
    have h2 : m.set32 x x = m := by
      conv_lhs => rw [show m.set32 x x = m.set32 x (next m x) by rw [hn]]
      exact Mem.set32_get32_self m x
    rw [hp, hn, h1, h2]

end Edits

/-! ## Rings -/

/-- Neighbours name each other. -/
def Linked (m : Mem) (l : List Nat) : Prop := l.IsChain (fun a b => next m a = b ∧ prev m b = a)

/-- The list with this head and these nodes. -/
def Ring (m : Mem) (head : Nat) (xs : List Nat) : Prop := Linked m (head :: xs ++ [head])

/-- Only `next` of all but the last and `prev` of all but the first are looked at. -/
theorem Linked.frame {m m' : Mem} : ∀ {l : List Nat}, Linked m l → (∀ x ∈ l.dropLast, next m' x = next m x) →
    (∀ x ∈ l.tail, prev m' x = prev m x) → Linked m' l
  | [], _, _, _ => .nil
  | [x], _, _, _ => .singleton x
  | x :: y :: l, h, hn, hp => by
    obtain ⟨hxy, hl⟩ := List.isChain_cons_cons.1 h
    refine List.isChain_cons_cons.2 ⟨⟨?_, ?_⟩, Linked.frame hl (fun z hz => hn z ?_) (fun z hz => hp z ?_)⟩
    · rw [hn x (by simp)]
      exact hxy.1
    · rw [hp y (by simp)]
      exact hxy.2
    · rw [List.dropLast_cons_cons]
      exact List.mem_cons_of_mem x hz
    · exact List.mem_cons_of_mem y hz

theorem Ring.frame {m m' : Mem} {head : Nat} {xs : List Nat} (h : Ring m head xs)
    (hm : ∀ x ∈ head :: xs, ∀ i, i < 8 → m' (x + i) = m (x + i)) : Ring m' head xs := by
  have hnext : ∀ x ∈ head :: xs, next m' x = next m x := fun x hx =>
    Mem.get32_congr (fun i hi => hm x hx i (by omega))
  have hprev : ∀ x ∈ head :: xs, prev m' x = prev m x := fun x hx =>
    Mem.get32_congr (fun i hi => by rw [Nat.add_assoc]; exact hm x hx (4 + i) (by omega))
  refine Linked.frame h (fun x hx => hnext x ?_) (fun x hx => hprev x ?_)
  · rwa [List.dropLast_concat] at hx
  · rcases List.mem_append.1 hx with hx | hx
    · exact List.mem_cons_of_mem head hx
    · exact List.mem_cons.2 (.inl (List.mem_singleton.1 hx))

theorem ring_nil {m : Mem} {head : Nat} : Ring m head [] ↔ next m head = head ∧ prev m head = head := by
  unfold Ring Linked
  simp

/-- A ring is two rows, and a link between the last node of the one and the first of the other. -/
theorem ring_append {m : Mem} {head : Nat} {xs ys : List Nat} : Ring m head (xs ++ ys) ↔
    Linked m (head :: xs) ∧ Linked m (ys ++ [head]) ∧
      next m (xs.getLast?.getD head) = ys.head?.getD head ∧ prev m (ys.head?.getD head) = xs.getLast?.getD head := by
  unfold Ring Linked
  rw [show head :: (xs ++ ys) ++ [head] = (head :: xs) ++ (ys ++ [head]) by simp, List.isChain_append]
  have hv : (ys ++ [head]).head? = some (ys.head?.getD head) := by cases ys <;> rfl
  rw [List.getLast?_cons, hv]
  simp only [Option.mem_def, Option.some.injEq, forall_eq']

/-- The rows on both sides of some nodes. -/
theorem Ring.parts {m : Mem} {head : Nat} {xs mid ys : List Nat} (h : Ring m head (xs ++ mid ++ ys)) :
    Linked m (head :: xs) ∧ Linked m (ys ++ [head]) := by
  have hl := (ring_append.1 h).1
  rw [← List.cons_append] at hl
  exact ⟨hl.left_of_append, (ring_append.1 h).2.1⟩

section Splice

variable {m m' : Mem} {head : Nat} {xs ys : List Nat}

/-- The node before the gap and the node behind it. -/
theorem getLast_mem : xs.getLast?.getD head ∈ head :: xs := by
  cases h : xs.getLast? with
  | none   => exact List.mem_cons_self
  | some x => exact List.mem_cons_of_mem head (List.mem_of_getLast? h)

theorem head_mem : ys.head?.getD head ∈ head :: ys := by
  cases ys with
  | nil      => exact List.mem_cons_self
  | cons y _ => exact List.mem_cons_of_mem head List.mem_cons_self

theorem ne_last {l : List Nat} (h : (head :: l).Nodup) {x : Nat} (hx : x ∈ (head :: l).dropLast) :
    x ≠ l.getLast?.getD head := by
  rintro rfl
  have hsplit : (head :: l).dropLast ++ [l.getLast?.getD head] = head :: l :=
    List.dropLast_append_getLast? _ (by rw [List.getLast?_cons]; rfl)
  rw [← hsplit] at h
  exact (List.nodup_append.1 h).2.2 _ hx _ List.mem_cons_self rfl

theorem ne_first {l : List Nat} (h : (head :: l).Nodup) {x : Nat} (hx : x ∈ (l ++ [head]).tail) :
    x ≠ l.head?.getD head := by
  rintro rfl
  cases l with
  | nil      => cases hx
  | cons y l =>
    simp only [List.cons_append, List.tail_cons, List.head?_cons, Option.getD_some, List.mem_append,
      List.mem_singleton] at hx
    rw [List.nodup_cons, List.nodup_cons] at h
    rcases hx with hx | hx
    · exact h.2.1 hx
    · exact h.1 (hx ▸ List.mem_cons_self)

/-- **An edit between two rows** that changes `next` of the node before and `prev` of the node behind only keeps both
rows. -/
theorem linked_of_parts (hl : Linked m (head :: xs)) (hr : Linked m (ys ++ [head])) (hs : (head :: (xs ++ ys)).Nodup)
    (hn : ∀ x ∈ head :: (xs ++ ys), x ≠ xs.getLast?.getD head → next m' x = next m x)
    (hp : ∀ x ∈ head :: (xs ++ ys), x ≠ ys.head?.getD head → prev m' x = prev m x) :
    Linked m' (head :: xs) ∧ Linked m' (ys ++ [head]) := by
  obtain ⟨hh, hnd⟩ := List.nodup_cons.1 hs
  obtain ⟨hx, hy, hxy⟩ := List.nodup_append.1 hnd
  have hhx : head ∉ xs := fun h => hh (List.mem_append_left _ h)
  have hhy : head ∉ ys := fun h => hh (List.mem_append_right _ h)
  constructor
  · refine hl.frame (fun x hx' => ?_) (fun x hx' => ?_)
    · refine hn x ?_ (ne_last (List.nodup_cons.2 ⟨hhx, hx⟩) hx')
      exact List.cons_subset_cons head (List.subset_append_left xs ys) (List.dropLast_subset _ hx')
    · refine hp x (List.mem_cons_of_mem head (List.mem_append_left ys hx')) ?_
      rintro rfl
      rcases List.mem_cons.1 (@head_mem head ys) with h | h
      · exact hhx (h ▸ hx')
      · exact hxy _ hx' _ h rfl
  · refine hr.frame (fun x hx' => ?_) (fun x hx' => ?_)
    · rw [List.dropLast_concat] at hx'
      refine hn x (List.mem_cons_of_mem head (List.mem_append_right xs hx')) ?_
      rintro rfl
      rcases List.mem_cons.1 (@getLast_mem head xs) with h | h
      · exact hhy (h ▸ hx')
      · exact hxy _ h _ hx' rfl
    · refine hp x ?_ (ne_first (List.nodup_cons.2 ⟨hhy, hy⟩) hx')
      rcases List.mem_append.1 (List.mem_of_mem_tail hx') with h | h
      · exact List.mem_cons_of_mem head (List.mem_append_right xs h)
      · exact List.mem_cons.2 (.inl (List.mem_singleton.1 h))

end Splice

/-- **Adding a node** between two rows, whatever stood between them, makes a ring. -/
theorem ring_listAdd {m : Mem} {head new p n : Nat} {xs ys : List Nat} (hl : Linked m (head :: xs))
    (hr : Linked m (ys ++ [head])) (hs : Spread (new :: head :: (xs ++ ys)))
    (hlt : ∀ x ∈ new :: head :: (xs ++ ys), x < 4294967296) (hp : p = xs.getLast?.getD head)
    (hn : n = ys.head?.getD head) : Ring (listAdd m new p n) head (xs ++ new :: ys) := by
  obtain ⟨hnew, hrest⟩ := List.pairwise_cons.1 hs
  have hpm : p ∈ head :: (xs ++ ys) :=
    List.cons_subset_cons head (List.subset_append_left xs ys) (hp ▸ getLast_mem)
  have hnm : n ∈ head :: (xs ++ ys) :=
    List.cons_subset_cons head (List.subset_append_right xs ys) (hn ▸ head_mem)
  have hnewlt := hlt new List.mem_cons_self
  have hnext : ∀ x ∈ head :: (xs ++ ys), next (listAdd m new p n) x = if x = p then new else next m x := fun x hx =>
    next_listAdd (Spread.sep hrest hx hpm) (Spread.sep hrest hx hnm) (hnew x hx).symm hnewlt
  have hprev : ∀ x ∈ head :: (xs ++ ys), prev (listAdd m new p n) x = if x = n then new else prev m x := fun x hx =>
    prev_listAdd (Spread.sep hrest hx hpm) (Spread.sep hrest hx hnm) (hnew x hx).symm hnewlt
  obtain ⟨hl', hr'⟩ := linked_of_parts hl hr (Spread.nodup hrest)
    (fun x hx hne => (hnext x hx).trans (if_neg (hp ▸ hne))) (fun x hx hne => (hprev x hx).trans (if_neg (hn ▸ hne)))
  refine ring_append.2 ⟨hl', ?_, ?_, ?_⟩
  · rw [List.cons_append]
    refine List.isChain_cons.2 ⟨fun y hy => ?_, hr'⟩
    have hyn : y = n := by
      rw [hn]
      cases ys <;> exact (Option.some.inj hy).symm
    rw [hyn]
    exact ⟨next_listAdd_new (hnew p hpm) (hlt n (List.mem_cons_of_mem new hnm)), (hprev n hnm).trans (if_pos rfl)⟩
  · rw [← hp]
    exact (hnext p hpm).trans (if_pos rfl)
  · rw [← hp]
    exact prev_listAdd_new (hnew p hpm) (hlt p (List.mem_cons_of_mem new hpm))

/-- **Taking out what stands between two rows** makes a ring. -/
theorem ring_listDel {m : Mem} {head p n : Nat} {xs ys : List Nat} (hl : Linked m (head :: xs))
    (hr : Linked m (ys ++ [head])) (hs : Spread (head :: (xs ++ ys)))
    (hlt : ∀ x ∈ head :: (xs ++ ys), 0 < x ∧ x < 4294967296) (hp : p = xs.getLast?.getD head)
    (hn : n = ys.head?.getD head) : Ring (listDel m p n) head (xs ++ ys) := by
  have hpm : p ∈ head :: (xs ++ ys) :=
    List.cons_subset_cons head (List.subset_append_left xs ys) (hp ▸ getLast_mem)
  have hnm : n ∈ head :: (xs ++ ys) :=
    List.cons_subset_cons head (List.subset_append_right xs ys) (hn ▸ head_mem)
  have h0 : p ≠ 0 ∧ n ≠ 0 := ⟨Nat.ne_of_gt (hlt p hpm).1, Nat.ne_of_gt (hlt n hnm).1⟩
  have hnext : ∀ x ∈ head :: (xs ++ ys), next (listDel m p n) x = if x = p then n else next m x := fun x hx =>
    next_listDel h0 (hs.sep hx hpm) (hs.sep hx hnm) (hlt n hnm).2
  have hprev : ∀ x ∈ head :: (xs ++ ys), prev (listDel m p n) x = if x = n then p else prev m x := fun x hx =>
    prev_listDel h0 (hs.sep hx hpm) (hs.sep hx hnm) (hlt p hpm).2
  obtain ⟨hl', hr'⟩ := linked_of_parts hl hr hs.nodup
    (fun x hx hne => (hnext x hx).trans (if_neg (hp ▸ hne))) (fun x hx hne => (hprev x hx).trans (if_neg (hn ▸ hne)))
  refine ring_append.2 ⟨hl', hr', ?_, ?_⟩
  · rw [← hp, ← hn]
    exact (hnext p hpm).trans (if_pos rfl)
  · rw [← hp, ← hn]
    exact (hprev n hnm).trans (if_pos rfl)

/-- What a node of a ring holds. -/
theorem Ring.links {m : Mem} {head x : Nat} {xs ys : List Nat} (h : Ring m head (xs ++ x :: ys)) :
    prev m x = xs.getLast?.getD head ∧ next m x = ys.head?.getD head := by
  obtain ⟨-, hr, -, hp⟩ := ring_append.1 h
  refine ⟨hp, (List.isChain_cons.1 (List.cons_append ▸ hr)).1 _ ?_ |>.1⟩
  cases ys <;> rfl

theorem Ring.first {m : Mem} {head : Nat} {xs : List Nat} (h : Ring m head xs) : next m head = xs.head?.getD head :=
  ((@ring_append m head [] xs).1 h).2.2.1

theorem Ring.last {m : Mem} {head : Nat} {xs : List Nat} (h : Ring m head xs) : prev m head = xs.getLast?.getD head :=
  ((@ring_append m head xs []).1 (by rwa [List.append_nil])).2.2.2

/-- **A node unlinked**, from the ring or from itself. -/
theorem ring_unlink {m : Mem} {head x : Nat} {q : List Nat} (h : Ring m head q)
    (hx : x ∉ q → next m x = x ∧ prev m x = x) (hs : Spread (head :: q))
    (hlt : ∀ y ∈ head :: q, 0 < y ∧ y < 4294967296) :
    Ring (listDelEntry m x) head (q.erase x) ∧
      ∀ a, (∀ y ∈ head :: q.erase x, a < y ∨ y + 8 ≤ a) → listDelEntry m x a = m a := by
  by_cases hq : x ∈ q
  · obtain ⟨xs, ys, rfl⟩ := List.append_of_mem hq
    have hxs : x ∉ xs := fun hmem =>
      (List.nodup_append.1 (List.nodup_cons.1 hs.nodup).2).2.2 x hmem x List.mem_cons_self rfl
    rw [List.erase_append_right _ hxs, List.erase_cons_head]
    obtain ⟨hp, hn⟩ := h.links
    obtain ⟨hl, hr⟩ := Ring.parts (by rwa [List.append_cons] at h)
    have hsub : (head :: (xs ++ ys)).Sublist (head :: (xs ++ x :: ys)) :=
      ((List.Sublist.refl xs).append (List.sublist_cons_self x ys)).cons_cons head
    have hring := ring_listDel hl hr (List.Pairwise.sublist hsub hs) (fun y hy => hlt y (hsub.subset hy)) hp hn
    refine ⟨hring, fun a ha => listDel_outside ?_ ?_⟩
    · have := ha (prev m x) (hp ▸ List.cons_subset_cons head (List.subset_append_left xs ys) getLast_mem)
      omega
    · have := ha (next m x) (hn ▸ List.cons_subset_cons head (List.subset_append_right xs ys) head_mem)
      omega
  · obtain ⟨h₁, h₂⟩ := hx hq
    rw [listDelEntry_self h₁ h₂, List.erase_of_not_mem hq]
    exact ⟨h, fun _ _ => rfl⟩

/-! ## Walks -/

/-- A ring has no more nodes than there are addresses. -/
theorem length_lt_rounds {head : Nat} {xs : List Nat} (h : (head :: xs).Nodup)
    (hlt : ∀ x ∈ head :: xs, x < 4294967296) : xs.length < rounds := by
  have hsub : head :: xs ⊆ List.range rounds := fun x hx => List.mem_range.2 (hlt x hx)
  have hle := (List.Nodup.subperm h hsub).length_le
  rwa [List.length_range, List.length_cons] at hle

theorem nodesFrom_linked {m : Mem} {head : Nat} : ∀ {ys : List Nat} {n : Nat}, Linked m (ys ++ [head]) → head ∉ ys →
    ys.length < n → nodesFrom m head n (ys.head?.getD head) = some ys
  | _, 0, _, _, hn            => absurd hn (Nat.not_lt_zero _)
  | [], _ + 1, _, _, _        => if_pos rfl
  | y :: ys, n + 1, h, hh, hn => by
    rw [List.mem_cons, not_or] at hh
    obtain ⟨hy, hrest⟩ := List.isChain_cons.1 (List.cons_append ▸ h)
    have hnext : next m y = ys.head?.getD head := (hy _ (by cases ys <;> rfl)).1
    rw [List.head?_cons, Option.getD_some, nodesFrom, if_neg (Ne.symm hh.1), hnext,
      nodesFrom_linked hrest hh.2 (Nat.lt_of_succ_lt_succ hn), Option.map_some]

theorem nodes_ring {m : Mem} {head : Nat} {xs : List Nat} (h : Ring m head xs) (hh : head ∉ xs)
    (hlen : xs.length < rounds) : nodes m head = some xs := by
  unfold nodes
  rw [h.first]
  exact nodesFrom_linked ((@ring_append m head [] xs).1 h).2.1 hh hlen

/-- **A walk along a list** stops at the first node that satisfies `P`. -/
theorem firstFrom_nodes {m : Mem} {head : Nat} {P : Nat → Bool} : ∀ {n p : Nat} {xs : List Nat},
    nodesFrom m head n p = some xs → firstFrom m head P n p = some (xs.find? P)
  | 0, _, _, h      => by cases h
  | n + 1, p, _, h => by
    rw [nodesFrom] at h
    split at h
    · rename_i hp
      cases h
      exact if_pos hp
    · rename_i hp
      obtain ⟨ys, hys, rfl⟩ := Option.map_eq_some_iff.1 h
      rw [firstFrom, if_neg hp, List.find?_cons, firstFrom_nodes hys]
      cases P p <;> rfl

theorem listFind_ring {m : Mem} {head : Nat} {xs : List Nat} {P : Nat → Bool} (h : Ring m head xs) (hh : head ∉ xs)
    (hlen : xs.length < rounds) : listFind m head P = some (xs.find? P) := firstFrom_nodes (nodes_ring h hh hlen)

/-- Nodes that only lead to each other never lead back to the head. -/
theorem nodesFrom_closed {m : Mem} {head : Nat} {S : List Nat} (hh : head ∉ S) (hS : ∀ p ∈ S, next m p ∈ S) :
    ∀ (n p : Nat), p ∈ S → nodesFrom m head n p = none
  | 0, _, _      => rfl
  | n + 1, p, hp => by
    have hne : p ≠ head := fun h => hh (h ▸ hp)
    rw [nodesFrom, if_neg hne, nodesFrom_closed hh hS n _ (hS p hp), Option.map_none]

theorem firstFrom_closed {m : Mem} {head : Nat} {P : Nat → Bool} {S : List Nat} (hh : head ∉ S)
    (hS : ∀ p ∈ S, next m p ∈ S ∧ P p = false) : ∀ (n p : Nat), p ∈ S → firstFrom m head P n p = none
  | 0, _, _      => rfl
  | n + 1, p, hp => by
    have hne : p ≠ head := fun h => hh (h ▸ hp)
    obtain ⟨hn, hP⟩ := hS p hp
    rw [firstFrom, if_neg hne, hP, if_neg (by decide), firstFrom_closed hh hS n _ hn]

end Links
end OtaLoader
