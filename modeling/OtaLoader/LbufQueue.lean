import OtaLoader.LbufLaws
/-!
# LbufQueue — the queue of messages along good runs

The queue holds the blocks that were pushed, in the order of the first push; `lbuf_pop` takes the first new one and
leaves it linked (`queue_law`).  What decides is the count of a block, and `lbuf_inc_ref` raises it as well.
-/
namespace OtaLoader
namespace Lbuf

open Links Gaps

/-- The messages on the queue, read from the memory. -/
def queueList (m : Mem) (base : Nat) : Option (List Nat) := (nodes m base).map (List.map (· + sizeofEntry))

/-- The queue holds each block that was pushed since it was handed out, once, in the order of the first push. -/
structure QueueOk (base : Nat) (s : State) : Prop where
  linked : queueList s.mem base = some s.pushed
  once   : s.pushed.Nodup ∧ ∀ p ∈ s.pushed, p ∈ s.live
  more   : ∃ r m', lbufPop s.mem base = some (r, m') ∧ lbufMoreData s.mem base = some r.isSome

structure QueueLaw (base stop : Nat) (s : State) (e : Ev) (s' : State) (o : Out) : Prop where
  returns : o ≠ .hang
  queue   : QueueOk base s'
  pop     : e = .pop → o = .ptr (s.pushed.find? (fun p => entryState s.mem (getEntry p) == 0)) ∧
    s'.mem = (s.pushed.find? (fun p => entryState s.mem (getEntry p) == 0)).elim s.mem
      (fun p => setState s.mem (getEntry p) 1)
  clear   : e = .clear → freeAll s.mem s.pushed = some s'.mem ∧ s'.live = s.live.filter (fun p => p ∉ s.pushed) ∧
    ∃ F, HeapOk base stop s' F

section Queue

variable {m : Mem} {base stop : Nat} {s s' : State} {e : Ev} {o : Out} {L : List Block} {q : List Nat}

theorem Holds.queueOk (h : Holds base stop s L q) : QueueOk base s := by
  refine ⟨?_, ⟨?_, fun p hp => ?_⟩, ?_⟩
  · unfold queueList
    rw [h.rep.nodes, Option.map_some, h.pushed]
  · rw [h.pushed]
    exact h.rep.used.nodup.map add_injective
  · rw [h.pushed] at hp
    obtain ⟨x, hx, rfl⟩ := List.mem_map.1 hp
    obtain ⟨b, hb, rfl⟩ := List.mem_map.1 (h.rep.used.queued hx)
    exact h.live.mem_iff.1 (List.mem_map_of_mem (f := fun b : Block => b.1 + sizeofEntry) hb)
  · unfold lbufMoreData
    rw [h.rep.find, Option.map_some]
    cases hf : q.find? (fun p => entryState s.mem p == 0) with
    | none   => exact ⟨none, s.mem, lbufPop_none h.rep hf, rfl⟩
    | some p => exact ⟨some _, _, lbufPop_some h.rep hf, rfl⟩

/-- The first new message, by its pointer. -/
theorem Holds.find_new (h : Holds base stop s L q) :
    s.pushed.find? (fun p => entryState s.mem (getEntry p) == 0) =
      (q.find? (fun p => entryState s.mem p == 0)).map (· + sizeofEntry) := by
  rw [h.pushed, List.find?_map]
  refine congrArg _ (List.find?_congr (fun x hx => ?_))
  obtain ⟨b, hb, rfl⟩ := List.mem_map.1 (h.rep.used.queued hx)
  have := h.rep.bounds hb
  rw [Function.comp_apply, getEntry_add (by omega)]

theorem queueLaw_step (h : Holds base stop s L q) (hs : step base stop s e = some (s', o)) (hc : Counted base s e) :
    QueueLaw base stop s e s' o := by
  obtain ⟨ho, L', q', h'⟩ := holds_step h hs hc
  refine ⟨ho, h'.queueOk, fun he => ?_, fun he => ?_⟩
  · subst he
    have heq := Option.some.inj hs
    rw [h.find_new]
    cases hf : q.find? (fun p => entryState s.mem p == 0) with
    | none =>
      rw [returned_some _ (lbufPop_none h.rep hf)] at heq
      obtain ⟨hs', ho'⟩ := Prod.mk.inj heq
      rw [← hs', ← ho']
      exact ⟨rfl, rfl⟩
    | some x =>
      obtain ⟨b, hb, rfl⟩ := List.mem_map.1 (h.rep.used.queued (List.mem_of_find?_eq_some hf))
      have hbb := h.rep.bounds hb
      rw [returned_some _ (lbufPop_some h.rep hf)] at heq
      obtain ⟨hs', ho'⟩ := Prod.mk.inj heq
      rw [← hs', ← ho', Option.map_some, Option.elim_some, getEntry_add (by omega)]
      exact ⟨rfl, rfl⟩
  · subst he
    obtain ⟨m', hr, hall, -⟩ := h.clear
    have heq := Option.some.inj hs
    rw [returned_some _ hr] at heq
    obtain ⟨hs', -⟩ := Prod.mk.inj heq
    rw [← hs'] at h' ⊢
    exact ⟨hall, rfl, _, h'.heapOk⟩

/-- **The queue law.** -/
theorem queue_law {buf bufLen : Nat} (m : Mem) (h0 : 0 < buf) (hlen : 31 ≤ bufLen) (htop : buf + bufLen ≤ 4294967296)
    (es : List Ev) (hgood : (machine (alignedHead buf) (buf + bufLen)).Along (fun s e _ _ => Counted (alignedHead buf) s e)
      (start m buf bufLen) es) :
    QueueOk (alignedHead buf) (start m buf bufLen) ∧
      (machine (alignedHead buf) (buf + bufLen)).Along (QueueLaw (alignedHead buf) (buf + bufLen))
        (start m buf bufLen) es := by
  have hstart := holds_start m h0 hlen htop
  refine ⟨hstart.queueOk, Machine.along_of_inv
    (fun s => ∃ L q, Holds (alignedHead buf) (buf + bufLen) s L q) (fun s e s' o hI hs hc => ?_) es _
    ⟨_, _, hstart⟩ hgood⟩
  obtain ⟨L, q, h⟩ := hI
  exact ⟨(holds_step h hs hc).2, queueLaw_step h hs hc⟩

/-- Two messages that are sent, taken and cleared. -/
def messages : List Ev := [.alloc 8, .alloc 8, .push 4132, .push 4160, .pop, .pop, .clear]

theorem counted_messages : (machine 4096 4352).Along (fun s e _ _ => Counted 4096 s e) fresh messages := by
  obtain ⟨s₁, o₁, s₂, o₂, hs₁, hs₂, h₂⟩ := twice_alloc
  obtain ⟨s₃, hs₃, h₃⟩ := twice_push h₂ (by decide)
  have hfirst : entryRef s₂.mem (getEntry 4132) = 0 ↔ 4132 ∉ s₂.pushed := by
    rw [h₂.pushed]
    exact ⟨fun _ => List.not_mem_nil, fun _ => h₂.first⟩
  have hsecond : entryRef s₃.mem (getEntry 4160) = 0 ↔ 4160 ∉ s₃.pushed := by
    rw [h₃.pushed]
    exact ⟨fun _ => by decide, fun _ => h₃.second⟩
  refine Machine.along_cons hs₁ (.inl (by decide)) (Machine.along_cons hs₂ (.inl (by decide))
    (Machine.along_cons hs₃ hfirst ?_))
  exact fun _ _ _ => ⟨hsecond, fun _ _ _ => ⟨trivial, fun _ _ _ => ⟨trivial, fun _ _ _ => ⟨trivial, trivial⟩⟩⟩⟩

theorem queue_law_messages : ((machine 4096 4352).run fresh messages).map Prod.snd =
      some [.ptr (some 4132), .ptr (some 4160), .done, .done, .ptr (some 4132), .ptr (some 4160), .done] ∧
    (machine 4096 4352).Along (QueueLaw 4096 4352) fresh messages :=
  ⟨by decide +kernel,
    (queue_law (fun _ => 0) (by decide : 0 < 4096) (by decide : 31 ≤ 256) (by decide) messages counted_messages).2⟩

/-- The calls of the queue law. -/
def Messages : Ev → Prop
  | .realloc _ _ => False
  | .write _ _   => False
  | _            => True

/-- A block whose count was raised before its first push is never queued. -/
theorem not_queue_law : ¬ ∀ (m : Mem) (buf bufLen : Nat) (es : List Ev), 0 < buf → 31 ≤ bufLen →
    buf + bufLen ≤ 4294967296 → (∀ e ∈ es, Messages e) → (machine (alignedHead buf) (buf + bufLen)).Along
      (QueueLaw (alignedHead buf) (buf + bufLen)) (start m buf bufLen) es := by
  intro h
  have hmessages : ∀ e ∈ [Ev.alloc 8, .incRef 4132, .push 4132], Messages e := by
    intro e he
    simp only [List.mem_cons, List.not_mem_nil, or_false] at he
    rcases he with rfl | rfl | rfl <;> trivial
  have hA := h (fun _ => 0) 4096 256 _ (by decide) (by decide) (by decide) hmessages
  have hbase : alignedHead 4096 = 4096 := by decide
  rw [hbase] at hA
  obtain ⟨m₁, hs₁, href₁, h₁⟩ := fresh_alloc
  have h₂ := h₁.incRef (p := 4132) List.mem_cons_self
  have href₂ : entryRef (lbufIncRef m₁ 4132) 4112 = 1 := by
    have hentry : getEntry 4132 = 4112 := by decide
    unfold lbufIncRef
    rw [hentry, entryRef_setRef, href₁]
    rfl
  have R₂ : Rep (lbufIncRef m₁ 4132) 4096 4340 [(4112, 28)] [] := h₂.rep
  have hlost : nodes (lbufPush (lbufIncRef m₁ 4132) 4132) 4096 = some [] :=
    ((lbufPush_rep R₂ List.mem_cons_self).2 (by rw [href₂]; decide)).nodes
  have hlive : 4132 ∈ [4132] := List.mem_cons_self
  have hs₂ : step 4096 4352 ⟨m₁, [4132], []⟩ (.incRef 4132) = some (⟨lbufIncRef m₁ 4132, [4132], []⟩, .done) := by
    rw [step, if_pos hlive]
  have hs₃ : step 4096 4352 ⟨lbufIncRef m₁ 4132, [4132], []⟩ (.push 4132) =
      some (⟨lbufPush (lbufIncRef m₁ 4132) 4132, [4132], [4132]⟩, .done) := by
    rw [step, if_pos hlive]
    rfl
  have hlinked := (((hA _ _ hs₁).2 _ _ hs₂).2 _ _ hs₃).1.queue.linked
  rw [queueList, hlost] at hlinked
  cases hlinked

end Queue

end Lbuf
end OtaLoader
