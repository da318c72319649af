import Mathlib.Logic.Relation
import Mathlib.Data.List.Chain
import Mathlib.Data.Fintype.Pigeonhole
/-!
# Loop — a loop body iterated until it leaves

A body answers a state with the next state or with the value the loop leaves with.  `Reaches` is some rounds of the
loop, `Returns` the whole of it; a loop that returns does so with one value only, from every state it passes.  A loop
whose rounds lower a measure returns (`run_of_measure`), and what each round does holds along its states (`trace_chain`).
A loop with finitely many states returns exactly if it comes to none of them twice (`returns_iff_no_cycle`).
-/
namespace OtaLoader
namespace Loop

variable {σ τ : Type} (body : σ → σ ⊕ τ)

def run : Nat → σ → Option τ
  | 0, _     => none
  | n + 1, s =>
    match body s with
    | .inl s' => run n s'
    | .inr t  => some t

/-- The loop entered in `s` leaves with `t`. -/
def Returns (s : σ) (t : τ) : Prop := ∃ n, run body n s = some t

/-- Some rounds of the loop lead from `s` to `s'`. -/
def Reaches : σ → σ → Prop := Relation.ReflTransGen (fun s s' => body s = .inl s')

variable {body}

theorem returns_of_done {s : σ} {t : τ} (h : body s = .inr t) : Returns body s t :=
  ⟨1, by simp [run, h]⟩

theorem returns_step {s s' : σ} {t : τ} (h : body s = .inl s') : Returns body s t ↔ Returns body s' t := by
  constructor
  · rintro ⟨n, hn⟩
    cases n with
    | zero   => cases hn
    | succ n => exact ⟨n, by simpa [run, h] using hn⟩
  · rintro ⟨n, hn⟩
    exact ⟨n + 1, by simpa [run, h] using hn⟩

theorem Reaches.refl (s : σ) : Reaches body s s := Relation.ReflTransGen.refl

theorem Reaches.one {s s' : σ} (h : body s = .inl s') : Reaches body s s' := Relation.ReflTransGen.single h

theorem Reaches.trans {s s' s'' : σ} (h : Reaches body s s') (h' : Reaches body s' s'') : Reaches body s s'' :=
  Relation.ReflTransGen.trans h h'

theorem Reaches.returns {s s' : σ} {t : τ} (h : Reaches body s s') (ht : Returns body s' t) : Returns body s t := by
  induction h using Relation.ReflTransGen.head_induction_on with
  | refl         => exact ht
  | head hb _ ih => exact (returns_step hb).2 ih

/-- **A loop returns one value.** -/
theorem Returns.unique : ∀ {s : σ} {t t' : τ}, Returns body s t → Returns body s t' → t = t' := by
  rintro s t t' ⟨n, hn⟩
  induction n generalizing s with
  | zero => cases hn
  | succ n ih =>
    intro h'
    unfold run at hn
    split at hn
    · rename_i hb
      exact ih hn ((returns_step hb).1 h')
    · rename_i hb
      obtain ⟨m, hm⟩ := h'
      cases m with
      | zero   => cases hm
      | succ m => simp_all [run]

/-- **A loop leaves in a state that it reaches.** -/
theorem returns_iff {s : σ} {t : τ} : Returns body s t ↔ ∃ s', Reaches body s s' ∧ body s' = .inr t := by
  constructor
  · rintro ⟨n, hn⟩
    induction n generalizing s with
    | zero => cases hn
    | succ n ih =>
      unfold run at hn
      split at hn
      · rename_i s₁ hb
        obtain ⟨s', hs', ht⟩ := ih hn
        exact ⟨s', (Reaches.one hb).trans hs', ht⟩
      · rename_i t' hb
        cases hn
        exact ⟨s, .refl s, hb⟩
  · rintro ⟨s', hs', ht⟩
    exact hs'.returns (returns_of_done ht)

theorem Reaches.returns_from {s s' : σ} {t : τ} (h : Reaches body s s') (ht : Returns body s t) : Returns body s' t := by
  induction h with
  | refl         => exact ht
  | tail _ hb ih => exact (returns_step hb).1 ih

/-- Rounds that come back come back for ever. -/
theorem not_returns_of_cycle {s : σ} {t : τ} (h : Relation.TransGen (fun s s' => body s = .inl s') s s) :
    ¬ Returns body s t := by
  rintro ⟨n, hn⟩
  have hless : ∀ {s s' : σ}, Relation.TransGen (fun s s' => body s = .inl s') s s' → ∀ n, run body n s = some t →
      ∃ m, m < n ∧ run body m s' = some t := by
    intro s s' hs
    induction hs with
    | single hb =>
      intro n hn
      cases n with
      | zero   => cases hn
      | succ n => exact ⟨n, Nat.lt_succ_self n, by simpa [run, hb] using hn⟩
    | tail _ hb ih =>
      intro n hn
      obtain ⟨m, hm, hrun⟩ := ih n hn
      cases m with
      | zero   => cases hrun
      | succ m => exact ⟨m, by omega, by simpa [run, hb] using hrun⟩
  induction n using Nat.strong_induction_on with
  | _ n ih =>
    obtain ⟨m, hm, hrun⟩ := hless h n hn
    exact ih m hm hrun

/-- **The cycle rule**: a loop with finitely many states returns exactly if it comes back to none that it reaches. -/
theorem returns_iff_no_cycle [Finite σ] {s : σ} : (∃ t, Returns body s t) ↔
    ∀ s', Reaches body s s' → ¬ Relation.TransGen (fun s s' => body s = .inl s') s' s' := by
  constructor
  · rintro ⟨t, ht⟩ s' hs' hcycle
    exact not_returns_of_cycle hcycle (hs'.returns_from ht)
  · intro h
    by_contra hnone
    -- a loop that never leaves goes through an endless row of states
    have hgoes : ∀ s', Reaches body s s' → ∃ s'', body s' = .inl s'' := fun s' hs' => by
      cases hb : body s' with
      | inl s'' => exact ⟨s'', rfl⟩
      | inr t   => exact absurd ⟨t, returns_iff.2 ⟨s', hs', hb⟩⟩ hnone
    choose next hnext using hgoes
    let row : Nat → { s' // Reaches body s s' } := fun n =>
      n.rec ⟨s, .refl s⟩ (fun _ s' => ⟨next s'.1 s'.2, s'.2.trans (.one (hnext s'.1 s'.2))⟩)
    have hrow : ∀ a b, a < b → Relation.TransGen (fun s s' => body s = .inl s') (row a).1 (row b).1 := by
      intro a b hab
      induction hab with
      | refl      => exact .single (hnext _ _)
      | step _ ih => exact ih.tail (hnext _ _)
    obtain ⟨a, b, hne, heq⟩ := Finite.exists_ne_map_eq_of_infinite row
    rcases Nat.lt_or_gt_of_ne hne with hab | hab
    · exact h _ (row a).2 (by simpa [heq] using hrow a b hab)
    · exact h _ (row b).2 (by simpa [heq] using hrow b a hab)

/-- The states in which the rounds begin. -/
def trace (body : σ → σ ⊕ τ) : Nat → σ → List σ
  | 0, _     => []
  | n + 1, s => s ::
    match body s with
    | .inl s' => trace body n s'
    | .inr _  => []

/-- **The measure rule**: rounds that keep `I` and lower `μ` come to an end. -/
theorem run_of_measure (I : σ → Prop) (μ : σ → Nat) (h : ∀ s s', I s → body s = .inl s' → I s' ∧ μ s' < μ s) :
    ∀ (n : Nat) (s : σ), I s → μ s < n → ∃ t, run body n s = some t
  | 0, s, _, hn     => absurd hn (Nat.not_lt_zero _)
  | n + 1, s, hI, hn => by
    unfold run
    cases hb : body s with
    | inr t  => exact ⟨t, rfl⟩
    | inl s' =>
      obtain ⟨hI', hlt⟩ := h s s' hI hb
      exact run_of_measure I μ h n s' hI' (by omega)

/-- Two bodies that agree on the states that the rounds pass. -/
theorem run_congr {body' : σ → σ ⊕ τ} (I : σ → Prop) (heq : ∀ s, I s → body s = body' s)
    (h : ∀ s s', I s → body s = .inl s' → I s') : ∀ (n : Nat) (s : σ), I s → run body n s = run body' n s
  | 0, _, _      => rfl
  | n + 1, s, hI => by
    unfold run
    rw [← heq s hI]
    cases hb : body s with
    | inr t  => rfl
    | inl s' => exact run_congr I heq h n s' (h s s' hI hb)

theorem trace_congr {body' : σ → σ ⊕ τ} (I : σ → Prop) (heq : ∀ s, I s → body s = body' s)
    (h : ∀ s s', I s → body s = .inl s' → I s') : ∀ (n : Nat) (s : σ), I s → trace body n s = trace body' n s
  | 0, _, _      => rfl
  | n + 1, s, hI => by
    unfold trace
    rw [← heq s hI]
    cases hb : body s with
    | inr t  => rfl
    | inl s' => exact congrArg (s :: ·) (trace_congr I heq h n s' (h s s' hI hb))

theorem trace_forall (I : σ → Prop) (h : ∀ s s', I s → body s = .inl s' → I s') :
    ∀ (n : Nat) (s : σ), I s → ∀ t ∈ trace body n s, I t
  | 0, _, _, _, ht      => by cases ht
  | n + 1, s, hI, t, ht => by
    unfold trace at ht
    rcases List.mem_cons.1 ht with rfl | ht
    · exact hI
    · cases hb : body s with
      | inr r  =>
        rw [hb] at ht
        cases ht
      | inl s' =>
        rw [hb] at ht
        exact trace_forall I h n s' (h s s' hI hb) t ht

theorem reaches_of_mem_trace {n : Nat} {s s' : σ} (h : s' ∈ trace body n s) : Reaches body s s' :=
  trace_forall (Reaches body s) (fun _ _ hs hb => hs.trans (.one hb)) n s (.refl s) s' h

/-- A loop that leaves has begun a round in every state it reaches. -/
theorem mem_trace_of_reaches {s s' : σ} {t : τ} (h : Reaches body s s') :
    ∀ {n : Nat}, run body n s = some t → s' ∈ trace body n s := by
  induction h using Relation.ReflTransGen.head_induction_on with
  | refl =>
    intro n hn
    cases n with
    | zero   => cases hn
    | succ n => exact List.mem_cons_self
  | head hb _ ih =>
    intro n hn
    cases n with
    | zero   => cases hn
    | succ n =>
      unfold run at hn
      rw [hb] at hn
      unfold trace
      rw [hb]
      exact List.mem_cons_of_mem _ (ih hn)

/-- What each round does, from one state to the next. -/
theorem trace_chain (I : σ → Prop) {R : σ → σ → Prop} (h : ∀ s s', I s → body s = .inl s' → I s' ∧ R s s') :
    ∀ (n : Nat) (s : σ), I s → (trace body n s).IsChain R
  | 0, _, _      => List.isChain_nil
  | n + 1, s, hI => by
    unfold trace
    cases hb : body s with
    | inr t  => exact List.isChain_singleton s
    | inl s' =>
      obtain ⟨hI', hR⟩ := h s s' hI hb
      have hrest := trace_chain I h n s' hI'
      cases n with
      | zero   => exact List.isChain_singleton s
      | succ n =>
        unfold trace at hrest ⊢
        exact List.isChain_cons_cons.2 ⟨hR, hrest⟩

end Loop
end OtaLoader
