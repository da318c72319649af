import Mathlib.Tactic.Common
/-!
# Machine — runs of a deterministic labelled machine

A machine answers an event in a state with the next state and what the step shows, or does not take it.  A run is the
list of its events; `Along Q` says that every step of the run satisfies `Q`.  Two rules carry every result about runs:
an invariant that each good step keeps (`along_of_inv`), and a step-wise equivalence under an invariant
(`along_iff_while`).  Where a condition speaks of the steps before, an observer notes them (`AlongWith`).
-/
namespace OtaLoader

structure Machine (σ ε ο : Type) where
  step : σ → ε → Option (σ × ο)

namespace Machine

variable {σ ε ο : Type} (M : Machine σ ε ο)

/-- Every step of the run satisfies `Q`.  An event that is not taken ends the run. -/
def Along (Q : σ → ε → σ → ο → Prop) : σ → List ε → Prop
  | _, []      => True
  | s, e :: es => ∀ s' o, M.step s e = some (s', o) → Q s e s' o ∧ Along Q s' es

/-- The state after a run, with what its steps show, when every event is taken. -/
def run : σ → List ε → Option (σ × List ο)
  | s, []      => some (s, [])
  | s, e :: es =>
    match M.step s e with
    | none         => none
    | some (s', o) => (run s' es).map (fun r => (r.1, o :: r.2))

variable {M}

theorem along_cons {Q : σ → ε → σ → ο → Prop} {s s' : σ} {e : ε} {o : ο} {es : List ε}
    (h : M.step s e = some (s', o)) (hq : Q s e s' o) (hes : M.Along Q s' es) : M.Along Q s (e :: es) := by
  intro s₁ o₁ h₁
  rw [h] at h₁
  cases h₁
  exact ⟨hq, hes⟩

/-- What can be decided of each step can be decided of a run. -/
instance decidableAlong {Q : σ → ε → σ → ο → Prop} [∀ s e s' o, Decidable (Q s e s' o)] :
    ∀ (s : σ) (es : List ε), Decidable (M.Along Q s es)
  | _, []      => isTrue trivial
  | s, e :: es =>
    match h : M.step s e with
    | none         => isTrue (fun _ _ hs => nomatch h.symm.trans hs)
    | some (s', o) =>
      have : Decidable (M.Along Q s' es) := decidableAlong s' es
      decidable_of_iff (Q s e s' o ∧ M.Along Q s' es)
        ⟨fun hq => along_cons h hq.1 hq.2, fun ha => ha s' o h⟩

/-- **The invariant rule**: steps that meet `C` keep `I` and satisfy `Q`. -/
theorem along_of_inv {C Q : σ → ε → σ → ο → Prop} (I : σ → Prop)
    (hstep : ∀ s e s' o, I s → M.step s e = some (s', o) → C s e s' o → I s' ∧ Q s e s' o) :
    ∀ (es : List ε) (s : σ), I s → M.Along C s es → M.Along Q s es
  | [], _, _, _ => trivial
  | e :: es, s, hI, hC => by
    intro s' o hs
    obtain ⟨hc, hrest⟩ := hC s' o hs
    obtain ⟨hI', hq⟩ := hstep s e s' o hI hs hc
    exact ⟨hq, along_of_inv I hstep es s' hI' hrest⟩

/-- **The equivalence rule**: a step-wise equivalence holds along runs, under an invariant that good steps keep. -/
theorem along_iff_while {C Q : σ → ε → σ → ο → Prop} (I : σ → Prop)
    (hstep : ∀ s e s' o, I s → M.step s e = some (s', o) → (Q s e s' o ↔ C s e s' o) ∧ (C s e s' o → I s')) :
    ∀ (es : List ε) (s : σ), I s → (M.Along Q s es ↔ M.Along C s es)
  | [], _, _ => Iff.rfl
  | e :: es, s, hI => by
    constructor <;> intro h s' o hs
    · obtain ⟨hq, hrest⟩ := h s' o hs
      obtain ⟨hqc, hI'⟩ := hstep s e s' o hI hs
      exact ⟨hqc.1 hq, (along_iff_while I hstep es s' (hI' (hqc.1 hq))).1 hrest⟩
    · obtain ⟨hc, hrest⟩ := h s' o hs
      obtain ⟨hqc, hI'⟩ := hstep s e s' o hI hs
      exact ⟨hqc.2 hc, (along_iff_while I hstep es s' (hI' hc)).2 hrest⟩

theorem along_iff {C Q : σ → ε → σ → ο → Prop} (I : σ → Prop)
    (hstep : ∀ s e s' o, I s → M.step s e = some (s', o) → I s' ∧ (Q s e s' o ↔ C s e s' o)) (es : List ε) (s : σ)
    (hI : I s) : M.Along Q s es ↔ M.Along C s es :=
  along_iff_while I (fun s e s' o hI hs => ⟨(hstep s e s' o hI hs).2, fun _ => (hstep s e s' o hI hs).1⟩) es s hI

theorem run_cons {s s' : σ} {e : ε} {es : List ε} {os : List ο} (h : M.run s (e :: es) = some (s', os)) :
    ∃ s₁ o₁ os₁, M.step s e = some (s₁, o₁) ∧ M.run s₁ es = some (s', os₁) := by
  unfold run at h
  split at h
  · cases h
  · rename_i s₁ o₁ hs
    obtain ⟨⟨s₂, os₂⟩, hr, heq⟩ := Option.map_eq_some_iff.1 h
    simp only [Prod.mk.injEq] at heq
    exact ⟨s₁, o₁, os₂, hs, by rw [hr, heq.1]⟩

theorem run_step {s s' s'' : σ} {e : ε} {o : ο} {es : List ε} {os : List ο} (h : M.step s e = some (s', o))
    (hr : M.run s' es = some (s'', os)) : M.run s (e :: es) = some (s'', o :: os) := by
  rw [run, h]
  dsimp only
  rw [hr]
  rfl

theorem run_append {es' : List ε} : ∀ {es : List ε} {s s' s'' : σ} {os os' : List ο}, M.run s es = some (s', os) →
    M.run s' es' = some (s'', os') → M.run s (es ++ es') = some (s'', os ++ os')
  | [], _, _, _, _, _, h, h' => by
    cases h
    exact h'
  | e :: es, s, s', s'', os, os', h, h' => by
    unfold run at h
    split at h
    · cases h
    · rename_i s₁ o₁ hs
      obtain ⟨⟨s₂, os₂⟩, hr, heq⟩ := Option.map_eq_some_iff.1 h
      obtain ⟨rfl, rfl⟩ := Prod.mk.inj heq
      exact run_step hs (run_append hr h')

/-- A run goes on from the state its first part reaches. -/
theorem along_append {Q : σ → ε → σ → ο → Prop} {es' : List ε} : ∀ (es : List ε) (s : σ), M.Along Q s es →
    (∀ s' os, M.run s es = some (s', os) → M.Along Q s' es') → M.Along Q s (es ++ es')
  | [], s, _, h => h s [] rfl
  | e :: es, s, hQ, h => by
    intro s₁ o₁ hs
    obtain ⟨hq, hrest⟩ := hQ s₁ o₁ hs
    refine ⟨hq, along_append es s₁ hrest (fun s' os hr => h s' (o₁ :: os) (run_step hs hr))⟩

theorem along_and {P Q : σ → ε → σ → ο → Prop} : ∀ {es : List ε} {s : σ}, M.Along P s es → M.Along Q s es →
    M.Along (fun s e s' o => P s e s' o ∧ Q s e s' o) s es
  | [], _, _, _ => trivial
  | _ :: _, _, hP, hQ => fun s' o hs => ⟨⟨(hP s' o hs).1, (hQ s' o hs).1⟩, along_and (hP s' o hs).2 (hQ s' o hs).2⟩

/-- The last step of a run. -/
theorem along_last {Q : σ → ε → σ → ο → Prop} : ∀ {es : List ε} {s s' s'' : σ} {e : ε} {os : List ο} {o : ο},
    M.Along Q s (es ++ [e]) → M.run s es = some (s', os) → M.step s' e = some (s'', o) → Q s' e s'' o
  | [], _, _, _, _, _, _, h, hr, hs => by
    cases hr
    exact (h _ _ hs).1
  | _ :: _, _, _, _, _, _, _, h, hr, hs => by
    obtain ⟨s₁, o₁, os₁, hs₁, hr₁⟩ := run_cons hr
    exact along_last (h s₁ o₁ hs₁).2 hr₁ hs

/-- A condition on each event in the state that the events before it reach. -/
theorem along_of_take {C : σ → ε → Prop} : ∀ (es : List ε) (s : σ),
    (∀ n e, es[n]? = some e → ∀ s' os, M.run s (es.take n) = some (s', os) → C s' e) →
      M.Along (fun s e _ _ => C s e) s es
  | [], _, _ => trivial
  | e :: es, s, h => fun s₁ o₁ hs => by
    refine ⟨h 0 e rfl s [] rfl, along_of_take es s₁ (fun n e' he s' os hr => h (n + 1) e' he s' (o₁ :: os) ?_)⟩
    rw [List.take_succ_cons]
    exact run_step hs hr

/-- Steps on events of one kind. -/
theorem along_of_forall {Q : σ → ε → σ → ο → Prop} {P : ε → Prop} (h : ∀ s e s' o, P e → Q s e s' o) :
    ∀ (es : List ε) (s : σ), (∀ e ∈ es, P e) → M.Along Q s es
  | [], _, _ => trivial
  | e :: es, s, hP => fun s' _ _ =>
    ⟨h s e s' _ (hP e (List.mem_cons_self ..)), along_of_forall h es s' (fun x hx => hP x (List.mem_cons_of_mem _ hx))⟩

/-- What holds after every step holds in the state that is reached. -/
theorem along_reached {P : σ → Prop} : ∀ (es : List ε) (s s' : σ) (os : List ο),
    M.Along (fun _ _ s' _ => P s') s es → P s → M.run s es = some (s', os) → P s'
  | [], s, s', os, _, hs, h => by
    cases h
    exact hs
  | e :: es, s, s', os, hA, _, h => by
    obtain ⟨s₁, o₁, os₁, hs, hr⟩ := run_cons h
    obtain ⟨hp, hrest⟩ := hA s₁ o₁ hs
    exact along_reached es s₁ s' os₁ hrest hp hr

/-- **The projection rule**: when one kind of events moves a component as another machine does, and the good events of
the other kind leave it alone and show nothing, the component's run is the run of that machine. -/
theorem run_project {δ α ο' : Type} {M : Machine σ (ε ⊕ δ) (Option ο')} {N : Machine α ε ο'} (π : σ → α)
    {C : σ → ε ⊕ δ → σ → Option ο' → Prop}
    (hmine : ∀ s e s' o, M.step s (.inl e) = some (s', o) → ∃ o', o = some o' ∧ N.step (π s) e = some (π s', o'))
    (hother : ∀ s d s' o, M.step s (.inr d) = some (s', o) → C s (.inr d) s' o → π s' = π s ∧ o = none) :
    ∀ (es : List (ε ⊕ δ)) (s s' : σ) (os : List (Option ο')), M.Along C s es → M.run s es = some (s', os) →
      N.run (π s) (es.filterMap Sum.getLeft?) = some (π s', os.filterMap id)
  | [], s, s', os, _, h => by
    cases h
    rfl
  | e :: es, s, s', os, hC, h => by
    unfold run at h
    split at h
    · cases h
    · rename_i s₁ o₁ hs
      obtain ⟨⟨s₂, os₂⟩, hr, heq⟩ := Option.map_eq_some_iff.1 h
      simp only [Prod.mk.injEq] at heq
      obtain ⟨rfl, rfl⟩ := heq
      obtain ⟨hc, hrest⟩ := hC s₁ o₁ hs
      have ih := run_project π hmine hother es s₁ s₂ os₂ hrest hr
      cases e with
      | inl e =>
        obtain ⟨o', rfl, hN⟩ := hmine s e s₁ o₁ hs
        simp only [List.filterMap_cons, Sum.getLeft?_inl, id, run, hN, ih, Option.map_some]
      | inr d =>
        obtain ⟨hπ, rfl⟩ := hother s d s₁ o₁ hs hc
        rw [hπ] at ih
        simpa only [List.filterMap_cons, Sum.getLeft?_inr, id] using ih

/-- Implications carry over, step by step. -/
theorem Along.mono {Q R : σ → ε → σ → ο → Prop} (h : ∀ s e s' o, Q s e s' o → R s e s' o) :
    ∀ {es : List ε} {s : σ}, M.Along Q s es → M.Along R s es
  | [], _, _ => trivial
  | _ :: _, _, hQ => fun s' o hs => ⟨h _ _ _ _ (hQ s' o hs).1, Along.mono h (hQ s' o hs).2⟩

/-! ## Runs with an observer -/

variable (M) in
/-- Every step of the run satisfies `Q`, which also sees what an observer has noted of the steps before it. -/
def AlongWith {γ : Type} (next : γ → σ → ε → γ) (Q : γ → σ → ε → σ → ο → Prop) : γ → σ → List ε → Prop
  | _, _, []      => True
  | g, s, e :: es => ∀ s' o, M.step s e = some (s', o) → Q g s e s' o ∧ AlongWith next Q (next g s e) s' es

/-- **The invariant rule with an observer**: the invariant may relate the state to what was noted. -/
theorem along_of_alongWith {γ : Type} {next : γ → σ → ε → γ} {C : γ → σ → ε → σ → ο → Prop} {Q : σ → ε → σ → ο → Prop}
    (I : γ → σ → Prop)
    (hstep : ∀ g s e s' o, I g s → M.step s e = some (s', o) → C g s e s' o → I (next g s e) s' ∧ Q s e s' o) :
    ∀ (es : List ε) (g : γ) (s : σ), I g s → M.AlongWith next C g s es → M.Along Q s es
  | [], _, _, _, _ => trivial
  | e :: es, g, s, hI, hC => by
    intro s' o hs
    obtain ⟨hc, hrest⟩ := hC s' o hs
    obtain ⟨hI', hq⟩ := hstep g s e s' o hI hs hc
    exact ⟨hq, along_of_alongWith I hstep es (next g s e) s' hI' hrest⟩

/-- **The equivalence rule with an observer.** -/
theorem along_iff_alongWith {γ : Type} {next : γ → σ → ε → γ} {C : γ → σ → ε → σ → ο → Prop}
    {Q : σ → ε → σ → ο → Prop} (I : γ → σ → Prop)
    (hstep : ∀ g s e s' o, I g s → M.step s e = some (s', o) → I (next g s e) s' ∧ (Q s e s' o ↔ C g s e s' o)) :
    ∀ (es : List ε) (g : γ) (s : σ), I g s → (M.Along Q s es ↔ M.AlongWith next C g s es)
  | [], _, _, _ => Iff.rfl
  | e :: es, g, s, hI => by
    constructor <;> intro h s' o hs
    · obtain ⟨hq, hrest⟩ := h s' o hs
      obtain ⟨hI', hqc⟩ := hstep g s e s' o hI hs
      exact ⟨hqc.1 hq, (along_iff_alongWith I hstep es (next g s e) s' hI').1 hrest⟩
    · obtain ⟨hc, hrest⟩ := h s' o hs
      obtain ⟨hI', hqc⟩ := hstep g s e s' o hI hs
      exact ⟨hqc.2 hc, (along_iff_alongWith I hstep es (next g s e) s' hI').2 hrest⟩

/-- **The equivalence rule along runs of one kind**, which `H` tells. -/
theorem along_iff_given {γ : Type} {next : γ → σ → ε → γ} {H C : γ → σ → ε → σ → ο → Prop} {Q : σ → ε → σ → ο → Prop}
    (I : γ → σ → Prop)
    (hstep : ∀ g s e s' o, I g s → M.step s e = some (s', o) → H g s e s' o →
      (Q s e s' o ↔ C g s e s' o) ∧ (C g s e s' o → I (next g s e) s')) :
    ∀ (es : List ε) (g : γ) (s : σ), I g s → M.AlongWith next H g s es →
      (M.Along Q s es ↔ M.AlongWith next C g s es)
  | [], _, _, _, _ => Iff.rfl
  | e :: es, g, s, hI, hH => by
    constructor <;> intro h s' o hs
    · obtain ⟨hq, hrest⟩ := h s' o hs
      obtain ⟨hh, hH'⟩ := hH s' o hs
      obtain ⟨hqc, hI'⟩ := hstep g s e s' o hI hs hh
      exact ⟨hqc.1 hq, (along_iff_given I hstep es (next g s e) s' (hI' (hqc.1 hq)) hH').1 hrest⟩
    · obtain ⟨hc, hrest⟩ := h s' o hs
      obtain ⟨hh, hH'⟩ := hH s' o hs
      obtain ⟨hqc, hI'⟩ := hstep g s e s' o hI hs hh
      exact ⟨hqc.2 hc, (along_iff_given I hstep es (next g s e) s' (hI' hc) hH').2 hrest⟩

theorem alongWith_cons {γ : Type} {next : γ → σ → ε → γ} {Q : γ → σ → ε → σ → ο → Prop} {g : γ} {s s' : σ} {e : ε}
    {o : ο} {es : List ε} (h : M.step s e = some (s', o)) (hq : Q g s e s' o)
    (hes : M.AlongWith next Q (next g s e) s' es) : M.AlongWith next Q g s (e :: es) := by
  intro s₁ o₁ h₁
  rw [h] at h₁
  cases h₁
  exact ⟨hq, hes⟩

instance decidableAlongWith {γ : Type} {next : γ → σ → ε → γ} {Q : γ → σ → ε → σ → ο → Prop}
    [∀ g s e s' o, Decidable (Q g s e s' o)] :
    ∀ (g : γ) (s : σ) (es : List ε), Decidable (M.AlongWith next Q g s es)
  | _, _, []      => isTrue trivial
  | g, s, e :: es =>
    match h : M.step s e with
    | none         => isTrue (fun _ _ hs => nomatch h.symm.trans hs)
    | some (s', o) =>
      have : Decidable (M.AlongWith next Q (next g s e) s' es) := decidableAlongWith (next g s e) s' es
      decidable_of_iff (Q g s e s' o ∧ M.AlongWith next Q (next g s e) s' es)
        ⟨fun hq => alongWith_cons h hq.1 hq.2, fun ha => ha s' o h⟩

end Machine
end OtaLoader
