import OtaLoader.Mem
/-!
# CString — text in a byte memory

`cstr` is the text a C string function sees at an address: the bytes up to the first zero byte, or up to where memory
ends.  `find` is `strstr` on such a text, `atoi` is `atoi`.  What is found in a text is found in any longer one
(`find_append`), and a number is read up to the first byte that is not a digit (`atoi_number`).
-/
namespace OtaLoader

def ascii (s : String) : List UInt8 := s.toList.map (fun c => UInt8.ofNat c.toNat)

namespace Mem

/-- The text at `p` in a memory of `top` bytes. -/
def cstr (m : Mem) (top p : Nat) : List UInt8 := (m.read p (top - p)).takeWhile (fun b => decide (b ≠ 0))

/-- A block without a zero byte is read through. -/
theorem cstr_block {m : Mem} (top : Nat) {p : Nat} {bs : List UInt8} (h : m.read p bs.length = bs) (hz : 0 ∉ bs)
    (hp : p + bs.length ≤ top) : m.cstr top p = bs ++ m.cstr top (p + bs.length) := by
  have hall : ∀ b ∈ bs, decide (b ≠ 0) = true := fun b hb => decide_eq_true (fun h0 => hz (h0 ▸ hb))
  unfold cstr
  rw [show top - p = bs.length + (top - (p + bs.length)) by omega, read_add, h, List.takeWhile_append_of_pos hall]

/-- A block up to its zero byte. -/
theorem cstr_ended {m : Mem} {top p : Nat} {bs : List UInt8} (h : m.read p (bs ++ [0]).length = bs ++ [0])
    (hz : 0 ∉ bs) (hp : p + bs.length < top) : m.cstr top p = bs := by
  obtain ⟨hbs, hzero⟩ := read_append_iff.1 h
  have h0 : m (p + bs.length) = 0 := (read_cons_iff.1 hzero).1
  rw [cstr_block top hbs hz (by omega)]
  have hone : m.read (p + bs.length) 1 = [0] := by simp [read, h0]
  unfold cstr
  rw [show top - (p + bs.length) = 1 + (top - (p + bs.length) - 1) by omega, read_add, hone, List.singleton_append,
    List.takeWhile_cons_of_neg (by decide), List.append_nil]

end Mem

/-! ## Searching -/

/-- The place of the first occurrence of `pat`, which is not empty. -/
def find (pat : List UInt8) : List UInt8 → Option Nat
  | []      => none
  | c :: cs => if pat.isPrefixOf (c :: cs) then some 0 else (find pat cs).map (· + 1)

theorem find_some {pat : List UInt8} : ∀ {t : List UInt8} {i : Nat}, find pat t = some i →
    pat <+: t.drop i ∧ i < t.length ∧ ∀ j, j < i → ¬ pat <+: t.drop j
  | [], i, h => by cases h
  | c :: cs, i, h => by
    unfold find at h
    split at h
    · rename_i hp
      cases h
      exact ⟨List.isPrefixOf_iff_prefix.1 hp, by simp, fun j hj => absurd hj (Nat.not_lt_zero j)⟩
    · rename_i hp
      obtain ⟨k, hk, rfl⟩ := Option.map_eq_some_iff.1 h
      obtain ⟨h1, h2, h3⟩ := find_some hk
      refine ⟨h1, by simpa using h2, fun j hj => ?_⟩
      cases j with
      | zero   => exact fun hpre => hp (List.isPrefixOf_iff_prefix.2 hpre)
      | succ j => exact h3 j (by omega)

theorem find_eq_some {pat : List UInt8} : ∀ {t : List UInt8} {i : Nat}, pat <+: t.drop i → i < t.length →
    (∀ j, j < i → ¬ pat <+: t.drop j) → find pat t = some i
  | [], i, _, h, _ => absurd h (Nat.not_lt_zero i)
  | c :: cs, 0, h1, _, _ => if_pos (List.isPrefixOf_iff_prefix.2 h1)
  | c :: cs, i + 1, h1, h2, h3 => by
    have hp : ¬ pat.isPrefixOf (c :: cs) = true := fun h => h3 0 (by omega) (List.isPrefixOf_iff_prefix.1 h)
    unfold find
    rw [if_neg hp, find_eq_some (i := i) h1 (by simpa using h2) (fun j hj => h3 (j + 1) (by omega))]
    rfl

theorem find_none {pat : List UInt8} : ∀ {t : List UInt8}, find pat t = none →
    ∀ j, j < t.length → ¬ pat <+: t.drop j
  | [], _, j, hj => absurd hj (Nat.not_lt_zero j)
  | c :: cs, h, j, hj => by
    unfold find at h
    split at h
    · cases h
    · rename_i hp
      cases j with
      | zero   => exact fun hpre => hp (List.isPrefixOf_iff_prefix.2 hpre)
      | succ j => exact find_none (Option.map_eq_none_iff.1 h) j (by simpa using hj)

/-- A text that starts with the pattern. -/
theorem find_prefix {pat t : List UInt8} (h : pat <+: t) (ht : t ≠ []) : find pat t = some 0 :=
  find_eq_some h (List.length_pos_iff.2 ht) (fun j hj => absurd hj (Nat.not_lt_zero j))

/-- A byte that the text before it does not have. -/
theorem find_byte {c : UInt8} {a b : List UInt8} (h : c ∉ a) : find [c] (a ++ c :: b) = some a.length := by
  refine find_eq_some ?_ (by rw [List.length_append, List.length_cons]; omega) (fun j hj hp => ?_)
  · rw [List.drop_left]
    exact ⟨b, rfl⟩
  · rw [List.drop_append_of_le_length (by omega), List.drop_eq_getElem_cons hj] at hp
    obtain ⟨t, ht⟩ := hp
    exact h ((List.cons.inj ht).1 ▸ List.getElem_mem hj)

theorem find_byte_none {c : UInt8} {t : List UInt8} (h : c ∉ t) : find [c] t = none := by
  cases hf : find [c] t with
  | none   => rfl
  | some i =>
    obtain ⟨⟨r, hr⟩, -, -⟩ := find_some hf
    have hmem : c ∈ t.drop i := by
      rw [← hr]
      exact List.mem_cons_self
    exact absurd (List.mem_of_mem_drop hmem) h

/-- A prefix of the drop of an append that lies in the first part. -/
theorem prefix_drop_append {pat a b : List UInt8} {j : Nat} (h : j + pat.length ≤ a.length) :
    pat <+: (a ++ b).drop j ↔ pat <+: a.drop j := by
  rw [List.drop_append_of_le_length (by omega)]
  constructor
  · intro hp
    exact List.prefix_of_prefix_length_le hp (List.prefix_append _ _) (by rw [List.length_drop]; omega)
  · intro hp
    exact hp.trans (List.prefix_append _ _)

/-- What is found in a text is found in a longer one. -/
theorem find_append {pat a : List UInt8} {i : Nat} (h : find pat a = some i) (b : List UInt8) :
    find pat (a ++ b) = some i := by
  obtain ⟨h1, h2, h3⟩ := find_some h
  have hlen : i + pat.length ≤ a.length := by
    have := h1.length_le
    rw [List.length_drop] at this
    omega
  refine find_eq_some ((prefix_drop_append hlen).2 h1) (by rw [List.length_append]; omega) (fun j hj hp => ?_)
  exact h3 j hj ((prefix_drop_append (by omega)).1 hp)

/-! ## Numbers -/

def isDigit (b : UInt8) : Bool := decide (48 ≤ b.toNat) && decide (b.toNat ≤ 57)

def isSpace (b : UInt8) : Bool := b == 32 || decide (9 ≤ b.toNat) && decide (b.toNat ≤ 13)

/-- The value of the leading digits, behind the digits of `acc`. -/
def leadingDigits (acc : Nat) : List UInt8 → Nat
  | []      => acc
  | b :: bs => if isDigit b then leadingDigits (10 * acc + (b.toNat - 48)) bs else acc

/-- `atoi`, for a number that an `int` holds. -/
def atoi (t : List UInt8) : Int :=
  match t.dropWhile isSpace with
  | 45 :: r => - (leadingDigits 0 r : Int)
  | 43 :: r => leadingDigits 0 r
  | r       => leadingDigits 0 r

/-- Decimal digits and their value. -/
structure IsNumber (ds : List UInt8) (n : Nat) : Prop where
  nonempty : ds ≠ []
  digits   : ∀ b ∈ ds, isDigit b = true
  value    : leadingDigits 0 ds = n

theorem leadingDigits_append {ds rest : List UInt8} (hr : ∀ b r, rest = b :: r → isDigit b = false) :
    ∀ (acc : Nat), (∀ b ∈ ds, isDigit b = true) → leadingDigits acc (ds ++ rest) = leadingDigits acc ds := by
  induction ds with
  | nil =>
    intro acc _
    cases rest with
    | nil      => rfl
    | cons b r => simp [leadingDigits, hr b r rfl]
  | cons d ds ih =>
    intro acc h
    have hd := h d (List.mem_cons_self ..)
    rw [List.cons_append, leadingDigits, leadingDigits, if_pos hd, if_pos hd]
    exact ih _ (fun b hb => h b (List.mem_cons_of_mem _ hb))

/-- **A number is read whole**, up to a byte that is not a digit. -/
theorem atoi_number {ds rest : List UInt8} {n : Nat} (h : IsNumber ds n)
    (hr : ∀ b r, rest = b :: r → isDigit b = false) : atoi (ds ++ rest) = n := by
  obtain ⟨d, ds', rfl⟩ : ∃ d ds', ds = d :: ds' := by
    cases hds : ds with
    | nil        => exact absurd hds h.nonempty
    | cons d ds' => exact ⟨d, ds', rfl⟩
  have hd := h.digits d (List.mem_cons_self ..)
  have hrange : 48 ≤ d.toNat ∧ d.toNat ≤ 57 := by simpa [isDigit] using hd
  have hspace : isSpace d = false := by
    have : d ≠ 32 := fun h32 => by rw [h32] at hrange; exact absurd hrange.1 (by decide)
    simp [isSpace, this]
    omega
  have h45 : d ≠ 45 := fun h45 => by rw [h45] at hrange; exact absurd hrange.1 (by decide)
  have h43 : d ≠ 43 := fun h43 => by rw [h43] at hrange; exact absurd hrange.1 (by decide)
  have hval : leadingDigits 0 (d :: ds' ++ rest) = n := (leadingDigits_append hr 0 h.digits).trans h.value
  unfold atoi
  rw [List.cons_append, List.dropWhile_cons_of_neg (by rw [hspace]; decide)]
  split
  · rename_i heq
    exact absurd (List.cons.inj heq).1 h45
  · rename_i heq
    exact absurd (List.cons.inj heq).1 h43
  · exact congrArg _ hval

end OtaLoader
