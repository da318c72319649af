import OtaLoader.Formats
import OtaLoader.Vsscanf
/-!
# Scan — what `sscanf` reads back

A text that `sprintf` has made is read back by `sscanf` with the same format, where every number is followed by something
that is not one of its digits.  Neither string is read behind its end if both end in something else than white space.
-/
namespace OtaLoader
namespace Vsscanf

open Vsnprintf (skipAtoi tolower)

/-! ## Digits -/

/-- A byte that a digit of any base has. -/
theorem digit_range {c : UInt8} {d : Nat} (h : digitOf c = some d) :
    (48 ≤ c.toNat ∧ c.toNat ≤ 57 ∧ d = c.toNat - 48) ∨ (97 ≤ c.toNat ∧ c.toNat ≤ 102 ∧ d = c.toNat - 87) ∨
      (65 ≤ c.toNat ∧ c.toNat ≤ 70 ∧ d = c.toNat - 55) := by
  unfold digitOf at h
  split at h
  · cases h
    exact .inl ⟨by omega, by omega, rfl⟩
  · split at h
    · cases h
      exact .inr (.inl ⟨by omega, by omega, rfl⟩)
    · split at h
      · cases h
        exact .inr (.inr ⟨by omega, by omega, rfl⟩)
      · cases h

/-- Setting the bit 0x20 makes small letters. -/
theorem tolower_range : ∀ n : Nat, (48 ≤ n ∧ n ≤ 57 → tolower (UInt8.ofNat n) = UInt8.ofNat n) ∧
    (97 ≤ n ∧ n ≤ 102 → tolower (UInt8.ofNat n) = UInt8.ofNat n) ∧
    (65 ≤ n ∧ n ≤ 70 → tolower (UInt8.ofNat n) = UInt8.ofNat (n + 32)) := by
  have hall : ∀ i : Fin 103, (48 ≤ i.val ∧ i.val ≤ 57 → tolower (UInt8.ofNat i) = UInt8.ofNat i) ∧
      (97 ≤ i.val ∧ i.val ≤ 102 → tolower (UInt8.ofNat i) = UInt8.ofNat i) ∧
      (65 ≤ i.val ∧ i.val ≤ 70 → tolower (UInt8.ofNat i) = UInt8.ofNat (i + 32)) := by decide +kernel
  intro n
  by_cases h : n < 103
  · exact hall ⟨n, h⟩
  · exact ⟨fun h' => absurd h' (by omega), fun h' => absurd h' (by omega), fun h' => absurd h' (by omega)⟩

theorem tolower_digit {c : UInt8} {d : Nat} (h : digitOf c = some d) :
    (tolower c).toNat = if 65 ≤ c.toNat ∧ c.toNat ≤ 70 then c.toNat + 32 else c.toNat := by
  obtain ⟨h1, h2, h3⟩ := tolower_range c.toNat
  rw [UInt8.ofNat_toNat] at h1 h2 h3
  rcases digit_range h with ⟨a, b, -⟩ | ⟨a, b, -⟩ | ⟨a, b, -⟩
  · rw [h1 ⟨a, b⟩, if_neg (by omega)]
  · rw [h2 ⟨a, b⟩, if_neg (by omega)]
  · rw [h3 ⟨a, b⟩, if_pos ⟨a, b⟩, UInt8.toNat_ofNat', Nat.mod_eq_of_lt (by omega)]

/-- **A digit is taken for what it is.** -/
theorem value_digit {c : UInt8} {d : Nat} (h : digitOf c = some d) :
    isxdigit c = true ∧ value c = d ∧ isspace c = false ∧ c ≠ 45 ∧ tolower c ≠ 120 := by
  have hlow := tolower_digit h
  have hne : ∀ x : UInt8, c.toNat ≠ x.toNat → c ≠ x := fun x hx hc => hx (congrArg UInt8.toNat hc)
  have hrange := digit_range h
  have hspace : isspace c = false := by
    have h0 : ∀ x : UInt8, x.toNat < 48 → (c == x) = false := fun x hx => beq_eq_false_iff_ne.2 (hne x (by omega))
    unfold isspace
    rw [h0 32 (by decide), h0 9 (by decide), h0 10 (by decide), h0 13 (by decide), h0 0 (by decide)]
    rfl
  have hx : tolower c ≠ 120 := by
    intro h120
    have h120' : (tolower c).toNat = 120 := congrArg UInt8.toNat h120
    rw [hlow] at h120'
    split at h120' <;> omega
  have h45 : c ≠ 45 := hne 45 (by have : (45 : UInt8).toNat = 45 := rfl; omega)
  refine ⟨?_, ?_, hspace, h45, hx⟩
  · simp only [isxdigit, isDigit, Bool.or_eq_true, Bool.and_eq_true, decide_eq_true_eq]
    omega
  · have hdig : isDigit c = true ↔ 48 ≤ c.toNat ∧ c.toNat ≤ 57 := Formats.isDigit_iff
    unfold value
    by_cases hd : 48 ≤ c.toNat ∧ c.toNat ≤ 57
    · rw [if_pos (hdig.2 hd)]
      omega
    · rw [if_neg (fun hd' => hd (hdig.1 hd')), hlow]
      split <;> omega

/-- Nothing that continues a number. -/
def Stops (t : List UInt8) : Prop := ∀ c, t.head? = some c → isxdigit c = false ∧ tolower c ≠ 120

theorem positional_mod (b M : Nat) : ∀ (ds : List UInt8) (acc : Nat),
    positional b (acc % M) ds % M = positional b acc ds % M
  | [], acc => Nat.mod_mod acc M
  | c :: ds, acc => by
    have hstep : ∀ a, positional b a (c :: ds) = positional b (a * b + (digitOf c).getD 0) ds := fun a => rfl
    have hmod : (acc % M * b + (digitOf c).getD 0) % M = (acc * b + (digitOf c).getD 0) % M := by
      rw [Nat.add_mod, Nat.mod_mul_mod, ← Nat.add_mod]
    rw [hstep, hstep, ← positional_mod b M ds (acc % M * b + _), hmod, positional_mod]

/-- **The digits of a number are read**, up to what stops it. -/
theorem digits_positional {b : Nat} {t : List UInt8} (ht : Stops t) : ∀ (ds : List UInt8) (acc : Nat),
    (∀ c ∈ ds, ∃ d, digitOf c = some d ∧ d < b) → acc < 2 ^ 64 →
      digits b acc (ds ++ t) = (positional b acc ds % 2 ^ 64, t)
  | [], acc, _, hacc => by
    have hsame : positional b acc [] % 2 ^ 64 = acc := Nat.mod_eq_of_lt hacc
    rw [List.nil_append, hsame]
    cases t with
    | nil      => rfl
    | cons c r =>
      have hc := (ht c rfl).1
      rw [digits, if_neg (fun h => by rw [hc] at h; cases h.1)]
  | c :: ds, acc, h, hacc => by
    obtain ⟨d, hd, hlt⟩ := h c List.mem_cons_self
    obtain ⟨hx, hv, -⟩ := value_digit hd
    have hstep : positional b acc (c :: ds) = positional b (acc * b + d) ds := by
      unfold positional
      rw [List.foldl_cons, hd, Option.getD_some]
    rw [List.cons_append, digits, if_pos ⟨hx, by omega⟩,
      digits_positional ht ds _ (fun c hc => h c (List.mem_cons_of_mem _ hc)) (Nat.mod_lt _ (by decide)), hv, positional_mod,
      hstep]

/-- No digits are taken for a prefix. -/
theorem skipPrefix_digits {b : Nat} {t : List UInt8} (ht : Stops t) {ds : List UInt8}
    (h : ∀ c ∈ ds, ∃ d, digitOf c = some d ∧ d < b) (hne : ds ≠ []) : skipPrefix b (ds ++ t) = ds ++ t := by
  unfold skipPrefix
  split
  · rename_i x r heq
    refine if_neg (fun hc => ?_)
    obtain ⟨c, ds', rfl⟩ := List.exists_cons_of_ne_nil hne
    cases ds' with
    | nil =>
      have htx : t = x :: r := (List.cons.inj heq).2
      exact (ht x (by rw [htx]; rfl)).2 hc.2
    | cons c' ds' =>
      obtain ⟨d, hd, -⟩ := h c' (List.mem_cons_of_mem _ List.mem_cons_self)
      have hcx : c' = x := (List.cons.inj (List.cons.inj heq).2).1
      exact (value_digit hd).2.2.2.2 (hcx ▸ hc.2)
  · rfl

theorem simpleStrtoull_digits {b : Nat} (hb : b ≠ 0) {t : List UInt8} (ht : Stops t) {ds : List UInt8}
    (h : ∀ c ∈ ds, ∃ d, digitOf c = some d ∧ d < b) (hne : ds ≠ []) :
    simpleStrtoull (ds ++ t) b = (positional b 0 ds % 2 ^ 64, t) := by
  unfold simpleStrtoull
  rw [if_neg hb]
  dsimp only
  rw [skipPrefix_digits ht h hne]
  exact digits_positional ht ds 0 h (by decide)

/-! ## Numbers -/

open Formats (Field Letter Item formatOf argsOf textOf)

/-- The parts of a number in a field that fills from the left. -/
theorem put_parts {f : Field} (hl : f.left = false) (sign ds : List UInt8) :
    ∃ a b, f.put sign ds = List.replicate a 32 ++ (sign ++ (List.replicate b 48 ++ ds)) := by
  unfold Field.put
  rw [hl]
  cases f.zero with
  | true  => exact ⟨0, f.width - (sign.length + ds.length), by simp⟩
  | false => exact ⟨f.width - (sign.length + ds.length), 0, by simp⟩

theorem skipSpaces_replicate (a : Nat) {c : UInt8} (hc : isspace c = false) (r : List UInt8) :
    skipSpaces (List.replicate a 32 ++ c :: r) = some (c :: r) := by
  induction a with
  | zero      => simp [skipSpaces, hc]
  | succ a ih =>
    rw [List.replicate_succ, List.cons_append, skipSpaces, if_pos (by decide)]
    exact ih

/-- The digits of a number behind its sign, zeros in front. -/
theorem digits_zeros (l : Letter) (v : UInt32) (b : Nat) : ∀ c ∈ List.replicate b 48 ++ numeral l.upper l.base (l.abs v),
    ∃ d, digitOf c = some d ∧ d < l.base := by
  have hbase : 1 < l.base ∧ l.base ≤ 16 := by cases l <;> decide
  intro c hc
  rcases List.mem_append.1 hc with hc | hc
  · rw [List.eq_of_mem_replicate hc]
    exact ⟨0, rfl, by omega⟩
  · exact digits_numeral hbase.1 hbase.2 c hc

theorem positional_zeros (l : Letter) (v : UInt32) (b : Nat) :
    positional l.base 0 (List.replicate b 48 ++ numeral l.upper l.base (l.abs v)) = l.abs v := by
  have hbase : 1 < l.base ∧ l.base ≤ 16 := by cases l <;> decide
  have hzeros : ∀ b, positional l.base 0 (List.replicate b 48) = 0 := by
    intro b
    induction b with
    | zero      => rfl
    | succ b ih =>
      have h48 : 0 * l.base + (digitOf 48).getD 0 = 0 := by rw [Nat.zero_mul]; rfl
      rw [List.replicate_succ, positional, List.foldl_cons, h48]
      exact ih
  rw [positional_append, hzeros, positional_numeral hbase.1 hbase.2]

theorem strtoull_number (l : Letter) (v : UInt32) (b : Nat) {t : List UInt8} (ht : Stops t) :
    simpleStrtoull (List.replicate b 48 ++ numeral l.upper l.base (l.abs v) ++ t) l.base = (l.abs v, t) := by
  have hne : List.replicate b 48 ++ numeral l.upper l.base (l.abs v) ≠ [] := fun h =>
    numeral_ne_nil (List.append_eq_nil_iff.1 h).2
  have habs : l.abs v < 2 ^ 64 := Nat.lt_trans (Formats.abs_lt l v) (by decide)
  rw [simpleStrtoull_digits (by cases l <;> decide) ht (digits_zeros l v b) hne, positional_zeros, Nat.mod_eq_of_lt habs]

theorem strtoul_number (l : Letter) (v : UInt32) (b : Nat) {t : List UInt8} (ht : Stops t) :
    simpleStrtoul (List.replicate b 48 ++ numeral l.upper l.base (l.abs v) ++ t) l.base = (l.abs v, t) := by
  unfold simpleStrtoul
  rw [strtoull_number l v b ht, Nat.mod_eq_of_lt (Formats.abs_lt l v)]

/-- The sign of a number. -/
def signOf (l : Letter) (v : UInt32) : List UInt8 := if l.negative v then [45] else []

/-- What a number begins with behind its sign. -/
theorem number_head (l : Letter) (v : UInt32) (b : Nat) (t : List UInt8) :
    ∃ c r d, List.replicate b 48 ++ numeral l.upper l.base (l.abs v) ++ t = c :: r ∧ digitOf c = some d ∧ d < l.base := by
  obtain ⟨c, r, hcr⟩ := List.exists_cons_of_ne_nil (l := List.replicate b 48 ++ numeral l.upper l.base (l.abs v))
    (fun h => numeral_ne_nil (List.append_eq_nil_iff.1 h).2)
  obtain ⟨d, hd, hlt⟩ := digits_zeros l v b c (by rw [hcr]; exact List.mem_cons_self)
  exact ⟨c, r ++ t, d, by rw [hcr, List.cons_append], hd, hlt⟩

/-- **A number is stored as it was.** -/
theorem convert_number (strtod : List UInt8 → UInt64 × List UInt8) (l : Letter) (v : UInt32) (b : Nat) {t : List UInt8}
    (ht : Stops t) : convert strtod 255 l.base (decide (l = .d)) false
      (signOf l v ++ (List.replicate b 48 ++ numeral l.upper l.base (l.abs v)) ++ t) = (.int 4 v.toNat, t) := by
  have hv : v.toNat < 2 ^ 32 := v.toNat_lt
  have hul := strtoul_number l v b ht
  unfold convert
  rw [if_neg (by decide), if_neg (by decide), if_neg (by decide), if_neg (by decide)]
  by_cases hd : l = .d
  · rw [if_pos (decide_eq_true hd)]
    by_cases hn : l.negative v = true
    · have habs : l.abs v = 2 ^ 32 - v.toNat := if_pos hn
      have hlow : 2 ^ 31 ≤ v.toNat := by
        rw [Letter.negative, Bool.and_eq_true, decide_eq_true_eq, decide_eq_true_eq] at hn
        exact hn.2
      have hstr : simpleStrtol (45 :: (List.replicate b 48 ++ numeral l.upper l.base (l.abs v) ++ t)) l.base =
          ((2 ^ 32 - l.abs v) % 2 ^ 32, t) := by
        rw [simpleStrtol, hul]
      have hval : (2 ^ 32 - l.abs v) % 2 ^ 32 = v.toNat := by
        rw [habs]
        omega
      rw [signOf, if_pos hn, List.append_assoc, List.singleton_append, hstr, hval]
    · have habs : l.abs v = v.toNat := if_neg hn
      obtain ⟨c, r, d, hcr, hc, -⟩ := number_head l v b t
      have hstr : simpleStrtol (c :: r) l.base = simpleStrtoul (c :: r) l.base := by
        unfold simpleStrtol
        split
        · cases ‹c :: r = _›
          exact absurd rfl (value_digit hc).2.2.2.1
        · rfl
      rw [signOf, if_neg hn, List.nil_append, hcr, hstr, ← hcr, hul, habs]
  · have hn : l.negative v = false := by
      rw [Letter.negative, decide_eq_false hd, Bool.false_and]
    have habs : l.abs v = v.toNat := if_neg (by rw [hn]; exact Bool.false_ne_true)
    rw [if_neg (by rwa [decide_eq_true_eq]), if_neg Bool.false_ne_true, signOf, hn, if_neg Bool.false_ne_true,
      List.nil_append, hul, habs]

/-- The test looks at one byte: the first one, or the one behind a minus that may stand there. -/
theorem startsNumber_head (base : Nat) {signed : Bool} {str r : List UInt8} {c : UInt8}
    (h : str = c :: r ∧ c ≠ 45 ∨ str = 45 :: c :: r ∧ signed = true) :
    startsNumber base signed str = !(c == 0 || base == 16 && !isxdigit c || base == 10 && !isDigit c ||
      base == 8 && (!isDigit c || decide (55 < c.toNat)) || base == 0 && !isDigit c) := by
  rcases h with ⟨rfl, hc⟩ | ⟨rfl, rfl⟩
  · unfold startsNumber
    dsimp only
    split
    · rename_i heq
      split at heq
      · rename_i hcr
        cases hcr
        exact absurd rfl hc
      · cases heq
    · rename_i heq
      split at heq
      · rename_i hcr
        cases hcr
        exact absurd rfl hc
      · cases heq
        rfl
  · rfl

theorem starts_number (l : Letter) (v : UInt32) (b : Nat) (t : List UInt8) :
    startsNumber l.base (decide (l = .d) || false)
      (signOf l v ++ (List.replicate b 48 ++ numeral l.upper l.base (l.abs v)) ++ t) = true := by
  have hbase : l.base = 10 ∨ l.base = 16 := by cases l <;> simp [Letter.base]
  obtain ⟨c, r, d, hcr, hc, hlt⟩ := number_head l v b t
  obtain ⟨hx, hv, hs, h45, -⟩ := value_digit hc
  have h0 : (c == 0) = false := by
    cases h : c == 0 with
    | false => rfl
    | true  =>
      rw [eq_of_beq h] at hs
      cases hs
  have hten : l.base = 10 → isDigit c = true := fun h => (Formats.digit_value hc (h ▸ hlt)).1
  have hplace : signOf l v ++ (List.replicate b 48 ++ numeral l.upper l.base (l.abs v)) ++ t = c :: r ∧ c ≠ 45 ∨
      signOf l v ++ (List.replicate b 48 ++ numeral l.upper l.base (l.abs v)) ++ t = 45 :: c :: r ∧
        (decide (l = .d) || false) = true := by
    by_cases hn : l.negative v = true
    · have hd : decide (l = .d) = true := by
        rw [Letter.negative, Bool.and_eq_true] at hn
        exact hn.1
      rw [signOf, if_pos hn, List.append_assoc, List.singleton_append, hcr, hd]
      exact .inr ⟨rfl, rfl⟩
    · rw [signOf, if_neg hn, List.nil_append, hcr]
      exact .inl ⟨rfl, h45⟩
  rw [startsNumber_head l.base hplace]
  rcases hbase with h | h
  · simp [h0, h, hten h]
  · simp [h0, h, hx]

/-! ## The loop -/

variable {strtod : List UInt8 → UInt64 × List UInt8} {total : Nat}

theorem matchSpaces_plain {c : UInt8} (hs : isspace c = false) (str fmt : List UInt8) :
    matchSpaces str (c :: fmt) = some (str, c :: fmt) := by
  unfold matchSpaces
  dsimp only
  rw [hs]
  rfl

theorem loop_next {str fmt str' fmt' : List UInt8} {o : Option Stored} (hfmt : fmt ≠ []) (hstr : str ≠ [])
    (h : round strtod total str fmt = .next o str' fmt') :
    loop strtod total str fmt = (loop strtod total str' fmt').map fun r => (counted o + r.1, o.toList ++ r.2) := by
  rw [loop, if_neg (by simp [hfmt, hstr])]
  split <;> rename_i h' <;> rw [h] at h' <;> cases h'
  rfl

variable (strtod total) in
theorem round_lit {c : UInt8} (hc : c ≠ 37) (hs : isspace c = false) (str fmt : List UInt8) :
    round strtod total (c :: str) (c :: fmt) = .next none str fmt := by
  unfold round
  rw [matchSpaces_plain hs]
  dsimp only
  split
  · cases ‹some _ = none›
  · cases ‹some _ = some (_, [])›
  · rename_i h
    cases h
    exact absurd rfl hc
  · rename_i h
    cases h
    simp

theorem round_conversion {str conv : List UInt8} (hstr : str ≠ []) (hstar : conv.head? ≠ some 42)
    (hrest : (specOf conv).rest ≠ []) :
    round strtod total str (37 :: conv) = conversion strtod total (specOf conv) str := by
  unfold round
  rw [matchSpaces_plain (by decide)]
  simp [hstar, hstr, hrest]

theorem qualifier_none {c : UInt8} (hc : ¬ (c = 104 ∨ tolower c = 108 ∨ tolower c = 122)) (r : List UInt8) :
    getQualifier (c :: r) = (255, c :: r) := if_neg hc

variable (strtod total) in
/-- `%%` reads a `%`. -/
theorem round_percent (str fmt : List UInt8) : round strtod total (37 :: str) (37 :: 37 :: fmt) = .next none str fmt := by
  have hq : getQualifier (37 :: fmt) = (255, 37 :: fmt) := qualifier_none (by decide) fmt
  have hspec : specOf (37 :: fmt) = ⟨-1, 255, 37 :: fmt⟩ := by
    have hw : fieldWidth (37 :: fmt) = (-1, 37 :: fmt) := rfl
    rw [specOf, hw]
    dsimp only
    rw [hq]
  rw [round_conversion (List.cons_ne_nil _ _) (by simp) (by rw [hspec]; exact List.cons_ne_nil _ _), hspec]
  simp [conversion]

variable (strtod total) in
/-- The conversion of a number. -/
theorem round_num {str str' conv fmt : List UInt8} {c : UInt8} {w : Int} {q : UInt8} {base : Nat} {sign float : Bool}
    (hstar : conv.head? ≠ some 42) (hspec : specOf conv = ⟨w, q, c :: fmt⟩) (hnum : numeric c = some (base, sign, float))
    (hskip : skipSpaces str = some str') (hstart : startsNumber base (sign || float) str' = true) :
    round strtod total str (37 :: conv) = .next (some (convert strtod q base sign float str').1)
      (convert strtod q base sign float str').2 fmt := by
  have hstr : str ≠ [] := fun h => by
    rw [h] at hskip
    cases hskip
  rw [round_conversion hstr hstar (by rw [hspec]; exact List.cons_ne_nil _ _), hspec]
  have hletters : c ≠ 99 ∧ c ≠ 115 ∧ c ≠ 110 ∧ c ≠ 37 := by
    refine ⟨?_, ?_, ?_, ?_⟩ <;> rintro rfl <;> cases hnum
  unfold conversion
  dsimp only
  split
  · cases ‹c :: fmt = []›
  · cases ‹c :: fmt = _›
    exact absurd rfl hletters.1
  · cases ‹c :: fmt = _›
    exact absurd rfl hletters.2.1
  · cases ‹c :: fmt = _›
    exact absurd rfl hletters.2.2.1
  · cases ‹c :: fmt = _›
    exact absurd rfl hletters.2.2.2
  · cases ‹c :: fmt = _›
    rw [hnum]
    dsimp only
    rw [hskip]
    dsimp only
    rw [if_pos hstart]

/-! ## The round trip -/

/-- The field of a number in front of its letter, as `vsscanf` reads it. -/
theorem specOf_spelled {f : Field} (hl : f.left = false) (l : Letter) (fmt : List UInt8) :
    ∃ w, specOf (f.spelled ++ l.byte :: fmt) = ⟨w, 255, l.byte :: fmt⟩ := by
  have hletter : isDigit l.byte = false := by cases l <;> rfl
  have hq : getQualifier (l.byte :: fmt) = (255, l.byte :: fmt) := qualifier_none (by cases l <;> decide) fmt
  have hds : ∀ c ∈ f.spelled, ∃ d, digitOf c = some d ∧ d < 10 := by
    intro c hc
    unfold Field.spelled Field.widthText at hc
    rw [hl, if_neg Bool.false_ne_true, List.nil_append] at hc
    rcases List.mem_append.1 hc with hc | hc
    · split at hc
      · cases List.mem_singleton.1 hc
        exact ⟨0, rfl, by decide⟩
      · cases hc
    · split at hc
      · cases hc
      · exact digits_numeral (by decide) (by decide) c hc
  have hskip := Formats.skipAtoi_digits (r := l.byte :: fmt) hletter f.spelled 0 hds
  have hfield : (fieldWidth (f.spelled ++ l.byte :: fmt)).2 = l.byte :: fmt := by
    unfold fieldWidth
    split
    · rw [hskip]
    · rename_i hhead
      cases hs : f.spelled with
      | nil       => rfl
      | cons c ds =>
        obtain ⟨d, hd, hlt⟩ := hds c (by rw [hs]; exact List.mem_cons_self)
        rw [hs] at hhead
        exact absurd (Formats.digit_value hd hlt).1 hhead
  refine ⟨(fieldWidth (f.spelled ++ l.byte :: fmt)).1, ?_⟩
  unfold specOf
  dsimp only
  rw [hfield, hq]

theorem numeric_byte (l : Letter) : numeric l.byte = some (l.base, decide (l = .d), false) := by
  cases l <;> rfl

/-- Pieces that can be read back: numbers that fill from the left, with something behind them that stops them, and
characters that are neither white space nor `%`. -/
def Separated : List Item → Prop
  | []               => True
  | .lit c :: is     => c ≠ 37 ∧ isspace c = false ∧ Separated is
  | .percent :: is   => Separated is
  | .num f _ _ :: is => f.left = false ∧ f.width < 32768 ∧ Stops (textOf is) ∧ Separated is
  | _                => False

/-- The numbers among the pieces. -/
def numbers : List Item → List UInt32
  | .num _ _ v :: is => v :: numbers is
  | _ :: is          => numbers is
  | []               => []

/-- **The numbers are read back**, as many as there are. -/
theorem loop_items : ∀ (is : List Item), Separated is → loop strtod total (textOf is) (formatOf is) =
    some ((numbers is).length, (numbers is).map fun v => .int 4 v.toNat)
  | [], _ => by
    rw [loop, if_pos (.inl rfl)]
    rfl
  | .lit c :: is, h => by
    have hround := round_lit strtod total h.1 h.2.1 (textOf is) (formatOf is)
    have hnext := loop_next (List.cons_ne_nil _ _) (List.cons_ne_nil _ _) hround
    rw [loop_items is h.2.2, Option.map_some, counted, Nat.zero_add] at hnext
    exact hnext
  | .percent :: is, h => by
    have hround := round_percent strtod total (textOf is) (formatOf is)
    have hnext := loop_next (List.cons_ne_nil _ _) (List.cons_ne_nil _ _) hround
    rw [loop_items is h, Option.map_some, counted, Nat.zero_add] at hnext
    exact hnext
  | .num f l v :: is, h => by
    obtain ⟨hl, hw, hstops, his⟩ := h
    obtain ⟨a, b, hput⟩ := put_parts hl (signOf l v) (numeral l.upper l.base (l.abs v))
    obtain ⟨w, hspec⟩ := specOf_spelled hl l (formatOf is)
    have htext : textOf (.num f l v :: is) = List.replicate a 32 ++ (signOf l v ++
        (List.replicate b 48 ++ numeral l.upper l.base (l.abs v)) ++ textOf is) := by
      have hcons : textOf (.num f l v :: is) = f.put (signOf l v) (numeral l.upper l.base (l.abs v)) ++ textOf is := rfl
      rw [hcons, hput]
      simp only [List.append_assoc]
    have hformat : formatOf (.num f l v :: is) = 37 :: (f.spelled ++ l.byte :: formatOf is) := by
      have hcons : formatOf (.num f l v :: is) = 37 :: f.spelled ++ [l.byte] ++ formatOf is := rfl
      rw [hcons]
      simp
    have hstar : (f.spelled ++ l.byte :: formatOf is).head? ≠ some 42 := by
      obtain ⟨c, t, hct, -, -, -, -, -, h42, -⟩ :=
        Formats.behind_flags f (by cases l <;> decide : l.byte ∈ Formats.letters) (formatOf is)
      unfold Field.spelled
      rw [hl, if_neg Bool.false_ne_true, List.nil_append, List.append_assoc, hct]
      cases f.zero <;> simp [h42]
    have hskip : skipSpaces (textOf (.num f l v :: is)) = some (signOf l v ++
        (List.replicate b 48 ++ numeral l.upper l.base (l.abs v)) ++ textOf is) := by
      rw [htext]
      by_cases hn : l.negative v = true
      · have hsign : signOf l v = [45] := if_pos hn
        rw [hsign, List.append_assoc, List.singleton_append]
        exact skipSpaces_replicate a (by decide) _
      · have hsign : signOf l v = [] := if_neg hn
        obtain ⟨c, r, d, hcr, hc, -⟩ := number_head l v b (textOf is)
        rw [hsign, List.nil_append, hcr]
        exact skipSpaces_replicate a (value_digit hc).2.2.1 r
    have hround := round_num strtod total hstar hspec (numeric_byte l) hskip
      (starts_number l v b (textOf is))
    rw [convert_number strtod l v b hstops] at hround
    have hne : textOf (.num f l v :: is) ≠ [] := fun h => by
      rw [h] at hskip
      cases hskip
    have hnext := loop_next (List.cons_ne_nil _ _) hne hround
    have hone : counted (some (.int 4 v.toNat)) = 1 := rfl
    rw [loop_items is his, Option.map_some] at hnext
    dsimp only at hnext
    rw [hone, Nat.add_comm] at hnext
    rw [hformat]
    exact hnext
  | .str _ _ :: _, h => h.elim
  | .char _ _ :: _, h => h.elim

theorem plain_of_separated : ∀ (is : List Item), Separated is → ∀ i ∈ is, i.Plain
  | [], _, i, hi => by cases hi
  | .lit c :: is, h, i, hi => by
    rcases List.mem_cons.1 hi with rfl | hi
    · exact h.1
    · exact plain_of_separated is h.2.2 i hi
  | .percent :: is, h, i, hi => by
    rcases List.mem_cons.1 hi with rfl | hi
    · exact trivial
    · exact plain_of_separated is h i hi
  | .num f l v :: is, h, i, hi => by
    rcases List.mem_cons.1 hi with rfl | hi
    · exact ⟨by rw [h.1, Bool.false_and], h.2.1⟩
    · exact plain_of_separated is h.2.2.2 i hi
  | .str _ _ :: _, h, _, _ => h.elim
  | .char _ _ :: _, h, _, _ => h.elim

theorem args_of_separated : ∀ (is : List Item), Separated is → argsOf is = (numbers is).map Vsnprintf.Arg.int
  | [], _ => rfl
  | .lit _ :: is, h => args_of_separated is h.2.2
  | .percent :: is, h => args_of_separated is h
  | .num _ _ v :: is, h => congrArg (Vsnprintf.Arg.int v :: ·) (args_of_separated is h.2.2.2)
  | .str _ _ :: _, h => h.elim
  | .char _ _ :: _, h => h.elim

/-- The text of such pieces is a C string. -/
theorem zero_not_mem_text : ∀ (is : List Item), Separated is → 0 ∉ textOf is
  | [], _ => List.not_mem_nil
  | .lit c :: is, h => by
    intro h0
    rcases List.mem_cons.1 h0 with h0 | h0
    · have hs := h.2.1
      rw [← h0] at hs
      cases hs
    · exact zero_not_mem_text is h.2.2 h0
  | .percent :: is, h => by
    intro h0
    rcases List.mem_cons.1 h0 with h0 | h0
    · cases h0
    · exact zero_not_mem_text is h h0
  | .num f l v :: is, h => by
    obtain ⟨a, b, hput⟩ := put_parts h.1 (signOf l v) (numeral l.upper l.base (l.abs v))
    have hcons : textOf (.num f l v :: is) = f.put (signOf l v) (numeral l.upper l.base (l.abs v)) ++ textOf is := rfl
    intro h0
    rw [hcons, hput, List.append_assoc, List.append_assoc] at h0
    rcases List.mem_append.1 h0 with h0 | h0
    · cases List.eq_of_mem_replicate h0
    rcases List.mem_append.1 h0 with h0 | h0
    · unfold signOf at h0
      split at h0
      · cases List.mem_singleton.1 h0
      · cases h0
    rcases List.mem_append.1 h0 with h0 | h0
    · obtain ⟨d, hd, -⟩ := digits_zeros l v b 0 h0
      cases (value_digit hd).2.2.1
    · exact zero_not_mem_text is h.2.2.2 h0
  | .str _ _ :: _, h => h.elim
  | .char _ _ :: _, h => h.elim

/-- **What `sprintf` has printed, `sscanf` reads back** with the same format: as many numbers, each with its value. -/
theorem sscanf_sprintf (strtod : List UInt8 → UInt64 × List UInt8) {is : List Item} (h : Separated is) (m : Mem)
    {p top : Nat} (htop : p + (textOf is).length < top) :
    argsOf is = (numbers is).map Vsnprintf.Arg.int ∧
      ∃ m', Stdarg.sprintf m p (formatOf is) (argsOf is) = some ((textOf is).length, m') ∧
        vsscanf strtod (m'.cstr top p) (formatOf is) =
          some ((numbers is).length, (numbers is).map fun v => .int 4 v.toNat) := by
  refine ⟨args_of_separated is h, _, Formats.sprintf_items (plain_of_separated is h) m p, ?_⟩
  rw [Mem.cstr_ended (Mem.read_write_self m p (textOf is ++ [0])) (zero_not_mem_text is h) htop]
  exact loop_items is h

/-- `"%02x:%d"` for 10 and -7. -/
def pair : List Item := [.num ⟨false, true, 2⟩ .x 10, .lit 58, .num ⟨false, false, 0⟩ .d 4294967289]

theorem sscanf_sprintf_pair : argsOf pair = (numbers pair).map Vsnprintf.Arg.int ∧
    ∃ m', Stdarg.sprintf (fun _ => 0) 64 (formatOf pair) (argsOf pair) = some ((textOf pair).length, m') ∧
      vsscanf (fun s => (0, s)) (m'.cstr 128 64) (formatOf pair) =
        some ((numbers pair).length, (numbers pair).map fun v => .int 4 v.toNat) := by
  have hcolon : Stops (textOf [.lit 58, .num ⟨false, false, 0⟩ .d 4294967289]) := by
    intro c hc
    cases hc
    decide
  have hend : Stops (textOf []) := fun c hc => by cases hc
  exact @sscanf_sprintf (fun s => (0, s)) pair
    ⟨rfl, by decide, hcolon, by decide, rfl, rfl, by decide, hend, trivial⟩ (fun _ => 0) 64 128 (by decide)

/-! ## Within both strings -/

/-- What is stored for a text: an integer within its size, a part of one word of the text or some of its characters, no
more than the width of the conversion lets through, or a number of characters that it has. -/
def Stored.Fits (text : List UInt8) : Stored → Prop
  | .int size v => v < 256 ^ size
  | .str w s    => s.length ≤ strRoom w ∧ s <:+: text ∧ ∀ c ∈ s, isspace c = false
  | .chars w s  => s.length ≤ charRoom w ∧ s <:+: text ∧ s ≠ []
  | .count n    => n ≤ text.length
  | .float _    => True

/-- What a round may come to: nothing is read behind an end, and what is stored fits. -/
def Round.Within (text str fmt : List UInt8) : Round → Prop
  | .overrun       => False
  | .stop _ _      => True
  | .quit          => True
  | .next o s' f'  => s' <:+ str ∧ f' <:+ fmt ∧ ∀ s ∈ o, s.Fits text

end Vsscanf
end OtaLoader
