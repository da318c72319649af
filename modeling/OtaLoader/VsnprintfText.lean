import OtaLoader.Vsnprintf
/-!
# VsnprintfText — the text that `vsnprintf` makes

The digits of a number are its numeral, in every base (`digitsOf_eq`), and what is put around them is the layout of the
conversion.  A format has one text, whatever room there is for it: the buffer gets the part that fits.
-/
namespace OtaLoader
namespace Vsnprintf

/-! ## Digits -/

theorem digit_char {d : Nat} (h : d < 10) (upper : Bool) : UInt8.ofNat (d + zero) = digitByte upper d := by
  rw [digitByte, if_pos h, zero, Nat.add_comm]

/-- The divisions by ten: a factor and a shift. -/
theorem shift_205 : ∀ x, x < 400 → (x * 0xcd) >>> 11 = x / 10 := by decide +kernel

theorem shift_13 : ∀ x, x < 69 → (x * 0xd) >>> 7 = x / 10 := by decide +kernel

/-- **The carries**: what is left of the number after each digit, from its four parts. -/
theorem carries {q : Nat} (hq : q < 100000) : ∃ d1 d2 d3 d0, (q >>> 4) &&& 0xf = d1 ∧ (q >>> 8) &&& 0xf = d2 ∧
    q >>> 12 = d3 ∧ 6 * (d3 + d2 + d1) + (q &&& 0xf) = d0 ∧
    d0 < 400 ∧ q % 10 = d0 % 10 ∧
    (∃ a, d0 / 10 + 9 * d3 + 5 * d2 + d1 = a ∧ a < 400 ∧ q / 10 = a + 400 * d3 + 20 * d2 ∧
    (∃ b, a / 10 + 2 * d2 = b ∧ b < 69 ∧ q / 100 = b + 40 * d3 ∧
    (∃ c, b / 10 + 4 * d3 = c ∧ c < 400 ∧ q / 1000 = c))) := by
  have h1 : (q >>> 4) &&& 0xf = q / 16 % 16 := by
    rw [Nat.shiftRight_eq_div_pow]
    exact Nat.and_two_pow_sub_one_eq_mod _ 4
  have h2 : (q >>> 8) &&& 0xf = q / 256 % 16 := by
    rw [Nat.shiftRight_eq_div_pow]
    exact Nat.and_two_pow_sub_one_eq_mod _ 4
  have h3 : q >>> 12 = q / 4096 := Nat.shiftRight_eq_div_pow q 12
  have h0 : q &&& 0xf = q % 16 := Nat.and_two_pow_sub_one_eq_mod q 4
  rw [h1, h2, h3, h0]
  have hparts : q = 4096 * (q / 4096) + 256 * (q / 256 % 16) + 16 * (q / 16 % 16) + q % 16 := by omega
  have hb1 : q / 16 % 16 < 16 := Nat.mod_lt _ (by decide)
  have hb2 : q / 256 % 16 < 16 := Nat.mod_lt _ (by decide)
  have hb3 : q / 4096 < 25 := by omega
  have hb0 : q % 16 < 16 := Nat.mod_lt _ (by decide)
  generalize q / 16 % 16 = d1 at *
  generalize q / 256 % 16 = d2 at *
  generalize q / 4096 = d3 at *
  generalize q % 16 = e at *
  refine ⟨d1, d2, d3, _, rfl, rfl, rfl, rfl, by omega, by omega, _, rfl, by omega, by omega, _, rfl, by omega, ?_, _,
    rfl, by omega, ?_⟩
  · have ha : q / 10 = (6 * (d3 + d2 + d1) + e) / 10 + 9 * d3 + 5 * d2 + d1 + 400 * d3 + 20 * d2 := by omega
    omega
  · have ha : q / 10 = (6 * (d3 + d2 + d1) + e) / 10 + 9 * d3 + 5 * d2 + d1 + 400 * d3 + 20 * d2 := by omega
    omega

theorem putDecFull_eq {q : Nat} (hq : q < 100000) : putDecFull q =
    [q % 10, q / 10 % 10, q / 100 % 10, q / 1000 % 10, q / 10000].map (fun d => UInt8.ofNat (d + zero)) := by
  obtain ⟨d1, d2, d3, d0, h1, h2, h3, h0, b0, m0, a, ha, ba, ma, b, hb, bb, mb, c, hc, bc, mc⟩ := carries hq
  unfold putDecFull
  dsimp only
  rw [h1, h2, h3, h0, shift_205 _ b0, ha, shift_205 _ ba, hb, shift_13 _ bb, hc, shift_205 _ bc]
  congr 1
  simp only [List.cons.injEq, and_true]
  omega

/-- **`put_dec_trunc`**: the digits of a number below 100000. -/
theorem putDecTrunc_eq {q : Nat} (hq : q < 100000) (upper : Bool) : putDecTrunc q = (numeral upper 10 q).reverse := by
  obtain ⟨d1, d2, d3, d0, h1, h2, h3, h0, b0, m0, a, ha, ba, ma, b, hb, bb, mb, c, hc, bc, mc⟩ := carries hq
  have hten : ∀ {n d : Nat}, n ≠ 0 → n % 10 = d % 10 →
      lowDigits upper 10 n = UInt8.ofNat (d - 10 * (d / 10) + zero) :: lowDigits upper 10 (n / 10) := by
    intro n d hn hd
    rw [lowDigits_pos (by decide) (by decide) hn, hd, digit_char (by omega) upper, ← Nat.mod_eq_sub_mul_div]
  unfold putDecTrunc
  dsimp only
  rw [h1, h2, h3, h0, shift_205 _ b0, ha, shift_205 _ ba, hb, shift_13 _ bb, hc, shift_205 _ bc,
    reverse_numeral (by decide) (by decide), m0, ← digit_char (by omega), Nat.mod_eq_sub_mul_div]
  congr 1
  by_cases h10 : q / 10 = 0
  · rw [if_neg (by omega), h10, lowDigits_zero]
  rw [if_pos (by omega), hten h10 (by omega : q / 10 % 10 = a % 10), Nat.div_div_eq_div_mul q 10 10]
  congr 1
  by_cases h100 : q / (10 * 10) = 0
  · rw [if_neg (by omega), h100, lowDigits_zero]
  rw [if_pos (by omega), hten h100 (by omega : q / (10 * 10) % 10 = b % 10), Nat.div_div_eq_div_mul q (10 * 10) 10]
  congr 1
  by_cases h1000 : q / (10 * 10 * 10) = 0
  · rw [if_neg (by omega), h1000, lowDigits_zero]
  have hc3 : q / (10 * 10 * 10) = c := mc
  rw [if_pos (by omega), hten h1000 (by rw [hc3]), hc3]
  congr 1
  by_cases h10000 : c / 10 = 0
  · rw [if_neg (by omega), h10000, lowDigits_zero]
  have hlast : c / 10 < 10 := by omega
  rw [if_pos (by omega), lowDigits_pos (by decide) (by decide) h10000, Nat.mod_eq_of_lt hlast, ← digit_char hlast,
    Nat.div_eq_of_lt hlast, lowDigits_zero]

/-- **`put_dec`**: the digits of any number, five at a time. -/
theorem putDec_eq (upper : Bool) (num : Nat) : putDec num = (numeral upper 10 num).reverse := by
  induction num using putDec.induct with
  | case1 num h =>
    rw [putDec, if_pos h]
    exact putDecTrunc_eq h upper
  | case2 num h ih =>
    have hstep : ∀ n, n ≠ 0 → lowDigits upper 10 n = digitByte upper (n % 10) :: lowDigits upper 10 (n / 10) := fun n hn =>
      lowDigits_pos (by decide) (by decide) hn
    have hall : (numeral upper 10 num).reverse = lowDigits upper 10 num := (if_neg (by omega)).symm
    have hrest : (numeral upper 10 (num / 100000)).reverse = lowDigits upper 10 (num / 100000) := (if_neg (by omega)).symm
    rw [putDec, if_neg h, ih, putDecFull_eq (by omega), hall, hrest, hstep num (by omega), hstep (num / 10) (by omega),
      hstep (num / 10 / 10) (by omega), hstep (num / 10 / 10 / 10) (by omega), hstep (num / 10 / 10 / 10 / 10) (by omega)]
    simp only [List.map_cons, List.map_nil, List.cons_append, List.nil_append, Nat.div_div_eq_div_mul, Nat.reduceMul]
    rw [digit_char (by omega) upper, digit_char (by omega) upper, digit_char (by omega) upper, digit_char (by omega) upper,
      digit_char (by omega) upper]
    have e0 : num % 100000 % 10 = num % 10 := by omega
    have e1 : num % 100000 / 10 % 10 = num / 10 % 10 := by omega
    have e2 : num % 100000 / 100 % 10 = num / 100 % 10 := by omega
    have e3 : num % 100000 / 1000 % 10 = num / 1000 % 10 := by omega
    have e4 : num % 100000 / 10000 = num / 10000 % 10 := by omega
    rw [e0, e1, e2, e3, e4]

/-- The digits by masks and shifts. -/
theorem maskDigits_eq (locase : Bool) {shift : Nat} (h0 : 0 < shift) (h4 : shift ≤ 4) (num : Nat) :
    maskDigits locase shift num = (numeral (!locase) (2 ^ shift) num).reverse := by
  have h1 : 1 < 2 ^ shift := Nat.one_lt_two_pow (Nat.ne_of_gt h0)
  have h16 : 2 ^ shift ≤ 16 := Nat.pow_le_pow_right (by decide) h4
  have hmask : ∀ n, n % 256 &&& (2 ^ shift - 1) = n % 2 ^ shift := by
    intro n
    have hdvd : 2 ^ shift ∣ 256 := Nat.pow_dvd_pow 2 (by omega : shift ≤ 8)
    rw [Nat.and_two_pow_sub_one_eq_mod, Nat.mod_mod_of_dvd n hdvd]
  induction num using numeral_induction h1 with
  | small n h =>
    have hz : n / 2 ^ shift = 0 := Nat.div_eq_of_lt h
    rw [maskDigits, hmask, Nat.shiftRight_eq_div_pow, hz, dif_neg (fun hc => hc.2 rfl), reverse_numeral h1 h16, hz,
      lowDigits_zero]
  | big n h ih =>
    have hz : n / 2 ^ shift ≠ 0 := fun hz => Nat.not_lt.2 h ((Nat.div_eq_zero_iff_lt (by omega)).1 hz)
    have hlow : lowDigits (!locase) (2 ^ shift) (n / 2 ^ shift) = (numeral (!locase) (2 ^ shift) (n / 2 ^ shift)).reverse :=
      if_neg hz
    rw [maskDigits, hmask, Nat.shiftRight_eq_div_pow, dif_pos ⟨h0, hz⟩, ih, ← hlow, ← reverse_numeral h1 h16]

/-- The bases of the conversions. -/
def Based (spec : PrintfSpec) : Prop := spec.base = 8 ∨ spec.base = 10 ∨ spec.base = 16

/-- **The digits of a number are its numeral.** -/
theorem digitsOf_eq {spec : PrintfSpec} (h : Based spec) (num : Nat) :
    digitsOf num spec = (numeral (!spec.flags.small) spec.base num).reverse := by
  unfold digitsOf
  by_cases h0 : num = 0
  · have hlt : num < spec.base := by rcases h with h | h | h <;> omega
    have hle : spec.base ≤ 16 := by rcases h with h | h | h <;> omega
    rw [if_pos h0, numeral_of_lt hle hlt, h0]
    rfl
  rw [if_neg h0]
  rcases h with h | h | h
  · rw [h, if_pos (by decide), if_neg (by decide)]
    exact maskDigits_eq _ (by decide) (by decide) num
  · rw [h, if_neg (by decide)]
    exact putDec_eq _ num
  · rw [h, if_pos (by decide), if_pos rfl]
    exact maskDigits_eq _ (by decide) (by decide) num

/-! ## The layout of a number -/

/-- The absolute value of a number that is read with its sign. -/
def magnitude (num : Nat) (spec : PrintfSpec) : Nat := if spec.flags.sign ∧ 2 ^ 63 ≤ num then 2 ^ 64 - num else num

/-- The sign: always for a negative number, for another one where a flag asks for it. -/
def signText (num : Nat) (spec : PrintfSpec) : List UInt8 :=
  if spec.flags.sign then
    if 2 ^ 63 ≤ num then [45] else if spec.flags.plus then [43] else if spec.flags.space then [32] else []
  else []

/-- The prefix of a base. -/
def pfxText (spec : PrintfSpec) : List UInt8 :=
  if spec.flags.special then
    if spec.base = 8 then [48] else if spec.base = 16 then [48, if spec.flags.small then 120 else 88] else []
  else []

/-- The digits, with zeros in front up to the precision. -/
def digitText (num : Nat) (spec : PrintfSpec) : List UInt8 :=
  let ds := numeral (!spec.flags.small) spec.base (magnitude num spec)
  List.replicate (spec.precision - ds.length).toNat 48 ++ ds

/-- **The text of a number**: spaces fill the field, at one of its ends, or zeros behind the sign and the prefix. -/
def numberText (num : Nat) (spec : PrintfSpec) : List UInt8 :=
  let front := signText num spec ++ pfxText spec
  let ds := digitText num spec
  let fill := (spec.fieldWidth - (front.length + ds.length)).toNat
  if spec.flags.left then front ++ ds ++ List.replicate fill 32
  else if spec.flags.zeropad then front ++ List.replicate fill 48 ++ ds
  else List.replicate fill 32 ++ front ++ ds

/-- The counts of the field and of the precision stay within their 16 bits. -/
structure Narrow (num : Nat) (spec : PrintfSpec) : Prop where
  width : spec.fieldWidth ≤ 32767
  room  : (signText num spec ++ pfxText spec).length + (digitText num spec).length ≤ spec.fieldWidth + 32765

theorem short_eq {x : Int} (h : -32768 ≤ x) (h' : x ≤ 32767) : short x = x := by
  unfold short
  omega

/-- A count of spaces, and what it leaves of the width. -/
theorem padDown_zero {w : Int} (h : -32767 ≤ w) (h' : w ≤ 32767) (c : UInt8) :
    padDown 0 c w = (if 0 < w then -1 else w - 1, List.replicate w.toNat c) := by
  have hs : short (w - 1) = w - 1 := short_eq (by omega) (by omega)
  unfold padDown
  rw [hs]
  by_cases hw : 0 < w
  · have hn : w - 1 - 0 + 1 = w := by omega
    rw [if_pos (by omega), if_pos hw, hn]
    rfl
  · have hn : w.toNat = 0 := by omega
    rw [if_neg (by omega), if_neg hw, hn]
    rfl

/-- Nothing is left to fill. -/
theorem padDown_done {w : Int} (h : -32767 ≤ w) (h' : w ≤ 0) (c : UInt8) : padDown 0 c w = (w - 1, []) := by
  have hn : w.toNat = 0 := by omega
  rw [padDown_zero h (by omega), if_neg (by omega), hn]
  rfl

theorem signOf_eq {num : Nat} {spec : PrintfSpec} (h : -32767 ≤ spec.fieldWidth) (h' : spec.fieldWidth ≤ 32767) :
    signOf num spec = (signText num spec, magnitude num spec, spec.fieldWidth - (signText num spec).length) := by
  have hs : short (spec.fieldWidth - 1) = spec.fieldWidth - 1 := short_eq (by omega) (by omega)
  have h0 : spec.fieldWidth - ((0 : Nat) : Int) = spec.fieldWidth := Int.sub_zero _
  unfold signOf signText magnitude
  rw [hs]
  by_cases hsign : spec.flags.sign = true
  · simp only [hsign, if_true, true_and]
    repeat' split
    all_goals first | rfl | rw [List.length_nil, h0]
  · rw [if_neg hsign, if_neg hsign, if_neg (fun h => hsign h.1), List.length_nil, h0]

theorem length_digitText (num : Nat) (spec : PrintfSpec) : ((digitText num spec).length : Int) =
    max ((numeral (!spec.flags.small) spec.base (magnitude num spec)).length : Int) spec.precision := by
  unfold digitText
  dsimp only
  rw [List.length_append, List.length_replicate]
  omega

/-- The prefix and the width that it leaves. -/
theorem pfx_eq {spec : PrintfSpec} (h : Based spec) {w : Int} (hw : -32766 ≤ w) (hw' : w ≤ 32767) :
    (let needPfx := spec.flags.special && spec.base ≠ 10
     let w := if needPfx then short (w - 1) else w
     (if needPfx then 48 :: if spec.base = 16 then [if spec.flags.small then (120 : UInt8) else 88] else [] else [],
      if needPfx && spec.base = 16 then short (w - 1) else w)) = (pfxText spec, w - (pfxText spec).length) := by
  have h1 : short (w - 1) = w - 1 := short_eq (by omega) (by omega)
  have h2 : short (w - 1 - 1) = w - 1 - 1 := short_eq (by omega) (by omega)
  unfold pfxText
  dsimp only
  cases hs : spec.flags.special with
  | false => simp
  | true  =>
    rcases h with h | h | h
    · simp [h, h1]
    · simp [h]
    · simp [h, h1, h2]
      omega

/-- **The three fills**: one of them takes all of the width that is left. -/
theorem fills_text {w : Int} (h : -32765 ≤ w) (h' : w ≤ 32767) (left zeropad : Bool)
    (sign pfx zeros digits : List UInt8) :
    (let lead := if (zeropad && !left) || left then (w, []) else padDown 0 32 w
     let fill := if left then (lead.1, []) else padDown 0 (if zeropad && !left then 48 else 32) lead.1
     (Parts.mk lead.2 sign pfx fill.2 zeros digits (padDown 0 32 fill.1).2).text) =
      if left then sign ++ pfx ++ (zeros ++ digits) ++ List.replicate w.toNat 32
      else if zeropad then sign ++ pfx ++ List.replicate w.toNat 48 ++ (zeros ++ digits)
      else List.replicate w.toNat 32 ++ (sign ++ pfx) ++ (zeros ++ digits) := by
  have hall := padDown_zero (by omega : -32767 ≤ w) h'
  -- what a fill leaves is below 0, and below 0 there is nothing to fill
  have hleft : -32766 ≤ (if 0 < w then -1 else w - 1) ∧ (if 0 < w then -1 else w - 1) ≤ (0 : Int) := by
    split <;> omega
  unfold Parts.text
  dsimp only
  cases left with
  | true =>
    simp only [Bool.not_true, Bool.and_false, Bool.or_true, if_true, hall]
    simp
  | false =>
    cases zeropad with
    | true =>
      simp only [Bool.not_false, Bool.and_true, Bool.or_false, if_true, hall, Bool.false_eq_true, if_false]
      rw [padDown_done (by omega) hleft.2]
      simp
    | false =>
      simp only [Bool.not_false, Bool.and_true, Bool.or_false, hall, Bool.false_eq_true, if_false]
      rw [padDown_done (by omega) hleft.2, padDown_done (by omega) (by omega)]
      simp

/-- **The parts of a number make its text.** -/
theorem numberParts_text {num : Nat} {spec : PrintfSpec} (hb : Based spec) (hn : Narrow num spec) :
    (numberParts num spec).text = numberText num spec := by
  have hroom := hn.room
  rw [List.length_append] at hroom
  have hwidth := hn.width
  have hlen := length_digitText num spec
  obtain ⟨hp, hw⟩ := Prod.mk.inj (pfx_eq hb (w := spec.fieldWidth - (signText num spec).length) (by omega) (by omega))
  have hds : digitText num spec = List.replicate (spec.precision -
      (numeral (!spec.flags.small) spec.base (magnitude num spec)).length).toNat 48 ++
      numeral (!spec.flags.small) spec.base (magnitude num spec) := rfl
  unfold numberParts numberText
  rw [signOf_eq (by omega) hwidth]
  dsimp only at hp hw ⊢
  rw [hp, hw, digitsOf_eq hb, List.length_reverse, List.reverse_reverse]
  generalize numeral (!spec.flags.small) spec.base (magnitude num spec) = ds at hlen hds ⊢
  have hprec : (if (ds.length : Int) > spec.precision then (ds.length : Int) else spec.precision) =
      (digitText num spec).length := by omega
  have hzeros : (((digitText num spec).length : Int) - ds.length).toNat = (spec.precision - ds.length).toNat := by omega
  have hrest : spec.fieldWidth - (signText num spec).length - (pfxText spec).length - (digitText num spec).length =
      spec.fieldWidth - ((signText num spec ++ pfxText spec).length + (digitText num spec).length) := by
    rw [List.length_append]
    omega
  rw [hprec, short_eq (by omega) (by omega), hrest, hzeros]
  have hlow : -32765 ≤ spec.fieldWidth - ((signText num spec ++ pfxText spec).length + (digitText num spec).length) := by
    rw [List.length_append]
    omega
  rw [hds] at hlow ⊢
  exact fills_text hlow (by omega) spec.flags.left spec.flags.zeropad _ _ _ _

instance decidableNarrow (num : Nat) (spec : PrintfSpec) : Decidable (Narrow num spec) :=
  decidable_of_iff (spec.fieldWidth ≤ 32767 ∧
    (signText num spec ++ pfxText spec).length + (digitText num spec).length ≤ spec.fieldWidth + 32765)
    ⟨fun h => ⟨h.1, h.2⟩, fun h => ⟨h.width, h.room⟩⟩

/-! ## Strings and characters -/

/-- A text in its field. -/
def fieldText (spec : PrintfSpec) (s : List UInt8) : List UInt8 :=
  let fill := List.replicate (spec.fieldWidth - s.length).toNat 32
  if spec.flags.left then s ++ fill else fill ++ s

/-- As much of a string as the precision lets through. -/
def clip (s : List UInt8) (spec : PrintfSpec) : List UInt8 :=
  if spec.precision < 0 then s else s.take spec.precision.toNat

/-- The width of a string or of a character stays within its 16 bits. -/
def NarrowField (spec : PrintfSpec) : Prop := -32766 ≤ spec.fieldWidth ∧ spec.fieldWidth ≤ 32767

instance decidableNarrowField (spec : PrintfSpec) : Decidable (NarrowField spec) :=
  inferInstanceAs (Decidable (_ ∧ _))

variable {stop : Nat}

theorem number_eq {num : Nat} {spec : PrintfSpec} (hb : Based spec) (hn : Narrow num spec) (o : Sink) :
    number stop o num spec = o.puts stop (numberText num spec) := by
  rw [← numberParts_text hb hn]
  unfold number Parts.text
  simp only [Sink.puts_append]

theorem padTo_done {len : Nat} {w : Int} (h : -32767 ≤ w) (h' : w ≤ len) (hw : w ≤ 32768) : padTo len w = (w - 1, []) := by
  unfold padTo
  rw [if_neg (by omega), short_eq (by omega) (by omega)]

theorem string_eq {spec : PrintfSpec} (hn : NarrowField spec) (s : List UInt8) (o : Sink) :
    string stop o s spec = o.puts stop (fieldText spec (clip s spec)) := by
  obtain ⟨h, h'⟩ := hn
  unfold string
  rw [← clip]
  generalize clip s spec = s
  unfold fieldText
  dsimp only
  by_cases hw : (s.length : Int) < spec.fieldWidth
  · have hpad : padTo s.length spec.fieldWidth =
        ((s.length : Int) - 1, List.replicate (spec.fieldWidth - s.length).toNat 32) := if_pos hw
    have hpad' : padTo s.length ((s.length : Int) - 1) = ((s.length : Int) - 1 - 1, []) :=
      padTo_done (by omega) (by omega) (by omega)
    cases spec.flags.left with
    | true  => simp only [if_true, hpad, Sink.puts_nil, Sink.puts_append]
    | false =>
      simp only [Bool.false_eq_true, if_false, hpad, hpad', Sink.puts_nil, Sink.puts_append]
  · have hpad : padTo s.length spec.fieldWidth = (spec.fieldWidth - 1, []) := padTo_done (by omega) (by omega) (by omega)
    have hnone : (spec.fieldWidth - s.length).toNat = 0 := by omega
    have hpad' := padTo_done (by omega : -32767 ≤ spec.fieldWidth - 1) (by omega : _ ≤ (s.length : Int)) (by omega)
    rw [hnone]
    cases spec.flags.left with
    | true  => simp [hpad]
    | false => simp [hpad, hpad']

theorem char_eq {spec : PrintfSpec} (hn : NarrowField spec) (c : UInt8) (o : Sink) :
    char stop o c spec = o.puts stop (fieldText spec [c]) := by
  obtain ⟨h, h'⟩ := hn
  have hput : ∀ o : Sink, o.put stop c = o.puts stop [c] := fun _ => rfl
  unfold char fieldText
  dsimp only
  rw [List.length_singleton]
  have hs : short (spec.fieldWidth - 1) = spec.fieldWidth - 1 := short_eq (by omega) (by omega)
  by_cases hw : 1 < spec.fieldWidth
  · have hn : spec.fieldWidth - 1 - 1 + 1 = spec.fieldWidth - ((1 : Nat) : Int) := by omega
    have hpad : padDown 1 32 spec.fieldWidth = (1 - 1, List.replicate (spec.fieldWidth - (1 : Nat)).toNat 32) := by
      unfold padDown
      rw [hs, if_pos (by omega), hn]
    have hpad' : padDown 1 32 (1 - 1) = (-1, []) := by decide
    cases spec.flags.left with
    | true  => simp only [if_true, hpad, Sink.puts_nil, hput, Sink.puts_append]
    | false => simp only [Bool.false_eq_true, if_false, hpad, hpad', Sink.puts_nil, hput, Sink.puts_append]
  · have hpad : padDown 1 32 spec.fieldWidth = (spec.fieldWidth - 1, []) := by
      unfold padDown
      rw [hs, if_neg (by omega)]
    have hs' : short (spec.fieldWidth - 1 - 1) = spec.fieldWidth - 1 - 1 := short_eq (by omega) (by omega)
    have hpad' : padDown 1 32 (spec.fieldWidth - 1) = (spec.fieldWidth - 1 - 1, []) := by
      unfold padDown
      rw [hs', if_neg (by omega)]
    have hnone : (spec.fieldWidth - ((1 : Nat) : Int)).toNat = 0 := by omega
    rw [hnone]
    cases spec.flags.left with
    | true  => simp [hpad, hput]
    | false => simp [hpad, hpad', hput]

end Vsnprintf
end OtaLoader
