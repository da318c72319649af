import OtaLoader.Render
import OtaLoader.Vsprintf
/-!
# Formats — what the three formatters have in common

`vsnprintf`, `vsprintf` and the `print` behind `sprintf` and `printf` are written apart.  On the pieces below, literal
characters and the conversions of numbers, strings and characters in a field, they make the same text.
-/
namespace OtaLoader
namespace Formats

open Vsnprintf (Arg skipAtoi)

/-! ## Pieces -/

/-- The flags `-` and `0` and the width, 0 without one. -/
structure Field where
  left  : Bool
  zero  : Bool
  width : Nat

inductive Letter where
  | d | u | x | X
deriving DecidableEq

inductive Item where
  | lit (c : UInt8)
  | percent
  | num (f : Field) (l : Letter) (v : UInt32)
  | str (f : Field) (s : List UInt8)
  | char (f : Field) (v : UInt32)

def Letter.byte : Letter → UInt8
  | .d => 100
  | .u => 117
  | .x => 120
  | .X => 88

def Letter.base : Letter → Nat
  | .d => 10
  | .u => 10
  | .x => 16
  | .X => 16

def Letter.upper (l : Letter) : Bool := decide (l ≠ .x)

namespace Field

/-- A width as it is written. -/
def widthText (f : Field) : List UInt8 := if f.width = 0 then [] else numeral false 10 f.width

/-- The field of a conversion as it is written. -/
def spelled (f : Field) : List UInt8 :=
  (if f.left then [45] else []) ++ (if f.zero then [48] else []) ++ f.widthText

/-- A sign and what follows it, filled up to the width. -/
def put (f : Field) (sign ds : List UInt8) : List UInt8 :=
  let n := f.width - (sign.length + ds.length)
  if f.left then sign ++ ds ++ List.replicate n 32
  else if f.zero then sign ++ List.replicate n 48 ++ ds
  else List.replicate n 32 ++ sign ++ ds

end Field

/-- `-` in front of the absolute value of a negative number. -/
def Letter.negative (l : Letter) (v : UInt32) : Bool := decide (l = .d) && decide (2 ^ 31 ≤ v.toNat)

def Letter.abs (l : Letter) (v : UInt32) : Nat := if l.negative v then 2 ^ 32 - v.toNat else v.toNat

namespace Item

def format : Item → List UInt8
  | .lit c     => [c]
  | .percent   => [37, 37]
  | .num f l _ => 37 :: f.spelled ++ [l.byte]
  | .str f _   => 37 :: f.spelled ++ [115]
  | .char f _  => 37 :: f.spelled ++ [99]

def args : Item → List Arg
  | .lit _     => []
  | .percent   => []
  | .num _ _ v => [.int v]
  | .str _ s   => [.str s]
  | .char _ v  => [.int v]

def text : Item → List UInt8
  | .lit c     => [c]
  | .percent   => [37]
  | .num f l v => f.put (if l.negative v then [45] else []) (numeral l.upper l.base (l.abs v))
  | .str f s   => f.put [] s
  | .char f v  => f.put [] [UInt8.ofNat v.toNat]

/-- What the formatters take in the same way: not both flags at once, no zeros in front of a text, no width beyond 16
bits, and not the character 0. -/
def Plain : Item → Prop
  | .lit c     => c ≠ 37
  | .percent   => True
  | .num f _ _ => (f.left && f.zero) = false ∧ f.width < 32768
  | .str f _   => f.zero = false ∧ f.width < 32768
  | .char f v  => f.zero = false ∧ f.width < 32768 ∧ UInt8.ofNat v.toNat ≠ 0

/-- The lowest `int`, which `vsprintf` does not print. -/
def Lowest : Item → Prop
  | .num _ .d v => v.toNat = 2 ^ 31
  | _           => False

instance decidablePlain : (i : Item) → Decidable i.Plain
  | .lit c     => inferInstanceAs (Decidable (c ≠ 37))
  | .percent   => .isTrue trivial
  | .num f _ _ => inferInstanceAs (Decidable ((f.left && f.zero) = false ∧ f.width < 32768))
  | .str f _   => inferInstanceAs (Decidable (f.zero = false ∧ f.width < 32768))
  | .char f v  => inferInstanceAs (Decidable (f.zero = false ∧ f.width < 32768 ∧ UInt8.ofNat v.toNat ≠ 0))

instance decidableLowest : (i : Item) → Decidable i.Lowest
  | .lit _      => .isFalse id
  | .percent    => .isFalse id
  | .num _ .d v => inferInstanceAs (Decidable (v.toNat = 2 ^ 31))
  | .num _ .u _ => .isFalse id
  | .num _ .x _ => .isFalse id
  | .num _ .X _ => .isFalse id
  | .str _ _    => .isFalse id
  | .char _ _   => .isFalse id

end Item

def formatOf (is : List Item) : List UInt8 := is.flatMap Item.format
def argsOf (is : List Item) : List Arg := is.flatMap Item.args
def textOf (is : List Item) : List UInt8 := is.flatMap Item.text

/-! ## Fields -/

theorem isDigit_iff {c : UInt8} : isDigit c = true ↔ 48 ≤ c.toNat ∧ c.toNat ≤ 57 := by
  simp [isDigit]

theorem isDigit_digitByte {d : Nat} (h : d < 10) : isDigit (digitByte false d) = true := by
  have hall : ∀ i : Fin 10, isDigit (digitByte false i) = true := by decide
  exact hall ⟨d, h⟩

/-- What a byte of a decimal numeral is. -/
theorem digit_value {c : UInt8} {d : Nat} (h : digitOf c = some d) (hd : d < 10) : isDigit c = true ∧ c.toNat - 48 = d := by
  unfold digitOf at h
  split at h
  · cases h
    exact ⟨isDigit_iff.2 ‹_›, rfl⟩
  · split at h
    · cases h
      omega
    · split at h <;> cases h
      omega

theorem skipAtoi_digits {r : List UInt8} (hr : (r.head?.map isDigit).getD false = false) :
    ∀ (ds : List UInt8) (i : Nat), (∀ c ∈ ds, ∃ d, digitOf c = some d ∧ d < 10) →
      skipAtoi i (ds ++ r) = (positional 10 i ds, r)
  | [], i, _ => by
    cases r with
    | nil      => rfl
    | cons c r =>
      have hc : isDigit c = false := hr
      rw [List.nil_append, skipAtoi, hc]
      rfl
  | c :: ds, i, h => by
    obtain ⟨d, hd, hlt⟩ := h c List.mem_cons_self
    obtain ⟨hc, hv⟩ := digit_value hd hlt
    rw [List.cons_append, skipAtoi, if_pos hc, skipAtoi_digits hr ds _ (fun c hc => h c (List.mem_cons_of_mem _ hc)), hv]
    unfold positional
    rw [List.foldl_cons, hd, Option.getD_some]

/-- **A width is read back.** -/
theorem skipAtoi_width {r : List UInt8} (hr : (r.head?.map isDigit).getD false = false) (n : Nat) :
    skipAtoi 0 (numeral false 10 n ++ r) = (n, r) := by
  rw [skipAtoi_digits hr _ 0 (digits_numeral (by decide) (by decide)), positional_numeral (by decide) (by decide)]

/-- A width begins with a digit other than 0. -/
theorem widthText_head {f : Field} (h : f.width ≠ 0) (r : List UInt8) :
    ∃ c ds, f.widthText ++ r = c :: ds ∧ isDigit c = true ∧ c ≠ 48 := by
  obtain ⟨d, ds, heq, h0, h10⟩ : ∃ d ds, numeral false 10 f.width = digitByte false d :: ds ∧ 0 < d ∧ d < 10 :=
    numeral_head (by decide) (by decide) (Nat.pos_of_ne_zero h)
  have hall : ∀ i : Fin 10, 0 < i.val → digitByte false i ≠ 48 := by decide
  refine ⟨digitByte false d, ds ++ r, ?_, isDigit_digitByte h10, hall ⟨d, h10⟩ h0⟩
  rw [Field.widthText, if_neg h, heq, List.cons_append]

/-- The letters of the conversions above. -/
def letters : List UInt8 := [100, 117, 120, 88, 115, 99]

/-- What follows the flags of a field: a digit of its width, or the letter. -/
theorem behind_flags (f : Field) {c : UInt8} (hc : c ∈ letters) (r : List UInt8) :
    ∃ b t, f.widthText ++ c :: r = b :: t ∧ b ≠ 45 ∧ b ≠ 43 ∧ b ≠ 32 ∧ b ≠ 35 ∧ b ≠ 48 ∧ b ≠ 42 ∧ b ≠ 37 ∧
      isDigit b = decide (f.width ≠ 0) := by
  by_cases h : f.width = 0
  · have hall : ∀ c ∈ letters, c ≠ 45 ∧ c ≠ 43 ∧ c ≠ 32 ∧ c ≠ 35 ∧ c ≠ 48 ∧ c ≠ 42 ∧ c ≠ 37 ∧ isDigit c = false := by
      decide
    refine ⟨c, r, by rw [Field.widthText, if_pos h, List.nil_append], ?_⟩
    simpa [h] using hall c hc
  · obtain ⟨b, t, heq, hb, h48⟩ := widthText_head h (c :: r)
    have hne : ∀ x : UInt8, isDigit x = false → b ≠ x := fun x hx hbx => by
      rw [hbx, hx] at hb
      cases hb
    exact ⟨b, t, heq, hne _ (by decide), hne _ (by decide), hne _ (by decide), hne _ (by decide), h48,
      hne _ (by decide), hne _ (by decide), by rw [hb, decide_eq_true h]⟩

/-- The width of a field, read back in front of its letter. -/
theorem skipAtoi_widthText {f : Field} (h : f.width ≠ 0) {c : UInt8} (hc : c ∈ letters) (r : List UInt8) :
    skipAtoi 0 (f.widthText ++ c :: r) = (f.width, c :: r) := by
  have hall : ∀ c ∈ letters, isDigit c = false := by decide
  rw [Field.widthText, if_neg h]
  exact skipAtoi_width (r := c :: r) (hall c hc) f.width

/-! ## vsnprintf -/

section Vsnprintf

open Vsnprintf

theorem decodeFlags_spelled (f : Field) {c : UInt8} (hc : c ∈ letters) (r : List UInt8) :
    decodeFlags (f.spelled ++ c :: r) {} = ({ left := f.left, zeropad := f.zero }, f.widthText ++ c :: r) := by
  obtain ⟨b, t, heq, h45, h43, h32, h35, h48, -⟩ := behind_flags f hc r
  unfold Field.spelled
  rw [List.append_assoc, heq]
  have hstop : ∀ fl, decodeFlags (b :: t) fl = (fl, b :: t) := fun fl => by
    simp [decodeFlags, h45, h43, h32, h35, h48]
  cases f.left <;> cases f.zero <;> simp [decodeFlags, hstop]

/-- The width that a field asks for, -1 for none. -/
def Field.wide (f : Field) : Int := if f.width = 0 then -1 else f.width

theorem decodePrecision_letter {c : UInt8} (hc : c ∈ letters) (r : List UInt8) (spec : PrintfSpec) :
    decodePrecision (c :: r) spec = decodeType (c :: r) { spec with precision := -1 } := by
  have h46 : c ≠ 46 := by
    intro h
    rw [h] at hc
    revert hc
    decide
  simp [decodePrecision, h46]

/-- A conversion up to its precision. -/
theorem formatDecode_percent {spec : PrintfSpec} (hspec : waiting spec.type = 0) {r t : List UInt8} {b : UInt8}
    {flags : Flags} (hflags : decodeFlags r {} = (flags, b :: t)) (h42 : b ≠ 42) : formatDecode (37 :: r) spec =
      if isDigit b then decodePrecision (skipAtoi 0 (b :: t)).2
        { spec with type := .none, flags := flags, fieldWidth := short (skipAtoi 0 (b :: t)).1 }
      else decodePrecision (b :: t) { spec with type := .none, flags := flags, fieldWidth := -1 } := by
  have hnot : ¬ (spec.type = .width ∨ spec.type = .precision) := fun h => by
    rw [waiting, if_pos h] at hspec
    cases hspec
  unfold formatDecode
  rw [if_neg (fun h => hnot (.inl h)), if_neg (fun h => hnot (.inr h))]
  simp only [hflags]

theorem formatDecode_spelled {f : Field} (hw : f.width < 32768) {c : UInt8} (hc : c ∈ letters) (r : List UInt8)
    {spec : PrintfSpec} (hspec : waiting spec.type = 0) :
    formatDecode (37 :: f.spelled ++ c :: r) spec = decodeType (c :: r) { spec with
      type := .none, flags := { left := f.left, zeropad := f.zero }, fieldWidth := Field.wide f, precision := -1 } := by
  obtain ⟨b, t, heq, -, -, -, -, -, h42, -, hdigit⟩ := behind_flags f hc r
  have hflags := decodeFlags_spelled f hc r
  rw [heq] at hflags
  rw [List.cons_append, formatDecode_percent hspec hflags h42, hdigit, ← heq]
  by_cases h : f.width = 0
  · have hwide : f.wide = -1 := if_pos h
    have hnone : f.widthText = [] := if_pos h
    rw [if_neg (by simp [h]), hnone, List.nil_append, decodePrecision_letter hc, hwide]
  · have hwide : f.wide = f.width := if_neg h
    rw [if_pos (by simp [h]), skipAtoi_widthText h hc, decodePrecision_letter hc,
      short_eq (by omega) (by omega), hwide]

theorem decodeQualifier_none {c : UInt8} (hc : ¬ (c = 104 ∨ tolower c = 108 ∨ tolower c = 122 ∨ c = 116))
    (r : List UInt8) : decodeQualifier (c :: r) = (255, c :: r) := if_neg hc

theorem decodeQualifier_letter {c : UInt8} (hc : c ∈ letters) (r : List UInt8) :
    decodeQualifier (c :: r) = (255, c :: r) := by
  have hall : ∀ c ∈ letters, ¬ (c = 104 ∨ tolower c = 108 ∨ tolower c = 122 ∨ c = 116) := by decide
  exact decodeQualifier_none (hall c hc) r

/-- What `format_decode` makes of the conversions. -/
def numSpec (f : Field) (l : Letter) : PrintfSpec :=
  { type := if l = .d then .int else .uint
    flags := { left := f.left, zeropad := f.zero, sign := decide (l = .d), small := decide (l = .x) }
    base := l.base, qualifier := 255, fieldWidth := Field.wide f, precision := -1 }

def textSpec (f : Field) (t : FormatType) : PrintfSpec :=
  { type := t, flags := { left := f.left, zeropad := f.zero }, base := 10, qualifier := 255, fieldWidth := Field.wide f
    precision := -1 }

theorem formatDecode_num {f : Field} (hw : f.width < 32768) (l : Letter) (r : List UInt8) {spec : PrintfSpec}
    (hspec : waiting spec.type = 0) : formatDecode (37 :: f.spelled ++ l.byte :: r) spec = (numSpec f l, r) := by
  have hl : l.byte ∈ letters := by cases l <;> decide
  rw [formatDecode_spelled hw hl r hspec, decodeType, decodeQualifier_letter hl]
  have hz : tolower 255 ≠ 122 := by decide
  cases l <;> simp [numSpec, Letter.byte, Letter.base, integer, integerType, hz]

theorem formatDecode_str {f : Field} (hw : f.width < 32768) (r : List UInt8) {spec : PrintfSpec}
    (hspec : waiting spec.type = 0) : formatDecode (37 :: f.spelled ++ 115 :: r) spec = (textSpec f .str, r) := by
  rw [formatDecode_spelled hw (by decide) r hspec, decodeType, decodeQualifier_letter (by decide)]
  simp [textSpec]

theorem formatDecode_char {f : Field} (hw : f.width < 32768) (r : List UInt8) {spec : PrintfSpec}
    (hspec : waiting spec.type = 0) : formatDecode (37 :: f.spelled ++ 99 :: r) spec = (textSpec f .char, r) := by
  rw [formatDecode_spelled hw (by decide) r hspec, decodeType, decodeQualifier_letter (by decide)]
  simp [textSpec]

theorem toNat_wide (f : Field) (n : Nat) : (f.wide - n).toNat = f.width - n := by
  unfold Field.wide
  split <;> omega

/-- What a number is to `number`. -/
def Letter.num (l : Letter) (v : UInt32) : Nat := if l = .d then signExtend 32 v.toNat else v.toNat

theorem signExtend_32 {v : Nat} (h : v < 2 ^ 32) :
    signExtend 32 v = if v < 2 ^ 31 then v else v + (2 ^ 64 - 2 ^ 32) := by
  unfold signExtend
  rw [Nat.mod_eq_of_lt h]

theorem magnitude_num (f : Field) (l : Letter) (v : UInt32) : magnitude (l.num v) (numSpec f l) = l.abs v := by
  have hv : v.toNat < 2 ^ 32 := v.toNat_lt
  cases l
  case d =>
    have hs := signExtend_32 hv
    simp only [magnitude, numSpec, Letter.num, Letter.abs, Letter.negative, decide_true, true_and, if_true, Bool.true_and,
      decide_eq_true_eq]
    by_cases h : 2 ^ 31 ≤ v.toNat
    · rw [if_neg (by omega)] at hs
      rw [hs, if_pos (by omega), if_pos h]
      omega
    · rw [if_pos (by omega)] at hs
      rw [hs, if_neg (by omega), if_neg h]
  all_goals rfl

theorem signText_num (f : Field) (l : Letter) (v : UInt32) :
    signText (l.num v) (numSpec f l) = if l.negative v then [45] else [] := by
  have hv : v.toNat < 2 ^ 32 := v.toNat_lt
  cases l
  case d =>
    have hs := signExtend_32 hv
    have hiff : 2 ^ 63 ≤ signExtend 32 v.toNat ↔ 2 ^ 31 ≤ v.toNat := by
      rw [hs]
      split <;> omega
    simp only [signText, numSpec, Letter.num, Letter.negative, decide_true, if_true, Bool.true_and, decide_eq_true_eq, hiff,
      Bool.false_eq_true, if_false]
  all_goals rfl

theorem digitText_num (f : Field) (l : Letter) (v : UInt32) :
    digitText (l.num v) (numSpec f l) = numeral l.upper l.base (l.abs v) := by
  have hneg : ∀ n : Nat, ((-1 : Int) - n).toNat = 0 := fun n => by omega
  unfold digitText
  rw [magnitude_num]
  dsimp only [numSpec]
  rw [hneg, List.replicate_zero, List.nil_append]
  cases l <;> rfl

/-- **The layout of a number** is its text. -/
theorem numberText_num (f : Field) (l : Letter) (v : UInt32) :
    numberText (l.num v) (numSpec f l) = f.put (if l.negative v then [45] else []) (numeral l.upper l.base (l.abs v)) := by
  have hpfx : pfxText (numSpec f l) = [] := rfl
  have hwidth : (numSpec f l).fieldWidth = f.wide := rfl
  have hw := toNat_wide f ((if l.negative v then [45] else [] : List UInt8).length + (numeral l.upper l.base (l.abs v)).length)
  rw [Int.natCast_add] at hw
  unfold numberText Field.put
  dsimp only
  rw [digitText_num, signText_num, hpfx, List.append_nil, hwidth, hw]
  rfl

theorem abs_lt (l : Letter) (v : UInt32) : l.abs v < 2 ^ 32 := by
  have hv : v.toNat < 2 ^ 32 := v.toNat_lt
  unfold Letter.abs Letter.negative
  split
  · rename_i h
    rw [Bool.and_eq_true, decide_eq_true_eq, decide_eq_true_eq] at h
    omega
  · exact hv

theorem length_number_le (l : Letter) (v : UInt32) : (numeral l.upper l.base (l.abs v)).length ≤ 10 := by
  have h := abs_lt l v
  have hten : 2 ^ 32 < 10 ^ 10 := by decide
  have hsixteen : 2 ^ 32 < 16 ^ 10 := by decide
  cases l
  · exact length_numeral_le (by decide) (by decide) (Nat.lt_trans h hten)
  · exact length_numeral_le (by decide) (by decide) (Nat.lt_trans h hten)
  · exact length_numeral_le (by decide) (by decide) (Nat.lt_trans h hsixteen)
  · exact length_numeral_le (by decide) (by decide) (Nat.lt_trans h hsixteen)

theorem wide_bounds {f : Field} (hw : f.width < 32768) : -1 ≤ f.wide ∧ f.wide ≤ 32767 := by
  unfold Field.wide
  split <;> omega

theorem narrow_num {f : Field} (hw : f.width < 32768) (l : Letter) (v : UInt32) : Narrow (l.num v) (numSpec f l) := by
  have hwidth := wide_bounds hw
  have hlen := length_number_le l v
  have hpfx : pfxText (numSpec f l) = [] := rfl
  have hsign : (if l.negative v then [45] else [] : List UInt8).length ≤ 1 := by
    split <;> simp
  refine ⟨hwidth.2, ?_⟩
  rw [signText_num, digitText_num, hpfx, List.append_nil]
  have hw : (numSpec f l).fieldWidth = f.wide := rfl
  rw [hw]
  omega

/-- A text in a field. -/
theorem fieldText_put {f : Field} (hz : f.zero = false) (t : FormatType) (s : List UInt8) :
    fieldText (textSpec f t) s = f.put [] s := by
  unfold fieldText Field.put
  dsimp only [textSpec]
  rw [toNat_wide, hz, List.length_nil, Nat.zero_add]
  by_cases h : f.left = true <;> simp [h]

/-! ### One piece in front of a format -/

variable {rest t : List UInt8} {args : List Arg} (hrest : ∀ spec : PrintfSpec, waiting spec.type = 0 →
  render rest spec args = some t)
include hrest

theorem render_lit {c : UInt8} (hc : c ≠ 37) {spec : PrintfSpec} (hspec : waiting spec.type = 0) :
    render (c :: rest) spec args = some (c :: t) := by
  have hdecode : ∀ (b : UInt8) (r : List UInt8) (s : PrintfSpec), b ≠ 37 → waiting s.type = 0 →
      formatDecode (b :: r) s = ({ s with type := .none }, r.dropWhile (· ≠ 37)) := by
    intro b r s hb hs
    have hnot : ¬ (s.type = .width ∨ s.type = .precision) := fun h => by
      rw [waiting, if_pos h] at hs
      cases hs
    unfold formatDecode
    rw [if_neg (fun h => hnot (.inl h)), if_neg (fun h => hnot (.inr h))]
    dsimp only
    split
    · cases ‹b :: r = _›
      exact absurd rfl hb
    · rw [List.dropWhile_cons_of_pos (by simpa using hb)]
  rw [render, dif_neg (List.cons_ne_nil c rest)]
  simp only [hdecode c rest spec hc hspec]
  have h := hrest { spec with type := .none } rfl
  cases hr : rest with
  | nil =>
    rw [hr, render, dif_pos rfl] at h
    cases h
    rw [List.dropWhile_nil, render, dif_pos rfl]
    rfl
  | cons b r =>
    rw [hr] at h
    by_cases hb : b = 37
    · have hone : (c :: b :: r).length - (b :: r).length = 1 := Nat.add_sub_cancel_left _ 1
      rw [List.dropWhile_cons_of_neg (by simpa using hb), h, hone]
      rfl
    · have hlen : (r.dropWhile (· ≠ 37)).length ≤ r.length := (List.dropWhile_sublist _).length_le
      have htake : (c :: b :: r).length - (r.dropWhile (· ≠ 37)).length =
          (b :: r).length - (r.dropWhile (· ≠ 37)).length + 1 := by
        simp only [List.length_cons]
        omega
      rw [render, dif_neg (List.cons_ne_nil b r)] at h
      simp only [hdecode b r { spec with type := .none } hb rfl] at h
      obtain ⟨t', ht', rfl⟩ := Option.map_eq_some_iff.1 h
      rw [List.dropWhile_cons_of_pos (by simpa using hb), ht', htake, List.take_succ_cons]
      rfl

theorem render_percent {spec : PrintfSpec} (hspec : waiting spec.type = 0) :
    render (37 :: 37 :: rest) spec args = some (37 :: t) := by
  have hq := decodeQualifier_none (c := 37) (by decide) rest
  have hd := @formatDecode_percent spec hspec (37 :: rest) rest 37 {} (by simp [decodeFlags]) (by decide)
  rw [if_neg (by decide), decodePrecision] at hd
  · rw [decodeType, hq] at hd
    rw [render, dif_neg (List.cons_ne_nil _ _)]
    simp only [hd]
    rw [hrest _ rfl]
    rfl
  all_goals simp

theorem render_conv {fmt tx : List UInt8} {spec s : PrintfSpec} {a : Arg} (hd : formatDecode fmt spec = (s, rest))
    (hnone : s.type ≠ .none) (hpercent : s.type ≠ .percentChar) (hinvalid : s.type ≠ .invalid) (hptr : s.type ≠ .ptr)
    (hs : waiting s.type = 0) (hne : fmt ≠ []) (ha : argText rest s a = some (s, tx)) :
    render fmt spec (a :: args) = some (tx ++ t) := by
  rw [render, dif_neg hne]
  dsimp only
  have ha' : argText (formatDecode fmt spec).2 (formatDecode fmt spec).1 a = some (s, tx) := by rw [hd, ha]
  have hty : s.type = (formatDecode fmt spec).1.type := by rw [hd]
  split
  · exact absurd (hty.trans ‹_›) hnone
  · exact absurd (hty.trans ‹_›) hpercent
  · exact absurd (hty.trans ‹_›) hinvalid
  · split
    · rename_i h
      rw [ha'] at h
      cases h
    · rename_i h
      rw [ha'] at h
      cases h
      rw [hd, if_neg hptr, hrest s hs]
      rfl

omit hrest in
/-- **`vsnprintf` makes the text of the pieces.** -/
theorem render_items : ∀ (is : List Item), (∀ i ∈ is, i.Plain) → ∀ spec : PrintfSpec, waiting spec.type = 0 →
    render (formatOf is) spec (argsOf is) = some (textOf is)
  | [], _, spec, _ => by
    unfold formatOf
    rw [List.flatMap_nil, render, dif_pos rfl]
    rfl
  | i :: is, h, spec, hspec => by
    have hi := h i List.mem_cons_self
    have hrest := render_items is (fun j hj => h j (List.mem_cons_of_mem _ hj))
    unfold formatOf argsOf textOf
    rw [List.flatMap_cons, List.flatMap_cons, List.flatMap_cons]
    cases i with
    | lit c     => exact render_lit hrest hi hspec
    | percent   => exact render_percent hrest hspec
    | num f l v =>
      have hd := formatDecode_num hi.2 l (formatOf is) hspec
      have ha : argText (formatOf is) (numSpec f l) (.int v) = some (numSpec f l, (Item.num f l v).text) := by
        have hnum : numOf (numSpec f l).type (.int v) = some (l.num v) := by cases l <;> rfl
        have htext : numText (l.num v) (numSpec f l) = some (Item.num f l v).text := by
          rw [numText, if_pos (narrow_num hi.2 l v), numberText_num]
          rfl
        unfold argText
        cases l <;> exact (congrArg (Option.bind · _) hnum).trans (congrArg (Option.map _) htext)
      rw [List.append_cons] at hd
      refine render_conv hrest hd ?_ ?_ ?_ ?_ ?_ (List.cons_ne_nil _ _) ha
      all_goals cases l <;> simp [numSpec, waiting]
    | str f s   =>
      have hd := formatDecode_str hi.2 (formatOf is) hspec
      have ha : argText (formatOf is) (textSpec f .str) (.str s) = some (textSpec f .str, f.put [] s) := by
        have hclip : clip s (textSpec f .str) = s := rfl
        have htext : textIn (textSpec f .str) s = some (f.put [] s) := by
          have hw := wide_bounds hi.2
          rw [textIn, if_pos ⟨by dsimp only [textSpec]; omega, hw.2⟩, fieldText_put hi.1]
        unfold argText
        dsimp only [textSpec] at hclip htext ⊢
        rw [hclip, htext]
        rfl
      rw [List.append_cons] at hd
      refine render_conv hrest hd ?_ ?_ ?_ ?_ rfl (List.cons_ne_nil _ _) ha <;> simp [textSpec]
    | char f v  =>
      have hd := formatDecode_char hi.2.1 (formatOf is) hspec
      have ha : argText (formatOf is) (textSpec f .char) (.int v) =
          some (textSpec f .char, f.put [] [UInt8.ofNat v.toNat]) := by
        have htext : textIn (textSpec f .char) [UInt8.ofNat v.toNat] = some (f.put [] [UInt8.ofNat v.toNat]) := by
          have hw := wide_bounds hi.2.1
          rw [textIn, if_pos ⟨by dsimp only [textSpec]; omega, hw.2⟩, fieldText_put hi.1]
        unfold argText
        dsimp only [textSpec] at htext ⊢
        rw [htext]
        rfl
      rw [List.append_cons] at hd
      refine render_conv hrest hd ?_ ?_ ?_ ?_ rfl (List.cons_ne_nil _ _) ha <;> simp [textSpec]

end Vsnprintf

/-! ## vsprintf -/

/-- The field behind the `%` is not a second `%`. -/
theorem spelled_head (f : Field) {c : UInt8} (hc : c ∈ letters) (r : List UInt8) :
    ∃ b t, f.spelled ++ c :: r = b :: t ∧ b ≠ 37 := by
  obtain ⟨b, t, heq, -, -, -, -, -, -, h37, -⟩ := behind_flags f hc r
  unfold Field.spelled
  rw [List.append_assoc, heq]
  cases f.left <;> cases f.zero
  · exact ⟨b, t, rfl, h37⟩
  · exact ⟨48, b :: t, rfl, by decide⟩
  · exact ⟨45, b :: t, rfl, by decide⟩
  · exact ⟨45, 48 :: b :: t, rfl, by decide⟩

section Vsprintf

open Vsprintf

theorem getFlags_spelled (f : Field) {c : UInt8} (hc : c ∈ letters) (r : List UInt8) :
    getFlags (f.spelled ++ c :: r) {} = ({ left := f.left, zero := f.zero }, f.widthText ++ c :: r) := by
  obtain ⟨b, t, heq, h45, h43, h32, h35, h48, -⟩ := behind_flags f hc r
  unfold Field.spelled
  rw [List.append_assoc, heq]
  have hstop : ∀ fl, getFlags (b :: t) fl = (fl, b :: t) := fun fl => by
    simp [getFlags, h45, h43, h32, h35, h48]
  cases f.left <;> cases f.zero <;> simp [getFlags, hstop]

theorem int32_eq {x : Int} (h : -2147483648 ≤ x) (h' : x ≤ 2147483647) : Stdarg.int32 x = x := by
  unfold Stdarg.int32
  omega

theorem getNumber_width {f : Field} (hw : f.width < 32768) {c : UInt8} (hc : c ∈ letters) (r : List UInt8)
    (args : List Arg) : getNumber (-1) (f.widthText ++ c :: r) args = some (f.wide, c :: r, args) := by
  obtain ⟨b, t, heq, -, -, -, -, -, h42, -, hdigit⟩ := behind_flags f hc r
  have hstep : getNumber (-1) (b :: t) args = if isDigit b then
      some (Stdarg.int32 (skipAtoi 0 (b :: t)).1, (skipAtoi 0 (b :: t)).2, args) else some (-1, b :: t, args) := by
    unfold getNumber
    split
    · cases ‹b :: t = _›
      exact absurd rfl h42
    · rfl
  rw [heq, hstep, hdigit, ← heq]
  by_cases h : f.width = 0
  · have hwide : f.wide = -1 := if_pos h
    have hnone : f.widthText = [] := if_pos h
    rw [if_neg (by simp [h]), hwide, hnone, List.nil_append]
  · have hwide : f.wide = f.width := if_neg h
    rw [if_pos (by simp [h]), skipAtoi_widthText h hc, int32_eq (by omega) (by omega), hwide]

/-- What `vsprintf` makes of a field. -/
def convOf (f : Field) : Conv := ⟨{ left := f.left, zero := f.zero }, f.wide, -1, 255⟩

theorem getConv_spelled {f : Field} (hw : f.width < 32768) {c : UInt8} (hc : c ∈ letters) (r : List UInt8)
    (args : List Arg) : getConv (f.spelled ++ c :: r) args = some (convOf f, c :: r, args) := by
  have hall : ∀ c ∈ letters, c ≠ 46 ∧ c ≠ 104 ∧ c ≠ 108 := by decide
  obtain ⟨h46, h104, h108⟩ := hall c hc
  have hp : getPrecision (c :: r) args = some (-1, c :: r, args) := by
    unfold getPrecision
    split
    · cases ‹c :: r = _›
      exact absurd rfl h46
    · rfl
  have hq : getQualifier (c :: r) = (255, c :: r) := by
    unfold getQualifier
    split
    · cases ‹c :: r = _›
      exact absurd rfl h104
    · cases ‹c :: r = _›
      exact absurd rfl h108
    · rfl
  unfold getConv
  rw [getFlags_spelled f hc r]
  dsimp only
  rw [getNumber_width hw hc, Option.bind_some]
  dsimp only
  rw [hp, Option.map_some]
  dsimp only
  rw [hq]
  rfl

theorem figures_eq (small : Bool) {base : Nat} (h1 : 1 < base) (hb : base ≤ 16) (n : Nat) :
    figures small base n = lowDigits (!small) base n := by
  induction n using Nat.strongRecOn with
  | _ n ih =>
    by_cases h : n = 0
    · rw [figures, dif_pos (.inl h), h, lowDigits_zero]
    · rw [figures, dif_neg (by omega), ih _ (Nat.div_lt_self (Nat.pos_of_ne_zero h) h1), lowDigits_pos h1 hb h]

/-- The figures of a number, the last one first. -/
theorem tmp_eq (small : Bool) {base : Nat} (h1 : 1 < base) (hb : base ≤ 16) (n : Nat) :
    (if n = 0 then [48] else figures small base n) = (numeral (!small) base n).reverse := by
  by_cases h : n = 0
  · rw [if_pos h, h, numeral_of_lt hb (by omega)]
    rfl
  · rw [if_neg h, figures_eq small h1 hb, lowDigits, if_neg h]

/-- The flags of a conversion of a number. -/
def numFlags (f : Field) (l : Letter) : Flags :=
  { left := f.left, zero := f.zero, sign := decide (l = .d), small := decide (l = .x) }

theorem fill_done {c : UInt8} {w : Int} (h : w ≤ 0) : fill c w = (w - 1, []) := by
  unfold fill
  rw [if_neg (by omega), Int.toNat_eq_zero.2 h, List.replicate_zero]

/-- **The three fills**, as in `number`. -/
theorem fills_put (f : Field) (sign ds : List UInt8) :
    (let w := f.wide - sign.length - ds.length
     let spaces := if f.left || f.zero then (w, []) else fill 32 w
     let zeros := if f.left then (spaces.1, []) else fill 48 spaces.1
     spaces.2 ++ sign ++ [] ++ zeros.2 ++ ds ++ (fill 32 zeros.1).2) = f.put sign ds := by
  have hw : (f.wide - sign.length - ds.length).toNat = f.width - (sign.length + ds.length) := by
    have h := toNat_wide f (sign.length + ds.length)
    rw [Int.natCast_add] at h
    rw [Int.sub_sub, h]
  have hrest : ∀ w : Int, (if 0 < w then -1 else w - 1) ≤ 0 := fun w => by split <;> omega
  unfold Field.put
  dsimp only
  rw [← hw]
  generalize f.wide - sign.length - ds.length = w
  cases hl : f.left with
  | true => simp [fill]
  | false =>
    cases hz : f.zero with
    | true =>
      have h1 : fill 48 w = (if 0 < w then -1 else w - 1, List.replicate w.toNat 48) := rfl
      simp [h1, fill_done (hrest w)]
    | false =>
      have h1 : fill 32 w = (if 0 < w then -1 else w - 1, List.replicate w.toNat 32) := rfl
      have h2 : (if 0 < w then -1 else w - 1) - 1 ≤ (0 : Int) := by
        have := hrest w
        omega
      simp [h1, fill_done (hrest w), fill_done h2]

/-- **`number_to_string` lays out the text of a number.** -/
theorem numberToString_num (f : Field) (l : Letter) {v : UInt32} (hmin : l = .d → v.toNat ≠ 2 ^ 31) :
    numberToString v l.base (numFlags f l) f.wide (-1) = some (Item.num f l v).text := by
  have hbase : 1 < l.base ∧ l.base ≤ 16 := by cases l <;> decide
  have hneg : (decide (l = .d) && decide (2 ^ 31 ≤ v.toNat)) = l.negative v := rfl
  have habs : (if l.negative v then 2 ^ 32 - v.toNat else v.toNat) = l.abs v := rfl
  have hlow : ¬ (decide (l = .d) = true ∧ l.abs v = 2 ^ 31) := by
    rintro ⟨hd, h31⟩
    have hl := hmin (of_decide_eq_true hd)
    have hv : v.toNat < 2 ^ 32 := v.toNat_lt
    rw [← habs] at h31
    split at h31 <;> omega
  have hupper : (!decide (l = .x)) = l.upper := by cases l <;> rfl
  have hsign : (if (if l.negative v then [45] else [] : List UInt8) ≠ [] then f.wide - 1 else f.wide) =
      f.wide - ((if l.negative v then [45] else [] : List UInt8).length : Int) := by
    split <;> simp_all
  have hlong : ((numeral l.upper l.base (l.abs v)).length : Int) > -1 := by omega
  unfold numberToString numFlags
  rw [if_neg (by omega)]
  dsimp only
  simp only [hneg, habs, Bool.false_eq_true, false_and, if_false, if_neg hlow, tmp_eq _ hbase.1 hbase.2, hupper, hsign,
    List.length_reverse, List.reverse_reverse, if_pos hlong, Int.sub_self, Int.toNat_zero, List.replicate_zero,
    List.nil_append]
  exact congrArg some (fills_put f _ _)

/-- A conversion in front of a format. -/
theorem text_conv {f : Field} (hw : f.width < 32768) {c : UInt8} (hc : c ∈ Formats.letters) {a : Arg} {s : List UInt8}
    (hs : convert c (convOf f) a = some s) (rest : List UInt8) (args : List Arg) :
    text (37 :: f.spelled ++ [c] ++ rest) (a :: args) = (text rest args).map fun t => (s ++ t.1, t.2) := by
  have hall : ∀ c ∈ Formats.letters, c ∈ Vsprintf.letters := by decide
  have hconv := getConv_spelled hw hc rest (a :: args)
  obtain ⟨b, t, heq, h37⟩ := spelled_head f hc rest
  rw [heq] at hconv
  rw [List.append_assoc, List.singleton_append, List.cons_append, heq, text]
  · split
    · rename_i h
      rw [hconv] at h
      cases h
    · rename_i h
      rw [hconv] at h
      cases h
    · rename_i h
      rw [hconv] at h
      cases h
      rw [if_pos (hall c hc)]
      dsimp only
      rw [hs]
  · exact fun r h => h37 (List.cons.inj h).1

theorem stringText_put {f : Field} (hz : f.zero = false) (s : List UInt8) : stringText (convOf f) s = f.put [] s := by
  have hlead : fillFrom s.length f.wide =
      (if (s.length : Int) < f.wide then (s.length : Int) - 1 else f.wide - 1,
        List.replicate (f.width - s.length) 32) := by
    rw [fillFrom, toNat_wide]
  have hrest : ∀ w : Int, (fillFrom s.length (if (s.length : Int) < w then (s.length : Int) - 1 else w - 1)).2 = [] := by
    intro w
    rw [fillFrom, Int.toNat_eq_zero.2 (by split <;> omega), List.replicate_zero]
  have hall : ¬ ((-1 : Int) ≥ 0 ∧ (s.length : Int) > -1) := by omega
  unfold stringText Field.put convOf
  dsimp only
  rw [if_neg hall, hlead, hz, List.length_nil, Nat.zero_add]
  by_cases h : f.left = true
  · simp [h, hlead]
  · simp [h, hrest]

theorem charText_put {f : Field} (hz : f.zero = false) (v : UInt8) : charText (convOf f) v = f.put [] [v] := by
  have hone : ¬ ((-1 : Int) ≥ 0 ∧ (([v] : List UInt8).length : Int) > -1) := by omega
  have h := stringText_put hz [v]
  unfold stringText convOf at h
  dsimp only at h
  rw [if_neg hone] at h
  exact h

/-- **`vsprintf` makes the text of the pieces**, to the end of the format. -/
theorem text_items : ∀ (is : List Item), (∀ i ∈ is, i.Plain) → (∀ i ∈ is, ¬ i.Lowest) →
    text (formatOf is) (argsOf is) = some (textOf is, true)
  | [], _, _ => by
    unfold formatOf
    rw [List.flatMap_nil, text]
    rfl
  | i :: is, h, hlow => by
    have hi := h i List.mem_cons_self
    have hl := hlow i List.mem_cons_self
    have hrest := text_items is (fun j hj => h j (List.mem_cons_of_mem _ hj))
      (fun j hj => hlow j (List.mem_cons_of_mem _ hj))
    unfold formatOf argsOf textOf
    rw [List.flatMap_cons, List.flatMap_cons, List.flatMap_cons]
    cases i with
    | lit c     =>
      have hstep : text (c :: formatOf is) (argsOf is) = (text (formatOf is) (argsOf is)).map fun t => (c :: t.1, t.2) := by
        rw [text]
        · exact fun r hc _ => hi hc
        · exact fun hc => hi hc
      exact hstep.trans (congrArg _ hrest)
    | percent   =>
      have hstep : text (37 :: 37 :: formatOf is) (argsOf is) =
          (text (formatOf is) (argsOf is)).map fun t => (37 :: t.1, t.2) := by
        rw [text]
      exact hstep.trans (congrArg _ hrest)
    | num f l v =>
      have hs : convert l.byte (convOf f) (.int v) = some (Item.num f l v).text := by
        have hnum := numberToString_num f l (v := v) (fun hd => by rw [hd] at hl; exact hl)
        have hcut : ∀ sign, cut 255 sign v = v := fun sign => rfl
        cases l
        all_goals
          refine Eq.trans ?_ hnum
          simp [convert, Letter.byte, signedText, unsignedText, convOf, numFlags, hcut, Letter.base]
      have hl : l.byte ∈ Formats.letters := by cases l <;> decide
      exact (text_conv hi.2 hl hs _ _).trans (congrArg _ hrest)
    | str f s   =>
      have hs : convert 115 (convOf f) (.str s) = some (f.put [] s) := congrArg some (stringText_put hi.1 s)
      exact (text_conv hi.2 (by decide) hs _ _).trans (congrArg _ hrest)
    | char f v  =>
      have hs : convert 99 (convOf f) (.int v) = some (f.put [] [UInt8.ofNat v.toNat]) :=
        congrArg some (charText_put hi.1 _)
      exact (text_conv hi.2.1 (by decide) hs _ _).trans (congrArg _ hrest)

end Vsprintf

/-! ## print -/

section Stdarg

open Stdarg

theorem padZero_stop {b : UInt8} (h : b ≠ 48) (zero : Bool) (t : List UInt8) : padZero zero (b :: t) = (zero, b :: t) := by
  unfold padZero
  split
  · cases ‹b :: t = _›
    exact absurd rfl h
  · rfl

theorem decode_spelled {f : Field} (hw : f.width < 32768) {c : UInt8} (hc : c ∈ Formats.letters) (r : List UInt8)
    (args : List Arg) : decode (f.spelled ++ c :: r) args = some (⟨f.left, f.zero⟩, f.wide, c :: r, args) := by
  obtain ⟨b, t, heq, h45, -, -, -, h48, -, -, hdigit⟩ := behind_flags f hc r
  have hright : padRight (f.spelled ++ c :: r) = (f.left, (if f.zero then [48] else []) ++ b :: t) := by
    unfold Field.spelled
    rw [List.append_assoc, List.append_assoc, heq]
    cases f.left <;> cases f.zero <;> simp [padRight, h45]
  have hzero : padZero false ((if f.zero then [48] else []) ++ b :: t) = (f.zero, b :: t) := by
    cases f.zero
    · exact padZero_stop h48 false t
    · exact padZero_stop h48 true t
  have hwidth : fieldWidth (b :: t) = (f.wide, c :: r) := by
    have hstep : fieldWidth (b :: t) = if isDigit b then (int32 (skipAtoi 0 (b :: t)).1, (skipAtoi 0 (b :: t)).2)
      else (-1, b :: t) := rfl
    rw [hstep, hdigit, ← heq]
    by_cases h : f.width = 0
    · have hwide : f.wide = -1 := if_pos h
      have hnone : f.widthText = [] := if_pos h
      rw [if_neg (by simp [h]), hwide, hnone, List.nil_append]
    · have hwide : f.wide = f.width := if_neg h
      rw [if_pos (by simp [h]), skipAtoi_widthText h hc, int32_eq (by omega) (by omega), hwide]
  have hskip : skipPrecision (c :: r) args = some (c :: r, args) := by
    have hall : ∀ c ∈ Formats.letters, c ≠ 46 := by decide
    unfold skipPrecision
    split
    · cases ‹c :: r = _›
      exact absurd rfl (hall 46 hc)
    · cases ‹c :: r = _›
      exact absurd rfl (hall 46 hc)
    · rfl
  unfold decode
  rw [hright]
  dsimp only
  rw [hzero]
  dsimp only
  rw [hwidth]
  dsimp only
  rw [hskip]
  rfl

/-- `prints` fills up to its width, on one side. -/
theorem prints_eq (s : List UInt8) (w : Int) (pad : Pad) : prints s w pad =
    if pad.right then s ++ List.replicate (w - s.length).toNat (if pad.zero then 48 else 32)
    else List.replicate (w - s.length).toNat (if pad.zero then 48 else 32) ++ s := by
  unfold prints
  by_cases hw : 0 < w
  · have hn : (if (s.length : Int) ≥ w then 0 else w - s.length).toNat = (w - s.length).toNat := by
      split <;> omega
    simp only [if_pos hw, hn]
  · have h0 : w.toNat = 0 := by omega
    have h1 : (w - s.length).toNat = 0 := by omega
    simp only [if_neg hw, h0, h1, List.replicate_zero]

theorem prints_put {f : Field} (hf : (f.left && f.zero) = false) (s : List UInt8) :
    prints s f.wide ⟨f.left, f.zero⟩ = f.put [] s := by
  rw [prints_eq, toNat_wide]
  unfold Field.put
  dsimp only
  rw [List.length_nil, Nat.zero_add]
  by_cases hl : f.left = true
  · have hz : f.zero = false := by rwa [hl, Bool.true_and] at hf
    simp [hl, hz]
  · by_cases hz : f.zero = true <;> simp [hl, hz]

theorem putDigits_eq {upper : Bool} {b letbase : Nat} (h1 : 1 < b) (hb : b ≤ 16) (hl : letbase = if upper then 65 else 97)
    (u : Nat) (s : List UInt8) : putDigits b letbase u s = (lowDigits upper b u).reverse ++ s := by
  induction u using Nat.strongRecOn generalizing s with
  | _ u ih =>
    by_cases h : u = 0
    · rw [putDigits, dif_pos (.inl h), h, lowDigits_zero]
      rfl
    · have hd : UInt8.ofNat ((if u % b ≥ 10 then u % b + (letbase - 48 - 10) else u % b) + 48) = digitByte upper (u % b) := by
        have hlt : u % b < b := Nat.mod_lt u (by omega)
        unfold digitByte
        by_cases h10 : u % b < 10
        · rw [if_neg (by omega), if_pos h10, Nat.add_comm]
        · rw [if_pos (by omega), if_neg h10, hl]
          cases upper <;> exact congrArg UInt8.ofNat (by simp only [if_true, Bool.false_eq_true, if_false]; omega)
      rw [putDigits, dif_neg (by omega), ih _ (Nat.div_lt_self (Nat.pos_of_ne_zero h) h1), lowDigits_pos h1 hb h, hd,
        List.reverse_cons, List.append_assoc, List.singleton_append]

/-- **`printi` lays out the text of a number.** -/
theorem printi_num {f : Field} (hf : (f.left && f.zero) = false) (l : Letter) (v : UInt32) :
    printi v l.base (decide (l = .d)) f.wide ⟨f.left, f.zero⟩ (if l = .X then 65 else 97) = (Item.num f l v).text := by
  have hbase : 1 < l.base ∧ l.base ≤ 16 := by cases l <;> decide
  unfold printi Item.text
  dsimp only
  by_cases h0 : v = 0
  · have hneg : l.negative v = false := by
      rw [h0]
      cases l <;> rfl
    have habs : l.abs v = 0 := by
      rw [h0]
      cases l <;> rfl
    rw [if_pos h0, hneg, habs, numeral_of_lt hbase.2 (by omega), prints_put hf]
    rfl
  · have hneg : (decide (l = .d) && decide (l.base = 10) && decide (2 ^ 31 ≤ v.toNat)) = l.negative v := by
      cases l <;> rfl
    have habs : (if l.negative v then 2 ^ 32 - v.toNat else v.toNat) = l.abs v := rfl
    have hpos : l.abs v ≠ 0 := by
      have hv : v.toNat < 2 ^ 32 := v.toNat_lt
      have hne : v.toNat ≠ 0 := fun h => h0 (UInt32.toNat_inj.1 h)
      unfold Letter.abs
      split <;> omega
    have hdigits : putDigits l.base (if l = .X then 65 else 97) (l.abs v) [] = numeral l.upper l.base (l.abs v) := by
      rw [@putDigits_eq (decide (l = .X)) _ _ hbase.1 hbase.2 (by cases l <;> rfl), lowDigits, if_neg hpos,
        List.reverse_reverse, List.append_nil]
      cases l
      · exact numeral_upper (by decide) (by decide) _
      · exact numeral_upper (by decide) (by decide) _
      · rfl
      · rfl
    rw [if_neg h0, hneg, habs, hdigits]
    generalize numeral l.upper l.base (l.abs v) = ds
    by_cases hn : l.negative v = true
    · have hwide : f.wide ≠ 0 := by
        unfold Field.wide
        split <;> omega
      rw [if_pos hn, if_pos hn]
      by_cases hz : f.zero = true
      · have hleft : f.left = false := by rwa [hz, Bool.and_true] at hf
        have hfill : (f.wide - 1 - ds.length).toNat = f.width - (1 + ds.length) := by
          have h := toNat_wide f (1 + ds.length)
          rw [Int.natCast_add] at h
          rw [Int.sub_sub]
          exact h
        rw [if_pos ⟨hwide, hz⟩, prints_eq, hfill]
        unfold Field.put
        simp [hz, hleft]
      · rw [if_neg (fun h => hz h.2), prints_put hf]
        have hlen : f.width - (ds.length + 1) = f.width - (1 + ds.length) := by omega
        unfold Field.put
        simp [hz, hlen]
    · rw [if_neg hn, if_neg hn, prints_put hf]

/-- A conversion in front of a format. -/
theorem print_conv {f : Field} (hw : f.width < 32768) {c : UInt8} (hc : c ∈ Formats.letters) {a : Arg} {s : List UInt8}
    (hs : convert c f.wide ⟨f.left, f.zero⟩ a = some s) (rest : List UInt8) (args : List Arg) :
    print (37 :: f.spelled ++ [c] ++ rest) (a :: args) = (print rest args).map (s ++ ·) := by
  have hall : ∀ c ∈ Formats.letters, c ∈ Stdarg.letters := by decide
  have hdecode := decode_spelled hw hc rest (a :: args)
  obtain ⟨b, t, heq, h37⟩ := spelled_head f hc rest
  rw [heq] at hdecode
  rw [List.append_assoc, List.singleton_append, List.cons_append, heq, print]
  · split
    · rename_i h
      rw [hdecode] at h
      cases h
    · rename_i h
      rw [hdecode] at h
      cases h
    · rename_i h
      rw [hdecode] at h
      cases h
      rw [if_pos (hall c hc)]
      dsimp only
      rw [hs]
  · exact fun h => List.cons_ne_nil b t h
  · exact fun r h => h37 (List.cons.inj h).1

/-- **`print` makes the text of the pieces.** -/
theorem print_items : ∀ (is : List Item), (∀ i ∈ is, i.Plain) → print (formatOf is) (argsOf is) = some (textOf is)
  | [], _ => by
    unfold formatOf
    rw [List.flatMap_nil, print]
    rfl
  | i :: is, h => by
    have hi := h i List.mem_cons_self
    have hrest := print_items is (fun j hj => h j (List.mem_cons_of_mem _ hj))
    unfold formatOf argsOf textOf
    rw [List.flatMap_cons, List.flatMap_cons, List.flatMap_cons]
    cases i with
    | lit c     =>
      have hstep : print (c :: formatOf is) (argsOf is) = (print (formatOf is) (argsOf is)).map (c :: ·) := by
        rw [print]
        · exact fun hc _ => hi hc
        · exact fun r hc _ => hi hc
        · exact fun hc => hi hc
      exact hstep.trans (congrArg _ hrest)
    | percent   =>
      have hstep : print (37 :: 37 :: formatOf is) (argsOf is) = (print (formatOf is) (argsOf is)).map (37 :: ·) := by
        rw [print]
      exact hstep.trans (congrArg _ hrest)
    | num f l v =>
      have hs : convert l.byte f.wide ⟨f.left, f.zero⟩ (.int v) = some (Item.num f l v).text := by
        have hnum := printi_num hi.1 l v
        cases l <;> exact congrArg some hnum
      have hl : l.byte ∈ Formats.letters := by cases l <;> decide
      exact (print_conv hi.2 hl hs _ _).trans (congrArg _ hrest)
    | str f s   =>
      have hs : convert 115 f.wide ⟨f.left, f.zero⟩ (.str s) = some (f.put [] s) :=
        congrArg some (prints_put (by rw [hi.1, Bool.and_false]) s)
      exact (print_conv hi.2 (by decide) hs _ _).trans (congrArg _ hrest)
    | char f v  =>
      have hs : convert 99 f.wide ⟨f.left, f.zero⟩ (.int v) = some (f.put [] [UInt8.ofNat v.toNat]) := by
        have hscr : scr (UInt8.ofNat v.toNat) = [UInt8.ofNat v.toNat] := if_neg hi.2.2
        have hput := prints_put (f := f) (by rw [hi.1, Bool.and_false]) [UInt8.ofNat v.toNat]
        rw [← hscr] at hput
        rw [← hscr]
        exact congrArg some hput
      exact (print_conv hi.2.1 (by decide) hs _ _).trans (congrArg _ hrest)

end Stdarg

/-! ## Agreement -/

/-- **`sprintf` makes the text of its pieces.** -/
theorem sprintf_items {is : List Item} (h : ∀ i ∈ is, i.Plain) (m : Mem) (out : Nat) :
    Stdarg.sprintf m out (formatOf is) (argsOf is) = some ((textOf is).length, m.write out (textOf is ++ [0])) := by
  rw [Stdarg.sprintf, print_items is h]
  rfl

/-- **The three formatters agree**: on a format of plain pieces, with room for all of the text, they return its length
and leave the same memory. -/
theorem formatters_agree {is : List Item} (h : ∀ i ∈ is, i.Plain) (hlow : ∀ i ∈ is, ¬ i.Lowest) (m : Mem)
    {buf size : Nat} (hbuf : buf < 2 ^ 32) (hsize : size < 2 ^ 32) (hroom : (textOf is).length < Vsnprintf.room buf size) :
    Vsnprintf.vsnprintf m buf size (formatOf is) (argsOf is) =
        some ((textOf is).length, m.write buf (textOf is ++ [0])) ∧
      Vsprintf.vsprintf m buf (formatOf is) (argsOf is) =
        some (((textOf is).length : Int), m.write buf (textOf is ++ [0])) ∧
      Stdarg.sprintf m buf (formatOf is) (argsOf is) = some ((textOf is).length, m.write buf (textOf is ++ [0])) := by
  refine ⟨?_, ?_, ?_⟩
  · rw [Vsnprintf.vsnprintf_text (render_items is h {} rfl) m hbuf hsize, if_neg (by omega),
      List.take_of_length_le (by omega)]
  · rw [Vsprintf.vsprintf, text_items is h hlow]
    rfl
  · exact sprintf_items h m buf

/-- `"v=%04x %-4s%%"`. -/
def mixed : List Item :=
  [.lit 118, .lit 61, .num ⟨false, true, 4⟩ .x 255, .lit 32, .str ⟨true, false, 4⟩ (ascii "ab"), .percent]

theorem formatters_agree_mixed :
    Vsnprintf.vsnprintf (fun _ => 0) 4096 64 (formatOf mixed) (argsOf mixed) =
        some ((textOf mixed).length, Mem.write (fun _ => 0) 4096 (textOf mixed ++ [0])) ∧
      Vsprintf.vsprintf (fun _ => 0) 4096 (formatOf mixed) (argsOf mixed) =
        some (((textOf mixed).length : Int), Mem.write (fun _ => 0) 4096 (textOf mixed ++ [0])) ∧
      Stdarg.sprintf (fun _ => 0) 4096 (formatOf mixed) (argsOf mixed) =
        some ((textOf mixed).length, Mem.write (fun _ => 0) 4096 (textOf mixed ++ [0])) :=
  @formatters_agree mixed (by decide) (by decide) (fun _ => 0) 4096 64 (by decide) (by decide) (by decide)

end Formats
end OtaLoader
