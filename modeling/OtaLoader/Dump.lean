import OtaLoader.Scan
/-!
# Dump — a hex dump is read back (`printf-stdarg.c`, `Vsprintf.c`)

`printf_buf` sends the address of a buffer and two digits for each of its bytes, sixteen to a line.  `vsscanf` reads it
with one `%X` for the address and one for each byte, whatever the buffer holds.
-/
namespace OtaLoader
namespace Vsscanf

open Stdarg (putU4hex putU8hex putU32hex putchar dumpFrom printfBuf)

variable {strtod : List UInt8 → UInt64 × List UInt8} {total : Nat}

/-! ## Digits -/

theorem digitOf_putU4hex (n : Nat) : digitOf (putU4hex n) = some (n % 16) := by
  have hall : ∀ d : Fin 16, digitOf (putU4hex d) = some d.val := by decide +kernel
  have hand : ∀ k, k &&& 0xf = k % 16 := fun k => Nat.and_two_pow_sub_one_eq_mod k 4
  have hsame : putU4hex n = putU4hex (n % 16) := by
    unfold putU4hex
    rw [hand, hand, Nat.mod_mod]
  rw [hsame]
  exact hall ⟨n % 16, Nat.mod_lt n (by decide)⟩

theorem hexDigits_putU4hex (shifts : List Nat) (v : Nat) :
    ∀ c ∈ shifts.map (fun s => putU4hex (v >>> s)), ∃ d, digitOf c = some d ∧ d < 16 := by
  intro c hc
  obtain ⟨s, -, rfl⟩ := List.mem_map.1 hc
  exact ⟨_, digitOf_putU4hex _, Nat.mod_lt _ (by decide)⟩

/-- The digits of the number above `s` bits, and those below, from the one at `s` down. -/
theorem positional_putU4hex (v : Nat) : ∀ (k : Nat) (acc : Nat),
    positional 16 acc (((List.range k).reverse.map (4 * ·)).map fun s => putU4hex (v >>> s)) = acc * 16 ^ k + v % 16 ^ k
  | 0, acc => by
    rw [Nat.pow_zero, Nat.mul_one, Nat.mod_one]
    rfl
  | k + 1, acc => by
    have hcons : ((List.range (k + 1)).reverse.map (4 * ·)).map (fun s => putU4hex (v >>> s)) =
        putU4hex (v >>> (4 * k)) :: ((List.range k).reverse.map (4 * ·)).map (fun s => putU4hex (v >>> s)) := by
      rw [List.range_succ, List.reverse_append, List.reverse_singleton, List.singleton_append, List.map_cons, List.map_cons]
    have hdigit : v >>> (4 * k) % 16 = v / 16 ^ k % 16 := by
      rw [Nat.shiftRight_eq_div_pow, Nat.pow_mul]
    rw [hcons, positional, List.foldl_cons, digitOf_putU4hex, Option.getD_some, hdigit]
    have ih := positional_putU4hex v k (acc * 16 + v / 16 ^ k % 16)
    rw [positional] at ih
    rw [ih, Nat.pow_succ, Nat.mod_mul, Nat.add_mul, Nat.mul_assoc, Nat.mul_comm 16 (16 ^ k), Nat.add_assoc,
      Nat.add_comm (v % 16 ^ k), Nat.mul_comm (16 ^ k) (v / 16 ^ k % 16)]

/-! ## One number -/

/-- White space. -/
def Blank (ws : List UInt8) : Prop := ∀ c ∈ ws, isspace c = true

theorem skipSpaces_blank {ws : List UInt8} (hws : Blank ws) {c : UInt8} (hc : isspace c = false) (r : List UInt8) :
    skipSpaces (ws ++ c :: r) = some (c :: r) := by
  induction ws with
  | nil          => simp [skipSpaces, hc]
  | cons w ws ih =>
    rw [List.cons_append, skipSpaces, if_pos (hws w List.mem_cons_self)]
    exact ih (fun c hc => hws c (List.mem_cons_of_mem w hc))

variable (strtod total) in
/-- A `%X` reads what `simple_strtoull` does, behind white space. -/
theorem round_hex {ws str t : List UInt8} {c : UInt8} {v : Nat} (hws : Blank ws) (hc : isxdigit c = true)
    (hs : isspace c = false) (hread : simpleStrtoull (c :: str) 16 = (v, t)) (fmt : List UInt8) :
    round strtod total (ws ++ c :: str) (37 :: 88 :: fmt) = .next (some (.int 4 (v % 2 ^ 32))) t fmt := by
  have h0 : c ≠ 0 := by
    rintro rfl
    cases hs
  have h45 : c ≠ 45 := by
    rintro rfl
    cases hc
  have hstart : startsNumber 16 (false || false) (c :: str) = true := by
    rw [startsNumber_head 16 (.inl ⟨rfl, h45⟩)]
    simp [h0, hc]
  have hconv : convert strtod 255 16 false false (c :: str) = (.int 4 (v % 2 ^ 32), t) := by
    simp only [convert, simpleStrtoul, hread]
    rfl
  have hspec : specOf (88 :: fmt) = ⟨-1, 255, 88 :: fmt⟩ := rfl
  have hround := round_num strtod total (by simp) hspec rfl (skipSpaces_blank hws hs str) hstart
  rwa [hconv] at hround

/-! ## The dump -/

/-- As many `%X` as this. -/
def hexFormat : Nat → List UInt8
  | 0     => []
  | n + 1 => 37 :: 88 :: hexFormat n

theorem loop_hex {str t : List UInt8} {v : Nat} {n k : Nat} {os : List Stored}
    (h : round strtod total str (37 :: 88 :: hexFormat n) = .next (some (.int 4 v)) t (hexFormat n)) (hne : str ≠ [])
    (hrest : loop strtod total t (hexFormat n) = some (k, os)) :
    loop strtod total str (hexFormat (n + 1)) = some (k + 1, .int 4 v :: os) := by
  have hnext := loop_next (List.cons_ne_nil _ _) hne h
  rw [hrest] at hnext
  exact hnext.trans (congrArg (fun n => some (n, Stored.int 4 v :: os)) (Nat.add_comm 1 k))

/-- The two digits of a byte. -/
theorem strtoull_byte (b : UInt8) {t : List UInt8} (ht : Stops t) :
    simpleStrtoull (putU4hex (b.toNat >>> 4) :: putU4hex b.toNat :: t) 16 = (b.toNat, t) := by
  have hb : b.toNat < 256 := b.toNat_lt
  have hval : positional 16 0 [putU4hex (b.toNat >>> 4), putU4hex b.toNat] = 0 * 16 ^ 2 + b.toNat % 16 ^ 2 :=
    positional_putU4hex b.toNat 2 0
  have hread := simpleStrtoull_digits (by decide : 16 ≠ 0) ht (hexDigits_putU4hex [4, 0] b.toNat) (List.cons_ne_nil _ _)
  have hsame : b.toNat % 16 ^ 2 % 2 ^ 64 = b.toNat := by omega
  rw [Nat.zero_mul, Nat.zero_add] at hval
  refine hread.trans (congrArg (fun n => (n, t)) ?_)
  exact (congrArg (· % 2 ^ 64) hval).trans hsame

/-- **The bytes are read back**, whatever white space is in front of them. -/
theorem loop_dump : ∀ (bytes : List UInt8) (i : Nat) {ws : List UInt8}, Blank ws →
    loop strtod total (ws ++ dumpFrom i bytes) (hexFormat bytes.length) =
      some (bytes.length, bytes.map fun b => .int 4 b.toNat)
  | [], _, _, _ => by
    rw [loop, if_pos (.inl rfl)]
    rfl
  | b :: bs, i, ws, hws => by
    have hblank : Blank (ws ++ if i ≠ 0 ∧ i % 16 = 0 then ([10] : List UInt8) else []) := by
      intro c hc
      rcases List.mem_append.1 hc with hc | hc
      · exact hws c hc
      · split at hc
        · cases List.mem_singleton.1 hc
          rfl
        · cases hc
    have htext : ws ++ dumpFrom i (b :: bs) = (ws ++ if i ≠ 0 ∧ i % 16 = 0 then ([10] : List UInt8) else []) ++
        putU4hex (b.toNat >>> 4) :: putU4hex b.toNat :: 32 :: dumpFrom (i + 1) bs := by
      rw [dumpFrom, List.append_assoc, List.append_assoc]
      rfl
    have hstops : Stops (32 :: dumpFrom (i + 1) bs) := by
      intro c hc
      cases hc
      decide
    obtain ⟨hx, -, hs, -⟩ := value_digit (digitOf_putU4hex (b.toNat >>> 4))
    have hround := round_hex strtod total hblank hx hs (strtoull_byte b hstops) (hexFormat bs.length)
    have hb : b.toNat % 2 ^ 32 = b.toNat := Nat.mod_eq_of_lt (Nat.lt_trans b.toNat_lt (by decide))
    rw [← htext, hb] at hround
    have hne : ws ++ dumpFrom i (b :: bs) ≠ [] := by
      rw [htext]
      exact List.append_ne_nil_of_right_ne_nil _ (List.cons_ne_nil _ _)
    have hone : Blank [32] := fun c hc => by
      cases List.mem_singleton.1 hc
      rfl
    exact loop_hex hround hne (loop_dump bs (i + 1) hone)

/-- **A hex dump is read back**: the address of the buffer, then each of its bytes. -/
theorem vsscanf_printfBuf (strtod : List UInt8 → UInt64 × List UInt8) (buf : UInt32) (bytes : List UInt8) :
    vsscanf strtod (printfBuf buf bytes) (hexFormat (bytes.length + 1)) =
      some (bytes.length + 1, .int 4 buf.toNat :: bytes.map fun b => .int 4 b.toNat) := by
  have hbuf : buf.toNat < 2 ^ 32 := buf.toNat_lt
  have hstops : Stops ([13, 10] ++ dumpFrom 0 bytes) := by
    intro c hc
    cases hc
    decide
  have hread : simpleStrtoull (48 :: 120 :: ([28, 24, 20, 16, 12, 8, 4, 0].map (fun s => putU4hex (buf.toNat >>> s)) ++
      ([13, 10] ++ dumpFrom 0 bytes))) 16 = (buf.toNat, [13, 10] ++ dumpFrom 0 bytes) := by
    have hdigits := digits_positional hstops _ 0 (hexDigits_putU4hex [28, 24, 20, 16, 12, 8, 4, 0] buf.toNat) (by decide)
    have hval : positional 16 0 ([28, 24, 20, 16, 12, 8, 4, 0].map (fun s => putU4hex (buf.toNat >>> s))) =
        0 * 16 ^ 8 + buf.toNat % 16 ^ 8 := positional_putU4hex buf.toNat 8 0
    rw [hval] at hdigits
    have hsame : (0 * 16 ^ 8 + buf.toNat % 16 ^ 8) % 2 ^ 64 = buf.toNat := by omega
    rw [hsame] at hdigits
    exact hdigits
  have hempty : Blank [] := fun c hc => by cases hc
  have hround := round_hex strtod (printfBuf buf bytes).length hempty (by decide) (by decide) hread
    (hexFormat bytes.length)
  rw [List.nil_append, Nat.mod_eq_of_lt hbuf] at hround
  have hblank : Blank [13, 10] := by
    intro c hc
    rcases List.mem_cons.1 hc with rfl | hc
    · rfl
    · cases List.mem_singleton.1 hc
      rfl
  have htext : printfBuf buf bytes = (48 : UInt8) :: 120 :: ([28, 24, 20, 16, 12, 8, 4, 0].map (fun s => putU4hex (buf.toNat >>> s)) ++
      ([13, 10] ++ dumpFrom 0 bytes)) := by
    unfold printfBuf putU32hex
    rw [List.append_assoc, List.append_assoc]
    rfl
  unfold vsscanf
  rw [← htext] at hround
  exact loop_hex hround (by rw [htext]; exact List.cons_ne_nil _ _) (loop_dump bytes 0 hblank)

end Vsscanf
end OtaLoader
