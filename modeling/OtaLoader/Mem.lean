import Mathlib.Tactic.Common
/-!
# Mem — byte memories and little-endian words

A memory is a total function from addresses to bytes.  A block of bytes is written and read whole (`Mem.write`,
`Mem.read`); a 32-bit word is its four bytes, low byte first (`Mem.get32`, `Mem.set32`).  Every lemma is a frame fact
(what a write leaves alone), a read-back fact, or how two of the operations compose.
-/
namespace OtaLoader

abbrev Mem := Nat → UInt8

/-- A property of all bytes of a list is decided along the list. -/
instance (priority := high) decidableForallMem {P : UInt8 → Prop} [DecidablePred P] (l : List UInt8) :
    Decidable (∀ b ∈ l, P b) := List.decidableBAll P l

/-- Unsigned 32-bit wrap-around. -/
def u32 (n : Nat) : Nat := n % 4294967296

theorem u32_of_lt {n : Nat} (h : n < 4294967296) : u32 n = n := Nat.mod_eq_of_lt h

theorem u32_lt (n : Nat) : u32 n < 4294967296 := Nat.mod_lt _ (by decide)

namespace Mem

def write (m : Mem) (a : Nat) (bs : List UInt8) : Mem :=
  fun x => if a ≤ x then (bs[x - a]?).getD (m x) else m x

def read (m : Mem) (a n : Nat) : List UInt8 := (List.range n).map (fun i => m (a + i))

def fill (m : Mem) (a n : Nat) (b : UInt8) : Mem := fun x => if a ≤ x ∧ x < a + n then b else m x

/-- Bytes written at a 32-bit address: behind the last address comes address 0. -/
def writeAround (m : Mem) (a : Nat) (bs : List UInt8) : Mem :=
  (m.write a (bs.take (4294967296 - a))).write 0 (bs.drop (4294967296 - a))

def readAround (m : Mem) (a n : Nat) : List UInt8 :=
  m.read a (min n (4294967296 - a)) ++ m.read 0 (n - (4294967296 - a))

def get32 (m : Mem) (a : Nat) : Nat :=
  (m a).toNat + 256 * (m (a + 1)).toNat + 65536 * (m (a + 2)).toNat + 16777216 * (m (a + 3)).toNat

def le32 (v : Nat) : List UInt8 :=
  [UInt8.ofNat v, UInt8.ofNat (v / 256), UInt8.ofNat (v / 65536), UInt8.ofNat (v / 16777216)]

def set32 (m : Mem) (a v : Nat) : Mem := m.write a (le32 v)

/-! ## Frames -/

theorem write_below {m : Mem} {a x : Nat} (bs : List UInt8) (h : x < a) : m.write a bs x = m x := by
  simp [write, Nat.not_le.2 h]

theorem write_above {m : Mem} {a x : Nat} (bs : List UInt8) (h : a + bs.length ≤ x) : m.write a bs x = m x := by
  have hx : bs[x - a]? = none := List.getElem?_eq_none (by omega)
  simp [write, hx]

theorem write_outside {m : Mem} {a x : Nat} {bs : List UInt8} (h : x < a ∨ a + bs.length ≤ x) :
    m.write a bs x = m x :=
  h.elim (write_below bs) (write_above bs)

theorem write_inside {m : Mem} {a i : Nat} {bs : List UInt8} (h : i < bs.length) : m.write a bs (a + i) = bs[i] := by
  simp [write, h]

theorem write_inside' {m : Mem} {a x : Nat} {bs : List UInt8} (h1 : a ≤ x) (h2 : x - a < bs.length) :
    m.write a bs x = bs[x - a] := by
  simp [write, h1, h2]

@[simp] theorem write_nil (m : Mem) (a : Nat) : m.write a [] = m := by
  funext x; simp [write]

theorem write_append (m : Mem) (a : Nat) (bs cs : List UInt8) :
    m.write a (bs ++ cs) = (m.write a bs).write (a + bs.length) cs := by
  funext x
  by_cases hx : a ≤ x
  · by_cases hb : x - a < bs.length
    · rw [write_below cs (by omega : x < a + bs.length), write_inside' hx hb,
        write_inside' hx (by rw [List.length_append]; omega), List.getElem_append_left hb]
    · by_cases hc : x - a < bs.length + cs.length
      · rw [write_inside' hx (by rw [List.length_append]; omega), write_inside' (by omega) (by omega),
          List.getElem_append_right (by omega)]
        congr 1; omega
      · rw [write_above _ (by rw [List.length_append]; omega), write_above _ (by omega), write_above _ (by omega)]
  · rw [write_below _ (by omega), write_below _ (by omega), write_below _ (by omega)]

/-- Writing zeros lowers bytes. -/
theorem write_zeros_le {m : Mem} {a x : Nat} {bs : List UInt8} (h : ∀ b ∈ bs, b = 0) :
    (m.write a bs x).toNat ≤ (m x).toNat := by
  by_cases hx : a ≤ x ∧ x - a < bs.length
  · rw [write_inside' hx.1 hx.2, h _ (List.getElem_mem hx.2)]
    exact Nat.zero_le _
  · exact Nat.le_of_eq (congrArg UInt8.toNat (write_outside (by omega)))

/-- So does writing them around the end of the addresses. -/
theorem writeAround_zeros_le {m : Mem} {a x : Nat} {bs : List UInt8} (h : ∀ b ∈ bs, b = 0) :
    (m.writeAround a bs x).toNat ≤ (m x).toNat :=
  Nat.le_trans (write_zeros_le (fun b hb => h b (List.mem_of_mem_drop hb)))
    (write_zeros_le (fun b hb => h b (List.mem_of_mem_take hb)))

theorem writeAround_below {m : Mem} {a x : Nat} {bs : List UInt8} (h : a + bs.length ≤ 4294967296) (hx : x < a) :
    m.writeAround a bs x = m x := by
  unfold writeAround
  rw [List.drop_of_length_le (by omega), write_nil, write_below _ hx]

/-- The last address of all, when the bytes go past it. -/
theorem writeAround_last {m : Mem} {a : Nat} {bs : List UInt8} (ha : a < 4294967296) (h : 4294967296 < a + bs.length)
    (h' : bs.length < 4294967296) :
    m.writeAround a bs 4294967295 = bs[4294967295 - a] := by
  unfold writeAround
  rw [write_above _ (by rw [List.length_drop]; omega), write_inside' (by omega) (by rw [List.length_take]; omega),
    List.getElem_take]

theorem fill_inside {m : Mem} {a n x : Nat} {b : UInt8} (h1 : a ≤ x) (h2 : x < a + n) : m.fill a n b x = b := by
  simp [fill, h1, h2]

theorem fill_outside {m : Mem} {a n x : Nat} {b : UInt8} (h : x < a ∨ a + n ≤ x) : m.fill a n b x = m x := by
  have : ¬ (a ≤ x ∧ x < a + n) := by omega
  simp [fill, this]

/-! ## Reading a block -/

@[simp] theorem length_read (m : Mem) (a n : Nat) : (m.read a n).length = n := by simp [read]

@[simp] theorem getElem_read (m : Mem) (a n i : Nat) (h : i < (m.read a n).length) : (m.read a n)[i] = m (a + i) := by
  simp [read]

theorem read_congr {m m' : Mem} {a n : Nat} (h : ∀ i, i < n → m (a + i) = m' (a + i)) : m.read a n = m'.read a n :=
  List.map_congr_left (fun i hi => h i (List.mem_range.1 hi))

theorem read_eq_iff {m : Mem} {a : Nat} {bs : List UInt8} :
    m.read a bs.length = bs ↔ ∀ (i : Nat) (h : i < bs.length), m (a + i) = bs[i] := by
  constructor
  · intro h i hi
    have : getElem (m.read a bs.length) i (by simpa using hi) = bs[i] := by simp only [h]
    simpa using this
  · intro h
    exact List.ext_getElem (by simp) (fun i h1 h2 => by simpa using h i h2)

theorem read_write_self (m : Mem) (a : Nat) (bs : List UInt8) : (m.write a bs).read a bs.length = bs :=
  read_eq_iff.2 (fun _ hi => write_inside hi)

theorem read_write_outside {m : Mem} {a b n : Nat} {bs : List UInt8} (h : b + n ≤ a ∨ a + bs.length ≤ b) :
    (m.write a bs).read b n = m.read b n :=
  read_congr (fun i hi => write_outside (by omega))

theorem read_add (m : Mem) (a n k : Nat) : m.read a (n + k) = m.read a n ++ m.read (a + n) k := by
  unfold read
  rw [List.range_add, List.map_append, List.map_map]
  simp [Function.comp_def, Nat.add_assoc]

theorem read_append_iff {m : Mem} {a : Nat} {bs cs : List UInt8} :
    m.read a (bs ++ cs).length = bs ++ cs ↔ m.read a bs.length = bs ∧ m.read (a + bs.length) cs.length = cs := by
  rw [List.length_append, read_add]
  exact ⟨fun h => List.append_inj h (length_read ..), fun h => by rw [h.1, h.2]⟩

theorem read_cons_iff {m : Mem} {a : Nat} {b : UInt8} {cs : List UInt8} :
    m.read a (b :: cs).length = b :: cs ↔ m a = b ∧ m.read (a + 1) cs.length = cs := by
  have := @read_append_iff m a [b] cs
  simpa [read, List.range_succ] using this

theorem write_read_self (m : Mem) (a n : Nat) : m.write a (m.read a n) = m := by
  funext x
  by_cases h : a ≤ x ∧ x - a < n
  · rw [write_inside' h.1 (by simpa using h.2), getElem_read]
    congr 1; omega
  · exact write_outside (by rw [length_read]; omega)

/-! ## Words -/

@[simp] theorem length_le32 (v : Nat) : (le32 v).length = 4 := rfl

theorem get32_lt (m : Mem) (a : Nat) : m.get32 a < 4294967296 := by
  have h0 := (m a).toNat_lt; have h1 := (m (a + 1)).toNat_lt
  have h2 := (m (a + 2)).toNat_lt; have h3 := (m (a + 3)).toNat_lt
  unfold get32; omega

theorem get32_congr {m m' : Mem} {a : Nat} (h : ∀ i, i < 4 → m (a + i) = m' (a + i)) : m.get32 a = m'.get32 a := by
  have h0 := h 0 (by omega)
  have h1 := h 1 (by omega)
  have h2 := h 2 (by omega)
  have h3 := h 3 (by omega)
  rw [Nat.add_zero] at h0
  simp only [get32, h0, h1, h2, h3]

theorem get32_mono {m m' : Mem} {a : Nat} (h : ∀ i, i < 4 → (m (a + i)).toNat ≤ (m' (a + i)).toNat) :
    m.get32 a ≤ m'.get32 a := by
  have h0 := h 0 (by omega)
  have h1 := h 1 (by omega)
  have h2 := h 2 (by omega)
  have h3 := h 3 (by omega)
  rw [Nat.add_zero] at h0
  unfold get32
  omega

theorem get32_write_outside {m : Mem} {a b : Nat} {bs : List UInt8} (h : b + 4 ≤ a ∨ a + bs.length ≤ b) :
    (m.write a bs).get32 b = m.get32 b :=
  get32_congr (fun i hi => write_outside (by omega))

theorem get32_set32_outside {m : Mem} {a b v : Nat} (h : b + 4 ≤ a ∨ a + 4 ≤ b) : (m.set32 a v).get32 b = m.get32 b :=
  get32_write_outside (by simpa using h)

theorem set32_outside {m : Mem} {a x v : Nat} (h : x < a ∨ a + 4 ≤ x) : m.set32 a v x = m x :=
  write_outside (by simpa using h)

/-- A byte of the word, or one that was the same before. -/
theorem set32_congr {m m' : Mem} {a x v : Nat} (h : (a ≤ x ∧ x < a + 4) ∨ m x = m' x) :
    m.set32 a v x = m'.set32 a v x := by
  by_cases hx : a ≤ x ∧ x < a + 4
  · unfold set32
    rw [write_inside' hx.1 (by rw [length_le32]; omega), write_inside' hx.1 (by rw [length_le32]; omega)]
  · rw [set32_outside (by omega), set32_outside (by omega)]
    exact h.resolve_left hx

theorem set32_byte (m : Mem) (a v : Nat) {i : Nat} (h : i < 4) :
    m.set32 a v (a + i) = getElem (le32 v) i (by simpa using h) := write_inside (by simpa using h)

theorem get32_set32 (m : Mem) (a v : Nat) : (m.set32 a v).get32 a = u32 v := by
  have h0 := set32_byte m a v (i := 0) (by omega)
  have h1 := set32_byte m a v (i := 1) (by omega)
  have h2 := set32_byte m a v (i := 2) (by omega)
  have h3 := set32_byte m a v (i := 3) (by omega)
  rw [Nat.add_zero] at h0
  simp only [get32, h0, h1, h2, h3, le32, List.getElem_cons_zero, List.getElem_cons_succ, UInt8.toNat_ofNat', u32]
  omega

/-- A later store of a word hides an earlier one, whatever block is written between. -/
theorem set32_write_set32 (m : Mem) (a v w b : Nat) (bs : List UInt8) :
    ((m.set32 a v).write b bs).set32 a w = (m.write b bs).set32 a w := by
  funext x
  by_cases hx : a ≤ x ∧ x < a + 4
  · unfold set32
    rw [write_inside' hx.1 (by rw [length_le32]; omega), write_inside' hx.1 (by rw [length_le32]; omega)]
  · rw [set32_outside (by omega), set32_outside (by omega)]
    simp only [write, show m.set32 a v x = m x from set32_outside (by omega)]

theorem set32_get32_self (m : Mem) (a : Nat) : m.set32 a (m.get32 a) = m := by
  have h0 := (m a).toNat_lt; have h1 := (m (a + 1)).toNat_lt
  have h2 := (m (a + 2)).toNat_lt; have h3 := (m (a + 3)).toNat_lt
  have hb : le32 (m.get32 a) = m.read a 4 := by
    have e0 : UInt8.ofNat (m.get32 a) = m a := UInt8.toNat_inj.1 (by rw [UInt8.toNat_ofNat']; unfold get32; omega)
    have e1 : UInt8.ofNat (m.get32 a / 256) = m (a + 1) :=
      UInt8.toNat_inj.1 (by rw [UInt8.toNat_ofNat']; unfold get32; omega)
    have e2 : UInt8.ofNat (m.get32 a / 65536) = m (a + 2) :=
      UInt8.toNat_inj.1 (by rw [UInt8.toNat_ofNat']; unfold get32; omega)
    have e3 : UInt8.ofNat (m.get32 a / 16777216) = m (a + 3) :=
      UInt8.toNat_inj.1 (by rw [UInt8.toNat_ofNat']; unfold get32; omega)
    simp [le32, read, e0, e1, e2, e3, List.range_succ]
  rw [set32, hb, write_read_self]

end Mem

/-! ## Pieces -/

/-- The bytes cut into pieces of the given lengths. -/
def splitLens : List Nat → List UInt8 → List (List UInt8)
  | [], _       => []
  | n :: ns, bs => bs.take n :: splitLens ns (bs.drop n)

theorem length_splitLens : ∀ (lens : List Nat) (bs : List UInt8), (splitLens lens bs).length = lens.length
  | [], _       => rfl
  | n :: ns, bs => congrArg (· + 1) (length_splitLens ns (bs.drop n))

end OtaLoader
