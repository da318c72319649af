import Mathlib.Algebra.GroupWithZero.Nat
import OtaLoader.Sta
/-!
# StaParse — the header of a 206 response

`msgrecv` takes a segment that arrives at an empty buffer for the start of a response and reads its header there, in
that segment alone.  `collect_first` is what it makes of a segment that holds the whole header and some of the body;
`msgrecv_parses_iff` says which cuts of a response, and which responses, it reads right.
-/
namespace OtaLoader
namespace Sta

def crlf : List UInt8 := [13, 10]

/-- Lines, each with its end, and the blank line. -/
def headOf (lines : List (List UInt8)) : List UInt8 := lines.flatMap (· ++ crlf) ++ crlf

/-- A line of a header. -/
structure IsLine (l : List UInt8) : Prop where
  nonempty : l ≠ []
  noZero   : 0 ∉ l
  noCr     : 13 ∉ l
  noLf     : 10 ∉ l

/-- A response with the status 206 whose header has a line with the range.  `lower` is its spelling; `firstText`,
`lastText` and `totalText` are its numbers as they stand there. -/
structure Response where
  reason    : List UInt8
  before    : List (List UInt8)
  lower     : Bool
  firstText : List UInt8
  lastText  : List UInt8
  totalText : List UInt8
  after     : List (List UInt8)
  body      : List UInt8
  first     : Nat
  last      : Nat
  total     : Nat

namespace Response

variable (r : Response)

def name : List UInt8 := if r.lower then ascii "content-range:" else ascii "Content-Range:"

def rangeText : List UInt8 :=
  ascii "bytes " ++ (r.firstText ++ (ascii "-" ++ (r.lastText ++ (ascii "/" ++ r.totalText))))

def rangeLine : List UInt8 := r.name ++ (ascii " " ++ r.rangeText)

def statusLine : List UInt8 := ascii "HTTP/1.1 206" ++ r.reason

def lines : List (List UInt8) := r.statusLine :: r.before ++ r.rangeLine :: r.after

def head : List UInt8 := headOf r.lines

def bytes : List UInt8 := r.head ++ r.body

/-- The text before the line of the range. -/
def front : List UInt8 := (r.statusLine :: r.before).flatMap (· ++ crlf)

/-- The text behind that line, its end included. -/
def back : List UInt8 := crlf ++ headOf r.after

structure WellFormed : Prop where
  reason : 0 ∉ r.reason ∧ 13 ∉ r.reason ∧ 10 ∉ r.reason
  before : ∀ l ∈ r.before, IsLine l
  after  : ∀ l ∈ r.after, IsLine l
  first  : IsNumber r.firstText r.first
  last   : IsNumber r.lastText r.last
  total  : IsNumber r.totalText r.total
  range  : r.first ≤ r.last ∧ r.last < r.total ∧ r.total < 2147483648
  body   : r.body.length = r.last - r.first + 1

theorem head_eq : r.head = r.front ++ (r.rangeLine ++ r.back) := by
  simp only [head, lines, headOf, front, back, List.cons_append, List.flatMap_cons, List.flatMap_append,
    List.append_assoc]

end Response

/-! ## The blank line -/

theorem headOf_cons (l : List UInt8) (ls : List (List UInt8)) : headOf (l :: ls) = l ++ (crlf ++ headOf ls) := by
  simp only [headOf, List.flatMap_cons, List.append_assoc]

theorem length_headOf : ∀ {ls : List (List UInt8)}, (∀ l ∈ ls, IsLine l) → ls ≠ [] → 5 ≤ (headOf ls).length
  | [], _, h => absurd rfl h
  | l :: ls, hl, _ => by
    have h1 := List.length_pos_iff.2 (hl l (List.mem_cons_self ..)).nonempty
    have h2 : 2 ≤ (headOf ls).length := by simp [headOf, crlf]
    simp only [headOf_cons, crlf, List.length_append, List.length_cons, List.length_nil]
    omega

/-- The blank line that ends a header starts at `j`. -/
def BlankIn (t : List UInt8) (j : Nat) : Prop :=
  t[j]? = some 13 ∧ t[j + 1]? = some 10 ∧ t[j + 2]? = some 13 ∧ t[j + 3]? = some 10

/-- **A header of full lines has one blank line**, at its end. -/
theorem blank_headOf : ∀ {ls : List (List UInt8)}, ls ≠ [] → (∀ l ∈ ls, IsLine l) → ∀ j,
    BlankIn (headOf ls) j ↔ j + 4 = (headOf ls).length
  | [], h, _, _ => absurd rfl h
  | l :: ls, _, hl, j => by
    have hline := hl l (List.mem_cons_self ..)
    have hrest : ∀ k, (headOf (l :: ls))[l.length + k]? = (crlf ++ headOf ls)[k]? := fun k => by
      rw [headOf_cons, List.getElem?_append_right (by omega), Nat.add_sub_cancel_left]
    have hlen : (headOf (l :: ls)).length = l.length + 2 + (headOf ls).length := by
      simp only [headOf_cons, crlf, List.length_append, List.length_cons, List.length_nil]
      omega
    have h2 : 2 ≤ (headOf ls).length := by simp [headOf, crlf]
    rcases Nat.lt_or_ge j l.length with hj | hj
    · -- inside the first line
      refine ⟨fun h => ?_, fun h => by omega⟩
      have h13 := h.1
      rw [headOf_cons, List.getElem?_append_left hj, List.getElem?_eq_getElem hj] at h13
      exact absurd (Option.some.inj h13 ▸ List.getElem_mem hj) hline.noCr
    · obtain ⟨k, rfl⟩ := Nat.exists_eq_add_of_le hj
      unfold BlankIn
      simp only [Nat.add_assoc, hrest, hlen]
      match k with
      | 0 =>
        -- at the end of the first line
        cases ls with
        | nil => simp [headOf, crlf]
        | cons l' ls =>
          have h5 := length_headOf (fun x hx => hl x (List.mem_cons_of_mem _ hx)) (List.cons_ne_nil l' ls)
          refine ⟨fun h => ?_, fun h => by omega⟩
          have hline' := hl l' (by simp)
          have hpos := List.length_pos_iff.2 hline'.nonempty
          have h13 : (headOf (l' :: ls))[0]? = some 13 := h.2.2.1
          rw [headOf_cons, List.getElem?_append_left hpos, List.getElem?_eq_getElem hpos] at h13
          exact absurd (Option.some.inj h13 ▸ List.getElem_mem hpos) hline'.noCr
      | 1 =>
        refine ⟨fun h => absurd h.1 (by simp [crlf]), fun h => ?_⟩
        cases ls with
        | nil => simp [headOf, crlf] at h
        | cons l' ls =>
          have h5 := length_headOf (fun x hx => hl x (List.mem_cons_of_mem _ hx)) (List.cons_ne_nil l' ls)
          omega
      | k + 2 =>
        cases ls with
        | nil => simp [headOf, crlf]
        | cons l' ls =>
          have ih := blank_headOf (List.cons_ne_nil l' ls) (fun x hx => hl x (List.mem_cons_of_mem _ hx)) k
          simp only [BlankIn] at ih
          simp only [crlf, List.cons_append, List.nil_append, List.getElem?_cons_succ, ih]
          omega

theorem blankAt_iff {m : Mem} {c : Nat} :
    blankAt m c = true ↔ m c = 13 ∧ m (c + 1) = 10 ∧ m (c + 2) = 13 ∧ m (c + 3) = 10 := by
  simp only [blankAt, Bool.and_eq_true, beq_iff_eq, and_assoc]

/-- Inside a text that memory shows, blank lines are the text's. -/
theorem blankAt_shown {m : Mem} {p : Nat} {t : List UInt8} (h : m.read p t.length = t) {j : Nat}
    (hj : j + 4 ≤ t.length) : blankAt m (p + j) = true ↔ BlankIn t j := by
  rw [Mem.read_eq_iff] at h
  have h0 := h j (by omega)
  have h1 := h (j + 1) (by omega)
  have h2 := h (j + 2) (by omega)
  have h3 := h (j + 3) (by omega)
  rw [blankAt_iff, Nat.add_assoc, Nat.add_assoc, Nat.add_assoc, h0, h1, h2, h3]
  simp only [BlankIn, List.getElem?_eq_getElem (show j < t.length by omega),
    List.getElem?_eq_getElem (show j + 1 < t.length by omega), List.getElem?_eq_getElem (show j + 2 < t.length by omega),
    List.getElem?_eq_getElem (show j + 3 < t.length by omega), Option.some.injEq]

/-! ## The loops -/

theorem blankLoop_skip {m : Mem} {tot n : Nat} : ∀ (k c : Nat), (∀ i, i < k → ¬ blankAt m (c + i) = true) → c + k ≤ tot →
    blankLoop m tot (n + k) c = blankLoop m tot n (c + k)
  | 0, _, _, _ => rfl
  | k + 1, c, h, hc => by
    have h0 := h 0 (by omega)
    rw [Nat.add_zero] at h0
    rw [← Nat.add_assoc, blankLoop, if_neg (by omega), if_neg h0,
      blankLoop_skip k (c + 1) (fun i hi => by rw [Nat.add_assoc, Nat.add_comm 1]; exact h (i + 1) (by omega)) (by omega)]
    congr 1
    omega

theorem blankLoop_hit {m : Mem} {tot n c : Nat} (hc : c < tot) (h : blankAt m c = true) :
    blankLoop m tot (n + 1) c = some (c + 4) := by
  rw [blankLoop, if_neg (by omega), if_pos h]

/-- Where the loop stops, there is a blank line, not before where it started. -/
theorem blankLoop_some {m : Mem} {tot e : Nat} : ∀ {n c : Nat}, blankLoop m tot n c = some e →
    ∃ q, e = q + 4 ∧ c ≤ q ∧ q < tot ∧ blankAt m q = true
  | 0, _, h => by cases h
  | n + 1, c, h => by
    rw [blankLoop] at h
    split at h
    · cases h
    · split at h
      · rename_i hb
        exact ⟨c, (Option.some.inj h).symm, Nat.le_refl _, by omega, hb⟩
      · obtain ⟨q, h1, h2, h3, h4⟩ := blankLoop_some h
        exact ⟨q, h1, by omega, h3, h4⟩

/-- The blank line that ends a text of full lines is found from its start. -/
theorem blankLoop_headOf (tot : Nat) {m : Mem} {p n : Nat} {ls : List (List UInt8)} (hne : ls ≠ []) (hl : ∀ l ∈ ls, IsLine l)
    (hm : m.read p (headOf ls).length = headOf ls) (htot : p + (headOf ls).length ≤ tot)
    (hn : (headOf ls).length ≤ n) : blankLoop m tot n p = some (p + (headOf ls).length) := by
  have h5 := length_headOf hl hne
  obtain ⟨k, hk⟩ : ∃ k, n = k + 1 + ((headOf ls).length - 4) := ⟨n - 1 - ((headOf ls).length - 4), by omega⟩
  rw [hk, blankLoop_skip _ _ (fun i hi => ?_) (by omega), blankLoop_hit (by omega) ?_]
  · congr 1
    omega
  · rw [blankAt_shown hm (by omega), blank_headOf hne hl]
    omega
  · rw [blankAt_shown hm (by omega), blank_headOf hne hl]
    omega

theorem rangeLoop_skip {m : Mem} {top tot size n : Nat} : ∀ (bs : List UInt8) (c : Nat), m.read c bs.length = bs →
    (∀ b ∈ bs, b ≠ 13 ∧ b ≠ 47) → c + bs.length ≤ tot →
    rangeLoop m top tot (n + bs.length) c size = rangeLoop m top tot n (c + bs.length) size
  | [], _, _, _, _ => rfl
  | b :: bs, c, hm, h, hc => by
    obtain ⟨hb, hm'⟩ := Mem.read_cons_iff.1 hm
    obtain ⟨h13, h47⟩ := h b (List.mem_cons_self ..)
    rw [List.length_cons] at hc ⊢
    have hblank : ¬ blankAt m c = true := fun h => h13 (hb.symm.trans (blankAt_iff.1 h).1)
    have hcrlf : ¬ crlfAt m c = true := fun h => h13 (hb.symm.trans (by simpa [crlfAt] using (Bool.and_eq_true_iff.1 h).1))
    have hslash : ¬ (m c == 47) = true := fun h => h47 (hb.symm.trans (beq_iff_eq.1 h))
    rw [← Nat.add_assoc, rangeLoop, if_neg (by omega), if_neg hblank, if_neg hcrlf, if_neg hslash,
      rangeLoop_skip bs (c + 1) hm' (fun x hx => h x (List.mem_cons_of_mem _ hx)) (by omega)]
    congr 1
    omega

/-- Where the loop stops at the end of the header, there is a blank line, not before where it started. -/
theorem rangeLoop_blank {m : Mem} {top tot : Nat} : ∀ {n c size : Nat}, (rangeLoop m top tot n c size).1 = true →
    ∃ q, (rangeLoop m top tot n c size).2.1 = q + 4 ∧ c ≤ q ∧ q < tot ∧ blankAt m q = true
  | 0, _, _, h => by cases h
  | n + 1, c, size, h => by
    rw [rangeLoop] at h ⊢
    split at h
    · cases h
    rename_i hc
    rw [if_neg hc]
    split at h
    · rename_i hb
      rw [if_pos hb]
      exact ⟨c, rfl, Nat.le_refl _, by omega, hb⟩
    rename_i hb
    rw [if_neg hb]
    split at h
    · cases h
    rename_i hcr
    rw [if_neg hcr]
    split at h
    · rename_i hs
      rw [if_pos hs]
      obtain ⟨q, h1, h2, h3, h4⟩ := rangeLoop_blank h
      exact ⟨q, h1, by omega, h3, h4⟩
    · rename_i hs
      rw [if_neg hs]
      obtain ⟨q, h1, h2, h3, h4⟩ := rangeLoop_blank h
      exact ⟨q, h1, by omega, h3, h4⟩

/-- The loop never goes back. -/
theorem rangeLoop_ge {m : Mem} {top tot : Nat} : ∀ (n c size : Nat), c ≤ (rangeLoop m top tot n c size).2.1
  | 0, c, size => Nat.le_refl _
  | n + 1, c, size => by
    rw [rangeLoop]
    split
    · exact Nat.le_refl _
    · split
      · exact Nat.le_add_right ..
      · split
        · exact Nat.le_add_right ..
        · split
          · exact Nat.le_trans (Nat.le_add_right ..) (rangeLoop_ge n (c + 2) _)
          · exact Nat.le_trans (Nat.le_add_right ..) (rangeLoop_ge n (c + 1) _)

/-! ## The range -/

theorem digit_ne {b : UInt8} (h : isDigit b = true) : b ≠ 0 ∧ b ≠ 10 ∧ b ≠ 13 ∧ b ≠ 47 := by
  refine ⟨?_, ?_, ?_, ?_⟩ <;> rintro rfl <;> exact absurd h (by decide)

theorem numberAt_shown {m : Mem} {top p n : Nat} {ds rest : List UInt8} (hd : IsNumber ds n) (hn : n < 2147483648)
    (hr : ∃ b r, rest = b :: r ∧ isDigit b = false ∧ b ≠ 0) (hm : m.read p (ds ++ rest).length = ds ++ rest)
    (hp : p + (ds ++ rest).length ≤ top) : numberAt m top p = n := by
  obtain ⟨b, r, rfl, hb, hb0⟩ := hr
  have happ : ds ++ b :: r = (ds ++ [b]) ++ r := by simp
  rw [happ] at hm hp
  have hblock := (Mem.read_append_iff.1 hm).1
  have hz : 0 ∉ ds ++ [b] := by
    rw [List.mem_append, List.mem_singleton]
    rintro (h0 | h0)
    · exact (digit_ne (hd.digits 0 h0)).1 rfl
    · exact hb0 h0.symm
  have htext := Mem.cstr_block top hblock hz (by rw [List.length_append] at hp; omega)
  unfold numberAt
  rw [htext, List.append_assoc, atoi_number hd (fun b' r' h => by cases h; exact hb)]
  unfold u32
  omega

namespace Response

variable {r : Response}

/-- The text of the range before its slash. -/
def rangeFront (r : Response) : List UInt8 := ascii "bytes " ++ (r.firstText ++ (ascii "-" ++ r.lastText))

theorem rangeText_eq : r.rangeText = r.rangeFront ++ 47 :: r.totalText := by
  have : ascii "/" = [47] := by decide
  simp only [rangeText, rangeFront, this, List.append_assoc, List.singleton_append]

theorem rangeFront_plain (hw : r.WellFormed) : ∀ b ∈ r.rangeFront, b ≠ 13 ∧ b ≠ 47 := by
  have hbytes : ∀ b ∈ ascii "bytes ", b ≠ 13 ∧ b ≠ 47 := by decide
  have hdash : ∀ b ∈ ascii "-", b ≠ 13 ∧ b ≠ 47 := by decide
  intro b hb
  simp only [rangeFront, List.mem_append] at hb
  rcases hb with hb | hb | hb | hb
  · exact hbytes b hb
  · exact (digit_ne (hw.first.digits b hb)).2.2
  · exact hdash b hb
  · exact (digit_ne (hw.last.digits b hb)).2.2

theorem total_pos (hw : r.WellFormed) : 0 < r.total := by have := hw.range; omega

end Response

/-- The loop over the line of the range reads the total and stops at the line's end, which may be the header's. -/
theorem rangeLoop_own {r : Response} (hw : r.WellFormed) {m : Mem} {top tot p size n : Nat}
    (hm : m.read p (r.rangeText ++ r.back).length = r.rangeText ++ r.back)
    (htot : p + (r.rangeText ++ r.back).length ≤ tot) (htop : tot ≤ top) (hn : r.rangeText.length < n) :
    rangeLoop m top tot n p size =
      if r.after = [] then (true, p + r.rangeText.length + 4, r.total)
      else (false, p + r.rangeText.length + 2, r.total) := by
  obtain ⟨d, ds, hds⟩ : ∃ d ds, r.totalText = d :: ds := by
    cases h : r.totalText with
    | nil       => exact absurd h hw.total.nonempty
    | cons d ds => exact ⟨d, ds, rfl⟩
  have hdigits : ∀ b ∈ ds, b ≠ 13 ∧ b ≠ 47 := fun b hb =>
    (digit_ne (hw.total.digits b (by rw [hds]; exact List.mem_cons_of_mem _ hb))).2.2
  have hback : ∃ b rest, r.back = b :: rest ∧ isDigit b = false ∧ b ≠ 0 :=
    ⟨13, 10 :: headOf r.after, rfl, by decide, by decide⟩
  have h2 : 4 ≤ r.back.length := by simp [Response.back, crlf, headOf]
  have hlen : r.rangeText.length = r.rangeFront.length + 2 + ds.length := by
    rw [Response.rangeText_eq, hds]; simp only [List.length_append, List.length_cons]; omega
  rw [List.length_append] at htot
  -- what memory shows, piece by piece
  rw [Response.rangeText_eq, List.append_assoc, List.cons_append] at hm
  obtain ⟨hfront, hm1⟩ := Mem.read_append_iff.1 hm
  obtain ⟨hslash, hm2⟩ := Mem.read_cons_iff.1 hm1
  have hnum : numberAt m top (p + r.rangeFront.length + 1) = r.total :=
    numberAt_shown hw.total hw.range.2.2 hback hm2 (by rw [List.length_append, hds, List.length_cons]; omega)
  rw [hds, List.cons_append] at hm2
  obtain ⟨-, hm3⟩ := Mem.read_cons_iff.1 hm2
  obtain ⟨hdig, hm4⟩ := Mem.read_append_iff.1 hm3
  -- the loop, piece by piece
  obtain ⟨k, hk⟩ : ∃ k, n = k + 1 + ds.length + 1 + r.rangeFront.length :=
    ⟨n - 2 - ds.length - r.rangeFront.length, by omega⟩
  have hat47 : m (p + r.rangeFront.length) ≠ 13 := by rw [hslash]; decide
  have hnb : ¬ blankAt m (p + r.rangeFront.length) = true := fun h => hat47 (blankAt_iff.1 h).1
  have hnc : ¬ crlfAt m (p + r.rangeFront.length) = true := fun h =>
    hat47 (by simpa using (Bool.and_eq_true_iff.1 h).1)
  rw [hk, rangeLoop_skip _ _ hfront (Response.rangeFront_plain hw) (by omega), rangeLoop, if_neg (by omega), if_neg hnb,
    if_neg hnc, if_pos (beq_iff_eq.2 hslash), hnum, rangeLoop_skip ds _ hdig hdigits (by omega), rangeLoop,
    if_neg (by omega)]
  have hend : p + r.rangeFront.length + 2 + ds.length = p + r.rangeText.length := by omega
  rw [show p + r.rangeFront.length + 1 + 1 + ds.length = p + r.rangeText.length by omega] at hm4
  rw [hend]
  have hcr : crlfAt m (p + r.rangeText.length) = true := by
    have := Mem.read_eq_iff.1 hm4
    have h0 := this 0 (by omega)
    have h1 := this 1 (by omega)
    simpa [crlfAt, Response.back, crlf] using And.intro h0 h1
  by_cases ha : r.after = []
  · rw [if_pos ha, if_pos]
    rw [show p + r.rangeText.length = p + r.rangeText.length + 0 by omega, blankAt_shown hm4 (by omega)]
    rw [Response.back, ha]
    exact ⟨rfl, rfl, rfl, rfl⟩
  · rw [if_neg ha, if_neg, if_pos hcr]
    rw [show p + r.rangeText.length = p + r.rangeText.length + 0 by omega, blankAt_shown hm4 (by omega)]
    rintro ⟨-, -, h13, -⟩
    obtain ⟨l, ls, hl⟩ : ∃ l ls, r.after = l :: ls := by
      cases h : r.after with
      | nil       => exact absurd h ha
      | cons l ls => exact ⟨l, ls, rfl⟩
    have hline := hw.after l (by rw [hl]; exact List.mem_cons_self ..)
    have hpos := List.length_pos_iff.2 hline.nonempty
    have h13' : (headOf (l :: ls))[0]? = some 13 := by rw [← hl]; exact h13
    rw [headOf_cons, List.getElem?_append_left hpos, List.getElem?_eq_getElem hpos] at h13'
    exact absurd (Option.some.inj h13' ▸ List.getElem_mem hpos) hline.noCr

/-- **The line of the range gives the total, and the header ends where it ends.** -/
theorem rangeField_own (top tot size : Nat) {r : Response} (hw : r.WellFormed) {m : Mem} {p : Nat}
    (hm : m.read p (r.rangeText ++ r.back).length = r.rangeText ++ r.back)
    (htot : p + (r.rangeText ++ r.back).length ≤ tot) (htop : tot ≤ top) :
    rangeField m top tot p size = (r.total, some (p + (r.rangeText ++ r.back).length)) := by
  have hlen : (r.rangeText ++ r.back).length = r.rangeText.length + r.back.length := List.length_append
  have hback : r.back.length = 2 + (headOf r.after).length := by
    simp only [Response.back, crlf, List.length_append, List.length_cons, List.length_nil]
  have h2 : 2 ≤ (headOf r.after).length := by simp [headOf, crlf]
  have htotal := Response.total_pos hw
  unfold rangeField
  rw [rangeLoop_own hw hm htot htop (by omega)]
  by_cases ha : r.after = []
  · rw [if_pos ha]
    have : (headOf r.after).length = 2 := by rw [ha]; rfl
    simp only [if_true, Prod.mk.injEq, Option.some.injEq, true_and]
    omega
  · rw [if_neg ha]
    have hm' : m.read (p + r.rangeText.length + 2) (headOf r.after).length = headOf r.after := by
      have h1 := (Mem.read_append_iff.1 hm).2
      have h2 : m.read (p + r.rangeText.length) (crlf ++ headOf r.after).length = crlf ++ headOf r.after := h1
      exact (Mem.read_append_iff.1 h2).2
    have hblank := blankLoop_headOf tot (n := tot) ha hw.after hm' (by omega) (by omega)
    simp only [Bool.false_eq_true, if_false]
    rw [hblank]
    have hsize : ∀ i, (if p + i < p + r.rangeText.length + 2 ∧ r.total = 0 then numberAt m top (p + i + 1) else r.total) =
        r.total := fun i => if_neg (by omega)
    simp only [hsize]
    refine Prod.ext ?_ ?_
    · dsimp only
      split <;> rfl
    · dsimp only
      congr 1
      omega

/-! ## The first segment -/

namespace Response

variable {r : Response}

theorem isLine_rangeLine (hw : r.WellFormed) : IsLine r.rangeLine := by
  have hname : ∀ b ∈ r.name, b ≠ 0 ∧ b ≠ 13 ∧ b ≠ 10 := by
    unfold name
    split <;> decide
  have hspace : ∀ b ∈ ascii " ", b ≠ 0 ∧ b ≠ 13 ∧ b ≠ 10 := by decide
  have hbytes : ∀ b ∈ ascii "bytes ", b ≠ 0 ∧ b ≠ 13 ∧ b ≠ 10 := by decide
  have hdash : ∀ b ∈ ascii "-", b ≠ 0 ∧ b ≠ 13 ∧ b ≠ 10 := by decide
  have hslash : ∀ b ∈ ascii "/", b ≠ 0 ∧ b ≠ 13 ∧ b ≠ 10 := by decide
  have hnum : ∀ {ds n}, IsNumber ds n → ∀ b ∈ ds, b ≠ 0 ∧ b ≠ 13 ∧ b ≠ 10 := fun h b hb =>
    ⟨(digit_ne (h.digits b hb)).1, (digit_ne (h.digits b hb)).2.2.1, (digit_ne (h.digits b hb)).2.1⟩
  have hall : ∀ b ∈ r.rangeLine, b ≠ 0 ∧ b ≠ 13 ∧ b ≠ 10 := by
    intro b hb
    simp only [rangeLine, rangeText, List.mem_append] at hb
    rcases hb with hb | hb | hb | hb | hb | hb | hb | hb
    · exact hname b hb
    · exact hspace b hb
    · exact hbytes b hb
    · exact hnum hw.first b hb
    · exact hdash b hb
    · exact hnum hw.last b hb
    · exact hslash b hb
    · exact hnum hw.total b hb
  refine ⟨fun h => ?_, fun h => (hall 0 h).1 rfl, fun h => (hall 13 h).2.1 rfl, fun h => (hall 10 h).2.2 rfl⟩
  have : ascii " " ≠ [] := by decide
  simp only [rangeLine, List.append_eq_nil_iff] at h
  exact this h.2.1

theorem isLine_statusLine (hw : r.WellFormed) : IsLine r.statusLine := by
  have hstatus : ∀ b ∈ ascii "HTTP/1.1 206", b ≠ 0 ∧ b ≠ 13 ∧ b ≠ 10 := by decide
  refine ⟨fun h => ?_, fun h => ?_, fun h => ?_, fun h => ?_⟩
  · have : ascii "HTTP/1.1 206" ≠ [] := by decide
    exact this (List.append_eq_nil_iff.1 h).1
  · exact (List.mem_append.1 h).elim (fun h => (hstatus 0 h).1 rfl) hw.reason.1
  · exact (List.mem_append.1 h).elim (fun h => (hstatus 13 h).2.1 rfl) hw.reason.2.1
  · exact (List.mem_append.1 h).elim (fun h => (hstatus 10 h).2.2 rfl) hw.reason.2.2

theorem isLine_lines (hw : r.WellFormed) : ∀ l ∈ r.lines, IsLine l := by
  intro l hl
  simp only [lines, List.cons_append, List.mem_cons, List.mem_append] at hl
  rcases hl with rfl | hl | rfl | hl
  · exact isLine_statusLine hw
  · exact hw.before l hl
  · exact isLine_rangeLine hw
  · exact hw.after l hl

theorem lines_ne_nil : r.lines ≠ [] := List.cons_ne_nil _ _

theorem zero_notMem_head (hw : r.WellFormed) : 0 ∉ r.head := by
  have hcrlf : (0 : UInt8) ∉ crlf := by decide
  intro h
  simp only [head, headOf, List.mem_append, List.mem_flatMap] at h
  rcases h with ⟨l, hl, h | h⟩ | h
  · exact (isLine_lines hw l hl).noZero h
  · exact hcrlf h
  · exact hcrlf h

theorem length_name : r.name.length = 14 := by
  unfold name
  split <;> rfl

/-- Where the text behind the name of the range starts. -/
def place (r : Response) : Nat := r.front.length + 14

theorem length_head : r.head.length = r.place + 1 + (r.rangeText ++ r.back).length := by
  rw [head_eq, rangeLine, place]
  simp only [List.length_append, length_name]
  have : (ascii " ").length = 1 := by decide
  omega

end Response

/-- The text `msgrecv` reads a header in: the buffer's, from its start. -/
def HttpOta.whole (h : HttpOta) (beyond : Nat) : List UInt8 := h.text beyond 0

/-- `msgrecv` looks for the range where it is. -/
def RangeFound (r : Response) (h : HttpOta) (beyond : Nat) : Prop :=
  fieldAt (h.whole beyond) 0 "Content-Range:" "content-range:" = some r.place

/-- With the whole header in the buffer, its text goes on behind it. -/
theorem whole_head (beyond : Nat) {r : Response} (hw : r.WellFormed) {h : HttpOta}
    (hm : h.buf.read 0 r.head.length = r.head) (hle : r.head.length ≤ bufSize) :
    h.whole beyond = r.head ++ h.text beyond r.head.length := by
  have := Mem.cstr_block (bufSize + beyond) hm (Response.zero_notMem_head hw) (by omega)
  rw [Nat.zero_add] at this
  exact this

theorem find_status {r : Response} (t : List UInt8) : find (ascii "HTTP/1.1 206") (r.head ++ t) = some 0 := by
  refine find_prefix ?_ ?_
  · rw [Response.head, Response.lines, List.cons_append, headOf_cons, Response.statusLine, List.append_assoc,
      List.append_assoc]
    exact List.prefix_append _ _
  · simp [Response.head, headOf, crlf]

/-- **A whole header is read right where the range is found.** -/
theorem parseHead_own {r : Response} (hw : r.WellFormed) {h : HttpOta} {beyond tot : Nat}
    (hm : h.buf.read 0 r.head.length = r.head) (hf : RangeFound r h beyond) (hhead : r.head.length ≤ tot)
    (htot : tot ≤ bufSize) :
    ∃ k, parseHead h beyond tot = some ({ h with contentLength := k, fileSize := r.total }, some r.head.length) := by
  have hle := r.length_head
  have hname := r.length_name
  have hshow : h.buf.read (r.place + 1) (r.rangeText ++ r.back).length = r.rangeText ++ r.back := by
    have h1 := hm
    have hsp : (ascii " ").length = 1 := by decide
    rw [Response.head_eq, Response.rangeLine, List.append_assoc, List.append_assoc] at h1
    have h2 := (Mem.read_append_iff.1 (Mem.read_append_iff.1 (Mem.read_append_iff.1 h1).2).2).2
    rw [hname, hsp, Nat.zero_add] at h2
    exact h2
  have hfield := rangeField_own (bufSize + beyond) tot h.fileSize hw hshow (by omega) (by omega)
  have hwhole := whole_head beyond hw hm (by omega)
  unfold parseHead
  dsimp only
  rw [show h.buf.cstr (bufSize + beyond) 0 = r.head ++ h.text beyond r.head.length from hwhole, find_status]
  dsimp only
  rw [← hwhole, show fieldAt (h.whole beyond) 0 "Content-Range:" "content-range:" = some r.place from hf]
  dsimp only
  rw [hfield, ← hle]
  exact ⟨_, rfl⟩

/-- Reading a header changes the sizes alone. -/
theorem parseHead_fst {h h' : HttpOta} {beyond tot : Nat} {o : Option Nat} (hp : parseHead h beyond tot = some (h', o)) :
    ∃ k n, h' = { h with contentLength := k, fileSize := n } := by
  unfold parseHead at hp
  dsimp only at hp
  split at hp
  · cases hp
  · split at hp
    · simp only [Option.some.injEq, Prod.mk.injEq] at hp
      exact ⟨_, _, hp.1.symm⟩
    · simp only [Option.some.injEq, Prod.mk.injEq] at hp
      exact ⟨_, _, hp.1.symm⟩

/-- Where a header ends there is a blank line, behind the place of the range if there is one. -/
theorem parseHead_blank {h h' : HttpOta} {beyond tot c : Nat} (hp : parseHead h beyond tot = some (h', some c)) :
    ∃ q, c = q + 4 ∧ q < tot ∧ blankAt h.buf q = true ∧
      ∀ f x, find (ascii "HTTP/1.1 206") (h.whole beyond) = some f →
        fieldAt (h.whole beyond) f "Content-Range:" "content-range:" = some x → x + 1 ≤ q := by
  unfold parseHead at hp
  dsimp only at hp
  cases hfind : find (ascii "HTTP/1.1 206") (h.buf.cstr (bufSize + beyond) 0) with
  | none => rw [hfind] at hp; cases hp
  | some f =>
    rw [hfind] at hp
    dsimp only at hp
    cases hfield : fieldAt (h.buf.cstr (bufSize + beyond) 0) f "Content-Range:" "content-range:" with
    | none =>
      rw [hfield] at hp
      simp only [Option.some.injEq, Prod.mk.injEq] at hp
      obtain ⟨rfl, hb⟩ := hp
      obtain ⟨q, h1, -, h3, h4⟩ := blankLoop_some hb
      refine ⟨q, h1, h3, h4, fun f' x hf' hx => ?_⟩
      have hff : some f = some f' := hfind.symm.trans hf'
      cases hff
      cases hfield.symm.trans hx
    | some x =>
      rw [hfield] at hp
      simp only [Option.some.injEq, Prod.mk.injEq] at hp
      obtain ⟨rfl, hb⟩ := hp
      have hq : ∃ q, c = q + 4 ∧ x + 1 ≤ q ∧ q < tot ∧ blankAt h.buf q = true := by
        unfold rangeField at hb
        dsimp only at hb
        split at hb
        · rename_i hr
          obtain ⟨q, h1, h2, h3, h4⟩ := rangeLoop_blank hr
          exact ⟨q, (Option.some.inj hb).symm.trans h1, h2, h3, h4⟩
        · obtain ⟨q, h1, h2, h3, h4⟩ := blankLoop_some hb
          exact ⟨q, h1, Nat.le_trans (rangeLoop_ge _ _ _) h2, h3, h4⟩
      obtain ⟨q, h1, h2, h3, h4⟩ := hq
      refine ⟨q, h1, h3, h4, fun f' x' hf' hx => ?_⟩
      have hff : some f = some f' := hfind.symm.trans hf'
      cases hff
      have hxx : some x = some x' := hfield.symm.trans hx
      cases hxx
      exact h2

/-- The state in which `msgrecv` reads a header: the segment lies at the start of the buffer. -/
def laid (s : Dev) (p : List UInt8) : HttpOta := { s.http with buf := s.http.buf.write 0 p }

theorem collect_start {s : Dev} {p : List UInt8} (h0 : s.http.recvOffset = 0) :
    collect s p = match parseHead (laid s p) s.beyond p.length with
      | none             => recvErr { s with http := laid s p }
      | some (h, some c) => takeBody s h c p.length
      | some (h, none)   => recvErr { s with http := h, netRecvErr := 0 } := by
  have hlaid : laid s p = { s.http with buf := s.http.buf.write s.http.recvOffset p } := by
    unfold laid
    rw [h0]
  unfold collect
  rw [hlaid]
  exact if_pos h0

/-- **A segment with the whole header and some of the body is taken for that part of the body.** -/
theorem collect_first {s : Dev} {r : Response} (hw : r.WellFormed) (h0 : s.http.recvOffset = 0) {b : List UInt8}
    (hfit : (r.head ++ b).length ≤ bufSize) (hf : RangeFound r (laid s (r.head ++ b)) s.beyond) :
    ∃ k m, collect s (r.head ++ b) =
        { s with
          http := { s.http with contentLength := k, fileSize := r.total, buf := m, recvOffset := b.length }
          netRecvErr := 0 } ∧
      m.read 0 b.length = b := by
  have hshow := Mem.read_write_self s.http.buf 0 (r.head ++ b)
  obtain ⟨hm, hbody⟩ := Mem.read_append_iff.1 hshow
  rw [Nat.zero_add] at hbody
  have hlen : (r.head ++ b).length = r.head.length + b.length := List.length_append
  obtain ⟨k, hk⟩ := parseHead_own hw (h := laid s (r.head ++ b)) hm hf (by omega) hfit
  rw [collect_start h0, hk]
  dsimp only
  unfold takeBody
  rw [if_neg (by omega), show (r.head ++ b).length - r.head.length = b.length by omega]
  dsimp only [laid]
  rw [hbody, h0, Nat.zero_add]
  refine ⟨k, _, rfl, ?_⟩
  rw [Mem.read_write_outside (by omega)]
  exact Mem.read_write_self _ _ _

theorem collect_more {s : Dev} {p : List UInt8} (h : s.http.recvOffset ≠ 0) :
    collect s p = { s with http := { s.http with
      buf := s.http.buf.write s.http.recvOffset p, recvOffset := s.http.recvOffset + p.length } } :=
  if_neg h

/-! ## What a segment leaves -/

/-- `msgrecv` after it has collected: it hands out and signals a complete window, and changes nothing else. -/
structure Handled (s d : Dev) : Prop where
  http       : d.http = s.http
  netRecvErr : d.netRecvErr = s.netRecvErr
  netOtaStop : d.netOtaStop = s.netOtaStop
  fault      : d.fault = s.fault
  task       : d.task = s.task
  pcbs       : d.pcbs = s.pcbs
  netLocal   : d.netLocal = s.netLocal
  readSem    : d.readSem = s.readSem + if s.fault = false ∧ complete s.http = true then 1 else 0

theorem msgrecv_handled (s : Dev) (p : List UInt8) : Handled (collected s p) (msgrecv s p).1 := by
  unfold msgrecv
  dsimp only
  by_cases hf : (collected s p).fault = true
  · rw [if_pos hf]
    exact ⟨rfl, rfl, rfl, rfl, rfl, rfl, rfl, by simp [hf]⟩
  rw [if_neg hf]
  by_cases hc : complete (collected s p).http = true
  · rw [if_pos hc]
    split
    · exact ⟨rfl, rfl, rfl, rfl, rfl, rfl, rfl, by simp [hf, hc]⟩
    · exact ⟨rfl, rfl, rfl, rfl, rfl, rfl, rfl, by simp [hf, hc]⟩
  · rw [if_neg hc]
    exact ⟨rfl, rfl, rfl, rfl, rfl, rfl, rfl, by simp [hc]⟩

theorem recvErr_offset_le (s : Dev) : (recvErr s).http.recvOffset ≤ s.http.recvOffset := by
  unfold recvErr
  dsimp only
  split
  · exact Nat.zero_le _
  · exact Nat.le_refl _

/-- No segment adds more than its length to what is collected, and one that is read for a header adds less. -/
theorem collected_offset_le (s : Dev) {p : List UInt8} (hne : p ≠ []) :
    (collected s p).http.recvOffset ≤ s.http.recvOffset + p.length ∧
      (s.http.recvOffset = 0 → (collected s p).http.recvOffset < p.length) := by
  have hpos := List.length_pos_iff.2 hne
  unfold collected
  split
  swap
  · exact ⟨by omega, fun h0 => by omega⟩
  by_cases h0 : s.http.recvOffset = 0
  · have hlt : (collect s p).http.recvOffset < p.length := by
      rw [collect_start h0]
      split
      · exact Nat.lt_of_le_of_lt (recvErr_offset_le _) (by show s.http.recvOffset < _; omega)
      · rename_i h' c hp
        obtain ⟨k, n, rfl⟩ := parseHead_fst hp
        obtain ⟨q, rfl, -⟩ := parseHead_blank hp
        unfold takeBody
        split
        · show s.http.recvOffset < _
          omega
        · show s.http.recvOffset + (p.length - (q + 4)) < _
          omega
      · rename_i h' hp
        obtain ⟨k, n, rfl⟩ := parseHead_fst hp
        exact Nat.lt_of_le_of_lt (recvErr_offset_le _) (by show s.http.recvOffset < _; omega)
    exact ⟨by omega, fun _ => hlt⟩
  · rw [collect_more h0]
    exact ⟨Nat.le_refl _, fun h => absurd h h0⟩

/-! ## Whole responses -/

def deliver (s : Dev) (segs : List (List UInt8)) : Dev := segs.foldl (fun s p => (msgrecv s p).1) s

/-- The segments are read as the response: the buffer holds its body and the size of its file, without an error, and the
reader is signalled once, by the last segment. -/
structure Parses (s : Dev) (r : Response) (segs : List (List UInt8)) : Prop where
  early      : ∀ j, j < segs.length → (deliver s (segs.take j)).readSem = s.readSem
  signal     : (deliver s segs).readSem = s.readSem + 1
  recvOffset : (deliver s segs).http.recvOffset = r.body.length
  body       : (deliver s segs).http.buf.read 0 r.body.length = r.body
  fileSize   : (deliver s segs).http.fileSize = r.total
  netRecvErr : (deliver s segs).netRecvErr = 0
  fault      : (deliver s segs).fault = false

/-- The device waits for the response to a request that the response fits. -/
structure Awaits (s : Dev) (r : Response) : Prop where
  recvOffset : s.http.recvOffset = 0
  fault      : s.fault = false
  rangeStart : s.http.rangeStart = r.first
  rangeEnd   : r.last < s.http.rangeEnd
  u32        : s.http.rangeEnd < 4294967296

/-- The response brings all of the range asked for, or all of the file. -/
def Whole (s : Dev) (r : Response) : Prop :=
  r.body.length = s.http.rangeEnd - s.http.rangeStart ∨ r.body.length = r.total

instance (s : Dev) (r : Response) : Decidable (Whole s r) := by unfold Whole; infer_instance

/-- The device after `k` bytes of the body, read right. -/
structure AtBody (s : Dev) (r : Response) (k : Nat) (d : Dev) : Prop where
  recvOffset : d.http.recvOffset = k
  buf        : d.http.buf.read 0 k = r.body.take k
  fileSize   : d.http.fileSize = r.total
  rangeStart : d.http.rangeStart = s.http.rangeStart
  rangeEnd   : d.http.rangeEnd = s.http.rangeEnd
  netRecvErr : d.netRecvErr = 0
  fault      : d.fault = false

/-- The window is complete with the last byte of the body, if the response brings all that was asked for, and not
before. -/
theorem complete_atBody {s d : Dev} {r : Response} (hw : r.WellFormed) (ha : Awaits s r) {k : Nat} (h : AtBody s r k d)
    (hk : 0 < k) (hkb : k ≤ r.body.length) : complete d.http = true ↔ k = r.body.length ∧ Whole s r := by
  have hrange := hw.range
  have hbody := hw.body
  have h1 := ha.rangeStart
  have h2 := ha.rangeEnd
  have h3 := ha.u32
  unfold complete Whole u32
  rw [h.recvOffset, h.fileSize, h.rangeStart, h.rangeEnd]
  simp only [Bool.and_eq_true, Bool.or_eq_true, decide_eq_true_eq, bne_iff_ne]
  omega

theorem atBody_first {s : Dev} {r : Response} (hw : r.WellFormed) (hfits : r.bytes.length ≤ bufSize) (ha : Awaits s r)
    {b : List UInt8} {n : Nat} (hb : b = r.body.take n) (hn : n ≤ r.body.length)
    (hf : RangeFound r (laid s (r.head ++ b)) s.beyond) : AtBody s r n (collected s (r.head ++ b)) := by
  have hlen : b.length = n := by rw [hb, List.length_take]; omega
  rw [Response.bytes, List.length_append] at hfits
  have hfit : (r.head ++ b).length ≤ bufSize := by rw [List.length_append]; omega
  obtain ⟨k, m, hc, hm⟩ := collect_first hw ha.recvOffset hfit hf
  unfold collected
  rw [ha.recvOffset, Nat.zero_add, if_pos hfit, hc]
  exact ⟨hlen, by rw [← hlen, hm, hb, List.length_take, Nat.min_eq_left hn], rfl, rfl, rfl, rfl, ha.fault⟩

theorem atBody_more {s d : Dev} {r : Response} (hfits : r.bytes.length ≤ bufSize) {k n : Nat} (h : AtBody s r k d)
    (hk : 0 < k) (hkn : k + n ≤ r.body.length) : AtBody s r (k + n) (collected d ((r.body.drop k).take n)) := by
  have hlen : ((r.body.drop k).take n).length = n := by rw [List.length_take, List.length_drop]; omega
  have hklen : (r.body.take k).length = k := by rw [List.length_take]; omega
  rw [Response.bytes, List.length_append] at hfits
  unfold collected
  rw [h.recvOffset, if_pos (by omega), collect_more (by rw [h.recvOffset]; omega)]
  refine ⟨by show d.http.recvOffset + _ = _; rw [h.recvOffset, hlen], ?_, h.fileSize, h.rangeStart, h.rangeEnd,
    h.netRecvErr, h.fault⟩
  dsimp only
  have hold : (d.http.buf.write d.http.recvOffset ((r.body.drop k).take n)).read 0 k = r.body.take k := by
    rw [Mem.read_write_outside (by rw [h.recvOffset]; omega), h.buf]
  have hnew := Mem.read_write_self d.http.buf d.http.recvOffset ((r.body.drop k).take n)
  rw [hlen, h.recvOffset] at hnew
  rw [Mem.read_add, Nat.zero_add, hold, h.recvOffset, hnew, List.take_add]

/-- `msgrecv` keeps what has been collected. -/
theorem AtBody.handled {s d d' : Dev} {r : Response} {k : Nat} (h : AtBody s r k d) (hd : Handled d d') :
    AtBody s r k d' := by
  obtain ⟨h1, h2, h3, h4, h5, h6, h7⟩ := h
  exact ⟨by rw [hd.http, h1], by rw [hd.http, h2], by rw [hd.http, h3], by rw [hd.http, h4], by rw [hd.http, h5],
    hd.netRecvErr.trans h6, hd.fault.trans h7⟩

/-- The signals of a segment that ends behind byte `k` of the body. -/
def signals (s : Dev) (r : Response) (k : Nat) : Nat := if k = r.body.length ∧ Whole s r then 1 else 0

theorem atBody_signals {s d d' : Dev} {r : Response} (hw : r.WellFormed) (ha : Awaits s r) {k : Nat}
    (h : AtBody s r k d) (hk : 0 < k) (hkb : k ≤ r.body.length) (hd : Handled d d') :
    d'.readSem = d.readSem + signals s r k := by
  rw [hd.readSem, signals]
  congr 1
  by_cases hc : k = r.body.length ∧ Whole s r
  · rw [if_pos hc, if_pos ⟨h.fault, (complete_atBody hw ha h hk hkb).2 hc⟩]
  · rw [if_neg hc, if_neg (fun hh => hc ((complete_atBody hw ha h hk hkb).1 hh.2))]

/-- What a run of segments does from byte `k` of the body on. -/
structure Follows (s : Dev) (r : Response) (d : Dev) (sem : Nat) (segs : List (List UInt8)) : Prop where
  early  : ∀ j, j < segs.length → (deliver d (segs.take j)).readSem = sem
  atBody : AtBody s r r.body.length (deliver d segs)
  signal : (deliver d segs).readSem = sem + signals s r r.body.length

/-- The last segment. -/
theorem Follows.last {s d : Dev} {r : Response} {p : List UInt8} (h : AtBody s r r.body.length (msgrecv d p).1)
    (hsem : (msgrecv d p).1.readSem = d.readSem + signals s r r.body.length) : Follows s r d d.readSem [p] where
  early  := fun j hj => by
    rw [Nat.lt_one_iff.1 hj]
    rfl
  atBody := h
  signal := hsem

/-- A segment before the others. -/
theorem Follows.cons {s d : Dev} {r : Response} {p : List UInt8} {segs : List (List UInt8)}
    (h : Follows s r (msgrecv d p).1 d.readSem segs) : Follows s r d d.readSem (p :: segs) where
  early  := fun j hj => by
    cases j with
    | zero   => rfl
    | succ j => exact h.early j (Nat.lt_of_succ_lt_succ hj)
  atBody := h.atBody
  signal := h.signal

theorem deliver_body {s : Dev} {r : Response} (hw : r.WellFormed) (hfits : r.bytes.length ≤ bufSize) (ha : Awaits s r) :
    ∀ (n : Nat) (ns : List Nat) (k : Nat) (d : Dev), AtBody s r k d → 0 < k → (∀ l ∈ n :: ns, 0 < l) →
      k + (n :: ns).sum = r.body.length → Follows s r d d.readSem (splitLens (n :: ns) (r.body.drop k))
  | n, ns, k, d, h, hk, hpos, hsum => by
    rw [List.sum_cons] at hsum
    have hn := hpos n (List.mem_cons_self ..)
    have hmore := atBody_more hfits h hk (n := n) (by omega)
    have hd := msgrecv_handled d ((r.body.drop k).take n)
    have hnext := hmore.handled hd
    have hold : (collected d ((r.body.drop k).take n)).readSem = d.readSem := by
      unfold collected
      split
      · rw [collect_more (by rw [h.recvOffset]; omega)]
      · rfl
    have hsem := atBody_signals hw ha hmore (by omega) (by omega) hd
    rw [hold] at hsem
    cases ns with
    | nil =>
      rw [List.sum_nil] at hsum
      have hend : k + n = r.body.length := by omega
      rw [hend] at hnext hsem
      exact .last hnext hsem
    | cons n' ns =>
      have hn' := hpos n' (by simp)
      rw [List.sum_cons] at hsum
      rw [signals, if_neg (by omega), Nat.add_zero] at hsem
      have hrest := deliver_body hw hfits ha n' ns (k + n) _ hnext (by omega)
        (fun l hl => hpos l (List.mem_cons_of_mem _ hl)) (by rw [List.sum_cons]; omega)
      rw [hsem, ← List.drop_drop] at hrest
      rw [splitLens]
      exact hrest.cons

/-- A first segment that is longer than the header. -/
theorem split_first {r : Response} {n : Nat} (hn : r.head.length ≤ n) :
    r.bytes.take n = r.head ++ r.body.take (n - r.head.length) ∧ r.bytes.drop n = r.body.drop (n - r.head.length) := by
  rw [Response.bytes]
  exact ⟨by rw [List.take_append, List.take_of_length_le hn],
    by rw [List.drop_append, List.drop_eq_nil_of_le hn, List.nil_append]⟩

/-- **A response whose header comes whole with some of the body** is collected right, and signalled with its last byte if
it brings all that was asked for. -/
theorem deliver_whole {s : Dev} {r : Response} (hw : r.WellFormed) (hfits : r.bytes.length ≤ bufSize) (ha : Awaits s r)
    {n : Nat} {ns : List Nat} (hpos : ∀ l ∈ n :: ns, 0 < l) (hsum : (n :: ns).sum = r.bytes.length) (hn : r.head.length < n)
    (hf : RangeFound r (laid s (r.bytes.take n)) s.beyond) :
    Follows s r s s.readSem (splitLens (n :: ns) r.bytes) := by
  obtain ⟨h1, h2⟩ := split_first (r := r) (Nat.le_of_lt hn)
  rw [List.sum_cons, Response.bytes, List.length_append] at hsum
  rw [h1] at hf
  have hfirst := atBody_first hw hfits ha rfl (by omega) hf
  have hd := msgrecv_handled s (r.head ++ r.body.take (n - r.head.length))
  have hnext := hfirst.handled hd
  have hsem := atBody_signals hw ha hfirst (by omega) (by omega) hd
  have hold : (collected s (r.head ++ r.body.take (n - r.head.length))).readSem = s.readSem := by
    rw [Response.bytes, List.length_append] at hfits
    have hfit : (r.head ++ r.body.take (n - r.head.length)).length ≤ bufSize := by
      rw [List.length_append, List.length_take]; omega
    obtain ⟨k, m, hc, -⟩ := collect_first hw ha.recvOffset hfit hf
    unfold collected
    rw [ha.recvOffset, Nat.zero_add, if_pos hfit, hc]
  rw [hold] at hsem
  rw [splitLens, h1, h2]
  cases ns with
  | nil =>
    rw [List.sum_nil] at hsum
    have hend : n - r.head.length = r.body.length := by omega
    rw [hend] at hnext hsem ⊢
    exact .last hnext hsem
  | cons n' ns =>
    have hn' := hpos n' (by simp)
    rw [List.sum_cons] at hsum
    rw [signals, if_neg (by omega), Nat.add_zero] at hsem
    have hrest := deliver_body hw hfits ha n' ns (n - r.head.length) _ hnext (by omega)
      (fun l hl => hpos l (List.mem_cons_of_mem _ hl)) (by rw [List.sum_cons]; omega)
    rw [hsem] at hrest
    exact hrest.cons

/-! ## Responses that are not read right -/

/-- What a segment read for a header does: it is an error, it is undefined, or some of it is taken for a body. -/
theorem collect_cases {s : Dev} {p : List UInt8} (h0 : s.http.recvOffset = 0) :
    ((collect s p).readSem = s.readSem + 1 ∧ (collect s p).http.recvOffset = 0) ∨ (collect s p).fault = true ∨
      ∃ q, q + 4 ≤ p.length ∧ blankAt (laid s p).buf q = true ∧
        (collect s p).http.recvOffset = p.length - (q + 4) ∧
        ∀ f x, find (ascii "HTTP/1.1 206") ((laid s p).whole s.beyond) = some f →
          fieldAt ((laid s p).whole s.beyond) f "Content-Range:" "content-range:" = some x → x + 1 ≤ q := by
  have herr : ∀ d : Dev, d.http.recvOffset = 0 → d.readSem = s.readSem →
      (recvErr d).readSem = s.readSem + 1 ∧ (recvErr d).http.recvOffset = 0 := fun d hd hs => by
    have hle := recvErr_offset_le d
    refine ⟨?_, by omega⟩
    unfold recvErr
    dsimp only
    split
    · exact congrArg (· + 1) hs
    · exact congrArg (· + 1) hs
  rw [collect_start h0]
  split
  · exact Or.inl (herr _ h0 rfl)
  · rename_i h' c hp
    obtain ⟨k, n, rfl⟩ := parseHead_fst hp
    obtain ⟨q, rfl, -, hb, hx⟩ := parseHead_blank hp
    unfold takeBody
    split
    · exact Or.inr (Or.inl rfl)
    · refine Or.inr (Or.inr ⟨q, by omega, hb, ?_, hx⟩)
      show s.http.recvOffset + _ = _
      omega
  · rename_i h' hp
    obtain ⟨k, n, rfl⟩ := parseHead_fst hp
    exact Or.inl (herr _ h0 rfl)

theorem collected_fault {s : Dev} (p : List UInt8) (hf : s.fault = true) : (collected s p).fault = true := by
  have herr : ∀ d : Dev, d.fault = true → (recvErr d).fault = true := fun d hd => by
    unfold recvErr
    dsimp only
    split
    · exact hd
    · exact hd
  unfold collected
  split
  swap
  · exact hf
  by_cases h0 : s.http.recvOffset = 0
  · rw [collect_start h0]
    split
    · exact herr _ hf
    · unfold takeBody
      split
      · rfl
      · exact hf
    · exact herr _ hf
  · rw [collect_more h0]
    exact hf

theorem deliver_fault : ∀ (segs : List (List UInt8)) {d : Dev}, d.fault = true → (deliver d segs).fault = true
  | [], _, h        => h
  | p :: segs, d, h => deliver_fault segs ((msgrecv_handled d p).fault.trans (collected_fault p h))

/-- Segments add no more than their bytes to what is collected, and less if the first is read for a header. -/
theorem deliver_offset_le : ∀ (lens : List Nat) (bs : List UInt8) (d : Dev), (∀ l ∈ lens, 0 < l) → lens.sum = bs.length →
    (deliver d (splitLens lens bs)).http.recvOffset ≤ d.http.recvOffset + bs.length ∧
      (d.http.recvOffset = 0 → bs ≠ [] → (deliver d (splitLens lens bs)).http.recvOffset < bs.length)
  | [], bs, d, _, hsum => by
    rw [List.sum_nil] at hsum
    exact ⟨Nat.le_add_right .., fun _ hne => absurd (List.length_eq_zero_iff.1 hsum.symm) hne⟩
  | n :: ns, bs, d, hpos, hsum => by
    rw [List.sum_cons] at hsum
    have hn := hpos n (List.mem_cons_self ..)
    have hlen : (bs.take n).length = n := by rw [List.length_take]; omega
    have hne : bs.take n ≠ [] := List.ne_nil_of_length_pos (by omega)
    obtain ⟨h1, h2⟩ := collected_offset_le d hne
    rw [← (msgrecv_handled d (bs.take n)).http] at h1 h2
    obtain ⟨h3, -⟩ := deliver_offset_le ns (bs.drop n) (msgrecv d (bs.take n)).1
      (fun l hl => hpos l (List.mem_cons_of_mem _ hl)) (by rw [List.length_drop]; omega)
    rw [List.length_drop] at h3
    rw [hlen] at h1 h2
    change (deliver d (splitLens (n :: ns) bs)).http.recvOffset ≤ _ at h3
    exact ⟨by omega, fun h0 _ => by have := h2 h0; omega⟩

/-- What the first segment of a response that is read right leaves. -/
theorem Parses.first {s : Dev} {r : Response} (hfits : r.bytes.length ≤ bufSize) (ha : Awaits s r) {n : Nat}
    {ns : List Nat} (hpos : ∀ l ∈ n :: ns, 0 < l) (hsum : (n :: ns).sum = r.bytes.length)
    (hp : Parses s r (splitLens (n :: ns) r.bytes)) :
    (collect s (r.bytes.take n)).fault = false ∧
      r.body.length ≤ (collect s (r.bytes.take n)).http.recvOffset + (r.bytes.length - n) ∧
      ((collect s (r.bytes.take n)).http.recvOffset = 0 → n < r.bytes.length → r.body.length < r.bytes.length - n) ∧
      (n < r.bytes.length → (collect s (r.bytes.take n)).readSem ≤ s.readSem) := by
  rw [List.sum_cons] at hsum
  have hd := msgrecv_handled s (r.bytes.take n)
  have hcol : collected s (r.bytes.take n) = collect s (r.bytes.take n) := by
    unfold collected
    rw [ha.recvOffset, List.length_take, if_pos (by omega)]
  rw [hcol] at hd
  have hlast : deliver s (splitLens (n :: ns) r.bytes) =
      deliver (msgrecv s (r.bytes.take n)).1 (splitLens ns (r.bytes.drop n)) := rfl
  have hfault := hp.fault
  have hoff := hp.recvOffset
  rw [hlast] at hfault hoff
  obtain ⟨h1, h2⟩ := deliver_offset_le ns (r.bytes.drop n) (msgrecv s (r.bytes.take n)).1
    (fun l hl => hpos l (List.mem_cons_of_mem _ hl)) (by rw [List.length_drop]; omega)
  rw [hoff, hd.http, List.length_drop] at h1 h2
  refine ⟨?_, h1, fun h0 hn => h2 h0 (List.ne_nil_of_length_pos (by rw [List.length_drop]; omega)), fun hn => ?_⟩
  · by_contra hf
    have hf' : (collect s (r.bytes.take n)).fault = true := by simpa using hf
    rw [deliver_fault _ (hd.fault.trans hf')] at hfault
    cases hfault
  · -- the first segment is not the last
    have hne : ns ≠ [] := fun hnil => by rw [hnil, List.sum_nil] at hsum; omega
    have hearly : (msgrecv s (r.bytes.take n)).1.readSem = s.readSem := hp.early 1 (by
      rw [length_splitLens, List.length_cons]
      have := List.length_pos_iff.2 hne
      omega)
    rw [hd.readSem] at hearly
    omega

/-- **A first segment with no byte of the body is not read right.** -/
theorem not_parses_short {s : Dev} {r : Response} (hw : r.WellFormed) (hfits : r.bytes.length ≤ bufSize)
    (ha : Awaits s r) {n : Nat} {ns : List Nat} (hpos : ∀ l ∈ n :: ns, 0 < l) (hsum : (n :: ns).sum = r.bytes.length)
    (hn : n ≤ r.head.length) : ¬ Parses s r (splitLens (n :: ns) r.bytes) := by
  intro hp
  have hbody := hw.body
  have hlen : r.bytes.length = r.head.length + r.body.length := by rw [Response.bytes, List.length_append]
  have htake : r.bytes.take n = r.head.take n := by
    rw [Response.bytes, List.take_append_of_le_length hn]
  have htlen : (r.bytes.take n).length = n := by rw [List.length_take]; omega
  obtain ⟨hfault, -, hzero, hsem⟩ := hp.first hfits ha hpos hsum
  rcases collect_cases ha.recvOffset (p := r.bytes.take n) with ⟨hone, h0⟩ | hf | ⟨q, hq, hb, h0, -⟩
  · have := hsem (by omega)
    omega
  · rw [hf] at hfault
    cases hfault
  · -- the blank line is the header's, so nothing is collected
    have hshow : (laid s (r.bytes.take n)).buf.read 0 (r.bytes.take n).length = r.bytes.take n :=
      Mem.read_write_self s.http.buf 0 (r.bytes.take n)
    rw [show q = 0 + q by omega, blankAt_shown hshow hq, htake] at hb
    rw [htlen] at hq h0
    have hget : ∀ j, j < n → (r.head.take n)[j]? = r.head[j]? := fun j hj => List.getElem?_take_of_lt hj
    have hq4 : q + 4 = r.head.length := by
      refine (blank_headOf Response.lines_ne_nil (Response.isLine_lines hw) q).1 ?_
      unfold BlankIn at hb
      rw [hget q (by omega), hget (q + 1) (by omega), hget (q + 2) (by omega), hget (q + 3) (by omega)] at hb
      exact hb
    have := hzero (by omega) (by omega)
    omega

/-- The name of the range stands nowhere else in the header, in either spelling. -/
def NamedOnce (r : Response) : Prop :=
  ∀ j, ascii "Content-Range:" <+: r.head.drop j ∨ ascii "content-range:" <+: r.head.drop j → j = r.front.length

theorem name_prefix (r : Response) : r.name <+: r.head.drop r.front.length := by
  rw [Response.head_eq, List.drop_left, Response.rangeLine, List.append_assoc]
  exact List.prefix_append _ _

/-- **A header that names the range once** is read there, unless the lower spelling stands in it and the upper one is
found behind it. -/
theorem field_of_namedOnce {r : Response} (ho : NamedOnce r) (t : List UInt8) :
    fieldAt (r.head ++ t) 0 "Content-Range:" "content-range:" = some r.place ∨
      ∃ x, fieldAt (r.head ++ t) 0 "Content-Range:" "content-range:" = some x ∧ r.head.length < x := by
  have hlu : (ascii "Content-Range:").length = 14 := by decide
  have hll : (ascii "content-range:").length = 14 := by decide
  have hname := name_prefix r
  have hplace : r.front.length + 14 ≤ r.head.length := by
    rw [Response.length_head, Response.place]; omega
  have hdrop : (r.head ++ t).drop 0 = r.head ++ t := rfl
  unfold fieldAt
  rw [hdrop, hlu]
  cases hu : find (ascii "Content-Range:") (r.head ++ t) with
  | some i =>
    obtain ⟨h1, h2, h3⟩ := find_some hu
    by_cases hi : i + 14 ≤ r.head.length
    · have := ho i (Or.inl ((prefix_drop_append (by omega)).1 h1))
      refine Or.inl (congrArg some ?_)
      rw [Response.place]
      omega
    · exact Or.inr ⟨0 + i + 14, rfl, by omega⟩
  | none =>
    left
    have hlow : r.name = ascii "content-range:" := by
      unfold Response.name
      by_cases hl : r.lower = true
      · rw [if_pos hl]
      · have hn : r.name = ascii "Content-Range:" := by rw [Response.name, if_neg hl]
        rw [hn] at hname
        exact absurd ((prefix_drop_append (by omega)).2 hname)
          (find_none hu _ (by rw [List.length_append]; omega))
    rw [hlow] at hname
    have hfind : find (ascii "content-range:") (r.head ++ t) = some r.front.length := by
      refine find_eq_some ((prefix_drop_append (by omega)).2 hname) (by rw [List.length_append]; omega) (fun j hj hp => ?_)
      have := ho j (Or.inr ((prefix_drop_append (by omega)).1 hp))
      omega
    dsimp only
    rw [hfind, Option.map_some, Response.place, Nat.zero_add]

/-- In the upper spelling it is enough that the header names the range first where it is. -/
theorem rangeFound_upper (beyond : Nat) {r : Response} (hw : r.WellFormed) {h : HttpOta}
    (hm : h.buf.read 0 r.head.length = r.head) (hle : r.head.length ≤ bufSize)
    (hfind : find (ascii "Content-Range:") r.head = some r.front.length) : RangeFound r h beyond := by
  have hlu : (ascii "Content-Range:").length = 14 := by decide
  have hdrop : (r.head ++ h.text beyond r.head.length).drop 0 = r.head ++ h.text beyond r.head.length := rfl
  unfold RangeFound fieldAt
  rw [whole_head beyond hw hm hle, hdrop, find_append hfind, hlu]
  dsimp only
  rw [Response.place, Nat.zero_add]

/-- **A response in whose body the range is found is not read right.** -/
theorem not_parses_strayed {s : Dev} {r : Response} (hw : r.WellFormed) (hfits : r.bytes.length ≤ bufSize)
    (ha : Awaits s r) {n : Nat} {ns : List Nat} (hpos : ∀ l ∈ n :: ns, 0 < l) (hsum : (n :: ns).sum = r.bytes.length)
    (hn : r.head.length < n) (ho : NamedOnce r) (hf : ¬ RangeFound r (laid s (r.bytes.take n)) s.beyond) :
    ¬ Parses s r (splitLens (n :: ns) r.bytes) := by
  intro hp
  obtain ⟨hfault, hle, -, -⟩ := hp.first hfits ha hpos hsum
  have hbody := hw.body
  rw [List.sum_cons] at hsum
  have hlen : r.bytes.length = r.head.length + r.body.length := by rw [Response.bytes, List.length_append]
  have htlen : (r.bytes.take n).length = n := by rw [List.length_take]; omega
  have hhead : (laid s (r.bytes.take n)).buf.read 0 r.head.length = r.head := by
    have hshow := Mem.read_write_self s.http.buf 0 (r.bytes.take n)
    rw [(split_first (Nat.le_of_lt hn)).1] at hshow ⊢
    exact (Mem.read_append_iff.1 hshow).1
  have hwhole := whole_head s.beyond hw hhead (by omega)
  rcases collect_cases ha.recvOffset (p := r.bytes.take n) with ⟨-, h0⟩ | hf' | ⟨q, hq, -, h0, hx⟩
  · omega
  · rw [hf'] at hfault
    cases hfault
  · rcases field_of_namedOnce ho ((laid s (r.bytes.take n)).text s.beyond r.head.length) with h | ⟨x, hxx, hgt⟩
    · exact hf (by rw [RangeFound, hwhole]; exact h)
    · rw [hwhole] at hx
      have := hx 0 x (find_status _) hxx
      omega

/-! ## Exactly -/

/-- The first segment has the whole header and some of the body, the range is found in its own line, and the response
brings all of the range asked for, or all of the file. -/
def ReadsRight (s : Dev) (r : Response) (lens : List Nat) : Prop :=
  r.head.length < lens.headD 0 ∧ RangeFound r (laid s (r.bytes.take (lens.headD 0))) s.beyond ∧ Whole s r

/-- **How a response is cut does not matter if its first segment has the whole header and some of the body**, and it
matters otherwise. -/
theorem msgrecv_parses_iff {s : Dev} {r : Response} (hw : r.WellFormed) (hfits : r.bytes.length ≤ bufSize)
    (ha : Awaits s r) {lens : List Nat} (hpos : ∀ l ∈ lens, 0 < l) (hsum : lens.sum = r.bytes.length) :
    (ReadsRight s r lens → Parses s r (splitLens lens r.bytes)) ∧
      (NamedOnce r → Parses s r (splitLens lens r.bytes) → ReadsRight s r lens) := by
  have hbody := hw.body
  have hbytes : 0 < r.bytes.length := by rw [Response.bytes, List.length_append]; omega
  cases lens with
  | nil =>
    rw [List.sum_nil] at hsum
    omega
  | cons n ns =>
    constructor
    · rintro ⟨hn, hf, hwhole⟩
      obtain ⟨h1, h2, h3⟩ := deliver_whole hw hfits ha hpos hsum hn hf
      rw [signals, if_pos ⟨rfl, hwhole⟩] at h3
      refine ⟨h1, h3, h2.recvOffset, ?_, h2.fileSize, h2.netRecvErr, h2.fault⟩
      rw [h2.buf, List.take_length]
    · intro ho hp
      have hn : r.head.length < n := by
        by_contra hn
        exact not_parses_short hw hfits ha hpos hsum (by omega) hp
      have hf : RangeFound r (laid s (r.bytes.take n)) s.beyond := by
        by_contra hf
        exact not_parses_strayed hw hfits ha hpos hsum hn ho hf hp
      refine ⟨hn, hf, ?_⟩
      by_contra hwhole
      have h3 := (deliver_whole hw hfits ha hpos hsum hn hf).signal
      rw [signals, if_neg (fun h => hwhole h.2), hp.signal] at h3
      omega

/-- The response that brings a file of one byte. -/
def oneByte : Response where
  reason := ascii " Partial Content"
  before := [ascii "Content-Length: 1"]
  lower := false
  firstText := ascii "0"
  lastText := ascii "0"
  totalText := ascii "1"
  after := [ascii "Connection: close"]
  body := [7]
  first := 0
  last := 0
  total := 1

theorem oneByte_wellFormed : oneByte.WellFormed where
  reason := by decide
  before := fun l hl => by
    rw [List.mem_singleton.1 hl]
    exact ⟨by decide, by decide, by decide, by decide⟩
  after := fun l hl => by
    rw [List.mem_singleton.1 hl]
    exact ⟨by decide, by decide, by decide, by decide⟩
  first := ⟨by decide, by decide, by decide⟩
  last := ⟨by decide, by decide, by decide⟩
  total := ⟨by decide, by decide, by decide⟩
  range := by decide
  body := by decide

/-- The device behind its first request. -/
def asked : Dev :=
  let s := fresh [] (fun _ => 0) 0 (fun _ => 0) (fun _ => 0)
  { s with http := { s.http with rangeEnd := bufSize } }

theorem asked_awaits : Awaits asked oneByte := ⟨rfl, rfl, rfl, by decide, by decide⟩

def twoBytes : Response :=
  { oneByte with
    before := [ascii "Content-Length: 2"], lastText := ascii "1", totalText := ascii "2", body := [7, 8], last := 1,
    total := 2 }

theorem twoBytes_wellFormed : twoBytes.WellFormed where
  reason := by decide
  before := fun l hl => by
    rw [List.mem_singleton.1 hl]
    exact ⟨by decide, by decide, by decide, by decide⟩
  after := oneByte_wellFormed.after
  first := ⟨by decide, by decide, by decide⟩
  last := ⟨by decide, by decide, by decide⟩
  total := ⟨by decide, by decide, by decide⟩
  range := by decide
  body := by decide

theorem twoBytes_namedOnce : NamedOnce twoBytes := by
  have hin : ∀ j, j < twoBytes.head.length →
      ascii "Content-Range:" <+: twoBytes.head.drop j ∨ ascii "content-range:" <+: twoBytes.head.drop j →
        j = twoBytes.front.length := by decide
  intro j hj
  by_cases hlt : j < twoBytes.head.length
  · exact hin j hlt hj
  · rw [List.drop_eq_nil_of_le (by omega), List.prefix_nil, List.prefix_nil] at hj
    exact absurd hj (by decide)

/-- The header and the first byte in one segment, the second byte in the next. -/
theorem parses_twoBytes :
    Parses asked twoBytes (splitLens [twoBytes.head.length + 1, 1] twoBytes.bytes) ∧ NamedOnce twoBytes := by
  refine ⟨(msgrecv_parses_iff twoBytes_wellFormed (by decide) ⟨rfl, rfl, rfl, by decide, by decide⟩ (by decide)
    (by decide)).1 ⟨by decide, ?_, by decide⟩, twoBytes_namedOnce⟩
  refine rangeFound_upper 0 twoBytes_wellFormed ?_ (by decide) (by decide)
  have hshow := Mem.read_write_self asked.http.buf 0 (twoBytes.bytes.take (twoBytes.head.length + 1))
  rw [List.headD_cons]
  rw [(split_first (Nat.le_succ _)).1] at hshow ⊢
  exact (Mem.read_append_iff.1 hshow).1

/-- **The header in one segment and the body in the next** is not read right. -/
theorem not_parses_oneByte :
    ¬ Parses asked oneByte (splitLens [oneByte.head.length, oneByte.body.length] oneByte.bytes) :=
  not_parses_short oneByte_wellFormed (by decide) asked_awaits (by decide) (by decide) (Nat.le_refl _)

end Sta
end OtaLoader
