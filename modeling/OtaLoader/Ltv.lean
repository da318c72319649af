import Mathlib.Algebra.GroupWithZero.Nat
import OtaLoader.Mem
/-!
# Ltv — attributes as length-type-value items (`ltv_format.c`)

`ltv_attr_total_len_get` adds up the sizes of the attributes a mask asks for, `ltv_attr_fill` writes them one after the
other, each behind a byte that counts its type and data.
-/
namespace OtaLoader
namespace Ltv

/-! ## Items and their bytes -/

abbrev Item := UInt8 × List UInt8

def encodeItem (it : Item) : List UInt8 := UInt8.ofNat (it.2.length + 1) :: it.1 :: it.2

def encode (items : List Item) : List UInt8 := items.flatMap encodeItem

/-- Reads items up to the end of the bytes.  A length counts the type, so it is not 0. -/
def decode : List UInt8 → Option (List Item)
  | []             => some []
  | [_]            => none
  | l :: t :: rest =>
    if l.toNat = 0 ∨ rest.length < l.toNat - 1 then none
    else (decode (rest.drop (l.toNat - 1))).map ((t, rest.take (l.toNat - 1)) :: ·)
termination_by bs => bs.length
decreasing_by
  rw [List.length_drop, List.length_cons, List.length_cons]
  omega

/-- What one length byte can count. -/
def Short (it : Item) : Prop := it.2.length ≤ 254

theorem toNat_ofNat_length {it : Item} (h : Short it) : (UInt8.ofNat (it.2.length + 1)).toNat = it.2.length + 1 :=
  UInt8.toNat_ofNat_of_lt (Nat.lt_of_le_of_lt (Nat.succ_le_succ h) (by decide))

theorem decode_encode : ∀ {items : List Item}, (∀ it ∈ items, Short it) → decode (encode items) = some items
  | [], _ => by rw [encode, List.flatMap_nil, decode]
  | it :: items, h => by
    have hlen := toNat_ofNat_length (h it (List.mem_cons_self ..))
    have ih := decode_encode (fun x hx => h x (List.mem_cons_of_mem it hx))
    have hcons : encode (it :: items) = UInt8.ofNat (it.2.length + 1) :: it.1 :: (it.2 ++ encode items) := rfl
    rw [hcons, decode, if_neg (by rw [hlen, List.length_append]; omega), hlen, Nat.add_sub_cancel, List.drop_left,
      List.take_left, ih]
    rfl

/-- **Only encodings are read**: the bytes of items whose lengths fit in a byte. -/
theorem decode_eq_some {bs : List UInt8} {items : List Item} (h : decode bs = some items) :
    bs = encode items ∧ ∀ it ∈ items, Short it := by
  fun_induction decode bs generalizing items with
  | case1 =>
    cases h
    exact ⟨rfl, fun _ hm => (nomatch hm)⟩
  | case2 => cases h
  | case3 => cases h
  | case4 l t rest hl ih =>
    obtain ⟨items', hrest, rfl⟩ := Option.map_eq_some_iff.1 h
    obtain ⟨henc, hshort⟩ := ih hrest
    rw [not_or, Nat.not_lt] at hl
    have hlt := l.toNat_lt
    have hd : (rest.take (l.toNat - 1)).length = l.toNat - 1 := by rw [List.length_take]; omega
    refine ⟨?_, fun it hm => ?_⟩
    · have hone : l.toNat - 1 + 1 = l.toNat := by omega
      have hitem : encodeItem (t, rest.take (l.toNat - 1)) = l :: t :: rest.take (l.toNat - 1) := by
        rw [encodeItem, hd, hone, UInt8.ofNat_toNat]
      rw [encode, List.flatMap_cons, hitem, ← encode, ← henc, List.cons_append, List.cons_append,
        List.take_append_drop]
    · rcases List.mem_cons.1 hm with rfl | hm
      · rw [Short, hd]
        omega
      · exact hshort it hm

/-! ## The code -/

/-- `LTV_ATTR_GET`: `get_size` returns a constant, `get_data` a pointer to bytes. -/
structure AttrGet where
  type    : UInt8
  getSize : Option UInt8
  getData : Option Mem

def getAttrPtrByType (type : UInt8) (attrPtr : List AttrGet) (attrItemMax : UInt8) : Option AttrGet :=
  (attrPtr.take attrItemMax.toNat).find? (·.type == type)

section Code

variable (mask : Nat) (attrPtr : List AttrGet) (attrMax : UInt8)

/-- What one bit adds to the total. -/
def sizeOf (i : Nat) : Nat :=
  if mask.testBit i then
    match (getAttrPtrByType (UInt8.ofNat i) attrPtr attrMax).bind AttrGet.getSize with
    | some size => size.toNat + 2
    | none      => 0
  else 0

def ltvAttrTotalLenGet : Nat :=
  if mask = 0 then 0 else (List.range 32).foldl (fun len i => len + sizeOf mask attrPtr attrMax i) 0

/-- One round of `ltv_attr_fill`: the offset of `ptr` in the buffer, and the buffer. -/
def fillRound (s : Nat × Mem) (i : Nat) : Nat × Mem :=
  if mask.testBit i then
    match getAttrPtrByType (UInt8.ofNat i) attrPtr attrMax with
    | some ⟨_, some size, some data⟩ =>
      let buf := s.2.write s.1 [size + 1]
      let buf := buf.write (s.1 + 1) [UInt8.ofNat i]
      let buf := buf.write (s.1 + 2) (data.read 0 size.toNat)
      (s.1 + (buf s.1).toNat + 1, buf)
    | _ => s
  else s

/-- `ltv_attr_fill`: the buffer and the value returned. -/
def ltvAttrFill (fillBuf : Option Mem) : Option Mem × Bool :=
  match fillBuf with
  | none     => (none, false)
  | some buf => (some ((List.range 32).foldl (fillRound mask attrPtr attrMax) (0, buf)).2, true)

/-! ## What the two passes agree on -/

/-- The item of one bit: the mask asks for it and its first entry has a size and data. -/
def item? (i : Nat) : Option Item :=
  if mask.testBit i then
    match getAttrPtrByType (UInt8.ofNat i) attrPtr attrMax with
    | some ⟨_, some size, some data⟩ => some (UInt8.ofNat i, data.read 0 size.toNat)
    | _ => none
  else none

/-- The items in ascending order of type. -/
def items : List Item := (List.range 32).filterMap (item? mask attrPtr attrMax)

/-- The fill writes exactly the bytes of the total, and they read back as the items. -/
def Agree : Prop :=
  ∃ bs, bs.length = ltvAttrTotalLenGet mask attrPtr attrMax ∧
    (∀ buf, ltvAttrFill mask attrPtr attrMax (some buf) = (some (buf.write 0 bs), true)) ∧
    decode bs = some (items mask attrPtr attrMax)

/-- An entry that is asked for and has a size has data, and its size is not 255. -/
def Complete : Prop :=
  ∀ i, i < 32 → mask.testBit i = true → ∀ a, getAttrPtrByType (UInt8.ofNat i) attrPtr attrMax = some a →
    ∀ size, a.getSize = some size → a.getData ≠ none ∧ size ≠ 255

variable {mask attrPtr attrMax}

/-! ## The length pass -/

theorem foldl_add {f : Nat → Nat} : ∀ (is : List Nat) (n : Nat),
    is.foldl (fun len i => len + f i) n = n + (is.map f).sum
  | [], _      => rfl
  | i :: is, n => by rw [List.foldl_cons, foldl_add is, List.map_cons, List.sum_cons, Nat.add_assoc]

theorem ltvAttrTotalLenGet_eq :
    ltvAttrTotalLenGet mask attrPtr attrMax = ((List.range 32).map (sizeOf mask attrPtr attrMax)).sum := by
  unfold ltvAttrTotalLenGet
  split
  · rename_i h0
    have hz : ∀ i, sizeOf mask attrPtr attrMax i = 0 := fun i => by simp [sizeOf, h0]
    rw [funext hz]
    rfl
  · rw [foldl_add, Nat.zero_add]

/-- Bytes of an item, 0 for none. -/
def bytesOf (it : Option Item) : Nat := (it.map (fun it => it.2.length + 2)).getD 0

theorem length_encode (f : Nat → Option Item) : ∀ (is : List Nat),
    (encode (is.filterMap f)).length = (is.map (fun i => bytesOf (f i))).sum
  | []      => rfl
  | i :: is => by
    have ih := length_encode f is
    rw [List.map_cons, List.sum_cons, ← ih]
    cases h : f i with
    | none    => rw [List.filterMap_cons_none h, bytesOf, Option.map_none, Option.getD_none, Nat.zero_add]
    | some it =>
      rw [List.filterMap_cons_some h, encode, List.flatMap_cons, List.length_append, ← encode]
      rfl

theorem bytesOf_le (i : Nat) : bytesOf (item? mask attrPtr attrMax i) ≤ sizeOf mask attrPtr attrMax i := by
  unfold item? sizeOf
  split
  · rcases getAttrPtrByType (UInt8.ofNat i) attrPtr attrMax with _ | ⟨_, _ | size, _ | data⟩ <;> simp [bytesOf]
  · exact Nat.le_refl 0

/-- The passes agree on a bit whose entry has data with its size. -/
theorem bytesOf_eq_iff (i : Nat) : bytesOf (item? mask attrPtr attrMax i) = sizeOf mask attrPtr attrMax i ↔
    (mask.testBit i = true → ∀ a, getAttrPtrByType (UInt8.ofNat i) attrPtr attrMax = some a →
      ∀ size, a.getSize = some size → a.getData ≠ none) := by
  unfold item? sizeOf
  split
  · rename_i hb
    rcases getAttrPtrByType (UInt8.ofNat i) attrPtr attrMax with _ | ⟨_, _ | size, _ | data⟩ <;> simp [bytesOf, hb]
  · rename_i hb
    exact iff_of_true rfl (fun h => absurd h hb)

theorem sum_eq_forall {f g : Nat → Nat} (h : ∀ i, f i ≤ g i) : ∀ (is : List Nat),
    (is.map f).sum ≤ (is.map g).sum ∧ ((is.map f).sum = (is.map g).sum ↔ ∀ i ∈ is, f i = g i)
  | []      => ⟨Nat.le_refl 0, iff_of_true rfl (fun _ hm => (nomatch hm))⟩
  | i :: is => by
    obtain ⟨hle, hiff⟩ := sum_eq_forall h is
    have hi := h i
    simp only [List.map_cons, List.sum_cons, List.forall_mem_cons, ← hiff]
    omega

/-- **The total is the length of the encoded items** when every size comes with data. -/
theorem length_items_iff : (encode (items mask attrPtr attrMax)).length = ltvAttrTotalLenGet mask attrPtr attrMax ↔
    ∀ i ∈ List.range 32, bytesOf (item? mask attrPtr attrMax i) = sizeOf mask attrPtr attrMax i := by
  rw [ltvAttrTotalLenGet_eq, items, length_encode]
  exact (sum_eq_forall bytesOf_le (List.range 32)).2

/-! ## The fill pass -/

theorem item?_eq_some {i : Nat} {it : Item} (h : item? mask attrPtr attrMax i = some it) :
    mask.testBit i = true ∧ ∃ type size data,
      getAttrPtrByType (UInt8.ofNat i) attrPtr attrMax = some ⟨type, some size, some data⟩ ∧
        it = (UInt8.ofNat i, data.read 0 size.toNat) := by
  unfold item? at h
  split at h
  · rename_i hb
    split at h
    · rename_i type size data ha
      cases h
      exact ⟨hb, type, size, data, ha, rfl⟩
    · cases h
  · cases h

theorem fillRound_none {i : Nat} (h : item? mask attrPtr attrMax i = none) (s : Nat × Mem) :
    fillRound mask attrPtr attrMax s i = s := by
  unfold item? at h
  unfold fillRound
  split
  · rename_i hb
    rw [if_pos hb] at h
    split
    · rename_i ha
      rw [ha] at h
      cases h
    · rfl
  · rfl

/-- A round writes the item and moves `ptr` behind it, when its length byte does not wrap. -/
theorem fillRound_some {i : Nat} {it : Item} (h : item? mask attrPtr attrMax i = some it) (hs : Short it)
    (s : Nat × Mem) :
    fillRound mask attrPtr attrMax s i = (s.1 + (encodeItem it).length, s.2.write s.1 (encodeItem it)) := by
  obtain ⟨hb, type, size, data, ha, rfl⟩ := item?_eq_some h
  have hlen : (data.read 0 size.toNat).length = size.toNat := Mem.length_read ..
  have hsize : size + 1 = UInt8.ofNat (size.toNat + 1) := by
    rw [UInt8.ofNat_add, UInt8.ofNat_toNat]
    rfl
  have hwrite : ((s.2.write s.1 [size + 1]).write (s.1 + 1) [UInt8.ofNat i]).write (s.1 + 2)
      (data.read 0 size.toNat) = s.2.write s.1 (encodeItem (UInt8.ofNat i, data.read 0 size.toNat)) := by
    have hsizeByte := Mem.write_append s.2 s.1 [size + 1] (UInt8.ofNat i :: data.read 0 size.toNat)
    have htypeByte := Mem.write_append (s.2.write s.1 [size + 1]) (s.1 + 1) [UInt8.ofNat i] (data.read 0 size.toNat)
    rw [encodeItem, hlen, ← hsize]
    exact (hsizeByte.trans htypeByte).symm
  have hhead : s.2.write s.1 (encodeItem (UInt8.ofNat i, data.read 0 size.toNat)) s.1 = size + 1 := by
    rw [Mem.write_inside' (Nat.le_refl _) (by simp [encodeItem])]
    simp only [Nat.sub_self, encodeItem, hlen, List.getElem_cons_zero, hsize]
  have hto : (size + 1).toNat = size.toNat + 1 := by
    have := toNat_ofNat_length hs
    rwa [hlen, ← hsize] at this
  unfold fillRound
  rw [if_pos hb, ha]
  dsimp only
  rw [hwrite, hhead, hto, encodeItem, List.length_cons, List.length_cons, hlen, Nat.add_assoc]

/-- **The fill is the encoding of the items**, when their length bytes do not wrap. -/
theorem foldl_fillRound : ∀ (is : List Nat) (s : Nat × Mem),
    (∀ it ∈ is.filterMap (item? mask attrPtr attrMax), Short it) →
      is.foldl (fillRound mask attrPtr attrMax) s =
        (s.1 + (encode (is.filterMap (item? mask attrPtr attrMax))).length,
          s.2.write s.1 (encode (is.filterMap (item? mask attrPtr attrMax))))
  | [], s, _      => by simp [encode]
  | i :: is, s, h => by
    cases hi : item? mask attrPtr attrMax i with
    | none =>
      rw [List.filterMap_cons_none hi] at h ⊢
      rw [List.foldl_cons, fillRound_none hi, foldl_fillRound is s h]
    | some it =>
      rw [List.filterMap_cons_some hi] at h ⊢
      rw [List.foldl_cons, fillRound_some hi (h it (List.mem_cons_self ..)),
        foldl_fillRound is _ (fun x hx => h x (List.mem_cons_of_mem it hx)), encode, encode, List.flatMap_cons,
        Mem.write_append, List.length_append, Nat.add_assoc]

theorem complete_iff : Complete mask attrPtr attrMax ↔
    (∀ i ∈ List.range 32, bytesOf (item? mask attrPtr attrMax i) = sizeOf mask attrPtr attrMax i) ∧
      ∀ it ∈ items mask attrPtr attrMax, Short it := by
  have hshort : ∀ {data : Mem} {size : UInt8} {i : Nat},
      Short (UInt8.ofNat i, data.read 0 size.toNat) ↔ size ≠ 255 := by
    intro data size i
    have hlt := size.toNat_lt
    have h255 : size ≠ 255 ↔ size.toNat ≠ 255 := not_congr UInt8.toNat_inj.symm
    rw [Short, Mem.length_read, h255]
    omega
  constructor
  · intro h
    refine ⟨fun i hi => (bytesOf_eq_iff i).2 (fun hb a ha size hs => (h i (List.mem_range.1 hi) hb a ha size hs).1),
      fun it hit => ?_⟩
    obtain ⟨i, hi, hsome⟩ := List.mem_filterMap.1 hit
    obtain ⟨hb, type, size, data, ha, rfl⟩ := item?_eq_some hsome
    exact hshort.2 (h i (List.mem_range.1 hi) hb _ ha size rfl).2
  · rintro ⟨heq, hs⟩ i hi hb ⟨type, getSize, getData⟩ ha size hsize
    have hdata := (bytesOf_eq_iff i).1 (heq i (List.mem_range.2 hi)) hb _ ha size hsize
    refine ⟨hdata, ?_⟩
    obtain ⟨data, rfl⟩ := Option.ne_none_iff_exists'.1 hdata
    cases hsize
    have hitem : item? mask attrPtr attrMax i = some (UInt8.ofNat i, data.read 0 size.toNat) := by
      rw [item?, if_pos hb, ha]
    exact hshort.1 (hs _ (List.mem_filterMap.2 ⟨i, List.mem_range.2 hi, hitem⟩))

end Code

/-- **The passes agree and the items can be read back** exactly when every first entry that the mask asks for, and that
has a size, has data too and is not 255 bytes long. -/
theorem agree_iff (mask : Nat) (attrPtr : List AttrGet) (attrMax : UInt8) :
    Agree mask attrPtr attrMax ↔ Complete mask attrPtr attrMax := by
  rw [complete_iff, ← length_items_iff]
  constructor
  · rintro ⟨bs, hlen, -, hdec⟩
    obtain ⟨rfl, hshort⟩ := decode_eq_some hdec
    exact ⟨hlen, hshort⟩
  · rintro ⟨hlen, hshort⟩
    refine ⟨encode (items mask attrPtr attrMax), hlen, fun buf => ?_, decode_encode hshort⟩
    rw [ltvAttrFill, foldl_fillRound _ _ hshort]
    rfl

/-- **An attribute of 255 bytes**: its length byte is 0, and the next item is written over it. -/
theorem not_agree_long : ¬ Agree 1 [⟨0, some 255, some (fun _ => 7)⟩] 1 := by
  rintro ⟨bs, -, -, hdec⟩
  have hitem : item? 1 [⟨0, some 255, some (fun _ => 7)⟩] 1 0 = some (0, Mem.read (fun _ => 7) 0 255) := rfl
  have hshort := (decode_eq_some hdec).2 _ (List.mem_filterMap.2 ⟨0, by decide, hitem⟩)
  rw [Short, Mem.length_read] at hshort
  exact absurd hshort (by decide)

end Ltv
end OtaLoader
