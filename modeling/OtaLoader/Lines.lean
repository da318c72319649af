import OtaLoader.CString
/-!
# Lines — searching a text for a key that has no line break

An occurrence of such a key lies within one line.  So `strstr` finds it in the first line that contains it
(`find_unlines`), and splitting a text at its line breaks goes block by block (`splitOn_unlines`).
-/
namespace OtaLoader

/-- Blocks of text, each ended by a line break. -/
def unlines (nl : UInt8) (ls : List (List UInt8)) : List UInt8 := ls.flatMap (· ++ [nl])

theorem unlines_cons (nl : UInt8) (l : List UInt8) (ls : List (List UInt8)) (r : List UInt8) :
    unlines nl (l :: ls) ++ r = l ++ nl :: (unlines nl ls ++ r) := by
  simp [unlines]

theorem unlines_append (nl : UInt8) (ls ls' : List (List UInt8)) :
    unlines nl (ls ++ ls') = unlines nl ls ++ unlines nl ls' := List.flatMap_append

variable {nl : UInt8} {pat : List UInt8}

/-! ## Occurrences -/

/-- A pattern does not start among bytes that are not its first. -/
theorem infix_of_head_notMem {c : UInt8} {p b : List UInt8} : ∀ {a : List UInt8}, c ∉ a → c :: p <:+: a ++ b →
    c :: p <:+: b
  | [], _, h => h
  | x :: a, hc, h => by
    rw [List.cons_append, List.infix_cons_iff] at h
    rcases h with h | h
    · exact absurd (List.mem_cons.2 (.inl (List.cons_prefix_cons.1 h).1)) hc
    · exact infix_of_head_notMem (fun hm => hc (List.mem_cons_of_mem x hm)) h

theorem not_infix_of_head_notMem {c : UInt8} {p a : List UInt8} (hc : c ∉ a) : ¬ c :: p <:+: a :=
  fun h => hc (h.subset (List.mem_cons_self ..))

/-- What starts before a line break ends before it. -/
theorem prefix_of_sep (hnl : nl ∉ pat) {a b : List UInt8} (h : pat <+: a ++ nl :: b) : pat <+: a := by
  rcases List.prefix_or_prefix_of_prefix h (List.prefix_append a _) with hp | ⟨s, rfl⟩
  · exact hp
  · cases s with
    | nil      => simp
    | cons x s =>
      rw [List.prefix_append_right_inj, List.cons_prefix_cons] at h
      exact absurd (by simp [h.1]) hnl

/-- **An occurrence lies on one side of a line break.** -/
theorem infix_of_sep (hnl : nl ∉ pat) {b : List UInt8} : ∀ {a : List UInt8}, pat <:+: a ++ nl :: b →
    pat <:+: a ∨ pat <:+: b
  | [], h => by
    rw [List.nil_append, List.infix_cons_iff] at h
    rcases h with h | h
    · exact .inl (prefix_of_sep (a := []) hnl h).isInfix
    · exact .inr h
  | x :: a, h => by
    rw [List.cons_append, List.infix_cons_iff] at h
    rcases h with h | h
    · exact .inl (prefix_of_sep (a := x :: a) hnl h).isInfix
    · rcases infix_of_sep hnl h with h | h
      · exact .inl (h.trans (List.suffix_cons x a).isInfix)
      · exact .inr h

/-! ## Searching -/

theorem not_infix_of_find_none (hp : pat ≠ []) {t : List UInt8} (h : find pat t = none) : ¬ pat <:+: t := by
  rintro ⟨a, b, rfl⟩
  have hlen := List.length_pos_iff.2 hp
  refine find_none h a.length (by simp; omega) ?_
  rw [List.append_assoc, List.drop_left]
  exact List.prefix_append pat b

/-- A block that does not contain the pattern is passed. -/
theorem find_sep (hnl : nl ∉ pat) (r : List UInt8) : ∀ {a : List UInt8}, ¬ pat <:+: a →
    find pat (a ++ nl :: r) = (find pat r).map (· + (a.length + 1))
  | [], h => by
    have hp : ¬ pat.isPrefixOf (nl :: r) = true := fun hp =>
      h (prefix_of_sep (a := []) hnl (List.isPrefixOf_iff_prefix.1 hp)).isInfix
    rw [List.nil_append, find, if_neg hp]
    rfl
  | x :: a, h => by
    have hp : ¬ pat.isPrefixOf (x :: (a ++ nl :: r)) = true := fun hp =>
      h (prefix_of_sep (a := x :: a) hnl (List.isPrefixOf_iff_prefix.1 hp)).isInfix
    have ha : ¬ pat <:+: a := fun hi => h (hi.trans (List.suffix_cons x a).isInfix)
    rw [List.cons_append, find, if_neg hp, find_sep hnl r ha, Option.map_map]
    rfl

/-- **Blocks that do not contain the pattern are passed.** -/
theorem find_unlines (hnl : nl ∉ pat) (r : List UInt8) : ∀ {ls : List (List UInt8)}, (∀ l ∈ ls, ¬ pat <:+: l) →
    find pat (unlines nl ls ++ r) = (find pat r).map (· + (unlines nl ls).length)
  | [], _ => by simp [unlines]
  | l :: ls, h => by
    have ih : find pat (unlines nl ls ++ r) = (find pat r).map (· + (unlines nl ls).length) :=
      find_unlines hnl r (fun l' hl => h l' (List.mem_cons_of_mem l hl))
    rw [unlines_cons, find_sep hnl _ (h l (List.mem_cons_self ..)), ih, Option.map_map]
    congr 1
    funext i
    simp [unlines]
    omega

/-! ## Splitting into lines -/

theorem splitOn_unlines (r : List UInt8) : ∀ (ls : List (List UInt8)),
    (unlines nl ls ++ r).splitOn nl = ls.flatMap (List.splitOn nl) ++ r.splitOn nl
  | []      => rfl
  | l :: ls => by
    rw [unlines_cons, List.splitOn_append_cons_self, splitOn_unlines r ls, List.flatMap_cons, List.append_assoc]

/-- No line has a line break. -/
theorem notMem_of_mem_splitOn : ∀ {t l : List UInt8}, l ∈ t.splitOn nl → nl ∉ l
  | [], l, h => by
    cases List.mem_singleton.1 h
    simp
  | x :: t, l, h => by
    rw [List.splitOn_cons_eq_if_modifyHead] at h
    split at h
    · rcases List.mem_cons.1 h with rfl | h
      · simp
      · exact notMem_of_mem_splitOn h
    · rename_i hx
      have hxn : x ≠ nl := by simpa using hx
      cases hs : t.splitOn nl with
      | nil       => exact absurd hs (List.splitOn_ne_nil nl t)
      | cons a as =>
        have ih : ∀ {l : List UInt8}, l ∈ a :: as → nl ∉ l := fun hm => notMem_of_mem_splitOn (t := t) (hs ▸ hm)
        rw [hs, List.modifyHead_cons] at h
        rcases List.mem_cons.1 h with rfl | h
        · simp [hxn.symm, ih (List.mem_cons_self ..)]
        · exact ih (List.mem_cons_of_mem a h)

/-- **Blocks are the lines of a text exactly if none of them has a line break.** -/
theorem splitOn_unlines_iff (ls : List (List UInt8)) (r : List UInt8) :
    (unlines nl ls ++ r).splitOn nl = ls ++ [r] ↔ (∀ l ∈ ls, nl ∉ l) ∧ nl ∉ r := by
  constructor
  · intro h
    refine ⟨fun l hl => ?_, ?_⟩
    · exact notMem_of_mem_splitOn (h ▸ List.mem_append_left _ hl)
    · exact notMem_of_mem_splitOn (h ▸ List.mem_append_right _ (List.mem_singleton_self r))
  · rintro ⟨hls, hr⟩
    have hone : ls.map (List.splitOn nl) = ls.map (fun l => [l]) :=
      List.map_congr_left (fun l hl => List.splitOn_eq_singleton (hls l hl))
    rw [splitOn_unlines, List.flatMap_def, hone, List.splitOn_eq_singleton hr, ← List.flatMap_def,
      List.flatMap_singleton']

end OtaLoader
