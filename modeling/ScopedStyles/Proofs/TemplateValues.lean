import ScopedStyles.Script.Token
import Mathlib.Data.List.TakeDrop

/-!
# What a template evaluates to

The text of a template is its value exactly if it has neither a backslash nor a carriage return in
it (`templateText?_eq_self_iff`): an escape is always longer than what it stands for, and of a
carriage return a line end is made.
-/

namespace ScopedStyles.Script.Token

section Escapes

theorem length_codePoint? {cs : List Char} {n : Nat} {ds rest : List Char}
    (h : codePoint? cs = some (n, ds, rest)) : rest.length ≤ cs.length := by
  unfold codePoint? at h
  split at h
  · rename_i cs
    have hdrop : (cs.span isHexDigit).2.length ≤ cs.length := by
      rw [List.span_eq_takeWhile_dropWhile]
      exact (List.dropWhile_suffix isHexDigit).length_le
    rcases hspan : cs.span isHexDigit with ⟨digits, behind⟩
    rw [hspan] at h hdrop
    simp only at h hdrop
    split at h
    · split_ifs at h
      simp only [Option.some.injEq, Prod.mk.injEq] at h
      obtain ⟨-, -, rfl⟩ := h
      simp only [List.length_cons] at hdrop ⊢
      omega
    · cases h
  · split_ifs at h
    simp only [Option.some.injEq, Prod.mk.injEq] at h
    obtain ⟨-, -, rfl⟩ := h
    simp only [List.length_cons]
    omega
  · cases h

/-- An escape stands for one character at most, and it takes one behind its backslash at least. -/
theorem length_escape? {cs : List Char} {us : Units} {text rest : List Char} {old : Bool}
    (h : escape? cs = some (us, text, old, rest)) :
    us.length ≤ 1 ∧ rest.length < cs.length := by
  unfold escape? at h
  split at h
  · cases h
  · obtain ⟨⟨n, ds, behind⟩, hpoint, heq⟩ := Option.bind_eq_some_iff.1 h
    cases heq
    exact ⟨Nat.le_refl 1, Nat.lt_succ_of_le (length_codePoint? hpoint)⟩
  · split_ifs at h
    cases h
    exact ⟨Nat.le_refl 1, by simp only [List.length_cons]; omega⟩
  · cases h
  · cases h
    exact ⟨Nat.zero_le 1, by simp only [List.length_cons]; omega⟩
  · split at h
    · cases h
      exact ⟨Nat.zero_le 1, Nat.lt_succ_self _⟩
    · split at h
      · simp only [Option.some.injEq, Prod.mk.injEq] at h
        obtain ⟨rfl, -, -, rfl⟩ := h
        exact ⟨Nat.le_refl 1, Nat.lt_succ_of_le (List.drop_suffix _ _).length_le⟩
      · simp only [Option.some.injEq, Prod.mk.injEq] at h
        obtain ⟨rfl, -, -, rfl⟩ := h
        exact ⟨Nat.le_refl 1, Nat.lt_succ_self _⟩

end Escapes

section Units

/-- An escape leaves less than was written, and nothing leaves more. -/
theorem length_templateUnits {fuel : Nat} {cs : List Char} {us : Units}
    (h : templateUnits fuel cs = some us) :
    us.length + (if '\\' ∈ cs then 1 else 0) ≤ cs.length := by
  fun_induction templateUnits fuel cs generalizing us with
  | case1 => cases h
  | case2 =>
    cases h
    simp
  | case3 fuel cs ih =>
    obtain ⟨⟨escaped, text, old, rest⟩, hescape, heq⟩ := Option.bind_eq_some_iff.1 h
    obtain ⟨more, hmore, heq⟩ := Option.bind_eq_some_iff.1 heq
    cases heq
    have := ih rest hmore
    obtain ⟨hone, hrest⟩ := length_escape? hescape
    simp
    omega
  | case4 fuel cs ih =>
    obtain ⟨more, hmore, heq⟩ := Option.bind_eq_some_iff.1 h
    cases heq
    have := ih hmore
    simp
    omega
  | case5 fuel c cs hc _ ih =>
    obtain ⟨more, hmore, heq⟩ := Option.bind_eq_some_iff.1 h
    cases heq
    have := ih hmore
    have hmem : '\\' ∈ c :: cs ↔ '\\' ∈ cs := by simp [Ne.symm hc]
    simp only [hmem, List.length_cons]
    omega

/-- Without escapes no carriage return is left. -/
theorem notMem_templateUnits {fuel : Nat} {cs : List Char} {us : Units}
    (h : templateUnits fuel cs = some us) (hcs : '\\' ∉ cs) : '\r'.toNat ∉ us := by
  fun_induction templateUnits fuel cs generalizing us with
  | case1 => cases h
  | case2 =>
    cases h
    exact List.not_mem_nil
  | case3 => exact absurd List.mem_cons_self hcs
  | case4 fuel cs ih =>
    obtain ⟨more, hmore, heq⟩ := Option.bind_eq_some_iff.1 h
    cases heq
    have hmem := ih hmore fun hmem => hcs (List.mem_cons_of_mem _ (List.mem_cons_of_mem _ hmem))
    simpa using hmem
  | case5 fuel c cs hc _ ih =>
    obtain ⟨more, hmore, heq⟩ := Option.bind_eq_some_iff.1 h
    cases heq
    have hmem := ih hmore fun hmem => hcs (List.mem_cons_of_mem _ hmem)
    rw [List.mem_cons, not_or]
    refine ⟨?_, hmem⟩
    split_ifs with hreturn
    · decide
    · exact fun h => hreturn (Char.toNat_inj.1 h.symm)

/-- Without escapes and carriage returns all is left as it is. -/
theorem templateUnits_plain {fuel : Nat} {cs : List Char} (hfuel : cs.length < fuel)
    (hcs : '\\' ∉ cs) (hreturn : '\r' ∉ cs) :
    templateUnits fuel cs = some (cs.map Char.toNat) := by
  fun_induction templateUnits fuel cs with
  | case1 => cases hfuel
  | case2 => rfl
  | case3 => exact absurd List.mem_cons_self hcs
  | case4 => exact absurd List.mem_cons_self hreturn
  | case5 fuel c cs hc _ ih =>
    rw [List.mem_cons, not_or] at hcs hreturn
    rw [ih (Nat.lt_of_succ_lt_succ hfuel) hcs.2 hreturn.2, if_neg (Ne.symm hreturn.1)]
    rfl

end Units

section Texts

theorem joinSurrogates_eq_self {us : Units} (h : ∀ u ∈ us, u < 0xD800 ∨ 0xE000 ≤ u) :
    joinSurrogates us = us := by
  fun_induction joinSurrogates us with
  | case1 hi lo rest hjoin =>
    simp only [Bool.and_eq_true, decide_eq_true_eq] at hjoin
    have := h hi List.mem_cons_self
    omega
  | case2 hi lo rest _ ih => rw [ih fun u hu => h u (List.mem_cons_of_mem _ hu)]
  | case3 => rfl

theorem length_joinSurrogates (us : Units) : (joinSurrogates us).length ≤ us.length := by
  fun_induction joinSurrogates us with
  | case1 hi lo rest _ ih =>
    simp only [List.length_cons]
    omega
  | case2 hi lo rest _ ih =>
    simp only [List.length_cons] at ih ⊢
    omega
  | case3 => exact Nat.le_refl _

theorem notMem_joinSurrogates {u : Nat} (hu : u < 0x10000) {us : Units} (h : u ∉ us) :
    u ∉ joinSurrogates us := by
  fun_induction joinSurrogates us with
  | case1 hi lo rest _ ih =>
    simp only [List.mem_cons, not_or] at h ⊢
    exact ⟨by omega, ih h.2.2⟩
  | case2 hi lo rest _ ih =>
    rw [List.mem_cons, not_or] at h ⊢
    exact ⟨h.1, ih h.2⟩
  | case3 => exact h

/-- Characters are no halves of surrogate pairs. -/
theorem toNat_outside_surrogates (c : Char) : c.toNat < 0xD800 ∨ 0xE000 ≤ c.toNat := by
  rcases c.valid with h | ⟨h, -⟩
  · exact .inl h
  · exact .inr h

theorem textOf?_map_toNat (cs : List Char) :
    textOf? (cs.map Char.toNat) = some (String.ofList cs) := by
  have houtside : ∀ u ∈ cs.map Char.toNat, u < 0xD800 ∨ 0xE000 ≤ u :=
    List.forall_mem_map.2 fun c _ => toNat_outside_surrogates c
  have hnone : (cs.map Char.toNat).any (fun u => 0xD800 ≤ u && u < 0xE000) = false := by
    simp only [List.any_eq_false, Bool.and_eq_true, decide_eq_true_eq]
    intro u hu
    have := houtside u hu
    omega
  rw [textOf?, joinSurrogates_eq_self houtside]
  simp only [hnone, Bool.false_eq_true, if_false, List.map_map]
  simp [Function.comp_def]

/-- A text is not longer than what it is made of, and a carriage return in it was one before. -/
theorem textOf?_eq_some {us : Units} {text : String} (h : textOf? us = some text) :
    text.toList.length ≤ us.length ∧ ('\r' ∈ text.toList → '\r'.toNat ∈ us) := by
  unfold textOf? at h
  simp only at h
  split_ifs at h
  obtain rfl := Option.some.inj h
  rw [String.toList_ofList, List.length_map]
  refine ⟨length_joinSurrogates us, fun hmem => ?_⟩
  obtain ⟨u, hu, hr⟩ := List.mem_map.1 hmem
  by_contra hno
  refine notMem_joinSurrogates (by decide) hno ?_
  have hu' : u = '\r'.toNat := by
    by_cases hvalid : u.isValidChar
    · rw [Char.ofNat, dif_pos hvalid] at hr
      exact congrArg Char.toNat hr
    · rw [Char.ofNat, dif_neg hvalid] at hr
      exact absurd hr (by decide)
  exact hu' ▸ hu

/-- What is written in a template is its value as well if nothing in it stands for something else,
and only then. -/
theorem templateText?_eq_self_iff {raw : String} :
    templateText? raw = some raw ↔ '\\' ∉ raw.toList ∧ '\r' ∉ raw.toList := by
  constructor
  · intro h
    obtain ⟨us, hunits, htext⟩ := Option.bind_eq_some_iff.1 h
    obtain ⟨hlength, hreturn⟩ := textOf?_eq_some htext
    have hshort := length_templateUnits hunits
    have hcs : '\\' ∉ raw.toList := by
      intro hcs
      rw [if_pos hcs] at hshort
      omega
    exact ⟨hcs, fun hr => notMem_templateUnits hunits hcs (hreturn hr)⟩
  · rintro ⟨hcs, hreturn⟩
    have hfuel : raw.toList.length < raw.length + 1 := Nat.lt_succ_self _
    rw [templateText?, templateUnits_plain hfuel hcs hreturn]
    exact (textOf?_map_toNat _).trans (congrArg some (String.ofList_toList))

end Texts

end ScopedStyles.Script.Token
