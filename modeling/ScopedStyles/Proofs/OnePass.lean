import ScopedStyles.Proofs.FilledPatterns

/-!
# Placeholders in one pass

`fragmentsOf` reads a pattern once and finds the placeholders that are written in it. To fill these
in, all at once, is what a pattern asks for (`inOnePass`). `Naming.scopedName` goes over the text
three times instead, and each time it takes what was put in before for part of the pattern. So a
placeholder may come up that nobody wrote (`Arises`): a class name may hold one, and text that is
put in may make one together with the brackets around it (`scopedName_ne_inOnePass`). Where none
comes up the outcome is that of one pass, and a `[hash]` that comes up always shows, since each one
makes the text shorter by a character (`scopedName_besideOnePass`).
-/

namespace ScopedStyles.Naming

open Fragment (written put filled)

section Reading

/-- The placeholder at the start of a text. -/
def startingAt? (cs : List Char) : Option Placeholder :=
  [.name, .local_, .hash].find? fun p => p.mark.isPrefixOf cs

/-- Reads a pattern from left to right, each character that starts no placeholder as a text of its
own; the first argument counts the characters of the current placeholder still to be skipped. -/
def fragmentsFrom : Nat → List Char → List Fragment
  | _, [] => []
  | k + 1, _ :: cs => fragmentsFrom k cs
  | 0, c :: cs =>
    match startingAt? (c :: cs) with
    | some p => .placeholder p :: fragmentsFrom (p.mark.length - 1) cs
    | none => .text [c] :: fragmentsFrom 0 cs

def fragmentsOf (pattern : List Char) : List Fragment := fragmentsFrom 0 pattern

/-- The pattern with the placeholders that are written in it filled in, and nothing else changed. -/
def inOnePass (pattern stem name digits : List Char) : List Char :=
  (fragmentsOf pattern).flatMap (filled stem name digits)

theorem startingAt?_mark (p : Placeholder) (rest : List Char) :
    startingAt? (p.mark ++ rest) = some p := by
  cases p <;> simp [startingAt?, Placeholder.mark, nameMark, localMark, hashMark]

theorem startingAt?_eq_some {cs : List Char} {p : Placeholder} (h : startingAt? cs = some p) :
    ∃ rest, cs = p.mark ++ rest := by
  have hp := List.find?_some h
  obtain ⟨rest, hrest⟩ := List.isPrefixOf_iff_prefix.1 hp
  exact ⟨rest, hrest.symm⟩

theorem not_isPrefixOf_of_startingAt? {cs : List Char} (h : startingAt? cs = none)
    (p : Placeholder) : ¬ p.mark.isPrefixOf cs = true :=
  List.find?_eq_none.1 h p (by cases p <;> simp)

theorem fragmentsFrom_eq_drop : ∀ (k : ℕ) (cs : List Char),
    fragmentsFrom k cs = fragmentsOf (cs.drop k)
  | 0, cs => by rw [List.drop_zero, fragmentsOf]
  | k + 1, [] => by simp [fragmentsOf, fragmentsFrom]
  | k + 1, _ :: cs => by rw [fragmentsFrom, fragmentsFrom_eq_drop k cs, List.drop_succ_cons]

theorem fragmentsOf_mark_append (p : Placeholder) (rest : List Char) :
    fragmentsOf (p.mark ++ rest) = .placeholder p :: fragmentsOf rest := by
  have h := startingAt?_mark p rest
  rw [mark_eq_cons p, List.cons_append] at h ⊢
  rw [fragmentsOf, fragmentsFrom, h]
  simp only [fragmentsFrom_eq_drop]
  rw [← List.length_tail, List.drop_left]

theorem fragmentsOf_cons {c : Char} {cs : List Char} (h : startingAt? (c :: cs) = none) :
    fragmentsOf (c :: cs) = .text [c] :: fragmentsOf cs := by
  rw [fragmentsOf, fragmentsFrom, h]
  rfl

/-- A text is empty, or it starts with a placeholder, or with a character that starts none. -/
theorem reading_induction {motive : List Char → Prop} (nil : motive [])
    (mark : ∀ (p : Placeholder) (rest : List Char), motive rest → motive (p.mark ++ rest))
    (char : ∀ (c : Char) (cs : List Char), startingAt? (c :: cs) = none → motive cs →
      motive (c :: cs)) :
    ∀ cs, motive cs
  | [] => nil
  | c :: cs => by
    rcases h : startingAt? (c :: cs) with _ | p
    · exact char c cs h (reading_induction nil mark char cs)
    · obtain ⟨rest, hrest⟩ := startingAt?_eq_some h
      have hle : rest.length ≤ cs.length := by
        rw [mark_eq_cons, List.cons_append] at hrest
        rw [(List.cons.inj hrest).2]
        exact (List.suffix_append p.mark.tail rest).length_le
      rw [hrest]
      exact mark p rest (reading_induction nil mark char rest)
  termination_by cs => cs.length

theorem patternOf_cons (f : Fragment) (fs : List Fragment) :
    patternOf (f :: fs) = f.written ++ patternOf fs := List.flatMap_cons

/-- Nothing of a pattern is lost when it is read. -/
theorem patternOf_fragmentsOf (cs : List Char) : patternOf (fragmentsOf cs) = cs := by
  induction cs using reading_induction with
  | nil => rfl
  | mark p rest ih =>
    rw [fragmentsOf_mark_append, patternOf_cons, ih]
    rfl
  | char c cs h ih =>
    rw [fragmentsOf_cons h, patternOf_cons, ih]
    rfl

end Reading

section Placeholders

/-- How often a placeholder stands in a text. -/
def marksIn (p : Placeholder) (text : List Char) : ℕ := text.tails.countP p.mark.isPrefixOf

theorem marksIn_nil (p : Placeholder) : marksIn p [] = 0 := by cases p <;> rfl

theorem marksIn_cons (p : Placeholder) (c : Char) (cs : List Char) :
    marksIn p (c :: cs) = marksIn p cs + if p.mark.isPrefixOf (c :: cs) then 1 else 0 := by
  exact List.countP_cons

theorem marksIn_le_append (p : Placeholder) (xs ys : List Char) :
    marksIn p ys ≤ marksIn p (xs ++ ys) := by
  induction xs with
  | nil => exact le_rfl
  | cons x xs ih =>
    rw [List.cons_append, marksIn_cons]
    exact Nat.le_add_right_of_le ih

theorem marksIn_append_of_notMem (p : Placeholder) {xs : List Char} (h : '[' ∉ xs)
    (ys : List Char) : marksIn p (xs ++ ys) = marksIn p ys := by
  induction xs with
  | nil => rfl
  | cons x xs ih =>
    rw [List.mem_cons, not_or] at h
    have hx : ¬ p.mark.isPrefixOf (x :: (xs ++ ys)) = true := by
      rw [mark_eq_cons]
      simp [h.1]
    rw [List.cons_append, marksIn_cons, if_neg hx, ih h.2, Nat.add_zero]

theorem marksIn_mark_append (p q : Placeholder) (rest : List Char) :
    marksIn p (q.mark ++ rest) = marksIn p rest + if q = p then 1 else 0 := by
  have htail : '[' ∉ q.mark.tail := by cases q <;> decide
  have hstart : p.mark.isPrefixOf (q.mark ++ rest) = true ↔ q = p := by
    constructor
    · intro h
      by_contra hne
      exact not_isPrefixOf_of_ne hne rest h
    · rintro rfl
      exact List.isPrefixOf_iff_prefix.2 (List.prefix_append _ _)
  rw [mark_eq_cons q, List.cons_append] at hstart ⊢
  rw [marksIn_cons, marksIn_append_of_notMem p htail]
  simp only [hstart]

/-- What replacing a placeholder everywhere does to the length of a text. -/
theorem length_replaceAll (p : Placeholder) (new cs : List Char) :
    (replaceAll p.mark new cs).length + p.mark.length * marksIn p cs =
      cs.length + new.length * marksIn p cs := by
  induction cs using reading_induction with
  | nil => simp [replaceAll, replaceFrom, marksIn_nil]
  | mark q rest ih =>
    have hlength : (put p new (.placeholder q)).written.length +
        p.mark.length * (if q = p then 1 else 0) =
          q.mark.length + new.length * (if q = p then 1 else 0) := by
      by_cases hq : q = p
      · simp [put, written, hq, Nat.add_comm]
      · simp [put, written, hq]
    rw [replaceAll_mark_append, marksIn_mark_append, List.length_append, List.length_append,
      Nat.mul_add, Nat.mul_add]
    omega
  | char c cs h ih =>
    have hc := not_isPrefixOf_of_startingAt? h p
    rw [replaceAll_cons, if_neg hc, marksIn_cons, if_neg hc, Nat.add_zero, List.length_cons,
      List.length_cons]
    omega

end Placeholders

section Unwritten

/-- A placeholder stands in the text of a row more often than in the row. -/
def Arises (p : Placeholder) (fs : List Fragment) : Prop :=
  fs.count (.placeholder p) < marksIn p (patternOf fs)

instance (p : Placeholder) (fs : List Fragment) : Decidable (Arises p fs) :=
  inferInstanceAs (Decidable (_ < _))

theorem count_le_marksIn (p : Placeholder) (fs : List Fragment) :
    fs.count (.placeholder p) ≤ marksIn p (patternOf fs) := by
  induction fs with
  | nil => exact Nat.zero_le _
  | cons f fs ih =>
    rw [patternOf_cons, List.count_cons]
    rcases f with q | cs
    · rw [written, marksIn_mark_append]
      by_cases hq : q = p
      · simpa [hq] using ih
      · simpa [hq] using ih
    · have hf : (Fragment.text cs == .placeholder p) = false := rfl
      rw [hf]
      exact ih.trans (marksIn_le_append p cs _)

theorem not_arises_nil (p : Placeholder) : ¬ Arises p [] := by
  simp [Arises, patternOf, marksIn_nil]

/-- A placeholder of the row stands in its text too. -/
theorem arises_placeholder_cons {p q : Placeholder} {fs : List Fragment} :
    Arises p (.placeholder q :: fs) ↔ Arises p fs := by
  rw [Arises, Arises, patternOf_cons, written, marksIn_mark_append, List.count_cons]
  by_cases hq : q = p <;> simp [hq]

/-- A text of the row is none of its placeholders, whatever stands in it. -/
theorem arises_text_cons {p : Placeholder} {cs : List Char} {fs : List Fragment} :
    Arises p (.text cs :: fs) ↔ fs.count (.placeholder p) < marksIn p (cs ++ patternOf fs) := by
  rw [Arises, patternOf_cons, written, List.count_cons_of_ne (by simp)]

/-- Nothing comes up in a pattern as it is written. -/
theorem not_arises_fragmentsOf (p : Placeholder) (cs : List Char) :
    ¬ Arises p (fragmentsOf cs) := by
  induction cs using reading_induction with
  | nil => exact not_arises_nil p
  | mark q rest ih =>
    rw [fragmentsOf_mark_append, arises_placeholder_cons]
    exact ih
  | char c cs h ih =>
    rw [Arises, patternOf_fragmentsOf] at ih
    rw [fragmentsOf_cons h, arises_text_cons, patternOf_fragmentsOf, List.singleton_append,
      marksIn_cons, if_neg (not_isPrefixOf_of_startingAt? h p)]
    exact ih

/-- Nothing comes up without a bracket. -/
theorem not_arises_of_bracketless (p : Placeholder) : ∀ {fs : List Fragment},
    Bracketless fs → ¬ Arises p fs
  | [], _ => not_arises_nil p
  | f :: fs, h => by
    have ih := not_arises_of_bracketless p fun cs hcs => h cs (List.mem_cons_of_mem f hcs)
    rcases f with q | cs
    · rw [arises_placeholder_cons]
      exact ih
    · rw [arises_text_cons, marksIn_append_of_notMem p (h cs List.mem_cons_self)]
      exact ih

/-- Text in which no placeholder starts is passed over. -/
theorem replaceAll_append_of_marksIn {p : Placeholder} (new rest : List Char) : ∀ {cs : List Char},
    marksIn p (cs ++ rest) ≤ marksIn p rest →
      replaceAll p.mark new (cs ++ rest) = cs ++ replaceAll p.mark new rest
  | [], _ => rfl
  | c :: cs, h => by
    have hle := marksIn_le_append p cs rest
    rw [List.cons_append, marksIn_cons] at h
    by_cases hc : p.mark.isPrefixOf (c :: (cs ++ rest)) = true
    · rw [if_pos hc] at h
      omega
    · rw [List.cons_append, replaceAll_cons, if_neg hc,
        replaceAll_append_of_marksIn new rest (by omega)]
      rfl

/-- If a placeholder does not come up in a row, it does not in the rest of it. -/
theorem not_arises_of_cons {p : Placeholder} {f : Fragment} {fs : List Fragment}
    (h : ¬ Arises p (f :: fs)) : ¬ Arises p fs := by
  rcases f with q | cs
  · rwa [arises_placeholder_cons] at h
  · rw [arises_text_cons, Nat.not_lt] at h
    exact Nat.not_lt.2 ((marksIn_le_append p cs _).trans h)

/-- If a placeholder does not come up, those of the row are all that is replaced. -/
theorem replaceAll_of_not_arises {p : Placeholder} (new : List Char) : ∀ {fs : List Fragment},
    ¬ Arises p fs → replaceAll p.mark new (patternOf fs) = patternOf (fs.map (put p new))
  | [], _ => rfl
  | f :: fs, h => by
    have ih := replaceAll_of_not_arises new (not_arises_of_cons h)
    rw [patternOf_cons, List.map_cons, patternOf_cons, ← ih]
    rcases f with q | cs
    · exact replaceAll_mark_append p q new _
    · rw [arises_text_cons, Nat.not_lt] at h
      -- the rest of the row accounts for all that the text and the rest together hold
      exact replaceAll_append_of_marksIn new _ (h.trans (count_le_marksIn p fs))

/-- What replacing the placeholders of a row does to its length. -/
theorem length_patternOf_put (p : Placeholder) (new : List Char) (fs : List Fragment) :
    (patternOf (fs.map (put p new))).length + p.mark.length * fs.count (.placeholder p) =
      (patternOf fs).length + new.length * fs.count (.placeholder p) := by
  induction fs with
  | nil => rfl
  | cons f fs ih =>
    rw [List.map_cons, patternOf_cons, patternOf_cons, List.length_append, List.length_append]
    rcases f with q | cs
    · by_cases hq : q = p
      · simp only [put, hq, if_true, written, List.count_cons_self, Nat.mul_add, Nat.mul_one]
        omega
      · have hne : Fragment.placeholder q ≠ .placeholder p :=
          fun h => hq (Fragment.placeholder.inj h)
        rw [put, if_neg hq, List.count_cons_of_ne hne]
        omega
    · rw [put, List.count_cons_of_ne (by simp)]
      omega

/-- What is shorter than the placeholder shows by its length whether one came up. -/
theorem replaceAll_eq_iff {p : Placeholder} {new : List Char} (hnew : new.length < p.mark.length)
    (fs : List Fragment) :
    replaceAll p.mark new (patternOf fs) = patternOf (fs.map (put p new)) ↔ ¬ Arises p fs := by
  refine ⟨fun h harises => ?_, replaceAll_of_not_arises new⟩
  have hall := length_replaceAll p new (patternOf fs)
  have hrow := length_patternOf_put p new fs
  rw [h] at hall
  have hgap : (p.mark.length - new.length) * fs.count (.placeholder p) <
      (p.mark.length - new.length) * marksIn p (patternOf fs) :=
    Nat.mul_lt_mul_of_pos_left harises (Nat.sub_pos_of_lt hnew)
  rw [Nat.sub_mul, Nat.sub_mul] at hgap
  omega

theorem replaceAll_fragmentsOf (p : Placeholder) (new pattern : List Char) :
    replaceAll p.mark new pattern = patternOf ((fragmentsOf pattern).map (put p new)) := by
  have h := replaceAll_of_not_arises new (not_arises_fragmentsOf p pattern)
  rwa [patternOf_fragmentsOf] at h

end Unwritten

section Outcome

/-- The pattern as a row, with the stem put in. -/
def withStem (pattern stem : List Char) : List Fragment :=
  (fragmentsOf pattern).map (put .name stem)

/-- The row with the class name put in too. -/
def withName (pattern stem name : List Char) : List Fragment :=
  (withStem pattern stem).map (put .local_ name)

theorem inOnePass_eq (pattern stem name digits : List Char) :
    inOnePass pattern stem name digits =
      patternOf ((withName pattern stem name).map (put .hash digits)) := by
  rw [withName, withStem, patternOf, List.map_map, List.map_map, List.flatMap_map]
  exact List.flatMap_congr fun f _ => (written_put_put_put stem name digits f).symm

/-- The digits are put in last, and a text that has them for a placeholder is shorter. -/
theorem filledIn_eq_inOnePass_iff {pattern stem name digits : List Char}
    (hdigits : digits.length < hashMark.length) (hstem : ¬ Arises .local_ (withStem pattern stem)) :
    filledIn pattern stem name digits = inOnePass pattern stem name digits ↔
      ¬ Arises .hash (withName pattern stem name) := by
  have hfirst : replaceAll nameMark stem pattern = patternOf (withStem pattern stem) :=
    replaceAll_fragmentsOf .name stem pattern
  have hsecond : replaceAll localMark name (patternOf (withStem pattern stem)) =
      patternOf (withName pattern stem name) := replaceAll_of_not_arises name hstem
  rw [filledIn, hfirst, hsecond, inOnePass_eq]
  exact replaceAll_eq_iff (p := .hash) hdigits _

/-- The row that is read off the text of a row: placeholders that came up stand in it too. -/
def reread (fs : List Fragment) : List Fragment := fragmentsOf (patternOf fs)

theorem filledIn_eq_reread (pattern stem name digits : List Char) :
    filledIn pattern stem name digits = patternOf ((reread
      ((reread (withStem pattern stem)).map (put .local_ name))).map (put .hash digits)) := by
  have hfirst : replaceAll nameMark stem pattern = patternOf (withStem pattern stem) :=
    replaceAll_fragmentsOf .name stem pattern
  have hsecond : replaceAll localMark name (patternOf (withStem pattern stem)) =
      patternOf ((reread (withStem pattern stem)).map (put .local_ name)) :=
    replaceAll_fragmentsOf .local_ name _
  rw [filledIn, hfirst, hsecond]
  exact replaceAll_fragmentsOf .hash digits _

/-- A scoped name beside its pattern filled in in one pass. -/
structure BesideOnePass (pattern : String) (path : Path) (name : String) : Prop where
  /-- The text is read anew before the class name is put in, and once more before the digits are. -/
  steps : Naming.scopedName ⟨pattern⟩ path name = String.ofList (patternOf ((reread
    ((reread (withStem pattern.toList (safeStem path))).map (put .local_ name.toList))).map
      (put .hash (shortHash path name))))
  /-- Where the stem completes no `[local]`, one pass comes to the same unless a `[hash]` comes up
  once the stem and the class name are put in, and only unless one does. -/
  onePass : ¬ Arises .local_ (withStem pattern.toList (safeStem path)) →
    (Naming.scopedName ⟨pattern⟩ path name = String.ofList
        (inOnePass pattern.toList (safeStem path) name.toList (shortHash path name)) ↔
      ¬ Arises .hash (withName pattern.toList (safeStem path) name.toList))
  /-- The stem completes nothing if each opening bracket of the pattern is a placeholder's. -/
  stem : Bracketless (fragmentsOf pattern.toList) →
    ¬ Arises .local_ (withStem pattern.toList (safeStem path))
  /-- Nor does a class name that has no opening bracket either. -/
  name : Bracketless (fragmentsOf pattern.toList) → '[' ∉ name.toList →
    ¬ Arises .hash (withName pattern.toList (safeStem path) name.toList)

/-- Whatever the pattern, the path and the class name. -/
theorem scopedName_besideOnePass (pattern : String) (path : Path) (name : String) :
    BesideOnePass pattern path name := by
  have hdigits : (shortHash path name).length < hashMark.length := by
    rw [length_shortHash]
    decide
  have hstem : Bracketless (fragmentsOf pattern.toList) →
      Bracketless (withStem pattern.toList (safeStem path)) :=
    fun h => h.map_put .name (bracket_notMem_safeStem path)
  refine ⟨?_, fun h => ?_, fun h => not_arises_of_bracketless _ (hstem h), fun h hname => ?_⟩
  · rw [scopedName_eq_filledIn, filledIn_eq_reread]
  · rw [scopedName_eq_filledIn, ← filledIn_eq_inOnePass_iff hdigits h]
    exact ⟨fun h => String.ofList_injective h, fun h => congrArg String.ofList h⟩
  · exact not_arises_of_bracketless _ ((hstem h).map_put .local_ hname)

/-- By the default pattern, the class names for which one pass comes to the same. -/
theorem scopedName_default_eq_inOnePass_iff (path : Path) (name : String) :
    Naming.scopedName ⟨defaultPattern⟩ path name = String.ofList
        (inOnePass defaultPattern.toList (safeStem path) name.toList (shortHash path name)) ↔
      marksIn .hash name.toList = 0 := by
  have honce : inOnePass defaultPattern.toList (safeStem path) name.toList (shortHash path name) =
      safeStem path ++ '_' :: (name.toList ++ '_' :: shortHash path name) := by
    have hrow : fragmentsOf defaultPattern.toList = [.placeholder .name, .text ['_'],
        .placeholder .local_, .text ['_'], .placeholder .hash] := by decide
    simp [inOnePass, hrow, filled]
  have hlength := length_replaceAll .hash (shortHash path name) name.toList
  have hmark : Placeholder.hash.mark = hashMark := rfl
  have hsix : hashMark.length = 6 := rfl
  rw [hmark, length_shortHash, hsix] at hlength
  rw [← String.toList_inj, scopedName_default, String.toList_ofList, honce, labelled,
    List.append_assoc, List.cons_append, List.append_cancel_left_eq, List.cons.injEq,
    List.append_cancel_right_eq]
  refine ⟨fun h => ?_, fun h => ?_⟩
  · -- the digits are shorter than what they are put in for, so the name keeps its length only
    -- if none of it is replaced
    rw [h.2] at hlength
    omega
  · have hnone : marksIn .hash (name.toList ++ []) ≤ marksIn .hash [] := by simp [h]
    have hkept := replaceAll_append_of_marksIn (shortHash path name) [] hnone
    exact ⟨rfl, by simpa [hmark, replaceAll, replaceFrom] using hkept⟩

/-- A class name that holds a placeholder, a class name that becomes one, and a file whose stem
does. -/
theorem scopedName_ne_inOnePass :
    Naming.scopedName ⟨defaultPattern⟩ ⟨"a.sss"⟩ "a[hash]" = "a_a42302_42302" ∧
      String.ofList (inOnePass defaultPattern.toList (safeStem ⟨"a.sss"⟩) "a[hash]".toList
        (shortHash ⟨"a.sss"⟩ "a[hash]")) = "a_a[hash]_42302" ∧
      Naming.scopedName ⟨"[[local]]"⟩ ⟨"a.sss"⟩ "hash" ≠ String.ofList (inOnePass
        "[[local]]".toList (safeStem ⟨"a.sss"⟩) "hash".toList (shortHash ⟨"a.sss"⟩ "hash")) ∧
      Naming.scopedName ⟨"[[name]]"⟩ ⟨"local.sss"⟩ "x" ≠ String.ofList (inOnePass
        "[[name]]".toList (safeStem ⟨"local.sss"⟩) "x".toList (shortHash ⟨"local.sss"⟩ "x")) := by
  decide +kernel

end Outcome

end ScopedStyles.Naming
