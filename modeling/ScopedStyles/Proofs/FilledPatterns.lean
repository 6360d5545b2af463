import ScopedStyles.Proofs.ScopedNames
import Mathlib.Algebra.Order.BigOperators.Group.List
import Mathlib.Algebra.Order.Group.Nat

/-!
# Patterns that are filled in

A pattern is a row of placeholders and of text between them. If no text that is put in has an
opening bracket, the placeholders that were written are all that is ever replaced, and replacing
one of them after the other fills the pattern in as replacing all at once would
(`filledIn_patternOf`). Classes of one file then take different names as soon as the pattern has
`[local]` in it (`scopedName_ne_of_ne`): class names of different lengths give texts of different
lengths, and those of the same length stand at the same places of the pattern. The digits take no
part in this but by their number.
-/

namespace ScopedStyles.Naming

inductive Placeholder where
  | name | local_ | hash
deriving DecidableEq, Repr, Inhabited

def Placeholder.mark : Placeholder → List Char
  | name => nameMark
  | local_ => localMark
  | hash => hashMark

inductive Fragment where
  | placeholder (p : Placeholder)
  | text (cs : List Char)
deriving DecidableEq, Repr, Inhabited

namespace Fragment

def written : Fragment → List Char
  | placeholder p => p.mark
  | text cs => cs

/-- The fragment once a placeholder is replaced. -/
def put (p : Placeholder) (new : List Char) : Fragment → Fragment
  | placeholder q => if q = p then text new else placeholder q
  | text cs => text cs

/-- What stands in the place of a fragment at last. -/
def filled (stem name digits : List Char) : Fragment → List Char
  | placeholder .name => stem
  | placeholder .local_ => name
  | placeholder .hash => digits
  | text cs => cs

end Fragment

open Fragment (written put filled)

/-- The pattern that is made of these fragments. -/
def patternOf (fs : List Fragment) : List Char := fs.flatMap written

/-- No text among the fragments can start a placeholder. -/
def Bracketless (fs : List Fragment) : Prop := ∀ cs, .text cs ∈ fs → '[' ∉ cs

/-- The pattern with the stem, the class name and the digits put in one after the other. -/
def filledIn (pattern stem name digits : List Char) : List Char :=
  replaceAll hashMark digits (replaceAll localMark name (replaceAll nameMark stem pattern))

theorem scopedName_eq_filledIn (naming : Naming) (path : Path) (name : String) :
    naming.scopedName path name = String.ofList
      (filledIn naming.pattern.toList (safeStem path) name.toList (shortHash path name)) := rfl

section Placeholders

theorem mark_eq_cons (p : Placeholder) : p.mark = '[' :: p.mark.tail := by
  cases p <;> rfl

/-- Different placeholders differ behind their bracket. -/
theorem not_isPrefixOf_of_ne {p q : Placeholder} (h : q ≠ p) (rest : List Char) :
    ¬ p.mark.isPrefixOf (q.mark ++ rest) = true := by
  revert h
  cases p <;> cases q <;> simp [Placeholder.mark, nameMark, localMark, hashMark]

/-- A placeholder is replaced where it stands, and others are passed over. -/
theorem replaceAll_mark_append (p q : Placeholder) (new rest : List Char) :
    replaceAll p.mark new (q.mark ++ rest) =
      (put p new (.placeholder q)).written ++ replaceAll p.mark new rest := by
  by_cases h : q = p
  · subst h
    rw [put, if_pos rfl, written, mark_eq_cons]
    exact replaceAll_mark _ _ new rest
  · have hskip : ¬ p.mark.isPrefixOf (q.mark ++ rest) = true := not_isPrefixOf_of_ne h rest
    have htail : '[' ∉ q.mark.tail := by cases q <;> decide
    rw [put, if_neg h, written]
    rw [mark_eq_cons q, List.cons_append] at hskip ⊢
    rw [replaceAll_cons, if_neg hskip, mark_eq_cons p, replaceAll_append_of_notMem htail]
    rfl

theorem replaceAll_text_append (p : Placeholder) {cs : List Char} (h : '[' ∉ cs)
    (new rest : List Char) :
    replaceAll p.mark new (cs ++ rest) = cs ++ replaceAll p.mark new rest := by
  rw [mark_eq_cons]
  exact replaceAll_append_of_notMem h new rest

theorem replaceAll_patternOf (p : Placeholder) (new : List Char) : ∀ {fs : List Fragment},
    Bracketless fs → replaceAll p.mark new (patternOf fs) = patternOf (fs.map (put p new))
  | [], _ => rfl
  | f :: fs, h => by
    have hfs : Bracketless fs := fun cs hcs => h cs (List.mem_cons_of_mem _ hcs)
    have ih := replaceAll_patternOf p new hfs
    show replaceAll p.mark new (f.written ++ patternOf fs) =
      (put p new f).written ++ patternOf (fs.map (put p new))
    rw [← ih]
    rcases f with q | cs
    · exact replaceAll_mark_append p q new _
    · exact replaceAll_text_append p (h cs List.mem_cons_self) new _

theorem Bracketless.map_put {fs : List Fragment} (h : Bracketless fs) (p : Placeholder)
    {new : List Char} (hnew : '[' ∉ new) : Bracketless (fs.map (put p new)) := by
  intro cs hcs
  obtain ⟨f, hf, hput⟩ := List.mem_map.1 hcs
  rcases f with q | ds
  · by_cases hq : q = p
    · rw [put, if_pos hq] at hput
      rwa [← Fragment.text.inj hput]
    · rw [put, if_neg hq] at hput
      cases hput
  · rw [← Fragment.text.inj hput]
    exact h ds hf

theorem written_put_put_put (stem name digits : List Char) (f : Fragment) :
    (put .hash digits (put .local_ name (put .name stem f))).written = filled stem name digits f := by
  rcases f with (_ | _ | _) | cs <;> rfl

/-- All placeholders are filled in at once, and nothing else changes. -/
theorem filledIn_patternOf {fs : List Fragment} (h : Bracketless fs) {stem name : List Char}
    (hstem : '[' ∉ stem) (hname : '[' ∉ name) (digits : List Char) :
    filledIn (patternOf fs) stem name digits = fs.flatMap (filled stem name digits) := by
  have hfirst := replaceAll_patternOf .name stem h
  have hsecond := replaceAll_patternOf .local_ name (h.map_put .name hstem)
  have hthird := replaceAll_patternOf .hash digits ((h.map_put .name hstem).map_put .local_ hname)
  simp only [Placeholder.mark] at hfirst hsecond hthird
  rw [filledIn, hfirst, hsecond, hthird, patternOf, List.map_map, List.map_map, List.flatMap_map]
  exact List.flatMap_congr fun f _ => written_put_put_put stem name digits f

end Placeholders

section Inserted

/-- Rows of equally long texts that are the same are the same text by text. -/
theorem eq_of_flatMap_eq {α β : Type} {f g : α → List β} : ∀ {xs : List α},
    (∀ x ∈ xs, (f x).length = (g x).length) → xs.flatMap f = xs.flatMap g → ∀ x ∈ xs, f x = g x
  | [], _, _, x, hx => absurd hx List.not_mem_nil
  | y :: xs, hlength, h, x, hx => by
    rw [List.flatMap_cons, List.flatMap_cons] at h
    obtain ⟨hy, hrest⟩ := List.append_inj h (hlength y List.mem_cons_self)
    rcases List.mem_cons.1 hx with rfl | hx
    · exact hy
    · exact eq_of_flatMap_eq (fun z hz => hlength z (List.mem_cons_of_mem y hz)) hrest x hx

variable {fs : List Fragment} {stem a b digits digits' : List Char}

/-- A shorter class name gives a shorter text. -/
theorem length_filled_lt (hlocal : .placeholder .local_ ∈ fs)
    (hdigits : digits.length = digits'.length) (h : a.length < b.length) :
    (fs.flatMap (filled stem a digits)).length < (fs.flatMap (filled stem b digits')).length := by
  rw [List.length_flatMap, List.length_flatMap]
  refine List.sum_lt_sum _ _ (fun f _ => ?_) ⟨_, hlocal, h⟩
  rcases f with (_ | _ | _) | cs
  · exact le_rfl
  · exact h.le
  · exact hdigits.le
  · exact le_rfl

/-- The class name can be read off the text if the number of digits is known. -/
theorem eq_of_flatMap_filled_eq (hlocal : .placeholder .local_ ∈ fs)
    (hdigits : digits.length = digits'.length)
    (h : fs.flatMap (filled stem a digits) = fs.flatMap (filled stem b digits')) : a = b := by
  have hlength : a.length = b.length := by
    rcases Nat.lt_trichotomy a.length b.length with hlt | heq | hlt
    · exact absurd (congrArg List.length h) (length_filled_lt hlocal hdigits hlt).ne
    · exact heq
    · exact absurd (congrArg List.length h) (length_filled_lt hlocal hdigits.symm hlt).ne'
  refine eq_of_flatMap_eq (fun f _ => ?_) h _ hlocal
  rcases f with (_ | _ | _) | cs
  · rfl
  · exact hlength
  · exact hdigits
  · rfl

/-- Two classes of one file, whose names have no brackets, take different names by every pattern
that is made of placeholders and text without brackets and has `[local]` in it. This would be so for
any digits of which there are equally many. -/
theorem scopedName_ne_of_ne (path : Path) {fs : List Fragment} (hfs : Bracketless fs)
    (hlocal : .placeholder .local_ ∈ fs) {a b : String} (ha : '[' ∉ a.toList) (hb : '[' ∉ b.toList)
    (hab : a ≠ b) :
    Naming.scopedName ⟨String.ofList (patternOf fs)⟩ path a ≠
        Naming.scopedName ⟨String.ofList (patternOf fs)⟩ path b ∧
      ∀ digits digits' : List Char, digits.length = digits'.length →
        filledIn (patternOf fs) (safeStem path) a.toList digits ≠
          filledIn (patternOf fs) (safeStem path) b.toList digits' := by
  have hstem := bracket_notMem_safeStem path
  have hany : ∀ digits digits' : List Char, digits.length = digits'.length →
      filledIn (patternOf fs) (safeStem path) a.toList digits ≠
        filledIn (patternOf fs) (safeStem path) b.toList digits' := by
    intro digits digits' hdigits h
    rw [filledIn_patternOf hfs hstem ha, filledIn_patternOf hfs hstem hb] at h
    exact hab (String.toList_inj.1 (eq_of_flatMap_filled_eq hlocal hdigits h))
  refine ⟨fun h => ?_, hany⟩
  rw [scopedName_eq_filledIn, scopedName_eq_filledIn, String.toList_ofList] at h
  refine hany _ _ ?_ (String.ofList_injective h)
  rw [length_shortHash, length_shortHash]

/-- A pattern in which a class name runs into the stem, the digits and itself. -/
theorem scopedName_ne_of_repeated :
    let fs : List Fragment := [.placeholder .local_, .placeholder .name, .text ['a'],
      .placeholder .hash, .placeholder .local_]
    String.ofList (patternOf fs) = "[local][name]a[hash][local]" ∧ Bracketless fs ∧
      Naming.scopedName ⟨"[local][name]a[hash][local]"⟩ ⟨"/src/a.sss"⟩ "a" ≠
        Naming.scopedName ⟨"[local][name]a[hash][local]"⟩ ⟨"/src/a.sss"⟩ "aa" := by
  intro fs
  have hfs : Bracketless fs := by simp [Bracketless, fs]
  have hpattern : String.ofList (patternOf fs) = "[local][name]a[hash][local]" := by decide
  have hne := (scopedName_ne_of_ne ⟨"/src/a.sss"⟩ hfs (by simp [fs]) (a := "a") (b := "aa")
    (by decide) (by decide) (by decide)).1
  rw [hpattern] at hne
  exact ⟨hpattern, hfs, hne⟩

end Inserted

end ScopedStyles.Naming
