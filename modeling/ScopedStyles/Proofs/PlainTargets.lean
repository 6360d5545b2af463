import ScopedStyles.Proofs.PlainSelectors
import ScopedStyles.Proofs.RuleTexts

/-!
# Reading plain selectors

The tokens of plain selectors are read as atoms one after the other, and a class without a name is
where that fails. The atoms of a term make a compound and those of a row a selector, so there is no
other reason why a list of plain selectors would not be read (`Row.targetOf_list`).
-/

namespace ScopedStyles.Css

open Token

/-- Atoms before those of what follows, unless a class without a name stands among them. -/
def atomsBefore (classes : List String) (as : List Atom) (rest : Option (List Atom)) :
    Option (List Atom) :=
  if "" ∈ classes then none else rest.map (as ++ ·)

theorem atomsBefore_append (ns ms : List String) (as bs : List Atom) (rest : Option (List Atom)) :
    atomsBefore ns as (atomsBefore ms bs rest) = atomsBefore (ns ++ ms) (as ++ bs) rest := by
  unfold atomsBefore
  by_cases hn : "" ∈ ns <;> by_cases hm : "" ∈ ms <;>
    simp [hn, hm, Option.map_map, Function.comp_def]

/-- Parts that start with nothing that a name or `*` before them would take in. -/
def Apart (ps : List Part) : Prop :=
  ∀ p ∈ ps.head?, (∀ n, p ≠ .token (.ident n)) ∧ p ≠ .token (.delim '|')

section Atoms

variable (nested : Bool → List Part → Option (List Atom)) (inScope : Bool) {ps : List Part}

theorem atomsStep_blank (w : String) (ps : List Part) :
    atomsStep nested inScope (.token (.blank w) :: ps) =
      atomsBefore [] [.blank] (atomsStep nested inScope ps) := by
  rw [atomsStep]
  rcases atomsStep nested inScope ps with _ | as <;> rfl

theorem atomsStep_comma (ps : List Part) :
    atomsStep nested inScope (.token (.delim ',') :: ps) =
      atomsBefore [] [.comma] (atomsStep nested inScope ps) := by
  rw [atomsStep]
  rcases atomsStep nested inScope ps with _ | as <;> rfl

namespace Condition

def atom : Condition → Atom
  | className n => .simple (.className (nameOf n).value)
  | other .id n _ => .simple (.id (nameOf n).value)
  | other .pseudoClass n _ => .simple (.pseudoClass (nameOf n).value .absent)
  | other .pseudoElement n _ => .simple (.pseudoElement (nameOf n).value .absent)

theorem apart_tokens (c : Condition) (ps : List Part) : Apart (partsOf c.tokens ++ ps) := by
  rcases c with n | ⟨_ | _ | _, n, h⟩ <;> simp [Apart, partsOf, tokens]

theorem atomsStep_tokens (h : Apart ps) : ∀ c : Condition,
    atomsStep nested inScope (partsOf c.tokens ++ ps) =
      atomsBefore c.classes [c.atom] (atomsStep nested inScope ps)
  | className n => by
    by_cases hn : n = ""
    · subst hn
      rcases ps with _ | ⟨p, ps⟩
      · rfl
      · -- only a name makes a class of the dot
        show atomsStep nested inScope (.token (.delim '.') :: p :: ps) = none
        rcases p with t | _ | _
        · cases t with
          | ident n => exact absurd rfl ((h _ rfl).1 n)
          | _ => rfl
        · rfl
        · rfl
    · have hclass : "" ∉ (className n).classes := by simpa [classes] using Ne.symm hn
      rw [tokens, nameTokens, if_neg hn, atomsBefore, if_neg hclass]
      show atomsStep nested inScope (.token (.delim '.') :: .token (.ident (nameOf n)) :: ps) = _
      rw [atomsStep]
      rcases atomsStep nested inScope ps with _ | as <;> rfl
  | other .id n hn => by
    show atomsStep nested inScope (.token (.hash true (nameOf n)) :: ps) = _
    rw [atomsStep]
    rcases atomsStep nested inScope ps with _ | as <;> rfl
  | other .pseudoClass n hn => by
    rw [tokens, nameTokens, if_neg hn]
    show atomsStep nested inScope (.token (.delim ':') :: .token (.ident (nameOf n)) :: ps) = _
    rw [atomsStep]
    rcases atomsStep nested inScope ps with _ | as <;> rfl
  | other .pseudoElement n hn => by
    rw [tokens, nameTokens, if_neg hn]
    show atomsStep nested inScope
      (.token (.delim ':') :: .token (.delim ':') :: .token (.ident (nameOf n)) :: ps) = _
    rw [atomsStep]
    rcases atomsStep nested inScope ps with _ | as <;> rfl

theorem atomsStep_row (h : Apart ps) : ∀ cs : List Condition,
    Apart (partsOf (cs.flatMap tokens) ++ ps) ∧
      atomsStep nested inScope (partsOf (cs.flatMap tokens) ++ ps) =
        atomsBefore (cs.flatMap classes) (cs.map atom) (atomsStep nested inScope ps)
  | [] => ⟨h, by simp [partsOf, atomsBefore]⟩
  | c :: cs => by
    obtain ⟨hb, hs⟩ := atomsStep_row h cs
    have hparts : partsOf ((c :: cs).flatMap tokens) ++ ps =
        partsOf c.tokens ++ (partsOf (cs.flatMap tokens) ++ ps) := by simp [partsOf]
    rw [hparts]
    refine ⟨c.apart_tokens _, ?_⟩
    rw [atomsStep_tokens nested inScope hb c, hs, atomsBefore_append]
    rfl

end Condition

namespace Term

def elementAtoms : Option (Option String) → List Atom
  | some n => [.element ⟨none, n.map fun n => (nameOf n).value⟩]
  | none => []

def atoms (t : Term) : List Atom :=
  (if t.nesting then [.nesting] else []) ++
    (elementAtoms t.element ++ t.conditions.map Condition.atom)

theorem atomsStep_element (h : Apart ps) (n : Name) :
    atomsStep nested inScope (.token (.ident n) :: ps) =
      atomsBefore [] [.element ⟨none, some n.value⟩] (atomsStep nested inScope ps) := by
  rw [atomsStep]
  · rcases atomsStep nested inScope ps with _ | as <;> rfl
  all_goals
    intros
    subst ps
    exact (h _ rfl).2 rfl

theorem atomsStep_star (h : Apart ps) :
    atomsStep nested inScope (.token (.delim '*') :: ps) =
      atomsBefore [] [.element ⟨none, none⟩] (atomsStep nested inScope ps) := by
  rw [atomsStep]
  · rcases atomsStep nested inScope ps with _ | as <;> rfl
  all_goals
    intros
    subst ps
    exact (h _ rfl).2 rfl

theorem atomsStep_nesting (ps : List Part) :
    atomsStep nested inScope (.token (.delim '&') :: ps) =
      atomsBefore [] [.nesting] (atomsStep nested inScope ps) := by
  rw [atomsStep]
  rcases atomsStep nested inScope ps with _ | as <;> rfl

theorem atomsStep_tokens (h : Apart ps) (t : Term) :
    atomsStep nested inScope (partsOf t.tokens ++ ps) =
      atomsBefore t.classes t.atoms (atomsStep nested inScope ps) := by
  obtain ⟨hb, hs⟩ := Condition.atomsStep_row nested inScope h t.conditions
  have helement : atomsStep nested inScope (partsOf (elementTokens t.element) ++
        (partsOf (t.conditions.flatMap Condition.tokens) ++ ps)) =
      atomsBefore t.classes (elementAtoms t.element ++ t.conditions.map Condition.atom)
        (atomsStep nested inScope ps) := by
    rcases he : t.element with _ | _ | n
    · exact hs
    · refine (atomsStep_star nested inScope hb).trans ?_
      rw [hs, atomsBefore_append]
      rfl
    · have hn : n ≠ "" := fun hn => t.named (by rw [he, hn])
      rw [elementTokens, nameTokens, if_neg hn]
      refine (atomsStep_element nested inScope hb (nameOf n)).trans ?_
      rw [hs, atomsBefore_append]
      rfl
  have hparts : partsOf t.tokens ++ ps = partsOf (if t.nesting then [.delim '&'] else []) ++
      (partsOf (elementTokens t.element) ++
        (partsOf (t.conditions.flatMap Condition.tokens) ++ ps)) := by
    simp [partsOf, tokens]
  rw [hparts, atoms]
  split_ifs
  · have hnesting := atomsStep_nesting nested inScope (partsOf (elementTokens t.element) ++
      (partsOf (t.conditions.flatMap Condition.tokens) ++ ps))
    rw [helement, atomsBefore_append] at hnesting
    exact hnesting
  · exact helement

end Term

namespace Row

def combinatorAtoms : Combinator → List Atom
  | .descendant => [.blank]
  | k => [.blank, .combinator k, .blank]

theorem atomsStep_combinator (k : Combinator) (ps : List Part) :
    atomsStep nested inScope (partsOf k.tokens ++ ps) =
      atomsBefore [] (combinatorAtoms k) (atomsStep nested inScope ps) := by
  have hsign : ∀ {k : Combinator} (ts : List Token),
      (∀ ps, atomsStep nested inScope (partsOf ts ++ ps) =
        atomsBefore [] [.combinator k] (atomsStep nested inScope ps)) →
      atomsStep nested inScope (partsOf (.blank " " :: ts ++ [.blank " "]) ++ ps) =
        atomsBefore [] [.blank, .combinator k, .blank] (atomsStep nested inScope ps) := by
    intro k ts h
    have hparts : partsOf (.blank " " :: ts ++ [.blank " "]) ++ ps =
        .token (.blank " ") :: (partsOf ts ++ .token (.blank " ") :: ps) := by simp [partsOf]
    rw [hparts, atomsStep_blank, h, atomsStep_blank, atomsBefore_append, atomsBefore_append]
    rfl
  cases k with
  | descendant => exact atomsStep_blank nested inScope " " ps
  | child =>
    refine hsign [.delim '>'] fun ps => ?_
    show atomsStep nested inScope (.token (.delim '>') :: ps) = _
    rw [atomsStep]
    rcases atomsStep nested inScope ps with _ | as <;> rfl
  | next =>
    refine hsign [.delim '+'] fun ps => ?_
    show atomsStep nested inScope (.token (.delim '+') :: ps) = _
    rw [atomsStep]
    rcases atomsStep nested inScope ps with _ | as <;> rfl
  | later =>
    refine hsign [.delim '~'] fun ps => ?_
    show atomsStep nested inScope (.token (.delim '~') :: ps) = _
    rw [atomsStep]
    rcases atomsStep nested inScope ps with _ | as <;> rfl
  | column =>
    refine hsign [.delim '|', .delim '|'] fun ps => ?_
    show atomsStep nested inScope (.token (.delim '|') :: .token (.delim '|') :: ps) = _
    rw [atomsStep]
    rcases atomsStep nested inScope ps with _ | as <;> rfl

def moreAtoms : List (Combinator × Term) → List Atom
  | [] => []
  | (k, t) :: more => combinatorAtoms k ++ (t.atoms ++ moreAtoms more)

def atoms (r : Row) : List Atom := r.first.atoms ++ moreAtoms r.more

theorem atomsStep_more (h : Apart ps) : ∀ more : List (Combinator × Term),
    Apart (partsOf (moreTokens more) ++ ps) ∧
      atomsStep nested inScope (partsOf (moreTokens more) ++ ps) =
        atomsBefore (more.flatMap fun (_, t) => t.classes) (moreAtoms more)
          (atomsStep nested inScope ps)
  | [] => ⟨h, by simp [partsOf, atomsBefore, moreTokens, moreAtoms]⟩
  | (k, t) :: more => by
    obtain ⟨hb, hs⟩ := atomsStep_more h more
    have hparts : partsOf (moreTokens ((k, t) :: more)) ++ ps =
        partsOf k.tokens ++ (partsOf t.tokens ++ (partsOf (moreTokens more) ++ ps)) := by
      simp [partsOf, moreTokens]
    rw [hparts]
    refine ⟨by cases k <;> simp [Apart, partsOf, Combinator.tokens], ?_⟩
    rw [atomsStep_combinator, t.atomsStep_tokens nested inScope hb, hs, atomsBefore_append,
      atomsBefore_append]
    simp [moreAtoms]

theorem atomsStep_tokens (h : Apart ps) (r : Row) :
    atomsStep nested inScope (partsOf r.tokens ++ ps) =
      atomsBefore r.classes r.atoms (atomsStep nested inScope ps) := by
  obtain ⟨hb, hs⟩ := atomsStep_more nested inScope h r.more
  rw [tokens, partsOf, List.map_append, List.append_assoc]
  refine (r.first.atomsStep_tokens nested inScope hb).trans ?_
  rw [hs, atomsBefore_append]
  rfl

def listAtoms (first : Row) : List Row → List Atom
  | [] => first.atoms
  | r :: rest => first.atoms ++ .comma :: .blank :: listAtoms r rest

theorem atomsStep_list (h : Apart ps) : ∀ (first : Row) (rest : List Row),
    atomsStep nested inScope (partsOf (listTokens first rest) ++ ps) =
      atomsBefore ((first :: rest).flatMap classes) (listAtoms first rest)
        (atomsStep nested inScope ps)
  | first, [] => by
    rw [List.flatMap_singleton]
    exact first.atomsStep_tokens nested inScope h
  | first, r :: rest => by
    have hparts : partsOf (listTokens first (r :: rest)) ++ ps = partsOf first.tokens ++
        .token (.delim ',') :: .token (.blank " \n") :: (partsOf (listTokens r rest) ++ ps) := by
      simp [partsOf, listTokens]
    rw [hparts, first.atomsStep_tokens nested inScope (by simp [Apart]), atomsStep_comma,
      atomsStep_blank, atomsStep_list h r rest, atomsBefore_append, atomsBefore_append,
      atomsBefore_append]
    simp [listAtoms]

end Row

end Atoms

section Assembling

open ComplexSelector (assembleFrom ofAtoms)

/-- An atom of a compound. -/
inductive Atom.IsInner : Atom → Prop
  | nesting : IsInner .nesting
  | element (e : Element) : IsInner (.element e)
  | simple (s : Simple) : IsInner (.simple s)

/-- Behind an atom of a compound stands a compound. -/
theorem assembleFrom_inner {a : Atom} (ha : a.IsInner) (gap : Gap) (children : List Child)
    (rest : List Atom) : ∃ c cs,
      assembleFrom gap children (a :: rest) = assembleFrom .none (.compound c :: cs) rest := by
  cases ha with
  | nesting =>
    rw [assembleFrom]
    exact ⟨_, _, rfl⟩
  | element e =>
    by_cases h : gap = .none ∧ ∃ n left, children = .compound (.mk n none []) :: left
    · obtain ⟨rfl, n, left, rfl⟩ := h
      exact ⟨_, _, rfl⟩
    · rw [assembleFrom]
      · exact ⟨_, _, rfl⟩
      · exact fun n left hgap hchildren => h ⟨hgap, n, left, hchildren⟩
  | simple s =>
    by_cases h : gap = .none ∧ ∃ n e cs left, children = .compound (.mk n e cs) :: left
    · obtain ⟨rfl, n, e, cs, left, rfl⟩ := h
      rw [assembleFrom]
      split_ifs
      · exact ⟨_, _, rfl⟩
      · exact ⟨_, _, rfl⟩
    · rw [assembleFrom]
      · exact ⟨_, _, rfl⟩
      · exact fun n e cs left hgap hchildren => h ⟨hgap, n, e, cs, left, hchildren⟩

theorem assembleFrom_compound {as : List Atom} (h : ∀ a ∈ as, a.IsInner) (hne : as ≠ []) :
    ∀ (gap : Gap) (children : List Child) (rest : List Atom), ∃ c cs,
      assembleFrom gap children (as ++ rest) = assembleFrom .none (.compound c :: cs) rest := by
  induction as with
  | nil => exact absurd rfl hne
  | cons a as ih =>
    intro gap children rest
    obtain ⟨ha, has⟩ := List.forall_mem_cons.1 h
    obtain ⟨c, cs, hstep⟩ := assembleFrom_inner ha gap children (as ++ rest)
    rw [List.cons_append, hstep]
    rcases as with _ | ⟨b, as⟩
    · exact ⟨c, cs, rfl⟩
    · exact ih has (by simp) _ _ _

theorem assembleFrom_combinator (k : Combinator) (c : Compound) (cs : List Child)
    (rest : List Atom) : ∃ gap,
      assembleFrom .none (.compound c :: cs) (Row.combinatorAtoms k ++ rest) =
        assembleFrom gap (.compound c :: cs) rest := by
  cases k with
  | descendant => exact ⟨_, rfl⟩
  | child | next | later | column => exact ⟨_, rfl⟩

namespace Term

theorem isInner_atoms (t : Term) : ∀ a ∈ t.atoms, a.IsInner := by
  intro a ha
  rw [atoms, List.mem_append, List.mem_append, List.mem_map] at ha
  rcases ha with ha | ha | ⟨c, -, rfl⟩
  · split_ifs at ha
    · obtain rfl := List.mem_singleton.1 ha
      exact .nesting
    · exact absurd ha List.not_mem_nil
  · rcases he : t.element with _ | n <;> rw [he] at ha
    · exact absurd ha List.not_mem_nil
    · obtain rfl := List.mem_singleton.1 ha
      exact .element _
  · rcases c with n | ⟨_ | _ | _, n, h⟩ <;> exact .simple _

theorem atoms_ne_nil (t : Term) : t.atoms ≠ [] := by
  intro h
  rw [atoms, List.append_eq_nil_iff, List.append_eq_nil_iff, List.map_eq_nil_iff] at h
  obtain ⟨hnesting, helement, hconditions⟩ := h
  rcases t.proper with hn | he | hc
  · simp [hn] at hnesting
  · obtain ⟨n, hn⟩ := Option.isSome_iff_exists.1 he
    rw [hn] at helement
    cases helement
  · exact hc hconditions

end Term

namespace Row

theorem assembleFrom_more : ∀ (more : List (Combinator × Term)) (c : Compound) (cs : List Child),
    ∃ c' cs', assembleFrom .none (.compound c :: cs) (moreAtoms more) =
      some (.none, .compound c' :: cs')
  | [], c, cs => ⟨c, cs, rfl⟩
  | (k, t) :: more, c, cs => by
    obtain ⟨gap, hk⟩ := assembleFrom_combinator k c cs (t.atoms ++ moreAtoms more)
    obtain ⟨c', cs', ht⟩ := assembleFrom_compound t.isInner_atoms t.atoms_ne_nil gap
      (.compound c :: cs) (moreAtoms more)
    rw [moreAtoms, hk, ht]
    exact assembleFrom_more more c' cs'

theorem assembleFrom_atoms (r : Row) : ∃ c cs,
    assembleFrom .none [] r.atoms = some (.none, .compound c :: cs) := by
  obtain ⟨c, cs, h⟩ := assembleFrom_compound r.first.isInner_atoms r.first.atoms_ne_nil .none []
    (moreAtoms r.more)
  rw [atoms, h]
  exact assembleFrom_more r.more c cs

/-- Atoms with no blank at either end. -/
structure Bounded (as : List Atom) : Prop where
  head : ∃ a rest, as = a :: rest ∧ a.isBlank = false
  last : ∃ rest a, as = rest ++ [a] ∧ a.isBlank = false

theorem Bounded.of_inner {as : List Atom} (h : ∀ a ∈ as, a.IsInner) (hne : as ≠ []) :
    Bounded as := by
  have hblank : ∀ a ∈ as, a.isBlank = false := fun a ha => by cases h a ha <;> rfl
  obtain ⟨a, rest, rfl⟩ := List.exists_cons_of_ne_nil hne
  refine ⟨⟨a, rest, rfl, hblank a List.mem_cons_self⟩, ?_⟩
  obtain ⟨rest', z, hz⟩ := List.eq_nil_or_concat' (a :: rest) |>.resolve_left hne
  exact ⟨rest', z, hz, hblank z (by simp [hz])⟩

theorem Bounded.append {as bs : List Atom} (h : Bounded as) (h' : Bounded bs) (mid : List Atom) :
    Bounded (as ++ (mid ++ bs)) := by
  obtain ⟨a, rest, rfl, ha⟩ := h.head
  obtain ⟨rest', z, rfl, hz⟩ := h'.last
  exact ⟨⟨a, _, List.cons_append, ha⟩, ⟨a :: rest ++ (mid ++ rest'), z, by simp, hz⟩⟩

theorem bounded_more : ∀ (more : List (Combinator × Term)) {as : List Atom}, Bounded as →
    Bounded (as ++ moreAtoms more)
  | [], as, h => by rwa [moreAtoms, List.append_nil]
  | (k, t) :: more, as, h => by
    have hterm := h.append (.of_inner t.isInner_atoms t.atoms_ne_nil) (combinatorAtoms k)
    have hmore := bounded_more more hterm
    rwa [List.append_assoc, List.append_assoc] at hmore

theorem bounded_atoms (r : Row) : Bounded r.atoms :=
  bounded_more r.more (.of_inner r.first.isInner_atoms r.first.atoms_ne_nil)

/-- Blanks around such atoms are trimmed. -/
theorem Bounded.trim {before as after : List Atom} (h : Bounded as) (hb : ∀ a ∈ before, a.isBlank)
    (ha : ∀ a ∈ after, a.isBlank) : Atom.trim (before ++ as ++ after) = as := by
  have hleft : Atom.trimLeft (before ++ as ++ after) = as ++ after := by
    obtain ⟨a, rest, rfl, hblank⟩ := h.head
    rw [Atom.trimLeft, List.append_assoc, List.dropWhile_append_of_pos hb, List.cons_append,
      List.dropWhile_cons_of_neg (by simp [hblank])]
  have hright : Atom.trimLeft (as ++ after).reverse = as.reverse := by
    obtain ⟨rest, a, rfl, hblank⟩ := h.last
    rw [Atom.trimLeft, List.reverse_append, List.dropWhile_append_of_pos (by simpa using ha),
      List.reverse_concat, List.dropWhile_cons_of_neg (by simp [hblank])]
  rw [Atom.trim, hleft, hright, List.reverse_reverse]

theorem ofAtoms_atoms (r : Row) {before : List Atom} (hb : ∀ a ∈ before, a.isBlank)
    (after : List Atom) (ha : ∀ a ∈ after, a.isBlank) (trailing : Bool) :
    ∃ c, ofAtoms trailing (before ++ r.atoms ++ after) = some c := by
  obtain ⟨c, cs, h⟩ := r.assembleFrom_atoms
  rw [ofAtoms, r.bounded_atoms.trim hb ha, h]
  exact ⟨_, rfl⟩

theorem not_isComma_atoms (r : Row) : ∀ a ∈ r.atoms, a.isComma = false := by
  have hterm : ∀ t : Term, ∀ a ∈ t.atoms, a.isComma = false := fun t a ha => by
    cases t.isInner_atoms a ha <;> rfl
  have hmore : ∀ more : List (Combinator × Term), ∀ a ∈ moreAtoms more, a.isComma = false := by
    intro more
    induction more with
    | nil => simp [moreAtoms]
    | cons m more ih =>
      have hcombinator : ∀ a ∈ combinatorAtoms m.1, a.isComma = false := by
        rcases m.1 <;> simp [combinatorAtoms, Atom.isComma]
      exact List.forall_mem_append.2 ⟨hcombinator, List.forall_mem_append.2 ⟨hterm m.2, ih⟩⟩
  exact List.forall_mem_append.2 ⟨hterm r.first, hmore r.more⟩

theorem splitCommas_append {as : List Atom} (h : ∀ a ∈ as, a.isComma = false) (rest : List Atom) :
    Atom.splitCommas (as ++ .comma :: rest) = as :: Atom.splitCommas rest := by
  induction as with
  | nil => rfl
  | cons a as ih =>
    obtain ⟨ha, has⟩ := List.forall_mem_cons.1 h
    rw [List.cons_append, Atom.splitCommas, if_neg (by simp [ha]), ih has]

theorem splitCommas_eq {as : List Atom} (h : ∀ a ∈ as, a.isComma = false) :
    Atom.splitCommas as = [as] := by
  induction as with
  | nil => rfl
  | cons a as ih =>
    obtain ⟨ha, has⟩ := List.forall_mem_cons.1 h
    rw [Atom.splitCommas, if_neg (by simp [ha]), ih has]

theorem not_isComma_before (r : Row) {before : List Atom} (hb : ∀ a ∈ before, a.isBlank) :
    ∀ a ∈ before ++ r.atoms, a.isComma = false := by
  refine List.forall_mem_append.2 ⟨fun a ha => ?_, r.not_isComma_atoms⟩
  have hblank := hb a ha
  cases a <;> first | rfl | cases hblank

theorem listOfAtoms_list (trailing : Bool) : ∀ (first : Row) (rest : List Row)
    (before : List Atom), (∀ a ∈ before, a.isBlank) → ∃ l,
      ComplexSelector.listOfAtoms trailing (before ++ listAtoms first rest ++ [.blank]) = some l
  | first, [], before, hb => by
    have hcommas : ∀ a ∈ before ++ first.atoms ++ [.blank], a.isComma = false :=
      List.forall_mem_append.2 ⟨not_isComma_before first hb, by simp [Atom.isComma]⟩
    obtain ⟨c, hc⟩ := first.ofAtoms_atoms hb [.blank] (by simp [Atom.isBlank]) trailing
    rw [ComplexSelector.listOfAtoms, listAtoms, splitCommas_eq hcommas, List.mapM_cons, hc]
    exact ⟨[c], rfl⟩
  | first, r :: rest, before, hb => by
    have hparts : before ++ listAtoms first (r :: rest) ++ [.blank] =
        (before ++ first.atoms) ++ .comma :: ([.blank] ++ listAtoms r rest ++ [.blank]) := by
      simp [listAtoms]
    obtain ⟨l, hl⟩ := listOfAtoms_list trailing r rest [.blank] (by simp [Atom.isBlank])
    obtain ⟨c, hc⟩ := first.ofAtoms_atoms hb [] (by simp) trailing
    rw [List.append_nil] at hc
    rw [ComplexSelector.listOfAtoms] at hl
    rw [ComplexSelector.listOfAtoms, hparts, splitCommas_append (not_isComma_before first hb),
      List.mapM_cons, hc, hl]
    exact ⟨c :: l, rfl⟩

end Row

/-- A list of plain selectors before a block is read if none of its classes lacks a name. -/
theorem Row.targetOf_list (first : Row) (rest : List Row) :
    (Sheet.targetOf false (partsOf (listTokens first rest) ++ [.token (.blank " ")])).isSome ↔
      "" ∉ (first :: rest).flatMap classes := by
  have hatoms : atomsOf (partsOf (listTokens first rest) ++ [.token (.blank " ")]) =
      atomsBefore ((first :: rest).flatMap classes) (listAtoms first rest) (some [.blank]) := by
    rw [atomsOf, Css.atoms, atomsStep_list _ _ (by simp [Apart]), atomsStep_blank, atomsStep,
      atomsBefore_append]
    simp [atomsBefore]
  obtain ⟨l, hl⟩ := listOfAtoms_list false first rest [] (by simp)
  rw [List.nil_append] at hl
  rw [Sheet.targetOf, if_neg Bool.false_ne_true, ComplexSelector.listOfParts, hatoms, atomsBefore]
  by_cases hclasses : "" ∈ (first :: rest).flatMap classes
  · rw [if_pos hclasses]
    exact ⟨nofun, fun h => absurd hclasses h⟩
  · rw [if_neg hclasses, Option.map_some, Option.bind_eq_bind, Option.bind_some, hl]
    exact ⟨fun _ => hclasses, fun _ => rfl⟩

end Assembling

section Ahead

theorem plain_nameTokens (n : String) : ∀ t ∈ nameTokens n, t.isPlain := by
  unfold nameTokens
  split_ifs
  · exact List.forall_mem_nil _
  · exact List.forall_mem_singleton.2 rfl

theorem Condition.plain_tokens (c : Condition) : ∀ t ∈ c.tokens, t.isPlain := by
  rcases c with n | ⟨_ | _ | _, n, h⟩
  · exact List.forall_mem_cons.2 ⟨rfl, plain_nameTokens n⟩
  · exact List.forall_mem_singleton.2 rfl
  · exact List.forall_mem_cons.2 ⟨rfl, plain_nameTokens n⟩
  · exact List.forall_mem_cons.2 ⟨rfl, List.forall_mem_cons.2 ⟨rfl, plain_nameTokens n⟩⟩

theorem Term.plain_tokens (t : Term) : ∀ k ∈ t.tokens, k.isPlain := by
  refine List.forall_mem_append.2 ⟨?_, List.forall_mem_append.2 ⟨?_, ?_⟩⟩
  · split_ifs
    · exact List.forall_mem_singleton.2 rfl
    · exact List.forall_mem_nil _
  · rcases t.element with _ | _ | n
    · exact List.forall_mem_nil _
    · exact List.forall_mem_singleton.2 rfl
    · exact plain_nameTokens n
  · exact List.forall_mem_flatMap.2 fun c _ => c.plain_tokens

namespace Row

theorem plain_moreTokens : ∀ more : List (Combinator × Term), ∀ t ∈ moreTokens more, t.isPlain
  | [] => List.forall_mem_nil _
  | (k, t) :: more => by
    have hk : ∀ t ∈ k.tokens, t.isPlain := by cases k <;> decide
    exact List.forall_mem_append.2
      ⟨hk, List.forall_mem_append.2 ⟨t.plain_tokens, plain_moreTokens more⟩⟩

theorem plain_listTokens : ∀ (first : Row) (rest : List Row), ∀ t ∈ listTokens first rest, t.isPlain
  | first, [] =>
    List.forall_mem_append.2 ⟨first.first.plain_tokens, plain_moreTokens first.more⟩
  | first, r :: rest => by
    refine List.forall_mem_append.2
      ⟨List.forall_mem_append.2 ⟨first.first.plain_tokens, plain_moreTokens first.more⟩, ?_⟩
    exact List.forall_mem_cons.2 ⟨rfl, List.forall_mem_cons.2 ⟨rfl, plain_listTokens r rest⟩⟩

/-- A term has a token, and the first one is no blank. -/
theorem tokens_first (t : Term) : ∃ k ks, t.tokens = k :: ks ∧ k.isBlank = false := by
  have hconditions : t.conditions ≠ [] →
      ∃ k ks, t.conditions.flatMap Condition.tokens = k :: ks ∧ k.isBlank = false := by
    rcases t.conditions with _ | ⟨c, cs⟩
    · exact fun h => absurd rfl h
    · rcases c with n | ⟨_ | _ | _, n, h⟩ <;> exact fun _ => ⟨_, _, rfl, rfl⟩
  unfold Term.tokens
  by_cases hn : t.nesting
  · rw [if_pos hn]
    exact ⟨_, _, rfl, rfl⟩
  rw [if_neg hn, List.nil_append]
  rcases he : t.element with _ | _ | n
  · exact hconditions (by simpa [hn, he] using t.proper)
  · exact ⟨_, _, rfl, rfl⟩
  · have hne : n ≠ "" := fun h => t.named (by rw [he, h])
    rw [Term.elementTokens, nameTokens, if_neg hne]
    exact ⟨_, _, rfl, rfl⟩

theorem opensRule_listTokens (first : Row) (rest : List Row) :
    Sheet.OpensRule (listTokens first rest) := by
  refine ⟨plain_listTokens first rest, ?_⟩
  obtain ⟨k, ks, hk, hblank⟩ := tokens_first first.first
  cases rest <;> exact ⟨k, _, by rw [listTokens, tokens, hk]; rfl, hblank⟩

end Row

end Ahead

end ScopedStyles.Css
