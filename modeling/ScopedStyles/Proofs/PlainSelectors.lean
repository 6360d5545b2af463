import ScopedStyles.Css.Selector
import ScopedStyles.Proofs.LineScanning
import ScopedStyles.Proofs.PrintedNames

/-!
# Plain selectors

A selector is plain if nothing in it stands in brackets: it is a row of terms with combinators
between them, and a term is made of `&`, an element name, classes, ids and pseudo-classes without
arguments. What is printed for a list of plain selectors is scanned token by token
(`Row.scans_listChars`); a class without a name leaves its dot alone there.
-/

namespace ScopedStyles.Css

section Shape

/-- What stands before the name of a condition that is no class. -/
inductive Sign where
  | id | pseudoClass | pseudoElement
deriving DecidableEq, Repr

/-- A condition without arguments. Only classes are renamed, so only they may lack a name. -/
inductive Condition where
  | className (name : String)
  | other (sign : Sign) (name : String) (proper : name ≠ "")

/-- A compound that holds at least something. -/
structure Term where
  nesting : Bool
  element : Option (Option String)
  conditions : List Condition
  named : element ≠ some (some "")
  proper : nesting = true ∨ element.isSome ∨ conditions ≠ []

/-- Terms with combinators between them. -/
structure Row where
  first : Term
  more : List (Combinator × Term)

namespace Condition

def simple : Condition → Simple
  | className n => .className n
  | other .id n _ => .id n
  | other .pseudoClass n _ => .pseudoClass n .absent
  | other .pseudoElement n _ => .pseudoElement n .absent

def rename (f : String → String) : Condition → Condition
  | className n => className (f n)
  | other s n h => other s n h

def classes : Condition → List String
  | className n => [n]
  | other .. => []

end Condition

namespace Term

def compound (t : Term) : Compound :=
  .mk t.nesting (t.element.map (⟨none, ·⟩)) (t.conditions.map Condition.simple)

def rename (f : String → String) (t : Term) : Term where
  nesting := t.nesting
  element := t.element
  conditions := t.conditions.map (Condition.rename f)
  named := t.named
  proper := by simpa using t.proper

def classes (t : Term) : List String := t.conditions.flatMap Condition.classes

end Term

namespace Row

def children : List (Combinator × Term) → List Child
  | [] => []
  | (k, t) :: rest => .combinator k :: .compound t.compound :: children rest

def selector (r : Row) : ComplexSelector := .mk (.compound r.first.compound :: children r.more)

def rename (f : String → String) (r : Row) : Row :=
  ⟨r.first.rename f, r.more.map fun (k, t) => (k, t.rename f)⟩

def classes (r : Row) : List String :=
  r.first.classes ++ r.more.flatMap fun (_, t) => t.classes

end Row

end Shape

section Text

namespace Condition

def chars : Condition → List Char
  | className n => '.' :: Name.printChars n.toList
  | other .id n _ => '#' :: Name.printChars n.toList
  | other .pseudoClass n _ => ':' :: Name.printChars n.toList
  | other .pseudoElement n _ => ':' :: ':' :: Name.printChars n.toList

theorem text_simple (c : Condition) : c.simple.text.toList = c.chars := by
  rcases c with n | ⟨_ | _ | _, n, h⟩ <;>
    simp [simple, chars, Simple.text, Args.brackets, classText, Name.print]

end Condition

namespace Term

def elementChars : Option (Option String) → List Char
  | some (some n) => Name.printChars n.toList
  | some none => ['*']
  | none => []

def chars (t : Term) : List Char :=
  (if t.nesting then ['&'] else []) ++
    (elementChars t.element ++ t.conditions.flatMap Condition.chars)

theorem text_row : ∀ cs : List Condition,
    (simpleRow (cs.map Condition.simple)).toList = cs.flatMap Condition.chars
  | [] => rfl
  | c :: cs => by
    rw [List.map_cons, simpleRow, String.toList_append, c.text_simple, text_row cs,
      List.flatMap_cons]

theorem text_compound (t : Term) : t.compound.text.toList = t.chars := by
  have hnesting : (if t.nesting then "&" else "").toList = if t.nesting then ['&'] else [] := by
    split_ifs <;> rfl
  simp only [compound, Compound.text, String.toList_append, text_row, chars, hnesting]
  rcases t.element with _ | _ | n <;>
    simp [elementChars, Element.text, Element.nameText, Name.print]

end Term

namespace Row

def moreChars : List (Combinator × Term) → List Char
  | [] => []
  | (k, t) :: rest => k.text.toList ++ (t.chars ++ moreChars rest)

def chars (r : Row) : List Char := r.first.chars ++ moreChars r.more

theorem text_children : ∀ more : List (Combinator × Term),
    (childRow (children more)).toList = moreChars more
  | [] => rfl
  | (k, t) :: rest => by
    rw [children, childRow, childRow, Child.text, Child.text, String.toList_append,
      String.toList_append, t.text_compound, text_children rest, moreChars]

theorem text_selector (r : Row) : r.selector.text.toList = r.chars := by
  rw [selector, ComplexSelector.text, childRow, Child.text, String.toList_append,
    r.first.text_compound, text_children, chars]

/-- Selectors as they stand before a block, each behind a comma on a line of its own. -/
def listChars (first : Row) : List Row → List Char
  | [] => first.chars
  | r :: rest => first.chars ++ ',' :: ' ' :: '\n' :: listChars r rest

theorem listChars_eq : ∀ (first : Row) (rest : List Row),
    listChars first rest = [',', ' ', '\n'].intercalate ((first :: rest).map chars)
  | first, [] => by simp [listChars]
  | first, r :: rest => by
    rw [listChars, listChars_eq r rest]
    simp [List.intercalate_cons_cons]

theorem text_list (first : Row) (rest : List Row) :
    (", \n".intercalate ((first :: rest).map fun r => r.selector.text)).toList =
      listChars first rest := by
  rw [listChars_eq, String.toList_intercalate, List.map_map]
  congr 1
  exact List.map_congr_left fun r _ => r.text_selector

end Row

end Text

section Scanning

namespace Token

variable {cs rest : List Char}

/-- What may follow a condition: another one, a blank or a comma. -/
def Breaks (cs : List Char) : Prop := ∃ c ∈ ['.', '#', ':', ' ', ','], cs.head? = some c

/-- The name as it is read from what is printed for it. -/
def nameOf (n : String) : Name := ⟨String.ofList (n.toList.map Name.seen), Name.print n⟩

theorem Breaks.first {p : Char → Prop} (h : Breaks cs)
    (hp : p '.' ∧ p '#' ∧ p ':' ∧ p ' ' ∧ p ',') : ∀ d ∈ cs.head?, p d := by
  obtain ⟨c, hc, hhead⟩ := h
  intro d hd
  obtain rfl : c = d := Option.some.inj (hhead.symm.trans hd)
  have hall : ∀ c ∈ ['.', '#', ':', ' ', ','], p c := by
    simpa only [List.forall_mem_cons, List.not_mem_nil, IsEmpty.forall_iff, implies_true,
      and_true] using hp
  exact hall c hc

theorem Breaks.stops (h : Breaks cs) : Name.Stops cs := h.first (by decide)

theorem Breaks.head?_ne (h : Breaks cs) : cs.head? ≠ some '>' ∧ cs.head? ≠ some '(' :=
  ⟨fun he => h.first (p := (· ≠ '>')) (by decide) '>' he rfl,
    fun he => h.first (p := (· ≠ '(')) (by decide) '(' he rfl⟩

theorem Breaks.not_isDigit (h : Breaks cs) : ∀ d ∈ cs.head?, d.isDigit = false :=
  h.first (by decide)

theorem not_isDigit_of_opens (h : Name.Opens cs) : ∀ d ∈ cs.head?, d.isDigit = false :=
  h.first (fun _ => Name.isStart_not_isDigit) rfl rfl

theorem not_isBlank_of_opens (h : Name.Opens cs) : ∀ d ∈ cs.head?, Name.isBlank d = false :=
  h.first (fun _ => Name.isStart_not_isBlank) (by decide) (by decide)

theorem opens_head?_ne (h : Name.Opens cs) : cs.head? ≠ some '>' := by
  have hstart : ∀ c, Name.isStart c → c ≠ '>' := by
    rintro c hc rfl
    simp [Name.isStart] at hc
  exact fun he => h.first hstart (by decide) (by decide) '>' he rfl

/-- A name that opens with a hyphen does not close a comment. -/
theorem opens_not_commentClose (h : Name.Opens ('-' :: cs)) : ['-', '>'].isPrefixOf cs = false := by
  have hhyphen : ∀ cs : List Char, cs.head? ≠ some '>' →
      ['-', '>'].isPrefixOf ('-' :: cs) = false := fun cs hcs => by
    rcases cs with _ | ⟨c, cs⟩
    · rfl
    · simp only [List.head?_cons, ne_eq, Option.some.injEq] at hcs
      simp [List.isPrefixOf, Ne.symm hcs]
  cases h with
  | letter hc => simp [Name.isStart] at hc
  | hyphens hne => exact hhyphen _ hne
  | hyphen hopens =>
    cases hopens with
    | letter hc => simp [List.isPrefixOf, (Name.isStart_ne hc).1.symm]
    | escape => simp [List.isPrefixOf]
    | hyphen hopens => exact hhyphen _ (opens_head?_ne hopens)
    | hyphens => exact hhyphen _ (by simp)

/-- A name that opens is no number, blank or string, nor does it close a comment. -/
theorem scanOne_of_opens {c : Char} (h : Name.Opens (c :: cs)) :
    scanOne c cs = scanNamed (c :: cs) := by
  have hstarts := h.startsAt
  cases h with
  | letter hc =>
    have hb := Name.isStart_not_isBlank hc
    have hne : c ≠ '"' ∧ c ≠ '\'' ∧ c ≠ '+' ∧ c ≠ '-' ∧ c ≠ '.' := by
      refine ⟨?_, ?_, ?_, ?_, ?_⟩ <;> (rintro rfl; simp [Name.isStart] at hc)
    simp [scanOne, hb, hne, startsNumber, Name.isStart_not_isDigit hc, hstarts]
  | escape =>
    have hb : Name.isBlank '\\' = false := by decide
    simp [scanOne, hb, startsNumber, hstarts]
  | hyphen hopens =>
    have hb : Name.isBlank '-' = false := by decide
    have hcdc := opens_not_commentClose (.hyphen hopens)
    have hnumber : startsNumber ('-' :: cs) = false := by
      cases hopens with
      | @letter d cs hd =>
        have hne : d ≠ '.' := by
          rintro rfl
          simp [Name.isStart] at hd
        simp [startsNumber, Name.isStart_not_isDigit hd, hne]
      | escape | hyphen | hyphens => simp [startsNumber]
    simp only [scanOne, hb, hnumber, hcdc, hstarts, Bool.and_false, if_true]
    simp
  | hyphens hne =>
    have hb : Name.isBlank '-' = false := by decide
    have hcdc := opens_not_commentClose (.hyphens hne)
    simp only [scanOne, hb, startsNumber, hcdc, hstarts, Bool.and_false, if_true]
    simp

/-- A printed name is a token. -/
theorem scans_name {n : String} (hn : n ≠ "") (h : Breaks rest) :
    Scans (Name.printChars n.toList ++ rest) [.ident (nameOf n)] rest := by
  have hne : n.toList ≠ [] := by simpa using hn
  have hopens := Name.opens_printChars hne h.head?_ne.1
  have hscan := Name.scan_printChars n.toList h.stops
  rcases hcs : Name.printChars n.toList ++ rest with _ | ⟨c, cs⟩
  · rw [hcs] at hopens
    cases hopens
  rw [hcs] at hopens hscan
  refine .token (fun left _ hc => ?_) ?_ .done
  · subst hc
    cases hopens with
    | letter hc => simp [Name.isStart] at hc
  · rw [scanOne_of_opens hopens]
    exact scanNamed_ident hscan fun inner hinner => h.head?_ne.2 (congrArg List.head? hinner)

theorem scans_dot (h : ∀ d ∈ cs.head?, d.isDigit = false) : Scans ('.' :: cs) [.delim '.'] cs := by
  have hb : Name.isBlank '.' = false := by decide
  have hs : Name.startsAt ('.' :: cs) = false := by simp [Name.startsAt, Name.isStart]
  have hn : startsNumber ('.' :: cs) = false := by
    rcases cs with _ | ⟨d, cs⟩
    · rfl
    · simp [startsNumber, h d rfl]
  exact .token (by simp) (by simp [scanOne, hb, hs, hn, Bracket.ofOpen?, Bracket.ofClose?]) .done

theorem scans_delim {c : Char} (hc : c ∈ [':', '*', '&', ',', '>', '~', '|']) :
    Scans (c :: cs) [.delim c] cs := by
  simp only [List.mem_cons, List.not_mem_nil, or_false] at hc
  refine .token ?_ ?_ .done
  · rcases hc with rfl | rfl | rfl | rfl | rfl | rfl | rfl <;> simp
  · have hs : Name.startsAt (c :: cs) = false := by
      rcases hc with rfl | rfl | rfl | rfl | rfl | rfl | rfl <;> simp [Name.startsAt, Name.isStart]
    have hn : startsNumber (c :: cs) = false := by
      rcases hc with rfl | rfl | rfl | rfl | rfl | rfl | rfl <;> simp [startsNumber]
    have hb : Name.isBlank c = false := by
      rcases hc with rfl | rfl | rfl | rfl | rfl | rfl | rfl <;> decide
    rcases hc with rfl | rfl | rfl | rfl | rfl | rfl | rfl <;>
      simp [scanOne, hb, hs, hn, Bracket.ofOpen?, Bracket.ofClose?]

theorem scans_hash {n : String} (hn : n ≠ "") (h : Breaks rest) :
    Scans ('#' :: (Name.printChars n.toList ++ rest)) [.hash true (nameOf n)] rest := by
  have hopens := Name.opens_printChars (by simpa using hn : n.toList ≠ []) h.head?_ne.1
  have hscan := Name.scan_printChars n.toList h.stops
  have hstarts := hopens.startsAt
  rcases hcs : Name.printChars n.toList ++ rest with _ | ⟨d, cs⟩
  · rw [hcs] at hopens
    cases hopens
  rw [hcs] at hopens hscan hstarts
  have hd : Name.isInner d || (d = '\\' && Name.canEscape cs) := by
    cases hopens with
    | letter hc => simp [Name.isInner, hc]
    | escape he => simp [he]
    | hyphen | hyphens => rfl
  have hb : Name.isBlank '#' = false := by decide
  have hs : Name.startsAt ('#' :: d :: cs) = false := by simp [Name.startsAt, Name.isStart]
  refine .token (by simp) ?_ .done
  simp [scanOne, hb, hs, startsNumber, hd, hscan, hstarts, nameOf, Name.print]

end Token

open Token

/-- The tokens of a name; none if it is empty. -/
def nameTokens (n : String) : List Token := if n = "" then [] else [.ident (nameOf n)]

namespace Condition

def tokens : Condition → List Token
  | className n => .delim '.' :: nameTokens n
  | other .id n _ => [.hash true (nameOf n)]
  | other .pseudoClass n _ => .delim ':' :: nameTokens n
  | other .pseudoElement n _ => .delim ':' :: .delim ':' :: nameTokens n

theorem breaks_chars (c : Condition) (rest : List Char) : Breaks (c.chars ++ rest) := by
  rcases c with n | ⟨_ | _ | _, n, h⟩
  · exact ⟨'.', by simp, rfl⟩
  · exact ⟨'#', by simp, rfl⟩
  · exact ⟨':', by simp, rfl⟩
  · exact ⟨':', by simp, rfl⟩

theorem scans_nameTokens {n : String} {rest : List Char} (h : Breaks rest) :
    Scans (Name.printChars n.toList ++ rest) (nameTokens n) rest := by
  by_cases hn : n = ""
  · subst hn
    exact .done
  · rw [nameTokens, if_neg hn]
    exact scans_name hn h

theorem scans_chars {rest : List Char} (h : Breaks rest) : ∀ c : Condition,
    Scans (c.chars ++ rest) c.tokens rest
  | className n => by
    refine (scans_dot ?_).append (scans_nameTokens h)
    by_cases hn : n = ""
    · subst hn
      exact h.not_isDigit
    · exact not_isDigit_of_opens (Name.opens_printChars (by simpa using hn) h.head?_ne.1)
  | other .id n hn => scans_hash hn h
  | other .pseudoClass n hn => (scans_delim (by simp)).append (scans_nameTokens h)
  | other .pseudoElement n hn =>
    (scans_delim (by simp)).append ((scans_delim (by simp)).append (scans_nameTokens h))

theorem head?_chars (c : Condition) (rest : List Char) :
    ∀ d ∈ (c.chars ++ rest).head?, Name.isBlank d = false := by
  rcases c with n | ⟨_ | _ | _, n, h⟩ <;>
  · simp only [chars, List.cons_append, List.head?_cons, Option.mem_some_iff, forall_eq']
    decide

theorem scans_row {rest : List Char} (h : Breaks rest) : ∀ cs : List Condition,
    Breaks (cs.flatMap chars ++ rest) ∧
      Scans (cs.flatMap chars ++ rest) (cs.flatMap tokens) rest
  | [] => ⟨h, .done⟩
  | c :: cs => by
    obtain ⟨hb, hs⟩ := scans_row h cs
    rw [List.flatMap_cons, List.flatMap_cons, List.append_assoc]
    exact ⟨c.breaks_chars _, (c.scans_chars hb).append hs⟩

end Condition

namespace Term

def elementTokens : Option (Option String) → List Token
  | some (some n) => nameTokens n
  | some none => [.delim '*']
  | none => []

def tokens (t : Term) : List Token :=
  (if t.nesting then [.delim '&'] else []) ++
    (elementTokens t.element ++ t.conditions.flatMap Condition.tokens)

theorem scans_chars {rest : List Char} (h : Breaks rest) (t : Term) :
    Scans (t.chars ++ rest) t.tokens rest := by
  obtain ⟨hb, hs⟩ := Condition.scans_row h t.conditions
  rw [chars, tokens, List.append_assoc, List.append_assoc]
  have helement : Scans (elementChars t.element ++ (t.conditions.flatMap Condition.chars ++ rest))
      (elementTokens t.element ++ t.conditions.flatMap Condition.tokens) rest := by
    rcases t.element with _ | _ | n
    · exact hs
    · exact (scans_delim (by simp)).append hs
    · exact (Condition.scans_nameTokens hb).append hs
  split_ifs
  · exact (scans_delim (by simp)).append helement
  · exact helement

/-- A term starts with no blank. -/
theorem head?_chars (t : Term) {rest : List Char} (h : Breaks rest) :
    ∀ d ∈ (t.chars ++ rest).head?, Name.isBlank d = false := by
  have hconditions : t.conditions ≠ [] →
      ∀ d ∈ (t.conditions.flatMap Condition.chars ++ rest).head?, Name.isBlank d = false := by
    rcases t.conditions with _ | ⟨c, cs⟩
    · exact fun h => absurd rfl h
    · intro _ d hd
      rw [List.flatMap_cons, List.append_assoc] at hd
      exact c.head?_chars _ d hd
  rw [chars, List.append_assoc, List.append_assoc]
  by_cases hn : t.nesting
  · rw [if_pos hn]
    simp only [List.cons_append, List.head?_cons, Option.mem_some_iff, forall_eq']
    decide
  rw [if_neg hn, List.nil_append]
  rcases he : t.element with _ | _ | n
  · exact hconditions (by simpa [hn, he] using t.proper)
  · simp only [elementChars, List.cons_append, List.head?_cons, Option.mem_some_iff, forall_eq']
    decide
  · have hne : n.toList ≠ [] := fun h => t.named (by rw [he, String.toList_eq_nil_iff.1 h])
    exact not_isBlank_of_opens
      (Name.opens_printChars hne (Condition.scans_row h t.conditions).1.head?_ne.1)

end Term

def Combinator.tokens : Combinator → List Token
  | .descendant => [.blank " "]
  | .child => [.blank " ", .delim '>', .blank " "]
  | .next => [.blank " ", .delim '+', .blank " "]
  | .later => [.blank " ", .delim '~', .blank " "]
  | .column => [.blank " ", .delim '|', .delim '|', .blank " "]

namespace Row

theorem scans_combinator {rest : List Char} (h : ∀ d ∈ rest.head?, Name.isBlank d = false)
    (k : Combinator) : Scans (k.text.toList ++ rest) k.tokens rest := by
  have hblank : ∀ {rest : List Char}, (∀ d ∈ rest.head?, Name.isBlank d = false) →
      Scans (' ' :: rest) [.blank " "] rest := fun h =>
    scans_blanks [] (by simp [Name.isBlank]) h
  have hsign : ∀ {c : Char} {ts : List Token} {left : List Char}, Name.isBlank c = false →
      Scans (c :: left) ts (' ' :: rest) →
        Scans (' ' :: c :: left) (.blank " " :: ts ++ [.blank " "]) rest := fun hc hs =>
    (hblank (by simpa using hc)).append (hs.append (hblank h))
  cases k with
  | descendant => exact hblank h
  | child =>
    show Scans (' ' :: '>' :: ' ' :: rest) _ rest
    exact hsign (by decide) (scans_delim (by simp))
  | next =>
    show Scans (' ' :: '+' :: ' ' :: rest) _ rest
    have hb : Name.isBlank '+' = false := by decide
    refine hsign hb (.token (by simp) ?_ .done)
    simp [scanOne, hb, startsNumber, Name.startsAt, Name.isStart, Bracket.ofOpen?, Bracket.ofClose?]
  | later =>
    show Scans (' ' :: '~' :: ' ' :: rest) _ rest
    exact hsign (by decide) (scans_delim (by simp))
  | column =>
    show Scans (' ' :: '|' :: '|' :: ' ' :: rest) _ rest
    exact hsign (by decide) ((scans_delim (by simp)).append (scans_delim (by simp)))

def moreTokens : List (Combinator × Term) → List Token
  | [] => []
  | (k, t) :: more => k.tokens ++ (t.tokens ++ moreTokens more)

def tokens (r : Row) : List Token := r.first.tokens ++ moreTokens r.more

theorem scans_moreChars {rest : List Char} (h : Breaks rest) : ∀ more : List (Combinator × Term),
    Breaks (moreChars more ++ rest) ∧ Scans (moreChars more ++ rest) (moreTokens more) rest
  | [] => ⟨h, .done⟩
  | (k, t) :: more => by
    obtain ⟨hb, hs⟩ := scans_moreChars h more
    rw [moreChars, moreTokens, List.append_assoc, List.append_assoc]
    refine ⟨⟨' ', by simp, by cases k <;> rfl⟩, ?_⟩
    exact (scans_combinator (t.head?_chars hb) k).append ((t.scans_chars hb).append hs)

theorem scans_chars {rest : List Char} (h : Breaks rest) (r : Row) :
    Scans (r.chars ++ rest) r.tokens rest := by
  obtain ⟨hb, hs⟩ := scans_moreChars h r.more
  rw [chars, tokens, List.append_assoc]
  exact (r.first.scans_chars hb).append hs

def listTokens (first : Row) : List Row → List Token
  | [] => first.tokens
  | r :: rest => first.tokens ++ .delim ',' :: .blank " \n" :: listTokens r rest

theorem head?_listChars {last : List Char} (h : Breaks last) : ∀ (first : Row) (rest : List Row),
    ∀ d ∈ (listChars first rest ++ last).head?, Name.isBlank d = false
  | first, [] => by
    rw [listChars, chars, List.append_assoc]
    exact first.first.head?_chars (scans_moreChars h first.more).1
  | first, r :: rest => by
    rw [listChars, chars, List.append_assoc, List.append_assoc]
    exact first.first.head?_chars (scans_moreChars ⟨',', by simp, rfl⟩ first.more).1

theorem scans_listChars {last : List Char} (h : Breaks last) : ∀ (first : Row) (rest : List Row),
    Scans (listChars first rest ++ last) (listTokens first rest) last
  | first, [] => first.scans_chars h
  | first, r :: rest => by
    rw [listChars, listTokens, List.append_assoc]
    refine (first.scans_chars ⟨',', by simp, rfl⟩).append ((scans_delim (by simp)).append ?_)
    refine Scans.append (scans_blanks (c := ' ') ['\n'] (by simp [Name.isBlank, Name.isNewline]) ?_)
      (scans_listChars h r rest)
    exact head?_listChars h r rest

end Row

end Scanning

end ScopedStyles.Css
