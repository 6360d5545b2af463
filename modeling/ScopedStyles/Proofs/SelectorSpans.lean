import Mathlib.Tactic.SplitIfs
import ScopedStyles.Proofs.ClassPlaces
import ScopedStyles.Proofs.ExportedNames
import ScopedStyles.Proofs.PrintedNames
import ScopedStyles.Proofs.References

/-!
# Spans of class selectors

The span of a class is looked for in the written stylesheet as a text, a dot and the name, and it
is where that text occurs first (`SpanFor.first`). A class selector that is written without escapes
is among the places where it occurs, but there may be others before: a longer name with the same
beginning, a string, an address. The span covers a selector of the class if its name is written
without escapes and the text does not occur in front of the selector (`SpanFor.covers_iff`).
-/

namespace ScopedStyles

open Css (Passage Name classText)
open Css.Passage (textOf namesOf)
open Script (Span Node)

section Bytes

/-- The number of bytes that characters take. -/
def bytesOf (cs : List Char) : Nat := (String.ofList cs).utf8ByteSize

theorem bytesOf_toList (s : String) : bytesOf s.toList = s.utf8ByteSize := by
  rw [bytesOf, String.ofList_toList]

@[simp] theorem bytesOf_nil : bytesOf [] = 0 := rfl

@[simp] theorem bytesOf_append (cs ds : List Char) :
    bytesOf (cs ++ ds) = bytesOf cs + bytesOf ds := by
  rw [bytesOf, String.ofList_append, String.utf8ByteSize_append]
  rfl

@[simp] theorem bytesOf_cons (c : Char) (cs : List Char) :
    bytesOf (c :: cs) = c.utf8Size + bytesOf cs := by
  simp [bytesOf]

theorem bytesOf_eq_zero_iff {cs : List Char} : bytesOf cs = 0 ↔ cs = [] := by
  cases cs with
  | nil => simp
  | cons c cs =>
    have := c.utf8Size_pos
    simp only [bytesOf_cons, reduceCtorEq, iff_false]
    omega

/-- The number of bytes tells the beginnings of a text apart. -/
theorem eq_of_bytesOf_eq {a b text : List Char} (ha : a <+: text) (hb : b <+: text)
    (h : bytesOf a = bytesOf b) : a = b := by
  rcases List.prefix_or_prefix_of_prefix ha hb with ⟨d, rfl⟩ | ⟨d, rfl⟩ <;>
    rw [bytesOf_append] at h <;>
    rw [bytesOf_eq_zero_iff.1 (show bytesOf d = 0 by omega), List.append_nil]

end Bytes

section Occurrences

/-- A text occurs first behind `before`. -/
structure OccursFirst (needle before text : List Char) : Prop where
  here : before ++ needle <+: text
  first : ∀ other, other ++ needle <+: text → before <+: other

theorem OccursFirst.infix {needle before text : List Char} (h : OccursFirst needle before text) :
    needle <:+: text := by
  obtain ⟨rest, rfl⟩ := h.here
  exact ⟨before, rest, rfl⟩

/-- It does not occur within what stands before. -/
theorem OccursFirst.not_infix {needle before text : List Char} (h : OccursFirst needle before text)
    (hne : needle ≠ []) : ¬ needle <:+: before := by
  rintro ⟨x, y, rfl⟩
  have hx : x ++ needle <+: text :=
    (List.prefix_append (x ++ needle) y).trans ((List.prefix_append _ needle).trans h.here)
  have hlength := (h.first x hx).length_le
  have := List.length_pos_iff.2 hne
  simp only [List.length_append] at hlength
  omega

namespace Inlining

theorem occursFirst_of_offsetOf? {needle : List Char} : ∀ {text : List Char} {n k : Nat},
    offsetOf? needle n text = some k →
    ∃ before, OccursFirst needle before text ∧ k = n + bytesOf before
  | [], n, k, h => by
    simp only [offsetOf?, List.isEmpty_iff, Option.ite_none_right_eq_some, Option.some.injEq] at h
    obtain ⟨rfl, rfl⟩ := h
    exact ⟨[], ⟨List.prefix_rfl, fun other _ => List.nil_prefix⟩, rfl⟩
  | c :: cs, n, k, h => by
    rw [offsetOf?] at h
    split_ifs at h with hstart
    · obtain rfl := Option.some.inj h
      exact ⟨[], ⟨List.isPrefixOf_iff_prefix.1 hstart, fun other _ => List.nil_prefix⟩, rfl⟩
    · obtain ⟨before, hfirst, rfl⟩ := occursFirst_of_offsetOf? h
      refine ⟨c :: before, ⟨(List.prefix_cons_inj c).2 hfirst.here, fun other hother => ?_⟩, by
        rw [bytesOf_cons, Nat.add_assoc]⟩
      cases other with
      | nil => exact absurd (List.isPrefixOf_iff_prefix.2 hother) hstart
      | cons d other =>
        rw [List.cons_append, List.cons_prefix_cons] at hother
        obtain ⟨rfl, hother⟩ := hother
        exact (List.prefix_cons_inj d).2 (hfirst.first other hother)

theorem offsetOf?_eq_none_iff {needle : List Char} : ∀ {text : List Char} {n : Nat},
    offsetOf? needle n text = none ↔ ¬ needle <:+: text
  | [], n => by simp [offsetOf?]
  | c :: cs, n => by
    have hprefix : startsWith needle (c :: cs) = true ↔ needle <+: c :: cs :=
      List.isPrefixOf_iff_prefix
    rw [offsetOf?, List.infix_cons_iff, ← hprefix]
    split_ifs with hstart
    · simp [hstart]
    · simp [hstart, offsetOf?_eq_none_iff]

end Inlining

end Occurrences

namespace Css.Name

theorem length_printInner_pos (c : Char) : 0 < (printInner c).length := by
  unfold printInner
  split_ifs <;> simp [codePoint]

theorem length_printFirst_pos (c : Char) : 0 < (printFirst c).length := by
  unfold printFirst
  split_ifs
  · simp [codePoint]
  · exact length_printInner_pos c

theorem length_le_flatMap_printInner : ∀ cs : List Char,
    cs.length ≤ (cs.flatMap printInner).length
  | [] => Nat.le_refl _
  | c :: cs => by
    have hc := length_printInner_pos c
    have hcs := length_le_flatMap_printInner cs
    rw [List.flatMap_cons, List.length_append, List.length_cons]
    omega

theorem length_lt_flatMap_printInner : ∀ {cs : List Char}, '.' ∈ cs →
    cs.length < (cs.flatMap printInner).length
  | c :: cs, h => by
    rw [List.flatMap_cons, List.length_append, List.length_cons]
    rcases List.mem_cons.1 h with rfl | h
    · have hdot : (printInner '.').length = 2 := by decide
      have hcs := length_le_flatMap_printInner cs
      omega
    · have hc := length_printInner_pos c
      have hcs := length_lt_flatMap_printInner h
      omega

theorem length_lt_printFirst {c : Char} {cs : List Char} (h : '.' ∈ c :: cs) :
    (c :: cs).length < (printFirst c ++ cs.flatMap printInner).length := by
  rw [List.length_append, List.length_cons]
  rcases List.mem_cons.1 h with rfl | h
  · have hdot : (printFirst '.').length = 2 := by decide
    have hcs := length_le_flatMap_printInner cs
    omega
  · have hc := length_printFirst_pos c
    have hcs := length_lt_flatMap_printInner h
    omega

/-- A dot is printed behind a backslash. -/
theorem length_lt_printChars : ∀ {cs : List Char}, '.' ∈ cs → cs.length < (printChars cs).length
  | c :: cs, h => by
    by_cases hc : c = '-'
    · subst hc
      rcases cs with _ | ⟨d, cs⟩
      · simp at h
      · have h' : '.' ∈ d :: cs := by simpa using h
        have := length_lt_printFirst h'
        rw [printChars_hyphen, List.length_cons, List.length_cons]
        exact Nat.succ_lt_succ this
    · rw [printChars_cons cs hc]
      exact length_lt_printFirst h

theorem dot_notMem_of_print_eq {name : String} (h : print name = name) : '.' ∉ name.toList := by
  intro hmem
  have hlength := length_lt_printChars hmem
  have hprint := congrArg String.toList h
  rw [print, String.toList_ofList] at hprint
  rw [hprint] at hlength
  exact Nat.lt_irrefl _ hlength

end Css.Name

section Spans

/-- What is looked for: a name behind a dot. -/
def dotted (name : String) : List Char := '.' :: name.toList

/-- The span covers a class selector of the name, in passages that are a source from `start` on. -/
def Covers (start : Nat) (ps : List Passage) (name : String) (span : Span) : Prop :=
  ∃ before after, ps = before ++ .className name :: after ∧
    span = ⟨start + bytesOf (textOf before),
      start + bytesOf (textOf before) + bytesOf (classText name).toList⟩

/-- How the span of a name relates to passages that are a source from `start` on. -/
structure SpanFor (start : Nat) (ps : List Passage) (name : String) (span : Span) : Prop where
  /-- There is none if the name stands nowhere behind a dot. -/
  none_iff : span = .none ↔ ¬ dotted name <:+: textOf ps
  /-- It covers the first place where the name does, whatever that is part of. -/
  first : span ≠ .none → ∃ before, OccursFirst (dotted name) before (textOf ps) ∧
    span = ⟨start + bytesOf before, start + bytesOf before + bytesOf (dotted name)⟩
  /-- It lies within the source. -/
  within : span ≠ .none →
    start ≤ span.lo ∧ span.lo < span.hi ∧ span.hi ≤ start + bytesOf (textOf ps)
  /-- Classes that are written without escapes have one. -/
  found : name ∈ namesOf ps → Name.print name = name → span ≠ .none
  /-- It covers a selector of the class if the name is written without escapes and does not stand
  behind a dot before the selector. -/
  covers_iff : Covers start ps name span ↔ Name.print name = name ∧
    ∃ before after, ps = before ++ .className name :: after ∧ ¬ dotted name <:+: textOf before

theorem bytesOf_dotted_pos (name : String) : 0 < bytesOf (dotted name) := by
  have := '.'.utf8Size_pos
  rw [dotted, bytesOf_cons]
  omega

/-- A class selector in the text. -/
theorem textOf_split (before after : List Passage) (name : String) :
    textOf (before ++ .className name :: after) =
      textOf before ++ ((classText name).toList ++ textOf after) := by
  simp [textOf, Passage.chars]

theorem toList_classText {name : String} (h : Name.print name = name) :
    (classText name).toList = dotted name := by
  rw [classText, h, String.toList_append]
  rfl

/-- A class selector that has the text and the length of a name behind a dot is written without
escapes. -/
theorem print_eq_self {name : String} {rest : List Char}
    (h : dotted name <+: (classText name).toList ++ rest)
    (hbytes : bytesOf (dotted name) = bytesOf (classText name).toList) :
    Name.print name = name := by
  have heq := eq_of_bytesOf_eq h (List.prefix_append _ rest) hbytes
  rw [classText, String.toList_append] at heq
  exact (String.toList_inj.1 (List.cons.inj heq).2).symm

theorem mem_namesOf_iff {ps : List Passage} {name : String} :
    name ∈ namesOf ps ↔ ∃ before after, ps = before ++ .className name :: after := by
  rw [namesOf, List.mem_filterMap]
  constructor
  · rintro ⟨p, hp, hname⟩
    obtain ⟨before, after, rfl⟩ := List.append_of_mem hp
    cases p with
    | plain text => simp [Passage.name?] at hname
    | className n => exact ⟨before, after, by rw [Option.some.inj hname]⟩
  · rintro ⟨before, after, rfl⟩
    exact ⟨.className name, by simp, rfl⟩

/-- A name without dots that occurs behind a dot does not reach over the dot of another. -/
theorem eq_of_occursFirst {name : String} (hdot : '.' ∉ name.toList) {before front rest : List Char}
    (h : OccursFirst (dotted name) before (front ++ dotted name ++ rest))
    (hfront : ¬ dotted name <:+: front) : before = front := by
  obtain ⟨d, rfl⟩ := h.first front (List.prefix_append _ rest)
  have hd : dotted name <+: d ++ (dotted name ++ rest) := by
    have := h.here
    rwa [List.append_assoc, List.append_assoc, List.prefix_append_right_inj] at this
  have hin : ¬ dotted name <+: d := fun hin =>
    hfront (hin.isInfix.trans (List.suffix_append before d).isInfix)
  obtain ⟨e, he⟩ := (List.prefix_or_prefix_of_prefix hd (List.prefix_append d _)).resolve_left hin
  rw [← he, List.prefix_append_right_inj, he] at hd
  match d, e with
  | [], _ => exact (List.append_nil before).symm
  | c :: d, [] => exact absurd (he ▸ (List.append_nil (c :: d)).symm ▸ List.prefix_rfl) hin
  | c :: d, x :: e =>
    obtain rfl : x = '.' := (List.cons_prefix_cons.1 hd).1
    have hname : d ++ '.' :: e = name.toList := (List.cons.inj he).2
    exact absurd (hname ▸ List.mem_append_right d List.mem_cons_self) hdot

/-- What the search gives, if anything. -/
theorem selectorSpan_eq (s : Source) (css name : String) :
    Inlining.selectorSpan (some s) css name = .none ∧ ¬ dotted name <:+: css.toList ∨
    ∃ before, OccursFirst (dotted name) before css.toList ∧
      Inlining.selectorSpan (some s) css name =
        ⟨s.start + bytesOf before, s.start + bytesOf before + bytesOf (dotted name)⟩ := by
  have hdotted : ("." ++ name).toList = dotted name := by
    rw [String.toList_append]
    rfl
  have hsize : ("." ++ name).utf8ByteSize = bytesOf (dotted name) := by
    rw [← bytesOf_toList, hdotted]
  simp only [Inlining.selectorSpan, hdotted, hsize]
  rcases h : Inlining.offsetOf? (dotted name) 0 css.toList with _ | offset
  · exact .inl ⟨rfl, Inlining.offsetOf?_eq_none_iff.1 h⟩
  · obtain ⟨before, hfirst, rfl⟩ := Inlining.occursFirst_of_offsetOf? h
    exact .inr ⟨before, hfirst, by rw [Nat.zero_add]⟩

/-- A span of the first place that covers a class selector starts where that selector does. -/
theorem Covers.split {start : Nat} {ps : List Passage} {name : String} {front : List Char}
    (hfirst : OccursFirst (dotted name) front (textOf ps))
    (h : Covers start ps name
      ⟨start + bytesOf front, start + bytesOf front + bytesOf (dotted name)⟩) :
    Name.print name = name ∧
      ∃ before after, ps = before ++ .className name :: after ∧ textOf before = front := by
  obtain ⟨before, after, rfl, hspan⟩ := h
  obtain ⟨hlo, hhi⟩ := Span.mk.inj hspan
  rw [textOf_split] at hfirst
  obtain rfl : front = textOf before :=
    eq_of_bytesOf_eq ((List.prefix_append _ _).trans hfirst.here) (List.prefix_append _ _)
      (by omega)
  exact ⟨print_eq_self ((List.prefix_append_right_inj _).1 hfirst.here) (by omega),
    before, after, rfl, rfl⟩

theorem spanFor_selectorSpan {s : Source} {css : String} {ps : List Passage}
    (hps : textOf ps = css.toList) (name : String) :
    SpanFor s.start ps name (Inlining.selectorSpan (some s) css name) := by
  have hpos := bytesOf_dotted_pos name
  have hwritten : Name.print name = name → ∀ {before after},
      ps = before ++ .className name :: after →
      textOf ps = textOf before ++ dotted name ++ textOf after := by
    rintro hprint before after rfl
    rw [textOf_split, toList_classText hprint, List.append_assoc]
  rcases selectorSpan_eq s css name with ⟨hspan, hnot⟩ | ⟨front, hfirst, hspan⟩ <;>
    rw [hspan] <;> rw [← hps] at *
  · -- nothing is found, so no selector of the class is written without escapes
    have hfree : Name.print name = name → ∀ {before after},
        ps ≠ before ++ .className name :: after := fun hprint before after hsplit =>
      hnot ⟨_, _, (hwritten hprint hsplit).symm⟩
    refine ⟨iff_of_true rfl hnot, fun h => absurd rfl h, fun h => absurd rfl h,
      fun hname hprint => ?_, ⟨fun ⟨before, after, _, h⟩ => ?_, fun ⟨hprint, _, _, h, _⟩ =>
        absurd h (hfree hprint)⟩⟩
    · obtain ⟨before, after, hsplit⟩ := mem_namesOf_iff.1 hname
      exact absurd hsplit (hfree hprint)
    · have hhi := (Span.mk.inj h).2
      have := '.'.utf8Size_pos
      rw [classText, String.toList_append] at hhi
      simp at hhi
      omega
  · have hsome : (⟨s.start + bytesOf front, s.start + bytesOf front + bytesOf (dotted name)⟩ :
        Span) ≠ .none := fun h => by
      have := (Span.mk.inj h).2
      omega
    refine ⟨iff_of_false hsome (not_not.2 hfirst.infix), fun _ => ⟨front, hfirst, rfl⟩, fun _ => ?_,
      fun _ _ => hsome, ⟨fun h => ?_, fun ⟨hprint, before, after, hsplit, hnot⟩ => ?_⟩⟩
    · obtain ⟨rest, hrest⟩ := hfirst.here
      simp only [← hrest, bytesOf_append]
      omega
    · obtain ⟨hprint, before, after, hsplit, rfl⟩ := h.split hfirst
      exact ⟨hprint, before, after, hsplit, hfirst.not_infix (List.cons_ne_nil _ _)⟩
    · rw [hwritten hprint hsplit] at hfirst
      obtain rfl := eq_of_occursFirst (Name.dot_notMem_of_print_eq hprint) hfirst hnot
      exact ⟨before, after, hsplit, by rw [toList_classText hprint]⟩

/-- Where a reference is replaced and there are sources, the processed stylesheet becomes one, and
the object spans it. The properties have the spans of their names in it. A byte order mark at the
start of the text is not taken in, though spans count it; without one they lie in the source. -/
theorem inlineClassNames_spans {stages : Pipeline} {text : String} {path : Path} {o : Output}
    {m : ClassMap} (h : stages.process text path = .ok o) (hm : o.classMap? = some m)
    {r : Inlining} {specifier : String}
    (ho : r.build.outcome (Specifier.resolve specifier r.file) = .ok o)
    (hs : r.sources.isSome) :
    ∃ (sheet last : Css.Sheet) (s : Source) (object : Node) (r' : Inlining),
      Pipeline.read path text = .ok sheet ∧
      Pipeline.run path stages sheet = .ok (last, o.messages) ∧
      Css.Spells last.passages o.css last.mentions ∧
      r.inlineClassNames specifier = (some object, r') ∧
      (∃ all, r'.sources = some all ∧ s ∈ all.all) ∧
      s.text = Pipeline.withoutMark o.css ∧
      (s.text = o.css → s.stop = s.start + bytesOf (textOf last.passages)) ∧
      object.span = s.span ∧
      List.Forall₂ (fun (pair : String × String) prop => ∃ span,
        prop = .mk .keyValue .none [.text pair.1 span, .text pair.2 span] ∧
        SpanFor s.start last.passages pair.2 span) m.pairs object.kids := by
  obtain ⟨sheet, last, hread, hrun, hcss⟩ := Pipeline.process_eq_ok h
  obtain ⟨all, hall⟩ := Option.isSome_iff_exists.1 hs
  have hspells : Css.Spells last.passages o.css last.mentions := hcss ▸ last.spells_passages
  have hregister : ∀ path : Path, r.register path o.css =
      (some (all.add path.text (Pipeline.withoutMark o.css)).1,
        { r with sources := some (all.add path.text (Pipeline.withoutMark o.css)).2 }) :=
    fun path => by simp only [Inlining.register, hall]
  have hobject := Inlining.inlineClassNames_of_ok ho hm
  rw [hregister] at hobject
  refine ⟨sheet, last, _, _, _, hread, hrun, hspells, hobject,
    ⟨_, rfl, List.mem_append_right _ List.mem_cons_self⟩, rfl, fun htext => ?_, rfl, ?_⟩
  · rw [Source.stop, htext, hspells.text, bytesOf_toList]
  · refine List.forall₂_map_right_iff.2 (List.forall₂_same.2 fun pair _ => ⟨_, rfl, ?_⟩)
    exact spanFor_selectorSpan hspells.text pair.2

/-- The spans of a stylesheet with two classes. -/
theorem inlineClassNames_spans_of_two :
    let disk := ((Disk.empty ["app"]).put ["app"] .directory).put ["app", "a.sss"]
      (.file (.text ".a .ab \x7b color: red \x7d"))
    let stages : Pipeline := [.scopeClasses ⟨"[local]_y"⟩]
    let r := Inlining.start ⟨"App.jsx"⟩ (.start disk (.fresh stages)) (some .empty)
    let o : Output := ⟨".a_y .ab_y \x7b\n  color: red;\n\x7d",
      [⟨"css-modules", .exports ⟨[("a", "a_y"), ("ab", "ab_y")]⟩⟩]⟩
    stages.process ".a .ab \x7b color: red \x7d" ⟨"/app/a.sss"⟩ = .ok o ∧
      r.build.outcome (Specifier.resolve "./a.sss" r.file) = .ok o ∧ r.sources.isSome ∧
      ∃ (last : Css.Sheet) (s : Source) (object : Node) (r' : Inlining),
        o.css.toList = textOf last.passages ∧ s.text = o.css ∧
        r.inlineClassNames "./a.sss" = (some object, r') ∧
        List.Forall₂ (fun (pair : String × String) prop => ∃ span,
          prop = .mk .keyValue .none [.text pair.1 span, .text pair.2 span] ∧
          SpanFor s.start last.passages pair.2 span)
          [("a", "a_y"), ("ab", "ab_y")] object.kids := by
  intro disk stages r o
  have hprocess : stages.process ".a .ab \x7b color: red \x7d" ⟨"/app/a.sss"⟩ = .ok o := by
    decide +kernel
  have hmap : o.classMap? = some ⟨[("a", "a_y"), ("ab", "ab_y")]⟩ := by decide +kernel
  have houtcome : r.build.outcome (Specifier.resolve "./a.sss" r.file) = .ok o := by
    decide +kernel
  obtain ⟨sheet, last, s, object, r', -, -, hspells, hobject, -, htext, -, -, hprops⟩ :=
    inlineClassNames_spans hprocess hmap houtcome rfl
  have hmark : Pipeline.withoutMark o.css = o.css := by decide +kernel
  exact ⟨hprocess, houtcome, rfl, last, s, object, r', hspells.text.symm, htext.trans hmark,
    hobject, hprops⟩

/-- The class `a` is given the span of the beginning of the class `ab`. -/
theorem span_of_longer_class :
    let css := ".ab \x7b\n  color: red;\n\x7d\n.a \x7b\n  color: blue;\n\x7d"
    let rule (name color : String) : Css.Rule :=
      .style (.selectors [.mk [.compound (.mk false none [.className name])]])
        [.declaration ⟨"color", .row [.word color], false⟩]
    let sheet : Css.Sheet := ⟨[rule "ab" "red", rule "a" "blue"]⟩
    (Pipeline.ofConfig ⟨[.scopeClasses "[local]"]⟩).process
        ".ab \x7b color: red \x7d .a \x7b color: blue \x7d" ⟨"a.sss"⟩ =
      .ok ⟨css, [⟨"css-modules", .exports ⟨[("ab", "ab"), ("a", "a")]⟩⟩]⟩ ∧
      sheet.text = css ∧ "a" ∈ namesOf sheet.passages ∧
      Inlining.selectorSpan (some ⟨"a.sss", css, 1⟩) css "a" = ⟨1, 3⟩ ∧
      ¬ Covers 1 sheet.passages "a" ⟨1, 3⟩ := by
  intro css rule sheet
  refine ⟨by decide +kernel, by decide +kernel, by decide +kernel, by decide +kernel, ?_⟩
  rintro ⟨before, after, hsplit, hspan⟩
  have hpassages : sheet.passages = .plain "" :: .className "ab" :: sheet.passages.drop 2 := rfl
  rw [hpassages] at hsplit
  match before with
  | [] => simp at hsplit
  | [p] => simp at hsplit
  | p :: q :: before =>
    obtain ⟨rfl, rfl, -⟩ : .plain "" = p ∧ .className "ab" = q ∧ _ := by simpa using hsplit
    have hlo := (Span.mk.inj hspan).1
    have hab : bytesOf (classText "ab").toList = 3 := by decide +kernel
    simp [textOf, Passage.chars, hab] at hlo

end Spans

end ScopedStyles
