import ScopedStyles.Proofs.EmptiedSelectors
import ScopedStyles.Proofs.ScopedNames

/-!
# Reading what is written

What is written of a sheet need not be read again, though the sheet was. A class may take an empty
name from a pattern, and nothing but its dot is printed then. On sheets of plain rules this is all
that goes wrong (`Rereads.plain`), and with a pattern that keeps a character, as the default one
does, it never happens (`PlainRule.reread_of_keeps`). Any scoping dissolves `:global()` to nothing,
and what is written of a sheet that starts with a rule under it alone is never read
(`Rereads.hollow`).
-/

namespace ScopedStyles

open Css

namespace PlainRule

/-- What follows the opening bracket of the block. -/
def blockRest (r : PlainRule) : List Char :=
  (blockText 0 (r.block.map .declaration)).toList.tail

def chars (r : PlainRule) : List Char :=
  Row.listChars r.first r.more ++ ' ' :: '\x7b' :: r.blockRest

theorem blockText_eq (r : PlainRule) :
    (blockText 0 (r.block.map .declaration)).toList = '\x7b' :: r.blockRest := by
  obtain ⟨rest, hrest, -⟩ := blockText_closed 0 (r.block.map .declaration)
  rw [blockRest, hrest]
  rfl

theorem blockRest_closed (r : PlainRule) : r.blockRest.getLast? = some '\x7d' := by
  obtain ⟨rest, hrest, hclosed⟩ := blockText_closed 0 (r.block.map .declaration)
  rwa [blockRest, hrest]

theorem text_rule (r : PlainRule) : (r.rule.text 0).toList = r.chars := by
  have hlist := Row.text_list r.first r.more
  have hindent : ", \n" ++ indentText 0 = ", \n" := rfl
  rw [rule, Rule.text, Target.text, hindent, String.toList_append, String.toList_append,
    r.blockText_eq, List.map_map]
  show ((", \n".intercalate ((r.first :: r.more).map fun r => r.selector.text)).toList ++ [' ']) ++
    '\x7b' :: r.blockRest = r.chars
  rw [hlist, List.append_assoc]
  rfl

theorem scans_chars (r : PlainRule) :
    Token.Scans r.chars (Row.listTokens r.first r.more) (' ' :: '\x7b' :: r.blockRest) :=
  Row.scans_listChars ⟨' ', by simp, rfl⟩ r.first r.more

/-- What is printed for the rule is read as one rule, and no byte order mark stands before it. -/
structure ReadsBack (r : PlainRule) : Prop where
  unmarked : ∀ c ∈ (r.rule.text 0).toList.head?, c.toNat ≠ 0xFEFF
  read : ∃ rule, Sheet.read (r.rule.text 0) = some ⟨[rule]⟩

theorem ReadsBack.blockReads {r : PlainRule} (h : r.ReadsBack) : BlockReads r.blockRest := by
  obtain ⟨rule, hrule⟩ := h.read
  rw [← String.ofList_toList (s := r.rule.text 0), r.text_rule] at hrule
  exact blockReads_of_read r.blockRest_closed r.scans_chars
    (Row.opensRule_listTokens r.first r.more) hrule

/-- The names of its classes decide whether a rule can be read, if its block can. -/
theorem readsIf_chars {r : PlainRule} (h : BlockReads r.blockRest) :
    ReadsIf r.chars ("" ∉ r.classes) :=
  readsIf_rule r.scans_chars (Row.opensRule_listTokens r.first r.more)
    (Row.targetOf_list r.first r.more) h

/-- Rules as they are printed, each on lines of its own. -/
def sheetChars : List PlainRule → List Char
  | [] => []
  | [r] => r.chars
  | r :: r' :: rest => r.chars ++ '\n' :: sheetChars (r' :: rest)

theorem sheetChars_eq : ∀ rules : List PlainRule,
    sheetChars rules = ['\n'].intercalate (rules.map chars)
  | [] => rfl
  | [r] => by simp [sheetChars]
  | r :: r' :: rest => by
    rw [sheetChars, sheetChars_eq (r' :: rest)]
    simp [List.intercalate_cons_cons]

theorem text_sheet (rules : List PlainRule) : (sheet rules).text.toList = sheetChars rules := by
  rw [sheetChars_eq, sheet, Sheet.text, String.toList_intercalate, List.map_map, List.map_map]
  congr 1
  exact List.map_congr_left fun r _ => r.text_rule

theorem sheetChars_cons (r : PlainRule) (rest : List PlainRule) :
    ∃ last, sheetChars (r :: rest) = r.chars ++ last := by
  rcases rest with _ | ⟨r', rest⟩
  · exact ⟨[], (List.append_nil _).symm⟩
  · exact ⟨_, rfl⟩

theorem readsIf_sheetChars : ∀ rules : List PlainRule, (∀ r ∈ rules, BlockReads r.blockRest) →
    ReadsIf (sheetChars rules) (∀ r ∈ rules, "" ∉ r.classes)
  | [], _ => ReadsIf.nil.congr (by simp)
  | [r], h => (readsIf_chars (h r List.mem_cons_self)).congr (by simp)
  | r :: r' :: rest, h => by
    obtain ⟨hr, hrest⟩ := List.forall_mem_cons.1 h
    have hline : ReadsIf ('\n' :: sheetChars (r' :: rest)) (∀ r ∈ r' :: rest, "" ∉ r.classes) := by
      obtain ⟨last, hlast⟩ := sheetChars_cons r' rest
      refine (readsIf_sheetChars (r' :: rest) hrest).line ?_ ?_ <;>
        rw [hlast, chars, List.append_assoc]
      · simp
      · exact Row.head?_listChars ⟨' ', by simp, rfl⟩ r'.first r'.more
    exact ((readsIf_chars hr).append hline).congr
      (List.forall_mem_cons (p := fun r : PlainRule => "" ∉ r.classes)).symm

section First

theorem head?_conditions (f : String → String) (cs : List Condition) :
    ((cs.map (Condition.rename f)).flatMap Condition.chars).head? =
      (cs.flatMap Condition.chars).head? := by
  rcases cs with _ | ⟨n | ⟨_ | _ | _, n, h⟩, cs⟩ <;> rfl

/-- A class is not seen by the first character of its term. -/
theorem head?_term (f : String → String) (t : Term) : (t.rename f).chars.head? = t.chars.head? := by
  show ((if t.nesting then ['&'] else []) ++ (Term.elementChars t.element ++
    (t.conditions.map (Condition.rename f)).flatMap Condition.chars)).head? = _
  rw [List.head?_append, List.head?_append, head?_conditions, ← List.head?_append,
    ← List.head?_append, Term.chars]

theorem term_chars_ne_nil (t : Term) : t.chars ≠ [] := by
  intro h
  have hbreaks : Token.Breaks [' '] := ⟨' ', by simp, rfl⟩
  have hblank := t.head?_chars hbreaks ' ' (by rw [h]; rfl)
  exact absurd hblank (by decide)

theorem head?_chars (r : PlainRule) : r.chars.head? = r.first.first.chars.head? := by
  obtain ⟨c, cs, hcs⟩ := List.exists_cons_of_ne_nil (term_chars_ne_nil r.first.first)
  rw [chars]
  cases r.more <;> rw [Row.listChars, Row.chars, hcs] <;> rfl

/-- A byte order mark comes to the front of a sheet only with a rule that has one. -/
theorem unmarked_sheetChars (f : String → String) {rules : List PlainRule}
    (h : ∀ r ∈ rules, r.ReadsBack) :
    ∀ c ∈ (sheetChars (rules.map (rename f))).head?, c.toNat ≠ 0xFEFF := by
  rcases rules with _ | ⟨r, rest⟩
  · simp [sheetChars]
  · have hhead : (sheetChars ((r :: rest).map (rename f))).head? = r.chars.head? := by
      obtain ⟨last, hlast⟩ := sheetChars_cons (r.rename f) (rest.map (rename f))
      have hne : (r.rename f).chars ≠ [] := by simp [chars]
      rw [List.map_cons, hlast, List.head?_append_of_ne_nil _ hne, head?_chars, head?_chars]
      exact head?_term f r.first.first
    rw [hhead, ← r.text_rule]
    exact (h r List.mem_cons_self).unmarked

end First

end PlainRule

namespace PlainRule

/-- Whatever the stages: a sheet of plain rules is processed, and what is written of it is the sheet
of those that are left with the classes renamed in turn. -/
theorem process_plain {c : Config} {path : Path} {text : String} {rules : List PlainRule}
    (h : Pipeline.read path text = .ok (sheet rules)) :
    ∃ o, (Pipeline.ofConfig c).process text path = .ok o ∧
      o.css = (sheet ((leftBy c.stages rules).map
        (rename (Naming.inTurn path c.namings)))).text := by
  obtain ⟨ms, hrun⟩ := run_sheet path c.stages rules
  refine ⟨⟨_, ms⟩, ?_, rfl⟩
  rw [Pipeline.process, h]
  show (Pipeline.run path (c.stages.map Stage.ofConfig) (sheet rules) >>= _) = _
  rw [hrun]
  rfl

theorem mem_of_mem_leftBy {stages : List StageConfig} {rules : List PlainRule} {r : PlainRule}
    (h : r ∈ leftBy stages rules) : r ∈ rules := by
  unfold leftBy at h
  split_ifs at h
  · exact List.mem_of_mem_filter h
  · exact h

/-- Rules that are read as they are printed are read with other names too, unless one is empty. -/
theorem read_rename_iff (path : Path) (f : String → String) {rules : List PlainRule}
    (h : ∀ r ∈ rules, r.ReadsBack) :
    (∃ again, Pipeline.read path (sheet (rules.map (rename f))).text = .ok again) ↔
      ∀ r ∈ rules, ∀ n ∈ r.classes, f n ≠ "" := by
  have hreads := readsIf_sheetChars (rules.map (rename f)) (List.forall_mem_map.2
    fun r hr => (h r hr).blockReads)
  have hmark := unmarked_sheetChars f h
  rw [← text_sheet] at hreads hmark
  have hread := hreads.read_iff
  rw [String.ofList_toList] at hread
  have hclasses : (∀ r ∈ rules.map (rename f), "" ∉ r.classes) ↔
      ∀ r ∈ rules, ∀ n ∈ r.classes, f n ≠ "" := by
    simp [classes_rename]
  rw [Pipeline.read_unmarked path hmark, ← hclasses, ← hread]
  rcases Sheet.read (sheet (rules.map (rename f))).text with _ | again
  · exact ⟨fun ⟨_, h⟩ => (nomatch h), nofun⟩
  · exact ⟨fun _ => rfl, fun _ => ⟨again, rfl⟩⟩

end PlainRule

section Again

/-- What is known, for the stages of a config, of reading what they write. -/
structure Rereads (c : Config) (path : Path) : Prop where
  /-- A sheet of plain rules, each of which is read as it is printed, is processed. What is written
  of it is read if no class that is left has an empty name, and only then. -/
  plain : ∀ text rules, Pipeline.read path text = .ok (PlainRule.sheet rules) →
    (∀ r ∈ rules, r.ReadsBack) → ∃ o, (Pipeline.ofConfig c).process text path = .ok o ∧
      ((∃ again, Pipeline.read path o.css = .ok again) ↔
        ∀ r ∈ PlainRule.leftBy c.stages rules, ∀ n ∈ r.classes,
          Naming.inTurn path c.namings n ≠ "")
  /-- A sheet that starts with a rule for a wrapper around nothing is processed too. What is written
  of it is never read if a stage scopes classes. -/
  hollow : ∀ text source name, Pipeline.read path text = .ok source →
    source.LeadsWith (.hollow name) → (Scoping.Wrapper.ofName? name).isSome → c.namings ≠ [] →
      ∃ o, (Pipeline.ofConfig c).process text path = .ok o ∧
        Pipeline.read path o.css = .error (.malformed path)

theorem rereads (c : Config) (path : Path) : Rereads c path where
  plain text rules hread hrules := by
    obtain ⟨o, ho, hcss⟩ := PlainRule.process_plain (c := c) hread
    refine ⟨o, ho, ?_⟩
    rw [hcss]
    exact PlainRule.read_rename_iff path _ fun r hr => hrules r (PlainRule.mem_of_mem_leftBy hr)
  hollow text source name hread hleads hname hne := by
    obtain ⟨last, ms, hrun, hlast⟩ := hleads.run path c.stages
    rw [← Config.namings, scopedInTurn_hollow path hne hname] at hlast
    refine ⟨⟨last.text, ms⟩, ?_, hlast.unread path⟩
    rw [Pipeline.process, hread]
    show (Pipeline.run path (c.stages.map Stage.ofConfig) source >>= _) = _
    rw [hrun]
    rfl

/-- A text is read by its tokens. -/
theorem Css.Sheet.read_of_scan {text : String} {ts : List Token} {ps : List Part} {sheet : Sheet}
    (hscan : Token.scan text.toList = some ts) (hparts : Part.ofTokens ts = some ps)
    (hsheet : ofParts ps = some sheet) : read text = some sheet := by
  rw [read, Part.scan, hscan]
  show (Part.ofTokens ts).bind ofParts = some sheet
  rw [hparts]
  exact hsheet

theorem unmarked_of_head? {cs : List Char} {first : Char} (h : cs.head? = some first)
    (hfirst : first.toNat ≠ 0xFEFF) : ∀ c ∈ cs.head?, c.toNat ≠ 0xFEFF := by
  intro c hc
  obtain rfl : first = c := Option.some.inj (h.symm.trans hc)
  exact hfirst

/-- A rule that is read again by one pattern and not by another, and one for an empty wrapper. -/
theorem rereads_of_red :
    let path : Path := ⟨"a.sss"⟩
    let text := ".a \x7b color: red \x7d"
    let named : Config := ⟨[.scopeClasses "[local]_x", .discardEmpty]⟩
    let unnamed : Config := ⟨[.scopeClasses "", .discardEmpty]⟩
    (∃ o, (Pipeline.ofConfig named).process text path = .ok o ∧
      ∃ again, Pipeline.read path o.css = .ok again) ∧
    (∃ o, (Pipeline.ofConfig unnamed).process text path = .ok o ∧
      ¬ ∃ again, Pipeline.read path o.css = .ok again) ∧
    ∃ o, (Pipeline.ofConfig .default).process ":global() \x7b color: red \x7d" path = .ok o ∧
      Pipeline.read path o.css = .error (.malformed path) := by
  intro path text named unnamed
  let red : Declaration := ⟨"color", .row [.word "red"], false⟩
  let a : PlainRule := ⟨⟨⟨false, none, [.className "a"], by simp, by simp⟩, []⟩, [], [red]⟩
  let block : List Token := [.blank " ", .ident ⟨"color", "color"⟩, .delim ':', .blank " ",
    .ident ⟨"red", "red"⟩, .blank " ", .close .curly]
  have hread : Pipeline.read path text = .ok (PlainRule.sheet [a]) := by
    have hscan : Token.scan text.toList =
        some (.delim '.' :: .ident ⟨"a", "a"⟩ :: .blank " " :: .open_ .curly :: block) := by
      decide +kernel
    have hdot : text.toList.head? = some '.' := by decide +kernel
    rw [Pipeline.read_unmarked path (unmarked_of_head? hdot (by decide)),
      Sheet.read_of_scan hscan rfl rfl]
    rfl
  have hdot : (a.rule.text 0).toList.head? = some '.' := by decide +kernel
  have hprinted : Token.scan (a.rule.text 0).toList = some [.delim '.', .ident ⟨"a", "a"⟩,
      .blank " ", .open_ .curly, .blank "\n  ", .ident ⟨"color", "color"⟩, .delim ':', .blank " ",
      .ident ⟨"red", "red"⟩, .delim ';', .blank "\n", .close .curly] := by decide +kernel
  have ha : a.ReadsBack :=
    ⟨unmarked_of_head? hdot (by decide), a.rule, Sheet.read_of_scan hprinted rfl rfl⟩
  have hrules : ∀ r ∈ [a], r.ReadsBack := List.forall_mem_singleton.2 ha
  refine ⟨?_, ?_, ?_⟩
  · obtain ⟨o, ho, hagain⟩ := (rereads named path).plain text [a] hread hrules
    have hname : Naming.inTurn path named.namings "a" ≠ "" := by decide +kernel
    exact ⟨o, ho, hagain.2 (List.forall_mem_singleton.2 (List.forall_mem_singleton.2 hname))⟩
  · obtain ⟨o, ho, hagain⟩ := (rereads unnamed path).plain text [a] hread hrules
    have hname : Naming.inTurn path unnamed.namings "a" = "" := by decide +kernel
    exact ⟨o, ho, fun h => hagain.1 h a List.mem_cons_self "a" List.mem_cons_self hname⟩
  · have hhollow : Pipeline.read path ":global() \x7b color: red \x7d" =
        .ok ⟨[.style (.selectors [.hollow "global"]) [.declaration red]]⟩ := by
      have hscan : Token.scan ":global() \x7b color: red \x7d".toList =
          some (.delim ':' :: .functionStart ⟨"global", "global"⟩ :: .close .paren :: .blank " " ::
            .open_ .curly :: block) := by decide +kernel
      have hcolon : ":global() \x7b color: red \x7d".toList.head? = some ':' := by decide +kernel
      rw [Pipeline.read_unmarked path (unmarked_of_head? hcolon (by decide)),
        Sheet.read_of_scan hscan rfl rfl]
      rfl
    have hleads : Sheet.LeadsWith (.hollow "global")
        ⟨[.style (.selectors [.hollow "global"]) [.declaration red]]⟩ :=
      ⟨[], _, [], rfl, by simp [Discarding.items]⟩
    exact (rereads .default path).hollow _ _ "global" hhollow hleads (by decide) (by decide)

/-- A pseudo-class with empty brackets is left as nothing by the default stages, and a class by an
empty pattern as its dot. Both sheets are read again as they were. -/
theorem dissolved_not_reread :
    let path : Path := ⟨"a.sss"⟩
    let hollow := ":global() \x7b\n  color: red;\n\x7d"
    let classed := ".a \x7b\n  color: red;\n\x7d"
    (Pipeline.read path hollow).map Sheet.text = .ok hollow ∧
      (Pipeline.read path classed).map Sheet.text = .ok classed ∧
      (Pipeline.ofConfig .default).process hollow path =
        .ok ⟨" \x7b\n  color: red;\n\x7d", [⟨scopingStage, .exports .empty⟩]⟩ ∧
      (Pipeline.read path " \x7b\n  color: red;\n\x7d").map Sheet.text = .error (.malformed path) ∧
      (Pipeline.ofConfig ⟨[.scopeClasses ""]⟩).process classed path =
        .ok ⟨". \x7b\n  color: red;\n\x7d", [⟨scopingStage, .exports ⟨[("a", "")]⟩⟩]⟩ ∧
      (Pipeline.read path ". \x7b\n  color: red;\n\x7d").map Sheet.text =
        .error (.malformed path) := by
  decide +kernel

end Again

/-- A character that the mark does not have stays. -/
theorem mem_replaceAll {o c : Char} {os : List Char} (h : c ∉ o :: os) (new : List Char)
    {cs : List Char} (hc : c ∈ cs) : c ∈ replaceAll (o :: os) new cs := by
  obtain ⟨xs, ys, rfl⟩ := List.append_of_mem hc
  have hfirst : (o :: os).isPrefixOf (c :: ys) = false := isPrefixOf_append_cons ys [] h
  rw [replaceAll_seam h, replaceAll_cons, hfirst, if_neg Bool.false_ne_true]
  exact List.mem_append_right _ List.mem_cons_self

namespace Naming

/-- A character of the pattern that no placeholder has. -/
def Keeps (naming : Naming) (c : Char) : Prop :=
  c ∈ naming.pattern.toList ∧ c ∉ nameMark ∧ c ∉ localMark ∧ c ∉ hashMark

theorem scopedName_ne_empty {naming : Naming} {c : Char} (h : naming.Keeps c) (path : Path)
    (name : String) : naming.scopedName path name ≠ "" := by
  obtain ⟨hc, hname, hlocal, hhash⟩ := h
  have hmem : c ∈ (naming.scopedName path name).toList := by
    rw [scopedName, String.toList_ofList]
    exact mem_replaceAll hhash _ (mem_replaceAll hlocal _ (mem_replaceAll hname _ hc))
  intro he
  rw [he] at hmem
  exact absurd hmem List.not_mem_nil

theorem inTurn_ne_empty {naming : Naming} {c : Char} (h : naming.Keeps c) (path : Path) :
    ∀ {namings : List Naming}, namings.getLast? = some naming → ∀ name,
      inTurn path namings name ≠ ""
  | [], hlast, _ => nomatch hlast
  | [n], hlast, name => by
    obtain rfl := Option.some.inj hlast
    exact scopedName_ne_empty h path name
  | n :: n' :: rest, hlast, name => by
    rw [List.getLast?_cons_cons] at hlast
    exact inTurn_ne_empty h path hlast _

end Naming

/-- If the last scoping stage has a pattern that keeps a character, as the default one keeps its
`_`, what is written of plain rules is read again. -/
theorem PlainRule.reread_of_keeps {c : Config} {path : Path} {text : String}
    {rules : List PlainRule} {naming : Naming} {kept : Char}
    (hread : Pipeline.read path text = .ok (sheet rules)) (hrules : ∀ r ∈ rules, r.ReadsBack)
    (hlast : c.namings.getLast? = some naming) (hkept : naming.Keeps kept) :
    ∃ o again, (Pipeline.ofConfig c).process text path = .ok o ∧
      Pipeline.read path o.css = .ok again := by
  obtain ⟨o, ho, hcss⟩ := process_plain (c := c) hread
  obtain ⟨again, hagain⟩ := (read_rename_iff path (Naming.inTurn path c.namings)
    fun r hr => hrules r (mem_of_mem_leftBy hr)).2
      fun _ _ n _ => Naming.inTurn_ne_empty hkept path hlast n
  exact ⟨o, again, ho, hcss ▸ hagain⟩

example : Naming.Keeps ⟨Naming.defaultPattern⟩ '_' := by
  unfold Naming.Keeps
  decide

end ScopedStyles
