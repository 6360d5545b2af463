import ScopedStyles.Proofs.PlainRules
import ScopedStyles.Proofs.PlainTargets

/-!
# Selectors of which nothing is left

Scoping dissolves `:global()` and `:local()`, and where one stands alone around nothing no selector
is left. A sheet that starts with such a rule starts with it after any stages
(`Sheet.LeadsWith.run`). Printed without its first selector it starts with a block or with a comma,
and neither is read (`Sheet.LeadsWith.unread`).
-/

namespace ScopedStyles

open Css
open Scoping (result complex Wrapper)

section Emptied

/-- A pseudo-class with nothing in its brackets, alone. -/
def Css.ComplexSelector.hollow (name : String) : ComplexSelector :=
  .mk [.compound (.mk false none [.pseudoClass name (.complex (.mk []))])]

theorem result_complex_nil (s : Scoping.Scope) : result (complex s (.mk [])) = .mk [] := by
  rw [complex, Scoping.children]
  rfl

/-- Nothing is left of a wrapper around nothing. -/
theorem result_complex_hollow (s : Scoping.Scope) {name : String}
    (h : (Wrapper.ofName? name).isSome) : result (complex s (.hollow name)) = .mk [] := by
  have hconditions :
      result (Scoping.conditions s [.pseudoClass name (.complex (.mk []))] []) = [] := by
    rw [Scoping.conditions]
    obtain ⟨_ | _, hw⟩ := Option.isSome_iff_exists.1 h <;> rw [hw]
    · rw [Scoping.conditions]
      rfl
    · refine ((Scoping.settled_complex s _).result_bind
        fun _ => Scoping.settled_conditions s _ _).trans ?_
      rw [result_complex_nil, Scoping.conditions]
      rfl
  have hpushed : Scoping.pushHead false none [] = [] := rfl
  rw [ComplexSelector.hollow, complex, (Scoping.settled_children s _ _).result_map,
    Scoping.children, hpushed, (Scoping.settled_conditions s _ _).result_bind fun _ =>
      Scoping.settled_children s _ _, hconditions, Scoping.children]
  rfl

/-- A selector as the scoping stages leave it one after the other. -/
def scopedInTurn (path : Path) : List Naming → ComplexSelector → ComplexSelector
  | [], c => c
  | naming :: rest, c => scopedInTurn path rest (result (complex ⟨naming, path⟩ c))

theorem scopedInTurn_nil (path : Path) : ∀ namings : List Naming,
    scopedInTurn path namings (.mk []) = .mk []
  | [] => rfl
  | naming :: rest => by rw [scopedInTurn, result_complex_nil, scopedInTurn_nil path rest]

theorem scopedInTurn_hollow (path : Path) {namings : List Naming} (hne : namings ≠ [])
    {name : String} (h : (Wrapper.ofName? name).isSome) :
    scopedInTurn path namings (.hollow name) = .mk [] := by
  obtain ⟨naming, rest, rfl⟩ := List.exists_cons_of_ne_nil hne
  rw [scopedInTurn, result_complex_hollow _ h, scopedInTurn_nil]

end Emptied

/-- The sheet starts with a style rule that has this selector first and is not empty. -/
def Css.Sheet.LeadsWith (c : ComplexSelector) (sheet : Sheet) : Prop :=
  ∃ more block rest, sheet.rules = .style (.selectors (c :: more)) block :: rest ∧
    (Discarding.items block).1 ≠ []

namespace Css.Sheet

variable {c : ComplexSelector} {sheet : Sheet}

theorem LeadsWith.scope (h : sheet.LeadsWith c) (naming : Naming) (path : Path) :
    (Scoping.run naming path sheet).1.LeadsWith (result (complex ⟨naming, path⟩ c)) := by
  obtain ⟨more, block, rest, hrules, hblock⟩ := h
  let scope : Scoping.Scope := ⟨naming, path⟩
  have hrule : result (Scoping.rule scope (.style (.selectors (c :: more)) block)) =
      .style (.selectors (result (complex scope c) :: result (Scoping.complexes scope more)))
        (result (Scoping.items scope block)) := by
    rw [Scoping.result_rule_style, Scoping.target, (Scoping.settled_complexes scope _).result_map,
      Scoping.result_complexes_cons]
  refine ⟨result (Scoping.complexes scope more), result (Scoping.items scope block),
    result (Scoping.rules scope rest), ?_, ?_⟩
  · show result (Scoping.rules scope sheet.rules) = _
    rw [hrules, Scoping.result_rules_cons, hrule]
  · rw [Scoping.discard_result_items]
    obtain ⟨i, is, hi⟩ := List.exists_cons_of_ne_nil hblock
    rw [hi, Scoping.result_items_cons]
    exact List.cons_ne_nil _ _

theorem LeadsWith.discard (h : sheet.LeadsWith c) : sheet.discard.LeadsWith c := by
  obtain ⟨more, block, rest, hrules, hblock⟩ := h
  have hkept : (Discarding.rule (.style (.selectors (c :: more)) block)).1 =
      some (.style (.selectors (c :: more)) (Discarding.items block).1) := by
    rw [Discarding.rule_style, Discarding.unlessEmpty_eq_some]
    exact ⟨hblock, rfl⟩
  refine ⟨more, (Discarding.items block).1, (Discarding.rules rest).1, ?_, ?_⟩
  · show (Discarding.rules sheet.rules).1 = _
    rw [hrules, Discarding.rules_eq, Discarding.rules_eq, List.filterMap_cons, hkept]
  · rwa [Discarding.items_items]

theorem LeadsWith.run (path : Path) : ∀ (stages : List StageConfig) {c : ComplexSelector}
    {sheet : Sheet}, sheet.LeadsWith c → ∃ last ms,
      Pipeline.run path (stages.map Stage.ofConfig) sheet = .ok (last, ms) ∧
        last.LeadsWith (scopedInTurn path (stages.filterMap StageConfig.naming?) c)
  | [], c, sheet, h => ⟨sheet, [], rfl, h⟩
  | .discardEmpty :: stages, c, sheet, h => by
    obtain ⟨last, ms, hrun, hlast⟩ := LeadsWith.run path stages h.discard
    exact ⟨last, _, Pipeline.run_cons rfl hrun, hlast⟩
  | .scopeClasses pattern :: stages, c, sheet, h => by
    obtain ⟨last, ms, hrun, hlast⟩ := LeadsWith.run path stages (h.scope ⟨pattern⟩ path)
    exact ⟨last, _, Pipeline.run_cons rfl hrun, hlast⟩

section Hollow

theorem targetOf_comma (ps : List Part) : targetOf false (.token (.delim ',') :: ps) = none := by
  have hatoms : atomsOf (.token (.delim ',') :: ps) = (atomsStep
      (atoms (Part.depthOf (.token (.delim ',') :: ps))) false ps).map (Atom.comma :: ·) := by
    rw [atomsOf, atoms, atomsStep_comma]
    rfl
  have hlist : ∀ as, ComplexSelector.listOfAtoms false (.comma :: as) = none := fun as => by
    have hsplit := Row.splitCommas_append (List.forall_mem_nil _) as
    rw [List.nil_append] at hsplit
    rw [ComplexSelector.listOfAtoms, hsplit, List.mapM_cons]
    rfl
  rw [targetOf, if_neg Bool.false_ne_true, ComplexSelector.listOfParts, hatoms]
  rcases atomsStep (atoms (Part.depthOf (.token (.delim ',') :: ps))) false ps with _ | as
  · rfl
  · rw [Option.map_some, Option.bind_eq_bind, Option.bind_some, hlist]
    rfl

/-- No sheet starts with a comma. -/
theorem ofParts_comma (ps : List Part) : ofParts (.token (.delim ',') :: ps) = none := by
  have hstyle : ∀ f, styleRule f false (.token (.delim ',') :: ps) = none := fun f => by
    rw [styleRule, splitBlock]
    · rcases splitBlock ps with ⟨start, _ | inner, others⟩
      · rfl
      · simp only [targetOf_comma]
        rfl
    all_goals simp
  rw [ofParts, ruleList]
  · rw [hstyle]
    rfl
  all_goals simp

/-- No sheet starts with a block. -/
theorem ofParts_block (inner ps : List Part) :
    ofParts (.token (.blank " ") :: .block .curly inner :: ps) = none := by
  have hstyle : ∀ f, styleRule f false (.block .curly inner :: ps) = none := fun _ => rfl
  rw [ofParts, List.length_cons, ruleList, ruleList]
  · rw [hstyle]
    rfl
  all_goals simp

/-- Before the text behind some tokens is read, those are. -/
theorem read_scans {cs rest : List Char} {ts : List Token} (h : Token.Scans cs ts rest)
    (hlength : cs.length = ts.length + rest.length) :
    read (String.ofList cs) = (Token.scan rest).bind fun us =>
      (Part.ofTokens (ts ++ us)).bind ofParts := by
  have hscan : Token.scan cs = (Token.scan rest).map (ts ++ ·) := by
    rw [Token.scan, hlength, h.scanFrom_eq]
    rfl
  rw [read, Part.scan, String.toList_ofList, hscan]
  rcases Token.scan rest with _ | us <;> rfl

theorem read_comma (cs : List Char) : read (String.ofList (',' :: cs)) = none := by
  rw [read_scans (Token.scans_delim (by simp)) (by
    simp only [List.length_cons, List.length_nil]
    omega), Option.bind_eq_none_iff]
  intro us _
  rw [Part.ofTokens_append us (Part.ofTokens_plain (by decide)), Option.bind_eq_none_iff]
  intro ps hps
  obtain ⟨qs, -, rfl⟩ := Option.map_eq_some_iff.1 hps
  exact ofParts_comma qs

theorem read_block (cs : List Char) : read (String.ofList (' ' :: '\x7b' :: cs)) = none := by
  rw [read_scans (scans_blockStart cs) (by
    simp only [List.length_cons, List.length_nil]
    omega), Option.bind_eq_none_iff]
  intro us _
  rw [Option.bind_eq_none_iff]
  intro ps hps
  obtain ⟨inner, behind, rfl⟩ := Part.ofTokens_block hps
  exact ofParts_block inner behind

theorem intercalate_cons (between first : List Char) (others : List (List Char)) :
    ∃ last, between.intercalate (first :: others) = first ++ last := by
  rcases others with _ | ⟨next, others⟩
  · exact ⟨[], by simp⟩
  · exact ⟨_, by rw [List.intercalate_cons_cons, List.append_assoc]⟩

/-- A block or a comma comes first where a selector should be. -/
theorem LeadsWith.text (h : sheet.LeadsWith (.mk [])) :
    ∃ cs, sheet.text.toList = ' ' :: '\x7b' :: cs ∨ sheet.text.toList = ',' :: cs := by
  obtain ⟨more, block, rest, hrules, -⟩ := h
  obtain ⟨inner, hinner, -⟩ := blockText_closed 0 block
  -- the selectors as they are printed, the first one as nothing
  let selectors := [',', ' ', '\n'].intercalate ([] :: more.map fun c => c.text.toList)
  have hrule : (Rule.text 0 (.style (.selectors (.mk [] :: more)) block)).toList =
      selectors ++ ' ' :: '\x7b' :: inner := by
    rw [Rule.text, String.toList_append, String.toList_append, hinner, Target.text,
      String.toList_intercalate, List.map_cons, List.map_cons, List.map_map, List.append_assoc]
    rfl
  obtain ⟨last, hlast⟩ := intercalate_cons ['\n'] (selectors ++ ' ' :: '\x7b' :: inner)
    (rest.map fun r => (r.text 0).toList)
  have htext : sheet.text.toList = selectors ++ ' ' :: '\x7b' :: (inner ++ last) := by
    rw [Sheet.text, hrules, String.toList_intercalate, List.map_cons, List.map_cons, hrule,
      List.map_map]
    exact hlast.trans (by simp)
  rw [htext]
  rcases more with _ | ⟨next, more⟩
  · exact ⟨_, .inl rfl⟩
  · exact ⟨_, .inr rfl⟩

/-- What is printed for a sheet that starts without a selector is not read. -/
theorem LeadsWith.unread (h : sheet.LeadsWith (.mk [])) (path : Path) :
    Pipeline.read path sheet.text = .error (.malformed path) := by
  have hread : read sheet.text = none := by
    obtain ⟨cs, hcs | hcs⟩ := h.text <;> rw [← String.ofList_toList (s := sheet.text), hcs]
    · exact read_block cs
    · exact read_comma cs
  have hmark : ∀ c ∈ sheet.text.toList.head?, c.toNat ≠ 0xFEFF := by
    obtain ⟨cs, hcs | hcs⟩ := h.text <;> rw [hcs] <;> simp
  rw [Pipeline.read_unmarked path hmark, hread, Option.elim_none]

end Hollow

end Css.Sheet

end ScopedStyles
