import ScopedStyles.Proofs.SheetShape
import ScopedStyles.Proofs.Standing

/-!
# The class map and the classes that are written

The class map of a stylesheet is the one that the first scoping stage exports. A class that stands
outside the brackets of every `:global` and is not discarded is written by the name that the map
has for it, as the scoping stages behind the first one rename it in turn (`classMap_names_written`).
So the map has the names that are written if there is one scoping stage; with two it has not
(`classMap_outdated`).
-/

namespace ScopedStyles

open Css

/-- A class that stands outside stays outside and takes its new name. -/
def Css.Mention.RenamedBy (f : String → String) (m m' : Mention) : Prop :=
  m.standing = .outside → m'.standing = .outside ∧ m'.name = f m.name

theorem Css.Mention.RenamedBy.comp {f g : String → String} (m m' m'' : Mention)
    (h : m.RenamedBy f m') (h' : m'.RenamedBy g m'') : m.RenamedBy (g ∘ f) m'' := fun ho => by
  obtain ⟨ho', hn⟩ := h ho
  obtain ⟨ho'', hn'⟩ := h' ho'
  exact ⟨ho'', by rw [hn', hn, Function.comp_apply]⟩

open Mention (RenamedBy)

namespace Scoping

variable {s : Scope} {α : Type}

theorem Scope.Meets.and {ms : List Mention} {P Q : α → Prop} {act : Renaming α}
    (h : s.Meets ms P act) (h' : Yields Q act) : s.Meets ms (fun a => P a ∧ Q a) act := by
  intro met
  obtain ⟨a, ha, hp⟩ := h met
  have hq := h' (s.mapOf met)
  rw [ha] at hq
  exact ⟨a, ha, hp, hq⟩

theorem forall₂_renamedBy {ms ms' : List Mention} (h : s.Renames ms ms') (h' : Stays ms ms') :
    List.Forall₂ (RenamedBy s.scopedName) ms ms' := by
  unfold Scope.Renames at h
  induction h' with
  | nil => exact .nil
  | @cons m m' ms ms' hm _ ih =>
    rw [List.map_cons, List.map_cons, List.cons.injEq] at h
    refine .cons (fun ho => ⟨hm ho, ?_⟩) (ih h.2)
    rw [h.1, Scope.nameOf, if_neg (by simp [ho])]

theorem meets_target_renamedBy (s : Scope) (t : Target) :
    s.Meets t.mentions (fun t' => List.Forall₂ (RenamedBy s.scopedName) t.mentions t'.mentions)
      (target s t) :=
  ((meets_target s t).and (stays_target s t)).mono fun _ h => forall₂_renamedBy h.1 h.2

theorem meets_start_renamedBy (s : Scope) (p : Prelude) :
    s.Meets p.mentions (fun p' => List.Forall₂ (RenamedBy s.scopedName) p.mentions p'.mentions)
      (start s p) :=
  ((meets_start s p).and (stays_start s p)).mono fun _ h => forall₂_renamedBy h.1 h.2

mutual

theorem meets_rule_alike (s : Scope) : ∀ r : Rule,
    s.Meets r.mentions (Rule.Alike (RenamedBy s.scopedName) r) (rule s r)
  | .style t block => by
    rw [rule, Rule.mentions]
    exact (meets_target_renamedBy s t).bind fun t' h =>
      (meets_items_alike s block).map fun block' h' => .style h h'
  | .atBlock n p block => by
    rw [rule, Rule.mentions]
    exact (meets_start_renamedBy s p).bind fun p' h =>
      (meets_items_alike s block).map fun block' h' => .atBlock h h'
  | .statement n p => by
    rw [rule, Rule.mentions]
    exact (meets_start_renamedBy s p).map fun p' h => .statement h

theorem meets_item_alike (s : Scope) : ∀ i : Item,
    s.Meets i.mentions (Item.Alike (RenamedBy s.scopedName) i) (item s i)
  | .declaration d => by
    rw [item, Item.mentions]
    exact meets_pure (.declaration d)
  | .rule r => by
    rw [item, Item.mentions]
    exact (meets_rule_alike s r).map fun r' h => .rule h
  | .keyframe selectors block => by
    rw [item, Item.mentions]
    exact (meets_items_alike s block).map fun block' h => .keyframe h
  | .raw t => by
    rw [item, Item.mentions]
    exact meets_pure (.raw t)

theorem meets_items_alike (s : Scope) : ∀ is : List Item,
    s.Meets (blockMentions is) (BlocksAlike (RenamedBy s.scopedName) is) (items s is)
  | [] => by
    rw [items, blockMentions]
    exact meets_pure .nil
  | i :: rest => by
    rw [items, blockMentions]
    exact (meets_item_alike s i).bind fun i' h =>
      (meets_items_alike s rest).map fun is' h' => .cons h h'

end

theorem meets_rules_alike (s : Scope) : ∀ rs : List Rule,
    s.Meets (rs.flatMap Rule.mentions)
      (List.Forall₂ (Rule.Alike (RenamedBy s.scopedName)) rs) (rules s rs)
  | [] => meets_pure .nil
  | r :: rs => by
    rw [rules, List.flatMap_cons]
    exact (meets_rule_alike s r).bind fun r' h =>
      (meets_rules_alike s rs).map fun rs' h' => .cons h h'

/-- A scoped sheet has the shape of the sheet, and the map that is exported has the names of what
is not within dissolved brackets. -/
theorem run_alike (naming : Naming) (path : Path) (sheet : Sheet) :
    sheet.Alike (RenamedBy (naming.scopedName path)) (run naming path sheet).1 ∧
      (run naming path sheet).2 =
        ⟨scopingStage, .exports (Scope.mapOf ⟨naming, path⟩ (renamed sheet.mentions))⟩ := by
  obtain ⟨rs, hrs, halike⟩ := meets_rules_alike ⟨naming, path⟩ sheet.rules []
  have hempty : ClassMap.empty = Scope.mapOf ⟨naming, path⟩ [] := rfl
  rw [run, hempty, hrs]
  exact ⟨halike, rfl⟩

/-- A class that stands outside is in the map. -/
theorem get?_mapOf_renamed (s : Scope) {ms : List Mention} {m : Mention} (hm : m ∈ ms)
    (ho : m.standing = .outside) :
    (s.mapOf (renamed ms)).get? m.name = some (s.scopedName m.name) := by
  rw [get?_mapOf, if_pos]
  exact List.mem_map.2 ⟨m, List.mem_filter.2 ⟨hm, by simp [ho]⟩, rfl⟩

end Scoping

/-- The names that a name takes one after the other. -/
def Naming.inTurn (path : Path) : List Naming → String → String
  | [], name => name
  | naming :: rest, name => inTurn path rest (naming.scopedName path name)

def StageConfig.naming? : StageConfig → Option Naming
  | .scopeClasses pattern => some ⟨pattern⟩
  | .discardEmpty => none

/-- How the scoping stages name classes, in their order. -/
def Config.namings (c : Config) : List Naming := c.stages.filterMap StageConfig.naming?

/-- The sheet without its empty rules, if there is a stage that discards them. -/
def Css.Sheet.leftBy (stages : List StageConfig) (sheet : Sheet) : Sheet :=
  if .discardEmpty ∈ stages then sheet.discard else sheet

/-- Empty rules are gone once they are discarded. -/
theorem Css.Sheet.leftBy_discard (stages : List StageConfig) (sheet : Sheet) :
    sheet.discard.leftBy stages = sheet.leftBy (.discardEmpty :: stages) := by
  rw [leftBy, leftBy, if_pos List.mem_cons_self, discard_discard, ite_self]

theorem Css.Sheet.leftBy_scopeClasses (pattern : String) (stages : List StageConfig)
    (sheet : Sheet) : sheet.leftBy (.scopeClasses pattern :: stages) = sheet.leftBy stages := by
  simp [leftBy]

theorem Css.Sheet.mentions_leftBy (stages : List StageConfig) (sheet : Sheet) :
    (sheet.leftBy stages).mentions.Sublist sheet.mentions := by
  unfold leftBy
  split_ifs
  · exact mentions_discard sheet
  · exact .refl _

namespace Pipeline

theorem run_cons_eq_ok {path : Path} {stage : Stage} {rest : Pipeline} {sheet last : Sheet}
    {ms : List Message} (h : run path (stage :: rest) sheet = .ok (last, ms)) :
    ∃ next first more, stage.run path sheet = .ok (next, first) ∧
      run path rest next = .ok (last, more) ∧ ms = first ++ more := by
  rw [run] at h
  rcases hs : stage.run path sheet with e | ⟨next, first⟩
  · simp [hs, bind, Except.bind] at h
  rcases hr : run path rest next with e | ⟨made, more⟩
  · simp [hs, hr, bind, Except.bind] at h
  simp only [hs, hr, bind, Except.bind, pure, Except.pure, Except.ok.injEq, Prod.mk.injEq] at h
  obtain ⟨rfl, rfl⟩ := h
  exact ⟨next, first, more, rfl, hr, rfl⟩

variable {path : Path} {last : Sheet} {stages : List StageConfig}

theorem run_discardEmpty {sheet : Sheet} {ms : List Message}
    (h : run path ((.discardEmpty :: stages).map Stage.ofConfig) sheet = .ok (last, ms)) :
    ∃ more, run path (stages.map Stage.ofConfig) sheet.discard = .ok (last, more) ∧
      classMapOf? ms = classMapOf? more := by
  obtain ⟨next, first, more, hs, hr, rfl⟩ := run_cons_eq_ok h
  obtain rfl : sheet.discard = next := congrArg Prod.fst (Except.ok.inj hs)
  obtain rfl : (Discarding.run sheet).2 = first := congrArg Prod.snd (Except.ok.inj hs)
  refine ⟨more, hr, ?_⟩
  -- a warning, if there is one, exports nothing
  show classMapOf? ((if (Discarding.rules sheet.rules).2 = 0 then []
    else [Discarding.warning (Discarding.rules sheet.rules).2]) ++ more) = classMapOf? more
  split_ifs <;> rfl

theorem run_scopeClasses {pattern : String} {sheet : Sheet} {ms : List Message}
    (h : run path ((.scopeClasses pattern :: stages).map Stage.ofConfig) sheet = .ok (last, ms)) :
    ∃ more, run path (stages.map Stage.ofConfig) (Scoping.run ⟨pattern⟩ path sheet).1 =
        .ok (last, more) ∧
      classMapOf? ms =
        some (Scoping.Scope.mapOf ⟨⟨pattern⟩, path⟩ (Scoping.renamed sheet.mentions)) := by
  obtain ⟨next, first, more, hs, hr, rfl⟩ := run_cons_eq_ok h
  obtain rfl : (Scoping.run ⟨pattern⟩ path sheet).1 = next := congrArg Prod.fst (Except.ok.inj hs)
  obtain rfl : [(Scoping.run ⟨pattern⟩ path sheet).2] = first :=
    congrArg Prod.snd (Except.ok.inj hs)
  refine ⟨more, hr, ?_⟩
  rw [(Scoping.run_alike ⟨pattern⟩ path sheet).2]
  rfl

/-- Whatever came before, the stages leave of a sheet what is not discarded, and rename it in turn
from the names that it has. -/
theorem alike_run : ∀ (stages : List StageConfig) {kept sheet : Sheet} {ms : List Message}
    {f : String → String}, kept.Alike (RenamedBy f) sheet →
      run path (stages.map Stage.ofConfig) sheet = .ok (last, ms) →
      (kept.leftBy stages).Alike
        (RenamedBy (Naming.inTurn path (stages.filterMap StageConfig.naming?) ∘ f)) last
  | [], kept, sheet, ms, f, ha, h => by
    simp only [List.map_nil, run, Except.ok.injEq, Prod.mk.injEq] at h
    obtain ⟨rfl, rfl⟩ := h
    exact ha
  | .discardEmpty :: rest, kept, sheet, ms, f, ha, h => by
    obtain ⟨more, hr, -⟩ := run_discardEmpty h
    rw [← Sheet.leftBy_discard]
    exact alike_run rest ha.discard hr
  | .scopeClasses pattern :: rest, kept, sheet, ms, f, ha, h => by
    obtain ⟨more, hr, -⟩ := run_scopeClasses h
    rw [Sheet.leftBy_scopeClasses]
    exact alike_run rest (ha.comp RenamedBy.comp (Scoping.run_alike ⟨pattern⟩ path sheet).1) hr

/-- The names of the classes outside are those that the first scoping stage exports, renamed by the
scoping stages behind it. -/
theorem names_run : ∀ (stages : List StageConfig) {sheet : Sheet} {ms : List Message}
    {m : ClassMap}, run path (stages.map Stage.ofConfig) sheet = .ok (last, ms) →
      classMapOf? ms = some m →
      List.Forall₂ (fun n n' : Mention => n.standing = .outside →
          ∃ exported, m.get? n.name = some exported ∧
            n'.name = Naming.inTurn path (stages.filterMap StageConfig.naming?).tail exported)
        (sheet.leftBy stages).mentions last.mentions
  | [], sheet, ms, m, h, hm => by
    simp only [List.map_nil, run, Except.ok.injEq, Prod.mk.injEq] at h
    obtain ⟨-, rfl⟩ := h
    cases hm
  | .discardEmpty :: rest, sheet, ms, m, h, hm => by
    obtain ⟨more, hr, hmore⟩ := run_discardEmpty h
    rw [← Sheet.leftBy_discard]
    exact names_run rest hr (hmore ▸ hm)
  | .scopeClasses pattern :: rest, sheet, ms, m, h, hm => by
    obtain ⟨more, hr, hexports⟩ := run_scopeClasses h
    obtain rfl := Option.some.inj (hexports.symm.trans hm)
    rw [Sheet.leftBy_scopeClasses]
    -- what is left of the sheet was there when its names were exported
    have hnamed := fun n (hn : n ∈ (sheet.leftBy rest).mentions) =>
      Scoping.get?_mapOf_renamed ⟨⟨pattern⟩, path⟩ ((sheet.mentions_leftBy rest).subset hn)
    have halike := alike_run rest (Scoping.run_alike ⟨pattern⟩ path sheet).1 hr
    refine ((List.forall₂_and_left _ _).2 ⟨hnamed, halike.mentions⟩).imp ?_
    rintro n n' ⟨hget, hren⟩ ho
    exact ⟨_, hget ho, (hren ho).2⟩

theorem process_eq_ok {stages : Pipeline} {text : String} {o : Output}
    (h : process stages text path = .ok o) :
    ∃ source last, read path text = .ok source ∧ run path stages source = .ok (last, o.messages) ∧
      o.css = last.text := by
  rw [process] at h
  rcases hr : read path text with e | source
  · simp [hr, bind, Except.bind] at h
  rcases hs : run path stages source with e | ⟨last, ms⟩
  · simp [hr, hs, bind, Except.bind] at h
  simp only [hr, hs, bind, Except.bind, pure, Except.pure, Except.ok.injEq] at h
  obtain rfl := h
  exact ⟨source, last, rfl, hs, rfl⟩

end Pipeline

/-- Each class that is written is a class of the source that is not discarded. If that stands
outside the brackets of every `:global`, the class map has a name for it, and it is written by that
name as the scoping stages behind the first one rename it in turn. So it is written by the name that
the class map has if there are no further scoping stages. -/
theorem classMap_names_written {c : Config} {text : String} {path : Path} {o : Output}
    {m : ClassMap} (h : (Pipeline.ofConfig c).process text path = .ok o)
    (hm : o.classMap? = some m) :
    ∃ source last : Sheet, Pipeline.read path text = .ok source ∧ o.css = last.text ∧
      List.Forall₂ (fun n n' : Mention => n.standing = .outside →
          ∃ exported, m.get? n.name = some exported ∧
            n'.name = Naming.inTurn path c.namings.tail exported)
        (source.leftBy c.stages).mentions last.mentions ∧
      (c.namings.length ≤ 1 →
        List.Forall₂ (fun n n' : Mention => n.standing = .outside →
            m.get? n.name = some n'.name)
          (source.leftBy c.stages).mentions last.mentions) := by
  obtain ⟨source, last, hread, hrun, hcss⟩ := Pipeline.process_eq_ok h
  have hnames := Pipeline.names_run c.stages hrun hm
  refine ⟨source, last, hread, hcss, hnames, fun hone => hnames.imp fun n n' hn ho => ?_⟩
  obtain ⟨exported, hget, hn'⟩ := hn ho
  have htail : (c.stages.filterMap StageConfig.naming?).tail = [] :=
    List.eq_nil_of_length_eq_zero (by rw [List.length_tail, ← Config.namings]; omega)
  rw [hget, hn', htail, Naming.inTurn]

/-- A sheet with an empty rule and a class within `:global`, scoped between two discardings. -/
theorem classMap_names_written_among_discardings :
    let c : Config := ⟨[.discardEmpty, .scopeClasses "[local]_x", .discardEmpty]⟩
    let text := ".a \x7b color: red \x7d .b \x7b\x7d :global(.g) .c \x7b color: red \x7d"
    let o : Output := ⟨".a_x \x7b\n  color: red;\n\x7d\n.g .c_x \x7b\n  color: red;\n\x7d",
      [⟨"discard-empty", .warning "removed 1 empty rule(s)"⟩,
        ⟨"css-modules", .exports ⟨[("a", "a_x"), ("c", "c_x")]⟩⟩]⟩
    (Pipeline.ofConfig c).process text ⟨"a.sss"⟩ = .ok o ∧
      o.classMap? = some ⟨[("a", "a_x"), ("c", "c_x")]⟩ ∧
      ∃ source last : Sheet, Pipeline.read ⟨"a.sss"⟩ text = .ok source ∧ o.css = last.text ∧
        List.Forall₂ (fun n n' : Mention => n.standing = .outside →
            ClassMap.get? ⟨[("a", "a_x"), ("c", "c_x")]⟩ n.name = some n'.name)
          source.discard.mentions last.mentions := by
  intro c text o
  have hprocess : (Pipeline.ofConfig c).process text ⟨"a.sss"⟩ = .ok o := by decide +kernel
  have hmap : o.classMap? = some ⟨[("a", "a_x"), ("c", "c_x")]⟩ := by decide +kernel
  obtain ⟨source, last, hread, hcss, -, hnames⟩ := classMap_names_written hprocess hmap
  exact ⟨hprocess, hmap, source, last, hread, hcss, hnames (by decide)⟩

/-- With two scoping stages the class map has not the name that is written: the second one renames
what the first one has exported. -/
theorem classMap_outdated :
    (Pipeline.ofConfig ⟨[.scopeClasses "[local]_x", .scopeClasses "[local]_y"]⟩).process
        ".a \x7b color: red \x7d" ⟨"a.sss"⟩ =
      .ok ⟨".a_x_y \x7b\n  color: red;\n\x7d",
        [⟨"css-modules", .exports ⟨[("a", "a_x")]⟩⟩,
          ⟨"css-modules", .exports ⟨[("a_x", "a_x_y")]⟩⟩]⟩ ∧
      Output.classMap? ⟨".a_x_y \x7b\n  color: red;\n\x7d",
        [⟨"css-modules", .exports ⟨[("a", "a_x")]⟩⟩,
          ⟨"css-modules", .exports ⟨[("a_x", "a_x_y")]⟩⟩]⟩ = some ⟨[("a", "a_x")]⟩ := by
  decide +kernel

end ScopedStyles
