import ScopedStyles.Proofs.Replacement
import ScopedStyles.Transform

/-!
# Where the bindings stand

The object of a whole module's import is bound by a statement in the place of the import
(`inlineMaps_binds_in_place`). Imports are bound before any code of the module runs; the statement
runs when it is its turn. So the name is bound before all code behind the import, and before all
code of the module if nothing before the import runs any, but not before the code that an import is
written behind (`runs_before_binding`).
-/

namespace ScopedStyles

namespace Script

/-- The declarations that run no code where they stand. -/
def Kind.declaresOnly : Kind → Bool
  | .functionDecl _ | .functionExpr | .interface _ | .typeAlias _ => true
  | .variables _ isDeclare | .classDecl isDeclare _ | .enum isDeclare _ | .module_ isDeclare _ _ =>
    isDeclare
  | _ => false

namespace Node

/-- Whether an item of a module runs code of the module where it stands; imports, exports of what
is declared elsewhere and directives do not. -/
def runsCode (n : Node) : Bool :=
  match n.kind with
  | .importDecl .. | .exportAll _ | .exportNamed _ | .namespaceExport | .empty => false
  | .exportDecl | .exportDefaultDecl => n.kids.any fun d => !d.kind.declaresOnly
  | k => !n.isDirective && !k.declaresOnly

/-- The second node binds an object of a class map in the place of the first one, an import. -/
inductive BindsFor (mapOf? : String → Option ClassMap) : Node → Node → Prop
  | mk {i name o : Node} {specifier : String} {span : Span} {m : ClassMap} :
    Refers i specifier (bind span name) → mapOf? specifier = some m → IsObjectOf m o →
    BindsFor mapOf? i (bind span name o)

/-- Items before the place of an import, with loads put in behind the directives: each of them
comes from an item that stood before the import. -/
structure StandBefore (mapOf? : String → Option ClassMap) (before earlier : List Node) : Prop where
  /-- They stand in the order in which they stood, loads by import apart. -/
  shape : ∃ (directives rest : List Node) (specifiers : List String),
    earlier = directives ++ specifiers.map loadByImport ++ rest ∧
    List.Forall₂ (Replaced mapOf?) (before.takeWhile isDirective) directives ∧
    List.Forall₂ (Replaced mapOf?) (before.dropWhile isDirective) rest
  /-- Those that run code came from items that did, or they bind objects for imports. -/
  runsCode : ∀ n ∈ earlier, n.runsCode →
    ∃ n₀ ∈ before, n₀.runsCode ∧ Replaced mapOf? n₀ n ∨ BindsFor mapOf? n₀ n

variable {mapOf? : String → Option ClassMap}

section Rows

theorem exists_left_of_mem {ns ns' : List Node} (h : List.Forall₂ (Replaced mapOf?) ns ns')
    {n' : Node} (hn : n' ∈ ns') : ∃ n ∈ ns, Replaced mapOf? n n' := by
  induction h with
  | nil => cases hn
  | cons hhead _ ih =>
    rcases List.mem_cons.1 hn with rfl | hn
    · exact ⟨_, List.mem_cons_self, hhead⟩
    · obtain ⟨n, hmem, hr⟩ := ih hn
      exact ⟨n, List.mem_cons_of_mem _ hmem, hr⟩

theorem exists_split_of_forall₂ {before after ns' : List Node} {i : Node}
    (h : List.Forall₂ (Replaced mapOf?) (before ++ i :: after) ns') :
    ∃ earlier i' later, ns' = earlier ++ i' :: later ∧
      List.Forall₂ (Replaced mapOf?) before earlier ∧ Replaced mapOf? i i' ∧
      List.Forall₂ (Replaced mapOf?) after later := by
  induction before generalizing ns' with
  | nil =>
    obtain ⟨i', later, hi, hafter, rfl⟩ := List.forall₂_cons_left_iff.1 h
    exact ⟨[], i', later, rfl, .nil, hi, hafter⟩
  | cons n before ih =>
    obtain ⟨n', rest, hn, hrest, rfl⟩ := List.forall₂_cons_left_iff.1 h
    obtain ⟨earlier, i', later, rfl, hbefore, hi, hafter⟩ := ih hrest
    exact ⟨n' :: earlier, i', later, rfl, .cons hn hbefore, hi, hafter⟩

end Rows

section Running

theorem Replaced.declaresOnly {n n' : Node} (h : Replaced mapOf? n n')
    (hn : n.kind.declaresOnly) : n'.kind.declaresOnly := by
  cases h with
  | replaced hr _ _ => cases hr <;> cases hn
  | kept => exact hn

/-- What runs code did so before the work, or it binds an object now. -/
theorem Replaced.runsCode {n n' : Node} (h : Replaced mapOf? n n') (hn : n'.runsCode) :
    n.runsCode ∨ BindsFor mapOf? n n' := by
  have hdirective := h.isDirective_eq
  cases h with
  | replaced hr hm ho =>
    cases hr with
    | wholeImport _ _ _ _ _ _ _ _ _ _ hs =>
      exact .inr (.mk (.wholeImport _ _ _ _ _ _ _ _ _ _ hs) hm ho)
    | call => exact .inl rfl
  | @kept k s ks ks' _ hks =>
    -- an export that declares something runs code if what it declares does
    have hany : (ks'.any fun d => !d.kind.declaresOnly) → ks.any fun d => !d.kind.declaresOnly := by
      simp only [List.any_eq_true, Bool.not_eq_true']
      rintro ⟨d', hd', hruns⟩
      obtain ⟨d, hd, hr⟩ := exists_left_of_mem hks hd'
      refine ⟨d, hd, ?_⟩
      by_contra hdeclares
      rw [Bool.not_eq_false] at hdeclares
      rw [hr.declaresOnly hdeclares] at hruns
      cases hruns
    left
    cases k with
    | exportDecl => exact hany hn
    | exportDefaultDecl => exact hany hn
    | _ =>
      rw [Node.runsCode] at hn ⊢
      simp only [kind, ← hdirective] at hn ⊢
      exact hn

end Running

section Before

/-- A reference that has a class map is replaced by an object of it. -/
theorem Replaced.eq_of_refers {n n' : Node} (h : Replaced mapOf? n n') {specifier : String}
    {put : Node → Node} (hn : Refers n specifier put) {m : ClassMap}
    (hm : mapOf? specifier = some m) : ∃ o, n' = put o ∧ IsObjectOf m o := by
  cases h with
  | @replaced _ _ _ _ o hr hm' ho =>
    have heq := (reference?_eq_some_iff.2 hr).symm.trans (reference?_eq_some_iff.2 hn)
    simp only [Option.some.injEq, Prod.mk.injEq] at heq
    obtain ⟨rfl, rfl⟩ := heq
    obtain rfl := Option.some.inj (hm'.symm.trans hm)
    exact ⟨o, rfl, ho⟩
  | kept hnone =>
    rw [hnone _ _ hn] at hm
    cases hm

theorem standBefore_withLoads {before earlier : List Node}
    (h : List.Forall₂ (Replaced mapOf?) before earlier) (specifiers : List String) :
    StandBefore mapOf? before (earlier.takeWhile isDirective ++ specifiers.map loadByImport ++
      earlier.dropWhile isDirective) := by
  obtain ⟨htop, hrest⟩ := forall₂_splitDirectives (fun _ _ hn => hn.isDirective_eq) h
  refine ⟨⟨_, _, specifiers, rfl, htop, hrest⟩, fun n hn hruns => ?_⟩
  have hmem : n ∈ earlier := by
    simp only [List.mem_append, List.mem_map] at hn
    rcases hn with (hn | ⟨specifier, -, rfl⟩) | hn
    · exact List.takeWhile_subset _ hn
    · cases hruns
    · exact (List.dropWhile_sublist _).subset hn
  obtain ⟨n₀, hn₀, hr⟩ := exists_left_of_mem h hmem
  refine ⟨n₀, hn₀, ?_⟩
  rcases hr.runsCode hruns with hruns₀ | hbinds
  · exact .inl ⟨hruns₀, hr⟩
  · exact .inr hbinds

end Before

end Node

namespace Program

open Node

/-- Loads are put in before everything that is no directive. -/
theorem withLoads_append_cons (p : Program) {before after : List Node} {n : Node}
    (hbody : p.body = before ++ n :: after) (hn : n.isDirective = false)
    (specifiers : List String) : (p.withLoads specifiers).body =
      before.takeWhile isDirective ++ specifiers.map p.load ++ before.dropWhile isDirective ++
        n :: after := by
  have hsplit : ∀ ns : List Node,
      (ns ++ n :: after).takeWhile isDirective = ns.takeWhile isDirective ∧
        (ns ++ n :: after).dropWhile isDirective = ns.dropWhile isDirective ++ n :: after := by
    intro ns
    induction ns with
    | nil => simp [hn]
    | cons m ms ih => by_cases hm : m.isDirective <;> simp [hm, ih]
  show p.body.takeWhile isDirective ++ specifiers.map p.load ++ p.body.dropWhile isDirective = _
  rw [hbody, (hsplit before).1, (hsplit before).2, List.append_assoc _ _ (n :: after)]

/-- The object of a module's import is bound where the import stood. Before it there are only the
items that stood before the import, with loads put in; so all that runs code before it did so
before the import, or it binds an object for an import too. All that stood behind the import is
behind it. -/
theorem inlineMaps_binds_in_place {p : Program} {r : Inlining} (hp : p.isModule)
    {before after : List Node} {i name : Node} {specifier : String} {span : Span} {m : ClassMap}
    (hbody : p.body = before ++ i :: after) (hi : Refers i specifier (bind span name))
    (hm : r.mapOf? specifier = some m) :
    ∃ (earlier later : List Node) (o : Node),
      (p.inlineMaps r).1.body = earlier ++ bind span name o :: later ∧ IsObjectOf m o ∧
      StandBefore r.mapOf? before earlier ∧ List.Forall₂ (Replaced r.mapOf?) after later ∧
      ((∀ n ∈ before, n.runsCode = false) →
        ∀ n ∈ earlier, n.runsCode → ∃ i' ∈ before, BindsFor r.mapOf? i' n) := by
  have hall : List.Forall₂ (Replaced r.mapOf?) p.body (inlineAll p.body r).1 :=
    replaced_inlineAll p.body r fun _ => rfl
  rw [hbody] at hall
  obtain ⟨early, i', later, hsplit, hbefore, hreplaced, hafter⟩ := exists_split_of_forall₂ hall
  obtain ⟨o, rfl, ho⟩ := hreplaced.eq_of_refers hi hm
  have hload : p.load = loadByImport := by rw [load, if_pos hp]
  have hstand := standBefore_withLoads hbefore (inlineAll p.body r).2.hoisted
  refine ⟨_, later, o, ?_, ho, hstand, hafter, fun hnone n hn hruns => ?_⟩
  · rw [← hload]
    exact withLoads_append_cons { p with body := (inlineAll p.body r).1 } (hbody ▸ hsplit) rfl _
  · obtain ⟨n₀, hn₀, ⟨hruns₀, -⟩ | hbinds⟩ := hstand.runsCode n hn hruns
    · rw [hnone n₀ hn₀] at hruns₀
      cases hruns₀
    · exact ⟨n₀, hn₀, hbinds⟩

/-- Two imports of one stylesheet, behind a directive and before a statement. -/
theorem inlineMaps_binds_behind_directive :
    let disk := ((Disk.empty ["app"]).put ["app"] .directory).put ["app", "a.sss"]
      (.file (.text ".x \x7b color: red \x7d"))
    let build : Build := .start disk (.fresh [.scopeClasses ⟨"[local]_y"⟩])
    let r := Inlining.start ⟨"App.jsx"⟩ build none
    let directive := Node.mk .exprStmt .none [text "use client" .none]
    let whole (local_ : Node) := Node.mk (.importDecl false .evaluation) .none
      [list [.mk .importNamespace .none [local_]], text "./a.sss" .none, absent]
    let statement := Node.mk .exprStmt .none
      [.mk .member .none [name "b" .none, name "x" .none]]
    let p : Program := ⟨true, none, .none,
      [directive, whole (name "a" .none), whole (name "b" .none), statement]⟩
    ∃ (earlier later : List Node) (o : Node),
      (p.inlineMaps r).1.body = earlier ++ bind .none (name "b" .none) o :: later ∧
      IsObjectOf ⟨[("x", "x_y")]⟩ o ∧
      List.Forall₂ (Replaced r.mapOf?) [statement] later ∧
      ∀ n ∈ earlier, n.runsCode →
        ∃ i ∈ [directive, whole (name "a" .none)], BindsFor r.mapOf? i n := by
  intro disk build r directive whole statement p
  have hsuffix : Specifier.suffix <:+ "./a.sss".toList := by decide
  have hmap : r.mapOf? "./a.sss" = some ⟨[("x", "x_y")]⟩ := by decide +kernel
  have hsplit : p.body = [directive, whole (name "a" .none)] ++ whole (name "b" .none) ::
      [statement] := rfl
  have hrefers : Refers (whole (name "b" .none)) "./a.sss" (bind .none (name "b" .none)) :=
    .wholeImport _ _ _ _ _ _ (some "./a.sss") _ _ _ hsuffix
  obtain ⟨earlier, later, o, hbody, ho, -, hlater, hruns⟩ :=
    inlineMaps_binds_in_place rfl hsplit hrefers hmap
  exact ⟨earlier, later, o, hbody, ho, hlater, hruns (by decide)⟩

/-- Code that an import is written behind runs before the name is bound. -/
theorem runs_before_binding :
    let disk := ((Disk.empty ["app"]).put ["app"] .directory).put ["app", "a.sss"]
      (.file (.text ".x \x7b color: red \x7d"))
    let build : Build := .start disk (.fresh [.scopeClasses ⟨"[local]_y"⟩])
    let r := Inlining.start ⟨"App.jsx"⟩ build none
    let css := name "css" .none
    let statement := Node.mk .exprStmt .none [.mk .call .none
      [name "f" .none, list [.mk .member .none [css, name "x" .none]], absent]]
    let whole := Node.mk (.importDecl false .evaluation) .none
      [list [.mk .importNamespace .none [css]], text "./a.sss" .none, absent]
    let p : Program := ⟨true, none, .none, [statement, whole]⟩
    ∃ o, (p.inlineMaps r).1.body = [loadByImport "./a.css", statement, bind .none css o] ∧
      IsObjectOf ⟨[("x", "x_y")]⟩ o ∧ statement.runsCode ∧
      (Transform.run "f(css.x);\nimport * as css from './a.sss';\n" "App.jsx" false build).map
          (fun done => done.1.code) =
        some "import \"./a.css\";\nf(css.x);\nvar css = \x7b\n    \"x\": \"x_y\"\n\x7d;\n" := by
  intro disk build r css statement whole p
  have hmap : r.mapOf? "./a.sss" = some ⟨[("x", "x_y")]⟩ := by decide +kernel
  obtain ⟨output, ho, hom⟩ := Inlining.mapOf?_eq_some hmap
  have hsibling : Specifier.sibling "./a.sss" = "./a.css" := by decide
  have hstatement : statement.inlineMaps r = (statement, r) := rfl
  have hreference : whole.reference? = some ("./a.sss", bind .none css) := rfl
  have hwhole := replacement_of_some hreference r
  rw [Inlining.inlineClassNames_of_ok ho hom, hsibling] at hwhole
  have hmaps : whole.inlineMaps r = (_, _) := inlineMaps_of_some hwhole
  refine ⟨_, ?_, isObjectOf_classObject none output.css _, rfl, by decide +kernel⟩
  simp only [Program.inlineMaps, inlineAll, hstatement, hmaps, p]
  rfl

end Program

end Script

end ScopedStyles
