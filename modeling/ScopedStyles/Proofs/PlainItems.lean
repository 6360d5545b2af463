import ScopedStyles.Proofs.LeadingObject

/-!
# No statement starts with an object

What a reader of statements, declarations, imports, exports or markup reads does not start with an
object. All but the statements that are expressions start with a sign or a word of their own; an
expression could start with an object at a brace only, and there a block is read
(`yields_statementIn`). By induction on the depth this holds for the whole grammar (`Careful`), and
so for every item of a program that is read (`plain_of_read`).
-/

namespace ScopedStyles.Script

open Node (Plain Continues)

namespace Read

variable {α β : Type}

variable (g : Grammar)

section Declarations

theorem yields_block : Yields Plain (block g) := by
  unfold block
  repeat' first | exact yields_plain_node rfl | refine yields_bind fun _ => ?_

theorem yields_variablesFrom (lo : Nat) (isDeclare : Bool) (w : Variable) :
    Yields Plain (variablesFrom g lo isDeclare w) := by
  unfold variablesFrom
  repeat' first | exact yields_plain_node rfl | refine yields_bind fun _ => ?_

theorem yields_usingFrom (lo : Nat) (w : Variable) : Yields Plain (usingFrom g lo w) := by
  unfold usingFrom
  refine yields_bind fun _ => yields_bind fun _ =>
    (yields_variablesFrom g lo false w).bind fun n hn => ?_
  exact yields_bind fun _ => yields_pure hn

theorem yields_forHead (isAwait : Bool) :
    Yields (fun k => k.1.isPlain = true) (forHead g isAwait) := by
  unfold forHead
  have hparts : ∀ first, Yields (fun k => k.1.isPlain = true) (forParts g first) := fun first => by
    unfold forParts
    repeat' first | exact yields_pure rfl | refine yields_bind fun _ => ?_
  have hvalues : ∀ left, Yields (fun k => k.1.isPlain = true) (forValues g isAwait left) :=
    fun left => by
      unfold forValues
      repeat' first | exact yields_pure rfl | refine yields_bind fun _ => ?_ | split
  have hvariables : ∀ lo w, Yields (fun k => k.1.isPlain = true) (forVariables g isAwait lo w) :=
    fun lo w => by
      unfold forVariables
      repeat' first
        | with_reducible exact hparts _
        | with_reducible exact hvalues _
        | refine yields_bind fun _ => ?_
        | split
  repeat' first
    | with_reducible exact hparts _
    | with_reducible exact hvalues _
    | with_reducible exact hvariables _ _
    | refine yields_bind fun _ => ?_
    | split
    | dsimp only

theorem yields_forStatement : Yields Plain (forStatement g) := by
  unfold forStatement
  refine yields_bind fun lo => yields_bind fun _ => yields_bind fun isAwait => yields_bind fun _ =>
    (yields_withMode (yields_forHead g isAwait)).bind fun k hk => ?_
  exact yields_bind fun _ => yields_bind fun _ => yields_bind fun _ => yields_plain_node hk

theorem yields_ifStatement : Yields Plain (ifStatement g) := by
  unfold ifStatement
  repeat' first | exact yields_plain_node rfl | refine yields_bind fun _ => ?_

theorem yields_doStatement : Yields Plain (doStatement g) := by
  unfold doStatement
  repeat' first | exact yields_plain_node rfl | refine yields_bind fun _ => ?_

theorem yields_whileStatement : Yields Plain (whileStatement g) := by
  unfold whileStatement
  repeat' first | exact yields_plain_node rfl | refine yields_bind fun _ => ?_

theorem yields_switchStatement : Yields Plain (switchStatement g) := by
  unfold switchStatement
  repeat' first | exact yields_plain_node rfl | refine yields_bind fun _ => ?_

theorem yields_tryStatement : Yields Plain (tryStatement g) := by
  unfold tryStatement
  repeat' first | exact yields_plain_node rfl | refine yields_bind fun _ => ?_

theorem yields_returnStatement : Yields Plain (returnStatement g) := by
  unfold returnStatement
  repeat' first | exact yields_plain_node rfl | refine yields_bind fun _ => ?_

theorem yields_throwStatement : Yields Plain (throwStatement g) := by
  unfold throwStatement
  repeat' first | exact yields_plain_node rfl | refine yields_bind fun _ => ?_

theorem yields_jump (w : String) {kind : Kind} (hk : kind.isPlain = true) (allowed : Mode → Bool) :
    Yields Plain (jump w kind allowed) := by
  unfold jump
  repeat' first | exact yields_plain_node hk | refine yields_bind fun _ => ?_ | split

theorem yields_withStatement : Yields Plain (withStatement g) := by
  unfold withStatement
  repeat' first | exact yields_plain_node rfl | refine yields_bind fun _ => ?_

theorem yields_functionDeclaration (lo : Nat) (isDeclare isAsync : Bool) :
    Yields Plain (functionDeclaration g lo isDeclare isAsync) := by
  unfold functionDeclaration
  repeat' first | exact yields_plain_node rfl | refine yields_bind fun _ => ?_

theorem yields_classDeclaration (lo : Nat) (isDeclare isAbstract : Bool) :
    Yields Plain (classDeclaration g lo isDeclare isAbstract) := by
  unfold classDeclaration
  repeat' first | exact yields_plain_node rfl | refine yields_bind fun _ => ?_

theorem yields_labeled : Yields Plain (labeled g) := by
  unfold labeled
  repeat' first
    | exact yields_plain_node rfl
    | exact yields_fail
    | refine yields_bind fun _ => ?_
    | split

theorem yields_awaitStatement (lo : Nat) : Yields Plain (awaitStatement g lo) := by
  unfold awaitStatement
  refine yields_bind fun _ => yields_bind fun _ => yields_bind fun _ =>
    yields_bind fun declares => ?_
  split
  · exact yields_usingFrom g lo .awaitUsing
  · refine (yields_awaitFrom g lo).bind fun e he => yields_bind fun fuel =>
      (yields_operators g fuel 0 e).bind fun e' he' => yields_bind fun _ => yields_node fun _ => ?_
    exact (Node.continues_mk rfl).plain (he'.plain he)

end Declarations

section Types

theorem yields_interfaceFrom (lo : Nat) (isDeclare : Bool) :
    Yields Plain (interfaceFrom g lo isDeclare) := by
  unfold interfaceFrom
  repeat' first | exact yields_plain_node rfl | refine yields_bind fun _ => ?_ | split

theorem yields_aliasFrom (lo : Nat) (isDeclare : Bool) :
    Yields Plain (aliasFrom g lo isDeclare) := by
  unfold aliasFrom
  repeat' first | exact yields_plain_node rfl | refine yields_bind fun _ => ?_

theorem yields_enumFrom (lo : Nat) (isDeclare isConst : Bool) :
    Yields Plain (enumFrom g lo isDeclare isConst) := by
  unfold enumFrom
  repeat' first | exact yields_plain_node rfl | refine yields_bind fun _ => ?_

theorem yields_constEnum (lo : Nat) (isDeclare : Bool) :
    Yields Plain (constEnum g lo isDeclare) := by
  unfold constEnum
  exact yields_bind fun _ => yields_bind fun _ => yields_enumFrom g lo isDeclare true

theorem yields_namespaceFrom (isDeclare : Bool) (word : String) (lo : Nat) : ∀ fuel,
    Yields Plain (namespaceFrom g isDeclare word lo fuel)
  | 0 => yields_fail
  | fuel + 1 => by
    rw [namespaceFrom]
    repeat' first | exact yields_plain_node rfl | refine yields_bind fun _ => ?_ | split

theorem yields_outerModule (lo : Nat) (isDeclare : Bool) :
    Yields Plain (outerModule g lo isDeclare) := by
  unfold outerModule
  repeat' first | exact yields_plain_node rfl | refine yields_bind fun _ => ?_ | split

theorem yields_moduleFrom (lo : Nat) (isDeclare : Bool) :
    Yields Plain (moduleFrom g lo isDeclare) := by
  unfold moduleFrom
  refine yields_bind fun _ => yields_bind fun t => ?_
  split
  · exact yields_outerModule g lo isDeclare
  · exact yields_bind fun fuel => yields_namespaceFrom g isDeclare _ lo fuel

end Types

section Words

theorem looks_pure {a : α} : Looks (pure a : Read α) := fun _ _ _ h => by
  cases h
  rfl

theorem Looks.bind {p : Read α} {f : α → Read β} (hp : Looks p) (h : ∀ a, Looks (f a)) :
    Looks (p >>= f) := fun r b r'' hb => by
  obtain ⟨a, r₁, ha, hf⟩ := bind_eq_some.1 hb
  obtain rfl := hp r a r₁ ha
  exact h a _ b r'' hf

theorem looks_nextIs (sameLine : Bool) (test : Token → Bool) : Looks (nextIs sameLine test) := by
  intro r b r' h
  rw [nextIs, ahead] at h
  split at h <;> cases h <;> rfl

theorem looks_newLine : Looks newLine := fun _ _ _ h => by cases h; rfl

/-- What is found is a plain node; if nothing is found then nothing is read. -/
def Tries (p : Read (Option Node)) : Prop :=
  ∀ r o r', p r = some (o, r') → (∀ n ∈ o, Plain n) ∧ (o = none → r' = r)

theorem tries_none : Tries (pure none) := fun r o r' h => by
  cases h
  exact ⟨nofun, fun _ => rfl⟩

/-- A reader that always finds a plain node. -/
def Finds (p : Read (Option Node)) : Prop := Yields (fun o => ∃ n, o = some n ∧ Plain n) p

theorem finds_some {p : Read Node} (h : Yields Plain p) : Finds (some <$> p) :=
  yields_map (h.mono fun n hn => ⟨n, rfl, hn⟩)

theorem Finds.tries {p : Read (Option Node)} (h : Finds p) : Tries p := by
  intro r o r' ho
  obtain ⟨n, rfl, hn⟩ := h r o r' ho
  exact ⟨fun n' hn' => Option.some.inj hn' ▸ hn, nofun⟩

theorem tries_some {p : Read Node} (h : Yields Plain p) : Tries (some <$> p) := (finds_some h).tries

theorem Looks.tries {p : Read α} {f : α → Read (Option Node)} (hp : Looks p)
    (h : ∀ a, Tries (f a)) : Tries (p >>= f) := fun r o r' ho => by
  obtain ⟨a, r₁, ha, hf⟩ := bind_eq_some.1 ho
  obtain rfl := hp r a r₁ ha
  exact h a _ o r' hf

/-- A word is passed only if it is the one that is looked for. -/
theorem eatWord_eq_false {w : String} {r r' : Reading} (h : eatWord w r = some (false, r')) :
    r' = r := by
  unfold eatWord at h
  obtain ⟨b, r₁, hb, h⟩ := bind_eq_some.1 h
  obtain rfl := looks_isWord w r b r₁ hb
  cases b with
  | true =>
    obtain ⟨u, r₂, -, h⟩ := bind_eq_some.1 h
    cases h
  | false =>
    cases h
    rfl

theorem tries_eatWord {w : String} {p q : Read (Option Node)} (hp : Finds p) (hq : Tries q) :
    Tries (eatWord w >>= fun b => if b = true then p else q) := by
  intro r o r' ho
  obtain ⟨b, r₁, hb, hf⟩ := bind_eq_some.1 ho
  cases b with
  | true =>
    obtain ⟨n, rfl, hn⟩ := hp r₁ o r' hf
    exact ⟨fun n' hn' => Option.some.inj hn' ▸ hn, nofun⟩
  | false =>
    obtain rfl := eatWord_eq_false hb
    exact hq _ o r' hf

theorem tries_typeDeclaration? (lo : Nat) (isDeclare : Bool) :
    Tries (typeDeclaration? g lo isDeclare) := by
  unfold typeDeclaration?
  refine tries_eatWord (finds_some (yields_classDeclaration g lo isDeclare true)) ?_
  refine tries_eatWord (finds_some (yields_enumFrom g lo isDeclare false)) ?_
  refine tries_eatWord (finds_some (yields_interfaceFrom g lo isDeclare)) ?_
  refine tries_eatWord (finds_some (yields_aliasFrom g lo isDeclare)) ?_
  refine tries_eatWord (yields_bind fun fuel =>
    finds_some (yields_namespaceFrom g isDeclare _ lo fuel)) ?_
  refine (looks_isWord _).tries fun isModule => looks_newLine.tries fun startsLine => ?_
  split
  · exact tries_some (yields_moduleFrom g lo isDeclare)
  · exact tries_none

/-- What is found is a plain node; if nothing is found then the state is the one said. -/
def Restores (before : Reading) (p : Read (Option Node)) : Prop :=
  ∀ r o r', p r = some (o, r') → (∀ n ∈ o, Plain n) ∧ (o = none → r' = before)

theorem restores_bind {before : Reading} {p : Read α} {f : α → Read (Option Node)}
    (h : ∀ a, Restores before (f a)) : Restores before (p >>= f) := fun r o r'' ho => by
  obtain ⟨a, r', -, hf⟩ := bind_eq_some.1 ho
  exact h a r' o r'' hf

theorem Yields.restores {P : α → Prop} {before : Reading} {p : Read α} {f : α → Read (Option Node)}
    (hp : Yields P p) (h : ∀ a, P a → Restores before (f a)) :
    Restores before (p >>= f) := fun r o r'' ho => by
  obtain ⟨a, r', ha, hf⟩ := bind_eq_some.1 ho
  exact h a (hp r a r' ha) r' o r'' hf

theorem Tries.yields {p : Read (Option Node)} (h : Tries p) :
    Yields (fun o => ∀ n ∈ o, Plain n) p := fun r o r' ho => (h r o r' ho).1

theorem looks_startsConstEnum : Looks startsConstEnum :=
  (looks_isWord _).bind fun _ => (looks_nextIs _ _).bind fun _ => looks_pure

theorem tries_get {f : Reading → Read (Option Node)} (h : ∀ before, Restores before (f before)) :
    Tries (get >>= f) := fun r o r' ho => h r r o r' ho

theorem tries_declared? (lo : Nat) : Tries (declared? g lo) := by
  unfold declared?
  refine tries_get fun before => restores_bind fun _ => restores_bind fun _ =>
    (yields_withMode (P := fun o => ∀ n ∈ o, Plain n) ?_).restores fun d hd => ?_
  · refine yields_bind fun _ => ?_
    split
    · exact (tries_some (yields_functionDeclaration g lo true false)).yields
    refine yields_bind fun _ => ?_
    split
    · exact (tries_some (yields_classDeclaration g lo true false)).yields
    refine yields_bind fun _ => ?_
    split
    · exact (tries_some (yields_constEnum g lo true)).yields
    refine yields_bind fun _ => ?_
    split
    · exact (tries_some (yields_outerModule g lo true)).yields
    refine yields_bind fun w => ?_
    split
    · exact (tries_some (yields_variablesFrom g lo true _)).yields
    · exact (tries_typeDeclaration? g lo true).yields
  · intro r o r' ho
    cases d with
    | none =>
      cases ho
      exact ⟨hd, fun _ => rfl⟩
    | some n =>
      cases ho
      exact ⟨hd, nofun⟩

theorem looks_nextIsDeclared (sameLine : Bool) (test : Token → Bool) :
    Looks (nextIsDeclared sameLine test) :=
  looks_nextIs _ _

theorem tries_wordDeclaration? (lo : Nat) : Tries (wordDeclaration? g lo) := by
  unfold wordDeclaration?
  refine looks_token.tries fun t => ?_
  split
  · refine looks_mode.tries fun m => ?_
    extract_lets isUsed isString goOn
    have hgoOn : ∀ starts, Tries (goOn starts) := by
      intro starts
      unfold goOn
      split
      · exact tries_some (yields_moduleFrom g lo false)
      split
      · exact tries_typeDeclaration? g lo false
      refine (looks_nextIs _ _).tries fun isBrace => ?_
      split
      · exact tries_some (yields_outerModule g lo false)
      refine (looks_nextIsDeclared _ _).tries fun isName => ?_
      split
      · exact tries_declared? g lo
      · exact tries_none
    split
    · exact (looks_nextIs _ _).tries hgoOn
    split
    · exact (looks_nextIs _ _).tries hgoOn
    split
    · exact (looks_nextIsDeclared _ _).tries hgoOn
    split
    · exact (looks_nextIsDeclared _ _).tries hgoOn
    · exact looks_pure.tries hgoOn
  · exact tries_none

end Words

section Statements

theorem opens_expressionStatement (ha : Opens g.assignment) : Opens (expressionStatement g) := by
  unfold expressionStatement
  exact looks_lo.opens fun lo => (opens_expression g ha).bind fun e => yields_bind fun _ =>
    yields_node fun _ => Node.continues_mk rfl

theorem opens_importStatement (ha : Opens g.assignment) (lo : Nat) :
    Opens (importStatement g lo) := by
  unfold importStatement
  exact (opens_expression g ha).bind fun e => yields_bind fun _ =>
    yields_node fun _ => Node.continues_mk rfl

theorem Tries.opens {p : Read (Option Node)} {f : Option Node → Read Node} (hp : Tries p)
    (h : ∀ d, Plain d → Yields Plain (f (some d))) (h' : Opens (f none)) : Opens (p >>= f) := by
  intro r n r' hr ho
  obtain ⟨o, r₁, hp', hf⟩ := bind_eq_some.1 hr
  obtain ⟨hplain, hsame⟩ := hp r o r₁ hp'
  cases o with
  | some d => exact absurd ho (Node.plain_iff.1 (h d (hplain d rfl) r₁ n r' hf))
  | none =>
    obtain rfl := hsame rfl
    exact h' _ n r' hf ho

theorem looks_letDeclares : Looks letDeclares := by
  unfold letDeclares
  refine (looks_isWord _).bind fun isLet => ?_
  split
  · exact looks_nextIs _ _
  · exact looks_pure

theorem looks_usingDeclares : Looks usingDeclares :=
  (looks_isWord _).bind fun _ => (looks_nextIs _ _).bind fun _ => looks_pure

theorem looks_startsAsyncFunction : Looks startsAsyncFunction :=
  (looks_isWord _).bind fun _ => (looks_nextIs _ _).bind fun _ => looks_pure

theorem opens_wordStatement (ha : Opens g.assignment) (lo : Nat) (inList : Bool) :
    Opens (wordStatement g lo inList) := by
  unfold wordStatement
  refine looks_language.opens fun l => looks_startsConstEnum.opens fun isEnum => ?_
  split
  · exact (yields_constEnum g lo false).opens
  refine (looks_isWord _).opens fun isConst => ?_
  split
  · exact (yields_variablesFrom g lo false .const_).opens
  refine looks_letDeclares.opens fun isLet => ?_
  split
  · exact (yields_variablesFrom g lo false .let_).opens
  refine looks_usingDeclares.opens fun isUsing => ?_
  split
  · exact (yields_usingFrom g lo .using_).opens
  refine looks_startsAsyncFunction.opens fun isAsync => ?_
  split
  · exact (yields_bind fun _ => yields_functionDeclaration g lo false true).opens
  refine (looks_nextIs _ _).opens fun isColon => ?_
  split
  · exact (yields_labeled g).opens
  refine looks_language.opens fun l' => ?_
  extract_lets goOn
  have hexpr := opens_expressionStatement g ha
  split
  · exact (tries_wordDeclaration? g lo).opens (fun d hd => yields_pure hd) hexpr
  · exact tries_none.opens (fun d hd => yields_pure hd) hexpr

/-- A brace starts a block. -/
theorem yields_token {f : Token → Read Node} (hb : Yields Plain (f (.sign "\x7b")))
    (h : ∀ t, Opens (f t)) : Yields Plain (token >>= f) := by
  intro r n r' hr
  have hf : f r.token r = some (n, r') := hr
  by_cases ht : r.token = .sign "\x7b"
  · rw [ht] at hf
    exact hb r n r' hf
  · exact Node.plain_iff.2 fun ho => ht (h r.token r n r' hf ho)

theorem opens_ite {c : Prop} [Decidable c] {p q : Read Node} (hp : Opens p) (hq : Opens q) :
    Opens (if c then p else q) := by
  split
  · exact hp
  · exact hq

theorem yields_statementIn (ha : Opens g.assignment) (inList : Bool) :
    Yields Plain (statementIn g inList) := by
  unfold statementIn
  refine yields_withMode <| yields_bind fun lo => yields_token (yields_block g) fun t => ?_
  split
  · exact (yields_block g).opens
  · exact Yields.opens <| yields_bind fun _ => yields_plain_node rfl
  · refine opens_ite (yields_ifStatement g).opens ?_
    refine opens_ite (yields_forStatement g).opens ?_
    refine opens_ite (yields_whileStatement g).opens ?_
    refine opens_ite (yields_doStatement g).opens ?_
    refine opens_ite (yields_switchStatement g).opens ?_
    refine opens_ite (yields_tryStatement g).opens ?_
    refine opens_ite (yields_returnStatement g).opens ?_
    refine opens_ite (yields_throwStatement g).opens ?_
    refine opens_ite (yields_jump _ rfl _).opens ?_
    refine opens_ite (yields_jump _ rfl _).opens ?_
    refine opens_ite (yields_withStatement g).opens ?_
    refine opens_ite (Yields.opens <| yields_bind fun _ => yields_bind fun _ =>
      yields_plain_node rfl) ?_
    refine opens_ite (yields_variablesFrom g lo false .var_).opens ?_
    refine opens_ite (Yields.opens <| yields_bind fun _ =>
      yields_functionDeclaration g lo false false) ?_
    refine opens_ite (Yields.opens <| yields_bind fun _ =>
      yields_classDeclaration g lo false false) ?_
    refine opens_ite (opens_importStatement g ha lo) ?_
    exact looks_mode.opens fun m =>
      opens_ite (yields_awaitStatement g lo).opens (opens_wordStatement g ha lo inList)
  · exact opens_expressionStatement g ha

end Statements

section Imports

theorem yields_importFrom (lo : Nat) (typeOnly : Bool) (phase : Phase) (first : List Node) :
    Yields Plain (importFrom g lo typeOnly phase first) := by
  unfold importFrom
  repeat' first | exact yields_plain_node rfl | refine yields_bind fun _ => ?_

theorem yields_importEquals (lo : Nat) (isExport typeOnly : Bool) (name : Node) :
    Yields Plain (importEquals lo isExport typeOnly name) := by
  unfold importEquals
  repeat' first
    | exact yields_plain_node rfl
    | refine yields_bind fun _ => ?_
    | split
    | dsimp only

theorem yields_importNamed (lo : Nat) (typeOnly : Bool) (name : Node) :
    Yields Plain (importNamed g lo typeOnly name) := by
  unfold importNamed
  repeat' first
    | with_reducible exact yields_importFrom g _ _ _ _
    | with_reducible exact yields_importEquals _ _ _ _
    | refine yields_bind fun _ => ?_
    | split

theorem yields_importDeclaration : Yields Plain (importDeclaration g) := by
  unfold importDeclaration
  repeat' first
    | with_reducible exact yields_importFrom g _ _ _ _
    | with_reducible exact yields_importNamed g _ _ _
    | exact yields_plain_node rfl
    | refine yields_bind fun _ => ?_
    | split

theorem yields_exportFrom {kind : Kind} (hk : kind.isPlain = true) (lo : Nat) (what : List Node) :
    Yields Plain (exportFrom g kind lo what) := by
  unfold exportFrom
  repeat' first | exact yields_plain_node hk | refine yields_bind fun _ => ?_

theorem yields_exportNames (lo : Nat) (typeOnly : Bool) :
    Yields Plain (exportNames g lo typeOnly) := by
  unfold exportNames
  repeat' first
    | with_reducible exact yields_exportFrom g rfl _ _
    | exact yields_plain_node rfl
    | refine yields_bind fun _ => ?_
    | split

theorem yields_exportAll (lo start : Nat) (typeOnly : Bool) :
    Yields Plain (exportAll g lo start typeOnly) := by
  unfold exportAll
  repeat' first
    | exact yields_exportFrom g rfl _ _
    | refine yields_bind fun _ => ?_
    | split

theorem yields_exportDefault (lo : Nat) : Yields Plain (exportDefault g lo) := by
  unfold exportDefault
  repeat' first
    | exact yields_plain_node rfl
    | refine yields_bind fun _ => ?_
    | split
    | dsimp only

theorem yields_exportTyped? (lo : Nat) :
    Yields (fun o => ∀ n ∈ o, Plain n) (exportTyped? g lo) := by
  have hnode : ∀ {k : Kind} {ks : List Node}, k.isPlain = true →
      Yields (fun o => ∀ n ∈ o, Plain n) (some <$> node k lo ks) := fun hk =>
    (tries_some (yields_plain_node hk)).yields
  have himport : ∀ typeOnly name,
      Yields (fun o => ∀ n ∈ o, Plain n) (some <$> importEquals lo true typeOnly name) :=
    fun typeOnly name => (tries_some (yields_importEquals lo true typeOnly name)).yields
  unfold exportTyped?
  repeat' first
    | exact himport _ _
    | exact hnode rfl
    | exact yields_pure nofun
    | refine yields_bind fun _ => ?_
    | split
    | dsimp only

theorem yields_exportDeclaration : Yields Plain (exportDeclaration g) := by
  unfold exportDeclaration
  refine yields_bind fun lo => yields_bind fun _ => yields_bind fun l => ?_
  extract_lets types behindTyped goOn
  have hbehind : ∀ o, (∀ n ∈ o, Plain n) → Yields Plain (behindTyped o) := by
    intro o ho
    unfold behindTyped
    split
    · exact yields_pure (ho _ rfl)
    repeat' first
      | with_reducible exact yields_exportDefault g lo
      | with_reducible exact yields_exportAll g lo _ _
      | with_reducible exact yields_exportNames g lo _
      | exact yields_plain_node rfl
      | refine yields_bind fun _ => ?_
      | split
      | dsimp only
  have hgoOn : ∀ o, Yields Plain (goOn o) := by
    intro o
    unfold goOn
    split
    · exact yields_plain_node rfl
    split
    · exact (yields_exportTyped? g lo).bind hbehind
    · exact (yields_pure nofun).bind hbehind
  split <;> exact yields_bind hgoOn

theorem yields_item (hs : Yields Plain g.statement) : Yields Plain (item g) := by
  unfold item
  refine yields_bind fun isCall => yields_bind fun isImport => ?_
  split
  · exact yields_importDeclaration g
  refine yields_bind fun isExport => ?_
  split
  · exact yields_exportDeclaration g
  · exact hs

end Imports

section Markup

theorem yields_upToAngle {kind : Kind} (hk : kind.isPlain = true) (lo : Nat) (kids : List Node) :
    Yields Plain (upToAngle kind lo kids) :=
  yields_bind fun _ => yields_pure (Node.plain_mk hk)

theorem yields_markup : Yields Plain (markup g) := by
  unfold markup
  refine yields_bind fun lo => yields_bind fun _ => yields_bind fun isFragment => ?_
  split
  · unfold tag
    repeat' first | exact yields_upToAngle rfl _ _ | refine yields_bind fun _ => ?_
  · repeat' first
      | with_reducible exact yields_upToAngle rfl _ _
      | refine yields_bind fun _ => ?_
      | split

end Markup

section Programs

theorem yields_untilStop {stop : Read Bool} {item : Read Node} (hi : Yields Plain item) :
    ∀ fuel, Yields (fun ns => ∀ n ∈ ns, Plain n) (untilStop stop item fuel)
  | 0 => yields_fail
  | fuel + 1 => by
    rw [untilStop]
    refine yields_bind fun stops => ?_
    split
    · exact yields_pure nofun
    · refine hi.bind fun n hn => (yields_untilStop hi fuel).bind fun ns hns => yields_pure ?_
      exact List.forall_mem_cons.2 ⟨hn, hns⟩

end Programs

end Read

/-- No grammar reads what starts with an object, unless it starts with a brace itself. -/
structure Grammar.Careful (g : Grammar) : Prop where
  assignment : Read.Opens g.assignment
  operand : Read.Opens g.operand
  markup : Read.Yields Plain g.markup
  statement : Read.Yields Plain g.statement
  item : Read.Yields Plain g.item

theorem Grammar.careful_at : ∀ depth, (Grammar.at depth).Careful
  | 0 => ⟨Read.yields_fail.opens, Read.yields_fail.opens, Read.yields_fail, Read.yields_fail,
      Read.yields_fail⟩
  | depth + 1 =>
    have hg := careful_at depth
    { assignment := Read.opens_assignment _ hg.operand
      operand := Read.opens_operand _ hg.markup
      markup := Read.yields_markup _
      statement := Read.yields_statementIn _ hg.assignment true
      item := Read.yields_item _ hg.statement }

namespace Program

theorem plain_of_readAs {language : Language} {isModule undecided : Bool} {text : String}
    {p : Program} {comments : Comments}
    (h : readAs language isModule undecided text = some (p, comments)) : ∀ n ∈ p.body, n.Plain := by
  unfold readAs at h
  obtain ⟨⟨body, after⟩, hbody, h⟩ := Option.bind_eq_some_iff.1 h
  obtain ⟨rfl, -⟩ := Prod.mk.inj (Option.some.inj h)
  refine (?_ : Read.Yields (fun ns => ∀ n ∈ ns, n.Plain) _) _ body after hbody
  unfold items
  have hg := Grammar.careful_at (64 + 16 * (withoutMark text).length)
  refine Read.yields_bind fun _ => Read.yields_bind fun strict => Read.yields_withMode <|
    Read.yields_bind fun fuel => Read.yields_untilStop ?_ fuel
  split
  · exact hg.item
  · exact hg.statement

/-- No item of a source is an expression that starts with an object. -/
theorem plain_of_read {language : Language} {goal : Goal} {text : String} {p : Program}
    {comments : Comments} (h : read language goal text = some (p, comments)) :
    ∀ n ∈ p.body, n.Plain := by
  cases goal with
  | script => exact plain_of_readAs h
  | module => exact plain_of_readAs h
  | either =>
    rcases hs : readAs language false true text with _ | ⟨p', comments'⟩
    · rw [read, hs] at h
      exact plain_of_readAs h
    · rw [read, hs] at h
      obtain ⟨rfl, rfl⟩ := Prod.mk.inj (Option.some.inj h)
      exact plain_of_readAs hs

end Program

end ScopedStyles.Script
