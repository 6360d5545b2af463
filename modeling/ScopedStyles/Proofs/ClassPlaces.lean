import ScopedStyles.Css.Sheet
import ScopedStyles.Proofs.Mentions

/-!
# Where classes stand in a written sheet

`Sheet.passages` cuts the text of a sheet at its class selectors: each of them is a passage, and so
is what stands before, between and behind them. Put together the passages are the text, and the
class selectors among them are those that the sheet mentions, in order (`Sheet.spells_passages`).
What looks like a class selector in a string, an address or text that no grammar reads is none.
-/

namespace ScopedStyles.Css

/-- A part of a written sheet: a class selector or the text beside it. -/
inductive Passage where
  | plain (text : String)
  | className (name : String)
deriving DecidableEq, Repr, Inhabited

namespace Passage

def chars : Passage → List Char
  | plain text => text.toList
  | className name => (classText name).toList

def name? : Passage → Option String
  | plain _ => none
  | className name => some name

def textOf (ps : List Passage) : List Char := ps.flatMap chars

def namesOf (ps : List Passage) : List String := ps.filterMap name?

def bracketed (ps : List Passage) : List Passage := plain "(" :: ps ++ [plain ")"]

/-- Rows with a separator between them. -/
def join (separator : String) : List (List Passage) → List Passage
  | [] => []
  | [ps] => ps
  | ps :: rest => ps ++ plain separator :: join separator rest

end Passage

open Passage (plain bracketed)

section Selectors

mutual

def Simple.passages : Simple → List Passage
  | .id n => [plain ("#" ++ Name.print n)]
  | .className n => [.className n]
  | .attribute a => [plain a.text]
  | .pseudoClass n args => plain (":" ++ Name.print n) :: args.passages
  | .pseudoElement n args => plain ("::" ++ Name.print n) :: args.passages

def Args.passages : Args → List Passage
  | .absent => []
  | .text s => bracketed [plain s]
  | .complex c => bracketed c.passages
  | .compounds cs => bracketed (compoundPassages cs)
  | .list cs => bracketed (complexPassages cs)
  | .lenient ms => bracketed (memberPassages ms)
  | .formula f _ [] => bracketed [plain f]
  | .formula f joint (c :: cs) =>
    bracketed (plain (f ++ " " ++ joint ++ " ") :: complexPassages (c :: cs))

def Member.passages : Member → List Passage
  | .selector c => c.passages
  | .relative r => r.passages
  | .raw s => [plain s]

def Compound.passages : Compound → List Passage
  | .mk nesting element conditions =>
    plain ((if nesting then "&" else "") ++ (match element with
      | some e => e.text
      | none => "")) :: simplePassages conditions

def Child.passages : Child → List Passage
  | .compound c => c.passages
  | .combinator k => [plain k.text]

def ComplexSelector.passages : ComplexSelector → List Passage
  | .mk children => childPassages children

def Relative.passages : Relative → List Passage
  | .mk none c => c.passages
  | .mk (some k) c => plain (k.sign ++ " ") :: c.passages

def simplePassages : List Simple → List Passage
  | [] => []
  | s :: rest => s.passages ++ simplePassages rest

def childPassages : List Child → List Passage
  | [] => []
  | c :: rest => c.passages ++ childPassages rest

def complexPassages : List ComplexSelector → List Passage
  | [] => []
  | [c] => c.passages
  | c :: rest => c.passages ++ plain ", " :: complexPassages rest

def memberPassages : List Member → List Passage
  | [] => []
  | [m] => m.passages
  | m :: .raw s :: rest => m.passages ++ plain "," :: memberPassages (.raw s :: rest)
  | m :: next :: rest => m.passages ++ plain ", " :: memberPassages (next :: rest)

def compoundPassages : List Compound → List Passage
  | [] => []
  | [c] => c.passages
  | c :: rest => c.passages ++ plain ", " :: compoundPassages rest

end

end Selectors

section Sheets

def Target.passages (level : Nat) : Target → List Passage
  | .selectors list => Passage.join (", \n" ++ indentText level)
      (list.map ComplexSelector.passages)
  | .relatives list => Passage.join ", " (list.map Relative.passages)

def Piece.passages : Piece → List Passage
  | .text s => [plain s]
  | .selector c => c.passages

def Prelude.passages : Prelude → List Passage
  | .absent => []
  | .raw s => [plain s]
  | .known ps => plain (if ps.isEmpty then "" else " ") :: ps.flatMap Piece.passages

mutual

def Rule.passages (level : Nat) : Rule → List Passage
  | .style target block => target.passages level ++ plain " " :: blockPassages level block
  | .atBlock name start block => plain ("@" ++ name) :: start.passages ++
      plain start.gap :: blockPassages level block
  | .statement name start => plain ("@" ++ name) :: start.passages ++ [plain ";"]

def Item.passages (level : Nat) : Item → List Passage
  | .declaration d => [plain (d.text ++ ";")]
  | .rule r => r.passages level
  | .keyframe selectors block =>
    plain (", ".intercalate selectors ++ " ") :: blockPassages level block
  | .raw text => [plain text]

def blockPassages (level : Nat) : List Item → List Passage
  | [] => [plain "\x7b\x7d"]
  | [.raw text] => [plain ("\x7b" ++ text ++ "\x7d")]
  | item :: rest =>
    plain ("\x7b\n" ++ indentText (level + 1)) :: item.passages (level + 1) ++
      linePassages (level + 1) rest ++ [plain ("\n" ++ indentText level ++ "\x7d")]

def linePassages (level : Nat) : List Item → List Passage
  | [] => []
  | item :: rest =>
    plain ("\n" ++ indentText level) :: item.passages level ++ linePassages level rest

end

def Sheet.passages (s : Sheet) : List Passage :=
  Passage.join "\n" (s.rules.map (Rule.passages 0))

end Sheets

section Spelling

/-- The passages make up a text, and the class selectors among them are those of the mentions. -/
structure Spells (ps : List Passage) (text : String) (ms : List Mention) : Prop where
  text : Passage.textOf ps = text.toList
  names : Passage.namesOf ps = ms.map Mention.name

namespace Spells

variable {ps qs : List Passage} {s t : String} {ms ns : List Mention}

theorem nil : Spells [] "" [] := ⟨rfl, rfl⟩

theorem plain (s : String) : Spells [.plain s] s [] :=
  ⟨by simp [Passage.textOf, Passage.chars], rfl⟩

theorem append (h : Spells ps s ms) (h' : Spells qs t ns) :
    Spells (ps ++ qs) (s ++ t) (ms ++ ns) where
  text := by
    rw [Passage.textOf, List.flatMap_append, String.toList_append, ← h.text, ← h'.text]; rfl
  names := by
    rw [Passage.namesOf, List.filterMap_append, List.map_append, ← h.names, ← h'.names]; rfl

theorem cons (s : String) (h : Spells ps t ms) : Spells (.plain s :: ps) (s ++ t) ms :=
  (plain s).append h

theorem bracketed (h : Spells ps s ms) : Spells (Passage.bracketed ps) ("(" ++ s ++ ")") ms := by
  have h' := ((h.cons "(").append (plain ")"))
  rwa [List.append_nil] at h'

/-- Where the mentions stand makes no difference. -/
theorem congr (h : Spells ps s ms) (hn : ms.map Mention.name = ns.map Mention.name) :
    Spells ps s ns :=
  ⟨h.text, h.names.trans hn⟩

theorem join (separator : String) {α : Type*} {pass : α → List Passage} {text : α → String}
    {mentions : α → List Mention} : ∀ xs : List α,
      (∀ x ∈ xs, Spells (pass x) (text x) (mentions x)) →
      Spells (Passage.join separator (xs.map pass)) (separator.intercalate (xs.map text))
        (xs.flatMap mentions)
  | [], _ => .nil
  | [x], h => by simpa [Passage.join] using h x List.mem_cons_self
  | x :: y :: xs, h => by
    rw [List.forall_mem_cons] at h
    have h' := h.1.append ((join separator (y :: xs) h.2).cons separator)
    simp only [List.map_cons, String.intercalate_cons_cons, String.append_assoc,
      List.flatMap_cons, Passage.join] at h' ⊢
    exact h'

end Spells

theorem map_name_conditionMentions : ∀ cs : List Simple,
    (conditionMentions cs).map Mention.name = (simpleMentions cs).map Mention.name
  | [] => rfl
  | c :: cs => by
    have happend := conditionMentions_append [c] cs
    rw [List.singleton_append] at happend
    rw [happend, List.map_append, conditionMentions_names, map_name_conditionMentions cs,
      simpleMentions, List.map_append]

theorem memberMentions_cons (m : Member) (ms : List Member) :
    memberMentions (m :: ms) = memberMentions [m] ++ memberMentions ms := by
  rcases m with c | ⟨start, c⟩ | s <;> simp [memberMentions]

theorem memberList_cons_cons (m next : Member) (ms : List Member) : ∃ separator : String,
    memberPassages (m :: next :: ms) =
      m.passages ++ plain separator :: memberPassages (next :: ms) ∧
    memberList (m :: next :: ms) = m.text ++ separator ++ memberList (next :: ms) := by
  cases next with
  | raw s => exact ⟨",", by rw [memberPassages], by rw [memberList]⟩
  | selector c => exact ⟨", ", by rw [memberPassages]; simp, by rw [memberList]; simp⟩
  | relative r => exact ⟨", ", by rw [memberPassages]; simp, by rw [memberList]; simp⟩

mutual

theorem Simple.spells_passages : ∀ c : Simple, Spells c.passages c.text c.mentions
  | .id n => by
    rw [Simple.passages, Simple.text, Simple.mentions]
    exact .plain _
  | .className n => by
    rw [Simple.passages, Simple.text, Simple.mentions]
    exact ⟨by simp [Passage.textOf, Passage.chars], rfl⟩
  | .attribute a => by
    rw [Simple.passages, Simple.text, Simple.mentions]
    exact .plain _
  | .pseudoClass n args => by
    rw [Simple.passages, Simple.text, Simple.mentions]
    refine ((Args.spells_passages args).cons _).congr ?_
    rw [List.map_map]
    exact List.map_congr_left fun m _ => (m.bracketed_name n).symm
  | .pseudoElement n args => by
    rw [Simple.passages, Simple.text, Simple.mentions]
    exact (Args.spells_passages args).cons _

theorem Args.spells_passages : ∀ a : Args, Spells a.passages a.brackets a.mentions
  | .absent => .nil
  | .text s => (Spells.plain s).bracketed
  | .complex c => by
    rw [Args.passages, Args.brackets, Args.mentions]
    exact c.spells_passages.bracketed
  | .compounds cs => by
    rw [Args.passages, Args.brackets, Args.mentions]
    exact (spells_compoundPassages cs).bracketed
  | .list cs => by
    rw [Args.passages, Args.brackets, Args.mentions]
    exact (spells_complexPassages cs).bracketed
  | .lenient ms => by
    rw [Args.passages, Args.brackets, Args.mentions]
    exact (spells_memberPassages ms).bracketed
  | .formula f _ [] => by
    rw [Args.passages, Args.brackets, Args.mentions]
    exact (Spells.plain f).bracketed
  | .formula f joint (c :: cs) => by
    rw [Args.passages, Args.brackets, Args.mentions]
    have h := ((spells_complexPassages (c :: cs)).cons (f ++ " " ++ joint ++ " ")).bracketed
    simpa only [String.append_assoc] using h

theorem Member.spells_passages : ∀ m : Member, Spells m.passages m.text (memberMentions [m])
  | .selector c => by
    rw [Member.passages, Member.text, memberMentions, memberMentions, List.append_nil]
    exact c.spells_passages
  | .relative r => by
    rw [Member.passages, Member.text]
    obtain ⟨start, c⟩ := r
    rw [memberMentions, memberMentions, List.append_nil]
    exact Relative.spells_passages (.mk start c)
  | .raw s => by
    rw [Member.passages, Member.text, memberMentions, memberMentions]
    exact .plain s

theorem Compound.spells_passages : ∀ c : Compound, Spells c.passages c.text c.mentions
  | .mk nesting element conditions => by
    simp only [Compound.passages, Compound.text, Compound.mentions]
    exact (spells_simplePassages conditions).cons _

theorem ComplexSelector.spells_passages : ∀ c : ComplexSelector,
    Spells c.passages c.text c.mentions
  | .mk children => by
    rw [ComplexSelector.passages, ComplexSelector.text, ComplexSelector.mentions]
    exact spells_childPassages children

theorem Relative.spells_passages : ∀ r : Relative, Spells r.passages r.text r.mentions
  | .mk none c => by
    rw [Relative.passages, Relative.text, Relative.mentions]
    exact c.spells_passages
  | .mk (some k) c => by
    rw [Relative.passages, Relative.text, Relative.mentions]
    exact c.spells_passages.cons _

theorem spells_simplePassages : ∀ cs : List Simple,
    Spells (simplePassages cs) (simpleRow cs) (simpleMentions cs)
  | [] => .nil
  | c :: cs => by
    rw [simplePassages, simpleRow, simpleMentions]
    exact c.spells_passages.append (spells_simplePassages cs)

theorem spells_childPassages : ∀ cs : List Child,
    Spells (childPassages cs) (childRow cs) (childMentions cs)
  | [] => .nil
  | .compound (.mk nesting element conditions) :: cs => by
    rw [childPassages, childRow, childMentions, Child.passages, Child.text]
    refine Spells.append ?_ (spells_childPassages cs)
    exact (Compound.spells_passages (.mk nesting element conditions)).congr
      (map_name_conditionMentions conditions).symm
  | .combinator k :: cs => by
    rw [childPassages, childRow, childMentions, Child.passages, Child.text]
    exact (spells_childPassages cs).cons _

theorem spells_complexPassages : ∀ cs : List ComplexSelector,
    Spells (complexPassages cs) (complexList cs) (complexMentions cs)
  | [] => .nil
  | [c] => by
    rw [complexPassages, complexList, complexMentions, complexMentions, List.append_nil]
    exact c.spells_passages
  | c :: d :: cs => by
    rw [complexPassages, complexList, complexMentions]
    · have h := c.spells_passages.append ((spells_complexPassages (d :: cs)).cons ", ")
      rwa [← String.append_assoc] at h
    · simp
    · simp

theorem spells_memberPassages : ∀ ms : List Member,
    Spells (memberPassages ms) (memberList ms) (memberMentions ms)
  | [] => .nil
  | [m] => by
    rw [memberPassages, memberList]
    exact m.spells_passages
  | m :: next :: ms => by
    obtain ⟨separator, hpassages, hlist⟩ := memberList_cons_cons m next ms
    rw [hpassages, hlist, memberMentions_cons, String.append_assoc]
    exact m.spells_passages.append ((spells_memberPassages (next :: ms)).cons separator)

theorem spells_compoundPassages : ∀ cs : List Compound,
    Spells (compoundPassages cs) (compoundList cs) (compoundMentions cs)
  | [] => .nil
  | [c] => by
    rw [compoundPassages, compoundList, compoundMentions, compoundMentions, List.append_nil]
    exact c.spells_passages
  | c :: d :: cs => by
    rw [compoundPassages, compoundList, compoundMentions]
    · have h := c.spells_passages.append ((spells_compoundPassages (d :: cs)).cons ", ")
      rwa [← String.append_assoc] at h
    · simp
    · simp

end

theorem relativeList_eq : ∀ rs : List Relative,
    relativeList rs = ", ".intercalate (rs.map Relative.text)
  | [] => rfl
  | [r] => by simp [relativeList]
  | r :: r' :: rs => by
    rw [relativeList, relativeList_eq (r' :: rs)]
    · simp [String.append_assoc]
    · simp

theorem complexMentions_eq : ∀ cs : List ComplexSelector,
    complexMentions cs = cs.flatMap ComplexSelector.mentions
  | [] => rfl
  | c :: cs => by rw [complexMentions, complexMentions_eq cs, List.flatMap_cons]

theorem Target.spells_passages (level : Nat) : ∀ t : Target,
    Spells (t.passages level) (t.text level) t.mentions
  | .selectors list => by
    rw [Target.mentions, complexMentions_eq]
    exact .join _ list fun c _ => c.spells_passages
  | .relatives list => by
    rw [Target.text, relativeList_eq]
    exact .join _ list fun r _ => r.spells_passages

theorem Piece.spells_passages : ∀ p : Piece, Spells p.passages p.print p.mentions
  | .text s => .plain s
  | .selector c => c.spells_passages

theorem spells_pieces : ∀ ps : List Piece,
    Spells (ps.flatMap Piece.passages) (String.join (ps.map Piece.print))
      (ps.flatMap Piece.mentions)
  | [] => .nil
  | p :: ps => by
    rw [List.flatMap_cons, List.flatMap_cons, List.map_cons, String.join_cons]
    exact p.spells_passages.append (spells_pieces ps)

theorem Prelude.spells_passages : ∀ p : Prelude, Spells p.passages p.text p.mentions
  | .absent => .nil
  | .raw s => .plain s
  | .known ps => (spells_pieces ps).cons _

mutual

theorem Rule.spells_passages (level : Nat) : ∀ r : Rule,
    Spells (r.passages level) (r.text level) r.mentions
  | .style target block => by
    rw [Rule.passages, Rule.text, Rule.mentions, String.append_assoc]
    exact (target.spells_passages level).append ((spells_blockPassages level block).cons " ")
  | .atBlock name start block => by
    rw [Rule.passages, Rule.text, Rule.mentions, String.append_assoc]
    exact (start.spells_passages.cons ("@" ++ name)).append
      ((spells_blockPassages level block).cons start.gap)
  | .statement name start => by
    rw [Rule.passages, Rule.text, Rule.mentions]
    have h := (start.spells_passages.cons ("@" ++ name)).append (.plain ";")
    rwa [List.append_nil] at h

theorem Item.spells_passages (level : Nat) : ∀ i : Item,
    Spells (i.passages level) (i.text level) i.mentions
  | .declaration d => by
    rw [Item.passages, Item.text, Item.mentions]
    exact .plain _
  | .rule r => by
    rw [Item.passages, Item.text, Item.mentions]
    exact Rule.spells_passages level r
  | .keyframe selectors block => by
    rw [Item.passages, Item.text, Item.mentions]
    exact (spells_blockPassages level block).cons _
  | .raw text => by
    rw [Item.passages, Item.text, Item.mentions]
    exact .plain _

theorem spells_blockPassages (level : Nat) : ∀ is : List Item,
    Spells (blockPassages level is) (blockText level is) (blockMentions is)
  | [] => .plain _
  | item :: rest => by
    by_cases hraw : ∃ text, item = .raw text ∧ rest = []
    · obtain ⟨text, rfl, rfl⟩ := hraw
      rw [blockPassages, blockText, blockMentions, blockMentions, Item.mentions]
      exact .plain _
    · have hne : ∀ text, item = .raw text → rest = [] → False := fun text h h' =>
        hraw ⟨text, h, h'⟩
      rw [blockPassages.eq_3 _ _ _ hne, blockText.eq_3 _ _ _ hne, blockMentions]
      have h := (((Item.spells_passages (level + 1) item).cons
        ("\x7b\n" ++ indentText (level + 1))).append (spells_linePassages (level + 1) rest)).append
          (.plain ("\n" ++ indentText level ++ "\x7d"))
      simpa only [String.append_assoc, List.append_nil] using h

theorem spells_linePassages (level : Nat) : ∀ is : List Item,
    Spells (linePassages level is) (itemLines level is) (blockMentions is)
  | [] => .nil
  | item :: rest => by
    rw [linePassages, itemLines, blockMentions]
    exact ((Item.spells_passages level item).cons _).append (spells_linePassages level rest)

end

/-- The passages of a sheet are its text, and the classes among them those that it mentions. -/
theorem Sheet.spells_passages (s : Sheet) : Spells s.passages s.text s.mentions :=
  .join "\n" s.rules fun r _ => r.spells_passages 0

end Spelling

end ScopedStyles.Css
