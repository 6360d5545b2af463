import ScopedStyles.Css.Sheet.Reader
import ScopedStyles.Proofs.LineScanning

/-!
# Texts of rules, one behind the other

Brackets are matched within a text that closes all of its own, so the parts of two such texts stand
behind each other, and a block that is read at some depth is read the same way at each greater one.
`ReadsIf cs ok` says of a text that rules can be read from it, whatever follows, if and only if `ok`
holds. It passes from two texts to both of them on lines of their own, and from the text of each
rule to that of the sheet.
-/

namespace ScopedStyles.Css

section Matching

namespace Part

/-- Parts put before all others where brackets are still open: before the outermost one. -/
def framesBehind (before : List Part) : List Frame → List Frame
  | [] => []
  | [f] => [{ f with before := f.before ++ before }]
  | f :: fs => f :: framesBehind before fs

/-- Parts put before those of the innermost bracket, if none is open. -/
def partsBehind (before parts : List Part) : List Frame → List Part
  | [] => parts ++ before
  | _ :: _ => parts

theorem framesBehind_cons (before : List Part) (f : Frame) (fs : List Frame) :
    framesBehind before (f :: fs) =
      { f with before := partsBehind before f.before fs } :: framesBehind before fs := by
  cases fs <;> rfl

theorem close_behind (before inner : List Part) (f : Frame) (fs : List Frame) :
    Frame.close { f with before := partsBehind before f.before fs } inner =
      partsBehind before (f.close inner) fs := by
  rcases f with ⟨_ | n, b, mine⟩ <;> cases fs <;> rfl

theorem cons_behind (before parts : List Part) (p : Part) (fs : List Frame) :
    p :: partsBehind before parts fs = partsBehind before (p :: parts) fs := by
  cases fs <;> rfl

theorem ofTokensFrom_behind (before : List Part) (fs : List Frame) (parts : List Part)
    (ts : List Token) :
    ofTokensFrom (framesBehind before fs) (partsBehind before parts fs) ts =
      (ofTokensFrom fs parts ts).map (before.reverse ++ ·) := by
  fun_induction ofTokensFrom fs parts ts with
  | case1 parts => simp [framesBehind, partsBehind, ofTokensFrom]
  | case2 f fs parts => rw [framesBehind_cons, ofTokensFrom, Option.map_none]
  | case3 fs parts n ts ih =>
    rw [framesBehind_cons] at ih
    rw [ofTokensFrom]
    exact ih
  | case4 fs parts b ts ih =>
    rw [framesBehind_cons] at ih
    rw [ofTokensFrom]
    exact ih
  | case5 f fs parts ts ih =>
    rw [framesBehind_cons, ofTokensFrom, if_pos rfl, close_behind]
    exact ih
  | case6 f fs parts b ts h ih =>
    rw [framesBehind_cons] at ih ⊢
    rw [ofTokensFrom, if_neg h]
    exact ih
  | case7 fs parts t ts h1 h2 h3 ih =>
    rw [ofTokensFrom, cons_behind, ih]
    · exact h1
    · exact h2
    · rintro f fs' b hfs rfl
      rcases fs with _ | ⟨g, fs⟩
      · cases hfs
      · exact h3 g fs b rfl rfl

/-- Tokens behind those that close all their brackets. -/
theorem ofTokensFrom_append {fs : List Frame} {parts ps : List Part} {ts : List Token}
    (us : List Token) (h : ofTokensFrom fs parts ts = some ps) :
    ofTokensFrom fs parts (ts ++ us) = ofTokensFrom [] ps.reverse us := by
  fun_induction ofTokensFrom fs parts ts with
  | case1 parts =>
    obtain rfl := Option.some.inj h
    rw [List.reverse_reverse, List.nil_append]
  | case2 f fs parts => cases h
  | case3 fs parts n ts ih | case4 fs parts b ts ih =>
    rw [List.cons_append, ofTokensFrom]
    exact ih h
  | case5 f fs parts ts ih =>
    rw [List.cons_append, ofTokensFrom, if_pos rfl]
    exact ih h
  | case6 f fs parts b ts hb ih =>
    rw [List.cons_append, ofTokensFrom, if_neg hb]
    exact ih h
  | case7 fs parts t ts h1 h2 h3 ih =>
    rw [List.cons_append, ofTokensFrom]
    · exact ih h
    all_goals assumption

theorem ofTokens_append {ts : List Token} {ps : List Part} (us : List Token)
    (h : ofTokens ts = some ps) : ofTokens (ts ++ us) = (ofTokens us).map (ps ++ ·) := by
  have hbehind := ofTokensFrom_behind ps.reverse [] [] us
  rw [List.reverse_reverse] at hbehind
  rw [ofTokens, ofTokensFrom_append us h]
  exact hbehind

end Part

/-- A token that is a part by itself and may stand in a selector. -/
def Token.isPlain : Token → Bool
  | .ident _ | .hash .. | .blank _ => true
  | .delim c => c != ';'
  | _ => false

/-- The parts of tokens without brackets. -/
def partsOf (ts : List Token) : List Part := ts.map .token

namespace Part

theorem ofTokens_plain {ts : List Token} (h : ∀ t ∈ ts, t.isPlain) :
    ofTokens ts = some (partsOf ts) := by
  have hfrom : ∀ parts, ofTokensFrom [] parts ts = some (parts.reverse ++ partsOf ts) := by
    induction ts with
    | nil => simp [ofTokensFrom, partsOf]
    | cons t ts ih =>
      obtain ⟨ht, hts⟩ := List.forall_mem_cons.1 h
      intro parts
      have hstep : ofTokensFrom [] parts (t :: ts) = ofTokensFrom [] (.token t :: parts) ts := by
        cases t <;> first | rfl | cases ht
      rw [hstep, ih hts]
      simp [partsOf]
  exact hfrom []

/-- An open block of curly brackets is a part when it is closed, behind the parts before it. -/
theorem ofTokensFrom_block (before : List Part) (fs : List Frame) (parts : List Part)
    (ts : List Token) {ps : List Part}
    (h : ofTokensFrom (fs ++ [⟨none, .curly, before⟩]) parts ts = some ps) :
    ∃ inner behind, ps = before.reverse ++ .block .curly inner :: behind := by
  induction ts generalizing fs parts with
  | nil => cases fs <;> cases h
  | cons t ts ih =>
    cases t with
    | functionStart n =>
      rw [ofTokensFrom, ← List.cons_append] at h
      exact ih _ _ h
    | open_ b =>
      rw [ofTokensFrom, ← List.cons_append] at h
      exact ih _ _ h
    | close b =>
      rcases fs with _ | ⟨f, fs⟩
      · rw [List.nil_append, ofTokensFrom] at h
        split_ifs at h with hb
        · have hbehind := ofTokensFrom_behind (.block .curly parts.reverse :: before) [] [] ts
          obtain ⟨behind, -, rfl⟩ := Option.map_eq_some_iff.1 (hbehind.symm.trans h)
          exact ⟨parts.reverse, behind, by simp⟩
        · exact ih [] _ h
      · rw [List.cons_append, ofTokensFrom] at h
        split_ifs at h
        · exact ih fs _ h
        · exact ih (f :: fs) _ h
    | _ =>
      rw [ofTokensFrom] at h
      · exact ih _ _ h
      all_goals simp

theorem ofTokens_block {w : String} {ts : List Token} {ps : List Part}
    (h : ofTokens (.blank w :: .open_ .curly :: ts) = some ps) :
    ∃ inner behind, ps = .token (.blank w) :: .block .curly inner :: behind :=
  ofTokensFrom_block [.token (.blank w)] [] [] ts h

end Part

end Matching

section Deeper

/-- What is found by the first reading is found by the second one. -/
def Finds {α : Type} (x y : Option α) : Prop := ∀ a, x = some a → y = some a

namespace Finds

variable {α β : Type}

theorem refl (x : Option α) : Finds x x := fun _ h => h

theorem bind {x y : Option α} {f g : α → Option β} (h : Finds x y) (h' : ∀ a, Finds (f a) (g a)) :
    Finds (x >>= f) (y >>= g) := fun b hb => by
  obtain ⟨a, ha, hb⟩ := Option.bind_eq_some_iff.1 hb
  exact Option.bind_eq_some_iff.2 ⟨a, h a ha, h' a b hb⟩

/-- What is made of a reading is made of the other one. -/
theorem map {x y : Option α} (f : α → Option β) (h : Finds x y) : Finds (x >>= f) (y >>= f) :=
  h.bind fun _ => .refl _

end Finds

namespace Sheet

variable {f g : BlockReader}

/-- The second reader of blocks reads what the first one reads. -/
def Deeper (f g : BlockReader) : Prop := ∀ inside ps, Finds (f inside ps) (g inside ps)

theorem Deeper.atRule (h : Deeper f g) (place : Inside) (name : Name) (start : List Part)
    (inner : Option (List Part)) :
    Finds (atRule f place name start inner) (atRule g place name start inner) := by
  unfold Sheet.atRule
  split
  · exact (Finds.refl _).bind fun _ => (h _ _).map _
  · exact .refl _
  · exact (h _ _).map _
  · exact .refl _

theorem Deeper.styleRule (h : Deeper f g) (nested : Bool) (ps : List Part) :
    Finds (styleRule f nested ps) (styleRule g nested ps) := by
  unfold Sheet.styleRule
  split
  · exact (Finds.refl _).bind fun _ => (h _ _).map _
  · exact .refl _

theorem Deeper.ruleList (h : Deeper f g) (top : Bool) (k : ℕ) (ps : List Part) :
    Finds (ruleList f top k ps) (ruleList g top k ps) := by
  fun_induction Sheet.ruleList f top k ps with
  | case1 ps => exact nofun
  | case2 k => exact .refl _
  | case3 k w ps ih => exact ih
  | case4 k name ps start inner rest hsplit ih =>
    rw [Sheet.ruleList, hsplit]
    exact Finds.bind (h.atRule _ _ _ _) fun _ => ih.map _
  | case5 k ps htop _ _ ih | case6 k ps htop _ _ ih =>
    subst htop
    exact ih
  | case7 k p ps hblank hname hopen hclose ih =>
    rw [Sheet.ruleList]
    · exact Finds.bind (h.styleRule _ _) fun r => (ih r.2).map _
    all_goals assumption

theorem Deeper.styleItems (h : Deeper f g) (k : ℕ) (ps : List Part) :
    Finds (styleItems f k ps) (styleItems g k ps) := by
  fun_induction Sheet.styleItems f k ps with
  | case1 ps => exact nofun
  | case2 k => exact .refl _
  | case3 k w ps ih => exact ih
  | case4 k ps ih => exact ih
  | case5 k name ps start inner rest hsplit ih =>
    rw [Sheet.styleItems, hsplit]
    exact Finds.bind (h.atRule _ _ _ _) fun _ => ih.map _
  | case6 k n ps mine rest hsplit ih =>
    rw [Sheet.styleItems, hsplit]
    exact Finds.bind (.refl _) fun _ => ih.map _
  | case7 k ps hnil hblank hsemi hname hident ih =>
    rw [Sheet.styleItems]
    · exact Finds.bind (h.styleRule _ _) fun r => (ih r.2).map _
    all_goals assumption

theorem Deeper.declarations (h : Deeper f g) (place : Inside) (k : ℕ) (ps : List Part) :
    Finds (declarations f place k ps) (declarations g place k ps) := by
  fun_induction Sheet.declarations f place k ps with
  | case1 ps => exact nofun
  | case2 k => exact .refl _
  | case3 k w ps ih => exact ih
  | case4 k ps ih => exact ih
  | case5 k name ps start inner rest hsplit ih =>
    rw [Sheet.declarations, hsplit]
    exact Finds.bind (h.atRule _ _ _ _) fun _ => ih.map _
  | case6 k ps hnil hblank hsemi hname mine rest hsplit ih =>
    rw [Sheet.declarations]
    · rw [hsplit]
      exact Finds.bind (.refl _) fun _ => ih.map _
    all_goals assumption

theorem Deeper.keyframes (h : Deeper f g) (k : ℕ) (ps : List Part) :
    Finds (keyframes f k ps) (keyframes g k ps) := by
  fun_induction Sheet.keyframes f k ps with
  | case1 ps => exact nofun
  | case2 k => exact .refl _
  | case3 k w ps ih => exact ih
  | case4 k ps hnil hblank start inner rest hsplit ih =>
    rw [Sheet.keyframes]
    · rw [hsplit]
      exact Finds.bind (.refl _) fun _ => (h _ _).bind fun _ => ih.map _
    all_goals assumption
  | case5 => exact nofun

theorem Deeper.blockStep (h : Deeper f g) : Deeper (blockStep f) (blockStep g) := by
  intro inside ps
  cases inside with
  | rules => exact (h.ruleList _ _ _).map _
  | style => exact (h.styleItems _ _).map _
  | page | features | declarations => exact h.declarations _ _ _
  | keyframes => exact h.keyframes _ _
  | raw => exact .refl _

theorem deeper_blocks {d e : ℕ} (h : d ≤ e) : Deeper (blocks d) (blocks e) := by
  induction d generalizing e with
  | zero => exact fun _ _ => nofun
  | succ d ih =>
    obtain ⟨e, rfl⟩ := Nat.exists_eq_add_of_le' (Nat.le_of_lt_succ (Nat.lt_succ_of_le h))
    exact (ih (Nat.le_add_left d e)).blockStep

end Sheet

end Deeper

section Rules

namespace Part

theorem depthOf_append (ps qs : List Part) :
    depthOf (ps ++ qs) = max (depthOf ps) (depthOf qs) := by
  induction ps with
  | nil => simp [depthOf]
  | cons p ps ih => rw [List.cons_append, depthOf, depthOf, ih, Nat.max_assoc]

theorem depthOf_partsOf (ts : List Token) : depthOf (partsOf ts) = 0 := by
  induction ts with
  | nil => rfl
  | cons t ts ih => simpa [partsOf, depthOf, depth] using ih

/-- What is passed over between the rules of a sheet. -/
def isSkipped : Part → Bool
  | .token (.blank _) | .token .commentOpen | .token .commentClose => true
  | _ => false

theorem depthOf_skipped {ps : List Part} (h : ∀ p ∈ ps, p.isSkipped) : depthOf ps = 0 := by
  induction ps with
  | nil => rfl
  | cons p ps ih =>
    obtain ⟨hp, hps⟩ := List.forall_mem_cons.1 h
    rw [depthOf, ih hps]
    cases p with
    | token t => rfl
    | _ => cases hp

end Part

namespace Sheet

variable {f : BlockReader} {ts : List Token} {inner behind : List Part}

theorem ruleList_skipped (f : BlockReader) (k : ℕ) (qs : List Part) : ∀ {ps : List Part},
    (∀ p ∈ ps, p.isSkipped) → ruleList f true (ps.length + k) (ps ++ qs) = ruleList f true k qs
  | [], _ => by rw [List.length_nil, Nat.zero_add, List.nil_append]
  | p :: ps, h => by
    obtain ⟨hp, hps⟩ := List.forall_mem_cons.1 h
    have ih := ruleList_skipped f k qs hps
    rw [List.length_cons, Nat.add_right_comm, List.cons_append]
    unfold Part.isSkipped at hp
    split at hp
    · exact ih
    · exact ih
    · exact ih
    · cases hp

/-- If no rule is read, all parts are passed over. -/
theorem skipped_of_ruleList {k : ℕ} {ps : List Part} (h : ruleList f true k ps = some []) :
    ∀ p ∈ ps, p.isSkipped := by
  fun_induction ruleList f true k ps with
  | case1 ps => cases h
  | case2 k => exact List.forall_mem_nil _
  | case3 k w ps ih => exact List.forall_mem_cons.2 ⟨rfl, ih h⟩
  | case4 k name ps start inner rest hsplit ih =>
    obtain ⟨r, -, h⟩ := Option.bind_eq_some_iff.1 h
    obtain ⟨rs, -, h⟩ := Option.bind_eq_some_iff.1 h
    cases h
  | case5 k ps _ _ _ ih | case6 k ps _ _ _ ih => exact List.forall_mem_cons.2 ⟨rfl, ih h⟩
  | case7 k p ps hblank hname hopen hclose ih =>
    obtain ⟨⟨r, rest⟩, -, h⟩ := Option.bind_eq_some_iff.1 h
    obtain ⟨rs, -, h⟩ := Option.bind_eq_some_iff.1 h
    cases h

theorem splitBlock_plain (inner behind : List Part) : ∀ {ts : List Token}, (∀ t ∈ ts, t.isPlain) →
    splitBlock (partsOf ts ++ .block .curly inner :: behind) = (partsOf ts, some inner, behind)
  | [], _ => rfl
  | t :: ts, h => by
    obtain ⟨ht, hts⟩ := List.forall_mem_cons.1 h
    have ih := splitBlock_plain inner behind hts
    rw [partsOf, List.map_cons, List.cons_append, splitBlock, ← partsOf, ih]
    · intro hsemi
      obtain rfl := Part.token.inj hsemi
      cases ht
    · simp

theorem styleRule_eq {nested : Bool} {ps start : List Part}
    (h : splitBlock ps = (start, some inner, behind)) :
    styleRule f nested ps = (do
      let target ← targetOf nested start
      let block ← f .style inner
      return (.style target block, behind)) := by
  rw [styleRule, h]

/-- Tokens that stand before the block of a style rule. -/
structure OpensRule (ts : List Token) : Prop where
  plain : ∀ t ∈ ts, t.isPlain
  first : ∃ t rest, ts = t :: rest ∧ t.isBlank = false

/-- The parts of a style rule. -/
def ruleParts (ts : List Token) (inner : List Part) : List Part :=
  partsOf ts ++ [.token (.blank " "), .block .curly inner]

theorem ruleList_rule (f : BlockReader) (k : ℕ) (h : OpensRule ts) (inner behind : List Part) :
    ruleList f true (k + 1) (ruleParts ts inner ++ behind) = (do
      let target ← targetOf false (partsOf ts ++ [.token (.blank " ")])
      let block ← f .style inner
      return .style target block :: (← ruleList f true k behind)) := by
  have hplain : ∀ t ∈ ts ++ [.blank " "], t.isPlain :=
    List.forall_mem_append.2 ⟨h.plain, by simp [Token.isPlain]⟩
  have hsplit := splitBlock_plain inner behind hplain
  have hparts : ruleParts ts inner ++ behind =
      partsOf (ts ++ [.blank " "]) ++ .block .curly inner :: behind := by simp [ruleParts, partsOf]
  have htarget : partsOf ts ++ [.token (.blank " ")] = partsOf (ts ++ [.blank " "]) := by
    simp [partsOf]
  rw [hparts, htarget]
  obtain ⟨t, rest, rfl, hblank⟩ := h.first
  have ht := h.plain t List.mem_cons_self
  have hcons : partsOf (t :: rest ++ [.blank " "]) ++ .block .curly inner :: behind =
      .token t :: (partsOf (rest ++ [.blank " "]) ++ .block .curly inner :: behind) := rfl
  rw [hcons, ruleList, ← hcons, styleRule_eq hsplit]
  · simp only [Option.bind_eq_bind, Option.bind_assoc]
    rfl
  all_goals
    intros
    simp_all [Token.isPlain, Token.isBlank]

end Sheet

end Rules

section Texts

open Sheet (blocks ruleList targetOf OpensRule ruleParts)

/-- A text is read as rules, whatever follows, if and only if `ok` holds. -/
structure ReadsIf (cs : List Char) (ok : Prop) : Prop where
  shut : Shut cs
  parts : ∃ ts ps n, Token.scan cs = some ts ∧ Part.ofTokens ts = some ps ∧ n ≤ ps.length ∧
    ∀ d, Part.depthOf ps ≤ d → ∀ k qs, (ruleList (blocks (d + 1)) true (n + k) (ps ++ qs)).isSome ↔
      ok ∧ (ruleList (blocks (d + 1)) true k qs).isSome

/-- What follows the opening bracket of a block, if it is read with nothing behind the block but
what is passed over. -/
structure BlockReads (rest : List Char) : Prop where
  closed : rest.getLast? = some '\x7d'
  parts : ∃ us inner behind, Token.scan (' ' :: '\x7b' :: rest) = some us ∧
    Part.ofTokens us = some (.token (.blank " ") :: .block .curly inner :: behind) ∧
    (∀ p ∈ behind, p.isSkipped) ∧ (blocks (Part.depthOf inner + 2) .style inner).isSome

theorem shut_block {rest : List Char} (pre : List Char) (h : rest.getLast? = some '\x7d') :
    Shut (pre ++ ' ' :: '\x7b' :: rest) := by
  intro c hc
  rw [List.getLast?_append, List.getLast?_cons_cons, List.getLast?_cons, h] at hc
  exact (Option.some.inj hc).symm

/-- A block ends in its closing bracket. -/
theorem blockText_closed (level : ℕ) (items : List Item) : ∃ rest,
    (blockText level items).toList = '\x7b' :: rest ∧ rest.getLast? = some '\x7d' := by
  unfold blockText
  split <;> simp [List.getLast?_append, List.getLast?_cons]

namespace ReadsIf

variable {cs ds : List Char} {ok ok' : Prop}

theorem nil : ReadsIf [] True where
  shut := by simp [Shut]
  parts := ⟨[], [], 0, rfl, rfl, Nat.le_refl _, fun d _ k qs => by simp⟩

theorem congr (h : ReadsIf cs ok) (hok : ok ↔ ok') : ReadsIf cs ok' := by
  rwa [← propext hok]

/-- A text on a line of its own. -/
theorem line (h : ReadsIf cs ok) (hne : cs ≠ []) (hhead : ∀ c ∈ cs.head?, Name.isBlank c = false) :
    ReadsIf ('\n' :: cs) ok := by
  obtain ⟨ts, ps, n, hscan, hparts, hn, hread⟩ := h.parts
  have hshut : Shut ('\n' :: cs) := by
    obtain ⟨c, cs, rfl⟩ := List.exists_cons_of_ne_nil hne
    exact fun d hd => h.shut d (by simpa using hd)
  have hblank : Token.Scans ('\n' :: cs) [.blank "\n"] cs :=
    Token.scans_blanks [] (by simp [Name.isBlank, Name.isNewline]) hhead
  have hplain : Part.ofTokens [.blank "\n"] = some [.token (.blank "\n")] := rfl
  refine ⟨hshut, .blank "\n" :: ts, .token (.blank "\n") :: ps, n + 1, ?_, ?_, ?_, ?_⟩
  · rw [hblank.scan_eq hshut h.shut, hscan]
    rfl
  · exact (Part.ofTokens_append ts hplain).trans (by rw [hparts]; rfl)
  · exact Nat.succ_le_succ hn
  · intro d hd k qs
    rw [Part.depthOf, Part.depth, Nat.zero_max] at hd
    rw [Nat.add_right_comm]
    exact hread d hd k qs

/-- Two texts, the second one on lines of its own. -/
theorem append (h : ReadsIf cs ok) (h' : ReadsIf ('\n' :: ds) ok') :
    ReadsIf (cs ++ '\n' :: ds) (ok ∧ ok') := by
  obtain ⟨ts, ps, n, hscan, hparts, hn, hread⟩ := h.parts
  obtain ⟨us, qs, m, hscan', hparts', hm, hread'⟩ := h'.parts
  refine ⟨fun c hc => h'.shut c (by simpa [List.getLast?_append] using hc), ts ++ us, ps ++ qs,
    n + m, Token.scan_line h.shut h'.shut hscan hscan', ?_, ?_, ?_⟩
  · rw [Part.ofTokens_append us hparts, hparts', Option.map_some]
  · rw [List.length_append]
    exact Nat.add_le_add hn hm
  · intro d hd k rest
    rw [Part.depthOf_append, Nat.max_le] at hd
    rw [Nat.add_assoc, List.append_assoc, hread d hd.1, hread' d hd.2, and_assoc]

/-- The whole text is read as a sheet. -/
theorem read_iff (h : ReadsIf cs ok) : (Sheet.read (String.ofList cs)).isSome ↔ ok := by
  obtain ⟨ts, ps, n, hscan, hparts, hn, hread⟩ := h.parts
  obtain ⟨k, hk⟩ := Nat.exists_eq_add_of_le hn
  have hall := hread _ (Nat.le_refl _) (k + 1) []
  rw [List.append_nil] at hall
  have hlast : (ruleList (blocks (Part.depthOf ps + 1)) true (k + 1) []).isSome := rfl
  have hsheet : Sheet.read (String.ofList cs) = (ruleList (blocks (Part.depthOf ps + 1)) true
      (n + (k + 1)) ps).map Sheet.mk := by
    rw [Sheet.read, Part.scan, String.toList_ofList, hscan]
    show (Part.ofTokens ts).bind Sheet.ofParts = _
    rw [hparts, ← Nat.add_assoc, ← hk, Option.bind_some, Sheet.ofParts, Option.map_eq_bind]
    rfl
  rw [hsheet, Option.isSome_map, hall, and_iff_left hlast]

end ReadsIf

section Rule

variable {pre rest : List Char} {ts : List Token} {ok : Prop}

theorem scans_blockStart (rest : List Char) :
    Token.Scans (' ' :: '\x7b' :: rest) [.blank " ", .open_ .curly] rest := by
  have hb : Name.isBlank '\x7b' = false := by decide
  have hopen : Token.scanOne '\x7b' rest = some (.open_ .curly, rest) := by
    simp [Token.scanOne, hb, Token.startsNumber, Name.startsAt, Name.isStart, Bracket.ofOpen?]
  exact (Token.scans_blanks [] (by simp [Name.isBlank]) (by simp [hb])).append
    (.token (by simp) hopen .done)

theorem depthOf_ruleParts (ts : List Token) (inner : List Part) {behind : List Part}
    (h : ∀ p ∈ behind, p.isSkipped) :
    Part.depthOf (ruleParts ts inner ++ behind) = Part.depthOf inner + 1 := by
  rw [ruleParts, Part.depthOf_append, Part.depthOf_append, Part.depthOf_partsOf,
    Part.depthOf_skipped h]
  simp [Part.depthOf, Part.depth]

/-- A style rule is read if its block and what stands before it are. -/
theorem readsIf_rule
    (hscan : Token.Scans (pre ++ ' ' :: '\x7b' :: rest) ts (' ' :: '\x7b' :: rest))
    (h : OpensRule ts)
    (htarget : (targetOf false (partsOf ts ++ [.token (.blank " ")])).isSome ↔ ok)
    (hblock : BlockReads rest) : ReadsIf (pre ++ ' ' :: '\x7b' :: rest) ok := by
  obtain ⟨us, inner, behind, hus, hparts, hbehind, hinner⟩ := hblock.parts
  have hwhole := shut_block pre hblock.closed
  refine ⟨hwhole, ts ++ us, ruleParts ts inner ++ behind, behind.length + 1, ?_, ?_, ?_, ?_⟩
  · rw [hscan.scan_eq hwhole (shut_block [] hblock.closed), hus, Option.map_some]
  · rw [Part.ofTokens_append us (Part.ofTokens_plain h.plain), hparts]
    simp [ruleParts]
  · simp [ruleParts]
    omega
  · intro d hd k qs
    rw [depthOf_ruleParts ts inner hbehind] at hd
    obtain ⟨block, hblock⟩ := Option.isSome_iff_exists.1 hinner
    rw [Nat.add_right_comm, List.append_assoc, Sheet.ruleList_rule _ _ h,
      Sheet.deeper_blocks (Nat.succ_le_succ hd) _ _ _ hblock, Sheet.ruleList_skipped _ _ _ hbehind,
      ← htarget]
    generalize targetOf false (partsOf ts ++ [.token (.blank " ")]) = target
    generalize ruleList (blocks (d + 1)) true k qs = others
    rcases target with _ | target <;> rcases others with _ | others <;> simp

theorem blockReads_of_read {r : Rule} (hclosed : rest.getLast? = some '\x7d')
    (hscan : Token.Scans (pre ++ ' ' :: '\x7b' :: rest) ts (' ' :: '\x7b' :: rest))
    (h : OpensRule ts)
    (hread : Sheet.read (String.ofList (pre ++ ' ' :: '\x7b' :: rest)) = some ⟨[r]⟩) :
    BlockReads rest := by
  have hshut : Shut (' ' :: '\x7b' :: rest) := shut_block [] hclosed
  obtain ⟨ps, hps, hsheet⟩ := Option.bind_eq_some_iff.1 hread
  obtain ⟨all, hall, hps⟩ := Option.bind_eq_some_iff.1 hps
  rw [String.toList_ofList, hscan.scan_eq (shut_block pre hclosed) hshut] at hall
  obtain ⟨us, hus, rfl⟩ := Option.map_eq_some_iff.1 hall
  rw [Part.ofTokens_append us (Part.ofTokens_plain h.plain)] at hps
  obtain ⟨mine, hmine, rfl⟩ := Option.map_eq_some_iff.1 hps
  -- the parts of the block start with the blank and the block itself
  have hstart := hus
  rw [(scans_blockStart rest).scan_eq hshut hshut.tail.tail] at hstart
  obtain ⟨vs, -, rfl⟩ := Option.map_eq_some_iff.1 hstart
  obtain ⟨inner, behind, rfl⟩ := Part.ofTokens_block hmine
  -- one rule is read, so none is read behind the block
  obtain ⟨rs, hrs, hr⟩ := Option.bind_eq_some_iff.1 hsheet
  obtain rfl : rs = [r] := by simpa using hr
  have hparts : partsOf ts ++ .token (.blank " ") :: .block .curly inner :: behind =
      ruleParts ts inner ++ behind := by simp [ruleParts]
  rw [hparts, Sheet.ruleList_rule _ _ h] at hrs
  obtain ⟨target, -, hrs⟩ := Option.bind_eq_some_iff.1 hrs
  obtain ⟨block, hblock, hrs⟩ := Option.bind_eq_some_iff.1 hrs
  obtain ⟨others, hothers, hrs⟩ := Option.bind_eq_some_iff.1 hrs
  obtain rfl : others = [] := (List.cons.inj (Option.some.inj hrs)).2
  have hbehind := Sheet.skipped_of_ruleList hothers
  rw [depthOf_ruleParts ts inner hbehind] at hblock
  exact ⟨hclosed, _, inner, behind, hus, hmine, hbehind, Option.isSome_iff_exists.2 ⟨block, hblock⟩⟩

end Rule

end Texts

end ScopedStyles.Css
