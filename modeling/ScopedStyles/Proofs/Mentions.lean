import ScopedStyles.Stage.Scoping
import Mathlib.Tactic.SplitIfs

/-!
# Mentions of classes

`Sheet.mentions` lists the classes of a sheet in document order, each with where it stands: outside
the brackets of every `:global`, within some that stay, or within some that are dissolved. A
`:global` is dissolved in a compound of a complex selector, with one complex selector in its
brackets; in a compound that stands alone in brackets it stays.
-/

namespace ScopedStyles

open Scoping (Wrapper)

namespace Css

/-- Where a class stands among the brackets of `:global`. -/
inductive Standing where
  | outside | within | dissolved
deriving DecidableEq, Repr, Inhabited

/-- A class as a sheet mentions it. -/
structure Mention where
  name : String
  standing : Standing
deriving DecidableEq, Repr, Inhabited

namespace Mention

/-- What a mention in the brackets of a pseudo-class is outside of them, if the brackets stay. -/
def bracketed (pseudo : String) (m : Mention) : Mention :=
  if Wrapper.ofName? pseudo = some .global ∧ m.standing = .outside then ⟨m.name, .within⟩ else m

/-- What it is if the brackets are those of a wrapper that is dissolved. -/
def unwrapped (pseudo : String) (m : Mention) : Mention :=
  if Wrapper.ofName? pseudo = some .global then ⟨m.name, .dissolved⟩ else m

theorem bracketed_name (pseudo : String) (m : Mention) : (m.bracketed pseudo).name = m.name := by
  unfold bracketed
  split_ifs <;> rfl

theorem unwrapped_name (pseudo : String) (m : Mention) : (m.unwrapped pseudo).name = m.name := by
  unfold unwrapped
  split_ifs <;> rfl

theorem bracketed_dissolved_iff (pseudo : String) (m : Mention) :
    (m.bracketed pseudo).standing = .dissolved ↔ m.standing = .dissolved := by
  unfold bracketed
  split_ifs with h
  · simp [h.2]
  · rfl

theorem unwrapped_eq_self {pseudo : String} (h : Wrapper.ofName? pseudo ≠ some .global)
    (m : Mention) : m.unwrapped pseudo = m := by
  rw [unwrapped, if_neg h]

theorem unwrapped_standing {pseudo : String} (h : Wrapper.ofName? pseudo = some .global)
    (m : Mention) : (m.unwrapped pseudo).standing = .dissolved := by
  rw [unwrapped, if_pos h]

end Mention

section Selectors

mutual

def Simple.mentions : Simple → List Mention
  | .id _ => []
  | .className n => [⟨n, .outside⟩]
  | .attribute _ => []
  | .pseudoClass n a => a.mentions.map (Mention.bracketed n)
  | .pseudoElement _ a => a.mentions

def Args.mentions : Args → List Mention
  | .absent => []
  | .text _ => []
  | .complex c => c.mentions
  | .compounds cs => compoundMentions cs
  | .list cs => complexMentions cs
  | .lenient ms => memberMentions ms
  | .formula _ _ cs => complexMentions cs

def memberMentions : List Member → List Mention
  | [] => []
  | .selector c :: ms => c.mentions ++ memberMentions ms
  | .relative (.mk _ c) :: ms => c.mentions ++ memberMentions ms
  | .raw _ :: ms => memberMentions ms

/-- Of a compound that stands alone in brackets. -/
def Compound.mentions : Compound → List Mention
  | .mk _ _ cs => simpleMentions cs

def compoundMentions : List Compound → List Mention
  | [] => []
  | c :: rest => c.mentions ++ compoundMentions rest

def simpleMentions : List Simple → List Mention
  | [] => []
  | c :: rest => c.mentions ++ simpleMentions rest

def ComplexSelector.mentions : ComplexSelector → List Mention
  | .mk cs => childMentions cs

def childMentions : List Child → List Mention
  | [] => []
  | .combinator _ :: rest => childMentions rest
  | .compound (.mk _ _ cs) :: rest => conditionMentions cs ++ childMentions rest

/-- Of the conditions of a compound in a complex selector. -/
def conditionMentions : List Simple → List Mention
  | [] => []
  | .pseudoClass n (.complex inner) :: rest =>
    inner.mentions.map (Mention.unwrapped n) ++ conditionMentions rest
  | c :: rest => c.mentions ++ conditionMentions rest

def complexMentions : List ComplexSelector → List Mention
  | [] => []
  | c :: rest => c.mentions ++ complexMentions rest

end

/-- A condition with a complex selector in its brackets. -/
def Simple.IsWrapping (c : Simple) : Prop := ∃ n inner, c = .pseudoClass n (.complex inner)

theorem conditionMentions_cons {c : Simple} (h : ¬ c.IsWrapping) (rest : List Simple) :
    conditionMentions (c :: rest) = c.mentions ++ conditionMentions rest := by
  rw [conditionMentions]
  rintro n inner rfl
  exact h ⟨n, inner, rfl⟩

theorem conditionMentions_append : ∀ cs ds : List Simple,
    conditionMentions (cs ++ ds) = conditionMentions cs ++ conditionMentions ds
  | [], ds => by simp [conditionMentions]
  | c :: cs, ds => by
    have ih := conditionMentions_append cs ds
    by_cases h : c.IsWrapping
    · obtain ⟨n, inner, rfl⟩ := h
      simp only [List.cons_append, conditionMentions, ih, List.append_assoc]
    · rw [List.cons_append, conditionMentions_cons h, conditionMentions_cons h, ih,
        List.append_assoc]

/-- Which classes a condition mentions does not depend on where it stands. -/
theorem conditionMentions_names (c : Simple) :
    (conditionMentions [c]).map Mention.name = c.mentions.map Mention.name := by
  by_cases h : c.IsWrapping
  · obtain ⟨n, inner, rfl⟩ := h
    simp only [conditionMentions, Simple.mentions, Args.mentions, List.append_nil, List.map_map]
    exact List.map_congr_left fun m _ => by
      rw [Function.comp_apply, Function.comp_apply, Mention.unwrapped_name, Mention.bracketed_name]
  · rw [conditionMentions_cons h, conditionMentions, List.append_nil]

end Selectors

section Sheets

def Relative.mentions : Relative → List Mention
  | .mk _ c => c.mentions

def Target.mentions : Target → List Mention
  | .selectors list => complexMentions list
  | .relatives list => list.flatMap Relative.mentions

def Piece.mentions : Piece → List Mention
  | .text _ => []
  | .selector c => c.mentions

def Prelude.mentions : Prelude → List Mention
  | .known ps => ps.flatMap Piece.mentions
  | _ => []

mutual

def Rule.mentions : Rule → List Mention
  | .style target block => target.mentions ++ blockMentions block
  | .atBlock _ start block => start.mentions ++ blockMentions block
  | .statement _ start => start.mentions

def Item.mentions : Item → List Mention
  | .declaration _ => []
  | .rule r => r.mentions
  | .keyframe _ block => blockMentions block
  | .raw _ => []

def blockMentions : List Item → List Mention
  | [] => []
  | i :: rest => i.mentions ++ blockMentions rest

end

/-- The classes that a sheet mentions, in document order. -/
def Sheet.mentions (sheet : Sheet) : List Mention := sheet.rules.flatMap Rule.mentions

end Sheets

end Css

end ScopedStyles
