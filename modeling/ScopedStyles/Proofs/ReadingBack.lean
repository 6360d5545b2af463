import ScopedStyles.Proofs.PlainItems
import ScopedStyles.Proofs.Replacement
import ScopedStyles.Proofs.Transforming

/-!
# Objects at the start of a statement

The object put in the place of a call is written as it is, with no parentheses around it. Where the
call stands at the start of a statement, alone or as the first operand of what follows, the object
comes to stand there. No source reads as such a program (`plain_of_read`), so what the code of the
job reads as, if it can be read at all, is another program than the one that was written
(`code_read_otherwise`).
-/

namespace ScopedStyles

namespace Script

namespace Node

/-- A call of `require` on a stylesheet that has a class map. -/
def isMappedCall (isMapped : String → Bool) (n : Node) : Bool :=
  match n.requiredSpecifier? with
  | some specifier => Specifier.isStylesheet specifier && isMapped specifier
  | none => false

mutual

/-- Whether the first thing that is written of a node is a call with a class map. -/
def startsWithCall (isMapped : String → Bool) : Node → Bool
  | mk k s ks =>
    (mk k s ks).isMappedCall isMapped || k.startsWithChild && firstStartsWithCall isMapped ks

def firstStartsWithCall (isMapped : String → Bool) : List Node → Bool
  | [] => false
  | n :: _ => n.startsWithCall isMapped

end

variable {mapOf? : String → Option ClassMap}

theorem isMappedCall_iff {n : Node} : n.isMappedCall (fun s => (mapOf? s).isSome) = true ↔
    ∃ specifier m, n.requiredSpecifier? = some specifier ∧ Specifier.isStylesheet specifier ∧
      mapOf? specifier = some m := by
  unfold isMappedCall
  split
  · rename_i specifier h
    simp [h, Option.isSome_iff_exists]
  · rename_i h
    simp [h]

theorem Refers.eq_id {n : Node} {specifier : String} {put : Node → Node}
    (h : Refers n specifier put) (hn : n.kind.startsWithChild = true) : put = id := by
  cases h with
  | wholeImport => exact absurd hn Bool.false_ne_true
  | call => rfl

theorem Refers.startsWithChild {n : Node} {specifier : String} (h : Refers n specifier id) :
    n.kind.startsWithChild = true := by
  generalize hput : (id : Node → Node) = put at h
  cases h with
  | wholeImport => exact absurd (congrFun hput absent) nofun
  | call => rfl

theorem IsObjectOf.opensObject {m : ClassMap} {o : Node} (h : IsObjectOf m o) :
    o.opensObject = true := by
  rcases o with ⟨k, s, ks⟩
  obtain rfl : k = .object false := h.1
  rfl

mutual

/-- Where a call was at the start, an object is. -/
theorem Replaced.opensObject : ∀ {n n' : Node}, Replaced mapOf? n n' →
    n.startsWithCall (fun s => (mapOf? s).isSome) = true → n'.opensObject = true
  | mk k s ks, n', h, hn => by
    rw [startsWithCall, Bool.or_eq_true, Bool.and_eq_true] at hn
    cases h with
    | replaced hr hm ho =>
      have hk : k.startsWithChild = true := by
        rcases hn with hn | hn
        · obtain ⟨specifier, m, hs, hsheet, -⟩ := isMappedCall_iff.1 hn
          exact (requiredSpecifier?_eq_some hs hsheet).startsWithChild
        · exact hn.1
      rw [hr.eq_id hk]
      exact ho.opensObject
    | kept hnone hks =>
      rcases hn with hn | ⟨hk, hn⟩
      · obtain ⟨specifier, m, hs, hsheet, hm⟩ := isMappedCall_iff.1 hn
        exact absurd (hm.symm.trans (hnone _ _ (requiredSpecifier?_eq_some hs hsheet))) nofun
      · rw [Node.opensObject, hk, Bool.true_and, firstOpensObject_of_replaced hks hn, Bool.or_true]

theorem firstOpensObject_of_replaced : ∀ {ns ns' : List Node},
    List.Forall₂ (Replaced mapOf?) ns ns' →
    firstStartsWithCall (fun s => (mapOf? s).isSome) ns = true → firstOpensObject ns' = true
  | [], _, _, hn => absurd hn nofun
  | _ :: _, _, .cons h _, hn => h.opensObject hn

end

theorem exists_opensObject {ns ns' : List Node} (h : List.Forall₂ (Replaced mapOf?) ns ns')
    {n : Node} (hn : n ∈ ns) (hs : n.startsWithCall (fun s => (mapOf? s).isSome) = true) :
    ∃ n' ∈ ns', n'.opensObject = true := by
  induction h with
  | nil => exact absurd hn List.not_mem_nil
  | cons hr _ ih =>
    rcases List.mem_cons.1 hn with rfl | hn
    · exact ⟨_, List.mem_cons_self, hr.opensObject hs⟩
    · obtain ⟨n', hn', ho⟩ := ih hn
      exact ⟨n', List.mem_cons_of_mem _ hn', ho⟩

end Node

/-- The kind without the positions in it, without how a string is spelled and without a comma that
ends a list. -/
def Kind.bare : Kind → Kind
  | .string value _ => .string value none
  | .rest _ => .rest 0
  | .array _ => .array false
  | .object _ => .object false
  | k => k

namespace Node

mutual

/-- The tree without its positions. -/
def bare : Node → Node
  | mk k _ ks => mk k.bare .none (bareAll ks)

def bareAll : List Node → List Node
  | [] => []
  | n :: ns => n.bare :: bareAll ns

end

end Node

theorem Kind.isObject_bare (k : Kind) : k.bare.isObject = k.isObject := by
  unfold bare
  split <;> rfl

theorem Kind.startsWithChild_bare (k : Kind) : k.bare.startsWithChild = k.startsWithChild := by
  unfold bare
  split <;> rfl

namespace Node

mutual

theorem opensObject_bare : ∀ n : Node, n.bare.opensObject = n.opensObject
  | mk k s ks => by
    rw [bare, opensObject, opensObject, k.isObject_bare, k.startsWithChild_bare,
      firstOpensObject_bareAll]

theorem firstOpensObject_bareAll : ∀ ns, firstOpensObject (bareAll ns) = firstOpensObject ns
  | [] => rfl
  | n :: _ => opensObject_bare n

end

end Node

namespace Program

open Node

/-- A program with a call at the start of an item becomes one that no source reads as. -/
theorem inlineMaps_never_read {p : Program} {r : Inlining} {n : Node} (hn : n ∈ p.body)
    (hs : n.startsWithCall (fun s => (r.mapOf? s).isSome) = true) {language : Language}
    {goal : Goal} {text : String} {q : Program} {comments : Comments}
    (hq : read language goal text = some (q, comments)) :
    q.body.map bare ≠ (p.inlineMaps r).1.body.map bare := by
  intro heq
  obtain ⟨n', hn', ho⟩ := exists_opensObject (replaced_inlineAll p.body r fun _ => rfl) hn hs
  obtain ⟨m, hm, hbare⟩ := List.mem_map.1 (heq ▸ List.mem_map_of_mem (mem_body_inlineMaps hn'))
  refine plain_iff.1 (plain_of_read hq m hm) ?_
  rw [← opensObject_bare, hbare, opensObject_bare, ho]

end Program

end Script

namespace Job

open Script

/-- A job on a source with a call of `require` at the start of an item, be it alone or as the first
operand of what follows, has a result if that call has a class map; but its code does not read as
the program that was written. -/
theorem code_read_otherwise {j : Job} {b : Build} {p : Program} {comments : Comments}
    (hp : j.program? = some (p, comments)) {n : Node} (hn : n ∈ p.body)
    (hs : n.startsWithCall (fun s => ((j.start b).mapOf? s).isSome) = true) :
    ∃ t, j.result b = some t ∧ ∀ q comments',
      Program.read (.ofFile j.file) .module t.code = some (q, comments') →
      q.body.map Node.bare ≠ (p.inlineMaps (j.start b)).1.body.map Node.bare := by
  obtain ⟨t, ht, -⟩ := run_of_program? hp b
  refine ⟨t, by rw [result, ht]; rfl, fun q comments' hq => ?_⟩
  exact Program.inlineMaps_never_read hn hs hq

/-- An object with no names in it reads as a block. -/
theorem code_read_as_block :
    let disk := ((Disk.empty ["app"]).put ["app"] .directory).put ["app", "a.sss"]
      (.file (.text "a \x7b color: red \x7d"))
    let b : Build := .start disk (.fresh [.scopeClasses ⟨"[local]_y"⟩])
    let j : Job := ⟨"require('./a.sss');\n", "App.jsx", false⟩
    let code := "import \"./a.css\";\n\x7b\x7d;\n"
    ∃ p comments t q comments', j.program? = some (p, comments) ∧ j.result b = some t ∧
      t.code = code ∧ Program.read (.ofFile j.file) .module code = some (q, comments') ∧
      q.body.map Node.bare ≠ (p.inlineMaps (j.start b)).1.body.map Node.bare := by
  intro disk b j code
  obtain ⟨⟨p, comments⟩, hp⟩ := Option.isSome_iff_exists.1
    (by decide +kernel : j.program?.isSome = true)
  have hstarts : j.program?.map (fun p => p.1.body.any
      (Node.startsWithCall fun s => ((j.start b).mapOf? s).isSome)) = some true := by
    decide +kernel
  rw [hp] at hstarts
  obtain ⟨n, hn, hs⟩ := List.any_eq_true.1 (Option.some.inj hstarts)
  obtain ⟨t, ht, hother⟩ := code_read_otherwise hp hn hs
  have hcode : (j.result b).map Transformed.code = some code := by decide +kernel
  rw [ht] at hcode
  have hcode : t.code = code := Option.some.inj hcode
  obtain ⟨⟨q, comments'⟩, hq⟩ := Option.isSome_iff_exists.1
    (by decide +kernel : (Program.read (.ofFile j.file) .module code).isSome = true)
  have hother := hother q comments' (by rw [hcode, hq])
  exact ⟨p, comments, t, q, comments', hp, ht, hcode, hq, hother⟩

/-- The code of a module that is written as it was read, up to its object, cannot be read at all. -/
theorem code_not_read :
    let disk := ((Disk.empty ["app"]).put ["app"] .directory).put ["app", "a.sss"]
      (.file (.text ".x \x7b color: red \x7d"))
    let b : Build := .start disk (.fresh [.scopeClasses ⟨"[local]_y"⟩])
    let j : Job := ⟨"require('./a.sss').x;\n", "App.jsx", false⟩
    let code := "import \"./a.css\";\n\x7b\n    \"x\": \"x_y\"\n\x7d.x;\n"
    j.program?.map (fun p => (p.1.layout.write p.2).1) = some j.source ∧
      (j.result b).map Transformed.code = some code ∧
      Program.read (.ofFile j.file) .module code = none := by
  decide +kernel

end Job

end ScopedStyles
