import ScopedStyles.Proofs.ExportedNames
import ScopedStyles.Proofs.Replacement

/-!
# Values of objects

`objectValue?` evaluates an object literal whose keys and values are written out: each property is
defined in turn, but for one that is named `__proto__`, which is no property and sets the prototype
if it can. The names of a class map are distinct (`distinct_run`), so the object of a class map has
a property of its own for each pair and no other, in the order of the pairs, unless a class is named
`__proto__`: that one is lost (`objectValue?_classObject`, `class_lost`).
-/

namespace ScopedStyles

namespace Script

/-- What a literal of one token stands for. -/
inductive Value where
  | text (s : String)
  | null
deriving DecidableEq, Repr, Inhabited

/-- An object: its own properties in the order in which they were made, and whether its prototype is
the one that objects start with. -/
structure ObjectValue where
  own : List (String × Value)
  inherits : Bool
deriving DecidableEq, Repr, Inhabited

namespace ObjectValue

def start : ObjectValue := ⟨[], true⟩

/-- A property is added; if there is one of its name, that one takes the value. -/
def define (o : ObjectValue) (name : String) (v : Value) : ObjectValue :=
  if name ∈ o.own.map Prod.fst then
    { o with own := o.own.map fun pair => if pair.1 = name then (name, v) else pair }
  else { o with own := o.own ++ [(name, v)] }

/-- What `__proto__: v` does in a literal: texts are no prototypes. -/
def setPrototype (o : ObjectValue) : Value → ObjectValue
  | .null => { o with inherits := false }
  | .text _ => o

/-- The value of an own property. -/
def own? (o : ObjectValue) (name : String) : Option Value := o.own.lookup name

end ObjectValue

namespace Node

def literalValue? : Node → Option Value
  | mk (.string value _) _ _ => some (.text (value.getD ""))
  | mk .null _ _ => some .null
  | _ => none

/-- The object with one more part of its literal evaluated. The key is a string: one in brackets
would be of another kind. -/
def withProperty? (o : ObjectValue) : Node → Option ObjectValue
  | mk .keyValue _ [mk (.string key _) _ _, value] =>
    value.literalValue?.map fun v =>
      if key.getD "" = "__proto__" then o.setPrototype v else o.define (key.getD "") v
  | _ => none

def objectValue? : Node → Option ObjectValue
  | mk (.object _) _ properties => properties.foldlM withProperty? .start
  | _ => none

end Node

end Script

open Script Script.Node

section Distinct

theorem nodup_eraseDups : ∀ names : List String, names.eraseDups.Nodup
  | [] => by simp
  | name :: names => by
    rw [List.eraseDups_cons, List.nodup_cons, List.mem_eraseDups]
    exact ⟨by simp, nodup_eraseDups _⟩
termination_by names => names.length
decreasing_by exact Nat.lt_succ_of_le (List.length_filter_le _ _)

/-- The names of a class map are distinct. -/
theorem Pipeline.distinct_run {path : Path} {last : Css.Sheet} : ∀ (stages : List StageConfig)
    {sheet : Css.Sheet} {ms : List Message} {m : ClassMap},
      run path (stages.map Stage.ofConfig) sheet = .ok (last, ms) → classMapOf? ms = some m →
      (m.pairs.map Prod.fst).Nodup
  | [], sheet, ms, m, h, hm => by
    simp only [List.map_nil, run, Except.ok.injEq, Prod.mk.injEq] at h
    obtain ⟨-, rfl⟩ := h
    cases hm
  | .discardEmpty :: rest, sheet, ms, m, h, hm => by
    obtain ⟨more, hr, hmore⟩ := run_discardEmpty h
    exact distinct_run rest hr (hmore ▸ hm)
  | .scopeClasses pattern :: rest, sheet, ms, m, h, hm => by
    obtain ⟨more, hr, hexports⟩ := run_scopeClasses h
    obtain rfl := Option.some.inj (hexports.symm.trans hm)
    rw [Scoping.Scope.mapOf, List.map_map]
    exact (List.map_id _).symm ▸ nodup_eraseDups _

end Distinct

section Objects

/-- The pairs that become properties. -/
def ClassMap.defined (m : ClassMap) : List (String × Value) :=
  (m.pairs.filter fun pair => pair.1 ≠ "__proto__").map fun pair => (pair.1, .text pair.2)

theorem ObjectValue.define_of_notMem {o : ObjectValue} {name : String}
    (h : name ∉ o.own.map Prod.fst) (v : Value) :
    o.define name v = { o with own := o.own ++ [(name, v)] } := if_neg h

/-- The properties of distinct names are added one behind the other. -/
theorem foldlM_withProperty? {pairs : List (String × String)} {ks : List Node}
    (h : List.Forall₂ (fun (pair : String × String) prop =>
      ∃ s, prop = .mk .keyValue .none [.text pair.1 s, .text pair.2 s]) pairs ks)
    (hdistinct : (pairs.map Prod.fst).Nodup) {o : ObjectValue}
    (hnew : ∀ pair ∈ pairs, pair.1 ∉ o.own.map Prod.fst) :
    ks.foldlM withProperty? o = some { o with own := o.own ++ ClassMap.defined ⟨pairs⟩ } := by
  induction h generalizing o with
  | nil => simp [ClassMap.defined]
  | @cons pair prop pairs ks hprop _ ih =>
    obtain ⟨s, rfl⟩ := hprop
    rw [List.map_cons, List.nodup_cons] at hdistinct
    rw [List.forall_mem_cons] at hnew
    have hstep : withProperty? o (.mk .keyValue .none [.text pair.1 s, .text pair.2 s]) =
        some (if pair.1 = "__proto__" then o else o.define pair.1 (.text pair.2)) := rfl
    rw [List.foldlM_cons, hstep]
    show ks.foldlM withProperty? _ = _
    split_ifs with hproto
    · rw [ih hdistinct.2 hnew.2]
      simp [ClassMap.defined, hproto]
    · rw [ObjectValue.define_of_notMem hnew.1, ih hdistinct.2 ?_]
      · simp [ClassMap.defined, hproto]
      · intro other hother hmem
        rw [List.map_append, List.mem_append] at hmem
        rcases hmem with hmem | hmem
        · exact hnew.2 other hother hmem
        · have hsame : other.1 = pair.1 := by simpa using hmem
          exact hdistinct.1 (hsame ▸ List.mem_map_of_mem hother)

theorem objectValue?_of_isObjectOf {m : ClassMap} {object : Node} (h : IsObjectOf m object)
    (hdistinct : (m.pairs.map Prod.fst).Nodup) :
    object.objectValue? = some ⟨m.defined, true⟩ := by
  obtain ⟨k, s, ks⟩ := object
  obtain ⟨rfl, hprops⟩ := h
  exact foldlM_withProperty? hprops hdistinct (fun _ _ => List.not_mem_nil)

theorem ClassMap.defined_cons (name value : String) (pairs : List (String × String)) :
    ClassMap.defined ⟨(name, value) :: pairs⟩ = if name = "__proto__" then ClassMap.defined ⟨pairs⟩
      else (name, .text value) :: ClassMap.defined ⟨pairs⟩ := by
  unfold defined
  split_ifs with h
  · rw [List.filter_cons_of_neg (by simp [h])]
  · rw [List.filter_cons_of_pos (by simp [h]), List.map_cons]

theorem ClassMap.lookup_defined (m : ClassMap) (name : String) : m.defined.lookup name =
    if name = "__proto__" then none else (m.get? name).map .text := by
  obtain ⟨pairs⟩ := m
  unfold get?
  induction pairs with
  | nil => simp [defined]
  | cons pair pairs ih =>
    obtain ⟨n, v⟩ := pair
    rw [defined_cons, List.lookup_cons]
    by_cases hname : name = n
    · subst hname
      split_ifs with hproto
      · rw [ih, if_pos hproto]
      · simp
    · have hne : (name == n) = false := beq_eq_false_iff_ne.2 hname
      rw [hne]
      by_cases hproto : n = "__proto__"
      · rw [if_pos hproto]
        exact ih
      · rw [if_neg hproto, List.lookup_cons, hne]
        exact ih

/-- All pairs become properties if none has the name that is none. -/
theorem ClassMap.defined_eq_iff (m : ClassMap) :
    m.defined = m.pairs.map (fun pair => (pair.1, .text pair.2)) ↔ m.get? "__proto__" = none := by
  rw [get?, List.lookup_eq_none_iff]
  constructor
  · intro h pair hpair
    have hlength := congrArg List.length h
    rw [defined, List.length_map, List.length_map, List.length_filter_eq_length_iff] at hlength
    exact bne_iff_ne.2 (Ne.symm (of_decide_eq_true (hlength pair hpair)))
  · intro h
    rw [defined, List.filter_eq_self.2 fun pair hpair =>
      decide_eq_true (Ne.symm (bne_iff_ne.1 (h pair hpair)))]

/-- The object that is put in for the class map of a stylesheet evaluates to an object with a
property of its own for each pair and no other, but for a class that is named `__proto__`. -/
theorem objectValue?_classObject {c : Config} {text : String} {path : Path} {o : Output}
    {m : ClassMap} (h : (Pipeline.ofConfig c).process text path = .ok o)
    (hm : o.classMap? = some m) (source : Option Source) :
    ∃ value, (Inlining.classObject source o.css m).objectValue? = some value ∧
      value.inherits ∧
      value.own = (m.pairs.filter fun pair => pair.1 ≠ "__proto__").map
        (fun pair => (pair.1, .text pair.2)) ∧
      (∀ name, value.own? name =
        if name = "__proto__" then none else (m.get? name).map .text) ∧
      (value.own = m.pairs.map (fun pair => (pair.1, .text pair.2)) ↔
        m.get? "__proto__" = none) := by
  obtain ⟨_, _, -, hrun, -⟩ := Pipeline.process_eq_ok h
  have hdistinct := Pipeline.distinct_run c.stages hrun hm
  exact ⟨_, objectValue?_of_isObjectOf (isObjectOf_classObject source o.css m) hdistinct, rfl, rfl,
    m.lookup_defined, m.defined_eq_iff⟩

/-- A name that objects inherit is read as the class. -/
theorem objectValue?_classObject_of_inherited :
    let o : Output := ⟨".toString_y \x7b\n  color: red;\n\x7d",
      [⟨"css-modules", .exports ⟨[("toString", "toString_y")]⟩⟩]⟩
    (Pipeline.ofConfig ⟨[.scopeClasses "[local]_y"]⟩).process ".toString \x7b color: red \x7d"
        ⟨"a.sss"⟩ = .ok o ∧
      ∃ value, (Inlining.classObject none o.css ⟨[("toString", "toString_y")]⟩).objectValue? =
        some value ∧ value.own? "toString" = some (.text "toString_y") := by
  intro o
  have hprocess : (Pipeline.ofConfig ⟨[.scopeClasses "[local]_y"]⟩).process
      ".toString \x7b color: red \x7d" ⟨"a.sss"⟩ = .ok o := by decide +kernel
  have hmap : o.classMap? = some ⟨[("toString", "toString_y")]⟩ := by decide +kernel
  obtain ⟨value, hvalue, -, -, hown, -⟩ := objectValue?_classObject hprocess hmap none
  exact ⟨hprocess, value, hvalue, hown "toString"⟩

/-- The class `__proto__` is in the class map, and the object of the map has no property. -/
theorem class_lost :
    (Pipeline.ofConfig ⟨[.scopeClasses "[local]_y"]⟩).process ".__proto__ \x7b color: red \x7d"
        ⟨"a.sss"⟩ =
      .ok ⟨".__proto___y \x7b\n  color: red;\n\x7d",
        [⟨"css-modules", .exports ⟨[("__proto__", "__proto___y")]⟩⟩]⟩ ∧
      (Inlining.classObject none ".__proto___y \x7b\n  color: red;\n\x7d"
        ⟨[("__proto__", "__proto___y")]⟩).objectValue? = some ⟨[], true⟩ := by
  decide +kernel

end Objects

end ScopedStyles
