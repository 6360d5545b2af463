import ScopedStyles.Proofs.ExportedNames
import ScopedStyles.Proofs.OncePerBuild
import ScopedStyles.Proofs.ShownPaths

/-!
# Scoped names of different files

By the default pattern a scoped name is the stem of its file, the class name and five digits of a
digest, with `_` between them. The stem and the class name may run into each other, and files may
share a stem, so what keeps the names of two files apart is the digest. It is taken of what the path
is shown as: a class has one name in two files that are shown alike (`Alike`), and then one of the
paths at least is no text. Of any others different texts are digested whenever the rest of the names
is the same, and the names are the same if the digits happen to be (`scopedName_default_eq_iff`).
This is all that can go wrong between two stylesheets of a build (`scoped_apart`), and for some
stylesheets it does (`scopedName_collides`).

`replaceAll` is known by what it does at a mark, at a character that no mark starts with, and at one
that no mark has: that one is a seam, with nothing replaced across it.
-/

namespace ScopedStyles

section Replacing

theorem replaceFrom_eq_drop (old new : List Char) : ∀ (k : ℕ) (cs : List Char),
    replaceFrom old new k cs = replaceAll old new (cs.drop k)
  | 0, cs => by rw [List.drop_zero, replaceAll]
  | k + 1, [] => by simp [replaceAll, replaceFrom]
  | k + 1, _ :: cs => by rw [replaceFrom, replaceFrom_eq_drop old new k cs, List.drop_succ_cons]

theorem replaceAll_cons (old new : List Char) (c : Char) (cs : List Char) :
    replaceAll old new (c :: cs) = if old.isPrefixOf (c :: cs) then
      new ++ replaceAll old new (cs.drop (old.length - 1)) else c :: replaceAll old new cs := by
  rw [replaceAll, replaceFrom, replaceFrom_eq_drop]
  rfl

variable {o c : Char} {os : List Char}

/-- A mark at the start is replaced. -/
theorem replaceAll_mark (o : Char) (os new cs : List Char) :
    replaceAll (o :: os) new (o :: os ++ cs) = new ++ replaceAll (o :: os) new cs := by
  have hp : (o :: os).isPrefixOf (o :: (os ++ cs)) = true := by simp
  rw [List.cons_append, replaceAll_cons, if_pos hp]
  simp

/-- Text without the first character of the mark stays. -/
theorem replaceAll_append_of_notMem {xs : List Char} (h : o ∉ xs) (new ys : List Char) :
    replaceAll (o :: os) new (xs ++ ys) = xs ++ replaceAll (o :: os) new ys := by
  induction xs with
  | nil => rfl
  | cons x xs ih =>
    rw [List.mem_cons, not_or] at h
    have hp : ¬ (o :: os).isPrefixOf (x :: (xs ++ ys)) = true := by simp [h.1]
    rw [List.cons_append, replaceAll_cons, if_neg hp, ih h.2, List.cons_append]

theorem isPrefixOf_append_cons (ys : List Char) : ∀ {old : List Char} (xs : List Char), c ∉ old →
    old.isPrefixOf (xs ++ c :: ys) = old.isPrefixOf xs
  | [], _, _ => by simp
  | o :: os, [], h => by
    have ho : o ≠ c := (List.ne_of_not_mem_cons h).symm
    simp [List.isPrefixOf, ho]
  | o :: os, x :: xs, h => by
    rw [List.cons_append, List.isPrefixOf_cons_cons, List.isPrefixOf_cons_cons,
      isPrefixOf_append_cons ys xs (List.not_mem_of_not_mem_cons h)]

/-- Nothing is replaced across a character that the mark does not have. -/
theorem replaceAll_seam {old : List Char} (h : c ∉ old) (new ys : List Char) : ∀ xs : List Char,
    replaceAll old new (xs ++ c :: ys) = replaceAll old new xs ++ replaceAll old new (c :: ys)
  | [] => rfl
  | x :: xs => by
    have hp := isPrefixOf_append_cons ys (x :: xs) h
    rw [List.cons_append] at hp
    rw [List.cons_append, replaceAll_cons, replaceAll_cons, hp]
    split_ifs with hx
    · have hlen : old.length - 1 ≤ xs.length := by
        have := (List.isPrefixOf_iff_prefix.1 hx).length_le
        simp only [List.length_cons] at this
        omega
      rw [List.drop_append_of_le_length hlen, replaceAll_seam h new ys, List.append_assoc]
    · rw [replaceAll_seam h new ys xs, List.cons_append]
  termination_by xs => xs.length
  decreasing_by
    · simp only [List.length_drop, List.length_cons]
      omega
    · simp

end Replacing

namespace Naming

theorem length_wordHex (w : UInt32) : (Digest.wordHex w).length = 8 := by
  simp [Digest.wordHex]

theorem length_hex (text : String) : (Digest.hex text).toList.length = 64 := by
  simp [Digest.hex, List.length_flatMap, length_wordHex]

theorem length_shortHash (path : Path) (name : String) : (shortHash path name).length = 5 := by
  rw [shortHash, List.length_take, length_hex]
  rfl

theorem bracket_notMem_safeStem (path : Path) : '[' ∉ safeStem path := by
  simp only [safeStem, List.mem_map, not_exists, not_and]
  intro c _ hc
  split_ifs at hc with h
  · subst hc
    simp [isIdentChar] at h
  · simp at hc

/-- The text to which the digits are added: the class name may hold the mark of the digits. -/
def labelled (path : Path) (name : String) : List Char :=
  safeStem path ++ '_' :: replaceAll hashMark (shortHash path name) name.toList

theorem scopedName_default (path : Path) (name : String) :
    (Naming.scopedName ⟨defaultPattern⟩ path name).toList =
      labelled path name ++ '_' :: shortHash path name := by
  have hstem := bracket_notMem_safeStem path
  have hnamed : replaceAll nameMark (safeStem path) defaultPattern.toList =
      safeStem path ++ '_' :: (localMark ++ '_' :: hashMark) := by
    have hpattern : defaultPattern.toList =
      nameMark ++ '_' :: (localMark ++ '_' :: hashMark) := rfl
    rw [hpattern, nameMark, replaceAll_mark]
    rfl
  have hlocal : replaceAll localMark name.toList
      (safeStem path ++ '_' :: (localMark ++ '_' :: hashMark)) =
      safeStem path ++ '_' :: (name.toList ++ '_' :: hashMark) := by
    have hmark : replaceAll localMark name.toList (localMark ++ '_' :: hashMark) =
        name.toList ++ '_' :: hashMark := by
      rw [localMark, replaceAll_mark]
      rfl
    rw [localMark, replaceAll_append_of_notMem hstem, replaceAll_cons, if_neg (by decide),
      ← localMark, hmark]
  have hhash : replaceAll hashMark (shortHash path name)
      (safeStem path ++ '_' :: (name.toList ++ '_' :: hashMark)) =
        labelled path name ++ '_' :: shortHash path name := by
    have hseam : '_' ∉ hashMark := by decide
    have hmark : replaceAll hashMark (shortHash path name) ('_' :: hashMark) =
        '_' :: shortHash path name := by
      have hend := replaceAll_mark '[' ['h', 'a', 's', 'h', ']'] (shortHash path name) []
      rw [List.append_nil] at hend
      rw [replaceAll_cons, if_neg (by decide), hashMark, hend]
      simp [replaceAll, replaceFrom]
    rw [hashMark, replaceAll_append_of_notMem hstem, replaceAll_cons, if_neg (by simp), ← hashMark,
      replaceAll_seam hseam, hmark, labelled, List.append_assoc, List.cons_append]
  rw [scopedName, hnamed, hlocal, hhash, String.toList_ofList]

/-- Files are shown by one text. -/
structure Alike (p q : Path) : Prop where
  text : p.text = q.text
  /-- One of the paths at least holds bytes that are no text. -/
  unreadable : ∀ s t : String, ¬ (p = ⟨s⟩ ∧ q = ⟨t⟩)

/-- Two classes of different files are told apart by five digits only: the digests are taken of
different texts and the digits are the same, and so is all the rest of the names. -/
structure Collide (p q : Path) (a b : String) : Prop where
  digested : p.text ++ ":" ++ a ≠ q.text ++ ":" ++ b
  digits : shortHash p a = shortHash q b
  rest : labelled p a = labelled q b

theorem alike_of_text {p q : Path} (hpq : p ≠ q) (h : p.text = q.text) : Alike p q := by
  refine ⟨h, ?_⟩
  rintro s t ⟨rfl, rfl⟩
  rw [Path.text_mk, Path.text_mk] at h
  exact hpq (congrArg (fun s : String => Path.mk s) h)

/-- A class has one name in files that are shown alike. -/
theorem scopedName_congr {p q : Path} (h : p.text = q.text) (naming : Naming) (a : String) :
    naming.scopedName p a = naming.scopedName q a := by
  rw [scopedName, scopedName, safeStem_congr h, shortHash, shortHash, h]

/-- Of two files one of which has a path that goes on as the other one's does with a class name,
the names are different for the colon in it. -/
theorem labelled_ne_of_prefix {p q : Path} {h w b : List Char} :
    safeStem p ++ '_' :: replaceAll hashMark h (w ++ ':' :: b) ≠
      safeStem q ++ '_' :: replaceAll hashMark h b := by
  intro he
  have hseam : ':' ∉ hashMark := by decide
  have hcolon : replaceAll hashMark h (':' :: b) = ':' :: replaceAll hashMark h b := by
    rw [replaceAll_cons, if_neg (by simp [hashMark])]
  rw [replaceAll_seam hseam, hcolon] at he
  have hcut : (safeStem p ++ '_' :: replaceAll hashMark h w ++ [':']) ++ replaceAll hashMark h b =
      (safeStem q ++ ['_']) ++ replaceAll hashMark h b := by simpa using he
  have hlast := congrArg List.getLast? (List.append_cancel_right hcut)
  rw [List.getLast?_concat, List.getLast?_concat] at hlast
  exact absurd (Option.some.inj hlast) (by decide)

/-- The digests are taken of one text for one class of files that are shown alike only. -/
theorem eq_of_digested {p q : Path} {a b : String} (hdigits : shortHash p a = shortHash q b)
    (hrest : labelled p a = labelled q b) (he : p.text ++ ":" ++ a = q.text ++ ":" ++ b) :
    p.text = q.text ∧ a = b := by
  have hlist : p.text.toList ++ ':' :: a.toList = q.text.toList ++ ':' :: b.toList := by
    simpa using congrArg String.toList he
  rw [labelled, labelled, hdigits] at hrest
  rcases List.append_eq_append_iff.1 hlist with ⟨w, hq, hw⟩ | ⟨w, hp, hw⟩
  · rcases w with _ | ⟨c, w⟩
    · exact ⟨String.toList_inj.1 (by simpa using hq.symm), String.toList_inj.1 (by simpa using hw)⟩
    · rw [(List.cons.inj hw).2] at hrest
      exact absurd hrest labelled_ne_of_prefix
  · rcases w with _ | ⟨c, w⟩
    · exact ⟨String.toList_inj.1 (by simpa using hp),
        String.toList_inj.1 (by simpa using hw.symm)⟩
    · rw [(List.cons.inj hw).2] at hrest
      exact absurd hrest.symm labelled_ne_of_prefix

/-- Names of different files by the default pattern are the same for one class of files that are
shown alike, and else only if the digits collide. -/
theorem scopedName_default_eq_iff {p q : Path} (h : p ≠ q) (a b : String) :
    Naming.scopedName ⟨defaultPattern⟩ p a = Naming.scopedName ⟨defaultPattern⟩ q b ↔
      Alike p q ∧ a = b ∨ Collide p q a b := by
  constructor
  · intro he
    rw [← String.toList_inj, scopedName_default, scopedName_default] at he
    obtain ⟨hrest, hdigits⟩ := List.append_inj' he (by simp [length_shortHash])
    have hdigits := (List.cons.inj hdigits).2
    by_cases hdigested : p.text ++ ":" ++ a = q.text ++ ":" ++ b
    · obtain ⟨htext, hab⟩ := eq_of_digested hdigits hrest hdigested
      exact .inl ⟨alike_of_text h htext, hab⟩
    · exact .inr ⟨hdigested, hdigits, hrest⟩
  · rintro (⟨halike, rfl⟩ | hc)
    · exact scopedName_congr halike.text _ a
    · rw [← String.toList_inj, scopedName_default, scopedName_default, hc.rest, hc.digits]

/-- Two files whose names are no text and are shown alike. -/
example :
    let p : Path := ⟨Bytes.ofText "/s/" ++ 0xFF :: Bytes.ofText ".sss"⟩
    let q : Path := ⟨Bytes.ofText "/s/" ++ 0xFE :: Bytes.ofText ".sss"⟩
    p ≠ q ∧ p.text = "/s/\uFFFD.sss" ∧
      Naming.scopedName ⟨defaultPattern⟩ p "x" = Naming.scopedName ⟨defaultPattern⟩ q "x" :=
  ⟨by decide +kernel, by decide +kernel, scopedName_congr (by decide +kernel) _ _⟩

end Naming

section Builds

open Naming

/-- A class map names classes as the first scoping stage does. -/
theorem Pipeline.pairs_run {path : Path} {last : Css.Sheet} : ∀ (stages : List StageConfig)
    {sheet : Css.Sheet} {ms : List Message} {m : ClassMap},
      run path (stages.map Stage.ofConfig) sheet = .ok (last, ms) → classMapOf? ms = some m →
      ∃ naming, (stages.filterMap StageConfig.naming?).head? = some naming ∧
        ∀ x ∈ m.pairs, x.2 = naming.scopedName path x.1
  | [], sheet, ms, m, h, hm => by
    simp only [List.map_nil, run, Except.ok.injEq, Prod.mk.injEq] at h
    obtain ⟨-, rfl⟩ := h
    cases hm
  | .discardEmpty :: rest, sheet, ms, m, h, hm => by
    obtain ⟨more, hr, hmore⟩ := run_discardEmpty h
    exact pairs_run rest hr (hmore ▸ hm)
  | .scopeClasses pattern :: rest, sheet, ms, m, h, hm => by
    obtain ⟨more, hr, hexports⟩ := run_scopeClasses h
    obtain rfl := Option.some.inj (hexports.symm.trans hm)
    refine ⟨⟨pattern⟩, rfl, fun x hx => ?_⟩
    obtain ⟨name, -, rfl⟩ := List.mem_map.1 hx
    rfl

/-- What is written is a processed text, at a place that is made of names. -/
theorem Build.processed_of_mem_runWrites : ∀ (acts : List Act) {b : Build} {w : Place × Output},
    w ∈ b.runWrites acts → (∀ s ∈ w.1, isName s) ∧
      ∃ text, b.processor.stages.process text (Disk.pathOf w.1) = .ok w.2
  | .call c :: acts, b, w, h => by
    have heffect := c.effect_after b
    rcases List.mem_append.1 h with h | h
    · obtain ⟨text, -, ho⟩ := heffect.original w h
      exact ⟨heffect.names w h, text, ho⟩
    · rw [← heffect.stages]
      exact processed_of_mem_runWrites acts h
  | .outside disk :: acts, b, w, h =>
    processed_of_mem_runWrites acts (b := { b with disk := disk }) h

/-- The scoped names of a build whose stages are the default ones. -/
structure ScopedApart (b : Build) : Prop where
  /-- Names of different files are the same for one class of files that are shown alike, and else
  only if the digits collide. -/
  names : ∀ p q : Path, p ≠ q → ∀ a b : String,
    Naming.scopedName ⟨defaultPattern⟩ p a = Naming.scopedName ⟨defaultPattern⟩ q b ↔
      Alike p q ∧ a = b ∨ Collide p q a b
  /-- So two stylesheets that are not shown alike have no scoped class in common but for such a
  collision. -/
  maps : ∀ place place' o o' m m', place ≠ place' →
    b.processor.record? place = some o → b.processor.record? place' = some o' →
      o.classMap? = some m → o'.classMap? = some m' →
        ∀ x ∈ m.pairs, ∀ y ∈ m'.pairs, x.2 = y.2 →
          Alike (Disk.pathOf place) (Disk.pathOf place') ∧ x.1 = y.1 ∨
            Collide (Disk.pathOf place) (Disk.pathOf place') x.1 y.1

/-- Whatever the disk, the calls and the changes by others. -/
theorem scoped_apart (disk : Disk) (acts : List Act) :
    ScopedApart ((Build.start disk (.ofConfig .default)).run acts) := by
  refine ⟨fun p q h => scopedName_default_eq_iff h, ?_⟩
  intro place place' o o' m m' hne ho ho' hm hm' x hx y hy hxy
  have hrecords := Build.records_run acts (.start disk (.ofConfig .default))
  -- what is known of each of both records
  have hnamed : ∀ {place o m}, ((Build.start disk (.ofConfig .default)).run acts).processor.record?
      place = some o → o.classMap? = some m → (∀ s ∈ place, isName s) ∧
        ∀ x ∈ m.pairs, x.2 = Naming.scopedName ⟨defaultPattern⟩ (Disk.pathOf place) x.1 := by
    intro place o m ho hm
    have hmem := Processor.mem_records_of_record? ho
    rw [hrecords] at hmem
    obtain ⟨hplace, text, hprocess⟩ := Build.processed_of_mem_runWrites acts hmem
    obtain ⟨source, last, -, hrun, -⟩ := Pipeline.process_eq_ok hprocess
    obtain ⟨naming, hnaming, hpairs⟩ := Pipeline.pairs_run Config.default.stages hrun hm
    obtain rfl : (⟨defaultPattern⟩ : Naming) = naming := Option.some.inj hnaming
    exact ⟨hplace, hpairs⟩
  obtain ⟨hplace, hnames⟩ := hnamed ho hm
  obtain ⟨hplace', hnames'⟩ := hnamed ho' hm'
  rw [hnames x hx, hnames' y hy] at hxy
  exact (scopedName_default_eq_iff (fun h => hne (Disk.pathOf_inj hplace hplace' h)) _ _).1 hxy

/-- Stems and class names that run into each other: the digits tell the names apart. -/
theorem scoped_apart_of_ambiguous_stems :
    let p : Path := ⟨"/tmp/smw/a.sss"⟩
    let q : Path := ⟨"/tmp/smw/a_b.sss"⟩
    p ≠ q ∧ labelled p "b_c" = labelled q "c" ∧
      Naming.scopedName ⟨defaultPattern⟩ p "b_c" ≠ Naming.scopedName ⟨defaultPattern⟩ q "c" := by
  intro p q
  have hne : p ≠ q := by decide
  have hapart := (scoped_apart (.empty []) []).names p q hne "b_c" "c"
  have hdigits : shortHash p "b_c" ≠ shortHash q "c" := by decide +kernel
  refine ⟨hne, by decide +kernel, fun h => ?_⟩
  rcases hapart.1 h with ⟨halike, -⟩ | hcollide
  · exact halike.unreadable _ _ ⟨rfl, rfl⟩
  · exact hdigits hcollide.digits

/-- Two stylesheets of one build whose class `x` takes the same scoped name. -/
theorem scopedName_collides :
    let disk : Disk := ⟨["tmp", "smw"], [(["tmp"], .directory), (["tmp", "smw"], .directory),
      (["tmp", "smw", "15"], .directory), (["tmp", "smw", "146"], .directory),
      (["tmp", "smw", "15", "a.sss"], .file (.text ".x \x7b color: red \x7d")),
      (["tmp", "smw", "146", "a.sss"], .file (.text ".x \x7b color: blue \x7d"))], by decide⟩
    let b := (Build.start disk (.ofConfig .default)).run
      [.call (.processFile ⟨"/tmp/smw/15/a.sss"⟩), .call (.processFile ⟨"/tmp/smw/146/a.sss"⟩)]
    let maps : List (Place × Option ClassMap) :=
      [(["tmp", "smw", "15", "a.sss"], some ⟨[("x", "a_x_bff18")]⟩),
        (["tmp", "smw", "146", "a.sss"], some ⟨[("x", "a_x_bff18")]⟩)]
    (⟨"/tmp/smw/15/a.sss"⟩ : Path) ≠ ⟨"/tmp/smw/146/a.sss"⟩ ∧
      Naming.scopedName ⟨defaultPattern⟩ ⟨"/tmp/smw/15/a.sss"⟩ "x" = "a_x_bff18" ∧
      Naming.scopedName ⟨defaultPattern⟩ ⟨"/tmp/smw/146/a.sss"⟩ "x" = "a_x_bff18" ∧
      b.processor.records.map (fun r => (r.1, r.2.classMap?)) = maps := by
  decide +kernel

end Builds

end ScopedStyles
