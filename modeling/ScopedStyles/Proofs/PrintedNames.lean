import ScopedStyles.Css.Name
import Mathlib.Data.List.Basic

/-!
# Printed names

A name that is not empty reads back from what is printed for it, whatever follows, as long as that
is no part of a name (`Name.scan_printChars`). Only the character zero does not come back: it is
printed, as it is read, as the replacement character.
-/

namespace ScopedStyles.Css.Name

/-- How a character comes back that is printed. -/
def seen (c : Char) : Char := if c.toNat = 0 then charOfCode 0 else c

/-- Text that does not go on with a name. -/
def Stops (rest : List Char) : Prop :=
  ∀ c ∈ rest.head?, ¬ (isInner c || c.toNat = 0) ∧ c ≠ '\\'

/-- A row of hexadecimal digits and a blank behind it. -/
theorem hexDigits_append (rest : List Char) : ∀ {k : ℕ} {ds : List Char} (v : ℕ),
    ds.length ≤ k → (∀ d ∈ ds, isHexDigit d) →
      hexDigits k v (ds ++ ' ' :: rest) =
        (ds.foldl (fun v d => 16 * v + hexValue d) v, ds, ' ' :: rest)
  | 0, [], v, _, _ => rfl
  | k + 1, [], v, _, _ => by
    rw [List.nil_append, hexDigits, if_neg (by decide)]
    rfl
  | k + 1, d :: ds, v, hlen, hds => by
    rw [List.cons_append, hexDigits, if_pos (hds d List.mem_cons_self),
      hexDigits_append rest (16 * v + hexValue d) (by simpa using hlen)
        fun e he => hds e (List.mem_cons_of_mem d he)]
    rfl

/-- The digits of a character of ASCII are hexadecimal digits, at most two, and give it back. -/
theorem toDigits_ascii : ∀ n < 128, n ≠ 0 → (∀ d ∈ Nat.toDigits 16 n, isHexDigit d) ∧
    (Nat.toDigits 16 n).length ≤ 6 ∧ Nat.toDigits 16 n ≠ [] ∧
      (Nat.toDigits 16 n).foldl (fun v d => 16 * v + hexValue d) 0 = n := by
  -- decided of the digits, where the statement itself would be decided of all characters
  have h : ∀ n < 128, n ≠ 0 → (Nat.toDigits 16 n).all isHexDigit ∧
      (Nat.toDigits 16 n).length ≤ 6 ∧ Nat.toDigits 16 n ≠ [] ∧
        (Nat.toDigits 16 n).foldl (fun v d => 16 * v + hexValue d) 0 = n := by
    decide +kernel
  simpa only [List.all_eq_true] using h

theorem escaped_codePoint {c : Char} (h : c.toNat < 128) (h0 : c.toNat ≠ 0) (rest : List Char) :
    escaped (Nat.toDigits 16 c.toNat ++ ' ' :: rest) =
      (c, Nat.toDigits 16 c.toNat ++ [' '], rest) := by
  obtain ⟨hhex, hlen, hne, hvalue⟩ := toDigits_ascii c.toNat h h0
  have hdigits := hexDigits_append rest 0 hlen hhex
  have hcode : charOfCode c.toNat = c := by
    rw [charOfCode, if_neg (by omega), Char.ofNat_toNat]
  rw [hvalue] at hdigits
  obtain ⟨d, ds, hds⟩ := List.exists_cons_of_ne_nil hne
  rw [hds] at hdigits hhex ⊢
  rw [List.cons_append] at hdigits ⊢
  simp only [escaped, if_pos (hhex d List.mem_cons_self), hdigits, hcode]
  rfl

/-- A piece of a text is read as one character of a name. -/
def Reads (piece : List Char) (c : Char) : Prop :=
  ∀ fuel rest, scanChars (fuel + 1) (piece ++ rest) =
    (c :: (scanChars fuel rest).1, piece ++ (scanChars fuel rest).2.1, (scanChars fuel rest).2.2)

theorem reads_inner {c : Char} (h : isInner c) (h0 : c.toNat ≠ 0) : Reads [c] c := by
  intro fuel rest
  have hc : isInner c || c.toNat = 0 := by simp [h]
  simp only [List.singleton_append, scanChars, if_pos hc, if_neg h0]

/-- A backslash and what it takes. -/
theorem reads_backslash {c d : Char} {text : List Char} (hd : ¬ isNewline d)
    (h : ∀ rest, escaped (d :: text ++ rest) = (c, d :: text, rest)) :
    Reads ('\\' :: d :: text) c := fun fuel rest => by
  have hback : isInner '\\' = false := by decide
  have hesc : canEscape (d :: (text ++ rest)) := by simpa [canEscape] using hd
  have hread := h rest
  rw [List.cons_append] at hread
  simp [scanChars, hback, hesc, hread]

theorem isAlpha_iff {c : Char} : c.isAlpha ↔
    (65 ≤ c.toNat ∧ c.toNat ≤ 90) ∨ (97 ≤ c.toNat ∧ c.toNat ≤ 122) := by
  have hupper : c.isUpper ↔ 'A'.val ≤ c.val ∧ c.val ≤ 'Z'.val := decide_eq_true_iff
  have hlower : c.isLower ↔ 'a'.val ≤ c.val ∧ c.val ≤ 'z'.val :=
    (Bool.and_eq_true _ _).to_iff.trans (and_congr decide_eq_true_iff decide_eq_true_iff)
  rw [UInt32.le_iff_toNat_le, UInt32.le_iff_toNat_le] at hupper hlower
  exact (Bool.or_eq_true c.isUpper c.isLower).to_iff.trans (or_congr hupper hlower)

theorem isInner_of_isHexDigit {c : Char} (h : isHexDigit c) : isInner c := by
  simp only [isHexDigit, isInner, isStart, isAlpha_iff, Char.isDigit,
    Bool.or_eq_true, Bool.and_eq_true, decide_eq_true_eq, Char.le_def,
    UInt32.le_iff_toNat_le] at h ⊢
  simp only [UInt32.reduceToNat, Char.reduceVal, Char.toNat_val] at h ⊢
  omega

theorem not_isInner_of_isNewline {c : Char} (h : isNewline c) : ¬ isInner c := by
  simp only [isNewline, Bool.or_eq_true, decide_eq_true_eq] at h
  rcases h with (rfl | rfl) | h
  · decide
  · decide
  · have hc := Char.ofNat_toNat c
    rw [h] at hc
    rw [← hc]
    decide

theorem reads_codePoint {c : Char} (h : c.toNat < 128) (h0 : c.toNat ≠ 0) :
    Reads (codePoint c) c := by
  obtain ⟨hhex, -, hne, -⟩ := toDigits_ascii c.toNat h h0
  have hesc := escaped_codePoint h h0
  obtain ⟨d, ds, hds⟩ := List.exists_cons_of_ne_nil hne
  rw [codePoint, hds]
  rw [hds] at hhex hesc
  refine reads_backslash (fun hn => ?_) fun rest => by simpa using hesc rest
  exact not_isInner_of_isNewline hn (isInner_of_isHexDigit (hhex d List.mem_cons_self))

theorem not_isNewline {c : Char} (h : ¬ (c.toNat < 32 || c.toNat = 127)) :
    ¬ isNewline c := fun hn => h (by
  simp only [isNewline, Bool.or_eq_true, decide_eq_true_eq] at hn ⊢
  rcases hn with (rfl | rfl) | hn
  · exact .inl (by decide)
  · exact .inl (by decide)
  · exact .inl (by omega))

theorem reads_escaped {c : Char} (h : ¬ isInner c) (hn : ¬ isNewline c) : Reads ['\\', c] c := by
  refine reads_backslash hn fun rest => ?_
  have hhex : ¬ isHexDigit c := fun hc => h (isInner_of_isHexDigit hc)
  rw [List.cons_append, escaped, if_neg hhex]
  rfl

theorem reads_printInner (c : Char) : Reads (printInner c) (seen c) := by
  unfold printInner seen
  split_ifs with h0 hcontrol hinner
  · exact reads_inner (by decide) (by decide)
  · refine reads_codePoint ?_ h0
    simp only [Bool.or_eq_true, decide_eq_true_eq] at hcontrol
    omega
  · exact reads_inner hinner h0
  · exact reads_escaped hinner (not_isNewline hcontrol)

theorem digit_range {c : Char} (h : c.isDigit) : 48 ≤ c.toNat ∧ c.toNat ≤ 57 := by
  simp only [Char.isDigit, Bool.and_eq_true, decide_eq_true_eq, UInt32.le_iff_toNat_le] at h
  exact h

/-- How the first character of a name is printed, and the second one behind a hyphen. -/
def printFirst (c : Char) : List Char := if c.isDigit then codePoint c else printInner c

theorem reads_printFirst (c : Char) : Reads (printFirst c) (seen c) := by
  unfold printFirst
  split_ifs with hc
  · have hdigit := digit_range hc
    rw [seen, if_neg (by omega)]
    exact reads_codePoint (by omega) (by omega)
  · exact reads_printInner c

theorem printChars_cons {c : Char} (cs : List Char) (h : c ≠ '-') :
    printChars (c :: cs) = printFirst c ++ cs.flatMap printInner := by
  rw [printChars]
  · rfl
  · exact fun hc _ => h hc
  · exact fun _ _ hc _ => h hc

theorem printChars_hyphen (c : Char) (cs : List Char) :
    printChars ('-' :: c :: cs) = '-' :: (printFirst c ++ cs.flatMap printInner) := rfl

/-- The pieces that a name is printed in, one for each character. -/
theorem printChars_pieces : ∀ cs : List Char, ∃ ps : List (List Char × Char),
    printChars cs = ps.flatMap Prod.fst ∧ ps.map Prod.snd = cs.map seen ∧
      ∀ p ∈ ps, Reads p.1 p.2 := by
  have hinner : ∀ cs : List Char,
      ∀ p ∈ cs.map fun c => (printInner c, seen c), Reads p.1 p.2 := by
    simp only [List.mem_map]
    rintro cs _ ⟨c, -, rfl⟩
    exact reads_printInner c
  have hyphen : seen '-' = '-' := by decide
  rintro (_ | ⟨c, cs⟩)
  · exact ⟨[], rfl, rfl, by simp⟩
  by_cases hc : c = '-'
  · subst hc
    rcases cs with _ | ⟨d, cs⟩
    · exact ⟨[(codePoint '-', '-')], by simp [printChars], by simp [hyphen],
        by simpa using reads_codePoint (by decide) (by decide)⟩
    · refine ⟨(['-'], '-') :: (printFirst d, seen d) :: cs.map fun c => (printInner c, seen c),
        ?_, ?_, ?_⟩
      · rw [printChars_hyphen, List.flatMap_cons, List.flatMap_cons, List.flatMap_map]
        rfl
      · simp [hyphen]
      · exact List.forall_mem_cons.2 ⟨reads_inner (by decide) (by decide),
          List.forall_mem_cons.2 ⟨reads_printFirst d, hinner cs⟩⟩
  · refine ⟨(printFirst c, seen c) :: cs.map fun c => (printInner c, seen c), ?_, by simp,
      List.forall_mem_cons.2 ⟨reads_printFirst c, hinner cs⟩⟩
    rw [printChars_cons cs hc, List.flatMap_cons, List.flatMap_map]

theorem Reads.length_pos {piece : List Char} {c : Char} (h : Reads piece c) : 1 ≤ piece.length := by
  rcases piece with _ | ⟨d, piece⟩
  · simpa [scanChars] using h 0 []
  · simp

theorem length_le_pieces : ∀ ps : List (List Char × Char), (∀ p ∈ ps, Reads p.1 p.2) →
    ps.length ≤ (ps.flatMap Prod.fst).length
  | [], _ => Nat.le_refl 0
  | p :: ps, h => by
    have hp := (h p List.mem_cons_self).length_pos
    have ih := length_le_pieces ps fun q hq => h q (List.mem_cons_of_mem p hq)
    rw [List.length_cons, List.flatMap_cons, List.length_append]
    omega

theorem scanChars_pieces (rest : List Char) : ∀ (ps : List (List Char × Char)) (fuel : ℕ),
    (∀ p ∈ ps, Reads p.1 p.2) → scanChars (ps.length + fuel) (ps.flatMap Prod.fst ++ rest) =
      (ps.map Prod.snd ++ (scanChars fuel rest).1, ps.flatMap Prod.fst ++ (scanChars fuel rest).2.1,
        (scanChars fuel rest).2.2)
  | [], fuel, _ => by simp
  | (piece, c) :: ps, fuel, h => by
    have hfuel : ((piece, c) :: ps).length + fuel = ps.length + fuel + 1 := by
      rw [List.length_cons]
      omega
    rw [hfuel, List.flatMap_cons, List.append_assoc, (h _ List.mem_cons_self),
      scanChars_pieces rest ps fuel fun p hp => h p (List.mem_cons_of_mem _ hp)]
    simp

theorem scanChars_of_stops {rest : List Char} (h : Stops rest) : ∀ fuel : ℕ,
    scanChars fuel rest = ([], [], rest)
  | 0 => rfl
  | fuel + 1 => by
    rcases rest with _ | ⟨c, rest⟩
    · rfl
    obtain ⟨hinner, hback⟩ := h c rfl
    rw [scanChars, if_neg hinner, if_neg (by simp [hback])]

/-- A printed name reads back, whatever follows that is no part of a name. -/
theorem scan_printChars (cs : List Char) {rest : List Char} (h : Stops rest) :
    scan (printChars cs ++ rest) =
      (⟨String.ofList (cs.map seen), String.ofList (printChars cs)⟩, rest) := by
  obtain ⟨ps, hprint, hseen, hps⟩ := printChars_pieces cs
  have hlen : ps.length ≤ (printChars cs ++ rest).length := by
    rw [hprint, List.length_append]
    exact Nat.le_add_right_of_le (length_le_pieces ps hps)
  obtain ⟨more, hmore⟩ := Nat.exists_eq_add_of_le hlen
  rw [scan, hmore, hprint, scanChars_pieces rest ps more hps,
    scanChars_of_stops h, hseen, List.append_nil, List.append_nil]

section Start

theorem isStart_range {c : Char} (h : isStart c) : (65 ≤ c.toNat ∧ c.toNat ≤ 90) ∨
    (97 ≤ c.toNat ∧ c.toNat ≤ 122) ∨ c.toNat = 95 ∨ 128 ≤ c.toNat := by
  simp only [isStart, isAlpha_iff, Bool.or_eq_true, decide_eq_true_eq] at h
  rcases h with ((h | h) | rfl) | h
  · exact .inl h
  · exact .inr (.inl h)
  · exact .inr (.inr (.inl rfl))
  · exact .inr (.inr (.inr h))

theorem isStart_not_isDigit {c : Char} (h : isStart c) : c.isDigit = false := by
  rw [← Bool.not_eq_true]
  intro hd
  have hdigit := digit_range hd
  have hstart := isStart_range h
  omega

theorem isStart_not_isBlank {c : Char} (h : isStart c) : isBlank c = false := by
  rw [← Bool.not_eq_true]
  intro hb
  have hinner : isInner c := by simp [isInner, h]
  simp only [isBlank, Bool.or_eq_true, decide_eq_true_eq] at hb
  rcases hb with (rfl | rfl) | hb
  · exact absurd hinner (by decide)
  · exact absurd hinner (by decide)
  · exact not_isInner_of_isNewline hb hinner

/-- A text that starts with a name: with no number and no closing of a comment. -/
inductive Opens : List Char → Prop
  | letter {c : Char} {cs : List Char} : isStart c → Opens (c :: cs)
  | escape {cs : List Char} : canEscape cs → Opens ('\\' :: cs)
  | hyphen {cs : List Char} : Opens cs → Opens ('-' :: cs)
  | hyphens {cs : List Char} : cs.head? ≠ some '>' → Opens ('-' :: '-' :: cs)

theorem Opens.first {cs : List Char} {p : Char → Prop} (h : Opens cs)
    (hstart : ∀ c, isStart c → p c) (hescape : p '\\') (hhyphen : p '-') :
    ∀ d ∈ cs.head?, p d := by
  intro d hd
  cases h with
  | letter hc =>
    obtain rfl := Option.some.inj hd
    exact hstart _ hc
  | escape =>
    obtain rfl := Option.some.inj hd
    exact hescape
  | hyphen | hyphens =>
    obtain rfl := Option.some.inj hd
    exact hhyphen

theorem isStart_ne {c : Char} (h : isStart c) : c ≠ '-' ∧ c ≠ '\\' :=
  ⟨by rintro rfl; simp [isStart] at h, by rintro rfl; simp [isStart] at h⟩

theorem Opens.startsAt {cs : List Char} (h : Opens cs) : startsAt cs := by
  cases h with
  | letter hc => simp [Name.startsAt, isStart_ne hc, hc]
  | escape hc => simpa [Name.startsAt] using hc
  | hyphen hopens =>
    cases hopens with
    | letter hc => simp [Name.startsAt, isStart_ne hc, hc]
    | escape hc => simpa [Name.startsAt] using hc
    | hyphen => rfl
    | hyphens => rfl
  | hyphens => rfl

theorem opens_codePoint {c : Char} (h : c.toNat < 128) (h0 : c.toNat ≠ 0) (rest : List Char) :
    Opens (codePoint c ++ rest) := by
  obtain ⟨hhex, -, hne, -⟩ := toDigits_ascii c.toNat h h0
  obtain ⟨d, ds, hds⟩ := List.exists_cons_of_ne_nil hne
  have hd : ¬ isNewline d := fun hn =>
    not_isInner_of_isNewline hn (isInner_of_isHexDigit (hhex d (hds ▸ List.mem_cons_self)))
  rw [codePoint, hds]
  exact .escape (by simpa [canEscape] using hd)

theorem opens_printFirst {c : Char} (h : c ≠ '-') (rest : List Char) :
    Opens (printFirst c ++ rest) := by
  unfold printFirst
  split_ifs with hc
  · have hdigit := digit_range hc
    exact opens_codePoint (by omega) (by omega) rest
  unfold printInner
  split_ifs with h0 hcontrol hinner
  · exact .letter (by decide)
  · simp only [Bool.or_eq_true, decide_eq_true_eq] at hcontrol
    exact opens_codePoint (by omega) h0 rest
  · exact .letter (by simpa [isInner, hc, h] using hinner)
  · exact .escape (by simpa [canEscape] using not_isNewline hcontrol)

theorem head?_printInner (c : Char) (rest : List Char) :
    (printInner c ++ rest).head? ≠ some '>' := by
  unfold printInner
  split_ifs with h0 hcontrol hinner
  · simp only [List.cons_append, List.head?_cons, ne_eq, Option.some.injEq]
    decide
  · simp [codePoint]
  · rintro h
    obtain rfl : c = '>' := Option.some.inj h
    exact absurd hinner (by decide)
  · simp

theorem opens_printChars {cs rest : List Char} (h : cs ≠ []) (hrest : rest.head? ≠ some '>') :
    Opens (printChars cs ++ rest) := by
  rcases cs with _ | ⟨c, cs⟩
  · exact absurd rfl h
  by_cases hc : c = '-'
  · subst hc
    rcases cs with _ | ⟨d, cs⟩
    · exact opens_codePoint (by decide) (by decide) rest
    rw [printChars_hyphen, List.cons_append, List.append_assoc]
    by_cases hd : d = '-'
    · subst hd
      refine .hyphens ?_
      rcases cs with _ | ⟨e, cs⟩
      · exact hrest
      · rw [List.flatMap_cons, List.append_assoc]
        exact head?_printInner e _
    · exact .hyphen (opens_printFirst hd _)
  · rw [printChars_cons cs hc, List.append_assoc]
    exact opens_printFirst hc _

end Start

end ScopedStyles.Css.Name
