import ScopedStyles.Css.Token
import Mathlib.Data.List.TakeDrop

/-!
# Scanning lines

Where a text ends in a closing curly bracket, a further line behind it changes nothing: no token of
the text is longer for it, and the tokens of the line come behind those of the text
(`Token.scan_line`). So the rules of a sheet, each on lines of its own, can be scanned one by one.

There is one lemma for each function that reads ahead. It gives what is read from the text and from
the text with the line behind it, and says that what is left is an end of the text. `Scans` is for
texts whose first tokens are known: the tokens, and the text behind them.
-/

namespace ScopedStyles.Css

/-- A text that is empty or ends in a closing curly bracket. -/
def Shut (cs : List Char) : Prop := ∀ c ∈ cs.getLast?, c = '\x7d'

variable {c : Char} {cs rest : List Char}

theorem Shut.of_suffix (h : Shut cs) (hs : rest <:+ cs) : Shut rest := by
  obtain ⟨used, rfl⟩ := hs
  rcases rest with _ | ⟨c, rest⟩
  · simp [Shut]
  · intro d hd
    exact h d (by simpa [List.getLast?_append] using hd)

theorem Shut.tail (h : Shut (c :: cs)) : Shut cs := h.of_suffix (List.suffix_cons c cs)

/-- A character that is no closing bracket is not the last one. -/
theorem Shut.ne_nil (h : Shut (c :: cs)) (hc : c ≠ '\x7d') : cs ≠ [] := by
  rintro rfl
  exact hc (h c rfl)

/-- A run of characters that are no closing brackets ends within the text. -/
theorem Shut.run {p : Char → Bool} (hp : p '\x7d' = false) (y : List Char) : ∀ {cs : List Char},
    Shut cs → cs ≠ [] → (cs ++ '\n' :: y).takeWhile p = cs.takeWhile p ∧
      (cs ++ '\n' :: y).dropWhile p = cs.dropWhile p ++ '\n' :: y ∧ cs.dropWhile p ≠ []
  | [], _, hne => absurd rfl hne
  | c :: cs, h, _ => by
    by_cases hc : p c
    · have hne : cs ≠ [] := h.ne_nil (by rintro rfl; simp [hp] at hc)
      obtain ⟨ht, hd, hr⟩ := Shut.run hp y h.tail hne
      simp [hc, ht, hd, hr]
    · simp [hc]

namespace Name

theorem canEscape_line (y : List Char) (cs : List Char) :
    canEscape (cs ++ '\n' :: y) = canEscape cs := by
  cases cs <;> rfl

theorem hexDigits_line (y : List Char) : ∀ (k v : ℕ) {cs : List Char}, Shut cs → cs ≠ [] →
    ∃ v' ds rest, hexDigits k v cs = (v', ds, rest) ∧
      hexDigits k v (cs ++ '\n' :: y) = (v', ds, rest ++ '\n' :: y) ∧ rest <:+ cs ∧ rest ≠ []
  | 0, v, cs, _, hne => ⟨v, [], cs, rfl, rfl, List.suffix_rfl, hne⟩
  | k + 1, v, [], _, hne => absurd rfl hne
  | k + 1, v, c :: cs, h, _ => by
    by_cases hc : isHexDigit c
    · have hne : cs ≠ [] := h.ne_nil (by rintro rfl; simp [isHexDigit] at hc)
      obtain ⟨v', ds, rest, h1, h2, hs, hr⟩ := hexDigits_line y k (16 * v + hexValue c) h.tail hne
      exact ⟨v', c :: ds, rest, by rw [hexDigits, if_pos hc, h1],
        by rw [List.cons_append, hexDigits, if_pos hc, h2], hs.trans (List.suffix_cons c cs), hr⟩
    · exact ⟨v, [], c :: cs, by rw [hexDigits, if_neg hc],
        by rw [List.cons_append, hexDigits, if_neg hc], List.suffix_rfl, by simp⟩

/-- The blank that belongs to a code point before it, and the rest. -/
def codeBlank : List Char → List Char × List Char
  | '\r' :: '\n' :: rest => (['\r', '\n'], rest)
  | b :: rest => if isBlank b then ([b], rest) else ([], b :: rest)
  | [] => ([], [])

theorem escaped_of_hex {v : ℕ} {ds : List Char} (hc : isHexDigit c)
    (h : hexDigits 6 0 (c :: cs) = (v, ds, rest)) :
    escaped (c :: cs) = (charOfCode v, ds ++ (codeBlank rest).1, (codeBlank rest).2) := by
  rw [escaped, if_pos hc, h]
  simp only
  unfold codeBlank
  split
  · rfl
  · rename_i b _ _
    by_cases hb : isBlank b <;> simp [hb]
  · simp

theorem codeBlank_suffix (cs : List Char) : (codeBlank cs).2 <:+ cs := by
  unfold codeBlank
  split
  · exact (List.suffix_cons _ _).trans (List.suffix_cons _ _)
  · split_ifs
    · exact List.suffix_cons _ _
    · exact List.suffix_rfl
  · exact List.suffix_rfl

theorem codeBlank_line (y : List Char) (h : Shut cs) (hne : cs ≠ []) :
    codeBlank (cs ++ '\n' :: y) = ((codeBlank cs).1, (codeBlank cs).2 ++ '\n' :: y) := by
  rcases cs with _ | ⟨b, cs⟩
  · exact absurd rfl hne
  by_cases hb : b = '\r'
  · subst hb
    rcases cs with _ | ⟨d, cs⟩
    · exact absurd rfl (h.ne_nil (by decide))
    · by_cases hd : d = '\n'
      · subst hd
        rfl
      · rw [List.cons_append, List.cons_append, codeBlank, codeBlank]
        · split_ifs <;> rfl
        all_goals simpa using fun h => absurd h hd
  · rw [List.cons_append, codeBlank, codeBlank]
    · split_ifs <;> rfl
    all_goals exact fun _ h => absurd h hb

theorem escaped_line (y : List Char) (h : Shut cs) (hne : cs ≠ []) : ∃ e text rest,
    escaped cs = (e, text, rest) ∧ escaped (cs ++ '\n' :: y) = (e, text, rest ++ '\n' :: y) ∧
      rest <:+ cs.tail := by
  rcases cs with _ | ⟨c, cs⟩
  · exact absurd rfl hne
  by_cases hc : isHexDigit c
  · have hne : cs ≠ [] := h.ne_nil (by rintro rfl; simp [isHexDigit] at hc)
    obtain ⟨v, ds, rest, h1, h2, hs, hr⟩ := hexDigits_line y 5 (16 * 0 + hexValue c) h.tail hne
    have h1' : hexDigits 6 0 (c :: cs) = (v, c :: ds, rest) := by rw [hexDigits, if_pos hc, h1]
    have h2' : hexDigits 6 0 (c :: (cs ++ '\n' :: y)) = (v, c :: ds, rest ++ '\n' :: y) := by
      rw [hexDigits, if_pos hc, h2]
    exact ⟨_, _, _, escaped_of_hex hc h1',
      by rw [List.cons_append, escaped_of_hex hc h2', codeBlank_line y (h.tail.of_suffix hs) hr],
      (codeBlank_suffix rest).trans hs⟩
  · exact ⟨c, [c], cs, by rw [escaped, if_neg hc], by rw [List.cons_append, escaped, if_neg hc],
      List.suffix_rfl⟩

theorem scanChars_line (y : List Char) : ∀ (fuel : ℕ) {cs : List Char}, Shut cs →
    cs.length ≤ fuel → ∃ v w rest, scanChars fuel cs = (v, w, rest) ∧ rest <:+ cs ∧
      ∀ more, cs.length < more → scanChars more (cs ++ '\n' :: y) = (v, w, rest ++ '\n' :: y)
  | fuel, [], _, _ => by
    refine ⟨[], [], [], by cases fuel <;> rfl, List.suffix_rfl, fun more hm => ?_⟩
    rcases more with _ | more
    · simp at hm
    · simp [scanChars, isInner, isStart]
  | fuel + 1, c :: cs, h, hf => by
    have hf : cs.length ≤ fuel := by simpa using hf
    by_cases hc : isInner c || c.toNat = 0
    · obtain ⟨v, w, rest, h1, hs, h2⟩ := scanChars_line y fuel h.tail hf
      refine ⟨_, _, rest, by rw [scanChars, if_pos hc, h1], hs.trans (List.suffix_cons _ _),
        fun more hm => ?_⟩
      rcases more with _ | more
      · simp at hm
      rw [List.cons_append, scanChars, if_pos hc, h2 more (by simpa using hm)]
    by_cases he : c = '\\' && canEscape cs
    · have hcs : cs ≠ [] := by
        rintro rfl
        simp [canEscape] at he
      obtain ⟨e, text, left, h1, h2, hs⟩ := escaped_line y h.tail hcs
      have hleft : left <:+ cs := hs.trans (List.tail_suffix cs)
      have hlen := hleft.length_le
      obtain ⟨v, w, rest, h3, hs', h4⟩ := scanChars_line y fuel (h.tail.of_suffix hleft) (by omega)
      refine ⟨e :: v, c :: text ++ w, rest, by simp only [scanChars, if_neg hc, if_pos he, h1, h3],
        hs'.trans (hleft.trans (List.suffix_cons _ _)), fun more hm => ?_⟩
      rcases more with _ | more
      · simp at hm
      have hm' : left.length < more := by
        simp only [List.length_cons] at hm
        omega
      simp only [List.cons_append, scanChars, if_neg hc, canEscape_line, if_pos he, h2, h4 more hm']
    · refine ⟨[], [], c :: cs, by rw [scanChars, if_neg hc, if_neg he], List.suffix_rfl,
        fun more hm => ?_⟩
      rcases more with _ | more
      · simp at hm
      rw [List.cons_append, scanChars, if_neg hc, canEscape_line, if_neg he]

theorem scan_line (y : List Char) (h : Shut cs) : ∃ n rest, scan cs = (n, rest) ∧
    scan (cs ++ '\n' :: y) = (n, rest ++ '\n' :: y) ∧ rest <:+ cs := by
  obtain ⟨v, w, rest, h1, hs, h2⟩ := scanChars_line y cs.length h (Nat.le_refl _)
  exact ⟨_, rest, by rw [scan, h1], by rw [scan, h2 _ (by simp)], hs⟩

theorem startsAt_line (y : List Char) (h : Shut cs) :
    startsAt (cs ++ '\n' :: y) = startsAt cs := by
  rcases cs with _ | ⟨c, _ | ⟨d, cs⟩⟩
  · simp [startsAt, isStart]
  · obtain rfl := h c rfl
    simp [startsAt, isStart]
  · by_cases hc : c = '-'
    · subst hc
      by_cases hd : d = '-'
      · subst hd
        rfl
      by_cases hd' : d = '\\'
      · subst hd'
        exact canEscape_line y cs
      · simp [startsAt]
    by_cases hc' : c = '\\'
    · subst hc'
      rfl
    · simp [startsAt, hc]

/-- Where a name starts, something is read. -/
theorem scan_shorter (h : Shut (c :: cs)) (hs : startsAt (c :: cs)) :
    (scan (c :: cs)).2 <:+ cs := by
  have hlen : (c :: cs).length = cs.length + 1 := rfl
  by_cases hc : isInner c || c.toNat = 0
  · obtain ⟨v, w, rest, h1, hrest, -⟩ := scanChars_line [] cs.length h.tail (Nat.le_refl _)
    simpa only [scan, hlen, scanChars, if_pos hc, h1] using hrest
  -- a name that starts with no such character starts with a backslash
  have he : c = '\\' && canEscape cs := by
    unfold startsAt at hs
    split at hs <;> simp_all [isInner]
  have hcs : cs ≠ [] := by
    rintro rfl
    simp [canEscape] at he
  obtain ⟨e, text, left, h1, -, hleft⟩ := escaped_line [] h.tail hcs
  have hleft := hleft.trans (List.tail_suffix cs)
  obtain ⟨v, w, rest, h2, hrest, -⟩ :=
    scanChars_line [] cs.length (h.tail.of_suffix hleft) hleft.length_le
  simpa only [scan, hlen, scanChars, if_neg hc, if_pos he, h1, h2] using hrest.trans hleft

end Name

section Loops

variable {ρ : Type} {read : ℕ → List Char → Option ρ} {restOf : ρ → List Char}
  {onLine : List Char → ρ → ρ} {fuel : ℕ}

/-- What such a reading does at a character: it fails, it is done, or the character and what
belongs to it come before what is read next. `onLine` says how a result changes for a line that is
left behind the text. -/
inductive LoopStep (read : ℕ → List Char → Option ρ) (restOf : ρ → List Char)
    (onLine : List Char → ρ → ρ) (y : List Char) (fuel : ℕ) (c : Char) (cs : List Char) : Prop
  | fails : read (fuel + 1) (c :: cs) = none → LoopStep read restOf onLine y fuel c cs
  | ends (r : ρ) : read (fuel + 1) (c :: cs) = some r → restOf r <:+ c :: cs →
    (∀ more, fuel ≤ more → read (more + 1) (c :: cs ++ '\n' :: y) = some (onLine y r)) →
      LoopStep read restOf onLine y fuel c cs
  | goes (g : ρ → ρ) (left : List Char) : left <:+ cs →
    (∀ r, restOf (g r) = restOf r ∧ g (onLine y r) = onLine y (g r)) →
    read (fuel + 1) (c :: cs) = (read fuel left).map g →
    (∀ more, read (more + 1) (c :: cs ++ '\n' :: y) = (read more (left ++ '\n' :: y)).map g) →
      LoopStep read restOf onLine y fuel c cs

theorem line_of_steps (y : List Char) (hzero : ∀ cs, read 0 cs = none)
    (hnil : ∀ fuel, read fuel [] = none)
    (hstep : ∀ fuel c cs, Shut (c :: cs) → LoopStep read restOf onLine y fuel c cs) :
    ∀ (fuel : ℕ) {cs : List Char} {r : ρ}, Shut cs → read fuel cs = some r →
      restOf r <:+ cs ∧ ∀ more, fuel ≤ more → read more (cs ++ '\n' :: y) = some (onLine y r)
  | 0, cs, r, _, hr => by simp [hzero] at hr
  | fuel + 1, [], r, _, hr => by simp [hnil] at hr
  | fuel + 1, c :: cs, r, h, hr => by
    cases hstep fuel c cs h with
    | fails hnone => simp [hnone] at hr
    | ends r' hread hs hmore =>
      obtain rfl : r' = r := Option.some.inj (hread.symm.trans hr)
      refine ⟨hs, fun more hm => ?_⟩
      obtain ⟨more, rfl⟩ := Nat.exists_eq_add_of_le' (Nat.le_trans (Nat.le_add_left 1 fuel) hm)
      exact hmore more (by omega)
    | goes g left hs hg hread hmore =>
      rw [hread] at hr
      obtain ⟨r', hr', rfl⟩ := Option.map_eq_some_iff.1 hr
      obtain ⟨hs', hline⟩ := line_of_steps y hzero hnil hstep fuel (h.tail.of_suffix hs) hr'
      refine ⟨(hg r').1 ▸ hs'.trans (hs.trans (List.suffix_cons c cs)), fun more hm => ?_⟩
      obtain ⟨more, rfl⟩ := Nat.exists_eq_add_of_le' (Nat.le_trans (Nat.le_add_left 1 fuel) hm)
      rw [hmore, hline more (by omega), Option.map_some, (hg r').2]

end Loops

namespace Token

/-- What is read of a string, behind a first piece of its value and of its text. -/
def behind (v w : List Char) (r : Bool × List Char × List Char × List Char) :
    Bool × List Char × List Char × List Char :=
  (r.1, v ++ r.2.1, w ++ r.2.2.1, r.2.2.2)

theorem scanString_step (y : List Char) (quote : Char) (fuel : ℕ) (c : Char) (cs : List Char)
    (h : Shut (c :: cs)) :
    LoopStep (scanString quote) (fun r => r.2.2.2)
      (fun y r => (r.1, r.2.1, r.2.2.1, r.2.2.2 ++ '\n' :: y)) y fuel c cs := by
  by_cases hq : c = quote
  · exact .ends (true, [], [c], cs) (by simp [scanString, hq]) (List.suffix_cons _ _)
      fun more _ => by simp [scanString, hq]
  by_cases hn : Name.isNewline c
  · exact .ends (false, [], [], c :: cs) (by simp [scanString, hq, hn]) List.suffix_rfl
      fun more _ => by simp [scanString, hq, hn]
  by_cases hb : c = '\\'
  · subst hb
    rcases cs with _ | ⟨n, cs⟩
    · exact .fails (by simp [scanString, hq, hn])
    by_cases hn' : Name.isNewline n
    · refine .goes (behind [] ['\\', n]) cs (List.suffix_cons _ _) (fun r => ⟨rfl, rfl⟩) ?_
        fun more => ?_
      · simp only [scanString, if_neg hq, if_neg hn, if_pos hn', if_true]
        rcases scanString quote fuel cs with _ | r <;> rfl
      · simp only [List.cons_append, scanString, if_neg hq, if_neg hn, if_pos hn', if_true]
        rcases scanString quote more (cs ++ '\n' :: y) with _ | r <;> rfl
    · obtain ⟨e, text, left, h1, h2, hs⟩ := Name.escaped_line y h.tail (List.cons_ne_nil n cs)
      rw [List.cons_append] at h2
      refine .goes (behind [e] ('\\' :: text)) left (hs.trans (List.suffix_cons _ _))
        (fun r => ⟨rfl, rfl⟩) ?_ fun more => ?_
      · simp only [scanString, if_neg hq, if_neg hn, if_neg hn', if_true, h1]
        rcases scanString quote fuel left with _ | r <;> rfl
      · simp only [List.cons_append, scanString, if_neg hq, if_neg hn, if_neg hn', if_true, h2]
        rcases scanString quote more (left ++ '\n' :: y) with _ | r <;> rfl
  · refine .goes (behind [c] [c]) cs List.suffix_rfl (fun r => ⟨rfl, rfl⟩) ?_ fun more => ?_
    · simp only [scanString, if_neg hq, if_neg hn, if_neg hb]
      rcases scanString quote fuel cs with _ | r <;> rfl
    · simp only [List.cons_append, scanString, if_neg hq, if_neg hn, if_neg hb]
      rcases scanString quote more (cs ++ '\n' :: y) with _ | r <;> rfl

theorem scanRemnants_step (y : List Char) (fuel : ℕ) (c : Char) (cs : List Char)
    (h : Shut (c :: cs)) :
    LoopStep scanRemnants (fun r => r.2) (fun y r => (r.1, r.2 ++ '\n' :: y)) y fuel c cs := by
  by_cases hc : c = ')'
  · exact .ends ([c], cs) (by simp [scanRemnants, hc]) (List.suffix_cons _ _)
      fun more _ => by simp [scanRemnants, hc]
  by_cases he : c = '\\' && Name.canEscape cs
  · have hcs : cs ≠ [] := by
      rintro rfl
      simp [Name.canEscape] at he
    obtain ⟨e, text, left, h1, h2, hs⟩ := Name.escaped_line y h.tail hcs
    refine .goes (fun r => (c :: text ++ r.1, r.2)) left (hs.trans (List.tail_suffix cs))
      (fun r => ⟨rfl, rfl⟩) ?_ fun more => ?_
    · simp only [scanRemnants, if_neg hc, if_pos he, h1]
      rcases scanRemnants fuel left with _ | r <;> rfl
    · simp only [List.cons_append, scanRemnants, if_neg hc, Name.canEscape_line, if_pos he, h2]
      rcases scanRemnants more (left ++ '\n' :: y) with _ | r <;> rfl
  · refine .goes (fun r => (c :: r.1, r.2)) cs List.suffix_rfl (fun r => ⟨rfl, rfl⟩) ?_
      fun more => ?_
    · simp only [scanRemnants, if_neg hc, if_neg he]
      rcases scanRemnants fuel cs with _ | r <;> rfl
    · simp only [List.cons_append, scanRemnants, if_neg hc, Name.canEscape_line, if_neg he]
      rcases scanRemnants more (cs ++ '\n' :: y) with _ | r <;> rfl

theorem scanRemnants_line (y : List Char) {fuel : ℕ} {w : List Char} (h : Shut cs)
    (hread : scanRemnants fuel cs = some (w, rest)) : rest <:+ cs ∧ ∀ more, fuel ≤ more →
      scanRemnants more (cs ++ '\n' :: y) = some (w, rest ++ '\n' :: y) :=
  line_of_steps y (fun _ => rfl) (fun fuel => by cases fuel <;> rfl) (scanRemnants_step y) fuel h
    hread

theorem scanString_line (y : List Char) {quote : Char} {fuel : ℕ} {whole : Bool} {v w : List Char}
    (h : Shut cs) (hread : scanString quote fuel cs = some (whole, v, w, rest)) :
    rest <:+ cs ∧ ∀ more, fuel ≤ more →
      scanString quote more (cs ++ '\n' :: y) = some (whole, v, w, rest ++ '\n' :: y) :=
  line_of_steps y (fun _ => rfl) (fun fuel => by cases fuel <;> rfl) (scanString_step y quote) fuel
    h hread

/-- An address that breaks off is read to its end as what is left of it. -/
theorem scanAddress_breakOff (y : List Char) {fuel : ℕ} (h : Shut (c :: cs))
    (hbreak : ∀ fuel cs', (cs' = cs ∨ cs' = cs ++ '\n' :: y) → scanAddress (fuel + 1) (c :: cs') =
      (scanRemnants (cs'.length + 2) (c :: cs')).map fun r => (none, r.1, r.2)) :
    LoopStep scanAddress (fun r => r.2.2) (fun y r => (r.1, r.2.1, r.2.2 ++ '\n' :: y)) y fuel c
      cs := by
  rcases hr : scanRemnants (cs.length + 2) (c :: cs) with _ | ⟨w, rest⟩
  · exact .fails (by rw [hbreak fuel cs (.inl rfl), hr]; rfl)
  · obtain ⟨hs, hmore⟩ := scanRemnants_line y h hr
    refine .ends (none, w, rest) (by rw [hbreak fuel cs (.inl rfl), hr]; rfl) hs fun more _ => ?_
    rw [List.cons_append, hbreak more _ (.inr rfl), ← List.cons_append, hmore _ (by simp)]
    rfl

theorem scanAddress_step (y : List Char) (fuel : ℕ) (c : Char) (cs : List Char)
    (h : Shut (c :: cs)) :
    LoopStep scanAddress (fun r => r.2.2) (fun y r => (r.1, r.2.1, r.2.2 ++ '\n' :: y)) y fuel c
      cs := by
  by_cases hc : c = ')'
  · exact .ends (some [], [c], cs) (by simp [scanAddress, hc]) (List.suffix_cons _ _)
      fun more _ => by simp [scanAddress, hc]
  by_cases hb : Name.isBlank c
  · have hne : cs ≠ [] := h.ne_nil (by rintro rfl; simp [Name.isBlank, Name.isNewline] at hb)
    obtain ⟨ht, hd, hleft⟩ := h.tail.run (p := Name.isBlank) (by decide) y hne
    by_cases hclose : ∃ rest, cs.dropWhile Name.isBlank = ')' :: rest
    · obtain ⟨rest, hrest⟩ := hclose
      refine .ends (some [], c :: cs.takeWhile Name.isBlank ++ [')'], rest) ?_ ?_ fun more _ => ?_
      · simp [scanAddress, hc, hb, hrest]
      · have hs : ')' :: rest <:+ cs := hrest ▸ List.dropWhile_suffix _
        exact (List.suffix_cons _ _).trans (hs.trans (List.suffix_cons _ _))
      · simp [scanAddress, hc, hb, ht, hd, hrest]
    · refine scanAddress_breakOff y h fun fuel cs' hcs' => ?_
      have hclose' : ∀ rest, cs'.dropWhile Name.isBlank ≠ ')' :: rest := by
        rcases hcs' with rfl | rfl
        · exact fun rest hr => hclose ⟨rest, hr⟩
        · intro rest hr
          rw [hd] at hr
          obtain ⟨b, left, hl⟩ := List.exists_cons_of_ne_nil hleft
          rw [hl, List.cons_append] at hr
          exact hclose ⟨left, by rw [hl, (List.cons.inj hr).1]⟩
      simp only [scanAddress, if_neg hc, if_pos hb]
      rcases scanRemnants (cs'.length + 2) (c :: cs') with _ | r <;> rfl
  by_cases hq : c = '"' || c = '\'' || c = '(' || isUnprintable c
  · refine scanAddress_breakOff y h fun fuel cs' _ => ?_
    simp only [scanAddress, if_neg hc, if_neg hb, if_pos hq]
    rcases scanRemnants (cs'.length + 2) (c :: cs') with _ | r <;> rfl
  by_cases hs : c = '\\'
  · subst hs
    by_cases he : Name.canEscape cs
    · have hcs : cs ≠ [] := by
        rintro rfl
        simp [Name.canEscape] at he
      obtain ⟨e, text, left, h1, h2, hs⟩ := Name.escaped_line y h.tail hcs
      refine .goes (fun r => (r.1.map (e :: ·), '\\' :: text ++ r.2.1, r.2.2)) left
        (hs.trans (List.tail_suffix cs)) (fun r => ⟨rfl, rfl⟩) ?_ fun more => ?_
      · simp only [scanAddress, if_neg hc, if_neg hb, if_neg hq, if_pos he, if_true, h1]
        rcases scanAddress fuel left with _ | r <;> rfl
      · simp only [List.cons_append, scanAddress, if_neg hc, if_neg hb, if_neg hq,
          Name.canEscape_line, if_pos he, if_true, h2]
        rcases scanAddress more (left ++ '\n' :: y) with _ | r <;> rfl
    · refine scanAddress_breakOff y h fun fuel cs' hcs' => ?_
      have he' : ¬ Name.canEscape cs' := by
        rcases hcs' with rfl | rfl
        · exact he
        · rwa [Name.canEscape_line]
      simp only [scanAddress, if_neg hc, if_neg hb, if_neg hq, if_neg he', if_true]
      rcases scanRemnants (cs'.length + 2) ('\\' :: cs') with _ | r <;> rfl
  · refine .goes (fun r => (r.1.map (c :: ·), c :: r.2.1, r.2.2)) cs List.suffix_rfl
      (fun r => ⟨rfl, rfl⟩) ?_ fun more => ?_
    · simp only [scanAddress, if_neg hc, if_neg hb, if_neg hq, if_neg hs]
      rcases scanAddress fuel cs with _ | r <;> rfl
    · simp only [List.cons_append, scanAddress, if_neg hc, if_neg hb, if_neg hq, if_neg hs]
      rcases scanAddress more (cs ++ '\n' :: y) with _ | r <;> rfl

theorem scanAddress_line (y : List Char) {fuel : ℕ} {v : Option (List Char)} {w : List Char}
    (h : Shut cs) (hread : scanAddress fuel cs = some (v, w, rest)) :
    rest <:+ cs ∧ ∀ more, fuel ≤ more →
      scanAddress more (cs ++ '\n' :: y) = some (v, w, rest ++ '\n' :: y) :=
  line_of_steps y (fun _ => rfl) (fun fuel => by cases fuel <;> rfl) (scanAddress_step y) fuel h
    hread

section Numbers

theorem takeDigits_line (y : List Char) (h : Shut cs) (hne : cs ≠ []) : ∃ ds rest,
    takeDigits cs = (ds, rest) ∧ takeDigits (cs ++ '\n' :: y) = (ds, rest ++ '\n' :: y) ∧
      rest <:+ cs ∧ rest ≠ [] := by
  obtain ⟨ht, hd, hleft⟩ := h.run (p := Char.isDigit) (by decide) y hne
  refine ⟨cs.takeWhile Char.isDigit, cs.dropWhile Char.isDigit, ?_, ?_, List.dropWhile_suffix _,
    hleft⟩
  · rw [takeDigits, List.span_eq_takeWhile_dropWhile]
  · rw [takeDigits, List.span_eq_takeWhile_dropWhile, ht, hd]

/-- Whether a number starts is decided by three characters, and the line adds none to them that
would matter. -/
theorem startsNumber_line (y : List Char) (h : Shut (c :: cs)) :
    startsNumber (c :: cs ++ '\n' :: y) = startsNumber (c :: cs) := by
  rcases cs with _ | ⟨d, _ | ⟨e, cs⟩⟩
  · obtain rfl := h c rfl
    rfl
  · obtain rfl := h d rfl
    by_cases hplus : c = '+'
    · subst hplus
      rfl
    by_cases hminus : c = '-'
    · subst hminus
      rfl
    by_cases hdot : c = '.'
    · subst hdot
      rfl
    simp [startsNumber, hplus, hminus, hdot]
  · by_cases hsign : c = '+' ∨ c = '-'
    · by_cases hdot : d = '.'
      · subst hdot
        rcases hsign with rfl | rfl <;> rfl
      · rcases hsign with rfl | rfl <;> simp [startsNumber, hdot]
    by_cases hdot : c = '.'
    · subst hdot
      rfl
    rw [not_or] at hsign
    simp [startsNumber, hsign, hdot]

theorem scanExponent_line (y : List Char) (h : Shut cs) (hne : cs ≠ []) : ∃ ds rest,
    scanExponent cs = (ds, rest) ∧ scanExponent (cs ++ '\n' :: y) = (ds, rest ++ '\n' :: y) ∧
      rest <:+ cs ∧ rest ≠ [] := by
  rcases cs with _ | ⟨e, _ | ⟨s, cs⟩⟩
  · exact absurd rfl hne
  · obtain rfl := h e rfl
    exact ⟨[], ['\x7d'], rfl, by simp [scanExponent], List.suffix_rfl, hne⟩
  by_cases he : e = 'e' || e = 'E'
  · by_cases hs : s.isDigit
    · obtain ⟨ds, rest, h1, h2, hsuf, hr⟩ := takeDigits_line y h.tail (List.cons_ne_nil s cs)
      rw [List.cons_append] at h2
      exact ⟨e :: ds, rest, by simp only [scanExponent, if_pos he, if_pos hs, h1],
        by simp only [List.cons_append, scanExponent, if_pos he, if_pos hs, h2],
        hsuf.trans (List.suffix_cons _ _), hr⟩
    rcases cs with _ | ⟨d, cs⟩
    · obtain rfl := h s rfl
      refine ⟨[], [e, '\x7d'], by simp [scanExponent], by simp [scanExponent], List.suffix_rfl, hne⟩
    by_cases hd : (s = '+' || s = '-') && d.isDigit
    · obtain ⟨ds, rest, h1, h2, hsuf, hr⟩ := takeDigits_line y h.tail.tail (List.cons_ne_nil d cs)
      rw [List.cons_append] at h2
      exact ⟨e :: s :: ds, rest, by simp only [scanExponent, if_pos he, if_neg hs, if_pos hd, h1],
        by simp only [List.cons_append, scanExponent, if_pos he, if_neg hs, if_pos hd, h2],
        hsuf.trans ((List.suffix_cons _ _).trans (List.suffix_cons _ _)), hr⟩
    · exact ⟨[], e :: s :: d :: cs, by simp only [scanExponent, if_pos he, if_neg hs, if_neg hd],
        by simp only [List.cons_append, scanExponent, if_pos he, if_neg hs, if_neg hd],
        List.suffix_rfl, hne⟩
  · exact ⟨[], e :: s :: cs, by simp only [scanExponent, if_neg he],
      by simp only [List.cons_append, scanExponent, if_neg he], List.suffix_rfl, hne⟩

/-- The sign of a number, if it has one, and the rest. -/
def takeSign (cs : List Char) : List Char × List Char :=
  match cs with
  | '+' :: r => (['+'], r)
  | '-' :: r => (['-'], r)
  | r => ([], r)

/-- The fraction of a number with its point, if it has one, and the rest. -/
def takeFraction (cs : List Char) : List Char × List Char :=
  match cs with
  | '.' :: d :: r =>
    if d.isDigit then
      let (ds, rest) := takeDigits (d :: r)
      ('.' :: ds, rest)
    else ([], cs)
  | _ => ([], cs)

theorem scanNumeral_eq (cs : List Char) : scanNumeral cs =
    let (sign, cs) := takeSign cs
    let (whole, cs) := takeDigits cs
    let (fraction, cs) := takeFraction cs
    let (exponent, cs) := scanExponent cs
    (⟨String.ofList (sign ++ whole ++ fraction ++ exponent),
      fraction.isEmpty && exponent.isEmpty⟩, cs) := by
  unfold scanNumeral takeSign takeFraction
  rfl

theorem takeSign_line (y : List Char) (h : Shut cs) (hne : cs ≠ []) : ∃ ds rest,
    takeSign cs = (ds, rest) ∧ takeSign (cs ++ '\n' :: y) = (ds, rest ++ '\n' :: y) ∧
      rest <:+ cs ∧ rest ≠ [] := by
  rcases cs with _ | ⟨c, cs⟩
  · exact absurd rfl hne
  by_cases hp : c = '+'
  · subst hp
    exact ⟨['+'], cs, rfl, rfl, List.suffix_cons _ _, h.ne_nil (by decide)⟩
  by_cases hm : c = '-'
  · subst hm
    exact ⟨['-'], cs, rfl, rfl, List.suffix_cons _ _, h.ne_nil (by decide)⟩
  · exact ⟨[], c :: cs, by simp [takeSign, hp, hm], by simp [takeSign, hp, hm], List.suffix_rfl,
      hne⟩

theorem takeFraction_suffix (cs : List Char) : (takeFraction cs).2 <:+ cs := by
  unfold takeFraction
  split
  · split_ifs
    · rw [takeDigits, List.span_eq_takeWhile_dropWhile]
      exact (List.dropWhile_suffix _).trans (List.suffix_cons _ _)
    · exact List.suffix_rfl
  · exact List.suffix_rfl

theorem takeFraction_line (y : List Char) (h : Shut cs) (hne : cs ≠ []) : ∃ ds rest,
    takeFraction cs = (ds, rest) ∧ takeFraction (cs ++ '\n' :: y) = (ds, rest ++ '\n' :: y) ∧
      rest <:+ cs ∧ rest ≠ [] := by
  rcases cs with _ | ⟨c, _ | ⟨d, cs⟩⟩
  · exact absurd rfl hne
  · obtain rfl := h c rfl
    exact ⟨[], ['\x7d'], rfl, rfl, List.suffix_rfl, hne⟩
  by_cases hc : c = '.' ∧ d.isDigit
  · obtain ⟨rfl, hd⟩ := hc
    obtain ⟨ds, rest, h1, h2, hs, hr⟩ := takeDigits_line y h.tail (List.cons_ne_nil d cs)
    rw [List.cons_append] at h2
    exact ⟨'.' :: ds, rest, by simp only [takeFraction, if_pos hd, h1],
      by simp only [List.cons_append, takeFraction, if_pos hd, h2], hs.trans (List.suffix_cons _ _),
      hr⟩
  · refine ⟨[], c :: d :: cs, ?_, ?_, List.suffix_rfl, hne⟩
    all_goals
      by_cases hp : c = '.'
      · subst hp
        simp_all [takeFraction]
      · simp [takeFraction, hp]

/-- Where a number starts, something is read. -/
theorem scanNumeral_shorter (hn : startsNumber (c :: cs)) :
    (takeFraction (takeDigits (takeSign (c :: cs)).2).2).2 <:+ cs := by
  have hdigits : ∀ cs : List Char, (takeFraction (takeDigits cs).2).2 <:+ cs := fun cs => by
    rw [takeDigits, List.span_eq_takeWhile_dropWhile]
    exact (takeFraction_suffix _).trans (List.dropWhile_suffix _)
  by_cases hs : c = '+' ∨ c = '-'
  · rcases hs with rfl | rfl <;> exact hdigits cs
  have hsign : takeSign (c :: cs) = ([], c :: cs) := by simp_all [takeSign]
  rw [hsign]
  by_cases hc : c.isDigit
  · rw [takeDigits, List.span_eq_takeWhile_dropWhile, List.dropWhile_cons_of_pos hc]
    exact (takeFraction_suffix _).trans (List.dropWhile_suffix _)
  -- a number that starts with neither sign nor digit starts with its fraction
  obtain ⟨rfl, d, rest, rfl, hd⟩ : c = '.' ∧ ∃ d rest, cs = d :: rest ∧ d.isDigit := by
    unfold startsNumber at hn
    split at hn <;> simp_all
  rw [takeDigits, List.span_eq_takeWhile_dropWhile, List.dropWhile_cons_of_neg (by decide)]
  simp only [takeFraction, if_pos hd, takeDigits, List.span_eq_takeWhile_dropWhile]
  exact List.dropWhile_suffix _

theorem scanNumeral_line (y : List Char) (h : Shut (c :: cs)) (hn : startsNumber (c :: cs)) :
    ∃ n rest, scanNumeral (c :: cs) = (n, rest) ∧
      scanNumeral (c :: cs ++ '\n' :: y) = (n, rest ++ '\n' :: y) ∧ rest <:+ cs ∧ rest ≠ [] := by
  obtain ⟨sign, cs1, h1, h1', hs1, hne1⟩ := takeSign_line y h (List.cons_ne_nil c cs)
  have hshut1 := h.of_suffix hs1
  obtain ⟨whole, cs2, h2, h2', hs2, hne2⟩ := takeDigits_line y hshut1 hne1
  have hshut2 := hshut1.of_suffix hs2
  obtain ⟨fraction, cs3, h3, h3', hs3, hne3⟩ := takeFraction_line y hshut2 hne2
  obtain ⟨exponent, cs4, h4, h4', hs4, hne4⟩ := scanExponent_line y (hshut2.of_suffix hs3) hne3
  have hshorter := scanNumeral_shorter hn
  rw [h1, h2, h3] at hshorter
  refine ⟨⟨String.ofList (sign ++ whole ++ fraction ++ exponent),
    fraction.isEmpty && exponent.isEmpty⟩, cs4, ?_, ?_, hs4.trans hshorter, hne4⟩
  · simp only [scanNumeral_eq, h1, h2, h3, h4]
  · simp only [scanNumeral_eq, h1', h2', h3', h4']

theorem scanNumber_line (y : List Char) (h : Shut (c :: cs)) (hn : startsNumber (c :: cs)) :
    ∃ t rest, scanNumber (c :: cs) = (t, rest) ∧
      scanNumber (c :: cs ++ '\n' :: y) = (t, rest ++ '\n' :: y) ∧ rest <:+ cs := by
  obtain ⟨n, left, h1, h1', hs, hne⟩ := scanNumeral_line y h hn
  have hshut := h.tail.of_suffix hs
  by_cases hu : Name.startsAt left
  · obtain ⟨u, rest, h2, h2', hs2⟩ := Name.scan_line y hshut
    exact ⟨.dimension n u, rest, by simp only [scanNumber, h1, if_pos hu, h2],
      by simp only [scanNumber, h1', Name.startsAt_line y hshut, if_pos hu, h2'], hs2.trans hs⟩
  have hu' := Name.startsAt_line y hshut
  rcases left with _ | ⟨d, left⟩
  · exact absurd rfl hne
  rw [List.cons_append] at h1' hu'
  by_cases hp : d = '%'
  · subst hp
    exact ⟨.percentage n, left, by simp [scanNumber, h1, hu], by simp [scanNumber, h1', hu', hu],
      (List.suffix_cons _ _).trans hs⟩
  · exact ⟨.number n, d :: left, by simp [scanNumber, h1, hu, hp],
      by simp [scanNumber, h1', hu', hu, hp], hs⟩

end Numbers

section Tokens

/-- A name without a bracket behind it. -/
theorem scanNamed_ident {name : Name} (h : Name.scan cs = (name, rest))
    (hrest : ∀ inner, rest ≠ '(' :: inner) : scanNamed cs = some (ident name, rest) := by
  simp only [scanNamed, h]

/-- The address behind a name and an opening bracket. -/
theorem scanNamed_url {name : Name} {inner : List Char} {a : Char} {address : List Char}
    (h1 : Name.scan cs = (name, '(' :: inner)) (hurl : lower name.value = "url")
    (hd : inner.dropWhile Name.isBlank = a :: address) (ha : a ≠ '"' ∧ a ≠ '\'') :
    scanNamed cs = (scanAddress ((a :: address).length + 1) (a :: address)).map fun r =>
      ((match r.1 with
        | some v => url (String.ofList v) (name.written ++ "(" ++
          String.ofList (inner.takeWhile Name.isBlank) ++ String.ofList r.2.1)
        | none => broken (name.written ++ "(" ++ String.ofList (inner.takeWhile Name.isBlank) ++
          String.ofList r.2.1)), r.2.2) := by
  simp only [scanNamed, h1, if_pos hurl, hd]
  split
  · rename_i heq
    exact absurd (List.cons.inj heq).1 ha.1
  · rename_i heq
    exact absurd (List.cons.inj heq).1 ha.2
  · rcases scanAddress ((a :: address).length + 1) (a :: address) with _ | r <;> rfl

theorem scanNamed_line (y : List Char) {t : Token} (h : Shut cs)
    (hread : scanNamed cs = some (t, rest)) : rest <:+ (Name.scan cs).2 ∧
      scanNamed (cs ++ '\n' :: y) = some (t, rest ++ '\n' :: y) := by
  obtain ⟨name, left, h1, h1', hs⟩ := Name.scan_line y h
  have hshut := h.of_suffix hs
  rw [h1]
  by_cases hp : ∃ inner, left = '(' :: inner
  · obtain ⟨inner, rfl⟩ := hp
    rw [List.cons_append] at h1'
    have hinner : Shut inner := hshut.tail
    obtain ⟨ht, hd, hne⟩ := hinner.run (p := Name.isBlank) (by decide) y (hshut.ne_nil (by decide))
    by_cases hurl : lower name.value = "url"
    · obtain ⟨a, address, ha⟩ := List.exists_cons_of_ne_nil hne
      rw [ha, List.cons_append] at hd
      by_cases hq : a = '"' ∨ a = '\''
      · have hopens : ∀ inner' left', inner'.dropWhile Name.isBlank = a :: left' →
            ∀ cs', Name.scan cs' = (name, '(' :: inner') →
              scanNamed cs' = some (functionStart name, inner') := by
          intro inner' left' hd' cs' hscan
          rcases hq with rfl | rfl <;> simp [scanNamed, hscan, hurl, hd']
        rw [hopens inner address ha cs h1] at hread
        obtain ⟨rfl, rfl⟩ := Prod.mk.inj (Option.some.inj hread)
        exact ⟨List.suffix_cons _ _, hopens _ _ hd _ h1'⟩
      rw [not_or] at hq
      rw [scanNamed_url h1 hurl ha hq] at hread
      obtain ⟨⟨v, w, left⟩, hr, hread⟩ := Option.map_eq_some_iff.1 hread
      obtain ⟨rfl, rfl⟩ := Prod.mk.inj hread
      have haddress : a :: address <:+ inner := ha ▸ List.dropWhile_suffix _
      obtain ⟨hs', hmore⟩ := scanAddress_line y (hinner.of_suffix haddress) hr
      refine ⟨hs'.trans (haddress.trans (List.suffix_cons _ _)), ?_⟩
      rw [scanNamed_url h1' hurl hd hq, ← List.cons_append, hmore _ (by simp), ht]
      rfl
    · simp only [scanNamed, h1, if_neg hurl, Option.some.injEq, Prod.mk.injEq] at hread
      obtain ⟨rfl, rfl⟩ := hread
      exact ⟨List.suffix_cons _ _, by simp only [scanNamed, h1', if_neg hurl]⟩
  · have hleft : ∀ inner, left ≠ '(' :: inner := fun inner hl => hp ⟨inner, hl⟩
    rw [scanNamed_ident h1 hleft] at hread
    obtain ⟨rfl, rfl⟩ := Prod.mk.inj (Option.some.inj hread)
    refine ⟨List.suffix_rfl, scanNamed_ident h1' fun inner hl => ?_⟩
    rcases left with _ | ⟨d, left⟩
    · simp at hl
    · exact hleft left (by rw [(List.cons.inj hl).1])

/-- The first token is the same with the line behind the text, and ends where it did. -/
theorem scanOne_line (y : List Char) {t : Token} (h : Shut (c :: cs))
    (hread : scanOne c cs = some (t, rest)) :
    rest <:+ cs ∧ scanOne c (cs ++ '\n' :: y) = some (t, rest ++ '\n' :: y) := by
  have hnumber := startsNumber_line y h
  have hname := Name.startsAt_line y h
  have hname' := Name.startsAt_line y h.tail
  have hclose : ['-', '>'].isPrefixOf (cs ++ '\n' :: y) = ['-', '>'].isPrefixOf cs := by
    rcases cs with _ | ⟨d, _ | ⟨e, cs⟩⟩ <;> simp [List.isPrefixOf]
  have hopen : ['!', '-', '-'].isPrefixOf (cs ++ '\n' :: y) = ['!', '-', '-'].isPrefixOf cs := by
    rcases cs with _ | ⟨d, _ | ⟨e, _ | ⟨f, cs⟩⟩⟩ <;> simp [List.isPrefixOf]
  rw [List.cons_append] at hnumber hname
  unfold scanOne at hread ⊢
  rw [hnumber, hname, hname', hclose, hopen]
  split_ifs at hread ⊢ with hb hq hn hcdc hs hcdo hat hhash
  · -- blanks
    have hne : cs ≠ [] := h.ne_nil (by rintro rfl; simp [Name.isBlank, Name.isNewline] at hb)
    obtain ⟨ht, hd, -⟩ := h.tail.run (p := Name.isBlank) (by decide) y hne
    obtain ⟨rfl, rfl⟩ := Prod.mk.inj (Option.some.inj hread)
    exact ⟨List.dropWhile_suffix _, by rw [ht, hd]⟩
  · -- strings
    rcases hr : scanString c (cs.length + 1) cs with _ | ⟨whole, v, w, left⟩
    · simp [hr] at hread
    obtain ⟨hsuf, hmore⟩ := scanString_line y h.tail hr
    simp only [hr, Option.bind_eq_bind, Option.bind_some, Option.pure_def, Option.some.injEq,
      Prod.mk.injEq] at hread
    obtain ⟨rfl, rfl⟩ := hread
    refine ⟨hsuf, ?_⟩
    rw [hmore _ (by simp)]
    rfl
  · obtain ⟨t', left, h1, h1', hsuf⟩ := scanNumber_line y h hn
    rw [List.cons_append] at h1'
    rw [h1] at hread
    obtain ⟨rfl, rfl⟩ := Prod.mk.inj (Option.some.inj hread)
    exact ⟨hsuf, by rw [h1']⟩
  · have hlen : 2 ≤ cs.length :=
      (List.isPrefixOf_iff_prefix.1 (Bool.and_eq_true_iff.1 hcdc).2).length_le
    obtain ⟨rfl, rfl⟩ := Prod.mk.inj (Option.some.inj hread)
    exact ⟨List.drop_suffix _ _, by rw [List.drop_append_of_le_length hlen]⟩
  · obtain ⟨hsuf, hline⟩ := scanNamed_line y h hread
    exact ⟨hsuf.trans (Name.scan_shorter h hs), hline⟩
  · have hlen : 3 ≤ cs.length :=
      (List.isPrefixOf_iff_prefix.1 (Bool.and_eq_true_iff.1 hcdo).2).length_le
    obtain ⟨rfl, rfl⟩ := Prod.mk.inj (Option.some.inj hread)
    exact ⟨List.drop_suffix _ _, by rw [List.drop_append_of_le_length hlen]⟩
  · obtain ⟨name, left, h1, h1', hsuf⟩ := Name.scan_line y h.tail
    simp only [h1] at hread
    obtain ⟨rfl, rfl⟩ := Prod.mk.inj (Option.some.inj hread)
    exact ⟨hsuf, by simp only [h1']⟩
  · rcases cs with _ | ⟨d, cs⟩
    · exact absurd rfl (h.ne_nil (by rintro rfl; simp at hhash))
    simp only [List.cons_append, Name.canEscape_line] at hread ⊢
    split_ifs at hread ⊢ with hd
    · obtain ⟨name, left, h1, h1', hsuf⟩ := Name.scan_line y h.tail
      rw [List.cons_append] at h1' hname'
      simp only [h1] at hread
      obtain ⟨rfl, rfl⟩ := Prod.mk.inj (Option.some.inj hread)
      exact ⟨hsuf, by simp only [h1']⟩
    · obtain ⟨rfl, rfl⟩ := Prod.mk.inj (Option.some.inj hread)
      exact ⟨List.suffix_rfl, rfl⟩
  · split at hread <;>
    · obtain ⟨rfl, rfl⟩ := Prod.mk.inj (Option.some.inj hread)
      exact ⟨List.suffix_rfl, rfl⟩

theorem afterComment?_line (y : List Char) : ∀ {cs : List Char}, afterComment? cs = some rest →
    rest <:+ cs ∧ afterComment? (cs ++ '\n' :: y) = some (rest ++ '\n' :: y)
  | c :: cs, h => by
    by_cases hc : c = '*' ∧ ∃ left, cs = '/' :: left
    · obtain ⟨rfl, left, rfl⟩ := hc
      obtain rfl := Option.some.inj h
      exact ⟨(List.suffix_cons _ _).trans (List.suffix_cons _ _), rfl⟩
    have hgo : ∀ cs', (∀ left, cs' = '/' :: left → c ≠ '*') →
        afterComment? (c :: cs') = afterComment? cs' := fun cs' hcs' => by
      rw [afterComment?]
      exact fun left hstar hleft => hcs' left hleft hstar
    rw [hgo cs fun left hl hstar => hc ⟨hstar, left, hl⟩] at h
    obtain ⟨hs, hline⟩ := afterComment?_line y h
    refine ⟨hs.trans (List.suffix_cons _ _), ?_⟩
    rw [List.cons_append, hgo _ fun left hl hstar => ?_, hline]
    rcases cs with _ | ⟨d, cs⟩
    · simp at hl
    · exact hc ⟨hstar, cs, by rw [(List.cons.inj hl).1]⟩

theorem scanFrom_cons (fuel : ℕ) (h : ∀ left, cs = '*' :: left → c ≠ '/') :
    scanFrom (fuel + 1) (c :: cs) =
      (scanOne c cs).bind fun r => (scanFrom fuel r.2).map (r.1 :: ·) := by
  rw [scanFrom]
  · rcases scanOne c cs with _ | ⟨t, rest⟩
    · rfl
    · rcases hr : scanFrom fuel rest with _ | ts <;> simp [hr]
  · exact fun left hslash hleft => h left hleft hslash

theorem scanFrom_comment (fuel : ℕ) (cs : List Char) :
    scanFrom (fuel + 1) ('/' :: '*' :: cs) = (afterComment? cs).bind (scanFrom fuel) := rfl

/-- With enough fuel, the tokens do not depend on it. -/
theorem scanFrom_fuel : ∀ {fuel : ℕ} {cs : List Char} {ts : List Token}, Shut cs →
    scanFrom fuel cs = some ts → ∀ more, cs.length ≤ more → scanFrom more cs = some ts
  | fuel, [], ts, _, hread, more, _ => by
    rw [← hread]
    cases fuel <;> cases more <;> rfl
  | 0, c :: cs, ts, _, hread, _, _ => by simp [scanFrom] at hread
  | fuel + 1, c :: cs, ts, h, hread, 0, hm => by simp at hm
  | fuel + 1, c :: cs, ts, h, hread, more + 1, hm => by
    have hm : cs.length ≤ more := by simpa using hm
    by_cases hc : c = '/' ∧ ∃ left, cs = '*' :: left
    · obtain ⟨rfl, cs, rfl⟩ := hc
      rw [scanFrom_comment] at hread ⊢
      obtain ⟨rest, hrest, hread⟩ := Option.bind_eq_some_iff.1 hread
      have hs := (afterComment?_line [] hrest).1
      have hlen := hs.length_le
      simp only [List.length_cons] at hm
      rw [hrest]
      exact scanFrom_fuel (h.tail.tail.of_suffix hs) hread more (by omega)
    have hplain : ∀ left, cs = '*' :: left → c ≠ '/' := fun left hl hs => hc ⟨hs, left, hl⟩
    rw [scanFrom_cons _ hplain] at hread ⊢
    obtain ⟨⟨t, rest⟩, hone, hread⟩ := Option.bind_eq_some_iff.1 hread
    obtain ⟨us, hus, rfl⟩ := Option.map_eq_some_iff.1 hread
    have hs := (scanOne_line [] h hone).1
    have hmore := scanFrom_fuel (h.tail.of_suffix hs) hus more (Nat.le_trans hs.length_le hm)
    simp only [hone, Option.bind_some, hmore, Option.map_some]

theorem scanFrom_line {y : List Char} {us : List Token} {fuel' : ℕ}
    (hy : scanFrom fuel' ('\n' :: y) = some us) : ∀ {fuel : ℕ} {cs : List Char} {ts : List Token},
      Shut cs → scanFrom fuel cs = some ts →
        ∃ more, scanFrom more (cs ++ '\n' :: y) = some (ts ++ us)
  | fuel, [], ts, _, hread => by
    obtain rfl : [] = ts := by cases fuel <;> exact Option.some.inj hread
    exact ⟨fuel', hy⟩
  | 0, c :: cs, ts, _, hread => by simp [scanFrom] at hread
  | fuel + 1, c :: cs, ts, h, hread => by
    by_cases hc : c = '/' ∧ ∃ left, cs = '*' :: left
    · obtain ⟨rfl, cs, rfl⟩ := hc
      rw [scanFrom_comment] at hread
      obtain ⟨rest, hrest, hread⟩ := Option.bind_eq_some_iff.1 hread
      obtain ⟨hs, hline⟩ := afterComment?_line y hrest
      obtain ⟨more, hmore⟩ := scanFrom_line hy (h.tail.tail.of_suffix hs) hread
      refine ⟨more + 1, ?_⟩
      rw [List.cons_append, List.cons_append, scanFrom_comment, hline, Option.bind_some, hmore]
    have hplain : ∀ left, cs = '*' :: left → c ≠ '/' := fun left hl hs => hc ⟨hs, left, hl⟩
    rw [scanFrom_cons _ hplain] at hread
    obtain ⟨⟨t, rest⟩, hone, hread⟩ := Option.bind_eq_some_iff.1 hread
    obtain ⟨ts, hts, rfl⟩ := Option.map_eq_some_iff.1 hread
    obtain ⟨hs, hline⟩ := scanOne_line y h hone
    obtain ⟨more, hmore⟩ := scanFrom_line hy (h.tail.of_suffix hs) hts
    refine ⟨more + 1, ?_⟩
    rw [List.cons_append, scanFrom_cons]
    · simp only [hline, Option.bind_some, hmore, Option.map_some, List.cons_append]
    · intro left hl
      rcases cs with _ | ⟨d, cs⟩
      · simp at hl
      · exact hplain cs (by rw [(List.cons.inj hl).1])

/-- The tokens of a line come behind those of the text before it. -/
theorem scan_line {y : List Char} {ts us : List Token} (h : Shut cs) (hy : Shut ('\n' :: y))
    (hcs : scan cs = some ts) (hus : scan ('\n' :: y) = some us) :
    scan (cs ++ '\n' :: y) = some (ts ++ us) := by
  obtain ⟨more, hmore⟩ := scanFrom_line hus h hcs
  have hshut : Shut (cs ++ '\n' :: y) := fun c hc => hy c (by simpa [List.getLast?_append] using hc)
  exact scanFrom_fuel hshut hmore _ (Nat.le_refl _)

end Tokens

section Start

/-- Tokens at the start of a text, and where they end. -/
inductive Scans : List Char → List Token → List Char → Prop
  | done {cs : List Char} : Scans cs [] cs
  | token {c : Char} {cs rest last : List Char} {t : Token} {ts : List Token} :
    (∀ left, cs = '*' :: left → c ≠ '/') → scanOne c cs = some (t, rest) → Scans rest ts last →
      Scans (c :: cs) (t :: ts) last

variable {last : List Char} {ts us : List Token}

theorem Scans.append (h : Scans cs ts rest) (h' : Scans rest us last) :
    Scans cs (ts ++ us) last := by
  induction h with
  | done => exact h'
  | token hc hone _ ih => exact .token hc hone (ih h')

theorem Scans.scanFrom_eq (h : Scans cs ts rest) (fuel : ℕ) :
    scanFrom (ts.length + fuel) cs = (scanFrom fuel rest).map (ts ++ ·) := by
  induction h with
  | done => simp
  | @token c cs rest last t ts hc hone _ ih =>
    rw [List.length_cons, Nat.add_right_comm, scanFrom_cons _ hc, hone, Option.bind_some, ih,
      Option.map_map]
    rfl

/-- A text is scanned by going on behind its first tokens. -/
theorem Scans.scan_eq (h : Scans cs ts rest) (hcs : Shut cs) (hrest : Shut rest) :
    scan cs = (scan rest).map (ts ++ ·) := by
  have heq := h.scanFrom_eq
  rcases hr : scan rest with _ | us
  · rcases hc : scan cs with _ | vs
    · rfl
    · -- tokens of the whole text hold tokens of its end
      have hmore := scanFrom_fuel hcs hc (ts.length + cs.length) (Nat.le_add_left _ _)
      rw [heq] at hmore
      obtain ⟨us, hus, -⟩ := Option.map_eq_some_iff.1 hmore
      have := scanFrom_fuel hrest hus rest.length (Nat.le_refl _)
      rw [← scan, hr] at this
      cases this
  · have hfull : scanFrom (ts.length + rest.length) cs = some (ts ++ us) := by
      rw [heq, ← scan, hr]
      rfl
    exact scanFrom_fuel hcs hfull _ (Nat.le_refl _)

/-- Blanks of a text that goes on with something else. -/
theorem scans_blanks {c : Char} (blanks : List Char) (hb : ∀ d ∈ c :: blanks, Name.isBlank d)
    (h : ∀ d ∈ rest.head?, Name.isBlank d = false) :
    Scans (c :: (blanks ++ rest)) [.blank (String.ofList (c :: blanks))] rest := by
  obtain ⟨hc, hblanks⟩ := List.forall_mem_cons.1 hb
  have htake : (blanks ++ rest).takeWhile Name.isBlank = blanks := by
    rw [List.takeWhile_append_of_pos hblanks]
    rcases rest with _ | ⟨d, rest⟩ <;> simp_all
  have hdrop : (blanks ++ rest).dropWhile Name.isBlank = rest := by
    rw [List.dropWhile_append_of_pos hblanks]
    rcases rest with _ | ⟨d, rest⟩ <;> simp_all
  refine .token (fun _ _ hslash => ?_) (by simp only [scanOne, if_pos hc, htake, hdrop]) .done
  subst hslash
  exact absurd hc (by decide)

end Start

end Token

end ScopedStyles.Css
