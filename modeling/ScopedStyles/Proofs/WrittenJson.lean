import ScopedStyles.Json.Reader
import ScopedStyles.Json.Writer
import Mathlib.Tactic.SplitIfs

/-!
# Reading JSON that was written

`Reads r cs a rest` says that `r` reads `a` from the characters `cs` and leaves `rest` of them, at
whatever place they stand. It passes from readers to those that are made of them, so what is read
from a written text is found by going along the text. A string is read from what is written for it,
whatever its characters are (`reads_string`), and so is a list if its items are (`reads_list`).
-/

namespace ScopedStyles.Json

section Layout

theorem intercalate_cons_flatMap (between : List Char) :
    ∀ (row : List Char) (rows : List (List Char)),
      between.intercalate (row :: rows) = row ++ rows.flatMap (between ++ ·)
  | row, [] => by simp
  | row, next :: rows => by
    rw [List.intercalate_cons_cons, intercalate_cons_flatMap between next rows, List.flatMap_cons,
      List.append_assoc, List.append_assoc]

/-- What is written for rows that have others before them. -/
def laterRows (indent : Nat) (rows : List (List Char)) : List Char :=
  rows.flatMap fun row => ',' :: (newline indent ++ row)

theorem layout_cons (opening closing : Char) (n : Nat) (row : List Char)
    (rows : List (List Char)) : layout opening closing n (row :: rows) =
      opening :: (newline (n + 1) ++ (row ++ (laterRows (n + 1) rows ++
        (newline n ++ [closing])))) := by
  simp [layout, laterRows, intercalate_cons_flatMap, List.flatMap_map]

theorem layout_eq_cons (opening closing : Char) (n : Nat) : ∀ rows : List (List Char),
    ∃ behind, layout opening closing n rows = opening :: behind
  | [] => ⟨_, rfl⟩
  | _ :: _ => ⟨_, rfl⟩

theorem length_le_laterRows (n : Nat) : ∀ rows : List (List Char),
    rows.length ≤ (laterRows n rows).length
  | [] => Nat.le_refl 0
  | row :: rows => by
    have ih := length_le_laterRows n rows
    simp only [laterRows, List.flatMap_cons, List.length_append, List.length_cons] at ih ⊢
    omega

theorem length_lt_layout (opening closing : Char) (n : Nat) : ∀ rows : List (List Char),
    rows.length < (layout opening closing n rows).length
  | [] => Nat.zero_lt_succ 1
  | row :: rows => by
    have hrows := length_le_laterRows (n + 1) rows
    simp only [layout_cons, List.length_cons, List.length_append]
    omega

/-- What follows the opening quote of a string. -/
def quoted (s : String) (rest : List Char) : List Char := s.toList.flatMap escapeChar ++ '"' :: rest

theorem stringChars_append (s : String) (rest : List Char) :
    stringChars s ++ rest = '"' :: quoted s rest := by
  simp [stringChars, quoted]

theorem escapeChar_ne_nil (c : Char) : escapeChar c ≠ [] := by
  unfold escapeChar
  split_ifs <;> exact List.cons_ne_nil _ _

theorem length_le_escaped : ∀ s : List Char, s.length ≤ (s.flatMap escapeChar).length
  | [] => Nat.le_refl 0
  | c :: s => by
    have ih := length_le_escaped s
    have hc := List.length_pos_iff.2 (escapeChar_ne_nil c)
    rw [List.flatMap_cons, List.length_append, List.length_cons]
    omega

end Layout

namespace Reader

variable {α β : Type}

section Composed

/-- Wherever the first characters stand, `a` is read from them and the second ones are left. -/
def Reads (r : Reader α) (cs : List Char) (a : α) (rest : List Char) : Prop :=
  ∀ p, ∃ p', (ExceptT.run r).run ⟨cs, p⟩ = (.ok a, ⟨rest, p'⟩)

theorem run_bind_of_ok {r : Reader α} {a : α} {s t : Cursor}
    (h : (ExceptT.run r).run s = (.ok a, t)) (next : α → Reader β) :
    (ExceptT.run (r >>= next)).run s = (ExceptT.run (next a)).run t := by
  rw [ExceptT.run_bind, StateT.run_bind, h]
  rfl

theorem run_get_bind (next : Cursor → Reader β) (s : Cursor) :
    (ExceptT.run (get >>= next)).run s = (ExceptT.run (next s)).run s := rfl

theorem run_set_bind (t : Cursor) (next : PUnit → Reader β) (s : Cursor) :
    (ExceptT.run (set t >>= next)).run s = (ExceptT.run (next ⟨⟩)).run t := rfl

theorem reads_pure (a : α) (cs : List Char) : Reads (pure a) cs a cs := fun p => ⟨p, rfl⟩

namespace Reads

variable {r : Reader α} {a : α} {cs mid rest : List Char}

theorem bind {next : α → Reader β} {b : β} (h : Reads r cs a mid)
    (h' : Reads (next a) mid b rest) : Reads (r >>= next) cs b rest := by
  intro p
  obtain ⟨p', hp'⟩ := h p
  rw [run_bind_of_ok hp']
  exact h' p'

theorem map (h : Reads r cs a rest) (f : α → β) :
    Reads (r >>= fun a => pure (f a)) cs (f a) rest :=
  h.bind (reads_pure _ _)

theorem tryCatch (h : Reads r cs a rest) (handle : Failure → Reader α) :
    Reads (tryCatch r handle) cs a rest := by
  intro p
  obtain ⟨p', hp'⟩ := h p
  refine ⟨p', ?_⟩
  rw [ExceptT.run_tryCatch, StateT.run_bind, hp']
  rfl

theorem placed (h : Reads r cs a rest) : Reads (placed r) cs a rest := h.tryCatch _

theorem closing {close : Reader Unit} (h : Reads r cs a mid) (h' : Reads close mid () rest) :
    Reads (closing r close) cs a rest := by
  have hinside : Reads (do return (Except.ok (← r) : Except Failure α)) cs (.ok a) mid := h.map _
  exact (hinside.tryCatch _).bind (h'.bind (reads_pure _ _))

end Reads

theorem reads_next (c : Char) (cs : List Char) : Reads next? (c :: cs) (some c) cs :=
  fun p => ⟨p.after c, rfl⟩

theorem reads_skip (c : Char) (cs : List Char) : Reads skip (c :: cs) () cs :=
  fun p => ⟨p.after c, rfl⟩

theorem reads_remaining (cs : List Char) : Reads remaining cs cs.length cs := fun p => ⟨p, rfl⟩

theorem Reads.bracket {inside : Reader α} {close : Reader Unit} {a : α} {depth : Nat}
    {cs mid rest : List Char} (hdepth : 1 < depth) (h : Reads inside cs a mid)
    (h' : Reads close mid () rest) (opening : Char) :
    Reads (bracket depth inside close) (opening :: cs) a rest := by
  rw [Reader.bracket, if_neg (Nat.not_le_of_lt hdepth)]
  exact (reads_skip opening cs).bind (h.closing h')

end Composed

theorem advanceBlanks_append {cs : List Char} (h : ∀ c ∈ cs.head?, ¬ isBlank c) :
    ∀ {bs : List Char} (p : Place), (∀ b ∈ bs, isBlank b) →
      ∃ p', advanceBlanks (bs ++ cs) p = ⟨cs, p'⟩
  | [], p, _ => by
    rcases cs with _ | ⟨c, cs⟩
    · exact ⟨p, rfl⟩
    · exact ⟨p, if_neg (h c rfl)⟩
  | b :: bs, p, hbs => by
    obtain ⟨hb, hbs⟩ := List.forall_mem_cons.1 hbs
    obtain ⟨p', hp'⟩ := advanceBlanks_append h (p.after b) hbs
    exact ⟨p', by rw [List.cons_append, advanceBlanks, if_pos hb, hp']⟩

theorem reads_blanks {bs cs : List Char} (hbs : ∀ b ∈ bs, isBlank b)
    (hcs : ∀ c ∈ cs.head?, ¬ isBlank c) : Reads blanks (bs ++ cs) cs.head? cs := by
  intro p
  obtain ⟨p', hp'⟩ := advanceBlanks_append hcs p hbs
  refine ⟨p', ?_⟩
  show (Except.ok (advanceBlanks (bs ++ cs) p).rest.head?, advanceBlanks (bs ++ cs) p) = _
  rw [hp']

theorem isBlank_newline {n : Nat} : ∀ b ∈ newline n, isBlank b := by
  intro b hb
  rcases List.mem_cons.1 hb with rfl | hb
  · rfl
  · rw [(List.mem_replicate.1 hb).2]
    rfl

section Ahead

variable {c : Char} (hc : ¬ isBlank c) (cs : List Char)
include hc

theorem reads_blanks_here : Reads blanks (c :: cs) (some c) (c :: cs) :=
  reads_blanks (List.forall_mem_nil _) fun _ hd => Option.some.inj hd ▸ hc

theorem reads_blanks_space : Reads blanks (' ' :: c :: cs) (some c) (c :: cs) :=
  reads_blanks (List.forall_mem_singleton.2 rfl) fun _ hd => Option.some.inj hd ▸ hc

theorem reads_blanks_newline (n : Nat) : Reads blanks (newline n ++ c :: cs) (some c) (c :: cs) :=
  reads_blanks isBlank_newline fun _ hd => Option.some.inj hd ▸ hc

end Ahead

section Escapes

theorem hexValue?_hexDigit : ∀ n < 16, hexValue? (hexDigit n) = some n := by decide

theorem utf8Size_hexDigit : ∀ n < 16, (hexDigit n).utf8Size = 1 := by decide

theorem le_foldl_utf8Size : ∀ (cs : List Char) (n : Nat),
    n + cs.length ≤ cs.foldl (fun n c => n + c.utf8Size) n
  | [], n => Nat.le_refl n
  | c :: cs, n => by
    have ih := le_foldl_utf8Size cs (n + c.utf8Size)
    have hc := c.utf8Size_pos
    rw [List.length_cons, List.foldl_cons]
    omega

theorem length_le_utf8Length (cs : List Char) : cs.length ≤ utf8Length cs := by
  simpa [utf8Length] using le_foldl_utf8Size cs 0

theorem advanceBytes_cons {c : Char} (h : c.utf8Size = 1) (n : Nat) (cs : List Char) (p : Place) :
    advanceBytes (n + 1) (c :: cs) p = advanceBytes n cs (p.after c) := by
  rw [advanceBytes, if_pos (by omega), h, Nat.add_sub_cancel]

/-- The digits of a control character are read. -/
theorem reads_hexEscape {n : Nat} (h : n < 256) (rest : List Char) :
    Reads hexEscape ('0' :: '0' :: hexDigit (n / 16) :: hexDigit (n % 16) :: rest) n rest := by
  intro p
  have hhigh : n / 16 < 16 := by omega
  have hlow : n % 16 < 16 := by omega
  have hlength := length_le_utf8Length
    ('0' :: '0' :: hexDigit (n / 16) :: hexDigit (n % 16) :: rest)
  simp only [List.length_cons] at hlength
  have hzero : hexValue? '0' = some 0 := rfl
  have hn : ((0 * 16 + 0) * 16 + n / 16) * 16 + n % 16 = n := by omega
  refine ⟨(((p.after '0').after '0').after (hexDigit (n / 16))).after (hexDigit (n % 16)), ?_⟩
  rw [hexEscape, run_get_bind, if_neg (by dsimp only; omega), run_set_bind]
  simp only [List.take_succ_cons, List.take_zero, List.map_cons, List.map_nil, hzero,
    hexValue?_hexDigit _ hhigh, hexValue?_hexDigit _ hlow, hn]
  rw [advanceBytes_cons rfl, advanceBytes_cons rfl, advanceBytes_cons (utf8Size_hexDigit _ hhigh),
    advanceBytes_cons (utf8Size_hexDigit _ hlow), advanceBytes]
  rfl

theorem reads_unicodeEscape {c : Char} (h : c.toNat < 0x20) (rest : List Char) :
    Reads (escape unicodeEscape)
      ('u' :: '0' :: '0' :: hexDigit (c.toNat / 16) :: hexDigit (c.toNat % 16) :: rest) c rest := by
  have hhex : Reads hexEscape _ c.toNat rest := reads_hexEscape (by omega) rest
  refine (reads_next 'u' _).bind (hhex.bind ?_)
  rw [if_neg (by omega), if_pos (by omega), Char.ofNat_toNat]
  exact reads_pure c rest

/-- The escapes of one character behind the backslash, each with what it stands for. -/
def shortEscapes : List (Char × Char) :=
  [('"', '"'), ('\\', '\\'), ('b', '\x08'), ('f', '\x0c'), ('n', '\n'), ('r', '\r'), ('t', '\t')]

theorem reads_shortEscape {e c : Char} (h : (e, c) ∈ shortEscapes) (unicode : Reader Char)
    (rest : List Char) : Reads (escape unicode) (e :: rest) c rest := by
  simp only [shortEscapes, List.mem_cons, Prod.mk.injEq, List.not_mem_nil, or_false] at h
  rcases h with ⟨rfl, rfl⟩ | ⟨rfl, rfl⟩ | ⟨rfl, rfl⟩ | ⟨rfl, rfl⟩ | ⟨rfl, rfl⟩ | ⟨rfl, rfl⟩ |
    ⟨rfl, rfl⟩ <;>
    exact (reads_next _ rest).bind (reads_pure _ rest)

end Escapes

section Strings

variable {s cs rest : List Char} {c : Char} {fuel : Nat}

theorem Reads.escaped {es : List Char} (he : Reads (escape unicodeEscape) es c cs)
    (h : Reads (stringRest unicodeEscape fuel) cs s rest) :
    Reads (stringRest unicodeEscape (fuel + 1)) ('\\' :: es) (c :: s) rest := by
  rw [stringRest]
  exact (reads_next '\\' es).bind (he.bind (h.bind (reads_pure _ rest)))

theorem Reads.unescaped (hquote : c ≠ '"') (hbackslash : c ≠ '\\') (hcontrol : ¬ c.toNat < 0x20)
    (h : Reads (stringRest unicodeEscape fuel) cs s rest) :
    Reads (stringRest unicodeEscape (fuel + 1)) (c :: cs) (c :: s) rest := by
  rw [stringRest]
  refine (reads_next c cs).bind ?_
  split
  · next hnone => cases hnone
  · next hsome => exact absurd (Option.some.inj hsome) hquote
  · next hsome => exact absurd (Option.some.inj hsome) hbackslash
  · next hsome =>
    obtain rfl := Option.some.inj hsome
    rw [if_neg hcontrol]
    exact h.bind (reads_pure _ rest)

theorem reads_escapeChar (h : Reads (stringRest unicodeEscape fuel) cs s rest) (c : Char) :
    Reads (stringRest unicodeEscape (fuel + 1)) (escapeChar c ++ cs) (c :: s) rest := by
  have hshort : ∀ {e d : Char}, c = d → (e, d) ∈ shortEscapes →
      Reads (stringRest unicodeEscape (fuel + 1)) ('\\' :: e :: cs) (c :: s) rest :=
    fun hd he => .escaped (reads_shortEscape (hd ▸ he) _ cs) h
  unfold escapeChar
  split_ifs with h₁ h₂ h₃ h₄ h₅ h₆ h₇ hcontrol
  · exact hshort h₁ (by decide)
  · exact hshort h₂ (by decide)
  · exact hshort h₃ (by decide)
  · exact hshort h₄ (by decide)
  · exact hshort h₅ (by decide)
  · exact hshort h₆ (by decide)
  · exact hshort h₇ (by decide)
  · exact .escaped (reads_unicodeEscape hcontrol cs) h
  · exact .unescaped h₁ h₂ hcontrol h

theorem reads_stringRest : ∀ (s : List Char) {fuel : Nat}, s.length < fuel → ∀ rest : List Char,
    Reads (stringRest unicodeEscape fuel) (s.flatMap escapeChar ++ '"' :: rest) s rest
  | _, 0, h, _ => absurd h (Nat.not_lt_zero _)
  | [], fuel + 1, _, rest => by
    rw [stringRest]
    exact (reads_next '"' rest).bind (reads_pure [] rest)
  | c :: s, fuel + 1, h, rest => by
    rw [List.flatMap_cons, List.append_assoc]
    exact reads_escapeChar (reads_stringRest s (Nat.lt_of_succ_lt_succ h) rest) c

end Strings

/-- A string is read from what is written for it, whatever characters it has. -/
theorem reads_string (s : String) (rest : List Char) : Reads string (quoted s rest) s rest := by
  -- the bound on the characters of the string is the number of those that are left
  have hlength : s.toList.length < (quoted s rest).length + 1 := by
    have := length_le_escaped s.toList
    rw [quoted, List.length_append]
    omega
  have hs : Reads (pure (String.ofList s.toList)) rest s rest := by
    rw [String.ofList_toList]
    exact reads_pure s rest
  exact (reads_remaining _).bind ((reads_stringRest s.toList hlength rest).bind hs)

/-- How an item of a list starts. -/
def OpensItem (cs : List Char) : Prop := ∃ c rest, cs = c :: rest ∧ ¬ isBlank c ∧ c ≠ ']'

theorem OpensItem.first {cs : List Char} (n : Nat) (rest : List Char) :
    OpensItem cs → Reads (moreItems true) (newline n ++ (cs ++ rest)) true (cs ++ rest) := by
  rintro ⟨c, behind, rfl, hc, hclose⟩
  refine (reads_blanks_newline hc (behind ++ rest) n).bind ?_
  split
  · next hnone => cases hnone
  · next hsome => exact absurd (Option.some.inj hsome) hclose
  · exact reads_pure true _

theorem OpensItem.later {cs : List Char} (n : Nat) (rest : List Char) :
    OpensItem cs →
      Reads (moreItems false) (',' :: (newline n ++ (cs ++ rest))) true (cs ++ rest) := by
  rintro ⟨c, behind, rfl, hc, hclose⟩
  refine (reads_blanks_here (by decide) _).bind ((reads_skip ',' _).bind
    ((reads_blanks_newline hc (behind ++ rest) n).bind ?_))
  split
  · next hsome => exact absurd (Option.some.inj hsome) hclose
  · exact reads_pure true _
  · next hnone => cases hnone

theorem reads_endList (cs : List Char) : Reads endList (']' :: cs) () cs :=
  (reads_blanks_here (by decide) cs).bind (reads_skip _ cs)

section Items

variable {item : Reader α} {as : List α}

theorem Reads.itemsNil {first : Bool} {fuel : Nat} {cs rest : List Char}
    (h : Reads (moreItems first) cs false rest) :
    Reads (items item (fuel + 1) first) cs [] rest := by
  rw [items]
  exact h.bind (reads_pure _ rest)

theorem Reads.itemsCons {a : α} {first : Bool} {fuel : Nat} {cs behind mid rest : List Char}
    (h : Reads (items item fuel false) mid as rest)
    (hmore : Reads (moreItems first) cs true behind) (hitem : Reads item behind a mid) :
    Reads (items item (fuel + 1) first) cs (a :: as) rest := by
  rw [items]
  exact hmore.bind (hitem.bind (h.bind (reads_pure _ rest)))

variable {text : α → List Char}

theorem reads_laterItems (n : Nat) (rest : List Char) : ∀ (as : List α) {fuel : Nat},
    (∀ a ∈ as, OpensItem (text a) ∧ ∀ rest, Reads item (text a ++ rest) a rest) →
    as.length < fuel → Reads (items item fuel false)
      (laterRows (n + 1) (as.map text) ++ (newline n ++ ']' :: rest)) as (']' :: rest)
  | _, 0, _, hfuel => absurd hfuel (Nat.not_lt_zero _)
  | [], fuel + 1, _, _ =>
    .itemsNil ((reads_blanks_newline (by decide) rest n).bind (reads_pure false _))
  | a :: as, fuel + 1, h, hfuel => by
    obtain ⟨⟨hopens, ha⟩, has⟩ := List.forall_mem_cons.1 h
    have ih := reads_laterItems n rest as has (Nat.lt_of_succ_lt_succ hfuel)
    simp only [laterRows, List.map_cons, List.flatMap_cons, List.cons_append, List.append_assoc]
    exact ih.itemsCons (hopens.later (n + 1) _) (ha _)

/-- A list is read from what is written for it if each of its items is. -/
theorem reads_list {depth fuel : Nat} (hdepth : 1 < depth)
    (h : ∀ a ∈ as, OpensItem (text a) ∧ ∀ rest, Reads item (text a ++ rest) a rest)
    (hfuel : as.length < fuel) (n : Nat) (rest : List Char) :
    Reads (bracket depth (items item fuel true) endList)
      (layout '[' ']' n (as.map text) ++ rest) as rest := by
  obtain ⟨fuel, rfl⟩ : ∃ k, fuel = k + 1 := ⟨fuel - 1, by omega⟩
  cases as with
  | nil =>
    have hend : Reads (moreItems true) (']' :: rest) false (']' :: rest) :=
      (reads_blanks_here (by decide) rest).bind (reads_pure false _)
    exact .bracket hdepth hend.itemsNil (reads_endList rest) '['
  | cons a as =>
    obtain ⟨⟨hopens, ha⟩, has⟩ := List.forall_mem_cons.1 h
    have hlater := reads_laterItems n rest as has (Nat.lt_of_succ_lt_succ hfuel)
    rw [List.map_cons, layout_cons]
    simp only [List.append_assoc, List.cons_append, List.nil_append]
    have hitems := hlater.itemsCons (hopens.first (n + 1) _) (ha _)
    exact hitems.bracket hdepth (reads_endList rest) '['

end Items

section Objects

theorem reads_moreKeys_first (n : Nat) (cs : List Char) :
    Reads (moreKeys true) (newline n ++ '"' :: cs) true ('"' :: cs) :=
  (reads_blanks_newline (by decide) cs n).bind (reads_pure true _)

theorem reads_moreKeys_later (n : Nat) (cs : List Char) :
    Reads (moreKeys false) (',' :: (newline n ++ '"' :: cs)) true ('"' :: cs) :=
  (reads_blanks_here (by decide) _).bind ((reads_skip ',' _).bind
    ((reads_blanks_newline (by decide) cs n).bind (reads_pure true _)))

theorem reads_moreKeys_end (n : Nat) (cs : List Char) :
    Reads (moreKeys false) (newline n ++ '}' :: cs) false ('}' :: cs) :=
  (reads_blanks_newline (by decide) cs n).bind (reads_pure false _)

theorem reads_colon (cs : List Char) : Reads colon (':' :: cs) () cs :=
  (reads_blanks_here (by decide) cs).bind (reads_skip _ cs)

theorem reads_endObject (cs : List Char) : Reads endObject ('}' :: cs) () cs :=
  (reads_blanks_here (by decide) cs).bind (reads_skip _ cs)

theorem reads_content_string (depth : Nat) (s : String) (rest : List Char) :
    Reads (content (depth + 1)) (' ' :: '"' :: quoted s rest) (.string s) rest := by
  rw [content]
  exact (reads_blanks_space (by decide) _).bind ((reads_skip _ _).bind
    ((reads_string s rest).bind (reads_pure _ rest)))

end Objects

section Whole

theorem answer_of_run {r : Reader α} {cs rest : List Char} {p : Place} {a : α}
    {answer : Except Failure α × Cursor} (hrun : ExceptT.run r ⟨cs, p⟩ = answer)
    (h : Reads r cs a rest) : ∃ p', answer = (.ok a, ⟨rest, p'⟩) := by
  obtain ⟨p', hp'⟩ := h p
  exact ⟨p', hrun.symm.trans hp'⟩

theorem run_of_reads {r : Reader α} {text : String} {a : α} (h : Reads r text.toList a []) :
    Reader.run r text = .ok a := by
  have hend : Reads blanks [] none [] := fun p => ⟨p, rfl⟩
  rw [Reader.run]
  split
  · next hrun =>
    obtain ⟨p, hp⟩ := answer_of_run hrun (h.bind (hend.bind (reads_pure a [])))
    cases hp
    rfl
  · next hrun =>
    obtain ⟨p, hp⟩ := answer_of_run hrun (h.bind (hend.bind (reads_pure a [])))
    cases hp

end Whole

end Reader

end ScopedStyles.Json
