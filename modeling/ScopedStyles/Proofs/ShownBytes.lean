import ScopedStyles.Bytes
import Mathlib.Tactic.SplitIfs

/-!
# Bytes as they are shown

The bytes of a text are shown as this text (`text_ofText`), so texts are told apart by their bytes.
Other bytes may be shown as what they are not, but a byte of ASCII always stands for its character
and lets nothing be pending across it (`text_append_cons`).
-/

namespace ScopedStyles.Bytes

theorem ofText_eq (s : String) : ofText s = s.toList.flatMap String.utf8EncodeChar := by
  have h : ofText (String.ofList s.toList) = s.toList.flatMap String.utf8EncodeChar := by
    rw [ofText, String.toUTF8, String.toByteArray_ofList, List.utf8Encode,
      List.toList_data_toByteArray]
  rwa [String.ofList_toList] at h

theorem ofText_ofList (cs : List Char) :
    ofText (String.ofList cs) = cs.flatMap String.utf8EncodeChar := by
  rw [ofText_eq, String.toList_ofList]

@[simp]
theorem ofText_append (s t : String) : ofText (s ++ t) = ofText s ++ ofText t := by
  rw [ofText_eq, String.toList_append, List.flatMap_append, ← ofText_eq, ← ofText_eq]

section Characters

variable {n : Nat}

theorem toNat_ofNat (h : n < 256) : (UInt8.ofNat n).toNat = n := by
  rw [UInt8.toNat_ofNat', Nat.mod_eq_of_lt h]

theorem start_one (h : n < 0x80) : start (UInt8.ofNat n) = ([Char.ofNat n], none) := by
  have hb := toNat_ofNat (show n < 256 by omega)
  have hlt : UInt8.ofNat n < 0x80 := UInt8.lt_iff_toNat_lt.2 (by rw [hb]; exact h)
  rw [start, if_pos hlt, hb]

theorem start_two (hlow : 2 ≤ n) (hhigh : n < 32) :
    start (UInt8.ofNat (n + 0xC0)) = ([], some ⟨0, 0x80, 0xBF, n⟩) := by
  have hb := toNat_ofNat (show n + 0xC0 < 256 by omega)
  simp only [start, UInt8.lt_iff_toNat_lt, hb, UInt8.reduceToNat, Nat.add_sub_cancel]
  rw [if_neg (by omega), if_neg (by omega), if_pos (by omega)]

theorem start_three (h : n < 16) : start (UInt8.ofNat (n + 0xE0)) =
    ([], some ⟨1, if n = 0 then 0xA0 else 0x80, if n = 13 then 0x9F else 0xBF, n⟩) := by
  have hb := toNat_ofNat (show n + 0xE0 < 256 by omega)
  simp only [start, UInt8.lt_iff_toNat_lt, ← UInt8.toNat_inj, hb, UInt8.reduceToNat,
    Nat.add_sub_cancel]
  rw [if_neg (by omega), if_neg (by omega), if_neg (by omega), if_pos (by omega)]
  simp only [Nat.reduceEqDiff]

theorem start_four (h : n < 5) : start (UInt8.ofNat (n + 0xF0)) =
    ([], some ⟨2, if n = 0 then 0x90 else 0x80, if n = 4 then 0x8F else 0xBF, n⟩) := by
  have hb := toNat_ofNat (show n + 0xF0 < 256 by omega)
  simp only [start, UInt8.lt_iff_toNat_lt, ← UInt8.toNat_inj, hb, UInt8.reduceToNat,
    Nat.add_sub_cancel]
  rw [if_neg (by omega), if_neg (by omega), if_neg (by omega), if_neg (by omega),
    if_pos (by omega)]
  simp only [Nat.reduceEqDiff]

theorem chars_cons (p : Option Pending) (b : UInt8) (bs : Bytes) :
    chars p (b :: bs) = (step p b).1 ++ chars (step p b).2 bs := by
  rcases p with _ | p <;> rfl

variable {low high : UInt8} {owed value : Nat} {bs : Bytes}

theorem within (hn : n < 64) (hlow : low.toNat ≤ n + 0x80) (hhigh : n + 0x80 ≤ high.toNat) :
    (low ≤ UInt8.ofNat (n + 0x80) ∧ UInt8.ofNat (n + 0x80) ≤ high) ∧
      (UInt8.ofNat (n + 0x80)).toNat - 0x80 = n := by
  have hb := toNat_ofNat (show n + 0x80 < 256 by omega)
  rw [UInt8.le_iff_toNat_le, UInt8.le_iff_toNat_le, hb, Nat.add_sub_cancel]
  exact ⟨⟨hlow, hhigh⟩, rfl⟩

/-- Where more is owed the number grows, -/
theorem chars_owed (hn : n < 64) (hlow : low.toNat ≤ n + 0x80) (hhigh : n + 0x80 ≤ high.toNat) :
    chars (some ⟨owed + 1, low, high, value⟩) (UInt8.ofNat (n + 0x80) :: bs) =
      chars (some ⟨owed, 0x80, 0xBF, value * 64 + n⟩) bs := by
  obtain ⟨hin, hb⟩ := within hn hlow hhigh
  rw [chars_cons, step, if_pos hin, hb]
  rfl

/-- and then it is that of a character. -/
theorem chars_last (hn : n < 64) :
    chars (some ⟨0, 0x80, 0xBF, value⟩) (UInt8.ofNat (n + 0x80) :: bs) =
      Char.ofNat (value * 64 + n) :: chars none bs := by
  have hlow : (0x80 : UInt8).toNat ≤ n + 0x80 := Nat.le_add_left ..
  have hhigh : n + 0x80 ≤ (0xBF : UInt8).toNat := Nat.add_le_add_right (Nat.le_of_lt_succ hn) _
  obtain ⟨hin, hb⟩ := within hn hlow hhigh
  rw [chars_cons, step, if_pos hin, hb]
  rfl

/-- A character is read from its bytes. -/
theorem chars_encode (c : Char) (bs : Bytes) :
    chars none (String.utf8EncodeChar c ++ bs) = c :: chars none bs := by
  have hvalid : c.val.toNat < 0xD800 ∨ 0xDFFF < c.val.toNat ∧ c.val.toNat < 0x110000 := c.valid
  have hc : Char.ofNat c.val.toNat = c := Char.ofNat_toNat c
  have hstart : ∀ (b : UInt8) (bs : Bytes),
      chars none (b :: bs) = (start b).1 ++ chars (start b).2 bs := chars_cons none
  unfold String.utf8EncodeChar
  obtain ⟨v, hv⟩ : ∃ v, v = c.val.toNat := ⟨_, rfl⟩
  rw [← hv] at hvalid hc ⊢
  dsimp only
  split_ifs with h1 h2 h3
  · rw [List.singleton_append, hstart, start_one (by omega), hc]
    rfl
  · rw [List.cons_append, List.singleton_append, hstart, start_two (by omega) (by omega),
      List.nil_append, chars_last (by omega)]
    rw [show v / 64 % 0x20 * 64 + v % 0x40 = v by omega, hc]
  · rw [List.cons_append, List.cons_append, List.singleton_append, hstart,
      start_three (by omega), List.nil_append, chars_owed (by omega), chars_last (by omega)]
    · rw [show (v / 4096 % 0x10 * 64 + v / 64 % 0x40) * 64 + v % 0x40 = v by omega, hc]
    all_goals split_ifs <;> simp only [UInt8.reduceToNat] <;> omega
  · rw [List.cons_append, List.cons_append, List.cons_append, List.singleton_append, hstart,
      start_four (by omega), List.nil_append, chars_owed (by omega), chars_owed (by omega),
      chars_last (by omega)]
    · rw [show ((v / 262144 % 0x08 * 64 + v / 4096 % 0x40) * 64 + v / 64 % 0x40) * 64 +
        v % 0x40 = v by omega, hc]
    · exact Nat.le_add_left ..
    · simp only [UInt8.reduceToNat]
      omega
    all_goals split_ifs <;> simp only [UInt8.reduceToNat] <;> omega

end Characters

@[simp]
theorem text_ofText (s : String) : (ofText s).text = s := by
  have hchars : ∀ cs : List Char, chars none (cs.flatMap String.utf8EncodeChar) = cs := by
    intro cs
    induction cs with
    | nil => rfl
    | cons c cs ih => rw [List.flatMap_cons, chars_encode, ih]
  rw [text, ofText_eq, hchars, String.ofList_toList]

theorem toNat_ofNat_ascii {b : UInt8} (hb : b < 0x80) : (Char.ofNat b.toNat).toNat = b.toNat := by
  have hlt := UInt8.lt_iff_toNat_lt.1 hb
  rw [Char.ofNat, dif_pos (.inl (Nat.lt_trans hlt (by decide)))]
  rfl

theorem encode_ascii {b : UInt8} (hb : b < 0x80) :
    String.utf8EncodeChar (Char.ofNat b.toNat) = [b] := by
  have hlt : b.toNat < 0x80 := UInt8.lt_iff_toNat_lt.1 hb
  have hval : (Char.ofNat b.toNat).val.toNat = b.toNat := toNat_ofNat_ascii hb
  unfold String.utf8EncodeChar
  rw [hval, if_pos (by omega), UInt8.ofNat_toNat]

/-- A text starts with its first character. -/
theorem head?_ofText {s : String} {b : UInt8} (hb : b < 0x80)
    (h : s.toList.head? = some (Char.ofNat b.toNat)) : (ofText s).head? = some b := by
  obtain ⟨cs, hcs⟩ := List.head?_eq_some_iff.1 h
  rw [ofText_eq, hcs, List.flatMap_cons, encode_ascii hb]
  rfl

theorem ofText_inj {s t : String} : ofText s = ofText t ↔ s = t :=
  ⟨fun h => by rw [← text_ofText s, h, text_ofText], congrArg ofText⟩

section Seams

/-- No byte of ASCII is in the range of what is pending, and no character of ASCII comes of it. -/
structure Pending.Wide (p : Pending) : Prop where
  low : 0x80 ≤ p.low.toNat
  /-- With the next byte the number is two at least, so one more byte makes it 128 at least. -/
  least : 2 ≤ p.value * 64 + (p.low.toNat - 0x80)
  last : p.owed = 0 → 0x80 ≤ p.value * 64 + (p.low.toNat - 0x80)

theorem wide_of_start {b : UInt8} {p : Pending} (h : p ∈ (start b).2) : p.Wide := by
  unfold start at h
  simp only [UInt8.lt_iff_toNat_lt, ← UInt8.toNat_inj, UInt8.reduceToNat] at h
  split_ifs at h <;> cases h <;> refine ⟨Nat.le_of_ble_eq_true rfl, ?_, ?_⟩ <;>
    simp only [UInt8.reduceToNat] <;> omega

theorem wide_of_step {q : Option Pending} (hq : ∀ r ∈ q, r.Wide) {b : UInt8} {p : Pending}
    (h : p ∈ (step q b).2) : p.Wide := by
  rcases q with _ | ⟨owed, low, high, value⟩
  · exact wide_of_start h
  rw [step] at h
  by_cases hin : low ≤ b ∧ b ≤ high
  · rw [if_pos hin] at h
    obtain ⟨-, hleast, -⟩ := hq _ rfl
    have hlow : low.toNat ≤ b.toNat := UInt8.le_iff_toNat_le.1 hin.1
    rcases owed with _ | owed <;> cases h
    refine ⟨Nat.le_refl _, ?_, fun _ => ?_⟩ <;> simp only [UInt8.reduceToNat] at * <;> omega
  · rw [if_neg hin] at h
    exact wide_of_start h

/-- A byte of ASCII ends what is pending and stands for its character. -/
theorem step_ascii {p : Option Pending} (hp : ∀ q ∈ p, q.Wide) {b : UInt8} (hb : b < 0x80) :
    step p b = (chars p [] ++ [Char.ofNat b.toNat], none) := by
  have hstart : start b = ([Char.ofNat b.toNat], none) := by rw [start, if_pos hb]
  rcases p with _ | p
  · exact hstart
  · have hout : ¬ (p.low ≤ b ∧ b ≤ p.high) := fun h =>
      Nat.not_le.2 (UInt8.lt_iff_toNat_lt.1 hb)
        (Nat.le_trans (hp p rfl).low (UInt8.le_iff_toNat_le.1 h.1))
    rw [step, if_neg hout, hstart]
    rfl

theorem chars_append_cons {b : UInt8} (hb : b < 0x80) (ys : Bytes) : ∀ (xs : Bytes)
    {p : Option Pending}, (∀ q ∈ p, q.Wide) →
      chars p (xs ++ b :: ys) = chars p xs ++ Char.ofNat b.toNat :: chars none ys
  | [], p, hp => by
    rw [List.nil_append, chars_cons, step_ascii hp hb, List.append_assoc]
    rfl
  | x :: xs, p, hp => by
    rw [List.cons_append, chars_cons, chars_append_cons hb ys xs fun q => wide_of_step hp,
      ← List.append_assoc, ← chars_cons]

/-- What stands before a byte of ASCII and what stands behind it are shown by themselves. -/
theorem text_append_cons (xs : Bytes) {b : UInt8} (hb : b < 0x80) (ys : Bytes) :
    (text (xs ++ b :: ys)).toList = xs.text.toList ++ Char.ofNat b.toNat :: ys.text.toList := by
  simp only [text, String.toList_ofList]
  exact chars_append_cons hb ys xs fun _ h => absurd h (Option.not_mem_none _)

theorem text_append_ofText (xs : Bytes) {t : String} {b : UInt8} (hb : b < 0x80)
    (h : t.toList.head? = some (Char.ofNat b.toNat)) : text (xs ++ ofText t) = xs.text ++ t := by
  obtain ⟨cs, hcs⟩ := List.head?_eq_some_iff.1 h
  have hbytes : ofText t = b :: ofText (String.ofList cs) := by
    rw [ofText_eq, hcs, List.flatMap_cons, encode_ascii hb, ofText_ofList]
    rfl
  rw [← String.toList_inj, hbytes, text_append_cons xs hb, text_ofText, String.toList_append, hcs,
    String.toList_ofList]

/-- A number that takes more than one byte is not that of a character of ASCII. -/
theorem ofNat_wide {n : Nat} (hn : 0x80 ≤ n) :
    (Char.ofNat n).toNat = 0 ∨ 0x80 ≤ (Char.ofNat n).toNat := by
  by_cases hvalid : n.isValidChar
  · rw [Char.ofNat, dif_pos hvalid]
    exact .inr hn
  · rw [Char.ofNat, dif_neg hvalid]
    exact .inl rfl

variable {b : UInt8}

theorem ne_unreadable (hb : b < 0x80) : Char.ofNat b.toNat ≠ unreadable := by
  intro h
  have hwide : 0x80 ≤ unreadable.toNat := by decide +kernel
  rw [← h, toNat_ofNat_ascii hb] at hwide
  exact Nat.not_le.2 (UInt8.lt_iff_toNat_lt.1 hb) hwide

/-- A character of ASCII comes of its own byte, -/
theorem eq_of_mem_start (hb : b < 0x80) {b' : UInt8} (h : Char.ofNat b.toNat ∈ (start b').1) :
    b' = b := by
  unfold start at h
  split_ifs at h with h'
  · have hchar := congrArg Char.toNat (List.mem_singleton.1 h)
    rw [toNat_ofNat_ascii hb, toNat_ofNat_ascii h'] at hchar
    exact (UInt8.toNat_inj.1 hchar).symm
  all_goals simp [ne_unreadable hb] at h

theorem eq_of_mem_step (hb : b < 0x80) (hnull : b ≠ 0) {p : Option Pending}
    (hp : ∀ q ∈ p, q.Wide) {b' : UInt8} (h : Char.ofNat b.toNat ∈ (step p b').1) : b' = b := by
  have hlt := UInt8.lt_iff_toNat_lt.1 hb
  have hpos : b.toNat ≠ 0 := fun h0 => hnull (UInt8.toNat_inj.1 h0)
  rcases p with _ | ⟨owed, low, high, value⟩
  · exact eq_of_mem_start hb h
  rw [step] at h
  by_cases hin : low ≤ b' ∧ b' ≤ high
  · rw [if_pos hin] at h
    obtain ⟨-, -, hlast⟩ := hp _ rfl
    rcases owed with _ | owed
    · have hchar := congrArg Char.toNat (List.mem_singleton.1 h)
      rw [toNat_ofNat_ascii hb] at hchar
      have hlow := UInt8.le_iff_toNat_le.1 hin.1
      have hleast : 0x80 ≤ value * 64 + (low.toNat - 0x80) := hlast rfl
      have hwide := ofNat_wide (n := value * 64 + (b'.toNat - 0x80)) (by omega)
      rw [← hchar] at hwide
      exact absurd hlt (Nat.not_lt.2 (hwide.resolve_left hpos))
    · cases h
  · rw [if_neg hin] at h
    rcases List.mem_cons.1 h with h | h
    · exact absurd h (ne_unreadable hb)
    · exact eq_of_mem_start hb h

/-- wherever it stands. -/
theorem mem_of_mem_chars (hb : b < 0x80) (hnull : b ≠ 0) : ∀ {bs : Bytes} {p : Option Pending},
    (∀ q ∈ p, q.Wide) → Char.ofNat b.toNat ∈ chars p bs → b ∈ bs
  | [], none, _, h => by cases h
  | [], some _, _, h => absurd (List.mem_singleton.1 h) (ne_unreadable hb)
  | b' :: bs, p, hp, h => by
    rw [chars_cons] at h
    rcases List.mem_append.1 h with h | h
    · exact eq_of_mem_step hb hnull hp h ▸ List.mem_cons_self
    · exact List.mem_cons_of_mem _ (mem_of_mem_chars hb hnull (fun q => wide_of_step hp) h)

/-- Nothing but no bytes is shown as nothing. -/
theorem chars_eq_nil : ∀ {bs : Bytes} {p : Option Pending}, chars p bs = [] → p = none ∧ bs = []
  | [], none, _ => ⟨rfl, rfl⟩
  | [], some _, h => by cases h
  | b :: bs, p, h => by
    rw [chars_cons, List.append_eq_nil_iff] at h
    obtain ⟨hnext, -⟩ := chars_eq_nil h.2
    have hstart : (start b).1 ≠ [] ∨ (start b).2 ≠ none := by
      unfold start
      split_ifs <;> simp
    rcases p with _ | ⟨owed, low, high, value⟩
    · exact absurd hnext (hstart.resolve_left (not_not_intro h.1))
    · rw [step] at h hnext
      by_cases hin : low ≤ b ∧ b ≤ high
      · rw [if_pos hin] at h hnext
        rcases owed with _ | owed
        · cases h.1
        · cases hnext
      · rw [if_neg hin] at h
        cases h.1

end Seams

/-- The bytes of the text that is shown for bytes. -/
def shown (bs : Bytes) : Bytes := ofText bs.text

@[simp]
theorem text_shown (bs : Bytes) : text bs.shown = bs.text := text_ofText _

@[simp]
theorem shown_ofText (s : String) : (ofText s).shown = ofText s := congrArg ofText (text_ofText s)

section Shown

variable {b : UInt8}

theorem shown_append_cons (xs : Bytes) (hb : b < 0x80) (ys : Bytes) :
    shown (xs ++ b :: ys) = xs.shown ++ b :: ys.shown := by
  rw [shown, ofText_eq, text_append_cons xs hb, List.flatMap_append, List.flatMap_cons,
    encode_ascii hb, ← ofText_eq, ← ofText_eq]
  rfl

theorem shown_eq_nil {bs : Bytes} (h : bs.shown = []) : bs = [] := by
  have htext : bs.text = "" := ofText_inj.1 h
  have hchars : chars none bs = [] := by
    rw [← String.toList_ofList (l := chars none bs)]
    exact congrArg String.toList htext
  exact (chars_eq_nil hchars).2

theorem mem_shown_iff (hb : b < 0x80) (hnull : b ≠ 0) {bs : Bytes} : b ∈ bs.shown ↔ b ∈ bs := by
  constructor
  · intro h
    obtain ⟨xs, ys, hsplit⟩ := List.append_of_mem h
    have hmem : Char.ofNat b.toNat ∈ bs.text.toList := by
      rw [← text_shown, hsplit, text_append_cons xs hb]
      exact List.mem_append_right _ List.mem_cons_self
    rw [text, String.toList_ofList] at hmem
    exact mem_of_mem_chars hb hnull (fun _ h => absurd h (Option.not_mem_none _)) hmem
  · intro h
    obtain ⟨xs, ys, rfl⟩ := List.append_of_mem h
    rw [shown_append_cons xs hb]
    exact List.mem_append_right _ List.mem_cons_self

/-- Bytes of ASCII are shown for themselves only. -/
theorem shown_eq_iff {cs : Bytes} (hcs : ∀ c ∈ cs, c < 0x80 ∧ c ≠ 0) {bs : Bytes} :
    bs.shown = cs ↔ bs = cs := by
  induction cs generalizing bs with
  | nil =>
    refine ⟨shown_eq_nil, ?_⟩
    rintro rfl
    rfl
  | cons c cs ih =>
    obtain ⟨⟨hc, hnull⟩, hcs⟩ := List.forall_mem_cons.1 hcs
    constructor
    · intro h
      have hmem : c ∈ bs := (mem_shown_iff hc hnull).1 (h ▸ List.mem_cons_self)
      obtain ⟨xs, ys, rfl, hfirst⟩ := List.eq_append_cons_of_mem hmem
      rw [shown_append_cons xs hc] at h
      -- what is shown before the first `c` is nothing
      rcases hxs : shown xs with _ | ⟨x, rest⟩
      · rw [hxs, List.nil_append] at h
        rw [shown_eq_nil hxs, (ih hcs).1 (List.cons.inj h).2, List.nil_append]
      · rw [hxs, List.cons_append] at h
        refine absurd ((mem_shown_iff hc hnull).1 ?_) hfirst
        rw [hxs, (List.cons.inj h).1]
        exact List.mem_cons_self
    · rintro rfl
      rw [← List.nil_append (c :: cs), shown_append_cons [] hc, (ih hcs).2 rfl]
      rfl

end Shown

end ScopedStyles.Bytes
