import ScopedStyles.Script.Printer
import ScopedStyles.Script.Writer

/-!
# Marks of what is written

Marks that were made stay (`Writer.marks_piece`). A mark that stands right before a text is made,
at the latest when the text is written, whatever waited before it and whatever comes behind; so a
position is marked if it opens an object in a layout (`Layout.exists_mark`).
-/

namespace ScopedStyles.Script

namespace Writer

@[simp] theorem marks_raw (w : Writer) (s : String) : (w.raw s).marks = w.marks := rfl

theorem marks_put (w : Writer) (pos : Nat) : w.marks <:+ (w.put pos).marks := by
  unfold put
  dsimp only
  split
  · exact List.suffix_rfl
  · exact List.suffix_cons _ _

theorem marks_mark (w : Writer) (pos : Nat) : w.marks <:+ (w.mark pos).marks := by
  unfold mark
  split
  · exact List.suffix_rfl
  · split
    · exact List.suffix_rfl
    · exact w.marks_put pos

theorem marks_text (w : Writer) (s : String) : w.marks <:+ (w.text s).marks := by
  unfold text
  dsimp only
  split
  · exact List.suffix_rfl
  · split
    · rw [marks_raw]
      split
      · exact marks_put { w.raw _ with atStart := false, waiting := none } _
      · exact List.suffix_rfl
    · exact List.suffix_rfl

theorem marks_endLine (w : Writer) : w.marks <:+ w.endLine.marks := by
  unfold endLine
  split <;> exact List.suffix_rfl

theorem marks_comment (spaced : Bool) (w : Writer) (c : Comment) :
    w.marks <:+ (comment spaced w c).marks := by
  have hspace : w.marks <:+ (if spaced then w.text " " else w).marks := by
    split
    · exact marks_text w " "
    · exact List.suffix_rfl
  simp only [comment]
  generalize (if spaced then w.text " " else w) = u at hspace ⊢
  refine hspace.trans ((u.marks_mark c.span.lo).trans ?_)
  split
  · exact (((marks_text _ _).trans (marks_mark _ _)).trans (marks_text _ _)).trans (marks_text _ _)
  · exact ((marks_text _ _).trans (marks_mark _ _)).trans (marks_endLine _)

theorem marks_comments (spaced : Bool) : ∀ (cs : List Comment) (w : Writer),
    w.marks <:+ (cs.foldl (comment spaced) w).marks
  | [], _ => List.suffix_rfl
  | c :: cs, w => (marks_comment spaced w c).trans (marks_comments spaced cs _)

/-- Marks stay. -/
theorem marks_piece (w : Writer) (x : Piece) : w.marks <:+ (w.piece x).marks := by
  cases x with
  | text s => exact w.marks_text s
  | line => exact w.marks_endLine
  | indent => exact List.suffix_rfl
  | dedent => exact List.suffix_rfl
  | mark pos => exact w.marks_mark pos
  | leading pos =>
    simp only [piece]
    split
    · exact List.suffix_rfl
    · exact marks_comments false _ { w with comments := (w.comments.takeLeading pos).2 }
  | trailing pos spaced =>
    simp only [piece]
    split
    · exact List.suffix_rfl
    · exact marks_comments spaced _ { w with comments := (w.comments.takeTrailing pos).2 }
  | lineIfComment pos =>
    simp only [piece]
    split
    · exact List.suffix_rfl
    · exact w.marks_endLine

theorem marks_foldl : ∀ (l : Layout) (w : Writer), w.marks <:+ (l.foldl piece w).marks
  | [], _ => List.suffix_rfl
  | x :: l, w => (w.marks_piece x).trans (marks_foldl l _)

/-- A position is marked where it is put. -/
theorem exists_put (w : Writer) {pos : Nat} (hpos : pos ≠ 0) :
    ∃ m ∈ (w.put pos).marks, m.pos = pos := by
  unfold put
  dsimp only
  split
  · rename_i h
    rw [Bool.or_eq_true, decide_eq_true_iff, List.any_eq_true] at h
    obtain ⟨m, hm, hmpos⟩ := h.resolve_left hpos
    exact ⟨m, (List.takeWhile_sublist _).subset hm, of_decide_eq_true hmpos⟩
  · exact ⟨_, List.mem_cons_self, rfl⟩

/-- A text makes the mark that stands before it. -/
theorem exists_mark_text (w : Writer) {pos : Nat} (hpos : pos ≠ 0) {s : String} (hs : s ≠ "") :
    ∃ m ∈ ((w.mark pos).text s).marks, m.pos = pos := by
  have hs' : s.isEmpty = false := by simpa using hs
  unfold mark
  rw [if_neg hpos]
  split
  · rename_i hstart
    simp only [text, hs', hstart, Bool.false_eq_true, if_false, if_true, marks_raw]
    exact exists_put _ hpos
  · obtain ⟨m, hm, hmpos⟩ := w.exists_put hpos
    exact ⟨m, (marks_text _ s).subset hm, hmpos⟩

end Writer

namespace Layout

/-- Something at the position opens with a brace. -/
def Opens (pos : Nat) (l : Layout) : Prop := [.mark pos, .text "\x7b"] <:+: l

theorem exists_mark {l : Layout} {pos : Nat} (h : l.Opens pos) (hpos : pos ≠ 0) (c : Comments) :
    ∃ m ∈ (l.write c).2, m.pos = pos := by
  obtain ⟨before, after, rfl⟩ := h
  simp only [write, List.foldl_append, List.foldl_cons, List.foldl_nil, List.mem_reverse]
  obtain ⟨m, hm, hmpos⟩ := (before.foldl Writer.piece (Writer.start c)).exists_mark_text hpos
    (s := "\x7b") (by decide)
  exact ⟨m, (Writer.marks_foldl after _).subset hm, hmpos⟩

end Layout

end ScopedStyles.Script
