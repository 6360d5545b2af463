import ScopedStyles.Disk
import Mathlib.Tactic.SplitIfs

/-!
# Walks that arrive

`Leads` lists the ways in which steps can be taken with success, so what is said of a path that
leads somewhere is shown by induction on it; `locateWith_eq_ok_iff` ties it to the walk that runs.
-/

namespace ScopedStyles

namespace Disk

open ScopedStyles.Path (dot)

variable {d : Disk} {create : Bool}

/-- A step that goes down. -/
structure IsDescent (s : Bytes) : Prop where
  not_current : s ≠ [dot]
  not_parent : s ≠ [dot, dot]
  short : s.length ≤ maxName

/-- Steps lead from one place to another with fewer than `k` links followed. -/
inductive Leads (d : Disk) (create : Bool) : Nat → Place → List Bytes → Place → Prop
  | arrived {k : Nat} {here : Place} : Leads d create (k + 1) here [] here
  | stay {k : Nat} {here last : Place} {rest : List Bytes} :
    d.entry? here = some .directory → Leads d create (k + 1) here rest last →
    Leads d create (k + 1) here ([dot] :: rest) last
  | up {k : Nat} {here last : Place} {rest : List Bytes} :
    d.entry? here = some .directory → Leads d create (k + 1) here.dropLast rest last →
    Leads d create (k + 1) here ([dot, dot] :: rest) last
  | down {k : Nat} {here last : Place} {s : Bytes} {rest : List Bytes} {e : Entry} :
    d.entry? here = some .directory → IsDescent s → d.entry? (here ++ [s]) = some e →
    (∀ target, e ≠ .link target) → Leads d create (k + 1) (here ++ [s]) rest last →
    Leads d create (k + 1) here (s :: rest) last
  | jump {k : Nat} {here last : Place} {s : Bytes} {rest : List Bytes} {target : Path} :
    d.entry? here = some .directory → IsDescent s →
    d.entry? (here ++ [s]) = some (.link target) →
    Leads d create k (if target.isAbsolute then [] else here) (steps target ++ rest) last →
    Leads d create (k + 1) here (s :: rest) last
  | missing {k : Nat} {here : Place} {s : Bytes} :
    create = true → d.entry? here = some .directory → IsDescent s →
    d.entry? (here ++ [s]) = none → Leads d create (k + 1) here [s] (here ++ [s])

theorem leads_of_walk {k : Nat}
    (hjump : ∀ {here last : Place} {ss : List Bytes},
      d.follow create k here ss = .ok last → Leads d create k here ss last) :
    ∀ {ss : List Bytes} {here last : Place},
      d.walk create (d.follow create k) here ss = .ok last → Leads d create (k + 1) here ss last
  | [], here, last, h => by
    obtain rfl : here = last := by simpa [walk] using h
    exact .arrived
  | s :: rest, here, last, h => by
    simp only [walk] at h
    split at h
    · rename_i hhere
      by_cases hlong : maxName < s.length
      · simp [hlong] at h
      rw [if_neg hlong] at h
      by_cases hdot : s = [dot]
      · rw [if_pos hdot] at h
        exact hdot ▸ .stay hhere (leads_of_walk hjump h)
      rw [if_neg hdot] at h
      by_cases hup : s = [dot, dot]
      · rw [if_pos hup] at h
        exact hup ▸ .up hhere (leads_of_walk hjump h)
      rw [if_neg hup] at h
      have hs : IsDescent s := ⟨hdot, hup, Nat.le_of_not_lt hlong⟩
      split at h
      · rename_i hnext
        by_cases hc : create && rest.isEmpty
        · rw [if_pos hc] at h
          simp only [Bool.and_eq_true, List.isEmpty_iff] at hc
          obtain ⟨hc, rfl⟩ := hc
          exact Except.ok.inj h ▸ .missing hc hhere hs hnext
        · simp [hc] at h
      · rename_i hnext
        exact .jump hhere hs hnext (hjump h)
      · rename_i e hlink hnext
        exact .down hhere hs hnext (by simpa [hnext] using hlink) (leads_of_walk hjump h)
    · simp at h

theorem leads_of_follow : ∀ {k : Nat} {ss : List Bytes} {here last : Place},
    d.follow create k here ss = .ok last → Leads d create k here ss last
  | 0, _, _, _, h => by simp [follow] at h
  | _ + 1, _, _, _, h => leads_of_walk leads_of_follow h

theorem follow_of_leads {k : Nat} {ss : List Bytes} {here last : Place}
    (h : Leads d create k here ss last) : d.follow create k here ss = .ok last := by
  induction h with
  | arrived => rfl
  | stay hhere _ ih =>
    simpa [follow, walk, hhere, maxName] using ih
  | up hhere _ ih =>
    simpa [follow, walk, hhere, maxName] using ih
  | @down _ _ _ _ _ e hhere hs hnext hlink _ ih =>
    have hshort := Nat.not_lt.2 hs.short
    rcases e with _ | _ | target
    · simpa [follow, walk, hhere, hshort, hs.not_current, hs.not_parent, hnext] using ih
    · simpa [follow, walk, hhere, hshort, hs.not_current, hs.not_parent, hnext] using ih
    · exact absurd rfl (hlink target)
  | jump hhere hs hnext _ ih =>
    have hshort := Nat.not_lt.2 hs.short
    simpa [follow, walk, hhere, hshort, hs.not_current, hs.not_parent, hnext] using ih
  | missing hc hhere hs hnext =>
    have hshort := Nat.not_lt.2 hs.short
    simp [follow, walk, hhere, hshort, hs.not_current, hs.not_parent, hnext, hc]

/-- A path that can be walked, and the place where its steps start. -/
structure IsWalkable (p : Path) : Prop where
  no_null : 0 ∉ p.bytes
  named : p.bytes ≠ []
  short : p.bytes.length < maxPath

/-- Where a path leads to. -/
theorem locateWith_eq_ok_iff {p : Path} {place : Place} :
    d.locateWith create p = .ok place ↔ IsWalkable p ∧
      Leads d create (maxLinks + 1) (if p.isAbsolute then [] else d.base) (steps p) place := by
  unfold locateWith
  constructor
  · intro h
    by_cases h1 : p.bytes.contains 0
    · rw [if_pos h1] at h
      simp at h
    rw [if_neg h1] at h
    by_cases h2 : p.bytes = []
    · simp [h2] at h
    rw [if_neg h2] at h
    by_cases h3 : maxPath ≤ p.bytes.length
    · simp [h3] at h
    rw [if_neg h3] at h
    exact ⟨⟨by simpa using h1, h2, Nat.lt_of_not_le h3⟩, leads_of_follow h⟩
  · rintro ⟨⟨h1, h2, h3⟩, h⟩
    rw [if_neg (by simpa using h1), if_neg h2, if_neg (Nat.not_le.2 h3), follow_of_leads h]

end Disk

end ScopedStyles
