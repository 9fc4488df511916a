/-
# A file whose writes are stamped and whose deletes are deferred

Holders come to a place and leave it; the file there is written by some
holder, under a number from one clock, and a holder that leaves leaves behind
a delete, to be carried out later, that bears the clock's reading. A delete
removes the file only when no write numbered after it has been saved. Writes
and deletes at one place exclude each other while they run, but are carried
out in any order.

`Settles` is what holds at a place whatever the order: a place that is held
has its file, or one is on its way; a file, or a write on its way, that no
holder stands behind has a delete coming for it. Each lemma is one event.

Key definitions: `Place`, `Settles`.
Key theorems: `Settles.leave`, `Settles.arrive`, `Settles.stamp`,
`Settles.save`, `Settles.spare`, `Settles.unlink`, `Settles.forget`,
`Settles.settled`.
-/
import Mathlib.Tactic.Linarith

namespace Logmon
namespace Lib

/-- One place as its events see it: who holds it, the readings of the deletes
to come, whether a write is still to be numbered, the numbered writes not yet
saved, who wrote the file and the number it was saved under. -/
structure Place where
  live : ℕ → Prop
  doomed : ℕ → Prop
  owed : Prop
  stamped : ℕ → ℕ → Prop
  file : Option ℕ
  last : ℕ

/-- What holds at a place when the clock reads `now`. -/
structure Settles (now : ℕ) (v : Place) : Prop where
  durable : (∃ id, v.live id) → v.owed ∨
    (∃ id st, v.stamped id st ∧ v.live id ∧ ∀ x, v.doomed x → x < st) ∨
    ((∀ id st, ¬ v.stamped id st) ∧ ∃ id, v.file = some id ∧ v.live id ∧ ∀ x, v.doomed x → x < v.last)
  owned : ∀ id, v.file = some id → v.live id ∨ ∃ x, v.doomed x ∧ v.last ≤ x
  decided : ∀ id st, v.stamped id st → v.live id ∨ ∃ x, v.doomed x ∧ st ≤ x
  doomed_le : ∀ x, v.doomed x → x ≤ now
  stamped_le : ∀ id st, v.stamped id st → st ≤ now
  last_le : v.last ≤ now

namespace Settles

variable {now : ℕ} {v v' : Place}

/-- An event elsewhere, or one that only keeps what was owed. -/
theorem keep {now' : ℕ} (h : Settles now v) (hnow : now ≤ now') (hlive : ∀ id, v'.live id ↔ v.live id)
    (hdoomed : ∀ x, v'.doomed x ↔ v.doomed x) (howed : v.owed → v'.owed ∨ ∀ id, ¬ v'.live id)
    (hstamped : ∀ id st, v'.stamped id st ↔ v.stamped id st) (hfile : v'.file = v.file) (hlast : v'.last = v.last) :
    Settles now' v' := by
  refine ⟨fun hl => ?_, fun id hf => ?_, fun id st hs => ?_, fun x hx => ?_, fun id st hs => ?_, ?_⟩
  · obtain ⟨id, hid⟩ := hl
    rcases h.durable ⟨id, (hlive id).mp hid⟩ with ho | ⟨id', st, hs, hl, hd⟩ | ⟨hn, id', hf, hl, hd⟩
    · rcases howed ho with ho | hnone
      · exact .inl ho
      · exact absurd hid (hnone id)
    · exact .inr (.inl ⟨id', st, (hstamped _ _).mpr hs, (hlive _).mpr hl, fun x hx => hd x ((hdoomed x).mp hx)⟩)
    · refine .inr (.inr ⟨fun id st hs => hn id st ((hstamped _ _).mp hs), id', hfile.trans hf, (hlive _).mpr hl, ?_⟩)
      intro x hx
      rw [hlast]
      exact hd x ((hdoomed x).mp hx)
  · rcases h.owned id (hfile ▸ hf) with hl | ⟨x, hx, hle⟩
    · exact .inl ((hlive id).mpr hl)
    · exact .inr ⟨x, (hdoomed x).mpr hx, hlast ▸ hle⟩
  · rcases h.decided id st ((hstamped _ _).mp hs) with hl | ⟨x, hx, hle⟩
    · exact .inl ((hlive id).mpr hl)
    · exact .inr ⟨x, (hdoomed x).mpr hx, hle⟩
  · exact Nat.le_trans (h.doomed_le x ((hdoomed x).mp hx)) hnow
  · exact Nat.le_trans (h.stamped_le id st ((hstamped _ _).mp hs)) hnow
  · exact hlast ▸ Nat.le_trans h.last_le hnow

/-- Every holder leaves, and the delete it leaves behind bears the clock. -/
theorem leave (h : Settles now v) (hlive : ∀ id, ¬ v'.live id) (hmono : ∀ x, v.doomed x → v'.doomed x)
    (hnew : ∀ x, v'.doomed x → v.doomed x ∨ x = now) (hbehind : ∀ id, v.live id → v'.doomed now)
    (hstamped : ∀ id st, v'.stamped id st ↔ v.stamped id st) (hfile : v'.file = v.file) (hlast : v'.last = v.last) :
    Settles now v' := by
  refine ⟨fun ⟨id, hid⟩ => absurd hid (hlive id), fun id hf => ?_, fun id st hs => ?_, fun x hx => ?_,
    fun id st hs => h.stamped_le id st ((hstamped _ _).mp hs), hlast ▸ h.last_le⟩
  · rcases h.owned id (hfile ▸ hf) with hl | ⟨x, hx, hle⟩
    · exact .inr ⟨now, hbehind id hl, hlast ▸ h.last_le⟩
    · exact .inr ⟨x, hmono x hx, hlast ▸ hle⟩
  · have hs' := (hstamped _ _).mp hs
    rcases h.decided id st hs' with hl | ⟨x, hx, hle⟩
    · exact .inr ⟨now, hbehind id hl, h.stamped_le id st hs'⟩
    · exact .inr ⟨x, hmono x hx, hle⟩
  · rcases hnew x hx with hx | rfl
    · exact h.doomed_le x hx
    · exact Nat.le_refl _

/-- A holder arrives, and with it a write. -/
theorem arrive (h : Settles now v) (hlive : ∀ id, v.live id → v'.live id) (howed : v'.owed)
    (hdoomed : ∀ x, v'.doomed x ↔ v.doomed x) (hstamped : ∀ id st, v'.stamped id st ↔ v.stamped id st)
    (hfile : v'.file = v.file) (hlast : v'.last = v.last) : Settles now v' := by
  refine ⟨fun _ => .inl howed, fun id hf => ?_, fun id st hs => ?_, fun x hx => h.doomed_le x ((hdoomed x).mp hx),
    fun id st hs => h.stamped_le id st ((hstamped _ _).mp hs), hlast ▸ h.last_le⟩
  · rcases h.owned id (hfile ▸ hf) with hl | ⟨x, hx, hle⟩
    · exact .inl (hlive id hl)
    · exact .inr ⟨x, (hdoomed x).mpr hx, hlast ▸ hle⟩
  · rcases h.decided id st ((hstamped _ _).mp hs) with hl | ⟨x, hx, hle⟩
    · exact .inl (hlive id hl)
    · exact .inr ⟨x, (hdoomed x).mpr hx, hle⟩

/-- A write of a holder is numbered: it is ordered after every delete decided
so far. -/
theorem stamp {a : ℕ} (h : Settles now v) (hid : v.live a) (hlive : ∀ id, v'.live id ↔ v.live id)
    (hdoomed : ∀ x, v'.doomed x ↔ v.doomed x)
    (hstamped : ∀ id' st, v'.stamped id' st ↔ v.stamped id' st ∨ (id' = a ∧ st = now + 1))
    (hfile : v'.file = v.file) (hlast : v'.last = v.last) : Settles (now + 1) v' := by
  refine ⟨fun _ => .inr (.inl ⟨a, now + 1, (hstamped _ _).mpr (.inr ⟨rfl, rfl⟩), (hlive a).mpr hid, ?_⟩),
    fun id hf => ?_, fun id' st hs => ?_, fun x hx => ?_, fun id' st hs => ?_, ?_⟩
  · intro x hx
    exact Nat.lt_succ_of_le (h.doomed_le x ((hdoomed x).mp hx))
  · rcases h.owned id (hfile ▸ hf) with hl | ⟨x, hx, hle⟩
    · exact .inl ((hlive id).mpr hl)
    · exact .inr ⟨x, (hdoomed x).mpr hx, hlast ▸ hle⟩
  · rcases (hstamped _ _).mp hs with hs | ⟨rfl, rfl⟩
    · rcases h.decided id' st hs with hl | ⟨x, hx, hle⟩
      · exact .inl ((hlive id').mpr hl)
      · exact .inr ⟨x, (hdoomed x).mpr hx, hle⟩
    · exact .inl ((hlive id').mpr hid)
  · exact Nat.le_succ_of_le (h.doomed_le x ((hdoomed x).mp hx))
  · rcases (hstamped _ _).mp hs with hs | ⟨rfl, rfl⟩
    · exact Nat.le_succ_of_le (h.stamped_le id' st hs)
    · exact Nat.le_refl _
  · exact Nat.le_succ_of_le (hlast ▸ h.last_le)

/-- The one numbered write of the place is saved. -/
theorem save {a k : ℕ} (h : Settles now v) (hs : v.stamped a k)
    (huniq : ∀ id' st', v.stamped id' st' → id' = a ∧ st' = k) (hlive : ∀ id, v'.live id ↔ v.live id)
    (hdoomed : ∀ x, v'.doomed x ↔ v.doomed x) (howed : v.owed → v'.owed) (hstamped : ∀ id st, ¬ v'.stamped id st)
    (hfile : v'.file = some a) (hlast : v'.last = k) : Settles now v' := by
  refine ⟨fun hl => ?_, fun id' hf => ?_, fun id' st' hs' => absurd hs' (hstamped _ _),
    fun x hx => h.doomed_le x ((hdoomed x).mp hx), fun id' st' hs' => absurd hs' (hstamped _ _), ?_⟩
  · obtain ⟨id1, h1⟩ := hl
    rcases h.durable ⟨id1, (hlive _).mp h1⟩ with ho | ⟨id', st', hs', hl, hd⟩ | ⟨hn, _⟩
    · exact .inl (howed ho)
    · obtain ⟨rfl, rfl⟩ := huniq _ _ hs'
      refine .inr (.inr ⟨hstamped, id', hfile, (hlive _).mpr hl, fun x hx => ?_⟩)
      rw [hlast]
      exact hd x ((hdoomed x).mp hx)
    · exact absurd hs (hn a k)
  · obtain rfl : a = id' := Option.some.inj (hfile.symm.trans hf)
    rcases h.decided a k hs with hl | ⟨x, hx, hle⟩
    · exact .inl ((hlive _).mpr hl)
    · exact .inr ⟨x, (hdoomed x).mpr hx, hlast ▸ hle⟩
  · exact hlast ▸ h.stamped_le a k hs

/-- A delete finds a write numbered after it, and removes nothing. -/
theorem spare {k : ℕ} (h : Settles now v) (hlt : k < v.last) (hnone : ∀ id st, ¬ v.stamped id st)
    (hlive : ∀ id, v'.live id ↔ v.live id) (hsub : ∀ x, v'.doomed x → v.doomed x)
    (hrest : ∀ x, v.doomed x → v'.doomed x ∨ x = k) (howed : v.owed → v'.owed)
    (hstamped : ∀ id st, v'.stamped id st ↔ v.stamped id st) (hfile : v'.file = v.file) (hlast : v'.last = v.last) :
    Settles now v' := by
  refine ⟨fun hl => ?_, fun id hf => ?_, fun id st hs => absurd ((hstamped _ _).mp hs) (hnone _ _),
    fun x hx => h.doomed_le x (hsub x hx), fun id st hs => h.stamped_le id st ((hstamped _ _).mp hs),
    hlast ▸ h.last_le⟩
  · obtain ⟨id1, h1⟩ := hl
    rcases h.durable ⟨id1, (hlive _).mp h1⟩ with ho | ⟨id', st', hs', _⟩ | ⟨hn, id', hf, hl, hd⟩
    · exact .inl (howed ho)
    · exact absurd hs' (hnone _ _)
    · refine .inr (.inr ⟨fun id st hs => hn id st ((hstamped _ _).mp hs), id', hfile.trans hf, (hlive _).mpr hl, ?_⟩)
      intro x hx
      rw [hlast]
      exact hd x (hsub x hx)
  · rcases h.owned id (hfile ▸ hf) with hl | ⟨x, hx, hle⟩
    · exact .inl ((hlive id).mpr hl)
    · rcases hrest x hx with hx' | rfl
      · exact .inr ⟨x, hx', hlast ▸ hle⟩
      · exact absurd hlt (Nat.not_lt.mpr hle)

/-- A delete that no write is numbered after removes the file. -/
theorem unlink {k : ℕ} (h : Settles now v) (hk : v.doomed k) (hle : v.last ≤ k)
    (hnone : ∀ id st, ¬ v.stamped id st) (hlive : ∀ id, v'.live id ↔ v.live id)
    (hsub : ∀ x, v'.doomed x → v.doomed x) (howed : v.owed → v'.owed)
    (hstamped : ∀ id st, v'.stamped id st ↔ v.stamped id st) (hfile : v'.file = none) (hlast : v'.last = v.last) :
    Settles now v' := by
  refine ⟨fun hl => ?_, fun id hf => absurd (hfile.symm.trans hf) (by simp),
    fun id st hs => absurd ((hstamped _ _).mp hs) (hnone _ _), fun x hx => h.doomed_le x (hsub x hx),
    fun id st hs => h.stamped_le id st ((hstamped _ _).mp hs), hlast ▸ h.last_le⟩
  obtain ⟨id1, h1⟩ := hl
  rcases h.durable ⟨id1, (hlive _).mp h1⟩ with ho | ⟨id', st', hs', _⟩ | ⟨_, _, _, _, hd⟩
  · exact .inl (howed ho)
  · exact absurd hs' (hnone _ _)
  · exact absurd (hd k hk) (Nat.not_lt.mpr hle)

/-- The number of the last write is forgotten, where there is no file or none
was numbered. -/
theorem forget (h : Settles now v) (hsafe : v.file = none ∨ v.last = 0) (hlive : ∀ id, v'.live id ↔ v.live id)
    (hdoomed : ∀ x, v'.doomed x ↔ v.doomed x) (howed : v.owed → v'.owed)
    (hstamped : ∀ id st, v'.stamped id st ↔ v.stamped id st) (hfile : v'.file = v.file) (hlast : v'.last = 0) :
    Settles now v' := by
  rcases hsafe with hnone | hzero
  · refine ⟨fun hl => ?_, fun id hf => absurd (hfile.symm.trans hf) (by simp [hnone]), fun id st hs => ?_,
      fun x hx => h.doomed_le x ((hdoomed x).mp hx), fun id st hs => h.stamped_le id st ((hstamped _ _).mp hs), ?_⟩
    · obtain ⟨id1, h1⟩ := hl
      rcases h.durable ⟨id1, (hlive _).mp h1⟩ with ho | ⟨id', st', hs', hl, hd⟩ | ⟨_, id', hf, _⟩
      · exact .inl (howed ho)
      · exact .inr (.inl ⟨id', st', (hstamped _ _).mpr hs', (hlive _).mpr hl, fun x hx => hd x ((hdoomed x).mp hx)⟩)
      · exact absurd (hnone.symm.trans hf) (by simp)
    · rcases h.decided id st ((hstamped _ _).mp hs) with hl | ⟨x, hx, hle⟩
      · exact .inl ((hlive id).mpr hl)
      · exact .inr ⟨x, (hdoomed x).mpr hx, hle⟩
    · exact hlast ▸ Nat.zero_le now
  · exact h.keep (Nat.le_refl _) hlive hdoomed (fun ho => .inl (howed ho)) hstamped hfile (hlast.trans hzero.symm)

/-- **With nothing to come, a place is held exactly when it has a file, and a
holder wrote it.** -/
theorem settled (h : Settles now v) (howed : ¬ v.owed) (hdoomed : ∀ x, ¬ v.doomed x)
    (hstamped : ∀ id st, ¬ v.stamped id st) :
    (v.file.isSome ↔ ∃ id, v.live id) ∧ ∀ id, v.file = some id → v.live id := by
  have howned : ∀ id, v.file = some id → v.live id := fun id hf =>
    (h.owned id hf).resolve_right fun ⟨x, hx, _⟩ => hdoomed x hx
  refine ⟨⟨fun hf => ?_, fun hl => ?_⟩, howned⟩
  · obtain ⟨id, hid⟩ := Option.isSome_iff_exists.mp hf
    exact ⟨id, howned id hid⟩
  · rcases h.durable hl with ho | ⟨id, st, hs, _⟩ | ⟨_, id, hf, _⟩
    · exact absurd ho howed
    · exact absurd hs (hstamped id st)
    · rw [hf]
      rfl

end Settles

end Lib
end Logmon
