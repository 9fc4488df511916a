/-
# The locks of the file ledger

A path's lock is cloned, acquired, released, dropped and forgotten by many
calls at once, and a path may have had several locks. What holds in every
state: a call at work on a path has the lock that the map has for it
(`Locks.entry`), and a lock has one holder (`Locks.mutex`); so two calls are
never at work on one path (`Locks.exclusive`).

Key definitions: `Hold.mutex?`, `Call.engaged`, `Sys.Locks`.
Key theorems: `Sys.Locks.step`, `Sys.Locks.exclusive`.
-/
import Logmon.Collector.Calls
import Logmon.Lib.Slot

namespace Logmon

open Lib

variable {W Span P : Type}

/-- The lock a call holds. -/
def Hold.mutex? : Hold P → Option ℕ
  | .held l => some l
  | .stamped l _ => some l
  | .forgetting l _ => some l
  | .leaving l => some l
  | _ => Option.none

theorem Hold.lock?_of_mutex? {h : Hold P} {l : ℕ} (hm : h.mutex? = some l) : h.lock? = some l := by
  cases h <;> simp_all [mutex?, lock?]

/-- The lock a call has for the path it works on, from the clone to the last
use of the path. -/
def Call.engaged (path : String → String → P) (c : Call W P) : Option (ℕ × P) :=
  match c.hold, c.tasks with
  | .waiting l, t :: _ => (Sys.jobPath path t).map (l, ·)
  | .held l, t :: _ => (Sys.jobPath path t).map (l, ·)
  | .stamped l _, t :: _ => (Sys.jobPath path t).map (l, ·)
  | .forgetting l p, _ => some (l, p)
  | _, _ => none

theorem Call.lock?_of_engaged {path : String → String → P} {c : Call W P} {l : ℕ} {p : P}
    (h : c.engaged path = some (l, p)) : c.hold.lock? = some l := by
  obtain ⟨tasks, hold⟩ := c
  cases hold <;> cases tasks <;> simp_all [engaged, Hold.lock?]

/-- Two slots after a write, by whether they are the written one. -/
theorem Call.mutex_set {l : List (Call W P)} {i : ℕ} {c c' : Call W P} (hi : l[i]? = some c) {Q : ℕ → Prop}
    (hold : ∀ (j k : ℕ) (d e : Call W P) (m : ℕ), l[j]? = some d → l[k]? = some e → d.hold.mutex? = some m →
      e.hold.mutex? = some m → j = k)
    (hnew : ∀ m, c'.hold.mutex? = some m → Q m)
    (hne : ∀ (j : ℕ) (d : Call W P) (m : ℕ), j ≠ i → l[j]? = some d → d.hold.mutex? = some m → ¬ Q m) :
    ∀ (j k : ℕ) (d e : Call W P) (m : ℕ), (l.set i c')[j]? = some d → (l.set i c')[k]? = some e → d.hold.mutex? = some m →
      e.hold.mutex? = some m → j = k := by
  intro j k d e m hj hk hdm hem
  by_cases hji : j = i
  · by_cases hki : k = i
    · rw [hji, hki]
    · rw [hji, getElem?_set_self' hi] at hj
      rw [List.getElem?_set_ne (Ne.symm hki)] at hk
      obtain rfl := Option.some.inj hj
      exact absurd (hnew m hdm) (hne k e m hki hk hem)
  · rw [List.getElem?_set_ne (Ne.symm hji)] at hj
    by_cases hki : k = i
    · rw [hki, getElem?_set_self' hi] at hk
      obtain rfl := Option.some.inj hk
      exact absurd (hnew m hem) (hne j d m hji hj hdm)
    · rw [List.getElem?_set_ne (Ne.symm hki)] at hk
      exact hold j k d e m hj hk hdm hem

namespace Sys

variable [DecidableEq P] {path : String → String → P} {env : CollectorEnv W Span} {s s' : Sys W P}

/-- What holds of the locks in every state. -/
structure Locks (path : String → String → P) (s : Sys W P) : Prop where
  entry : ∀ c ∈ s.calls, ∀ l p, c.engaged path = some (l, p) → s.paths.get? p = some l
  bound : ∀ p l, s.paths.get? p = some l → l < s.nextLock
  clones : ∀ c ∈ s.calls, ∀ l, c.hold.lock? = some l → l < s.nextLock
  inj : ∀ p q l, s.paths.get? p = some l → s.paths.get? q = some l → p = q
  mutex : ∀ (i j : ℕ) (c d : Call W P) (l : ℕ), s.calls[i]? = some c → s.calls[j]? = some d → c.hold.mutex? = some l →
    d.hold.mutex? = some l → i = j
  busy : ∀ c ∈ s.calls, ∀ l, c.hold.mutex? = some l → s.busy l = true

namespace Locks

theorem start (reg : CollectorRegistry W) (metrics : ℕ → ReceiverMetrics) (disk : P → Option (DiskFile W)) :
    Locks path (Sys.start reg metrics disk) := by
  refine ⟨?_, ?_, ?_, ?_, ?_, ?_⟩ <;> simp [Sys.start]

/-- **Two calls are never at work on one path.** -/
theorem exclusive (h : Locks path s) {i j l l' : ℕ} {c d : Call W P} {p : P} (hi : s.calls[i]? = some c)
    (hj : s.calls[j]? = some d) (hc : c.engaged path = some (l, p)) (hd : d.engaged path = some (l', p))
    (hcm : c.hold.mutex? = some l) (hdm : d.hold.mutex? = some l') : i = j := by
  have h1 := h.entry c (List.mem_of_getElem? hi) l p hc
  have h2 := h.entry d (List.mem_of_getElem? hj) l' p hd
  obtain rfl : l = l' := Option.some.inj (h1.symm.trans h2)
  exact h.mutex i j c d l hi hj hcm hdm

variable {i : ℕ} {c c' : Call W P}

/-- A step that neither acquires nor releases a lock, nor changes the map. -/
theorem update (h : Locks path s) (hi : s.calls[i]? = some c) (hcalls : s'.calls = s.calls.set i c')
    (hpaths : s'.paths = s.paths) (hnext : s'.nextLock = s.nextLock) (hbusy : s'.busy = s.busy)
    (hentry : ∀ l p, c'.engaged path = some (l, p) → s.paths.get? p = some l)
    (hclone : ∀ l, c'.hold.lock? = some l → l < s.nextLock)
    (hmutex : ∀ l, c'.hold.mutex? = some l → c.hold.mutex? = some l) : Locks path s' := by
  have hmem := List.mem_of_getElem? hi
  refine ⟨?_, ?_, ?_, ?_, ?_, ?_⟩
  · rw [hcalls, hpaths]
    exact forall_set h.entry hentry
  · rw [hpaths, hnext]
    exact h.bound
  · rw [hcalls, hnext]
    exact forall_set h.clones hclone
  · rw [hpaths]
    exact h.inj
  · rw [hcalls]
    refine Call.mutex_set (Q := fun m => c.hold.mutex? = some m) hi h.mutex hmutex ?_
    intro j d m hj hd hdm hcm
    exact hj (h.mutex j i d c m hd hi hdm hcm)
  · rw [hcalls, hbusy]
    exact forall_set h.busy fun l hl => h.busy c hmem l (hmutex l hl)

/-- Cloning a path's lock, made first when the path has none. -/
theorem pathLock (h : Locks path s) {t : Task W} {rest : List (Task W)} {p : P}
    (hi : s.calls[i]? = some ⟨t :: rest, .none⟩) (hp : jobPath path t = some p) :
    Locks path (s.pathLock i (t :: rest) p) := by
  unfold Sys.pathLock
  split
  · rename_i l hl
    refine h.update hi rfl rfl rfl rfl ?_ ?_ (by simp [Hold.mutex?])
    · intro l' p' hc
      simp only [Call.engaged, hp, Option.map_some, Option.some.injEq, Prod.mk.injEq] at hc
      rw [← hc.1, ← hc.2]
      exact hl
    · intro l' hc
      simp only [Hold.lock?, Option.some.injEq] at hc
      exact hc ▸ h.bound p l hl
  · rename_i hnone
    have hlt : ∀ q l, s.paths.get? q = some l → q ≠ p := by
      intro q l hq hqp
      rw [hqp, hnone] at hq
      simp at hq
    refine ⟨?_, ?_, ?_, ?_, ?_, ?_⟩
    · refine forall_set (fun d hd l q hc => ?_) (fun l q hc => ?_)
      · have := h.entry d hd l q hc
        rw [FMap.get?_insert, if_neg (hlt q l this)]
        exact this
      · simp only [Call.engaged, hp, Option.map_some, Option.some.injEq, Prod.mk.injEq] at hc
        rw [FMap.get?_insert, if_pos hc.2.symm, hc.1]
    · intro q l hq
      rw [FMap.get?_insert] at hq
      split at hq
      · simp only [Option.some.injEq] at hq
        exact hq ▸ Nat.lt_succ_self _
      · exact Nat.lt_succ_of_lt (h.bound q l hq)
    · refine forall_set (fun d hd l hl => Nat.lt_succ_of_lt (h.clones d hd l hl)) (fun l hl => ?_)
      simp only [Hold.lock?, Option.some.injEq] at hl
      exact hl ▸ Nat.lt_succ_self _
    · intro q q' l hq hq'
      rw [FMap.get?_insert] at hq hq'
      split at hq <;> split at hq'
      · rename_i h1 h2
        rw [h1, h2]
      · rw [← Option.some.inj hq] at hq'
        exact absurd (h.bound q' _ hq') (Nat.lt_irrefl _)
      · rw [← Option.some.inj hq'] at hq
        exact absurd (h.bound q _ hq) (Nat.lt_irrefl _)
      · exact h.inj q q' l hq hq'
    · refine Call.mutex_set (Q := fun _ => False) hi h.mutex (by simp [Hold.mutex?]) (fun _ _ _ _ _ _ hf => hf)
    · refine forall_set (fun d hd l hl => ?_) (by simp [Hold.mutex?])
      have hb := h.busy d hd l hl
      have hne : l ≠ s.nextLock := Nat.ne_of_lt (h.clones d hd l (Hold.lock?_of_mutex? hl))
      simpa [Function.update_of_ne hne] using hb

/-- Acquiring a lock nobody holds. -/
theorem acquire (h : Locks path s) {tasks : List (Task W)} {l : ℕ} (hi : s.calls[i]? = some ⟨tasks, .waiting l⟩)
    (hfree : s.busy l = false) :
    Locks path { s with busy := Function.update s.busy l true, calls := s.calls.set i ⟨tasks, .held l⟩ } := by
  have hmem := List.mem_of_getElem? hi
  refine ⟨?_, h.bound, ?_, h.inj, ?_, ?_⟩
  · refine forall_set h.entry fun l' p hc => h.entry _ hmem l' p ?_
    cases tasks with
    | nil => simp [Call.engaged] at hc
    | cons t rest => exact hc
  · exact forall_set h.clones fun l' hl => h.clones _ hmem l' hl
  · refine Call.mutex_set (Q := fun m => m = l) hi h.mutex (fun m hm => by simpa [Hold.mutex?, eq_comm] using hm) ?_
    intro j d m _ hd hdm hml
    have := h.busy d (List.mem_of_getElem? hd) m hdm
    rw [hml, hfree] at this
    simp at this
  · refine forall_set (fun d hd m hm => ?_) (fun m hm => ?_)
    · have := h.busy d hd m hm
      by_cases hml : m = l
      · simp [hml]
      · simpa [Function.update_of_ne hml] using this
    · obtain rfl : l = m := by simpa [Hold.mutex?] using hm
      simp

/-- Forgetting a path's entry, which only its holder then has a clone of. -/
theorem forget (h : Locks path s) {tasks : List (Task W)} {l : ℕ} {p : P}
    (hi : s.calls[i]? = some ⟨tasks, .forgetting l p⟩) : Locks path (s.forget i l tasks p) := by
  have hmem := List.mem_of_getElem? hi
  have hp : s.paths.get? p = some l := h.entry _ hmem l p rfl
  unfold Sys.forget
  by_cases hcount : s.strongCount l = 2
  · rw [if_pos hcount]
    have hsub : ∀ q m, (s.paths.erase p).get? q = some m → s.paths.get? q = some m := by
      intro q m hq
      rw [FMap.get?_erase] at hq
      split at hq
      · simp at hq
      · exact hq
    -- the map and the forgetting call are the two clones
    have honly : ∀ j d, j ≠ i → s.calls[j]? = some d → d.hold.lock? ≠ some l := by
      intro j d hj hd hdl
      have h2 := two_le_countP (p := fun c : Call W P => decide (c.hold.lock? = some l)) hj hd hi
        (by simpa using hdl) (by simp [Hold.lock?])
      have h1 : 0 < s.paths.entries.countP fun q => q.2 = l :=
        List.countP_pos_iff.mpr ⟨(p, l), FMap.mem_iff.mpr hp, by simp⟩
      unfold strongCount at hcount
      omega
    refine ⟨?_, fun q m hq => h.bound q m (hsub q m hq), ?_, fun q q' m hq hq' =>
      h.inj q q' m (hsub q m hq) (hsub q' m hq'), ?_, ?_⟩
    · intro d hd m q hc
      obtain ⟨j, hj⟩ := List.mem_iff_getElem?.mp hd
      by_cases hji : j = i
      · rw [hji, getElem?_set_self' hi] at hj
        obtain rfl := Option.some.inj hj
        simp [Call.engaged] at hc
      · rw [List.getElem?_set_ne (Ne.symm hji)] at hj
        have hq := h.entry d (List.mem_of_getElem? hj) m q hc
        have hqp : q ≠ p := by
          intro hqp
          rw [hqp, hp] at hq
          exact honly j d hji hj (by rw [Option.some.inj hq]; exact Call.lock?_of_engaged hc)
        rw [FMap.get?_erase, if_neg hqp]
        exact hq
    · exact forall_set h.clones fun m hm => h.clones _ hmem m hm
    · refine Call.mutex_set (Q := fun m => m = l) hi h.mutex (fun m hm => by simpa [Hold.mutex?, eq_comm] using hm) ?_
      intro j d m hj hd hdm hml
      exact hj (h.mutex j i d _ m hd hi hdm (by simp [Hold.mutex?, hml]))
    · exact forall_set h.busy fun m hm => h.busy _ hmem m hm
  · rw [if_neg hcount]
    exact h.update hi rfl rfl rfl rfl (by simp [Call.engaged]) (fun m hm => h.clones _ hmem m hm) (fun m hm => hm)

/-- Releasing a lock. -/
theorem release (h : Locks path s) {tasks : List (Task W)} {l : ℕ} (hi : s.calls[i]? = some ⟨tasks, .leaving l⟩) :
    Locks path { s with busy := Function.update s.busy l false, calls := s.calls.set i ⟨tasks, .dropping l⟩ } := by
  have hmem := List.mem_of_getElem? hi
  refine ⟨?_, h.bound, ?_, h.inj, ?_, ?_⟩
  · exact forall_set h.entry (by simp [Call.engaged])
  · exact forall_set h.clones fun m hm => h.clones _ hmem m hm
  · exact Call.mutex_set (Q := fun _ => False) hi h.mutex (by simp [Hold.mutex?]) (fun _ _ _ _ _ _ hf => hf)
  · intro d hd m hm
    obtain ⟨j, hj⟩ := List.mem_iff_getElem?.mp hd
    by_cases hji : j = i
    · rw [hji, getElem?_set_self' hi] at hj
      obtain rfl := Option.some.inj hj
      simp [Hold.mutex?] at hm
    · rw [List.getElem?_set_ne (Ne.symm hji)] at hj
      have hne : m ≠ l := by
        intro hml
        exact hji (h.mutex j i d _ m hj hi hm (by simp [Hold.mutex?, hml]))
      simpa [Function.update_of_ne hne] using h.busy d (List.mem_of_getElem? hj) m hm

/-- A new call has no lock. -/
theorem call (h : Locks path s) (t : Task W) :
    Locks path { s with calls := s.calls ++ [⟨[t], .none⟩] } := by
  have hmem : ∀ d ∈ s.calls ++ [⟨[t], .none⟩], d ∈ s.calls ∨ d = ⟨[t], .none⟩ := by
    intro d hd
    simpa using hd
  refine ⟨fun d hd l p hc => ?_, h.bound, fun d hd l hl => ?_, h.inj, fun j k d e m hj hk hd he => ?_,
    fun d hd l hl => ?_⟩
  · rcases hmem d hd with hd | rfl
    · exact h.entry d hd l p hc
    · simp [Call.engaged] at hc
  · rcases hmem d hd with hd | rfl
    · exact h.clones d hd l hl
    · simp [Hold.lock?] at hl
  · have hin : ∀ {j : ℕ} {d : Call W P}, (s.calls ++ [⟨[t], .none⟩])[j]? = some d → d.hold.mutex? = some m →
        s.calls[j]? = some d := by
      intro j d hj hd
      rw [List.getElem?_append] at hj
      split at hj
      · exact hj
      · have := List.mem_of_getElem? hj
        obtain rfl := List.mem_singleton.mp this
        simp [Hold.mutex?] at hd
    exact h.mutex j k d e m (hin hj hd) (hin hk he) hd he
  · rcases hmem d hd with hd | rfl
    · exact h.busy d hd l hl
    · simp [Hold.mutex?] at hl

/-- **Every step keeps the locks.** -/
theorem step (h : Locks path s) {a : Action Span} (hs : s.step path env a = some s') : Locks path s' := by
  rcases step_cases path hs with ⟨req, _, rfl⟩ | ⟨i, ok, c, _, hi, hstep⟩ | ⟨m, k, t, _, rfl⟩ | ⟨d, sp, _, rfl⟩
  · exact h.call req.task
  · have hmem := List.mem_of_getElem? hi
    cases hstep with
    | locked => exact h.update hi rfl rfl rfl rfl (by simp [Call.engaged]) (by simp [Hold.lock?]) (by simp [Hold.mutex?])
    | lock hp => exact h.pathLock hi hp
    | acquire hfree => exact h.acquire hi hfree
    | decideWrite =>
      rename_i l id file rest
      have hp := h.entry _ hmem l (path file.owner file.name) rfl
      have hl := h.clones _ hmem l rfl
      unfold writeDecide
      split
      · exact h.update hi rfl rfl rfl rfl (fun l' p hc => h.entry _ hmem l' p hc) (fun m hm => h.clones _ hmem m hm)
          (fun m hm => hm)
      · refine h.update hi rfl rfl rfl rfl (fun l' p hc => ?_) (fun m hm => ?_) (fun m hm => ?_)
        · split at hc
          · simp only [Call.engaged, Option.some.injEq, Prod.mk.injEq] at hc
            rw [← hc.1, ← hc.2]
            exact hp
          · simp [Call.engaged] at hc
        · split at hm <;> (simp only [Hold.lock?, Option.some.injEq] at hm; exact hm ▸ hl)
        · split at hm <;> exact hm
    | decideDelete =>
      rename_i l since owner name rest
      have hp := h.entry _ hmem l (path owner.text name) rfl
      have hleave : Locks path (s.setCall i rest (.leaving l)) :=
        h.update hi rfl rfl rfl rfl (by simp [Call.engaged]) (fun m hm => h.clones _ hmem m hm) (fun m hm => hm)
      unfold deleteDecide
      split
      · exact hleave
      · split
        · refine h.update hi rfl rfl rfl rfl (fun l' p hc => ?_) (fun m hm => h.clones _ hmem m hm) (fun m hm => hm)
          simp only [Call.engaged, Option.some.injEq, Prod.mk.injEq] at hc
          rw [← hc.1, ← hc.2]
          exact hp
        · exact hleave
    | save =>
      unfold writeSave
      split <;> exact h.update hi rfl rfl rfl rfl (by simp [Call.engaged]) (fun m hm => h.clones _ hmem m hm)
        (fun m hm => hm)
    | forget => exact h.forget hi
    | release => exact h.release hi
    | drop => exact h.update hi rfl rfl rfl rfl (by simp [Call.engaged]) (by simp [Hold.lock?]) (by simp [Hold.mutex?])
  · exact ⟨h.entry, h.bound, h.clones, h.inj, h.mutex, h.busy⟩
  · exact ⟨h.entry, h.bound, h.clones, h.inj, h.mutex, h.busy⟩

end Locks

end Sys

end Logmon
