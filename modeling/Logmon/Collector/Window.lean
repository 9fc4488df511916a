/-
# A live window, its definition and its domain

A span is offered to a collector under the registry's lock, and counted if it
arrived on the domain the collector is pinned to and its filter matches it.
What is counted then describes the collector only as long as the pin and the
filter stay: `edit` begins a fresh window when the filter changes, and re-pins
a collector that keeps its window only while that is empty. It checks this
under one lock and applies the edit under another, with nothing checked again,
so a span counted in between stays in the window of a collector that is then
pinned elsewhere (`window_outlives_pin`). Along every run in which an edit that
keeps the window finds it empty, or leaves the pin and the filter as it finds
them, every window agrees with its collector (`windows_agree`). An edit that
nothing comes between does (`keepsWindow_of_check`).

Here a window is the spans its exact tier counts, `total.count` of them, each
with the domain it arrived on.

Key definitions: `CollectorEnv.recording`, `Entry.Agrees`, `Sys.keepsWindow`.
Key theorems: `Sys.Agreeing.step`, `windows_agree`, `window_outlives_pin`.
-/
import Logmon.Collector.Entries
import Logmon.Lib.Reach

namespace Logmon

open Lib CollectorRegistry

variable {Span P : Type}

/-- Windows that keep the spans they count, newest first, and where each
arrived. -/
def CollectorEnv.recording (parseFilter : String → Except String ParsedFilter)
    (matchesSpan : ParsedFilter → Span → Bool) : CollectorEnv (List (DomainId × Span)) (DomainId × Span) where
  parseFilter
  fresh _ := []
  count := List.length
  count_fresh _ := rfl
  matchesSpan f sp := matchesSpan f sp.2
  ingest _ sp w := sp :: w

/-- Every span counted arrived on the pinned domain and matches the
filter. -/
def Entry.Agrees (matchesSpan : ParsedFilter → Span → Bool) (e : Entry (List (DomainId × Span))) : Prop :=
  ∀ sp ∈ e.collector.window, sp.1 = e.domain ∧ matchesSpan e.collector.defn.filter sp.2 = true

namespace Sys

/-- A span that arrives carries the domain it arrives on. -/
def Action.stamp : Action Span → Action (DomainId × Span)
  | .call req => .call req
  | .step i ok => .step i ok
  | .lose m k t => .lose m k t
  | .span d sp => .span d (d, sp)

/-- An edit that keeps the window finds it empty, or leaves the pin and the
filter as it finds them. -/
def keepsWindow {W : Type} (env : CollectorEnv W Span) (r : CollectorRegistry W) (p : PendingEdit W) : Bool :=
  (r.entries.find? (Entry.isHeld p.id p.owner)).all fun e =>
    p.structural || e.collector.isZeroed env ||
      (e.domain == p.targetDomain && e.collector.defn.filter == p.defn.filter)

/-- What the next step applies, if it applies an edit. -/
def applying {W : Type} (s : Sys W P) : Action Span → Option (PendingEdit W)
  | .step i _ =>
    match s.calls[i]? with
    | some ⟨.editApply p :: _, .none⟩ => some p
    | _ => none
  | _ => none

/-- Every edit applied keeps no window that it would contradict. -/
def windowsKept {W : Type} (env : CollectorEnv W Span) (s : Sys W P) (a : Action Span) : Bool :=
  (s.applying a).all (keepsWindow env s.reg)

/-! ### One step -/

variable {parseFilter : String → Except String ParsedFilter} {matchesSpan : ParsedFilter → Span → Bool}
  {s s' : Sys (List (DomainId × Span)) P}

/-- What holds in every state of a run. -/
structure Agreeing (matchesSpan : ParsedFilter → Span → Bool) (s : Sys (List (DomainId × Span)) P) : Prop where
  known : Known s
  agree : ∀ e ∈ s.reg.entries, e.Agrees matchesSpan

/-- The edited entry agrees where the edit keeps no window it contradicts. -/
theorem edited_agrees (loss : ℕ → TraceIngestLoss) {p : PendingEdit (List (DomainId × Span))}
    {a : Entry (List (DomainId × Span))} (ha : a.Agrees matchesSpan)
    (hkeep : p.structural = true ∨ a.collector.window = [] ∨
      (a.domain = p.targetDomain ∧ a.collector.defn.filter = p.defn.filter)) :
    (edited (.recording parseFilter matchesSpan) loss p a).Agrees matchesSpan := by
  intro sp hsp
  rw [edited_domain, edited_defn]
  unfold edited at hsp
  split at hsp
  · exact absurd hsp List.not_mem_nil
  · rename_i hst
    replace hsp : sp ∈ a.collector.window := hsp
    rcases hkeep with h | h | ⟨hdom, hfilter⟩
    · exact absurd h hst
    · rw [h] at hsp
      exact absurd hsp List.not_mem_nil
    · rw [← hdom, ← hfilter]
      exact ha sp hsp

theorem locked_agrees {t : Task (List (DomainId × Span))} (h : Agreeing matchesSpan s)
    (hgood : ∀ p, t = .editApply p → keepsWindow (.recording parseFilter matchesSpan) s.reg p = true) :
    ∀ e ∈ (s.locked (.recording parseFilter matchesSpan) t).1.entries, e.Agrees matchesSpan := by
  intro e' he'
  cases locked_became h.known.distinct he' with
  | kept e mem id defn domain window other =>
    intro sp hsp
    rw [defn, domain]
    rcases window with hw | hw
    · exact h.agree e mem sp (hw ▸ hsp)
    · rw [hw] at hsp
      exact absurd hsp List.not_mem_nil
  | armed id window =>
    intro sp hsp
    rw [window] at hsp
    exact absurd hsp List.not_mem_nil
  | edited p a task found eq =>
    rw [eq]
    have hkeep := hgood p task
    simp only [keepsWindow, found, Option.all_some, Bool.or_eq_true, Bool.and_eq_true, beq_iff_eq, or_assoc] at hkeep
    refine edited_agrees s.loss (h.agree a (List.mem_of_find?_eq_some found)) (hkeep.imp_right ?_)
    exact Or.imp_left fun hz => List.length_eq_zero_iff.mp (by simpa [Collector.isZeroed, CollectorEnv.recording] using hz)

/-- A span is counted where it arrived and where the filter matches it. -/
theorem ingestSpan_agrees {r : CollectorRegistry (List (DomainId × Span))} (h : ∀ e ∈ r.entries, e.Agrees matchesSpan)
    (d : DomainId) (sp : Span) :
    ∀ e ∈ (r.ingestSpan (.recording parseFilter matchesSpan) d (d, sp)).entries, e.Agrees matchesSpan := by
  intro e' he'
  obtain ⟨e, he, rfl⟩ := List.mem_map.mp he'
  split
  · rename_i hin
    intro x hx
    rcases List.mem_cons.mp hx with rfl | hx
    · exact ⟨hin.1.symm, hin.2⟩
    · exact h e he x hx
  · exact h e he

variable [DecidableEq P] {path : String → String → P}

/-- **A step keeps every window true to its collector** unless it applies an
edit over a window that contradicts it. -/
theorem Agreeing.step (h : Agreeing matchesSpan s) {a : Action Span}
    (hgood : s.windowsKept (.recording parseFilter matchesSpan) a.stamp = true)
    (hs : s.step path (.recording parseFilter matchesSpan) a.stamp = some s') : Agreeing matchesSpan s' := by
  refine ⟨h.known.step hs, ?_⟩
  rcases step_cases path hs with ⟨req, _, rfl⟩ | ⟨i, ok, c, ha, hi, hstep⟩ | ⟨m, k, t, _, rfl⟩ | ⟨d, sp, ha, rfl⟩
  · exact h.agree
  · rcases hstep.locked_or_quiet with ⟨t, rest, rfl, _, hreg, _⟩ | ⟨hreg, _⟩
    · rw [hreg]
      refine locked_agrees h fun p hp => ?_
      subst hp
      simpa [windowsKept, applying, ha, hi] using hgood
    · rw [hreg]
      exact h.agree
  · exact h.agree
  · cases a with
    | span d' sp' =>
      obtain ⟨rfl, rfl⟩ := Action.span.inj ha
      exact ingestSpan_agrees h.agree d' sp'
    | _ => nomatch ha

/-! ### An edit nothing comes between -/

/-- The filter of a checked edit that keeps the window is the one it read. -/
theorem editDef_filter {W : Type} {env : CollectorEnv W Span} {old defn : CollectorDef} {change : CollectorEdit}
    (h : editDef env old change = .ok defn) (hkeep : change.isStructural old = false)
    (hparsed : env.parseFilter old.filterString = .ok old.filter) : defn.filter = old.filter := by
  unfold editDef at h
  split at h
  · obtain rfl := Except.ok.inj h
    rfl
  · rename_i f hf
    have hsame : f = old.filterString := by
      simp only [CollectorEdit.isStructural, Bool.or_eq_false_iff] at hkeep
      simpa [hf] using hkeep.1.1.1.1
    rw [hsame, hparsed] at h
    obtain rfl := Except.ok.inj h
    rfl

/-- Applied where it was checked, an edit keeps no window it contradicts. -/
theorem keepsWindow_of_check {W : Type} {env : CollectorEnv W Span} {r : CollectorRegistry W} (hd : r.Distinct)
    {owner : SessionName} {name : String} {change : CollectorEdit} {newMetrics : Option ℕ} {now : ℤ}
    {p : PendingEdit W} (h : r.editCheck env owner name change newMetrics now = .ok p)
    (hparsed : ∀ e ∈ r.entries, env.parseFilter e.collector.defn.filterString = .ok e.collector.defn.filter) :
    keepsWindow env r p = true := by
  unfold keepsWindow
  cases hfind : r.entries.find? (Entry.isHeld p.id p.owner) with
  | none => rfl
  | some a =>
    obtain ⟨e, hc⟩ := editCheck_ok h
    have hmem := List.mem_of_find?_eq_some hc.found
    have haid := (Entry.isHeld_iff.mp (List.find?_some hfind)).1
    obtain rfl : a = e := hd.unique (List.mem_of_find?_eq_some hfind) hmem (haid.trans hc.id)
    simp only [Option.all_some, Bool.or_eq_true, Bool.and_eq_true, beq_iff_eq]
    cases hst : p.structural with
    | true => exact .inl (.inl rfl)
    | false =>
      have hdom := hc.domain
      rw [hst] at hdom
      unfold editDomain at hdom
      split at hdom
      · refine .inr ⟨Except.ok.inj hdom, ?_⟩
        exact (editDef_filter hc.built (hc.structural ▸ hst) (hparsed a hmem)).symm
      · split at hdom
        · simp at hdom
        · rename_i hz
          exact .inl (.inr (by simpa using hz))

end Sys

open Sys

/-- **A live window agrees with its definition and its domain** in every
state of every run, saves failing or not, in which an edit that keeps the
window finds it empty, or leaves the pin and the filter as it finds them. A
run may start with collectors armed whose windows are empty, as a restart
leaves them. -/
theorem windows_agree [DecidableEq P] (parseFilter : String → Except String ParsedFilter)
    (matchesSpan : ParsedFilter → Span → Bool) (path : String → String → P)
    (reg : CollectorRegistry (List (DomainId × Span))) (hdistinct : reg.Distinct)
    (hempty : ∀ e ∈ reg.entries, e.collector.window = []) (metrics : ℕ → ReceiverMetrics)
    (disk : P → Option (DiskFile (List (DomainId × Span)))) {s : Sys (List (DomainId × Span)) P}
    (hreach : Reach (fun s (a : Action Span) => s.step path (.recording parseFilter matchesSpan) a.stamp)
      (fun s a => s.windowsKept (.recording parseFilter matchesSpan) a.stamp = true)
      (Sys.start reg metrics disk) s) :
    ∀ e ∈ s.reg.entries, ∀ sp ∈ e.collector.window,
      sp.1 = e.domain ∧ matchesSpan e.collector.defn.filter sp.2 = true := by
  have h : Agreeing matchesSpan s := by
    refine hreach.invariant (I := Agreeing matchesSpan) ⟨.start hdistinct metrics disk, ?_⟩ ?_
    · intro e he sp hsp
      rw [hempty e he] at hsp
      exact absurd hsp List.not_mem_nil
    · intro s a s' h hgood hs
      exact h.step hgood hs
  exact h.agree

/-- Everything matches and everything parses, for the runs on fixed
inputs. -/
def recordAll : CollectorEnv (List (DomainId × Unit)) (DomainId × Unit) := .recording (fun _ => .ok .all) fun _ _ => true

/-- A collector armed on one domain, and an edit that re-pins it to another,
checked while the window is empty, with what happens before it is applied and
after. -/
def crossedRepin (o : SessionName) (before after : List (Action Unit)) : List (Action Unit) :=
  .call (.add o ⟨"default"⟩ 0 (.sample "a" 1) 0) :: List.replicate 7 (.step 0 true) ++
    .call (.edit o "a" { CollectorEdit.default with domain := some ⟨"other"⟩ } none 0) :: .step 1 true :: before ++
    List.replicate 7 (.step 1 true) ++ after

theorem windows_agree_repinned : ∃ s : Sys (List (DomainId × Unit)) (String × String),
    runActs (fun s a => s.step Prod.mk recordAll a.stamp) (Sys.start (.withBudget 10) (fun _ => .new) fun _ => none)
      (crossedRepin ⟨"o", by decide⟩ [] [.span ⟨"other"⟩ ()]) = some s ∧
    s.reg.entries.map (fun e => (e.domain, e.collector.window)) = [(⟨"other"⟩, [(⟨"other"⟩, ())])] ∧
    ∀ e ∈ s.reg.entries, e.Agrees fun _ _ => true := by
  refine ⟨_, rfl, by decide, ?_⟩
  exact windows_agree (fun _ => .ok .all) (fun _ _ => true) Prod.mk (.withBudget 10)
    ⟨by simp [keys, withBudget], by simp [keys, withBudget]⟩ (by simp [withBudget]) (fun _ => .new) (fun _ => none)
    (reach_guarded (fun _ _ h => h) (crossedRepin ⟨"o", by decide⟩ [] [.span ⟨"other"⟩ ()]) .start rfl)

/-- A span is counted between the check of an edit and its second section:
the collector is pinned to a domain none of its window came from. -/
theorem window_outlives_pin : ∃ s : Sys (List (DomainId × Unit)) (String × String),
    runActs (fun s a => s.step Prod.mk recordAll a.stamp) (Sys.start (.withBudget 10) (fun _ => .new) fun _ => none)
      (crossedRepin ⟨"o", by decide⟩ [.span ⟨"default"⟩ ()] []) = some s ∧
    ∃ e ∈ s.reg.entries, ∃ sp ∈ e.collector.window, sp.1 ≠ e.domain := by
  refine ⟨_, rfl, ?_⟩
  decide

end Logmon
