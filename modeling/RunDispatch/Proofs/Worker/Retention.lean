/-
# How long a result is kept

The registry is written to when runs start, end and break down, and it is evicted now and then, in any order
and under any names. Under each name it has the status that was written last, at the time of that write,
unless that status is terminal and a later eviction found it old enough (`find?_after`, by induction from
the last call). What was written before the last write is of no matter, so a run that is started again under
an old name cannot be evicted, whatever had become of the first.

A worker evicts by the time to live of its markers, which never changes. So a result can be read at a worker
for as long at least.

Key definitions: `Registry.after`, `Registry.LastWrite`, `Registry.Outlived`, `Registry.Retains`,
`Worker.StaysReadable`.
Key theorems: `Registry.lastWrite_concat`, `Registry.find?_after`, `Registry.retains`,
`Worker.last_result_kept`.
-/
import Mathlib.Data.List.Induction
import RunDispatch.Proofs.Marker.Timed
import RunDispatch.Proofs.Worker.Standing

namespace RunDispatch
namespace Registry

/-! ### Calls one after another -/

/-- The registry after some calls on one that starts empty. -/
def after (turns : List Turn) : Registry :=
  turns.foldl Turn.effect .empty

theorem after_concat (turns : List Turn) (x : Turn) :
    after (turns ++ [x]) = x.effect (after turns) := by
  simp [after]

/-! ### The last write -/

/-- The last status written under a name is `s`, it was written at `t`, and `later` is what was called
after that. -/
def LastWrite (turns : List Turn) (n : String) (s : Status) (t : Nat) (later : List Turn) : Prop :=
  ∃ before x, turns = before ++ x :: later ∧ x.time = t ∧ x.writes? = some (n, s) ∧
    ∀ y ∈ later, ∀ u, y.writes? ≠ some (n, u)

/-- Some eviction found what was written at `t` old enough. -/
def Outlived (t : Nat) (later : List Turn) : Prop :=
  ∃ y ∈ later, ∃ retention, y.call = .evict retention ∧ retention ≤ y.time - t

section LastWrites

variable {turns later : List Turn} {x : Turn} {n : String} {s : Status} {t : Nat}

theorem lastWrite_concat : LastWrite (turns ++ [x]) n s t later ↔
    later = [] ∧ x.time = t ∧ x.writes? = some (n, s) ∨
      (∀ u, x.writes? ≠ some (n, u)) ∧
        ∃ rest, later = rest ++ [x] ∧ LastWrite turns n s t rest := by
  constructor
  · rintro ⟨before, y, hturns, ht, hy, hlater⟩
    rcases concat_eq_append_cons_iff.mp hturns with ⟨rfl, rfl, rfl⟩ | ⟨rest, rfl, rfl⟩
    · exact .inl ⟨rfl, ht, hy⟩
    · exact .inr ⟨hlater x (by simp), rest, rfl, before, y, rfl, ht, hy,
        fun z hz => hlater z (List.mem_append_left _ hz)⟩
  · rintro (⟨rfl, ht, hx⟩ | ⟨hx, rest, rfl, before, y, rfl, ht, hy, hrest⟩)
    · exact ⟨turns, x, rfl, ht, hx, List.forall_mem_nil _⟩
    · refine ⟨before, y, by simp, ht, hy, fun z hz => ?_⟩
      rcases List.mem_append.mp hz with hz | hz
      · exact hrest z hz
      · rw [List.mem_singleton.mp hz]
        exact hx

/-- There is only one last write under a name. -/
theorem LastWrite.unique {s' : Status} {t' : Nat} {later' : List Turn}
    (h : LastWrite turns n s t later) (h' : LastWrite turns n s' t' later') :
    s = s' ∧ t = t' ∧ later = later' := by
  induction turns using List.reverseRecOn generalizing later later' with
  | nil =>
    obtain ⟨before, x, hnil, -⟩ := h
    simp at hnil
  | append_singleton turns x ih =>
    rcases lastWrite_concat.mp h with ⟨rfl, rfl, hx⟩ | ⟨hx, rest, rfl, hl⟩ <;>
      rcases lastWrite_concat.mp h' with ⟨rfl, rfl, hx'⟩ | ⟨hx', rest', rfl, hl'⟩
    · rw [hx] at hx'
      cases hx'
      exact ⟨rfl, rfl, rfl⟩
    · exact absurd hx (hx' s)
    · exact absurd hx' (hx s')
    · obtain ⟨rfl, rfl, rfl⟩ := ih hl hl'
      exact ⟨rfl, rfl, rfl⟩

theorem exists_lastWrite {u : Status} (hx : x ∈ turns) (hu : x.writes? = some (n, u)) :
    ∃ s t later, LastWrite turns n s t later := by
  induction turns using List.reverseRecOn with
  | nil => cases hx
  | append_singleton turns y ih =>
    by_cases hy : ∃ s, y.writes? = some (n, s)
    · obtain ⟨s, hs⟩ := hy
      exact ⟨s, y.time, [], lastWrite_concat.mpr (.inl ⟨rfl, rfl, hs⟩)⟩
    · have hne : ∀ s, y.writes? ≠ some (n, s) := fun s hs => hy ⟨s, hs⟩
      rcases List.mem_append.mp hx with hx | hx
      · obtain ⟨s, t, later, hl⟩ := ih hx
        exact ⟨s, t, later ++ [y], lastWrite_concat.mpr (.inr ⟨hne, later, rfl, hl⟩)⟩
      · rw [List.mem_singleton.mp hx] at hu
        exact absurd hu (hne u)

theorem outlived_concat_of_writes? {e : Notice} (hx : x.writes? = some e) :
    Outlived t (later ++ [x]) ↔ Outlived t later := by
  constructor
  · rintro ⟨y, hy, retention, hc, ha⟩
    rcases List.mem_append.mp hy with hy | hy
    · exact ⟨y, hy, retention, hc, ha⟩
    · rw [List.mem_singleton.mp hy] at hc
      exact absurd hc (Turn.not_evict_of_writes? hx retention)
  · rintro ⟨y, hy, rest⟩
    exact ⟨y, List.mem_append_left _ hy, rest⟩

theorem outlived_concat_of_evict {retention : Nat} (hx : x.call = .evict retention) :
    Outlived t (later ++ [x]) ↔ Outlived t later ∨ retention ≤ x.time - t := by
  constructor
  · rintro ⟨y, hy, retention', hc, ha⟩
    rcases List.mem_append.mp hy with hy | hy
    · exact .inl ⟨y, hy, retention', hc, ha⟩
    · rw [List.mem_singleton.mp hy] at hc ha
      rw [hx] at hc
      cases hc
      exact .inr ha
  · rintro (⟨y, hy, rest⟩ | ha)
    · exact ⟨y, List.mem_append_left _ hy, rest⟩
    · exact ⟨x, List.mem_append_right _ (List.mem_singleton_self x), retention, hx, ha⟩

end LastWrites

/-! ### What the registry has -/

theorem stays_eq_true_iff {now retention : Nat} {e : Status × Nat} :
    stays now retention e = true ↔ ¬ (e.1.isTerminal = true ∧ retention ≤ now - e.2) := by
  obtain ⟨s, t⟩ := e
  unfold stays
  cases s.isTerminal <;> simp

theorem proper_after (turns : List Turn) : (after turns).entries.Proper := by
  induction turns using List.reverseRecOn with
  | nil => exact List.nodup_nil
  | append_singleton turns x ih =>
    rw [after_concat]
    rcases x.effect_cases with ⟨n, s, -, heff⟩ | ⟨retention, -, -, heff⟩ <;> rw [heff]
    · exact ih.put n (s, x.time)
    · exact ih.keep _

/-- **What is found under a name** is the last write, unless that is terminal and outlived. -/
theorem find?_after (turns : List Turn) {n : String} {s : Status} {t : Nat} :
    (after turns).entries.find? n = some (s, t) ↔
      ∃ later, LastWrite turns n s t later ∧ ¬ (s.isTerminal = true ∧ Outlived t later) := by
  induction turns using List.reverseRecOn with
  | nil => simp [after, empty, Table.find?, LastWrite]
  | append_singleton turns x ih =>
    rw [after_concat]
    simp only [lastWrite_concat]
    rcases x.effect_cases with ⟨m, u, hx, heff⟩ | ⟨retention, hc, hx, heff⟩ <;> rw [heff]
    -- A write is the last one under its name, with no eviction after it; under other names it does nothing.
    · simp only [record, Table.find?_put]
      by_cases hn : n = m
      · subst hn
        simp [hx, Outlived, and_comm]
      · have hother : ∀ u', x.writes? ≠ some (n, u') := by
          intro u' hu'
          rw [hx] at hu'
          cases hu'
          exact hn rfl
        simp [hn, ih, hother, outlived_concat_of_writes? hx]
    -- An eviction is no write, and one more that the last write may be too old for.
    · have hnone : ∀ u', x.writes? ≠ some (n, u') := by simp [hx]
      simp only [evict, Table.find?_keep (proper_after turns), Option.filter_eq_some_iff, ih,
        stays_eq_true_iff]
      constructor
      · rintro ⟨⟨later, hl, hkept⟩, hage⟩
        refine ⟨later ++ [x], .inr ⟨hnone, later, rfl, hl⟩, ?_⟩
        rw [outlived_concat_of_evict hc]
        rintro ⟨hterm, hout | hold⟩
        · exact hkept ⟨hterm, hout⟩
        · exact hage ⟨hterm, hold⟩
      · rintro ⟨_, (⟨-, -, hw⟩ | ⟨-, later, rfl, hl⟩), hkept⟩
        · exact absurd hw (hnone s)
        · rw [outlived_concat_of_evict hc] at hkept
          exact ⟨⟨later, hl, fun h => hkept ⟨h.1, .inl h.2⟩⟩, fun h => hkept ⟨h.1, .inr h.2⟩⟩

/-- What is read under a name is the last write, unless that is terminal and outlived. -/
theorem get_after (turns : List Turn) {n : String} {s : Status} :
    (after turns).get n = some s ↔ ∃ t later, LastWrite turns n s t later ∧
      ¬ (s.isTerminal = true ∧ Outlived t later) := by
  simp only [get, Option.map_eq_some_iff, Prod.exists, exists_and_right, exists_eq_right,
    find?_after]

/-- How the registry keeps what is written, through any calls that it got. An age counts from zero, so a
status that was written later than the clock shows has none. -/
structure Retains (turns : List Turn) : Prop where
  /-- Nothing is read under a name that was never written to. -/
  unwritten : ∀ n, (∀ x ∈ turns, ∀ s, x.writes? ≠ some (n, s)) → (after turns).get n = none
  /-- Under every other there is a last write, -/
  written : ∀ n, ∀ x ∈ turns, ∀ u, x.writes? = some (n, u) → ∃ s t later, LastWrite turns n s t later
  /-- which is what is read, -/
  kept : ∀ n s t later, LastWrite turns n s t later → ¬ (s.isTerminal = true ∧ Outlived t later) →
    (after turns).get n = some s
  /-- unless it is terminal and a later eviction found it old enough. -/
  gone : ∀ n s t later, LastWrite turns n s t later → s.isTerminal = true → Outlived t later →
    (after turns).get n = none
  /-- An entry is as old as the last write, -/
  aged : ∀ n s t, (n, s, t) ∈ (after turns).entries ↔
    ∃ later, LastWrite turns n s t later ∧ ¬ (s.isTerminal = true ∧ Outlived t later)
  /-- and the only one under its name. -/
  single : ((after turns).entries.map (·.1)).Nodup
  /-- An eviction leaves the entries that are not terminal or not old enough, as they are, -/
  left : ∀ now retention e, e ∈ ((after turns).evict now retention).2.entries ↔
    e ∈ (after turns).entries ∧ ¬ (e.2.1.isTerminal = true ∧ retention ≤ now - e.2.2)
  /-- and tells the number of the others. -/
  counted : ∀ now retention, ((after turns).evict now retention).1 =
    (after turns).entries.countP fun e => e.2.1.isTerminal ∧ retention ≤ now - e.2.2
  /-- A running status stays. -/
  running : ∀ n kind now retention, (after turns).get n = some (.running kind) →
    ((after turns).evict now retention).2.get n = some (.running kind)
  /-- If evictions only take what is as old as `age`, then what is younger is still there. -/
  young : ∀ age now,
    (∀ x ∈ turns, x.time ≤ now ∧ ∀ retention, x.call = .evict retention → age ≤ retention) →
    ∀ n s t later, LastWrite turns n s t later → now - t < age → (after turns).get n = some s

theorem evict_fst (g : Registry) (now retention : Nat) :
    (g.evict now retention).1 =
      g.entries.countP fun e => e.2.1.isTerminal ∧ retention ≤ now - e.2.2 := by
  have parts := List.length_eq_countP_add_countP (l := g.entries) (p := fun e => stays now retention e.2)
  have hleft : (g.entries.keep (stays now retention)).length =
      g.entries.countP fun e => stays now retention e.2 :=
    List.countP_eq_length_filter.symm
  have hgone : (g.entries.countP fun e => decide (¬ stays now retention e.2 = true)) =
      g.entries.countP fun e => e.2.1.isTerminal ∧ retention ≤ now - e.2.2 :=
    List.countP_congr fun e _ => by simp only [stays_eq_true_iff, not_not]
  simp only [evict, hleft, ← hgone]
  omega

/-- **The registry keeps the last result** until an eviction finds it old enough. -/
theorem retains (turns : List Turn) : Retains turns := by
  have hproper := proper_after turns
  have hkept : ∀ n s t later, LastWrite turns n s t later →
      ¬ (s.isTerminal = true ∧ Outlived t later) → (after turns).get n = some s :=
    fun n s t later hl hk => (get_after turns).mpr ⟨t, later, hl, hk⟩
  have hleft : ∀ now retention e, e ∈ ((after turns).evict now retention).2.entries ↔
      e ∈ (after turns).entries ∧ ¬ (e.2.1.isTerminal = true ∧ retention ≤ now - e.2.2) := by
    intro now retention e
    rw [← stays_eq_true_iff (e := e.2)]
    exact List.mem_filter
  constructor
  case unwritten =>
    intro n hn
    refine Option.eq_none_iff_forall_ne_some.mpr fun s hs => ?_
    obtain ⟨t, later, ⟨before, x, rfl, -, hx, -⟩, -⟩ := (get_after turns).mp hs
    exact hn x (by simp) s hx
  case written => exact fun n x hx u hu => exists_lastWrite hx hu
  case kept => exact hkept
  case gone =>
    intro n s t later hl hterm hout
    refine Option.eq_none_iff_forall_ne_some.mpr fun u hu => ?_
    obtain ⟨t', later', hl', hk⟩ := (get_after turns).mp hu
    obtain ⟨rfl, rfl, rfl⟩ := hl.unique hl'
    exact hk ⟨hterm, hout⟩
  case aged =>
    intro n s t
    rw [← find?_after]
    refine ⟨hproper.find?_of_mem, fun hfind => ?_⟩
    obtain ⟨before, rest, hentries, -⟩ := List.lookup_eq_some_iff.mp hfind
    simp [hentries]
  case single => exact hproper
  case left => exact hleft
  case counted => exact evict_fst _
  case running =>
    intro n kind now retention hn
    obtain ⟨e, he, hs⟩ := Option.map_eq_some_iff.mp hn
    rw [get_evict hproper, he, Option.filter_some, if_pos, Option.map_some, hs]
    simp [stays, hs, Status.isTerminal]
  case young =>
    intro age now hall n s t later hl hage
    refine hkept n s t later hl ?_
    rintro ⟨-, y, hy, retention, hc, hold⟩
    obtain ⟨before, x, rfl, -⟩ := hl
    obtain ⟨htime, hret⟩ := hall y (by simp [hy])
    have := hret retention hc
    omega

end Registry

/-! ### The registry of a worker -/

namespace Worker

/-- An eviction goes by the time to live of the markers. -/
theorem retention_of_call? {w : Worker} {now retention : Nat} {e : Event}
    (h : w.call? now e = some (.evict retention)) : retention = w.shared.markers.ttl := by
  cases e with
  | evict => exact (Registry.Call.evict.inj (Option.some.inj h)).symm
  | run number e =>
    obtain ⟨t, -, -, hend⟩ := run_of_call? h
    simp only [Task.endCall?] at hend
    split at hend
    · split at hend <;> cases hend
    · cases hend
  | recordStart | spawn | tellToStop | forget | beginShutdown | cleanup => cases h

section Histories

variable {P : Nat → Worker → Prop} {w₀ w : Worker} {now : Nat} {log : List Entry}

theorem History.ttl_eq (h : History P w₀ now log w) (h0 : w₀.tasks = []) :
    w.shared.markers.ttl = w₀.shared.markers.ttl := by
  refine h.along (C := fun _ _ w => w.shared.markers.ttl = w₀.shared.markers.ttl) (fun _ => rfl) ?_
  intro now now' log w w' entries h _ _ _ hc ih
  cases hc with
  | acts number r e hr _ hs _ =>
    rw [hs, (h.move h0 hr now' e).ttl (h.sound h0 hr), ih]
  | rests _ hm _ =>
    rcases hm with hm | hm <;> rw [hm]
    · exact ih
    · exact ih

theorem Scheduled.le_clock {events : List (Nat × Event)} (hs : Scheduled P now w events) :
    now ≤ clock now events := by
  induction events generalizing now w with
  | nil => exact Nat.le_refl now
  | cons event rest ih => exact Nat.le_trans hs.1 (ih hs.2.2)

/-- The calls of a history follow one another in time, and all evictions go by one time to live. -/
theorem History.callsOf (h : History P w₀ now log w) (h0 : w₀.tasks = [])
    {events : List (Nat × Event)} (hs : Scheduled P now w events) :
    (w.callsOf events).Pairwise (·.time ≤ ·.time) ∧
      ∀ x ∈ w.callsOf events, now ≤ x.time ∧ x.time ≤ clock now events ∧
        ∀ retention, x.call = .evict retention → retention = w₀.shared.markers.ttl := by
  induction events generalizing now log w with
  | nil => exact ⟨.nil, List.forall_mem_nil _⟩
  | cons event rest ih =>
    obtain ⟨now', e⟩ := event
    obtain ⟨hle, hP, hrest⟩ := hs
    obtain ⟨hsorted, hlater⟩ := ih (h.step hle e hP) hrest
    have hclock : now' ≤ clock now' rest := hrest.le_clock
    have hrise : ∀ x ∈ (w.heed now' e).callsOf rest, now ≤ x.time ∧ x.time ≤ clock now' rest ∧
        ∀ retention, x.call = .evict retention → retention = w₀.shared.markers.ttl := by
      intro x hx
      obtain ⟨hlow, hhigh, hevict⟩ := hlater x hx
      exact ⟨Nat.le_trans hle hlow, hhigh, hevict⟩
    rw [Worker.callsOf, calls, clock]
    cases hcall : w.call? now' e with
    | none => exact ⟨hsorted, hrise⟩
    | some call =>
      refine ⟨List.pairwise_cons.mpr ⟨fun x hx => (hlater x hx).1, hsorted⟩, fun x hx => ?_⟩
      rcases List.mem_cons.mp hx with rfl | hx
      · refine ⟨hle, hclock, fun retention hc => ?_⟩
        rw [← h.ttl_eq h0]
        exact retention_of_call? (hcall.trans (congrArg some hc))
      · exact hrise x hx

end Histories

/-- How the statuses of runs stay readable at a worker to which some events happened. -/
structure StaysReadable (w₀ : Worker) (now : Nat) (events : List (Nat × Event)) : Prop where
  /-- Its registry is what the calls made of it, -/
  registry_eq : (play ([], w₀) events).2.registry = .after (w₀.callsOf events)
  /-- which were made at times that do not go back. -/
  timely : (w₀.callsOf events).Pairwise (·.time ≤ ·.time)
  /-- All evictions went by the time to live of its markers. -/
  ticks : ∀ x ∈ w₀.callsOf events, ∀ retention, x.call = .evict retention →
    retention = w₀.shared.markers.ttl
  /-- So a status can be read for as long at least since it was written. -/
  readable : ∀ n s t later, Registry.LastWrite (w₀.callsOf events) n s t later →
    clock now events - t < w₀.shared.markers.ttl → (play ([], w₀) events).2.status n = some s

/-- **The last result is kept until it is old enough**: by the registry whatever calls it gets, and by a
worker for the time to live of its markers. -/
theorem last_result_kept :
    (∀ turns, Registry.Retains turns) ∧
    ∀ (P : Nat → Worker → Prop) (w₀ : Worker) (now : Nat) (events : List (Nat × Event)),
      w₀.tasks = [] → w₀.registry = .empty → Scheduled P now w₀ events →
      StaysReadable w₀ now events := by
  refine ⟨Registry.retains, fun P w₀ now events h0 hg hs => ?_⟩
  have hstart : History P w₀ now [] w₀ := .start now
  obtain ⟨hsorted, hcalls⟩ := hstart.callsOf h0 hs
  have hreg : (play ([], w₀) events).2.registry = .after (w₀.callsOf events) := by
    rw [play_registry, hg, Registry.after]
  refine ⟨hreg, hsorted, fun x hx => (hcalls x hx).2.2, fun n s t later hl hage => ?_⟩
  rw [status, hreg]
  refine (Registry.retains _).young _ _ (fun x hx => ?_) n s t later hl hage
  obtain ⟨-, hhigh, hevict⟩ := hcalls x hx
  exact ⟨hhigh, fun retention hc => Nat.le_of_eq (hevict retention hc).symm⟩

/-- A run that ends, and an eviction just before its status is old enough. -/
def keeping : List (Nat × Event) := overlapping ++ [(2003, .evict)]

def sampleReport : Run.Report := ⟨"c", .check, .ok, false, false⟩

/-- The calls on the registry then. -/
def sampleCalls : List Registry.Turn :=
  [⟨0, .started "c" .check⟩, ⟨2, .started "c" .check⟩, ⟨4, .finished "c" .check (.ok sampleReport)⟩,
    ⟨2003, .evict 2000⟩]

/-- What may be called after that: an eviction that finds the status old enough, and a run of the same name
with an eviction long after its start. -/
def sampleLater : List Registry.Turn :=
  [⟨2004, .evict 2000⟩, ⟨2005, .started "c" .check⟩, ⟨9000, .evict 2000⟩]

/-- The result is kept by an eviction just before it is old enough, and dropped by the next; the run that is
started again under its name stays. -/
theorem sample_last_result_kept :
    (sample.tasks = [] ∧ sample.registry = .empty ∧ Scheduled (fun _ _ => True) 0 sample keeping ∧
      sample.callsOf keeping = sampleCalls) ∧
    (play ([], sample) keeping).2.status "c" = some (.completed sampleReport) ∧
    (Registry.after (sampleCalls ++ sampleLater.take 1)).get "c" = none ∧
    (Registry.after (sampleCalls ++ sampleLater)).get "c" = some (.running .check) := by
  have hs : Scheduled (fun _ _ => True) 0 sample keeping := by decide
  have hcalls : sample.callsOf keeping = sampleCalls := rfl
  have hended : ∀ later : List Registry.Turn, (∀ y ∈ later, y.writes? = none) →
      Registry.LastWrite (sampleCalls ++ later) "c" (.completed sampleReport) 4
        (⟨2003, .evict 2000⟩ :: later) := by
    refine fun later hlater => ⟨sampleCalls.take 2, _, rfl, rfl, rfl, fun y hy u => ?_⟩
    rcases List.mem_cons.mp hy with rfl | hy
    · exact nofun
    · rw [hlater y hy]
      exact nofun
  refine ⟨⟨rfl, rfl, hs, hcalls⟩, ?_, ?_, ?_⟩
  · have hlast := hended [] (List.forall_mem_nil _)
    rw [List.append_nil, ← hcalls] at hlast
    exact (last_result_kept.2 _ sample 0 keeping rfl rfl hs).readable "c" _ 4 _ hlast (by decide)
  · refine (last_result_kept.1 _).gone "c" _ 4 _ (hended (sampleLater.take 1) ?_) rfl ?_
    · intro y hy
      rw [List.mem_singleton.mp hy]
      rfl
    · exact ⟨⟨2004, .evict 2000⟩, by simp [sampleLater], 2000, rfl, by decide⟩
  · refine (last_result_kept.1 _).kept "c" _ 2005 [⟨9000, .evict 2000⟩] ?_ (fun h => nomatch h.1)
    exact ⟨sampleCalls ++ sampleLater.take 1, _, rfl, rfl, rfl, by simp [Registry.Turn.writes?]⟩

end Worker
end RunDispatch
