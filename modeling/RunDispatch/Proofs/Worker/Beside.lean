/-
# A run beside others and alone

A run beside others is put next to the run that is alone and that the same happens to (`Beside`): the two are
level, the tree of the one echoes that of the other, and the marker of their name is the same or, if they hold
it, theirs. A turn of any other run changes nothing of it. A turn of the run itself keeps it, after what the
turn is to the run that is alone; while the run waits for a slot, that one has nothing to wait for and does
nothing.

What the two find under the name when they claim it has to be live in both places or in none: time passes
while a run waits for its slot, and a marker that was there from the start may expire.

Key definitions: `EquallyLive`, `Beside`.
Key theorems: `Beside.others`, `Beside.own`, `Beside.together`.
-/
import RunDispatch.Proofs.Run.Level
import RunDispatch.Proofs.Worker.Together

namespace RunDispatch

namespace Worker

open Staging (Site Proper)

/-- When a run had its slot and claimed its marker or found one, if it has got so far. -/
def claimedAt? (w : Worker) (i : Nat) : Option Nat := (w.run? i).bind (·.claimedAt w.setup)

/-- Whether a marker that was there from the start is live at both of two times, or at neither. -/
def EquallyLive (m₀ : Markers) (name : String) (t t' : Option Nat) : Prop :=
  ∀ a ∈ t, ∀ b ∈ t', m₀.read a name = some true ↔ m₀.read b name = some true

/-- A run alone (`r`, run 0 of the worker `v`) and beside others (`r'`, run `i` of the worker `w`), after
the same happened to both. -/
structure Beside {setup : Run.Setup} (site : Site setup.root) (m₀ : Markers) (i : Nat)
    (log log' : List Entry) (v w : Worker) (r r' : Run) : Prop where
  run : v.run? 0 = some r
  run' : w.run? i = some r'
  level : Run.Level r r' (deedsOf 0 log) (deedsOf i log')
  tree : Staging.Echo site r.name v.shared.disk.tree w.shared.disk.tree
  ready : ∀ kind content rest, r.phase = .staging .writing ((kind, content) :: rest) →
    v.shared.disk.tree.walk site.top (site.way kind) = .ok (site.top ++ site.way kind)
  marked : Run.Marked m₀ v.shared.markers w.shared.markers r
  free : r.phase = .reading → 0 < v.shared.slots.free

section Beside

variable {setup : Run.Setup} {site : Site setup.root} {requests : List Request} {q : Request}
  {m₀ : Markers} {i : Nat} {log log' : List Entry} {v w : Worker} {r r' : Run}

theorem deedsOf_entries_other {t : Turn} (ht : t.run ≠ i) : deedsOf i (w.entries t) = [] := by
  cases hr : w.run? t.run with
  | none => rw [(undergo_none hr).2]; rfl
  | some r =>
    cases ho : r.isOver with
    | true => rw [(undergo_over hr ho).2]; rfl
    | false => rw [(undergo_run hr ho).2.2, deedsOf_map, if_neg (Ne.symm ht)]

/-- **A turn of another run** changes nothing. -/
theorem Beside.others (h : Beside site m₀ i log log' v w r r') (hw : Manned setup requests w)
    (hproper : ∀ p ∈ requests, Proper p.containerName)
    (hnames : (requests.map (·.containerName)).Nodup) {t : Turn} (ht : t.run ≠ i) :
    Beside site m₀ i log (log' ++ w.entries t) v (w.undergo t) r r' := by
  have hlog : deedsOf i (log' ++ w.entries t) = deedsOf i log' := by
    rw [deedsOf_append, deedsOf_entries_other ht, List.append_nil]
  have hidle : w.undergo t = w.facing t.matter.faults →
      Beside site m₀ i log (log' ++ w.entries t) v (w.undergo t) r r' := by
    intro hu
    rw [hu]
    exact ⟨h.run, h.run', hlog ▸ h.level, h.tree, h.ready, h.marked, h.free⟩
  cases hr : w.run? t.run with
  | none => exact hidle (undergo_none hr).1
  | some p =>
    cases ho : p.isOver with
    | true => exact hidle (undergo_over hr ho).1
    | false =>
      obtain ⟨hshared, hrun, -⟩ := undergo_run hr ho
      obtain ⟨rfl, hw⟩ := hw
      obtain ⟨hs, hp⟩ := hw _ p hr
      have hne : r.name ≠ p.name := by
        rw [← h.level.same.2.1]
        exact (ne_of_apart hnames hp (hw _ r' h.run').2 ht).symm
      have hm := w.turn_move t hs
      have htended : Staging.Tended site p.name w.shared.disk.tree _ :=
        hm.tended hs (hproper _ (List.mem_of_getElem? hp)) h.tree.beside
      refine ⟨h.run, ?_, hlog ▸ h.level, ?_, h.ready, ?_, h.free⟩
      · rw [hrun, if_neg (Ne.symm ht)]
        exact h.run'
      · rw [hshared]
        exact h.tree.others hne htended
      · rw [hshared]
        exact h.marked.others (hm.turned hs) hne

/-- **The same step** on both sides. -/
theorem Beside.both (h : Beside site m₀ i log log' v w r r') (hv : Manned setup [q] v)
    (hw : Manned setup requests w) {a t : Turn} (ha : a.run = 0) (ht : t.run = i)
    (ho : r.isOver = false) (ho' : r'.isOver = false) {x y : Run.Shared × Run}
    (hx : v.stepIn setup a r = x) (hy : w.stepIn setup t r' = y)
    (htwin : Run.Twin x.2 y.2) (htree : Staging.Echo site x.2.name x.1.disk.tree y.1.disk.tree)
    (hready : ∀ kind content rest, x.2.phase = .staging .writing ((kind, content) :: rest) →
      x.1.disk.tree.walk site.top (site.way kind) = .ok (site.top ++ site.way kind))
    (hq : ∀ b, x.2.phase ≠ .queued b)
    (hdeeds : deedsOf i log' ++ r'.deeds setup (r'.heeded t.matter.event) y.2 =
      deedsOf 0 log ++ r.deeds setup (r.heeded a.matter.event) x.2) :
    ∃ r₁ r₁', Beside site m₀ i (log ++ v.entries a) (log' ++ w.entries t) (v.undergo a) (w.undergo t)
      r₁ r₁' := by
  subst ht
  have hs := (hv.2 0 r h.run).1
  have hs' := (hw.2 _ r' h.run').1
  have hm := v.turn_move a hs
  have hm' := w.turn_move t hs'
  obtain ⟨hsv, hrv, hev⟩ := undergo_own hv.1 (ha ▸ h.run) ho hx
  obtain ⟨hsw, hrw, hew⟩ := undergo_own hw.1 h.run' ho' hy
  rw [ha] at hrv hev
  rw [hx] at hm
  rw [hy] at hm'
  have hlevel : Run.Level x.2 y.2 (deedsOf 0 (log ++ v.entries a)) (deedsOf t.run (log' ++ w.entries t)) := by
    refine .abreast htwin hq ?_
    rw [deedsOf_append, deedsOf_append, hev, hew]
    exact hdeeds
  have hturned := hm.turned hs
  have hturned' := hm'.turned hs'
  obtain ⟨hholds, hname, -⟩ := h.level.same
  rw [hholds, hname, hlevel.same.1] at hturned'
  refine ⟨x.2, y.2, hrv, hrw, hlevel, ?_, ?_, ?_, fun hr => ?_⟩
  · rw [hsv, hsw]
    exact htree
  · rw [hsv]
    exact hready
  · rw [hsv, hsw]
    refine h.marked.both hturned hturned' (congrArg Request.containerName hm.same.2) fun hd => ?_
    have hd₀ : r.deadline = none := by
      refine Option.not_isSome_iff_eq_none.mp fun hc => ?_
      rw [← hm.deadline hs hc, hd] at hc
      cases hc
    exact ⟨hd₀, hs.not_holds hd₀, (hm.sound hs).not_holds hd⟩
  · obtain ⟨hshared, hr⟩ := hm.reading hr
    rw [hsv, hshared]
    exact h.free hr

/-! #### A turn of the run itself -/

theorem passed_enter {b : Bytes} (hr : r.phase = .queued b) (now : Nat) (s : Run.Shared) (c : Bytes)
    (x : Matter) : r.passed x (Run.enter setup now s r c).2 = [⟨.configuration (.ok b), []⟩] := by
  unfold Run.passed
  rcases Run.enter_phase setup now s r c with ⟨place, left, hp, -⟩ | ⟨finding, hp⟩ <;> rw [hr, hp]

/-- Nothing more happens to two runs that are over. -/
theorem Beside.over (h : Beside site m₀ i log log' v w r r') (ho : r'.isOver = true) {a t : Turn}
    (ha : a.run = 0) (ht : t.run = i) :
    Beside site m₀ i (log ++ v.entries a) (log' ++ w.entries t) (v.undergo a) (w.undergo t) r r' := by
  have hor : r.isOver = true := by
    cases h.level with
    | abreast htwin =>
      cases htwin
      exact ho
    | waiting b htwin =>
      cases htwin
      cases ho
  obtain ⟨hv, hlog⟩ := undergo_over (t := a) (ha ▸ h.run) hor
  obtain ⟨hw, hlog'⟩ := undergo_over (t := t) (ht ▸ h.run') ho
  rw [hv, hlog, hw, hlog', List.append_nil, List.append_nil]
  exact ⟨h.run, h.run', h.level, h.tree, h.ready, h.marked, h.free⟩

/-- Two runs that are abreast go on in the same way. -/
theorem Beside.goesOn (h : Beside site m₀ i log log' v w r r') (hv : Manned setup [q] v)
    (hw : Manned setup requests w) (hn : Proper r.name) {a t : Turn} (ha : a.run = 0) (ht : t.run = i)
    (hat : a.matter = t.matter) (he : t.matter.event.isCalm = true) (htwin : Run.Twin r r')
    (hq : ∀ b, r.phase ≠ .queued b) (hlog : deedsOf i log' = deedsOf 0 log) (ho : r'.isOver = false)
    (hent : r.enters (r.heeded t.matter.event) = false) :
    ∃ r₁ r₁', Beside site m₀ i (log ++ v.entries a) (log' ++ w.entries t) (v.undergo a) (w.undergo t)
      r₁ r₁' := by
  have hs := (hv.2 0 r h.run).1
  have hor : r.isOver = false := by
    cases htwin
    exact ho
  have habreast : Run.Abreast site ((v.facing t.matter.faults).shared, r)
      ((w.facing t.matter.faults).shared, r') := ⟨htwin, ⟨h.tree, rfl⟩, h.ready⟩
  obtain ⟨⟨htwin₁, hdisk₁, hready₁⟩, hdeeds₁⟩ :
      Run.Abreast site (v.stepIn setup a r) (w.stepIn setup t r') ∧
        r'.deeds setup (r'.heeded t.matter.event) (w.stepIn setup t r').2 =
          r.deeds setup (r.heeded t.matter.event) (v.stepIn setup a r).2 := by
    rw [stepIn, stepIn, hat]
    exact Run.step_abreast hs hn habreast (Run.fatal_heeded he) hq hent a.now t.now
  refine h.both hv hw ha ht hor ho rfl rfl htwin₁ hdisk₁.tree hready₁ ?_ ?_
  · rw [stepIn, hat]
    exact Run.step_not_queued hs hq hent a.now _
  · rw [hat, hlog, hdeeds₁]

/-- The run beside others waits for a slot, while the other has nothing to wait for. -/
theorem Beside.lags (h : Beside site m₀ i log log' v w r r') (hw : w.setup = setup) {t : Turn}
    (ht : t.run = i) (ho : r'.isOver = false) {slots : Run.Slots} {r₁' : Run}
    (hstep : w.stepIn setup t r' =
      ({ (w.facing t.matter.faults).shared with slots }, r₁'))
    (hl : Run.Level r r₁' (deedsOf 0 log)
      (deedsOf i log' ++ r'.deeds setup (r'.heeded t.matter.event) r₁')) :
    Beside site m₀ i log (log' ++ w.entries t) v (w.undergo t) r r₁' := by
  subst ht
  obtain ⟨hshared, hrun, hdeeds⟩ := undergo_own hw h.run' ho hstep
  rw [← hdeeds, ← deedsOf_append] at hl
  refine ⟨h.run, hrun, hl, ?_, h.ready, ?_, h.free⟩
  · rw [hshared]
    exact h.tree
  · rw [hshared]
    exact h.marked

/-- **Both have their slot**, one of them maybe after having waited for it. -/
theorem Beside.enters (h : Beside site m₀ i log log' v w r r') (hv : Manned setup [q] v)
    (hw : Manned setup requests w) {a t : Turn} (ha : a.run = 0) (ht : t.run = i) {b : Bytes}
    (hea : a.matter.event = .configuration (.ok b)) (hr : r.phase = .reading) (hc : r.cancelled = false)
    (hr' : r'.phase = .reading ∨ r'.phase = .queued b) {slots : Run.Slots}
    (hstep : w.stepIn setup t r' =
      Run.enter setup t.now { (w.facing t.matter.faults).shared with slots } r' b)
    (hdeeds : deedsOf i log' ++ r'.lastCall setup (r'.heeded t.matter.event) =
      deedsOf 0 log ++ [Run.read r.request b])
    (hl : EquallyLive m₀ r.name ((v.undergo a).claimedAt? 0) ((w.undergo t).claimedAt? i)) :
    ∃ r₁ r₁', Beside site m₀ i (log ++ v.entries a) (log' ++ w.entries t) (v.undergo a) (w.undergo t)
      r₁ r₁' := by
  have hs := (hv.2 0 r h.run).1
  have hs' := (hw.2 i r' h.run').1
  have ho : r.isOver = false := by simp [Run.isOver, hr]
  have ho' : r'.isOver = false := by rcases hr' with hr' | hr' <;> simp [Run.isOver, hr']
  obtain ⟨phase, htwin⟩ : ∃ phase, Run.Twin { r with phase } r' := by
    cases h.level with
    | abreast htwin => exact ⟨r.phase, htwin⟩
    | waiting b htwin => exact ⟨_, htwin⟩
  -- The run that is alone gets its slot at once.
  have hfree : 0 < (v.facing a.matter.faults).shared.slots.free := h.free hr
  obtain ⟨slots₀, halone⟩ := Run.step_admitted setup a.now hr hc hfree b
  rw [← hea] at halone
  have hdeadline := hs.untimed (b := b) (.inl hr)
  -- Both claim the marker at moments at which it is live for both or for none.
  have hlive : w.shared.markers.read t.now r.name = some true ↔
      v.shared.markers.read a.now r.name = some true := by
    refine h.marked.read_iff hdeadline _ _ (hl _ ?_ _ ?_)
    · have hrun := (undergo_own hv.1 (ha ▸ h.run) ho halone).2.1
      rw [claimedAt?, ← ha, hrun, setup_undergo, hv.1]
      exact Run.enter_claimedAt _ _ _ _ _
    · subst ht
      have hrun := (undergo_own hw.1 h.run' ho' hstep).2.1
      rw [claimedAt?, hrun, setup_undergo, hw.1]
      exact Run.enter_claimedAt _ _ _ _ _
  have htwins := Run.enter_twin setup htwin { (v.facing a.matter.faults).shared with slots := slots₀ }
    { (w.facing t.matter.faults).shared with slots } hlive b
  refine h.both hv hw ha ht ho ho' halone hstep htwins ?_ ?_ (Run.enter_not_queued _ _ _ _ _) ?_
  · rw [Run.enter_disk, Run.enter_disk, Run.enter_name]
    exact h.tree
  · intro kind content rest hp
    rcases Run.enter_phase setup a.now _ r b with ⟨place, left, he, hne⟩ | ⟨finding, he⟩
    · rw [he] at hp
      exact absurd (Run.Phase.staging.inj hp).1 hne
    · rw [he] at hp
      cases hp
  · have hread : r.lastCall setup (r.heeded a.matter.event) = [Run.read r.request b] := by
      rw [Run.heeded_eq hc, hea]
      simp [Run.lastCall, Run.call?, hr, Run.read]
    rw [Run.deeds_enter hs' hr', Run.deeds_enter hs (b := b) (.inl hr), hread, ← List.append_assoc,
      ← List.append_assoc, hdeeds, htwins.claimed_eq]

/-- The run beside others is told to stop while it waits for a slot; the other is told so before it has its
configuration. -/
theorem Beside.stops (h : Beside site m₀ i log log' v w r r') (hv : Manned setup [q] v)
    (hw : Manned setup requests w) {a c t : Turn} (ha : a.run = 0) (hac : c.run = 0) (ht : t.run = i)
    {b : Bytes} (hea : a.matter.event = .cancel) (hec : c.matter.event = .configuration (.ok b))
    (htwin : Run.Twin { r with phase := .queued b } r') (hr : r.phase = .reading)
    (hlog : deedsOf i log' = deedsOf 0 log ++ [Run.read r.request b]) {slots : Run.Slots}
    (hstep : w.stepIn setup t r' =
      ({ (w.facing t.matter.faults).shared with slots },
        { r' with cancelled := true, phase := .ended (.error (.cancelled r'.name)) })) :
    ∃ r₁ r₁', Beside site m₀ i (log ++ v.entries a ++ (v.undergo a).entries c) (log' ++ w.entries t)
      ((v.undergo a).undergo c) (w.undergo t) r₁ r₁' := by
  subst ht
  have hs := (hv.2 0 r h.run).1
  have ho : r.isOver = false := by simp [Run.isOver, hr]
  have ho' : r'.isOver = false := by
    cases htwin
    rfl
  -- The run that is alone is told to stop, and then reads its configuration.
  have htold := (Run.step_stopped setup a.now (v.facing a.matter.faults).shared hr).1
  rw [← hea] at htold
  obtain ⟨hsv, hrv, hev⟩ := undergo_own hv.1 (ha ▸ h.run) ho htold
  have hstopped := (Run.step_stopped setup c.now ((v.undergo a).facing c.matter.faults).shared
    (r := { r with cancelled := true }) hr).2 rfl b
  rw [← hec] at hstopped
  obtain ⟨hsv₂, hrv₂, hev₂⟩ := undergo_own (r := { r with cancelled := true }) (hv.undergo a).1
    (by rw [hac, ← ha, hrv]) ho hstopped
  obtain ⟨hsw, hrw, hew⟩ := undergo_own hw.1 h.run' ho' hstep
  have hholds : r.holds = false := hs.not_holds (hs.untimed (b := b) (.inl hr))
  rw [ha] at hev
  rw [hac] at hrv₂ hev₂
  have hv₂ : ((v.undergo a).undergo c).shared.disk.tree = v.shared.disk.tree ∧
      ((v.undergo a).undergo c).shared.markers = v.shared.markers := by
    rw [hsv₂]
    simp only [facing, hsv, and_self]
  refine ⟨_, _, hrv₂, hrw, ?_, ?_, by simp [Run.finish], ?_, by simp [Run.finish]⟩
  · have hqueued : r'.phase = .queued b := by
      cases htwin
      rfl
    refine .abreast ?_ (by simp [Run.finish]) ?_
    · obtain ⟨number, deadline, hd⟩ := htwin
      exact .mk number deadline hd
    · have hs' := (hw.2 _ r' h.run').1
      rw [deedsOf_append, deedsOf_append, deedsOf_append, hev, hev₂, hew, Run.deeds_told, hec,
        Run.deeds_stopsEarly hs.told hr, Run.deeds_gaveUp hs' hqueued, hlog, List.append_nil,
        List.append_nil]
  · rw [hv₂.1, hsw]
    exact h.tree
  · rw [hv₂.2, hsw]
    obtain ⟨httl, httl', huntouched, -, hfree⟩ := h.marked
    exact ⟨httl, httl', huntouched, by simp [Run.holds, Run.finish], fun _ => hfree hholds⟩

theorem alone_of_passed {turns : List Turn} (ha : ∀ a ∈ turns, a.run = 0) {x : Matter}
    (hp : turns.map (·.matter) = [x]) : ∃ a, turns = [a] ∧ a.matter = x ∧ a.run = 0 := by
  obtain ⟨a, rfl, hax⟩ := List.map_eq_singleton_iff.mp hp
  exact ⟨a, rfl, hax, ha a List.mem_cons_self⟩

/-- A run that is abreast of the one that is alone stays so, or comes to wait for a slot. -/
theorem Beside.own_abreast (h : Beside site m₀ i log log' v w r r') (hv : Manned setup [q] v)
    (hw : Manned setup requests w) (hn : Proper r.name) {t : Turn} (ht : t.run = i)
    (he : t.matter.event.isCalm = true) {turns : List Turn} (ha : ∀ a ∈ turns, a.run = 0)
    (hp : turns.map (·.matter) = w.passed i t)
    (hl : EquallyLive m₀ r.name ((together (log, v) turns).2.claimedAt? 0) ((w.undergo t).claimedAt? i))
    (ho : r'.isOver = false) (htwin : Run.Twin r r') (hq : ∀ b, r.phase ≠ .queued b)
    (hlog : deedsOf i log' = deedsOf 0 log) :
    ∃ r₁ r₁', Beside site m₀ i (together (log, v) turns).1 (log' ++ w.entries t)
      (together (log, v) turns).2 (w.undergo t) r₁ r₁' := by
  subst ht
  rw [passed_own h.run' (undergo_own hw.1 h.run' ho rfl).2.1] at hp
  have hs' := (hw.2 _ r' h.run').1
  obtain ⟨hphase, hcancelled, henters⟩ : r'.phase = r.phase ∧ r'.cancelled = r.cancelled ∧
      r'.enters (r'.heeded t.matter.event) = r.enters (r.heeded t.matter.event) := by
    cases htwin
    exact ⟨rfl, rfl, rfl⟩
  have hq' : ∀ b, r'.phase ≠ .queued b := hphase ▸ hq
  cases hent : r.enters (r.heeded t.matter.event) with
  | false =>
    have hnot : ∀ b, (w.stepIn setup t r').2.phase ≠ .queued b :=
      Run.step_not_queued hs' hq' (henters.trans hent) t.now _
    rw [Run.passed_of_not_queued hq' hnot] at hp
    obtain ⟨a, rfl, hax, har⟩ := alone_of_passed ha hp
    exact h.goesOn hv hw hn har rfl hax he htwin hq hlog ho hent
  | true =>
    -- The configuration is there; the run that is alone gets its slot at once.
    obtain ⟨b, hb, hr, hc⟩ := Run.eq_of_enters hent
    rw [Run.heeded_eq hc] at hb
    rw [hr] at hphase
    rw [hc] at hcancelled
    have hread : r'.lastCall setup (r'.heeded t.matter.event) = [Run.read r.request b] := by
      rw [Run.heeded_eq hcancelled, hb]
      simp [Run.lastCall, Run.call?, hphase, Run.read, h.level.same.2.2]
    have hstep : w.stepIn setup t r' = _ :=
      hb ▸ Run.step_configuration setup t.now (w.facing t.matter.faults).shared hphase hcancelled b
    cases hacquire : (w.facing t.matter.faults).shared.slots.acquire r'.number with | mk taken slots =>
    rw [hacquire] at hstep
    cases taken with
    | true =>
      rw [hstep, Run.passed_of_not_queued hq' (Run.enter_not_queued _ _ _ _ _)] at hp
      obtain ⟨a, rfl, hax, har⟩ := alone_of_passed ha hp
      exact h.enters hv hw har rfl (hax ▸ hb) hr hc (.inl hphase) hstep (by rw [hread, hlog]) hl
    | false =>
      have hwaits : r'.passed t.matter { r' with phase := .queued b } = [] := by
        simp [Run.passed, hphase]
      rw [hstep, hwaits, List.map_eq_nil_iff] at hp
      subst hp
      have hdeeds : r'.deeds setup (r'.heeded t.matter.event) { r' with phase := .queued b } =
          r'.lastCall setup (r'.heeded t.matter.event) :=
        Run.deeds_goesOn (by simp [hphase]) rfl (by simp [Run.holds, hphase])
      refine ⟨r, _, h.lags hw.1 rfl ho hstep (.waiting b ?_ hr hc ?_)⟩
      · obtain ⟨number, deadline, hd⟩ := htwin
        exact .mk number deadline hd
      · rw [hdeeds, hread, hlog]

/-- A run that waits for a slot gets it, gives up or goes on waiting. -/
theorem Beside.own_waiting (h : Beside site m₀ i log log' v w r r') (hv : Manned setup [q] v)
    (hw : Manned setup requests w) {t : Turn} (ht : t.run = i) (he : t.matter.event.isCalm = true)
    {turns : List Turn} (ha : ∀ a ∈ turns, a.run = 0) (hp : turns.map (·.matter) = w.passed i t)
    (hl : EquallyLive m₀ r.name ((together (log, v) turns).2.claimedAt? 0) ((w.undergo t).claimedAt? i))
    (ho : r'.isOver = false) {b : Bytes} (htwin : Run.Twin { r with phase := .queued b } r')
    (hr : r.phase = .reading) (hc : r.cancelled = false)
    (hlog : deedsOf i log' = deedsOf 0 log ++ [Run.read r.request b]) :
    ∃ r₁ r₁', Beside site m₀ i (together (log, v) turns).1 (log' ++ w.entries t)
      (together (log, v) turns).2 (w.undergo t) r₁ r₁' := by
  subst ht
  rw [passed_own h.run' (undergo_own hw.1 h.run' ho rfl).2.1] at hp
  obtain ⟨hr', hc'⟩ : r'.phase = .queued b ∧ r'.cancelled = false := by
    cases htwin
    exact ⟨rfl, hc⟩
  have hcases := Run.step_queued setup t.now (w.facing t.matter.faults).shared hr' hc' he
  rw [← stepIn] at hcases
  rcases hcases with ⟨-, slots, -, hstep⟩ | ⟨-, hstep⟩ | hstep
  · rw [hstep, passed_enter hr'] at hp
    obtain ⟨a, rfl, hax, har⟩ := alone_of_passed ha hp
    have hnone : r'.lastCall setup (r'.heeded t.matter.event) = [] := by
      simp [Run.lastCall, Run.call?, hr']
    exact h.enters hv hw har rfl (congrArg Matter.event hax) hr hc (.inr hr') hstep
      (by rw [hnone, List.append_nil, hlog]) hl
  · have hstopped : r'.passed t.matter
        { r' with cancelled := true, phase := .ended (.error (.cancelled r'.name)) } =
          [⟨.cancel, []⟩, ⟨.configuration (.ok b), []⟩] := by
      simp [Run.passed, hr']
    rw [hstep, hstopped] at hp
    obtain ⟨a, rest, rfl, hax, hp⟩ := List.map_eq_cons_iff.mp hp
    obtain ⟨c, rfl, hcx, hcr⟩ := alone_of_passed (fun c hc => ha c (List.mem_cons_of_mem _ hc)) hp
    exact h.stops hv hw (ha a List.mem_cons_self) hcr rfl (congrArg Matter.event hax)
      (congrArg Matter.event hcx) htwin hr hlog hstep
  · have hwaits : r'.passed t.matter r' = [] := by simp [Run.passed, hr']
    rw [hstep, hwaits, List.map_eq_nil_iff] at hp
    subst hp
    refine ⟨r, r', h.lags hw.1 rfl ho hstep ?_⟩
    rw [Run.deeds_self, List.append_nil]
    exact h.level

/-- **A turn of the run itself** keeps it beside the run that is alone, after what the turn is to that
one. -/
theorem Beside.own (h : Beside site m₀ i log log' v w r r') (hv : Manned setup [q] v)
    (hw : Manned setup requests w) (hn : Proper r.name) {t : Turn} (ht : t.run = i)
    (he : t.matter.event.isCalm = true) {turns : List Turn} (ha : ∀ a ∈ turns, a.run = 0)
    (hp : turns.map (·.matter) = w.passed i t)
    (hl : EquallyLive m₀ r.name ((together (log, v) turns).2.claimedAt? 0) ((w.undergo t).claimedAt? i)) :
    ∃ r₁ r₁', Beside site m₀ i (together (log, v) turns).1 (log' ++ w.entries t)
      (together (log, v) turns).2 (w.undergo t) r₁ r₁' := by
  cases ho : r'.isOver with
  | false =>
    cases h.level with
    | abreast htwin hq hlog => exact h.own_abreast hv hw hn ht he ha hp hl ho htwin hq hlog
    | waiting b htwin hr hc hlog => exact h.own_waiting hv hw ht he ha hp hl ho htwin hr hc hlog
  | true =>
    subst ht
    have hrun : (w.undergo t).run? t.run = some r' := by
      rw [(undergo_over h.run' ho).1]
      exact h.run'
    have hq : ∀ b, r'.phase ≠ .queued b := by
      rintro b hb
      simp [Run.isOver, hb] at ho
    rw [passed_own h.run' hrun, Run.passed_of_not_queued hq hq] at hp
    obtain ⟨a, rfl, -, har⟩ := alone_of_passed ha hp
    exact ⟨r, r', h.over ho har rfl⟩

/-! #### All turns -/

/-- When a run claimed its marker stays known. -/
theorem claimedAt?_undergo (hw : Manned setup requests w) {t : Turn} {c : Nat}
    (hc : c ∈ w.claimedAt? i) : c ∈ (w.undergo t).claimedAt? i := by
  unfold claimedAt? at hc ⊢
  rw [setup_undergo]
  cases hr : w.run? t.run with
  | none =>
    rw [(undergo_none hr).1]
    exact hc
  | some r =>
    cases ho : r.isOver with
    | true =>
      rw [(undergo_over hr ho).1]
      exact hc
    | false =>
      obtain ⟨rfl, hw⟩ := hw
      rw [(undergo_run hr ho).2.1]
      split
      · rename_i hi
        subst hi
        have hs := (hw _ r hr).1
        have hm := w.turn_move t hs
        rw [hr] at hc
        rw [Option.bind_some, Run.claimedAt] at hc ⊢
        rw [hm.deadline hs]
        · exact hc
        · cases hd : r.deadline with
          | none =>
            rw [hd] at hc
            cases hc
          | some d => rfl
      · exact hc

theorem claimedAt?_together (turns : List Turn) (hw : Manned setup requests w) {c : Nat}
    (hc : c ∈ w.claimedAt? i) : c ∈ (together (log, w) turns).2.claimedAt? i := by
  induction turns generalizing log w with
  | nil => exact hc
  | cons t rest ih => exact ih (hw.undergo t) (claimedAt?_undergo hw hc)

theorem EquallyLive.earlier {name : String} {t t' u u' : Option Nat} (h : EquallyLive m₀ name t t')
    (hu : ∀ a ∈ u, a ∈ t) (hu' : ∀ b ∈ u', b ∈ t') : EquallyLive m₀ name u u' :=
  fun a ha b hb => h a (hu a ha) b (hu' b hb)

theorem Beside.start {shared : Run.Shared} (hs : site.Stands shared.disk.tree) (hf : 0 < shared.slots.free)
    (hq : requests[i]? = some q) :
    Beside site shared.markers i [] [] (spawned setup shared [q]) (spawned setup shared requests)
      (Run.start 0 q) (Run.start i q) where
  run := run?_spawned 0
  run' := by rw [run?_spawned, hq, Option.map_some]
  level := .abreast (.mk i none rfl) (by simp [Run.start]) rfl
  tree := .refl hs
  ready := by simp [Run.start]
  marked := ⟨rfl, rfl, fun _ => ⟨rfl, rfl⟩, by simp [Run.start, Run.holds], fun _ => rfl⟩
  free _ := hf

/-- **Whatever happens to the runs**, a run among them stays beside the run that is alone and that the same
happens to. -/
theorem Beside.together {turns : List Turn} (h : Beside site m₀ i log log' v w r r') (hv : Manned setup [q] v)
    (hw : Manned setup requests w) (hproper : ∀ p ∈ requests, Proper p.containerName)
    (hnames : (requests.map (·.containerName)).Nodup)
    (hcalm : ∀ t ∈ turns, t.run = i → t.matter.event.isCalm = true)
    {alone : List Turn} (ha : ∀ a ∈ alone, a.run = 0) (hscript : alone.map (·.matter) = script i w turns)
    (hl : EquallyLive m₀ q.containerName ((Worker.together (log, v) alone).2.claimedAt? 0)
      ((Worker.together (log', w) turns).2.claimedAt? i)) :
    ∃ r₁ r₁', Beside site m₀ i (Worker.together (log, v) alone).1 (Worker.together (log', w) turns).1
      (Worker.together (log, v) alone).2 (Worker.together (log', w) turns).2 r₁ r₁' := by
  induction turns generalizing log log' v w r r' alone with
  | nil =>
    obtain rfl : alone = [] := List.map_eq_nil_iff.mp hscript
    exact ⟨r, r', h⟩
  | cons t rest ih =>
    obtain ⟨now, later, rfl, hnow, hlater⟩ := List.map_eq_append_iff.mp hscript
    have hrest := fun t ht => hcalm t (List.mem_cons_of_mem _ ht)
    rw [Worker.together, List.foldl_append] at hl ⊢
    by_cases ht : t.run = i
    · have hname : r.request = q := (List.mem_singleton.mp (List.mem_of_getElem? (hv.2 0 r h.run).2))
      have hn : Proper r.name := by
        have hi := (hw.2 i r' h.run').2
        rw [← h.level.same.2.1]
        exact hproper _ (List.mem_of_getElem? hi)
      have hsoon : EquallyLive m₀ r.name ((Worker.together (log, v) now).2.claimedAt? 0)
          ((w.undergo t).claimedAt? i) := by
        rw [Run.name, hname]
        exact hl.earlier (fun a ha => claimedAt?_together later (hv.together now) ha)
          fun b hb => claimedAt?_together rest (hw.undergo t) hb
      obtain ⟨r₁, r₁', h₁⟩ := h.own hv hw hn ht (hcalm t List.mem_cons_self ht)
        (fun a hm => ha a (List.mem_append_left _ hm)) hnow hsoon
      exact ih h₁ (hv.together now) (hw.undergo t) hrest (fun a hm => ha a (List.mem_append_right _ hm))
        hlater hl
    · obtain rfl : now = [] := by
        rw [passed, if_neg ht] at hnow
        exact List.map_eq_nil_iff.mp hnow
      exact ih (h.others hw hproper hnames ht) hv (hw.undergo t) hrest ha hlater hl

end Beside

end Worker

end RunDispatch
