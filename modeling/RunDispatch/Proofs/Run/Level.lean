/-
# Runs that are level

A run beside others is level with the run that is alone if it is abreast of it, or has its configuration
already and waits for a slot while the other still reads (`Level`). What becomes of the two then depends on
the marker of their name, which each finds among its own markers: a run changes no marker but its own
(`Move.turned`), and has not touched it before it has its slot (`Marked`).

Key definitions: `Turned`, `Marked`, `Level`.
Key theorems: `Move.turned`, `Marked.both`, `Marked.others`, `step_configuration`, `step_queued`,
`deeds_enter`.
-/
import RunDispatch.Proofs.Run.Twin
import RunDispatch.Proofs.Worker.Shutdown

namespace RunDispatch

namespace Run

/-! ### What a step does to the marker of a name -/

/-- What becomes of the markers when a run of a name, which holds its marker or not, makes a move. -/
inductive Turned (name : String) : Markers → Bool → Markers → Bool → Prop
  | stays (m : Markers) (holds : Bool) : Turned name m holds m holds
  | sets (m : Markers) (now : Nat) : Turned name m false (m.set now name) true
  | deletes (m : Markers) : Turned name m true (m.delete name).2 false

section Moves

variable {setup : Setup} {now : Nat} {s s' : Shared} {r r' : Run} {e : Event}

theorem Move.turned (h : Move setup now s r e s' r') (hs : r.Sound setup) :
    Turned r.name s.markers r.holds s'.markers r'.holds := by
  rcases h.markers hs with ⟨hm, hh, -⟩ | ⟨hm, -, hh, hh', -⟩ | ⟨hm, hh, hh'⟩
  · rw [hm, hh]
    exact .stays _ _
  · rw [hm, hh, hh']
    exact .sets _ _
  · rw [hm, hh, hh']
    exact .deletes _

theorem Turned.ttl {name : String} {m m' : Markers} {holds holds' : Bool}
    (h : Turned name m holds m' holds') : m'.ttl = m.ttl := by
  cases h <;> rfl

theorem Turned.find?_of_ne {name other : String} {m m' : Markers} {holds holds' : Bool}
    (h : Turned name m holds m' holds') (ho : other ≠ name) :
    m'.entries.find? other = m.entries.find? other := by
  cases h with
  | stays => rfl
  | sets => rw [Markers.find?_set, if_neg ho]
  | deletes => rw [Markers.find?_delete, if_neg ho]

theorem Move.deadline (h : Move setup now s r e s' r') (hs : r.Sound setup)
    (hd : r.deadline.isSome = true) : r'.deadline = r.deadline := by
  have hp := hs.place
  cases h with
  | finds _ _ _ ha | claims _ _ _ ha =>
    rcases ha with ⟨hr, -⟩ | ⟨hr, -⟩ <;>
    · simp only [InPlace, hr] at hp
      rw [hp.2] at hd
      cases hd
  | records finding hr result => cases result <;> rfl
  | _ => rfl

theorem Sound.not_holds (hs : r.Sound setup) (hd : r.deadline = none) : r.holds = false := by
  refine Bool.eq_false_iff.mpr fun hh => ?_
  have ht := hs.timed (claimed_of_holds hh)
  rw [hd] at ht
  cases ht

theorem Sound.untimed (hs : r.Sound setup) {b : Bytes} (hr : r.phase = .reading ∨ r.phase = .queued b) :
    r.deadline = none := by
  have hp := hs.place
  rcases hr with hr | hr <;>
  · simp only [InPlace, hr] at hp
    exact hp.2

/-- A run that still reads has changed nothing. -/
theorem Move.reading (h : Move setup now s r e s' r') (hr : r'.phase = .reading) :
    s' = s ∧ r.phase = .reading := by
  cases h with
  | stays => exact ⟨rfl, hr⟩
  | notes => exact ⟨rfl, hr⟩
  | records finding h result => cases result <;> cases hr
  | breaksWaiting e phase he | breaksInSlot e phase he | breaks e phase he =>
    cases hr
    rcases eq_of_fatal he with h | h <;> cases h
  | _ => cases hr

/-- A run that waits for a slot did so before, or has just read its configuration. -/
theorem Move.queued (h : Move setup now s r e s' r') {b : Bytes} (hr : r'.phase = .queued b) :
    r.phase = .queued b ∨ r.enters e = true := by
  cases h with
  | stays => exact .inl hr
  | notes => exact .inl hr
  | waits h configuration slots hs hc => exact .inr (by simp [enters, h, hc])
  | records finding h result => cases result <;> cases hr
  | breaksWaiting e phase he | breaksInSlot e phase he | breaks e phase he =>
    cases hr
    rcases eq_of_fatal he with h | h <;> cases h
  | _ => cases hr

theorem step_not_queued (hs : r.Sound setup) (hq : ∀ b, r.phase ≠ .queued b)
    (he : r.enters (r.heeded e) = false) (now : Nat) (s : Shared) (b : Bytes) : (r.step setup now s e).1.2.phase ≠ .queued b := by
  intro hb
  have hm : Move setup now s r (r.heeded e) _ _ := step_move hs e
  rcases hm.queued hb with hb | hb
  · exact hq b hb
  · rw [he] at hb
    cases hb

theorem enter_claimedAt (setup : Setup) (now : Nat) (s : Shared) (r : Run) (b : Bytes) :
    (enter setup now s r b).2.claimedAt setup = some now := by
  unfold enter
  dsimp only
  split <;> simp [complete, stageNext, payloads, claimedAt]

theorem enter_disk (setup : Setup) (now : Nat) (s : Shared) (r : Run) (b : Bytes) :
    (enter setup now s r b).1.disk = s.disk := by
  unfold enter
  dsimp only
  split <;> simp [complete, stageNext, payloads, leaveSlot]

theorem enter_name (setup : Setup) (now : Nat) (s : Shared) (r : Run) (b : Bytes) :
    (enter setup now s r b).2.name = r.name := by
  unfold enter
  dsimp only
  split <;> rfl

theorem enter_phase (setup : Setup) (now : Nat) (s : Shared) (r : Run) (b : Bytes) :
    (∃ place left, (enter setup now s r b).2.phase = .staging place left ∧ place ≠ .writing) ∨
      ∃ finding, (enter setup now s r b).2.phase = .recording finding := by
  unfold enter
  dsimp only
  split
  · exact .inr ⟨_, rfl⟩
  · exact .inl ⟨_, _, rfl, firstStep_ne _⟩

theorem enter_not_queued (setup : Setup) (now : Nat) (s : Shared) (r : Run) (b c : Bytes) :
    (enter setup now s r b).2.phase ≠ .queued c := by
  rcases enter_phase setup now s r b with ⟨place, left, hp, -⟩ | ⟨finding, hp⟩ <;>
  · rw [hp]
    simp

/-- What a run did that gets its slot: it has its configuration, unless it had it already, and claims its
marker. -/
theorem deeds_enter (hs : r.Sound setup) {b : Bytes} (hr : r.phase = .reading ∨ r.phase = .queued b)
    (now : Nat) (s : Shared) (c : Bytes) (e : Event) :
    r.deeds setup e (enter setup now s r c).2 =
      r.lastCall setup e ++ [.claim (enter setup now s r c).2.claimed] := by
  have hdeadline := hs.untimed hr
  have hnot : (enter setup now s r c).2.phase ≠ r.phase := by
    rcases enter_phase setup now s r c with ⟨place, left, hp, -⟩ | ⟨finding, hp⟩ <;>
    rcases hr with hr | hr <;>
    · rw [hp, hr]
      simp
  have htimed : (enter setup now s r c).2.deadline.isSome = true := by
    have hc := enter_claimedAt setup now s r c
    unfold claimedAt at hc
    cases hd : (enter setup now s r c).2.deadline with
    | none =>
      rw [hd] at hc
      cases hc
    | some d => rfl
  exact deeds_claims hnot hdeadline htimed (hs.not_holds hdeadline)

end Moves

/-! ### Level runs -/

/-- The marker of a run's name alone (`m`) and beside others (`m'`), given what it was at the start: nobody has
touched it while the run has not claimed it, both hold one while the run does, and both hold the same
otherwise. -/
structure Marked (m₀ m m' : Markers) (r : Run) : Prop where
  ttl : m.ttl = m₀.ttl
  ttl' : m'.ttl = m₀.ttl
  untouched : r.deadline = none →
    m.entries.find? r.name = m₀.entries.find? r.name ∧
      m'.entries.find? r.name = m₀.entries.find? r.name
  held : r.holds = true →
    (m.entries.find? r.name).isSome = true ∧ (m'.entries.find? r.name).isSome = true
  free : r.holds = false → m'.entries.find? r.name = m.entries.find? r.name

/-- Whether a run beside others (`r'`) is as far as the run that is alone (`r`), with the deeds of both: it is
abreast of it, or has read its configuration already and waits for a slot. -/
inductive Level (r r' : Run) (l l' : List Deed) : Prop
  | abreast (h : Twin r r') (hq : ∀ b, r.phase ≠ .queued b) (hl : l' = l)
  | waiting (b : Bytes) (h : Twin { r with phase := .queued b } r') (hr : r.phase = .reading)
      (hc : r.cancelled = false) (hl : l' = l ++ [Run.read r.request b])

section Level

variable {setup : Setup} {m₀ m m' m₁ m₁' : Markers} {r r' r₁ r₁' : Run} {l l' : List Deed}

theorem Marked.read_iff (h : Marked m₀ m m' r) (hd : r.deadline = none) (now now' : Nat)
    (hl : m₀.read now r.name = some true ↔ m₀.read now' r.name = some true) :
    m'.read now' r.name = some true ↔ m.read now r.name = some true := by
  obtain ⟨hm, hm'⟩ := h.untouched hd
  have hread : ∀ k : Markers, k.ttl = m₀.ttl → k.entries.find? r.name = m₀.entries.find? r.name →
      ∀ t, k.read t r.name = m₀.read t r.name := by
    intro k hk hf t
    have hlive : k.isLive t = m₀.isLive t := funext fun t' => by rw [Markers.isLive, Markers.isLive, hk]
    rw [Markers.read, Markers.read, hf, hlive]
  rw [hread m' h.ttl' hm', hread m h.ttl hm, hl]

/-- When both make the same move, what is said of the marker stays true. -/
theorem Marked.both (h : Marked m₀ m m' r) (ha : Turned r.name m r.holds m₁ r₁.holds)
    (hb : Turned r.name m' r.holds m₁' r₁.holds) (hn : r₁.name = r.name)
    (hd : r₁.deadline = none → r.deadline = none ∧ r.holds = false ∧ r₁.holds = false) :
    Marked m₀ m₁ m₁' r₁ := by
  have huntouched := h.untouched
  have hheld := h.held
  have hfree := h.free
  generalize r.holds = before at ha hb hd hheld hfree
  refine ⟨ha.ttl.trans h.ttl, hb.ttl.trans h.ttl', fun hd₁ => ?_, fun hh => ?_, fun hh => ?_⟩
  · obtain ⟨hd₀, rfl, hh₁⟩ := hd hd₁
    rw [hh₁] at ha hb
    rw [hn]
    cases ha
    cases hb
    exact huntouched hd₀
  · rw [hh] at ha hb
    rw [hn]
    cases ha with
    | stays =>
      cases hb
      exact hheld rfl
    | sets =>
      cases hb
      rw [Markers.find?_set, Markers.find?_set, if_pos rfl, if_pos rfl]
      exact ⟨rfl, rfl⟩
  · rw [hh] at ha hb
    rw [hn]
    cases ha with
    | stays =>
      cases hb
      exact hfree rfl
    | deletes =>
      cases hb
      rw [Markers.find?_delete, Markers.find?_delete, if_pos rfl, if_pos rfl]

/-- What others do to their markers changes nothing of what is said. -/
theorem Marked.others (h : Marked m₀ m m' r) {name : String} {holds holds' : Bool}
    (hb : Turned name m' holds m₁' holds') (hn : r.name ≠ name) : Marked m₀ m m₁' r := by
  have hf := hb.find?_of_ne hn
  exact ⟨h.ttl, hb.ttl.trans h.ttl', fun hd => ⟨(h.untouched hd).1, hf.trans (h.untouched hd).2⟩,
    fun hh => ⟨(h.held hh).1, by rw [hf]; exact (h.held hh).2⟩, fun hh => hf.trans (h.free hh)⟩

theorem Level.same (h : Level r r' l l') :
    r'.holds = r.holds ∧ r'.name = r.name ∧ r'.request = r.request := by
  cases h with
  | abreast h =>
    cases h
    exact ⟨rfl, rfl, rfl⟩
  | waiting b h hr =>
    cases h
    exact ⟨by simp [holds, hr], rfl, rfl⟩

end Level

/-! ### The configuration -/

section Configuration

variable {setup : Setup} {r : Run}

theorem heeded_eq (hc : r.cancelled = false) (e : Event) : r.heeded e = e := by
  cases e <;> simp [heeded, hc]

theorem step_configuration (setup : Setup) (now : Nat) (s : Shared) (hr : r.phase = .reading)
    (hc : r.cancelled = false) (b : Bytes) :
    (r.step setup now s (.configuration (.ok b))).1 =
      match s.slots.acquire r.number with
      | (true, slots) => enter setup now { s with slots } r b
      | (false, slots) => ({ s with slots }, { r with phase := .queued b }) := by
  have hh := heeded_eq hc (.configuration (.ok b))
  have hq : (r.step setup now s (.configuration (.ok b))).1 = queue setup now s r b := by
    simp only [step, hh, react, hr]
  refine hq.trans ?_
  cases hs : s.slots.acquire r.number with
  | mk taken slots => cases taken <;> simp [queue, hc, hs]

theorem step_admitted (setup : Setup) (now : Nat) {s : Shared} (hr : r.phase = .reading)
    (hc : r.cancelled = false) (hf : 0 < s.slots.free) (b : Bytes) :
    ∃ slots, (r.step setup now s (.configuration (.ok b))).1 = enter setup now { s with slots } r b := by
  have hacquire : s.slots.acquire r.number = (true, { s.slots with free := s.slots.free - 1 }) := if_pos hf
  refine ⟨{ s.slots with free := s.slots.free - 1 }, ?_⟩
  rw [step_configuration setup now s hr hc b, hacquire]

theorem eq_of_enters {e : Event} (h : r.enters e = true) :
    ∃ b, e = .configuration (.ok b) ∧ r.phase = .reading ∧ r.cancelled = false := by
  unfold enters at h
  split at h
  · rename_i b
    split at h
    · rename_i hr
      exact ⟨b, rfl, hr, by simpa using h⟩
    · cases h
  · cases h

/-- A run that waits for a slot gets one, stops when it is told to, or goes on waiting. -/
theorem step_queued (setup : Setup) (now : Nat) (s : Shared) {b : Bytes} (hr : r.phase = .queued b)
    (hc : r.cancelled = false) {e : Event} (he : e.isCalm = true) :
    (e = .slot ∧ ∃ slots, s.slots.takeUp r.number = (true, slots) ∧
        (r.step setup now s e).1 = enter setup now { s with slots } r b) ∨
      (e = .cancel ∧ (r.step setup now s e).1 =
        ({ s with slots := s.slots.giveUp r.number },
          { r with cancelled := true, phase := .ended (.error (.cancelled r.name)) })) ∨
      (r.step setup now s e).1 = (s, r) := by
  have hslot : r.holdsSlot = false := by simp [holdsSlot, hr]
  unfold step
  rw [heeded_eq hc]
  cases e with
  | slot =>
    cases ht : s.slots.takeUp r.number with | mk taken slots =>
    cases taken with
    | true => exact .inl ⟨rfl, slots, rfl, by simp only [react, hr, ht]⟩
    | false => exact .inr (.inr (by simp only [react, hr, ht]))
  | cancel => exact .inr (.inl ⟨rfl, by simp only [react, cancel, hr, finish, name]⟩)
  | timeout => exact .inr (.inr (by simp only [react, expire, hslot, Bool.false_eq_true, if_false]))
  | configuration | file | container | stored => exact .inr (.inr (by simp only [react, hr]))
  | panic | drop => cases he

/-- A run that is told to stop while it reads remembers it, and stops when it has its configuration. -/
theorem step_stopped (setup : Setup) (now : Nat) (s : Shared) (hr : r.phase = .reading) :
    (r.step setup now s .cancel).1 = (s, { r with cancelled := true }) ∧
      (r.cancelled = true → ∀ b : Bytes, (r.step setup now s (.configuration (.ok b))).1 =
        (s, r.finish (.error (.cancelled r.name)))) := by
  have hslot : r.holdsSlot = false := by simp [holdsSlot, hr]
  have hlistens : r.listens = false := by simp [listens, hr, hslot]
  refine ⟨?_, fun hc b => ?_⟩
  · have hh : r.heeded .cancel = .cancel := by simp [heeded]
    have htold : ({ r with cancelled := true, phase := .reading } : Run).holdsSlot = false := rfl
    simp only [step, hh, react, cancel, hr, htold, Bool.false_eq_true, if_false]
  · have hh : r.heeded (.configuration (.ok b)) = .configuration (.ok b) := by
      simp [heeded, hlistens]
    simp only [step, hh, react, hr, queue, hc, if_true]

theorem deeds_stopsEarly (hs : r.Sound setup) (hr : r.phase = .reading) (b : Bytes)
    (result : Except Failure Report) :
    r.deeds setup (r.heeded (.configuration (.ok b))) (r.finish result) = [read r.request b] := by
  have hdeadline := hs.untimed (b := b) (.inl hr)
  have hslot : r.holdsSlot = false := by simp [holdsSlot, hr]
  have hh : r.heeded (.configuration (.ok b)) = .configuration (.ok b) := by
    simp [heeded, listens, hr, hslot]
  have hgoesOn : (r.finish result).phase = r.phase → r.call? setup = none := by
    simp [finish, hr]
  rw [deeds_goesOn hgoesOn rfl (hs.not_holds hdeadline).symm, hh]
  simp [lastCall, call?, hr, read]

theorem deeds_gaveUp (hs : r.Sound setup) {b : Bytes} (hr : r.phase = .queued b) (e : Event)
    (result : Except Failure Report) :
    r.deeds setup e { r with cancelled := true, phase := .ended result } = [] := by
  have hcall : r.call? setup = none := by simp [call?, hr]
  have hends : ({ r with cancelled := true, phase := .ended result } : Run).holds = r.holds :=
    (hs.not_holds (hs.untimed (.inr hr))).symm
  rw [deeds_goesOn (fun _ => hcall) (by rfl) hends]
  simp [lastCall, hcall]

end Configuration

end Run

end RunDispatch
