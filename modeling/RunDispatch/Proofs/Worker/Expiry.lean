/-
# When a marker expires under its run

A run deletes the marker under its name, and removes the container under its name, whosever they are. As
long as no marker expires while its run is under way, that is no loss: the marker of a run is its own,
and so is the container, unless a run that is over left it behind.

And that is as long as it goes. Nothing bounds how long a run may go on after its claim, and as soon as
its marker has expired, a second run of the same name can claim it; then the first deletes the marker of
the second. In the same way a container that no live marker guards is removed by whichever run comes
next. A free slot is all it takes.

Key definitions: `Takes`, `Removes`, `ReleasesOwn`, `Exposed`.
Key theorems: `History.winner_eq`, `History.takes_own`, `History.removes_own`, `History.taken`,
`History.removed`.
-/
import RunDispatch.Proofs.Worker.Remains

namespace RunDispatch

/-! ### The last steps of a run -/

namespace Run

/-- A run that has just claimed its marker. -/
def entered (setup : Setup) (now number : Nat) (q : Request) (configuration : Bytes) : Run :=
  { start number q with
    deadline := some (now + setup.activityTimeout)
    claimed := true
    phase := .staging (firstStep q.kind.stagingMode) ((start number q).payloads configuration) }

/-- A run gets its slot, if one is free, and claims its marker, if none is live. -/
theorem step_claims {setup : Setup} {s : Shared} {q : Request} {now : Nat} (number : Nat)
    (configuration : Bytes) (hf : 0 < s.slots.free)
    (hl : s.markers.read now q.containerName ≠ some true) :
    ((start number q).step setup now s (.configuration (.ok configuration))).1 =
      ({ s with
          slots := { s.slots with free := s.slots.free - 1 }
          markers := s.markers.set now q.containerName },
        entered setup now number q configuration) := by
  have hc : s.markers.claim now q.containerName = (true, s.markers.set now q.containerName) :=
    if_neg hl
  have ha : s.slots.acquire number = (true, { s.slots with free := s.slots.free - 1 }) := if_pos hf
  simp only [step, heeded, start, Bool.false_and, Bool.false_eq_true, if_false, react, queue, ha, enter,
    name, hc]
  rfl

theorem deeds_entered (setup : Setup) (now number : Nat) (q : Request) (configuration : Bytes) :
    (start number q).deeds setup (.configuration (.ok configuration))
      (entered setup now number q configuration) = launching q configuration :=
  deeds_claims (by simp [entered, start]) rfl rfl rfl

/-- A run that was told to stop while it had its slot: its container is to be removed. -/
def stopped (r : Run) : Run :=
  { r with cancelled := true, guarded := [], phase := .compensating (.cancelled r.name) }

theorem step_stops {setup : Setup} {s : Shared} {r : Run} {now : Nat} (hs : r.holdsSlot = true)
    (hc : r.claimed = true) :
    (r.step setup now s .cancel).1 = ((interrupt setup s r).1, r.stopped) := by
  have he : r.heeded .cancel = .cancel := by
    simp [heeded]
  have hcan : cancel setup s r = ((interrupt setup s r).1, r.stopped) := by
    unfold cancel
    dsimp only
    split
    · rename_i b hb
      have hb : r.phase = .queued b := hb
      simp [holdsSlot, hb] at hs
    · split
      · rw [fail_of_claimed]
        · rfl
        · exact hc
        · rfl
      · contradiction
  simp only [step, he, react, hcan]

theorem deeds_stopped {setup : Setup} {r : Run} {e : Event} (hs : r.holdsSlot = true)
    (hc : r.call? setup = none) : r.deeds setup e r.stopped = [] := by
  have hh : r.stopped.holds = r.holds := (holds_of_holdsSlot hs).symm
  have hd : r.stopped.deadline = r.deadline := rfl
  rw [deeds_goesOn (fun _ => hc) hd hh]
  simp [lastCall, hc]

theorem not_isOver_of_call {setup : Setup} {r : Run} {c : Call} (h : r.call? setup = some c) :
    r.isOver = false := by
  unfold call? at h
  unfold isOver
  split at h <;> simp_all

/-- A run that is only to be told that its state is stored, or its container removed. -/
def AtLastCall (r : Run) : Prop :=
  (∃ finding, r.phase = .recording finding) ∨ ∃ f, r.phase = .compensating f

theorem step_deletes {r : Run} (h : r.AtLastCall) (hc : r.claimed = true) :
    ∃ e, ∀ setup now s, (r.step setup now s e).1.1.markers = (s.markers.delete r.name).2 := by
  rcases h with ⟨finding, h⟩ | ⟨f, h⟩
  · refine ⟨.stored (.ok ()), fun setup now s => ?_⟩
    have he : r.heeded (.stored (.ok ())) = .stored (.ok ()) := by
      simp [heeded, listens, holdsSlot, h]
    simp [step, he, react, h, recorded, dropMarker, hc]
  · refine ⟨.container .done, fun setup now s => ?_⟩
    have he : r.heeded (.container .done) = .container .done := by
      simp [heeded, listens, holdsSlot, h]
    simp [step, he, react, h, dropMarker, hc]

/-- A run under way that holds its marker is at its last call, or comes to it in one step, and the
marker stays till then. -/
theorem last_or_next {setup : Setup} {r : Run} (hs : r.Sound setup) (ho : r.isOver = false)
    (hh : r.holds = true) :
    r.AtLastCall ∨ ∃ e, ∀ now s, (r.step setup now s e).1.1.markers = s.markers ∧
      (r.step setup now s e).1.2.AtLastCall ∧ (r.step setup now s e).1.2.claimed = true := by
  have hc := claimed_of_holds hh
  have hp := hs.place
  have hslot : r.holdsSlot = true → ∃ e, ∀ now s, (r.step setup now s e).1.1.markers = s.markers ∧
      (r.step setup now s e).1.2.AtLastCall ∧ (r.step setup now s e).1.2.claimed = true := by
    intro hl
    refine ⟨.cancel, fun now s => ?_⟩
    rw [step_stops hl hc]
    exact ⟨interrupt_markers, .inr ⟨_, rfl⟩, hc⟩
  unfold InPlace at hp
  cases h : r.phase with
  | reading | queued =>
    simp only [h] at hp
    rw [hp.1] at hc
    cases hc
  | staging | living | releasing => exact .inr (hslot (by simp [holdsSlot, h]))
  | retrying exit =>
    refine .inr ⟨.container .done, fun now s => ?_⟩
    have he : r.heeded (.container .done) = .container .done := by
      simp [heeded, listens, holdsSlot, h]
    simp [step, he, react, h, retried, AtLastCall, hc]
  | recording finding => exact .inl (.inl ⟨finding, h⟩)
  | compensating f => exact .inl (.inr ⟨f, h⟩)
  | ended | broken | dropped => simp [isOver, h] at ho

end Run

namespace Worker

/-- A step of run `i` takes away the marker that the claim of run `j` set. -/
def Takes (log : List Entry) (w : Worker) (now : Nat) (i : Nat) (e : Run.Event) (j : Nat) : Prop :=
  ∃ n, winner n log = some j ∧ (w.shared.markers.entries.find? n).isSome = true ∧
    (w.heed now (.run i e)).shared.markers.entries.find? n = none

/-- Run `i` has asked the runtime to remove the container that run `j` made. -/
def Removes (made : Run.Event → Bool) (log : List Entry) (w : Worker) (i j : Nat) : Prop :=
  ∃ r n, w.run? i = some r ∧ r.call? w.setup = some (.container (.remove n)) ∧
    maker made n log = some j

def playAt (now : Nat) (p : List Entry × Worker) (events : List Event) : List Entry × Worker :=
  play p (events.map fun e => (now, e))

/-- A run of a request is spawned and gets its configuration. -/
def newcomer (w : Worker) (q : Request) : List Event :=
  [.spawn q false, .run w.tasks.length (.configuration (.ok []))]

section Histories

variable {P : Nat → Worker → Prop} {w₀ w : Worker} {now : Nat} {log : List Entry}

theorem History.mono {Q : Nat → Worker → Prop} (h : History P w₀ now log w)
    (hPQ : ∀ now w, P now w → Q now w) : History Q w₀ now log w := by
  induction h with
  | start => exact .start _
  | step h ht e hP ih => exact ih.step ht e (hPQ _ _ hP)

/-! ### As long as no marker expires -/

/-- **The last who claimed a name** is the run that holds it. -/
theorem History.winner_eq {all : Bool} (h : History (Timely all) w₀ now log w) (h0 : Idle w₀)
    {i : Nat} {r : Run} (hr : w.run? i = some r) (hc : r.counted all = true) :
    winner r.name log = some i := by
  refine h.along (C := fun _ log w => ∀ i r, w.run? i = some r → r.counted all = true →
    winner r.name log = some i) (fun _ i r hr => ?_) ?_ i r hr hc
  · simp [run?, h0.tasks] at hr
  · intro now now' log w w' entries h ht hP hset hch ih i t ht htc
    rw [winner_append]
    cases hch with
    | acts number r e hr ho hs hw =>
      have hm := h.move h0.tasks hr now' e
      rw [← hs] at hm
      have hsound := fun i t (ht : w.run? i = some t) => h.sound h0.tasks ht
      have hself := hw number
      rw [if_pos rfl] at hself
      have hname := congrArg Request.containerName hm.same.2
      -- A run that claims the name is the one that holds it from then on.
      by_cases hc : .claim true ∈ r.deeds w.setup (r.heeded e)
          (r.step w.setup now' w.shared e).1.2 ∧ t.name = r.name
      · obtain ⟨hc, hn⟩ := hc
        obtain ⟨-, hh, hov, -⟩ := hm.wins (hsound number r hr) hc
        have hkept := (h.kept h0).acts hsound hr ho hm hw hset (hm.ttl (hsound number r hr)) hP
        rw [hn, winner_of_claim hc, Option.some_or,
          hkept.alone i number t _ ht hself htc (Run.counted_of_holds hh hov) (hn.trans hname.symm)]
      · rw [winner_eq_none hc, Option.none_or]
        rw [hw i] at ht
        split at ht
        · rename_i hi
          cases ht
          have hk : r.holds = true := by
            have hh' := Run.holds_of_counted htc
            rcases hm.markers (hsound number r hr) with ⟨-, hk, -⟩ | ⟨-, -, -, hk, hd, ht⟩ | ⟨-, -, hk⟩
            · exact hk ▸ hh'
            · exact absurd ⟨Run.claim_mem_of_holds hd hk ht, hname⟩ hc
            · rw [hk] at hh'
              cases hh'
          rw [hi, ← ih number r hr (Run.counted_of_holds hk ho)]
          exact congrArg (winner · log) hname
        · exact ih i t ht htc
    | rests hw hm =>
      obtain ⟨u, hu, huc, hun, -⟩ := (hw i).counted ht htc
      rw [← hun, ih i u hu huc]
      rfl

/-- A run takes away no marker but its own. -/
theorem History.takes_own (h : History (Timely false) w₀ now log w) (h0 : Idle w₀) {now' i j : Nat}
    {e : Run.Event} (ht : Takes log w now' i e j) : j = i := by
  obtain ⟨n, hj, hn, hn'⟩ := ht
  obtain ⟨t, ht⟩ := Option.isSome_iff_exists.mp hn
  cases hr : w.run? i with
  | none =>
    have hi : w.tasks[i]? = none := by simpa [run?] using hr
    simp [heed, deliver, hi, ht] at hn'
  | some r =>
    cases ho : r.isOver with
    | true =>
      rw [(heed_over hr ho now' e).1, ht] at hn'
      cases hn'
    | false =>
      rw [(heed_run hr ho now' e).1] at hn'
      have hs := h.sound h0.tasks hr
      rcases (h.move h0.tasks hr now' e).markers hs with ⟨hk, -⟩ | ⟨hk, -⟩ | ⟨hk, hh, -⟩
      · rw [hk, ht] at hn'
        cases hn'
      · rw [hk, Markers.find?_set, ht] at hn'
        split at hn' <;> cases hn'
      · rw [hk, Markers.find?_delete, ht] at hn'
        split at hn'
        · rename_i hnr
          rw [hnr, h.winner_eq h0 hr (Run.counted_of_holds hh ho)] at hj
          exact (Option.some.inj hj).symm
        · cases hn'

theorem History.alone (h : History (Timely false) w₀ now log w) (h0 : Idle w₀) {i j : Nat}
    {r t : Run} {ask ask' : Container.Ask} {n : String} (hr : w.run? i = some r)
    (ha : r.call? w.setup = some (.container ask)) (hn : ask.subject? = some n)
    (ht : w.run? j = some t) (ha' : t.call? w.setup = some (.container ask'))
    (hn' : ask'.subject? = some n) : j = i := by
  obtain ⟨hh, hs⟩ := asks_own (h.sound h0.tasks hr) ha
  obtain ⟨hh', hs'⟩ := asks_own (h.sound h0.tasks ht) ha'
  refine (h.kept h0).alone j i t r ht hr (Run.counted_of_holds hh' (Run.not_isOver_of_call ha'))
    (Run.counted_of_holds hh (Run.not_isOver_of_call ha)) ?_
  rw [← hs n hn, ← hs' n hn']

/-- A run removes no container but its own, or one that a run which is over left behind. -/
theorem History.removes_own (h : History (Timely false) w₀ now log w) (h0 : Idle w₀)
    {made : Run.Event → Bool} {i j : Nat} (hr : Removes made log w i j) :
    j = i ∨ LeftBehind log w j := by
  obtain ⟨r, n, hr, ha, hm⟩ := hr
  obtain ⟨hh, hs⟩ := asks_own (h.sound h0.tasks hr) ha
  obtain ⟨t, ht, htn, htj⟩ := h.stands h0.tasks hm
  cases ho : t.isOver with
  | true =>
    refine .inr ⟨t, ht, ho, fun ⟨x, hx⟩ => ?_⟩
    rw [htn]
    rcases htj with hth | ⟨-, hf⟩
    · simp [Run.holds, hx] at hth
    · exact hf
  | false =>
    left
    rcases htj with hth | ⟨⟨x, hx⟩, -⟩
    · refine (h.kept h0).alone j i t r ht hr (Run.counted_of_holds hth ho)
        (Run.counted_of_holds hh (Run.not_isOver_of_call ha)) ?_
      rw [htn, hs n rfl]
    · simp [Run.isOver, hx] at ho

/-! ### Once a marker has expired -/

theorem playAt_append (now : Nat) (p : List Entry × Worker) (a b : List Event) :
    playAt now p (a ++ b) = playAt now (playAt now p a) b := by
  simp only [playAt, play, List.map_append, List.foldl_append]

/-- What a newcomer does that finds a free slot and no live marker: it claims the name. -/
structure Arrives (now : Nat) (q : Request) (log : List Entry) (w : Worker)
    (p : List Entry × Worker) : Prop where
  setup : p.2.setup = w.setup
  markers : p.2.shared.markers = w.shared.markers.set now q.containerName
  run : ∃ r place left, p.2.run? w.tasks.length = some r ∧ r.name = q.containerName ∧
    r.claimed = true ∧ r.phase = .staging place left
  others : ∀ i, i < w.tasks.length → p.2.run? i = w.run? i
  log : p.1 = log ++ (Run.launching q []).map fun d => ⟨w.tasks.length, q.containerName, d⟩

theorem newcomer_arrives {q : Request} (log : List Entry) (hf : 0 < w.shared.slots.free)
    (hl : w.shared.markers.read now q.containerName ≠ some true) :
    Arrives now q log w (playAt now (log, w) (w.newcomer q)) := by
  have hr : (w.spawn q false).1.run? w.tasks.length = some (Run.start w.tasks.length q) := by
    simp [spawn, run?, Run.start]
  have hstep : ((Run.start w.tasks.length q).step (w.spawn q false).1.setup now
      (w.spawn q false).1.shared (.configuration (.ok []))).1 = _ :=
    Run.step_claims w.tasks.length [] hf hl
  obtain ⟨hs, hw, hd⟩ := heed_run hr rfl now (.configuration (.ok []))
  rw [hstep] at hs hw hd
  refine ⟨heed_setup (w.spawn q false).1 now _, congrArg Run.Shared.markers hs, ?_, fun i hi => ?_, ?_⟩
  · exact ⟨_, _, _, (hw w.tasks.length).trans (if_pos rfl), rfl, rfl, rfl⟩
  · refine (hw i).trans ((if_neg (Nat.ne_of_lt hi)).trans ?_)
    simp only [spawn, run?, List.getElem?_append_left hi]
  · have hlaunch := Run.deeds_entered w.setup now w.tasks.length q []
    refine (congrArg (log ++ [] ++ ·) (hd.trans (congrArg _ hlaunch))).trans ?_
    rw [List.append_nil]
    rfl

/-- A run under way whose name another run was the last to claim takes away the marker of that run. -/
theorem exists_takes {i j : Nat} {r : Run} (hs : r.Sound w.setup) (hr : w.run? i = some r)
    (ho : r.isOver = false) (hh : r.holds = true) (hj : winner r.name log = some j)
    (hn : (w.shared.markers.entries.find? r.name).isSome = true) (now : Nat) :
    ∃ events e,
      Takes (playAt now (log, w) events).1 (playAt now (log, w) events).2 now i e j := by
  -- At its last call the run deletes the marker with the answer.
  have hlast : ∀ (w' : Worker) (r' : Run), w'.run? i = some r' → r'.AtLastCall → r'.claimed = true →
      r'.name = r.name → ∃ e, (w'.heed now (.run i e)).shared.markers.entries.find? r.name = none := by
    intro w' r' hr' hl hc hname
    obtain ⟨e, he⟩ := Run.step_deletes hl hc
    have ho' : r'.isOver = false := by
      rcases hl with ⟨f, hf⟩ | ⟨f, hf⟩ <;> simp [Run.isOver, hf]
    refine ⟨e, ?_⟩
    rw [(heed_run hr' ho' now e).1, he, hname, Markers.find?_delete, if_pos rfl]
  rcases Run.last_or_next hs ho hh with hl | ⟨e₁, h₁⟩
  · obtain ⟨e, he⟩ := hlast w r hr hl (Run.claimed_of_holds hh) rfl
    exact ⟨[], e, r.name, hj, hn, he⟩
  · obtain ⟨hs₁, hw₁, hd₁⟩ := heed_run hr ho now e₁
    obtain ⟨hm, hl, hc⟩ := h₁ now w.shared
    have hmove : Run.Move w.setup now w.shared r _ _ _ := Run.step_move hs e₁
    have hname := congrArg Request.containerName hmove.same.2
    obtain ⟨e, he⟩ := hlast _ _ ((hw₁ i).trans (if_pos rfl)) hl hc hname
    refine ⟨[.run i e₁], e, r.name, ?_, ?_, he⟩
    · show winner r.name (log ++ w.deeds now (.run i e₁)) = some j
      rw [hd₁, winner_append, winner_eq_none, Option.none_or, hj]
      rintro ⟨hclaim, -⟩
      have hn := hs.not_holds_of_claims hclaim
      rw [hh] at hn
      cases hn
    · show ((w.heed now (.run i e₁)).shared.markers.entries.find? r.name).isSome = true
      rw [hs₁, hm]
      exact hn

/-- **An expired marker gives the name away.** Once the marker of a run under way has expired, it comes
to take away the marker of another run, one that claims the name now if none has. -/
theorem History.taken (h : History P w₀ now log w) (h0 : Idle w₀) {i c now' : Nat} {r : Run}
    (hr : w.run? i = some r) (ho : r.isOver = false) (hh : r.holds = true)
    (hc : r.claimedAt w.setup = some c) (hx : w.shared.markers.ttl ≤ now' - c)
    (hf : 0 < w.shared.slots.free) {q : Request} (hq : q.containerName = r.name) :
    ∃ events e j, j ≠ i ∧
      Takes (playAt now' (log, w) events).1 (playAt now' (log, w) events).2 now' i e j := by
  have hs := h.sound h0.tasks hr
  by_cases hl : w.shared.markers.read now' r.name = some true
  · -- Another run has claimed the name already.
    obtain ⟨t, ht, hlive⟩ := Markers.read_eq_some_true_iff.mp hl
    obtain ⟨s₀, hco⟩ := h.course h0.tasks hr
    obtain ⟨entry, hentry, hd⟩ := List.mem_map.mp (hco.claimed hh)
    obtain ⟨hentry, hi⟩ := List.mem_filter.mp hentry
    obtain ⟨r', hr', hn⟩ := h.named h0.tasks hentry
    have hi : entry.run = i := by simpa using hi
    rw [hi, hr] at hr'
    cases hr'
    obtain ⟨j, hj⟩ := winner_of_mem hentry hn.symm hd
    obtain ⟨u, hu, -, -, hut⟩ := h.owned h0 r.name j t hj ht
    obtain ⟨events, e, hT⟩ := exists_takes hs hr ho hh hj (by rw [ht]; rfl) now'
    refine ⟨events, e, j, fun hji => ?_, hT⟩
    rw [hji, hr] at hu
    cases hu
    rw [hc] at hut
    cases hut
    omega
  · rw [← hq] at hl
    have ha := newcomer_arrives log hf hl
    have hi : i < w.tasks.length := by
      obtain ⟨t, ht, -⟩ := task_of_run? hr
      exact (List.getElem?_eq_some_iff.mp ht).1
    have hj : winner r.name (playAt now' (log, w) (w.newcomer q)).1 = some w.tasks.length := by
      rw [ha.log, winner_append, ← hq, winner_of_claim (by simp [Run.launching]), Option.some_or]
    have hn : ((playAt now' (log, w) (w.newcomer q)).2.shared.markers.entries.find? r.name).isSome =
        true := by
      rw [ha.markers, Markers.find?_set, if_pos hq.symm]
      rfl
    have hs' : r.Sound (playAt now' (log, w) (w.newcomer q)).2.setup := by
      rw [ha.setup]
      exact hs
    obtain ⟨events, e, hT⟩ := exists_takes hs' ((ha.others i hi).trans hr) ho hh hj hn now'
    refine ⟨w.newcomer q ++ events, e, w.tasks.length, by omega, ?_⟩
    rw [playAt_append]
    exact hT

/-- **A container that no live marker guards** comes to be removed by the next run of its name. -/
theorem History.removed (h : History P w₀ now log w) (h0 : Idle w₀) {made : Run.Event → Bool}
    {n : String} {j now' : Nat} (hm : maker made n log = some j)
    (hl : w.shared.markers.read now' n ≠ some true) (hf : 0 < w.shared.slots.free) {q : Request}
    (hq : q.containerName = n) :
    ∃ events i, i ≠ j ∧
      Removes made (playAt now' (log, w) events).1 (playAt now' (log, w) events).2 i j := by
  obtain ⟨t, ht, -⟩ := h.stands h0.tasks hm
  have hj : j < w.tasks.length := by
    obtain ⟨t, ht, -⟩ := task_of_run? ht
    exact (List.getElem?_eq_some_iff.mp ht).1
  rw [← hq] at hl
  have ha := newcomer_arrives log hf hl
  obtain ⟨r, place, left, hr, hrn, hc, hph⟩ := ha.run
  have ho : r.isOver = false := by simp [Run.isOver, hph]
  have hslot : r.holdsSlot = true := by simp [Run.holdsSlot, hph]
  refine ⟨w.newcomer q ++ [.run w.tasks.length .cancel], w.tasks.length, by omega, ?_⟩
  rw [playAt_append]
  generalize playAt now' (log, w) (w.newcomer q) = p at ha hr ⊢
  obtain ⟨-, hw₁, hd₁⟩ := heed_run hr ho now' .cancel
  rw [Run.step_stops hslot hc] at hw₁ hd₁
  refine ⟨_, n, (hw₁ _).trans (if_pos rfl), ?_, ?_⟩
  · simp only [Run.call?, ← hq, ← hrn]
    rfl
  · -- What the newcomer does is no call about a container.
    have hcall : r.call? p.2.setup = none := by simp [Run.call?, hph]
    rw [Run.deeds_stopped hslot hcall, List.map_nil] at hd₁
    show maker made n (p.1 ++ p.2.deeds now' (.run w.tasks.length .cancel)) = some j
    rw [hd₁, List.append_nil, ha.log, maker_append, hm]
    rfl

end Histories

/-! ### What a run releases -/

/-- What runs release is their own. -/
structure ReleasesOwn (log : List Entry) (w : Worker) : Prop where
  marker : ∀ now i e j, Takes log w now i e j → j = i
  /-- Containers are removed by the runs that made them, or when those are over and left them behind. -/
  container : ∀ made i j, Removes made log w i j → j = i ∨ LeftBehind log w j
  /-- While a run has its container removed, no other run asks the runtime about a container of that
  name. -/
  alone : ∀ i j r t ask n, w.run? i = some r → r.call? w.setup = some (.container (.remove n)) →
    w.run? j = some t → t.call? w.setup = some (.container ask) → ask.subject? = some n → j = i

/-- What may be released of others, by a run of any request of the name, when a slot is free. -/
structure Exposed (now : Nat) (log : List Entry) (w : Worker) : Prop where
  /-- Once the marker of a run under way has expired, the run can come to take away that of another. -/
  marker : ∀ now' i r c (q : Request), now ≤ now' → w.run? i = some r → r.isOver = false →
    r.holds = true → r.claimedAt w.setup = some c → w.shared.markers.ttl ≤ now' - c →
    0 < w.shared.slots.free → q.containerName = r.name →
    ∃ events e j, j ≠ i ∧
      Takes (playAt now' (log, w) events).1 (playAt now' (log, w) events).2 now' i e j
  /-- A container that stands under a name without a live marker can come to be removed by another run
  than its own. -/
  container : ∀ now' made n j (q : Request), now ≤ now' → maker made n log = some j →
    w.shared.markers.read now' n ≠ some true → 0 < w.shared.slots.free → q.containerName = n →
    ∃ events i, i ≠ j ∧
      Removes made (playAt now' (log, w) events).1 (playAt now' (log, w) events).2 i j

/-- **Runs release what they own exactly as long as their markers live.** In whatever order the runs
take their steps, fail and are interrupted: if no marker expires under a run that is under way, runs
release nothing of others but containers left behind; and from wherever a marker has expired under its
run, or a container has no live marker, it takes a free slot and no time for a run to release what
another owns. -/
theorem History.releases_own {P : Nat → Worker → Prop} {w₀ w : Worker} {now : Nat} {log : List Entry}
    (h : History P w₀ now log w) (h0 : Idle w₀) :
    ((∀ now w, P now w → Timely false now w) → ReleasesOwn log w) ∧ Exposed now log w := by
  refine ⟨fun hP => ?_, ?_, ?_⟩
  · have ht := h.mono hP
    exact ⟨fun _ _ _ _ => ht.takes_own h0, fun _ _ _ => ht.removes_own h0,
      fun _ _ _ _ _ _ hr ha hu ha' hn => ht.alone h0 hr ha rfl hu ha' hn⟩
  · intro now' i r c q _ hr ho hh hc hx hf hq
    exact h.taken h0 hr ho hh hc hx hf hq
  · intro now' made n j q _ hm hl hf hq
    exact h.removed h0 hm hl hf hq

/-- A run that makes its container, is told to stop and has its container removed. -/
def punctual : List (Nat × Event) :=
  [(0, .spawn Run.sampleRequest true), (1, .run 0 (.configuration (.ok []))), (2, .run 0 .file),
    (3, .run 0 .file), (4, .run 0 (.container .done)), (5, .run 0 (.container (.created "id"))),
    (6, .run 0 .cancel)]

theorem sample_releases_own :
    (Idle sample ∧ Scheduled (Timely false) 0 sample punctual) ∧
      ReleasesOwn (play ([], sample) punctual).1 (play ([], sample) punctual).2 ∧
        ∃ now, Exposed now (play ([], sample) punctual).1 (play ([], sample) punctual).2 :=
  have h0 : Idle sample := ⟨rfl, List.nodup_nil⟩
  have hs : Scheduled (Timely false) 0 sample punctual := by decide
  have ⟨now, h⟩ := History.play punctual (.start 0) hs
  ⟨⟨h0, hs⟩, (h.releases_own h0).1 fun _ _ h => h, now, (h.releases_own h0).2⟩

/-- The first run is told to stop, and the removal of its container takes longer than its marker lives.
Meanwhile the second run claims the name and has its container made. -/
def overtaken : List (Nat × Event) :=
  [(0, .spawn Run.sampleRequest true), (0, .spawn Run.sampleRequest true),
    (0, .run 0 (.configuration (.ok []))), (1, .run 0 .cancel),
    (2500, .run 1 (.configuration (.ok []))), (2501, .run 1 .file), (2502, .run 1 .file),
    (2503, .run 1 (.container .done)), (2504, .run 1 (.container (.created "id")))]

/-- Whether the runtime has told that a container was made. -/
def confirmed : Run.Event → Bool
  | .container (.created _) => true
  | _ => false

/-- The removal of the first run stops the container of the second, and its end takes away the marker of
the second. -/
theorem sample_overtaken :
    (Idle sample ∧ Scheduled (fun _ _ => True) 0 sample overtaken) ∧
      Takes (play ([], sample) overtaken).1 (play ([], sample) overtaken).2 2505 0
        (.container .done) 1 ∧
        Removes confirmed (play ([], sample) overtaken).1 (play ([], sample) overtaken).2 0 1 :=
  ⟨⟨⟨rfl, List.nodup_nil⟩, by decide⟩, ⟨"c", by decide, by decide, by decide⟩,
    ⟨_, "c", rfl, by decide, by decide⟩⟩

end Worker
end RunDispatch
