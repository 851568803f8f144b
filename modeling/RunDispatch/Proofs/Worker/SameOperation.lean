/-
# Which run a deduplicated run was a duplicate of

A run that finds a live marker under its name launches nothing, and stores that its connector is
connected. The marker was set by a run of the same name, which holds it still. Whether that run does the
same work is a matter of the names: derived names tell one operation of one connector from another, but a
trigger may ask for any name, and under a name that was asked for a run can be deduplicated against a run
of another connector or another operation.

Key definitions: `Found`, `Deduplicated`.
Key theorems: `History.marked`, `History.found`, `History.deduplicated`.
-/
import RunDispatch.Proofs.Run.Verdict
import RunDispatch.Proofs.Trigger
import RunDispatch.Proofs.Worker.Exclusion

namespace RunDispatch

namespace Run

/-- A run whose waiting for a call ended was to write if the call was a write. -/
theorem recording_of_writes_lastCall {setup : Setup} {q : Request} {phase : Phase} {e : Event}
    {x : String × Connector.Id × Connector.State × Event}
    (h : x ∈ writes ((inPhase q phase).lastCall setup e)) :
    ∃ finding, phase = .recording finding ∧
      x = (q.owner, q.connector, finding.outcome.connectivity, e) := by
  cases phase with
  | recording finding => exact ⟨finding, rfl, List.mem_singleton.mp h⟩
  | living stage => cases stage <;> cases h
  | reading | queued | staging | releasing | retrying | compensating | ended | broken | dropped =>
    cases h

/-- What a run writes that found another one dispatched: that its connector is connected. -/
theorem Account.writes_of_refused {setup : Setup} {q : Request} {phase : Phase} {log : List Deed}
    (h : Account setup q phase log) (hc : .claim false ∈ log) :
    ∀ x ∈ writes log, ∃ answer, x = (q.owner, q.connector, .connected, answer) := by
  induction h with
  | reading | unread => simp at hc
  | queued | stopped => simp [read] at hc
  | staging | unstaged => simp [launching, read] at hc
  | living | releasing | retrying | removed | fails | lacksImage =>
    simp [launching, read, exchanged] at hc
  | triedAgain => simp [launching, read, exchanged, removal] at hc
  | found b => simp [writes, read, Deed.write?]
  | interrupted h hs e f hf ih =>
    obtain ⟨b, l, rfl⟩ := h.of_holdsSlot hs
    simp [launching, read, exchanged, claim_not_mem_lastCall] at hc
  | cleared h cleanup ih =>
    have hn := h.claims_once (h.claimed_of_asks rfl)
    simp [removal, hn] at hc
  | @stored finding log h result ih =>
    rw [List.mem_append, or_iff_left claim_not_mem_settling] at hc
    rw [writes_append, h.no_writes (.inl ⟨_, rfl⟩), writes_settling]
    rcases h.finding with ⟨rfl, -⟩ | ⟨-, hn, -⟩
    · simp [Outcome.connectivity, Outcome.isSuccess]
    · exact absurd hc hn
  | @broke phase log h e ih | @dropped phase log h e ih =>
    rw [List.mem_append, or_iff_left claim_not_mem_lastCall] at hc
    intro x hx
    rw [writes_append, List.mem_append] at hx
    rcases hx with hx | hx
    · exact ih hc x hx
    · obtain ⟨finding, rfl, rfl⟩ := recording_of_writes_lastCall hx
      rcases h.finding with ⟨rfl, -⟩ | ⟨-, hn, -⟩
      · exact ⟨e, rfl⟩
      · exact absurd hc hn

end Run

namespace Worker

section Histories

variable {P : Nat → Worker → Prop} {w₀ w : Worker} {now : Nat} {log : List Entry}

/-- Every marker was set by a run that claimed it. -/
theorem History.claimed (h : History P w₀ now log w) (h0 : w₀.tasks = [])
    (hm : w₀.shared.markers.entries = []) {n : String} {t : Nat}
    (ht : w.shared.markers.entries.find? n = some t) : ∃ i, winner n log = some i := by
  have h0' : Idle w₀ := ⟨h0, by rw [hm]; exact List.nodup_nil⟩
  revert t
  refine h.along (C := fun _ log w => ∀ {t}, w.shared.markers.entries.find? n = some t →
    ∃ i, winner n log = some i) (fun _ t ht => ?_) ?_
  · rw [hm] at ht
    cases ht
  · intro now now' log w w' entries h _ _ _ hc ih t ht
    have hold : ∀ {t}, w.shared.markers.entries.find? n = some t →
        ∃ i, winner n (log ++ entries) = some i := by
      intro t ht
      obtain ⟨i, hi⟩ := ih ht
      rw [winner_append, hi]
      cases winner n entries <;> exact ⟨_, rfl⟩
    cases hc with
    | acts number r e hr ho hs hw =>
      rw [hs] at ht
      rcases (h.move h0 hr now' e).markers (h.sound h0 hr) with
        ⟨hk, -⟩ | ⟨hk, -, -, hh, hd, hca⟩ | ⟨hk, -⟩
      · exact hold (hk ▸ ht)
      · rw [hk, Markers.find?_set] at ht
        split at ht
        · rename_i hn
          subst hn
          rw [winner_append, winner_of_claim (Run.claim_mem_of_holds hd hh hca)]
          exact ⟨_, rfl⟩
        · exact hold ht
      · rw [hk, Markers.find?_delete] at ht
        split at ht
        · cases ht
        · exact hold ht
    | rests hw hm => exact hold (find?_of_rests (h.proper h0') hm ht)

/-- **Every marker is that of a run of its name**, which set it and holds it. -/
theorem History.marked (h : History P w₀ now log w) (h0 : w₀.tasks = [])
    (hm : w₀.shared.markers.entries = []) {n : String} {t : Nat}
    (ht : w.shared.markers.entries.find? n = some t) :
    ∃ j u, winner n log = some j ∧ w.run? j = some u ∧ u.name = n ∧ u.holds = true ∧
      u.claimedAt w.setup = some t := by
  obtain ⟨j, hj⟩ := h.claimed h0 hm ht
  obtain ⟨u, hu⟩ := h.owned ⟨h0, by rw [hm]; exact List.nodup_nil⟩ n j t hj ht
  exact ⟨j, u, hj, hu⟩

/-- At some moment of a history run `i` of request `q` found live the marker that run `j` of request `p`
had set under its name, and held. -/
inductive Found (P : Nat → Worker → Prop) (w₀ : Worker) (log : List Entry) (i j : Nat)
    (q p : Request) : Prop
  | at {now now' t : Nat} {before : List Entry} {w : Worker} {u : Run} {e : Event}
      (h : History P w₀ now before w) (ht : now ≤ now')
      (hd : ⟨i, q.containerName, .claim false⟩ ∈ w.deeds now' e)
      (hb : before ++ w.deeds now' e <+: log)
      (hj : winner q.containerName before = some j) (hu : w.run? j = some u)
      (hp : u.request = p) (hn : p.containerName = q.containerName) (hh : u.holds = true)
      (hc : u.claimedAt w.setup = some t)
      (hm : w.shared.markers.entries.find? q.containerName = some t)
      (hl : now' - t < w.shared.markers.ttl)

theorem Found.mono {i j : Nat} {q p : Request} (h : Found P w₀ log i j q p) (more : List Entry) :
    Found P w₀ (log ++ more) i j q p := by
  cases h with
  | «at» h ht hd hb hj hu hp hn hh hc hm hl =>
    exact .at h ht hd (hb.trans (List.prefix_append _ _)) hj hu hp hn hh hc hm hl

/-- A run that is refused in a step found a live marker, and holds none. -/
theorem refused_of_deeds (h : History P w₀ now log w) (h0 : w₀.tasks = []) {now' i : Nat} {e : Event}
    (hc : .claim false ∈ deedsOf i (w.deeds now' e)) :
    ∃ r, w.run? i = some r ∧ ⟨i, r.name, .claim false⟩ ∈ w.deeds now' e ∧
      w.shared.markers.read now' r.name = some true ∧ r.holds = false := by
  have hch := heed_change w now' e
  generalize w.deeds now' e = entries at hch hc ⊢
  cases hch with
  | acts number r ev hr ho _ _ =>
    rw [deedsOf_map] at hc
    split at hc
    · rename_i hi
      subst hi
      have hs := h.sound h0 hr
      obtain ⟨-, -, hread⟩ := (h.move h0 hr now' ev).claim hs hc
      exact ⟨r, hr, List.mem_map_of_mem hc, hread.mp rfl, hs.not_holds_of_claims hc⟩
    · cases hc
  | rests => cases hc

/-- **Whose marker a run found.** A run that was refused found, at the moment of its claim, the live marker
of another run of its name. -/
theorem History.found (h : History P w₀ now log w) (h0 : w₀.tasks = [])
    (hm : w₀.shared.markers.entries = []) {i : Nat} (hc : .claim false ∈ deedsOf i log) :
    ∃ j r u, j ≠ i ∧ w.run? i = some r ∧ w.run? j = some u ∧
      Found P w₀ log i j r.request u.request := by
  induction h with
  | start => cases hc
  | @step now now' log w h ht e hP ih =>
    have hsound := fun i r (hr : w.run? i = some r) => h.sound h0 hr
    have hch := heed_change w now' e
    rw [deedsOf_append] at hc
    rcases List.mem_append.mp hc with hc | hc
    · obtain ⟨j, r, u, hj, hr, hu, hf⟩ := ih hc
      obtain ⟨r', hr', hrq⟩ := hch.keeps hsound hr
      obtain ⟨u', hu', huq⟩ := hch.keeps hsound hu
      exact ⟨j, r', u', hj, hr', hu', by rw [hrq, huq]; exact hf.mono _⟩
    · obtain ⟨r, hr, hmem, hread, hh⟩ := refused_of_deeds h h0 hc
      obtain ⟨c, hcm, hlive⟩ := Markers.read_eq_some_true_iff.mp hread
      obtain ⟨j, u, hj, hu, hun, huh, huc⟩ := h.marked h0 hm hcm
      have hne : j ≠ i := by
        rintro rfl
        rw [hr] at hu
        cases hu
        rw [hh] at huh
        cases huh
      obtain ⟨r', hr', hrq⟩ := hch.keeps hsound hr
      obtain ⟨u', hu', huq⟩ := hch.keeps hsound hu
      refine ⟨j, r', u', hne, hr', hu', ?_⟩
      rw [hrq, huq]
      exact .at h ht hmem (List.prefix_refl _) hj hu rfl hun huh huc hcm hlive

/-- What is known of a run that was refused. -/
structure Deduplicated (P : Nat → Worker → Prop) (w₀ : Worker) (triggers : Nat → Trigger)
    (log : List Entry) (w : Worker) (i : Nat) (r : Run) : Prop where
  /-- The live marker it found was set by another run of its name. Unless one of the two has a name that
  was asked for, that run is of the same connector and of the same operation. -/
  found : ∃ j u, j ≠ i ∧ w.run? j = some u ∧ Found P w₀ log i j r.request u.request ∧
    ((triggers i).KeepsName → (triggers j).KeepsName →
      u.request.connector = r.request.connector ∧ u.request.kind = r.request.kind)
  /-- It launches nothing. -/
  unasked : ∀ ask e, .called (.container ask) e ∉ deedsOf i log
  /-- It writes nothing but that its own connector is connected. -/
  writes : ∀ x ∈ Run.writes (deedsOf i log), ∃ answer,
    x = (r.request.owner, r.request.connector, .connected, answer)
  /-- When it has come to its end it has written that once. -/
  written : ∀ result, r.phase = .ended result → ∃ answer, Run.writes (deedsOf i log) =
    [(r.request.owner, r.request.connector, .connected, .stored answer)]

/-- **Deduplication goes by the name.** Whatever triggers were accepted and however their runs took their
steps: a run that was refused found the live marker of another run of its name. -/
theorem History.deduplicated (h : History P w₀ now log w) (h0 : w₀.tasks = [])
    (hm : w₀.shared.markers.entries = []) {triggers : Nat → Trigger}
    (ht : ∀ i r, w.run? i = some r → (triggers i).toRequest = .ok r.request) {i : Nat} {r : Run}
    (hr : w.run? i = some r) (hc : .claim false ∈ deedsOf i log) :
    Deduplicated P w₀ triggers log w i r := by
  obtain ⟨s₀, hco⟩ := h.course h0 hr
  obtain ⟨j, r', u, hj, hr', hu, hf⟩ := h.found h0 hm hc
  rw [hr] at hr'
  cases hr'
  constructor
  · refine ⟨j, u, hj, hu, hf, fun hki hkj => ?_⟩
    cases hf with
    | «at» _ _ _ _ _ _ _ hn =>
      exact Trigger.same_of_containerName (ht j u hu) (ht i r hr) hn hkj hki
  · exact (h.refused h0 hr hc).2.2
  · exact hco.account.writes_of_refused hc
  · intro result hres
    exact ((hco.persists hres).found hc).1

end Histories

/-! ### A name that was asked for -/

def otherRequest : Request :=
  { Run.sampleRequest with
    connector := ⟨List.replicate 32 ⟨1, by decide⟩, List.length_replicate⟩ }

/-- Triggers for the same check of two connectors, under one name that they ask for. -/
def sampleTrigger (i : Nat) : Trigger where
  owner := "o"
  connector := String.ofList (List.replicate 32 (if i = 0 then '0' else '1'))
  image := "i:t"
  kind := .check
  containerName := some "c"
  catalog := none
  records := none

/-- Each of the two submits its run: the first claims the marker, the second finds it and ends. -/
def underOneName : List (Nat × Event) :=
  [(0, .spawn Run.sampleRequest true), (0, .spawn otherRequest true),
    (1, .run 0 (.configuration (.ok []))), (2, .run 1 (.configuration (.ok []))),
    (3, .run 1 (.stored (.ok ())))]

theorem accepted_underOneName (i : Nat) (r : Run)
    (hr : (play ([], sample) underOneName).2.run? i = some r) :
    (sampleTrigger i).toRequest = .ok r.request :=
  match i with
  | 0 => by
    cases hr
    decide
  | 1 => by
    cases hr
    decide
  | _ + 2 => by cases hr

theorem sample_deduplicated :
    (Scheduled (fun _ _ => True) 0 sample underOneName ∧
      (∀ i r, (play ([], sample) underOneName).2.run? i = some r →
        (sampleTrigger i).toRequest = .ok r.request)) ∧
    ∃ r, (play ([], sample) underOneName).2.run? 1 = some r ∧
      .claim false ∈ deedsOf 1 (play ([], sample) underOneName).1 ∧
      Deduplicated (fun _ _ => True) sample sampleTrigger (play ([], sample) underOneName).1
        (play ([], sample) underOneName).2 1 r := by
  have hs : Scheduled (fun _ _ => True) 0 sample underOneName := by decide
  obtain ⟨_, h⟩ := History.play underOneName (.start 0) hs
  have hc : Run.Deed.claim false ∈ deedsOf 1 (play ([], sample) underOneName).1 :=
    .tail _ (.head _)
  exact ⟨⟨hs, accepted_underOneName⟩, _, rfl, hc,
    h.deduplicated rfl rfl accepted_underOneName rfl hc⟩

/-- **Under a name that was asked for** a run is deduplicated against one of another connector. When run
1 claims the marker, it finds that of run 0; it writes that its own connector is connected, and that is
not the connector of run 0. -/
theorem sample_shared_name :
    (sampleTrigger 0).toRequest = .ok Run.sampleRequest ∧
    (sampleTrigger 1).toRequest = .ok otherRequest ∧
    Run.sampleRequest.connector ≠ otherRequest.connector ∧
    Scheduled (fun _ _ => True) 0 sample underOneName ∧
    winner "c" (play ([], sample) (underOneName.take 3)).1 = some 0 ∧
    (play ([], sample) (underOneName.take 3)).2.shared.markers.read 2 "c" = some true ∧
    ((play ([], sample) underOneName).2.run? 0).map (·.request) = some Run.sampleRequest ∧
    ((play ([], sample) underOneName).2.run? 1).map (fun r => (r.request, r.phase)) =
      some (otherRequest, .ended (.ok ⟨"c", .check, .ok, false, false⟩)) ∧
    (Run.writes (deedsOf 1 (play ([], sample) underOneName).1)).map (fun x => (x.2.1, x.2.2.1)) =
      [(otherRequest.connector, .connected)] := by
  decide

end Worker
end RunDispatch
