/-
# What a run does

The deeds of a run are the calls it makes, each with what ended the run's waiting for it, its claim of
the marker of its name, and the deletion of that marker. The deeds of a step are read off the run
before and after it.

What a move does to the markers is one of three things, and the deeds tell which: nothing, or the
marker of the run's name is set by a claim that is won, or it is deleted (`Move.markers`).

Key definitions: `Deed`, `deeds`, `lastCall`.
Key theorems: `Move.markers`, `Move.claim`, `Move.wins`.
-/
import RunDispatch.Proofs.Run.Move

namespace RunDispatch

instance decidableEqExcept {ε α : Type} [DecidableEq ε] [DecidableEq α] : DecidableEq (Except ε α)
  | .ok a, .ok b => decidable_of_iff (a = b) (by rw [Except.ok.injEq])
  | .error a, .error b => decidable_of_iff (a = b) (by rw [Except.error.injEq])
  | .ok _, .error _ => isFalse fun h => by cases h
  | .error _, .ok _ => isFalse fun h => by cases h

deriving instance DecidableEq for Container.Stage
deriving instance DecidableEq for Run.Phase
deriving instance DecidableEq for Run.Event

namespace Run

/-- Something that a run did. -/
inductive Deed where
  /-- It made a call, and this ended its waiting for the answer. -/
  | called (c : Call) (ending : Event)
  /-- It claimed the marker of its name, and got it or found one that is live. -/
  | claim (won : Bool)
  /-- It deleted the marker of its name. -/
  | delete
  deriving DecidableEq

/-- The call that the run waited for, if it waited for one, and what ended its waiting. -/
def lastCall (setup : Setup) (r : Run) (e : Event) : List Deed :=
  ((r.call? setup).map (.called · e)).toList

theorem called_of_mem_lastCall {setup : Setup} {r : Run} {e e' : Event} {c : Call}
    (h : .called c e' ∈ r.lastCall setup e) : r.call? setup = some c ∧ e' = e := by
  cases hc : r.call? setup <;> simp [lastCall, hc] at h
  exact ⟨by rw [h.1], h.2⟩

theorem claim_not_mem_lastCall {setup : Setup} {r : Run} {e : Event} {won : Bool} :
    .claim won ∉ r.lastCall setup e := by
  cases h : r.call? setup <;> simp [lastCall, h]

/-- What a run did in a step in which it heeded an event: it waits for its call no longer when its
phase is another, it claimed its marker when its time began to run, and deleted it when it holds it no
longer. -/
def deeds (setup : Setup) (r : Run) (e : Event) (r' : Run) : List Deed :=
  (if r'.phase = r.phase then [] else r.lastCall setup e) ++
    ((if r.deadline.isNone && r'.deadline.isSome then [.claim r'.claimed] else []) ++
      (if r.holds && !r'.holds then [.delete] else []))

/-- What a run called in a step, and what ended its waiting for the answer. -/
theorem called_of_mem_deeds {setup : Setup} {r r' : Run} {e e' : Event} {c : Call}
    (h : .called c e' ∈ r.deeds setup e r') : r.call? setup = some c ∧ e' = e := by
  unfold deeds at h
  rcases List.mem_append.mp h with h | h
  · split at h
    · cases h
    · exact called_of_mem_lastCall h
  · rcases List.mem_append.mp h with h | h <;> split at h <;> simp at h

theorem deeds_told (setup : Setup) (r : Run) (e : Event) (c : Bool) :
    r.deeds setup e { r with cancelled := c } = [] := by
  have h : ({ r with cancelled := c } : Run).holds = r.holds := rfl
  simp only [deeds, h, if_pos, List.nil_append]
  cases r.deadline <;> cases r.holds <;> rfl

theorem deeds_self (setup : Setup) (r : Run) (e : Event) : r.deeds setup e r = [] :=
  deeds_told setup r e r.cancelled

/-! ### The deeds of a step

A step in which the run waits for its call no longer is one in which it goes on, ends what it held, or
claims its marker. -/

theorem deeds_goesOn {setup : Setup} {r r' : Run} {e : Event}
    (hp : r'.phase = r.phase → r.call? setup = none) (hd : r'.deadline = r.deadline)
    (hh : r'.holds = r.holds) : r.deeds setup e r' = r.lastCall setup e := by
  have hc : (if r'.phase = r.phase then [] else r.lastCall setup e) = r.lastCall setup e := by
    split
    · rename_i h
      simp [lastCall, hp h]
    · rfl
  simp only [deeds, hc, hd, hh]
  cases r.deadline <;> cases r.holds <;> simp

theorem deeds_ends {setup : Setup} {r r' : Run} {e : Event} (hp : r'.phase ≠ r.phase)
    (hd : r'.deadline = r.deadline) (hh : r.holds = true) (hh' : r'.holds = false) :
    r.deeds setup e r' = r.lastCall setup e ++ [.delete] := by
  simp only [deeds, if_neg hp, hd, hh, hh']
  cases r.deadline <;> simp

theorem deeds_claims {setup : Setup} {r r' : Run} {e : Event} (hp : r'.phase ≠ r.phase)
    (hd : r.deadline = none) (hd' : r'.deadline.isSome = true) (hh : r.holds = false) :
    r.deeds setup e r' = r.lastCall setup e ++ [.claim r'.claimed] := by
  simp [deeds, hp, hd, hd', hh]

theorem claim_mem_deeds {setup : Setup} {r r' : Run} {e : Event} {won : Bool} :
    .claim won ∈ r.deeds setup e r' ↔
      r.deadline = none ∧ r'.deadline.isSome = true ∧ r'.claimed = won := by
  have hc : Deed.claim won ∉
      (if r'.phase = r.phase then [] else r.lastCall setup e) := by
    split
    · exact List.not_mem_nil
    · exact claim_not_mem_lastCall
  have hd : Deed.claim won ∉ (if r.holds && !r'.holds then [Deed.delete] else []) := by
    split <;> simp
  simp only [deeds, List.mem_append, hc, hd, false_or, or_false]
  cases r.deadline <;> cases r'.deadline <;> simp [eq_comm]

theorem claimed_of_holds {r : Run} (h : r.holds = true) : r.claimed = true := by
  unfold holds at h
  split at h
  · cases h
  · exact h

theorem Sound.claimedAt_of_holds {setup : Setup} {r : Run} (hs : r.Sound setup)
    (h : r.holds = true) : ∃ t, r.claimedAt setup = some t := by
  obtain ⟨d, hd⟩ := Option.isSome_iff_exists.mp (hs.timed (claimed_of_holds h))
  exact ⟨d - setup.activityTimeout, by rw [claimedAt, hd, Option.map_some]⟩

/-- A run that came to hold its marker when its time began to run has claimed it. -/
theorem claim_mem_of_holds {setup : Setup} {r r' : Run} {e : Event} {now : Nat}
    (hd : r.deadline = none) (hh : r'.holds = true) (hc : r'.claimedAt setup = some now) :
    .claim true ∈ r.deeds setup e r' := by
  refine claim_mem_deeds.mpr ⟨hd, ?_, claimed_of_holds hh⟩
  unfold claimedAt at hc
  cases hd' : r'.deadline with
  | none =>
    rw [hd'] at hc
    cases hc
  | some t => rfl

theorem holds_of_not_isOver {r : Run} (h : r.isOver = false) : r.holds = r.claimed := by
  unfold isOver at h
  unfold holds
  split at h <;> simp_all

theorem holds_of_holdsSlot {r : Run} (h : r.holdsSlot = true) : r.holds = r.claimed := by
  unfold holdsSlot at h
  unfold holds
  split at h <;> simp_all

theorem not_isOver_of_holdsSlot {r : Run} (h : r.holdsSlot = true) : r.isOver = false := by
  unfold holdsSlot at h
  unfold isOver
  split at h <;> simp_all

section Moves

variable {setup : Setup} {now : Nat} {s s' : Shared} {r r' : Run} {e : Event}

/-! ### Markers -/

theorem finishFile_markers : (finishFile setup s r).markers = s.markers := by
  unfold finishFile
  split
  · split <;> rfl
  · rfl
  · rfl

theorem leaveSlot_markers : (leaveSlot s).markers = s.markers := rfl

theorem interrupt_markers : (interrupt setup s r).1.markers = s.markers := by
  simp [interrupt, leaveSlot, finishFile_markers, dropGuard]

theorem dropMarker_markers (h : r.claimed = true) :
    (dropMarker s r).markers = (s.markers.delete r.name).2 := by
  simp [dropMarker, h]

/-- **What a move does to the markers.** It leaves them alone, and the run holds its marker as before;
or the run, which did not hold its marker, found no live one and set it; or the run, which held it,
deleted it. -/
theorem Move.markers (h : Move setup now s r e s' r') (hs : r.Sound setup) :
    (s'.markers = s.markers ∧ r'.holds = r.holds ∧
      (r.holds = true → r'.claimedAt setup = r.claimedAt setup)) ∨
    (s'.markers = s.markers.set now r.name ∧ s.markers.read now r.name ≠ some true ∧
      r.holds = false ∧ r'.holds = true ∧ r.deadline = none ∧
      r'.claimedAt setup = some now) ∨
    (s'.markers = (s.markers.delete r.name).2 ∧ r.holds = true ∧ r'.holds = false) := by
  have hp := hs.place
  unfold InPlace at hp
  cases h with
  | stays => exact .inl ⟨rfl, rfl, fun _ => rfl⟩
  | notes => exact .inl ⟨rfl, rfl, fun _ => rfl⟩
  | unread hr =>
    simp only [hr] at hp
    exact .inl ⟨rfl, by simp [holds, finish, hr, hp.1], fun _ => rfl⟩
  | stopsEarly hr =>
    simp only [hr] at hp
    exact .inl ⟨rfl, by simp [holds, finish, hr, hp.1], fun _ => rfl⟩
  | waits hr => exact .inl ⟨rfl, by simp [holds, hr], fun _ => rfl⟩
  | stopsWaiting _ hr =>
    simp only [hr] at hp
    exact .inl ⟨rfl, by simp [holds, hr, hp.1], fun _ => rfl⟩
  | finds e configuration slots ha =>
    have hr : r.claimed = false ∧ r.holds = false := by
      rcases ha with ⟨hr, -⟩ | ⟨hr, -⟩ <;> (simp only [hr] at hp; simp [holds, hr, hp.1])
    exact .inl ⟨rfl, by rw [hr.2]; exact hr.1, by simp [hr]⟩
  | claims e configuration slots ha hl =>
    have hr : r.holds = false ∧ r.deadline = none := by
      rcases ha with ⟨hr, -⟩ | ⟨hr, -⟩ <;> (simp only [hr] at hp; simp [holds, hr, hp])
    refine .inr (.inl ⟨rfl, hl, hr.1, rfl, hr.2, ?_⟩)
    simp [claimedAt]
  | prepares place next left hr =>
    exact .inl ⟨finishFile_markers, by simp [holds, hr], fun _ => rfl⟩
  | stages place next kind content rest hr =>
    exact .inl ⟨finishFile_markers, by simp [holds, hr], fun _ => rfl⟩
  | launches place kind content hr =>
    exact .inl ⟨finishFile_markers, by simp [holds, hr], fun _ => rfl⟩
  | cannotStage place left hr =>
    simp only [hr] at hp
    refine .inr (.inr ⟨?_, by simp [holds, hr, hp.1], rfl⟩)
    rw [leaveSlot_markers, dropMarker_markers hp.1]
    simp [dropGuard, finishFile_markers]
  | lives stage next hr => exact .inl ⟨rfl, by simp [holds, hr], fun _ => rfl⟩
  | fails stage hr => exact .inl ⟨rfl, by simp [holds, hr], fun _ => rfl⟩
  | lacksImage stage hr =>
    simp only [hr] at hp
    exact .inr (.inr ⟨dropMarker_markers hp.1, by simp [holds, hr, hp.1], rfl⟩)
  | exits stage hr => exact .inl ⟨rfl, by simp [holds, hr], fun _ => rfl⟩
  | releases file rest exit hr =>
    exact .inl ⟨finishFile_markers, by simp [holds, hr], fun _ => rfl⟩
  | retries file exit hr =>
    exact .inl ⟨finishFile_markers, by simp [holds, hr], fun _ => rfl⟩
  | finishes file exit hr =>
    exact .inl ⟨finishFile_markers, by simp [holds, hr], fun _ => rfl⟩
  | retried exit hr => exact .inl ⟨rfl, by simp [holds, hr], fun _ => rfl⟩
  | records finding hr result =>
    have hm : (recorded s r finding result).1 = dropMarker s r ∧
        (recorded s r finding result).2.holds = false := by
      cases result <;> exact ⟨rfl, rfl⟩
    cases hc : r.claimed with
    | false =>
      have hd : dropMarker s r = s := by simp [dropMarker, hc]
      exact .inl ⟨by rw [hm.1, hd], by rw [hm.2]; simp [holds, hr, hc], by simp [holds, hr, hc]⟩
    | true =>
      exact .inr (.inr ⟨by rw [hm.1, dropMarker_markers hc], by simp [holds, hr, hc], hm.2⟩)
  | clears f hr =>
    simp only [hr] at hp
    exact .inr (.inr ⟨dropMarker_markers hp, by simp [holds, hr, hp], rfl⟩)
  | stops h => exact .inl ⟨interrupt_markers, (holds_of_holdsSlot h).symm, fun _ => rfl⟩
  | timesOut h => exact .inl ⟨interrupt_markers, (holds_of_holdsSlot h).symm, fun _ => rfl⟩
  | breaksWaiting e phase he configuration hr =>
    rcases eq_of_fatal he with rfl | rfl <;> exact .inl ⟨rfl, by simp [holds, hr], fun _ => rfl⟩
  | breaksInSlot e phase he h =>
    rcases eq_of_fatal he with rfl | rfl <;>
      exact .inl ⟨interrupt_markers, (holds_of_holdsSlot h).symm, fun _ => rfl⟩
  | breaks e phase he h =>
    rcases eq_of_fatal he with rfl | rfl <;>
      exact .inl ⟨rfl, (holds_of_not_isOver h).symm, fun _ => rfl⟩

theorem Move.ttl (h : Move setup now s r e s' r') (hs : r.Sound setup) :
    s'.markers.ttl = s.markers.ttl := by
  rcases h.markers hs with ⟨hm, -⟩ | ⟨hm, -⟩ | ⟨hm, -⟩
  · rw [hm]
  · rw [hm, Markers.set]
  · rw [hm, Markers.delete]

/-- **A claim.** A run that claims its marker goes on, holds it if it won it, and is refused exactly if
it finds a live marker. -/
theorem Move.claim (h : Move setup now s r e s' r') (hs : r.Sound setup) {won : Bool}
    (hc : .claim won ∈ r.deeds setup e r') :
    r'.holds = won ∧ r'.isOver = false ∧
      (won = false ↔ s.markers.read now r.name = some true) := by
  obtain ⟨hd, hd', hw⟩ := claim_mem_deeds.mp hc
  cases h with
  | finds e b slots ha hl =>
    refine ⟨hw, rfl, fun _ => hl, fun _ => ?_⟩
    rw [← hw]
    refine Bool.eq_false_iff.mpr fun hc => ?_
    have ht := hs.timed hc
    rw [hd] at ht
    cases ht
  | claims e b slots ha hl =>
    cases hw
    exact ⟨rfl, rfl, nofun, fun ht => absurd ht hl⟩
  | records finding hr result =>
    have hr' : (recorded s r finding result).2.deadline = r.deadline := by cases result <;> rfl
    rw [hr', hd] at hd'
    cases hd'
  | _ =>
    have hn : r.deadline.isSome = true := hd'
    rw [hd] at hn
    cases hn

theorem Sound.not_holds_of_claims {e : Event} {won : Bool} (hs : r.Sound setup)
    (hc : .claim won ∈ r.deeds setup e r') : r.holds = false := by
  refine Bool.eq_false_iff.mpr fun hh => ?_
  have ht := hs.timed (claimed_of_holds hh)
  rw [(claim_mem_deeds.mp hc).1] at ht
  cases ht

theorem Move.wins (h : Move setup now s r e s' r') (hs : r.Sound setup)
    (hc : .claim true ∈ r.deeds setup e r') :
    s'.markers = s.markers.set now r.name ∧ r'.holds = true ∧ r'.isOver = false ∧
      r'.claimedAt setup = some now := by
  obtain ⟨hh', ho, -⟩ := h.claim hs hc
  have hh := hs.not_holds_of_claims hc
  rcases h.markers hs with ⟨-, hk, -⟩ | ⟨hm, -, -, -, -, ht⟩ | ⟨-, hk, -⟩
  · rw [hh', hh] at hk
    cases hk
  · exact ⟨hm, hh', ho, ht⟩
  · rw [hh] at hk
    cases hk

end Moves

end Run
end RunDispatch
