/-
# Containers that stand

Whose container stands under a name is told by what the runs have done: the last run that had one made
there, unless it was removed since by whichever run. A call that was given up may have had its effect or
not, so every statement is made for any view (`made`) of which endings of the call make a container.

A run is never far from the container it had made. It holds the name as long as it has not come to its
end, and asks for the removal before that; so the container of a run that has ended stands only if the
removal was refused.

Key definitions: `maker`, `LeftBehind`.
Key theorems: `exists_of_maker`, `Course.holds_or_ended`, `History.stands`.
-/
import Mathlib.Data.List.Induction
import RunDispatch.Proofs.Run.Compensation
import RunDispatch.Proofs.Worker.Exclusion

namespace RunDispatch

/-! ### The end of a run's hold -/

namespace Run

section Courses

variable {setup : Setup} {others : Shared → Shared → Prop} {number : Nat} {q : Request}
  {s₀ s s' : Shared} {log : List Deed} {r r' : Run} {now : Nat} {e : Event}

/-- A run that does not hold its marker any more has come to its end. -/
theorem Move.holds_or_ended (h : Move setup now s r e s' r')
    (hr : r.holds = true ∨ ∃ x, r.phase = .ended x) :
    r'.holds = true ∨ ∃ x, r'.phase = .ended x := by
  have hc : r.isOver = false → r.claimed = true := by
    intro ho
    rcases hr with hr | ⟨x, hx⟩
    · exact claimed_of_holds hr
    · simp [isOver, hx] at ho
  cases h with
  | stays | notes => exact hr
  | unread | stopsEarly | stopsWaiting | cannotStage | lacksImage | clears => exact .inr ⟨_, rfl⟩
  | records finding h result => cases result <;> exact .inr ⟨_, rfl⟩
  | claims => exact .inl rfl
  | finds e b slots ha =>
    rcases ha with ⟨h, -⟩ | ⟨h, -⟩ <;> exact .inl (hc (by simp [isOver, h]))
  | waits h | lives _ _ h | fails _ h | exits _ h | releases _ _ _ h | retries _ _ h
  | finishes _ _ h | retried _ h | prepares _ _ _ h | stages _ _ _ _ _ h | launches _ _ _ h =>
    exact .inl (hc (by simp [isOver, h]))
  | stops h | timesOut h => exact .inl (hc (not_isOver_of_holdsSlot h))
  | breaksWaiting e phase he b h =>
    have ho : r.isOver = false := by simp [isOver, h]
    rcases eq_of_fatal he with rfl | rfl <;> exact .inl (hc ho)
  | breaksInSlot e phase he h =>
    rcases eq_of_fatal he with rfl | rfl <;> exact .inl (hc (not_isOver_of_holdsSlot h))
  | breaks e phase he h => rcases eq_of_fatal he with rfl | rfl <;> exact .inl (hc h)

/-- A run that has claimed its marker holds it until it comes to its end. -/
theorem Course.holds_or_ended (h : Course setup others number q s₀ log s r)
    (hc : .claim true ∈ log) : r.holds = true ∨ ∃ x, r.phase = .ended x := by
  induction h with
  | start => cases hc
  | told _ ih => exact ih hc
  | step h now e ih =>
    rcases List.mem_append.mp hc with hc | hc
    · exact (h.move now e).holds_or_ended (ih hc)
    · exact .inl ((h.move now e).claim h.sound hc).1
  | meanwhile _ _ ih => exact ih hc

end Courses

end Run

namespace Worker

/-! ### Who made the container of a name -/

section Makers

variable (made : Run.Event → Bool) (n : String)

/-- Whose container stands under a name after an entry. The ending of the waiting for a container
tells whether it was made. -/
def stand (owner : Option Nat) (e : Entry) : Option Nat :=
  match e.deed with
  | .called (.container (.create spec)) ending =>
    if spec.name = n ∧ made ending = true then some e.run else owner
  | .called (.container (.remove name)) (.container .done) => if name = n then none else owner
  | _ => owner

/-- The run that made the container that stands under a name. -/
def maker (log : List Entry) : Option Nat := log.foldl (stand made n) none

theorem maker_append (a b : List Entry) :
    maker made n (a ++ b) = b.foldl (stand made n) (maker made n a) :=
  List.foldl_append

variable {made n}

/-- A container that stands was asked for by the run that made it, and has not been removed since. -/
theorem exists_of_maker {log : List Entry} {i : Nat} (h : maker made n log = some i) :
    ∃ a b name spec ending,
      log = a ++ ⟨i, name, .called (.container (.create spec)) ending⟩ :: b ∧ spec.name = n ∧
        ∀ e ∈ b, e.deed ≠ .called (.container (.remove n)) (.container .done) := by
  induction log using List.reverseRecOn with
  | nil => cases h
  | append_singleton l e ih =>
    obtain ⟨run, name, deed⟩ := e
    rw [maker_append] at h
    simp only [List.foldl_cons, List.foldl_nil, stand] at h
    -- What does not remove the container leaves it standing.
    have hold : deed ≠ .called (.container (.remove n)) (.container .done) →
        maker made n l = some i → ∃ a b name' spec ending,
          l ++ [⟨run, name, deed⟩] =
            a ++ ⟨i, name', .called (.container (.create spec)) ending⟩ :: b ∧ spec.name = n ∧
              ∀ e ∈ b, e.deed ≠ .called (.container (.remove n)) (.container .done) := by
      intro hd hl
      obtain ⟨a, b, name', spec, ending, rfl, hs, hb⟩ := ih hl
      refine ⟨a, b ++ [⟨run, name, deed⟩], name', spec, ending, by simp, hs, fun e he => ?_⟩
      rcases List.mem_append.mp he with he | he
      · exact hb e he
      · rw [List.mem_singleton.mp he]
        exact hd
    split at h
    · rename_i spec ending
      split at h
      · rename_i hs
        cases h
        exact ⟨l, [], name, spec, ending, rfl, hs.1, fun e he => absurd he List.not_mem_nil⟩
      · exact hold nofun h
    · rename_i name'
      split at h
      · cases h
      · rename_i hn
        exact hold (fun hd => hn (by cases hd; rfl)) h
    · rename_i hr
      exact hold (fun hd => hr n hd) h

end Makers

/-! ### What is left behind -/

theorem mem_of_append_eq {α : Type} {a b x y : List α} {c d : α} (h : a ++ c :: b = x ++ d :: y)
    (hne : c ≠ d) (hc : c ∉ y) : d ∈ b := by
  rcases List.append_eq_append_iff.mp h with ⟨l, rfl, hl⟩ | ⟨l, rfl, hl⟩
  · cases l with
    | nil => exact absurd (List.cons.inj hl).1 hne
    | cons _ l =>
      rw [(List.cons.inj hl).2]
      simp
  · cases l with
    | nil => exact absurd (List.cons.inj hl).1.symm hne
    | cons _ l =>
      rw [(List.cons.inj hl).2] at hc
      simp at hc

/-- A run is over and its container stands: it was refused the removal, or it stopped without more
ado. -/
def LeftBehind (log : List Entry) (w : Worker) (i : Nat) : Prop :=
  ∃ r, w.run? i = some r ∧ r.isOver = true ∧
    ((∃ x, r.phase = .ended x) →
      ∃ f, .called (.container (.remove r.name)) (.container (.failed f)) ∈ deedsOf i log)

section Histories

variable {P : Nat → Worker → Prop} {w₀ w : Worker} {now : Nat} {log : List Entry}

/-- Entries bear the names of their runs. -/
theorem History.named (h : History P w₀ now log w) (h0 : w₀.tasks = []) {e : Entry} (he : e ∈ log) :
    ∃ r, w.run? e.run = some r ∧ r.name = e.name := by
  refine h.along (C := fun _ log w => ∀ e ∈ log, ∃ r, w.run? e.run = some r ∧ r.name = e.name)
    (fun _ e he => absurd he List.not_mem_nil) ?_ e he
  intro now now' log w w' entries h ht hP hset hch ih e he
  cases hch with
  | acts number r ev hr ho hs hw =>
    have hname := (h.move h0 hr now' ev).same.2
    rw [hw e.run]
    rcases List.mem_append.mp he with he | he
    · obtain ⟨t, ht, htn⟩ := ih e he
      split
      · rename_i hn
        rw [hn, hr] at ht
        cases ht
        exact ⟨_, rfl, by rw [← htn]; simp only [Run.name, hname]⟩
      · exact ⟨t, ht, htn⟩
    · obtain ⟨d, -, rfl⟩ := List.mem_map.mp he
      exact ⟨_, if_pos rfl, by simp only [Run.name, hname]⟩
  | rests hw hm =>
    rw [List.append_nil] at he
    obtain ⟨t, ht, htn⟩ := ih e he
    obtain ⟨u, hu, hun, -⟩ := (hw e.run).holds ht
    exact ⟨u, hu, hun.trans htn⟩

/-- A run asks the runtime about its own container only. -/
theorem History.asked (h : History P w₀ now log w) (h0 : w₀.tasks = []) {e : Entry} (he : e ∈ log)
    {ask : Container.Ask} {ending : Run.Event} (hd : e.deed = .called (.container ask) ending)
    {n : String} (hn : ask.subject? = some n) : n = e.name := by
  refine h.along (C := fun _ log _ => ∀ e ∈ log, ∀ ask ending n,
    e.deed = .called (.container ask) ending → ask.subject? = some n → n = e.name)
    (fun _ e he => absurd he List.not_mem_nil) ?_ e he ask ending n hd hn
  intro now now' log w w' entries h ht hP hset hch ih e he ask ending n hd hn
  cases hch with
  | acts number r ev hr ho hs hw =>
    rcases List.mem_append.mp he with he | he
    · exact ih e he ask ending n hd hn
    · obtain ⟨d, hm, rfl⟩ := List.mem_map.mp he
      cases hd
      exact (asks_own (h.sound h0 hr) (Run.called_of_mem_deeds hm).1).2 n hn
  | rests =>
    rw [List.append_nil] at he
    exact ih e he ask ending n hd hn

/-- **Whose container stands.** The run that made the container that stands under a name holds that
name, or it has come to its end though the removal was refused. -/
theorem History.stands (h : History P w₀ now log w) (h0 : w₀.tasks = [])
    {made : Run.Event → Bool} {n : String} {i : Nat} (hm : maker made n log = some i) :
    ∃ r, w.run? i = some r ∧ r.name = n ∧
      (r.holds = true ∨ ((∃ x, r.phase = .ended x) ∧
        ∃ f, .called (.container (.remove n)) (.container (.failed f)) ∈ deedsOf i log)) := by
  obtain ⟨a, b, name, spec, ending, hlog, hs, hb⟩ := exists_of_maker hm
  have he : (⟨i, name, .called (.container (.create spec)) ending⟩ : Entry) ∈ log := by
    rw [hlog]
    simp
  obtain ⟨r, hr, hrn⟩ := h.named h0 he
  have hn : r.name = n := by rw [hrn, ← hs, h.asked h0 he rfl rfl]
  obtain ⟨s₀, hco⟩ := h.course h0 hr
  have hdeeds : deedsOf i log =
      deedsOf i a ++ .called (.container (.create spec)) ending :: deedsOf i b := by
    rw [hlog, deedsOf_append]
    simp [deedsOf]
  have hcreate : .called (.container (.create spec)) ending ∈ deedsOf i log := by
    rw [hdeeds]
    simp
  have hclaim : .claim true ∈ deedsOf i log :=
    Classical.byContradiction fun hc => hco.account.unclaimed hc _ _ hcreate
  refine ⟨r, hr, hn, ?_⟩
  rcases hco.holds_or_ended hclaim with hh | ⟨x, hx⟩
  · exact .inl hh
  refine .inr ⟨⟨x, hx⟩, ?_⟩
  have hacc := hco.account
  rw [hx] at hacc
  obtain ⟨before, cleanup, after, hl, hafter⟩ := hacc.removed_last hcreate
  cases cleanup with
  | some f => exact ⟨f, by rw [hl, ← hn]; simp [Run.removal, Container.removalReply, Run.name]⟩
  | none =>
    -- Nothing was asked after the removal, so the container was removed after it was made.
    rw [hdeeds] at hl
    have hr := mem_of_append_eq hl (by simp [Run.removal]) (hafter _ _)
    simp only [deedsOf, List.mem_map, List.mem_filter] at hr
    obtain ⟨e, ⟨heb, -⟩, hd⟩ := hr
    refine absurd ?_ (hb e heb)
    rw [hd, ← hn]
    rfl

end Histories

end Worker
end RunDispatch
