/-
# One run per name

Of the runs of a worker at most one at a time holds the marker of a name, if no marker expires under the
run that holds it. The runs may take their steps in any order, fail at any step, and be interrupted at
any call.

The invariant relates what each run remembers to the markers: the runs that hold their markers have
names of their own, and under each of these names lies the marker that its run has set (`Kept`). A claim
that is won finds no live marker, so no other run holds the name; and a run deletes only while it holds.
Everything else follows, since a run asks the runtime about its container and touches its files only
while it holds its marker.

Key definitions: `counted`, `Timely`, `Idle`, `Kept`, `winner`, `Owned`, `Exclusive`.
Key theorems: `History.kept`, `History.owned`, `asks_own`, `History.refused`.
-/
import RunDispatch.Proofs.Run.Files
import RunDispatch.Proofs.Worker.History

namespace RunDispatch

namespace Container

/-- The container that a question is about; one for an image is about none. -/
def Ask.subject? : Ask → Option String
  | .pull _ => none
  | .create spec => some spec.name
  | .start _ name _ | .wait _ name | .drain name | .logs _ name | .remove name => some name

theorem subject_of_ask {spec : Spec} {stdin : Option Bytes} {stage : Stage} {ask : Ask} {n : String}
    (ha : stage.ask? spec stdin = some ask) (hn : ask.subject? = some n) : n = spec.name := by
  cases stage <;> cases ha <;> first | cases hn; rfl | cases hn

end Container

namespace Run

/-- Whether a run counts as holding its marker; one that stopped for good may count or not. -/
def counted (all : Bool) (r : Run) : Bool := r.holds && (all || !r.isOver)

theorem counted_of_holds {all : Bool} {r : Run} (h : r.holds = true) (ho : r.isOver = false) :
    r.counted all = true := by
  simp [counted, h, ho]

theorem holds_of_counted {all : Bool} {r : Run} (h : r.counted all = true) : r.holds = true := by
  simp only [counted, Bool.and_eq_true] at h
  exact h.1

theorem counted_start (all : Bool) (number : Nat) (q : Request) (cancelled : Bool) :
    ({ start number q with cancelled } : Run).counted all = false := rfl

end Run

namespace Worker

/-- No marker has expired under the run that holds it, be it one that stopped for good (`all`) or
not. -/
def Timely (all : Bool) (now : Nat) (w : Worker) : Prop :=
  ∀ i r t, w.run? i = some r → r.counted all = true → r.claimedAt w.setup = some t →
    now - t < w.shared.markers.ttl

instance (all : Bool) (now : Nat) (w : Worker) : Decidable (Timely all now w) :=
  decidable_of_iff
    (∀ t ∈ w.tasks, t.run.counted all = true → ∀ c ∈ t.run.claimedAt w.setup,
      now - c < w.shared.markers.ttl) <| by
    constructor
    · intro h i r c hr hc hca
      obtain ⟨t, ht, rfl⟩ := task_of_run? hr
      exact h t (List.mem_of_getElem? ht) hc c hca
    · intro h t ht hc c hca
      obtain ⟨i, hi⟩ := List.getElem?_of_mem ht
      exact h i t.run c (by simp [run?, hi]) hc hca

/-- A worker before its first run. Markers may be there already. -/
structure Idle (w : Worker) : Prop where
  tasks : w.tasks = []
  markers : w.shared.markers.entries.Proper

/-- What a run that holds its marker has: a name of its own, and its marker under it. -/
structure Kept (all : Bool) (w : Worker) : Prop where
  alone : ∀ i j r t, w.run? i = some r → w.run? j = some t → r.counted all = true →
    t.counted all = true → r.name = t.name → i = j
  marked : ∀ i r, w.run? i = some r → r.counted all = true →
    w.shared.markers.entries.find? r.name = r.claimedAt w.setup

/-- Whether an entry is a claim of a name that was won. -/
def Entry.wins (n : String) (e : Entry) : Bool :=
  match e.deed with
  | .claim won => won && e.name = n
  | _ => false

/-- The run that was the last to win a claim of a name. -/
def winner (n : String) (log : List Entry) : Option Nat :=
  (log.filter (·.wins n)).getLast?.map (·.run)

theorem winner_append (n : String) (a b : List Entry) :
    winner n (a ++ b) = (winner n b).or (winner n a) := by
  unfold winner
  rw [List.filter_append, List.getLast?_append]
  cases (b.filter (·.wins n)).getLast? <;> rfl

theorem winner_eq_none {n name : String} {number : Nat} {l : List Run.Deed}
    (h : ¬ (.claim true ∈ l ∧ n = name)) :
    winner n (l.map fun d => ⟨number, name, d⟩) = none := by
  have hf : (l.map fun d => (⟨number, name, d⟩ : Entry)).filter (·.wins n) = [] := by
    refine List.filter_eq_nil_iff.mpr fun e he => ?_
    obtain ⟨d, hd, rfl⟩ := List.mem_map.mp he
    cases d with
    | claim won =>
      cases won with
      | false => simp [Entry.wins]
      | true => simpa [Entry.wins] using fun hn => h ⟨hd, hn.symm⟩
    | called | delete => simp [Entry.wins]
  rw [winner, hf]
  rfl

theorem winner_of_claim {name : String} {number : Nat} {l : List Run.Deed} (h : .claim true ∈ l) :
    winner name (l.map fun d => ⟨number, name, d⟩) = some number := by
  unfold winner
  cases hg : ((l.map fun d => (⟨number, name, d⟩ : Entry)).filter (·.wins name)).getLast? with
  | none =>
    have hm := List.filter_eq_nil_iff.mp (List.getLast?_eq_none_iff.mp hg) _ (List.mem_map_of_mem h)
    simp [Entry.wins] at hm
  | some e =>
    obtain ⟨d, -, rfl⟩ := List.mem_map.mp (List.mem_filter.mp (List.mem_of_getLast? hg)).1
    rfl

theorem winner_of_mem {n : String} {log : List Entry} {e : Entry} (he : e ∈ log) (hn : e.name = n)
    (hd : e.deed = .claim true) : ∃ i, winner n log = some i := by
  unfold winner
  cases hg : (log.filter (·.wins n)).getLast? with
  | none =>
    have hm := List.filter_eq_nil_iff.mp (List.getLast?_eq_none_iff.mp hg) e he
    simp [Entry.wins, hn, hd] at hm
  | some e => exact ⟨e.run, rfl⟩

section Histories

variable {P : Nat → Worker → Prop} {w₀ w : Worker} {now : Nat} {log : List Entry}

/-- Under a name lies one marker at most. -/
theorem History.proper (h : History P w₀ now log w) (h0 : Idle w₀) :
    w.shared.markers.entries.Proper := by
  refine h.along (C := fun _ _ w => w.shared.markers.entries.Proper) (fun _ => h0.markers) ?_
  intro now now' log w w' entries h _ _ _ hc ih
  cases hc with
  | acts number r e hr ho hs hw =>
    rw [hs]
    rcases (h.move h0.tasks hr now' e).markers (h.sound h0.tasks hr) with ⟨hm, -⟩ | ⟨hm, -⟩ | ⟨hm, -⟩
    · rw [hm]
      exact ih
    · rw [hm]
      exact ih.put _ _
    · rw [hm]
      exact ih.erase _
  | rests hw hm =>
    rcases hm with hm | hm
    · rw [hm]
      exact ih
    · rw [hm]
      exact ih.keep _

/-- A run of which nothing was heard but that it be told to stop counts as before. -/
theorem Rests.counted {i : Nat} {x y : Option Run} (h : Rests i x y) {all : Bool} {r : Run}
    (hy : y = some r) (hr : r.counted all = true) :
    ∃ t, x = some t ∧ t.counted all = true ∧ t.name = r.name ∧
      ∀ setup, t.claimedAt setup = r.claimedAt setup := by
  cases h with
  | stays => exact ⟨r, hy, hr, rfl, fun _ => rfl⟩
  | told t =>
    cases hy
    exact ⟨t, rfl, hr, rfl, fun _ => rfl⟩
  | spawned q cancelled =>
    cases hy
    rw [Run.counted_start] at hr
    cases hr

/-- No other run counts under the name of a run that sets its marker or holds it. -/
theorem Kept.name_ne {all : Bool} {number : Nat} {r : Run} (ih : Kept all w)
    (hsound : ∀ i t, w.run? i = some t → t.Sound w.setup) (hr : w.run? number = some r)
    (ho : r.isOver = false)
    (hP : ∀ i t c, i ≠ number → w.run? i = some t → t.counted all = true →
      t.claimedAt w.setup = some c → now - c < w.shared.markers.ttl)
    (hm : w.shared.markers.read now r.name ≠ some true ∨ r.holds = true)
    {i : Nat} {t : Run} (hi : i ≠ number) (ht : w.run? i = some t) (hc : t.counted all = true) :
    t.name ≠ r.name := by
  intro hn
  rcases hm with hm | hm
  · obtain ⟨c, hca⟩ := (hsound i t ht).claimedAt_of_holds (Run.holds_of_counted hc)
    refine hm (Markers.read_eq_some_true_iff.mpr ⟨c, ?_, hP i t c hi ht hc hca⟩)
    rw [← hn, ih.marked i t ht hc, hca]
  · exact hi (ih.alone i number t r ht hr hc (Run.counted_of_holds hm ho) hn)

/-- A step of a run keeps the markers of all. -/
theorem Kept.acts {all : Bool} {w' : Worker} {number : Nat} {r r' : Run} {e : Run.Event}
    (ih : Kept all w) (hsound : ∀ i t, w.run? i = some t → t.Sound w.setup)
    (hr : w.run? number = some r) (ho : r.isOver = false)
    (hm : Run.Move w.setup now w.shared r e w'.shared r')
    (hw : ∀ i, w'.run? i = if i = number then some r' else w.run? i)
    (hset : w'.setup = w.setup) (httl : w'.shared.markers.ttl = w.shared.markers.ttl)
    (hP : Timely all now w') : Kept all w' := by
  have hact : w'.run? number = some r' := by rw [hw number, if_pos rfl]
  have hname : r'.name = r.name := by simp only [Run.name, hm.same.2]
  have htime : ∀ i t c, i ≠ number → w.run? i = some t → t.counted all = true →
      t.claimedAt w.setup = some c → now - c < w.shared.markers.ttl := by
    intro i t c hi ht hc hca
    rw [← httl]
    exact hP i t c (by rw [hw i, if_neg hi, ht]) hc (by rw [hset, hca])
  -- What the others have, and what the run has that took the step.
  have hothers : ∀ i t, i ≠ number → w.run? i = some t → t.counted all = true →
      w'.shared.markers.entries.find? t.name = t.claimedAt w.setup := by
    intro i t hi ht hc
    have hmark := ih.marked i t ht hc
    rcases hm.markers (hsound number r hr) with ⟨hk, -⟩ | ⟨hk, hl, -⟩ | ⟨hk, hh, -⟩
    · rw [hk, hmark]
    · rw [hk, Markers.find?_set, if_neg (ih.name_ne hsound hr ho htime (.inl hl) hi ht hc), hmark]
    · rw [hk, Markers.find?_delete, if_neg (ih.name_ne hsound hr ho htime (.inr hh) hi ht hc), hmark]
  have hself : r'.counted all = true →
      w'.shared.markers.entries.find? r.name = r'.claimedAt w.setup ∧
      ∀ i t, i ≠ number → w.run? i = some t → t.counted all = true → t.name ≠ r.name := by
    intro hc
    have hh' := Run.holds_of_counted hc
    rcases hm.markers (hsound number r hr) with ⟨hk, hh, hca⟩ | ⟨hk, hl, -, -, -, hca⟩ | ⟨-, -, hd⟩
    · rw [hh] at hh'
      refine ⟨?_, fun i t hi ht => ih.name_ne hsound hr ho htime (.inr hh') hi ht⟩
      rw [hk, hca hh', ih.marked number r hr (Run.counted_of_holds hh' ho)]
    · refine ⟨?_, fun i t hi ht => ih.name_ne hsound hr ho htime (.inl hl) hi ht⟩
      rw [hk, Markers.find?_set, if_pos rfl, hca]
    · rw [hd] at hh'
      cases hh'
  constructor
  · intro i j t u ht hu htc huc hn
    rw [hw i] at ht
    rw [hw j] at hu
    by_cases hi : i = number
    · by_cases hj : j = number
      · rw [hi, hj]
      · rw [if_pos hi] at ht
        rw [if_neg hj] at hu
        cases ht
        exact absurd (hn.symm.trans hname) ((hself htc).2 j u hj hu huc)
    · rw [if_neg hi] at ht
      by_cases hj : j = number
      · rw [if_pos hj] at hu
        cases hu
        exact absurd (hn.trans hname) ((hself huc).2 i t hi ht htc)
      · rw [if_neg hj] at hu
        exact ih.alone i j t u ht hu htc huc hn
  · intro i t ht htc
    rw [hw i] at ht
    rw [hset]
    by_cases hi : i = number
    · rw [if_pos hi] at ht
      cases ht
      rw [hname]
      exact (hself htc).1
    · rw [if_neg hi] at ht
      exact hothers i t hi ht htc

/-- When no run takes a step, all keep their markers: an eviction takes no marker that is live. -/
theorem Kept.rests {all : Bool} {w' : Worker} (ih : Kept all w)
    (hproper : w.shared.markers.entries.Proper) (hw : ∀ i, Rests i (w.run? i) (w'.run? i))
    (hm : w'.shared.markers = w.shared.markers ∨
      w'.shared.markers = (w.shared.markers.evict now).2)
    (hset : w'.setup = w.setup) (hP : Timely all now w') : Kept all w' := by
  constructor
  · intro i j r t hr ht hrc htc hn
    obtain ⟨r₀, hr₀, hrc₀, hrn, -⟩ := (hw i).counted hr hrc
    obtain ⟨t₀, ht₀, htc₀, htn, -⟩ := (hw j).counted ht htc
    exact ih.alone i j r₀ t₀ hr₀ ht₀ hrc₀ htc₀ (by rw [hrn, htn, hn])
  · intro i r hr hrc
    obtain ⟨r₀, hr₀, hrc₀, hrn, hrt⟩ := (hw i).counted hr hrc
    have hmark := ih.marked i r₀ hr₀ hrc₀
    rw [hrn, hrt, ← hset] at hmark
    rcases hm with hm | hm
    · rw [hm, hmark]
    · rw [hm, Markers.find?_evict hproper, hmark]
      cases hc : r.claimedAt w'.setup with
      | none => rfl
      | some c =>
        have hlive := hP i r c hr hrc hc
        rw [hm] at hlive
        have hlive : w.shared.markers.isLive now c = true := decide_eq_true hlive
        simp [Option.filter, hlive]

/-- **Runs keep their markers.** -/
theorem History.kept {all : Bool} (h : History (Timely all) w₀ now log w) (h0 : Idle w₀) :
    Kept all w := by
  refine h.along (C := fun _ _ w => Kept all w) (fun _ => ?_) ?_
  · have hnone : ∀ i, w₀.run? i = none := fun i => by simp [run?, h0.tasks]
    constructor
    · intro i j r t hr
      rw [hnone i] at hr
      cases hr
    · intro i r hr
      rw [hnone i] at hr
      cases hr
  · intro now now' log w w' entries h ht hP hset hc ih
    cases hc with
    | acts number r e hr ho hs hw =>
      have hm := h.move h0.tasks hr now' e
      rw [← hs] at hm
      have hsound := fun i t (ht : w.run? i = some t) => h.sound h0.tasks ht
      exact ih.acts hsound hr ho hm hw hset (hm.ttl (hsound number r hr)) hP
    | rests hw hm => exact ih.rests (h.proper h0) hw hm hset hP

/-! ### Markers that runs have set -/

theorem Rests.holds {i : Nat} {x y : Option Run} (h : Rests i x y) {r : Run} (hx : x = some r) :
    ∃ t, y = some t ∧ t.name = r.name ∧ t.holds = r.holds ∧
      ∀ setup, t.claimedAt setup = r.claimedAt setup := by
  cases h with
  | stays => exact ⟨r, hx, rfl, rfl, fun _ => rfl⟩
  | told r =>
    cases hx
    exact ⟨_, rfl, rfl, rfl, fun _ => rfl⟩
  | spawned => cases hx

theorem find?_of_rests {w' : Worker} (hproper : w.shared.markers.entries.Proper)
    (hm : w'.shared.markers = w.shared.markers ∨
      w'.shared.markers = (w.shared.markers.evict now).2) {n : String} {t : Nat}
    (h : w'.shared.markers.entries.find? n = some t) :
    w.shared.markers.entries.find? n = some t := by
  rcases hm with hm | hm
  · rwa [hm] at h
  · rw [hm, Markers.find?_evict hproper] at h
    exact (Option.filter_eq_some_iff.mp h).1

/-- A marker under a name that was ever claimed is that of the run that claimed it last, and that run
holds it. -/
def Owned (n : String) (log : List Entry) (w : Worker) : Prop :=
  ∀ i t, winner n log = some i → w.shared.markers.entries.find? n = some t →
    ∃ r, w.run? i = some r ∧ r.name = n ∧ r.holds = true ∧ r.claimedAt w.setup = some t

/-- A step of a run keeps markers owned: the run holds its marker when it has claimed it, and deletes
it when it holds it no longer. -/
theorem Owned.acts {n : String} {w' : Worker} {number : Nat} {r r' : Run} {e : Run.Event}
    (ih : Owned n log w) (hs : r.Sound w.setup) (hr : w.run? number = some r)
    (hm : Run.Move w.setup now w.shared r e w'.shared r')
    (hw : ∀ i, w'.run? i = if i = number then some r' else w.run? i) (hset : w'.setup = w.setup) :
    Owned n (log ++ (r.deeds w.setup e r').map fun d => ⟨number, r.name, d⟩) w' := by
  intro i t hi hn
  rw [winner_append] at hi
  have hself : w'.run? number = some r' := by rw [hw number, if_pos rfl]
  have hname : r'.name = r.name := by simp only [Run.name, hm.same.2]
  -- Whoever had claimed the name before keeps it, unless it is this run and lets go of it.
  have hold : winner n log = some i → w.shared.markers.entries.find? n = some t →
      (r.name = n → r.holds = true → r'.holds = true ∧
        r'.claimedAt w.setup = r.claimedAt w.setup) →
      ∃ u, w'.run? i = some u ∧ u.name = n ∧ u.holds = true ∧ u.claimedAt w'.setup = some t := by
    intro hi hn hk
    obtain ⟨u, hu, hun, huh, hut⟩ := ih i t hi hn
    by_cases hin : i = number
    · rw [hin, hr] at hu
      cases hu
      rw [hin, hset]
      exact ⟨r', hself, hname.trans hun, (hk hun huh).1, (hk hun huh).2.trans hut⟩
    · exact ⟨u, by rw [hw i, if_neg hin, hu], hun, huh, by rw [hset, hut]⟩
  by_cases hc : .claim true ∈ r.deeds w.setup e r' ∧ n = r.name
  · obtain ⟨hc, rfl⟩ := hc
    rw [winner_of_claim hc] at hi
    cases hi
    obtain ⟨hk, hh, -, ht⟩ := hm.wins hs hc
    rw [hk, Markers.find?_set, if_pos rfl] at hn
    cases hn
    exact ⟨r', hself, hname, hh, by rw [hset, ht]⟩
  · rw [winner_eq_none hc, Option.none_or] at hi
    rcases hm.markers hs with ⟨hk, hh, ht⟩ | ⟨hk, -, -, hh, hd, ht⟩ | ⟨hk, -, -⟩
    · rw [hk] at hn
      exact hold hi hn fun _ hr => ⟨hh.trans hr, ht hr⟩
    · have hnr : n ≠ r.name := fun h => hc ⟨Run.claim_mem_of_holds hd hh ht, h⟩
      rw [hk, Markers.find?_set, if_neg hnr] at hn
      exact hold hi hn fun hrn => absurd hrn.symm hnr
    · rw [hk, Markers.find?_delete] at hn
      split at hn
      · cases hn
      · rename_i hnr
        exact hold hi hn fun hrn => absurd hrn.symm hnr

/-- **A marker that a run has set is held** by the run that claimed the name last. -/
theorem History.owned (h : History P w₀ now log w) (h0 : Idle w₀) (n : String) : Owned n log w := by
  refine h.along (C := fun _ log w => Owned n log w) (fun _ i t hi => by cases hi) ?_
  intro now now' log w w' entries h ht hP hset hch ih
  cases hch with
  | acts number r e hr ho hs hw =>
    have hm := h.move h0.tasks hr now' e
    rw [← hs] at hm
    exact ih.acts (h.sound h0.tasks hr) hr hm hw hset
  | rests hw hm =>
    intro i t hi hn
    rw [List.append_nil] at hi
    obtain ⟨r, hr, hrn, hrh, hrt⟩ := ih i t hi (find?_of_rests (h.proper h0) hm hn)
    obtain ⟨r', hr', hrn', hrh', hrt'⟩ := (hw i).holds hr
    exact ⟨r', hr', hrn'.trans hrn, hrh'.trans hrh, by rw [hset, hrt', hrt]⟩

/-! ### What only the holder of a name does -/

/-- A run that asks the runtime holds its marker, and asks about its own container. -/
theorem asks_own {setup : Run.Setup} {r : Run} (hs : r.Sound setup) {ask : Container.Ask}
    (ha : r.call? setup = some (.container ask)) :
    r.holds = true ∧ ∀ n, ask.subject? = some n → n = r.name := by
  have hp := hs.place
  unfold Run.InPlace at hp
  unfold Run.call? at ha
  split at ha
  · cases ha
  · rename_i stage hph
    simp only [hph] at hp
    refine ⟨by simp [Run.holds, hph, hp.1], fun n hn => ?_⟩
    simp only [Option.map_eq_some_iff] at ha
    obtain ⟨ask', ha', hask⟩ := ha
    cases hask
    exact Container.subject_of_ask ha' hn
  · rename_i exit hph
    simp only [hph] at hp
    cases ha
    exact ⟨by simp [Run.holds, hph, hp], fun n hn => (Option.some.inj hn).symm⟩
  · rename_i f hph
    simp only [hph] at hp
    cases ha
    exact ⟨by simp [Run.holds, hph, hp], fun n hn => (Option.some.inj hn).symm⟩
  · cases ha
  · cases ha

theorem History.disk_of_not_holds (h : History P w₀ now log w) (h0 : w₀.tasks = []) {i : Nat}
    {r : Run} (hr : w.run? i = some r) (hh : r.holds = false) (now : Nat) (e : Run.Event) :
    (w.heed now (.run i e)).shared.disk = w.shared.disk := by
  cases ho : r.isOver with
  | true => rw [(heed_over hr ho now e).1]
  | false =>
    rw [(heed_run hr ho now e).1]
    exact (h.move h0 hr now e).disk_of_not_holds (h.sound h0 hr) hh

theorem History.sameBut (h : History P w₀ now log w) (h0 : w₀.tasks = []) {i : Nat} {r : Run}
    (hr : w.run? i = some r) (hn : Container.checkName r.name = .ok ()) (now : Nat)
    (e : Run.Event) :
    Staging.SameBut (Staging.fileName r.name) w.shared.disk.tree
      (w.heed now (.run i e)).shared.disk.tree := by
  cases ho : r.isOver with
  | true =>
    rw [(heed_over hr ho now e).1]
    exact .rfl
  | false =>
    rw [(heed_run hr ho now e).1]
    exact (h.move h0 hr now e).sameBut (h.sound h0 hr) (Staging.not_slash_of_checkName hn)

/-- **A run that found another one dispatched** never claimed its marker, and asked the runtime
nothing. -/
theorem History.refused (h : History P w₀ now log w) (h0 : w₀.tasks = []) {i : Nat} {r : Run}
    (hr : w.run? i = some r) (hc : .claim false ∈ deedsOf i log) :
    .claim true ∉ deedsOf i log ∧ r.holds = false ∧
      ∀ ask e, .called (.container ask) e ∉ deedsOf i log := by
  obtain ⟨s₀, hco⟩ := h.course h0 hr
  have hn : .claim true ∉ deedsOf i log := fun ht => hco.account.claims_once ht hc
  exact ⟨hn, Bool.eq_false_iff.mpr fun hh => hn (hco.claimed hh), hco.account.unclaimed hn⟩

end Histories

/-! ### Exclusion -/

/-- Whether a run holds a name: it has claimed the marker and not deleted it yet. -/
def HoldsName (w : Worker) (n : String) (i : Nat) : Prop :=
  ∃ r, w.run? i = some r ∧ r.name = n ∧ r.holds = true

/-- A name belongs to one run at a time, and so does all that bears it. -/
structure Exclusive (log : List Entry) (w : Worker) : Prop where
  alone : ∀ n i j, w.HoldsName n i → w.HoldsName n j → i = j
  /-- A marker that a run has set is there exactly while a run holds the name. -/
  marker_iff : ∀ n, (∃ e ∈ log, e.name = n ∧ e.deed = .claim true) →
    ((w.shared.markers.entries.find? n).isSome = true ↔ ∃ i, w.HoldsName n i)
  /-- The marker of a run that holds its name is its own. -/
  marker : ∀ i r, w.run? i = some r → r.holds = true →
    w.shared.markers.entries.find? r.name = r.claimedAt w.setup
  /-- Whoever asks the runtime about a container holds its name. -/
  calls : ∀ i r ask, w.run? i = some r → r.call? w.setup = some (.container ask) →
    w.HoldsName r.name i ∧ ∀ n, ask.subject? = some n → n = r.name
  /-- No container is made while another run holds its name. -/
  made : ∀ i r spec, w.run? i = some r → r.call? w.setup = some (.container (.create spec)) →
    ∀ j, w.HoldsName spec.name j → j = i
  /-- Whoever changes a staged file of a name holds that name. -/
  files : ∀ i r now e n kind p (t : Staging.Tree), w.run? i = some r →
    Container.checkName r.name = .ok () → Container.checkName n = .ok () →
    t.locate (Staging.components (Staging.pathFor w.setup.root kind n)) = .ok p →
    (w.heed now (.run i e)).shared.disk.tree.fileAt p ≠ w.shared.disk.tree.fileAt p →
    w.HoldsName n i
  /-- A run that found another one dispatched asks the runtime nothing and leaves the files alone. -/
  refused : ∀ i r, w.run? i = some r → .claim false ∈ deedsOf i log →
    .claim true ∉ deedsOf i log ∧ (∀ ask e, .called (.container ask) e ∉ deedsOf i log) ∧
      (∀ ask, r.call? w.setup ≠ some (.container ask)) ∧
        ∀ now e, (w.heed now (.run i e)).shared.disk = w.shared.disk

/-- **One run per name.** In whatever order the runs take their steps, fail and are interrupted: as long
as no marker expires under the run that holds it, a name belongs to one run at a time. -/
theorem History.exclusive {w₀ w : Worker} {now : Nat} {log : List Entry}
    (h : History (Timely true) w₀ now log w) (h0 : Idle w₀) : Exclusive log w := by
  have hk := h.kept h0
  have hcount : ∀ r : Run, r.holds = true → r.counted true = true := fun r hr => by
    simp [Run.counted, hr]
  have halone : ∀ n i j, w.HoldsName n i → w.HoldsName n j → i = j := by
    rintro n i j ⟨r, hr, hrn, hrh⟩ ⟨t, ht, htn, hth⟩
    exact hk.alone i j r t hr ht (hcount r hrh) (hcount t hth) (hrn.trans htn.symm)
  have hcalls : ∀ i r ask, w.run? i = some r → r.call? w.setup = some (.container ask) →
      w.HoldsName r.name i ∧ ∀ n, ask.subject? = some n → n = r.name := by
    intro i r ask hr ha
    obtain ⟨hh, hs⟩ := asks_own (h.sound h0.tasks hr) ha
    exact ⟨⟨r, hr, rfl, hh⟩, hs⟩
  refine ⟨halone, fun n hc => ?_, fun i r hr hh => hk.marked i r hr (hcount r hh), hcalls, ?_, ?_, ?_⟩
  · constructor
    · intro hn
      obtain ⟨t, ht⟩ := Option.isSome_iff_exists.mp hn
      obtain ⟨e, he, hen, hed⟩ := hc
      obtain ⟨i, hi⟩ := winner_of_mem he hen hed
      obtain ⟨r, hr, hrn, hrh, -⟩ := h.owned h0 n i t hi ht
      exact ⟨i, r, hr, hrn, hrh⟩
    · rintro ⟨i, r, hr, rfl, hh⟩
      obtain ⟨t, ht⟩ := (h.sound h0.tasks hr).claimedAt_of_holds hh
      rw [hk.marked i r hr (hcount r hh), ht]
      rfl
  · intro i r spec hr ha j hj
    obtain ⟨hi, hs⟩ := hcalls i r _ hr ha
    rw [← hs spec.name rfl] at hi
    exact halone spec.name j i hj hi
  · intro i r now' e n kind p t hr hrn hn hp hne
    refine ⟨r, hr, ?_, ?_⟩
    · refine Classical.byContradiction fun hname => hne (h.sameBut h0.tasks hr hrn now' e p ?_)
      have hlast := Staging.getLast_components_pathFor w.setup.root kind
        (Staging.not_slash_of_checkName hn)
      rw [Staging.Tree.getLast_of_locate hp hlast (Staging.fileName_ne (by decide))]
      exact fun hf => hname (Staging.fileName_injective (Option.some.inj hf)).symm
    · refine Bool.of_not_eq_false fun hh => hne ?_
      rw [h.disk_of_not_holds h0.tasks hr hh now' e]
  · intro i r hr hc
    obtain ⟨hn, hh, ha⟩ := h.refused h0.tasks hr hc
    refine ⟨hn, ha, fun ask hask => ?_, fun now' e => h.disk_of_not_holds h0.tasks hr hh now' e⟩
    have := (asks_own (h.sound h0.tasks hr) hask).1
    rw [hh] at this
    cases this

/-- Two runs of one name: the second finds the marker of the first. -/
def duplicates : List (Nat × Event) :=
  [(0, .spawn Run.sampleRequest true), (0, .spawn Run.sampleRequest true),
    (1, .run 0 (.configuration (.ok []))), (2, .run 1 (.configuration (.ok []))),
    (3, .run 0 .file), (3, .run 1 (.stored (.ok ()))), (4, .run 0 .file)]

theorem sample_exclusive :
    (Idle sample ∧ Scheduled (Timely true) 0 sample duplicates) ∧
      Exclusive (play ([], sample) duplicates).1 (play ([], sample) duplicates).2 :=
  have h0 : Idle sample := ⟨rfl, List.nodup_nil⟩
  have hs : Scheduled (Timely true) 0 sample duplicates := by decide
  have ⟨_, h⟩ := History.play duplicates (.start 0) hs
  ⟨⟨h0, hs⟩, h.exclusive h0⟩

end Worker
end RunDispatch
