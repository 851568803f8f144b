/-
# Containers that a worker spares

Runs have containers stopped and removed by name. So a container that stands on the host goes on as it
was, unless a run whose name it goes by asks for the removal of its own. Such a run has claimed its
marker, and it fails neither in staging nor for want of its image. If the name is that of the container,
the run has not launched another by then: the engine refuses to make it.

That the container is not one of the worker's own does not save it. When the engine refuses to make a
container because the name is taken, the run has whatever has the name removed (`sample_takes`).

Key definitions: `Errand.Unmade`, `Spared`, `TakenBy`.
Key theorems: `Spared.step`, `Hosted.spares`.
-/
import RunDispatch.Proofs.Worker.Errands

namespace RunDispatch
namespace Worker

open Engine

section Sparing

variable {σ : Type} {host : Host σ} {others : σ → σ → Prop} {t₀ t₁ t t' : Nat}
  {d₀ d₁ d d' : Station σ} {w₀ : Worker} {s₀ : σ}

/-! ### A container that goes on -/

/-- A question for a container to be made was not answered yet, or its container was not made. -/
inductive Errand.Unmade (e : Errand) (spec : Container.Spec) : Prop
  | asked (grace : Nat) (h : e.left = answer grace (.create spec))
  | refused (f : Container.Failure) (shown : List Container.Chunk)
      (h : e.left = .done (.failed f, shown))

/-- A container goes on as it was, and the runs of its name that are new since have launched none. -/
structure Spared (host : Host σ) (c : Standing) (d₁ d : Station σ) : Prop where
  stands : host.Has c d.engine
  idle : ∀ {i r}, d.worker.run? i = some r → d₁.worker.run? i = none → r.name = c.name →
    Run.launched (deedsOf i d.log) = false
  unmade : ∀ e ∈ d.errands, d₁.worker.run? e.run = none → ∀ spec, e.ask = .create spec →
    spec.name = c.name → e.Unmade spec

/-- A container was ended, or may have been, when the runs since a moment had done `before`: a run had
asked for its own container to be removed, whose name the other goes by. -/
structure TakenBy (c : Standing) (d₁ d : Station σ) (i : Nat) (name : String)
    (before : List Entry) : Prop where
  run : ∃ r, d.worker.run? i = some r ∧ r.name = name ∧
    ∀ f, r.phase = .ended (.error f) → f.isEarly = false
  called : c.CalledBy name
  asked : (i, .remove name) ∈ d.asked
  after : d₁.log <+: before
  since : before <+: d.log
  claimed : .claim true ∈ deedsOf i before
  /-- A run of the name that is new since the moment had launched nothing. -/
  idle : d₁.worker.run? i = none → name = c.name → Run.launched (deedsOf i before) = false

theorem Errand.Unmade.left_eq {e : Errand} {spec : Container.Spec} (h : e.Unmade spec) :
    (∃ r next, e.left = .send r next) ∨ ∃ f shown, e.left = .done (.failed f, shown) := by
  cases h with
  | asked grace h =>
    obtain ⟨next, ha, -⟩ := answer_create grace spec
    exact .inl ⟨_, next, h.trans ha⟩
  | refused f shown h => exact .inr ⟨f, shown, h⟩

/-- While a container stands, the engine makes none of its name. -/
theorem Errand.Unmade.serves {e : Errand} {spec : Container.Spec} (h : e.Unmade spec)
    (hd : host.Documented) {c : Standing} (hn : spec.name = c.name) {s s' : σ} (hc : host.Has c s)
    {r : Engine.Request} {next : Response → Exchange (Container.Reply × List Container.Chunk)}
    {x : Response} (hl : e.left = .send r next) (hs : host.serves s r x s') :
    Errand.Unmade { e with left := next x } spec := by
  cases h with
  | asked grace h =>
    obtain ⟨next', ha, hrefused⟩ := answer_create grace spec
    rw [ha, hl] at h
    cases h
    obtain ⟨f, hf⟩ := hrefused x (hd.taken hs (by simp [hn]) hc)
    exact .refused f [] hf
  | refused f shown h =>
    rw [hl] at h
    cases h

/-- A new run of the name of a container that goes on launches none. -/
theorem Spared.not_launched {c : Standing} (hu : Spared host c d₁ d) (ho : Orderly d) {e : Event}
    (hr : ∀ x ∈ e.reply?, d.Replied x.1 x.2) {i : Nat} (hi : d₁.worker.run? i = none)
    (hname : ∀ r, d.worker.run? i = some r → r.name = c.name) :
    Run.launched (deedsOf i (d.worker.deeds t' e)) = false := by
  refine Bool.eq_false_iff.mpr fun hl => ?_
  obtain ⟨a, ha, hcreates⟩ := List.any_eq_true.mp hl
  unfold Run.Deed.creates at hcreates
  split at hcreates
  · rename_i spec id
    obtain ⟨x, hx, rfl, hask, shown, hleft⟩ := Station.replied_of_called hr ha
    obtain ⟨r, hr, hown, -⟩ := (ho.errands x hx).own
    have hsubject : x.ask.subject? = some spec.name := by
      rw [hask]
      rfl
    have hspec : spec.name = c.name := (hown _ hsubject).trans (hname r hr)
    -- What is left of the question is no container that was made.
    rcases (hu.unmade x hx hi spec hask hspec).left_eq with ⟨_, _, hl⟩ | ⟨_, _, hl⟩
    all_goals
      rw [hleft] at hl
      cases hl
  · cases hcreates

/-- What happens to the worker spares a container that was spared. -/
theorem Spared.happens {c : Standing} (hu : Spared host c d₁ d) (ho : Orderly d)
    (h : Hosted host others t₀ (.opening w₀ s₀) t d) (h0 : w₀.tasks = []) {e : Event}
    (hr : ∀ x ∈ e.reply?, d.Replied x.1 x.2) : Spared host c d₁ (d.heed t' e) := by
  refine ⟨hu.stands, fun {i r'} hr' hi hn => ?_, hu.unmade⟩
  have hbefore : Run.launched (deedsOf i d.log) = false ∧
      ∀ r, d.worker.run? i = some r → r.name = c.name := by
    rcases h.history.follows h0 hr' with ⟨hnone, -⟩ | ⟨r, hri, hq, -⟩
    · have hnothing := h.history.deedsOf_of_none h0 hnone
      refine ⟨by rw [hnothing]; rfl, fun r hri => ?_⟩
      rw [hnone] at hri
      cases hri
    · have hname : r.name = c.name := by rw [← hn, Run.name, Run.name, hq]
      refine ⟨hu.idle hri hi hname, fun r₂ hr₂ => ?_⟩
      obtain rfl : r = r₂ := Option.some.inj (hri.symm.trans hr₂)
      exact hname
  rw [Station.heed, deedsOf_append, Run.launched, List.any_append]
  exact Bool.or_eq_false_iff.mpr ⟨hbefore.1, hu.not_launched ho hr hi hbefore.2⟩

theorem Spared.goOn {c : Standing} (hu : Spared host c d₁ d) {k : Nat} {e : Errand}
    {left : Exchange (Container.Reply × List Container.Chunk)} {s : σ} (hs : host.Has c s)
    (hleft : ∀ spec, e.ask = .create spec → spec.name = c.name → d₁.worker.run? e.run = none →
      Errand.Unmade { e with left } spec) : Spared host c d₁ (d.goOn k e left s) := by
  refine ⟨hs, hu.idle, fun x hx hi spec hask hname => ?_⟩
  rcases List.mem_or_eq_of_mem_set hx with hx | rfl
  · exact hu.unmade x hx hi spec hask hname
  · exact hleft spec hask hname hi

/-- **What one step leaves of a container**: it goes on, or is ended by a removal that it goes by. -/
theorem Spared.step {c : Standing} (hu : Spared host c d₁ d) (ho : Orderly d)
    (h : Hosted host others t₀ (.opening w₀ s₀) t d) (h0 : w₀.tasks = []) (hd : host.Documented)
    (hothers : ∀ s s', others s s' → host.Has c s → host.Has c s') (hp : d₁.log <+: d.log)
    (hs : Station.Step host others t d t' d') :
    Spared host c d₁ d' ∨ ∃ i name, TakenBy c d₁ d' i name d.log := by
  cases hs with
  | happens _ _ _ hr => exact .inl (hu.happens ho h h0 hr)
  | asks _ ha =>
    refine .inl ⟨hu.stands, hu.idle, fun x hx hi spec hask hname => ?_⟩
    rcases List.mem_append.mp hx with hx | hx
    · exact hu.unmade x hx hi spec hask hname
    · obtain rfl := List.mem_singleton.mp hx
      obtain rfl : _ = Container.Ask.create spec := hask
      exact .asked (d.worker.setup.stopGrace / 1000) rfl
  | @serves _ k e r next x s he hl hs =>
    have hgoOn : host.Has c s → Spared host c d₁ (d.goOn k e (next x) s) := fun hc =>
      hu.goOn hc fun spec hask hname hi =>
        (hu.unmade e (List.mem_of_getElem? he) hi spec hask hname).serves hd hname hu.stands hl hs
    rcases (ho.obeys he hl).1 with hg | ⟨name, hask, hends⟩
    · exact .inl (hgoOn (hd.gentle hs hg hu.stands))
    · by_cases hcalled : c.CalledBy name
      · have hasked : (e.run, .remove name) ∈ d.asked :=
          List.mem_map.mpr ⟨e, List.mem_of_getElem? he, by rw [hask]⟩
        obtain ⟨hclaimed, r, hr, hname, hlate⟩ := ho.of_removes hasked
        refine .inr ⟨e.run, name, ⟨r, hr, hname, hlate⟩, hcalled, ?_, hp, List.prefix_rfl, hclaimed,
          fun hi hn => hu.idle hr hi (hname.trans hn)⟩
        rwa [Station.asked_goOn he]
      · exact .inl (hgoOn (hd.named hs hends hcalled hu.stands))
  | @feeds _ k e payload next y s he hl hs =>
    refine .inl (hu.goOn (hd.fed hs hu.stands) fun spec hask hname hi => ?_)
    rcases (hu.unmade e (List.mem_of_getElem? he) hi spec hask hname).left_eq with
      ⟨_, _, hl'⟩ | ⟨_, _, hl'⟩
    all_goals
      rw [hl] at hl'
      cases hl'
  | meanwhile _ hs => exact .inl ⟨hothers _ _ hs hu.stands, hu.idle, hu.unmade⟩

theorem TakenBy.step {c : Standing} {i : Nat} {name : String} {before : List Entry}
    (hb : TakenBy c d₁ d i name before) (ho' : Orderly d') (hs : Station.Step host others t d t' d')
    (hp : d.log <+: d'.log) : TakenBy c d₁ d' i name before := by
  have hasked := hs.asked_grows.subset hb.asked
  exact ⟨(ho'.of_removes hasked).2, hb.called, hasked, hb.after, hb.since.trans hp, hb.claimed, hb.idle⟩

/-- **Containers that a worker spares.** Every container that stands on the host at some moment goes on
as it was, unless a run asks for the removal of its own container, whose name the other goes by. -/
theorem Hosted.spares (hd : host.Documented) (h0 : w₀.tasks = [])
    (h₁ : Hosted host others t₀ (.opening w₀ s₀) t₁ d₁) (h : Hosted host others t₁ d₁ t d)
    {c : Standing} (hc : host.Has c d₁.engine)
    (hothers : ∀ s s', others s s' → host.Has c s → host.Has c s') :
    host.Has c d.engine ∨ ∃ i name before, TakenBy c d₁ d i name before := by
  suffices hu : Spared host c d₁ d ∨ ∃ i name before, TakenBy c d₁ d i name before from
    hu.imp_left (·.stands)
  induction h with
  | start =>
    refine .inl ⟨hc, fun hr hi => ?_, fun e he hi => ?_⟩
    · rw [hi] at hr
      cases hr
    · obtain ⟨r, hr, -⟩ := ((h₁.orderly h0).errands e he).own
      rw [hi] at hr
      cases hr
  | step h hs ih =>
    have hall := h₁.trans h
    have hp := (Hosted.start.step hs).log_grows
    rcases ih with hu | ⟨i, name, before, hb⟩
    · rcases hu.step (hall.orderly h0) hall h0 hd hothers h.log_grows hs with hu | ⟨i, name, hb⟩
      · exact .inl hu
      · exact .inr ⟨i, name, _, hb⟩
    · exact .inr ⟨i, name, before, hb.step ((hall.step hs).orderly h0) hs hp⟩

end Sparing

/-! ### A container that is taken for one of the worker's own -/

/-- What is to become of a worker on the sample host: something happens to it, a run puts its question to
the engine, or the engine answers the next request of an errand. -/
inductive Station.Act where
  | happens (now : Nat) (e : Event)
  | asks (number : Nat)
  | serves (k : Nat)

/-- A worker on the sample host after an act; what cannot be changes nothing. -/
def Station.act (d : Station (List Standing)) : Station.Act → Station (List Standing)
  | .happens now e => d.heed now e
  | .asks number =>
    match d.worker.asks? number with
    | some ask => d.ask number ask
    | none => d
  | .serves k =>
    match d.errands[k]? with
    | none => d
    | some e =>
      match e.left with
      | .send r next => d.goOn k e (next (sampleAnswer d.engine r).1) (sampleAnswer d.engine r).2
      | _ => d

/-- Whether acts can follow one another: none comes before its time, and the worker is told what the
engine answered. -/
def Station.Permits : Nat → Station (List Standing) → List Station.Act → Prop
  | _, _, [] => True
  | now, d, .happens now' e :: rest =>
    now ≤ now' ∧ (∀ x ∈ e.reply?, d.Replied x.1 x.2) ∧ Permits now' (d.heed now' e) rest
  | now, d, a :: rest => Permits now (d.act a) rest

instance Station.Permits.decidable :
    ∀ (now : Nat) (d : Station (List Standing)) (acts : List Station.Act), Decidable (Permits now d acts)
  | _, _, [] => .isTrue trivial
  | now, d, .happens now' e :: rest =>
    have := Permits.decidable now' (d.heed now' e) rest
    inferInstanceAs (Decidable (now ≤ now' ∧ (∀ x ∈ e.reply?, d.Replied x.1 x.2) ∧ _))
  | now, d, .asks number :: rest => Permits.decidable now (d.act (.asks number)) rest
  | now, d, .serves k :: rest => Permits.decidable now (d.act (.serves k)) rest

/-- Acts that can follow one another are what can become of a worker on the sample host. -/
theorem Hosted.play {others : List Standing → List Standing → Prop} {t₀ : Nat}
    {d₀ : Station (List Standing)} (acts : List Station.Act) {t : Nat} {d : Station (List Standing)}
    (h : Hosted sampleHost others t₀ d₀ t d) (hp : Station.Permits t d acts) :
    ∃ t', Hosted sampleHost others t₀ d₀ t' (acts.foldl Station.act d) := by
  induction acts generalizing t d with
  | nil => exact ⟨t, h⟩
  | cons a rest ih =>
    cases a with
    | happens now e =>
      obtain ⟨ht, hr, hrest⟩ := hp
      exact ih (h.step (.happens ht d e hr)) hrest
    | asks number =>
      refine ih (t := t) ?_ hp
      simp only [Station.act]
      split
      · rename_i ha
        exact h.step (.asks t d ha)
      · exact h
    | serves k =>
      refine ih (t := t) ?_ hp
      simp only [Station.act]
      split
      · exact h
      · rename_i he
        split
        · rename_i hl
          exact h.step (.serves t d he hl rfl)
        · exact h

def sampleStanding : List Standing := [⟨"0d", "c", true⟩, ⟨"1d", "d", true⟩]

def sampleConflict : Container.Failure := (Trouble.refused 409 "").failure .create "c"

/-- A run whose container is not made, since another has its name, and which then has this one removed. -/
def conflicting : List Station.Act :=
  [.happens 0 (.spawn Run.sampleRequest true), .happens 1 (.run 0 (.configuration (.ok []))),
    .happens 2 (.run 0 .file), .happens 3 (.run 0 .file), .asks 0, .serves 0, .serves 0,
    .happens 4 (.run 0 (.container .done)), .asks 0, .serves 1,
    .happens 5 (.run 0 (.container (.failed sampleConflict))), .asks 0, .serves 2, .serves 2,
    .happens 6 (.run 0 (.container .done)), .asks 0, .serves 3,
    .happens 7 (.run 0 (.container .done))]

def conflicted : Station (List Standing) := conflicting.foldl Station.act (.opening sample sampleStanding)

theorem hosted_conflicted :
    ∃ t, Hosted sampleHost (fun _ _ => False) 0 (.opening sample sampleStanding) t conflicted := by
  have hp : Station.Permits 0 (.opening sample sampleStanding) conflicting := by decide
  exact Hosted.play _ .start hp

/-- **A container is taken for one of the worker's own.** No run has launched a container, but the one of
the name of the run does not stand any more when the run is over. -/
theorem sample_takes :
    (sampleHost.Documented ∧ sample.tasks = [] ∧
      Container.checkName Run.sampleRequest.containerName = .ok () ∧
      ∃ t, Hosted sampleHost (fun _ _ => False) 0 (.opening sample sampleStanding) t conflicted) ∧
    (∃ r, conflicted.worker.run? 0 = some r ∧
      r.phase = .ended (.error (.container sampleConflict))) ∧
    (∀ x ∈ conflicted.log, x.deed.creates = false) ∧
    sampleHost.Has ⟨"0d", "c", true⟩ sampleStanding ∧
    ¬ sampleHost.Has ⟨"0d", "c", true⟩ conflicted.engine := by
  refine ⟨⟨sampleHost_documented, rfl, by decide, hosted_conflicted⟩,
    ⟨_, rfl, by decide⟩, by decide, ⟨_, .head _, rfl, rfl, id⟩, ?_⟩
  have hleft : conflicted.engine = [⟨"1d", "d", true⟩] := by decide
  rw [hleft]
  rintro ⟨c, hc, hid, -⟩
  obtain rfl := List.mem_singleton.mp hc
  exact absurd hid (by decide)

/-- What stands beside it goes on. -/
theorem sample_spares :
    (sampleHost.Documented ∧ sample.tasks = [] ∧
      sampleHost.Has ⟨"1d", "d", true⟩ sampleStanding ∧
      ∃ t, Hosted sampleHost (fun _ _ => False) 0 (.opening sample sampleStanding) t conflicted) ∧
    sampleHost.Has ⟨"1d", "d", true⟩ conflicted.engine := by
  have hd := sampleHost_documented
  have hc : sampleHost.Has ⟨"1d", "d", true⟩ sampleStanding :=
    ⟨_, .tail _ (.head _), rfl, rfl, id⟩
  obtain ⟨t, h⟩ := hosted_conflicted
  refine ⟨⟨hd, rfl, hc, t, h⟩, ?_⟩
  rcases Hosted.spares hd rfl .start h hc (fun _ _ => False.elim) with hs | ⟨i, name, _, hb⟩
  · exact hs
  · obtain ⟨r, hr, rfl, -⟩ := hb.run
    have hname : r.name = "c" := by
      cases i with
      | zero =>
        cases hr
        rfl
      | succ i => cases hr
    exact absurd (hname ▸ hb.called) (by decide)

end Worker
end RunDispatch
