/-
# The cache under many calls at once

Calls on the cache may be under way at the same time. Each is a few atomic steps: a get reads the marker
and, if that has expired, removes it in a second step unless it is live by then; an eviction counts the
markers, tidies up the parts of the table one after another, and counts again; a set, a deletion and a
claim are one step each. The steps of all calls follow one another in any order, at times that do not go
back.

A step does one of four things to the marker of a name: it deletes it, it sets one, it removes an expired
one, or it leaves the name alone (`Place.fate`). So as long as nobody deletes it, the marker that was set
last under a name is there, or it had expired when it was removed and is expired ever after
(`Interleaving.stands`). Whoever wins a claim has found it so.

Key definitions: `Shards`, `Call`, `Place`, `Place.effect`, `Place.next`, `Scene`, `Interleaving`,
`lastInsertion`.
Key theorems: `get_eq_steps`, `evict_eq_sweeps`, `Place.fate`, `Interleaving.stands`,
`Interleaving.claims_apart`, `Interleaving.one_winner`.
-/
import Mathlib.Data.List.Induction
import RunDispatch.Proofs.Marker

namespace RunDispatch
namespace Markers

/-! ### Calls and their steps -/

/-- The parts of the table, which are locked one at a time: how many there are, and in which of them a
name lies. -/
structure Shards where
  count : Nat
  of : String → Nat
  of_lt : ∀ name, of name < count

/-- A call on the cache. -/
inductive Call where
  | get (name : String)
  | set (name : String)
  | delete (name : String)
  | claim (name : String)
  | evict
  deriving DecidableEq, Repr

/-- What a call comes to. -/
inductive Answer where
  | flag (b : Bool)
  | counted (n : Nat)
  | nothing
  deriving DecidableEq, Repr

/-- Where a call stands. -/
inductive Place where
  /-- It has not taken a step yet. -/
  | called (c : Call)
  /-- A get has read an expired marker, which it is to remove. -/
  | expired (name : String)
  /-- An eviction has counted the markers, and has these parts of the table left. -/
  | evicting (before : Nat) (left : List Nat)
  | returned (a : Answer)
  deriving DecidableEq, Repr

/-- Whether a call has steps left. -/
def Place.isUnderWay : Place → Bool
  | .returned _ => false
  | _ => true

def sweep (shards : Shards) (m : Markers) (now part : Nat) : Markers :=
  { m with entries := m.entries.filter fun e => shards.of e.1 ≠ part ∨ m.isLive now e.2 }

/-- The markers after the next step of a call. -/
def Place.effect (shards : Shards) (m : Markers) (now : Nat) : Place → Markers
  | .called (.set name) => m.set now name
  | .called (.delete name) => (m.delete name).2
  | .called (.claim name) => (m.claim now name).2
  | .expired name => m.purge now name
  | .evicting _ (part :: _) => m.sweep shards now part
  | _ => m

/-- Where a call stands after its next step. -/
def Place.next (shards : Shards) (m : Markers) (now : Nat) : Place → Place
  | .called (.get name) =>
    if m.read now name = some false then .expired name
    else .returned (.flag (m.read now name = some true))
  | .called (.set _) => .returned .nothing
  | .called (.delete name) => .returned (.flag (m.delete name).1)
  | .called (.claim name) => .returned (.flag (m.claim now name).1)
  | .called .evict => .evicting m.size (List.range shards.count)
  | .expired _ => .returned (.flag false)
  | .evicting before (_ :: left) => .evicting before left
  | .evicting before [] => .returned (.counted (before - m.size))
  | .returned a => .returned a

/-! ### Calls by themselves

A call whose steps nothing comes between does what the cache does when it is asked alone. -/

/-- A get is its two steps. -/
theorem get_eq_steps (shards : Shards) (m : Markers) (now : Nat) (name : String) :
    let after := Place.next shards m now (.called (.get name))
    (m.get now name).2 = after.effect shards m now ∧
      (after = .returned (.flag (m.get now name).1) ∨
        after.next shards (m.get now name).2 now = .returned (.flag (m.get now name).1)) := by
  unfold get
  cases h : m.read now name with
  | none => simp [Place.next, Place.effect, h]
  | some live => cases live <;> simp [Place.next, Place.effect, h]

/-- Sweeping some parts keeps what lies elsewhere, and what is live. -/
theorem sweeps_eq (shards : Shards) (now : Nat) (parts : List Nat) (m : Markers) :
    parts.foldl (fun m part => m.sweep shards now part) m =
      { m with entries := m.entries.filter fun e => shards.of e.1 ∉ parts ∨ m.isLive now e.2 } := by
  induction parts generalizing m with
  | nil =>
    have hall : (m.entries.filter fun e => shards.of e.1 ∉ [] ∨ m.isLive now e.2) = m.entries :=
      List.filter_eq_self.mpr fun e _ => by simp
    rw [hall]
    rfl
  | cons part rest ih =>
    have hlive : (m.sweep shards now part).isLive = m.isLive := rfl
    rw [List.foldl_cons, ih, hlive, sweep]
    simp only [List.filter_filter, Markers.mk.injEq, true_and]
    apply List.filter_congr
    intro e _
    by_cases he : m.isLive now e.2 = true
    · simp [he]
    · simp [he, Bool.and_comm]

/-- An eviction sweeps all parts. -/
theorem evict_eq_sweeps (shards : Shards) (m : Markers) (now : Nat) :
    (m.evict now).2 =
      (List.range shards.count).foldl (fun m part => m.sweep shards now part) m := by
  rw [sweeps_eq]
  simp only [evict, Table.keep, Markers.mk.injEq, true_and]
  apply List.filter_congr
  intro e _
  simp [shards.of_lt e.1]

/-! ### What a step does to one marker -/

/-- Whether a step from a place sets a marker under a name. -/
def Place.sets (m : Markers) (now : Nat) (name : String) (p : Place) : Prop :=
  p = .called (.set name) ∨ p = .called (.claim name) ∧ m.read now name ≠ some true

/-- What may become of the marker of a name in a step at `now`: it is as it was, it is deleted, it is
set, or it had expired and is removed. -/
inductive Place.Fate (m : Markers) (now : Nat) (name : String) (p : Place) (after : Option Nat) : Prop
  | kept (h : after = m.entries.find? name) (hd : p ≠ .called (.delete name))
      (hs : ¬ p.sets m now name)
  | deleted (h : after = none) (hd : p = .called (.delete name))
  | set (h : after = some now) (hs : p.sets m now name)
  | removed (h : after = none) (hd : p ≠ .called (.delete name)) (hs : ¬ p.sets m now name)
      (t : Nat) (ht : m.entries.find? name = some t) (hx : m.ttl ≤ now - t)

theorem find?_purge (m : Markers) (now : Nat) (name n : String) :
    (m.purge now name).entries.find? n =
      if n = name ∧ m.read now name = some false then none else m.entries.find? n := by
  unfold purge
  by_cases h : m.read now name = some false
  · rw [if_pos h, Table.find?_erase]
    simp [h]
  · simp [h]

theorem find?_claim (m : Markers) (now : Nat) (name n : String) :
    (m.claim now name).2.entries.find? n =
      if n = name ∧ m.read now name ≠ some true then some now else m.entries.find? n := by
  unfold claim
  by_cases h : m.read now name = some true
  · simp [h]
  · rw [if_neg h, find?_set]
    simp [h]

theorem find?_sweep {m : Markers} (hm : m.entries.Proper) (shards : Shards) (now part : Nat)
    (n : String) :
    (m.sweep shards now part).entries.find? n =
      (m.entries.find? n).filter fun t => shards.of n ≠ part ∨ m.isLive now t := by
  exact Table.find?_filter hm _ n

theorem read_eq_some_false_iff {m : Markers} {now : Nat} {name : String} :
    m.read now name = some false ↔ ∃ t, m.entries.find? name = some t ∧ m.ttl ≤ now - t := by
  simp [read, isLive]

/-- **What a step does to the marker of a name** is one of four things. -/
theorem Place.fate {m : Markers} (hm : m.entries.Proper) (shards : Shards) (now : Nat)
    (name : String) (p : Place) :
    p.Fate m now name ((p.effect shards m now).entries.find? name) := by
  match p with
  | .called (.get n) => exact .kept rfl nofun (by simp [Place.sets])
  | .called .evict => exact .kept rfl nofun (by simp [Place.sets])
  | .returned a => exact .kept rfl nofun (by simp [Place.sets])
  | .evicting before [] => exact .kept rfl nofun (by simp [Place.sets])
  | .called (.set n) =>
    by_cases hn : name = n
    · subst hn
      exact .set (by simp [Place.effect, find?_set]) (.inl rfl)
    · exact .kept (by simp [Place.effect, find?_set, hn]) nofun (by simp [Place.sets, Ne.symm hn])
  | .called (.delete n) =>
    by_cases hn : name = n
    · subst hn
      exact .deleted (by simp [Place.effect, find?_delete]) rfl
    · exact .kept (by simp [Place.effect, find?_delete, hn]) (by simp [Ne.symm hn])
        (by simp [Place.sets])
  | .called (.claim n) =>
    by_cases hn : name = n ∧ m.read now n ≠ some true
    · obtain ⟨rfl, hr⟩ := hn
      exact .set (by simp [Place.effect, find?_claim, hr]) (.inr ⟨rfl, hr⟩)
    · refine .kept (by rw [Place.effect, find?_claim, if_neg hn]) nofun ?_
      rintro (hs | ⟨hs, hr⟩)
      · cases hs
      · cases hs
        exact hn ⟨rfl, hr⟩
  | .expired n =>
    by_cases hn : name = n ∧ m.read now n = some false
    · obtain ⟨rfl, hr⟩ := hn
      obtain ⟨t, ht, hx⟩ := read_eq_some_false_iff.mp hr
      exact .removed (by simp [Place.effect, find?_purge, hr]) nofun (by simp [Place.sets]) t ht hx
    · exact .kept (by rw [Place.effect, find?_purge, if_neg hn]) nofun (by simp [Place.sets])
  | .evicting before (part :: left) =>
    rw [Place.effect, find?_sweep hm]
    cases hf : m.entries.find? name with
    | none => exact .kept (by simp [hf]) nofun (by simp [Place.sets])
    | some t =>
      by_cases hl : shards.of name ≠ part ∨ m.isLive now t = true
      · exact .kept (by simp [hf, Option.filter, hl]) nofun (by simp [Place.sets])
      · have hx : m.ttl ≤ now - t := by simpa [isLive] using (not_or.mp hl).2
        exact .removed (by simp [Option.filter, hl]) nofun (by simp [Place.sets]) t hf hx

theorem Place.ttl_effect (shards : Shards) (m : Markers) (now : Nat) (p : Place) :
    (p.effect shards m now).ttl = m.ttl := by
  unfold effect purge delete claim Markers.set sweep
  split <;> first | rfl | (split <;> rfl)

theorem Place.proper_effect {m : Markers} (hm : m.entries.Proper) (shards : Shards) (now : Nat)
    (p : Place) : (p.effect shards m now).entries.Proper := by
  unfold effect purge delete claim Markers.set sweep
  split
  · exact hm.put _ _
  · exact hm.erase _
  · split
    · exact hm
    · exact hm.put _ _
  · split
    · exact hm.erase _
    · exact hm
  · exact hm.filter _
  · exact hm

/-- **A live marker outlives every step** but its deletion. -/
theorem Place.read_effect {m : Markers} (hm : m.entries.Proper) (shards : Shards) {now : Nat}
    {name : String} {p : Place} (hlive : m.read now name = some true)
    (hp : p ≠ .called (.delete name)) : (p.effect shards m now).read now name = some true := by
  obtain ⟨t, ht, hyoung⟩ := read_eq_some_true_iff.mp hlive
  rw [read_eq_some_true_iff, Place.ttl_effect]
  cases p.fate hm shards now name with
  | kept h => exact ⟨t, h.trans ht, hyoung⟩
  | deleted _ hd => exact absurd hd hp
  | set h => exact ⟨now, h, by omega⟩
  | removed _ _ _ t' ht' hx =>
    have : t = t' := Option.some.inj (ht.symm.trans ht')
    omega

/-! ### Many calls at once -/

/-- A step that was taken: when, and where its call stood before and after it. -/
structure Done where
  time : Nat
  before : Place
  after : Place
  deriving DecidableEq, Repr

def Done.deletes (name : String) (d : Done) : Bool := d.before = .called (.delete name)

def Done.wins (name : String) (d : Done) : Bool :=
  d.before = .called (.claim name) ∧ d.after = .returned (.flag true)

def Done.inserts (name : String) (d : Done) : Bool :=
  d.before = .called (.set name) ∨ d.wins name

/-- When the marker of a name was set last. -/
def lastInsertion (name : String) (log : List Done) : Option Nat :=
  (log.filter (·.inserts name)).getLast?.map (·.time)

/-- A cache in use: the time of its last step, its markers, where each call stands, and the steps that
were taken. -/
structure Scene where
  now : Nat
  markers : Markers
  calls : List Place
  log : List Done
  deriving DecidableEq, Repr

/-- A cache in use after the next step of its call number `i`, which stood at `p`. -/
def Scene.act (shards : Shards) (s : Scene) (now i : Nat) (p : Place) : Scene :=
  let after := p.next shards s.markers now
  { now
    markers := p.effect shards s.markers now
    calls := s.calls.set i after
    log := s.log ++ [⟨now, p, after⟩] }

/-- What can become of a cache with markers `m₀`: calls are made, and any call that is under way takes its
next step, at a time no earlier than that of the step before. -/
inductive Interleaving (shards : Shards) (m₀ : Markers) : Scene → Prop
  | start (now : Nat) : Interleaving shards m₀ ⟨now, m₀, [], []⟩
  | calls {s : Scene} (h : Interleaving shards m₀ s) (c : Call) :
      Interleaving shards m₀ { s with calls := s.calls ++ [.called c] }
  | acts {s : Scene} (h : Interleaving shards m₀ s) {now i : Nat} {p : Place} (ht : s.now ≤ now)
      (hp : s.calls[i]? = some p) (hu : p.isUnderWay = true) :
      Interleaving shards m₀ (s.act shards now i p)

/-! ### The last marker that was set -/

/-- When the marker of a name was set last, if it has not been deleted since. -/
def held (name : String) (log : List Done) : Option Nat :=
  log.foldl (fun t d => if d.deletes name then none else if d.inserts name then some d.time else t) none

theorem held_concat (name : String) (log : List Done) (d : Done) :
    held name (log ++ [d]) =
      if d.deletes name then none else if d.inserts name then some d.time else held name log := by
  simp [held]

theorem lastInsertion_concat (name : String) (log : List Done) (d : Done) :
    lastInsertion name (log ++ [d]) =
      if d.inserts name then some d.time else lastInsertion name log := by
  unfold lastInsertion
  by_cases h : d.inserts name = true <;> simp [h]

theorem Done.inserts_eq_true {name : String} {d : Done} :
    d.inserts name = true ↔ d.before = .called (.set name) ∨ d.wins name = true := by
  simp [inserts]

theorem Done.wins_eq_true {name : String} {d : Done} :
    d.wins name = true ↔ d.before = .called (.claim name) ∧ d.after = .returned (.flag true) := by
  simp [wins]

theorem Done.not_deletes_of_inserts {name : String} {d : Done} (h : d.inserts name = true) :
    ¬ d.deletes name = true := by
  simp only [deletes, decide_eq_true_eq]
  intro hd
  rcases Done.inserts_eq_true.mp h with hs | hw
  · cases hs.symm.trans hd
  · cases (Done.wins_eq_true.mp hw).1.symm.trans hd

theorem wins_step {shards : Shards} {m : Markers} {now : Nat} {name : String} {p : Place} :
    Done.wins name ⟨now, p, p.next shards m now⟩ = true ↔
      p = .called (.claim name) ∧ m.read now name ≠ some true := by
  rw [Done.wins_eq_true]
  refine and_congr_right fun hp => ?_
  dsimp only at hp
  subst hp
  by_cases hr : m.read now name = some true <;> simp [Place.next, claim, hr]

theorem inserts_step {shards : Shards} {m : Markers} {now : Nat} {name : String} {p : Place} :
    Done.inserts name ⟨now, p, p.next shards m now⟩ = true ↔ p.sets m now name := by
  rw [Done.inserts_eq_true, wins_step]
  rfl

/-- After a marker was set and as long as it is not deleted, one is held: the one that was set last. -/
theorem held_eq_lastInsertion {name : String} {a b : List Done} {x : Done}
    (hx : x.inserts name = true) (hb : ∀ d ∈ b, ¬ d.deletes name = true) :
    held name (a ++ x :: b) = lastInsertion name (a ++ x :: b) := by
  induction b using List.reverseRecOn with
  | nil =>
    rw [held_concat, lastInsertion_concat, if_neg (Done.not_deletes_of_inserts hx), if_pos hx,
      if_pos hx]
  | append_singleton b d ih =>
    have ih := ih fun e he => hb e (List.mem_append_left _ he)
    have hd := hb d (List.mem_append_right _ (List.mem_singleton_self d))
    rw [← List.cons_append, ← List.append_assoc, held_concat, lastInsertion_concat, if_neg hd, ih]

theorem le_lastInsertion {name : String} {a b : List Done} {x : Done}
    (hx : x.inserts name = true) (hb : ∀ d ∈ b, x.time ≤ d.time) :
    ∃ t, lastInsertion name (a ++ x :: b) = some t ∧ x.time ≤ t := by
  induction b using List.reverseRecOn with
  | nil => exact ⟨x.time, by rw [lastInsertion_concat, if_pos hx], Nat.le_refl _⟩
  | append_singleton b d ih =>
    rw [← List.cons_append, ← List.append_assoc, lastInsertion_concat]
    by_cases hd : d.inserts name = true
    · exact ⟨d.time, if_pos hd, hb d (List.mem_append_right _ (List.mem_singleton_self d))⟩
    · rw [if_neg hd]
      exact ih fun e he => hb e (List.mem_append_left _ he)

/-! ### What holds of every interleaving -/

section Interleavings

variable {shards : Shards} {m₀ : Markers} {s : Scene}

theorem Interleaving.ttl (h : Interleaving shards m₀ s) : s.markers.ttl = m₀.ttl := by
  induction h with
  | start => rfl
  | calls _ _ ih => exact ih
  | acts _ _ _ _ ih => exact (Place.ttl_effect ..).trans ih

theorem Interleaving.proper (h : Interleaving shards m₀ s) (h₀ : m₀.entries.Proper) :
    s.markers.entries.Proper := by
  induction h with
  | start => exact h₀
  | calls _ _ ih => exact ih
  | acts _ _ _ _ ih => exact Place.proper_effect ih _ _ _

/-- The steps follow one another in time. -/
theorem Interleaving.timely (h : Interleaving shards m₀ s) :
    s.log.Pairwise (·.time ≤ ·.time) ∧ ∀ d ∈ s.log, d.time ≤ s.now := by
  induction h with
  | start => exact ⟨.nil, nofun⟩
  | calls _ _ ih => exact ih
  | acts _ ht _ _ ih =>
    obtain ⟨hsorted, hpast⟩ := ih
    refine ⟨List.pairwise_append.mpr ⟨hsorted, List.pairwise_singleton _ _, ?_⟩, ?_⟩
    · intro d hd e he
      rw [List.mem_singleton.mp he]
      exact Nat.le_trans (hpast d hd) ht
    · intro d hd
      rcases List.mem_append.mp hd with hd | hd
      · exact Nat.le_trans (hpast d hd) ht
      · rw [List.mem_singleton.mp hd]
        exact Nat.le_refl _

/-- **The marker that was set last stands** until it is deleted: it is there, or it has expired. -/
theorem Interleaving.stands (h : Interleaving shards m₀ s) (h₀ : m₀.entries.Proper) {name : String}
    {t : Nat} (hheld : held name s.log = some t) :
    s.markers.entries.find? name = some t ∨
      s.markers.entries.find? name = none ∧ m₀.ttl ≤ s.now - t := by
  induction h generalizing t with
  | start => cases hheld
  | calls _ _ ih => exact ih hheld
  | @acts s h now i p ht _ _ ih =>
    simp only [Scene.act, held_concat] at hheld ⊢
    have hrest {u : Nat} (hu : m₀.ttl ≤ s.now - u) : m₀.ttl ≤ now - u := by omega
    have hdel : Done.deletes name ⟨now, p, p.next shards s.markers now⟩ = true ↔
        p = .called (.delete name) := by simp [Done.deletes]
    rw [← Interleaving.ttl h] at hrest ih ⊢
    cases p.fate (h.proper h₀) shards now name with
    | kept hk hd hs =>
      rw [if_neg (hdel.not.mpr hd), if_neg (inserts_step.not.mpr hs)] at hheld
      rw [hk]
      exact (ih hheld).imp_right fun ⟨hn, hx⟩ => ⟨hn, hrest hx⟩
    | deleted _ hd =>
      rw [if_pos (hdel.mpr hd)] at hheld
      cases hheld
    | set hk hs =>
      have hi : Done.inserts name ⟨now, p, p.next shards s.markers now⟩ = true := inserts_step.mpr hs
      rw [if_neg (Done.not_deletes_of_inserts hi), if_pos hi] at hheld
      exact .inl (hk.trans hheld)
    | removed hk hd hs u hu hx =>
      rw [if_neg (hdel.not.mpr hd), if_neg (inserts_step.not.mpr hs)] at hheld
      refine .inr ⟨hk, ?_⟩
      rcases ih hheld with hf | ⟨-, hx⟩
      · rwa [Option.some.inj (hf.symm.trans hu)]
      · exact hrest hx

/-- A claim that is won finds that the marker that was set last has expired, unless it was deleted. -/
theorem Interleaving.expired_of_wins (h : Interleaving shards m₀ s) (h₀ : m₀.entries.Proper)
    {name : String} {l r : List Done} {d : Done} (hlog : s.log = l ++ d :: r)
    (hd : d.wins name = true) {t : Nat} (hheld : held name l = some t) : m₀.ttl ≤ d.time - t := by
  induction h generalizing r with
  | start => simp at hlog
  | calls _ _ ih => exact ih hlog
  | @acts s h now i p ht _ _ ih =>
    rcases List.eq_nil_or_concat r with rfl | ⟨r, e, rfl⟩
    · obtain ⟨rfl, hlast⟩ := List.append_inj' hlog rfl
      obtain ⟨hlast, -⟩ := List.cons.inj hlast
      subst hlast
      obtain ⟨-, hr⟩ := wins_step.mp hd
      dsimp only
      rcases h.stands h₀ hheld with hf | ⟨-, hx⟩
      · rw [← Interleaving.ttl h]
        by_contra hyoung
        exact hr (read_eq_some_true_iff.mpr ⟨t, hf, by omega⟩)
      · omega
    · rw [List.concat_eq_append, ← List.cons_append, ← List.append_assoc] at hlog
      exact ih (List.append_inj' hlog rfl).1

/-- **Two claims are won** only if the marker was deleted between them or the one that was set last
before the second had expired. -/
theorem Interleaving.claims_apart (h : Interleaving shards m₀ s) (h₀ : m₀.entries.Proper)
    {name : String} {a b c : List Done} {x y : Done} (hlog : s.log = a ++ x :: b ++ y :: c)
    (hx : x.wins name = true) (hy : y.wins name = true) :
    (∃ d ∈ b, d.deletes name = true) ∨
      ∃ t, lastInsertion name (a ++ x :: b) = some t ∧ x.time ≤ t ∧ m₀.ttl ≤ y.time - t := by
  by_cases hdel : ∃ d ∈ b, d.deletes name = true
  · exact .inl hdel
  · have hinsert : x.inserts name = true := Done.inserts_eq_true.mpr (.inr hx)
    have hsorted : (x :: b).Pairwise (·.time ≤ ·.time) := by
      have := hlog ▸ h.timely.1
      exact (List.pairwise_append.mp (List.pairwise_append.mp this).1).2.1
    obtain ⟨t, ht, hxt⟩ := le_lastInsertion (a := a) hinsert
      fun _ hd => List.rel_of_pairwise_cons hsorted hd
    refine .inr ⟨t, ht, hxt, h.expired_of_wins h₀ hlog hy ?_⟩
    rw [held_eq_lastInsertion hinsert fun d hd hdd => hdel ⟨d, hd, hdd⟩, ht]

end Interleavings

/-- A test that no two of a list pass is passed by one at most. -/
theorem countP_le_one {α : Type} {p : α → Bool} {l : List α}
    (h : ∀ a x b y c, l = a ++ x :: b ++ y :: c → p x = true → ¬ p y = true) : l.countP p ≤ 1 := by
  induction l with
  | nil => simp
  | cons d rest ih =>
    by_cases hd : p d = true
    · have hrest : rest.countP p = 0 := by
        rw [List.countP_eq_zero]
        intro y hy
        obtain ⟨b, c, rfl⟩ := List.append_of_mem hy
        exact h [] d b y c rfl hd
      have hone : (d :: rest).countP p = 1 := by rw [List.countP_cons_of_pos hd, hrest]
      exact Nat.le_of_eq hone
    · rw [List.countP_cons_of_neg hd]
      exact ih fun a x b y c hl => h (d :: a) x b y c (congrArg (d :: ·) hl)

/-- **A claim has one winner.** However the steps of the calls on a cache follow one another: a marker that
is live stays live in every step but its deletion; if two claims on a name are won, the marker was
deleted between them or the one that was set last before the second had expired by then; and so of claims
that are less than a time to live apart, with no deletion between them, one wins at most. -/
theorem Interleaving.one_winner {shards : Shards} {m₀ : Markers} {s : Scene}
    (h₀ : m₀.entries.Proper) (h : Interleaving shards m₀ s) (name : String) :
    (∀ now i p, s.now ≤ now → s.calls[i]? = some p → p.isUnderWay = true →
      s.markers.read now name = some true → p ≠ .called (.delete name) →
      (s.act shards now i p).markers.read now name = some true) ∧
    (∀ a x b y c, s.log = a ++ x :: b ++ y :: c → x.wins name = true → y.wins name = true →
      (∃ d ∈ b, d.deletes name = true) ∨
        ∃ t, lastInsertion name (a ++ x :: b) = some t ∧ m₀.ttl ≤ y.time - t) ∧
    (∀ a b c, s.log = a ++ b ++ c → (∀ d ∈ b, ¬ d.deletes name = true) →
      (∀ x ∈ b, ∀ y ∈ b, x.wins name = true → y.wins name = true → y.time - x.time < m₀.ttl) →
      b.countP (·.wins name) ≤ 1) := by
  refine ⟨?_, ?_, ?_⟩
  · intro now i p _ _ _ hlive hp
    exact Place.read_effect (h.proper h₀) shards hlive hp
  · intro a x b y c hlog hx hy
    refine (h.claims_apart h₀ hlog hx hy).imp_right ?_
    rintro ⟨t, ht, -, hexp⟩
    exact ⟨t, ht, hexp⟩
  · intro a b c hlog hdel hnear
    apply countP_le_one
    rintro b₁ x b₂ y b₃ rfl hx hy
    have hlog' : s.log = (a ++ b₁) ++ x :: b₂ ++ y :: (b₃ ++ c) := by
      rw [hlog]
      simp
    have hclose : y.time - x.time < m₀.ttl := hnear x (by simp) y (by simp) hx hy
    rcases h.claims_apart h₀ hlog' hx hy with ⟨d, hd, hdd⟩ | ⟨t, -, hxt, hexp⟩
    · exact hdel d (by simp [hd]) hdd
    · omega

/-- A cache whose markers live for ten milliseconds, and which is one part. A claim is won, a get reads
its marker when that has expired, and before the get goes on another claim is won. -/
def sampleShards : Shards := ⟨1, fun _ => 0, fun _ => Nat.one_pos⟩

def sampleScene : Scene :=
  let called := [.called (.claim "a"), .called (.get "a"), .called (.claim "a")]
  let first := Scene.act sampleShards ⟨0, .empty 10, called, []⟩ 0 0 (.called (.claim "a"))
  let second := first.act sampleShards 10 1 (.called (.get "a"))
  second.act sampleShards 10 2 (.called (.claim "a"))

theorem sampleScene_interleaving : Interleaving sampleShards (.empty 10) sampleScene := by
  have called : Interleaving sampleShards (.empty 10)
      ⟨0, .empty 10, [.called (.claim "a"), .called (.get "a"), .called (.claim "a")], []⟩ :=
    (((Interleaving.start 0).calls (.claim "a")).calls (.get "a")).calls (.claim "a")
  have first := called.acts (Nat.le_refl 0) (i := 0) rfl rfl
  have second := first.acts (Nat.zero_le 10) (i := 1) rfl rfl
  exact second.acts (Nat.le_refl 10) rfl rfl

/-- The get then leaves the new marker alone, and of the claims at the end one has won. -/
theorem sample_one_winner :
    (sampleScene.act sampleShards 11 1 (.expired "a")).markers.read 11 "a" = some true ∧
      (sampleScene.log.drop 1).countP (·.wins "a") ≤ 1 := by
  have hempty : (Markers.empty 10).entries.Proper := List.nodup_nil
  obtain ⟨hlive, -, hone⟩ := Interleaving.one_winner hempty sampleScene_interleaving "a"
  constructor
  · exact hlive 11 1 (.expired "a") (by decide) (by decide) (by decide) (by decide) (by decide)
  · exact hone (sampleScene.log.take 1) (sampleScene.log.drop 1) [] (by decide) (by decide) (by decide)

end Markers
end RunDispatch
