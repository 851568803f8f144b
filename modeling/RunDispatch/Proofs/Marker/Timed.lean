/-
# The cache against a plain map

Calls that are made one after another, each by itself. The cache drops expired markers where it comes
across them: at a get, at a claim that takes the place of one, at an eviction. The plain map drops
nothing and has no such calls; it holds for each name the time its marker was set at, until the marker
is deleted.

What the cache holds under a name is what the plain map holds, or nothing where that has expired
(`Mirrors`). Time does not go back, so what has expired stays expired, and every call keeps this
(`Mirrors.turn`). A get and a claim ask only whether a marker is live, and there the two agree. Gets and
evictions leave the plain map alone, so nobody can tell whether there were any.

Key definitions: `Turn`, `after`, `log`, `SetLast`, `Ages`, `plain`, `Mirrors`, `Timely`, `LikePlain`.
Key theorems: `setLast_iff`, `Mirrors.turn`, `mirrors`, `held_log`, `like_plain`.
-/
import Mathlib.Data.List.Perm.Subperm
import Mathlib.Logic.Function.Basic
import RunDispatch.Proofs.Marker.Interleaving

namespace RunDispatch

/-- In a proper table a pair is what is found under its name. -/
theorem Table.Proper.find?_of_mem {α : Type} {t : Table α} (h : t.Proper) {name : String} {v : α}
    (hv : (name, v) ∈ t) : t.find? name = some v := by
  induction t with
  | nil => cases hv
  | cons e rest ih =>
    obtain ⟨n, u⟩ := e
    obtain ⟨hn, hr⟩ := List.nodup_cons.mp h
    rcases List.mem_cons.mp hv with same | later
    · cases same
      simp [Table.find?]
    · have hne : name ≠ n := by
        rintro rfl
        exact hn (List.mem_map.mpr ⟨_, later, rfl⟩)
      have hb : (name == n) = false := beq_eq_false_iff_ne.mpr hne
      have ih := ih hr later
      simpa [Table.find?, List.lookup_cons, hb] using ih

/-- Where a list with one more element is cut: at that element, or before it. -/
theorem concat_eq_append_cons_iff {α : Type} {l a b : List α} {x y : α} :
    l ++ [y] = a ++ x :: b ↔ a = l ∧ x = y ∧ b = [] ∨ ∃ c, b = c ++ [y] ∧ l = a ++ x :: c := by
  constructor
  · intro h
    rcases List.eq_nil_or_concat b with rfl | ⟨c, z, rfl⟩
    · obtain ⟨rfl, hlast⟩ := List.append_inj' h rfl
      obtain ⟨rfl, -⟩ := List.cons.inj hlast
      exact .inl ⟨rfl, rfl, rfl⟩
    · rw [List.concat_eq_append, ← List.cons_append, ← List.append_assoc] at h
      obtain ⟨rfl, hlast⟩ := List.append_inj' h rfl
      obtain ⟨rfl, -⟩ := List.cons.inj hlast
      exact .inr ⟨c, List.concat_eq_append, rfl⟩
  · rintro (⟨rfl, rfl, rfl⟩ | ⟨c, rfl, rfl⟩)
    · rfl
    · simp

namespace Markers

/-! ### Calls one after another -/

/-- A call that is made at a time while no other is under way. -/
structure Turn where
  time : Nat
  call : Call
  deriving DecidableEq, Repr

/-- The markers after a call. -/
def Turn.effect (m : Markers) (x : Turn) : Markers :=
  match x.call with
  | .get name => (m.get x.time name).2
  | .set name => m.set x.time name
  | .delete name => (m.delete name).2
  | .claim name => (m.claim x.time name).2
  | .evict => (m.evict x.time).2

/-- What a call comes to. -/
def Turn.answer (m : Markers) (x : Turn) : Answer :=
  match x.call with
  | .get name => .flag (m.get x.time name).1
  | .set _ => .nothing
  | .delete name => .flag (m.delete name).1
  | .claim name => .flag (m.claim x.time name).1
  | .evict => .counted (m.evict x.time).1

def Turn.done (m : Markers) (x : Turn) : Done :=
  ⟨x.time, .called x.call, .returned (x.answer m)⟩

/-- Whether a call is a get or an eviction. -/
def Turn.looks (x : Turn) : Bool :=
  match x.call with
  | .get _ | .evict => true
  | _ => false

def after (ttl : Nat) (turns : List Turn) : Markers :=
  turns.foldl Turn.effect (.empty ttl)

def logFrom (m : Markers) : List Turn → List Done
  | [] => []
  | x :: rest => x.done m :: logFrom (x.effect m) rest

def log (ttl : Nat) (turns : List Turn) : List Done :=
  logFrom (.empty ttl) turns

theorem after_concat (ttl : Nat) (turns : List Turn) (x : Turn) :
    after ttl (turns ++ [x]) = x.effect (after ttl turns) := by
  simp [after]

theorem log_concat (ttl : Nat) (turns : List Turn) (x : Turn) :
    log ttl (turns ++ [x]) = log ttl turns ++ [x.done (after ttl turns)] := by
  have from_any : ∀ (turns : List Turn) (m : Markers), logFrom m (turns ++ [x]) =
      logFrom m turns ++ [x.done (turns.foldl Turn.effect m)] := by
    intro turns
    induction turns with
    | nil => intro m; rfl
    | cons y rest ih => intro m; simp [logFrom, ih]
  exact from_any turns _

/-- Calls that follow one another in time, none of them later than `now`. -/
def Timely (turns : List Turn) (now : Nat) : Prop :=
  turns.Pairwise (·.time ≤ ·.time) ∧ ∀ x ∈ turns, x.time ≤ now

theorem timely_concat {turns : List Turn} {x : Turn} {now : Nat} :
    Timely (turns ++ [x]) now ↔ Timely turns x.time ∧ x.time ≤ now := by
  constructor
  · rintro ⟨sorted, past⟩
    obtain ⟨sorted, -, up⟩ := List.pairwise_append.mp sorted
    exact ⟨⟨sorted, fun y hy => up y hy x (List.mem_singleton_self x)⟩, past x (by simp)⟩
  · rintro ⟨⟨sorted, up⟩, hx⟩
    refine ⟨List.pairwise_append.mpr ⟨sorted, List.pairwise_singleton _ _, ?_⟩, fun y hy => ?_⟩
    · intro y hy z hz
      rw [List.mem_singleton.mp hz]
      exact up y hy
    · rcases List.mem_append.mp hy with hy | hy
      · exact Nat.le_trans (up y hy) hx
      · rw [List.mem_singleton.mp hy]
        exact hx

/-! ### The last insertion -/

/-- The marker of a name was set last at `t`, and has not been deleted since. -/
def SetLast (name : String) (log : List Done) (t : Nat) : Prop :=
  ∃ a d b, log = a ++ d :: b ∧ d.inserts name = true ∧ d.time = t ∧
    ∀ e ∈ b, e.inserts name = false ∧ e.deletes name = false

theorem setLast_concat {name : String} {log : List Done} {d : Done} {t : Nat} :
    SetLast name (log ++ [d]) t ↔
      d.inserts name = true ∧ d.time = t ∨
        d.inserts name = false ∧ d.deletes name = false ∧ SetLast name log t := by
  constructor
  · rintro ⟨a, e, b, hlog, he, ht, hb⟩
    rcases concat_eq_append_cons_iff.mp hlog with ⟨rfl, rfl, rfl⟩ | ⟨b, rfl, rfl⟩
    · exact .inl ⟨he, ht⟩
    · have hd := hb d (by simp)
      exact .inr ⟨hd.1, hd.2, a, e, b, rfl, he, ht, fun f hf => hb f (by simp [hf])⟩
  · rintro (⟨hd, ht⟩ | ⟨hi, hdel, a, e, b, rfl, he, ht, hb⟩)
    · exact ⟨log, d, [], rfl, hd, ht, nofun⟩
    · refine ⟨a, e, b ++ [d], by simp, he, ht, fun f hf => ?_⟩
      rcases List.mem_append.mp hf with hf | hf
      · exact hb f hf
      · rw [List.mem_singleton.mp hf]
        exact ⟨hi, hdel⟩

theorem setLast_iff {name : String} {log : List Done} {t : Nat} :
    SetLast name log t ↔ held name log = some t := by
  induction log using List.reverseRecOn with
  | nil => simp [SetLast, held]
  | append_singleton log d ih =>
    rw [setLast_concat, held_concat, ih]
    by_cases hi : d.inserts name = true
    · simp [hi, Done.not_deletes_of_inserts hi]
    · by_cases hd : d.deletes name = true <;> simp [hi, hd]

/-! ### The plain map -/

/-- When the marker of each name was set. -/
abbrev Ages := String → Option Nat

/-- Whether a name has a marker that is younger than `ttl`. -/
def Ages.live (ttl now : Nat) (p : Ages) (name : String) : Bool :=
  (p name).any fun t => now - t < ttl

/-- The plain map after a call, of which it takes notice of insertions and deletions only. -/
def Turn.enter (ttl : Nat) (p : Ages) (x : Turn) : Ages :=
  match x.call with
  | .set name => Function.update p name (some x.time)
  | .claim name => if p.live ttl x.time name then p else Function.update p name (some x.time)
  | .delete name => Function.update p name none
  | .get _ | .evict => p

def plain (ttl : Nat) (turns : List Turn) : Ages :=
  turns.foldl (Turn.enter ttl) fun _ => none

theorem plain_concat (ttl : Nat) (turns : List Turn) (x : Turn) :
    plain ttl (turns ++ [x]) = x.enter ttl (plain ttl turns) := by
  simp [plain]

theorem Turn.enter_of_looks {ttl : Nat} {p : Ages} {x : Turn} (h : x.looks = true) :
    x.enter ttl p = p := by
  obtain ⟨now, call⟩ := x
  cases call <;> first | rfl | cases h

/-- Gets and evictions leave no trace in the plain map. -/
theorem plain_filter (ttl : Nat) (turns : List Turn) :
    plain ttl (turns.filter (!·.looks)) = plain ttl turns := by
  induction turns using List.reverseRecOn with
  | nil => rfl
  | append_singleton turns x ih =>
    rw [List.filter_append, plain_concat]
    cases h : x.looks with
    | true => simp [h, ih, Turn.enter_of_looks]
    | false => simp [h, plain_concat, ih]

/-! ### What the cache holds -/

/-- The cache mirrors the plain map: under a name it holds what that holds, or nothing where that has
expired. -/
structure Mirrors (ttl : Nat) (p : Ages) (now : Nat) (m : Markers) : Prop where
  ttl_eq : m.ttl = ttl
  proper : m.entries.Proper
  entry : ∀ name, m.entries.find? name = p name ∨
    m.entries.find? name = none ∧ ∃ t, p name = some t ∧ ttl ≤ now - t

section Mirroring

variable {ttl now : Nat} {p : Ages} {m : Markers}

theorem Mirrors.empty : Mirrors ttl (fun _ => none) now (.empty ttl) :=
  ⟨rfl, List.nodup_nil, fun _ => .inl rfl⟩

theorem Mirrors.later {later : Nat} (h : Mirrors ttl p now m) (hl : now ≤ later) :
    Mirrors ttl p later m := by
  refine ⟨h.ttl_eq, h.proper, fun name => ?_⟩
  rcases h.entry name with he | ⟨hn, t, ht, hx⟩
  · exact .inl he
  · exact .inr ⟨hn, t, ht, by omega⟩

theorem Mirrors.read_iff (h : Mirrors ttl p now m) (name : String) :
    m.read now name = some true ↔ p.live ttl now name = true := by
  rw [read_eq_some_true_iff, h.ttl_eq]
  rcases h.entry name with he | ⟨hn, t, ht, hx⟩
  · simp [Ages.live, he, Option.any_eq_true]
  · simp [Ages.live, hn, ht, hx]

theorem get_eq (m : Markers) (now : Nat) (name : String) :
    m.get now name = (decide (m.read now name = some true), m.purge now name) := by
  unfold get
  cases h : m.read now name with
  | none => simp [purge, h]
  | some live => cases live <;> simp [purge, h]

/-- A purge takes away what has expired. -/
theorem Mirrors.purge (h : Mirrors ttl p now m) (name : String) :
    Mirrors ttl p now (m.purge now name) := by
  refine ⟨?_, ?_, fun n => ?_⟩
  · unfold Markers.purge
    split <;> exact h.ttl_eq
  · unfold Markers.purge
    split
    · exact h.proper.erase name
    · exact h.proper
  · rw [find?_purge]
    by_cases hn : n = name ∧ m.read now name = some false
    · obtain ⟨rfl, hr⟩ := hn
      obtain ⟨t, ht, hx⟩ := read_eq_some_false_iff.mp hr
      rw [h.ttl_eq] at hx
      refine .inr ⟨by simp [hr], t, ?_, hx⟩
      rcases h.entry n with he | ⟨hn, -⟩
      · rw [← he, ht]
      · simp [hn] at ht
    · rw [if_neg hn]
      exact h.entry n

theorem Mirrors.evict (h : Mirrors ttl p now m) : Mirrors ttl p now (m.evict now).2 := by
  refine ⟨h.ttl_eq, h.proper.keep _, fun n => ?_⟩
  rw [find?_evict h.proper]
  rcases h.entry n with he | ⟨hn, hx⟩
  · cases ht : p n with
    | none => simp [he, ht]
    | some t =>
      by_cases hl : m.isLive now t = true
      · exact .inl (by simp [he, ht, hl])
      · have hx : ttl ≤ now - t := by simpa [isLive, h.ttl_eq] using hl
        exact .inr ⟨by simp [he, ht, hl], t, rfl, hx⟩
  · exact .inr ⟨by simp [hn], hx⟩

theorem Mirrors.set (h : Mirrors ttl p now m) (name : String) :
    Mirrors ttl (Function.update p name (some now)) now (m.set now name) := by
  refine ⟨h.ttl_eq, h.proper.put name now, fun n => ?_⟩
  rw [find?_set, Function.update_apply]
  split
  · exact .inl rfl
  · exact h.entry n

theorem Mirrors.delete (h : Mirrors ttl p now m) (name : String) :
    Mirrors ttl (Function.update p name none) now (m.delete name).2 := by
  refine ⟨h.ttl_eq, h.proper.erase name, fun n => ?_⟩
  rw [find?_delete, Function.update_apply]
  split
  · exact .inl rfl
  · exact h.entry n

/-- Every call keeps the cache a mirror of the plain map. -/
theorem Mirrors.turn {x : Turn} (h : Mirrors ttl p x.time m) :
    Mirrors ttl (x.enter ttl p) x.time (x.effect m) := by
  obtain ⟨now, call⟩ := x
  cases call with
  | get name =>
    have hget : Turn.effect m ⟨now, .get name⟩ = m.purge now name := by simp [Turn.effect, get_eq]
    rw [hget]
    exact h.purge name
  | set name => exact h.set name
  | delete name => exact h.delete name
  | evict => exact h.evict
  | claim name =>
    have hread := h.read_iff name
    simp only [Turn.enter, Turn.effect, claim]
    by_cases hl : p.live ttl now name = true
    · rw [if_pos hl, if_pos (hread.mpr hl)]
      exact h
    · rw [if_neg hl, if_neg (hread.not.mpr hl)]
      exact h.set name

end Mirroring

/-! ### A sequence of calls -/

section Sequences

variable {ttl now : Nat} {turns : List Turn}

/-- After any calls the cache mirrors the plain map. -/
theorem mirrors (ttl : Nat) (h : Timely turns now) :
    Mirrors ttl (plain ttl turns) now (after ttl turns) := by
  induction turns using List.reverseRecOn generalizing now with
  | nil => exact Mirrors.empty
  | append_singleton turns x ih =>
    obtain ⟨up, hx⟩ := timely_concat.mp h
    rw [plain_concat, after_concat]
    exact (ih up).turn.later hx

theorem Turn.inserts_done {m : Markers} {x : Turn} {name : String} :
    (x.done m).inserts name = true ↔
      x.call = .set name ∨ x.call = .claim name ∧ m.read x.time name ≠ some true := by
  rw [Done.inserts_eq_true, Done.wins_eq_true]
  obtain ⟨now, call⟩ := x
  refine or_congr (by simp [Turn.done]) ?_
  by_cases hc : call = .claim name
  · subst hc
    simp [Turn.done, Turn.answer, ← claim_eq_false_iff]
  · simp [Turn.done, hc]

theorem Turn.deletes_done {m : Markers} {x : Turn} {name : String} :
    (x.done m).deletes name = true ↔ x.call = .delete name := by
  simp [Done.deletes, Turn.done]

/-- The plain map holds what is held by the log of the cache. -/
theorem held_log (h : Timely turns now) (name : String) :
    held name (log ttl turns) = plain ttl turns name := by
  induction turns using List.reverseRecOn generalizing now with
  | nil => rfl
  | append_singleton turns x ih =>
    obtain ⟨up, -⟩ := timely_concat.mp h
    have hread := (mirrors ttl up).read_iff
    rw [log_concat, held_concat, plain_concat, ih up]
    obtain ⟨t, call⟩ := x
    simp only [Turn.deletes_done, Turn.inserts_done, ne_eq, hread]
    cases call with
    | get n => simp [Turn.enter]
    | evict => simp [Turn.enter]
    | set n => simp [Turn.enter, Turn.done, Function.update_apply, @eq_comm _ name n]
    | delete n => simp [Turn.enter, Function.update_apply, @eq_comm _ name n]
    | claim n =>
      by_cases hn : n = name
      · subst hn
        by_cases hl : (plain ttl turns).live ttl t n = true <;> simp [Turn.enter, Turn.done, hl]
      · by_cases hl : (plain ttl turns).live ttl t n = true <;>
          simp [Turn.enter, hl, hn, Ne.symm hn]

theorem live_iff (h : Timely turns now) (name : String) :
    (plain ttl turns).live ttl now name = true ↔
      ∃ t, SetLast name (log ttl turns) t ∧ now - t < ttl := by
  simp only [setLast_iff, held_log h, Ages.live]
  cases plain ttl turns name <;> simp

theorem get_after (h : Timely turns now) (name : String) :
    ((after ttl turns).get now name).1 = (plain ttl turns).live ttl now name := by
  rw [get_eq, Bool.eq_iff_iff, decide_eq_true_iff]
  exact (mirrors ttl h).read_iff name

theorem claim_after (ttl : Nat) (h : Timely turns now) (name : String) :
    ((after ttl turns).claim now name).1 = !(plain ttl turns).live ttl now name := by
  have hread := (mirrors ttl h).read_iff name
  cases hl : (plain ttl turns).live ttl now name with
  | true => exact (claim_eq_false_iff ..).mpr (hread.mpr hl)
  | false =>
    rw [Bool.not_false, ← Bool.not_eq_false, claim_eq_false_iff, hread, hl]
    decide

/-- What is left by an eviction was set within the time to live. -/
theorem setLast_of_mem_evict (h : Timely turns now) {name : String} {t : Nat}
    (ht : (name, t) ∈ ((after ttl turns).evict now).2.entries) :
    SetLast name (log ttl turns) t ∧ now - t < ttl := by
  have hm := mirrors ttl h
  obtain ⟨hmem, young⟩ := List.mem_filter.mp ht
  have young : now - t < ttl := by simpa [isLive, hm.ttl_eq] using young
  have hfind := hm.proper.find?_of_mem hmem
  refine ⟨?_, young⟩
  rw [setLast_iff, held_log h]
  rcases hm.entry name with he | ⟨hn, -⟩
  · rw [← he, hfind]
  · simp [hn] at hfind

/-! ### The cache is like a plain map -/

/-- What a caller finds at `now`, after some calls on a cache that started empty. -/
structure LikePlain (ttl : Nat) (turns : List Turn) (now : Nat) : Prop where
  /-- A get tells whether the marker that was set last, and not deleted since, is young. -/
  get_iff : ∀ name, ((after ttl turns).get now name).1 = true ↔
    ∃ t, SetLast name (log ttl turns) t ∧ now - t < ttl
  /-- So does the refusal of a claim. -/
  refused_iff : ∀ name, ((after ttl turns).claim now name).1 = false ↔
    ∃ t, SetLast name (log ttl turns) t ∧ now - t < ttl
  /-- The plain map tells the same. -/
  as_plain : ∀ name,
    ((after ttl turns).get now name).1 = (plain ttl turns).live ttl now name ∧
      ((after ttl turns).claim now name).1 = !(plain ttl turns).live ttl now name
  /-- Calls that differ in gets and evictions only are not told apart. -/
  unnoticed : ∀ others, Timely others now →
    others.filter (!·.looks) = turns.filter (!·.looks) → ∀ name,
      ((after ttl others).get now name).1 = ((after ttl turns).get now name).1 ∧
        ((after ttl others).claim now name).1 = ((after ttl turns).claim now name).1
  /-- A claim that is refused leaves the cache as it is, and no marker is younger for it. -/
  refused : ∀ name, ((after ttl turns).claim now name).1 = false →
    after ttl (turns ++ [⟨now, .claim name⟩]) = after ttl turns ∧
      ∀ n t, SetLast n (log ttl (turns ++ [⟨now, .claim name⟩])) t ↔ SetLast n (log ttl turns) t
  /-- An eviction tells how many markers have expired. -/
  evicted : ((after ttl turns).evict now).1 =
    (after ttl turns).entries.countP fun e => ttl ≤ now - e.2
  /-- It leaves the others. -/
  left : ∀ name t, (name, t) ∈ ((after ttl turns).evict now).2.entries ↔
    (name, t) ∈ (after ttl turns).entries ∧ now - t < ttl
  /-- Then the cache is no larger than any list of all the names that were set, or claimed with
  success, within the time to live. -/
  bounded : ∀ names : List String,
    (∀ d ∈ log ttl turns, now - d.time < ttl → ∀ name, d.inserts name = true → name ∈ names) →
      ((after ttl turns).evict now).2.size ≤ names.length

/-- **The lazy cache is a plain timed map** to everybody who asks it. -/
theorem like_plain (ttl : Nat) (h : Timely turns now) : LikePlain ttl turns now := by
  have hm := mirrors ttl h
  have hclaim := claim_after ttl h
  constructor
  case get_iff =>
    intro name
    rw [get_after h, live_iff h]
  case refused_iff =>
    intro name
    rw [hclaim, Bool.not_eq_false', live_iff h]
  case as_plain => exact fun name => ⟨get_after h name, hclaim name⟩
  case unnoticed =>
    intro others hothers hsame name
    have same : plain ttl others = plain ttl turns := by
      rw [← plain_filter, hsame, plain_filter]
    rw [get_after hothers, get_after h, claim_after ttl hothers, hclaim, same]
    exact ⟨rfl, rfl⟩
  case refused =>
    intro name hrefused
    have live := (claim_eq_false_iff ..).mp hrefused
    refine ⟨?_, fun n t => ?_⟩
    · simp [after_concat, Turn.effect, claim, live]
    · have idle : ¬ (Turn.done (after ttl turns) ⟨now, .claim name⟩).inserts n = true := by
        rw [Turn.inserts_done]
        rintro (hs | ⟨hc, hr⟩)
        · cases hs
        · cases hc
          exact hr live
      have kept : ¬ (Turn.done (after ttl turns) ⟨now, .claim name⟩).deletes n = true := by
        simp [Turn.deletes_done]
      rw [log_concat, setLast_concat]
      simp [idle, kept]
  case evicted =>
    have parts := List.length_eq_countP_add_countP (l := (after ttl turns).entries)
      (p := fun e => (after ttl turns).isLive now e.2)
    have expired : ((after ttl turns).entries.countP fun e =>
        decide (¬ (after ttl turns).isLive now e.2 = true)) =
        (after ttl turns).entries.countP fun e => ttl ≤ now - e.2 := by
      simp [isLive, hm.ttl_eq]
    have left : ((after ttl turns).entries.keep ((after ttl turns).isLive now)).length =
        (after ttl turns).entries.countP fun e => (after ttl turns).isLive now e.2 :=
      List.countP_eq_length_filter.symm
    rw [← expired]
    simp only [evict, left]
    omega
  case left =>
    intro name t
    simp [evict, Table.keep, isLive, hm.ttl_eq]
  case bounded =>
    intro names hall
    have proper : (((after ttl turns).evict now).2.entries.map Prod.fst).Nodup := hm.evict.proper
    have recent : ((after ttl turns).evict now).2.entries.map Prod.fst ⊆ names := by
      intro name hname
      obtain ⟨⟨n, t⟩, hmem, rfl⟩ := List.mem_map.mp hname
      obtain ⟨⟨a, d, b, hlog, hd, rfl, -⟩, young⟩ := setLast_of_mem_evict h hmem
      exact hall d (by simp [hlog]) young n hd
    simpa [size] using (proper.subperm recent).length_le

end Sequences

/-- Two claims on one name, a get, and another marker, with ten milliseconds to live. -/
def sampleTurns : List Turn :=
  [⟨0, .claim "a"⟩, ⟨9, .claim "a"⟩, ⟨9, .get "a"⟩, ⟨9, .set "b"⟩]

/-- The second claim was refused, so the first marker expires when it would have without it. -/
theorem sample_like_plain :
    Timely sampleTurns 10 ∧ (∃ t, SetLast "b" (log 10 sampleTurns) t ∧ 10 - t < 10) ∧
      ¬ ∃ t, SetLast "a" (log 10 sampleTurns) t ∧ 10 - t < 10 := by
  have timely : Timely sampleTurns 10 := ⟨by decide, by decide⟩
  have like := like_plain 10 timely
  exact ⟨timely, (like.get_iff "b").mp (by decide),
    fun young => absurd ((like.get_iff "a").mpr young) (by decide)⟩

end Markers
end RunDispatch
