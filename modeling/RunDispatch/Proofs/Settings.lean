/-
# What settings are accepted, and what they build

Settings that are accepted hold numbers that fit their types, and at least one slot (`Made.fits`). All of
them build a worker but those with more slots than can be kept count of, which are accepted all the same:
any number from one on that fits in 64 bits is accepted for the slots, and only those below 2^61 build a
worker (`read_accepted`). A worker that is built has as many slots as were asked for, and keeps them.

Key definitions: `Made`, `slotsVariable`, `assign`, `Accepted`.
Key theorems: `readDigits_eq`, `readNumber?_toString`, `made_of_read`, `Made.read_assign`, `read_accepted`.
-/
import RunDispatch.Proofs.Json.Number
import RunDispatch.Proofs.Staging.Frame
import RunDispatch.Proofs.Worker.Slots

namespace RunDispatch

/-! ### Numbers -/

theorem readDigits_lt {limit v n : Nat} {cs : List Char} (h : readDigits limit v cs = .ok n)
    (hv : v < limit) : n < limit := by
  induction cs generalizing v with
  | nil =>
    cases h
    exact hv
  | cons c rest ih =>
    rw [readDigits] at h
    by_cases hc : '0' ≤ c ∧ c ≤ '9'
    · rw [if_pos hc] at h
      dsimp only at h
      by_cases hl : limit ≤ v * 10 + (c.toNat - '0'.toNat)
      · rw [if_pos hl] at h
        cases h
      · rw [if_neg hl] at h
        exact ih h (Nat.lt_of_not_le hl)
    · rw [if_neg hc] at h
      cases h

theorem readNumber?_lt {limit n : Nat} {s : String} (h : readNumber? limit s = .ok n) (hl : 0 < limit) :
    n < limit := by
  unfold readNumber? at h
  split at h
  · cases h
  · cases h
  · exact readDigits_lt h hl
  · exact readDigits_lt h hl

/-- **Digits are read as the number that they spell**, unless it is too large. -/
theorem readDigits_eq {limit v : Nat} {cs : List Char} (hd : ∀ c ∈ cs, '0' ≤ c ∧ c ≤ '9')
    (hv : v < limit) :
    readDigits limit v cs =
      if Nat.ofDigitChars 10 cs v < limit then .ok (Nat.ofDigitChars 10 cs v) else .error .tooLarge := by
  induction cs generalizing v with
  | nil =>
    rw [Nat.ofDigitChars_nil, if_pos hv]
    rfl
  | cons c rest ih =>
    have hnext : v * 10 + (c.toNat - '0'.toNat) = 10 * v + (c.toNat - '0'.toNat) := by omega
    rw [readDigits, if_pos (hd c List.mem_cons_self), Nat.ofDigitChars_cons]
    dsimp only
    rw [hnext]
    by_cases hl : limit ≤ 10 * v + (c.toNat - '0'.toNat)
    · have hgrown := Json.le_ofDigitChars rest (10 * v + (c.toNat - '0'.toNat))
      rw [if_pos hl, if_neg (by omega)]
    · rw [if_neg hl, ih (fun d hm => hd d (List.mem_cons_of_mem c hm)) (by omega)]

theorem digit_of_mem_toDigits {n : Nat} {c : Char} (h : c ∈ Nat.toDigits 10 n) : '0' ≤ c ∧ c ≤ '9' := by
  have hd := Nat.isDigit_of_mem_toDigits (by decide) (by decide) h
  simp only [Char.isDigit, Bool.and_eq_true, decide_eq_true_eq] at hd
  exact hd

theorem isBlank_of_digit {c : Char} (h : '0' ≤ c ∧ c ≤ '9') : Text.isBlank c = false := by
  have hlow : 48 ≤ c.toNat := Char.le_def.mp h.1
  have hhigh : c.toNat ≤ 57 := Char.le_def.mp h.2
  simp only [Text.isBlank, Bool.or_eq_false_iff, Bool.and_eq_false_iff, decide_eq_false_iff_not,
    beq_eq_false_iff_ne]
  omega

theorem trimLeft_of_digits {cs : List Char} (h : ∀ c ∈ cs, '0' ≤ c ∧ c ≤ '9') : Text.trimLeft cs = cs := by
  cases cs with
  | nil => rfl
  | cons c rest =>
    exact List.dropWhile_cons_of_neg (by simp [isBlank_of_digit (h c List.mem_cons_self)])

/-- **A numeral is read back**, unless it is too large. -/
theorem readNumber?_toString {limit : Nat} (n : Nat) (hl : 0 < limit) :
    readNumber? limit (toString n) = if n < limit then .ok n else .error .tooLarge := by
  have hd : ∀ c ∈ Nat.toDigits 10 n, '0' ≤ c ∧ c ≤ '9' := fun c hc => digit_of_mem_toDigits hc
  have htrim : Text.trimChars (toString n).toList = Nat.toDigits 10 n := by
    have hlist : (toString n).toList = Nat.toDigits 10 n := Nat.toList_repr
    rw [hlist, Text.trimChars, trimLeft_of_digits hd,
      trimLeft_of_digits fun c hc => hd c (List.mem_reverse.mp hc), List.reverse_reverse]
  have hread := readDigits_eq hd hl
  rw [Nat.ofDigitChars_ten_toDigits] at hread
  unfold readNumber?
  rw [htrim]
  split
  · exact absurd ‹_› Nat.toDigits_ne_nil
  · rename_i h
    exact absurd (hd '+' (by rw [h]; exact List.mem_cons_self)) (by decide)
  · rename_i h
    exact absurd (hd '+' (by rw [h]; exact List.mem_cons_self)) (by decide)
  · exact hread

namespace Settings

/-! ### The settings that variables make -/

/-- What settings have to do with the variables that they were made of. -/
structure Made (lookup : String → Option String) (temp : String) (s : Settings) : Prop where
  host : s.host = (valueOf? lookup "HOST").getD "0.0.0.0"
  port : number lookup "PORT" portLimit 8090 = .ok s.port
  databaseUrl : valueOf? lookup "DATABASE_URL" = some s.databaseUrl
  stagingRoot : s.stagingRoot = (valueOf? lookup "STAGING_ROOT").getD (defaultRoot temp)
  mountSource : s.mountSource = (valueOf? lookup "MOUNT_SOURCE").getD s.stagingRoot
  mountTarget : s.mountTarget = (valueOf? lookup "MOUNT_TARGET").getD s.stagingRoot
  mountKind : readMountKind lookup = .ok s.mountKind
  sharedMountSource : s.sharedMountSource = valueOf? lookup "SHARED_MOUNT_SOURCE"
  sharedMountTarget : s.sharedMountTarget = (valueOf? lookup "SHARED_MOUNT_TARGET").getD "/local"
  slots : number lookup "MAX_CONCURRENT_ACTIVITIES" wordLimit 2 = .ok s.slots
  some : s.slots ≠ 0
  activityTimeout : number lookup "ACTIVITY_TIMEOUT_SECS" wordLimit 120 = .ok s.activityTimeout
  dispatchTtl : number lookup "DISPATCH_TTL_SECS" wordLimit 3600 = .ok s.dispatchTtl
  stopGrace : number lookup "STOP_GRACE_SECS" wordLimit 10 = .ok s.stopGrace
  requestTimeout : number lookup "REQUEST_TIMEOUT_SECS" wordLimit 30 = .ok s.requestTimeout
  shutdownTimeout : number lookup "SHUTDOWN_TIMEOUT_SECS" wordLimit 30 = .ok s.shutdownTimeout

section Variables

variable {lookup : String → Option String} {temp : String} {s : Settings}

theorem made_of_read (h : read lookup temp = .ok s) : Made lookup temp s := by
  unfold read at h
  obtain ⟨port, hport, h⟩ := Staging.ok_of_bind h
  dsimp only at h
  split at h
  · rename_i url hurl
    obtain ⟨u, hu, h⟩ := Staging.ok_of_bind h
    obtain ⟨mountKind, hkind, h⟩ := Staging.ok_of_bind h
    obtain ⟨slots, hslots, h⟩ := Staging.ok_of_bind h
    split at h
    · cases h
    · rename_i hsome
      obtain ⟨activityTimeout, hactivity, h⟩ := Staging.ok_of_bind h
      obtain ⟨dispatchTtl, httl, h⟩ := Staging.ok_of_bind h
      obtain ⟨stopGrace, hgrace, h⟩ := Staging.ok_of_bind h
      obtain ⟨requestTimeout, hrequest, h⟩ := Staging.ok_of_bind h
      obtain ⟨shutdownTimeout, hshutdown, h⟩ := Staging.ok_of_bind h
      cases h
      cases hu
      exact ⟨rfl, hport, hurl, rfl, rfl, rfl, hkind, rfl, rfl, hslots, hsome, hactivity, httl, hgrace,
        hrequest, hshutdown⟩
  · cases h

theorem number_lt {name : String} {limit default n : Nat} (h : number lookup name limit default = .ok n)
    (hd : default < limit) : n < limit := by
  unfold number at h
  cases hv : valueOf? lookup name with
  | none =>
    rw [hv] at h
    cases h
    exact hd
  | some v =>
    rw [hv] at h
    dsimp only at h
    cases hn : readNumber? limit v with
    | error f =>
      rw [hn] at h
      cases h
    | ok k =>
      rw [hn] at h
      cases h
      exact readNumber?_lt hn (by omega)

/-- **Numbers that are accepted fit their types.** -/
theorem Made.fits (h : Made lookup temp s) :
    s.port < portLimit ∧ 0 < s.slots ∧ s.slots < wordLimit ∧
      ∀ seconds ∈ [s.activityTimeout, s.dispatchTtl, s.stopGrace, s.requestTimeout, s.shutdownTimeout],
        seconds < wordLimit := by
  refine ⟨number_lt h.port (by decide), Nat.pos_of_ne_zero h.some, number_lt h.slots (by decide), ?_⟩
  intro seconds hs
  simp only [List.mem_cons, List.not_mem_nil, or_false] at hs
  rcases hs with rfl | rfl | rfl | rfl | rfl
  · exact number_lt h.activityTimeout (by decide)
  · exact number_lt h.dispatchTtl (by decide)
  · exact number_lt h.stopGrace (by decide)
  · exact number_lt h.requestTimeout (by decide)
  · exact number_lt h.shutdownTimeout (by decide)

/-! ### Other slots -/

def slotsVariable : String := "MAX_CONCURRENT_ACTIVITIES"

def assign (lookup : String → Option String) (name value : String) (x : String) : Option String :=
  if x = name then some value else lookup x

theorem valueOf?_assign_of_ne {name value x : String} (h : x ≠ name) :
    valueOf? (assign lookup name value) x = valueOf? lookup x := by
  rw [valueOf?, assign, if_neg h, valueOf?]

theorem number_assign_of_ne {name value x : String} (h : x ≠ name) (limit default : Nat) :
    number (assign lookup name value) x limit default = number lookup x limit default := by
  rw [number, valueOf?_assign_of_ne h, number]

/-- The number of a variable that holds a numeral. -/
theorem number_assign (name : String) {limit : Nat} (n default : Nat) (hl : 0 < limit) :
    number (assign lookup name (toString n)) name limit default =
      if n < limit then .ok n else .error (.number name (toString n) .tooLarge) := by
  have hnonblank : Text.allBlank (toString n) = false := by
    have hlist : (toString n).toList = Nat.toDigits 10 n := Nat.toList_repr
    obtain ⟨c, rest, hc⟩ := List.exists_cons_of_ne_nil (Nat.toDigits_ne_nil (b := 10) (n := n))
    have hdigit := digit_of_mem_toDigits (n := n) (c := c) (by rw [hc]; exact List.mem_cons_self)
    rw [Text.allBlank, hlist, hc, List.all_cons, isBlank_of_digit hdigit, Bool.false_and]
  have hvalue : valueOf? (assign lookup name (toString n)) name = some (toString n) := by
    rw [valueOf?, assign, if_pos rfl, Option.filter_some, hnonblank]
    rfl
  rw [number, hvalue]
  dsimp only
  rw [readNumber?_toString n hl]
  by_cases hn : n < limit
  · rw [if_pos hn, if_pos hn]
    rfl
  · rw [if_neg hn, if_neg hn]
    rfl

/-- The settings with another value for the slots. -/
theorem Made.read_assign (h : Made lookup temp s) (value : String) :
    read (assign lookup slotsVariable value) temp =
      (number (assign lookup slotsVariable value) slotsVariable wordLimit 2 >>= fun n =>
        if n = 0 then .error .noSlots else .ok { s with slots := n }) := by
  have hvalue : ∀ x, x ≠ slotsVariable →
      valueOf? (assign lookup slotsVariable value) x = valueOf? lookup x := fun x hx =>
    valueOf?_assign_of_ne hx
  have hnumber : ∀ x limit default, x ≠ slotsVariable →
      number (assign lookup slotsVariable value) x limit default = number lookup x limit default :=
    fun x limit default hx => number_assign_of_ne hx limit default
  have hkind : readMountKind (assign lookup slotsVariable value) = .ok s.mountKind := by
    rw [readMountKind, hvalue _ (by decide), ← h.mountKind, readMountKind]
  have hslots : "MAX_CONCURRENT_ACTIVITIES" = slotsVariable := rfl
  unfold read
  rw [hnumber "PORT" _ _ (by decide), hnumber "ACTIVITY_TIMEOUT_SECS" _ _ (by decide),
    hnumber "DISPATCH_TTL_SECS" _ _ (by decide), hnumber "STOP_GRACE_SECS" _ _ (by decide),
    hnumber "REQUEST_TIMEOUT_SECS" _ _ (by decide), hnumber "SHUTDOWN_TIMEOUT_SECS" _ _ (by decide),
    hkind, hslots, h.port, h.activityTimeout, h.dispatchTtl, h.stopGrace, h.requestTimeout,
    h.shutdownTimeout]
  simp only [hvalue "DATABASE_URL" (by decide), hvalue "HOST" (by decide),
    hvalue "STAGING_ROOT" (by decide), hvalue "MOUNT_SOURCE" (by decide),
    hvalue "MOUNT_TARGET" (by decide), hvalue "SHARED_MOUNT_SOURCE" (by decide),
    hvalue "SHARED_MOUNT_TARGET" (by decide), h.databaseUrl, ← h.host, ← h.stagingRoot, ← h.mountSource,
    ← h.mountTarget, ← h.sharedMountSource, ← h.sharedMountTarget]
  cases number (assign lookup slotsVariable value) slotsVariable wordLimit 2 with
  | error e => rfl
  | ok n =>
    show (if n = 0 then _ else _) = if n = 0 then _ else _
    by_cases hn : n = 0
    · rw [if_pos hn, if_pos hn]
      rfl
    · rw [if_neg hn, if_neg hn]
      rfl

end Variables

/-! ### What settings build -/

/-- What becomes of variables that are accepted. -/
structure Accepted (lookup : String → Option String) (temp : String) (s : Settings) : Prop where
  /-- The numbers fit their types, and there is a slot. -/
  fits : s.port < portLimit ∧ 0 < s.slots ∧ s.slots < wordLimit ∧
    ∀ seconds ∈ [s.activityTimeout, s.dispatchTtl, s.stopGrace, s.requestTimeout, s.shutdownTimeout],
      seconds < wordLimit
  /-- They build a worker exactly if the slots can be kept count of. -/
  builds : ∀ disk, (Worker.ofSettings? s disk).isSome = true ↔ s.slots ≤ Run.Slots.maxFree
  /-- A worker that is built has that many slots, whatever happens to it. -/
  bounded : ∀ disk w, Worker.ofSettings? s disk = some w → w.availableSlots = s.slots ∧
    ∀ P now log w', Worker.History P w now log w' → Worker.Bounded s.slots w'
  /-- With any other number for the slots the variables are accepted too, unless it is zero or does not fit
  its type. -/
  others : ∀ n, read (assign lookup slotsVariable (toString n)) temp =
    if n = 0 then .error .noSlots
    else if n < wordLimit then .ok { s with slots := n }
    else .error (.number slotsVariable (toString n) .tooLarge)
  /-- So there are numbers that are accepted and build no worker. -/
  unbuilt : ∀ n disk, Run.Slots.maxFree < n → n < wordLimit →
    ∃ s', read (assign lookup slotsVariable (toString n)) temp = .ok s' ∧ Worker.ofSettings? s' disk = none

theorem ofSettings?_isSome {s : Settings} (disk : Staging.Disk) :
    (Worker.ofSettings? s disk).isSome = true ↔ s.slots ≤ Run.Slots.maxFree := by
  unfold Worker.ofSettings? Run.Slots.ofNat?
  by_cases hs : s.slots ≤ Run.Slots.maxFree
  · rw [if_pos hs]
    exact ⟨fun _ => hs, fun _ => rfl⟩
  · rw [if_neg hs]
    exact ⟨nofun, fun h => absurd h hs⟩

theorem fresh_of_ofSettings? {s : Settings} {disk : Staging.Disk} {w : Worker}
    (h : Worker.ofSettings? s disk = some w) :
    w.tasks = [] ∧ w.shared.slots = ⟨s.slots, [], []⟩ := by
  unfold Worker.ofSettings? Run.Slots.ofNat? at h
  by_cases hs : s.slots ≤ Run.Slots.maxFree
  · rw [if_pos hs] at h
    cases h
    exact ⟨rfl, rfl⟩
  · rw [if_neg hs] at h
    cases h

/-- **Variables that are accepted build a worker if they ask for fewer than 2^61 slots**, and no other
number keeps them from it. -/
theorem read_accepted {lookup : String → Option String} {temp : String} {s : Settings}
    (h : read lookup temp = .ok s) : Accepted lookup temp s := by
  have hmade := made_of_read h
  have hothers : ∀ n, read (assign lookup slotsVariable (toString n)) temp =
      if n = 0 then .error .noSlots
      else if n < wordLimit then .ok { s with slots := n }
      else .error (.number slotsVariable (toString n) .tooLarge) := by
    intro n
    rw [hmade.read_assign, number_assign slotsVariable n 2 (by decide)]
    by_cases h0 : n = 0
    · subst h0
      rfl
    · rw [if_neg h0]
      by_cases hn : n < wordLimit
      · rw [if_pos hn, if_pos hn]
        exact if_neg h0
      · rw [if_neg hn, if_neg hn]
        rfl
  refine ⟨hmade.fits, ofSettings?_isSome, fun disk w hw => ?_, hothers, fun n disk hlow hhigh => ?_⟩
  · obtain ⟨htasks, hslots⟩ := fresh_of_ofSettings? hw
    exact ⟨by rw [Worker.availableSlots, hslots], fun P now log w' hh => hh.bounded htasks hslots⟩
  · have h0 : n ≠ 0 := by omega
    refine ⟨{ s with slots := n }, by rw [hothers, if_neg h0, if_pos hhigh], ?_⟩
    have hnone := (ofSettings?_isSome (s := { s with slots := n }) disk).not.mpr (Nat.not_le_of_lt hlow)
    exact Option.not_isSome_iff_eq_none.mp hnone

def sampleVariables (name : String) : Option String :=
  if name = "DATABASE_URL" then some "postgres://db" else none

def sampleSettings : Settings :=
  ⟨"0.0.0.0", 8090, "postgres://db", "/tmp/vdp", "/tmp/vdp", "/tmp/vdp", .bind, none, "/local", 120, 2, 3600,
    10, 30, 30⟩

theorem sample_accepted :
    read sampleVariables "/tmp" = .ok sampleSettings ∧ Accepted sampleVariables "/tmp" sampleSettings := by
  have h : read sampleVariables "/tmp" = .ok sampleSettings := by decide
  exact ⟨h, read_accepted h⟩

/-- **Settings that are accepted and build no worker**: they ask for 2^61 slots. -/
theorem sample_unbuilt :
    read (assign sampleVariables slotsVariable "2305843009213693952") "/tmp" =
      .ok { sampleSettings with slots := 2305843009213693952 } ∧
    ∀ disk, Worker.ofSettings? { sampleSettings with slots := 2305843009213693952 } disk = none :=
  ⟨by decide +kernel, fun _ => rfl⟩

end Settings
end RunDispatch
