/-
# How settings are read

Settings are read off fifteen variables, nine of which can be wrong. These are looked at in a fixed order,
each in its own way: one has to be set, one has to name a kind of mounts if it is set, and the others have to
spell numbers if they are. The first that is wrong is reported, with its value as it stands; if none is, every
setting is the value of its variable, or what stands in for one that is not set.

A blank variable counts as one that is not set, and no variable but the fifteen counts at all.

Key definitions: `IsSet`, `IsUnset`, `Check`, `checks`, `Fine`, `Wrong`, `FirstWrong`, `Values`, `lookedUp`,
`Reports`, `Decided`.
Key theorems: `number_cases`, `Made.values`, `firstWrong_of_read`, `Values.unique`, `read_congr`,
`Wrong.reports`, `read_decided`.
-/
import RunDispatch.Proofs.Settings.Numeral

namespace RunDispatch
namespace Settings

/-! ### Variables -/

/-- A variable is set: it has a value that is not blank. -/
def IsSet (lookup : String → Option String) (name value : String) : Prop :=
  lookup name = some value ∧ ∃ c ∈ value.toList, Text.isBlank c = false

/-- A variable is not set: it has no value, or a blank one. -/
def IsUnset (lookup : String → Option String) (name : String) : Prop :=
  ∀ value, lookup name = some value → ∀ c ∈ value.toList, Text.isBlank c = true

/-- A value names a kind of mounts, in letters of either case. -/
def Names (value : String) (kind : Container.MountKind) : Prop :=
  Text.lowered value.toList = kind.name.toList

section Variables

variable {lookup : String → Option String} {name value : String}

theorem valueOf?_eq_some_iff : valueOf? lookup name = some value ↔ IsSet lookup name value := by
  rw [valueOf?, Option.filter_eq_some_iff, IsSet, Text.allBlank, Bool.not_eq_true', List.all_eq_false]
  simp only [Bool.not_eq_true]

theorem valueOf?_eq_none_iff : valueOf? lookup name = none ↔ IsUnset lookup name := by
  rw [valueOf?, Option.filter_eq_none_iff]
  simp only [Text.allBlank, Bool.not_eq_true', Bool.not_eq_false, List.all_eq_true, IsUnset]

theorem IsSet.unique {other : String} (h : IsSet lookup name value) (ho : IsSet lookup name other) :
    value = other :=
  Option.some.inj (h.1.symm.trans ho.1)

theorem IsSet.not_isUnset (h : IsSet lookup name value) : ¬ IsUnset lookup name := by
  intro hu
  obtain ⟨hvalue, c, hc, hblank⟩ := h
  rw [hu value hvalue c hc] at hblank
  cases hblank

theorem ofName?_eq_some_iff {kind : Container.MountKind} :
    Container.MountKind.ofName? value = some kind ↔ Names value kind := by
  constructor
  · intro h
    rw [Container.MountKind.ofName?] at h
    have hfound := List.find?_some h
    exact (of_decide_eq_true hfound).symm
  · intro h
    have hlowered : Text.lowered value.toList = kind.name.toList := h
    rw [Container.MountKind.ofName?, hlowered]
    cases kind <;> decide

theorem Names.unique {kind other : Container.MountKind} (h : Names value kind) (ho : Names value other) :
    kind = other :=
  Option.some.inj ((ofName?_eq_some_iff.mpr h).symm.trans (ofName?_eq_some_iff.mpr ho))

end Variables

/-! ### What can be wrong -/

/-- How a variable is looked at. -/
inductive Check where
  /-- It has to be set. -/
  | present
  /-- If it is set, it has to name a kind of mounts. -/
  | mountKind
  /-- If it is set, it has to spell a number of so many bits, and at least so much. -/
  | number (least bits : Nat)
  deriving DecidableEq, Repr

/-- The variables that can be wrong, in the order in which they are looked at. -/
def checks : List (String × Check) :=
  [ ("PORT", .number 0 16), ("DATABASE_URL", .present), ("MOUNT_TYPE", .mountKind),
    ("MAX_CONCURRENT_ACTIVITIES", .number 1 64), ("ACTIVITY_TIMEOUT_SECS", .number 0 64),
    ("DISPATCH_TTL_SECS", .number 0 64), ("STOP_GRACE_SECS", .number 0 64),
    ("REQUEST_TIMEOUT_SECS", .number 0 64), ("SHUTDOWN_TIMEOUT_SECS", .number 0 64) ]

/-- A variable is as it has to be. -/
def Fine (lookup : String → Option String) (name : String) : Check → Prop
  | .present => ∃ value, IsSet lookup name value
  | .mountKind => ∀ value, IsSet lookup name value → ∃ kind, Names value kind
  | .number least bits =>
    ∀ value, IsSet lookup name value → ∃ n, Numeral value n ∧ least ≤ n ∧ n < Nat.pow 2 bits

/-- What is wrong with a variable. -/
inductive Wrong (lookup : String → Option String) (name : String) : Check → SettingsError → Prop
  | missing (h : IsUnset lookup name) : Wrong lookup name .present (.missing name)
  | kind {value : String} (hv : IsSet lookup name value) (h : ∀ kind, ¬ Names value kind) :
      Wrong lookup name .mountKind (.mountKind value)
  | tooLarge {least bits : Nat} {value : String} (hv : IsSet lookup name value)
      (h : Overflows (Nat.pow 2 bits) value) :
      Wrong lookup name (.number least bits) (.number name value .tooLarge)
  | noNumber {least bits : Nat} {value : String} (hv : IsSet lookup name value)
      (ho : ¬ Overflows (Nat.pow 2 bits) value) (h : ∀ n, ¬ Numeral value n) :
      Wrong lookup name (.number least bits) (.number name value .invalidDigit)
  | zero {bits : Nat} {value : String} (hv : IsSet lookup name value) (h : Numeral value 0) :
      Wrong lookup name (.number 1 bits) .noSlots

/-- The first of some variables that is wrong: those before it are fine. -/
def FirstWrong (lookup : String → Option String) (l : List (String × Check)) (e : SettingsError) : Prop :=
  ∃ before name check after, l = before ++ (name, check) :: after ∧
    (∀ x ∈ before, Fine lookup x.1 x.2) ∧ Wrong lookup name check e

section Checks

variable {lookup : String → Option String} {name : String} {check : Check}
  {rest : List (String × Check)} {e e' : SettingsError}

theorem Wrong.not_fine (h : Wrong lookup name check e) : ¬ Fine lookup name check := by
  intro hf
  cases h with
  | missing h =>
    obtain ⟨value, hv⟩ := hf
    exact hv.not_isUnset h
  | kind hv h =>
    obtain ⟨kind, hk⟩ := hf _ hv
    exact h kind hk
  | tooLarge hv h =>
    obtain ⟨n, hn, -, hlt⟩ := hf _ hv
    exact hn.not_overflows hlt h
  | noNumber hv _ h =>
    obtain ⟨n, hn, -⟩ := hf _ hv
    exact h n hn
  | zero hv h =>
    obtain ⟨n, hn, hle, -⟩ := hf _ hv
    rw [hn.unique h] at hle
    exact absurd hle (by decide)

/-- A variable is wrong in one way at most. -/
theorem Wrong.unique (h : Wrong lookup name check e) (h' : Wrong lookup name check e') : e = e' := by
  cases h with
  | missing _ =>
    cases h'
    rfl
  | kind hv _ =>
    cases h' with
    | kind hv' _ => rw [hv.unique hv']
  | tooLarge hv h =>
    cases h' with
    | tooLarge hv' _ => rw [hv.unique hv']
    | noNumber hv' ho _ => exact absurd (hv.unique hv' ▸ h) ho
    | zero hv' h' => exact absurd (hv.unique hv' ▸ h) (h'.not_overflows (Nat.two_pow_pos _))
  | noNumber hv ho h =>
    cases h' with
    | tooLarge hv' h' => exact absurd (hv'.unique hv ▸ h') ho
    | noNumber hv' _ _ => rw [hv.unique hv']
    | zero hv' h' => exact absurd (hv'.unique hv ▸ h') (h 0)
  | zero hv h =>
    cases h' with
    | tooLarge hv' h' => exact absurd (hv'.unique hv ▸ h') (h.not_overflows (Nat.two_pow_pos _))
    | noNumber hv' _ h' => exact absurd (hv.unique hv' ▸ h) (h' 0)
    | zero _ _ => rfl

theorem FirstWrong.here (h : Wrong lookup name check e) : FirstWrong lookup ((name, check) :: rest) e :=
  ⟨[], name, check, rest, rfl, nofun, h⟩

theorem FirstWrong.later (hf : Fine lookup name check) (h : FirstWrong lookup rest e) :
    FirstWrong lookup ((name, check) :: rest) e := by
  obtain ⟨before, n, c, after, rfl, hbefore, hw⟩ := h
  exact ⟨(name, check) :: before, n, c, after, rfl, List.forall_mem_cons.mpr ⟨hf, hbefore⟩, hw⟩

theorem FirstWrong.not_fine {l : List (String × Check)} (h : FirstWrong lookup l e) :
    ¬ ∀ x ∈ l, Fine lookup x.1 x.2 := by
  obtain ⟨before, name, check, after, rfl, -, hw⟩ := h
  exact fun hall => hw.not_fine (hall (name, check) (by simp))

/-- There is one first fault at most. -/
theorem FirstWrong.unique {l : List (String × Check)} (h : FirstWrong lookup l e)
    (h' : FirstWrong lookup l e') : e = e' := by
  obtain ⟨before, name, check, after, hl, hbefore, hw⟩ := h
  obtain ⟨before', name', check', after', hl', hbefore', hw'⟩ := h'
  rw [hl] at hl'
  rcases List.append_eq_append_iff.mp hl' with ⟨more, hmore, hrest⟩ | ⟨more, hmore, hrest⟩
  · cases more with
    | nil =>
      cases hrest
      exact hw.unique hw'
    | cons x more =>
      cases hrest
      exact absurd (hbefore' (name, check) (by simp [hmore])) hw.not_fine
  · cases more with
    | nil =>
      cases hrest
      exact hw.unique hw'
    | cons x more =>
      cases hrest
      exact absurd (hbefore (name', check') (by simp [hmore])) hw'.not_fine

end Checks

/-! ### What is read -/

/-- A setting is the text of a variable, or its default. -/
def TextOf (lookup : String → Option String) (name default v : String) : Prop :=
  IsSet lookup name v ∨ IsUnset lookup name ∧ v = default

/-- A setting is the number of a variable, or its default. -/
def NumberOf (lookup : String → Option String) (name : String) (default n : Nat) : Prop :=
  (∃ value, IsSet lookup name value ∧ Numeral value n) ∨ IsUnset lookup name ∧ n = default

/-- The settings that variables make: each is that of its own variable, or its default. The staging root has a
place below the directory for temporary files for a default, and the mounts have the staging root, the source
and the target each by itself. -/
structure Values (lookup : String → Option String) (temp : String) (s : Settings) : Prop where
  host : TextOf lookup "HOST" "0.0.0.0" s.host
  port : NumberOf lookup "PORT" 8090 s.port
  databaseUrl : IsSet lookup "DATABASE_URL" s.databaseUrl
  stagingRoot : TextOf lookup "STAGING_ROOT" (Staging.joinPath temp "vdp") s.stagingRoot
  mountSource : TextOf lookup "MOUNT_SOURCE" s.stagingRoot s.mountSource
  mountTarget : TextOf lookup "MOUNT_TARGET" s.stagingRoot s.mountTarget
  mountKind : (∃ value, IsSet lookup "MOUNT_TYPE" value ∧ Names value s.mountKind) ∨
    IsUnset lookup "MOUNT_TYPE" ∧ s.mountKind = .bind
  sharedMountSource : ∀ v, s.sharedMountSource = some v ↔ IsSet lookup "SHARED_MOUNT_SOURCE" v
  sharedMountTarget : TextOf lookup "SHARED_MOUNT_TARGET" "/local" s.sharedMountTarget
  slots : NumberOf lookup "MAX_CONCURRENT_ACTIVITIES" 2 s.slots
  activityTimeout : NumberOf lookup "ACTIVITY_TIMEOUT_SECS" 120 s.activityTimeout
  dispatchTtl : NumberOf lookup "DISPATCH_TTL_SECS" 3600 s.dispatchTtl
  stopGrace : NumberOf lookup "STOP_GRACE_SECS" 10 s.stopGrace
  requestTimeout : NumberOf lookup "REQUEST_TIMEOUT_SECS" 30 s.requestTimeout
  shutdownTimeout : NumberOf lookup "SHUTDOWN_TIMEOUT_SECS" 30 s.shutdownTimeout

section Reading

variable {lookup : String → Option String} {name temp : String} {s : Settings} {e : SettingsError}

theorem TextOf.unique {default v w : String} (hv : TextOf lookup name default v)
    (hw : TextOf lookup name default w) : v = w := by
  rcases hv with hv | ⟨hu, rfl⟩ <;> rcases hw with hw | ⟨hu', rfl⟩
  · exact hv.unique hw
  · exact absurd hu' hv.not_isUnset
  · exact absurd hu hw.not_isUnset
  · rfl

theorem NumberOf.unique {default m n : Nat} (hm : NumberOf lookup name default m)
    (hn : NumberOf lookup name default n) : m = n := by
  rcases hm with ⟨v, hv, hm⟩ | ⟨hu, rfl⟩ <;> rcases hn with ⟨w, hw, hn⟩ | ⟨hu', rfl⟩
  · rw [hv.unique hw] at hm
    exact hm.unique hn
  · exact absurd hu' hv.not_isUnset
  · exact absurd hu hw.not_isUnset
  · rfl

theorem textOf_getD (default : String) :
    TextOf lookup name default ((valueOf? lookup name).getD default) := by
  cases hv : valueOf? lookup name with
  | none => exact .inr ⟨valueOf?_eq_none_iff.mp hv, rfl⟩
  | some v => exact .inl (valueOf?_eq_some_iff.mp hv)

/-- What becomes of a variable that is to spell a number of so many bits. -/
theorem number_cases (lookup : String → Option String) (name : String) (bits default : Nat) :
    (IsUnset lookup name ∧ number lookup name (Nat.pow 2 bits) default = .ok default) ∨
      (∃ value n, IsSet lookup name value ∧ Numeral value n ∧ n < Nat.pow 2 bits ∧
        number lookup name (Nat.pow 2 bits) default = .ok n) ∨
      ∃ e, number lookup name (Nat.pow 2 bits) default = .error e ∧
        ∀ least, Wrong lookup name (.number least bits) e := by
  have hl : 0 < Nat.pow 2 bits := Nat.two_pow_pos bits
  rw [number]
  cases hv : valueOf? lookup name with
  | none => exact .inl ⟨valueOf?_eq_none_iff.mp hv, rfl⟩
  | some value =>
    have hset := valueOf?_eq_some_iff.mp hv
    dsimp only
    cases hr : readNumber? (Nat.pow 2 bits) value with
    | ok n =>
      obtain ⟨hn, hlt⟩ := (readNumber?_eq_ok_iff hl).mp hr
      exact .inr (.inl ⟨value, n, hset, hn, hlt, rfl⟩)
    | error fault =>
      refine .inr (.inr ⟨_, rfl, fun least => ?_⟩)
      cases fault with
      | tooLarge => exact .tooLarge hset ((readNumber?_tooLarge_iff hl).mp hr)
      | invalidDigit =>
        have hover : ¬ Overflows (Nat.pow 2 bits) value := fun ho => by
          rw [(readNumber?_tooLarge_iff hl).mpr ho] at hr
          cases hr
        refine .noNumber hset hover fun n hn => ?_
        by_cases hlt : n < Nat.pow 2 bits
        · rw [(readNumber?_eq_ok_iff hl).mpr ⟨hn, hlt⟩] at hr
          cases hr
        · exact hover (hn.overflows (Nat.le_of_not_lt hlt))

theorem numberOf_of_number {bits default n : Nat} (h : number lookup name (Nat.pow 2 bits) default = .ok n) :
    NumberOf lookup name default n := by
  rcases number_cases lookup name bits default with ⟨hu, hok⟩ | ⟨value, m, hv, hm, -, hok⟩ | ⟨e, herr, -⟩
  · exact .inr ⟨hu, Except.ok.inj (h.symm.trans hok)⟩
  · cases h.symm.trans hok
    exact .inl ⟨value, hv, hm⟩
  · cases h.symm.trans herr

theorem fine_of_number {bits default n least : Nat} (h : number lookup name (Nat.pow 2 bits) default = .ok n)
    (hle : least ≤ n) : Fine lookup name (.number least bits) := by
  intro value hset
  rcases number_cases lookup name bits default with ⟨hu, -⟩ | ⟨v, m, hv, hm, hlt, hok⟩ | ⟨e, herr, -⟩
  · exact absurd hu hset.not_isUnset
  · cases h.symm.trans hok
    cases hv.unique hset
    exact ⟨n, hm, hle, hlt⟩
  · cases h.symm.trans herr

theorem wrong_of_number {bits default : Nat} (h : number lookup name (Nat.pow 2 bits) default = .error e)
    (least : Nat) : Wrong lookup name (.number least bits) e := by
  rcases number_cases lookup name bits default with ⟨-, hok⟩ | ⟨v, m, -, -, -, hok⟩ | ⟨e', herr, hw⟩
  · cases h.symm.trans hok
  · cases h.symm.trans hok
  · cases h.symm.trans herr
    exact hw least

theorem wrong_of_zero {bits default : Nat} (h : number lookup name (Nat.pow 2 bits) default = .ok 0)
    (hd : default ≠ 0) : Wrong lookup name (.number 1 bits) .noSlots := by
  rcases numberOf_of_number h with ⟨value, hv, hn⟩ | ⟨-, hzero⟩
  · exact .zero hv hn
  · exact absurd hzero.symm hd

/-- What becomes of the variable that is to name a kind of mounts. -/
theorem readMountKind_cases (lookup : String → Option String) :
    (∃ kind, readMountKind lookup = .ok kind ∧ Fine lookup "MOUNT_TYPE" .mountKind ∧
      ((∃ value, IsSet lookup "MOUNT_TYPE" value ∧ Names value kind) ∨
        IsUnset lookup "MOUNT_TYPE" ∧ kind = .bind)) ∨
      ∃ e, readMountKind lookup = .error e ∧ Wrong lookup "MOUNT_TYPE" .mountKind e := by
  rw [readMountKind]
  cases hv : valueOf? lookup "MOUNT_TYPE" with
  | none =>
    have hunset := valueOf?_eq_none_iff.mp hv
    exact .inl ⟨.bind, rfl, fun value hset => absurd hunset hset.not_isUnset, .inr ⟨hunset, rfl⟩⟩
  | some value =>
    have hset := valueOf?_eq_some_iff.mp hv
    dsimp only
    cases hk : Container.MountKind.ofName? value with
    | none =>
      refine .inr ⟨_, rfl, .kind hset fun kind hkind => ?_⟩
      rw [ofName?_eq_some_iff.mpr hkind] at hk
      cases hk
    | some kind =>
      have hnames := ofName?_eq_some_iff.mp hk
      refine .inl ⟨kind, rfl, fun v hset' => ?_, .inl ⟨value, hset, hnames⟩⟩
      exact ⟨kind, hset.unique hset' ▸ hnames⟩

theorem error_of_bind {ε α β : Type} {x : Except ε α} {f : α → Except ε β} {e : ε}
    (h : (x >>= f) = .error e) : x = .error e ∨ ∃ a, x = .ok a ∧ f a = .error e := by
  cases x with
  | error d =>
    cases h
    exact .inl rfl
  | ok a => exact .inr ⟨a, rfl, h⟩

/-- **Settings that are read are those that the variables make**, and none of the variables is wrong. -/
theorem Made.values (h : Made lookup temp s) :
    Values lookup temp s ∧ ∀ x ∈ checks, Fine lookup x.1 x.2 := by
  have hurl := valueOf?_eq_some_iff.mp h.databaseUrl
  obtain ⟨kind, hkind, hfine, hnames⟩ : ∃ kind, readMountKind lookup = .ok kind ∧
      Fine lookup "MOUNT_TYPE" .mountKind ∧ ((∃ value, IsSet lookup "MOUNT_TYPE" value ∧ Names value kind) ∨
        IsUnset lookup "MOUNT_TYPE" ∧ kind = .bind) := by
    rcases readMountKind_cases lookup with hk | ⟨e, herr, -⟩
    · exact hk
    · cases h.mountKind.symm.trans herr
  cases h.mountKind.symm.trans hkind
  constructor
  · exact
      { host := h.host ▸ textOf_getD _
        port := numberOf_of_number h.port
        databaseUrl := hurl
        stagingRoot := h.stagingRoot ▸ textOf_getD _
        mountSource := h.mountSource ▸ textOf_getD _
        mountTarget := h.mountTarget ▸ textOf_getD _
        mountKind := hnames
        sharedMountSource := fun v => h.sharedMountSource ▸ valueOf?_eq_some_iff
        sharedMountTarget := h.sharedMountTarget ▸ textOf_getD _
        slots := numberOf_of_number h.slots
        activityTimeout := numberOf_of_number h.activityTimeout
        dispatchTtl := numberOf_of_number h.dispatchTtl
        stopGrace := numberOf_of_number h.stopGrace
        requestTimeout := numberOf_of_number h.requestTimeout
        shutdownTimeout := numberOf_of_number h.shutdownTimeout }
  · simp only [checks, List.forall_mem_cons, List.not_mem_nil, false_implies, implies_true, and_true]
    exact ⟨fine_of_number h.port (Nat.zero_le _), ⟨_, hurl⟩, hfine,
      fine_of_number h.slots (Nat.pos_of_ne_zero h.some), fine_of_number h.activityTimeout (Nat.zero_le _),
      fine_of_number h.dispatchTtl (Nat.zero_le _), fine_of_number h.stopGrace (Nat.zero_le _),
      fine_of_number h.requestTimeout (Nat.zero_le _), fine_of_number h.shutdownTimeout (Nat.zero_le _)⟩

theorem firstWrong_of_number {bits default : Nat} {rest : List (String × Check)}
    {f : Nat → Except SettingsError Settings}
    (h : (number lookup name (Nat.pow 2 bits) default >>= f) = .error e)
    (hrest : ∀ n, f n = .error e → FirstWrong lookup rest e) :
    FirstWrong lookup ((name, .number 0 bits) :: rest) e := by
  rcases error_of_bind h with h | ⟨n, hn, h⟩
  · exact .here (wrong_of_number h 0)
  · exact .later (fine_of_number hn (Nat.zero_le _)) (hrest n h)

/-- **The fault that is reported is the first one.** -/
theorem firstWrong_of_read (h : read lookup temp = .error e) : FirstWrong lookup checks e := by
  unfold read at h
  refine firstWrong_of_number h fun _ h => ?_
  dsimp only at h
  cases hurl : valueOf? lookup "DATABASE_URL" with
  | none =>
    rw [hurl] at h
    cases h
    exact .here (.missing (valueOf?_eq_none_iff.mp hurl))
  | some url =>
    rw [hurl] at h
    refine .later ⟨url, valueOf?_eq_some_iff.mp hurl⟩ ?_
    obtain ⟨u, -, h⟩ := (error_of_bind h).resolve_left nofun
    rcases error_of_bind h with h | ⟨kind, hkind, h⟩
    · rcases readMountKind_cases lookup with ⟨k, hk, -⟩ | ⟨e', herr, hw⟩
      · cases h.symm.trans hk
      · cases h.symm.trans herr
        exact .here hw
    have hfine : Fine lookup "MOUNT_TYPE" .mountKind := by
      rcases readMountKind_cases lookup with ⟨k, -, hk, -⟩ | ⟨e', herr, -⟩
      · exact hk
      · cases hkind.symm.trans herr
    refine .later hfine ?_
    rcases error_of_bind h with h | ⟨slots, hslots, h⟩
    · exact .here (wrong_of_number h 1)
    split at h
    · rename_i hzero
      subst hzero
      cases h
      exact .here (wrong_of_zero hslots (by decide))
    rename_i hsome
    refine .later (fine_of_number hslots (Nat.pos_of_ne_zero hsome)) ?_
    refine firstWrong_of_number h fun _ h => ?_
    refine firstWrong_of_number h fun _ h => ?_
    refine firstWrong_of_number h fun _ h => ?_
    refine firstWrong_of_number h fun _ h => ?_
    refine firstWrong_of_number h fun _ h => ?_
    cases h

/-- Variables make one setting of each kind. -/
theorem Values.unique {s' : Settings} (h : Values lookup temp s) (h' : Values lookup temp s') : s = s' := by
  have hroot := h.stagingRoot.unique h'.stagingRoot
  have hsource := h'.mountSource
  have htarget := h'.mountTarget
  rw [← hroot] at hsource htarget
  have hkind : s.mountKind = s'.mountKind := by
    rcases h.mountKind with ⟨v, hv, hk⟩ | ⟨hu, hk⟩ <;>
      rcases h'.mountKind with ⟨w, hw, hk'⟩ | ⟨hu', hk'⟩
    · rw [hv.unique hw] at hk
      exact hk.unique hk'
    · exact absurd hu' hv.not_isUnset
    · exact absurd hu hw.not_isUnset
    · rw [hk, hk']
  have hshared : s.sharedMountSource = s'.sharedMountSource :=
    Option.ext fun v => (h.sharedMountSource v).trans (h'.sharedMountSource v).symm
  have hhost := h.host.unique h'.host
  have hport := h.port.unique h'.port
  have hurl := h.databaseUrl.unique h'.databaseUrl
  have hsource := h.mountSource.unique hsource
  have htarget := h.mountTarget.unique htarget
  have hsharedTarget := h.sharedMountTarget.unique h'.sharedMountTarget
  have hslots := h.slots.unique h'.slots
  have hactivity := h.activityTimeout.unique h'.activityTimeout
  have httl := h.dispatchTtl.unique h'.dispatchTtl
  have hgrace := h.stopGrace.unique h'.stopGrace
  have hrequest := h.requestTimeout.unique h'.requestTimeout
  have hshutdown := h.shutdownTimeout.unique h'.shutdownTimeout
  cases s
  cases s'
  simp only [Settings.mk.injEq]
  exact ⟨hhost, hport, hurl, hroot, hsource, htarget, hkind, hshared, hsharedTarget, hactivity, hslots, httl,
    hgrace, hrequest, hshutdown⟩

end Reading

/-! ### Which variables count -/

def lookedUp : List String :=
  [ "HOST", "PORT", "DATABASE_URL", "STAGING_ROOT", "MOUNT_SOURCE", "MOUNT_TARGET", "MOUNT_TYPE",
    "SHARED_MOUNT_SOURCE", "SHARED_MOUNT_TARGET", "ACTIVITY_TIMEOUT_SECS", "MAX_CONCURRENT_ACTIVITIES",
    "DISPATCH_TTL_SECS", "STOP_GRACE_SECS", "REQUEST_TIMEOUT_SECS", "SHUTDOWN_TIMEOUT_SECS" ]

def without (lookup : String → Option String) (name x : String) : Option String :=
  if x = name then none else lookup x

/-- **Settings are read off the values of the fifteen variables** that are not blank. -/
theorem read_congr {lookup lookup' : String → Option String} (temp : String)
    (h : ∀ name ∈ lookedUp, ∀ value, IsSet lookup name value ↔ IsSet lookup' name value) :
    read lookup temp = read lookup' temp := by
  have hvalue : ∀ name ∈ lookedUp, valueOf? lookup name = valueOf? lookup' name := by
    intro name hname
    refine Option.ext fun value => ?_
    rw [valueOf?_eq_some_iff, valueOf?_eq_some_iff]
    exact h name hname value
  simp only [lookedUp, List.forall_mem_cons] at hvalue
  obtain ⟨h1, h2, h3, h4, h5, h6, h7, h8, h9, h10, h11, h12, h13, h14, h15, -⟩ := hvalue
  simp only [read, number, readMountKind, h1, h2, h3, h4, h5, h6, h7, h8, h9, h10, h11, h12, h13, h14, h15]

theorem isSet_assign_blank {lookup : String → Option String} {name value : String}
    (hblank : ∀ c ∈ value.toList, Text.isBlank c = true) (x v : String) :
    IsSet (assign lookup name value) x v ↔ IsSet (without lookup name) x v := by
  unfold IsSet assign without
  by_cases hx : x = name
  · rw [if_pos hx, if_pos hx]
    refine ⟨?_, fun h => (by cases h.1)⟩
    rintro ⟨⟨⟩, c, hc, hfree⟩
    rw [hblank c hc] at hfree
    cases hfree
  · rw [if_neg hx, if_neg hx]

/-! ### The wording -/

/-- An error is about a variable: it says that the variable must be set, which it is not, or it quotes a
value as it stands, or a zero for a value that spells zero. -/
def Reports (lookup : String → Option String) (name : String) (e : SettingsError) : Prop :=
  (IsUnset lookup name ∧ e.message = name ++ " must be set") ∨
    ∃ quoted why, e.message = name ++ " has invalid value '" ++ quoted ++ "': " ++ why ∧
      (IsSet lookup name quoted ∨ quoted = "0" ∧ ∃ value, IsSet lookup name value ∧ Numeral value 0)

/-- What is wrong with a variable is reported of that variable. -/
theorem Wrong.reports {lookup : String → Option String} {name : String} {check : Check} {e : SettingsError}
    (hc : (name, check) ∈ checks) (h : Wrong lookup name check e) : Reports lookup name e := by
  cases h with
  | missing h => exact .inl ⟨h, rfl⟩
  | kind hv _ =>
    have hname : name = "MOUNT_TYPE" := by simpa [checks] using hc
    subst hname
    exact .inr ⟨_, _, rfl, .inl hv⟩
  | tooLarge hv _ => exact .inr ⟨_, _, rfl, .inl hv⟩
  | noNumber hv _ _ => exact .inr ⟨_, _, rfl, .inl hv⟩
  | zero hv h =>
    have hname : name = "MAX_CONCURRENT_ACTIVITIES" := by
      simp [checks] at hc
      exact hc.1
    subst hname
    exact .inr ⟨_, _, rfl, .inr ⟨rfl, _, hv, h⟩⟩

/-! ### Variables decide -/

/-- What becomes of variables, where `temp` is the directory for temporary files. -/
structure Decided (lookup : String → Option String) (temp : String) : Prop where
  /-- Settings are read exactly if each of the nine variables is as it has to be. -/
  accepted : (∃ s, read lookup temp = .ok s) ↔ ∀ x ∈ checks, Fine lookup x.1 x.2
  /-- Then they are those that the variables make, and no others. -/
  settings : ∀ s, read lookup temp = .ok s ↔
    (∀ x ∈ checks, Fine lookup x.1 x.2) ∧ Values lookup temp s
  /-- Otherwise the first that is wrong is reported. -/
  refused : ∀ e, read lookup temp = .error e ↔ FirstWrong lookup checks e
  /-- The report names it and quotes its value. -/
  reported : ∀ name check e, (name, check) ∈ checks → Wrong lookup name check e → Reports lookup name e
  /-- A blank value is as good as none. -/
  blank : ∀ name value, (∀ c ∈ value.toList, Text.isBlank c = true) →
    read (assign lookup name value) temp = read (without lookup name) temp
  /-- What other variables hold makes no difference, -/
  others : ∀ lookup', (∀ name ∈ lookedUp, ∀ value, IsSet lookup name value ↔ IsSet lookup' name value) →
    read lookup' temp = read lookup temp
  /-- nor does the directory for temporary files where the staging root is set. -/
  elsewhere : ∀ temp' root, IsSet lookup "STAGING_ROOT" root → read lookup temp' = read lookup temp

/-- **How settings are read** is decided by the fifteen variables, for any values that these may have. -/
theorem read_decided (lookup : String → Option String) (temp : String) : Decided lookup temp := by
  have hsound : ∀ s, read lookup temp = .ok s →
      Values lookup temp s ∧ ∀ x ∈ checks, Fine lookup x.1 x.2 :=
    fun s h => (made_of_read h).values
  have hread : (∀ x ∈ checks, Fine lookup x.1 x.2) → ∃ s, read lookup temp = .ok s := by
    intro hfine
    cases h : read lookup temp with
    | ok s => exact ⟨s, rfl⟩
    | error e => exact absurd hfine (firstWrong_of_read h).not_fine
  refine
    { accepted := ⟨fun ⟨s, h⟩ => (hsound s h).2, hread⟩
      settings := fun s => ⟨fun h => (hsound s h).symm, fun ⟨hfine, hvalues⟩ => ?_⟩
      refused := fun e => ⟨firstWrong_of_read, fun hfirst => ?_⟩
      reported := fun _ _ _ hc h => h.reports hc
      blank := fun name value hblank => read_congr temp fun x _ v => isSet_assign_blank hblank x v
      others := fun lookup' h => (read_congr temp h).symm
      elsewhere := fun temp' root hroot => ?_ }
  · obtain ⟨s', h⟩ := hread hfine
    rw [h, (hsound s' h).1.unique hvalues]
  · cases h : read lookup temp with
    | ok s => exact absurd (hsound s h).2 hfirst.not_fine
    | error e' => rw [(firstWrong_of_read h).unique hfirst]
  · simp only [read, valueOf?_eq_some_iff.mpr hroot, Option.getD_some]

/-- Of two variables that are wrong, the port is looked at first, and quoted with its blanks. -/
example : read (fun name => [("MOUNT_TYPE", " bind"), ("PORT", " 8o90 ")].lookup name) "/tmp" =
    .error (.number "PORT" " 8o90 " .invalidDigit) := by
  decide

end Settings
end RunDispatch
