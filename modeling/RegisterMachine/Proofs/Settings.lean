import RegisterMachine.CommandLine.Request
import RegisterMachine.Proofs.Effects

/-!
# What a command line sets

The request for a run is read from the tokens of a command line by a draft that holds back what may
not be complete.  What comes of it is simple: every token, or pair of an option and its value, is a
setting, and the run is the one that these settings ask for.  Whatever is not set is standard.

## Main definitions

* `Setting` and `settings` : what tokens set, one by one;
* `Invocation.SetBy` : the run that settings ask for;
* `Draft.Completes` : the same for what is left to set when a part has been entered.

## Main statements

* `Draft.Completes.of_give`, `Draft.Completes.of_giveSize` and `Draft.Completes.of_settle` : what
  was left to set before one more part was entered;
* `Draft.completes_of_read` : what was left to set before the remaining tokens were read;
* `Invocation.setBy_settings` : a run that was asked for is what the command line sets;
* `Invocation.SetBy.eq_of_mem_iff` : settings leave nothing open but the banner.
-/

namespace RegisterMachine

namespace CommandLine

/-- Something that a command line sets. -/
inductive Setting where
  /-- The size of a resource, as it was written. -/
  | size (resource : Resource) (value : String)
  /-- An option that takes no value. -/
  | switch (option : Switch)
  /-- The path of the image. -/
  | path (text : String)
  deriving DecidableEq, Repr

/-- What tokens set.  The value of an option may be a token of its own.  An option that misses its
value sets nothing, and nor does a token that is refused. -/
def settings : List Token → List Setting
  | [] => []
  | .option (.size r) :: .plain value :: tokens => .size r value :: settings tokens
  | .option (.size _) :: tokens => settings tokens
  | .option s :: tokens => .switch s :: settings tokens
  | .sized r value :: tokens => .size r value :: settings tokens
  | .plain text :: tokens => .path text :: settings tokens
  | .path text :: tokens => .path text :: settings tokens
  | .refused _ :: tokens => settings tokens

/-- The run is the one that these settings ask for. -/
structure Invocation.SetBy (inv : Invocation) (given : List Setting) : Prop where
  /-- Its path is the only one given. -/
  path : ∀ text, .path text ∈ given ↔ text = inv.path
  /-- A size that is given is the one of its resource. -/
  size : ∀ r value, .size r value ∈ given → parseSize value = .ok (inv.config.size r)
  /-- A size that is not given is standard. -/
  standard : ∀ r, (∀ value, .size r value ∉ given) → inv.config.size r = r.standardSize
  /-- Unknown opcodes are faults if the strict policy is given, and are passed over otherwise. -/
  policy : inv.config.policy = if .switch .strict ∈ given then .strict else .lenient
  /-- The banner is left out if this is given. -/
  quiet : inv.quiet = true ↔ .switch .quiet ∈ given

namespace Draft

/-- The settings that are pending. -/
def pendingSettings (d : Draft) : List Setting :=
  match d.pending with
  | .size r value => [.size r value]
  | .path text => [.path text]
  | _ => []

/-- The settings of a draft, pending ones included, and of the tokens behind it. -/
def settingsBefore (d : Draft) (tokens : List Token) : List Setting :=
  match d.pending with
  | .option r => settings (.option (.size r) :: tokens)
  | _ => d.pendingSettings ++ settings tokens

/-- A path that is pending is the only one. -/
def PathOnce (d : Draft) : Prop :=
  ∀ text, d.pending = .path text → d.path? = none

/-- The run is the one that the settled part of a draft and these further settings ask for; no size
is given twice. -/
structure Completes (d : Draft) (given : List Setting) (inv : Invocation) : Prop where
  /-- Its path is the only one given. -/
  path : ∀ text, d.path? = some text ∨ .path text ∈ given ↔ text = inv.path
  /-- A size that is given is the one of its resource. -/
  size : ∀ r value, .size r value ∈ given → parseSize value = .ok (inv.config.size r)
  /-- A size that is settled is not given again. -/
  once : ∀ r value, .size r value ∈ given → .size r ∉ d.given
  /-- A size that is not given is the one of the draft. -/
  kept : ∀ r, (∀ value, .size r value ∉ given) → inv.config.size r = d.config.size r
  /-- The policy is strict if this is given. -/
  policy : inv.config.policy =
    if .strict ∈ d.given ∨ .switch .strict ∈ given then .strict else d.config.policy
  /-- The banner is left out if this is given. -/
  quiet : inv.quiet = true ↔ .quiet ∈ d.given ∨ .switch .quiet ∈ given

variable {d d' : Draft} {inv : Invocation} {given : List Setting} {tokens : List Token}
  {r : Resource} {s : Switch} {value text : String}

/-! ### Entering a setting -/

theorem give_eq_ok_iff :
    d.give s = .ok d' ↔ s ∉ d.given ∧ d' = { d with given := s :: d.given } := by
  unfold give
  split
  · rename_i hs
    simp [hs]
  · rename_i hs
    simp [hs, eq_comm]

theorem giveSize_eq_ok_iff :
    d.giveSize r value = .ok d' ↔
      ∃ n, .size r ∉ d.given ∧ parseSize value = .ok n ∧
        d' = { d with given := .size r :: d.given, config := d.config.setSize r n } := by
  simp only [giveSize, Machine.bind_eq_ok_iff, give_eq_ok_iff]
  cases hvalue : parseSize value with
  | error cause => simp
  | ok n =>
    constructor
    · rintro ⟨_, ⟨hr, rfl⟩, ⟨⟩⟩
      exact ⟨n, hr, rfl, rfl⟩
    · rintro ⟨_, hr, ⟨⟩, rfl⟩
      exact ⟨_, ⟨hr, rfl⟩, rfl⟩

theorem settle_eq_ok_iff :
    d.settle = .ok d' ↔
      d.pending = .nothing ∧ d' = d ∨
      (∃ r value, d.pending = .size r value ∧
        { d with pending := .nothing }.giveSize r value = .ok d') ∨
      ∃ text, d.pending = .path text ∧ text ≠ "" ∧
        d' = { d with pending := .nothing, path? := some text } := by
  unfold settle
  cases hpending : d.pending with
  | nothing => simp [eq_comm]
  | option r => simp
  | size r value => simp [and_assoc]
  | path text =>
    by_cases htext : text = ""
    · simp [htext]
    · simp [htext, eq_comm]

theorem pending_eq_of_settle (h : d.settle = .ok d') : d'.pending = .nothing := by
  rcases settle_eq_ok_iff.1 h with ⟨hpending, rfl⟩ | ⟨r, value, -, h⟩ | ⟨text, -, -, rfl⟩
  · exact hpending
  · obtain ⟨n, -, -, rfl⟩ := giveSize_eq_ok_iff.1 h
    rfl
  · rfl

theorem path?_eq_of_settle (h : d.settle = .ok d') (hpath : d.hasPath = false) :
    d'.path? = none := by
  have hnone : ∀ {p}, d.pending = p → (∀ text, p ≠ .path text) → d.path? = none := by
    intro p hp hne
    subst hp
    unfold hasPath at hpath
    split at hpath
    · rename_i text htext
      exact absurd htext (hne text)
    · simpa using hpath
  rcases settle_eq_ok_iff.1 h with ⟨hpending, rfl⟩ | ⟨r, value, hpending, h⟩ | ⟨text, hpending, -⟩
  · exact hnone hpending nofun
  · obtain ⟨n, -, -, rfl⟩ := giveSize_eq_ok_iff.1 h
    exact hnone hpending nofun
  · simp [hasPath, hpending] at hpath

/-! ### What is left to be given -/

theorem Completes.of_pending {p : Pending} (h : { d with pending := p }.Completes given inv) :
    d.Completes given inv :=
  ⟨h.path, h.size, h.once, h.kept, h.policy, h.quiet⟩

theorem Completes.of_give (h : d'.Completes given inv) (hgive : d.give s = .ok d') :
    d.Completes (.switch s :: given) inv := by
  obtain ⟨-, rfl⟩ := give_eq_ok_iff.1 hgive
  constructor
  case path => simpa using h.path
  case size => simpa using h.size
  case once =>
    intro r value hvalue hmem
    exact h.once r value (by simpa using hvalue) (List.mem_cons_of_mem _ hmem)
  case kept => simpa using h.kept
  case policy =>
    rw [h.policy]
    simp [or_assoc, or_left_comm, eq_comm]
  case quiet =>
    rw [h.quiet]
    simp [or_assoc, or_left_comm, eq_comm]

theorem Completes.of_giveSize (h : d'.Completes given inv)
    (hgive : d.giveSize r value = .ok d') : d.Completes (.size r value :: given) inv := by
  obtain ⟨n, hr, hvalue, rfl⟩ := giveSize_eq_ok_iff.1 hgive
  -- the size is not given again, so the one that is entered is kept
  have hnot : ∀ value, Setting.size r value ∉ given := by
    intro value hmem
    exact h.once r value hmem (by simp)
  constructor
  case path => simpa using h.path
  case size =>
    intro r' value' hmem
    rcases List.mem_cons.1 hmem with heq | hmem
    · cases heq
      rw [hvalue, h.kept r hnot, Config.size_setSize, if_pos rfl]
    · exact h.size r' value' hmem
  case once =>
    intro r' value' hmem
    rcases List.mem_cons.1 hmem with heq | hmem
    · cases heq
      exact hr
    · exact fun hgiven => h.once r' value' hmem (List.mem_cons_of_mem _ hgiven)
  case kept =>
    intro r' hr'
    have hne : r' ≠ r := by
      rintro rfl
      exact hr' value (by simp)
    rw [h.kept r' fun value' hmem => hr' value' (List.mem_cons_of_mem _ hmem),
      Config.size_setSize, if_neg hne]
  case policy =>
    rw [h.policy]
    simp
  case quiet =>
    rw [h.quiet]
    simp

theorem Completes.of_settle (h : d'.Completes given inv) (hpath : d.PathOnce)
    (hsettle : d.settle = .ok d') : d.Completes (d.pendingSettings ++ given) inv := by
  unfold pendingSettings
  rcases settle_eq_ok_iff.1 hsettle with
    ⟨hpending, rfl⟩ | ⟨r, value, hpending, hgive⟩ | ⟨text, hpending, -, rfl⟩
  · simpa [hpending] using h
  · simpa [hpending] using (h.of_giveSize hgive).of_pending
  · rw [hpending]
    constructor
    case path => simpa [hpath text hpending, eq_comm] using h.path
    case size => simpa using h.size
    case once => simpa using h.once
    case kept => simpa using h.kept
    case policy => simpa using h.policy
    case quiet => simpa using h.quiet

theorem completes_of_finish (hpath : d.PathOnce) (h : d.finish = .ok (.run inv)) :
    d.Completes d.pendingSettings inv := by
  simp only [finish, Machine.bind_eq_ok_iff] at h
  obtain ⟨d', hsettle, h⟩ := h
  split at h
  · rename_i path hd'
    obtain rfl := Request.run.inj (Except.ok.inj h)
    -- nothing is left to be given when all is settled
    have hcompletes : d'.Completes [] ⟨path, d'.finalConfig, .quiet ∈ d'.given⟩ := by
      constructor
      case path => simp [hd', eq_comm]
      case size => simp
      case once => simp
      case kept =>
        intro r _
        unfold finalConfig
        split <;> cases r <;> rfl
      case policy =>
        unfold finalConfig
        split <;> simp_all
      case quiet => simp
    simpa using hcompletes.of_settle hpath hsettle
  · cases h

/-! ### Reading -/

theorem settings_option (hs : ∀ r, s ≠ .size r) :
    settings (.option s :: tokens) = .switch s :: settings tokens := by
  cases s with
  | size r => exact absurd rfl (hs r)
  | strict | quiet | help | version => rfl

theorem settingsBefore_of_settle (h : d.settle = .ok d') :
    d.settingsBefore tokens = d.pendingSettings ++ settings tokens := by
  unfold settingsBefore
  split
  · rename_i r hpending
    simp [settle, hpending] at h
  · rfl

theorem pathOnce_of_pending_eq (h : d.pending = .nothing) : d.PathOnce := by
  simp [PathOnce, h]

theorem settingsBefore_of_pending_eq (h : d.pending = .nothing) :
    d.settingsBefore tokens = settings tokens := by
  simp [settingsBefore, pendingSettings, h]

theorem completes_of_readSwitch (hread : d.readSwitch s = .ok d') (hpath : d.PathOnce)
    (h : d'.PathOnce → d'.Completes (d'.settingsBefore tokens) inv) :
    d.Completes (d.settingsBefore (.option s :: tokens)) inv := by
  simp only [readSwitch, Machine.bind_eq_ok_iff] at hread
  obtain ⟨d₁, hsettle, hread⟩ := hread
  rw [settingsBefore_of_settle hsettle]
  refine Completes.of_settle ?_ hpath hsettle
  split at hread
  · cases hread
    exact (h nofun).of_pending
  · rename_i hne
    rw [settings_option hne]
    have hsettled := pending_eq_of_settle hsettle
    have hpending : d'.pending = .nothing := by
      obtain ⟨-, rfl⟩ := give_eq_ok_iff.1 hread
      exact hsettled
    rw [settingsBefore_of_pending_eq hpending] at h
    exact (h (pathOnce_of_pending_eq hpending)).of_give hread

theorem completes_of_readSized {d₁ : Draft} (hsettle : d.settle = .ok d₁)
    (hgive : d₁.giveSize r value = .ok d') (hpath : d.PathOnce)
    (h : d'.PathOnce → d'.Completes (d'.settingsBefore tokens) inv) :
    d.Completes (d.settingsBefore (.sized r value :: tokens)) inv := by
  rw [settingsBefore_of_settle hsettle]
  have hsettled := pending_eq_of_settle hsettle
  have hpending : d'.pending = .nothing := by
    obtain ⟨n, -, -, rfl⟩ := giveSize_eq_ok_iff.1 hgive
    exact hsettled
  rw [settingsBefore_of_pending_eq hpending] at h
  exact ((h (pathOnce_of_pending_eq hpending)).of_giveSize hgive).of_settle hpath hsettle

theorem completes_of_readPath (hread : d.readPath text = .ok d') (hpath : d.PathOnce)
    (h : d'.PathOnce → d'.Completes (d'.settingsBefore tokens) inv) :
    d.Completes (d.settingsBefore (.path text :: tokens)) inv := by
  unfold readPath at hread
  split at hread
  · cases hread
  · rename_i hhas
    obtain ⟨d₁, hsettle, hread⟩ := Machine.bind_eq_ok_iff.1 hread
    cases hread
    have hnone : d₁.path? = none := path?_eq_of_settle hsettle (by simpa using hhas)
    rw [settingsBefore_of_settle hsettle]
    exact (h fun _ _ => hnone).of_pending.of_settle hpath hsettle

/-- What is left to read tells what is left to be given. -/
theorem completes_of_read (hpath : d.PathOnce) (h : d.read tokens = .ok (.run inv)) :
    d.Completes (d.settingsBefore tokens) inv := by
  -- along the reader itself; the path is pending or settled, never both
  fun_induction Draft.read d tokens with
  | case1 d =>
    have hfinish := completes_of_finish hpath h
    obtain ⟨d', hsettle, -⟩ := Machine.bind_eq_ok_iff.1 h
    simpa [settingsBefore_of_settle hsettle, settings] using hfinish
  | case2 d | case3 d =>
    -- a request for the help text or the version is no run
    cases hsettle : d.settle with
    | error e => simp [hsettle, Except.map] at h
    | ok d' => simp [hsettle, Except.map] at h
  | case4 d s tokens _ _ ih =>
    obtain ⟨d', hread, h⟩ := Machine.bind_eq_ok_iff.1 h
    exact completes_of_readSwitch hread hpath fun hpath' => ih d' hpath' h
  | case5 d r value tokens ih =>
    obtain ⟨d₁, hsettle, h⟩ := Machine.bind_eq_ok_iff.1 h
    obtain ⟨d', hgive, h⟩ := Machine.bind_eq_ok_iff.1 h
    exact completes_of_readSized hsettle hgive hpath fun hpath' => ih d' hpath' h
  | case6 d text tokens r hpending ih =>
    -- the value of an option
    have hsize := (ih nofun h).of_pending
    simpa [settingsBefore, pendingSettings, hpending, settings] using hsize
  | case7 d text tokens hpending ih =>
    obtain ⟨d', hread, h⟩ := Machine.bind_eq_ok_iff.1 h
    have hplain := completes_of_readPath hread hpath fun hpath' => ih d' hpath' h
    simpa [settingsBefore, settings] using hplain
  | case8 d text tokens ih =>
    obtain ⟨d', hread, h⟩ := Machine.bind_eq_ok_iff.1 h
    exact completes_of_readPath hread hpath fun hpath' => ih d' hpath' h
  | case9 => cases h

end Draft

/-- **A run that was asked for is what the command line sets.** -/
theorem Invocation.setBy_settings {arguments : List String} {inv : Invocation}
    (h : Request.parse arguments = .ok (.run inv)) :
    inv.SetBy (settings (tokenize arguments)) := by
  have hcompletes : ({} : Draft).Completes (settings (tokenize arguments)) inv :=
    Draft.completes_of_read (fun _ _ => rfl) h
  constructor
  case path => simpa using hcompletes.path
  case size => exact hcompletes.size
  case standard =>
    intro r hr
    rw [hcompletes.kept r hr]
    cases r <;> rfl
  case policy => simpa using hcompletes.policy
  case quiet => simpa using hcompletes.quiet

/-- The value of an option may be an argument of its own, and a path may stand between options. -/
example :
    settings (tokenize ["-q", "nop.rom", "--stack", "05", "--memory=64"]) =
      [.switch .quiet, .path "nop.rom", .size .stack "05", .size .memory "64"] := by
  rfl

/-- Two runs have one path and one configuration if their settings differ in the banner alone. -/
theorem Invocation.SetBy.eq_of_mem_iff {inv inv' : Invocation} {given given' : List Setting}
    (h : inv.SetBy given) (h' : inv'.SetBy given')
    (hgiven : ∀ s, s ≠ .switch .quiet → (s ∈ given' ↔ s ∈ given)) :
    inv'.path = inv.path ∧ inv'.config = inv.config := by
  have hpath : inv'.path = inv.path :=
    (h.path inv'.path).1 ((hgiven _ (by simp)).1 ((h'.path inv'.path).2 rfl))
  have hsize (r : Resource) : inv'.config.size r = inv.config.size r := by
    by_cases hr : ∃ value, .size r value ∈ given
    · obtain ⟨value, hvalue⟩ := hr
      have hparse := h.size r value hvalue
      rw [h'.size r value ((hgiven _ (by simp)).2 hvalue)] at hparse
      exact Except.ok.inj hparse
    · have hnone : ∀ value, .size r value ∉ given := not_exists.1 hr
      have hnone' : ∀ value, .size r value ∉ given' := fun value hvalue =>
        hnone value ((hgiven _ (by simp)).1 hvalue)
      rw [h.standard r hnone, h'.standard r hnone']
  have hpolicy : inv'.config.policy = inv.config.policy := by
    simp only [h.policy, h'.policy, hgiven (.switch .strict) (by decide)]
  exact ⟨hpath, Config.eq_of_size_eq hsize hpolicy⟩

end CommandLine

end RegisterMachine
