import RegisterMachine.CommandLine.Session
import RegisterMachine.Proofs.Executions
import RegisterMachine.Proofs.Faults
import RegisterMachine.Proofs.Settings

/-!
# The stages of a session

The program is the machine behind a command line.  The run of an image goes through four stages:
the file is read, the image is checked, the machine is built, and the program is run.  The first of
them that fails decides about the exit code and about what is printed; nothing but the banner is
printed before.

## Main definitions

* `Invocation.Prepares` : the stages before the run succeed;
* `Invocation.Ends` : how a run ends, by the first stage that fails.

## Main statements

* `Invocation.ends_iff` : every run ends in exactly one way;
* `Invocation.pc?_of_run_eq_faulted` : the position of a fault is the one that its cause names;
* `respond_run_stages` : a session that runs an image is these stages on the configuration that the
  command line sets, and the banner is the only thing that is left out of a quiet one.
-/

namespace RegisterMachine

theorem Cancellation.reachesHalted_after (cancel : Cancellation) (k : Nat) :
    (cancel.after k).reachesHalted = cancel.reachesHalted := by
  induction k generalizing cancel with
  | zero => rfl
  | succ k ih =>
    rw [after, ih]
    cases cancel <;> rfl

namespace CommandLine

variable {inv : Invocation} {content : Except ReadError ByteArray} {interrupt : Cancellation}
  {rom : Rom} {m m' : Machine} {cause : Error} {executed : List Instruction} {outcome : Outcome}

theorem withCause_append (before after cause : String) :
    withCause (before ++ after) cause =
      "Error: " ++ before ++ after ++ "\n\nCaused by:\n    " ++ cause ++ "\n" := by
  rw [withCause, ← String.append_assoc]

namespace Invocation

/-- The file is read, its bytes are an image for this configuration, and the machine is built. -/
structure Prepares (inv : Invocation) (content : Except ReadError ByteArray) (rom : Rom)
    (m : Machine) : Prop where
  /-- The file can be read, and its bytes are an image. -/
  loads : ∃ bytes, content = .ok bytes ∧ Rom.ofBytes bytes inv.config = .ok rom
  /-- The machine can be built. -/
  builds : Machine.ofConfig inv.config = .ok m

/-- The run of an image, with this content of its file and with this interrupt, has this outcome.
One case for every stage that can be the first to fail, and for a run that ends or waits. -/
inductive Ends (inv : Invocation) (content : Except ReadError ByteArray)
    (interrupt : Cancellation) : Outcome → Prop
  /-- The file cannot be read. -/
  | unreadable {cause : ReadError} :
      content = .error cause →
      Ends inv content interrupt
        { code? := some 1, stdout := inv.banner,
          stderr := "Error: could not read " ++ inv.path ++ "\n\nCaused by:\n    " ++
            cause.message ++ "\n" }
  /-- The image is refused, whether or not the machine could be built. -/
  | unloadable {bytes : ByteArray} {cause : Error} :
      content = .ok bytes → Rom.ofBytes bytes inv.config = .error cause →
      Ends inv content interrupt
        { code? := some 1, stdout := inv.banner,
          stderr := "Error: could not load " ++ inv.path ++ "\n\nCaused by:\n    " ++
            cause.message ++ "\n" }
  /-- The machine cannot be built, whatever the program would do. -/
  | misconfigured {bytes : ByteArray} {rom : Rom} {cause : Error} :
      content = .ok bytes → Rom.ofBytes bytes inv.config = .ok rom →
      Machine.ofConfig inv.config = .error cause →
      Ends inv content interrupt
        { code? := some 1, stdout := inv.banner, stderr := "Error: " ++ cause.message ++ "\n" }
  /-- An instruction faults behind those that were executed, of four words each. -/
  | faulted {rom : Rom} {m m' : Machine} {cause : Error} {executed : List Instruction} :
      inv.Prepares content rom m → m.run rom.words interrupt = (.faulted cause, m') →
      m.ExecutesAll rom.words executed m' →
      Ends inv content interrupt
        { code? := some 1, stdout := inv.banner,
          stderr := "Error: machine faulted at pc " ++ toString (4 * executed.length) ++
            "\n\nCaused by:\n    " ++ cause.message ++ "\n" }
  /-- The program ends, or the interrupt ends the run. -/
  | exited {rom : Rom} {m m' : Machine} {exit : Exit} :
      inv.Prepares content rom m → m.run rom.words interrupt = (.exited exit, m') →
      Ends inv content interrupt
        { code? := some 0, stdout := inv.banner ++ report exit m'.status }
  /-- The machine has halted, and no interrupt comes. -/
  | waiting {rom : Rom} {m m' : Machine} :
      inv.Prepares content rom m → m.run rom.words interrupt = (.waiting, m') →
      Ends inv content interrupt { code? := none, stdout := inv.banner }

/-! ### The first stage that fails -/

theorem load_of_content (bytes : ByteArray) :
    inv.load (.ok bytes) =
      ((Rom.ofBytes bytes inv.config).mapError (.unloadable inv.path)).bind fun rom =>
        ((Machine.ofConfig inv.config).mapError .misconfigured).bind fun m => .ok (m, rom) :=
  rfl

theorem execute_of_load_eq_error {failure : Failure} (h : inv.load content = .error failure) :
    inv.execute content interrupt = inv.fail failure := by
  rw [execute, h]

theorem Prepares.execute_eq (h : inv.Prepares content rom m) :
    inv.execute content interrupt =
      match m.run rom.words interrupt with
      | (.exited exit, m') => { code? := some 0, stdout := inv.banner ++ report exit m'.status }
      | (.faulted e, m') => inv.fail (.faulted m'.pc e)
      | (.waiting, _) => { code? := none, stdout := inv.banner } := by
  obtain ⟨bytes, rfl, hrom⟩ := h.loads
  have hload : inv.load (.ok bytes) = .ok (m, rom) := by
    rw [load_of_content, hrom, h.builds]
    rfl
  cases hrun : m.run rom.words interrupt with
  | mk result m' => cases result <;> simp only [execute, hload, hrun]

theorem Prepares.pc_eq (h : inv.Prepares content rom m)
    (hexecuted : m.ExecutesAll rom.words executed m') : m'.pc = 4 * executed.length := by
  have hpc := hexecuted.counters.1
  rw [(Machine.Built.ofConfig h.builds).eq_powerOn] at hpc
  simpa [Machine.powerOn] using hpc

theorem Ends.eq_execute (h : inv.Ends content interrupt outcome) :
    outcome = inv.execute content interrupt := by
  cases h with
  | @unreadable cause hcontent =>
    have hload : inv.load content = .error (.unreadable inv.path cause) := by
      rw [hcontent]
      rfl
    rw [execute_of_load_eq_error hload, fail, Failure.message, withCause_append]
    rfl
  | @unloadable bytes cause hcontent hrom =>
    have hload : inv.load content = .error (.unloadable inv.path cause) := by
      rw [hcontent, load_of_content, hrom]
      rfl
    rw [execute_of_load_eq_error hload, fail, Failure.message, withCause_append]
    rfl
  | @misconfigured bytes rom cause hcontent hrom hbuild =>
    have hload : inv.load content = .error (.misconfigured cause) := by
      rw [hcontent, load_of_content, hrom, hbuild]
      rfl
    rw [execute_of_load_eq_error hload]
    rfl
  | faulted hprepares hrun hexecuted =>
    rw [hprepares.execute_eq, hrun, ← hprepares.pc_eq hexecuted]
    simp only [fail, Failure.message, withCause_append]
    rfl
  | exited hprepares hrun | waiting hprepares hrun =>
    rw [hprepares.execute_eq, hrun]

theorem ends_execute (inv : Invocation) (content : Except ReadError ByteArray)
    (interrupt : Cancellation) : inv.Ends content interrupt (inv.execute content interrupt) := by
  suffices h : ∃ outcome, inv.Ends content interrupt outcome by
    obtain ⟨outcome, h⟩ := h
    exact h.eq_execute ▸ h
  cases content with
  | error cause => exact ⟨_, .unreadable rfl⟩
  | ok bytes =>
  cases hrom : Rom.ofBytes bytes inv.config with
  | error cause => exact ⟨_, .unloadable rfl hrom⟩
  | ok rom =>
  cases hbuild : Machine.ofConfig inv.config with
  | error cause => exact ⟨_, .misconfigured rfl hrom hbuild⟩
  | ok m =>
  have hprepares : inv.Prepares (.ok bytes) rom m := ⟨⟨bytes, rfl, hrom⟩, hbuild⟩
  cases hrun : m.run rom.words interrupt with
  | mk result m' =>
  cases result with
  | exited exit => exact ⟨_, .exited hprepares hrun⟩
  | waiting => exact ⟨_, .waiting hprepares hrun⟩
  | faulted cause =>
    obtain ⟨executed, hexecuted⟩ :=
      Machine.exists_executesAll_call (c := .run rom.words interrupt) rfl m
    rw [Machine.call, hrun] at hexecuted
    exact ⟨_, .faulted hprepares hrun hexecuted⟩

/-- **The run of an image ends in one way**, which the first stage that fails tells. -/
theorem ends_iff : inv.Ends content interrupt outcome ↔ outcome = inv.execute content interrupt :=
  ⟨Ends.eq_execute, fun h => h ▸ ends_execute inv content interrupt⟩

/-- **The position that the cause of a fault names is that of the machine.** -/
theorem pc?_of_run_eq_faulted {program : Program}
    (h : m.run program interrupt = (.faulted cause, m')) : ∀ pc ∈ cause.pc?, pc = m'.pc := by
  obtain ⟨k, -, hstep⟩ := Machine.exists_advances_of_run_eq_faulted h
  obtain ⟨-, -, hplan⟩ := Machine.step_eq_error_iff.1 hstep
  exact Machine.pc?_of_reports ((Machine.guards_plan program cause).1 hplan)

theorem Ends.exists_stdout_eq (h : inv.Ends content interrupt outcome) :
    ∃ rest, outcome.stdout = inv.banner ++ rest := by
  cases h with
  | exited => exact ⟨_, rfl⟩
  | unreadable | unloadable | misconfigured | faulted | waiting => exact ⟨"", by simp⟩

theorem Ends.succeeds_iff (h : inv.Ends content interrupt outcome) :
    outcome.code? = some 0 ∧ outcome.stderr = "" ↔
      ∃ rom m exit m', inv.Prepares content rom m ∧
        m.run rom.words interrupt = (.exited exit, m') := by
  constructor
  · rintro ⟨hcode, -⟩
    cases h with
    | exited hprepares hrun => exact ⟨_, _, _, _, hprepares, hrun⟩
    | unreadable | unloadable | misconfigured | faulted | waiting => cases hcode
  · rintro ⟨rom, m, exit, m', hprepares, hrun⟩
    rw [h.eq_execute, hprepares.execute_eq, hrun]
    exact ⟨rfl, rfl⟩

theorem Ends.eq_never (h : inv.Ends content interrupt outcome) (hcode : outcome.code? = none) :
    interrupt = .never := by
  cases h with
  | waiting _ hrun =>
    obtain ⟨k, m'', -, hends⟩ := Machine.exists_run_ends _ _ interrupt
    rw [hrun] at hends
    cases hends with
    | waiting _ _ hreaches =>
      rw [Cancellation.reachesHalted_after] at hreaches
      cases interrupt with
      | never => rfl
      | onceHalted | atFetch n => cases hreaches
  | unreadable | unloadable | misconfigured | faulted | exited => cases hcode

/-- **A quiet run differs by the banner alone.** -/
theorem execute_eq_quiet (hquiet : inv.quiet = false) :
    inv.execute content interrupt =
      { { inv with quiet := true }.execute content interrupt with
        stdout := "rgcpu 0.1.0\n" ++
          ({ inv with quiet := true }.execute content interrupt).stdout } := by
  have hbanner : inv.banner = "rgcpu 0.1.0\n" := by
    rw [banner, hquiet]
    rfl
  have hnone : { inv with quiet := true }.banner = "" := rfl
  have hload : { inv with quiet := true }.load content = inv.load content := rfl
  simp only [execute, hload, fail, hbanner, hnone]
  split
  · simp
  · split <;> simp

end Invocation

/-! ### Sessions -/

/-- A session with the request for a run is the run. -/
theorem respond_eq_execute {arguments : List String}
    (hparse : Request.parse arguments = .ok (.run inv))
    (read : String → Except ReadError ByteArray) (interrupt : Cancellation) :
    respond arguments read interrupt = inv.execute (read inv.path) interrupt := by
  rw [respond, hparse]

/-- **A session that runs an image is its stages.**  Its configuration is the one that the command
line sets.  The first stage that fails decides about its outcome: the session ends in the way
described by `Invocation.Ends`, and in no other.  Before that, the banner is printed unless it is
left out.  A fault is reported at four times the number of instructions that were executed, which is
also the position in its cause.  The exit code is zero, with nothing on the standard error, exactly
if all stages succeed.  A session is only left waiting if no interrupt comes.  And a session with
one more setting, the one that leaves out the banner, has the same outcome without the banner. -/
theorem respond_run_stages {arguments : List String} {inv : Invocation}
    (hparse : Request.parse arguments = .ok (.run inv))
    (read : String → Except ReadError ByteArray) (interrupt : Cancellation) :
    inv.SetBy (settings (tokenize arguments)) ∧
    (∀ outcome, inv.Ends (read inv.path) interrupt outcome ↔
      outcome = respond arguments read interrupt) ∧
    (∃ rest, (respond arguments read interrupt).stdout =
      (if inv.quiet then "" else "rgcpu 0.1.0\n") ++ rest) ∧
    (∀ rom m cause m' executed, inv.Prepares (read inv.path) rom m →
      m.run rom.words interrupt = (.faulted cause, m') → m.ExecutesAll rom.words executed m' →
        ∀ pc ∈ cause.pc?, pc = 4 * executed.length) ∧
    ((respond arguments read interrupt).code? = some 0 ∧
        (respond arguments read interrupt).stderr = "" ↔
      ∃ rom m exit m', inv.Prepares (read inv.path) rom m ∧
        m.run rom.words interrupt = (.exited exit, m')) ∧
    ((respond arguments read interrupt).code? = none → interrupt = .never) ∧
    ∀ quietly inv', Request.parse quietly = .ok (.run inv') → inv.quiet = false →
      (∀ s, s ∈ settings (tokenize quietly) ↔
        s = .switch .quiet ∨ s ∈ settings (tokenize arguments)) →
      respond arguments read interrupt =
        { respond quietly read interrupt with
          stdout := "rgcpu 0.1.0\n" ++ (respond quietly read interrupt).stdout } := by
  have hset := Invocation.setBy_settings hparse
  have hends := inv.ends_execute (read inv.path) interrupt
  rw [respond_eq_execute hparse]
  refine ⟨hset, fun _ => Invocation.ends_iff, hends.exists_stdout_eq, ?_, hends.succeeds_iff,
    hends.eq_never, ?_⟩
  · intro rom m cause m' executed hprepares hrun hexecuted pc hpc
    rw [Invocation.pc?_of_run_eq_faulted hrun pc hpc, hprepares.pc_eq hexecuted]
  · intro quietly inv' hparse' hquiet hsame
    have hset' := Invocation.setBy_settings hparse'
    -- the settings of a quiet session tell its path and its configuration
    obtain ⟨hpath, hconfig⟩ := hset.eq_of_mem_iff hset' fun s hs =>
      (hsame s).trans (or_iff_right hs)
    have hquiet' : inv'.quiet = true := hset'.quiet.2 ((hsame _).2 (.inl rfl))
    obtain rfl : inv' = { inv with quiet := true } := by
      rw [← hpath, ← hconfig, ← hquiet']
    rw [respond_eq_execute hparse']
    exact Invocation.execute_eq_quiet hquiet

/-- The image of one `nop`, whose run faults behind it, with the banner or without, and that of one
`end`, whose run succeeds. -/
theorem respond_run_stages_nop :
    (∀ outcome, (⟨"nop.rom", {}, false⟩ : Invocation).Ends
        (.ok ⟨Array.replicate 16 0⟩) .never outcome ↔
      outcome = respond ["nop.rom"] (fun _ => .ok ⟨Array.replicate 16 0⟩) .never) ∧
    respond ["nop.rom"] (fun _ => .ok ⟨Array.replicate 16 0⟩) .never =
      { code? := some 1, stdout := "rgcpu 0.1.0\n",
        stderr := "Error: machine faulted at pc 4\n\nCaused by:\n    " ++
          "did not expect to reach the end of instructions (pc 4, 0 words left)\n" } ∧
    respond ["nop.rom"] (fun _ => .ok ⟨Array.replicate 16 0⟩) .never =
      { respond ["-q", "nop.rom"] (fun _ => .ok ⟨Array.replicate 16 0⟩) .never with
        stdout := "rgcpu 0.1.0\n" ++
          (respond ["-q", "nop.rom"] (fun _ => .ok ⟨Array.replicate 16 0⟩) .never).stdout } ∧
    respond ["--registers=1", "end.rom"] (fun _ => .ok ⟨#[0xFF] ++ Array.replicate 15 0⟩) .never =
      { code? := some 0,
        stdout := "rgcpu 0.1.0\nterminated after 1 instructions\nr0 = 0 (0x00000000)\n" } := by
  have hparse : Request.parse ["nop.rom"] = .ok (.run ⟨"nop.rom", {}, false⟩) := rfl
  have hparse' : Request.parse ["-q", "nop.rom"] = .ok (.run ⟨"nop.rom", {}, true⟩) := rfl
  have hprepares : (⟨"nop.rom", {}, false⟩ : Invocation).Prepares (.ok ⟨Array.replicate 16 0⟩)
      ⟨#[0, 0, 0, 0], rfl⟩ (Machine.powerOn {}) := ⟨⟨_, rfl, rfl⟩, rfl⟩
  have hnop : (Machine.powerOn {}).step #[0, 0, 0, 0] =
      (.ok .running, (Machine.powerOn {}).commit .nothing) := rfl
  have hend : ((Machine.powerOn {}).commit .nothing).step #[0, 0, 0, 0] =
      (.error (.endOfProgram 4 0), (Machine.powerOn {}).commit .nothing) := rfl
  have hrun : (Machine.powerOn {}).run #[0, 0, 0, 0] .never =
      (.faulted (.endOfProgram 4 0), (Machine.powerOn {}).commit .nothing) := by
    rw [Machine.run_eq, hnop]
    exact Machine.run_of_step_eq_error hend rfl
  have hexecuted : (Machine.powerOn {}).ExecutesAll #[0, 0, 0, 0] [⟨0, 0, 0, 0⟩]
      ((Machine.powerOn {}).commit .nothing) :=
    Machine.Completes.executesAll ⟨rfl, rfl, ⟨_, rfl⟩⟩
  obtain ⟨-, hends, -, -, -, -, hquiet⟩ :=
    respond_run_stages hparse (fun _ => .ok ⟨Array.replicate 16 0⟩) .never
  have hparseEnd : Request.parse ["--registers=1", "end.rom"] =
    .ok (.run ⟨"end.rom", { registers := 1 }, false⟩) := rfl
  have hpreparesEnd : (⟨"end.rom", { registers := 1 }, false⟩ : Invocation).Prepares
      (.ok ⟨#[0xFF] ++ Array.replicate 15 0⟩) ⟨#[0xFF, 0, 0, 0], rfl⟩
      (Machine.powerOn { registers := 1 }) := ⟨⟨_, rfl, rfl⟩, rfl⟩
  have hrunEnd : (Machine.powerOn { registers := 1 }).run #[0xFF, 0, 0, 0] .never =
      (.exited ⟨.terminated, ⟨#[0]⟩, 1, 0⟩,
        (Machine.powerOn { registers := 1 }).commit (.stop .terminated)) := by
    rw [Machine.run_eq]
    rfl
  have hreport : report ⟨.terminated, ⟨#[0]⟩, 1, 0⟩ .terminated =
      "terminated after 1 instructions\nr0 = 0 (0x00000000)\n" := by decide
  obtain ⟨-, hendsEnd, -⟩ :=
    respond_run_stages hparseEnd (fun _ => .ok ⟨#[0xFF] ++ Array.replicate 15 0⟩) .never
  refine ⟨hends, ?_, hquiet _ _ hparse' rfl ?_, ?_⟩
  · rw [← (hends _).1 (.faulted hprepares hrun hexecuted)]
    rfl
  · have hsettings : settings (tokenize ["nop.rom"]) = [.path "nop.rom"] := rfl
    have hsettings' : settings (tokenize ["-q", "nop.rom"]) =
        [.switch .quiet, .path "nop.rom"] := rfl
    simp [hsettings, hsettings']
  · rw [← (hendsEnd _).1 (.exited hpreparesEnd hrunEnd)]
    simp only [Machine.commit, hreport]
    rfl

end CommandLine

end RegisterMachine
