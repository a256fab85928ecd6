import Mathlib
import RegisterMachine.Command.Compile
import RegisterMachine.Command.Run
import RegisterMachine.Proofs.Codec
import RegisterMachine.Proofs.Persistence
import RegisterMachine.Proofs.Relocation
import RegisterMachine.Proofs.World

/-!
# Compiling a file does not change its program

A text can be run in two ways: from its own file, or assembled into another file that is run then.
Both write the same and give the same exit code.

| | |
| :-- | :-- |
| loading | the stored program is the assembled one (`sound_of_assemble`, `Sound.eq_of_ofBytes`) |
| file names | the two programs differ in them only (`assemble_movedTo`) |
| running | goes on alike from there, on every system (`runLoaded_movedTo`) |
| the command | leaves the bytes of the program under the output path (`leaves_command`) |

Messages for debugging name the path and are the one difference, so they must be off.
-/

namespace RegisterMachine

/-- Assembled programs are sound, so that they survive in a file. -/
theorem Assembly.sound_of_assemble {source file : String} {program : Program}
    (h : assemble source file = .ok program) : program.Sound := by
  obtain ⟨outline, -, h⟩ := bind_eq_ok.mp h
  obtain ⟨names, -, h⟩ := bind_eq_ok.mp h
  obtain ⟨linked, hblocks, h⟩ := bind_eq_ok.mp h
  obtain ⟨entry, -, h⟩ := bind_eq_ok.mp h
  cases h
  rw [← Array.foldlM_toList] at hblocks
  have hempty : ({ Program.empty with globalCount := outline.globalCount } : Program).Sound :=
    { Program.Sound.empty with }
  obtain ⟨_, happends, -⟩ := addBlocks_compiledAs _ hempty hblocks
  exact { happends.sound with }

theorem Level.isEnabled_debug {threshold : Level} (h : threshold ≠ .debug) :
    threshold.isEnabled .debug = false := by
  cases threshold with
  | debug => exact absurd rfl h
  | _ => rfl

namespace Console

variable {m : Type → Type} [Monad m] [Console m]

/-- Messages that are not written may as well be others. -/
theorem log_of_disabled {threshold level : Level} (h : threshold.isEnabled level = false)
    (message other : String) :
    (log threshold level message : m Unit) = log threshold level other := by
  simp only [log, logLine, h, Bool.not_false, if_true]

end Console

/-! ## Running a loaded program -/

namespace Run

section System

variable {m : Type → Type} [Monad m] [Console m] {memory : Memory} {program : Program}
  {file : String}

theorem runPrinting_movedTo (n : Nat) :
    ∀ machine, (runPrinting (program.movedTo file) n machine : m Machine)
      = runPrinting program n machine := by
  induction n with
  | zero => intro machine; rfl
  | succ n ih =>
      intro machine
      rw [runPrinting, runPrinting, Machine.runFor_movedTo]
      simp only [ih]

/-- A loaded program runs as it does under another file name, and from another path. -/
theorem runLoaded_movedTo {threshold : Level} (h : threshold ≠ .debug) (limits : Limits)
    (path path' : String) (dump : Bool) :
    (runLoaded memory threshold limits path dump (program.movedTo file) : m UInt32)
      = runLoaded memory threshold limits path' dump program := by
  have hrun : (runProgram (.new memory limits) (program.movedTo file) : m Machine)
      = runProgram (.new memory limits) program := by
    rw [runProgram, runProgram, runPrinting_movedTo, Machine.start_movedTo]
    rfl
  rw [runLoaded, runLoaded, hrun, Console.log_of_disabled (Level.isEnabled_debug h)]
  simp only [Machine.windowSize_movedTo]
  rfl

end System

theorem prints_flush (machine : Machine) : Prints (flush machine : InWorld Machine) := by
  rw [flush, ← Array.forIn_toList]
  exact .bind (.forIn _ (fun line _ => .bind (.outLine line) fun _ => .pure _) _) fun _ => .pure _

theorem prints_runPrinting (program : Program) (n : Nat) :
    ∀ machine, Prints (runPrinting program n machine : InWorld Machine) := by
  induction n with
  | zero => intro machine; exact .pure machine
  | succ n ih =>
      intro machine
      rw [runPrinting]
      cases machine.status with
      | running => exact .bind (prints_flush _) ih
      | _ => exact .pure machine

theorem prints_printRegisters (registers : Array Value) (heap : Heap) (count : Nat) :
    Prints (printRegisters registers heap count : InWorld Unit) :=
  .bind (.forIn _ (fun line _ => .bind (.outLine line) fun _ => .pure _) _) fun _ => .pure _

theorem prints_reportOutcome (threshold : Level) (machine : Machine) :
    Prints (reportOutcome threshold machine : InWorld UInt32) := by
  rw [reportOutcome]
  cases machine.outcome with
  | error fault => exact .bind (.log _ _ _) fun _ => .pure 1
  | ok value =>
      cases value with
      | none => exact .pure 0
      | some value => exact .bind (.outLine _) fun _ => .pure 0

/-- A program has no access to the world but to print. -/
theorem prints_runLoaded (memory : Memory) (threshold : Level) (limits : Limits) (path : String)
    (dump : Bool) (program : Program) :
    Prints (runLoaded memory threshold limits path dump program : InWorld UInt32) := by
  refine .bind (.log _ _ _) fun _ => .bind (prints_runPrinting _ _ _) fun machine =>
    .bind (.log _ _ _) fun _ => .bind (prints_reportOutcome _ _) fun code => ?_
  cases dump with
  | false => exact .pure code
  | true => exact .bind (prints_printRegisters _ _ _) fun _ => .pure code

end Run

/-! ## Loading -/

theorem decodeText_toUTF8 (source : String) : decodeText source.toUTF8.toList = .ok source := by
  rw [decodeText, fromUTF8?_eq_some.mpr rfl]

theorem Program.isStored_toBytes (program : Program) : isStored program.toBytes = true := by
  rw [isStored, toBytes, List.isPrefixOf_iff_prefix, List.append_assoc]
  exact List.prefix_append _ _

theorem run_log_of_disabled {threshold level : Level} (h : threshold.isEnabled level = false)
    (message : String) (w : World) :
    (Console.log threshold level message : InWorld Unit).run w = ((), w) := by
  simp only [Console.log, logLine, h]
  rfl

/-- The program that a path leads to: stored there, or as a text. -/
inductive World.Holds (w : World) (path : String) : Program → Prop
  | source {source : String} {program : Program} :
      w.read path = .ok source.toUTF8.toList →
      Program.isStored source.toUTF8.toList = false →
      Assembly.assemble source path = .ok program → Holds w path program
  | stored {program : Program} :
      w.read path = .ok program.toBytes →
      Program.ofBytes program.toBytes = .ok program → Holds w path program

theorem World.Holds.written {w : World} {path : String} {program : Program}
    (h : w.Holds path program) (out err : String) : (w.written out err).Holds path program := by
  cases h with
  | source hread hstored hassemble =>
      exact .source ((read_written out err path).trans hread) hstored hassemble
  | stored hread hload => exact .stored ((read_written out err path).trans hread) hload

namespace Run

variable {w : World} {threshold : Level} {path : String} {program : Program}

theorem loadProgram_of_holds (h : threshold ≠ .debug) (hw : w.Holds path program) :
    (loadProgram threshold path : InWorld _).run w = (.ok program, w) := by
  have hquiet := run_log_of_disabled (Level.isEnabled_debug h)
  cases hw with
  | source hread hstored hassemble =>
      refine (run_bind_of_run (run_readFile path w)).trans ?_
      simp only [hread, hstored, decodeText_toUTF8, hassemble]
      exact run_bind_of_run (hquiet _ w)
  | stored hread hload =>
      refine (run_bind_of_run (run_readFile path w)).trans ?_
      simp only [hread, Program.isStored_toBytes, hload]
      exact run_bind_of_run (hquiet _ w)

theorem runFile_of_holds (h : threshold ≠ .debug) (hw : w.Holds path program) (memory : Memory)
    (limits : Limits) (dump : Bool) :
    (runFile memory threshold limits path dump : InWorld UInt32).run w
      = (runLoaded memory threshold limits path dump program : InWorld UInt32).run w :=
  run_bind_of_run (loadProgram_of_holds h hw)

/-- A program in two files, under two names, runs alike from both. -/
theorem runFiles_alike (h : threshold ≠ .debug) {v : World} {path' file : String}
    (hw : w.Holds path (program.movedTo file)) (hv : v.Holds path' program) (memory : Memory)
    (limits : Limits) (dump : Bool) :
    RunAlike (runFile memory threshold limits path dump) w
      (runFile memory threshold limits path' dump) v := by
  obtain ⟨code, out, err, hprints⟩ := prints_runLoaded memory threshold limits path' dump program
  refine ⟨code, out, err, ?_, ?_⟩
  · rw [runFile_of_holds h hw, runLoaded_movedTo h limits path path', hprints]
  · rw [runFile_of_holds h hv, hprints]

end Run

/-! ## Commands -/

/-- The environment does not ask for messages for debugging. -/
def World.IsQuiet (w : World) : Prop :=
  ∀ level, Level.configured .info (w.environment.lookup "KORE_LOG") = .ok level → level ≠ .debug

/-- The directory that a path names, if it names one, is there. -/
def World.HasDirectory (w : World) (path : String) : Prop :=
  ∀ directory, Path.parent? path = some directory →
    directory = "" ∨ w.leadsSomewhere directory = true

/-- The level that the environment asks for, and the warning if it asks for none. -/
theorem exists_logLevel {w : World} (hquiet : w.IsQuiet) :
    ∃ level out err, level ≠ .debug ∧ ∀ v : World, v.environment = w.environment →
      (Console.logLevel : InWorld Level).run v = (level, v.written out err) := by
  cases hc : Level.configured .info (w.environment.lookup "KORE_LOG") with
  | ok level =>
      refine ⟨level, "", "", hquiet level hc, fun v hv => ?_⟩
      refine (run_bind_of_run (run_lookup _ v)).trans ?_
      simp only [hv, hc, World.written_empty]
      rfl
  | error name =>
      obtain ⟨_, out, err, hlog⟩ :=
        Prints.log .info .warn ("Ignoring unknown KORE_LOG level: " ++ name)
      refine ⟨.info, out, err, Level.noConfusion, fun v hv => ?_⟩
      refine (run_bind_of_run (run_lookup _ v)).trans ?_
      simp only [hv, hc]
      exact run_bind_of_run (hlog v)

namespace Run

variable {w v : World}

theorem withLimits_alike (henvironment : v.environment = w.environment) (threshold : Level)
    {go go' : Limits → InWorld UInt32} (h : ∀ limits, RunAlike (go limits) w (go' limits) v) :
    RunAlike (withLimits threshold go) w (withLimits threshold go') v := by
  have hw : (withLimits threshold go).run w = _ := run_bind_of_run (run_lookup budgetVariable w)
  have hv : (withLimits threshold go').run v = _ := run_bind_of_run (run_lookup budgetVariable v)
  rw [henvironment] at hv
  rw [RunAlike, hw, hv]
  cases limitsFor (w.environment.lookup budgetVariable) with
  | ok limits => exact h limits
  | error message => exact (Prints.bind (.log _ _ _) fun _ => .pure 1).runAlike w v

/-- The command runs a program alike from two files in worlds with one environment. -/
theorem commands_alike (henvironment : v.environment = w.environment) (hquiet : w.IsQuiet)
    {path path' file : String} {program : Program} (hw : w.Holds path (program.movedTo file))
    (hv : v.Holds path' program) {arguments arguments' : List String} {dump : Bool}
    (hrequest : request none false arguments = .file path dump)
    (hrequest' : request none false arguments' = .file path' dump) (memory : Memory)
    (runner : String) :
    RunAlike (command memory runner arguments) w (command memory runner arguments') v := by
  obtain ⟨level, out, err, hdebug, hlog⟩ := exists_logLevel hquiet
  refine .of_run (run_bind_of_run (hlog w rfl)) (run_bind_of_run (hlog v henvironment)) ?_
  rw [hrequest, hrequest']
  have hwritten : (v.written out err).environment = (w.written out err).environment := henvironment
  refine withLimits_alike hwritten level fun limits => ?_
  exact runFiles_alike hdebug (hw.written out err) (hv.written out err) memory limits dump

end Run

namespace Compile

variable {w w' : World} {source input output : String} {program : Program}

theorem leaves_compileSource (threshold : Level)
    (hassemble : Assembly.assemble source input = .ok program)
    (hwrite : w.write output program.toBytes = .ok w') :
    Leaves (compileSource threshold input output source) w 0 w' := by
  rw [compileSource, hassemble]
  simp only [← Array.forIn_toList]
  refine .bind_of_prints (.forIn _ (fun _ _ => .bind (.log _ _ _) fun _ => .pure _) _)
    fun _ out err => ?_
  refine .bind_of_run (run_writeFile (World.write_written hwrite out err)) ?_
  refine .bind_of_prints (.log _ _ _) fun _ out' err' => ?_
  rw [World.written_written]
  exact .pure 0 _ _

/-- No directory is missing if the one of the output path is there. -/
theorem missingDirectory?_run (h : w.HasDirectory output) :
    (missingDirectory? output : InWorld _).run w = (none, w) := by
  rw [missingDirectory?]
  cases hparent : Path.parent? output with
  | none => rfl
  | some directory =>
      by_cases hempty : directory = ""
      · simp only [if_pos hempty]
        rfl
      · have hthere : w.leadsSomewhere directory = true :=
          (h directory hparent).resolve_left hempty
        simp only [if_neg hempty]
        refine (run_bind_of_run (run_pathExists directory w)).trans ?_
        simp only [hthere]
        rfl

/-- The command stores the program of a text that it can read, where it can write. -/
theorem leaves_command (assembler : String) {arguments : List String} {output? : Option String}
    (hrequest : request arguments = .assemble input output?)
    (houtput : output?.getD (defaultOutput input) = output) (hquiet : w.IsQuiet)
    (hread : w.read input = .ok source.toUTF8.toList)
    (hassemble : Assembly.assemble source input = .ok program)
    (hdirectory : w.HasDirectory output)
    (hwrite : w.write output program.toBytes = .ok w') :
    Leaves (command assembler arguments) w 0 w' := by
  obtain ⟨level, out, err, -, hlog⟩ := exists_logLevel hquiet
  refine .bind_of_run (hlog w rfl) ?_
  rw [hrequest]
  have hreadText : (Console.readText input : InWorld _).run (w.written out err)
      = (.ok source, w.written out err) := by
    refine (run_bind_of_run (run_readFile input _)).trans ?_
    rw [World.read_written, hread]
    exact congrArg (·, w.written out err) (decodeText_toUTF8 source)
  refine .bind_of_run hreadText ?_
  have hmissing : (missingDirectory? output : InWorld _).run (w.written out err)
      = (none, w.written out err) := by
    refine missingDirectory?_run fun directory hparent => ?_
    rw [World.leadsSomewhere_written]
    exact hdirectory directory hparent
  simp only [houtput]
  refine .bind_of_run hmissing ?_
  obtain ⟨out', err', hsource⟩ :=
    leaves_compileSource level hassemble (World.write_written hwrite out err)
  exact ⟨out ++ out', err ++ err', hsource.trans (by rw [World.written_written])⟩

end Compile

/-- **Compiling to a file does not change a program.**  Let a text that assembles, and whose stored
program can be loaded, be read under `path` and under `input`.  Assembling it from `input` succeeds
and leaves a world in which running the output gives the exit code and writes the output and the
messages that running the text from `path` does, with the registers or without them, from the
command line and under any limits.  The two programs that are run differ in the file names that
they carry and in nothing else; and once they are loaded all systems run them alike, so that even
with a clock the messages differ in the time only. -/
theorem compiled_file_runs_alike {w w' : World} {source path input output : String}
    {output? : Option String} {program : Program} {arguments : List String} (assembler : String)
    (hpath : w.read path = .ok source.toUTF8.toList)
    (hinput : w.read input = .ok source.toUTF8.toList)
    (htext : ¬ "KORBC".toUTF8.toList <+: source.toUTF8.toList)
    (hassemble : Assembly.assemble source input = .ok program)
    (hreload : ∃ q, Program.ofBytes program.toBytes = .ok q)
    (hquiet : w.IsQuiet)
    (hrequest : Compile.request arguments = .assemble input output?)
    (houtput : output?.getD (Compile.defaultOutput input) = output)
    (hdirectory : w.HasDirectory output)
    (hwrite : w.write output program.toBytes = .ok w') :
    Assembly.assemble source path = .ok (program.movedTo path) ∧
    Program.ofBytes program.toBytes = .ok program ∧
    (∀ (m : Type → Type) [Monad m] [Console m] (memory : Memory) (threshold : Level)
      (limits : Limits) (dump : Bool), threshold ≠ .debug →
      (Run.runLoaded memory threshold limits path dump (program.movedTo path) : m UInt32)
        = Run.runLoaded memory threshold limits output dump program) ∧
    ∃ compiled : World,
      (Compile.command assembler arguments : InWorld UInt32).run w = (0, compiled) ∧
      (∀ (memory : Memory) (threshold : Level) (limits : Limits) (dump : Bool),
        threshold ≠ .debug →
        RunAlike (Run.runFile memory threshold limits path dump) w
          (Run.runFile memory threshold limits output dump) compiled) ∧
      ∀ (memory : Memory) (runner : String) (direct stored : List String) (dump : Bool),
        Run.request none false direct = .file path dump →
        Run.request none false stored = .file output dump →
        RunAlike (Run.command memory runner direct) w
          (Run.command memory runner stored) compiled := by
  have hmoved : Assembly.assemble source path = .ok (program.movedTo path) := by
    rw [Assembly.assemble_movedTo source input path, hassemble]
    rfl
  have hload : Program.ofBytes program.toBytes = .ok program := by
    obtain ⟨q, hq⟩ := hreload
    obtain ⟨rfl, -⟩ := (Assembly.sound_of_assemble hassemble).eq_of_ofBytes hq
    exact hq
  obtain ⟨out, err, hcompile⟩ := Compile.leaves_command assembler hrequest houtput hquiet hinput
    hassemble hdirectory hwrite
  have hstored : Program.isStored source.toUTF8.toList = false := by
    rw [Program.isStored, ← Bool.not_eq_true, List.isPrefixOf_iff_prefix]
    exact htext
  have hdirect : w.Holds path (program.movedTo path) := .source hpath hstored hmoved
  have hcompiled : (w'.written out err).Holds output program :=
    .written (.stored (World.read_of_write hwrite) hload) out err
  have henvironment : (w'.written out err).environment = w.environment := by
    obtain ⟨place, -, -, -, rfl⟩ := World.write_eq_ok.mp hwrite
    rfl
  refine ⟨hmoved, hload, ?_, w'.written out err, hcompile, ?_, ?_⟩
  · intro m _ _ memory threshold limits dump hdebug
    exact Run.runLoaded_movedTo hdebug limits path output dump
  · intro memory threshold limits dump hdebug
    exact Run.runFiles_alike hdebug hdirect hcompiled memory limits dump
  · intro memory runner direct stored dump hdirect' hstored'
    exact Run.commands_alike henvironment hquiet hdirect hcompiled hdirect' hstored' memory runner

/-- A world with the text of a loop, and with a budget that ends its run. -/
def loopWorld : World :=
  { World.empty with
    files := [(["loop"], Assembly.loopSource.toUTF8.toList)]
    environment := [(Run.budgetVariable, "9")] }

theorem within_loop : Assembly.loopProgram.Within maxLength := by
  refine ⟨fun f hf => ?_, fun s hs => absurd hs (Array.not_mem_empty s)⟩
  rcases List.mem_pair.mp (Array.mem_toList_iff.mpr hf) with rfl | rfl
  · exact ⟨by decide, by decide, by decide⟩
  · exact ⟨by decide, by decide, by decide⟩

/-- The text is run as `./loop` but compiled as `loop`, so that the file names differ. -/
theorem compiled_file_runs_alike_loop :
    Assembly.loopProgram.movedTo "./loop" ≠ Assembly.loopProgram ∧
    ∃ compiled : World,
      (Compile.command "kasm" ["loop", "-o", "out"] : InWorld UInt32).run loopWorld
        = (0, compiled) ∧
      RunAlike (Run.command .unbounded "kore" ["run", "./loop", "--dump-registers"]) loopWorld
        (Run.command .unbounded "kore" ["run", "out", "--dump-registers"]) compiled := by
  have hload : Program.ofBytes Assembly.loopProgram.toBytes = .ok Assembly.loopProgram :=
    Program.ofBytes_toBytes (Assembly.sound_of_assemble Assembly.assemble_loop) within_loop
      (.inr (by decide))
  have hquiet : loopWorld.IsQuiet := by
    intro level h
    cases h
    exact Level.noConfusion
  have hdirectory : loopWorld.HasDirectory "out" := by
    intro directory h
    cases h
    exact .inl rfl
  have hpath : loopWorld.read "./loop" = .ok Assembly.loopSource.toUTF8.toList := rfl
  have hinput : loopWorld.read "loop" = .ok Assembly.loopSource.toUTF8.toList := rfl
  have hrequest : Compile.request ["loop", "-o", "out"] = .assemble "loop" (some "out") := rfl
  have hwrite : loopWorld.write "out" Assembly.loopProgram.toBytes
      = .ok (loopWorld.setFile ["out"] Assembly.loopProgram.toBytes) := rfl
  obtain ⟨-, -, -, compiled, hcompile, -, hrun⟩ :=
    compiled_file_runs_alike "kasm" hpath hinput (by decide +kernel) Assembly.assemble_loop
      ⟨_, hload⟩ hquiet hrequest rfl hdirectory hwrite
  refine ⟨?_, compiled, hcompile, hrun .unbounded "kore" _ _ true rfl rfl⟩
  intro h
  have hfunctions := congrArg Program.functions h
  simp [Program.movedTo, Function.movedTo, Assembly.loopProgram] at hfunctions

end RegisterMachine
