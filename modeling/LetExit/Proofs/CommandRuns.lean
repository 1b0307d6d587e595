import LetExit.CommandLine.Run
import LetExit.Proofs.Generation
import LetExit.Proofs.RoundTrip
import LetExit.Proofs.Storing

/-!
# How a run of the command ends

On the modelled system a run is a choice between a few endings. Each of them
fixes what is shown, the exit status and the world that is left. No ending
changes the world but those after the output file was stored, and commands
that are run change nothing. Canonical texts are always shown: no program
that was read from a text is without one. Any settings and files can be asked
for on a command line.
-/

set_option autoImplicit false

namespace LetExit

theorem Compiler.compileProgram_eq_error_of_eq_error {c : Compiler} {p : Program}
    {failure : Codegen.Failure} (h : c.compileProgram p = .error failure) (c' : Compiler) :
    c'.compileProgram p = .error failure := by
  obtain ⟨pre, s, post, hss, hpre, hoffends, hindex⟩ := Compiler.compileProgram_eq_error h
  obtain ⟨stmts⟩ := p
  subst hss
  rw [c'.compileProgram_of_offends hpre hoffends, ← hindex]

theorem Source.compile_eq_error {c : Compiler} {text : Bytes} {e : Error}
    (h : Source.compile c text = .error e) (c' : Compiler) :
    Source.compile c' text = .error e := by
  unfold Source.compile at h ⊢
  cases hprogram : Source.program text with
  | error e => rwa [hprogram] at h
  | ok p =>
    rw [hprogram] at h
    obtain ⟨failure, hfailure, rfl⟩ := Source.mapError_eq_error_iff.1 h
    dsimp only
    rw [Compiler.compileProgram_eq_error_of_eq_error hfailure c']
    rfl

namespace World

variable {w : World} {name text : Bytes}

theorem host_readSource_ok (h : w.files.read name = .ok text) :
    (host.readSource name).run w = (.ok text, w) := by
  rw [Host.readSource, StateT.run_bind, host_read, h]
  rfl

theorem host_readSource_error {e : FileError} (h : w.files.read name = .error e) :
    (host.readSource name).run w = (.error (.wrap (utf8 "read file") e.toError), w) := by
  rw [Host.readSource, StateT.run_bind, host_read, h]
  rfl

theorem host_compileFile_ok (c : Compiler) (h : w.files.read name = .ok text) :
    (host.compileFile c name).run w = (⟨some text, Source.compile c text⟩, w) := by
  rw [Host.compileFile, StateT.run_bind, host_readSource_ok h]
  rfl

theorem host_compileFile_error (c : Compiler) {e : FileError} (h : w.files.read name = .error e) :
    (host.compileFile c name).run w =
      (⟨none, .error (.wrap (utf8 "read file") e.toError)⟩, w) := by
  rw [Host.compileFile, StateT.run_bind, host_readSource_error h]
  rfl

theorem host_runCommands_cases (w : World) (commands : List (List Bytes)) :
    ((∀ command ∈ commands, w.run false command = .ok ()) ∧
      (runCommands host.run commands).run w = (.ok (), w)) ∨
    ∃ command ∈ commands, ∃ e, w.run false command = .error e ∧
      (runCommands host.run commands).run w = (.error (.wrap (command.headD []) e), w) := by
  induction commands with
  | nil => exact .inl ⟨by simp, rfl⟩
  | cons command rest ih =>
    rw [runCommands, StateT.run_bind, host_run]
    cases hrun : w.run false command with
    | error e => exact .inr ⟨command, by simp, e, hrun, rfl⟩
    | ok =>
      rcases ih with ⟨hall, hrest⟩ | ⟨failed, hmem, e, hfailed, hrest⟩
      · exact .inl ⟨by simpa [hrun] using hall, hrest⟩
      · exact .inr ⟨failed, by simp [hmem], e, hfailed, hrest⟩

theorem host_build_cases (w : World) (t : Target) (path : Bytes) :
    ((∀ command ∈ t.commands path, w.run false command = .ok ()) ∧
      (build host.run t path).run w = (.ok (Products.ofPath path).executable, w)) ∨
    ∃ command ∈ t.commands path, ∃ e, w.run false command = .error e ∧
      (build host.run t path).run w = (.error (.wrap (command.headD []) e), w) := by
  rw [build, StateT.run_bind]
  rcases host_runCommands_cases w (t.commands path) with ⟨hall, hrun⟩ | ⟨command, hmem, e, he, hrun⟩
  · exact .inl ⟨hall, by rw [hrun]; rfl⟩
  · exact .inr ⟨command, hmem, e, he, by rw [hrun]; rfl⟩

end World

namespace CommandLine

def flagArgument (name value : Bytes) : Bytes :=
  Bytes.dash :: Bytes.dash :: (name ++ Bytes.equals :: value)

def commandLine (s : Settings) (files : List Bytes) : List Bytes :=
  [flagArgument (utf8 "output") s.output, flagArgument (utf8 "target") s.target,
    flagArgument (utf8 "emit") s.emit,
    flagArgument (utf8 "build") (if s.build then utf8 "true" else utf8 "false"),
    flagArgument (utf8 "verbose") s.verbose, utf8 "--"] ++ files

section

variable {s : Settings} {name value : Bytes} {files rest : List Bytes}

theorem flagArgument_ne (short : Bytes) (h : short.length ≤ 2) :
    flagArgument name value ≠ short := by
  rintro rfl
  simp [flagArgument] at h

theorem isFlag_flagArgument : isFlag (flagArgument name value) := by
  have hdash : flagArgument name value ≠ utf8 "-" := flagArgument_ne _ (by decide)
  have hdashes : flagArgument name value ≠ utf8 "--" := flagArgument_ne _ (by decide)
  have hhead : (flagArgument name value).head? = some Bytes.dash := rfl
  simp [isFlag, hdash, hdashes, hhead]

theorem splitFlag_flagArgument (h : name.all (!endsName ·)) :
    splitFlag (flagArgument name value) = (name, some value) := by
  have hname : ∀ b ∈ name, (!endsName b) = true := List.all_eq_true.1 h
  have hend : ¬(!endsName Bytes.equals) = true := by decide
  have hbody : dropDashes (flagArgument name value) = name ++ Bytes.equals :: value := rfl
  rw [splitFlag, hbody, List.takeWhile_append_of_pos hname, List.dropWhile_append_of_pos hname]
  simp [hend]

theorem readFrom_flagArgument (flag : Flag) (hname : Flag.ofName? name = some flag)
    (hends : name.all (!endsName ·)) (htext : flag ≠ .build ∧ flag ≠ .help) :
    readFrom s files (flagArgument name value :: rest) =
      readFrom (s.set value flag) files rest := by
  rw [readFrom, if_neg (flagArgument_ne _ (by decide)), if_pos isFlag_flagArgument,
    splitFlag_flagArgument hends, hname]
  cases flag with
  | build => exact absurd rfl htext.1
  | help => exact absurd rfl htext.2
  | output | target | emit | verbose => rfl

theorem readFrom_build {b : Bool} (hvalue : bool? value = some b) :
    readFrom s files (flagArgument (utf8 "build") value :: rest) =
      readFrom { s with build := b } files rest := by
  rw [readFrom, if_neg (flagArgument_ne _ (by decide)), if_pos isFlag_flagArgument,
    splitFlag_flagArgument (by decide)]
  simp [show Flag.ofName? (utf8 "build") = some .build from rfl, hvalue]

theorem read_commandLine (s : Settings) (files : List Bytes) :
    read (commandLine s files) = .run s files := by
  have hbuild : bool? (if s.build then utf8 "true" else utf8 "false") = some s.build := by
    cases s.build <;> decide
  rw [read, commandLine]
  simp only [List.cons_append, List.nil_append]
  rw [readFrom_flagArgument .output rfl (by decide) (by decide),
    readFrom_flagArgument .target rfl (by decide) (by decide),
    readFrom_flagArgument .emit rfl (by decide) (by decide), readFrom_build hbuild,
    readFrom_flagArgument .verbose rfl (by decide) (by decide), readFrom, if_pos rfl]
  rfl

end

def Emit.Refuses (text : Bytes) (e : Error) : Emit → Prop
  | .tokens => Source.tokens text = .error e
  | .program => Source.program text = .error e
  | .vars | .assembly => ∀ c, Source.compile c text = .error e

theorem Emit.Refuses.not_compile {text : Bytes} {e : Error} {c : Compiler} {o : Object}
    (h : Emit.assembly.Refuses text e) : Source.compile c text ≠ .ok o := by
  simp [h c]

/-- The file, as it is in this world, compiles to the object whose text is to be stored. -/
structure Assembles (w : World) (s : Settings) (file : Bytes) (t : Target) (o : Object) :
    Prop where
  emit : Emit.ofName? s.emit = some .assembly
  target : Target.ofName? s.target = some t
  source : ∃ text, w.files.read file = .ok text ∧ Source.compile ⟨t, s.output⟩ text = .ok o

inductive Ends (style : Style) (w : World) (s : Settings) : List Bytes → Outcome × World → Prop
  | misused {files : List Bytes} (hfiles : files.length ≠ 1) :
      Ends style w s files (failure style usage, w)
  | unknownEmit (file : Bytes) (hemit : Emit.ofName? s.emit = none) :
      Ends style w s [file] (failure style (unsupportedEmit s.emit), w)
  | unknownTarget (file : Bytes) {emit : Emit} (hemit : Emit.ofName? s.emit = some emit)
      (hcompiles : emit = .vars ∨ emit = .assembly) (htarget : Target.ofName? s.target = none) :
      Ends style w s [file] (failure style (unsupportedTarget s.target), w)
  | unreadable {file : Bytes} {e : FileError} (hread : w.files.read file = .error e) :
      Ends style w s [file] (failure style (.wrap (utf8 "read file") e.toError), w)
  | refused {file text : Bytes} {emit : Emit} {e : Error} (hemit : Emit.ofName? s.emit = some emit)
      (hread : w.files.read file = .ok text) (hrefuses : emit.Refuses text e) :
      Ends style w s [file] (report style file text e, w)
  | tokens {file text : Bytes} {toks : List Token} (hemit : Emit.ofName? s.emit = some .tokens)
      (hread : w.files.read file = .ok text) (htokens : Source.tokens text = .ok toks) :
      Ends style w s [file] (success (toks.flatMap (tokenLine text)), w)
  | program {file text shown : Bytes} {p : Program} (hemit : Emit.ofName? s.emit = some .program)
      (hread : w.files.read file = .ok text) (hprogram : Source.program text = .ok p)
      (hformat : format (.program p) = .ok shown) :
      Ends style w s [file] (success shown, w)
  | vars {file text : Bytes} {t : Target} {o : Object} (hemit : Emit.ofName? s.emit = some .vars)
      (htarget : Target.ofName? s.target = some t) (hread : w.files.read file = .ok text)
      (hcompile : Source.compile ⟨t, s.output⟩ text = .ok o) :
      Ends style w s [file] (success (o.vars.flatMap (varLine file text)), w)
  | unstored {file : Bytes} {t : Target} {o : Object} {written : Bool} {e : Error}
      (hassembles : Assembles w s file t o)
      (hstore : (World.host.store s.output o.text).run w = (⟨written, some e⟩, w)) :
      Ends style w s [file] (failure style (.wrap (utf8 "output") e), w)
  | stored {file : Bytes} {t : Target} {o : Object} {written : Bool} {after : World}
      (hassembles : Assembles w s file t o)
      (hstore : (World.host.store s.output o.text).run w = (⟨written, none⟩, after))
      (hbuild : s.build = false) :
      Ends style w s [file] (success [], after)
  | built {file : Bytes} {t : Target} {o : Object} {written : Bool} {after : World}
      (hassembles : Assembles w s file t o)
      (hstore : (World.host.store s.output o.text).run w = (⟨written, none⟩, after))
      (hbuild : s.build = true)
      (hrun : ∀ command ∈ t.commands s.output, after.run false command = .ok ()) :
      Ends style w s [file]
        (success ((Products.ofPath s.output).executable ++ [Bytes.newline]), after)
  | unbuilt {file : Bytes} {t : Target} {o : Object} {written : Bool} {after : World}
      {command : List Bytes} {e : Error} (hassembles : Assembles w s file t o)
      (hstore : (World.host.store s.output o.text).run w = (⟨written, none⟩, after))
      (hbuild : s.build = true) (hcommand : command ∈ t.commands s.output)
      (hrun : after.run false command = .error e) :
      Ends style w s [file]
        (failure style (.wrap (utf8 "build") (.wrap (command.headD []) e)), after)

variable {style : Style} {w : World} {s : Settings} {file : Bytes}

theorem runTokens_ends (hemit : Emit.ofName? s.emit = some .tokens) :
    Ends style w s [file] ((runTokens World.host style file).run w) := by
  rw [runTokens, StateT.run_bind]
  cases hread : w.files.read file with
  | error e =>
    rw [World.host_readSource_error hread]
    exact .unreadable hread
  | ok text =>
    rw [World.host_readSource_ok hread]
    change Ends style w s [file] (showTokens style file text, w)
    rw [showTokens]
    cases htokens : Source.tokens text with
    | error e => exact .refused hemit hread htokens
    | ok toks => exact .tokens hemit hread htokens

theorem runProgram_ends (hemit : Emit.ofName? s.emit = some .program) :
    Ends style w s [file] ((runProgram World.host style file).run w) := by
  rw [runProgram, StateT.run_bind]
  cases hread : w.files.read file with
  | error e =>
    rw [World.host_readSource_error hread]
    exact .unreadable hread
  | ok text =>
    rw [World.host_readSource_ok hread]
    change Ends style w s [file] (showProgram style file text, w)
    rw [showProgram]
    cases hprogram : Source.program text with
    | error e => exact .refused hemit hread hprogram
    | ok p =>
      have hformat := (Source.program_wellFormed hprogram).format_eq
      dsimp only
      rw [hformat]
      exact .program hemit hread hprogram hformat

theorem runVars_ends {t : Target} (hemit : Emit.ofName? s.emit = some .vars)
    (htarget : Target.ofName? s.target = some t) :
    Ends style w s [file] ((runVars World.host style file ⟨t, s.output⟩).run w) := by
  rw [runVars, StateT.run_bind]
  cases hread : w.files.read file with
  | error e =>
    rw [World.host_compileFile_error _ hread]
    exact .unreadable hread
  | ok text =>
    rw [World.host_compileFile_ok _ hread]
    cases hcompile : Source.compile ⟨t, s.output⟩ text with
    | error e => exact .refused hemit hread (Source.compile_eq_error hcompile)
    | ok o => exact .vars hemit htarget hread hcompile

theorem runBuild_ends {t : Target} {o : Object} {written : Bool} {after : World}
    (hassembles : Assembles w s file t o)
    (hstore : (World.host.store s.output o.text).run w = (⟨written, none⟩, after))
    (hbuild : s.build = true) :
    Ends style w s [file] ((runBuild World.host style ⟨t, s.output⟩).run after) := by
  rw [runBuild, StateT.run_bind]
  rcases World.host_build_cases after t s.output with
    ⟨hall, hrun⟩ | ⟨command, hcommand, e, hfailed, hrun⟩
  · rw [hrun]
    exact .built hassembles hstore hbuild hall
  · rw [hrun]
    exact .unbuilt hassembles hstore hbuild hcommand hfailed

theorem runAssembly_ends {t : Target} (hemit : Emit.ofName? s.emit = some .assembly)
    (htarget : Target.ofName? s.target = some t) :
    Ends style w s [file] ((runAssembly World.host style file ⟨t, s.output⟩ s.build).run w) := by
  rw [runAssembly, StateT.run_bind]
  cases hread : w.files.read file with
  | error e =>
    rw [World.host_compileFile_error _ hread]
    exact .unreadable hread
  | ok text =>
    rw [World.host_compileFile_ok _ hread]
    cases hcompile : Source.compile ⟨t, s.output⟩ text with
    | error e => exact .refused hemit hread (Source.compile_eq_error hcompile)
    | ok o =>
      have hassembles : Assembles w s file t o := ⟨hemit, htarget, text, hread, hcompile⟩
      change Ends style w s [file] (StateT.run (World.host.store s.output o.text >>= _) w)
      rw [StateT.run_bind]
      obtain ⟨⟨written, error⟩, after, hstore⟩ :
          ∃ report after, (World.host.store s.output o.text).run w = (report, after) := ⟨_, _, rfl⟩
      rw [hstore]
      cases error with
      | some e =>
        obtain ⟨-, rfl⟩ := World.host_store_error hstore
        exact .unstored hassembles hstore
      | none =>
        cases hbuild : s.build with
        | false => exact .stored hassembles hstore hbuild
        | true => exact runBuild_ends hassembles hstore hbuild

/-- Every run with given settings and files comes to one of the endings. -/
theorem run_ends {args files : List Bytes} (h : read args = .run s files) (style : Style)
    (w : World) : Ends style w s files ((run World.host style args).run w) := by
  rw [run, h]
  dsimp only
  cases files with
  | nil => exact .misused (by simp)
  | cons file rest =>
    cases rest with
    | cons => exact .misused (by simp)
    | nil =>
      cases hemit : Emit.ofName? s.emit with
      | none =>
        simp only [Job.ofSettings, hemit]
        exact .unknownEmit file hemit
      | some emit =>
        cases emit with
        | tokens =>
          simp only [Job.ofSettings, hemit]
          exact runTokens_ends hemit
        | program =>
          simp only [Job.ofSettings, hemit]
          exact runProgram_ends hemit
        | vars =>
          cases htarget : Target.ofName? s.target with
          | none =>
            simp only [Job.ofSettings, hemit, htarget]
            exact .unknownTarget file hemit (.inl rfl) htarget
          | some t =>
            simp only [Job.ofSettings, hemit, htarget]
            exact runVars_ends hemit htarget
        | assembly =>
          cases htarget : Target.ofName? s.target with
          | none =>
            simp only [Job.ofSettings, hemit, htarget]
            exact .unknownTarget file hemit (.inr rfl) htarget
          | some t =>
            simp only [Job.ofSettings, hemit, htarget]
            exact runAssembly_ends hemit htarget

end CommandLine

end LetExit
