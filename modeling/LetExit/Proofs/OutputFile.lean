import Mathlib.Data.List.Basic
import LetExit.Proofs.CommandRuns

/-!
# The output file of a run

A run either leaves all files as they were or leaves the text of the compiled
object in the output file and nothing else changed. Which of the two it does
is settled by the files before the run, the settings and the arguments. The
exit status says whether anything went wrong. A build that fails comes after
the writing, so it does not take the output file back.
-/

set_option autoImplicit false

namespace LetExit.CommandLine

inductive WritesNothing (w : World) (s : Settings) : List Bytes → Prop
  | misused {files : List Bytes} (hfiles : files.length ≠ 1) : WritesNothing w s files
  | unreadable {file : Bytes} {e : FileError} (hread : w.files.read file = .error e) :
      WritesNothing w s [file]
  | shows (file : Bytes) {emit : Emit} (hemit : Emit.ofName? s.emit = some emit)
      (hshows : emit = .tokens ∨ emit = .program ∨ emit = .vars) : WritesNothing w s [file]
  | unknownEmit (file : Bytes) (hemit : Emit.ofName? s.emit = none) : WritesNothing w s [file]
  | unknownTarget (file : Bytes) (htarget : Target.ofName? s.target = none) :
      WritesNothing w s [file]
  | refused {file text : Bytes} {e : Error} (hread : w.files.read file = .ok text)
      (hrefuses : Emit.assembly.Refuses text e) : WritesNothing w s [file]
  | unstorable {file : Bytes} {t : Target} {o : Object} (hassembles : Assembles w s file t o)
      (hfails : w.files.StoreFails s.output o.text) : WritesNothing w s [file]

/-- What can go wrong in a run. The commands of a build are run in the world after the writing. -/
inductive GoesWrong (w : World) (s : Settings) (after : World) : List Bytes → Prop
  | misused {files : List Bytes} (hfiles : files.length ≠ 1) : GoesWrong w s after files
  | unknownEmit (file : Bytes) (hemit : Emit.ofName? s.emit = none) : GoesWrong w s after [file]
  | unknownTarget (file : Bytes) {emit : Emit} (hemit : Emit.ofName? s.emit = some emit)
      (hcompiles : emit = .vars ∨ emit = .assembly) (htarget : Target.ofName? s.target = none) :
      GoesWrong w s after [file]
  | unreadable {file : Bytes} {e : FileError} (hread : w.files.read file = .error e) :
      GoesWrong w s after [file]
  | refused {file text : Bytes} {emit : Emit} {e : Error} (hemit : Emit.ofName? s.emit = some emit)
      (hread : w.files.read file = .ok text) (hrefuses : emit.Refuses text e) :
      GoesWrong w s after [file]
  | unstorable {file : Bytes} {t : Target} {o : Object} (hassembles : Assembles w s file t o)
      (hfails : w.files.StoreFails s.output o.text) : GoesWrong w s after [file]
  | unbuilt {file : Bytes} {t : Target} {o : Object} {command : List Bytes} {e : Error}
      (hassembles : Assembles w s file t o) (hbuild : s.build = true)
      (hcommand : command ∈ t.commands s.output) (hrun : after.run false command = .error e) :
      GoesWrong w s after [file]

/-- A run that wrote what it should and nothing else, and whose exit status tells how it went. -/
structure Ran (w : World) (s : Settings) (files : List Bytes) (outcome : Outcome) (after : World) :
    Prop where
  tools : after.tools = w.tools
  kept : WritesNothing w s files → after = w
  wrote : ¬WritesNothing w s files → ∃ file t o place, files = [file] ∧ Assembles w s file t o ∧
    w.files.Stores s.output o.text after.files place ∧ after.files.read s.output = .ok o.text
  failed : GoesWrong w s after files → outcome.status = 1 ∧ outcome.out = []
  succeeded : ¬GoesWrong w s after files → outcome.status = 0 ∧ outcome.err = []

section

variable {style : Style} {w after : World} {s : Settings} {file text : Bytes} {t : Target}
variable {o : Object}

theorem Assembles.unique {t' : Target} {o' : Object} (h : Assembles w s file t o)
    (h' : Assembles w s file t' o') : t' = t ∧ o' = o := by
  obtain ⟨-, htarget, text, hread, hcompile⟩ := h
  obtain ⟨-, htarget', text', hread', hcompile'⟩ := h'
  cases htarget.symm.trans htarget'
  cases hread.symm.trans hread'
  cases hcompile.symm.trans hcompile'
  exact ⟨rfl, rfl⟩

theorem Assembles.not_writesNothing (h : Assembles w s file t o)
    (hstores : ¬w.files.StoreFails s.output o.text) : ¬WritesNothing w s [file] := by
  obtain ⟨hemit, htarget, text, hread, hcompile⟩ := id h
  intro hnothing
  cases hnothing with
  | misused hfiles => exact hfiles rfl
  | unreadable hread' => cases hread.symm.trans hread'
  | shows _ hemit' hshows =>
    cases hemit.symm.trans hemit'
    simp at hshows
  | unknownEmit _ hemit' => cases hemit.symm.trans hemit'
  | unknownTarget _ htarget' => cases htarget.symm.trans htarget'
  | refused hread' hrefuses =>
    cases hread.symm.trans hread'
    exact hrefuses.not_compile hcompile
  | unstorable hassembles hfails =>
    obtain ⟨-, rfl⟩ := h.unique hassembles
    exact hstores hfails

theorem not_goesWrong {emit : Emit} (hemit : Emit.ofName? s.emit = some emit)
    (hread : w.files.read file = .ok text) (haccepts : ∀ e, ¬emit.Refuses text e)
    (htarget : emit = .vars ∨ emit = .assembly → Target.ofName? s.target ≠ none)
    (hdone : ∀ t o, Assembles w s file t o → ¬w.files.StoreFails s.output o.text ∧
      (s.build = true → ∀ command ∈ t.commands s.output, after.run false command = .ok ())) :
    ¬GoesWrong w s after [file] := by
  intro hwrong
  cases hwrong with
  | misused hfiles => exact hfiles rfl
  | unknownEmit _ hemit' => cases hemit.symm.trans hemit'
  | unknownTarget _ hemit' hcompiles htarget' =>
    cases hemit.symm.trans hemit'
    exact htarget hcompiles htarget'
  | unreadable hread' => cases hread.symm.trans hread'
  | refused hemit' hread' hrefuses =>
    cases hemit.symm.trans hemit'
    cases hread.symm.trans hread'
    exact haccepts _ hrefuses
  | unstorable hassembles hfails => exact (hdone _ _ hassembles).1 hfails
  | unbuilt hassembles hbuild hcommand hrun =>
    rw [(hdone _ _ hassembles).2 hbuild _ hcommand] at hrun
    cases hrun

theorem not_goesWrong_of_shows {emit : Emit} (hemit : Emit.ofName? s.emit = some emit)
    (hshows : emit ≠ .assembly) (hread : w.files.read file = .ok text)
    (haccepts : ∀ e, ¬emit.Refuses text e)
    (htarget : emit = .vars → Target.ofName? s.target ≠ none) : ¬GoesWrong w s after [file] := by
  refine not_goesWrong hemit hread haccepts (fun h => htarget (h.resolve_right hshows)) ?_
  intro t o hassembles
  cases hemit.symm.trans hassembles.emit
  exact absurd rfl hshows

theorem Assembles.not_goesWrong (h : Assembles w s file t o)
    (hstores : ¬w.files.StoreFails s.output o.text)
    (hbuilt : s.build = true → ∀ command ∈ t.commands s.output, after.run false command = .ok ()) :
    ¬GoesWrong w s after [file] := by
  obtain ⟨hemit, htarget, text, hread, hcompile⟩ := id h
  refine CommandLine.not_goesWrong hemit hread (fun e hrefuses => hrefuses.not_compile hcompile)
    (by simp [htarget]) ?_
  intro t' o' hassembles
  obtain ⟨rfl, rfl⟩ := h.unique hassembles
  exact ⟨hstores, hbuilt⟩

theorem ran_of_failure {files : List Bytes} {outcome : Outcome} (hnothing : WritesNothing w s files)
    (hwrong : GoesWrong w s w files) (hstatus : outcome.status = 1) (hout : outcome.out = []) :
    Ran w s files outcome w where
  tools := rfl
  kept _ := rfl
  wrote h := absurd hnothing h
  failed _ := ⟨hstatus, hout⟩
  succeeded h := absurd hwrong h

theorem ran_of_shows (hnothing : WritesNothing w s [file]) (hwell : ¬GoesWrong w s w [file])
    (out : Bytes) : Ran w s [file] (success out) w where
  tools := rfl
  kept _ := rfl
  wrote h := absurd hnothing h
  failed h := absurd h hwell
  succeeded _ := ⟨rfl, rfl⟩

theorem Assembles.ran {outcome : Outcome} {written : Bool} (h : Assembles w s file t o)
    (hstore : (World.host.store s.output o.text).run w = (⟨written, none⟩, after))
    (hfailed : GoesWrong w s after [file] → outcome.status = 1 ∧ outcome.out = [])
    (hsucceeded : ¬GoesWrong w s after [file] → outcome.status = 0 ∧ outcome.err = []) :
    Ran w s [file] outcome after := by
  obtain ⟨hstores, htools, place, hplace⟩ := World.host_store_ok hstore
  exact ⟨htools, fun hnothing => absurd hnothing (h.not_writesNothing hstores),
    fun _ => ⟨file, t, o, place, rfl, h, hplace, hplace.read⟩, hfailed, hsucceeded⟩

theorem Ends.ran {files : List Bytes} {outcome : Outcome}
    (h : Ends style w s files (outcome, after)) : Ran w s files outcome after := by
  cases h with
  | misused hfiles => exact ran_of_failure (.misused hfiles) (.misused hfiles) rfl rfl
  | unknownEmit file hemit =>
    exact ran_of_failure (.unknownEmit file hemit) (.unknownEmit file hemit) rfl rfl
  | unknownTarget file hemit hcompiles htarget =>
    exact ran_of_failure (.unknownTarget file htarget)
      (.unknownTarget file hemit hcompiles htarget) rfl rfl
  | unreadable hread => exact ran_of_failure (.unreadable hread) (.unreadable hread) rfl rfl
  | @refused file _ emit _ hemit hread hrefuses =>
    have hnothing : WritesNothing w s [file] := by
      cases emit with
      | tokens => exact .shows file hemit (.inl rfl)
      | program => exact .shows file hemit (.inr (.inl rfl))
      | vars => exact .shows file hemit (.inr (.inr rfl))
      | assembly => exact .refused hread hrefuses
    exact ran_of_failure hnothing (.refused hemit hread hrefuses) rfl rfl
  | tokens hemit hread htokens =>
    refine ran_of_shows (.shows _ hemit (.inl rfl)) ?_ _
    exact not_goesWrong_of_shows hemit (by simp) hread (by simp [Emit.Refuses, htokens]) (by simp)
  | program hemit hread hprogram hformat =>
    refine ran_of_shows (.shows _ hemit (.inr (.inl rfl))) ?_ _
    exact not_goesWrong_of_shows hemit (by simp) hread (by simp [Emit.Refuses, hprogram]) (by simp)
  | vars hemit htarget hread hcompile =>
    refine ran_of_shows (.shows _ hemit (.inr (.inr rfl))) ?_ _
    exact not_goesWrong_of_shows hemit (by simp) hread
      (fun e hrefuses => hrefuses.not_compile hcompile) (by simp [htarget])
  | unstored hassembles hstore =>
    have hfails := (World.host_store_error hstore).1
    exact ran_of_failure (.unstorable hassembles hfails) (.unstorable hassembles hfails) rfl rfl
  | stored hassembles hstore hbuild =>
    have hstores := (World.host_store_ok hstore).1
    refine hassembles.ran hstore (fun hwrong => absurd hwrong ?_) fun _ => ⟨rfl, rfl⟩
    exact hassembles.not_goesWrong hstores (by simp [hbuild])
  | built hassembles hstore hbuild hrun =>
    have hstores := (World.host_store_ok hstore).1
    refine hassembles.ran hstore (fun hwrong => absurd hwrong ?_) fun _ => ⟨rfl, rfl⟩
    exact hassembles.not_goesWrong hstores fun _ => hrun
  | unbuilt hassembles hstore hbuild hcommand hrun =>
    have hwrong : GoesWrong w s after [_] := .unbuilt hassembles hbuild hcommand hrun
    exact hassembles.ran hstore (fun _ => ⟨rfl, rfl⟩) fun hwell => absurd hwrong hwell

end

/-- For all files, settings and arguments: a run leaves every file alone unless an accepted source
is to be assembled and can be stored, and then it leaves the compiled text in the output file and
everything else alone. Its exit status is 0 if nothing went wrong and 1 otherwise. -/
theorem run_touches_only_its_output (style : Style) (w : World) (s : Settings)
    (files : List Bytes) :
    (∃ args, read args = .run s files) ∧
    ∀ args, read args = .run s files →
      ∃ outcome after, (run World.host style args).run w = (outcome, after) ∧
        Ran w s files outcome after :=
  ⟨⟨commandLine s files, read_commandLine s files⟩,
    fun _ hargs => ⟨_, _, rfl, (run_ends hargs style w).ran⟩⟩

theorem output_outlives_failed_build :
    let source := utf8 "finu(7);"
    let w : World := ⟨(Files.empty []).put [utf8 "a.pk"] (.file source), []⟩
    let args := [utf8 "-o", utf8 "a.asm", utf8 "--target=linux", utf8 "--build", utf8 "a.pk"]
    ∃ s outcome after o place, read args = .run s [utf8 "a.pk"] ∧
      (run World.host ⟨false⟩ args).run w = (outcome, after) ∧
      Source.compile ⟨.linux, utf8 "a.asm"⟩ source = .ok o ∧
      w.files.Stores (utf8 "a.asm") o.text after.files place ∧
      after.files.read (utf8 "a.asm") = .ok o.text ∧ after.files ≠ w.files ∧
      outcome.status = 1 ∧ outcome.out = [] := by
  intro source w args
  have hargs : read args =
      .run ⟨utf8 "a.asm", utf8 "linux", utf8 "asm", true, []⟩ [utf8 "a.pk"] := by decide +kernel
  obtain ⟨outcome, after, hrun, hran⟩ :=
    (run_touches_only_its_output ⟨false⟩ w _ _).2 args hargs
  have hbefore : ¬(w.files.read (utf8 "a.asm")).isOk := by decide +kernel
  have hafter : (((run World.host ⟨false⟩ args).run w).2.files.read (utf8 "a.asm")).isOk := by
    decide +kernel
  have hstatus : ((run World.host ⟨false⟩ args).run w).1.status ≠ 0 := by decide +kernel
  rw [hrun] at hafter hstatus
  have hne : after.files ≠ w.files := by
    intro h
    rw [h] at hafter
    exact hbefore hafter
  obtain ⟨file, t, o, place, hfile, hassembles, hstores, hholds⟩ :=
    hran.wrote fun hnothing => hne (congrArg World.files (hran.kept hnothing))
  have hwrong : GoesWrong w _ after [utf8 "a.pk"] :=
    by_contra fun hwell => hstatus (hran.succeeded hwell).1
  cases hfile
  obtain ⟨-, htarget, text, hread, hcompile⟩ := hassembles
  have hlinux : Target.ofName? (utf8 "linux") = some .linux := by decide +kernel
  have hsource : w.files.read (utf8 "a.pk") = .ok source := by decide +kernel
  cases hlinux.symm.trans htarget
  cases hsource.symm.trans hread
  exact ⟨_, outcome, after, o, place, hargs, hrun, hcompile, hstores, hholds, hne,
    hran.failed hwrong⟩

end LetExit.CommandLine
