import LetExit.Proofs.CommandRuns

/-!
# What the modes of the command refuse

The modes run the same stages on a source, one more than the other. A stage
that refuses the text is the last one to be run, so every mode that comes to
it reports the same fault in the same words. A mode that accepts the text
shows what it was asked for; only storing and building can still fail.
-/

set_option autoImplicit false

namespace LetExit.CommandLine

def Emit.stages : Emit → Nat
  | .tokens => 1
  | .program => 2
  | .vars | .assembly => 3

def Emit.name : Emit → Bytes
  | .tokens => utf8 "tokens"
  | .program => utf8 "ast"
  | .vars => utf8 "vars"
  | .assembly => utf8 "asm"

theorem Emit.ofName?_name (emit : Emit) : Emit.ofName? emit.name = some emit := by
  cases emit <;> decide

section

variable {text : Bytes} {e e' : Error} {emit emit' : Emit}

theorem program_of_tokens (h : Source.tokens text = .error e) :
    Source.program text = .error e := by
  rw [Source.program, h]

theorem compile_of_program (h : Source.program text = .error e) (c : Compiler) :
    Source.compile c text = .error e := by
  rw [Source.compile, h]

theorem Emit.Refuses.mono (hstages : emit.stages ≤ emit'.stages) (h : emit.Refuses text e) :
    emit'.Refuses text e := by
  cases emit with
  | tokens =>
    have hprogram := program_of_tokens h
    cases emit' with
    | tokens => exact h
    | program => exact hprogram
    | vars | assembly => exact compile_of_program hprogram
  | program =>
    cases emit' with
    | tokens => simp [Emit.stages] at hstages
    | program => exact h
    | vars | assembly => exact compile_of_program h
  | vars | assembly =>
    cases emit' with
    | tokens | program => simp [Emit.stages] at hstages
    | vars | assembly => exact h

theorem Emit.Refuses.unique (h : emit.Refuses text e) (h' : emit.Refuses text e') : e' = e := by
  cases emit with
  | tokens => exact Except.error.inj (h'.symm.trans h)
  | program => exact Except.error.inj (h'.symm.trans h)
  | vars | assembly => exact Except.error.inj ((h' .default).symm.trans (h .default))

end

/-- A run of the command in one of its modes, on a readable file and for a known target. -/
structure ModeRun (file text : Bytes) (emit : Emit) where
  world : World
  settings : Settings
  args : List Bytes
  asks : read args = .run settings [file]
  mode : Emit.ofName? settings.emit = some emit
  target : ∃ t, Target.ofName? settings.target = some t
  source : world.files.read file = .ok text

/-- How a run ends when the stages of its mode accept the text: what was asked for is shown or
stored, or the storing or the building fails. -/
inductive Proceeds (style : Style) (file text : Bytes) : Emit → Outcome → Prop
  | tokens {toks : List Token} (htokens : Source.tokens text = .ok toks) :
      Proceeds style file text .tokens (success (toks.flatMap (tokenLine text)))
  | program {p : Program} {shown : Bytes} (hprogram : Source.program text = .ok p)
      (hformat : format (.program p) = .ok shown) :
      Proceeds style file text .program (success shown)
  | vars {c : Compiler} {o : Object} (hcompile : Source.compile c text = .ok o) :
      Proceeds style file text .vars (success (o.vars.flatMap (varLine file text)))
  | assembly {c : Compiler} {o : Object} (hcompile : Source.compile c text = .ok o) (out : Bytes) :
      Proceeds style file text .assembly (success out)
  | unstored {c : Compiler} {o : Object} (hcompile : Source.compile c text = .ok o) (e : Error) :
      Proceeds style file text .assembly (failure style (.wrap (utf8 "output") e))
  | unbuilt {c : Compiler} {o : Object} (hcompile : Source.compile c text = .ok o) (e : Error) :
      Proceeds style file text .assembly (failure style (.wrap (utf8 "build") e))

theorem Proceeds.not_refuses {style : Style} {file text : Bytes} {emit : Emit} {outcome : Outcome}
    {e : Error} (h : Proceeds style file text emit outcome) : ¬emit.Refuses text e := by
  intro hrefuses
  cases h with
  | tokens htokens => cases htokens.symm.trans hrefuses
  | program hprogram => cases hprogram.symm.trans hrefuses
  | vars hcompile => exact hrefuses.not_compile hcompile
  | assembly hcompile => exact hrefuses.not_compile hcompile
  | unstored hcompile => exact hrefuses.not_compile hcompile
  | unbuilt hcompile => exact hrefuses.not_compile hcompile

namespace ModeRun

variable {file text : Bytes} {emit emit' : Emit}

def of (emit : Emit) (w : World) (s : Settings) (target : ∃ t, Target.ofName? s.target = some t)
    (source : w.files.read file = .ok text) : ModeRun file text emit where
  world := w
  settings := { s with emit := emit.name }
  args := commandLine { s with emit := emit.name } [file]
  asks := read_commandLine _ _
  mode := emit.ofName?_name
  target := target
  source := source

def outcome (r : ModeRun file text emit) (style : Style) : Outcome :=
  ((run World.host style r.args).run r.world).1

def Reports (r : ModeRun file text emit) (style : Style) : Prop :=
  ∃ e, emit.Refuses text e ∧ r.outcome style = report style file text e

def Accepts (r : ModeRun file text emit) (style : Style) : Prop :=
  Proceeds style file text emit (r.outcome style)

theorem ending_cases {style : Style} {outcome : Outcome} {after : World}
    (r : ModeRun file text emit) (h : Ends style r.world r.settings [file] (outcome, after)) :
    (∃ e, emit.Refuses text e ∧ outcome = report style file text e) ∨
      Proceeds style file text emit outcome := by
  have hassembled : ∀ {t o}, Assembles r.world r.settings file t o →
      emit = .assembly ∧ ∃ c, Source.compile c text = .ok o := by
    rintro t o ⟨hemit, -, text', hread, hcompile⟩
    cases r.mode.symm.trans hemit
    cases r.source.symm.trans hread
    exact ⟨rfl, _, hcompile⟩
  -- an ending that does not fit the file, the mode or the target of the run cannot be its ending
  cases h with
  | misused hfiles => exact absurd rfl hfiles
  | unknownEmit _ hemit => cases r.mode.symm.trans hemit
  | unknownTarget _ hemit hcompiles htarget =>
    obtain ⟨t, htarget'⟩ := r.target
    cases htarget'.symm.trans htarget
  | unreadable hread => cases r.source.symm.trans hread
  | refused hemit hread hrefuses =>
    cases r.mode.symm.trans hemit
    cases r.source.symm.trans hread
    exact .inl ⟨_, hrefuses, rfl⟩
  | tokens hemit hread htokens =>
    cases r.mode.symm.trans hemit
    cases r.source.symm.trans hread
    exact .inr (.tokens htokens)
  | program hemit hread hprogram hformat =>
    cases r.mode.symm.trans hemit
    cases r.source.symm.trans hread
    exact .inr (.program hprogram hformat)
  | vars hemit htarget hread hcompile =>
    cases r.mode.symm.trans hemit
    cases r.source.symm.trans hread
    exact .inr (.vars hcompile)
  | unstored hassembles hstore =>
    obtain ⟨rfl, c, hcompile⟩ := hassembled hassembles
    exact .inr (.unstored hcompile _)
  | stored hassembles hstore hbuild =>
    obtain ⟨rfl, c, hcompile⟩ := hassembled hassembles
    exact .inr (.assembly hcompile _)
  | built hassembles hstore hbuild hrun =>
    obtain ⟨rfl, c, hcompile⟩ := hassembled hassembles
    exact .inr (.assembly hcompile _)
  | unbuilt hassembles hstore hbuild hcommand hrun =>
    obtain ⟨rfl, c, hcompile⟩ := hassembled hassembles
    exact .inr (.unbuilt hcompile _)

theorem reports_or_accepts (r : ModeRun file text emit) (style : Style) :
    r.Reports style ∨ r.Accepts style :=
  r.ending_cases (run_ends r.asks style r.world)

theorem outcome_of_refuses {e : Error} (r : ModeRun file text emit) (style : Style)
    (h : emit.Refuses text e) : r.outcome style = report style file text e := by
  rcases r.reports_or_accepts style with ⟨e', hrefuses, houtcome⟩ | haccepts
  · rw [houtcome, h.unique hrefuses]
  · exact absurd h haccepts.not_refuses

theorem reports_of_refuses {e : Error} (r : ModeRun file text emit) (style : Style)
    (h : emit.Refuses text e) : r.Reports style :=
  ⟨e, h, r.outcome_of_refuses style h⟩

theorem Reports.rejected {r : ModeRun file text emit} {style : Style} (h : r.Reports style) :
    (r.outcome style).status = 1 ∧ (r.outcome style).out = [] := by
  obtain ⟨e, -, houtcome⟩ := h
  rw [houtcome]
  exact ⟨rfl, rfl⟩

theorem Accepts.not_reports {r : ModeRun file text emit} {style : Style} (h : r.Accepts style) :
    ¬r.Reports style :=
  fun ⟨_, hrefuses, _⟩ => h.not_refuses hrefuses

theorem Reports.mono {r : ModeRun file text emit} {style : Style} (h : r.Reports style)
    (hstages : emit.stages ≤ emit'.stages) (r' : ModeRun file text emit') :
    r'.Reports style ∧ r'.outcome style = r.outcome style := by
  obtain ⟨e, hrefuses, houtcome⟩ := h
  have hrefuses' := hrefuses.mono hstages
  exact ⟨r'.reports_of_refuses style hrefuses',
    (r'.outcome_of_refuses style hrefuses').trans houtcome.symm⟩

theorem Accepts.mono {r : ModeRun file text emit} {style : Style} (h : r.Accepts style)
    (hstages : emit'.stages ≤ emit.stages) (r' : ModeRun file text emit') : r'.Accepts style :=
  (r'.reports_or_accepts style).resolve_left fun hreports =>
    h.not_reports (hreports.mono hstages r).1

theorem Accepts.succeeds {r : ModeRun file text emit} {style : Style} (h : r.Accepts style)
    (hemit : emit ≠ .assembly) : ∃ out, r.outcome style = success out := by
  rw [Accepts] at h
  generalize r.outcome style = outcome at h
  cases h with
  | tokens | program | vars => exact ⟨_, rfl⟩
  | assembly | unstored | unbuilt => exact absurd rfl hemit

theorem outcome_of_program {p : Program} (r : ModeRun file text .program) (style : Style)
    (h : Source.program text = .ok p) :
    ∃ shown, format (.program p) = .ok shown ∧ r.outcome style = success shown := by
  have haccepts : r.Accepts style := by
    refine (r.reports_or_accepts style).resolve_left ?_
    rintro ⟨e, hrefuses, -⟩
    cases h.symm.trans hrefuses
  rw [Accepts] at haccepts
  generalize r.outcome style = outcome at haccepts
  cases haccepts with
  | program hprogram hformat =>
    cases h.symm.trans hprogram
    exact ⟨_, hformat, rfl⟩

end ModeRun

structure RefusedLike (first outcome : Outcome) : Prop where
  status : outcome.status = 1
  out : outcome.out = []
  err : outcome.err = first.err

theorem ModeRun.Reports.refusedLike {file text : Bytes} {emit emit' : Emit} {style : Style}
    {r : ModeRun file text emit} (h : r.Reports style) (hstages : emit.stages ≤ emit'.stages)
    (r' : ModeRun file text emit') : RefusedLike (r.outcome style) (r'.outcome style) := by
  obtain ⟨hreports, houtcome⟩ := h.mono hstages r'
  exact ⟨hreports.rejected.1, hreports.rejected.2, congrArg Outcome.err houtcome⟩

/-- Agreement of runs in the four modes on one text. -/
structure Agree {file text : Bytes} (style : Style) (r : ∀ emit, ModeRun file text emit) :
    Prop where
  tokens : (r .tokens).Reports style →
    ∀ emit, RefusedLike ((r .tokens).outcome style) ((r emit).outcome style)
  program : (r .program).Reports style →
    ∀ emit, emit ≠ .tokens → RefusedLike ((r .program).outcome style) ((r emit).outcome style)
  vars_iff : (r .vars).Reports style ↔ (r .assembly).Reports style
  vars : (r .vars).Reports style →
    RefusedLike ((r .vars).outcome style) ((r .assembly).outcome style) ∧
      (r .assembly).outcome style = (r .vars).outcome style
  accepts_iff : ∀ emit, (r emit).Accepts style ↔ ¬(r emit).Reports style
  accepts_shows : ∀ emit, emit ≠ .assembly → (r emit).Accepts style →
    ∃ out, (r emit).outcome style = success out
  vars_of_assembly : (r .assembly).Accepts style → (r .vars).Accepts style
  program_of_vars : (r .vars).Accepts style → (r .program).Accepts style
  tokens_of_program : (r .program).Accepts style → (r .tokens).Accepts style
  formats : ∀ p, Source.program text = .ok p →
    ∃ shown, format (.program p) = .ok shown ∧ (r .program).outcome style = success shown

/-- Runs in the four modes on the same text agree, whatever else is on their command lines: a fault
that one mode reports is reported, in the same words and with nothing shown, by every mode that has
the same stages or more, and what one mode accepts every mode with fewer stages accepts. -/
theorem modes_agree_on_rejection (style : Style) {file text : Bytes}
    (r : ∀ emit, ModeRun file text emit) : Agree style r where
  tokens h emit := h.refusedLike (by cases emit <;> decide) (r emit)
  program h emit hemit := by
    refine h.refusedLike ?_ (r emit)
    cases emit with
    | tokens => exact absurd rfl hemit
    | program | vars | assembly => decide
  vars_iff := ⟨fun h => (h.mono (by decide) _).1, fun h => (h.mono (by decide) _).1⟩
  vars h := ⟨h.refusedLike (by decide) _, (h.mono (by decide) _).2⟩
  accepts_iff emit :=
    ⟨fun h => h.not_reports, fun h => ((r emit).reports_or_accepts style).resolve_left h⟩
  accepts_shows _ hemit h := h.succeeds hemit
  vars_of_assembly h := h.mono (by decide) _
  program_of_vars h := h.mono (by decide) _
  tokens_of_program h := h.mono (by decide) _
  formats _ hp := (r .program).outcome_of_program style hp

theorem undeclared_name_in_modes :
    let text := utf8 "jen x = y;"
    ∃ r : ∀ emit, ModeRun (utf8 "a.pk") text emit,
      (r .tokens).Accepts ⟨false⟩ ∧ (r .program).Accepts ⟨false⟩ ∧
      (r .vars).Reports ⟨false⟩ ∧ (r .assembly).Reports ⟨false⟩ ∧
      ((r .assembly).outcome ⟨false⟩).err = ((r .vars).outcome ⟨false⟩).err ∧
      ((r .vars).outcome ⟨false⟩).err =
        utf8 "a.pk:1:9: semantic error: undeclared identifier: y\n" := by
  intro text
  let w : World := ⟨(Files.empty []).put [utf8 "a.pk"] (.file text), []⟩
  let r (emit : Emit) : ModeRun (utf8 "a.pk") text emit :=
    .of emit w .default ⟨.macos, by decide +kernel⟩ (by decide +kernel)
  have hagree := modes_agree_on_rejection ⟨false⟩ r
  have hshown : ((r .program).outcome ⟨false⟩).status = 0 := by decide +kernel
  have hrefused : ((r .vars).outcome ⟨false⟩).status = 1 := by decide +kernel
  have hprogram : (r .program).Accepts ⟨false⟩ := by
    refine (hagree.accepts_iff .program).2 fun h => ?_
    rw [h.rejected.1] at hshown
    cases hshown
  have hvars : (r .vars).Reports ⟨false⟩ := by
    refine ((r .vars).reports_or_accepts ⟨false⟩).resolve_right fun h => ?_
    obtain ⟨out, hout⟩ := hagree.accepts_shows .vars (by decide) h
    rw [hout] at hrefused
    cases hrefused
  exact ⟨r, hagree.tokens_of_program hprogram, hprogram, hvars, hagree.vars_iff.1 hvars,
    (hagree.vars hvars).1.err, by decide +kernel⟩

end LetExit.CommandLine
