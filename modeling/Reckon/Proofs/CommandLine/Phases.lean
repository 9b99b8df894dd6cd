import Reckon.Proofs.CommandLine.Arguments

/-!
# Arguments that show phases

The option that shows the events of a phase is read into a list of phases, and nothing else that is
read from the arguments looks at that list.  So with phases added in front of them the arguments say
the same, or are wrong in the same way, but for the phases (`map_read_phaseArguments`).

The arguments are followed from two options that differ at most in their phases.  Every single step
keeps them so, and what a chain of steps reads then follows from `Except.map_bind_eq`.
-/

namespace Reckon.CommandLine

variable {options options' : Options} {phases : List Phase} {args : List String}

/-- The options, showing the given phases. -/
def Options.withPhases (options : Options) (phases : List Phase) : Options :=
  { options with phases := phases }

/-- What the arguments ask for, showing no phases. -/
def Request.withoutPhases : Request → Request
  | calculate options => calculate (options.withPhases [])
  | help => help
  | version => version

/-- The arguments that show the given phases. -/
def phaseArguments (phases : List Phase) : List String :=
  phases.flatMap fun phase => ["--log-enable", phase.name]

/-- Options that differ at most in their phases. -/
theorem Options.exists_withPhases (h : options.withPhases [] = options'.withPhases []) :
    ∃ phases, options' = options.withPhases phases := by
  cases options
  cases options'
  cases h
  exact ⟨_, rfl⟩

/-! ## Single options -/

theorem map_setValue (flag : Flag) (value : String)
    (h : options.withPhases [] = options'.withPhases []) :
    (options.setValue flag value).map (·.withPhases []) =
      (options'.setValue flag value).map (·.withPhases []) := by
  obtain ⟨phases, rfl⟩ := Options.exists_withPhases h
  unfold Options.setValue
  cases options with
  | mk precision maxDepth shown showTree expression =>
      cases flag with
      | precision =>
          cases precision with
          | none => cases Options.precisionOf? value <;> rfl
          | some digits => rfl
      | maxDepth =>
          cases maxDepth with
          | none => cases Options.readDepth? value <;> rfl
          | some depth => rfl
      | logEnable => cases Options.readPhase? value <;> rfl
      | tree | help | version => rfl

theorem map_setTree (h : options.withPhases [] = options'.withPhases []) :
    options.setTree.map (·.withPhases []) = options'.setTree.map (·.withPhases []) := by
  obtain ⟨phases, rfl⟩ := Options.exists_withPhases h
  cases options with
  | mk precision maxDepth shown showTree expression => cases showTree <;> rfl

theorem map_setExpression (arg : String) (h : options.withPhases [] = options'.withPhases []) :
    (options.setExpression arg).map (·.withPhases []) =
      (options'.setExpression arg).map (·.withPhases []) := by
  obtain ⟨phases, rfl⟩ := Options.exists_withPhases h
  cases options with
  | mk precision maxDepth shown showTree expression => cases expression <;> rfl

theorem map_withEnvironment (setting : Option String)
    (h : options.withPhases [] = options'.withPhases []) :
    (options.withEnvironment setting).map (·.withPhases []) =
      (options'.withEnvironment setting).map (·.withPhases []) := by
  obtain ⟨phases, rfl⟩ := Options.exists_withPhases h
  unfold Options.withEnvironment
  cases options with
  | mk precision maxDepth shown showTree expression =>
      cases precision with
      | some digits => rfl
      | none =>
          cases setting with
          | none => rfl
          | some value =>
              dsimp only [Options.withPhases]
              cases Options.precisionOf? value <;> rfl

/-! ## All arguments -/

theorem map_readPlain (h : options.withPhases [] = options'.withPhases []) (args : List String) :
    (readPlain options args).map (·.withPhases []) =
      (readPlain options' args).map (·.withPhases []) := by
  induction args generalizing options options' with
  | nil => exact congrArg Except.ok h
  | cons arg args ih =>
      exact Except.map_bind_eq (map_setExpression arg h) fun next next' _ _ hnext => ih hnext

theorem map_readArguments (h : options.withPhases [] = options'.withPhases [])
    (args : List String) :
    (readArguments options args).map Request.withoutPhases =
      (readArguments options' args).map Request.withoutPhases := by
  fun_induction readArguments options args generalizing options' with
  | case1 options => exact congrArg (fun options => Except.ok (Request.calculate options)) h
  | case2 options arg args harg =>
      rw [readArguments, harg]
      exact Except.map_bind_eq (map_readPlain h args) fun next next' _ _ hnext =>
        congrArg (fun options => Except.ok (Request.calculate options)) hnext
  | case3 options arg args harg => rw [readArguments, harg]
  | case4 options arg args harg ih =>
      rw [readArguments, harg]
      exact Except.map_bind_eq (map_setExpression arg h) fun next next' _ _ hnext => ih next hnext
  | case5 options arg args f value harg ih =>
      rw [readArguments, harg]
      exact Except.map_bind_eq (map_setValue f value h) fun next next' _ _ hnext => ih next hnext
  | case6 options arg args harg => rw [readArguments, harg]
  | case7 options arg args harg => rw [readArguments, harg]
  | case8 options arg args harg ih =>
      rw [readArguments, harg]
      exact Except.map_bind_eq (map_setTree h) fun next next' _ _ hnext => ih next hnext
  | case9 options arg f hhelp hversion htree harg value args hvalue ih =>
      simp only [readArguments, harg, hvalue, if_true]
      exact Except.map_bind_eq (map_setValue f value h) fun next next' _ _ hnext => ih next hnext
  | case10 options arg f hhelp hversion htree harg value args hvalue =>
      simp only [readArguments, harg, hvalue, Bool.false_eq_true, if_false]
  | case11 options arg f hhelp hversion htree harg => simp only [readArguments, harg]

/-- Phases in front of the arguments are added to those that are shown. -/
theorem readArguments_phaseArguments (options : Options) (phases : List Phase)
    (args : List String) :
    readArguments options (phaseArguments phases ++ args) =
      readArguments (options.withPhases (options.phases ++ phases)) args := by
  induction phases generalizing options with
  | nil =>
      rw [List.append_nil]
      rfl
  | cons phase phases ih =>
      have hform : Argument.ofString "--log-enable" = .flag .logEnable none := by rfl
      have hset : isValue phase.name ∧ options.setValue .logEnable phase.name =
          .ok (options.withPhases (options.phases ++ [phase])) := by
        cases phase <;> exact ⟨by decide +kernel, rfl⟩
      show readArguments options
        ("--log-enable" :: phase.name :: (phaseArguments phases ++ args)) = _
      rw [readArguments, hform]
      dsimp only
      rw [if_pos hset.1, hset.2]
      show readArguments _ _ = _
      rw [ih]
      simp [Options.withPhases]

theorem map_read_phaseArguments (phases : List Phase) (args : List String)
    (setting : Option String) :
    (Request.read (phaseArguments phases ++ args) setting).map Request.withoutPhases =
      (Request.read args setting).map Request.withoutPhases := by
  unfold Request.read
  rw [readArguments_phaseArguments]
  have hread := map_readArguments
    (show (Options.empty.withPhases (Options.empty.phases ++ phases)).withPhases [] =
      Options.empty.withPhases [] from rfl) args
  refine Except.map_bind_eq hread fun request request' _ _ h => ?_
  cases request with
  | help => cases request' <;> first | rfl | cases h
  | version => cases request' <;> first | rfl | cases h
  | calculate options =>
      cases request' with
      | help | version => cases h
      | calculate options' =>
          exact Except.map_bind_eq (map_withEnvironment setting (Request.calculate.inj h))
            fun next next' _ _ hnext => congrArg (fun o => Except.ok (Request.calculate o)) hnext

end Reckon.CommandLine
