import Reckon.CommandLine
import Reckon.Proofs.Except

/-!
# Arguments with an expression added

Arguments that leave the expression open have all been read as options or as the values of options,
so an expression can be added behind them (`readArguments_append`).  A `--` in front of it keeps it
from being taken for an option or for a value; it is left out only where the options have been
ended already.

The answer to the added expression is given under the options and limits of the arguments that it
was added to (`exists_ofArguments_append`).
-/

namespace Reckon.CommandLine

variable {options options' : Options} {limits : Limits} {args : List String}
  {precision : Option String} {source : String}

/-- The options with an expression to evaluate. -/
def Options.withExpression (options : Options) (source : String) : Options :=
  { options with expression := some source }

/-! ## Arguments that are no options -/

theorem readPlain_singleton (hnone : options.expression = none) (source : String) :
    readPlain options [source] = .ok (options.withExpression source) := by
  have hset : options.setExpression source = .ok (options.withExpression source) := by
    unfold Options.setExpression
    rw [hnone]
    rfl
  unfold readPlain
  rw [hset]
  rfl

theorem isSome_of_setExpression (h : options.setExpression source = .ok options') :
    options.expression = none ∧ options'.expression = some source := by
  unfold Options.setExpression at h
  split at h
  · cases h
  · next hnone =>
    cases h
    exact ⟨by simpa using hnone, rfl⟩

/-- Where such arguments leave the expression open, there were none. -/
theorem eq_nil_of_readPlain (h : readPlain options args = .ok options')
    (hnone : options'.expression = none) : args = [] ∧ options' = options := by
  cases args with
  | nil =>
      cases h
      exact ⟨rfl, rfl⟩
  | cons arg args =>
      obtain ⟨next, hnext, h⟩ := Except.bind_eq_ok_iff.1 h
      have hnext := (isSome_of_setExpression hnext).2
      cases args with
      | nil =>
          cases h
          rw [hnone] at hnext
          cases hnext
      | cons arg args =>
          obtain ⟨last, hlast, -⟩ := Except.bind_eq_ok_iff.1 h
          rw [(isSome_of_setExpression hlast).1] at hnext
          cases hnext

/-! ## Options -/

/-- The argument that sets an option may come first. -/
private theorem append_of_bind {x : Except UsageError Options}
    (h : (do readArguments (← x) args) = .ok (.calculate options'))
    (hrest : ∀ next, readArguments next args = .ok (.calculate options') →
      ∃ suffix ∈ [[source], ["--", source]],
        readArguments next (args ++ suffix) = .ok (.calculate (options'.withExpression source))) :
    ∃ suffix ∈ [[source], ["--", source]],
      (do readArguments (← x) (args ++ suffix)) =
        .ok (.calculate (options'.withExpression source)) := by
  obtain ⟨next, rfl, h⟩ := Except.bind_eq_ok_iff.1 h
  exact hrest next h

theorem readArguments_append (h : readArguments options args = .ok (.calculate options'))
    (hnone : options'.expression = none) (source : String) :
    ∃ suffix ∈ [[source], ["--", source]],
      readArguments options (args ++ suffix) =
        .ok (.calculate (options'.withExpression source)) := by
  fun_induction readArguments options args with
  | case1 options =>
      cases h
      have hend : Argument.ofString "--" = .endOfOptions := by rfl
      refine ⟨["--", source], by simp, ?_⟩
      rw [List.nil_append, readArguments, hend]
      dsimp only
      rw [readPlain_singleton hnone]
      rfl
  | case2 options arg args harg =>
      obtain ⟨plain, hplain, h⟩ := Except.bind_eq_ok_iff.1 h
      cases h
      obtain ⟨rfl, rfl⟩ := eq_nil_of_readPlain hplain hnone
      refine ⟨[source], by simp, ?_⟩
      rw [List.singleton_append, readArguments, harg]
      dsimp only
      rw [readPlain_singleton hnone]
      rfl
  | case4 options arg args harg ih =>
      obtain ⟨suffix, hsuffix, hread⟩ := append_of_bind h ih
      exact ⟨suffix, hsuffix, by simpa only [List.cons_append, readArguments, harg] using hread⟩
  | case5 options arg args f value harg ih =>
      obtain ⟨suffix, hsuffix, hread⟩ := append_of_bind h ih
      exact ⟨suffix, hsuffix, by simpa only [List.cons_append, readArguments, harg] using hread⟩
  | case8 options arg args harg ih =>
      obtain ⟨suffix, hsuffix, hread⟩ := append_of_bind h ih
      exact ⟨suffix, hsuffix, by simpa only [List.cons_append, readArguments, harg] using hread⟩
  | case9 options arg f hhelp hversion htree harg value args hvalue ih =>
      -- the value of the option is an argument of its own
      obtain ⟨suffix, hsuffix, hread⟩ := append_of_bind h ih
      refine ⟨suffix, hsuffix, ?_⟩
      simpa only [List.cons_append, readArguments, harg, hvalue, if_true] using hread
  | case3 | case6 | case7 | case10 | case11 => cases h

/-! ## What there is to do -/

theorem expression_withEnvironment (h : options.withEnvironment precision = .ok options') :
    options'.expression = options.expression := by
  unfold Options.withEnvironment at h
  split at h
  · obtain ⟨digits, -, h⟩ := Except.bind_eq_ok_iff.1 h
    cases h
    rfl
  · cases h
    rfl

theorem withEnvironment_withExpression (h : options.withEnvironment precision = .ok options')
    (source : String) :
    (options.withExpression source).withEnvironment precision =
      .ok (options'.withExpression source) := by
  unfold Options.withEnvironment at *
  dsimp only [Options.withExpression]
  split at h
  · obtain ⟨digits, hdigits, h⟩ := Except.bind_eq_ok_iff.1 h
    cases h
    rw [hdigits]
    rfl
  · cases h
    rfl

theorem read_append (h : Request.read args precision = .ok (.calculate options))
    (hnone : options.expression = none) (source : String) :
    ∃ suffix ∈ [[source], ["--", source]],
      Request.read (args ++ suffix) precision =
        .ok (.calculate (options.withExpression source)) := by
  obtain ⟨request, hrequest, h⟩ := Except.bind_eq_ok_iff.1 h
  cases request with
  | help => cases h
  | version => cases h
  | calculate given =>
      obtain ⟨options', henvironment, h⟩ := Except.bind_eq_ok_iff.1 h
      cases h
      have hgiven : given.expression = none := by
        rw [← expression_withEnvironment henvironment, hnone]
      obtain ⟨suffix, hsuffix, hread⟩ := readArguments_append hrequest hgiven source
      refine ⟨suffix, hsuffix, ?_⟩
      unfold Request.read
      rw [hread]
      show ((given.withExpression source).withEnvironment precision).bind _ = _
      rw [withEnvironment_withExpression henvironment]
      rfl

theorem exists_ofArguments_append
    (h : Plan.ofArguments args precision = .answerInput options limits) (source : String) :
    ∃ suffix ∈ [[source], ["--", source]],
      Plan.ofArguments (args ++ suffix) precision =
        .respond (answerExpression options limits source).toResponse := by
  unfold Plan.ofArguments at h
  split at h
  · cases h
  · cases h
  · cases h
  · next given hread =>
    split at h
    · cases h
    · next set hlimits =>
      split at h
      · cases h
      · next hnone =>
        cases h
        obtain ⟨suffix, hsuffix, happended⟩ := read_append hread hnone source
        refine ⟨suffix, hsuffix, ?_⟩
        have hsame : (options.withExpression source).limits = .ok limits := hlimits
        unfold Plan.ofArguments
        rw [happended]
        dsimp only
        rw [hsame]
        rfl

end Reckon.CommandLine
