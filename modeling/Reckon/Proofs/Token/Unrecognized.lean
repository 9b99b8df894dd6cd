import Reckon.Proofs.Token.Spacing

/-!
# The first character that starts no token

A text that cannot be cut into tokens has a stray character: one that is neither blank nor part of a
token (`StrayAt`).  A point is part of a token only between the digits of a number, that is,
directly behind a number that has no point yet and directly in front of a digit.  The scanner fails
exactly when there is a stray character, and names the first one (`scan_error_at_first_stray`).

Strategy.  At every moment the text in front of the scanner is laid out with the tokens that it has
cut, so that text by itself would have been cut into them too, and it is severed from what follows:
no number in it goes on there (`Reached`).  The invariant is kept by a blank, by a number and by a
token of one character.  Where the scanner stops it says that the character there is stray, and on
the way that the characters it has passed are not.
-/

namespace Reckon.Token

open Decimal

variable {token : Token} {tokens tokens' before : List Token} {position : ℕ} {c d : Char}
  {whole front text rest : List Char}

/-! ## Stray characters -/

/-- Whether the text ends with a number that has no point. -/
def EndsWithWhole (front : List Char) : Prop :=
  ∃ (tokens : List Token) (literal : String),
    scan (String.ofList front) = .ok (tokens ++ [number literal]) ∧ '.' ∉ literal.toList ∧
      literal.toList <:+ front

/-- The character at the position is neither blank nor part of a token. -/
structure StrayAt (text : List Char) (position : ℕ) (c : Char) : Prop where
  getElem?_eq : text[position]? = some c
  not_blank : ¬isBlank c
  not_digit : ¬c.isDigit
  not_symbol : ¬Operator.isSymbol c
  not_parenthesis : c ≠ '(' ∧ c ≠ ')'
  /-- A point is no part of a number there. -/
  not_inside : c = '.' →
    ¬(EndsWithWhole (text.take position) ∧ ∃ d ∈ text[position + 1]?, d.isDigit)

/-! ## Layouts put together -/

/-- A numeral ends with a digit. -/
theorem isDigit_getLast_numeral {value : Decimal} (h : Numeral text value) :
    ∃ c ∈ text.getLast?, c.isDigit := by
  cases h with
  | whole hne hdigits =>
      exact ⟨_, List.getLast?_eq_some_getLast hne, hdigits _ (List.getLast_mem hne)⟩
  | @point integral fraction hne hdigits hne' hdigits' =>
      refine ⟨fraction.getLast hne', ?_, hdigits' _ (List.getLast_mem hne')⟩
      rw [List.append_cons]
      exact List.mem_getLast?_append_of_mem_getLast? (List.getLast?_eq_some_getLast hne')

/-- A layout goes on with another one, if no number that ends there runs into digits. -/
theorem Layout.append (h : Layout tokens front) (h' : Layout tokens' text)
    (hend : ∀ c ∈ front.getLast?, c.isDigit → ∀ d ∈ text.head?, d.isDigit = false) :
    Layout (tokens ++ tokens') (front ++ text) := by
  have hlater : ∀ (earlier : List Char) {later : List Char},
      (∀ c ∈ (earlier ++ later).getLast?, c.isDigit → ∀ d ∈ text.head?, d.isDigit = false) →
      ∀ c ∈ later.getLast?, c.isDigit → ∀ d ∈ text.head?, d.isDigit = false :=
    fun _ _ hend c hc => hend c (List.mem_getLast?_append_of_mem_getLast? hc)
  induction h with
  | nil => exact h'
  | @blank c tokens front hc h ih => exact .blank hc (ih (hlater [c] hend))
  | @number literal tokens front hreadable hdigit h ih =>
      rw [List.append_assoc]
      refine .number hreadable ?_ (ih (hlater _ hend))
      cases front with
      | cons c front => exact hdigit
      | nil =>
          -- the number itself ends there
          obtain ⟨d, hd⟩ := hreadable
          obtain ⟨c, hc, hcdigit⟩ := isDigit_getLast_numeral hd
          rw [List.append_nil] at hend
          exact hend c hc hcdigit
  | @symbol c tokens front hc h ih => exact .symbol hc (ih (hlater [c] hend))
  | leftParen h ih => exact .leftParen (ih (hlater ['('] hend))
  | rightParen h ih => exact .rightParen (ih (hlater [')'] hend))

theorem endsWithWhole_of_layout {earlier : List Char} {literal : String}
    (h : Layout (tokens ++ [number literal]) (earlier ++ literal.toList))
    (hpoint : '.' ∉ literal.toList) : EndsWithWhole (earlier ++ literal.toList) :=
  ⟨tokens, literal, scan_of_layout h, hpoint, earlier, rfl⟩

/-- A text that ends with a number ends with a digit. -/
theorem EndsWithWhole.isDigit_getLast (h : EndsWithWhole front) :
    ∃ c ∈ front.getLast?, c.isDigit := by
  obtain ⟨tokens, literal, hscan, -, earlier, rfl⟩ := h
  obtain ⟨⟨value, hvalue⟩, -⟩ := of_mem_scan hscan (number literal) (by simp)
  obtain ⟨c, hc, hdigit⟩ := isDigit_getLast_numeral hvalue
  exact ⟨c, List.mem_getLast?_append_of_mem_getLast? hc, hdigit⟩

/-- So one that ends with anything else does not. -/
theorem not_endsWithWhole_concat (hc : c.isDigit = false) : ¬EndsWithWhole (front ++ [c]) := by
  intro h
  obtain ⟨d, hd, hdigit⟩ := h.isDigit_getLast
  rw [List.getLast?_append, List.getLast?_singleton, Option.some_or] at hd
  cases hd
  rw [hc] at hdigit
  cases hdigit

/-! ## What the scanner has passed -/

/-- Whether the text goes on with a point and a digit. -/
def StartsFraction (text : List Char) : Prop := ∃ d rest, text = '.' :: d :: rest ∧ d.isDigit

/-- The whole text consists of what has been cut into the tokens before, and of the text that is
left.  No number in front goes on behind. -/
structure Reached (whole front : List Char) (before : List Token) (text : List Char) : Prop where
  whole_eq : whole = front ++ text
  layout : Layout before.reverse front
  digits_end : ∀ c ∈ front.getLast?, c.isDigit → ∀ d ∈ text.head?, d.isDigit = false
  no_fraction : EndsWithWhole front → ¬StartsFraction text

theorem reached_start (whole : List Char) : Reached whole [] [] whole where
  whole_eq := rfl
  layout := .nil
  digits_end := by simp
  no_fraction h := by
    obtain ⟨c, hc, -⟩ := h.isDigit_getLast
    cases hc

/-- A number that was cut without a point is not followed by a fraction. -/
theorem not_startsFraction_splitNumber (h : '.' ∉ (splitNumber text).1) :
    ¬StartsFraction (splitNumber text).2 := by
  rintro ⟨d, rest, heq, hd⟩
  unfold splitNumber at h heq
  dsimp only at h heq
  split at heq
  · next later hdrop =>
    split at heq
    · next hempty =>
      cases heq
      simp [hd] at hempty
    · next hfraction =>
      rw [hdrop] at h
      simp [hfraction] at h
  · next hother => exact hother (d :: rest) heq

namespace Reached

/-- A character that is no digit has been passed, with the tokens that it is. -/
theorem concat (h : Reached whole front before (c :: text)) (hc : c.isDigit = false)
    (hlayout : Layout tokens [c]) :
    Reached whole (front ++ [c]) (tokens.reverse ++ before) text where
  whole_eq := by rw [h.whole_eq, List.append_assoc, List.singleton_append]
  layout := by
    rw [List.reverse_append, List.reverse_reverse]
    exact h.layout.append hlayout h.digits_end
  digits_end := by simp [hc]
  no_fraction hwhole := (not_endsWithWhole_concat hc hwhole).elim

/-- The first digits of a number may be laid out by themselves. -/
theorem layout_number (h : Reached whole front before (c :: text)) (hc : c.isDigit)
    {literal : String} (hreadable : (number literal).Readable) :
    Layout (before.reverse ++ [number literal]) (front ++ literal.toList) := by
  have hnumber := Layout.number hreadable (by simp) .nil
  rw [List.append_nil] at hnumber
  refine h.layout.append hnumber fun last hlast hdigit => ?_
  rw [h.digits_end last hlast hdigit c rfl] at hc
  cases hc

/-- The next character stands behind what has been passed. -/
theorem getElem?_length (h : Reached whole front before (c :: text))
    (hposition : position = front.length) (hstray : StrayAt whole position d) : c = d := by
  have hmem := hstray.getElem?_eq
  rw [h.whole_eq, hposition, List.getElem?_append_right le_rfl, Nat.sub_self] at hmem
  exact Option.some.inj hmem

/-- A number has been passed. -/
theorem append_number (h : Reached whole front before (c :: text)) (hc : c.isDigit) :
    Reached whole (front ++ (splitNumber (c :: text)).1)
      (number (String.ofList (splitNumber (c :: text)).1) :: before)
      (splitNumber (c :: text)).2 := by
  have hreadable : (number (String.ofList (splitNumber (c :: text)).1)).Readable := by
    simpa [Readable] using exists_numeral_splitNumber hc
  have hlayout := h.layout_number hc hreadable
  rw [String.toList_ofList] at hlayout
  refine ⟨?_, ?_, fun _ _ _ => isDigit_head_splitNumber (c :: text), ?_⟩
  · rw [h.whole_eq, List.append_assoc, splitNumber_append]
  · rwa [List.reverse_cons]
  · rintro ⟨tokens, literal, hscan, hpoint, -⟩
    -- the last token of what has been passed is the number that was cut
    obtain ⟨-, hlast⟩ := List.append_inj' (Except.ok.inj
      ((scan_of_layout hlayout).symm.trans hscan)) rfl
    cases hlast
    rw [String.toList_ofList] at hpoint
    exact not_startsFraction_splitNumber hpoint

/-- No character of a number is stray: the digits are not, and the point stands between them. -/
theorem not_strayAt_number (h : Reached whole front before (c :: text)) (hc : c.isDigit) {i : ℕ}
    (hi : i < (splitNumber (c :: text)).1.length) : ¬StrayAt whole (front.length + i) d := by
  intro hstray
  obtain ⟨value, hvalue⟩ : ∃ value, Numeral (splitNumber (c :: text)).1 value :=
    exists_numeral_splitNumber hc
  have hwhole : whole = front ++ ((splitNumber (c :: text)).1 ++ (splitNumber (c :: text)).2) := by
    rw [splitNumber_append, h.whole_eq]
  generalize (splitNumber (c :: text)).1 = literal at hi hvalue hwhole
  generalize (splitNumber (c :: text)).2 = remaining at hwhole
  have hd : literal[i]? = some d := by
    rw [← hstray.getElem?_eq, hwhole, List.getElem?_append_right (Nat.le_add_right _ _),
      Nat.add_sub_cancel_left, List.getElem?_append_left hi]
  cases hvalue with
  | whole hne hdigits => exact hstray.not_digit (hdigits d (List.mem_of_getElem? hd))
  | @point integral fraction hne hdigits hne' hdigits' =>
      rcases lt_trichotomy i integral.length with hlt | rfl | hgt
      · rw [List.getElem?_append_left hlt] at hd
        exact hstray.not_digit (hdigits d (List.mem_of_getElem? hd))
      · rw [List.getElem?_append_right le_rfl, Nat.sub_self] at hd
        cases hd
        -- the digits in front of the point are a number by themselves
        have hreadable : (number (String.ofList integral)).Readable :=
          ⟨_, by rw [String.toList_ofList]; exact .whole hne hdigits⟩
        have hfront := h.layout_number hc hreadable
        obtain ⟨first, later, rfl⟩ := List.exists_cons_of_ne_nil hne'
        refine hstray.not_inside rfl ⟨?_, first, ?_, hdigits' first List.mem_cons_self⟩
        · have htake : whole.take (front.length + integral.length) =
              front ++ (String.ofList integral).toList := by
            rw [String.toList_ofList, hwhole, List.take_length_add_append, List.append_assoc,
              List.take_left' rfl]
          rw [htake]
          refine endsWithWhole_of_layout hfront fun hpoint => ?_
          rw [String.toList_ofList] at hpoint
          exact absurd (hdigits '.' hpoint) (by decide)
        · simp [hwhole, List.getElem?_append_right, Nat.add_assoc]
      · rw [List.getElem?_append_right hgt.le, List.getElem?_cons, if_neg (by omega)] at hd
        exact hstray.not_digit (hdigits' d (List.mem_of_getElem? hd))

end Reached

theorem of_ofChar?_eq_none (h : ofChar? c = none) :
    ¬Operator.isSymbol c ∧ c ≠ '(' ∧ c ≠ ')' := by
  have hnone : ∀ token, ofChar? c ≠ some token := by simp [h]
  exact ⟨fun hc => hnone _ (ofChar?_eq_some_iff.2 (Or.inl ⟨rfl, hc⟩)),
    fun hc => hnone _ (ofChar?_eq_some_iff.2 (Or.inr (Or.inl ⟨rfl, hc⟩))),
    fun hc => hnone _ (ofChar?_eq_some_iff.2 (Or.inr (Or.inr ⟨rfl, hc⟩)))⟩

/-! ## The run of the scanner -/

/-- A token of one character is laid out by that character, which is no digit. -/
theorem layout_of_ofChar? (h : ofChar? c = some token) :
    Layout [token] [c] ∧ ¬(¬Operator.isSymbol c ∧ c ≠ '(' ∧ c ≠ ')') := by
  obtain ⟨rfl, hc⟩ | ⟨rfl, rfl⟩ | ⟨rfl, rfl⟩ := ofChar?_eq_some_iff.1 h
  · exact ⟨.symbol hc .nil, fun hnot => hnot.1 hc⟩
  · exact ⟨.leftParen .nil, fun hnot => hnot.2.1 rfl⟩
  · exact ⟨.rightParen .nil, fun hnot => hnot.2.2 rfl⟩

/-- The character that the scanner names is stray, and what stands in front of it is laid out. -/
theorem strayAt_of_scanFrom {e : ScanError} (h : scanFrom before position text = .error e)
    (hreached : Reached whole front before text) (hposition : position = front.length) :
    StrayAt whole e.position e.character ∧ ∃ tokens, Layout tokens (whole.take e.position) := by
  fun_induction scanFrom before position text generalizing front with
  | case1 => cases h
  | case2 before position c rest hblank ih =>
      exact ih h (hreached.concat (isDigit_of_isBlank hblank) (.blank hblank .nil))
        (by simp [hposition])
  | case3 before position c rest hblank hdigit ih =>
      exact ih h (hreached.append_number hdigit) (by simp [hposition])
  | case4 before position c rest hblank hdigit token htoken ih =>
      exact ih h (hreached.concat (by simpa using hdigit) (layout_of_ofChar? htoken).1)
        (by simp [hposition])
  | case5 before position c rest hblank hdigit htoken =>
      cases h
      obtain ⟨hsymbol, hparenthesis⟩ := of_ofChar?_eq_none htoken
      have htake : whole.take position = front := by
        rw [hreached.whole_eq, hposition, List.take_left' rfl]
      rw [htake]
      refine ⟨⟨?_, hblank, hdigit, hsymbol, hparenthesis, ?_⟩, _, hreached.layout⟩
      · rw [hreached.whole_eq, hposition, List.getElem?_append_right le_rfl, Nat.sub_self]
        rfl
      · rintro rfl ⟨hwhole, d, hd, hdigit⟩
        rw [htake] at hwhole
        cases rest with
        | nil => simp [hreached.whole_eq, hposition] at hd
        | cons next rest =>
            have hnext : next = d := by
              simpa [hreached.whole_eq, hposition, List.getElem?_append_right] using hd
            exact hreached.no_fraction hwhole ⟨next, rest, rfl, hnext ▸ hdigit⟩

/-- The scanner does not get past a stray character. -/
theorem exists_error_of_strayAt (hreached : Reached whole front before text)
    (hposition : position = front.length) {q : ℕ} (hq : position ≤ q) (hstray : StrayAt whole q d) :
    ∃ e, scanFrom before position text = .error e ∧ e.position ≤ q := by
  fun_induction scanFrom before position text generalizing front with
  | case1 before position =>
      have hmem := hstray.getElem?_eq
      rw [hreached.whole_eq, List.append_nil, List.getElem?_eq_none (by omega)] at hmem
      cases hmem
  | case2 before position c rest hblank ih =>
      refine ih (hreached.concat (isDigit_of_isBlank hblank) (.blank hblank .nil))
        (by simp [hposition]) (hq.lt_of_ne ?_)
      rintro rfl
      rw [hreached.getElem?_length hposition hstray] at hblank
      exact hstray.not_blank hblank
  | case3 before position c rest hblank hdigit ih =>
      refine ih (hreached.append_number hdigit) (by simp [hposition]) ?_
      by_contra hinside
      obtain ⟨i, rfl⟩ := Nat.exists_eq_add_of_le hq
      rw [hposition] at hstray
      exact hreached.not_strayAt_number hdigit (by omega) hstray
  | case4 before position c rest hblank hdigit token htoken ih =>
      obtain ⟨hlayout, htoken⟩ := layout_of_ofChar? htoken
      refine ih (hreached.concat (by simpa using hdigit) hlayout) (by simp [hposition])
        (hq.lt_of_ne ?_)
      rintro rfl
      rw [hreached.getElem?_length hposition hstray] at htoken
      exact htoken ⟨hstray.not_symbol, hstray.not_parenthesis⟩
  | case5 before position c rest hblank hdigit htoken => exact ⟨_, rfl, hq⟩

/-- A text that cannot be cut into tokens is reported with its first stray character, counted in
characters, and what stands in front of that can be cut.  Every text with a stray character is
reported so.  The character may be a point, if it does not stand between the digits of a number. -/
theorem scan_error_at_first_stray :
    (∀ (source : String) (c : Char) (position : ℕ), scan source = .error ⟨c, position⟩ →
      position < source.length ∧ StrayAt source.toList position c ∧
        (∃ tokens, scan (String.ofList (source.toList.take position)) = .ok tokens) ∧
        ∀ later d, StrayAt source.toList later d → position ≤ later) ∧
      (∀ (source : String) (later : ℕ) (d : Char), StrayAt source.toList later d →
        ∃ c position, scan source = .error ⟨c, position⟩ ∧ position ≤ later) ∧
      scan "1." = .error ⟨'.', 1⟩ := by
  have hfirst : ∀ {source : String} {later : ℕ} {d : Char}, StrayAt source.toList later d →
      ∃ e, scan source = .error e ∧ e.position ≤ later := fun hstray =>
    exists_error_of_strayAt (reached_start _) rfl (Nat.zero_le _) hstray
  refine ⟨fun source c position h => ?_, fun source later d hstray => ?_, by decide +kernel⟩
  · obtain ⟨hstray, tokens, hlayout⟩ := strayAt_of_scanFrom h (reached_start _) rfl
    refine ⟨?_, hstray, ⟨tokens, scan_of_layout hlayout⟩, fun later d hlater => ?_⟩
    · rw [← String.length_toList]
      exact (List.getElem?_eq_some_iff.1 hstray.getElem?_eq).1
    · obtain ⟨e, he, hle⟩ := hfirst hlater
      cases h.symm.trans he
      exact hle
  · obtain ⟨⟨c, position⟩, he, hle⟩ := hfirst hstray
    exact ⟨c, position, he, hle⟩

/-- A number takes one point, so the second is stray; and a stray sign later on does not matter. -/
theorem second_point_is_stray :
    scan "1.5.2#" = .error ⟨'.', 3⟩ ∧ StrayAt "1.5.2#".toList 3 '.' ∧
      (∃ tokens, scan (String.ofList ("1.5.2#".toList.take 3)) = .ok tokens) ∧
      StrayAt "1.5.2#".toList 5 '#' ∧
      ∃ c position, scan "1.5.2#" = .error ⟨c, position⟩ ∧ position ≤ 5 := by
  have hscan : scan "1.5.2#" = .error ⟨'.', 3⟩ := by decide +kernel
  have hsign : StrayAt "1.5.2#".toList 5 '#' :=
    ⟨by decide, by decide, by decide, by decide, by decide, fun h => absurd h (by decide)⟩
  obtain ⟨-, hstray, hfront, -⟩ := scan_error_at_first_stray.1 _ _ _ hscan
  exact ⟨hscan, hstray, hfront, hsign, scan_error_at_first_stray.2.1 _ _ _ hsign⟩

end Reckon.Token
