import Reckon.Proofs.Token.Layout

/-!
# Cutting a text undoes laying it out

A text is spaced out when it is made of the texts of tokens, in their order, with a gap of blanks
in front of them and behind each one (`LaidOut`).  A gap may be empty, except between two numbers:
there the digits would run together.  Exactly the texts that are spaced out are cut into tokens,
and what is found are the tokens that they are spaced out with (`scan_eq_ok_iff_laidOut`).

`Layout` is the same relation, read from the front of the text one character or token at a time,
with the condition on numbers turned into one on the next character.  One direction of the main
result follows the scanner and builds a layout, for which a number has to be cut off as late as
possible (`isDigit_head_splitNumber`) and what is cut as a symbol has to be that of an operator
(`ofChar?_eq_some_iff`).  The other direction is `scanFrom_of_layout`, for which no operator may be
missing among the scanner's symbols.
-/

namespace Reckon.Token

variable {token : Token} {tokens : List Token} {text front gap : List Char}
  {spacing : List (Token × List Char)}

/-! ## Texts spaced out -/

def IsNumber : Token → Prop
  | number _ => True
  | symbol _ | leftParen | rightParen => False

/-- The texts of the tokens in their order, with a gap in front and one behind each token. -/
def spaced (front : List Char) : List (Token × List Char) → List Char
  | [] => front
  | (token, gap) :: spacing => front ++ token.text.toList ++ spaced gap spacing

/-- Whether a token and the gap behind it leave the next token apart. -/
def Apart (first second : Token × List Char) : Prop :=
  first.1.IsNumber → second.1.IsNumber → first.2 ≠ []

/-- The text is made of the tokens, each of which can be cut from a text, and of blanks, at least
one of them between two numbers. -/
def LaidOut (tokens : List Token) (text : List Char) : Prop :=
  ∃ (front : List Char) (spacing : List (Token × List Char)),
    spacing.map Prod.fst = tokens ∧ spaced front spacing = text ∧
      (∀ c ∈ front, isBlank c) ∧
      (∀ s ∈ spacing, s.1.Readable ∧ ∀ c ∈ s.2, isBlank c) ∧
      spacing.IsChain Apart

/-! ## From the front of the text -/

theorem layout_blanks (hfront : ∀ c ∈ front, isBlank c) (h : Layout tokens text) :
    Layout tokens (front ++ text) := by
  induction front with
  | nil => exact h
  | cons c front ih =>
      exact .blank (hfront c List.mem_cons_self)
        (ih fun c' hc' => hfront c' (List.mem_cons_of_mem c hc'))

theorem toList_text_symbol (c : Char) : (symbol c).text.toList = [c] := by
  simp [Token.text]

theorem isDigit_of_isBlank {c : Char} (h : isBlank c) : c.isDigit = false := by
  rw [Bool.eq_false_iff]
  intro hdigit
  rw [isBlank_of_isDigit hdigit] at h
  cases h

/-- A token that is no number does not start with a digit. -/
private theorem isDigit_head_text (hreadable : token.Readable) (hnumber : ¬ token.IsNumber)
    (rest : List Char) : ∀ c ∈ (token.text.toList ++ rest).head?, c.isDigit = false := by
  intro c hc
  cases token with
  | number literal => exact absurd trivial hnumber
  | symbol s =>
      obtain ⟨op, rfl⟩ := exists_symbol_eq hreadable
      rw [toList_text_symbol] at hc
      cases hc
      exact (symbol_facts op).2.1
  | leftParen | rightParen =>
      cases hc
      decide

/-- Behind a number and its gap the text does not go on with a digit. -/
private theorem isDigit_head_spaced (hgap : ∀ c ∈ gap, isBlank c)
    (hreadable : ∀ s ∈ spacing, s.1.Readable ∧ ∀ c ∈ s.2, isBlank c) (hnumber : token.IsNumber)
    (hchain : ((token, gap) :: spacing).IsChain Apart) :
    ∀ c ∈ (spaced gap spacing).head?, c.isDigit = false := by
  intro c hc
  cases gap with
  | cons blank gap =>
      have hhead : (spaced (blank :: gap) spacing).head? = some blank := by
        cases spacing <;> rfl
      rw [hhead] at hc
      cases hc
      exact isDigit_of_isBlank (hgap c List.mem_cons_self)
  | nil =>
      cases spacing with
      | nil => cases hc
      | cons next spacing =>
          obtain ⟨next, gap'⟩ := next
          have hapart := (List.isChain_cons_cons.1 hchain).1
          -- without a blank between them the next token cannot be a number
          have hnext : ¬ next.IsNumber := fun h => hapart hnumber h rfl
          obtain ⟨hreadable, -⟩ := hreadable _ List.mem_cons_self
          exact isDigit_head_text hreadable hnext _ c hc

/-- A text that is spaced out is laid out from its front. -/
theorem layout_spaced (hfront : ∀ c ∈ front, isBlank c)
    (hspacing : ∀ s ∈ spacing, s.1.Readable ∧ ∀ c ∈ s.2, isBlank c)
    (hchain : spacing.IsChain Apart) :
    Layout (spacing.map Prod.fst) (spaced front spacing) := by
  induction spacing generalizing front with
  | nil =>
      have h := layout_blanks hfront .nil
      rwa [List.append_nil] at h
  | cons s spacing ih =>
      obtain ⟨token, gap⟩ := s
      obtain ⟨hreadable, hgap⟩ := hspacing _ List.mem_cons_self
      have hlater : ∀ s ∈ spacing, s.1.Readable ∧ ∀ c ∈ s.2, isBlank c := fun s hs =>
        hspacing s (List.mem_cons_of_mem _ hs)
      have hrest := ih hgap hlater hchain.tail
      simp only [spaced, List.map_cons, List.append_assoc]
      apply layout_blanks hfront
      cases token with
      | number literal =>
          have hnumber : (number literal).IsNumber := trivial
          exact .number hreadable (isDigit_head_spaced hgap hlater hnumber hchain) hrest
      | symbol c =>
          rw [toList_text_symbol]
          exact .symbol hreadable hrest
      | leftParen => exact .leftParen hrest
      | rightParen => exact .rightParen hrest

/-- A token in front of a text that is spaced out, apart from what it is followed by. -/
private theorem laidOut_cons (token : Token) (hreadable : token.Readable)
    (hend : token.IsNumber → ∀ c ∈ text.head?, c.isDigit = false) (h : LaidOut tokens text) :
    LaidOut (token :: tokens) (token.text.toList ++ text) := by
  obtain ⟨front, spacing, rfl, rfl, hfront, hspacing, hchain⟩ := h
  refine ⟨[], (token, front) :: spacing, rfl, rfl, by simp, ?_, ?_⟩
  · intro s hs
    rcases List.mem_cons.1 hs with rfl | hs
    · exact ⟨hreadable, hfront⟩
    · exact hspacing s hs
  · cases spacing with
    | nil => exact List.isChain_singleton _
    | cons next spacing =>
        refine List.isChain_cons_cons.2 ⟨?_, hchain⟩
        rintro hnumber hnext rfl
        -- the second number would go on with a digit where the first one ends
        obtain ⟨next, gap⟩ := next
        cases next with
        | number literal =>
            obtain ⟨⟨d, hd⟩, -⟩ := hspacing _ List.mem_cons_self
            obtain ⟨c, rest, heq, hc⟩ := Decimal.exists_head_of_numeral hd
            have hhead := hend hnumber c (by simp [spaced, Token.text, heq])
            rw [hc] at hhead
            cases hhead
        | symbol | leftParen | rightParen => exact hnext

/-- The two descriptions of a text made of tokens and blanks agree. -/
theorem layout_iff_laidOut : Layout tokens text ↔ LaidOut tokens text := by
  constructor
  · intro h
    induction h with
    | nil => exact ⟨[], [], rfl, rfl, by simp, by simp, .nil⟩
    | @blank c tokens text hc h ih =>
        obtain ⟨front, spacing, htokens, rfl, hfront, hspacing, hchain⟩ := ih
        refine ⟨c :: front, spacing, htokens, ?_, ?_, hspacing, hchain⟩
        · cases spacing <;> rfl
        · intro c' hc'
          rcases List.mem_cons.1 hc' with rfl | hc'
          · exact hc
          · exact hfront c' hc'
    | number hreadable hend h ih => exact laidOut_cons _ hreadable (fun _ => hend) ih
    | @symbol c tokens text hc h ih =>
        have hcons := laidOut_cons (.symbol c) hc False.elim ih
        rwa [toList_text_symbol] at hcons
    | leftParen h ih => exact laidOut_cons .leftParen trivial False.elim ih
    | rightParen h ih => exact laidOut_cons .rightParen trivial False.elim ih
  · rintro ⟨front, spacing, rfl, rfl, hfront, hspacing, hchain⟩
    exact layout_spaced hfront hspacing hchain

/-! ## Following the scanner -/

/-- A number is cut off where no digit follows. -/
theorem isDigit_head_splitNumber (text : List Char) :
    ∀ c ∈ (splitNumber text).2.head?, c.isDigit = false := by
  have hdrop : ∀ l : List Char, ∀ c ∈ (l.dropWhile Char.isDigit).head?, c.isDigit = false := by
    intro l c hc
    have hhead := List.head?_dropWhile_not Char.isDigit l
    rwa [Option.mem_def.1 hc] at hhead
  unfold splitNumber
  dsimp only
  split
  · split
    · -- the point is left over
      intro c hc
      cases hc
      decide
    · exact hdrop _
  · exact hdrop text

/-- What the scanner finds behind the tokens that it has already, the text is laid out with. -/
theorem exists_layout_of_scanFrom {before : List Token} {position : ℕ}
    (h : scanFrom before position text = .ok tokens) :
    ∃ later, tokens = before.reverse ++ later ∧ Layout later text := by
  fun_induction scanFrom before position text with
  | case1 before position =>
      cases h
      exact ⟨[], (List.append_nil _).symm, .nil⟩
  | case2 before position c rest hblank ih =>
      obtain ⟨later, htokens, hlater⟩ := ih h
      exact ⟨later, htokens, .blank hblank hlater⟩
  | case3 before position c rest hblank hdigit ih =>
      obtain ⟨later, htokens, hlater⟩ := ih h
      refine ⟨number (String.ofList (splitNumber (c :: rest)).1) :: later, by simp [htokens], ?_⟩
      have hreadable : (number (String.ofList (splitNumber (c :: rest)).1)).Readable := by
        simpa [Readable] using exists_numeral_splitNumber hdigit
      have hlayout := Layout.number hreadable (isDigit_head_splitNumber (c :: rest)) hlater
      rwa [String.toList_ofList, splitNumber_append] at hlayout
  | case4 before position c rest hblank hdigit token htoken ih =>
      obtain ⟨later, htokens, hlater⟩ := ih h
      refine ⟨token :: later, by simp [htokens], ?_⟩
      obtain ⟨rfl, hc⟩ | ⟨rfl, rfl⟩ | ⟨rfl, rfl⟩ := ofChar?_eq_some_iff.1 htoken
      · exact .symbol hc hlater
      · exact .leftParen hlater
      · exact .rightParen hlater
  | case5 => cases h

/-! ## The main result -/

private theorem scan_eq_ok_of_laidOut {source : String} (h : LaidOut tokens source.toList) :
    scan source = .ok tokens :=
  scanFrom_of_layout (layout_iff_laidOut.2 h) [] 0

/-- A text is cut into tokens exactly when it is made of them and of blanks, with a blank at least
between two numbers, and when every symbol among them is that of an operator.  So the tokens are
unique, and changing the gaps does not change them. -/
theorem scan_eq_ok_iff_laidOut :
    (∀ (source : String) (tokens : List Token),
      scan source = .ok tokens ↔ LaidOut tokens source.toList) ∧
    (∀ (source : String) (tokens tokens' : List Token),
      LaidOut tokens source.toList → LaidOut tokens' source.toList → tokens = tokens') ∧
    ∀ (source source' : String) (tokens : List Token),
      LaidOut tokens source.toList → LaidOut tokens source'.toList →
        scan source' = scan source := by
  refine ⟨?_, ?_, ?_⟩
  · intro source tokens
    constructor
    · intro h
      obtain ⟨later, rfl, hlater⟩ := exists_layout_of_scanFrom h
      exact layout_iff_laidOut.1 hlater
    · exact scan_eq_ok_of_laidOut
  · intro source tokens tokens' h h'
    exact Except.ok.inj ((scan_eq_ok_of_laidOut h).symm.trans (scan_eq_ok_of_laidOut h'))
  · intro source source' tokens h h'
    rw [scan_eq_ok_of_laidOut h, scan_eq_ok_of_laidOut h']

/-- Two numbers need the blank between them, and the factorial behind the second needs none. -/
theorem scan_two_numbers :
    scan "2 7!" = .ok [.number "2", .number "7", .symbol '!'] ∧
      scan " 2\t7 !" = scan "2 7!" := by
  have hreadable : (number "2").Readable ∧ (number "7").Readable ∧ (symbol '!').Readable :=
    ⟨⟨_, .whole (by simp) (by simp)⟩, ⟨_, .whole (by simp) (by simp)⟩, isSymbol_symbol .factorial⟩
  have hlaid : LaidOut [.number "2", .number "7", .symbol '!'] "2 7!".toList :=
    ⟨[], [(.number "2", [' ']), (.number "7", []), (.symbol '!', [])], rfl, rfl,
      by simp [isBlank], by simp [hreadable, isBlank], by simp [Apart, IsNumber]⟩
  have hwider : LaidOut [.number "2", .number "7", .symbol '!'] " 2\t7 !".toList :=
    ⟨[' '], [(.number "2", ['\t']), (.number "7", [' ']), (.symbol '!', [])], rfl, rfl,
      by simp [isBlank], by simp [hreadable, isBlank], by simp [Apart, IsNumber]⟩
  exact ⟨(scan_eq_ok_iff_laidOut.1 _ _).2 hlaid, scan_eq_ok_iff_laidOut.2.2 _ _ _ hlaid hwider⟩

end Reckon.Token
