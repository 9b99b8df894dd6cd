import Reckon.Proofs.Decimal.Numeral
import Reckon.Token.Scan

/-!
# Texts laid out with tokens

A text is a layout of tokens when it consists of theirs, in their order, and of blanks, and no
number runs into digits that follow it.  Such a text is cut into exactly these tokens
(`Token.scanFrom_of_layout`): a number ends where its layout says, because what follows it starts
neither with a digit nor with a point.

The symbols of a layout are those of operators, while the scanner goes by a list of its own.  The
two agree (`Token.mem_symbolChars_iff`), and all that is said here of the scanner's tokens of one
character rests on that (`Token.ofChar?_eq_some_iff`).
-/

namespace Reckon.Token

open Decimal

variable {token : Token} {tokens : List Token} {text rest : List Char} {c : Char} {d : Decimal}

/-- Whether the token can be cut from a text. -/
def Readable : Token → Prop
  | number literal => ∃ d, Numeral literal.toList d
  | symbol c => Operator.isSymbol c
  | leftParen | rightParen => True

/-- The text consists of the tokens and of blanks. -/
inductive Layout : List Token → List Char → Prop where
  | nil : Layout [] []
  | blank {c : Char} {tokens : List Token} {text : List Char} (hc : isBlank c)
      (h : Layout tokens text) : Layout tokens (c :: text)
  | number {literal : String} {tokens : List Token} {text : List Char}
      (hreadable : (number literal).Readable) (hend : ∀ c ∈ text.head?, c.isDigit = false)
      (h : Layout tokens text) : Layout (number literal :: tokens) (literal.toList ++ text)
  | symbol {c : Char} {tokens : List Token} {text : List Char} (hc : Operator.isSymbol c)
      (h : Layout tokens text) : Layout (symbol c :: tokens) (c :: text)
  | leftParen {tokens : List Token} {text : List Char} (h : Layout tokens text) :
      Layout (leftParen :: tokens) ('(' :: text)
  | rightParen {tokens : List Token} {text : List Char} (h : Layout tokens text) :
      Layout (rightParen :: tokens) (')' :: text)

/-! ## Characters that start tokens -/

theorem exists_symbol_eq (h : Operator.isSymbol c) : ∃ op : Operator, op.symbol = c := by
  obtain ⟨op, -, hop⟩ := List.any_eq_true.1 h
  exact ⟨op, by simpa using hop⟩

theorem isSymbol_symbol (op : Operator) : Operator.isSymbol op.symbol :=
  List.any_eq_true.2 ⟨op, op.mem_all, beq_self_eq_true op.symbol⟩

/-- The characters that the scanner takes for symbols are the symbols of the operators. -/
theorem mem_symbolChars_iff : c ∈ symbolChars ↔ Operator.isSymbol c := by
  constructor
  · have hall : symbolChars.all Operator.isSymbol := by decide
    exact List.all_eq_true.1 hall c
  · intro h
    obtain ⟨op, rfl⟩ := exists_symbol_eq h
    cases op <;> decide

theorem symbol_facts (op : Operator) :
    isBlank op.symbol = false ∧ op.symbol.isDigit = false ∧ op.symbol ≠ '.' ∧
      op.symbol ≠ '(' ∧ op.symbol ≠ ')' := by
  cases op <;> decide

/-- The tokens of one character are the symbols of the operators and the two parentheses. -/
theorem ofChar?_eq_some_iff :
    ofChar? c = some token ↔
      token = symbol c ∧ Operator.isSymbol c ∨ token = leftParen ∧ c = '(' ∨
        token = rightParen ∧ c = ')' := by
  unfold ofChar?
  rw [if_congr mem_symbolChars_iff rfl rfl]
  constructor
  · intro h
    split at h
    · next hc => exact Or.inr (Or.inl ⟨(Option.some.inj h).symm, hc⟩)
    · split at h
      · next hc => exact Or.inr (Or.inr ⟨(Option.some.inj h).symm, hc⟩)
      · split at h
        · next hc => exact Or.inl ⟨(Option.some.inj h).symm, hc⟩
        · cases h
  · rintro (⟨rfl, hc⟩ | ⟨rfl, rfl⟩ | ⟨rfl, rfl⟩)
    · obtain ⟨op, rfl⟩ := exists_symbol_eq hc
      obtain ⟨-, -, -, hleft, hright⟩ := symbol_facts op
      rw [if_neg hleft, if_neg hright, if_pos hc]
    · rfl
    · rfl

theorem isBlank_of_isDigit (h : c.isDigit) : isBlank c = false := by
  rw [Bool.eq_false_iff]
  intro hblank
  simp only [isBlank, Bool.or_eq_true, beq_iff_eq] at hblank
  rcases hblank with (((rfl | rfl) | rfl) | rfl) | rfl <;> revert h <;> decide

theorem Layout.head_ne_point (h : Layout tokens text) : ∀ c ∈ text.head?, c ≠ '.' := by
  intro c hc
  cases h with
  | nil => cases hc
  | blank hblank =>
      cases hc
      rintro rfl
      exact absurd hblank (by decide)
  | number hreadable =>
      obtain ⟨d, hd⟩ := hreadable
      obtain ⟨first, rest, heq, hfirst⟩ := exists_head_of_numeral hd
      rw [heq] at hc
      cases hc
      rintro rfl
      exact absurd hfirst (by decide)
  | symbol hsymbol =>
      cases hc
      obtain ⟨op, rfl⟩ := exists_symbol_eq hsymbol
      exact (symbol_facts op).2.2.1
  | leftParen | rightParen =>
      cases hc
      decide

/-! ## Cutting the text -/

/-- A number is cut off where its digits end. -/
theorem splitNumber_of_numeral (h : Numeral text d)
    (hrest : ∀ c ∈ rest.head?, c.isDigit = false ∧ c ≠ '.') :
    splitNumber (text ++ rest) = (text, rest) := by
  have hend : ∀ c ∈ rest.head?, c.isDigit = false := fun c hc => (hrest c hc).1
  cases h with
  | whole hne hdigits =>
      obtain ⟨htake, hdrop⟩ := takeWhile_append_of_end rest hdigits hend
      unfold splitNumber
      rw [htake, hdrop]
      split
      · -- a point would have made the number longer
        exact absurd rfl (hrest '.' rfl).2
      · rfl
  | @point integral fraction hne hdigits hne' hdigits' =>
      obtain ⟨htake, hdrop⟩ := takeWhile_append_of_end ('.' :: (fraction ++ rest)) hdigits
        (by simp)
      obtain ⟨htake', hdrop'⟩ := takeWhile_append_of_end rest hdigits' hend
      rw [List.append_assoc, List.cons_append]
      simp [splitNumber, htake, hdrop, htake', hdrop', hne']

theorem scanFrom_number {literal : String} (hreadable : (number literal).Readable)
    (hrest : ∀ c ∈ rest.head?, c.isDigit = false ∧ c ≠ '.') (before : List Token)
    (position : ℕ) :
    scanFrom before position (literal.toList ++ rest) =
      scanFrom (number literal :: before) (position + literal.toList.length) rest := by
  obtain ⟨d, hd⟩ := hreadable
  obtain ⟨c, tail, heq, hc⟩ := exists_head_of_numeral hd
  have hsplit := splitNumber_of_numeral hd hrest
  have hblank : ¬isBlank c := by simp [isBlank_of_isDigit hc]
  rw [heq, List.cons_append] at hsplit ⊢
  rw [scanFrom, if_neg hblank, dif_pos hc, hsplit, ← heq, String.ofList_toList]

theorem scanFrom_symbol (hc : Operator.isSymbol c) (before : List Token) (position : ℕ) :
    scanFrom before position (c :: rest) =
      scanFrom (symbol c :: before) (position + 1) rest := by
  have hchar : ofChar? c = some (symbol c) := ofChar?_eq_some_iff.2 (Or.inl ⟨rfl, hc⟩)
  obtain ⟨op, rfl⟩ := exists_symbol_eq hc
  obtain ⟨hblank, hdigit, -⟩ := symbol_facts op
  rw [scanFrom, if_neg (by simp [hblank]), dif_neg (by simp [hdigit]), hchar]

/-- A text is cut into the tokens that it is laid out with. -/
theorem scanFrom_of_layout (h : Layout tokens text) (before : List Token) (position : ℕ) :
    scanFrom before position text = .ok (before.reverse ++ tokens) := by
  induction h generalizing before position with
  | nil => rw [scanFrom, List.append_nil]
  | blank hc h ih => rw [scanFrom, if_pos hc, ih]
  | number hreadable hend h ih =>
      rw [scanFrom_number hreadable (fun c hc => ⟨hend c hc, h.head_ne_point c hc⟩), ih]
      simp
  | symbol hc h ih =>
      rw [scanFrom_symbol hc, ih]
      simp
  | leftParen h ih =>
      rw [scanFrom, if_neg (by decide), dif_neg (by decide)]
      exact (ih ..).trans (by simp)
  | rightParen h ih =>
      rw [scanFrom, if_neg (by decide), dif_neg (by decide)]
      exact (ih ..).trans (by simp)

theorem scan_of_layout (h : Layout tokens text) : scan (String.ofList text) = .ok tokens := by
  unfold scan
  rw [String.toList_ofList, scanFrom_of_layout h]
  rfl

/-! ## What is cut from a text -/

/-- The number at the front of a text that starts with a digit is a numeral. -/
theorem exists_numeral_splitNumber (h : c.isDigit) :
    ∃ d, Numeral (splitNumber (c :: text)).1 d := by
  have hdigits : ∀ c' ∈ (c :: text).takeWhile Char.isDigit, c'.isDigit :=
    List.all_eq_true.1 List.all_takeWhile
  have hne : (c :: text).takeWhile Char.isDigit ≠ [] := by simp [h]
  unfold splitNumber
  dsimp only
  split
  · next rest hrest =>
    split
    · exact ⟨_, .whole hne hdigits⟩
    · next hfraction =>
      exact ⟨_, .point hne hdigits (by simpa using hfraction)
        (List.all_eq_true.1 List.all_takeWhile)⟩
  · exact ⟨_, .whole hne hdigits⟩

theorem of_ofChar? {bound : ℕ} (h : ofChar? c = some token) (hpos : 1 ≤ bound) :
    token.Readable ∧ token.text.toList.length ≤ bound := by
  obtain ⟨rfl, hsymbol⟩ | ⟨rfl, -⟩ | ⟨rfl, -⟩ := ofChar?_eq_some_iff.1 h
  · exact ⟨hsymbol, by simpa [Token.text] using hpos⟩
  · exact ⟨trivial, hpos⟩
  · exact ⟨trivial, hpos⟩

/-- Every token that is cut from a text can be, and is no longer than the text. -/
theorem of_mem_scanFrom {before : List Token} {position bound : ℕ}
    (h : scanFrom before position text = .ok tokens) (hlength : text.length ≤ bound)
    (hbefore : ∀ t ∈ before, t.Readable ∧ t.text.toList.length ≤ bound) :
    ∀ t ∈ tokens, t.Readable ∧ t.text.toList.length ≤ bound := by
  fun_induction scanFrom before position text with
  | case1 before position =>
      cases h
      simpa using hbefore
  | case2 before position c rest hblank ih =>
      exact ih h (Nat.le_of_succ_le hlength) hbefore
  | case3 before position c rest hblank hdigit ih =>
      have hsplit := congrArg List.length (splitNumber_append (c :: rest))
      rw [List.length_append] at hsplit
      refine ih h (by omega) ?_
      intro t ht
      rcases List.mem_cons.1 ht with rfl | ht
      · refine ⟨?_, by simp only [Token.text, String.toList_ofList]; omega⟩
        simpa [Readable] using exists_numeral_splitNumber hdigit
      · exact hbefore t ht
  | case4 before position c rest hblank hdigit token htoken ih =>
      have hpos : 1 ≤ bound := (Nat.le_add_left 1 rest.length).trans hlength
      refine ih h (Nat.le_of_succ_le hlength) ?_
      intro t ht
      rcases List.mem_cons.1 ht with rfl | ht
      · exact of_ofChar? htoken hpos
      · exact hbefore t ht
  | case5 => cases h

theorem of_mem_scan {source : String} (h : scan source = .ok tokens) :
    ∀ t ∈ tokens, t.Readable ∧ t.text.toList.length ≤ source.toList.length :=
  of_mem_scanFrom h le_rfl (by simp)

/-- A character that is not recognized is no blank. -/
theorem not_isBlank_of_scanFrom {before : List Token} {position : ℕ} {e : ScanError}
    (h : scanFrom before position text = .error e) : ¬isBlank e.character := by
  fun_induction scanFrom before position text with
  | case1 => cases h
  | case2 before position c rest hblank ih => exact ih h
  | case3 before position c rest hblank hdigit ih => exact ih h
  | case4 before position c rest hblank hdigit token htoken ih => exact ih h
  | case5 before position c rest hblank hdigit htoken =>
      cases h
      exact hblank

end Reckon.Token
